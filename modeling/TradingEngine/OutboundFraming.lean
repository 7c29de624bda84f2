/-
The framing of what a SoupBinTCP session sends (`session/LoginController.cpp`,
`session/SoupBinTcp.{h,cpp}`, `protocol/Builder_Dispatch.cpp`).

The receiver splits the stream by the length in front of each packet: two bytes that say how
many follow.  The builders write the length of their message; a login packet says that 47
bytes follow, and 47 bytes are sent, the two of the length among them.

* `deframe_eq_iff` — a stream splits into its packets exactly when each says its length;
* `framed_of_store` — an OUCH message does;
* `not_framed_firstLogin`, `framed_reLogin_iff` — a login packet does not;
* `outbound_deframes_iff` — so a stream deframes exactly when there is no login in it.
-/
import TradingEngine.NetworkReceive
import TradingEngine.OuchHistories
import TradingEngine.SbtLogin

namespace TradingEngine

open BytePatches Endian FallibleRun

/-! ### Splitting by length prefixes -/

/-- The packets of a stream, and what is left of an incomplete one. -/
def deframe (bytes : List UInt8) : List (List UInt8) × List UInt8 :=
  match bytes with
  | hi :: lo :: rest =>
    if readU16be hi lo ≤ rest.length then
      ((hi :: lo :: rest.take (readU16be hi lo)) :: (deframe (rest.drop (readU16be hi lo))).1,
        (deframe (rest.drop (readU16be hi lo))).2)
    else ([], bytes)
  | _ => ([], bytes)
termination_by bytes.length
decreasing_by
  all_goals
    rw [List.length_drop, List.length_cons, List.length_cons]
    omega

/-- The packet says its own length. -/
def LengthFramed (p : List UInt8) : Prop :=
  ∃ hi lo rest, p = hi :: lo :: rest ∧ readU16be hi lo = rest.length

/-- A stream begins with a framed packet. -/
theorem deframe_append {p : List UInt8} (h : LengthFramed p) (bytes : List UInt8) :
    deframe (p ++ bytes) = (p :: (deframe bytes).1, (deframe bytes).2) := by
  obtain ⟨hi, lo, rest, rfl, hlen⟩ := h
  rw [List.cons_append, List.cons_append, deframe, hlen, List.length_append,
    if_pos (Nat.le_add_right _ _), List.take_left, List.drop_left]

theorem deframe_nil : deframe [] = ([], []) := by
  rw [deframe]
  intro hi lo rest h
  cases h

/-- What `deframe` finds is framed. -/
theorem framed_of_mem_deframe {bytes p : List UInt8} (h : p ∈ (deframe bytes).1) :
    LengthFramed p := by
  fun_induction deframe bytes with
  | case1 hi lo rest hle ih =>
    rcases List.mem_cons.mp h with rfl | htail
    · exact ⟨hi, lo, rest.take (readU16be hi lo), rfl, by
        rw [List.length_take, Nat.min_eq_left hle]⟩
    · exact ih htail
  | case2 hi lo rest hle => cases h
  | case3 bytes hshort => cases h

/-- **A stream splits into its packets** exactly when each says its length. -/
theorem deframe_eq_iff (ps : List (List UInt8)) :
    deframe ps.flatten = (ps, []) ↔ ∀ p ∈ ps, LengthFramed p := by
  constructor
  · intro h p hp
    have hmem : p ∈ (deframe ps.flatten).1 := by
      rw [h]
      exact hp
    exact framed_of_mem_deframe hmem
  · intro h
    induction ps with
    | nil => exact deframe_nil
    | cons p ps ih =>
      rw [List.flatten_cons, deframe_append (h p List.mem_cons_self),
        ih fun q hq => h q (List.mem_cons_of_mem _ hq)]

/-! ### The packets of a session -/

/-- What a session sends with: the builders and the static buffer of the numbers. -/
structure OuchSession where
  auth : UserInfoSBT
  bist : Bist.OuchBuilder
  nasdaq : Nasdaq.OuchBuilder := {}
  strnum : StrnumBuffer := {}

/-- A packet is built, in an object from the pool with whatever it held before. -/
inductive BuildMove
  | login (slot : TxPacket)
  | relogin (slot : TxPacket) (seq : SequenceSBT)
  | bist (slot : TxPacket) (o : OuchSlot)
  | nasdaq (slot : TxPacket) (o : OuchSlot)

namespace OuchSession

/-- `LoginAttempt` and `buildOUCH_BIST`, `buildOUCH_NASDAQ` for the session `index`. -/
def step (index : UInt8) (s : OuchSession) : BuildMove → Except Fault (OuchSession × TxPacket)
  | .login slot => do
    let data ← buildFirstLoginRequest s.auth slot.data
    .ok (s, { slot with data := data, len := 47, sockIndex := index, isLoginMsg := true })
  | .relogin slot seq => do
    let (data, strnum) ← buildReLoginRequest s.auth seq s.strnum slot.data
    .ok ({ s with strnum := strnum },
      { slot with data := data, len := 47, sockIndex := index, isLoginMsg := true })
  | .bist slot o => do
    let (bist, msg) ← s.bist.build o
    let pkt ← slot.fillPacket msg index false
    .ok ({ s with bist := bist }, pkt)
  | .nasdaq slot o => do
    let (nasdaq, _, msg) ← s.nasdaq.build o
    let pkt ← slot.fillPacket msg index false
    .ok ({ s with nasdaq := nasdaq }, pkt)

/-- The packets of a sequence of moves. -/
def packets (index : UInt8) : OuchSession → List BuildMove → Except Fault (List TxPacket)
  | _, [] => .ok []
  | s, m :: ms => do
    let (s, pkt) ← s.step index m
    let pkts ← packets index s ms
    .ok (pkt :: pkts)

end OuchSession

/-- The move does not build a login packet; a text of 28 characters that begins with `-` is
written over the length of a relogin, and makes it right. -/
def BuildMove.NoLogin : BuildMove → Prop
  | .login _ => False
  | .relogin _ seq => seq.sessText.length = 28 ∧ seq.sessText.head? = some 45
  | .bist _ _ => True
  | .nasdaq _ _ => True

/-! ### OUCH messages -/

theorem readU16be_write (v : UInt16) : readU16be (v >>> 8).toUInt8 v.toUInt8 = v.toNat := by
  have hlt := v.toNat_lt
  rw [readU16be, UInt16.toNat_toUInt8, UInt16.toNat_toUInt8, UInt16.toNat_shiftRight]
  show v.toNat >>> 8 % 256 * 256 + v.toNat % 256 = v.toNat
  rw [Nat.shiftRight_eq_div_pow]
  omega

theorem not_covered_of_le {ps : List (Patch UInt8)} {k i : ℕ} (h : ∀ p ∈ ps, k ≤ p.pos)
    (hi : i < k) : ¬CoveredBy ps i := by
  rintro ⟨p, hp, hle, -⟩
  exact absurd (h p hp) (by omega)

/-- All fields of a message are behind its header. -/
def BehindHeader (ps : List (Patch UInt8)) : Prop := ∀ p ∈ ps, 3 ≤ p.pos

theorem behindHeader_nil : BehindHeader [] := by
  intro p hp
  cases hp

@[simp] theorem behindHeader_cons (p : Patch UInt8) (ps : List (Patch UInt8)) :
    BehindHeader (p :: ps) ↔ 3 ≤ p.pos ∧ BehindHeader ps := List.forall_mem_cons

/-- **An OUCH message says its length.** -/
theorem framed_of_store {n : ℕ} {r r' : Ring 2 n UInt8} {len : UInt16} {ps : List (Patch UInt8)}
    {msg : List UInt8} (h : storeMessage r len ps = .ok (r', msg)) (hps : BehindHeader ps)
    (htwo : 2 ≤ len.toNat) (hn : len.toNat ≤ n) : LengthFramed msg ∧ msg.length = len.toNat := by
  obtain ⟨-, rfl⟩ := storeMessage_ok h
  have hlength := length_message (r.written (sbtHeader len :: ps)) hn
  refine ⟨?_, hlength⟩
  -- nothing behind the header writes into its two bytes
  have hbyte : ∀ i : Fin n, (hi : i.val < 2) →
      (message (r.written (sbtHeader len :: ps)) len.toNat)[i.val]? =
        some ((writeU16be (len - 2)).get ⟨i.val, hi⟩) := by
    intro i hi
    have hcovers : (sbtHeader len).Covers i := ⟨Nat.zero_le _, by
      show i.val < 0 + 3
      omega⟩
    have hvalue : r.written (sbtHeader len :: ps) i = (writeU16be (len - 2)).get ⟨i.val, hi⟩ := by
      rw [Ring.written, patches_cons, patches_of_not_covered _ (not_covered_of_le hps (by omega)),
        patch, dif_pos hcovers]
      exact List.getElem_append_left hi
    rw [message, List.getElem?_take, if_pos (by omega), List.getElem?_ofFn, dif_pos i.isLt, hvalue]
  have hzero := hbyte ⟨0, by omega⟩ Nat.zero_lt_two
  have hone := hbyte ⟨1, by omega⟩ Nat.one_lt_two
  obtain ⟨hi, lo, rest, hmsg⟩ : ∃ hi lo rest,
      message (r.written (sbtHeader len :: ps)) len.toNat = hi :: lo :: rest := by
    obtain ⟨hi, more, hmore⟩ := List.exists_cons_of_length_pos (hlength ▸ (by omega : 0 < len.toNat))
    rw [hmore, List.length_cons] at hlength
    obtain ⟨lo, rest, hrest⟩ := List.exists_cons_of_length_pos (by omega : 0 < more.length)
    exact ⟨hi, lo, rest, by rw [hmore, hrest]⟩
  rw [hmsg] at hzero hone hlength ⊢
  refine ⟨hi, lo, rest, rfl, ?_⟩
  rw [Option.some.inj hzero, Option.some.inj hone]
  show readU16be ((len - 2) >>> 8).toUInt8 (len - 2).toUInt8 = _
  have hle : 2 ≤ len := UInt16.le_iff_toNat_le.mpr htwo
  rw [readU16be_write, UInt16.toNat_sub_of_le _ _ hle]
  rw [List.length_cons, List.length_cons] at hlength
  show len.toNat - 2 = _
  omega

namespace Bist

theorem behindHeader_enter {eci : List ExchangeClientInfo} {o : OuchSlot}
    {ps : List (Patch UInt8)} (h : buildEnterOrder eci o = .ok ps) : BehindHeader ps := by
  obtain ⟨token, -, h⟩ := bind_eq_ok_iff.mp h
  obtain ⟨e, -, h⟩ := bind_eq_ok_iff.mp h
  rw [← Except.ok.inj h]
  simp [enterFields, behindHeader_nil]

theorem behindHeader_replace {eci : List ExchangeClientInfo} {o : OuchSlot}
    {ps : List (Patch UInt8)} (h : buildReplaceOrder eci o = .ok ps) : BehindHeader ps := by
  obtain ⟨token, -, h⟩ := bind_eq_ok_iff.mp h
  obtain ⟨e, -, h⟩ := bind_eq_ok_iff.mp h
  rw [← Except.ok.inj h]
  simp [replaceFields, behindHeader_nil]

theorem behindHeader_cancel (o : OuchSlot) : BehindHeader (buildCancelOrder o) := by
  simp [buildCancelOrder, behindHeader_nil]

theorem behindHeader_cancelid (o : OuchSlot) : BehindHeader (buildCancelByOrderID o) := by
  simp [buildCancelByOrderID, behindHeader_nil]

/-- A message of `Builder_OUCH_BIST` says its length, and fits a packet. -/
theorem framed_build {b b' : OuchBuilder} {o : OuchSlot} {msg : List UInt8}
    (h : b.build o = .ok (b', msg)) : LengthFramed msg ∧ msg.length ≤ packetSize := by
  unfold OuchBuilder.build at h
  split at h
  · obtain ⟨ps, hps, h⟩ := bind_eq_ok_iff.mp h
    obtain ⟨⟨r, m⟩, hstore, h⟩ := bind_eq_ok_iff.mp h
    obtain ⟨hframed, hlen⟩ := framed_of_store hstore (behindHeader_enter hps) (by decide)
      (by decide)
    cases h
    exact ⟨hframed, hlen ▸ by decide⟩
  · obtain ⟨ps, hps, h⟩ := bind_eq_ok_iff.mp h
    obtain ⟨⟨r, m⟩, hstore, h⟩ := bind_eq_ok_iff.mp h
    obtain ⟨hframed, hlen⟩ := framed_of_store hstore (behindHeader_replace hps) (by decide)
      (by decide)
    cases h
    exact ⟨hframed, hlen ▸ by decide⟩
  · obtain ⟨⟨r, m⟩, hstore, h⟩ := bind_eq_ok_iff.mp h
    obtain ⟨hframed, hlen⟩ := framed_of_store hstore (behindHeader_cancel o) (by decide)
      (by decide)
    cases h
    exact ⟨hframed, hlen ▸ by decide⟩
  · obtain ⟨⟨r, m⟩, hstore, h⟩ := bind_eq_ok_iff.mp h
    obtain ⟨hframed, hlen⟩ := framed_of_store hstore (behindHeader_cancelid o) (by decide)
      (by decide)
    cases h
    exact ⟨hframed, hlen ▸ by decide⟩
  · cases h

end Bist

namespace Nasdaq

/-- What a request writes is behind its header. -/
theorem behindHeader_request {b b' : BuilderOuchNasdaq} {o : OuchSlot} {own : OwnFields}
    {len : UInt16} {ps : List (Patch UInt8)} (h : request b o = .ok (len, ps, b', own)) :
    BehindHeader ps ∧ 2 ≤ len.toNat ∧ len.toNat ≤ 126 := by
  unfold request at h
  split at h
  · obtain ⟨_, -, h⟩ := bind_eq_ok_iff.mp h
    obtain ⟨_, -, h⟩ := bind_eq_ok_iff.mp h
    cases h
    exact ⟨by simp [EnterRequest.patches, behindHeader_nil], by decide, by decide⟩
  · obtain ⟨_, -, h⟩ := bind_eq_ok_iff.mp h
    cases h
    exact ⟨by simp [ReplaceRequest.patches, behindHeader_nil], by decide, by decide⟩
  · cases h
    exact ⟨by simp [CancelRequest.patches, behindHeader_nil], by decide, by decide⟩
  · cases h
    exact ⟨by simp [ModifyRequest.patches, behindHeader_nil], by decide, by decide⟩
  · cases h
    exact ⟨by simp [buildAccountQueryRequest, behindHeader_nil], by decide, by decide⟩
  · cases h

/-- A message of `Builder_OUCH_NASDAQ` says its length, and fits a packet. -/
theorem framed_build {b b' : OuchBuilder} {o : OuchSlot} {own : OwnFields} {msg : List UInt8}
    (h : b.build o = .ok (b', own, msg)) : LengthFramed msg ∧ msg.length ≤ packetSize := by
  obtain ⟨⟨len, ps, refNums, own'⟩, hrequest, h⟩ := bind_eq_ok_iff.mp h
  obtain ⟨⟨r, m⟩, hstore, h⟩ := bind_eq_ok_iff.mp h
  obtain ⟨hps, htwo, hlen⟩ := behindHeader_request hrequest
  obtain ⟨hframed, hlength⟩ := framed_of_store hstore hps htwo hlen
  cases h
  exact ⟨hframed, by rw [hlength, packetSize]; omega⟩

end Nasdaq

/-! ### Login packets -/

/-- Of 47 bytes, 45 follow the length. -/
theorem framed_iff_of_length {p : List UInt8} (h : p.length = 47) :
    LengthFramed p ↔ p.take 2 = [0, 45] := by
  match p with
  | hi :: lo :: rest =>
    rw [List.length_cons, List.length_cons] at h
    have hrest : rest.length = 45 := by omega
    constructor
    · rintro ⟨hi', lo', rest', heq, hlen⟩
      cases heq
      have hhi := hi.toNat_lt
      have hlo := lo.toNat_lt
      rw [hrest, readU16be] at hlen
      have hhi0 : hi = 0 := UInt8.toNat_inj.mp (by
        show hi.toNat = 0
        omega)
      have hlo45 : lo = 45 := UInt8.toNat_inj.mp (by
        show lo.toNat = 45
        omega)
      rw [hhi0, hlo45]
      rfl
    · intro htake
      cases htake
      exact ⟨0, 45, rest, rfl, by rw [hrest]; rfl⟩

/-- A login packet says that 47 bytes follow, and 45 do. -/
theorem not_framed_firstLogin {auth : UserInfoSBT} {buf buf' : Vector UInt8 packetSize}
    (h : buildFirstLoginRequest auth buf = .ok buf') : ¬LengthFramed (buf'.toList.take 47) := by
  obtain ⟨buf₁, h₁, hread⟩ := toList_firstLogin auth buf
  rw [h₁, Except.ok.injEq] at h
  rw [framed_iff_of_length (by rw [List.length_take, Vector.length_toList]; rfl),
    List.take_take, ← h, hread]
  intro hprefix
  have hlo : (47 : UInt8) = 45 := (List.cons.inj (List.cons.inj hprefix).2).1
  exact absurd hlo (by decide)

/-- What a relogin leaves of the length, when the text that begins with its session id is
copied so that it ends with the 29th byte. -/
theorem reLogin_prefix_iff (auth : UserInfoSBT) {text : List UInt8} (rest : List UInt8)
    (hle : text.length ≤ 29) (hzero : 0 ∉ text) :
    ((loginHead auth ++ List.replicate 10 32).take (29 - text.length) ++ text ++ rest).take 2 =
        [0, 45] ↔
      text.length = 28 ∧ text.head? = some 45 := by
  obtain ⟨tail, htail⟩ : ∃ tail, loginHead auth ++ List.replicate 10 32 = 0 :: 47 :: tail :=
    ⟨_, rfl⟩
  rw [htail]
  rcases Nat.lt_trichotomy text.length 28 with hlt | heq | hgt
  · obtain ⟨k, hk⟩ : ∃ k, 29 - text.length = k + 2 := ⟨27 - text.length, by omega⟩
    rw [hk]
    refine iff_of_false (fun hprefix => ?_) fun h => absurd h.1 (by omega)
    have hlo : (47 : UInt8) = 45 := (List.cons.inj (List.cons.inj hprefix).2).1
    exact absurd hlo (by decide)
  · match text with
    | [] => cases heq
    | c :: cs =>
      rw [heq]
      show [0, c] = [0, 45] ↔ 28 = 28 ∧ some c = some 45
      simp
  · match text with
    | [] =>
      rw [List.length_nil] at hgt
      omega
    | c :: cs =>
      have hlen : 29 - (c :: cs).length = 0 := by omega
      rw [hlen]
      refine iff_of_false (fun hprefix => ?_) fun h => absurd h.1 (by omega)
      have hc : c = 0 := (List.cons.inj hprefix).1
      exact hzero (hc ▸ List.mem_cons_self)

/-- So does a relogin, unless its session id was written over the length. -/
theorem framed_reLogin_iff {auth : UserInfoSBT} {seq : SequenceSBT} {buffer buffer' : StrnumBuffer}
    {buf buf' : Vector UInt8 packetSize}
    (h : buildReLoginRequest auth seq buffer buf = .ok (buf', buffer')) :
    LengthFramed (buf'.toList.take 47) ↔
      seq.sessText.length = 28 ∧ seq.sessText.head? = some 45 := by
  have hsess : 0 ∈ seq.session.toList ++ seq.behind ∧ seq.sessText.length ≤ 29 := by
    by_contra hno
    rw [not_and_or, Nat.not_le] at hno
    rw [reLogin_fault auth seq buffer buf hno] at h
    cases h
  obtain ⟨buf₁, buffer₁, h₁, hread⟩ := toList_reLogin auth seq buffer buf hsess.1 hsess.2
  rw [h₁] at h
  cases h
  rw [framed_iff_of_length (by rw [List.length_take, Vector.length_toList]; rfl),
    List.take_take, hread, List.append_assoc]
  exact reLogin_prefix_iff auth _ hsess.2 (zero_notMem_cString _)

/-! ### Streams -/

namespace OuchSession

variable {index : UInt8} {s s' : OuchSession}

/-- Which packets say their length. -/
theorem framed_step_iff {m : BuildMove} {pkt : TxPacket} (h : s.step index m = .ok (s', pkt)) :
    LengthFramed pkt.bytes ↔ m.NoLogin := by
  cases m with
  | login slot =>
    obtain ⟨data, hdata, h⟩ := bind_eq_ok_iff.mp h
    cases h
    exact iff_of_false (not_framed_firstLogin hdata) not_false
  | relogin slot seq =>
    obtain ⟨⟨data, strnum⟩, hdata, h⟩ := bind_eq_ok_iff.mp h
    cases h
    exact framed_reLogin_iff hdata
  | bist slot o =>
    obtain ⟨⟨b, msg⟩, hbuild, h⟩ := bind_eq_ok_iff.mp h
    obtain ⟨pkt', hfill, h⟩ := bind_eq_ok_iff.mp h
    obtain ⟨hframed, hlen⟩ := Bist.framed_build hbuild
    obtain ⟨pkt'', hfill', hbytes, -⟩ := slot.fillPacket_of_le index false hlen
    rw [hfill', Except.ok.injEq] at hfill
    cases h
    rw [← hfill, hbytes]
    exact iff_of_true hframed trivial
  | nasdaq slot o =>
    obtain ⟨⟨b, own, msg⟩, hbuild, h⟩ := bind_eq_ok_iff.mp h
    obtain ⟨pkt', hfill, h⟩ := bind_eq_ok_iff.mp h
    obtain ⟨hframed, hlen⟩ := Nasdaq.framed_build hbuild
    obtain ⟨pkt'', hfill', hbytes, -⟩ := slot.fillPacket_of_le index false hlen
    rw [hfill', Except.ok.injEq] at hfill
    cases h
    rw [← hfill, hbytes]
    exact iff_of_true hframed trivial

theorem framed_packets_iff {moves : List BuildMove} {pkts : List TxPacket}
    (h : packets index s moves = .ok pkts) :
    (∀ p ∈ pkts.map TxPacket.bytes, LengthFramed p) ↔ ∀ m ∈ moves, m.NoLogin := by
  induction moves generalizing s pkts with
  | nil =>
    cases h
    exact iff_of_true (fun p hp => absurd hp List.not_mem_nil)
      fun m hm => absurd hm List.not_mem_nil
  | cons m moves ih =>
    obtain ⟨⟨s', pkt⟩, hstep, h⟩ := bind_eq_ok_iff.mp h
    obtain ⟨pkts', hpackets, h⟩ := bind_eq_ok_iff.mp h
    cases h
    rw [List.map_cons, List.forall_mem_cons, List.forall_mem_cons, framed_step_iff hstep,
      ih hpackets]

end OuchSession

/-- **The stream deframes exactly when there is no login in it.** -/
theorem outbound_deframes_iff (index : UInt8) (s : OuchSession) (moves : List BuildMove)
    (pkts : List TxPacket) (h : OuchSession.packets index s moves = .ok pkts) :
    deframe (pkts.map TxPacket.bytes).flatten = (pkts.map TxPacket.bytes, []) ↔
      ∀ m ∈ moves, m.NoLogin := by
  rw [deframe_eq_iff, OuchSession.framed_packets_iff h]

/-- A session for the user `AAAAAA`. -/
def OuchSession.ofUser : OuchSession where
  auth := ⟨Vector.replicate 6 65, Vector.replicate 10 66⟩
  bist := { eciLocal := [] }

/-- A Cancel to BIST and an Account Query to NASDAQ. -/
theorem outbound_deframes_requests :
    ∃ pkts, OuchSession.packets 0 .ofUser [.bist {} (marked 2 14), .nasdaq {} (marked 4 14)] =
        .ok pkts ∧
      deframe (pkts.map TxPacket.bytes).flatten = (pkts.map TxPacket.bytes, []) := by
  obtain ⟨b, msg, hbist⟩ : ∃ b msg, OuchSession.ofUser.bist.build (marked 2 14) = .ok (b, msg) :=
    ⟨_, _, bind_eq_ok_iff.mpr ⟨_, storeMessage_of_fits _ _ (by decide), rfl⟩⟩
  obtain ⟨b', own, msg', hnasdaq⟩ : ∃ b' own msg',
      OuchSession.ofUser.nasdaq.build (marked 4 14) = .ok (b', own, msg') :=
    ⟨_, _, _, bind_eq_ok_iff.mpr ⟨_, rfl, bind_eq_ok_iff.mpr
      ⟨_, storeMessage_of_fits _ _ (by decide), rfl⟩⟩⟩
  obtain ⟨pkt, hfill, -⟩ := TxPacket.fillPacket_of_le {} 0 false (Bist.framed_build hbist).2
  obtain ⟨pkt', hfill', -⟩ := TxPacket.fillPacket_of_le {} 0 false (Nasdaq.framed_build hnasdaq).2
  have hpackets : OuchSession.packets 0 .ofUser
      [.bist {} (marked 2 14), .nasdaq {} (marked 4 14)] = .ok [pkt, pkt'] := by
    refine bind_eq_ok_iff.mpr ⟨({ OuchSession.ofUser with bist := b }, pkt), ?_,
      bind_eq_ok_iff.mpr ⟨[pkt'], ?_, rfl⟩⟩
    · exact bind_eq_ok_iff.mpr ⟨_, hbist, bind_eq_ok_iff.mpr ⟨_, hfill, rfl⟩⟩
    · refine bind_eq_ok_iff.mpr
        ⟨({ OuchSession.ofUser with bist := b, nasdaq := b' }, pkt'), ?_, rfl⟩
      exact bind_eq_ok_iff.mpr ⟨_, hnasdaq, bind_eq_ok_iff.mpr ⟨_, hfill', rfl⟩⟩
  refine ⟨_, hpackets, (outbound_deframes_iff 0 .ofUser _ _ hpackets).mpr fun m hm => ?_⟩
  rcases List.mem_pair.mp hm with rfl | rfl
  · trivial
  · trivial

/-- Of one login packet nothing comes out: it ends two bytes early. -/
theorem outbound_login_short :
    ∃ pkt, OuchSession.packets 0 .ofUser [.login {}] = .ok [pkt] ∧
      deframe pkt.bytes = ([], pkt.bytes) := by
  obtain ⟨data, hdata, hread⟩ := toList_firstLogin OuchSession.ofUser.auth ({} : TxPacket).data
  refine ⟨_, bind_eq_ok_iff.mpr ⟨_, bind_eq_ok_iff.mpr ⟨_, hdata, rfl⟩, rfl⟩, ?_⟩
  have hbytes : data.toList.take 47 =
      loginHead OuchSession.ofUser.auth ++ List.replicate 28 32 := by
    rw [hread, List.take_left']
    rw [List.length_append, length_loginHead, List.length_replicate]
  show deframe (data.toList.take 47) = _
  rw [TxPacket.bytes, hbytes]
  have hlen : (loginHead OuchSession.ofUser.auth ++ List.replicate 28 32).length = 47 := by
    rw [List.length_append, length_loginHead, List.length_replicate]
  obtain ⟨rest, hrest⟩ : ∃ rest, loginHead OuchSession.ofUser.auth ++ List.replicate 28 32 =
      0 :: 47 :: rest := ⟨_, rfl⟩
  rw [hrest, List.length_cons, List.length_cons] at hlen
  rw [hrest, deframe, if_neg]
  show ¬47 ≤ rest.length
  omega

end TradingEngine
