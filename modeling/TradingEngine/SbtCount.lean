/-
Counting sequenced packets (`network/NetworkIO.cpp`, `session/SoupBinTcp.h`,
`session/Sequence_SBT.h`).

`pkt_handler` raises the number of the session at each sequenced packet it is called for.
`SBTPacketHandler` calls it for the packets that lie in a segment as a whole, up to the first
that is not for the parser.

* `sbtScan_of_count` — the loop over a segment with the number is the loop without it;
* `countScan_sequenced`, `countScan_other`, `countScan_fragment` — how the packets of a segment
  raise the number;
* `fillPending_whole` — the rest of a split packet completes it, and nothing is counted.
-/
import TradingEngine.SbtLogin
import TradingEngine.SoupScan

namespace TradingEngine

open FallibleRun StreamFraming

/-! ### Packets of a session -/

/-- A packet that the exchange sends in a session, behind the answer to the login. -/
structure SbtFrame where
  type : UInt8
  payload : List UInt8
  fits : payload.length + 1 < 2 ^ 16
  inSession : type ≠ 0x41 ∧ type ≠ 0x4A

namespace SbtFrame

variable (f : SbtFrame)

/-- The high byte of the length. -/
def hi : UInt8 := UInt8.ofNat ((f.payload.length + 1) / 256)

/-- The low byte of the length. -/
def lo : UInt8 := UInt8.ofNat ((f.payload.length + 1) % 256)

def bytes : List UInt8 := f.hi :: f.lo :: f.type :: f.payload

/-- `S`. -/
def isSequenced : Bool := f.type = 0x53

@[simp] theorem length_bytes : f.bytes.length = f.payload.length + 3 := rfl

theorem length_bytes_pos : 0 < f.bytes.length := by
  rw [length_bytes]
  omega

/-- The length bytes say how long the packet is. -/
theorem readU16be_length : readU16be f.hi f.lo + 2 = f.bytes.length := by
  have h := f.fits
  rw [readU16be, hi, lo, UInt8.toNat_ofNat', UInt8.toNat_ofNat', length_bytes]
  omega

theorem toNat_hi_le (h : f.bytes.length ≤ packetSize) : f.hi.toNat ≤ 7 := by
  have hlen : f.payload.length + 3 ≤ 2048 := h
  rw [hi, UInt8.toNat_ofNat']
  omega

/-- The two bytes joined give the length when the low one is below `0x80`. -/
theorem joinLen_eq (h : f.bytes.length ≤ packetSize) (hlo : f.lo.toNat < 0x80) :
    joinLen (charToU16 f.hi) f.lo = f.bytes.length := by
  have hhi := f.toNat_hi_le h
  have hlen := f.readU16be_length
  have hfits : f.bytes.length ≤ 2048 := h
  have hchar : charToU16 f.hi = f.hi.toNat := by
    rw [charToU16, signExtend_of_lt (by omega)]
    omega
  rw [readU16be] at hlen
  rw [hchar, joinLen, signExtend_of_lt hlo, ← Nat.shiftLeft_add_eq_or_of_lt (by omega),
    Nat.shiftLeft_eq]
  omega

end SbtFrame

/-! ### The handler and the number -/

/-- The session id in the answer to a login. -/
theorem size_sessionId {start : ℕ} (h : start + 33 ≤ packetSize) :
    min (start + 13) packetSize - (start + 3) = 10 := by omega

/-- `SoupBinTcp::pkt_handler` with what `handleSequencedData` and `handleLoginAccepted` do to
the sequence of the session. -/
def pktHandlerSeq (data : Vector UInt8 packetSize) (start : ℕ) (seq : SequenceSBT) :
    Except Fault (SBTAction × SequenceSBT) :=
  match data.toList[start + 2]? with
  | none => .error .outOfBounds
  | some type =>
    if type = 0x53 then .ok (.toParser, seq.increaseSeq)
    else if type = 0x41 then
      if h : start + 33 ≤ packetSize then
        let session := (data.extract (start + 3) (start + 13)).cast (size_sessionId h)
        .ok (.notToParser, (seq.setSessId session).setSeq ((data.toList.drop (start + 13)).take 20))
      else .error .outOfBounds
    else (pktHandler data start).map fun action => (action, seq)

/-- `sbtScan` with the sequence of the session. -/
def countScan : ℕ → RxEntry → ℕ → Option FreePacket → SequenceSBT →
    Except Fault (ScanResult × SequenceSBT)
  | 0, _, _, _, _ => .error .outOfBounds
  | fuel + 1, rx, offset, spare, seq =>
    if rx.pkt.len ≤ offset then .ok (.deliver rx, seq)
    else do
      let (pktLen, lenPartial) ← packetLen rx offset
      if rx.pkt.len < pktLen + offset ∨ lenPartial = true then
        (stashRest rx offset pktLen lenPartial spare).map fun res => (res, seq)
      else do
        let (action, seq) ← pktHandlerSeq rx.pkt.data offset seq
        match action with
        | .toParser =>
          if h : rx.pkt.msgCount.toNat < maxAppMsg then
            countScan fuel
              { rx with
                pkt :=
                  { rx.pkt with
                    offsets := rx.pkt.offsets.set rx.pkt.msgCount.toNat offset h
                    msgCount := rx.pkt.msgCount + 1 } }
              (offset + pktLen) spare seq
          else .error .outOfBounds
        | .reconnect => .ok (.close, seq)
        | .disconnect => .ok (.close, seq)
        | .notToParser => .ok (.drop, seq)
        | .ignore => .ok (.drop, seq)

theorem pktHandler_of_seq {data : Vector UInt8 packetSize} {start : ℕ} {seq seq' : SequenceSBT}
    {action : SBTAction} (h : pktHandlerSeq data start seq = .ok (action, seq')) :
    pktHandler data start = .ok action := by
  unfold pktHandlerSeq at h
  split at h
  · cases h
  · rename_i type htype
    split at h
    · rename_i hS
      cases h
      rw [pktHandler, htype]
      exact if_pos hS
    · split at h
      · rename_i hA
        split at h
        · cases h
          rw [pktHandler, htype, hA]
          rfl
        · cases h
      · obtain ⟨action', haction, heq⟩ := map_eq_ok_iff.mp h
        cases heq
        exact haction

/-- **The loop with the number is the loop without it.** -/
theorem sbtScan_of_count {fuel : ℕ} {rx : RxEntry} {offset : ℕ} {spare : Option FreePacket}
    {seq seq' : SequenceSBT} {res : ScanResult}
    (h : countScan fuel rx offset spare seq = .ok (res, seq')) :
    sbtScan fuel rx offset spare = .ok res := by
  induction fuel generalizing rx offset seq with
  | zero => cases h
  | succ fuel ih =>
    rw [countScan] at h
    rw [sbtScan]
    split at h
    · rename_i hend
      cases h
      rw [if_pos hend]
    · rename_i hmore
      obtain ⟨⟨pktLen, lenPartial⟩, hlen, h⟩ := bind_eq_ok_iff.mp h
      rw [if_neg hmore]
      refine bind_eq_ok_iff.mpr ⟨(pktLen, lenPartial), hlen, ?_⟩
      dsimp only at h ⊢
      split at h
      · -- a fragment: nothing is counted
        rename_i hpart
        obtain ⟨res', hstash, heq⟩ := map_eq_ok_iff.mp h
        cases heq
        rw [if_pos hpart]
        exact hstash
      · rename_i hwhole
        obtain ⟨⟨action, seq₁⟩, hhandler, h⟩ := bind_eq_ok_iff.mp h
        rw [if_neg hwhole]
        refine bind_eq_ok_iff.mpr ⟨action, pktHandler_of_seq hhandler, ?_⟩
        cases action with
        | toParser =>
          dsimp only at h ⊢
          split at h
          · rename_i hroom
            rw [dif_pos hroom]
            exact ih h
          · cases h
        | reconnect | disconnect | notToParser | ignore =>
          cases h
          rfl

/-- **The answer to a login sets the number.** -/
theorem pktHandlerSeq_loginAccepted {data : Vector UInt8 packetSize} {start : ℕ}
    (seq : SequenceSBT) (htype : data.toList[start + 2]? = some 0x41)
    (hfits : start + 33 ≤ packetSize) :
    ∃ seq', pktHandlerSeq data start seq = .ok (.notToParser, seq') ∧
      seq'.lastSeenSeqnum = sbtStrnumToInt ((data.toList.drop (start + 13)).take 20) := by
  rw [pktHandlerSeq, htype]
  exact ⟨_, dif_pos hfits, rfl⟩

/-! ### The loop over a segment -/

/-- `n` packets are counted from one number to the other. -/
def Counts (seq seq' : SequenceSBT) (n : ℕ) : Prop :=
  seq'.lastSeenSeqnum = seq.lastSeenSeqnum + UInt64.ofNat n

theorem counts_zero (seq : SequenceSBT) : Counts seq seq 0 := (UInt64.add_zero _).symm

theorem Counts.of_increase {seq seq' : SequenceSBT} {n : ℕ} (h : Counts seq.increaseSeq seq' n) :
    Counts seq seq' (n + 1) := by
  rw [Counts, h, UInt64.ofNat_add, UInt64.add_comm (UInt64.ofNat n), ← UInt64.add_assoc]
  rfl

/-- The packet waits for the rest of a frame of which `k` bytes were received. -/
structure Awaits (pkt : RxPacket) (f : SbtFrame) (k : ℕ) : Prop where
  isPartial : pkt.isPartial = true
  one : k = 1 → pkt.isLenReceived = false ∧ pkt.len = charToU16 f.hi
  more : k ≠ 1 → pkt.isLenReceived = true ∧ pkt.len = f.bytes.length ∧
    pkt.lastPktRemainingLen = Int16.ofInt (f.bytes.length - k)

section scan

variable {f : SbtFrame} {k offset fuel : ℕ} {rx : RxEntry} {more l : List UInt8}
  {spare : Option FreePacket} {seq : SequenceSBT}

theorem Holding.length_le (h : Holding rx.pkt offset (l ++ more)) :
    offset + l.length ≤ rx.pkt.len := by
  have hlen := h.length_eq
  have hin := h.inside
  rw [List.length_append] at hlen
  omega

theorem packetLen_whole (hrx : Holding rx.pkt offset (f.bytes ++ more)) :
    packetLen rx offset = .ok (f.bytes.length, false) := by
  have hle := hrx.length_le
  have hfits : rx.pkt.len ≤ 2048 := hrx.fits
  rw [packetLen_two hrx, f.readU16be_length, Nat.mod_eq_of_lt (by omega)]

theorem type_of_holding (hrx : Holding rx.pkt offset (f.bytes ++ more)) :
    rx.pkt.data.toList[offset + 2]? = some f.type := by
  rw [hrx.getElem? (by rw [List.length_append, f.length_bytes]; omega)]
  rfl

theorem pktHandlerSeq_sequenced (hf : f.isSequenced)
    (hrx : Holding rx.pkt offset (f.bytes ++ more)) :
    pktHandlerSeq rx.pkt.data offset seq = .ok (.toParser, seq.increaseSeq) := by
  rw [pktHandlerSeq, type_of_holding hrx]
  exact if_pos (of_decide_eq_true hf)

/-- What is not sequenced is not counted, and not for the parser. -/
theorem pktHandlerSeq_other (seq : SequenceSBT) (hf : ¬f.isSequenced)
    (hrx : Holding rx.pkt offset (f.bytes ++ more)) :
    ∃ action, action ≠ .toParser ∧ pktHandlerSeq rx.pkt.data offset seq = .ok (action, seq) := by
  have hS : f.type ≠ 0x53 := fun h => hf (decide_eq_true h)
  obtain ⟨hA, hJ⟩ := f.inSession
  have haction : ∃ action, action ≠ .toParser ∧ pktHandler rx.pkt.data offset = .ok action := by
    rw [pktHandler, type_of_holding hrx]
    dsimp only
    rw [if_neg hS, if_neg hA, if_neg hJ]
    split
    · exact ⟨_, SBTAction.noConfusion, rfl⟩
    · split
      · exact ⟨_, SBTAction.noConfusion, rfl⟩
      · split
        · exact ⟨_, SBTAction.noConfusion, rfl⟩
        · split
          · exact ⟨_, SBTAction.noConfusion, rfl⟩
          · exact ⟨_, SBTAction.noConfusion, rfl⟩
  obtain ⟨action, hne, hhandler⟩ := haction
  refine ⟨action, hne, ?_⟩
  rw [pktHandlerSeq, type_of_holding hrx]
  dsimp only
  rw [if_neg hS, if_neg hA, hhandler]
  rfl

/-- **Sequenced packets that lie in the segment as a whole are counted.** -/
theorem countScan_sequenced (fuel : ℕ) (spare : Option FreePacket) (seq : SequenceSBT)
    (frames : List SbtFrame) (hseq : ∀ f ∈ frames, f.isSequenced)
    (hroom : rx.pkt.msgCount.toNat + frames.length ≤ maxAppMsg)
    (hrx : Holding rx.pkt offset (stream SbtFrame.bytes frames ++ l)) :
    ∃ rx' seq', countScan (fuel + frames.length) rx offset spare seq =
        countScan fuel rx' (offset + (stream SbtFrame.bytes frames).length) spare seq' ∧
      Holding rx'.pkt (offset + (stream SbtFrame.bytes frames).length) l ∧
      rx'.pkt.isPartial = rx.pkt.isPartial ∧ Counts seq seq' frames.length := by
  induction frames generalizing rx offset seq with
  | nil => exact ⟨rx, seq, rfl, hrx, rfl, counts_zero seq⟩
  | cons f fs ih =>
    rw [List.length_cons] at hroom
    rw [stream_cons, List.append_assoc] at hrx
    have hle := hrx.length_le
    have hpos := f.length_bytes_pos
    have hcount : rx.pkt.msgCount.toNat < maxAppMsg := by omega
    have hsucc := toNat_succ_msgCount hcount
    obtain ⟨rx', seq', hscan, hrest, hwhole, hcounts⟩ := @ih (offset + f.bytes.length) { rx with
        pkt :=
          { rx.pkt with
            offsets := rx.pkt.offsets.set rx.pkt.msgCount.toNat offset hcount
            msgCount := rx.pkt.msgCount + 1 } } seq.increaseSeq
      (fun g hg => hseq g (List.mem_cons_of_mem _ hg))
      (by show (rx.pkt.msgCount + 1).toNat + _ ≤ _; omega)
      ⟨hrx.advance.fits, hrx.advance.inside, hrx.advance.rest⟩
    have hoffset : offset + (stream SbtFrame.bytes (f :: fs)).length =
        offset + f.bytes.length + (stream SbtFrame.bytes fs).length := by
      rw [stream_cons, List.length_append, Nat.add_assoc]
    rw [hoffset]
    refine ⟨rx', seq', ?_, hrest, hwhole, hcounts.of_increase⟩
    rw [← hscan, List.length_cons, ← Nat.add_assoc, countScan, if_neg (by omega),
      packetLen_whole hrx]
    show (if rx.pkt.len < f.bytes.length + offset ∨ false = true then _ else _) = _
    rw [if_neg (by rintro (h | h) <;> [omega; cases h]),
      pktHandlerSeq_sequenced (hseq f List.mem_cons_self) hrx]
    exact dif_pos hcount

theorem countScan_end (hrx : Holding rx.pkt offset []) :
    countScan (fuel + 1) rx offset spare seq = .ok (.deliver rx, seq) := by
  have hlen := hrx.length_eq
  rw [List.length_nil] at hlen
  rw [countScan, if_pos (by omega)]

/-- **Nothing behind another packet is counted.** -/
theorem countScan_other (fuel : ℕ) (spare : Option FreePacket) (seq : SequenceSBT)
    (hf : ¬f.isSequenced) (hrx : Holding rx.pkt offset (f.bytes ++ more)) :
    countScan (fuel + 1) rx offset spare seq = .ok (.drop, seq) ∨
      countScan (fuel + 1) rx offset spare seq = .ok (.close, seq) := by
  have hle := hrx.length_le
  have hpos := f.length_bytes_pos
  obtain ⟨action, hne, hhandler⟩ := pktHandlerSeq_other seq hf hrx
  rw [countScan, if_neg (by omega), packetLen_whole hrx]
  show (if rx.pkt.len < f.bytes.length + offset ∨ false = true then _ else _) = _ ∨
    (if rx.pkt.len < f.bytes.length + offset ∨ false = true then _ else _) = _
  rw [if_neg (by rintro (h | h) <;> [omega; cases h]), hhandler]
  cases action with
  | toParser => exact absurd rfl hne
  | reconnect | disconnect => exact .inr rfl
  | notToParser | ignore => exact .inl rfl

/-- **The beginning of a packet is stashed, and not counted.** -/
theorem countScan_fragment (fuel : ℕ) (seq : SequenceSBT) (free : FreePacket) (hk : 0 < k)
    (hin : k < f.bytes.length) (hfits : f.bytes.length < 2 ^ 16)
    (hrx : Holding rx.pkt offset (f.bytes.take k)) :
    ∃ e, countScan (fuel + 1) rx offset (some free) seq = .ok (.stash e, seq) ∧
      Awaits e.pkt f k := by
  have hlen := hrx.length_eq
  have hsize := hrx.fits
  have hoff := hrx.inside
  rw [List.length_take, Nat.min_eq_left (by omega)] at hlen
  have hslice := hrx.slice_rest
  obtain ⟨data, hdata, -⟩ := writeAt_of_le free.pkt.data 0 (f.bytes.take k)
    (by rw [List.length_take]; omega)
  by_cases hone : k = 1
  · subst hone
    have htake : f.bytes.take 1 = [f.hi] := rfl
    have hscan : countScan (fuel + 1) rx offset (some free) seq =
        (stashRest rx offset (charToU16 f.hi) true (some free)).map fun res => (res, seq) := by
      rw [countScan, if_neg (by omega), packetLen_one (htake ▸ hrx)]
      exact if_pos (.inr rfl)
    rw [stashRest_of_copy hslice hdata] at hscan
    exact ⟨_, hscan, rfl, fun _ => ⟨rfl, rfl⟩, fun h => absurd rfl h⟩
  · obtain ⟨k', rfl⟩ : ∃ n, k = n + 2 := ⟨k - 2, by omega⟩
    have htake : f.bytes.take (k' + 2) = f.hi :: f.lo :: (f.type :: f.payload).take k' := rfl
    have hscan : countScan (fuel + 1) rx offset (some free) seq =
        (stashRest rx offset f.bytes.length false (some free)).map fun res => (res, seq) := by
      rw [countScan, if_neg (by omega), packetLen_two (htake ▸ hrx), f.readU16be_length,
        Nat.mod_eq_of_lt hfits]
      exact if_pos (.inl (by omega))
    rw [stashRest_of_copy hslice hdata] at hscan
    refine ⟨_, hscan, rfl, fun h => absurd h hone, fun _ => ⟨free.lenReceived, rfl, ?_⟩⟩
    show Int16.ofInt (f.bytes.length - (rx.pkt.len - offset : ℕ)) = _
    rw [← hlen]

end scan

/-! ### The rest of a split packet -/

/-- With the next byte of the frame the pending packet knows its length. -/
theorem fillLen_of_awaits {pkt : RxPacket} {f : SbtFrame} {k : ℕ} (h : Awaits pkt f k)
    (hfits : f.bytes.length ≤ packetSize) {b : UInt8}
    (hb : k = 1 → b = f.lo ∧ f.lo.toNat < 0x80) :
    (fillLen pkt b).len = f.bytes.length ∧
      (fillLen pkt b).lastPktRemainingLen = Int16.ofInt (f.bytes.length - k) := by
  rw [fillLen]
  by_cases hk : k = 1
  · obtain ⟨hrecv, hlen⟩ := h.one hk
    obtain ⟨rfl, hlow⟩ := hb hk
    have hjoin : joinLen pkt.len f.lo = f.bytes.length := by
      rw [hlen]
      exact f.joinLen_eq hfits hlow
    rw [if_neg (by rw [hrecv]; exact Bool.false_ne_true)]
    refine ⟨hjoin, ?_⟩
    show Int16.ofInt (joinLen pkt.len f.lo - 1) = _
    rw [hjoin, hk]
    rfl
  · obtain ⟨hrecv, hlen, hrem⟩ := h.more hk
    rw [if_pos hrecv]
    exact ⟨hlen, hrem⟩

/-- **A segment that brings the rest of a packet completes it**; the handler is not called. -/
theorem fillPending_whole {f : SbtFrame} {k : ℕ} {e rx : RxEntry} {more : List UInt8}
    (h : Awaits e.pkt f k) (hin : k < f.bytes.length)
    (hfits : f.bytes.length ≤ packetSize) (hlow : k = 1 → f.lo.toNat < 0x80)
    (hrx : Holding rx.pkt 0 (f.bytes.drop k ++ more)) :
    ∃ e', fillPending e rx 0 = .ok (true, e') ∧ e'.pkt.isPartial = false ∧
      takeCount (fillLen e.pkt (rx.pkt.data.toList.getD 0 0)) rx.pkt.len = f.bytes.length - k := by
  have hlo : ∀ b, f.bytes[k]? = some b → k = 1 → b = f.lo ∧ f.lo.toNat < 0x80 := by
    intro b hb hone
    rw [hone] at hb
    exact ⟨(Option.some.inj hb).symm, hlow hone⟩
  obtain ⟨b, data, -, hfill, -, htake⟩ := fillPending_rest (e := e) hin hfits
    (fun b hb => fillLen_of_awaits h hfits (hlo b hb)) hrx
  exact ⟨_, hfill, rfl, htake⟩

end TradingEngine
