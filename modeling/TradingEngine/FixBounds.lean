/-
The bounds of the partial buffer and of the packets in `nextFixMsg`.

A call reads the packet from its offset on and writes the partial buffer from 0 or
`existing_len` on; `access` gives the ends of the two areas.  It is tied to the code
by three facts: a call succeeds exactly when the areas are inside the two arrays, what
lies behind the first makes no difference to it, and what lies behind the second is
left alone.

* `nextFixMsg_ok_iff`, `nextFixMsg_congr`, `nextFixMsg_frame` — these facts;
* `callsInside_iff` — the calls of the loop for one packet;
* `runInside_iff` — every run of packets.
-/
import TradingEngine.FixProgress

namespace TradingEngine

open FallibleRun FixCursor

/-! ### What a call reads and writes -/

/-- Nothing of the packet is read at `readEnd` or behind it, and nothing of the partial
buffer is written at `writeEnd` or behind it. -/
structure FixAccess where
  readEnd : ℕ
  writeEnd : ℕ
  deriving DecidableEq, Repr

namespace FixCursor

/-- The copy of missing bytes. -/
def copyAccess (c : FixCursor) : FixAccess where
  readEnd := max c.pkt.len (c.offset + min c.buf.remainingLen c.pkt.len)
  writeEnd := c.buf.existingLen + min c.buf.remainingLen c.pkt.len

/-- The cursor at which the copy is made when the resumed header ends at `pos`. -/
def withBodyLen (c : FixCursor) (pos : ℕ) : FixCursor :=
  { c with
    buf :=
      { c.buf with
        bodyLen := (c.resumeValue c.resumePos).foldl appendDigit c.buf.bodyLen
        bodylenState := .done
        remainingLen :=
          sizeT (pos + 1 + (c.resumeValue c.resumePos).foldl appendDigit c.buf.bodyLen + 7) } }

/-- The resumed header: the character at `pos` is looked at, also behind the packet. -/
def headerAccess (c : FixCursor) : FixAccess :=
  let pos := c.resumePos + (c.resumeValue c.resumePos).length
  if c.pkt.len ≤ pos ∧ c.pkt.data.toList[pos]? = some soh then
    { readEnd := max (pos + 1) (c.withBodyLen pos).copyAccess.readEnd
      writeEnd := (c.withBodyLen pos).copyAccess.writeEnd }
  else
    { readEnd := max c.pkt.len (pos + 1)
      writeEnd := c.buf.existingLen + (pos - c.offset) }

/-- The framing: the scan ends with the packet, and a message that does so is not
copied. -/
def frameAccess (c : FixCursor) : FixAccess :=
  let s := scanBodyLen c.offset c.rest
    { state := c.buf.bodylenState, bodyLen := 0, saved := c.buf.bodyLen, bodyLenEnd := 0 }
  let existingLen := c.pkt.len - c.offset
  let msgLen := sizeT (s.bodyLenEnd + s.bodyLen + 7 - c.offset)
  { readEnd := c.pkt.len
    writeEnd :=
      if s.bodyLenEnd = 0 then existingLen
      else if existingLen < msgLen then existingLen
      else if msgLen < existingLen then msgLen
      else 0 }

/-- What a call of `nextFixMsg` reads and writes. -/
def access (c : FixCursor) : FixAccess :=
  if c.pkt.len ≤ c.offset then ⟨0, 0⟩
  else if c.buf.active = true ∧ c.pkt.consumed = false then
    if c.buf.remainingLen = 0 ∧ c.buf.bodylenState ≠ .done then c.headerAccess
    else c.copyAccess
  else c.frameAccess

end FixCursor

/-! ### The areas and the arrays -/

theorem slice_ok_iff {n : ℕ} (data : Vector UInt8 n) (pos count : ℕ) :
    (∃ src, slice data pos count = .ok src) ↔ pos + count ≤ n := by
  constructor
  · rintro ⟨src, h⟩
    by_contra hle
    rw [slice, if_neg hle] at h
    exact absurd h (by simp)
  · exact fun h => ⟨_, slice_of_le data h⟩

theorem length_of_slice {n : ℕ} {data : Vector UInt8 n} {pos count : ℕ} {src : List UInt8}
    (h : slice data pos count = .ok src) : src.length = count := by
  have hle := (slice_ok_iff data pos count).mp ⟨src, h⟩
  rw [slice_of_le data hle, Except.ok.injEq] at h
  rw [← h, List.length_take, List.length_drop, Vector.length_toList]
  omega

theorem writeAt_ok_iff {n : ℕ} (data : Vector UInt8 n) (pos : ℕ) (src : List UInt8) :
    (∃ data', writeAt data pos src = .ok data') ↔ pos + src.length ≤ n := by
  constructor
  · rintro ⟨data', h⟩
    exact (take_of_writeAt h).1
  · intro h
    obtain ⟨data', hdata, -⟩ := writeAt_of_le data pos src h
    exact ⟨data', hdata⟩

theorem slice_congr {n e pos count : ℕ} {data data' : Vector UInt8 n}
    (h : data'.toList.take e = data.toList.take e) (hle : pos + count ≤ e) :
    slice data' pos count = slice data pos count := by
  have hcut : ∀ l : List UInt8, (l.drop pos).take count = ((l.take e).drop pos).take count := by
    intro l
    rw [List.drop_take, List.take_take, Nat.min_eq_left (by omega)]
  rw [slice, slice, hcut data'.toList, hcut data.toList, h]

/-- A copy succeeds exactly when both ends are inside the arrays. -/
theorem copy_ok_iff {n m pos to_ count : ℕ} {data : Vector UInt8 n} {buf : Vector UInt8 m}
    {k : List UInt8 → Vector UInt8 m → FixResult} (hk : ∀ src data, ∃ r, k src data = .ok r) :
    (∃ r, (do
      let src ← slice data pos count
      let data ← writeAt buf to_ src
      k src data) = .ok r) ↔ pos + count ≤ n ∧ to_ + count ≤ m := by
  constructor
  · rintro ⟨r, h⟩
    obtain ⟨src, hsrc, h⟩ := bind_eq_ok_iff.mp h
    obtain ⟨data', hdata, -⟩ := bind_eq_ok_iff.mp h
    refine ⟨(slice_ok_iff _ _ _).mp ⟨src, hsrc⟩, ?_⟩
    rw [← length_of_slice hsrc]
    exact (writeAt_ok_iff _ _ _).mp ⟨data', hdata⟩
  · rintro ⟨hread, hwrite⟩
    obtain ⟨src, hsrc⟩ := (slice_ok_iff data pos count).mpr hread
    obtain ⟨data', hdata⟩ := (writeAt_ok_iff buf to_ src).mpr (by rwa [length_of_slice hsrc])
    obtain ⟨r, hr⟩ := hk src data'
    exact ⟨r, by simp only [hsrc, hdata, hr, bind, Except.bind]⟩

theorem FixCursor.offset_le_resumePos (c : FixCursor) : c.offset ≤ c.resumePos := by
  rw [resumePos]
  cases c.buf.bodylenState <;> simp only [seek] <;> omega

section OkIff

variable {c : FixCursor}

theorem copyPartial_ok_iff (hlen : c.pkt.len ≤ packetSize) :
    (∃ r, c.copyPartial = .ok r) ↔
      c.copyAccess.readEnd ≤ packetSize ∧ c.copyAccess.writeEnd ≤ partialFixSize := by
  rw [copyPartial]
  refine (copy_ok_iff fun src data => ?_).trans ?_
  · dsimp only
    split
    · exact ⟨_, rfl⟩
    · exact ⟨_, rfl⟩
  · rw [copyAccess, max_le_iff, and_iff_right hlen]

theorem frameMsg_ok_iff (hc : Ready c) :
    (∃ r, c.frameMsg = .ok r) ↔
      c.frameAccess.readEnd ≤ packetSize ∧ c.frameAccess.writeEnd ≤ partialFixSize := by
  have hlen := hc.len
  have hoff := hc.offset
  rw [frameMsg, frameAccess]
  generalize scanBodyLen c.offset c.rest _ = s
  dsimp only
  rw [and_iff_right hlen]
  split
  · refine (copy_ok_iff fun src data => ⟨_, rfl⟩).trans ?_
    omega
  · generalize sizeT _ = msgLen
    split
    · refine (copy_ok_iff fun src data => ⟨_, rfl⟩).trans ?_
      omega
    · split
      · refine (copy_ok_iff fun src data => ⟨_, rfl⟩).trans ?_
        omega
      · have hsrc := slice_of_le c.pkt.data (show c.offset + msgLen ≤ packetSize by omega)
        simp [hsrc, bind, Except.bind]

theorem continuePartial_header_ok_iff (hlen : c.pkt.len ≤ packetSize)
    (hpending : c.buf.remainingLen = 0 ∧ c.buf.bodylenState ≠ .done) :
    (∃ r, c.continuePartial = .ok r) ↔
      c.headerAccess.readEnd ≤ packetSize ∧ c.headerAccess.writeEnd ≤ partialFixSize := by
  have hoff := c.offset_le_resumePos
  rw [continuePartial, if_pos hpending, headerAccess]
  dsimp only
  generalize hpos : c.resumePos + (c.resumeValue c.resumePos).length = pos
  have hheader : (∃ r, (do
      let src ← slice c.pkt.data c.offset (pos - c.offset)
      let data ← writeAt c.buf.data c.buf.existingLen src
      (.ok (none,
        { c with
          buf :=
            { c.buf with
              data := data
              bodyLen := (c.resumeValue c.resumePos).foldl appendDigit c.buf.bodyLen
              bodylenState := .readValue }
          pkt := { c.pkt with consumed := true } }) : FixResult)) = .ok r) ↔
      pos ≤ packetSize ∧ c.buf.existingLen + (pos - c.offset) ≤ partialFixSize := by
    refine (copy_ok_iff fun src data => ⟨_, rfl⟩).trans ?_
    omega
  -- the byte behind the digits is looked at only where the packet ends before it
  rw [resumedState]
  by_cases hle : c.pkt.len ≤ pos
  · rw [if_pos hle]
    cases hb : c.pkt.data.toList[pos]? with
    | none =>
      -- the packet is full and the digits run up to its end
      rw [List.getElem?_eq_none_iff, Vector.length_toList] at hb
      rw [if_neg (by simp), max_le_iff]
      constructor
      · rintro ⟨r, h⟩
        exact absurd h (by simp [bind, Except.bind])
      · rintro ⟨⟨-, h⟩, -⟩
        omega
    | some b =>
      have hpos' := (List.getElem?_eq_some_iff.mp hb).1
      rw [Vector.length_toList] at hpos'
      by_cases hsoh : b = soh
      · -- the header is complete, and the message is copied
        rw [if_pos ⟨hle, by rw [hsoh]⟩, hsoh, max_le_iff, and_iff_right (Nat.succ_le_of_lt hpos'),
          ← copyPartial_ok_iff (c := c.withBodyLen pos) hlen]
        simp only [if_true, bind, Except.bind]
        rfl
      · -- the header goes on in the next packet
        rw [if_neg (by simp [hsoh]), max_le_iff, and_iff_right hlen]
        simp only [if_neg hsoh, bind, Except.bind]
        refine Iff.trans ?_ (hheader.trans ?_)
        · rfl
        · omega
  · rw [if_neg hle, if_neg fun h => hle h.1, max_le_iff, and_iff_right hlen]
    simp only [bind, Except.bind]
    rw [if_neg hpending.2]
    refine Iff.trans ?_ (hheader.trans ?_)
    · rfl
    · omega

/-- **A call succeeds** exactly when what it reads and writes is inside the arrays. -/
theorem nextFixMsg_ok_iff (hlen : c.pkt.len ≤ packetSize) :
    (∃ r, c.nextFixMsg = .ok r) ↔
      c.access.readEnd ≤ packetSize ∧ c.access.writeEnd ≤ partialFixSize := by
  rw [nextFixMsg, access]
  by_cases hoff : c.pkt.len ≤ c.offset
  · rw [if_pos hoff, if_pos hoff]
    exact ⟨fun _ => ⟨Nat.zero_le _, Nat.zero_le _⟩, fun _ => ⟨_, rfl⟩⟩
  · rw [if_neg hoff, if_neg hoff]
    by_cases hactive : c.buf.active = true ∧ c.pkt.consumed = false
    · rw [if_pos hactive, if_pos hactive]
      by_cases hpending : c.buf.remainingLen = 0 ∧ c.buf.bodylenState ≠ .done
      · rw [if_pos hpending]
        exact continuePartial_header_ok_iff hlen hpending
      · rw [if_neg hpending, continuePartial, if_neg hpending]
        exact copyPartial_ok_iff hlen
    · rw [if_neg hactive, if_neg hactive]
      exact frameMsg_ok_iff ⟨hlen, Nat.lt_of_not_le hoff⟩

end OkIff

/-! ### What a call depends on -/

/-- A result without the packet, which keeps all but its flag. -/
def outcome (r : FixResult) : Except Fault (Option (List UInt8) × PartialFIXBuffer × ℕ × Bool) :=
  r.map fun x => (x.1, x.2.buf, x.2.offset, x.2.pkt.consumed)

/-- Two packets that a call cannot tell apart: the same bytes below `e`, and the same
flag if it matters. -/
structure SameBelow (e : ℕ) (active : Bool) (pkt pkt' : RxPacket) : Prop where
  len : pkt'.len = pkt.len
  bytes : pkt'.data.toList.take e = pkt.data.toList.take e
  consumed : active = true → pkt'.consumed = pkt.consumed

theorem outcome_eq_error {r : FixResult} {e : Fault} (h : outcome r = outcome (.error e)) :
    r = .error e := by
  cases r with
  | error e' =>
    rw [outcome, outcome, Except.map, Except.map, Except.error.injEq] at h
    rw [h]
  | ok x => exact absurd h (by simp [outcome, Except.map])

theorem outcome_eq_ok {r : FixResult} {msg : Option (List UInt8)} {c : FixCursor}
    (h : outcome r = outcome (.ok (msg, c))) :
    ∃ c', r = .ok (msg, c') ∧ c'.buf = c.buf ∧ c'.offset = c.offset ∧
      c'.pkt.consumed = c.pkt.consumed := by
  cases r with
  | error e => exact absurd h (by simp [outcome, Except.map])
  | ok x =>
    obtain ⟨msg', c'⟩ := x
    simp only [outcome, Except.map, Except.ok.injEq, Prod.mk.injEq] at h
    exact ⟨c', by rw [h.1], h.2⟩

namespace SameBelow

variable {e : ℕ} {active : Bool} {pkt pkt' : RxPacket}

theorem mono (h : SameBelow e active pkt pkt') {e' : ℕ} (he : e' ≤ e) :
    SameBelow e' active pkt pkt' where
  len := h.len
  bytes := by
    have hcut : ∀ l : List UInt8, l.take e' = (l.take e).take e' := by
      intro l
      rw [List.take_take, Nat.min_eq_left he]
    rw [hcut pkt'.data.toList, hcut pkt.data.toList, h.bytes]
  consumed := h.consumed

theorem received (h : SameBelow e active pkt pkt') (hle : pkt.len ≤ e) :
    pkt'.received = pkt.received := by
  rw [RxPacket.received, RxPacket.received, h.len, (h.mono hle).bytes]

theorem getElem? (h : SameBelow e active pkt pkt') {pos : ℕ} (hpos : pos < e) :
    pkt'.data.toList[pos]? = pkt.data.toList[pos]? := by
  have hcut : ∀ l : List UInt8, l[pos]? = (l.take e)[pos]? := by
    intro l
    rw [List.getElem?_take, if_pos hpos]
  rw [hcut pkt'.data.toList, hcut pkt.data.toList, h.bytes]

end SameBelow

/-- Copies of the same bytes, with the same made of them. -/
theorem outcome_copy {n m e pos to_ count : ℕ} {data data' : Vector UInt8 n} {buf : Vector UInt8 m}
    {k k' : List UInt8 → Vector UInt8 m → FixResult}
    (hbytes : data'.toList.take e = data.toList.take e) (hle : pos + count ≤ e)
    (hk : ∀ src d, outcome (k' src d) = outcome (k src d)) :
    outcome (do
      let src ← slice data' pos count
      let d ← writeAt buf to_ src
      k' src d) =
    outcome (do
      let src ← slice data pos count
      let d ← writeAt buf to_ src
      k src d) := by
  rw [slice_congr hbytes hle]
  cases slice data pos count with
  | error e => rfl
  | ok src =>
    cases hd : writeAt buf to_ src with
    | error e => simp only [hd, bind, Except.bind]
    | ok d =>
      simp only [hd, bind, Except.bind]
      exact hk src d

section Congr

variable {buf : PartialFIXBuffer} {pkt pkt' : RxPacket} {offset e : ℕ}

theorem outcome_copyPartial {active : Bool} (h : SameBelow e active pkt pkt')
    (he : (FixCursor.mk buf pkt offset).copyAccess.readEnd ≤ e) :
    outcome (FixCursor.mk buf pkt' offset).copyPartial =
      outcome (FixCursor.mk buf pkt offset).copyPartial := by
  have hle := (max_le_iff.mp he).2
  simp only [copyPartial, h.len]
  refine outcome_copy h.bytes hle fun src d => ?_
  split
  · rfl
  · rfl

theorem outcome_frameMsg (h : SameBelow e buf.active pkt pkt') (hlt : offset < pkt.len)
    (he : pkt.len ≤ e) :
    outcome (FixCursor.mk buf pkt' offset).frameMsg =
      outcome (FixCursor.mk buf pkt offset).frameMsg := by
  have hrest : (FixCursor.mk buf pkt' offset).rest = (FixCursor.mk buf pkt offset).rest := by
    rw [FixCursor.rest, FixCursor.rest, h.received he]
  simp only [frameMsg, hrest, h.len]
  generalize scanBodyLen offset _ _ = s
  generalize sizeT _ = msgLen
  split
  · exact outcome_copy h.bytes (by omega) fun _ _ => rfl
  · split
    · exact outcome_copy h.bytes (by omega) fun _ _ => rfl
    · split
      · exact outcome_copy h.bytes (by omega) fun _ _ => rfl
      · rw [slice_congr h.bytes (by omega)]
        cases slice pkt.data offset msgLen with
        | error e => rfl
        | ok src => rfl

theorem outcome_header (h : SameBelow e buf.active pkt pkt')
    (hpending : buf.remainingLen = 0 ∧ buf.bodylenState ≠ .done)
    (he : (FixCursor.mk buf pkt offset).headerAccess.readEnd ≤ e) :
    outcome (FixCursor.mk buf pkt' offset).continuePartial =
      outcome (FixCursor.mk buf pkt offset).continuePartial := by
  -- the access lies below `e`, so what is read is the same
  have hends : pkt.len ≤ e ∧ (FixCursor.mk buf pkt offset).resumePos +
      ((FixCursor.mk buf pkt offset).resumeValue
        (FixCursor.mk buf pkt offset).resumePos).length < e := by
    rw [headerAccess] at he
    dsimp only at he
    split at he
    · rw [max_le_iff, copyAccess, max_le_iff] at he
      exact ⟨he.2.1, he.1⟩
    · rw [max_le_iff] at he
      exact he
  have hreceived := h.received hends.1
  have hpos : (FixCursor.mk buf pkt' offset).resumePos =
      (FixCursor.mk buf pkt offset).resumePos := by
    simp only [resumePos, seek, hreceived]
  have hvalue : ∀ pos, (FixCursor.mk buf pkt' offset).resumeValue pos =
      (FixCursor.mk buf pkt offset).resumeValue pos := by
    intro pos
    simp only [resumeValue, hreceived]
  have hstate : (FixCursor.mk buf pkt' offset).resumedState
      ((FixCursor.mk buf pkt offset).resumePos + ((FixCursor.mk buf pkt offset).resumeValue
        (FixCursor.mk buf pkt offset).resumePos).length) =
      (FixCursor.mk buf pkt offset).resumedState
      ((FixCursor.mk buf pkt offset).resumePos + ((FixCursor.mk buf pkt offset).resumeValue
        (FixCursor.mk buf pkt offset).resumePos).length) := by
    simp only [resumedState, h.len, h.getElem? hends.2]
  simp only [continuePartial, if_pos hpending, hpos, hvalue, hstate]
  cases hst : (FixCursor.mk buf pkt offset).resumedState _ with
  | error e => simp only [bind, Except.bind, outcome]
  | ok st =>
    simp only [bind, Except.bind]
    by_cases hdone : st = .done
    · rw [if_pos hdone, if_pos hdone]
      subst hdone
      refine outcome_copyPartial h ?_
      rw [headerAccess] at he
      dsimp only at he
      rw [if_pos (resumedState_done hpending.2 hst), max_le_iff] at he
      exact he.2
    · rw [if_neg hdone, if_neg hdone]
      refine outcome_copy h.bytes ?_ fun _ _ => rfl
      have hoff := (FixCursor.mk buf pkt offset).offset_le_resumePos
      dsimp only at hoff
      omega

/-- **What lies behind `readEnd`** makes no difference to a call. -/
theorem nextFixMsg_congr (hlt : offset < pkt.len)
    (h : SameBelow (FixCursor.mk buf pkt offset).access.readEnd buf.active pkt pkt') :
    outcome (FixCursor.mk buf pkt' offset).nextFixMsg =
      outcome (FixCursor.mk buf pkt offset).nextFixMsg := by
  rw [access, if_neg (Nat.not_le.mpr hlt)] at h
  rw [nextFixMsg, nextFixMsg, if_neg (Nat.not_le.mpr hlt),
    if_neg (by show ¬ pkt'.len ≤ offset; rw [h.len]; omega)]
  by_cases hactive : buf.active = true ∧ pkt.consumed = false
  · have hactive' : buf.active = true ∧ pkt'.consumed = false :=
      ⟨hactive.1, (h.consumed hactive.1).trans hactive.2⟩
    rw [if_pos (by exact hactive)] at h
    rw [if_pos (by exact hactive'), if_pos (by exact hactive)]
    by_cases hpending : buf.remainingLen = 0 ∧ buf.bodylenState ≠ .done
    · rw [if_pos (by exact hpending)] at h
      exact outcome_header h hpending le_rfl
    · rw [if_neg (by exact hpending)] at h
      rw [continuePartial, continuePartial, if_neg (by exact hpending), if_neg (by exact hpending)]
      exact outcome_copyPartial h le_rfl
  · have hactive' : ¬ (buf.active = true ∧ pkt'.consumed = false) := by
      rintro ⟨ha, hc⟩
      exact hactive ⟨ha, (h.consumed ha).symm.trans hc⟩
    rw [if_neg (by exact hactive)] at h
    rw [if_neg (by exact hactive'), if_neg (by exact hactive)]
    exact outcome_frameMsg h hlt le_rfl

end Congr

/-! ### What a call leaves alone -/

theorem drop_of_writeAt {n pos : ℕ} {data data' : Vector UInt8 n} {src : List UInt8}
    (h : writeAt data pos src = .ok data') {e : ℕ} (he : pos + src.length ≤ e) :
    data'.toList.drop e = data.toList.drop e := by
  have hle := (take_of_writeAt h).1
  rw [writeAt, dif_pos hle, Except.ok.injEq] at h
  subst h
  show (data.toList.take pos ++ src ++ data.toList.drop (pos + src.length)).drop e = _
  have hlen : (data.toList.take pos ++ src).length = pos + src.length := by
    rw [List.length_append, List.length_take, Vector.length_toList]
    omega
  obtain ⟨k, rfl⟩ := Nat.exists_eq_add_of_le he
  rw [← hlen, List.drop_length_add_append, List.drop_drop, hlen]

/-- A copy and what is made of it leave the packet and the end of the buffer alone. -/
def Leaves (c : FixCursor) (e : ℕ) (r : Option (List UInt8) × FixCursor) : Prop :=
  r.2.buf.data.toList.drop e = c.buf.data.toList.drop e ∧
    r.2.pkt = { c.pkt with consumed := r.2.pkt.consumed }

theorem leaves_copy {c : FixCursor} {n pos to_ count e : ℕ} {data : Vector UInt8 n}
    {k : List UInt8 → Vector UInt8 partialFixSize → FixResult}
    {r : Option (List UInt8) × FixCursor}
    (h : (do
      let src ← slice data pos count
      let d ← writeAt c.buf.data to_ src
      k src d) = .ok r) (he : to_ + count ≤ e)
    (hk : ∀ src d r, k src d = .ok r →
      r.2.buf.data = d ∧ r.2.pkt = { c.pkt with consumed := r.2.pkt.consumed }) :
    Leaves c e r := by
  obtain ⟨src, hsrc, h⟩ := bind_eq_ok_iff.mp h
  obtain ⟨d, hd, h⟩ := bind_eq_ok_iff.mp h
  obtain ⟨hdata, hpkt⟩ := hk src d r h
  refine ⟨?_, hpkt⟩
  rw [hdata]
  exact drop_of_writeAt hd (by rw [length_of_slice hsrc]; exact he)

section Leaves

variable {c : FixCursor} {r : Option (List UInt8) × FixCursor}

theorem leaves_copyPartial (h : c.copyPartial = .ok r) :
    Leaves c c.copyAccess.writeEnd r := by
  rw [copyPartial] at h
  refine leaves_copy h le_rfl fun src d r h => ?_
  dsimp only at h
  split at h
  · rw [Except.ok.injEq] at h
    exact h ▸ ⟨rfl, rfl⟩
  · rw [Except.ok.injEq] at h
    exact h ▸ ⟨rfl, rfl⟩

theorem leaves_frameMsg (h : c.frameMsg = .ok r) : Leaves c c.frameAccess.writeEnd r := by
  rw [frameMsg] at h
  rw [frameAccess]
  generalize scanBodyLen c.offset c.rest _ = s at h ⊢
  dsimp only at h ⊢
  generalize sizeT _ = msgLen at h ⊢
  split at h
  · rw [if_pos ‹_›]
    refine leaves_copy h (by omega) fun src d r h => ?_
    rw [Except.ok.injEq] at h
    exact h ▸ ⟨rfl, rfl⟩
  · rw [if_neg ‹_›]
    split at h
    · rw [if_pos ‹_›]
      refine leaves_copy h (by omega) fun src d r h => ?_
      rw [Except.ok.injEq] at h
      exact h ▸ ⟨rfl, rfl⟩
    · rw [if_neg ‹_›]
      split at h
      · rw [if_pos ‹_›]
        refine leaves_copy h (by omega) fun src d r h => ?_
        rw [Except.ok.injEq] at h
        exact h ▸ ⟨rfl, rfl⟩
      · obtain ⟨src, -, h⟩ := bind_eq_ok_iff.mp h
        rw [Except.ok.injEq] at h
        exact h ▸ ⟨rfl, rfl⟩

theorem leaves_header (hpending : c.buf.remainingLen = 0 ∧ c.buf.bodylenState ≠ .done)
    (h : c.continuePartial = .ok r) : Leaves c c.headerAccess.writeEnd r := by
  rw [continuePartial, if_pos hpending] at h
  obtain ⟨st, hst, h⟩ := bind_eq_ok_iff.mp h
  rw [headerAccess]
  dsimp only at h ⊢
  by_cases hdone : st = .done
  · subst hdone
    rw [if_pos rfl] at h
    rw [if_pos (resumedState_done hpending.2 hst)]
    exact leaves_copyPartial h
  · rw [if_neg hdone] at h
    rw [if_neg]
    · refine leaves_copy h le_rfl fun src d r h => ?_
      rw [Except.ok.injEq] at h
      exact h ▸ ⟨rfl, rfl⟩
    · rintro ⟨hle, hb⟩
      rw [resumedState, if_pos hle, hb, Except.ok.injEq] at hst
      exact hdone (hst ▸ if_pos rfl)

/-- **A call** leaves the buffer behind `writeEnd` and the packet but its flag alone. -/
theorem nextFixMsg_frame (h : c.nextFixMsg = .ok r) : Leaves c c.access.writeEnd r := by
  rw [nextFixMsg] at h
  rw [access]
  split at h
  · rw [Except.ok.injEq] at h
    exact h ▸ ⟨rfl, rfl⟩
  · rw [if_neg ‹_›]
    split at h
    · rw [if_pos ‹_›]
      by_cases hpending : c.buf.remainingLen = 0 ∧ c.buf.bodylenState ≠ .done
      · rw [if_pos hpending]
        exact leaves_header hpending h
      · rw [continuePartial, if_neg hpending] at h
        rw [if_neg hpending]
        exact leaves_copyPartial h
    · rw [if_neg ‹_›]
      exact leaves_frameMsg h

end Leaves

/-! ### The calls of a run -/

/-- The cursors at which the loop calls `nextFixMsg`, from a cursor on. -/
inductive Calls : FixCursor → FixCursor → Prop
  | here (c : FixCursor) : Calls c c
  | next {c c' c'' : FixCursor} {msg : Option (List UInt8)}
      (hround : c.nextFixMsg = .ok (msg, c')) (hconsumed : c'.pkt.consumed = false)
      (h : Calls c' c'') : Calls c c''

/-- The cursors of the calls for packets that are received one after the other. -/
inductive RunCalls : PartialFIXBuffer → List RxPacket → FixCursor → Prop
  | packet {buf : PartialFIXBuffer} {pkt : RxPacket} {c : FixCursor} (pkts : List RxPacket)
      (h : Calls ⟨buf, pkt, 0⟩ c) : RunCalls buf (pkt :: pkts) c
  | later {buf buf' : PartialFIXBuffer} {pkt : RxPacket} {pkts : List RxPacket} {c : FixCursor}
      {msgs : List (List UInt8)} (hparse : parseFIX buf pkt = .ok (msgs, buf'))
      (h : RunCalls buf' pkts c) : RunCalls buf (pkt :: pkts) c

/-- The copy of the call ends inside the partial buffer, and it reads no byte that was
not received. -/
def Inside (c : FixCursor) : Prop :=
  c.access.writeEnd ≤ partialFixSize ∧ c.access.readEnd ≤ c.pkt.len

/-- A header that is resumed stops before the packet ends. -/
def StopsInside (buf : PartialFIXBuffer) (pkt : RxPacket) : Prop :=
  Resumes buf pkt → buf.HeaderPending → headerStop buf.bodylenState pkt.received < pkt.len

/-- The packet fits the buffer as it is. -/
def PacketFits (buf : PartialFIXBuffer) (pkt : RxPacket) : Prop :=
  StopsInside buf pkt ∧ firstCopyEnd buf pkt ≤ partialFixSize ∧
    ∀ l, framedBytes buf pkt = some l → ¬ Overruns l

/-- Every packet fits the buffer that the earlier ones leave. -/
def AllFit : PartialFIXBuffer → List RxPacket → Prop
  | _, [] => True
  | buf, pkt :: pkts =>
    PacketFits buf pkt ∧ ∀ msgs buf', parseFIX buf pkt = .ok (msgs, buf') → AllFit buf' pkts

/-- The framing copies what the announced length tells it to. -/
theorem frameAccess_eq {c : FixCursor} (hc : Ready c) :
    c.frameAccess = ⟨c.pkt.len, copiedLen c.announcedHere c.rest.length⟩ := by
  have hlen := length_rest hc.len
  have hfinds := scanFinds_announcedFrom c.rest c.offset c.buf.bodylenState c.buf.bodyLen
  rw [frameAccess, announcedHere]
  congr 1
  cases hn : announcedFrom c.buf.bodylenState c.rest with
  | none =>
    rw [hn] at hfinds
    simp only [ScanFinds] at hfinds
    rw [if_pos hfinds, copiedLen, hlen]
  | some n =>
    rw [hn] at hfinds
    obtain ⟨hend, hmsg⟩ := hfinds
    rw [if_neg hend, hmsg, copiedLen]
    split
    · rw [if_neg (by omega), Nat.min_eq_right (by omega), hlen]
    · split
      · rw [if_neg (by omega), Nat.min_eq_left (by omega)]
      · rw [if_pos (by omega)]

namespace AtMessages

variable {c c' : FixCursor} {l l' : List UInt8}

theorem access_eq (h : AtMessages c l) :
    c.access = ⟨c.pkt.len, copiedLen (announcedSize l) l.length⟩ := by
  rw [access, if_neg (Nat.not_le.mpr h.ready.offset), if_neg, frameAccess_eq h.ready, h.here,
    h.rest]
  rintro ⟨hactive, hconsumed⟩
  rw [h.settled hactive] at hconsumed
  exact absurd hconsumed (by simp)

/-- The loop gets to what is left behind each message. -/
theorem calls_leftOver (hleft : LeftOver l l') (h : AtMessages c l) :
    ∃ c', Calls c c' ∧ AtMessages c' l' := by
  induction hleft generalizing c with
  | all l => exact ⟨c, .here c, h⟩
  | next hn hpos hlt hfits hleft ih =>
    obtain ⟨c', hround, hconsumed, hat⟩ := h.next hn hlt hfits
    obtain ⟨c'', hcalls, hat'⟩ := ih hat
    exact ⟨c'', .next hround hconsumed hcalls, hat'⟩

/-- And only there. -/
theorem leftOver_of_calls (hcalls : Calls c c') (h : AtMessages c l) :
    ∃ l', LeftOver l l' ∧ AtMessages c' l' := by
  induction hcalls generalizing l with
  | here c => exact ⟨l, .all l, h⟩
  | next hround hconsumed hcalls ih =>
    have hfits : copiedLen (announcedSize l) l.length ≤ partialFixSize := by
      by_contra hover
      rw [h.overrun (Nat.lt_of_not_le hover)] at hround
      exact absurd hround (by simp)
    by_cases hnext : ∃ n, announcedSize l = some n ∧ n < l.length
    · obtain ⟨n, hn, hlt⟩ := hnext
      rw [hn, copiedLen_of_lt hlt] at hfits
      obtain ⟨c', hround', -, hat⟩ := h.next hn hlt hfits
      rw [hround, Except.ok.injEq, Prod.mk.injEq] at hround'
      obtain ⟨l', hleft, hat'⟩ := ih (hround'.2 ▸ hat)
      refine ⟨l', ?_, hat'⟩
      rcases Nat.eq_zero_or_pos n with rfl | hpos
      · exact hleft
      · exact .next hn hpos hlt hfits hleft
    · obtain ⟨msg, c', hround', hlast⟩ := h.last
        (fun n hn => Nat.le_of_not_lt fun hlt => hnext ⟨n, hn, hlt⟩) hfits
      rw [hround, Except.ok.injEq, Prod.mk.injEq] at hround'
      rw [hround'.2, hlast] at hconsumed
      exact absurd hconsumed (by simp)

/-- **The calls for the messages of a packet** stay inside when no message overruns. -/
theorem calls_inside_iff (h : AtMessages c l) : (∀ c', Calls c c' → Inside c') ↔ ¬ Overruns l := by
  constructor
  · rintro hinside ⟨l', hleft, hover⟩
    obtain ⟨c', hcalls, hat⟩ := h.calls_leftOver hleft
    have hwrite := (hinside c' hcalls).1
    rw [hat.access_eq] at hwrite
    exact absurd hover (Nat.not_lt.mpr hwrite)
  · intro hover c' hcalls
    obtain ⟨l', hleft, hat⟩ := h.leftOver_of_calls hcalls
    rw [Inside, hat.access_eq]
    exact ⟨Nat.le_of_not_lt fun hlt => hover ⟨l', hleft, hlt⟩, le_rfl⟩

end AtMessages

/-! ### Whole packets and runs -/

section Packets

variable {buf : PartialFIXBuffer} {pkt : RxPacket}

/-- The copy that continues a message. -/
theorem access_continues (hpos : 0 < pkt.len) (hcontinues : Resumes buf pkt) :
    (FixCursor.mk buf pkt 0).access.writeEnd = firstCopyEnd buf pkt ∧
      ((FixCursor.mk buf pkt 0).access.readEnd ≤ pkt.len ↔ StopsInside buf pkt) := by
  rw [access, if_neg (Nat.not_le.mpr hpos), if_pos (by exact hcontinues), firstCopyEnd,
    if_pos hcontinues]
  by_cases hpending : buf.HeaderPending
  · have hstops : StopsInside buf pkt ↔ headerStop buf.bodylenState pkt.received < pkt.len :=
      ⟨fun h => h hcontinues hpending, fun h _ _ => h⟩
    have hvalue : (FixCursor.mk buf pkt 0).resumeValue (FixCursor.mk buf pkt 0).resumePos =
        headerDigits buf.bodylenState pkt.received := by rw [resumePos_eq, resumeValue_eq]
    have hstop : (FixCursor.mk buf pkt 0).resumePos +
        (headerDigits buf.bodylenState pkt.received).length =
        headerStop buf.bodylenState pkt.received := by rw [resumePos_eq, headerStop]
    rw [if_pos (by exact hpending), hstops, missingLen, if_pos hpending]
    simp only [headerAccess, hvalue, hstop]
    split
    · rename_i hsoh
      refine ⟨?_, ?_⟩
      · simp only [withBodyLen, copyAccess, hvalue]
      · rw [max_le_iff]
        omega
    · refine ⟨rfl, ?_⟩
      rw [max_le_iff]
      omega
  · have hstops : StopsInside buf pkt := fun _ h => absurd h hpending
    rw [if_neg (by exact hpending), copyAccess, missingLen, if_neg hpending]
    refine ⟨rfl, iff_of_true (max_le_iff.mpr ⟨le_rfl, ?_⟩) hstops⟩
    show 0 + min buf.remainingLen pkt.len ≤ pkt.len
    omega

/-- The first call, unless it is for a message at the beginning of the packet. -/
theorem access_first (hpos : 0 < pkt.len) (hlen : pkt.len ≤ packetSize)
    (hfirst : Resumes buf pkt ∨ Skipped buf pkt) :
    (FixCursor.mk buf pkt 0).access.writeEnd = firstCopyEnd buf pkt ∧
      ((FixCursor.mk buf pkt 0).access.readEnd ≤ pkt.len ↔ StopsInside buf pkt) := by
  by_cases hcontinues : Resumes buf pkt
  · exact access_continues hpos hcontinues
  · have hskipped := hfirst.resolve_left hcontinues
    have hstops : StopsInside buf pkt := fun h => absurd h hcontinues
    rw [access, if_neg (Nat.not_le.mpr hpos), if_neg (by exact hcontinues),
      frameAccess_eq ⟨hlen, hpos⟩, announcedHere_skipped hskipped, firstCopyEnd,
      if_neg hcontinues, if_pos hskipped]
    refine ⟨?_, iff_of_true le_rfl hstops⟩
    rw [copiedLen, FixCursor.rest, List.drop_zero, length_received hlen]

/-- **The calls for a packet** stay inside exactly when the packet fits. -/
theorem callsInside_iff (hpos : 0 < pkt.len) (hlen : pkt.len ≤ packetSize) :
    (∀ c, Calls ⟨buf, pkt, 0⟩ c → Inside c) ↔ PacketFits buf pkt := by
  -- the first call differs where a message goes on or the packet is skipped
  by_cases hfirst : Resumes buf pkt ∨ Skipped buf pkt
  · obtain ⟨hwrite, hread⟩ := access_first hpos hlen hfirst
    have hinside : Inside ⟨buf, pkt, 0⟩ ↔
        firstCopyEnd buf pkt ≤ partialFixSize ∧ StopsInside buf pkt := by
      rw [Inside, hwrite, hread]
    constructor
    · intro h
      obtain ⟨hfits, hstops⟩ := hinside.mp (h _ (.here _))
      refine ⟨hstops, hfits, fun l hl => ?_⟩
      rcases nextFixMsg_first_next hpos hlen hfits hl with hat | ⟨msg, c', hround, hcons, hat, -⟩
      · exact hat.calls_inside_iff.mp h
      · exact hat.calls_inside_iff.mp fun c'' hcalls => h c'' (.next hround hcons hcalls)
    · rintro ⟨hstops, hfits, hmsgs⟩ c hcalls
      cases hcalls with
      | here => exact hinside.mpr ⟨hfits, hstops⟩
      | next hround hcons hcalls =>
        cases hl : framedBytes buf pkt with
        | none =>
          obtain ⟨msg, c', hround', hlast⟩ := nextFixMsg_first_last hpos hlen hfits hl
          rw [hround, Except.ok.injEq, Prod.mk.injEq] at hround'
          rw [hround'.2, hlast] at hcons
          exact absurd hcons (by simp)
        | some l =>
          rcases nextFixMsg_first_next hpos hlen hfits hl with
            hat | ⟨msg, c', hround', -, hat, -⟩
          · exact hat.calls_inside_iff.mpr (hmsgs l hl) c (.next hround hcons hcalls)
          · rw [hround, Except.ok.injEq, Prod.mk.injEq] at hround'
            exact hat.calls_inside_iff.mpr (hmsgs l hl) c (hround'.2 ▸ hcalls)
  · have hcontinues : ¬ Resumes buf pkt := fun h => hfirst (.inl h)
    have hskipped : ¬ Skipped buf pkt := fun h => hfirst (.inr h)
    have hstops : StopsInside buf pkt := fun h => absurd h hcontinues
    have hframed : framedBytes buf pkt = some pkt.received := by
      rw [framedBytes, if_neg hcontinues, if_neg hskipped]
    rw [(AtMessages.of_packet hpos hlen hcontinues hskipped).calls_inside_iff, PacketFits,
      firstCopyEnd, if_neg hcontinues, if_neg hskipped, hframed]
    constructor
    · intro h
      exact ⟨hstops, Nat.zero_le _, fun l hl => by rwa [← Option.some.inj hl]⟩
    · exact fun h => h.2.2 _ rfl

end Packets

/-- **Every run of packets.**  Whatever the buffer holds, the copies into it stay
inside its 1024 bytes and no byte behind a packet is read exactly when every packet
fits the buffer that the earlier ones leave. -/
theorem runInside_iff (buf : PartialFIXBuffer) (pkts : List RxPacket)
    (hlen : ∀ pkt ∈ pkts, 0 < pkt.len ∧ pkt.len ≤ packetSize) :
    (∀ c, RunCalls buf pkts c → Inside c) ↔ AllFit buf pkts := by
  induction pkts generalizing buf with
  | nil => exact ⟨fun _ => trivial, fun _ c h => by cases h⟩
  | cons pkt pkts ih =>
    have hpkt := hlen pkt (by simp)
    have hrest := fun buf => ih buf fun p hp => hlen p (by simp [hp])
    rw [AllFit, ← callsInside_iff hpkt.1 hpkt.2]
    constructor
    · intro h
      exact ⟨fun c hc => h c (.packet pkts hc),
        fun msgs buf' hparse => (hrest buf').mp fun c hc => h c (.later hparse hc)⟩
    · rintro ⟨hfirst, hmore⟩ c hcalls
      cases hcalls with
      | packet _ hc => exact hfirst c hc
      | later hparse hc => exact (hrest _).mpr (hmore _ _ hparse) c hc

/-- A single digit behind a header that was cut is read past. -/
theorem not_stopsInside_digit {buf : PartialFIXBuffer} {pkt : RxPacket} (hstuck : Stuck buf)
    (hcarry : Carries pkt [0x32]) : ¬ StopsInside buf pkt := by
  intro h
  have hlt := h ⟨hstuck.active, hcarry.fresh⟩ ⟨hstuck.remaining, hstuck.state⟩
  rw [hcarry.received, hcarry.len] at hlt
  revert hlt
  cases buf.bodylenState with
  | expectSoh => decide
  | expect9 => decide
  | expectEq => decide
  | readValue => decide
  | done => decide
  | none => decide

/-- 1025 bytes without a header are copied into 1024, and behind `8=F|9=`, the packet
that begins with the body length is read past its end. -/
theorem partial_buffer_overrun :
    ¬ (∀ c, RunCalls {} [packetOf (List.replicate 1025 0)] c → Inside c) ∧
    ¬ (∀ c, RunCalls {} [packetOf (shortFrame.header.take 6), packetOf [0x32]] c → Inside c) := by
  constructor
  · intro h
    have hlen : (List.replicate 1025 (0 : UInt8)).length ≤ packetSize := by
      rw [List.length_replicate]
      decide
    have hcarry := (packetOf_carries hlen).1
    have hat := AtMessages.of_carries hcarry (by
      rw [List.replicate_succ]
      exact List.cons_ne_nil _ _)
    have hnone : announcedSize (List.replicate 1025 0) = none := by
      rw [announcedSize, headerLen_free]
      · rfl
      · intro c hc
        rw [List.eq_of_mem_replicate hc]
        decide
    have hwrite := (h _ (.packet [] (.here _))).1
    rw [hat.access_eq, hnone, copiedLen, List.length_replicate] at hwrite
    exact absurd hwrite (by decide)
  · intro h
    have hhead : Carries (packetOf (shortFrame.header.take 6)) (shortFrame.header.take 6) :=
      (packetOf_carries (by decide)).1
    have hdigit : Carries (packetOf [0x32]) [0x32] := (packetOf_carries (by decide)).1
    obtain ⟨c', hround, hconsumed, hstuck⟩ := frameMsg_stuck (f := shortFrame)
      (c := ⟨{}, packetOf (shortFrame.header.take 6), 0⟩) (hhead.ready (by decide) {})
      ⟨rfl, rfl, rfl⟩ (r := shortFrame.header.drop 6)
      (by rw [hhead.rest, List.take_append_drop]) (by decide)
    have hparse := fixLoop_last (nextFixMsg_idle (hhead.ready (by decide) {}) ⟨rfl, rfl, rfl⟩ ▸
      hround) hconsumed
    have hinside := (callsInside_iff (by rw [hdigit.len]; decide) (by rw [hdigit.len]; decide)).mp
      fun c hc => h c (.later (hparse _) (.packet [] hc))
    exact not_stopsInside_digit hstuck hdigit hinside.1

/-- A packet with one whole message fits and stays inside. -/
theorem runInside_iff_short : AllFit {} [packetOf shortFrame.bytes] ∧
    ∀ c, RunCalls {} [packetOf shortFrame.bytes] c → Inside c := by
  have hends := reachesEnd_short
  have hfit : AllFit {} [packetOf shortFrame.bytes] :=
    ⟨⟨fun h => absurd h.1 (by simp), hends.1, fun l hl => (hends.2 l hl).2⟩, fun _ _ _ => trivial⟩
  refine ⟨hfit, (runInside_iff {} [packetOf shortFrame.bytes] ?_).mpr hfit⟩
  intro pkt hpkt
  rw [List.mem_singleton.mp hpkt, packetOf_short_len]
  decide

end TradingEngine
