/-
When the loop of `parseFIX` comes to its end.

The first round deals with a message that the last packet cut; from then on each
round frames the message at the offset and moves the offset on by the length that
the message announces.  A message can announce the length 0, and the loop then
frames it again and again.

* `fixLoop_ends`, `fixLoop_stalls`, `fixLoop_overruns` — the loop over messages;
* `nextFixMsg_first` — the round before it;
* `parseFIX_ends_iff` — the loop consumes the packet exactly when every copy stays in
  the partial buffer and no message announces the length 0.
-/
import TradingEngine.FixAnnounced

namespace TradingEngine

open FixCursor

/-! ### The messages of a packet -/

/-- What is left of `l` behind some messages with the lengths they announce, each of
them no longer than the partial buffer. -/
inductive LeftOver : List UInt8 → List UInt8 → Prop
  | all (l : List UInt8) : LeftOver l l
  | next {l l' : List UInt8} {n : ℕ} (hn : announcedSize l = some n) (hpos : 0 < n)
      (hlt : n < l.length) (hfits : n ≤ partialFixSize) (h : LeftOver (l.drop n) l') :
      LeftOver l l'

/-- Some message announces the length 0. -/
def Stalls (l : List UInt8) : Prop := ∃ l', LeftOver l l' ∧ announcedSize l' = some 0

/-- Some message, or what is there of it, does not fit the partial buffer. -/
def Overruns (l : List UInt8) : Prop :=
  ∃ l', LeftOver l l' ∧ partialFixSize < copiedLen (announcedSize l') l'.length

/-- The cursor is at the messages `l`, with no message to be continued. -/
structure AtMessages (c : FixCursor) (l : List UInt8) : Prop where
  ready : Ready c
  settled : c.buf.active = true → c.pkt.consumed = true
  rest : c.rest = l
  here : c.announcedHere = announcedSize l

/-! ### Rounds of the loop -/

section Rounds

variable {c c' : FixCursor} {msg : Option (List UInt8)}

theorem fixLoop_last (h : c.nextFixMsg = .ok (msg, c')) (hconsumed : c'.pkt.consumed = true)
    (fuel : ℕ) : fixLoop (fuel + 1) c = .ok (msg.toList, c'.buf) := by
  rw [fixLoop, h]
  simp only [bind, Except.bind]
  rw [if_neg (by simp [hconsumed])]

theorem fixLoop_more (h : c.nextFixMsg = .ok (msg, c')) (hconsumed : c'.pkt.consumed = false)
    (fuel : ℕ) : fixLoop (fuel + 1) c =
      (fixLoop fuel c').map fun r => (msg.toList ++ r.1, r.2) := by
  rw [fixLoop, h]
  simp only [bind, Except.bind]
  rw [if_pos hconsumed]
  cases fixLoop fuel c' with
  | error e => rfl
  | ok r => rfl

theorem fixLoop_fault {e : Fault} (h : c.nextFixMsg = .error e) (fuel : ℕ) :
    fixLoop (fuel + 1) c = .error e := by
  rw [fixLoop, h]
  rfl

/-- A loop that has ended needs no more rounds. -/
theorem fixLoop_add {fuel : ℕ} {c : FixCursor} {r : List (List UInt8) × PartialFIXBuffer}
    (h : fixLoop fuel c = .ok r) (more : ℕ) : fixLoop (fuel + more) c = .ok r := by
  induction fuel generalizing c r with
  | zero => exact absurd h (by simp [fixLoop])
  | succ fuel ih =>
    rw [Nat.succ_add]
    cases hround : c.nextFixMsg with
    | error e =>
      rw [fixLoop_fault hround] at h
      exact absurd h (by simp)
    | ok out =>
      obtain ⟨msg, c'⟩ := out
      cases hconsumed : c'.pkt.consumed with
      | true =>
        rw [fixLoop_last hround hconsumed] at h ⊢
        exact h
      | false =>
        rw [fixLoop_more hround hconsumed] at h ⊢
        cases hrest : fixLoop fuel c' with
        | error e =>
          rw [hrest] at h
          exact absurd h (by simp [Except.map])
        | ok r' =>
          rw [ih hrest, ← h, hrest]

end Rounds

namespace AtMessages

variable {c : FixCursor} {l : List UInt8}

theorem nextFixMsg_eq (h : AtMessages c l) : c.nextFixMsg = c.frameMsg := by
  have hoff := h.ready.offset
  rw [nextFixMsg, if_neg (by omega), if_neg]
  rintro ⟨hactive, hconsumed⟩
  rw [h.settled hactive] at hconsumed
  exact absurd hconsumed (by simp)

theorem of_state {c : FixCursor} {l : List UInt8} (hc : Ready c)
    (hsettled : c.buf.active = true → c.pkt.consumed = true) (hrest : c.rest = l)
    (hstate : c.buf.bodylenState ≠ .done) : AtMessages c l :=
  ⟨hc, hsettled, hrest, by rw [announcedHere, announcedFrom_of_ne_done hstate, hrest]⟩

theorem length_pos (h : AtMessages c l) : 0 < l.length := by
  have hlen := length_rest h.ready.len
  have hoff := h.ready.offset
  rw [← h.rest]
  omega

/-- A message with more behind it takes the cursor to what is behind it. -/
theorem next (h : AtMessages c l) {n : ℕ} (hn : announcedSize l = some n) (hlt : n < l.length)
    (hfits : n ≤ partialFixSize) :
    ∃ c', c.nextFixMsg = .ok (some (l.take n), c') ∧ c'.pkt.consumed = false ∧
      AtMessages c' (l.drop n) := by
  have hlen := length_rest h.ready.len
  have hrest := h.rest
  subst hrest
  obtain ⟨c', hframe, hactive, hstate, hpkt, hoff⟩ :=
    frameMsg_next h.ready (h.here.trans hn) hlt hfits
  refine ⟨c', h.nextFixMsg_eq.trans hframe, by rw [hpkt], of_state ⟨?_, ?_⟩ ?_ ?_ ?_⟩
  · rw [hpkt]
    exact h.ready.len
  · rw [hpkt, hoff]
    show c.offset + n < c.pkt.len
    omega
  · rw [hactive]
    simp
  · rw [FixCursor.rest, hpkt, hoff, FixCursor.rest, List.drop_drop]
    rfl
  · rw [hstate]
    decide

/-- A message that is not followed by another is the last. -/
theorem last (h : AtMessages c l) (hlast : ∀ n, announcedSize l = some n → l.length ≤ n)
    (hfits : copiedLen (announcedSize l) l.length ≤ partialFixSize) :
    ∃ msg c', c.nextFixMsg = .ok (msg, c') ∧ c'.pkt.consumed = true := by
  have hhere := h.here
  have hrest := h.rest
  subst hrest
  rw [h.nextFixMsg_eq]
  by_cases hwhole : announcedSize c.rest = some c.rest.length
  · obtain ⟨c', hframe, hconsumed⟩ := frameMsg_whole h.ready (hhere.trans hwhole)
    exact ⟨_, c', hframe, hconsumed⟩
  · have hcut : ∀ n, c.announcedHere = some n → c.rest.length < n := by
      intro n hn
      rw [hhere] at hn
      refine Nat.lt_of_le_of_ne (hlast n hn) fun heq => hwhole ?_
      rw [hn, heq]
    have hcopied : copiedLen (announcedSize c.rest) c.rest.length = c.rest.length := by
      cases hn : announcedSize c.rest with
      | none => rfl
      | some n =>
        have hlt := hcut n (hhere.trans hn)
        rw [copiedLen, if_neg (by omega), Nat.min_eq_right hlt.le]
    rw [hcopied] at hfits
    obtain ⟨c', hframe, hconsumed⟩ := frameMsg_cut h.ready hcut hfits
    exact ⟨none, c', hframe, hconsumed⟩

theorem overrun (h : AtMessages c l)
    (hover : partialFixSize < copiedLen (announcedSize l) l.length) :
    c.nextFixMsg = .error .outOfBounds := by
  rw [h.nextFixMsg_eq]
  refine frameMsg_overrun h.ready ?_
  rw [h.here, h.rest]
  exact hover

end AtMessages

/-! ### The loop over the messages -/

/-- A message with a length of its own, and what follows from it for the rest. -/
theorem copiedLen_of_lt {n here : ℕ} (h : n < here) : copiedLen (some n) here = n := by
  rw [copiedLen, if_neg (Nat.ne_of_lt h), Nat.min_eq_left h.le]

variable {c : FixCursor} {l : List UInt8}

/-- **The loop ends** when no message stalls it and all fit. -/
theorem fixLoop_ends (hstalls : ¬ Stalls l) (hover : ¬ Overruns l) {fuel : ℕ}
    (hc : AtMessages c l) (hfuel : l.length ≤ fuel) : ∃ r, fixLoop fuel c = .ok r := by
  induction fuel generalizing c l with
  | zero => exact absurd hc.length_pos (by omega)
  | succ fuel ih =>
    have hfits : copiedLen (announcedSize l) l.length ≤ partialFixSize :=
      Nat.le_of_not_lt fun h => hover ⟨l, .all l, h⟩
    by_cases hnext : ∃ n, announcedSize l = some n ∧ n < l.length
    · obtain ⟨n, hn, hlt⟩ := hnext
      rw [hn, copiedLen_of_lt hlt] at hfits
      have hpos : 0 < n := Nat.pos_of_ne_zero fun h => hstalls ⟨l, .all l, by rw [hn, h]⟩
      obtain ⟨c', hround, hconsumed, hc'⟩ := hc.next hn hlt hfits
      obtain ⟨r, hr⟩ := ih
        (fun ⟨l', h, h0⟩ => hstalls ⟨l', .next hn hpos hlt hfits h, h0⟩)
        (fun ⟨l', h, h0⟩ => hover ⟨l', .next hn hpos hlt hfits h, h0⟩) hc'
        (by rw [List.length_drop]; omega)
      exact ⟨_, by rw [fixLoop_more hround hconsumed, hr]; rfl⟩
    · obtain ⟨msg, c', hround, hconsumed⟩ := hc.last
        (fun n hn => Nat.le_of_not_lt fun hlt => hnext ⟨n, hn, hlt⟩) hfits
      exact ⟨_, fixLoop_last hround hconsumed fuel⟩

/-- A message of length 0 is handed out for ever. -/
theorem fixLoop_zero (hzero : announcedSize l = some 0) (hc : AtMessages c l) (fuel : ℕ) :
    fixLoop fuel c = .error .nonTermination := by
  induction fuel generalizing c with
  | zero => rfl
  | succ fuel ih =>
    obtain ⟨c', hround, hconsumed, hc'⟩ := hc.next hzero hc.length_pos (by decide)
    rw [List.drop_zero] at hc'
    rw [fixLoop_more hround hconsumed, ih hc']
    rfl

/-- **The loop never ends** once it gets to a message of length 0. -/
theorem fixLoop_stalls {l' : List UInt8} (hleft : LeftOver l l') (hzero : announcedSize l' = some 0)
    (hc : AtMessages c l) (fuel : ℕ) : fixLoop fuel c = .error .nonTermination := by
  induction hleft generalizing c fuel with
  | all l => exact fixLoop_zero hzero hc fuel
  | next hn hpos hlt hfits h ih =>
    cases fuel with
    | zero => rfl
    | succ fuel =>
      obtain ⟨c', hround, hconsumed, hc'⟩ := hc.next hn hlt hfits
      rw [fixLoop_more hround hconsumed, ih hzero hc' fuel]
      rfl

/-- **The loop faults** once it gets to a message that does not fit. -/
theorem fixLoop_overruns {l' : List UInt8} (hleft : LeftOver l l')
    (hover : partialFixSize < copiedLen (announcedSize l') l'.length) (hc : AtMessages c l)
    {fuel : ℕ} (hfuel : l.length ≤ fuel) : fixLoop fuel c = .error .outOfBounds := by
  induction hleft generalizing c fuel with
  | all l =>
    cases fuel with
    | zero => exact absurd hc.length_pos (by omega)
    | succ fuel => exact fixLoop_fault (hc.overrun hover) fuel
  | next hn hpos hlt hfits h ih =>
    cases fuel with
    | zero => exact absurd hc.length_pos (by omega)
    | succ fuel =>
      obtain ⟨c', hround, hconsumed, hc'⟩ := hc.next hn hlt hfits
      rw [fixLoop_more hround hconsumed, ih hover hc' (by rw [List.length_drop]; omega)]
      rfl

/-! ### The first round -/

/-- Where the digits of a resumed header are looked for. -/
def headerStart (st : BodyLenState) (l : List UInt8) : ℕ :=
  match st with
  | .expectSoh => (l.takeWhile (· ≠ soh)).length + 3
  | .expect9 => (l.takeWhile (· ≠ nine)).length + 2
  | .expectEq => (l.takeWhile (· ≠ equals)).length + 1
  | _ => 0

/-- The characters there that are taken for digits: all up to the delimiter, if the
first is a digit. -/
def headerDigits (st : BodyLenState) (l : List UInt8) : List UInt8 :=
  if (l[headerStart st l]?).any isDigit then (l.drop (headerStart st l)).takeWhile (· ≠ soh)
  else []

/-- Where a resumed header stops. -/
def headerStop (st : BodyLenState) (l : List UInt8) : ℕ :=
  headerStart st l + (headerDigits st l).length

/-- A message was cut in its header. -/
def PartialFIXBuffer.HeaderPending (buf : PartialFIXBuffer) : Prop :=
  buf.remainingLen = 0 ∧ buf.bodylenState ≠ .done

instance (buf : PartialFIXBuffer) : Decidable buf.HeaderPending :=
  inferInstanceAs (Decidable (_ ∧ _))

/-- The packet is taken for the continuation of the message in the buffer. -/
def Resumes (buf : PartialFIXBuffer) (pkt : RxPacket) : Prop :=
  buf.active = true ∧ pkt.consumed = false

instance (buf : PartialFIXBuffer) (pkt : RxPacket) : Decidable (Resumes buf pkt) :=
  inferInstanceAs (Decidable (_ ∧ _))

/-- How many bytes the message in the buffer is taken to lack.  For a header that stops
behind the packet this depends on the byte that lies there. -/
def missingLen (buf : PartialFIXBuffer) (pkt : RxPacket) : Option ℕ :=
  if buf.HeaderPending then
    if pkt.len ≤ headerStop buf.bodylenState pkt.received ∧
        pkt.data.toList[headerStop buf.bodylenState pkt.received]? = some soh then
      some (sizeT (headerStop buf.bodylenState pkt.received + 1 +
        (headerDigits buf.bodylenState pkt.received).foldl appendDigit buf.bodyLen + 7))
    else none
  else some buf.remainingLen

/-- A scan that begins in the state of a cut message and ends at once. -/
def Skipped (buf : PartialFIXBuffer) (pkt : RxPacket) : Prop :=
  buf.bodylenState = .done ∧ pkt.received.head?.any isPlain = true

instance (buf : PartialFIXBuffer) (pkt : RxPacket) : Decidable (Skipped buf pkt) :=
  inferInstanceAs (Decidable (_ ∧ _))

/-- The end of the copy that comes before the messages of the packet. -/
def firstCopyEnd (buf : PartialFIXBuffer) (pkt : RxPacket) : ℕ :=
  if Resumes buf pkt then
    buf.existingLen + match missingLen buf pkt with
      | none => headerStop buf.bodylenState pkt.received
      | some m => min m pkt.len
  else if Skipped buf pkt then pkt.len else 0

/-- The bytes that are searched for messages of their own. -/
def framedBytes (buf : PartialFIXBuffer) (pkt : RxPacket) : Option (List UInt8) :=
  if Resumes buf pkt then
    match missingLen buf pkt with
    | none => none
    | some m => if m < pkt.len then some (pkt.received.drop m) else none
  else if Skipped buf pkt then none else some pkt.received

section CopyPartial

variable {c : FixCursor}

theorem copyPartial_slice (hc : Ready c) (hoff : c.offset = 0) {n : ℕ} (hn : n ≤ c.pkt.len) :
    slice c.pkt.data c.offset n = .ok (c.rest.take n) ∧ (c.rest.take n).length = n := by
  have hlen := length_rest hc.len
  exact ⟨slice_rest hc.len (by omega) hc.offset.le, by rw [List.length_take]; omega⟩

/-- **The message is complete** before the packet ends. -/
theorem copyPartial_next (hc : Ready c) (hoff : c.offset = 0)
    (hlt : c.buf.remainingLen < c.pkt.len)
    (hfits : c.buf.existingLen + c.buf.remainingLen ≤ partialFixSize) :
    ∃ msg c', c.copyPartial = .ok (msg, c') ∧ c'.pkt.consumed = false ∧
      AtMessages c' (c.rest.drop c.buf.remainingLen) := by
  obtain ⟨hsrc, hlen⟩ := copyPartial_slice hc hoff hlt.le
  obtain ⟨data, hdata, -⟩ := writeAt_of_le c.buf.data c.buf.existingLen
    (c.rest.take c.buf.remainingLen) (by omega)
  rw [copyPartial]
  simp only [Nat.min_eq_left hlt.le, hsrc, hdata, Nat.sub_self, if_true, bind, Except.bind]
  refine ⟨_, _, rfl, by simp [hlt], .of_state ⟨hc.len, ?_⟩ (by simp) ?_ (by simp)⟩
  · show (if _ then c.offset + c.buf.remainingLen else c.offset) < c.pkt.len
    rw [if_pos hlt]
    omega
  · show c.pkt.received.drop (if _ then c.offset + c.buf.remainingLen else c.offset) = _
    rw [if_pos hlt, ← List.drop_drop]
    rfl

/-- **The packet ends** with the message or before. -/
theorem copyPartial_last (hc : Ready c) (hoff : c.offset = 0)
    (hle : c.pkt.len ≤ c.buf.remainingLen)
    (hfits : c.buf.existingLen + c.pkt.len ≤ partialFixSize) :
    ∃ msg c', c.copyPartial = .ok (msg, c') ∧ c'.pkt.consumed = true := by
  obtain ⟨hsrc, hlen⟩ := copyPartial_slice hc hoff le_rfl
  obtain ⟨data, hdata, -⟩ := writeAt_of_le c.buf.data c.buf.existingLen
    (c.rest.take c.pkt.len) (by omega)
  rw [copyPartial]
  simp only [Nat.min_eq_right hle, hsrc, hdata, bind, Except.bind]
  split
  · exact ⟨_, _, rfl, by simp⟩
  · exact ⟨_, _, rfl, by simp⟩

/-- **The copy runs over** the end of the partial buffer. -/
theorem copyPartial_overrun (hc : Ready c) (hoff : c.offset = 0)
    (hover : partialFixSize < c.buf.existingLen + min c.buf.remainingLen c.pkt.len) :
    c.copyPartial = .error .outOfBounds := by
  obtain ⟨hsrc, hlen⟩ := copyPartial_slice hc hoff (Nat.min_le_right c.buf.remainingLen c.pkt.len)
  have hwrite : writeAt c.buf.data c.buf.existingLen
      (c.rest.take (min c.buf.remainingLen c.pkt.len)) = .error .outOfBounds :=
    writeAt_of_lt _ _ _ (by omega)
  rw [copyPartial]
  simp only [hsrc, hwrite, bind, Except.bind]

end CopyPartial

section FirstRound

variable {buf : PartialFIXBuffer} {pkt : RxPacket}

theorem resumePos_eq (buf : PartialFIXBuffer) (pkt : RxPacket) :
    (FixCursor.mk buf pkt 0).resumePos = headerStart buf.bodylenState pkt.received := by
  obtain ⟨data, existingLen, remainingLen, bodyLen, active, st⟩ := buf
  cases st with
  | expectSoh => simp only [resumePos, headerStart, seek, List.drop_zero, Nat.zero_add]
  | expect9 => simp only [resumePos, headerStart, seek, List.drop_zero, Nat.zero_add]
  | expectEq => simp only [resumePos, headerStart, seek, List.drop_zero, Nat.zero_add]
  | readValue => rfl
  | done => rfl
  | none => rfl

theorem resumeValue_eq (buf : PartialFIXBuffer) (pkt : RxPacket) :
    (FixCursor.mk buf pkt 0).resumeValue (headerStart buf.bodylenState pkt.received) =
      headerDigits buf.bodylenState pkt.received := rfl

/-- A resumed header is done only when the byte behind the packet is a delimiter. -/
theorem resumedState_done {c : FixCursor} (hstate : c.buf.bodylenState ≠ .done) {pos : ℕ}
    (h : c.resumedState pos = .ok .done) :
    c.pkt.len ≤ pos ∧ c.pkt.data.toList[pos]? = some soh := by
  rw [resumedState] at h
  split at h
  · rename_i hle
    refine ⟨hle, ?_⟩
    split at h
    · exact absurd h (by simp)
    · rename_i b hb
      by_cases hsoh : b = soh
      · rw [hb, hsoh]
      · rw [if_neg hsoh] at h
        exact absurd h (by simp)
  · rw [Except.ok.injEq] at h
    exact absurd h hstate

/-- The buffer with the digits of the resumed header. -/
def withDigits (buf : PartialFIXBuffer) (pkt : RxPacket) : PartialFIXBuffer :=
  { buf with
    bodyLen := (headerDigits buf.bodylenState pkt.received).foldl appendDigit buf.bodyLen }

/-- The buffer once the resumed header is done. -/
def withLength (buf : PartialFIXBuffer) (pkt : RxPacket) : PartialFIXBuffer :=
  { withDigits buf pkt with
    bodylenState := .done
    remainingLen := sizeT (headerStop buf.bodylenState pkt.received + 1 +
      (withDigits buf pkt).bodyLen + 7) }

/-- What the resumed header does, once it has stopped. -/
theorem continuePartial_pending (hpending : buf.HeaderPending) :
    (FixCursor.mk buf pkt 0).continuePartial = (do
      let state ← (FixCursor.mk buf pkt 0).resumedState
        (headerStop buf.bodylenState pkt.received)
      if state = .done then (FixCursor.mk (withLength buf pkt) pkt 0).copyPartial
      else do
        let src ← slice pkt.data 0 (headerStop buf.bodylenState pkt.received)
        let data ← writeAt buf.data buf.existingLen src
        .ok (none,
          { buf := { withDigits buf pkt with data := data, bodylenState := .readValue }
            pkt := { pkt with consumed := true }
            offset := 0 })) := by
  rw [continuePartial, if_pos]
  · rw [resumePos_eq, resumeValue_eq]
    rfl
  · exact hpending

/-- **The length of the cut message is known.** -/
theorem continuePartial_of_missing {m : ℕ} (hm : missingLen buf pkt = some m) :
    ∃ buf' : PartialFIXBuffer, buf'.existingLen = buf.existingLen ∧ buf'.remainingLen = m ∧
      (FixCursor.mk buf pkt 0).continuePartial = (FixCursor.mk buf' pkt 0).copyPartial := by
  rw [missingLen] at hm
  split at hm
  · rename_i hpending
    split at hm
    · rename_i hstop
      rw [Option.some.injEq] at hm
      refine ⟨withLength buf pkt, rfl, hm, ?_⟩
      rw [continuePartial_pending hpending, resumedState, if_pos hstop.1]
      simp only [hstop.2, if_true, bind, Except.bind]
    · exact absurd hm (by simp)
  · rename_i hpending
    rw [Option.some.injEq] at hm
    refine ⟨buf, rfl, hm, ?_⟩
    rw [continuePartial, if_neg]
    exact hpending

/-- Without the delimiter behind the packet, the resumed header is not done. -/
theorem resumedState_of_not_missing (hpending : buf.HeaderPending)
    (hm : missingLen buf pkt = none) {st : BodyLenState}
    (hst : (FixCursor.mk buf pkt 0).resumedState (headerStop buf.bodylenState pkt.received)
      = .ok st) : st ≠ .done := by
  rintro rfl
  rw [missingLen, if_pos hpending, if_pos (resumedState_done hpending.2 hst)] at hm
  exact absurd hm (by simp)

/-- **The length of the cut message stays unknown**: its header is copied. -/
theorem continuePartial_of_pending (hm : missingLen buf pkt = none)
    (hlen : pkt.len ≤ packetSize) :
    (buf.existingLen + headerStop buf.bodylenState pkt.received ≤ partialFixSize →
      ∃ c', (FixCursor.mk buf pkt 0).continuePartial = .ok (none, c') ∧
        c'.pkt.consumed = true) ∧
    (partialFixSize < buf.existingLen + headerStop buf.bodylenState pkt.received →
      (FixCursor.mk buf pkt 0).continuePartial = .error .outOfBounds) := by
  have hpending : buf.HeaderPending := by
    by_contra h
    rw [missingLen, if_neg h] at hm
    exact absurd hm (by simp)
  have hnot : ∀ st, (FixCursor.mk buf pkt 0).resumedState (headerStop buf.bodylenState pkt.received)
      = .ok st → st ≠ .done := fun _ hst => resumedState_of_not_missing hpending hm hst
  rw [continuePartial_pending hpending]
  generalize headerStop buf.bodylenState pkt.received = stop at hnot ⊢
  cases hst : (FixCursor.mk buf pkt 0).resumedState stop with
  | error e =>
    -- the byte that is looked at lies behind the buffer of the packet
    have hstop : packetSize ≤ stop ∧ e = .outOfBounds := by
      rw [resumedState] at hst
      split at hst
      · split at hst
        · rename_i hb
          rw [Except.error.injEq] at hst
          rw [List.getElem?_eq_none_iff, Vector.length_toList] at hb
          exact ⟨hb, hst.symm⟩
        · exact absurd hst (by simp)
      · exact absurd hst (by simp)
    obtain ⟨hstop, rfl⟩ := hstop
    refine ⟨fun hfits => ?_, fun _ => rfl⟩
    simp only [packetSize, partialFixSize] at hstop hfits
    omega
  | ok st =>
    have hdone := hnot st hst
    have hle : stop ≤ packetSize := by
      rw [resumedState] at hst
      split at hst
      · split at hst
        · exact absurd hst (by simp)
        · rename_i b hb
          have h := (List.getElem?_eq_some_iff.mp hb).1
          rw [Vector.length_toList] at h
          exact h.le
      · rename_i hlt
        exact (Nat.lt_of_not_le hlt).le.trans hlen
    have hsrc := slice_of_le pkt.data (show 0 + stop ≤ packetSize by omega)
    have hlength : ((pkt.data.toList.drop 0).take stop).length = stop := by
      rw [List.drop_zero, List.length_take, Vector.length_toList]
      omega
    simp only [hdone, hsrc, if_false, bind, Except.bind]
    constructor
    · intro hfits
      obtain ⟨data, hdata, -⟩ := writeAt_of_le buf.data buf.existingLen
        ((pkt.data.toList.drop 0).take stop) (by omega)
      simp only [hdata]
      exact ⟨_, rfl, rfl⟩
    · intro hover
      have hwrite : writeAt buf.data buf.existingLen ((pkt.data.toList.drop 0).take stop)
          = .error .outOfBounds := writeAt_of_lt _ _ _ (by omega)
      simp only [hwrite]

theorem AtMessages.of_packet (hpos : 0 < pkt.len) (hlen : pkt.len ≤ packetSize)
    (hcontinues : ¬ Resumes buf pkt) (hskipped : ¬ Skipped buf pkt) :
    AtMessages ⟨buf, pkt, 0⟩ pkt.received where
  ready := ⟨hlen, hpos⟩
  settled hactive := by
    by_contra h
    exact hcontinues ⟨hactive, by simpa using h⟩
  rest := List.drop_zero
  here := by
    rw [announcedHere, FixCursor.rest, List.drop_zero, announcedFrom, if_neg]
    exact hskipped

theorem length_received (hlen : pkt.len ≤ packetSize) : pkt.received.length = pkt.len := by
  rw [RxPacket.received, List.length_take, Vector.length_toList]
  omega

theorem announcedHere_skipped (hskipped : Skipped buf pkt) :
    (FixCursor.mk buf pkt 0).announcedHere = none := by
  rw [announcedHere, FixCursor.rest, List.drop_zero, announcedFrom, if_pos]
  exact hskipped

/-- **The first copy runs over** the partial buffer. -/
theorem nextFixMsg_first_overrun (hpos : 0 < pkt.len) (hlen : pkt.len ≤ packetSize)
    (hover : partialFixSize < firstCopyEnd buf pkt) :
    (FixCursor.mk buf pkt 0).nextFixMsg = .error .outOfBounds := by
  rw [firstCopyEnd] at hover
  rw [nextFixMsg, if_neg (Nat.not_le.mpr hpos)]
  by_cases hcontinues : Resumes buf pkt
  · rw [if_pos hcontinues] at hover
    rw [if_pos (by exact hcontinues)]
    cases hm : missingLen buf pkt with
    | none =>
      rw [hm] at hover
      exact (continuePartial_of_pending hm hlen).2 hover
    | some m =>
      rw [hm] at hover
      obtain ⟨buf', hexisting, hremaining, hcopy⟩ := continuePartial_of_missing hm
      rw [hcopy]
      refine copyPartial_overrun ⟨hlen, hpos⟩ rfl ?_
      rw [hexisting, hremaining]
      exact hover
  · rw [if_neg hcontinues] at hover
    rw [if_neg (by exact hcontinues)]
    split at hover
    · rename_i hskipped
      refine frameMsg_overrun ⟨hlen, hpos⟩ ?_
      rw [announcedHere_skipped hskipped, copiedLen, FixCursor.rest, List.drop_zero,
        length_received hlen]
      exact hover
    · exact absurd hover (Nat.not_lt_zero _)

/-- **The packet ends with the first round.** -/
theorem nextFixMsg_first_last (hpos : 0 < pkt.len) (hlen : pkt.len ≤ packetSize)
    (hfits : firstCopyEnd buf pkt ≤ partialFixSize) (hframed : framedBytes buf pkt = none) :
    ∃ msg c', (FixCursor.mk buf pkt 0).nextFixMsg = .ok (msg, c') ∧ c'.pkt.consumed = true := by
  rw [firstCopyEnd] at hfits
  rw [framedBytes] at hframed
  rw [nextFixMsg, if_neg (Nat.not_le.mpr hpos)]
  by_cases hcontinues : Resumes buf pkt
  · rw [if_pos hcontinues] at hfits hframed
    rw [if_pos (by exact hcontinues)]
    cases hm : missingLen buf pkt with
    | none =>
      rw [hm] at hfits
      exact ⟨none, (continuePartial_of_pending hm hlen).1 hfits⟩
    | some m =>
      simp only [hm] at hfits hframed
      have hle : pkt.len ≤ m := by
        by_contra h
        rw [if_pos (Nat.lt_of_not_le h)] at hframed
        exact absurd hframed (by simp)
      obtain ⟨buf', hexisting, hremaining, hcopy⟩ := continuePartial_of_missing hm
      rw [hcopy]
      refine copyPartial_last ⟨hlen, hpos⟩ rfl (hle.trans_eq hremaining.symm) ?_
      rw [hexisting]
      rwa [Nat.min_eq_right hle] at hfits
  · rw [if_neg hcontinues] at hfits hframed
    rw [if_neg (by exact hcontinues)]
    split at hframed
    · rename_i hskipped
      rw [if_pos hskipped] at hfits
      obtain ⟨c', hframe, hconsumed⟩ := frameMsg_cut (c := ⟨buf, pkt, 0⟩) ⟨hlen, hpos⟩
        (fun n hn => absurd hn (by simp [announcedHere_skipped hskipped]))
        (by rw [FixCursor.rest, List.drop_zero, length_received hlen]; exact hfits)
      exact ⟨none, c', hframe, hconsumed⟩
    · exact absurd hframed (by simp)

/-- **The messages of the packet begin** at once or behind the first round. -/
theorem nextFixMsg_first_next (hpos : 0 < pkt.len) (hlen : pkt.len ≤ packetSize)
    (hfits : firstCopyEnd buf pkt ≤ partialFixSize) {l : List UInt8}
    (hframed : framedBytes buf pkt = some l) :
    AtMessages ⟨buf, pkt, 0⟩ l ∨ ∃ msg c', (FixCursor.mk buf pkt 0).nextFixMsg = .ok (msg, c') ∧
      c'.pkt.consumed = false ∧ AtMessages c' l ∧ l.length ≤ pkt.len := by
  rw [firstCopyEnd] at hfits
  rw [framedBytes] at hframed
  -- a message that goes on takes the first round for itself
  by_cases hcontinues : Resumes buf pkt
  · right
    rw [if_pos hcontinues] at hfits hframed
    rw [nextFixMsg, if_neg (Nat.not_le.mpr hpos), if_pos (by exact hcontinues)]
    cases hm : missingLen buf pkt with
    | none =>
      rw [hm] at hframed
      exact absurd hframed (by simp)
    | some m =>
      simp only [hm] at hfits hframed
      by_cases hlt : m < pkt.len
      · rw [if_pos hlt, Option.some.injEq] at hframed
        subst hframed
        obtain ⟨buf', hexisting, hremaining, hcopy⟩ := continuePartial_of_missing hm
        rw [Nat.min_eq_left hlt.le] at hfits
        rw [hcopy]
        obtain ⟨msg, c', hround, hconsumed, hat⟩ := copyPartial_next (c := ⟨buf', pkt, 0⟩)
          ⟨hlen, hpos⟩ rfl (by rw [hremaining]; exact hlt)
          (by rw [hexisting, hremaining]; exact hfits)
        rw [hremaining] at hat
        refine ⟨msg, c', hround, hconsumed, hat, ?_⟩
        rw [List.length_drop, length_received hlen]
        omega
      · rw [if_neg hlt] at hframed
        exact absurd hframed (by simp)
  · left
    rw [if_neg hcontinues] at hframed
    split at hframed
    · exact absurd hframed (by simp)
    · rename_i hskipped
      rw [Option.some.injEq] at hframed
      exact hframed ▸ .of_packet hpos hlen hcontinues hskipped

end FirstRound

/-! ### The loop over a packet -/

variable {buf : PartialFIXBuffer} {pkt : RxPacket}

/-- Every copy stays in the partial buffer and no message announces the length 0. -/
def ReachesEnd (buf : PartialFIXBuffer) (pkt : RxPacket) : Prop :=
  firstCopyEnd buf pkt ≤ partialFixSize ∧
    ∀ l, framedBytes buf pkt = some l → ¬ Stalls l ∧ ¬ Overruns l

/-- A message announces the length 0, and the copies before it stay in the buffer. -/
def ReachesZero (buf : PartialFIXBuffer) (pkt : RxPacket) : Prop :=
  firstCopyEnd buf pkt ≤ partialFixSize ∧ ∃ l, framedBytes buf pkt = some l ∧ Stalls l

theorem fixLoop_of_reachesEnd (hpos : 0 < pkt.len) (hlen : pkt.len ≤ packetSize)
    (h : ReachesEnd buf pkt) : ∃ r, parseFIX buf pkt = .ok r := by
  obtain ⟨hfits, hframed⟩ := h
  cases hl : framedBytes buf pkt with
  | none =>
    obtain ⟨msg, c', hround, hconsumed⟩ := nextFixMsg_first_last hpos hlen hfits hl
    exact ⟨_, fixLoop_last hround hconsumed _⟩
  | some l =>
    obtain ⟨hstalls, hover⟩ := hframed l hl
    rcases nextFixMsg_first_next hpos hlen hfits hl with
      hat | ⟨msg, c', hround, hconsumed, hat, hle⟩
    · refine fixLoop_ends hstalls hover hat ?_
      rw [← hat.rest, FixCursor.rest, List.drop_zero, length_received hlen]
      exact Nat.le_succ _
    · obtain ⟨r, hr⟩ := fixLoop_ends hstalls hover hat hle
      exact ⟨_, by rw [parseFIX, fixLoop_more hround hconsumed, hr]; rfl⟩

theorem fixLoop_of_reachesZero (hpos : 0 < pkt.len) (hlen : pkt.len ≤ packetSize)
    (h : ReachesZero buf pkt) (fuel : ℕ) :
    fixLoop fuel ⟨buf, pkt, 0⟩ = .error .nonTermination := by
  obtain ⟨hfits, l, hl, l', hleft, hzero⟩ := h
  rcases nextFixMsg_first_next hpos hlen hfits hl with hat | ⟨msg, c', hround, hconsumed, hat, -⟩
  · exact fixLoop_stalls hleft hzero hat fuel
  · cases fuel with
    | zero => rfl
    | succ fuel =>
      rw [fixLoop_more hround hconsumed, fixLoop_stalls hleft hzero hat fuel]
      rfl

/-- A copy that does not fit ends the loop with a fault. -/
theorem fixLoop_of_overrun (hpos : 0 < pkt.len) (hlen : pkt.len ≤ packetSize)
    (h : firstCopyEnd buf pkt ≤ partialFixSize →
      ∃ l, framedBytes buf pkt = some l ∧ Overruns l) {fuel : ℕ} (hfuel : pkt.len < fuel) :
    fixLoop fuel ⟨buf, pkt, 0⟩ = .error .outOfBounds := by
  obtain ⟨fuel, rfl⟩ : ∃ n, fuel = n + 1 := ⟨fuel - 1, by omega⟩
  by_cases hfits : firstCopyEnd buf pkt ≤ partialFixSize
  · obtain ⟨l, hl, l', hleft, hover⟩ := h hfits
    rcases nextFixMsg_first_next hpos hlen hfits hl with
      hat | ⟨msg, c', hround, hconsumed, hat, hle⟩
    · refine fixLoop_overruns hleft hover hat ?_
      rw [← hat.rest, FixCursor.rest, List.drop_zero, length_received hlen]
      exact hfuel.le
    · rw [fixLoop_more hround hconsumed, fixLoop_overruns hleft hover hat (by omega)]
      rfl
  · exact fixLoop_fault (nextFixMsg_first_overrun hpos hlen (Nat.lt_of_not_le hfits)) fuel

/-- The first packet of a session. -/
theorem AtMessages.of_carries {segment : List UInt8} (h : Carries pkt segment)
    (hne : segment ≠ []) : AtMessages ⟨{}, pkt, 0⟩ segment := by
  have hready := h.ready hne {}
  have hat : AtMessages ⟨{}, pkt, 0⟩ pkt.received := AtMessages.of_packet hready.offset hready.len
    (fun h => absurd h.1 Bool.false_ne_true) (fun h => absurd h.1 BodyLenState.noConfusion)
  rwa [h.received] at hat

/-- `8=F|9=18446744073709551582|`: the digits stand for `2 ^ 64 - 27 - 7`. -/
def zeroHeader : List UInt8 :=
  [0x38, 0x3D, 0x46, 0x01, 0x39, 0x3D] ++
    [0x31, 0x38, 0x34, 0x34, 0x36, 0x37, 0x34, 0x34, 0x30, 0x37, 0x33, 0x37, 0x30, 0x39, 0x35,
      0x35, 0x31, 0x35, 0x38, 0x32] ++ [soh]

theorem carries_short : Carries (packetOf shortFrame.bytes) shortFrame.bytes :=
  (packetOf_carries (by decide)).1

/-- A packet that is one message announces the end. -/
theorem reachesEnd_short : ReachesEnd {} (packetOf shortFrame.bytes) := by
  have hcarry := carries_short
  have hann : announcedSize shortFrame.bytes = some 17 := by decide
  have hcontinues : ¬ Resumes {} (packetOf shortFrame.bytes) := fun h => absurd h.1 (by simp)
  have hskipped : ¬ Skipped {} (packetOf shortFrame.bytes) := fun h => absurd h.1 (by simp)
  have honly : ∀ l', LeftOver shortFrame.bytes l' → l' = shortFrame.bytes := by
    intro l' hleft
    cases hleft with
    | all => rfl
    | next hn hpos hlt hfits h =>
      rw [hann, Option.some.injEq] at hn
      subst hn
      exact absurd hlt (by decide)
  refine ⟨?_, fun l hl => ?_⟩
  · rw [firstCopyEnd, if_neg hcontinues, if_neg hskipped]
    exact Nat.zero_le _
  · rw [framedBytes, if_neg hcontinues, if_neg hskipped, Option.some.injEq, hcarry.received] at hl
    subst hl
    constructor
    · rintro ⟨l', hleft, hzero⟩
      rw [honly l' hleft, hann] at hzero
      exact absurd hzero (by decide)
    · rintro ⟨l', hleft, hover⟩
      rw [honly l' hleft, hann] at hover
      exact absurd hover (by decide)

theorem packetOf_short_len : (packetOf shortFrame.bytes).len = 17 := carries_short.len

end TradingEngine
