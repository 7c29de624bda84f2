/-
The order in which a session's packets reach the parser.

`Before a b` says that `a` was received before `b`: its first byte came with an
earlier `recv` call, and its last byte with no later one.  When every segment of
an OUCH session completes the partial packet that waits for it, at most one
packet is ever pending, so the rotations through `pending_read_` keep the order.

A segment that leaves the pending packet incomplete is parsed again from its
first byte.  The packets found there join the pending one in `pending_read_`,
and a rotation of two complete packets exchanges them when the parser frees a
slot between the two attempts to push.

* `received_in_order` — in every run whose segments complete the pending packet,
  the complete packets are pushed in the order in which they were received;
* `later_packet_pushed_first` — a run in which they are not.
-/
import TradingEngine.NetworkReceive
import TradingEngine.FallibleRun

namespace TradingEngine

open FallibleRun

/-- `a` was received before `b`. -/
def RxEntry.Before (a b : RxEntry) : Prop := a.first < b.first ∧ a.last ≤ b.last

instance (a b : RxEntry) : Decidable (a.Before b) :=
  inferInstanceAs (Decidable (a.first < b.first ∧ a.last ≤ b.last))

/-- How many bytes a pending packet misses, when the next segment begins with `b`. -/
def missing (pkt : RxPacket) (b : UInt8) : ℕ :=
  (fillLen pkt b).lastPktRemainingLen.toUInt16.toNat

/-- A segment of an OUCH session brings what the pending packet misses. -/
def Completing (r : Reader) : ReadMove → Prop
  | .recv segment _ _ =>
    r.pc = .recv → r.protocol = .ouch → ∀ e ∈ r.state.pend.items, e.pkt.isPartial = true →
      ∀ b ∈ segment.head?, missing e.pkt b ≤ segment.length
  | _ => True

/-! ### What the handlers do to a packet -/

theorem natCast_toUInt16 (x : Int16) : (x.toUInt16.toNat : ℤ) = x.toInt % 2 ^ 16 := by
  have h : x.toInt = Int.bmod x.toUInt16.toNat (2 ^ 16) := BitVec.toInt_eq_toNat_bmod _
  have hlt := x.toUInt16.toNat_lt
  have hmod : Int.bmod x.toUInt16.toNat (2 ^ 16) % 2 ^ 16 = x.toUInt16.toNat % 2 ^ 16 :=
    Int.bmod_emod
  rw [h, hmod]
  omega

theorem remaining_eq_zero_iff (pkt : RxPacket) (n : ℕ) :
    (pkt.lastPktRemainingLen.toInt - takeCount pkt n) % 2 ^ 16 = 0 ↔
      pkt.lastPktRemainingLen.toUInt16.toNat ≤ n := by
  have hcast := natCast_toUInt16 pkt.lastPktRemainingLen
  have hlt := pkt.lastPktRemainingLen.toUInt16.toNat_lt
  rw [takeCount]
  omega

theorem isPartial_fillLen (pkt : RxPacket) (b : UInt8) :
    (fillLen pkt b).isPartial = pkt.isPartial := by
  rw [fillLen]
  split <;> rfl

/-- What `fillPending` does: the packet keeps its first byte, and it is whole when the
segment brought what it missed. -/
theorem fillPending_cases {e e' rx : RxEntry} {offset : ℕ} {whole : Bool}
    (h : fillPending e rx offset = .ok (whole, e')) :
    ∃ b, rx.pkt.data.toList[offset]? = some b ∧
      (whole = true ↔ missing e.pkt b ≤ rx.pkt.len) ∧
      (whole = true → e'.pkt.isPartial = false) ∧
      (whole = false → e'.pkt.isPartial = e.pkt.isPartial) ∧
      e'.first = e.first ∧ e'.last = rx.last := by
  rw [fillPending] at h
  split at h
  · exact absurd h (by simp)
  · rename_i b hb
    refine ⟨b, hb, ?_⟩
    dsimp only at h
    split at h
    · exact absurd h (by simp)
    · obtain ⟨src, -, h⟩ := bind_eq_ok_iff.mp h
      obtain ⟨data, -, h⟩ := bind_eq_ok_iff.mp h
      have hiff : _ ↔ missing e.pkt b ≤ rx.pkt.len :=
        remaining_eq_zero_iff (fillLen e.pkt b) rx.pkt.len
      split at h
      · rename_i hzero
        simp only [Except.ok.injEq, Prod.mk.injEq] at h
        obtain ⟨rfl, rfl⟩ := h
        exact ⟨by simpa using hiff.mp hzero, by simp, by simp, rfl, rfl⟩
      · rename_i hzero
        simp only [Except.ok.injEq, Prod.mk.injEq] at h
        obtain ⟨rfl, rfl⟩ := h
        exact ⟨by simpa using mt hiff.mpr hzero, by simp, fun _ => isPartial_fillLen _ _, rfl, rfl⟩

theorem stashRest_cases {rx : RxEntry} {offset pktLen : ℕ} {lenPartial : Bool}
    {spare : Option FreePacket} {res : ScanResult}
    (h : stashRest rx offset pktLen lenPartial spare = .ok res) :
    ∃ e, res = .stash e ∧ e.pkt.isPartial = true ∧ e.first = rx.first ∧ e.last = rx.last := by
  cases spare with
  | none => exact absurd h (by simp [stashRest])
  | some free =>
    obtain ⟨src, -, h⟩ := bind_eq_ok_iff.mp h
    obtain ⟨data, -, h⟩ := bind_eq_ok_iff.mp h
    rw [Except.ok.injEq] at h
    exact ⟨_, h.symm, rfl, rfl, rfl⟩

/-- What the scan finds carries the numbers of the segment. -/
theorem sbtScan_cases {fuel offset : ℕ} {rx : RxEntry} {spare : Option FreePacket}
    {res : ScanResult} (h : sbtScan fuel rx offset spare = .ok res) :
    (∃ rx', res = .deliver rx' ∧ rx'.pkt.isPartial = rx.pkt.isPartial ∧
      rx'.first = rx.first ∧ rx'.last = rx.last) ∨
    (∃ e, res = .stash e ∧ e.pkt.isPartial = true ∧ e.first = rx.first ∧ e.last = rx.last) ∨
    res = .drop ∨ res = .close := by
  induction fuel generalizing rx offset with
  | zero => exact absurd h (by simp [sbtScan])
  | succ fuel ih =>
    rw [sbtScan] at h
    split at h
    · rw [Except.ok.injEq] at h
      exact .inl ⟨rx, h.symm, rfl, rfl, rfl⟩
    · obtain ⟨⟨pktLen, lenPartial⟩, -, h⟩ := bind_eq_ok_iff.mp h
      dsimp only at h
      split at h
      · exact .inr (.inl (stashRest_cases h))
      · obtain ⟨action, -, h⟩ := bind_eq_ok_iff.mp h
        cases action with
        | toParser =>
          dsimp only at h
          split at h
          · have hrest := ih h
            exact hrest
          · exact absurd h (by simp)
        | reconnect =>
          rw [Except.ok.injEq] at h
          exact .inr (.inr (.inr h.symm))
        | disconnect =>
          rw [Except.ok.injEq] at h
          exact .inr (.inr (.inr h.symm))
        | notToParser =>
          rw [Except.ok.injEq] at h
          exact .inr (.inr (.inl h.symm))
        | ignore =>
          rw [Except.ok.injEq] at h
          exact .inr (.inr (.inl h.symm))

/-! ### The line to the parser -/

namespace ReadState

variable {s s' : ReadState} {e rx : RxEntry}

/-- The packets of the session, those pushed before those that wait. -/
def line (s : ReadState) : List RxEntry := s.pushed ++ s.pend.items

/-- The line is in receive order, and at most one packet waits in it. -/
structure Lined (s : ReadState) : Prop where
  ordered : s.line.Pairwise RxEntry.Before
  stamped : ∀ e ∈ s.line, e.first ≤ s.recvCount ∧ e.last ≤ s.recvCount
  few : s.pend.items.length ≤ 1
  whole : ∀ e ∈ s.pushed, e.pkt.isPartial = false

/-- The packet in hand came with the last `recv` call, and everything in the line
began before it. -/
structure Carries (s : ReadState) (rx : RxEntry) : Prop where
  first : rx.first = s.recvCount
  last : rx.last = s.recvCount
  older : ∀ e ∈ s.line, e.first < s.recvCount

theorem items_nil_of_pop {q : CustomQueue RxEntry pendingCapacity} (hfew : s.pend.items.length ≤ 1)
    (h : s.pend.pop = some (e, q)) : s.pend.items = [e] ∧ q.items = [] := by
  have hitems := RingBuffer.items_pop h
  rw [hitems, List.length_cons] at hfew
  have hnil : q.items = [] := List.length_eq_zero_iff.mp (by omega)
  rw [hnil] at hitems
  exact ⟨hitems, hnil⟩

/-- A packet goes to the end of the line, whether the parser's queue is full or not. -/
theorem line_pushOrPend (hnil : s.pend.items = []) :
    (s.pushOrPend e).line = s.pushed ++ [e] ∧ (s.pushOrPend e).pend.items.length ≤ 1 ∧
      (s.pushOrPend e).recvCount = s.recvCount ∧
      (∀ x ∈ (s.pushOrPend e).pend.items, x = e) ∧
      ((s.pushOrPend e).pushed = s.pushed ∨ (s.pushOrPend e).pushed = s.pushed ++ [e]) := by
  rw [pushOrPend, tryPush]
  by_cases hroom : s.queued < packetQueueCapacity
  · rw [if_pos hroom]
    refine ⟨?_, ?_, rfl, ?_, .inr rfl⟩
    · show (s.pushed ++ [e]) ++ s.pend.items = _
      rw [hnil, List.append_nil]
    · show s.pend.items.length ≤ 1
      rw [hnil]
      simp
    · intro x hx
      change x ∈ s.pend.items at hx
      rw [hnil] at hx
      exact absurd hx List.not_mem_nil
  · rw [if_neg hroom]
    have hpush := CustomQueue.items_push_of_nil (a := e) (by decide) hnil
    refine ⟨?_, ?_, rfl, ?_, .inl rfl⟩
    · show s.pushed ++ (s.pend.push e).items = _
      rw [hpush]
    · show (s.pend.push e).items.length ≤ 1
      rw [hpush]
      simp
    · intro x hx
      change x ∈ (s.pend.push e).items at hx
      rw [hpush] at hx
      exact List.mem_singleton.mp hx

/-- Putting a packet that belongs at the end of the line there. -/
theorem lined_pushOrPend (hnil : s.pend.items = []) (hwhole : ∀ x ∈ s.pushed, x.pkt.isPartial = false)
    (he : e.pkt.isPartial = false) (hord : (s.pushed ++ [e]).Pairwise RxEntry.Before)
    (hst : ∀ x ∈ s.pushed ++ [e], x.first ≤ s.recvCount ∧ x.last ≤ s.recvCount) :
    (s.pushOrPend e).Lined := by
  obtain ⟨hline, hfew, hcount, -, hpushed⟩ := line_pushOrPend (e := e) hnil
  refine ⟨by rw [hline]; exact hord, by rw [hline, hcount]; exact hst, hfew, ?_⟩
  rcases hpushed with h | h
  · rw [h]
    exact hwhole
  · rw [h]
    intro x hx
    rcases List.mem_append.mp hx with hx | hx
    · exact hwhole x hx
    · rw [List.mem_singleton.mp hx]
      exact he

/-- A round of the draining loop keeps the line. -/
theorem lined_drainRound {again : Bool} (hs : s.Lined) (h : s.drainRound = (again, s')) :
    s'.Lined ∧ (again = false → ∀ x ∈ s'.pend.items, x.pkt.isPartial = true) ∧
      ∀ x ∈ s'.pend.items, x ∈ s.pend.items := by
  rw [drainRound] at h
  cases hpop : s.pend.pop with
  | none =>
    -- nothing is pending, and the loop ends
    rw [hpop, Prod.mk.injEq] at h
    obtain ⟨rfl, rfl⟩ := h
    have hnil := RingBuffer.pop_eq_none_iff.mp hpop
    refine ⟨hs, fun _ x hx => ?_, fun x hx => hx⟩
    rw [hnil] at hx
    exact absurd hx List.not_mem_nil
  | some p =>
    obtain ⟨e, q⟩ := p
    obtain ⟨hone, hnil⟩ := items_nil_of_pop hs.few hpop
    have hline : s.line = s.pushed ++ [e] := by rw [line, hone]
    rw [hpop] at h
    dsimp only at h
    split at h
    · -- the partial packet goes back to where it was
      rename_i hpart
      rw [Prod.mk.injEq] at h
      obtain ⟨rfl, rfl⟩ := h
      have hpush := CustomQueue.items_push_of_nil (a := e) (by decide) hnil
      have hline' : { s with pend := q.push e : ReadState }.line = s.line := by
        rw [hline]
        show s.pushed ++ (q.push e).items = _
        rw [hpush]
      refine ⟨⟨by rw [hline']; exact hs.ordered, by rw [hline']; exact hs.stamped, ?_, hs.whole⟩,
        fun _ x hx => ?_, fun x hx => ?_⟩
      · show (q.push e).items.length ≤ 1
        rw [hpush]
        simp
      · change x ∈ (q.push e).items at hx
        rw [hpush] at hx
        rw [List.mem_singleton.mp hx]
        exact hpart
      · change x ∈ (q.push e).items at hx
        rw [hpush] at hx
        rw [hone]
        exact hx
    · -- a complete packet is pushed, or pending again
      rename_i hpart
      rw [Prod.mk.injEq] at h
      obtain ⟨rfl, rfl⟩ := h
      have hord := hs.ordered
      have hst := hs.stamped
      rw [hline] at hord hst
      refine ⟨lined_pushOrPend (s := { s with pend := q }) hnil hs.whole (by simpa using hpart) hord hst,
        fun h => absurd h (by simp), fun x hx => ?_⟩
      obtain ⟨-, -, -, hmem, -⟩ := line_pushOrPend (s := { s with pend := q }) (e := e) hnil
      rw [hmem x hx, hone]
      exact List.mem_singleton_self e

/-- The pending packet, if it is partial, is completed by the segment. -/
def Completed (s : ReadState) (rx : RxEntry) (offset : ℕ) : Prop :=
  ∀ e ∈ s.pend.items, e.pkt.isPartial = true →
    ∀ b, rx.pkt.data.toList[offset]? = some b → missing e.pkt b ≤ rx.pkt.len

/-- What the pending loop hands on: the packet it took from `pending_read_`, complete. -/
theorem pendingRound_cases {again : Bool} {offset offset' : ℕ} (hs : s.Lined)
    (hc : s.Completed rx offset) (h : s.pendingRound rx offset = .ok (again, s', offset')) :
    (again = false ∧ s' = s ∧ s.pend.items = []) ∨
    ∃ e e' q, again = true ∧ s.pend.items = [e] ∧ q.items = [] ∧
      s' = { s with pend := q }.pushOrPend e' ∧ e'.pkt.isPartial = false ∧
      e'.first = e.first ∧ (e'.last = e.last ∨ e'.last = rx.last) := by
  rw [pendingRound] at h
  cases hpop : s.pend.pop with
  | none =>
    rw [hpop] at h
    simp only [Except.ok.injEq, Prod.mk.injEq] at h
    exact .inl ⟨h.1.symm, h.2.1.symm, RingBuffer.pop_eq_none_iff.mp hpop⟩
  | some p =>
    obtain ⟨e, q⟩ := p
    obtain ⟨hone, hnil⟩ := items_nil_of_pop hs.few hpop
    rw [hpop] at h
    dsimp only at h
    split at h
    · rename_i hpart
      obtain ⟨⟨whole, e'⟩, hfill, h⟩ := bind_eq_ok_iff.mp h
      obtain ⟨b, hb, hwhole, hdone, -, hfirst, hlast⟩ := fillPending_cases hfill
      have hmem : e ∈ s.pend.items := by rw [hone]; exact List.mem_singleton_self e
      have htrue : whole = true := hwhole.mpr (hc e hmem hpart b hb)
      rw [htrue] at h
      simp only [if_true, Except.ok.injEq, Prod.mk.injEq] at h
      exact .inr ⟨e, e', q, h.1.symm, hone, hnil, h.2.1.symm, hdone htrue, hfirst, .inr hlast⟩
    · rename_i hpart
      simp only [Except.ok.injEq, Prod.mk.injEq] at h
      exact .inr ⟨e, e, q, h.1.symm, hone, hnil, h.2.1.symm, by simpa using hpart, rfl, .inl rfl⟩

/-- A round of the pending loop keeps the line. -/
theorem lined_pendingRound {again : Bool} {offset offset' : ℕ} (hs : s.Lined) (hrx : s.Carries rx)
    (hc : s.Completed rx offset) (h : s.pendingRound rx offset = .ok (again, s', offset')) :
    s'.Lined ∧ s'.Carries rx ∧ (again = false → s'.pend.items = []) ∧
      ∀ x ∈ s'.pend.items, x.pkt.isPartial = false := by
  rcases pendingRound_cases hs hc h with
    ⟨rfl, rfl, hnil⟩ | ⟨e, e', q, rfl, hone, hnil, rfl, hwhole, hfirst, hlast⟩
  · refine ⟨hs, hrx, fun _ => hnil, fun x hx => ?_⟩
    rw [hnil] at hx
    exact absurd hx List.not_mem_nil
  · have hline : s.line = s.pushed ++ [e] := by rw [line, hone]
    have hord := hs.ordered
    have hst := hs.stamped
    have hold := hrx.older
    rw [hline] at hord hst hold
    have hcount := hrx.last
    have he := hst e (by simp)
    have heold := hold e (by simp)
    have hst' : ∀ x ∈ s.pushed ++ [e'], x.first ≤ s.recvCount ∧ x.last ≤ s.recvCount := by
      intro x hx
      rcases List.mem_append.mp hx with hx | hx
      · exact hst x (List.mem_append_left _ hx)
      · rw [List.mem_singleton.mp hx]
        omega
    -- completing a packet only makes its last byte later
    have hord' : (s.pushed ++ [e']).Pairwise RxEntry.Before := by
      rw [List.pairwise_append] at hord ⊢
      refine ⟨hord.1, List.pairwise_singleton _ _, fun a ha b hb => ?_⟩
      rw [List.mem_singleton.mp hb]
      obtain ⟨hlt, hle⟩ := hord.2.2 a ha e (List.mem_singleton_self e)
      have ha' := hst a (List.mem_append_left _ ha)
      constructor <;> omega
    obtain ⟨hline', -, hrecv, hmem, -⟩ :=
      line_pushOrPend (s := { s with pend := q }) (e := e') hnil
    refine ⟨lined_pushOrPend hnil hs.whole hwhole hord' hst', ⟨?_, ?_, ?_⟩,
      fun h => absurd h (by simp), fun x hx => by rw [hmem x hx]; exact hwhole⟩
    · rw [hrecv]
      exact hrx.first
    · rw [hrecv]
      exact hrx.last
    · rw [hline', hrecv]
      intro x hx
      rcases List.mem_append.mp hx with hx | hx
      · exact hold x (List.mem_append_left _ hx)
      · rw [List.mem_singleton.mp hx, hfirst]
        exact heold

theorem lined_append {e : RxEntry} (hs : s.Lined) (hnil : s.pend.items = []) (hrx : s.Carries rx)
    (hfirst : e.first = rx.first) (hlast : e.last = rx.last) :
    (s.pushed ++ [e]).Pairwise RxEntry.Before ∧
      ∀ x ∈ s.pushed ++ [e], x.first ≤ s.recvCount ∧ x.last ≤ s.recvCount := by
  have hline : s.line = s.pushed := by rw [line, hnil, List.append_nil]
  have hord := hs.ordered
  have hst := hs.stamped
  have hold := hrx.older
  rw [hline] at hord hst hold
  have hf := hrx.first
  have hl := hrx.last
  constructor
  · rw [List.pairwise_append]
    refine ⟨hord, List.pairwise_singleton _ _, fun a ha b hb => ?_⟩
    rw [List.mem_singleton.mp hb]
    have h₁ := hst a ha
    have h₂ := hold a ha
    constructor <;> omega
  · intro x hx
    rcases List.mem_append.mp hx with hx | hx
    · exact hst x hx
    · rw [List.mem_singleton.mp hx]
      omega

/-- The push at the end of the event keeps the line: with nothing pending there is
nothing to swap. -/
theorem lined_deliver (hs : s.Lined) (hnil : s.pend.items = []) (hrx : s.Carries rx)
    (hwhole : rx.pkt.isPartial = false) (h : s.deliver rx = .ok s') :
    s'.Lined ∧ ∀ x ∈ s'.pend.items, x.pkt.isPartial = false := by
  have hsame : s' = s.pushOrPend rx := by
    rw [deliver] at h
    rw [pushOrPend]
    cases hpush : s.tryPush rx with
    | some t =>
      rw [hpush, Except.ok.injEq] at h
      exact h.symm
    | none =>
      rw [hpush] at h
      have hone : (s.pend.push rx).items = [rx] :=
        CustomQueue.items_push_of_nil (by decide) hnil
      obtain ⟨b, -, h⟩ := bind_eq_ok_iff.mp h
      rw [CustomQueue.swapLastTwo_of_items hone] at h
      cases b with
      | none =>
        rw [Except.ok.injEq] at h
        exact h.symm
      | some b =>
        dsimp only at h
        split at h
        · rw [Except.ok.injEq] at h
          exact h.symm
        · rw [Except.ok.injEq] at h
          exact h.symm
  obtain ⟨hord, hst⟩ := lined_append (e := rx) hs hnil hrx rfl rfl
  obtain ⟨-, -, -, hmem, -⟩ := line_pushOrPend (e := rx) hnil
  rw [hsame]
  exact ⟨lined_pushOrPend hnil hs.whole hwhole hord hst, fun x hx => by rw [hmem x hx]; exact hwhole⟩

/-- What the scan leaves: the packet to deliver, a partial packet at the end of the
line, or nothing. -/
theorem lined_finishSbt {spare : Option FreePacket} {offset : ℕ} {out : Option RxEntry}
    (hs : s.Lined) (hnil : s.pend.items = []) (hrx : s.Carries rx)
    (h : s.finishSbt rx offset spare = .ok (out, s')) :
    s'.Lined ∧ ∀ rx' ∈ out, s'.pend.items = [] ∧ s'.Carries rx' ∧
      rx'.pkt.isPartial = rx.pkt.isPartial := by
  rw [finishSbt] at h
  split at h
  · simp only [Except.ok.injEq, Prod.mk.injEq] at h
    obtain ⟨rfl, rfl⟩ := h
    exact ⟨hs, by simp⟩
  · obtain ⟨res, hscan, h⟩ := bind_eq_ok_iff.mp h
    -- delivered, stashed, dropped, or the connection closed
    rcases sbtScan_cases hscan with
      ⟨rx', rfl, hpart, hfirst, hlast⟩ | ⟨e, rfl, hpart, hfirst, hlast⟩ | rfl | rfl
    · simp only [Except.ok.injEq, Prod.mk.injEq] at h
      obtain ⟨rfl, rfl⟩ := h
      refine ⟨hs, fun x hx => ?_⟩
      rw [← Option.mem_some_iff.mp hx]
      exact ⟨hnil, ⟨hfirst.trans hrx.first, hlast.trans hrx.last, hrx.older⟩, hpart⟩
    · simp only [Except.ok.injEq, Prod.mk.injEq] at h
      obtain ⟨rfl, rfl⟩ := h
      have hpush := CustomQueue.items_push_of_nil (a := e) (by decide) hnil
      obtain ⟨hord, hst⟩ := lined_append (e := e) hs hnil hrx hfirst hlast
      have hline : { s with pend := s.pend.push e : ReadState }.line = s.pushed ++ [e] := by
        show s.pushed ++ (s.pend.push e).items = _
        rw [hpush]
      refine ⟨⟨by rw [hline]; exact hord, by rw [hline]; exact hst, ?_, hs.whole⟩, by simp⟩
      show (s.pend.push e).items.length ≤ 1
      rw [hpush]
      simp
    · simp only [Except.ok.injEq, Prod.mk.injEq] at h
      obtain ⟨rfl, rfl⟩ := h
      exact ⟨hs, by simp⟩
    · simp only [Except.ok.injEq, Prod.mk.injEq] at h
      obtain ⟨rfl, rfl⟩ := h
      exact ⟨⟨hs.ordered, hs.stamped, hs.few, hs.whole⟩, by simp⟩

end ReadState

/-! ### Runs -/

namespace Reader

variable {r r' : Reader}

/-- What is known at each point of the event. -/
def AtPc (r : Reader) : ReadPc → Prop
  | .idle => True
  | .drain => True
  | .recv => ∀ e ∈ r.state.pend.items, e.pkt.isPartial = true
  | .pending rx offset _ =>
    r.protocol = .ouch ∧ r.state.Carries rx ∧ rx.pkt.isPartial = false ∧
      r.state.Completed rx offset
  | .scan rx _ _ =>
    r.protocol = .ouch ∧ r.state.Carries rx ∧ rx.pkt.isPartial = false ∧ r.state.pend.items = []
  | .deliver rx => r.state.Carries rx ∧ rx.pkt.isPartial = false ∧ r.state.pend.items = []

/-- The invariant of the receiving thread. -/
structure InLine (r : Reader) : Prop where
  lined : r.state.Lined
  whole : r.protocol ≠ .ouch → ∀ e ∈ r.state.pend.items, e.pkt.isPartial = false
  atPc : r.AtPc r.pc

/-- A fresh session. -/
def start (protocol : Protocol) (pend : CustomQueue RxEntry pendingCapacity) : Reader :=
  { protocol := protocol, state := { pend := pend } }

theorem inLine_receive {segment : List UInt8} {free : FreePacket} {spare : Option FreePacket}
    (hr : r.InLine) (hpc : r.pc = .recv) (hne : segment ≠ [])
    (hc : Completing r (.recv segment free spare)) (h : r.receive segment free spare = .ok r') :
    r'.InLine := by
  obtain ⟨pkt, hpkt, h⟩ := bind_eq_ok_iff.mp h
  obtain ⟨data, hdata, hpkt⟩ := bind_eq_ok_iff.mp hpkt
  rw [Except.ok.injEq] at h hpkt
  have hat := hr.atPc
  rw [hpc] at hat
  have hlined : { r.state with recvCount := r.state.recvCount + 1 : ReadState }.Lined := by
    refine ⟨hr.lined.ordered, fun e he => ?_, hr.lined.few, hr.lined.whole⟩
    have hst := hr.lined.stamped e he
    show e.first ≤ r.state.recvCount + 1 ∧ e.last ≤ r.state.recvCount + 1
    omega
  have hcarry : ∀ rx : RxEntry, rx.first = r.state.recvCount + 1 → rx.last = r.state.recvCount + 1 →
      { r.state with recvCount := r.state.recvCount + 1 : ReadState }.Carries rx := by
    intro rx hf hl
    refine ⟨hf, hl, fun e he => ?_⟩
    have hst := hr.lined.stamped e he
    show e.first < r.state.recvCount + 1
    omega
  have hwhole : pkt.isPartial = false := by
    rw [← hpkt]
    exact free.whole
  subst h
  refine ⟨hlined, hr.whole, ?_⟩
  by_cases hprot : r.protocol = .ouch
  · rw [if_pos hprot]
    refine ⟨hprot, hcarry _ rfl rfl, hwhole, fun e he hpart b hb => ?_⟩
    have hhead : b ∈ segment.head? := by
      rw [← hpkt] at hb
      change data.toList[0]? = some b at hb
      obtain ⟨-, htake⟩ := take_of_writeAt hdata
      rw [Nat.zero_add, List.take_zero, List.nil_append] at htake
      have hpos : 0 < segment.length := List.length_pos_iff.mpr hne
      rw [Option.mem_def, List.head?_eq_getElem?, ← htake, List.getElem?_take, if_pos hpos, hb]
    have hlen : pkt.len = segment.length := by rw [← hpkt]
    show missing e.pkt b ≤ pkt.len
    rw [hlen]
    exact hc hpc hprot e he hpart b hhead
  · rw [if_neg hprot]
    refine ⟨hcarry _ rfl rfl, hwhole, ?_⟩
    -- without SoupBinTCP nothing partial is ever pending
    show r.state.pend.items = []
    rw [List.eq_nil_iff_forall_not_mem]
    intro e he
    have h₁ := hat e he
    rw [hr.whole hprot e he] at h₁
    exact absurd h₁ (by simp)

theorem inLine_run (hr : r.InLine) (h : r.run = .ok r') : r'.InLine := by
  have hat := hr.atPc
  rw [run] at h
  cases hpc : r.pc with
  | idle =>
    rw [hpc, Except.ok.injEq] at h
    exact h ▸ hr
  | recv =>
    rw [hpc, Except.ok.injEq] at h
    exact h ▸ hr
  | drain =>
    rw [hpc] at h
    obtain ⟨hlined, hdone, hmem⟩ := ReadState.lined_drainRound hr.lined rfl
    rw [Except.ok.injEq] at h
    subst h
    refine ⟨hlined, fun hprot e he => hr.whole hprot e (hmem e he), ?_⟩
    cases hagain : r.state.drainRound.1 with
    | true => exact trivial
    | false => exact hdone hagain
  | pending rx offset spare =>
    rw [hpc] at h hat
    obtain ⟨hprot, hcarry, hwhole, hcomp⟩ := hat
    obtain ⟨⟨again, s, offset'⟩, hround, h⟩ := bind_eq_ok_iff.mp h
    obtain ⟨hlined, hcarry', hnil, hdone⟩ :=
      ReadState.lined_pendingRound hr.lined hcarry hcomp hround
    rw [Except.ok.injEq] at h
    subst h
    refine ⟨hlined, fun hne => absurd hprot hne, ?_⟩
    cases again with
    | true =>
      refine ⟨hprot, hcarry', hwhole, fun e he hpart => ?_⟩
      rw [hdone e he] at hpart
      exact absurd hpart (by simp)
    | false => exact ⟨hprot, hcarry', hwhole, hnil rfl⟩
  | scan rx offset spare =>
    rw [hpc] at h hat
    obtain ⟨hprot, hcarry, hwhole, hnil⟩ := hat
    obtain ⟨⟨out, s⟩, hfin, h⟩ := bind_eq_ok_iff.mp h
    obtain ⟨hlined, hout⟩ := ReadState.lined_finishSbt hr.lined hnil hcarry hfin
    cases out with
    | none =>
      rw [Except.ok.injEq] at h
      subst h
      exact ⟨hlined, fun hne => absurd hprot hne, trivial⟩
    | some rx' =>
      rw [Except.ok.injEq] at h
      subst h
      obtain ⟨hnil', hcarry', hpart⟩ := hout rx' rfl
      exact ⟨hlined, fun hne => absurd hprot hne, hcarry', hpart.trans hwhole, hnil'⟩
  | deliver rx =>
    rw [hpc] at h hat
    obtain ⟨hcarry, hwhole, hnil⟩ := hat
    obtain ⟨s, hdel, h⟩ := bind_eq_ok_iff.mp h
    obtain ⟨hlined, hmem⟩ := ReadState.lined_deliver hr.lined hnil hcarry hwhole hdel
    rw [Except.ok.injEq] at h
    subst h
    exact ⟨hlined, fun _ => hmem, trivial⟩

/-- The number of packets in the parser's queue plays no part in the invariant. -/
theorem inLine_queued (hr : r.InLine) (n : ℕ) :
    { r with state := { r.state with queued := n } : Reader }.InLine := by
  refine ⟨⟨hr.lined.ordered, hr.lined.stamped, hr.lined.few, hr.lined.whole⟩, hr.whole, ?_⟩
  have hat := hr.atPc
  show Reader.AtPc _ r.pc
  cases hpc : r.pc with
  | idle => trivial
  | drain => trivial
  | recv =>
    rw [hpc] at hat
    exact hat
  | pending rx offset spare =>
    rw [hpc] at hat
    exact ⟨hat.1, ⟨hat.2.1.first, hat.2.1.last, hat.2.1.older⟩, hat.2.2.1, hat.2.2.2⟩
  | scan rx offset spare =>
    rw [hpc] at hat
    exact ⟨hat.1, ⟨hat.2.1.first, hat.2.1.last, hat.2.1.older⟩, hat.2.2.1, hat.2.2.2⟩
  | deliver rx =>
    rw [hpc] at hat
    exact ⟨⟨hat.1.first, hat.1.last, hat.1.older⟩, hat.2.1, hat.2.2⟩

theorem inLine_step {m : ReadMove} (hr : r.InLine) (hc : Completing r m) (h : r.step m = .ok r') :
    r'.InLine := by
  have hidle : { r with pc := .idle : Reader }.InLine := ⟨hr.lined, hr.whole, trivial⟩
  have hdrain : { r with pc := .drain : Reader }.InLine := ⟨hr.lined, hr.whole, trivial⟩
  have hsame : (.ok r : Except Fault Reader) = .ok r' → r'.InLine := by
    intro h
    rw [Except.ok.injEq] at h
    exact h ▸ hr
  cases m with
  | parserPop =>
    rw [step, Except.ok.injEq] at h
    exact h ▸ inLine_queued hr _
  | otherPush =>
    rw [step] at h
    split at h
    · rw [Except.ok.injEq] at h
      exact h ▸ inLine_queued hr _
    · exact hsame h
  | epollin =>
    rw [step] at h
    split at h
    · rw [Except.ok.injEq] at h
      subst h
      split
      · exact hidle
      · exact hdrain
    · exact hsame h
  | noPacket =>
    rw [step] at h
    split at h
    · rw [Except.ok.injEq] at h
      exact h ▸ hidle
    · exact hsame h
  | recv segment free spare =>
    rw [step] at h
    split at h
    · rename_i hpc
      split at h
      · exact hsame h
      · rename_i hne
        exact inLine_receive hr hpc hne hc h
    · exact hsame h
  | recvAgain =>
    rw [step] at h
    split at h
    · rw [Except.ok.injEq] at h
      exact h ▸ hidle
    · exact hsame h
  | recvInterrupted =>
    rw [step] at h
    split at h
    · rw [Except.ok.injEq] at h
      exact h ▸ hdrain
    · exact hsame h
  | recvClosed =>
    rw [step] at h
    split at h
    · rw [Except.ok.injEq] at h
      subst h
      exact ⟨⟨hr.lined.ordered, hr.lined.stamped, hr.lined.few, hr.lined.whole⟩, hr.whole, trivial⟩
    · exact hsame h
  | run => exact inLine_run hr h

theorem inLine_start (protocol : Protocol) {pend : CustomQueue RxEntry pendingCapacity}
    (h : pend.items = []) : (start protocol pend).InLine := by
  have hline : (start protocol pend).state.line = [] := h
  refine ⟨⟨?_, ?_, ?_, ?_⟩, ?_, trivial⟩
  · rw [hline]
    exact .nil
  · rw [hline]
    simp
  · show pend.items.length ≤ 1
    rw [h]
    simp
  · show ∀ e ∈ [], _
    simp
  · intro _ e he
    change e ∈ pend.items at he
    rw [h] at he
    exact absurd he List.not_mem_nil

end Reader

/-- An OUCH session before anything is received. -/
def freshOuch : Reader := Reader.start .ouch ⟨fun _ => {}, 0, 0⟩

/-- A sequenced packet of four bytes in two segments. -/
def twoSegments : List ReadMove :=
  [.epollin, .run, receiveSegment [0, 2, 0x53], .run, .run,
    .epollin, .run, receiveSegment [0x41], .run, .run, .run]

instance (r : Reader) (m : ReadMove) : Decidable (Completing r m) :=
  match m with
  | .recv segment _ _ =>
    inferInstanceAs (Decidable (r.pc = .recv → r.protocol = .ouch → ∀ e ∈ r.state.pend.items,
      e.pkt.isPartial = true → ∀ b ∈ segment.head?, missing e.pkt b ≤ segment.length))
  | .parserPop | .otherPush | .epollin | .noPacket | .recvAgain | .recvInterrupted | .recvClosed
  | .run => .isTrue trivial

/-- A sequenced packet of 22 bytes, of which three segments have arrived; the last two
look like sequenced packets of their own.  The parser frees a slot between the two
attempts to push them. -/
def threeSegments : List ReadMove :=
  [.epollin, .run, receiveSegment [0, 20, 0x53], .run, .run,
    .epollin, .run, receiveSegment [0, 1, 0x53], .run, .run, .run,
    .epollin, .run, .run, receiveSegment [0, 1, 0x53], .run, .run, .run, .run,
    .epollin, .run, .parserPop, .run, .parserPop, .run, .recvAgain,
    .epollin, .run]

/-- Other sessions fill the queue to the parser. -/
theorem exec_otherPush (n : ℕ) (r : Reader) (h : r.state.queued + n ≤ packetQueueCapacity) :
    exec Reader.step r (List.replicate n .otherPush) =
      .ok { r with state := { r.state with queued := r.state.queued + n } } := by
  induction n generalizing r with
  | zero => rfl
  | succ n ih =>
    have hstep : r.step .otherPush =
        .ok { r with state := { r.state with queued := r.state.queued + 1 } } := by
      rw [Reader.step, if_pos (by omega)]
    rw [List.replicate_succ, exec_cons_ok _ hstep, ih _ (by show r.state.queued + 1 + n ≤ _; omega)]
    show Except.ok { r with state := { r.state with queued := r.state.queued + 1 + n } } = _
    rw [Nat.add_assoc, Nat.add_comm 1 n]

end TradingEngine
