/-
Where the received packets are.

Every packet should at all times be in one place: the free list, the queue to the
parser, a pending queue, the parser's hands, or, while an event is handled, the hands
of the receiving thread.  The thread forgets the packet it works on when `recv` is
interrupted or fails, when the peer has closed, and whenever `SBTPacketHandler`
returns false: nobody can find such a packet again.

* `NoLeak` — none of this happens: `recv` brings bytes or has none, and a segment of an
  OUCH session splits into whole sequenced packets;
* `step_cases` — a step keeps every packet in one place or loses one for good;
* `packets_conserved_iff` — a run keeps every packet in one place exactly when no step
  of it leaks.

`heartbeat_packet_lost` is the run of one server heartbeat.
-/
import TradingEngine.PacketSlots

namespace TradingEngine

open FallibleRun

/-! ### Places -/

namespace RxSystem

/-- The packets in the pending queues. -/
def pendingSlots (s : RxSystem) : Multiset RxSlot := ∑ i, ((s.pendingRead i).items : Multiset RxSlot)

/-- Every place a packet can be in, with the packets there. -/
def places (s : RxSystem) : Multiset RxSlot :=
  (s.freePktList.items : Multiset RxSlot) + (s.receiverToParser.items : Multiset RxSlot) +
    s.pendingSlots + (s.inParser.toList : Multiset RxSlot) + (s.pc.inReceipt : Multiset RxSlot)

/-- Every packet is in one place. -/
def Conserved (s : RxSystem) : Prop := ∀ slot, s.places.count slot = 1

end RxSystem

/-- From `offset` on, the first `len` bytes are whole packets of type `S`. -/
inductive Sequenced (data : Vector UInt8 packetSize) (len : ℕ) : ℕ → Prop
  | done {offset : ℕ} (h : len ≤ offset) : Sequenced data len offset
  | packet {offset : ℕ} (hi lo : UInt8) (hmore : offset + 1 < len)
      (hhi : data.toList[offset]? = some hi) (hlo : data.toList[offset + 1]? = some lo)
      (hfits : (readU16be hi lo + 2) % 2 ^ 16 + offset ≤ len)
      (htype : data.toList[offset + 2]? = some 0x53)
      (hrest : Sequenced data len (offset + (readU16be hi lo + 2) % 2 ^ 16)) :
      Sequenced data len offset

/-- The step does not forget a packet. -/
def RxSystem.NoLeak (s : RxSystem) : RxMove → Prop
  | .recv result =>
    ∀ i, s.pc = .recv i → s.freePktList.items ≠ [] →
      result = .again ∨ ∃ segment, segment ≠ [] ∧ result = .bytes segment
  | .run =>
    ∀ i rx offset, s.pc = .scan i rx offset →
      offset < (s.pool rx).len ∧ Sequenced (s.pool rx).data (s.pool rx).len offset
  | _ => True

/-! ### The loop over a segment -/

theorem packetLen_eq_ok_iff {pkt : RxPacket} {offset pktLen : ℕ} {lenPartial : Bool} :
    packetLen { pkt := pkt } offset = .ok (pktLen, lenPartial) ↔
      ∃ hi, pkt.data.toList[offset]? = some hi ∧
        (pkt.len - offset = 1 ∧ pktLen = charToU16 hi ∧ lenPartial = true ∨
          pkt.len - offset ≠ 1 ∧ lenPartial = false ∧ ∃ lo,
            pkt.data.toList[offset + 1]? = some lo ∧ pktLen = (readU16be hi lo + 2) % 2 ^ 16) := by
  unfold packetLen
  cases hhi : pkt.data.toList[offset]? with
  | none => simp
  | some hi =>
    cases hlo : pkt.data.toList[offset + 1]? with
    | none =>
      by_cases hone : pkt.len - offset = 1
      · simp only [if_pos hone]
        simp [hone, eq_comm]
      · simp only [if_neg hone]
        simp [hone]
    | some lo =>
      by_cases hone : pkt.len - offset = 1
      · simp only [if_pos hone]
        simp [hone, eq_comm]
      · simp only [if_neg hone]
        simp [hone, eq_comm, and_comm]

theorem pktHandler_toParser_iff (data : Vector UInt8 packetSize) (offset : ℕ) :
    pktHandler data offset = .ok .toParser ↔ data.toList[offset + 2]? = some 0x53 := by
  unfold pktHandler
  cases htype : data.toList[offset + 2]? with
  | none => simp
  | some type =>
    by_cases hs : type = 0x53
    · simp [hs]
    · simp only [Option.some.injEq, hs, if_false, iff_false]
      cases data.toList[offset + 3]? with
      | none => split_ifs <;> simp
      | some reason =>
        by_cases hreason : reason = 0x53
        · simp only [hreason, if_true]
          split_ifs <;> simp
        · simp only [hreason, if_false]
          split_ifs <;> simp

/-- What the loop records does not touch the bytes and the flags. -/
structure SameBytes (pkt pkt' : RxPacket) : Prop where
  data : pkt'.data = pkt.data
  len : pkt'.len = pkt.len
  isPartial : pkt'.isPartial = pkt.isPartial
  releaseThisPkt : pkt'.releaseThisPkt = pkt.releaseThisPkt

/-- **The handler forwards a segment exactly when it consists of whole sequenced
packets.** -/
theorem scanPackets_deliver_iff {fuel offset : ℕ} {pkt pkt' : RxPacket} {outcome : ScanEnd}
    (h : scanPackets fuel pkt offset = .ok (pkt', outcome)) :
    (outcome = .deliver ↔ Sequenced pkt.data pkt.len offset) ∧ SameBytes pkt pkt' := by
  induction fuel generalizing pkt offset with
  | zero => cases h
  | succ fuel ih =>
    unfold scanPackets at h
    by_cases hdone : pkt.len ≤ offset
    · rw [if_pos hdone] at h
      cases h
      exact ⟨⟨fun _ => .done hdone, fun _ => rfl⟩, rfl, rfl, rfl, rfl⟩
    rw [if_neg hdone] at h
    obtain ⟨⟨pktLen, lenPartial⟩, hlen, h⟩ := bind_eq_ok_iff.mp h
    obtain ⟨hi, hhi, hcase⟩ := packetLen_eq_ok_iff.mp hlen
    -- a segment that ends here is not whole, however it goes on
    have hnot : ∀ (hstop : Sequenced pkt.data pkt.len offset → False) {e : ScanEnd},
        e ≠ .deliver → (.ok (pkt, e) : Except Fault _) = .ok (pkt', outcome) →
        (outcome = .deliver ↔ Sequenced pkt.data pkt.len offset) ∧ SameBytes pkt pkt' := by
      intro hstop e he heq
      cases heq
      exact ⟨⟨fun hd => absurd hd he, fun hseq => (hstop hseq).elim⟩, rfl, rfl, rfl, rfl⟩
    -- what a whole packet at `offset` must look like
    have hinv : Sequenced pkt.data pkt.len offset → ∃ lo, offset + 1 < pkt.len ∧
        pkt.data.toList[offset + 1]? = some lo ∧
        (readU16be hi lo + 2) % 2 ^ 16 + offset ≤ pkt.len ∧
        pkt.data.toList[offset + 2]? = some 0x53 ∧
        Sequenced pkt.data pkt.len (offset + (readU16be hi lo + 2) % 2 ^ 16) := by
      intro hseq
      cases hseq with
      | done h' => exact absurd h' hdone
      | packet hi' lo hmore hhi' hlo hfits htype hrest =>
        rw [hhi] at hhi'
        cases hhi'
        exact ⟨lo, hmore, hlo, hfits, htype, hrest⟩
    by_cases hrest : pkt.len < pktLen + offset ∨ lenPartial = true
    · simp only [if_pos hrest] at h
      refine hnot (fun hseq => ?_) ScanEnd.noConfusion h
      obtain ⟨lo, hmore, hlo, hfits, -, -⟩ := hinv hseq
      rcases hcase with ⟨hone, -, -⟩ | ⟨-, hpart, lo', hlo', hpktLen⟩
      · omega
      · rw [hlo] at hlo'
        cases hlo'
        rcases hrest with hlt | htrue
        · omega
        · rw [hpart] at htrue
          cases htrue
    · simp only [if_neg hrest] at h
      rw [not_or] at hrest
      obtain ⟨action, haction, h⟩ := bind_eq_ok_iff.mp h
      have htype := pktHandler_toParser_iff pkt.data offset
      have hother : action ≠ .toParser → Sequenced pkt.data pkt.len offset → False := by
        intro hne hseq
        obtain ⟨lo, -, -, -, hS, -⟩ := hinv hseq
        rw [htype.mpr hS, Except.ok.injEq] at haction
        exact hne haction.symm
      cases action with
      | toParser =>
        dsimp only at h
        split at h
        · obtain ⟨hiff, hsame⟩ := ih h
          refine ⟨hiff.trans ⟨fun hseq => ?_, fun hseq => ?_⟩, hsame.data, hsame.len,
            hsame.isPartial, hsame.releaseThisPkt⟩
          · rcases hcase with ⟨-, -, hpart⟩ | ⟨hone, -, lo, hlo, rfl⟩
            · exact absurd hpart hrest.2
            · exact .packet hi lo (by omega) hhi hlo (by omega) (htype.mp haction) hseq
          · obtain ⟨lo, -, hlo, -, -, hseq'⟩ := hinv hseq
            rcases hcase with ⟨-, -, hpart⟩ | ⟨-, -, lo', hlo', rfl⟩
            · exact absurd hpart hrest.2
            · rw [hlo] at hlo'
              cases hlo'
              exact hseq'
        · cases h
      | reconnect => exact hnot (hother nofun) ScanEnd.noConfusion h
      | disconnect => exact hnot (hother nofun) ScanEnd.noConfusion h
      | notToParser => exact hnot (hother nofun) ScanEnd.noConfusion h
      | ignore => exact hnot (hother nofun) ScanEnd.noConfusion h

/-! ### What the steps do to the places -/

namespace RxSystem

variable {s s' : RxSystem} {i : SessionIndex} {slot : RxSlot}
  {q : CustomQueue RxSlot pendingCapacity}

theorem pendingSlots_setPend (s : RxSystem) (i : SessionIndex)
    (q : CustomQueue RxSlot pendingCapacity) :
    (s.setPend i q).pendingSlots + (s.pendingRead i).items = s.pendingSlots + q.items := by
  have hrest : ∀ j ∈ Finset.univ.erase i,
      (((s.setPend i q).pendingRead j).items : Multiset RxSlot) = (s.pendingRead j).items := by
    intro j hj
    show ((Function.update s.pendingRead i q j).items : Multiset RxSlot) = _
    rw [Function.update_of_ne (Finset.ne_of_mem_erase hj)]
  have hself : ((s.setPend i q).pendingRead i) = q := Function.update_self _ _ _
  unfold pendingSlots
  rw [← Finset.add_sum_erase _ _ (Finset.mem_univ i), Finset.sum_congr rfl hrest, hself,
    ← Finset.add_sum_erase Finset.univ _ (Finset.mem_univ i)]
  abel

/-- What a session's queue holds is one part of the places. -/
theorem places_setPend (s : RxSystem) (i : SessionIndex)
    (q : CustomQueue RxSlot pendingCapacity) :
    (s.setPend i q).places + (s.pendingRead i).items = s.places + q.items := by
  have hpend := pendingSlots_setPend s i q
  show _ + _ + (s.setPend i q).pendingSlots + _ + _ + _ = _
  calc (s.freePktList.items : Multiset RxSlot) + s.receiverToParser.items
        + (s.setPend i q).pendingSlots + s.inParser.toList + s.pc.inReceipt
        + (s.pendingRead i).items
      = s.freePktList.items + s.receiverToParser.items
        + ((s.setPend i q).pendingSlots + (s.pendingRead i).items) + s.inParser.toList
        + s.pc.inReceipt := by abel
    _ = s.places + q.items := by
        rw [hpend, places]
        abel

theorem places_setPkt (s : RxSystem) (slot : RxSlot) (pkt : RxPacket) :
    (s.setPkt slot pkt).places = s.places := rfl

theorem places_setPc (s : RxSystem) (pc : RxPc) :
    { s with pc := pc }.places + (s.pc.inReceipt : Multiset RxSlot)
      = s.places + (pc.inReceipt : Multiset RxSlot) := by
  unfold places pendingSlots
  abel

theorem places_popFree {rest : List RxSlot} (h : s.freePktList.items = slot :: rest) :
    s.places = slot ::ₘ { s with freePktList := s.freePktList.tail }.places := by
  unfold places pendingSlots
  simp only [BoundedQueue.items_tail, h, List.tail_cons, ← Multiset.cons_coe,
    ← Multiset.singleton_add]
  abel

/-- A packet that is in no other place finds room in the free list. -/
theorem places_releasePacket (h : slot ∉ s.freePktList.items) (hnodup : s.freePktList.items.Nodup) :
    (s.releasePacket slot).places = slot ::ₘ s.places := by
  have hroom : s.freePktList.items.length < 1024 := by
    have hcard := (List.nodup_cons.mpr ⟨h, hnodup⟩).length_le_card
    rw [List.length_cons, Fintype.card_fin] at hcard
    exact hcard
  have hitems : (s.releasePacket slot).freePktList.items = s.freePktList.items ++ [slot] :=
    BoundedQueue.items_push hroom
  have hsame : (s.releasePacket slot).pendingSlots = s.pendingSlots := rfl
  unfold places
  rw [hitems, hsame, ← Multiset.coe_add, Multiset.coe_singleton, ← Multiset.singleton_add]
  show _ + (s.receiverToParser.items : Multiset RxSlot) + _ + (s.inParser.toList : Multiset RxSlot)
    + (s.pc.inReceipt : Multiset RxSlot) = _
  abel

/-- A packet that is handed over is in the queue to the parser or waits. -/
theorem places_pushOrPend (h : (s.pendingRead i).items = []) :
    (s.pushOrPend i slot).places = slot ::ₘ s.places := by
  unfold pushOrPend
  by_cases hroom : s.receiverToParser.items.length < packetQueueCapacity
  · rw [if_pos hroom]
    unfold places pendingSlots
    simp only [BoundedQueue.items_push hroom, ← Multiset.coe_add, Multiset.coe_singleton,
      ← Multiset.singleton_add]
    abel
  · rw [if_neg hroom]
    have hpend := places_setPend s i ((s.pendingRead i).push slot)
    rw [h, CustomQueue.items_push_of_nil (by norm_num) h] at hpend
    rw [← Multiset.singleton_add, add_comm]
    simpa using hpend

/-! ### States without a leak behind them -/

/-- The session whose pending queue the event under way has drained. -/
def drained? : RxPc → Option SessionIndex
  | .recv i => some i
  | .pending i _ _ => some i
  | .scan i _ _ => some i
  | .deliver i _ => some i
  | _ => none

/-- No packet is lost, none is incomplete, and a session has at most one waiting. -/
structure Sound (s : RxSystem) : Prop where
  conserved : s.Conserved
  plain : ∀ slot, (s.pool slot).isPartial = false ∧ (s.pool slot).releaseThisPkt = true
  few : ∀ i, (s.pendingRead i).items.length ≤ 1
  drained : ∀ i, drained? s.pc = some i → (s.pendingRead i).items = []

theorem Conserved.nodup (h : s.Conserved) : s.places.Nodup :=
  Multiset.nodup_iff_count_le_one.mpr fun slot => le_of_eq (h slot)

theorem Conserved.of_places_eq (h : s.Conserved) (heq : s'.places = s.places) : s'.Conserved := by
  intro slot
  rw [heq]
  exact h slot

/-- A state that misses a packet is not sound. -/
theorem Conserved.lost (h : s.Conserved) (heq : s.places = slot ::ₘ s'.places) :
    ¬ s'.Conserved := by
  intro h'
  have hcount := h slot
  rw [heq, Multiset.count_cons_self, h' slot] at hcount
  omega

/-- A packet outside the places is not in the free list, and there it has room. -/
theorem releasePacket_of_cons {t : RxSystem} (h : s.Conserved)
    (heq : s.places = slot ::ₘ t.places) : (t.releasePacket slot).places = s.places := by
  have hnodup := h.nodup
  rw [heq, Multiset.nodup_cons] at hnodup
  have hle : (t.freePktList.items : Multiset RxSlot) ≤ t.places := by
    unfold places
    simp only [add_assoc]
    exact Multiset.le_add_right _ _
  rw [heq]
  refine places_releasePacket (fun hmem => hnodup.1 ?_) ?_
  · exact Multiset.mem_of_le hle (Multiset.mem_coe.mpr hmem)
  · exact Multiset.coe_nodup.mp (Multiset.nodup_of_le hle hnodup.2)

theorem plain_setPkt {pkt : RxPacket}
    (h : ∀ slot, (s.pool slot).isPartial = false ∧ (s.pool slot).releaseThisPkt = true)
    (hpkt : pkt.isPartial = false ∧ pkt.releaseThisPkt = true) (slot x : RxSlot) :
    ((s.setPkt slot pkt).pool x).isPartial = false ∧
      ((s.setPkt slot pkt).pool x).releaseThisPkt = true := by
  show (Function.update s.pool slot pkt x).isPartial = false ∧ _
  by_cases hx : x = slot
  · subst hx
    simpa [setPkt] using hpkt
  · simpa [setPkt, Function.update_of_ne hx] using h x

theorem plain_releasePacket
    (h : ∀ slot, (s.pool slot).isPartial = false ∧ (s.pool slot).releaseThisPkt = true)
    (slot x : RxSlot) :
    ((s.releasePacket slot).pool x).isPartial = false ∧
      ((s.releasePacket slot).pool x).releaseThisPkt = true := by
  have hpkt : ({ s.pool slot with msgCount := 0 } : RxPacket).isPartial = false ∧
      ({ s.pool slot with msgCount := 0 } : RxPacket).releaseThisPkt = true := h slot
  exact plain_setPkt h hpkt slot x

theorem few_setPend (h : ∀ i, (s.pendingRead i).items.length ≤ 1) (hq : q.items.length ≤ 1)
    (j : SessionIndex) : ((s.setPend i q).pendingRead j).items.length ≤ 1 := by
  show (Function.update s.pendingRead i q j).items.length ≤ 1
  by_cases hj : j = i
  · rw [hj, Function.update_self]
    exact hq
  · rw [Function.update_of_ne hj]
    exact h j

theorem few_pushOrPend (h : ∀ i, (s.pendingRead i).items.length ≤ 1)
    (hi : (s.pendingRead i).items = []) (j : SessionIndex) :
    ((s.pushOrPend i slot).pendingRead j).items.length ≤ 1 := by
  unfold pushOrPend
  split
  · exact h j
  · refine few_setPend h ?_ j
    rw [CustomQueue.items_push_of_nil (by norm_num) hi, List.length_singleton]

theorem sound_start : Sound {} := by
  refine ⟨fun slot => ?_, fun _ => ⟨rfl, rfl⟩, fun _ => Nat.zero_le 1, fun i hi => by cases hi⟩
  have hpend : ({} : RxSystem).pendingSlots = 0 := Finset.sum_eq_zero fun _ _ => rfl
  have hplaces : ({} : RxSystem).places = (BoundedQueue.indices 1024).items := by
    unfold places
    rw [hpend]
    show ((BoundedQueue.indices 1024).items : Multiset RxSlot) + 0 + 0 + 0 + 0 = _
    simp only [add_zero]
  rw [hplaces, Multiset.coe_count]
  exact List.count_eq_one_of_mem (BoundedQueue.nodup_indices 1024)
    (by rw [BoundedQueue.items_indices]; exact List.mem_finRange slot)

/-! ### Steps -/

theorem sound_drainRound (h : s.Sound) (hpc : s.pc = .drain i) : (s.drainRound i).Sound := by
  unfold drainRound
  split
  · -- the queue is drained
    rename_i hpop
    refine ⟨h.conserved.of_places_eq ?_, h.plain, h.few, ?_⟩
    · have hplaces := places_setPc s (.recv i)
      rw [hpc] at hplaces
      simpa [RxPc.inReceipt] using hplaces
    · intro j hj
      cases hj
      exact RingBuffer.pop_eq_none_iff.mp hpop
  · -- one packet is popped, and pushed again somewhere
    rename_i slot q hpop
    have hitems := RingBuffer.items_pop hpop
    have hnil : q.items = [] := by
      have hfew := h.few i
      rw [hitems, List.length_cons] at hfew
      exact List.length_eq_zero_iff.mp (by omega)
    have hplain := (h.plain slot).1
    simp only [hplain, Bool.false_eq_true, if_false]
    have hpend : ((s.setPend i q).pendingRead i).items = [] := by
      show (Function.update s.pendingRead i q i).items = []
      rw [Function.update_self, hnil]
    have hfew : ∀ j, ((s.setPend i q).pendingRead j).items.length ≤ 1 :=
      few_setPend h.few (by rw [hnil]; exact Nat.zero_le 1)
    have hsamePool : ((s.setPend i q).pushOrPend i slot).pool = s.pool := by
      unfold pushOrPend
      split <;> rfl
    have hsamePc : ((s.setPend i q).pushOrPend i slot).pc = s.pc := by
      unfold pushOrPend
      split <;> rfl
    refine ⟨h.conserved.of_places_eq ?_, by rw [hsamePool]; exact h.plain,
      few_pushOrPend hfew hpend, ?_⟩
    · rw [places_pushOrPend hpend, ← Multiset.singleton_add, add_comm]
      have hplaces := places_setPend s i q
      rw [hitems, hnil] at hplaces
      simpa using hplaces
    · intro j hj
      rw [hsamePc, hpc] at hj
      cases hj

theorem sound_pendingRound {rx : RxSlot} {offset : ℕ} (h : s.Sound)
    (hpc : s.pc = .pending i rx offset) (hs : s.pendingRound i rx offset = .ok s') : s'.Sound := by
  have hnil : (s.pendingRead i).items = [] := h.drained i (by rw [hpc]; rfl)
  have hpop : (s.pendingRead i).pop = none := RingBuffer.pop_eq_none_iff.mpr hnil
  simp only [pendingRound, hpop] at hs
  cases hs
  refine ⟨h.conserved.of_places_eq ?_, h.plain, h.few, fun j hj => ?_⟩
  · have hplaces := places_setPc s (.scan i rx offset)
    rw [hpc] at hplaces
    exact add_right_cancel hplaces
  · cases hj
    exact hnil

theorem sound_deliver {rx : RxSlot} (h : s.Sound) (hpc : s.pc = .deliver i rx)
    (hs : s.deliver i rx = .ok s') : s'.Sound := by
  have hnil : (s.pendingRead i).items = [] := h.drained i (by rw [hpc]; rfl)
  have hpushed : (s.pushOrPend i rx).places = rx ::ₘ s.places := places_pushOrPend hnil
  have hsame : ∀ t : RxSystem, t.pc = s.pc → t.places = rx ::ₘ s.places →
      { t with pc := .idle }.places = s.places := by
    intro t htpc ht
    have hplaces := places_setPc t .idle
    rw [htpc, hpc, ht, ← Multiset.singleton_add] at hplaces
    simp only [RxPc.inReceipt, Multiset.coe_singleton, Multiset.coe_nil, add_zero] at hplaces
    rw [add_comm] at hplaces
    exact add_left_cancel hplaces
  unfold deliver at hs
  unfold pushOrPend at hpushed
  by_cases hroom : s.receiverToParser.items.length < packetQueueCapacity
  · rw [if_pos hroom] at hs hpushed
    cases hs
    have hplaces := hsame { s with receiverToParser := s.receiverToParser.push rx } rfl hpushed
    exact ⟨h.conserved.of_places_eq hplaces, h.plain, h.few, fun j hj => by cases hj⟩
  · rw [if_neg hroom] at hs hpushed
    obtain ⟨b, -, hs⟩ := bind_eq_ok_iff.mp hs
    have hitems : ((s.pendingRead i).push rx).items = [rx] :=
      CustomQueue.items_push_of_nil (by norm_num) hnil
    -- the packet is alone in the queue, so there is nothing to swap
    have hs' : s' = { s.setPend i ((s.pendingRead i).push rx) with pc := .idle } := by
      cases b with
      | none =>
        cases hs
        rfl
      | some b =>
        rw [CustomQueue.swapLastTwo_of_items hitems] at hs
        simp only [ite_self] at hs
        cases hs
        rfl
    subst hs'
    refine ⟨h.conserved.of_places_eq (hsame _ rfl hpushed), h.plain, ?_, fun j hj => by cases hj⟩
    exact few_setPend h.few (by rw [hitems, List.length_singleton])

/-- What a step of the receiving thread comes to: a sound state, or one packet less. -/
def SoundOrLost (s : RxSystem) (e : RxMove) (s' : RxSystem) : Prop :=
  s.NoLeak e ∧ s'.Sound ∨ ¬ s.NoLeak e ∧ ∃ slot, s.places = slot ::ₘ s'.places

theorem receive_cases {cxt : SessionIndex → SessionContext} {result : RecvResult} (h : s.Sound)
    (hpc : s.pc = .recv i) (hs : s.receive cxt i result = .ok s') :
    s.SoundOrLost (.recv result) s' := by
  have hnil : (s.pendingRead i).items = [] := h.drained i (by rw [hpc]; rfl)
  -- a new position without a packet keeps the places, one with a packet adds it
  have hfrom : ∀ (t : RxSystem) (pc : RxPc), pc.inReceipt = [] → t.pc = s.pc →
      { t with pc := pc }.places = t.places := by
    intro t pc hempty htpc
    have hplaces := places_setPc t pc
    rw [htpc, hpc, hempty] at hplaces
    simpa [RxPc.inReceipt] using hplaces
  have htaken : ∀ (t : RxSystem) (pc : RxPc) {slot : RxSlot}, pc.inReceipt = [slot] →
      t.pc = s.pc → { t with pc := pc }.places = slot ::ₘ t.places := by
    intro t pc slot hhand htpc
    have hplaces := places_setPc t pc
    rw [htpc, hpc, hhand] at hplaces
    rw [← Multiset.singleton_add, add_comm]
    simpa [RxPc.inReceipt] using hplaces
  unfold receive at hs
  split at hs
  · -- no packet is left: nothing is received
    rename_i hempty
    cases hs
    refine .inl ⟨fun j _ hfree => absurd hempty hfree, ?_⟩
    exact ⟨h.conserved.of_places_eq (hfrom s .idle rfl rfl), h.plain, h.few, fun j hj => by cases hj⟩
  -- a packet is taken from the free list
  rename_i slot rest hfree
  have hpop := places_popFree hfree
  have hplain := h.plain slot
  have hleak : ∀ t : RxSystem, t.places = { s with freePktList := s.freePktList.tail }.places →
      (¬ (result = .again ∨ ∃ segment, segment ≠ [] ∧ result = .bytes segment)) →
      s.SoundOrLost (.recv result) t := by
    intro t ht hbad
    refine .inr ⟨fun hno => hbad (hno i hpc ?_), slot, by rw [ht]; exact hpop⟩
    rw [hfree]
    exact List.cons_ne_nil _ _
  have hback : ∀ t : RxSystem, t.places = { s with freePktList := s.freePktList.tail }.places →
      t.pc = s.pc → { t.releasePacket slot with pc := .idle }.places = s.places := by
    intro t ht htpc
    rw [← ht] at hpop
    rw [hfrom (t.releasePacket slot) .idle rfl htpc]
    exact releasePacket_of_cons h.conserved hpop
  cases result with
  | again =>
    cases hs
    refine .inl ⟨fun _ _ _ => .inl rfl, ?_⟩
    refine ⟨h.conserved.of_places_eq (hback _ rfl rfl), ?_, h.few, fun j hj => by cases hj⟩
    intro x
    refine plain_releasePacket (fun y => ?_) slot x
    refine plain_setPkt ?_ ?_ slot y
    · exact h.plain
    · exact hplain
  | interrupted =>
    -- neither `EINTR` nor an error gives the packet back
    cases hs
    exact hleak _ (hfrom { s with freePktList := s.freePktList.tail } (.drain i) rfl rfl)
      (by rintro (h' | ⟨_, _, h'⟩) <;> cases h')
  | failed =>
    cases hs
    exact hleak _ (hfrom { s with freePktList := s.freePktList.tail } .idle rfl rfl)
      (by rintro (h' | ⟨_, _, h'⟩) <;> cases h')
  | bytes segment =>
    cases segment with
    | nil =>
      -- the peer has closed the connection
      cases hs
      refine hleak _ (hfrom { s with freePktList := s.freePktList.tail } .idle rfl rfl) ?_
      rintro (h' | ⟨segment, hne, h'⟩)
      · cases h'
      · cases h'
        exact hne rfl
    | cons b bs =>
      obtain ⟨data, -, hs⟩ := bind_eq_ok_iff.mp hs
      cases hs
      refine .inl ⟨fun _ _ _ => .inr ⟨b :: bs, List.cons_ne_nil _ _, rfl⟩, ?_⟩
      refine ⟨h.conserved.of_places_eq ?_, fun x => plain_setPkt ?_ ?_ slot x, h.few,
        fun j hj => ?_⟩
      · have hhand : (if (cxt i).protocol = .ouch then RxPc.pending i slot 0
            else .deliver i slot).inReceipt = [slot] := by
          split <;> rfl
        rw [hpop]
        exact htaken { s with freePktList := s.freePktList.tail } _ hhand rfl
      · exact h.plain
      · exact hplain
      · have hj' : j = i := by
          revert hj
          show drained? (if (cxt i).protocol = .ouch then RxPc.pending i slot 0
            else .deliver i slot) = some j → _
          split
          · intro hj
            cases hj
            rfl
          · intro hj
            cases hj
            rfl
        rw [hj']
        exact hnil

theorem scanSegment_cases {rx : RxSlot} {offset : ℕ} (h : s.Sound)
    (hpc : s.pc = .scan i rx offset) (hs : s.scanSegment i rx offset = .ok s') :
    s.SoundOrLost .run s' := by
  have hnil : (s.pendingRead i).items = [] := h.drained i (by rw [hpc]; rfl)
  have hdropped : s.places = rx ::ₘ { s with pc := .idle }.places := by
    have hplaces := places_setPc s .idle
    rw [hpc] at hplaces
    rw [← Multiset.singleton_add, add_comm]
    simpa [RxPc.inReceipt] using hplaces.symm
  unfold scanSegment at hs
  by_cases hused : (s.pool rx).len ≤ offset
  · rw [if_pos hused] at hs
    cases hs
    refine .inr ⟨fun hno => ?_, rx, hdropped⟩
    have hmore := (hno i rx offset hpc).1
    omega
  rw [if_neg hused] at hs
  obtain ⟨⟨pkt, outcome⟩, hscan, hs⟩ := bind_eq_ok_iff.mp hs
  obtain ⟨hiff, hsame⟩ := scanPackets_deliver_iff hscan
  have hplain : pkt.isPartial = false ∧ pkt.releaseThisPkt = true := by
    rw [hsame.isPartial, hsame.releaseThisPkt]
    exact h.plain rx
  have hleak : outcome ≠ .deliver → ¬ s.NoLeak .run := fun hne hno =>
    hne (hiff.mpr (hno i rx offset hpc).2)
  cases outcome with
  | deliver =>
    cases hs
    refine .inl ⟨fun j rx' offset' hpc' => ?_, ?_⟩
    · rw [hpc] at hpc'
      cases hpc'
      exact ⟨by omega, hiff.mp rfl⟩
    · refine ⟨h.conserved.of_places_eq ?_, plain_setPkt h.plain hplain rx, h.few, fun j hj => ?_⟩
      · have hplaces := places_setPc (s.setPkt rx pkt) (.deliver i rx)
        have hhand : (s.setPkt rx pkt).pc.inReceipt = [rx] := by
          show s.pc.inReceipt = [rx]
          rw [hpc]
          rfl
        rw [hhand, places_setPkt] at hplaces
        exact add_right_cancel hplaces
      · cases hj
        exact hnil
  | rest offset' pktLen lenPartial =>
    dsimp only at hs
    split at hs
    · cases hs
    · rename_i slot rest hfree
      obtain ⟨restPkt, -, hs⟩ := bind_eq_ok_iff.mp hs
      cases hs
      refine .inr ⟨hleak ScanEnd.noConfusion, rx, ?_⟩
      -- the rest takes a packet from the free list to the pending queue
      have hfree' : { s with pc := .idle }.freePktList.items = slot :: rest := hfree
      have hpop := places_popFree hfree'
      have hpend := places_setPend { s with pc := .idle, freePktList := s.freePktList.tail } i
        ((s.pendingRead i).push slot)
      have hitems : ((s.pendingRead i).push slot).items = [slot] :=
        CustomQueue.items_push_of_nil (by norm_num) hnil
      have hzero : (({ s with pc := .idle, freePktList := s.freePktList.tail } :
          RxSystem).pendingRead i).items = [] := hnil
      rw [hitems, hzero, Multiset.coe_nil, add_zero, Multiset.coe_singleton, add_comm,
        Multiset.singleton_add] at hpend
      rw [hdropped, hpop]
      exact congrArg (rx ::ₘ ·) hpend.symm
  | drop =>
    cases hs
    exact .inr ⟨hleak ScanEnd.noConfusion, rx, hdropped⟩
  | close =>
    cases hs
    exact .inr ⟨hleak ScanEnd.noConfusion, rx, hdropped⟩

theorem sound_parserTake (h : s.Sound) : s.parserTake.Sound := by
  unfold parserTake
  split
  · rename_i slot rest hhand hqueue
    refine ⟨h.conserved.of_places_eq ?_, h.plain, h.few, h.drained⟩
    unfold places pendingSlots
    simp only [BoundedQueue.items_tail, hqueue, hhand, List.tail_cons, ← Multiset.cons_coe,
      Option.toList_some, Option.toList_none, Multiset.coe_nil, ← Multiset.singleton_add]
    abel
  · exact h

theorem sound_parserDone (h : s.Sound) (hs : s.parserDone = .ok s') : s'.Sound := by
  unfold parserDone at hs
  split at hs
  · cases hs
    exact h
  · rename_i slot hhand
    have hpop : s.places = slot ::ₘ { s with inParser := none }.places := by
      unfold places pendingSlots
      simp only [hhand, Option.toList_some, Option.toList_none, Multiset.coe_nil,
        Multiset.coe_singleton, ← Multiset.singleton_add]
      abel
    have hreleased : { s.releasePacket slot with inParser := none }.Sound := by
      have hsame : { s.releasePacket slot with inParser := none }
          = { s with inParser := none }.releasePacket slot := rfl
      rw [hsame]
      refine ⟨h.conserved.of_places_eq (releasePacket_of_cons h.conserved hpop), ?_, h.few, h.drained⟩
      exact plain_releasePacket h.plain slot
    split at hs
    · cases hs
      exact hreleased
    · split at hs
      · simp only [(h.plain slot).2, if_true] at hs
        cases hs
        exact hreleased
      · cases hs

/-- **A step keeps every packet in one place or loses one for good.** -/
theorem step_cases {cxt : SessionIndex → SessionContext} {e : RxMove} (h : s.Sound)
    (hs : s.step cxt e = .ok s') : s.SoundOrLost e s' := by
  cases e with
  | epollin i =>
    refine .inl ⟨trivial, ?_⟩
    simp only [step] at hs
    split at hs
    · rename_i hpc
      cases hs
      split
      · exact h
      · refine ⟨h.conserved.of_places_eq ?_, h.plain, h.few, fun j hj => by cases hj⟩
        have hplaces := places_setPc s (.drain i)
        rw [hpc] at hplaces
        simpa [RxPc.inReceipt] using hplaces
    · cases hs
      exact h
  | recv result =>
    simp only [step] at hs
    split at hs
    · rename_i i hpc
      exact receive_cases h hpc hs
    · rename_i hpc
      cases hs
      exact .inl ⟨fun i hpc' _ => absurd hpc' (hpc i), h⟩
  | run =>
    have hkeep : (∀ i rx offset, s.pc ≠ .scan i rx offset) → s'.Sound → s.SoundOrLost .run s' :=
      fun hne hsound => .inl ⟨fun i rx offset hpc => absurd hpc (hne i rx offset), hsound⟩
    unfold step run at hs
    cases hpc : s.pc with
    | idle =>
      simp only [hpc] at hs
      cases hs
      exact hkeep (by rw [hpc]; nofun) h
    | recv i =>
      simp only [hpc] at hs
      cases hs
      exact hkeep (by rw [hpc]; nofun) h
    | drain i =>
      simp only [hpc] at hs
      cases hs
      exact hkeep (by rw [hpc]; nofun) (sound_drainRound h hpc)
    | pending i rx offset =>
      simp only [hpc] at hs
      exact hkeep (by rw [hpc]; nofun) (sound_pendingRound h hpc hs)
    | scan i rx offset =>
      simp only [hpc] at hs
      exact scanSegment_cases h hpc hs
    | deliver i rx =>
      simp only [hpc] at hs
      exact hkeep (by rw [hpc]; nofun) (sound_deliver h hpc hs)
  | parserTake =>
    cases hs
    exact .inl ⟨trivial, sound_parserTake h⟩
  | parserDone => exact .inl ⟨trivial, sound_parserDone h hs⟩

end RxSystem

/-- **Packets are conserved exactly in the runs that do not leak.**  For every
configuration of the sessions and every run of receive events, steps of the receiving
thread and steps of the parser, each packet is in one place in all states of the run
exactly when `recv` never fails, never is interrupted and never meets the end of a stream
with a packet in hand, and every segment the SoupBinTCP handler scans consists of whole
sequenced packets. -/
theorem packets_conserved_iff (cxt : SessionIndex → SessionContext) (es : List RxMove)
    (s : RxSystem) (hrun : exec (RxSystem.step cxt) {} es = .ok s) :
    (∀ es₁ t, es₁ <+: es → exec (RxSystem.step cxt) {} es₁ = .ok t → t.Conserved) ↔
      Along (RxSystem.step cxt) RxSystem.NoLeak {} es := by
  refine forall_prefix_iff_along (fun _ h => h.conserved) ?_ ?_ RxSystem.sound_start hrun
  · intro t e t' ht hno ht'
    rcases RxSystem.step_cases ht ht' with ⟨-, hsound⟩ | ⟨hleak, -⟩
    · exact hsound
    · exact absurd hno hleak
  · intro t e t' ht ht' hcons
    rcases RxSystem.step_cases ht ht' with ⟨hno, -⟩ | ⟨-, slot, hlost⟩
    · exact hno
    · exact absurd hcons (ht.conserved.lost hlost)

/-! ### One segment -/

namespace RxSystem

theorem receive_of_cons {s : RxSystem} {slot : RxSlot} {rest : List RxSlot}
    (cxt : SessionIndex → SessionContext) (i : SessionIndex) (b : UInt8) (bs : List UInt8)
    {data : Vector UInt8 packetSize} (hfree : s.freePktList.items = slot :: rest)
    (hdata : writeAt (s.pool slot).data 0 (b :: bs) = .ok data) :
    s.receive cxt i (.bytes (b :: bs)) = .ok
      { { s with freePktList := s.freePktList.tail }.setPkt slot
          { s.pool slot with
            protocol := (cxt i).protocol
            venue := (cxt i).venue
            data := data
            len := bs.length + 1 } with
        pc := if (cxt i).protocol = .ouch then .pending i slot 0 else .deliver i slot } := by
  unfold receive
  rw [hfree]
  simp only [hdata]
  rfl

/-- The first packet of the pool is the first that is taken. -/
theorem freePktList_start (pc : RxPc) :
    ({ pc := pc } : RxSystem).freePktList.items = 0 :: (BoundedQueue.indices 1024).items.tail :=
  BoundedQueue.items_indices_eq_cons (n := 1024)

end RxSystem

/-- All sessions are OUCH sessions at BIST. -/
def ouchSessions : SessionIndex → SessionContext := fun _ => ⟨.ouch, .bist⟩

/-- An event brings a segment, which goes through the SoupBinTCP handler. -/
def receiveRun (segment : List UInt8) : List RxMove :=
  [.epollin 0, .run, .recv (.bytes segment), .run, .run]

/-- A sequenced packet is forwarded, and the parser gives its packet back. -/
def sequencedRun : List RxMove :=
  receiveRun [0, 2, 0x53, 0x41] ++ [.run, .parserTake, .parserDone]

theorem sequencedRun_noLeak :
    Along (RxSystem.step ouchSessions) RxSystem.NoLeak {} sequencedRun := by
  refine along_cons { pc := .drain 0 } trivial rfl ?_
  refine along_cons { pc := .recv 0 } nofun rfl ?_
  have hrecv := RxSystem.receive_of_cons ouchSessions 0 0 [2, 0x53, 0x41]
    (RxSystem.freePktList_start (.recv 0)) rfl
  refine along_cons _ (fun _ _ _ => .inr ⟨_, List.cons_ne_nil _ _, rfl⟩) hrecv ?_
  refine along_cons _ nofun rfl ?_
  refine along_cons _ ?_ rfl ?_
  · intro i rx offset hpc
    cases hpc
    exact ⟨by decide, .packet 0 2 (by decide) rfl rfl (by decide) rfl (.done (by decide))⟩
  refine along_cons _ nofun rfl ?_
  refine along_cons _ trivial rfl ?_
  exact along_cons _ trivial rfl trivial

theorem packets_conserved_iff_sequencedRun :
    ∃ s, exec (RxSystem.step ouchSessions) {} sequencedRun = .ok s ∧
      ∀ es₁ t, es₁ <+: sequencedRun → exec (RxSystem.step ouchSessions) {} es₁ = .ok t →
        t.Conserved := by
  have hdone : (exec (RxSystem.step ouchSessions) {} sequencedRun).map
      (fun s => s.freePktList.items.length) = .ok 1024 := by decide +kernel
  obtain ⟨s, hrun, -⟩ := map_eq_ok_iff.mp hdone
  exact ⟨s, hrun, (packets_conserved_iff ouchSessions sequencedRun s hrun).mpr sequencedRun_noLeak⟩

/-- **The packet of a heartbeat is lost.**  The handler does not forward a server
heartbeat, and nobody gives its packet back: it is in no place any more. -/
theorem heartbeat_packet_lost :
    ∃ s, exec (RxSystem.step ouchSessions) {} (receiveRun [0, 1, 0x48]) = .ok s ∧
      (0 : RxSlot) ∉ s.places ∧ ¬ s.Conserved := by
  have hend : (exec (RxSystem.step ouchSessions) {} (receiveRun [0, 1, 0x48])).map
      (fun s => (s.freePktList.items ++ s.receiverToParser.items ++ s.inParser.toList ++
        s.pc.inReceipt).contains 0 ||
        (List.finRange 8).any fun i => (s.pendingRead i).items.contains 0) = .ok false := by decide +kernel
  obtain ⟨s, hrun, hnone⟩ := map_eq_ok_iff.mp hend
  have hlost : (0 : RxSlot) ∉ s.places := by
    simp only [Bool.or_eq_false_iff, List.any_eq_false, List.mem_finRange, forall_true_left,
      List.contains_eq_mem, decide_eq_false_iff_not, decide_eq_true_eq,
      List.mem_append, not_or] at hnone
    obtain ⟨⟨⟨⟨hfree, hqueue⟩, hparser⟩, hhand⟩, hpend⟩ := hnone
    have hsum : (0 : RxSlot) ∉ s.pendingSlots := by
      unfold RxSystem.pendingSlots
      rw [Multiset.mem_sum]
      rintro ⟨i, -, hi⟩
      exact hpend i (Multiset.mem_coe.mp hi)
    simp only [RxSystem.places, Multiset.mem_add, Multiset.mem_coe, not_or]
    exact ⟨⟨⟨⟨hfree, hqueue⟩, hsum⟩, hparser⟩, hhand⟩
  refine ⟨s, hrun, hlost, fun hcons => ?_⟩
  have hone := hcons 0
  rw [Multiset.count_eq_zero_of_notMem hlost] at hone
  omega

end TradingEngine
