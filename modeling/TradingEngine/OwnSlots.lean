/-
The slots of own orders (`order_management/OrderManager.cpp`).

The upper half of the order pool belongs to own orders.  The constructor pushes
all of its slots to `store_to_strategy_free_slot_`; the strategy takes a slot
for each new order, and rejects, the threshold sweep and `release_order` give
slots back.

* `SlotSystem.Conserved` — every such slot is in the queue once or in use, and
  no other slot is in the queue;
* `own_slots_never_conserved` — in no run is this so throughout: the queue has
  1024 entries, so that of the 32768 slots the constructor pushes the last 31744
  are nowhere, and stay nowhere until the threshold sweep comes to them.
-/
import TradingEngine.OwnFrame

namespace TradingEngine

open FallibleRun

/-- The slots the constructor pushes, in its order. -/
def upperSlots : List OrderSlot :=
  (List.finRange 32768).map fun i => ⟨32768 + i.val, by omega⟩

/-- `OrderManager::OrderManager`, with the tables it is given. -/
def OwnManager.constructed (om : OwnManager) : OwnManager :=
  { om with
    storeToStrategyFreeSlot := upperSlots.foldl BoundedQueue.push .empty
    marketOrders := ∅
    awaitingAckOrders := ∅
    ourOrders := ∅
    ourOrdersWtokenkey := ∅ }

/-- The order manager, and the slots that the strategy has taken and not sent. -/
structure SlotSystem where
  om : OwnManager := {}
  strategy : List OrderSlot := []

inductive SlotEvent
  /-- the strategy takes a slot for a new order -/
  | takeSlot
  /-- the strategy's order is built and sent: `add_awaitingAck_order` -/
  | send (slot : OrderSlot) (order : Order)
  /-- the store handles a message -/
  | store (msg : StoreMessage)

namespace SlotSystem

/-- The slot at the front of the queue goes to the strategy. -/
def takeSlot (s : SlotSystem) : SlotSystem :=
  match s.om.storeToStrategyFreeSlot.items with
  | [] => s
  | slot :: _ =>
    { om := { s.om with storeToStrategyFreeSlot := s.om.storeToStrategyFreeSlot.tail }
      strategy := s.strategy ++ [slot] }

/-- Only a slot that the strategy holds can be sent. -/
def send (s : SlotSystem) (slot : OrderSlot) (order : Order) : SlotSystem :=
  if slot ∈ s.strategy then
    { om := { s.om.setOrder slot order with
        awaitingAckOrders := s.om.awaitingAckOrders.insert order.clientOrderId slot }
      strategy := s.strategy.erase slot }
  else s

def step (hash : List UInt8 → UInt64) (s : SlotSystem) : SlotEvent → Except Fault SlotSystem
  | .takeSlot => .ok s.takeSlot
  | .send slot order => .ok (s.send slot order)
  | .store msg => (OwnManager.update hash s.om msg).map fun om => { s with om := om }

/-- The slot is held by the strategy or by a live own order. -/
def InUse (s : SlotSystem) (slot : OrderSlot) : Prop :=
  slot ∈ s.strategy ∨ (∃ k, s.om.awaitingAckOrders.lookup k = some slot) ∨
    ∃ k, s.om.ourOrders.lookup k = some slot

/-- The slot is neither free nor in use. -/
def Lost (s : SlotSystem) (slot : OrderSlot) : Prop :=
  s.om.storeToStrategyFreeSlot.items.count slot = 0 ∧ ¬s.InUse slot

/-- Every slot of the upper half is free, once, or in use, and nothing else is
free. -/
def Conserved (s : SlotSystem) : Prop :=
  (∀ slot : OrderSlot, 32768 ≤ slot.val →
    (s.om.storeToStrategyFreeSlot.items.count slot = 1 ∧ ¬s.InUse slot) ∨
      (s.om.storeToStrategyFreeSlot.items.count slot = 0 ∧ s.InUse slot)) ∧
  ∀ slot ∈ s.om.storeToStrategyFreeSlot.items, 32768 ≤ slot.val

/-- Conservation throughout a run: in every state reached by it. -/
def ConservedThroughout (hash : List UInt8 → UInt64) (s : SlotSystem) (es : List SlotEvent) :
    Prop :=
  ∀ es' t, es' <+: es → exec (step hash) s es' = .ok t → t.Conserved

theorem Conserved.not_lost {s : SlotSystem} (h : s.Conserved) {slot : OrderSlot}
    (hslot : 32768 ≤ slot.val) : ¬s.Lost slot := by
  rintro ⟨hcount, huse⟩
  rcases h.1 slot hslot with ⟨hone, -⟩ | ⟨-, hin⟩
  · rw [hcount] at hone
    cases hone
  · exact huse hin

end SlotSystem

/-- Of the slots that are pushed the first 1024 fit. -/
theorem items_constructed (om : OwnManager) :
    om.constructed.storeToStrategyFreeSlot.items = upperSlots.take 1024 := by
  rw [OwnManager.constructed, BoundedQueue.items_foldl_push, BoundedQueue.items_empty,
    List.nil_append]

theorem lt_of_mem_constructed {om : OwnManager} {slot : OrderSlot}
    (h : slot ∈ om.constructed.storeToStrategyFreeSlot.items) : slot.val < 33792 := by
  rw [items_constructed, List.mem_take_iff_getElem] at h
  obtain ⟨i, hi, rfl⟩ := h
  have hlt : i < 1024 := lt_of_lt_of_le hi (min_le_left _ _)
  have hval : ∀ (j : ℕ) (hj : j < upperSlots.length), (upperSlots[j]).val = 32768 + j := by
    intro j hj
    simp only [upperSlots, List.getElem_map, List.getElem_finRange]
    rfl
  rw [hval]
  omega

namespace SlotSystem

variable {hash : List UInt8 → UInt64} {s s' : SlotSystem}

/-- The map of own orders is below its threshold, so that no message starts the
sweep. -/
def BelowThreshold (s : SlotSystem) : SlotEvent → Prop
  | .store _ => ¬s.om.Sweeps
  | _ => True

/-- The slots that did not fit are known to nobody. -/
def Beyond (s : SlotSystem) : Prop :=
  ∀ slot : OrderSlot, 33792 ≤ slot.val → slot ∉ s.strategy ∧ ¬s.om.Known slot

theorem beyond_constructed (om : OwnManager) : Beyond { om := om.constructed } := by
  intro slot hslot
  have hempty : ∀ {κ ν : Type} [DecidableEq κ] {k : κ} {v : ν},
      (∅ : HashMap κ ν).lookup k ≠ some v := by
    intro κ ν _ k v h
    rw [Finmap.lookup_empty] at h
    cases h
  refine ⟨List.not_mem_nil, ?_⟩
  rintro ((hlow | ⟨k, hk⟩) | hfree | ⟨k, hk⟩ | ⟨k, hk⟩ | ⟨k, hk⟩)
  · omega
  · exact hempty hk
  · have hlt := lt_of_mem_constructed hfree
    omega
  · exact hempty hk
  · exact hempty hk
  · exact hempty hk

/-- The strategy takes only slots that are in the queue. -/
theorem beyond_takeSlot (h : s.Beyond) : s.takeSlot.Beyond := by
  intro slot hslot
  obtain ⟨hstrategy, hknown⟩ := h slot hslot
  unfold takeSlot
  split
  · exact ⟨hstrategy, hknown⟩
  · rename_i front rest hitems
    have hne : slot ≠ front := by
      rintro rfl
      exact hknown (.inr (.inl (by rw [hitems]; exact List.mem_cons_self)))
    refine ⟨?_, ?_⟩
    · simp [hstrategy, hne]
    · rintro (hm | hfree | hrest)
      · exact hknown (.inl hm)
      · exact hknown (.inr (.inl (List.mem_of_mem_tail hfree)))
      · exact hknown (.inr (.inr hrest))

/-- What is sent was held by the strategy. -/
theorem beyond_send (h : s.Beyond) (sent : OrderSlot) (order : Order) :
    (s.send sent order).Beyond := by
  intro slot hslot
  obtain ⟨hstrategy, hknown⟩ := h slot hslot
  unfold send
  split
  · rename_i hsent
    have hne : slot ≠ sent := by
      rintro rfl
      exact hstrategy hsent
    refine ⟨fun hmem => hstrategy (List.mem_of_mem_erase hmem), ?_⟩
    rintro (hm | hfree | ⟨k, hk⟩ | hours)
    · exact hknown (.inl hm)
    · exact hknown (.inr (.inl hfree))
    · rcases HashMap.lookup_of_lookup_insert hk with hold | heq
      · exact hknown (.inr (.inr (.inl ⟨k, hold⟩)))
      · exact hne heq
    · exact hknown (.inr (.inr (.inr hours)))
  · exact ⟨hstrategy, hknown⟩

/-- **A step below the threshold brings no slot back.** -/
theorem beyond_step (h : s.Beyond) {e : SlotEvent} (hbelow : s.BelowThreshold e)
    (hs : s.step hash e = .ok s') : s'.Beyond := by
  cases e with
  | takeSlot =>
    rw [← Except.ok.inj hs]
    exact beyond_takeSlot h
  | send slot order =>
    rw [← Except.ok.inj hs]
    exact beyond_send h slot order
  | store msg =>
    obtain ⟨om, hom, rfl⟩ := map_eq_ok_iff.mp hs
    intro slot hslot
    obtain ⟨hstrategy, hknown⟩ := h slot hslot
    exact ⟨hstrategy, fun hk => hknown ((OwnManager.update_effect hom).known hbelow slot hk)⟩

theorem Beyond.lost (h : s.Beyond) {slot : OrderSlot} (hslot : 33792 ≤ slot.val) :
    s.Lost slot := by
  obtain ⟨hstrategy, hknown⟩ := h slot hslot
  refine ⟨List.count_eq_zero.mpr fun hmem => hknown (.inr (.inl hmem)), ?_⟩
  rintro (hmem | hawait | hours)
  · exact hstrategy hmem
  · exact hknown (.inr (.inr (.inl hawait)))
  · exact hknown (.inr (.inr (.inr (.inl hours))))

end SlotSystem

open SlotSystem

/-- **In no run are the slots of own orders conserved.**  Whatever the tables and
whatever happens, they are not conserved throughout the run; and as long as no
message finds the map of own orders at its threshold, every slot from 33792 on
is lost in the state reached. -/
theorem own_slots_never_conserved (hash : List UInt8 → UInt64) (om : OwnManager)
    (es : List SlotEvent) :
    ¬ConservedThroughout hash { om := om.constructed } es ∧
    ∀ t, exec (SlotSystem.step hash) { om := om.constructed } es = .ok t →
      Along (SlotSystem.step hash) BelowThreshold { om := om.constructed } es →
      ∀ slot : OrderSlot, 33792 ≤ slot.val → t.Lost slot := by
  have hbeyond := beyond_constructed om
  refine ⟨fun hcons => ?_, fun t ht hbelow slot hslot => ?_⟩
  · have hlast : 33792 ≤ (65535 : OrderSlot).val := by decide
    have hstart := hcons [] { om := om.constructed } List.nil_prefix rfl
    exact hstart.not_lost (le_trans (by omega) hlast) (hbeyond.lost hlast)
  · have hend : t.Beyond := by
      refine exec_inv_along (fun s e s' hi hb hs => ?_) hbeyond hbelow ht
      exact beyond_step hi hb hs
    exact hend.lost hslot

/-- The strategy has taken a slot of a fresh order manager. -/
theorem own_slots_never_conserved_takeSlot :
    ∃ t, exec (SlotSystem.step fun _ => 0) { om := OwnManager.constructed {} } [.takeSlot] = .ok t ∧
      t.Lost 65535 := by
  have hlast : 33792 ≤ (65535 : OrderSlot).val := by decide
  have hrun := (own_slots_never_conserved (fun _ => 0) {} [.takeSlot]).2
  exact ⟨_, rfl, hrun _ rfl (along_cons _ trivial rfl trivial) _ hlast⟩

/-- The last slot of a fresh order manager is in no place. -/
theorem last_slot_lost :
    ¬Conserved { om := OwnManager.constructed {} } ∧
    Lost { om := OwnManager.constructed {} } 65535 := by
  have hlast : 33792 ≤ (65535 : OrderSlot).val := by decide
  have hlost := (beyond_constructed {}).lost hlast
  exact ⟨fun hcons => hcons.not_lost (le_trans (by omega) hlast) hlost, hlost⟩

end TradingEngine
