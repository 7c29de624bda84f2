/-
What the update thread writes into the orders it pops.

The store, the strategy and the builder share the orders with the risk engine,
which is meant to observe them and to set its bit of `canModify`.  The replay of
`update_risk_for_protocol_fix` however runs on `order.status` itself: its loop
ends by storing the first of the `StatusesPreNew` there.

* `orderPool_updateRisk` — after a call the orders popped are `settled` and no
  other order has changed;
* `settled_frame` — settling rewrites the mark and the status, nothing else;
* `updateRisk_observes_iff` — so a call leaves all orders but for their marks
  exactly when every FIX order it replays has the status that its first early
  report recorded.
-/
import TradingEngine.RiskRuns

namespace TradingEngine

open FallibleRun RiskEngine

/-- The order is the same but for `canModify`. -/
def SameButMark (o o' : Order) : Prop := o' = { o with canModify := o'.canModify }

/-- The replay ends with the status it began with. -/
def StatusKept (o : Order) : Prop :=
  o.protocol = .fix → o.syncState = .newSeen → o.status = o.statusesPreNew.1

/-- The slots a call pops: up to the first order that is not a FIX order. -/
def poppedSlots (pool : OrderSlot → Order) : List OrderSlot → List OrderSlot
  | [] => []
  | slot :: rest => slot :: if (pool slot).protocol = .fix then poppedSlots pool rest else []

/-! ### One order -/

variable {o : Order}

/-- Only the status and the mark are rewritten. -/
theorem settled_frame (o : Order) :
    settled o = { o with status := (settled o).status, canModify := (settled o).canModify } := by
  rw [settled]
  split
  · split
    · rfl
    · rfl
  · rfl

@[simp] theorem protocol_settled (o : Order) : (settled o).protocol = o.protocol := by
  rw [settled_frame]

@[simp] theorem venue_settled (o : Order) : (settled o).venue = o.venue := by
  rw [settled_frame]

@[simp] theorem symbolIndex_settled (o : Order) : (settled o).symbolIndex = o.symbolIndex := by
  rw [settled_frame]

@[simp] theorem isOurOrder_settled (o : Order) : (settled o).isOurOrder = o.isOurOrder := by
  rw [settled_frame]

@[simp] theorem syncState_settled (o : Order) : (settled o).syncState = o.syncState := by
  rw [settled_frame]

@[simp] theorem statusesPreNew_settled (o : Order) :
    (settled o).statusesPreNew = o.statusesPreNew := by
  rw [settled_frame]

@[simp] theorem quantity_settled (o : Order) : (settled o).quantity = o.quantity := by
  rw [settled_frame]

@[simp] theorem filledQuantity_settled (o : Order) :
    (settled o).filledQuantity = o.filledQuantity := by
  rw [settled_frame]

@[simp] theorem remainingQuantity_settled (o : Order) :
    (settled o).remainingQuantity = o.remainingQuantity := by
  rw [settled_frame]

@[simp] theorem cancelledCount_settled (o : Order) :
    (settled o).cancelledCount = o.cancelledCount := by
  rw [settled_frame]

theorem settled_settled (o : Order) : settled (settled o) = settled o := by
  have hmark : ∀ b : UInt8, b ||| riskDone ||| riskDone = b ||| riskDone := by
    intro b
    rw [UInt8.or_assoc, UInt8.or_self]
  by_cases hproto : o.protocol = .fix
  · by_cases hwait : o.syncState = .waitingNew
    · -- a waiting order is passed over both times
      simp only [settled, if_pos hproto, if_pos hwait]
    · -- the replay stores the same early status again
      simp only [settled, if_pos hproto, if_neg hwait, hmark]
  · simp only [settled, if_neg hproto, hmark]

/-- **The order is left alone exactly when the replay keeps its status.** -/
theorem sameButMark_settled_iff : SameButMark o (settled o) ↔ StatusKept o := by
  rw [SameButMark, StatusKept, settled]
  by_cases hproto : o.protocol = .fix
  · rw [if_pos hproto]
    by_cases hwait : o.syncState = .waitingNew
    · rw [if_pos hwait]
      refine ⟨fun _ _ hseen => ?_, fun _ => rfl⟩
      rw [hwait] at hseen
      cases hseen
    · rw [if_neg hwait]
      have hseen := newSeen_of_ne_waitingNew hwait
      constructor
      · intro h _ _
        exact (congrArg Order.status h).symm
      · intro h
        rw [← h hproto hseen]
  · rw [if_neg hproto]
    exact ⟨fun _ hfix => absurd hfix hproto, fun _ => rfl⟩

/-! ### A call -/

variable {re re' : RiskEngine} {om om' : OrderManager} {done : Bool}

theorem poppedSlots_update {pool : OrderSlot → Order} {slot : OrderSlot} {o' : Order}
    (hproto : o'.protocol = (pool slot).protocol) (slots : List OrderSlot) :
    poppedSlots (Function.update pool slot o') slots = poppedSlots pool slots := by
  induction slots with
  | nil => rfl
  | cons head rest ih =>
    have hsame : (Function.update pool slot o' head).protocol = (pool head).protocol := by
      by_cases hhead : head = slot
      · rw [hhead, Function.update_self, hproto]
      · rw [Function.update_of_ne hhead]
    rw [poppedSlots, poppedSlots, hsame, ih]

/-- The pool after the loop over the queued slots.  A slot queued twice is settled
twice, which is the same as once. -/
theorem orderPool_updateRiskLoop {slots : List OrderSlot}
    (h : re.updateRiskLoop om slots = .ok (done, re', om')) (t : OrderSlot) :
    om'.orderPool t =
      if t ∈ poppedSlots om.orderPool slots then settled (om.orderPool t) else om.orderPool t := by
  induction slots generalizing re om with
  | nil =>
    obtain ⟨-, -, rfl⟩ : done = false ∧ re = re' ∧ om = om' := by
      simpa [updateRiskLoop, eq_comm] using h
    exact (if_neg List.not_mem_nil).symm
  | cons slot rest ih =>
    obtain ⟨stop, re₁, om₁, -, rfl, hcase⟩ := updateRiskLoop_cons_eq_ok h
    have hpool : ({ om with storeToRisk := om.storeToRisk.tail }.setOrder slot
        (settled (om.orderPool slot))).orderPool =
        Function.update om.orderPool slot (settled (om.orderPool slot)) := rfl
    obtain ⟨hproto, hloop⟩ | ⟨hproto, -, rfl⟩ := hcase
    · have hrest := ih hloop
      rw [hpool, poppedSlots_update (protocol_settled _)] at hrest
      rw [hrest, poppedSlots, if_pos hproto]
      by_cases hts : t = slot
      · rw [hts, Function.update_self, if_pos List.mem_cons_self, settled_settled, ite_self]
      · simp only [Function.update_of_ne hts, List.mem_cons, hts, false_or]
    · -- any other order ends the call
      rw [hpool, poppedSlots, if_neg hproto]
      by_cases hts : t = slot
      · rw [hts, Function.update_self, if_pos List.mem_cons_self]
      · rw [Function.update_of_ne hts, if_neg (by simpa using hts)]

/-- **The orders after a call.** -/
theorem orderPool_updateRisk (h : re.updateRisk om = .ok (done, re', om')) (t : OrderSlot) :
    om'.orderPool t = if t ∈ poppedSlots om.orderPool om.storeToRisk.items
      then settled (om.orderPool t) else om.orderPool t :=
  orderPool_updateRiskLoop h t

/-- **The risk engine only observes.**  A call of `update_risk` leaves every order as the
store wrote it, but for `canModify`, exactly when every FIX order it replays has the
status that `StatusesPreNew` begins with. -/
theorem updateRisk_observes_iff (h : re.updateRisk om = .ok (done, re', om')) :
    (∀ t, SameButMark (om.orderPool t) (om'.orderPool t)) ↔
      ∀ t ∈ poppedSlots om.orderPool om.storeToRisk.items, StatusKept (om.orderPool t) := by
  constructor
  · intro hsame t ht
    have hframe := hsame t
    rw [orderPool_updateRisk h, if_pos ht] at hframe
    exact sameButMark_settled_iff.mp hframe
  · intro hkept t
    rw [orderPool_updateRisk h]
    split
    · rename_i ht
      exact sameButMark_settled_iff.mpr (hkept t ht)
    · exact rfl

/-- An acknowledged FIX order, as its New report leaves it. -/
def acknowledgedBid : Order :=
  { price := 100, quantity := 10, remainingQuantity := 10, side := .buy, status := .new
    isOurOrder := true, protocol := .fix, orderType := .limit, syncState := .newSeen }

def afterCall (order : Order) : Bool × RiskEngine × OrderManager :=
  (({} : RiskEngine).updateRisk (queuedOrder order {})).toOption.getD (false, {}, {})

/-- The same order on OUCH. -/
def acceptedBid : Order := { acknowledgedBid with protocol := .ouch }

theorem updateRisk_observes_iff_ouch :
    ({} : RiskEngine).updateRisk (queuedOrder acceptedBid {}) = .ok (afterCall acceptedBid) ∧
      ∀ t, SameButMark ((queuedOrder acceptedBid {}).orderPool t)
        ((afterCall acceptedBid).2.2.orderPool t) := by
  have hcall : ({} : RiskEngine).updateRisk (queuedOrder acceptedBid {}) =
      .ok (afterCall acceptedBid) := rfl
  refine ⟨hcall, (updateRisk_observes_iff hcall).mpr ?_⟩
  intro t _ hfix
  cases hfix

/-- The acknowledged order is left without a status, and a flush of its book that comes
next passes it over. -/
theorem status_lost :
    ({} : RiskEngine).updateRisk (queuedOrder acknowledgedBid {}) =
        .ok (afterCall acknowledgedBid) ∧
      ((afterCall acknowledgedBid).2.2.orderPool 0).status = .unknown ∧
      (afterCall acknowledgedBid).2.2.flushOrder 0 = (afterCall acknowledgedBid).2.2 ∧
      ¬ SameButMark ((queuedOrder acknowledgedBid {}).orderPool 0)
        ((afterCall acknowledgedBid).2.2.orderPool 0) := by
  refine ⟨rfl, rfl, rfl, fun h => ?_⟩
  exact absurd (congrArg Order.status h) (by decide)

end TradingEngine
