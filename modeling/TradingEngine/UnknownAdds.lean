/-
An add for an instrument that is not in the directory (`fill_itch_add`, `fill_itch_replace`
of both venues, `release_order`, `update_order`).

The filler finds out in the middle that it has no symbol for the order.  It gives the slot
back and erases the key of the order, and returns nothing that would say so: `update_order`
puts the order into the book of whatever symbol the slot had before, and hands it on.

* `update_of_target` — what the message does, once it has a slot;
* `leavesAsBefore_iff` — it leaves book, maps and queues as they were exactly when it gets no
  slot, or when the queues are full, the keys it erases were not there and the order changes
  no level.
-/
import TradingEngine.CarriedOver
import TradingEngine.IdleBook

namespace TradingEngine

open OrderManager

namespace HashMap

variable {κ ν : Type} [DecidableEq κ] {m : HashMap κ ν} {k e w : κ} {v : ν}

theorem erase_eq_self_iff : m.erase k = m ↔ m.lookup k = none := by
  constructor
  · intro h
    rw [← h]
    exact Finmap.lookup_erase k m
  · intro h
    refine Finmap.ext_lookup fun k' => ?_
    by_cases heq : k' = k
    · rw [heq, Finmap.lookup_erase, h]
    · exact Finmap.lookup_erase_ne heq

theorem emplace_eq_self_iff : emplace m k v = m ↔ k ∈ m := by
  unfold emplace
  split
  · next hk => exact iff_of_true rfl hk
  · next hk =>
    refine iff_of_false (fun h => hk ?_) hk
    rw [← h]
    exact Finmap.mem_insert.mpr (.inl rfl)

/-- An entry that is erased for another and then erased itself, under a third key: the map is
the one before when it had the entry, or the third key is the first. -/
theorem erase_insert_eq_self_iff {evict : Prop} [Decidable evict] :
    ((if evict then m.erase e else m).insert k v).erase w = m ↔
      m.lookup w = none ∧ (k = w ∨ m.lookup k = some v) ∧
        (evict → e = k ∨ m.lookup e = none) := by
  -- the last writer of a key decides: erased under `w`, entered under `k`, evicted under `e`
  have hlook : ∀ k', (((if evict then m.erase e else m).insert k v).erase w).lookup k' =
      if k' = w then none else if k' = k then some v
        else if evict ∧ k' = e then none else m.lookup k' := by
    intro k'
    by_cases hw : k' = w
    · rw [if_pos hw, hw, Finmap.lookup_erase]
    · rw [if_neg hw, Finmap.lookup_erase_ne hw]
      by_cases hk : k' = k
      · rw [if_pos hk, hk, Finmap.lookup_insert]
      · rw [if_neg hk, Finmap.lookup_insert_of_ne _ hk]
        by_cases hevict : evict
        · by_cases he : k' = e
          · rw [if_pos hevict, if_pos ⟨hevict, he⟩, he, Finmap.lookup_erase]
          · rw [if_pos hevict, if_neg fun h => he h.2, Finmap.lookup_erase_ne he]
        · rw [if_neg hevict, if_neg fun h => hevict h.1]
  constructor
  · intro h
    rw [h] at hlook
    refine ⟨?_, ?_, fun hevict => ?_⟩
    · rw [hlook, if_pos rfl]
    · by_cases hk : k = w
      · exact .inl hk
      · refine .inr ?_
        rw [hlook, if_neg hk, if_pos rfl]
    · by_cases hk : e = k
      · exact .inl hk
      · refine .inr ?_
        by_cases hew : e = w
        · rw [hlook, if_pos hew]
        · rw [hlook, if_neg hew, if_neg hk, if_pos ⟨hevict, rfl⟩]
  · rintro ⟨hw, hk, he⟩
    refine Finmap.ext_lookup fun k' => ?_
    rw [hlook]
    split
    · next heq => rw [heq, hw]
    · next hne =>
      split
      · next heq =>
        rcases hk with hkw | hk
        · exact absurd (heq.trans hkw) hne
        · rw [heq, hk]
      · next hnk =>
        split
        · next hevict =>
          rcases he hevict.1 with hek | hnone
          · exact absurd (hevict.2.trans hek) hnk
          · rw [hevict.2, hnone]
        · rfl

end HashMap

/-- The messages that put an order into the book. -/
inductive EntryMessage
  | add (add : MarketAdd)
  | replace (msg : Nasdaq.Replace)

/-- The slot of a message: one that is in the maps already, or the next one, entered under a
key and, on NASDAQ, a reference number. -/
inductive EntryTarget
  | stored (slot : OrderSlot)
  | fresh (k : OrderKey) (ref : Option UInt64)

namespace EntryTarget

def slot (om : OrderManager) : EntryTarget → OrderSlot
  | stored slot => slot
  | fresh _ _ => om.marketOrderSlot

/-- The maps with the slot in them. -/
def enter (om : OrderManager) : EntryTarget → OrderManager
  | stored _ => om
  | fresh k none => (om.addMarketOrder k).2
  | fresh k (some ref) => { (om.addMarketOrder k).2 with
      nqItchRefnumOrdkey := HashMap.emplace om.nqItchRefnumOrdkey ref k }

end EntryTarget

namespace EntryMessage

def venue : EntryMessage → VenueIndex
  | add a => a.venue
  | replace _ => 1

def instrumentId : EntryMessage → UInt32
  | add a => a.instrumentId
  | replace m => m.stockLocate.toUInt32

/-- `update_order` for the message. -/
def update (om : OrderManager) : EntryMessage → Except Fault OrderManager
  | add (.bist m) => om.updateOrderBist (.addOrder m)
  | add (.nasdaq m) => om.updateOrderNasdaq (.addOrder m)
  | add (.nasdaqMpid m) => om.updateOrderNasdaq (.addOrderMpid m)
  | replace m => om.updateOrderNasdaq (.replace m)

/-- The message as it is stored. -/
def stored : EntryMessage → DbData
  | add (.bist m) => .bistItch (.addOrder m)
  | add (.nasdaq m) => .nasdaqItch (.addOrder m)
  | add (.nasdaqMpid m) => .nasdaqItch (.addOrderMpid m)
  | replace m => .nasdaqItch (.replace m)

/-- The order in a slot, unless it may not be modified now. -/
def modifiable (om : OrderManager) (slot : OrderSlot) : Option EntryTarget :=
  if (om.orderPool slot).canModify = 0 then none else some (.stored slot)

/-- The slot that the message gets.  None is for the echo of an own order, for an order that
may not be modified now and for a reference that leads to no order. -/
def target (om : OrderManager) : EntryMessage → Option EntryTarget
  | add (.bist m) =>
    let k := bistKey m.orderId m.orderBookId m.side
    match om.getOrderFromMarketMap k with
    | some slot => modifiable om slot
    | none =>
      if om.awaitingAckOrders ≠ ∅ ∧ om.isMatchedPendingOrderBist m then none
      else some (.fresh k none)
  | add (.nasdaq m) => nasdaqTarget om m
  | add (.nasdaqMpid m) => nasdaqTarget om m
  | replace m => (om.nasdaqSlot m.orderRef).bind (modifiable om)
where
  nasdaqTarget (om : OrderManager) (m : Nasdaq.AddOrder) : Option EntryTarget :=
    if om.awaitingAckOrders ≠ ∅ ∧ om.isMatchedPendingOrderNasdaq m then none
    else some (.fresh (nasdaqKey m) (some m.orderRef))

/-- What the filler has written when it looks the symbol up. -/
def written (order : Order) : EntryMessage → Order
  | add (.bist m) => { order with
      price := m.price.toInt64
      quantity := m.quantity.toUInt32
      remainingQuantity := m.quantity.toUInt32
      instrumentId := m.orderBookId
      side := sideOfChar m.side
      orderId := m.orderId }
  | add (.nasdaq m) => { order with
      price := m.price.toInt64
      quantity := m.shares
      remainingQuantity := m.shares
      instrumentId := m.stockLocate.toUInt32 }
  | add (.nasdaqMpid m) => { order with
      price := m.price.toInt64
      quantity := m.shares
      remainingQuantity := m.shares
      instrumentId := m.stockLocate.toUInt32
      symbol := trimSymbol m.stock }
  | replace m => { order with
      orderId := m.newOrderRef
      price := m.price.toInt64
      quantity := m.shares
      instrumentId := m.stockLocate.toUInt32
      filledQuantity := 0
      remainingQuantity := m.shares }

/-- What the message does to the book; a replace takes the old order off first. -/
def onBook (mb : MarketBook) (order : Order) (msg : EntryMessage) : Except Fault MarketBook :=
  match msg with
  | add _ => mb.addOrder (msg.written order)
  | replace _ => mb.deleteOrder order >>= fun mb' => mb'.addOrder (msg.written order)

/-- The end of a message whose instrument is not in the directory: the order is released,
and then put into the book and handed on. -/
def released (om : OrderManager) (slot : OrderSlot) (msg : EntryMessage) (mb : MarketBook) :
    OrderManager :=
  ((((om.setOrder slot (msg.written (om.orderPool slot))).releaseOrder slot).setBook mb).publish
    slot).pushDb msg.stored

/-! ### What the message does -/

variable {om : OrderManager} {msg : EntryMessage} {slot : OrderSlot} {t : EntryTarget}

theorem fillWithSymbol_of_unknown {v : VenueIndex} {order : Order} {finish : Order → Order}
    (hunknown : om.getSymbolmeta v order.instrumentId = none) :
    om.fillWithSymbol v slot order finish = (om.setOrder slot order).releaseOrder slot := by
  unfold fillWithSymbol
  rw [hunknown]

theorem fill_of_unknown {a : MarketAdd}
    (hunknown : om.getSymbolmeta a.venue a.instrumentId = none) :
    a.fill om slot =
      (om.setOrder slot ((add a).written (om.orderPool slot))).releaseOrder slot := by
  cases a with
  | bist m =>
    show FillerItchBist.fillItchAdd om slot m = _
    exact fillWithSymbol_of_unknown hunknown
  | nasdaq m =>
    show FillerItchNasdaq.fillItchAdd om slot m = _
    exact fillWithSymbol_of_unknown hunknown
  | nasdaqMpid m =>
    show FillerItchNasdaq.fillItchAddMpid om slot m = _
    exact fillWithSymbol_of_unknown hunknown

theorem fillItchReplace_of_unknown {m : Nasdaq.Replace}
    (hunknown : om.getSymbolmeta 1 m.stockLocate.toUInt32 = none) :
    FillerItchNasdaq.fillItchReplace om slot m =
      (om.setOrder slot ((replace m).written (om.orderPool slot))).releaseOrder slot :=
  fillWithSymbol_of_unknown hunknown

/-- The book operation on a released order, and the end of the message. -/
theorem onBook_released {om om₁ : OrderManager} {order : Order} (msg : EntryMessage)
    (h : om₁ = (om.setOrder slot order).releaseOrder slot) :
    (om₁.onBook slot MarketBook.addOrder >>= fun om' =>
        .ok ((om'.publish slot).pushDb msg.stored)) =
      (om.marketbook.addOrder order).map fun mb =>
        ((((om.setOrder slot order).releaseOrder slot).setBook mb).publish slot).pushDb
          msg.stored := by
  have hheld : om₁.orderPool slot = order := by
    rw [h]
    exact Function.update_self ..
  have hbook : om₁.marketbook = om.marketbook := by
    rw [h]
    rfl
  rw [OrderManager.onBook, hheld, hbook, h]
  cases om.marketbook.addOrder order <;> rfl

theorem processed_add (om : OrderManager) (slot : OrderSlot) (a : MarketAdd)
    (hunknown : om.getSymbolmeta a.venue a.instrumentId = none) :
    ((a.fill om slot).onBook slot MarketBook.addOrder >>= fun om' =>
        .ok ((om'.publish slot).pushDb (add a).stored)) =
      ((add a).onBook om.marketbook (om.orderPool slot)).map (released om slot (add a)) :=
  onBook_released (add a) (fill_of_unknown hunknown)

theorem processed_replace {m : Nasdaq.Replace}
    (hunknown : om.getSymbolmeta 1 m.stockLocate.toUInt32 = none) :
    (replaceNasdaq m slot om >>= fun om' =>
        .ok ((om'.publish slot).pushDb (replace m).stored)) =
      ((replace m).onBook om.marketbook (om.orderPool slot)).map
        (released om slot (replace m)) := by
  simp only [replaceNasdaq, OrderManager.onBook, EntryMessage.onBook]
  cases om.marketbook.deleteOrder (om.orderPool slot) with
  | error e => rfl
  | ok mb =>
    -- the old order is off the book, which the filler does not look at
    have hfill : FillerItchNasdaq.fillItchReplace (om.setBook mb) slot m = _ :=
      fillItchReplace_of_unknown hunknown
    exact onBook_released (replace m) hfill

theorem modifiable_eq_some (h : modifiable om slot = some t) :
    t = .stored slot ∧ (om.orderPool slot).canModify ≠ 0 := by
  unfold modifiable at h
  split at h
  · cases h
  · next hmodify =>
    rw [Option.some.injEq] at h
    exact ⟨h.symm, hmodify⟩

theorem modifiable_eq_none (h : modifiable om slot = none) : (om.orderPool slot).canModify = 0 := by
  unfold modifiable at h
  split at h
  · assumption
  · cases h

theorem onExisting_of_modifiable {d : DbData} {process : OrderManager → Except Fault OrderManager}
    (h : modifiable om slot = some t) :
    om.onExisting slot d process = process om >>= fun om' => .ok ((om'.publish slot).pushDb d) :=
  if_neg (modifiable_eq_some h).2

theorem onExisting_of_not_modifiable {d : DbData}
    {process : OrderManager → Except Fault OrderManager} (h : modifiable om slot = none) :
    om.onExisting slot d process = .ok (om.deferMessage d slot) :=
  if_pos (modifiable_eq_none h)

/-- The two adds of NASDAQ. -/
theorem updateNasdaqAdd_of_target {a : MarketAdd} {m : Nasdaq.AddOrder} {d : Nasdaq.ItchMessage}
    {fill : OrderManager → OrderSlot → Nasdaq.AddOrder → OrderManager}
    (hfill : ∀ om slot, fill om slot m = a.fill om slot) (hd : (add a).stored = .nasdaqItch d)
    (hunknown : om.getSymbolmeta a.venue a.instrumentId = none)
    (h : target.nasdaqTarget om m = some t) :
    om.updateNasdaqAdd m d fill = ((add a).onBook om.marketbook (om.orderPool (t.slot om))).map
      (released (t.enter om) (t.slot om) (add a)) := by
  unfold target.nasdaqTarget at h
  by_cases hecho : om.awaitingAckOrders ≠ ∅ ∧ om.isMatchedPendingOrderNasdaq m
  · rw [if_pos hecho] at h
    cases h
  · rw [if_neg hecho, Option.some.injEq] at h
    subst h
    -- a new slot: the filler works on the maps in which it is entered
    have hend := processed_add (om.addNasdaqOrder m) om.marketOrderSlot a hunknown
    rw [← hfill, hd] at hend
    rw [updateNasdaqAdd, if_neg hecho]
    exact hend

/-- **A message that gets a slot** goes on after the failed lookup as if nothing had been. -/
theorem update_of_target (hunknown : om.getSymbolmeta msg.venue msg.instrumentId = none)
    (h : msg.target om = some t) :
    msg.update om = (msg.onBook om.marketbook (om.orderPool (t.slot om))).map
      (released (t.enter om) (t.slot om) msg) := by
  match msg with
  | add (.bist m) =>
    show om.updateBistAdd m = _
    simp only [target] at h
    cases hk : om.getOrderFromMarketMap (bistKey m.orderId m.orderBookId m.side) with
    | some slot =>
      rw [hk] at h
      rw [updateBistAdd_of_found hk, onExisting_of_modifiable h, (modifiable_eq_some h).1]
      exact processed_add om slot (.bist m) hunknown
    | none =>
      rw [hk] at h
      by_cases hecho : om.awaitingAckOrders ≠ ∅ ∧ om.isMatchedPendingOrderBist m
      · rw [if_pos hecho] at h
        cases h
      · rw [if_neg hecho, Option.some.injEq] at h
        subst h
        rw [updateBistAdd, hk, if_neg hecho]
        exact processed_add (om.addMarketOrder _).2 om.marketOrderSlot (.bist m) hunknown
  | add (.nasdaq m) => exact updateNasdaqAdd_of_target (fun _ _ => rfl) rfl hunknown h
  | add (.nasdaqMpid m) => exact updateNasdaqAdd_of_target (fun _ _ => rfl) rfl hunknown h
  | replace m =>
    show om.onNasdaqOrder m.orderRef (.replace m) (replaceNasdaq m) = _
    obtain ⟨slot, hslot, hmod⟩ := Option.bind_eq_some_iff.mp h
    rw [onNasdaqOrder, hslot]
    refine (onExisting_of_modifiable hmod).trans ?_
    rw [(modifiable_eq_some hmod).1]
    exact processed_replace hunknown

/-- A message without a slot is dropped or put off. -/
theorem update_of_no_target (h : msg.target om = none) :
    msg.update om = .ok om ∨ ∃ slot, msg.update om = .ok (om.deferMessage msg.stored slot) := by
  have hnasdaq : ∀ {m : Nasdaq.AddOrder} {d fill}, target.nasdaqTarget om m = none →
      om.updateNasdaqAdd m d fill = .ok om := by
    intro m d fill hnone
    unfold target.nasdaqTarget at hnone
    by_cases hecho : om.awaitingAckOrders ≠ ∅ ∧ om.isMatchedPendingOrderNasdaq m
    · exact if_pos hecho
    · rw [if_neg hecho] at hnone
      cases hnone
  -- no slot: the order is locked, or the add is an echo of an own order
  match msg with
  | add (.bist m) =>
    show om.updateBistAdd m = _ ∨ ∃ slot, om.updateBistAdd m = _
    simp only [target] at h
    cases hk : om.getOrderFromMarketMap (bistKey m.orderId m.orderBookId m.side) with
    | some slot =>
      rw [hk] at h
      exact .inr ⟨slot, (updateBistAdd_of_found hk).trans (onExisting_of_not_modifiable h)⟩
    | none =>
      rw [hk] at h
      by_cases hecho : om.awaitingAckOrders ≠ ∅ ∧ om.isMatchedPendingOrderBist m
      · exact .inl (updateBistAdd_of_pending hk hecho)
      · rw [if_neg hecho] at h
        cases h
  | add (.nasdaq m) => exact .inl (hnasdaq h)
  | add (.nasdaqMpid m) => exact .inl (hnasdaq h)
  | replace m =>
    show om.onNasdaqOrder m.orderRef (.replace m) (replaceNasdaq m) = _ ∨
      ∃ slot, om.onNasdaqOrder m.orderRef (.replace m) (replaceNasdaq m) = _
    unfold onNasdaqOrder
    cases hslot : om.nasdaqSlot m.orderRef with
    | none => exact .inl rfl
    | some slot =>
      rw [target, hslot] at h
      exact .inr ⟨slot, onExisting_of_not_modifiable h⟩

/-! ### When nothing is left to see -/

/-- Book, maps and queues are as they were, and every order but that in the slot. -/
structure LeavesAsBefore (om om' : OrderManager) (slot : Option OrderSlot) : Prop where
  marketbook : om'.marketbook = om.marketbook
  marketOrders : om'.marketOrders = om.marketOrders
  nqItchRefnumOrdkey : om'.nqItchRefnumOrdkey = om.nqItchRefnumOrdkey
  storeToStrategyFreeSlot : om'.storeToStrategyFreeSlot = om.storeToStrategyFreeSlot
  storeToRisk : om'.storeToRisk = om.storeToRisk
  storeToStrategy : om'.storeToStrategy = om.storeToStrategy
  orderPool : ∀ t, slot ≠ some t → om'.orderPool t = om.orderPool t

/-- The maps are as they were when the slot has been entered and the key of the order
erased. -/
def KeepsKeys (om : OrderManager) (w : OrderKey) : EntryTarget → Prop
  | .stored _ => om.marketOrders.lookup w = none
  | .fresh k ref =>
    om.marketOrders.lookup w = none ∧
      (k = w ∨ om.marketOrders.lookup k = some om.marketOrderSlot) ∧
      -- the slot is used again, and its last key is erased
      ((om.marketMapFull || decide (om.marketNextSlot ≥ marketOrderLastIndex)) = true →
        (om.orderPool om.marketOrderSlot).key = k ∨
          om.marketOrders.lookup (om.orderPool om.marketOrderSlot).key = none) ∧
      ∀ r, ref = some r → r ∈ om.nqItchRefnumOrdkey

/-- The book is as it was. -/
def KeepsBook (mb : MarketBook) (order : Order) (msg : EntryMessage) : Prop :=
  match msg with
  | add _ => MarketBook.Unbooked (msg.written order) ∨
      ∃ v i s, MarketBook.LocatedAt (msg.written order) v i s ∧
        (mb.symbolbooks v i).AddsNothing s (msg.written order)
  | replace _ => MarketBook.Unbooked order ∨
      ∃ v i s, MarketBook.LocatedAt order v i s ∧
        ((mb.symbolbooks v i).PutsBack s order (msg.written order) ∨
          (mb.symbolbooks v i).MovesNothing s order (msg.written order))

/-- No queue takes the order, no key and no level changes. -/
structure LeavesNoTrace (om : OrderManager) (msg : EntryMessage) (t : EntryTarget) : Prop where
  freeSlotsFull : om.storeToStrategyFreeSlot.items.length = 1024
  riskFull : om.storeToRisk.items.length = 1024
  strategyFull : om.storeToStrategy.items.length = 1024
  keys : KeepsKeys om (msg.written (om.orderPool (t.slot om))).key t
  book : msg.KeepsBook om.marketbook (om.orderPool (t.slot om))

theorem push_eq_self_iff {α : Type} {n : ℕ} {q : BoundedQueue α n} {a : α} :
    q.push a = q ↔ q.items.length = n := by
  have hle := q.bounded
  constructor
  · intro h
    by_contra hne
    have hlen := congrArg (fun q => q.items.length) h
    simp only [BoundedQueue.items_push (lt_of_le_of_ne hle hne), List.length_append,
      List.length_singleton] at hlen
    omega
  · intro h
    exact BoundedQueue.items_push_full (by omega)

theorem onBook_eq_self_iff {mb : MarketBook} {order : Order} :
    msg.onBook mb order = .ok mb ↔ msg.KeepsBook mb order := by
  cases msg with
  | add a => exact MarketBook.addOrder_eq_self_iff
  | replace m => exact MarketBook.replaceOrder_eq_self_iff ⟨rfl, rfl, rfl, rfl⟩

/-! The end of the message, field by field. -/

theorem released_marketbook (om : OrderManager) (slot : OrderSlot) (msg : EntryMessage)
    (mb : MarketBook) : (released om slot msg mb).marketbook = mb := rfl

theorem released_nqItchRefnumOrdkey (om : OrderManager) (slot : OrderSlot)
    (msg : EntryMessage) (mb : MarketBook) :
    (released om slot msg mb).nqItchRefnumOrdkey = om.nqItchRefnumOrdkey := by
  simp only [released, pushDb, publish, setBook, releaseOrder, setOrder]

theorem released_storeToStrategyFreeSlot (om : OrderManager) (slot : OrderSlot)
    (msg : EntryMessage) (mb : MarketBook) :
    (released om slot msg mb).storeToStrategyFreeSlot = om.storeToStrategyFreeSlot.push slot := by
  simp only [released, pushDb, publish, setBook, releaseOrder, setOrder]

theorem released_storeToRisk (om : OrderManager) (slot : OrderSlot)
    (msg : EntryMessage) (mb : MarketBook) :
    (released om slot msg mb).storeToRisk = om.storeToRisk.push slot := by
  simp only [released, pushDb, publish, setBook, releaseOrder, setOrder]

theorem released_storeToStrategy (om : OrderManager) (slot : OrderSlot)
    (msg : EntryMessage) (mb : MarketBook) :
    (released om slot msg mb).storeToStrategy = om.storeToStrategy.push slot := by
  simp only [released, pushDb, publish, setBook, releaseOrder, setOrder]

theorem released_orderPool (om : OrderManager) (slot : OrderSlot) (msg : EntryMessage)
    (mb : MarketBook) : (released om slot msg mb).orderPool =
      Function.update om.orderPool slot (msg.written (om.orderPool slot)) := rfl

/-- The key of the order is erased. -/
theorem released_marketOrders (om : OrderManager) (slot : OrderSlot) (msg : EntryMessage)
    (mb : MarketBook) : (released om slot msg mb).marketOrders =
      om.marketOrders.erase (msg.written (om.orderPool slot)).key := by
  have hheld : (om.setOrder slot (msg.written (om.orderPool slot))).orderPool slot =
      msg.written (om.orderPool slot) := Function.update_self ..
  rw [← hheld]
  rfl

/-- The slot is entered in the maps, and nowhere else. -/
theorem orderPool_enter (om : OrderManager) (t : EntryTarget) :
    (t.enter om).orderPool = om.orderPool := by
  match t with
  | .stored slot => rfl
  | .fresh k none => rfl
  | .fresh k (some ref) => rfl

theorem queues_enter (om : OrderManager) (t : EntryTarget) :
    (t.enter om).storeToStrategyFreeSlot = om.storeToStrategyFreeSlot ∧
      (t.enter om).storeToRisk = om.storeToRisk ∧
      (t.enter om).storeToStrategy = om.storeToStrategy := by
  match t with
  | .stored slot => exact ⟨rfl, rfl, rfl⟩
  | .fresh k none => exact ⟨rfl, rfl, rfl⟩
  | .fresh k (some ref) => exact ⟨rfl, rfl, rfl⟩

theorem keepsKeys_iff {w : OrderKey} :
    (t.enter om).marketOrders.erase w = om.marketOrders ∧
        (t.enter om).nqItchRefnumOrdkey = om.nqItchRefnumOrdkey ↔ KeepsKeys om w t := by
  have hfresh : ∀ k, (om.addMarketOrder k).2.marketOrders.erase w = om.marketOrders ↔ _ :=
    fun k => HashMap.erase_insert_eq_self_iff
  match t with
  | .stored slot => exact ⟨fun h => HashMap.erase_eq_self_iff.mp h.1,
      fun h => ⟨HashMap.erase_eq_self_iff.mpr h, rfl⟩⟩
  | .fresh k none =>
    refine ⟨fun h => ?_, fun h => ?_⟩
    · obtain ⟨hw, hk, he⟩ := (hfresh k).mp h.1
      exact ⟨hw, hk, he, fun r hr => by cases hr⟩
    · obtain ⟨hw, hk, he, -⟩ := h
      exact ⟨(hfresh k).mpr ⟨hw, hk, he⟩, rfl⟩
  | .fresh k (some ref) =>
    refine ⟨fun h => ?_, fun h => ?_⟩
    · obtain ⟨hw, hk, he⟩ := (hfresh k).mp h.1
      refine ⟨hw, hk, he, fun r hr => ?_⟩
      rw [Option.some.injEq] at hr
      rw [← hr]
      exact HashMap.emplace_eq_self_iff.mp h.2
    · obtain ⟨hw, hk, he, href⟩ := h
      exact ⟨(hfresh k).mpr ⟨hw, hk, he⟩, HashMap.emplace_eq_self_iff.mpr (href ref rfl)⟩

/-- The queues take the order unless they are full. -/
theorem leavesAsBefore_released_iff {mb : MarketBook} :
    LeavesAsBefore om (released (t.enter om) (t.slot om) msg mb) (some (t.slot om)) ↔
      mb = om.marketbook ∧ KeepsKeys om (msg.written (om.orderPool (t.slot om))).key t ∧
        om.storeToStrategyFreeSlot.items.length = 1024 ∧ om.storeToRisk.items.length = 1024 ∧
          om.storeToStrategy.items.length = 1024 := by
  obtain ⟨hfree, hrisk, hstrategy⟩ := queues_enter om t
  constructor
  · rintro ⟨hbook, horders, hrefs, hfreeSame, hriskSame, hstrategySame, -⟩
    rw [released_marketbook] at hbook
    rw [released_marketOrders, orderPool_enter] at horders
    rw [released_nqItchRefnumOrdkey] at hrefs
    rw [released_storeToStrategyFreeSlot, hfree, push_eq_self_iff] at hfreeSame
    rw [released_storeToRisk, hrisk, push_eq_self_iff] at hriskSame
    rw [released_storeToStrategy, hstrategy, push_eq_self_iff] at hstrategySame
    exact ⟨hbook, keepsKeys_iff.mp ⟨horders, hrefs⟩, hfreeSame, hriskSame, hstrategySame⟩
  · rintro ⟨hbook, hkeys, hfreeFull, hriskFull, hstrategyFull⟩
    obtain ⟨horders, hrefs⟩ := keepsKeys_iff.mpr hkeys
    refine ⟨?_, ?_, ?_, ?_, ?_, ?_, fun s hs => ?_⟩
    · rw [released_marketbook, hbook]
    · rw [released_marketOrders, orderPool_enter, horders]
    · rw [released_nqItchRefnumOrdkey, hrefs]
    · rw [released_storeToStrategyFreeSlot, hfree, push_eq_self_iff]
      exact hfreeFull
    · rw [released_storeToRisk, hrisk, push_eq_self_iff]
      exact hriskFull
    · rw [released_storeToStrategy, hstrategy, push_eq_self_iff]
      exact hstrategyFull
    · rw [released_orderPool, orderPool_enter]
      exact Function.update_of_ne (fun heq => hs (congrArg some heq.symm)) _ _

/-- **When an add for an unknown instrument changes nothing.**  It gets no slot, or it leaves
no trace: the queues refuse the order, the erased keys were not there, and the order adds to
no level. -/
theorem leavesAsBefore_iff (hunknown : om.getSymbolmeta msg.venue msg.instrumentId = none) :
    (∃ om', msg.update om = .ok om' ∧
        LeavesAsBefore om om' ((msg.target om).map (EntryTarget.slot om))) ↔
      ∀ t, msg.target om = some t → LeavesNoTrace om msg t := by
  cases ht : msg.target om with
  | none =>
    refine iff_of_true ?_ fun t h => by cases h
    -- no slot: dropped, or put off, which only fills the queue of deferred messages
    obtain hsame | ⟨slot, hdeferred⟩ := update_of_no_target ht
    · exact ⟨om, hsame, rfl, rfl, rfl, rfl, rfl, rfl, fun _ _ => rfl⟩
    · exact ⟨_, hdeferred, rfl, rfl, rfl, rfl, rfl, rfl, fun _ _ => rfl⟩
  | some t =>
    rw [update_of_target hunknown ht]
    constructor
    · rintro ⟨om', h, hleaves⟩ t' ht'
      rw [Option.some.injEq] at ht'
      subst ht'
      -- the message returns when the book operation does
      cases hbook : msg.onBook om.marketbook (om.orderPool (t.slot om)) with
      | error e =>
        rw [hbook] at h
        cases h
      | ok mb =>
        rw [hbook, Except.map, Except.ok.injEq] at h
        subst h
        obtain ⟨rfl, hkeys, hfull, hrisk, hstrategy⟩ := leavesAsBefore_released_iff.mp hleaves
        exact ⟨hfull, hrisk, hstrategy, hkeys, onBook_eq_self_iff.mp hbook⟩
    · intro hall
      have h := hall t rfl
      refine ⟨_, by rw [onBook_eq_self_iff.mpr h.book, Except.map], ?_⟩
      exact leavesAsBefore_released_iff.mpr
        ⟨rfl, h.keys, h.freeSlotsFull, h.riskFull, h.strategyFull⟩

/-- A replace of a reference that was never entered. -/
def replaceUnentered : EntryMessage :=
  replace { orderRef := 1, newOrderRef := 2, shares := 10, price := 100, stockLocate := 5 }

/-- It is dropped. -/
theorem leavesAsBefore_iff_unentered :
    ∃ om', replaceUnentered.update {} = .ok om' ∧ LeavesAsBefore {} om' none := by
  have hunknown : ({} : OrderManager).getSymbolmeta replaceUnentered.venue
      replaceUnentered.instrumentId = none := rfl
  have htarget : replaceUnentered.target {} = none := rfl
  have h := (leavesAsBefore_iff hunknown).mpr fun t ht => by
    rw [htarget] at ht
    cases ht
  rwa [htarget] at h

/-- Ten to buy at 100, of an instrument whose directory message is still to come. -/
def addUnlisted : EntryMessage :=
  add (.bist { orderId := 1, orderBookId := 5, quantity := 10, price := 100, side := 66 })

/-- **An add for an unknown instrument is entered all the same**: in the book of the first
symbol there is a level of ten, risk and strategy are given the order, and the slot is
free. -/
theorem addUnlisted_entered :
    ({} : OrderManager).getSymbolmeta addUnlisted.venue addUnlisted.instrumentId = none ∧
      (∃ om', addUnlisted.update {} = .ok om' ∧
        om'.marketbook.level 0 0 0 100 = some 10 ∧ om'.storeToStrategyFreeSlot.items = [0] ∧
        om'.storeToRisk.items = [0] ∧ om'.storeToStrategy.items = [0]) ∧
      ¬∃ om', addUnlisted.update {} = .ok om' ∧ LeavesAsBefore {} om' (some 0) := by
  have hunknown : ({} : OrderManager).getSymbolmeta addUnlisted.venue addUnlisted.instrumentId =
      none := rfl
  have htarget : addUnlisted.target {} = some (.fresh (bistKey 1 5 66) none) := rfl
  have hloc : MarketBook.LocatedAt (addUnlisted.written {}) 0 0 0 := ⟨rfl, rfl, rfl⟩
  obtain ⟨mb, hmb, hlevels⟩ := MarketBook.level_addOrder {} hloc rfl
  have hrun := update_of_target hunknown htarget
  have hadd : addUnlisted.onBook {} (({} : OrderManager).orderPool 0) = .ok mb := hmb
  have hrun' : addUnlisted.update {} = .ok
      (released (EntryTarget.enter {} (.fresh (bistKey 1 5 66) none)) 0 addUnlisted mb) := by
    rw [hrun]
    exact congrArg (Except.map _) hadd
  refine ⟨rfl, ⟨_, hrun', ?_, rfl, rfl, rfl⟩, ?_⟩
  · exact (hlevels 0 0 0 100).trans rfl
  · rintro ⟨om', h, hleaves⟩
    rw [hrun', Except.ok.injEq] at h
    subst h
    have hrisk := congrArg BoundedQueue.items hleaves.storeToRisk
    cases hrisk

end EntryMessage

end TradingEngine
