/-
The BIST market-order store under recycling.

Market slots are handed out in turn and handed out again after the 32768th.
The key to erase is then rebuilt from the order that still lies in the slot, so
the index `market_orders_` stays exact only because no message ever changes the
identity of a stored order.  The run below carries the set of slots that an add
has been filled into; the invariant `StoreSound` says that `market_orders_` is
the exact index of those slots.

* `marketStore_exact` — in every state of every run of adds, executions and
  deletes, `market_orders_` maps a key to a slot iff that slot has been filled
  and its order has that identity; hence the index is injective, never exceeds
  32768 entries, and never returns an order of another identity.
-/
import TradingEngine.ItchUpdate
import TradingEngine.SlotIndex

namespace TradingEngine

open FallibleRun

/-! ### Orders the book can take -/

/-- The side of the order indexes a tree, and its symbol index is a slot of the
tables or the index of an unknown symbol. -/
structure Bookable (order : Order) : Prop where
  side : ∃ s, order.side.index = .ok s
  venue : ∃ v, order.venue.index = .ok v
  symbol : order.symbolIndex = uint32Max ∨ ∃ i, symbolSlot order.symbolIndex = .ok i

namespace MarketBook

/-- The prologue of the book operations succeeds on a bookable order. -/
theorem onSymBook_ok {order : Order} (h : Bookable order) (mb : MarketBook)
    {f : SymbolBook → Except Fault SymbolBook} (hf : ∀ b, ∃ b', f b = .ok b') :
    ∃ mb', mb.onSymBook order f = .ok mb' := by
  cases hown : order.isOurOrder with
  | true => exact ⟨mb, by simp [onSymBook, hown]⟩
  | false =>
    by_cases hmax : order.symbolIndex = uint32Max
    · exact ⟨mb, by simp [onSymBook, hown, getSymBook, hmax, Bind.bind, Except.bind]⟩
    · obtain ⟨s, hs⟩ := h.side
      obtain ⟨v, hv⟩ := h.venue
      obtain ⟨i, hi⟩ := h.symbol.resolve_left hmax
      obtain ⟨b', hb'⟩ := hf (mb.symbolbooks v i)
      exact ⟨_, onSymBook_of_locatedAt ⟨hv, hi, hs⟩ hown hb'⟩

theorem addOrder_ok {order : Order} (h : Bookable order) (mb : MarketBook) :
    ∃ mb', mb.addOrder order = .ok mb' := by
  obtain ⟨s, hs⟩ := h.side
  refine onSymBook_ok h mb fun b => ?_
  simp only [SymbolBook.addOrder, hs, Bind.bind, Except.bind]
  split <;> exact ⟨_, rfl⟩

theorem reduceLevel_ok {order : Order} (h : Bookable order) (mb : MarketBook) (qty : UInt32) :
    ∃ mb', mb.onSymBook order (fun b => b.reduceLevel order qty) = .ok mb' := by
  obtain ⟨s, hs⟩ := h.side
  refine onSymBook_ok h mb fun b => ?_
  simp only [SymbolBook.reduceLevel, hs, Bind.bind, Except.bind]
  split
  · exact ⟨_, rfl⟩
  · split <;> exact ⟨_, rfl⟩

end MarketBook

/-- The fields a filler of an existing order leaves alone: those of the key and
those the book needs. -/
structure SameIdentity (order order' : Order) : Prop where
  key : order'.key = order.key
  side : order'.side = order.side
  venue : order'.venue = order.venue
  symbolIndex : order'.symbolIndex = order.symbolIndex

theorem SameIdentity.bookable {order order' : Order} (h : SameIdentity order order')
    (hb : Bookable order) : Bookable order' := by
  refine ⟨?_, ?_, ?_⟩
  · rw [h.side]
    exact hb.side
  · rw [h.venue]
    exact hb.venue
  · rw [h.symbolIndex]
    exact hb.symbol

/-! ### The run -/

/-- The order manager and the slots an add has been filled into. -/
structure StoreRun where
  manager : OrderManager
  filled : Finset OrderSlot

namespace StoreRun

open OrderManager

/-- The slot an add takes: none if its order exists or it looks like an own
order. -/
def takenSlot (om : OrderManager) (msg : Bist.ItchMessage) : Option OrderSlot :=
  match msg with
  | .addOrder m =>
    if (om.getOrderFromMarketMap (bistKey m.orderId m.orderBookId m.side)).isSome ∨
        (om.awaitingAckOrders ≠ ∅ ∧ om.isMatchedPendingOrderBist m) then none
    else some om.marketOrderSlot
  | _ => none

/-- One message, and the slot it fills. -/
def step (s : StoreRun) (msg : Bist.ItchMessage) : Except Fault StoreRun := do
  let om ← s.manager.updateOrderBist msg
  .ok ⟨om, (takenSlot s.manager msg).elim s.filled (insert · s.filled)⟩

/-- The instrument is in the directory, with a symbol index of the tables or
the index of an unknown symbol. -/
def KnownInstrument (om : OrderManager) (v : VenueIndex) (instrumentId : UInt32) : Prop :=
  ∃ m, om.getSymbolmeta v instrumentId = some m ∧
    (om.hashtables.getIndex v m.symbol = uint32Max ∨
      ∃ i, symbolSlot (om.hashtables.getIndex v m.symbol) = .ok i)

/-- The messages of the run: adds of known instruments, executions with and
without price, deletes. -/
def MessageOk (s : StoreRun) : Bist.ItchMessage → Prop
  | .addOrder m => KnownInstrument s.manager 0 m.orderBookId
  | .orderExecuted _ | .orderExecutedWithPrice _ | .orderDelete _ => True
  | _ => False

/-- The invariant of the store. -/
structure StoreSound (s : StoreRun) : Prop where
  next : s.manager.marketNextSlot ≤ 32768
  filled : ∀ slot, slot ∈ s.filled ↔
    slot.val < s.manager.marketNextSlot ∨ (s.manager.marketMapFull ∧ slot.val < 32768)
  index : Indexes s.manager.marketOrders s.filled fun slot => (s.manager.orderPool slot).key
  bookable : ∀ slot ∈ s.filled, Bookable (s.manager.orderPool slot)

variable {s : StoreRun}

/-- A step that rewrites at most one slot, keeping its key, and touches neither
the index nor the slot counter. -/
theorem storeSound_rewrite (hs : StoreSound s) {om : OrderManager} (slot : OrderSlot)
    (order : Order) (hpool : om.orderPool = Function.update s.manager.orderPool slot order)
    (hkey : order.key = (s.manager.orderPool slot).key)
    (hbook : slot ∈ s.filled → Bookable order)
    (hmap : om.marketOrders = s.manager.marketOrders)
    (hnext : om.marketNextSlot = s.manager.marketNextSlot)
    (hfull : om.marketMapFull = s.manager.marketMapFull) : StoreSound ⟨om, s.filled⟩ := by
  refine ⟨?_, ?_, ?_, ?_⟩
  · show om.marketNextSlot ≤ 32768
    rw [hnext]
    exact hs.next
  · intro t
    show t ∈ s.filled ↔ t.val < om.marketNextSlot ∨ (om.marketMapFull ∧ t.val < 32768)
    rw [hnext, hfull]
    exact hs.filled t
  · show Indexes om.marketOrders s.filled fun t => (om.orderPool t).key
    rw [hmap]
    refine hs.index.congr fun t _ => ?_
    rw [hpool]
    by_cases ht : t = slot
    · subst ht
      rw [Function.update_self, hkey]
    · rw [Function.update_of_ne ht]
  · intro t ht
    show Bookable (om.orderPool t)
    rw [hpool]
    by_cases hts : t = slot
    · subst hts
      rw [Function.update_self]
      exact hbook ht
    · rw [Function.update_of_ne hts]
      exact hs.bookable t ht

/-- A message that leaves the whole store alone. -/
theorem storeSound_same (hs : StoreSound s) {om : OrderManager}
    (hpool : om.orderPool = s.manager.orderPool)
    (hmap : om.marketOrders = s.manager.marketOrders)
    (hnext : om.marketNextSlot = s.manager.marketNextSlot)
    (hfull : om.marketMapFull = s.manager.marketMapFull) : StoreSound ⟨om, s.filled⟩ := by
  refine storeSound_rewrite hs 0 (s.manager.orderPool 0) ?_ rfl
    (hs.bookable 0) hmap hnext hfull
  rw [Function.update_eq_self, hpool]

/-- A message about an existing order whose processing keeps the key of the
order. -/
theorem onExisting_sound (hs : StoreSound s) {slot : OrderSlot} (msg : DbData)
    {process : OrderManager → Except Fault OrderManager} {order : Order}
    (hkey : order.key = (s.manager.orderPool slot).key) (hbook : Bookable order)
    (hp : ∃ mb, process s.manager = .ok ((s.manager.setOrder slot order).setBook mb)) :
    ∃ om, s.manager.onExisting slot msg process = .ok om ∧ StoreSound ⟨om, s.filled⟩ := by
  unfold OrderManager.onExisting
  by_cases hlock : (s.manager.orderPool slot).canModify = 0
  · -- the message is deferred
    rw [if_pos hlock]
    exact ⟨_, rfl, storeSound_same hs rfl rfl rfl rfl⟩
  · obtain ⟨mb, hmb⟩ := hp
    rw [if_neg hlock, hmb]
    exact ⟨_, rfl, storeSound_rewrite hs slot order rfl hkey (fun _ => hbook) rfl rfl rfl⟩

/-- The executions and the delete: whether the order exists or not, the store
stays sound. -/
theorem onBistOrder_sound (hs : StoreSound s) (k : OrderKey) (msg : Bist.ItchMessage)
    (fill : Order → Order) (qty : Order → UInt32)
    (hfill : ∀ order, SameIdentity order (fill order)) :
    ∃ om, s.manager.onBistOrder k msg (fillThenBook fill fun mb order =>
        mb.onSymBook order fun b => b.reduceLevel order (qty order)) = .ok om ∧
      StoreSound ⟨om, s.filled⟩ := by
  unfold OrderManager.onBistOrder
  cases hk : s.manager.getOrderFromMarketMap k with
  | none => exact ⟨s.manager, rfl, storeSound_same hs rfl rfl rfl rfl⟩
  | some slot =>
    -- the index leads to filled slots only
    have hslot : slot ∈ s.filled := ((hs.index k slot).mp hk).1
    have hid := hfill (s.manager.orderPool slot)
    have hb : Bookable (fill (s.manager.orderPool slot)) := hid.bookable (hs.bookable slot hslot)
    obtain ⟨mb, hmb⟩ := MarketBook.reduceLevel_ok hb s.manager.marketbook
      (qty (fill (s.manager.orderPool slot)))
    exact onExisting_sound hs (.bistItch msg) hid.key hb ⟨mb, fillThenBook_of_ok hmb⟩

/-! ### Adds -/

/-- What `fill_itch_add` leaves in the slot for a known instrument: the identity
of the message, bookable. -/
theorem fillItchAdd_known {om : OrderManager} {msg : Bist.AddOrder} (slot : OrderSlot)
    (hknown : KnownInstrument om 0 msg.orderBookId) :
    ∃ order, FillerItchBist.fillItchAdd om slot msg = om.setOrder slot order ∧
      order.key = bistKey msg.orderId msg.orderBookId msg.side ∧ Bookable order := by
  obtain ⟨m, hm, hindex⟩ := hknown
  unfold FillerItchBist.fillItchAdd OrderManager.fillWithSymbol
  rw [hm]
  refine ⟨_, rfl, rfl, ⟨?_, ⟨0, rfl⟩, hindex⟩⟩
  show ∃ t, (sideOfChar msg.side).index = .ok t
  apply Side.index_eq_ok
  unfold sideOfChar
  split <;> simp

/-- The filler and the book operation of an add of a known instrument. -/
theorem addBist_known (om : OrderManager) {msg : Bist.AddOrder} (slot : OrderSlot)
    (hknown : KnownInstrument om 0 msg.orderBookId) :
    ∃ order mb, addBist msg slot om = .ok ((om.setOrder slot order).setBook mb) ∧
      order.key = bistKey msg.orderId msg.orderBookId msg.side ∧ Bookable order := by
  obtain ⟨order, hfill, hkey, hb⟩ := fillItchAdd_known slot hknown
  obtain ⟨mb, hmb⟩ := MarketBook.addOrder_ok hb om.marketbook
  refine ⟨order, mb, ?_, hkey, hb⟩
  rw [addBist, hfill]
  exact onBook_setOrder hmb

/-- A new order in the slot `add_market_order` takes.  Before the counter has
wrapped the slot is new; afterwards its old key is the one that is erased. -/
theorem storeSound_add (hs : StoreSound s) {k : OrderKey}
    (hk : s.manager.marketOrders.lookup k = none) {om : OrderManager} {order : Order}
    (hkey : order.key = k) (hbook : Bookable order)
    (hpool : om.orderPool = Function.update s.manager.orderPool s.manager.marketOrderSlot order)
    (hmap : om.marketOrders = (s.manager.addMarketOrder k).2.marketOrders)
    (hnext : om.marketNextSlot = (s.manager.addMarketOrder k).2.marketNextSlot)
    (hfull : om.marketMapFull = (s.manager.addMarketOrder k).2.marketMapFull) :
    StoreSound ⟨om, insert s.manager.marketOrderSlot s.filled⟩ := by
  have hlt : s.manager.marketSlot < 32768 := s.manager.marketSlot_lt
  have hval : s.manager.marketOrderSlot.val = s.manager.marketSlot := rfl
  have hself : (om.orderPool s.manager.marketOrderSlot).key = k := by
    rw [hpool, Function.update_self, hkey]
  have hother : ∀ t, t ≠ s.manager.marketOrderSlot →
      (om.orderPool t).key = (s.manager.orderPool t).key := by
    intro t ht
    rw [hpool, Function.update_of_ne ht]
  have hbookable : ∀ t ∈ insert s.manager.marketOrderSlot s.filled, Bookable (om.orderPool t) := by
    intro t ht
    rw [hpool]
    by_cases hts : t = s.manager.marketOrderSlot
    · rw [hts, Function.update_self]
      exact hbook
    · rw [Function.update_of_ne hts]
      exact hs.bookable t (Finset.mem_of_mem_insert_of_ne ht hts)
  obtain ⟨hnotfull, hroom, hadd⟩ | ⟨hwrap, hadd⟩ := addMarketOrder_cases s.manager k
  · -- the slot taken was never used
    have hslot := marketSlot_of_room hroom
    have hnotin : s.manager.marketOrderSlot ∉ s.filled := by
      rw [hs.filled, hnotfull]
      rintro (h | ⟨h, _⟩)
      · omega
      · exact absurd h (by simp)
    rw [hadd] at hmap hnext hfull
    change om.marketNextSlot = s.manager.marketNextSlot + 1 at hnext
    refine ⟨?_, ?_, ?_, hbookable⟩
    · show om.marketNextSlot ≤ 32768
      rw [hnext]
      exact hroom
    · intro t
      show t ∈ insert s.manager.marketOrderSlot s.filled ↔
        t.val < om.marketNextSlot ∨ (om.marketMapFull ∧ t.val < 32768)
      rw [Finset.mem_insert, hs.filled t, hfull, hnotfull, hnext, Fin.ext_iff, hval, hslot]
      constructor
      · rintro (h | h | ⟨h, _⟩)
        · exact Or.inl (by omega)
        · exact Or.inl (by omega)
        · exact absurd h (by simp)
      · rintro (h | ⟨h, _⟩)
        · omega
        · exact absurd h (by simp)
    · show Indexes om.marketOrders (insert s.manager.marketOrderSlot s.filled)
        fun t => (om.orderPool t).key
      rw [hmap]
      exact hs.index.insert hk hnotin hself hother
  · -- every market slot is in use, so the one taken is recycled
    have hin : ∀ t : OrderSlot, t ∈ s.filled ↔ t.val < 32768 := by
      intro t
      rw [hs.filled t]
      have hle := hs.next
      rcases hwrap with hw | hw
      · rw [hw]
        constructor
        · rintro (h | ⟨_, h⟩) <;> omega
        · intro h
          exact Or.inr ⟨rfl, h⟩
      · constructor
        · rintro (h | ⟨_, h⟩) <;> omega
        · intro h
          exact Or.inl (by omega)
    have hmem : s.manager.marketOrderSlot ∈ s.filled := (hin _).mpr hlt
    rw [hadd] at hmap hnext hfull
    change om.marketNextSlot = s.manager.marketSlot + 1 at hnext
    rw [Finset.insert_eq_of_mem hmem] at hbookable ⊢
    refine ⟨?_, ?_, ?_, hbookable⟩
    · show om.marketNextSlot ≤ 32768
      rw [hnext]
      exact hlt
    · intro t
      show t ∈ s.filled ↔ t.val < om.marketNextSlot ∨ (om.marketMapFull ∧ t.val < 32768)
      rw [hin t, hfull, hnext]
      constructor
      · intro h
        exact Or.inr ⟨rfl, h⟩
      · rintro (h | ⟨_, h⟩) <;> omega
    · show Indexes om.marketOrders s.filled fun t => (om.orderPool t).key
      rw [hmap]
      exact hs.index.recycle hk hmem hself hother

/-- An add of a known instrument, to an existing order, matched with a pending
own order, or to a new slot. -/
theorem updateBistAdd_sound (hs : StoreSound s) {msg : Bist.AddOrder}
    (hknown : KnownInstrument s.manager 0 msg.orderBookId) :
    ∃ om, s.manager.updateBistAdd msg = .ok om ∧
      StoreSound ⟨om, (takenSlot s.manager (.addOrder msg)).elim s.filled (insert · s.filled)⟩ := by
  cases hk : s.manager.getOrderFromMarketMap (bistKey msg.orderId msg.orderBookId msg.side) with
  | some slot =>
    obtain ⟨order, mb, hrun, hkey, hb⟩ := addBist_known s.manager slot hknown
    have hold : (s.manager.orderPool slot).key = bistKey msg.orderId msg.orderBookId msg.side :=
      ((hs.index _ slot).mp hk).2
    have htaken : takenSlot s.manager (.addOrder msg) = none := by
      simp only [takenSlot, hk, Option.isSome_some, true_or, if_true]
    rw [updateBistAdd_of_found hk, htaken]
    exact onExisting_sound hs _ (hkey.trans hold.symm) hb ⟨mb, hrun⟩
  | none =>
    by_cases hpending : s.manager.awaitingAckOrders ≠ ∅ ∧ s.manager.isMatchedPendingOrderBist msg
    · have htaken : takenSlot s.manager (.addOrder msg) = none := if_pos (Or.inr hpending)
      rw [updateBistAdd_of_pending hk hpending, htaken]
      exact ⟨s.manager, rfl, hs⟩
    · have htaken : takenSlot s.manager (.addOrder msg) = some s.manager.marketOrderSlot := by
        simp only [takenSlot, hk, Option.isSome_none, Bool.false_eq_true, false_or, if_neg hpending]
      obtain ⟨order, mb, hrun, hkey, hb⟩ := addBist_known
        (s.manager.addMarketOrder (bistKey msg.orderId msg.orderBookId msg.side)).2
        s.manager.marketOrderSlot hknown
      rw [htaken]
      exact ⟨_, updateBistAdd_of_new hk hpending hrun, storeSound_add hs hk hkey hb rfl rfl rfl rfl⟩

/-- One message keeps the store sound. -/
theorem step_sound {msg : Bist.ItchMessage} (hs : StoreSound s) (hok : MessageOk s msg) :
    ∃ s', s.step msg = .ok s' ∧ StoreSound s' := by
  have hlift : ∀ {filled : Finset OrderSlot},
      filled = (takenSlot s.manager msg).elim s.filled (insert · s.filled) →
      (∃ om, s.manager.updateOrderBist msg = .ok om ∧ StoreSound ⟨om, filled⟩) →
        ∃ s', s.step msg = .ok s' ∧ StoreSound s' := by
    rintro filled rfl ⟨om, hom, hsound⟩
    exact ⟨_, by simp only [step, hom, Bind.bind, Except.bind], hsound⟩
  cases msg with
  | addOrder m => exact hlift rfl (updateBistAdd_sound hs hok)
  | orderExecuted m =>
    exact hlift rfl (onBistOrder_sound hs _ _ (FillerItchBist.fillItchExecReport · m)
      Order.lastExecQuantity fun _ => ⟨rfl, rfl, rfl, rfl⟩)
  | orderExecutedWithPrice m =>
    exact hlift rfl (onBistOrder_sound hs _ _ (FillerItchBist.fillItchExecReportWithPrice · m)
      Order.lastExecQuantity fun _ => ⟨rfl, rfl, rfl, rfl⟩)
  | orderDelete m =>
    exact hlift rfl (onBistOrder_sound hs _ _ (FillerItchBist.fillItchDelete · m)
      Order.remainingQuantity fun _ => ⟨rfl, rfl, rfl, rfl⟩)
  | _ => exact absurd hok (by simp [MessageOk])

theorem card_filled_le (hs : StoreSound s) : s.filled.card ≤ 32768 := by
  have hsub : s.filled ⊆ Finset.univ.filter fun slot : OrderSlot => slot.val < 32768 := by
    intro slot hslot
    rw [Finset.mem_filter]
    refine ⟨Finset.mem_univ slot, ?_⟩
    rcases (hs.filled slot).mp hslot with hlt | ⟨_, hlt⟩
    · exact lt_of_lt_of_le hlt hs.next
    · exact hlt
  refine (Finset.card_le_card hsub).trans ?_
  rw [Fin.card_filter_val_lt]
  omega

/-- A store that has not taken an order yet. -/
structure Fresh (om : OrderManager) : Prop where
  marketOrders : om.marketOrders = ∅
  marketNextSlot : om.marketNextSlot = 0
  marketMapFull : om.marketMapFull = false

theorem storeSound_fresh {om : OrderManager} (h : Fresh om) : StoreSound ⟨om, ∅⟩ := by
  refine ⟨?_, ?_, ?_, ?_⟩
  · show om.marketNextSlot ≤ 32768
    rw [h.marketNextSlot]
    omega
  · intro slot
    show slot ∈ (∅ : Finset OrderSlot) ↔ _
    rw [h.marketNextSlot, h.marketMapFull]
    simp
  · show Indexes om.marketOrders ∅ _
    rw [h.marketOrders]
    exact Indexes.empty _
  · intro slot hslot
    exact absurd hslot (Finset.notMem_empty slot)

/-- **The BIST market-order store is exact.**  In every state of every run of
adds of known instruments, executions and deletes from a fresh store,
`market_orders_` maps a key to a slot iff the slot has been filled and its order
has that identity.  So distinct keys have distinct slots, there are at most
32768 entries, and a lookup returns no order of another identity. -/
theorem marketStore_exact (om : OrderManager) (hfresh : Fresh om) (msgs : List Bist.ItchMessage)
    (h : Along step MessageOk ⟨om, ∅⟩ msgs) (n : ℕ) :
    ∃ s, exec step ⟨om, ∅⟩ (msgs.take n) = .ok s ∧
      (∀ k slot, s.manager.marketOrders.lookup k = some slot ↔
        slot ∈ s.filled ∧ (s.manager.orderPool slot).key = k) ∧
      (∀ k k' slot, s.manager.marketOrders.lookup k = some slot →
        s.manager.marketOrders.lookup k' = some slot → k = k') ∧
      s.manager.marketOrders.keys.card ≤ 32768 ∧
      ∀ k slot, s.manager.getOrderFromMarketMap k = some slot →
        (s.manager.orderPool slot).key = k := by
  have halong : Along step MessageOk ⟨om, ∅⟩ (msgs.take n) := by
    rw [← List.take_append_drop n msgs] at h
    exact along_append h
  obtain ⟨s, hs, hsound⟩ := exec_of_along (fun _ _ => step_sound) (storeSound_fresh hfresh) halong
  refine ⟨s, hs, hsound.index, ?_, ?_, ?_⟩
  · intro k k' slot hk hk'
    exact hsound.index.key_unique hk hk'
  · exact hsound.index.card_keys_le.trans (card_filled_le hsound)
  · intro k slot hk
    exact ((hsound.index k slot).mp hk).2

/-- A fresh manager that knows one BIST instrument. -/
def oneInstrument : OrderManager :=
  { instrumentCache := fun _ => (∅ : HashMap UInt32 SymbolMeta).insert 7 { instrumentId := 7 } }

/-- An add of that instrument followed by its delete is such a run. -/
theorem marketStore_exact_oneInstrument :
    ∃ s, exec step ⟨oneInstrument, ∅⟩
        ([.addOrder { orderId := 1, quantity := 5, orderBookId := 7, price := 100, side := charB },
          .orderDelete { orderId := 1, orderBookId := 7, side := charB }].take 2) = .ok s ∧
      (∀ k slot, s.manager.marketOrders.lookup k = some slot ↔
        slot ∈ s.filled ∧ (s.manager.orderPool slot).key = k) ∧
      (∀ k k' slot, s.manager.marketOrders.lookup k = some slot →
        s.manager.marketOrders.lookup k' = some slot → k = k') ∧
      s.manager.marketOrders.keys.card ≤ 32768 ∧
      ∀ k slot, s.manager.getOrderFromMarketMap k = some slot →
        (s.manager.orderPool slot).key = k := by
  refine marketStore_exact oneInstrument ⟨rfl, rfl, rfl⟩
    [.addOrder { orderId := 1, quantity := 5, orderBookId := 7, price := 100, side := charB },
      .orderDelete { orderId := 1, orderBookId := 7, side := charB }] ⟨?_, fun _ _ => ?_⟩ 2
  · refine ⟨{ instrumentId := 7 }, ?_, Or.inl ?_⟩
    · exact Finmap.lookup_insert _
    · rfl
  · exact ⟨trivial, fun _ _ => trivial⟩

end StoreRun

end TradingEngine
