/-
ITCH runs of the two venues against the exchange.

A step of a `Feed` is one `update_order` of the order manager together with the
same message at the exchange.  `Bist.Consistent` and `Nasdaq.Consistent` say what
an exchange may send: adds use new references and positive quantities,
executions and cancellations take at most what is left, later messages name
live orders.

* `depth_eq_restingOrders` — in every state of such a run with at most 32768
  adds, the book entry of each symbol, side and price exists iff orders rest
  there, and then is the sum of their remaining quantities, on both venues;
* `replace_depth_exact` — with replaces in the run this still holds as long as
  no message names a reference that a replace has introduced;
* `replaced_order_unreachable` — a delete under such a reference is lost.
-/
import TradingEngine.ItchDepth

namespace TradingEngine

open FallibleRun OrderManager

/-! ### Where a message puts an order -/

/-- The slot of an instrument that is in the directory and in the symbol
table. -/
def OrderManager.symbolOf (om : OrderManager) (v : VenueIndex) (instrumentId : UInt32) :
    Option SymbolSlot :=
  match om.getSymbolmeta v instrumentId with
  | none => none
  | some m => (symbolSlot (om.hashtables.getIndex v m.symbol)).toOption

/-- The tree of `sideOfChar`. -/
def treeOfChar (c : UInt8) : TreeIndex := if c = charB then 0 else 1

theorem index_sideOfChar (c : UInt8) : (sideOfChar c).index = .ok (treeOfChar c) := by
  unfold sideOfChar treeOfChar
  split <;> rfl

/-- The directory lookup of a filler for an instrument with a symbol slot. -/
theorem fillWithSymbol_of_symbolOf {om : OrderManager} {v : VenueIndex} {instrumentId : UInt32}
    {i : SymbolSlot} (h : om.symbolOf v instrumentId = some i) :
    ∃ symbol index, symbolSlot index = .ok i ∧ ∀ slot order finish,
      order.instrumentId = instrumentId → om.fillWithSymbol v slot order finish =
        om.setOrder slot (finish { order with symbol := symbol, symbolIndex := index }) := by
  unfold OrderManager.symbolOf at h
  cases hm : om.getSymbolmeta v instrumentId with
  | none =>
    rw [hm] at h
    exact absurd h (by simp)
  | some m =>
    rw [hm] at h
    refine ⟨m.symbol, om.hashtables.getIndex v m.symbol, ?_, ?_⟩
    · cases hs : symbolSlot (om.hashtables.getIndex v m.symbol) with
      | error e =>
        simp only [hs] at h
        exact absurd h (by simp [Except.toOption])
      | ok j =>
        simp only [hs, Except.toOption, Option.some.injEq] at h
        rw [h]
    · intro slot order finish hid
      simp only [OrderManager.fillWithSymbol, hid, hm]

/-- An order filled from an add: at the level of the message with its
quantity. -/
structure FilledAt (v : VenueIndex) (order : Order) (l : Level) (q : ℕ) : Prop where
  sits : SitsAt v order l
  quantity : order.quantity.toNat = q
  remaining : order.remainingQuantity.toNat = q

theorem SitsAt.venue_nasdaq {order : Order} {l : Level} (h : SitsAt 1 order l) :
    order.venue = .nasdaq := by
  have hindex := h.located.venue
  cases hv : order.venue <;> rw [hv] at hindex <;> simp [Venue.index] at hindex

/-! ### BIST -/

namespace Bist

/-- The key of the order an add is about. -/
def AddOrder.key (m : AddOrder) : OrderKey := bistKey m.orderId m.orderBookId m.side

/-- The level of an add whose instrument has the symbol slot `i`. -/
def AddOrder.level (m : AddOrder) (i : SymbolSlot) : Level :=
  (i, treeOfChar m.side, m.price.toInt64)

/-- What a message does to the orders of the exchange. -/
def exchangeStep (om : OrderManager) (x : RestingOrders OrderKey Level) :
    ItchMessage → RestingOrders OrderKey Level
  | .addOrder m =>
    match om.symbolOf 0 m.orderBookId with
    | some i => x.place m.key (m.level i) m.quantity.toNat
    | none => x
  | .orderExecuted m =>
    x.reduce (bistKey m.orderId m.orderBookId m.side) m.executedQuantity.toNat
  | .orderDelete m => x.remove (bistKey m.orderId m.orderBookId m.side)
  | _ => x

/-- One message at the order manager and at the exchange. -/
def step (f : Feed OrderKey) (msg : ItchMessage) : Except Fault (Feed OrderKey) := do
  let om ← f.manager.updateOrderBist msg
  .ok ⟨om, exchangeStep f.manager f.exchange msg, f.renamed⟩

theorem step_of_ok {f : Feed OrderKey} {msg : ItchMessage} {om : OrderManager}
    (h : f.manager.updateOrderBist msg = .ok om) :
    step f msg = .ok ⟨om, exchangeStep f.manager f.exchange msg, f.renamed⟩ := by
  simp only [step, h, Bind.bind, Except.bind]

/-- What the exchange may send: adds under new keys of known instruments, with
positive quantities that fit their level, none of them taken for an own order
and 32768 of them at most; executions of at most what is left; deletes of live
orders. -/
def Consistent (f : Feed OrderKey) : ItchMessage → Prop
  | .addOrder m => m.key ∉ f.exchange.used ∧ 0 < m.quantity.toNat ∧
      f.exchange.used.card < 32768 ∧
      ¬(f.manager.awaitingAckOrders ≠ ∅ ∧ f.manager.isMatchedPendingOrderBist m = true) ∧
      ∃ i, f.manager.symbolOf 0 m.orderBookId = some i ∧
        f.exchange.depth (m.level i) + m.quantity.toNat < 2 ^ 32
  | .orderExecuted m => f.exchange.Live (bistKey m.orderId m.orderBookId m.side) ∧
      0 < m.executedQuantity.toNat ∧
      m.executedQuantity.toNat ≤ f.exchange.rem (bistKey m.orderId m.orderBookId m.side)
  | .orderDelete m => f.exchange.Live (bistKey m.orderId m.orderBookId m.side)
  | _ => False

/-- The invariant of a BIST run. -/
structure Sound (f : Feed OrderKey) : Prop where
  tracks : Tracks 0 getOrderFromMarketMap f
  known : ∀ k slot, f.manager.marketOrders.lookup k = some slot →
    k ∈ f.exchange.used ∧ slot.val < f.manager.marketNextSlot
  next : f.manager.marketNextSlot = f.exchange.used.card
  notFull : f.manager.marketMapFull = false
  renamed : f.renamed = ∅

variable {f : Feed OrderKey}

/-- `fill_itch_add` puts the order at the level of the message. -/
theorem fillItchAdd_filledAt (om : OrderManager) {m : AddOrder} {i : SymbolSlot}
    (slot : OrderSlot) (hi : om.symbolOf 0 m.orderBookId = some i)
    (hslot : (om.orderPool slot).isOurOrder = false ∧ (om.orderPool slot).canModify ≠ 0)
    (hq : m.quantity.toNat < 2 ^ 32) :
    ∃ order, FillerItchBist.fillItchAdd om slot m = om.setOrder slot order ∧
      FilledAt 0 order (m.level i) m.quantity.toNat := by
  have hnat : m.quantity.toUInt32.toNat = m.quantity.toNat := by
    rw [UInt64.toNat_toUInt32]
    omega
  obtain ⟨symbol, index, hindex, hfill⟩ := fillWithSymbol_of_symbolOf hi
  refine ⟨_, hfill slot _ _ rfl, ?_⟩
  exact ⟨⟨⟨rfl, hindex, index_sideOfChar m.side⟩, rfl, hslot.1, hslot.2⟩, hnat, hnat⟩

/-- The manager after an order was rewritten, the book changed and both handed
on. -/
def afterFill (om : OrderManager) (slot : OrderSlot) (order : Order) (mb : MarketBook)
    (msg : ItchMessage) : OrderManager :=
  (((om.setOrder slot order).setBook mb).publish slot).pushDb (.bistItch msg)

/-- An execution or a delete of an addressed order. -/
theorem tracks_fill (h : Tracks 0 getOrderFromMarketMap f) {k : OrderKey} (haddr : f.Addressed k)
    (msg : ItchMessage) (fill : Order → Order) (qty : Order → UInt32) {n : ℕ}
    (hn : n ≤ f.exchange.rem k)
    (hsits : ∀ order, SitsAt 0 order (f.exchange.level k) →
      SitsAt 0 (fill order) (f.exchange.level k))
    (hqty : ∀ order, order.remainingQuantity.toNat = f.exchange.rem k →
      (qty (fill order)).toNat = n ∧
        (n < f.exchange.rem k → (fill order).remainingQuantity.toNat = f.exchange.rem k - n)) :
    ∃ slot mb, f.manager.onBistOrder k msg (fillThenBook fill fun mb order =>
        mb.onSymBook order fun b => b.reduceLevel order (qty order)) =
          .ok (afterFill f.manager slot (fill (f.manager.orderPool slot)) mb msg) ∧
      Tracks 0 getOrderFromMarketMap
        ⟨afterFill f.manager slot (fill (f.manager.orderPool slot)) mb msg, f.exchange.reduce k n,
          f.renamed⟩ := by
  obtain ⟨slot, hslot, hrest, hrem⟩ := h.reached k haddr
  obtain ⟨hq, hleft⟩ := hqty _ hrem
  have hn' : (qty (fill (f.manager.orderPool slot))).toNat ≤ f.exchange.rem k := by omega
  obtain ⟨mb, hmb, htracks⟩ := tracks_reduce h haddr hslot (hsits _ hrest) hn'
    (by rw [hq]; exact hleft)
  rw [hq] at htracks
  exact ⟨slot, mb, onBistOrder_of_found hslot hrest.modifiable (fillThenBook_of_ok hmb),
    htracks _ rfl rfl fun _ => rfl⟩

/-- What is left of an order is a 32-bit quantity, so a quantity within it loses
nothing by the conversion. -/
theorem toNat_toUInt32_of_le_rem (h : Tracks 0 getOrderFromMarketMap f) {k : OrderKey}
    (haddr : f.Addressed k) {q : UInt64} (hle : q.toNat ≤ f.exchange.rem k) :
    q.toUInt32.toNat = q.toNat := by
  obtain ⟨slot, _, _, hrem⟩ := h.reached k haddr
  have hlt := (f.manager.orderPool slot).remainingQuantity.toNat_lt
  rw [UInt64.toNat_toUInt32]
  omega

/-- The manager after an add that took a new slot. -/
def afterAdd (om : OrderManager) (m : AddOrder) (order : Order) (mb : MarketBook) : OrderManager :=
  afterFill (om.addMarketOrder m.key).2 om.marketOrderSlot order mb (.addOrder m)

/-- An add under a new key, into a slot no addressed order is in and without
moving one. -/
theorem tracks_add (h : Tracks 0 getOrderFromMarketMap f) {m : AddOrder} {i : SymbolSlot}
    (hnew : m.key ∉ f.exchange.used) (hpos : 0 < m.quantity.toNat)
    (hpending : ¬(f.manager.awaitingAckOrders ≠ ∅ ∧ f.manager.isMatchedPendingOrderBist m = true))
    (hi : f.manager.symbolOf 0 m.orderBookId = some i)
    (hfit : f.exchange.depth (m.level i) + m.quantity.toNat < 2 ^ 32)
    (hnone : f.manager.getOrderFromMarketMap m.key = none)
    (hfree : ∀ k, f.Addressed k →
      f.manager.getOrderFromMarketMap k ≠ some f.manager.marketOrderSlot)
    (hkept : ∀ k, f.Addressed k → (f.manager.addMarketOrder m.key).2.marketOrders.lookup k =
      f.manager.marketOrders.lookup k) :
    ∃ order mb, f.manager.updateOrderBist (.addOrder m) = .ok (afterAdd f.manager m order mb) ∧
      Tracks 0 getOrderFromMarketMap ⟨afterAdd f.manager m order mb,
        f.exchange.place m.key (m.level i) m.quantity.toNat, f.renamed⟩ := by
  have hslots := h.slots f.manager.marketOrderSlot f.manager.marketSlot_lt
  obtain ⟨order, hfill, hfilled⟩ := fillItchAdd_filledAt (f.manager.addMarketOrder m.key).2
    f.manager.marketOrderSlot hi hslots (by omega)
  obtain ⟨mb, hmb, htracks⟩ := tracks_place h hnew hfree hfilled.sits hpos hfilled.quantity
    hfilled.remaining (by omega)
  have hrun : addBist m f.manager.marketOrderSlot (f.manager.addMarketOrder m.key).2 =
      .ok (((f.manager.addMarketOrder m.key).2.setOrder f.manager.marketOrderSlot order).setBook
        mb) := by
    rw [addBist, hfill]
    exact onBook_setOrder hmb
  -- the add takes the branch of a new order
  have hstep : f.manager.updateOrderBist (.addOrder m) = .ok (afterAdd f.manager m order mb) :=
    updateBistAdd_of_new hnone hpending hrun
  exact ⟨order, mb, hstep, htracks _ f.renamed rfl rfl (fun _ h => h)
    (Or.inr (Finmap.lookup_insert _)) hkept⟩

/-- The part of the invariant that only an add changes. -/
theorem sound_of_tracks (hf : Sound f) {om : OrderManager} {x : RestingOrders OrderKey Level}
    (htracks : Tracks 0 getOrderFromMarketMap ⟨om, x, f.renamed⟩) (hused : x.used = f.exchange.used)
    (hmap : om.marketOrders = f.manager.marketOrders)
    (hnext : om.marketNextSlot = f.manager.marketNextSlot)
    (hfull : om.marketMapFull = f.manager.marketMapFull) : Sound ⟨om, x, f.renamed⟩ := by
  refine ⟨htracks, ?_, ?_, ?_, hf.renamed⟩
  · intro k slot hk
    have hk : om.marketOrders.lookup k = some slot := hk
    rw [hmap] at hk
    show k ∈ x.used ∧ slot.val < om.marketNextSlot
    rw [hused, hnext]
    exact hf.known k slot hk
  · show om.marketNextSlot = x.used.card
    rw [hused, hnext]
    exact hf.next
  · show om.marketMapFull = false
    rw [hfull]
    exact hf.notFull

/-- An execution or a delete of a live order. -/
theorem sound_reduce (hf : Sound f) {k : OrderKey} (hlive : f.exchange.Live k) (msg : ItchMessage)
    (fill : Order → Order) (qty : Order → UInt32) {n : ℕ} (hn : n ≤ f.exchange.rem k)
    (hsits : ∀ order l, SitsAt 0 order l → SitsAt 0 (fill order) l)
    (hqty : ∀ order, order.remainingQuantity.toNat = f.exchange.rem k →
      (qty (fill order)).toNat = n ∧
        (n < f.exchange.rem k → (fill order).remainingQuantity.toNat = f.exchange.rem k - n)) :
    ∃ om, f.manager.onBistOrder k msg (fillThenBook fill fun mb order =>
        mb.onSymBook order fun b => b.reduceLevel order (qty order)) = .ok om ∧
      Sound ⟨om, f.exchange.reduce k n, f.renamed⟩ := by
  have haddr : f.Addressed k := ⟨hlive, by rw [hf.renamed]; exact Finset.notMem_empty k⟩
  obtain ⟨slot, mb, hom, htracks⟩ := tracks_fill hf.tracks haddr msg fill qty hn
    (fun order => hsits order _) hqty
  exact ⟨_, hom, sound_of_tracks hf htracks rfl rfl rfl rfl⟩

/-- A key that was never used is not stored. -/
theorem lookup_eq_none {om : OrderManager} {x : RestingOrders OrderKey Level} {k : OrderKey}
    (hknown : ∀ k slot, om.marketOrders.lookup k = some slot → k ∈ x.used) (hnew : k ∉ x.used) :
    om.getOrderFromMarketMap k = none := by
  cases hk : om.getOrderFromMarketMap k with
  | none => rfl
  | some slot => exact absurd (hknown k slot hk) hnew

/-- An add under a new key. -/
theorem sound_add (hf : Sound f) {m : AddOrder} (hok : Consistent f (.addOrder m)) :
    ∃ f', step f (.addOrder m) = .ok f' ∧ Sound f' := by
  obtain ⟨hnew, hpos, hroom, hpending, i, hi, hfit⟩ := hok
  have hnone := lookup_eq_none (fun k slot hk => (hf.known k slot hk).1) hnew
  have hroom' : f.manager.marketNextSlot < 32768 := by
    rw [hf.next]
    exact hroom
  have hval : f.manager.marketOrderSlot.val = f.manager.marketNextSlot :=
    marketSlot_of_room (by omega)
  -- every known slot lies below the counter
  have hfree : ∀ k, f.Addressed k →
      f.manager.getOrderFromMarketMap k ≠ some f.manager.marketOrderSlot := by
    intro k _ hk
    have hlt := (hf.known k _ hk).2
    omega
  have hadd := addMarketOrder_of_room m.key hf.notFull hroom'
  have hresolve : ∀ k, k ≠ m.key → (f.manager.addMarketOrder m.key).2.marketOrders.lookup k =
      f.manager.marketOrders.lookup k := by
    intro k hk
    rw [hadd]
    exact Finmap.lookup_insert_of_ne _ hk
  have hself : (f.manager.addMarketOrder m.key).2.marketOrders.lookup m.key =
      some f.manager.marketOrderSlot := by
    rw [hadd]
    exact Finmap.lookup_insert _
  obtain ⟨order, mb, hstep, htracks⟩ := tracks_add hf.tracks hnew hpos hpending hi hfit hnone hfree
    fun k hk => hresolve k fun hkey => hnew (hkey ▸ hk.1.1)
  have hplace : exchangeStep f.manager f.exchange (.addOrder m) =
      f.exchange.place m.key (m.level i) m.quantity.toNat := by
    simp only [exchangeStep, hi]
  refine ⟨_, step_of_ok hstep, ?_⟩
  rw [hplace]
  refine ⟨htracks, ?_, ?_, ?_, hf.renamed⟩
  · intro k slot hk
    show k ∈ insert m.key f.exchange.used ∧
      slot.val < (f.manager.addMarketOrder m.key).2.marketNextSlot
    have hk : (f.manager.addMarketOrder m.key).2.marketOrders.lookup k = some slot := hk
    have hnext : (f.manager.addMarketOrder m.key).2.marketNextSlot =
        f.manager.marketNextSlot + 1 := by rw [hadd]
    rw [hnext]
    by_cases hkey : k = m.key
    · rw [hkey, hself, Option.some.injEq] at hk
      rw [hkey, ← hk, hval]
      exact ⟨Finset.mem_insert_self _ _, by omega⟩
    · rw [hresolve k hkey] at hk
      obtain ⟨hmem, hlt⟩ := hf.known k slot hk
      exact ⟨Finset.mem_insert_of_mem hmem, by omega⟩
  · show (f.manager.addMarketOrder m.key).2.marketNextSlot = (insert m.key f.exchange.used).card
    rw [Finset.card_insert_of_notMem hnew, hadd, ← hf.next]
  · show (f.manager.addMarketOrder m.key).2.marketMapFull = false
    rw [hadd]
    exact hf.notFull

/-- One message keeps the invariant. -/
theorem sound_step {msg : ItchMessage} (hf : Sound f) (hok : Consistent f msg) :
    ∃ f', step f msg = .ok f' ∧ Sound f' := by
  cases msg with
  | addOrder m => exact sound_add hf hok
  | orderExecuted m =>
    obtain ⟨hlive, _, hle⟩ := hok
    have hnat := toNat_toUInt32_of_le_rem hf.tracks
      ⟨hlive, by rw [hf.renamed]; exact Finset.notMem_empty _⟩ hle
    obtain ⟨om, hom, hsound⟩ := sound_reduce hf hlive (.orderExecuted m)
      (FillerItchBist.fillItchExecReport · m) Order.lastExecQuantity hle
      (fun _ _ h => ⟨⟨h.located.1, h.located.2, h.located.3⟩, h.price, h.market, h.modifiable⟩)
      (fun order hrem => ⟨hnat, fun _ => by
        show (order.remainingQuantity - m.executedQuantity.toUInt32).toNat = _
        rw [UInt32.toNat_sub_of_le _ _ (UInt32.le_iff_toNat_le.mpr (by omega)), hnat, hrem]⟩)
    exact ⟨_, step_of_ok hom, hsound⟩
  | orderDelete m =>
    obtain ⟨om, hom, hsound⟩ := sound_reduce hf hok (.orderDelete m)
      (FillerItchBist.fillItchDelete · m) Order.remainingQuantity le_rfl
      (fun _ _ h => ⟨⟨h.located.1, h.located.2, h.located.3⟩, h.price, h.market, h.modifiable⟩)
      (fun order hrem => ⟨hrem, fun hlt => absurd hlt (lt_irrefl _)⟩)
    exact ⟨_, step_of_ok hom, hsound⟩
  | _ => exact absurd hok (by simp [Consistent])

end Bist

/-! ### NASDAQ -/

namespace Nasdaq

/-- The level of an add whose instrument has the symbol slot `i`. -/
def AddOrder.level (m : AddOrder) (i : SymbolSlot) : Level :=
  (i, treeOfChar m.side, m.price.toInt64)

/-- The level a replace moves an order to; the side is that of the order. -/
def Replace.level (m : Replace) (x : RestingOrders UInt64 Level) (i : SymbolSlot) : Level :=
  (i, (x.level m.orderRef).2.1, m.price.toInt64)

/-- What a message does to the orders of the exchange.  A trade is an execution
against an order that is not displayed. -/
def exchangeStep (om : OrderManager) (x : RestingOrders UInt64 Level) :
    ItchMessage → RestingOrders UInt64 Level
  | .addOrder m | .addOrderMpid m =>
    match om.symbolOf 1 m.stockLocate.toUInt32 with
    | some i => x.place m.orderRef (m.level i) m.shares.toNat
    | none => x
  | .cancel m => x.reduce m.orderRef m.cancelledShares.toNat
  | .executed m => x.reduce m.orderRef m.executedShares.toNat
  | .executedWithPrice m => x.reduce m.orderRef m.executedShares.toNat
  | .delete m => x.remove m.orderRef
  | .replace m =>
    match om.symbolOf 1 m.stockLocate.toUInt32 with
    | some i => (x.remove m.orderRef).place m.newOrderRef (m.level x i) m.shares.toNat
    | none => x
  | _ => x

/-- The reference a message gives to an order that had another one. -/
def renamedBy : ItchMessage → Finset UInt64
  | .replace m => {m.newOrderRef}
  | _ => ∅

/-- One message at the order manager and at the exchange. -/
def step (f : Feed UInt64) (msg : ItchMessage) : Except Fault (Feed UInt64) := do
  let om ← f.manager.updateOrderNasdaq msg
  .ok ⟨om, exchangeStep f.manager f.exchange msg, renamedBy msg ∪ f.renamed⟩

theorem step_of_ok {f : Feed UInt64} {msg : ItchMessage} {om : OrderManager}
    (h : f.manager.updateOrderNasdaq msg = .ok om) :
    step f msg = .ok ⟨om, exchangeStep f.manager f.exchange msg, renamedBy msg ∪ f.renamed⟩ := by
  simp only [step, h, Bind.bind, Except.bind]

/-- An add under a new reference, of a known instrument, with a positive
quantity that fits its level, and that is not taken for an own order. -/
structure AddOk (f : Feed UInt64) (m : AddOrder) : Prop where
  new : m.orderRef ∉ f.exchange.used
  positive : 0 < m.shares.toNat
  fits : ∃ i, f.manager.symbolOf 1 m.stockLocate.toUInt32 = some i ∧
    f.exchange.depth (m.level i) + m.shares.toNat < 2 ^ 32
  market : ¬(f.manager.awaitingAckOrders ≠ ∅ ∧ f.manager.isMatchedPendingOrderNasdaq m = true)

/-- A positive quantity, at most what is left of a live order. -/
def TakesOk (f : Feed UInt64) (ref : UInt64) (n : ℕ) : Prop :=
  f.exchange.Live ref ∧ 0 < n ∧ n ≤ f.exchange.rem ref

/-- A replace of a live order by a new reference of a known instrument. -/
structure ReplaceOk (f : Feed UInt64) (m : Replace) : Prop where
  live : f.exchange.Live m.orderRef
  new : m.newOrderRef ∉ f.exchange.used
  positive : 0 < m.shares.toNat
  fits : ∃ i, f.manager.symbolOf 1 m.stockLocate.toUInt32 = some i ∧
    (f.exchange.remove m.orderRef).depth (m.level f.exchange i) + m.shares.toNat < 2 ^ 32

/-- The invariant of a NASDAQ run.  The keys of the index carry the BIST venue
while the filled orders carry their own, so recycling a slot never erases the
key of a stored order. -/
structure Sound (f : Feed UInt64) : Prop where
  tracks : Tracks 1 nasdaqSlot f
  refs : ∀ ref k, f.manager.nqItchRefnumOrdkey.lookup ref = some k →
    ref ∈ f.exchange.used ∧ k.orderId = ref ∧ k.venue = Venue.bist.code
  next : f.manager.marketNextSlot ≤ 32768
  venue : ∀ slot : OrderSlot, slot.val < f.manager.marketNextSlot ∨
    (f.manager.marketMapFull = true ∧ slot.val < 32768) →
      (f.manager.orderPool slot).venue = .nasdaq
  stored : ∀ k slot, f.manager.marketOrders.lookup k = some slot →
    slot.val < f.manager.marketNextSlot ∨ f.manager.marketMapFull = true
  count : f.manager.marketNextSlot ≤ f.exchange.used.card ∨ f.manager.marketMapFull = true
  countFull : f.manager.marketMapFull = true → 32768 ≤ f.exchange.used.card

/-- The maps and counters of the store are the same. -/
structure SameStore (om om' : OrderManager) : Prop where
  marketOrders : om'.marketOrders = om.marketOrders
  refnums : om'.nqItchRefnumOrdkey = om.nqItchRefnumOrdkey
  next : om'.marketNextSlot = om.marketNextSlot
  full : om'.marketMapFull = om.marketMapFull
  awaiting : om'.awaitingAckOrders = om.awaitingAckOrders

theorem SameStore.trans {om₁ om₂ om₃ : OrderManager} (h : SameStore om₁ om₂)
    (h' : SameStore om₂ om₃) : SameStore om₁ om₃ :=
  ⟨h'.1.trans h.1, h'.2.trans h.2, h'.3.trans h.3, h'.4.trans h.4, h'.5.trans h.5⟩

theorem sameStore_setBook (om : OrderManager) (mb : MarketBook) : SameStore om (om.setBook mb) :=
  ⟨rfl, rfl, rfl, rfl, rfl⟩

theorem sameStore_setOrder (om : OrderManager) (slot : OrderSlot) (order : Order) :
    SameStore om (om.setOrder slot order) :=
  ⟨rfl, rfl, rfl, rfl, rfl⟩

/-- Rewriting an order and the book and telling the other threads of it. -/
theorem sameStore_published (om : OrderManager) (slot : OrderSlot) (order : Order)
    (mb : MarketBook) (d : DbData) :
    SameStore om ((((om.setOrder slot order).setBook mb).publish slot).pushDb d) := by
  have hpublish : ∀ om' : OrderManager, SameStore om' (om'.publish slot) :=
    fun _ => ⟨rfl, rfl, rfl, rfl, rfl⟩
  have hpush : ∀ om' : OrderManager, SameStore om' (om'.pushDb d) :=
    fun _ => ⟨rfl, rfl, rfl, rfl, rfl⟩
  exact (sameStore_setOrder om slot order).trans
    ((sameStore_setBook _ mb).trans ((hpublish _).trans (hpush _)))

theorem SameStore.nasdaqSlot {om om' : OrderManager} (h : SameStore om om') (ref : UInt64) :
    om'.nasdaqSlot ref = om.nasdaqSlot ref := by
  unfold OrderManager.nasdaqSlot getOrderFromMarketMap
  rw [h.refnums, h.marketOrders]

/-- Rewriting a slot by a NASDAQ order keeps the venues of the filled slots. -/
theorem venue_update {pool : OrderSlot → Order} {slot : OrderSlot} {order : Order} {l : Level}
    (hsits : SitsAt 1 order l) (t : OrderSlot) (ht : (pool t).venue = .nasdaq) :
    (Function.update pool slot order t).venue = .nasdaq := by
  by_cases hts : t = slot
  · rw [hts, Function.update_self]
    exact hsits.venue_nasdaq
  · rw [Function.update_of_ne hts]
    exact ht

variable {f : Feed UInt64}

/-- The part of the invariant that only an add changes. -/
theorem sound_of_tracks (hf : Sound f) {om : OrderManager} {x : RestingOrders UInt64 Level}
    {renamed : Finset UInt64} (htracks : Tracks 1 nasdaqSlot ⟨om, x, renamed⟩)
    (hused : f.exchange.used ⊆ x.used) (hstore : SameStore f.manager om)
    (hvenue : ∀ t, (f.manager.orderPool t).venue = .nasdaq → (om.orderPool t).venue = .nasdaq) :
    Sound ⟨om, x, renamed⟩ := by
  -- references are only ever added
  have hcard := Finset.card_le_card hused
  refine ⟨htracks, ?_, ?_, ?_, ?_, ?_, ?_⟩
  · intro ref k hk
    have hk : om.nqItchRefnumOrdkey.lookup ref = some k := hk
    rw [hstore.refnums] at hk
    obtain ⟨hmem, hid, hv⟩ := hf.refs ref k hk
    exact ⟨hused hmem, hid, hv⟩
  · show om.marketNextSlot ≤ 32768
    rw [hstore.next]
    exact hf.next
  · intro t ht
    have ht : t.val < om.marketNextSlot ∨ (om.marketMapFull = true ∧ t.val < 32768) := ht
    rw [hstore.next, hstore.full] at ht
    exact hvenue t (hf.venue t ht)
  · intro k t hk
    have hk : om.marketOrders.lookup k = some t := hk
    rw [hstore.marketOrders] at hk
    show t.val < om.marketNextSlot ∨ om.marketMapFull = true
    rw [hstore.next, hstore.full]
    exact hf.stored k t hk
  · show om.marketNextSlot ≤ x.used.card ∨ om.marketMapFull = true
    rw [hstore.next, hstore.full]
    exact hf.count.imp_left fun h => h.trans hcard
  · intro hfull
    have hfull : om.marketMapFull = true := hfull
    rw [hstore.full] at hfull
    exact (hf.countFull hfull).trans hcard

/-- An execution, a cancellation or a delete of an addressed order. -/
theorem sound_reduce (hf : Sound f) {ref : UInt64} (haddr : f.Addressed ref) (msg : ItchMessage)
    (fill : Order → Order) (qty : Order → UInt32) {n : ℕ} (hn : n ≤ f.exchange.rem ref)
    (hsits : ∀ order, SitsAt 1 order (f.exchange.level ref) →
      SitsAt 1 (fill order) (f.exchange.level ref))
    (hqty : ∀ order, order.remainingQuantity.toNat = f.exchange.rem ref →
      (qty (fill order)).toNat = n ∧
        (n < f.exchange.rem ref → (fill order).remainingQuantity.toNat = f.exchange.rem ref - n)) :
    ∃ om, f.manager.onNasdaqOrder ref msg (fillThenBook fill fun mb order =>
        mb.onSymBook order fun b => b.reduceLevel order (qty order)) = .ok om ∧
      Sound ⟨om, f.exchange.reduce ref n, f.renamed⟩ ∧ SameStore f.manager om := by
  obtain ⟨slot, hslot, hrest, hrem⟩ := hf.tracks.reached ref haddr
  obtain ⟨hq, hleft⟩ := hqty _ hrem
  have hn' : (qty (fill (f.manager.orderPool slot))).toNat ≤ f.exchange.rem ref := by omega
  obtain ⟨mb, hmb, htracks⟩ := tracks_reduce hf.tracks haddr hslot (hsits _ hrest) hn'
    (by rw [hq]; exact hleft)
  rw [hq] at htracks
  have hstore := sameStore_published f.manager slot (fill (f.manager.orderPool slot)) mb
    (.nasdaqItch msg)
  refine ⟨_, onNasdaqOrder_of_found hslot hrest.modifiable (fillThenBook_of_ok hmb), ?_, hstore⟩
  exact sound_of_tracks hf (htracks _ rfl rfl hstore.nasdaqSlot) (fun _ h => h) hstore
    (venue_update (hsits _ hrest))

/-! #### Adds -/

/-- A key with the BIST venue keeps its slot when another key is added: what is
erased is the key of a NASDAQ order. -/
theorem lookup_addMarketOrder_of_ne (hf : Sound f) (k : OrderKey) {k' : OrderKey}
    (hv : k'.venue = Venue.bist.code) (hne : k' ≠ k) :
    (f.manager.addMarketOrder k).2.marketOrders.lookup k' = f.manager.marketOrders.lookup k' := by
  obtain ⟨-, -, hadd⟩ | ⟨hwrap, hadd⟩ := addMarketOrder_cases f.manager k
  · rw [hadd]
    exact Finmap.lookup_insert_of_ne _ hne
  · have hlt := f.manager.marketSlot_lt
    have hslot : (f.manager.orderPool f.manager.marketOrderSlot).venue = .nasdaq := by
      refine hf.venue _ ?_
      rcases hwrap with h | h
      · exact Or.inr ⟨h, hlt⟩
      · exact Or.inl (lt_of_lt_of_le hlt h)
    -- the two venues differ
    have herase : k' ≠ (f.manager.orderPool f.manager.marketOrderSlot).key := by
      intro heq
      rw [heq, Order.key, hslot] at hv
      exact absurd (show Venue.nasdaq.code = Venue.bist.code from hv) (by decide)
    rw [hadd]
    show ((f.manager.marketOrders.erase _).insert k _).lookup k' = _
    rw [Finmap.lookup_insert_of_ne _ hne, Finmap.lookup_erase_ne herase]

/-- A reference that was never used has no key. -/
theorem refnums_eq_none (hf : Sound f) {ref : UInt64} (hnew : ref ∉ f.exchange.used) :
    f.manager.nqItchRefnumOrdkey.lookup ref = none := by
  cases hk : f.manager.nqItchRefnumOrdkey.lookup ref with
  | none => rfl
  | some k => exact absurd (hf.refs _ _ hk).1 hnew

/-- After an add the new reference leads to the slot taken, every other one to
where it led before. -/
theorem nasdaqSlot_addNasdaqOrder (hf : Sound f) {m : AddOrder}
    (hnew : m.orderRef ∉ f.exchange.used) (ref : UInt64) :
    (f.manager.addNasdaqOrder m).nasdaqSlot ref =
      if ref = m.orderRef then some f.manager.marketOrderSlot else f.manager.nasdaqSlot ref := by
  have hrefs : (f.manager.addNasdaqOrder m).nqItchRefnumOrdkey =
      HashMap.emplace f.manager.nqItchRefnumOrdkey m.orderRef (nasdaqKey m) := rfl
  have hmap : ∀ k, (f.manager.addNasdaqOrder m).getOrderFromMarketMap k =
      (f.manager.addMarketOrder (nasdaqKey m)).2.marketOrders.lookup k := fun _ => rfl
  unfold OrderManager.nasdaqSlot
  rw [hrefs]
  by_cases href : ref = m.orderRef
  · rw [if_pos href, href, HashMap.lookup_emplace_self _ (refnums_eq_none hf hnew)]
    show (f.manager.addNasdaqOrder m).getOrderFromMarketMap (nasdaqKey m) = _
    rw [hmap, lookup_addMarketOrder_self]
  · rw [if_neg href, HashMap.lookup_emplace_of_ne _ _ href]
    cases hk : f.manager.nqItchRefnumOrdkey.lookup ref with
    | none => rfl
    | some k =>
      -- the key found carries its own reference, so it is not the one added
      obtain ⟨-, hid, hv⟩ := hf.refs ref k hk
      have hne : k ≠ nasdaqKey m := by
        intro heq
        rw [heq] at hid
        exact href hid.symm
      show (f.manager.addNasdaqOrder m).getOrderFromMarketMap k = _
      rw [hmap, lookup_addMarketOrder_of_ne hf _ hv hne]
      rfl

/-- The references after an add: those before it and the new one, under its key. -/
theorem refs_add (hf : Sound f) {m : AddOrder} (hnew : m.orderRef ∉ f.exchange.used) {ref : UInt64}
    {k : OrderKey} (hk : (HashMap.emplace f.manager.nqItchRefnumOrdkey m.orderRef
      (nasdaqKey m)).lookup ref = some k) :
    ref ∈ insert m.orderRef f.exchange.used ∧ k.orderId = ref ∧ k.venue = Venue.bist.code := by
  by_cases href : ref = m.orderRef
  · rw [href, HashMap.lookup_emplace_self _ (refnums_eq_none hf hnew), Option.some.injEq] at hk
    rw [href, ← hk]
    exact ⟨Finset.mem_insert_self _ _, rfl, rfl⟩
  · rw [HashMap.lookup_emplace_of_ne _ _ href] at hk
    obtain ⟨hmem, hrest⟩ := hf.refs ref k hk
    exact ⟨Finset.mem_insert_of_mem hmem, hrest⟩

/-- Every stored key leads to a slot in use. -/
theorem stored_add (hf : Sound f) (k : OrderKey) {k' : OrderKey} {t : OrderSlot}
    (hk : (f.manager.addMarketOrder k).2.marketOrders.lookup k' = some t) :
    t.val < (f.manager.addMarketOrder k).2.marketNextSlot ∨
      (f.manager.addMarketOrder k).2.marketMapFull = true := by
  obtain ⟨-, hroom, hadd⟩ | ⟨-, hadd⟩ := addMarketOrder_cases f.manager k
  · by_cases hkey : k' = k
    · rw [hkey, lookup_addMarketOrder_self, Option.some.injEq] at hk
      rw [← hk, hadd]
      refine Or.inl ?_
      show f.manager.marketSlot < f.manager.marketNextSlot + 1
      rw [marketSlot_of_room hroom]
      exact Nat.lt_succ_self _
    · rw [hadd]
      exact (hf.stored k' t (lookup_of_lookup_addMarketOrder hkey hk)).imp_left
        fun h => Nat.lt_succ_of_lt h
  · rw [hadd]
    exact Or.inr rfl

/-- One more reference for one more slot: the counter wraps only after as many
references as there are market slots. -/
theorem count_add (hf : Sound f) (k : OrderKey) :
    ((f.manager.addMarketOrder k).2.marketNextSlot ≤ f.exchange.used.card + 1 ∨
        (f.manager.addMarketOrder k).2.marketMapFull = true) ∧
      ((f.manager.addMarketOrder k).2.marketMapFull = true →
        32768 ≤ f.exchange.used.card + 1) := by
  obtain ⟨hfull, -, hadd⟩ | ⟨hwrap, hadd⟩ := addMarketOrder_cases f.manager k
  · rw [hadd]
    refine ⟨hf.count.imp_left Nat.succ_le_succ, ?_⟩
    intro h
    exact absurd (hfull.symm.trans h) (by simp)
  · rw [hadd]
    refine ⟨Or.inr rfl, fun _ => ?_⟩
    by_cases hfull : f.manager.marketMapFull = true
    · have := hf.countFull hfull
      omega
    · have hle := hf.count.resolve_right hfull
      have hnext := hwrap.resolve_left hfull
      omega

/-- An add under a new reference, into a slot no addressed order is in. -/
theorem sound_add (hf : Sound f) {m : AddOrder} (stored : ItchMessage) (hok : AddOk f m)
    (hfree : ∀ ref, f.Addressed ref → f.manager.nasdaqSlot ref ≠ some f.manager.marketOrderSlot)
    (fill : OrderManager → OrderSlot → AddOrder → OrderManager)
    (hfill : ∀ (om : OrderManager) slot i, om.symbolOf 1 m.stockLocate.toUInt32 = some i →
      (om.orderPool slot).isOurOrder = false ∧ (om.orderPool slot).canModify ≠ 0 →
        ∃ order, fill om slot m = om.setOrder slot order ∧
          FilledAt 1 order (m.level i) m.shares.toNat) :
    ∃ om i, f.manager.symbolOf 1 m.stockLocate.toUInt32 = some i ∧
      f.manager.updateNasdaqAdd m stored fill = .ok om ∧
      Sound ⟨om, f.exchange.place m.orderRef (m.level i) m.shares.toNat, f.renamed⟩ ∧
      SameStore (f.manager.addNasdaqOrder m) om := by
  obtain ⟨i, hi, hfit⟩ := hok.fits
  have hlt := f.manager.marketSlot_lt
  obtain ⟨order, horder, hfilled⟩ := hfill (f.manager.addNasdaqOrder m) f.manager.marketOrderSlot i
    hi (hf.tracks.slots _ hlt)
  obtain ⟨mb, hmb, htracks⟩ := tracks_place hf.tracks hok.new hfree hfilled.sits hok.positive
    hfilled.quantity hfilled.remaining hfit
  have hrun : (fill (f.manager.addNasdaqOrder m) f.manager.marketOrderSlot m).onBook
      f.manager.marketOrderSlot MarketBook.addOrder =
      .ok (((f.manager.addNasdaqOrder m).setOrder f.manager.marketOrderSlot order).setBook mb) := by
    rw [horder]
    exact onBook_setOrder hmb
  refine ⟨_, i, hi, updateNasdaqAdd_of_new hok.market hrun, ?_, ⟨rfl, rfl, rfl, rfl, rfl⟩⟩
  have hcard : (insert m.orderRef f.exchange.used).card = f.exchange.used.card + 1 :=
    Finset.card_insert_of_notMem hok.new
  obtain ⟨hcount, hcountFull⟩ := count_add hf (nasdaqKey m)
  rw [← hcard] at hcount hcountFull
  refine ⟨?_, fun ref k hk => refs_add hf hok.new hk, hlt, ?_,
    fun k t hk => stored_add hf (nasdaqKey m) hk, hcount, hcountFull⟩
  · refine htracks _ f.renamed rfl rfl (fun _ h => h) (Or.inr ?_) fun ref href => ?_
    · exact (nasdaqSlot_addNasdaqOrder hf hok.new m.orderRef).trans (if_pos rfl)
    · refine (nasdaqSlot_addNasdaqOrder hf hok.new ref).trans (if_neg ?_)
      intro heq
      exact hok.new (heq ▸ href.1.1)
  · -- the slot taken now holds a NASDAQ order, every other slot in use did before
    intro t ht
    show (Function.update f.manager.orderPool f.manager.marketOrderSlot order t).venue = .nasdaq
    by_cases hts : t = f.manager.marketOrderSlot
    · rw [hts, Function.update_self]
      exact hfilled.sits.venue_nasdaq
    · rw [Function.update_of_ne hts]
      exact hf.venue t (inUse_of_addMarketOrder (nasdaqKey m) hts ht)

theorem fillItchAdd_filledAt {m : AddOrder} (om : OrderManager) (slot : OrderSlot) (i : SymbolSlot)
    (hi : om.symbolOf 1 m.stockLocate.toUInt32 = some i)
    (hslot : (om.orderPool slot).isOurOrder = false ∧ (om.orderPool slot).canModify ≠ 0) :
    ∃ order, FillerItchNasdaq.fillItchAdd om slot m = om.setOrder slot order ∧
      FilledAt 1 order (m.level i) m.shares.toNat := by
  obtain ⟨symbol, index, hindex, hfill⟩ := fillWithSymbol_of_symbolOf hi
  refine ⟨_, hfill slot _ _ rfl, ?_⟩
  exact ⟨⟨⟨rfl, hindex, index_sideOfChar m.side⟩, rfl, hslot.1, hslot.2⟩, rfl, rfl⟩

theorem fillItchAddMpid_filledAt {m : AddOrder} (om : OrderManager) (slot : OrderSlot)
    (i : SymbolSlot) (hi : om.symbolOf 1 m.stockLocate.toUInt32 = some i)
    (hslot : (om.orderPool slot).isOurOrder = false ∧ (om.orderPool slot).canModify ≠ 0) :
    ∃ order, FillerItchNasdaq.fillItchAddMpid om slot m = om.setOrder slot order ∧
      FilledAt 1 order (m.level i) m.shares.toNat := by
  obtain ⟨symbol, index, hindex, hfill⟩ := fillWithSymbol_of_symbolOf hi
  refine ⟨_, hfill slot _ _ rfl, ?_⟩
  exact ⟨⟨⟨rfl, hindex, index_sideOfChar m.side⟩, rfl, hslot.1, hslot.2⟩, rfl, rfl⟩

/-! #### Replaces -/

/-- `fill_itch_replace` puts the order at the level of the message, on the side
it had. -/
theorem fillItchReplace_filledAt {m : Replace} (om : OrderManager) {slot : OrderSlot}
    {i : SymbolSlot} {l : Level} (hi : om.symbolOf 1 m.stockLocate.toUInt32 = some i)
    (hsits : SitsAt 1 (om.orderPool slot) l) :
    ∃ order, FillerItchNasdaq.fillItchReplace om slot m = om.setOrder slot order ∧
      FilledAt 1 order (i, l.2.1, m.price.toInt64) m.shares.toNat := by
  obtain ⟨symbol, index, hindex, hfill⟩ := fillWithSymbol_of_symbolOf hi
  refine ⟨_, hfill slot _ _ rfl, ?_⟩
  exact ⟨⟨⟨rfl, hindex, hsits.located.side⟩, rfl, hsits.market, hsits.modifiable⟩, rfl, rfl⟩

/-- A replace of an addressed order: the old quantity leaves its level, the new
one is added to the new level; the new reference is not entered anywhere. -/
theorem sound_replace (hf : Sound f) {m : Replace} (hok : ReplaceOk f m)
    (horig : m.orderRef ∉ f.renamed) :
    ∃ om i, f.manager.symbolOf 1 m.stockLocate.toUInt32 = some i ∧
      f.manager.updateOrderNasdaq (.replace m) = .ok om ∧
      Sound ⟨om, (f.exchange.remove m.orderRef).place m.newOrderRef (m.level f.exchange i)
        m.shares.toNat, {m.newOrderRef} ∪ f.renamed⟩ ∧ SameStore f.manager om := by
  have haddr : f.Addressed m.orderRef := ⟨hok.live, horig⟩
  obtain ⟨i, hi, hfit⟩ := hok.fits
  obtain ⟨slot, hslot, hrest, hrem⟩ := hf.tracks.reached _ haddr
  have hself : f.manager.orderPool =
      Function.update f.manager.orderPool slot (f.manager.orderPool slot) :=
    (Function.update_eq_self _ _).symm
  -- first the book loses what was left of the order
  obtain ⟨mb₁, hmb₁, htracks₁⟩ := tracks_reduce hf.tracks haddr hslot hrest (le_of_eq hrem)
    (fun h => absurd h (by omega))
  have h₁ : Tracks 1 nasdaqSlot
      ⟨f.manager.setBook mb₁, f.exchange.remove m.orderRef, f.renamed⟩ := by
    have h := htracks₁ (f.manager.setBook mb₁) hself rfl fun _ => rfl
    rwa [hrem] at h
  have hfree : ∀ ref, Feed.Addressed
      ⟨f.manager.setBook mb₁, f.exchange.remove m.orderRef, f.renamed⟩ ref →
        (f.manager.setBook mb₁).nasdaqSlot ref ≠ some slot := by
    intro ref href hto
    -- only the replaced order was in the slot, and nothing is left of it
    have hsame : ref = m.orderRef := hf.tracks.distinct ref m.orderRef slot
      ⟨RestingOrders.live_of_live_reduce href.1, href.2⟩ haddr hto hslot
    have hpos : 0 < Function.update f.exchange.rem m.orderRef
        (f.exchange.rem m.orderRef - f.exchange.rem m.orderRef) ref := href.1.2
    rw [hsame, Function.update_self] at hpos
    omega
  -- then the order is rewritten in its slot and added again
  obtain ⟨order, horder, hfilled⟩ := fillItchReplace_filledAt (f.manager.setBook mb₁) hi hrest
  obtain ⟨mb₂, hmb₂, htracks₂⟩ := tracks_place h₁ hok.new hfree hfilled.sits hok.positive
    hfilled.quantity hfilled.remaining hfit
  have hbook₁ : f.manager.onBook slot MarketBook.deleteOrder = .ok (f.manager.setBook mb₁) := by
    have hdelete : f.manager.marketbook.deleteOrder (f.manager.orderPool slot) = .ok mb₁ := hmb₁
    simp only [onBook, hdelete, Bind.bind, Except.bind]
  have hrun : replaceNasdaq m slot f.manager =
      .ok (((f.manager.setBook mb₁).setOrder slot order).setBook mb₂) := by
    rw [replaceNasdaq, hbook₁]
    show (FillerItchNasdaq.fillItchReplace (f.manager.setBook mb₁) slot m).onBook slot
      MarketBook.addOrder = _
    rw [horder]
    exact onBook_setOrder hmb₂
  have hstore : SameStore f.manager
      (((((f.manager.setBook mb₁).setOrder slot order).setBook mb₂).publish slot).pushDb
        (.nasdaqItch (.replace m))) :=
    (sameStore_setBook f.manager mb₁).trans (sameStore_published _ slot order mb₂ _)
  refine ⟨_, i, hi, onNasdaqOrder_of_found hslot hrest.modifiable hrun, ?_, hstore⟩
  refine sound_of_tracks hf ?_ (Finset.subset_insert _ _) hstore (venue_update hfilled.sits)
  exact htracks₂ _ _ rfl rfl Finset.subset_union_right
    (Or.inl (Finset.mem_union_left _ (Finset.mem_singleton_self _)))
    fun ref _ => (hstore.nasdaqSlot ref).trans
      ((sameStore_setBook f.manager mb₁).nasdaqSlot ref).symm

/-! #### Messages that are not about orders -/

/-- Orders, store and book are the same. -/
structure SameMarket (om om' : OrderManager) : Prop where
  store : SameStore om om'
  orderPool : om'.orderPool = om.orderPool
  marketbook : om'.marketbook = om.marketbook

theorem SameMarket.refl (om : OrderManager) : SameMarket om om :=
  ⟨⟨rfl, rfl, rfl, rfl, rfl⟩, rfl, rfl⟩

theorem SameMarket.trans {om₁ om₂ om₃ : OrderManager} (h : SameMarket om₁ om₂)
    (h' : SameMarket om₂ om₃) : SameMarket om₁ om₃ :=
  ⟨h.store.trans h'.store, h'.2.trans h.2, h'.3.trans h.3⟩

theorem sameMarket_tickSize {om om' : OrderManager} {instrumentId : UInt32} {entry : TickSizeEntry}
    (h : om.handleTickSizeDefinitionNasdaq instrumentId entry = .ok om') : SameMarket om om' := by
  unfold handleTickSizeDefinitionNasdaq at h
  split at h
  · simp only at h
    split at h
    · exact absurd h (by simp)
    · split at h
      all_goals
        rw [Except.ok.injEq] at h
        rw [← h]
        exact ⟨⟨rfl, rfl, rfl, rfl, rfl⟩, rfl, rfl⟩
  · exact absurd h (by simp)

theorem sameMarket_tickSizes {om om' : OrderManager} {instrumentId : UInt32}
    {entries : List TickSizeEntry} (h : entries.foldlM
      (fun om entry => om.handleTickSizeDefinitionNasdaq instrumentId entry) om = .ok om') :
    SameMarket om om' := by
  induction entries generalizing om with
  | nil =>
    have h : (Except.ok om : Except Fault OrderManager) = .ok om' := h
    rw [Except.ok.injEq] at h
    rw [h]
    exact .refl om'
  | cons entry entries ih =>
    rw [List.foldlM_cons] at h
    obtain ⟨om₁, h₁, h₂⟩ := bind_eq_ok_iff.mp h
    exact (sameMarket_tickSize h₁).trans (ih h₂)

/-- The messages that carry no order reference. -/
def Housekeeping : ItchMessage → Prop
  | .systemEvent _ | .stockDirectory _ | .tradingState _ => True
  | _ => False

theorem sameMarket_housekeeping {om om' : OrderManager} (msg : ItchMessage)
    (hm : Housekeeping msg) (h : om.updateOrderNasdaq msg = .ok om') : SameMarket om om' := by
  cases msg with
  | systemEvent m =>
    simp only [updateOrderNasdaq] at h
    split at h
    · rw [Except.ok.injEq] at h
      rw [← h]
      exact ⟨⟨rfl, rfl, rfl, rfl, rfl⟩, rfl, rfl⟩
    · exact absurd h (by simp)
  | stockDirectory m =>
    obtain ⟨om₁, h₁, h₂⟩ := bind_eq_ok_iff.mp h
    rw [Except.ok.injEq] at h₂
    have hsame := sameMarket_tickSizes h₁
    rw [← h₂]
    exact ⟨⟨hsame.store.1, hsame.store.2, hsame.store.3, hsame.store.4, hsame.store.5⟩, hsame.2,
      hsame.3⟩
  | tradingState m =>
    obtain ⟨om₁, h₁, h₂⟩ := bind_eq_ok_iff.mp h
    rw [Except.ok.injEq] at h₂
    unfold updateSymbolHaltStatus at h₁
    split at h₁
    · exact absurd h₁ (by simp)
    · rw [Except.ok.injEq] at h₁
      rw [← h₂, ← h₁]
      exact ⟨⟨rfl, rfl, rfl, rfl, rfl⟩, rfl, rfl⟩
  | _ => exact absurd hm (by simp [Housekeeping])

/-- A message that leaves orders, store and book alone keeps the invariant. -/
theorem sound_same (hf : Sound f) {om : OrderManager} (h : SameMarket f.manager om) :
    Sound ⟨om, f.exchange, f.renamed⟩ := by
  have htracks := tracks_same hf.tracks h.orderPool h.marketbook h.store.nasdaqSlot
  refine sound_of_tracks hf htracks (fun _ h => h) h.store fun t ht => ?_
  rw [h.orderPool]
  exact ht

/-! #### Whole runs -/

/-- What the exchange may send.  An execution with price trades at the price of
the order; a trade names no displayed order; the handlers of the remaining
messages return. -/
def Consistent (f : Feed UInt64) (msg : ItchMessage) : Prop :=
  match msg with
  | .addOrder m | .addOrderMpid m => AddOk f m
  | .cancel m => TakesOk f m.orderRef m.cancelledShares.toNat
  | .executed m => TakesOk f m.orderRef m.executedShares.toNat
  | .executedWithPrice m => TakesOk f m.orderRef m.executedShares.toNat ∧
      m.executionPrice.toInt64 = (f.exchange.level m.orderRef).2.2
  | .delete m => f.exchange.Live m.orderRef
  | .replace m => ReplaceOk f m
  | .trade m => m.orderRef ∉ f.exchange.used
  | .systemEvent _ | .stockDirectory _ | .tradingState _ =>
    ∃ om, f.manager.updateOrderNasdaq msg = .ok om

/-- The order a message is about was not renamed by a replace, and an add does
not take the slot of an order that rests under its own reference. -/
def Addressable (f : Feed UInt64) : ItchMessage → Prop
  | .addOrder _ | .addOrderMpid _ =>
    ∀ ref, f.Addressed ref → f.manager.nasdaqSlot ref ≠ some f.manager.marketOrderSlot
  | .cancel m => m.orderRef ∉ f.renamed
  | .executed m => m.orderRef ∉ f.renamed
  | .executedWithPrice m => m.orderRef ∉ f.renamed
  | .delete m => m.orderRef ∉ f.renamed
  | .replace m => m.orderRef ∉ f.renamed
  | _ => True

/-- One message keeps the invariant. -/
theorem sound_step {msg : ItchMessage} (hf : Sound f) (hok : Consistent f msg ∧ Addressable f msg) :
    ∃ f', step f msg = .ok f' ∧ Sound f' := by
  obtain ⟨hcons, haddr⟩ := hok
  -- only a replace renames an order
  have hnotrenamed : ∀ g : Feed UInt64, Sound g → Sound ⟨g.manager, g.exchange, ∅ ∪ g.renamed⟩ := by
    intro g hg
    rw [Finset.empty_union]
    exact hg
  cases msg with
  | addOrder m =>
    obtain ⟨om, i, hi, hom, hsound, -⟩ := sound_add hf (.addOrder m) hcons haddr
      FillerItchNasdaq.fillItchAdd fillItchAdd_filledAt
    have hplace : exchangeStep f.manager f.exchange (.addOrder m) =
        f.exchange.place m.orderRef (m.level i) m.shares.toNat := by
      simp only [exchangeStep, hi]
    refine ⟨_, step_of_ok hom, ?_⟩
    rw [hplace]
    exact hnotrenamed _ hsound
  | addOrderMpid m =>
    obtain ⟨om, i, hi, hom, hsound, -⟩ := sound_add hf (.addOrderMpid m) hcons haddr
      FillerItchNasdaq.fillItchAddMpid fillItchAddMpid_filledAt
    have hplace : exchangeStep f.manager f.exchange (.addOrderMpid m) =
        f.exchange.place m.orderRef (m.level i) m.shares.toNat := by
      simp only [exchangeStep, hi]
    refine ⟨_, step_of_ok hom, ?_⟩
    rw [hplace]
    exact hnotrenamed _ hsound
  | cancel m =>
    obtain ⟨hlive, _, hle⟩ := hcons
    obtain ⟨om, hom, hsound, -⟩ := sound_reduce hf ⟨hlive, haddr⟩ (.cancel m)
      (FillerItchNasdaq.fillItchCancel · m) (fun order => order.replacedQuantity.toUInt32) hle
      (fun _ h => ⟨⟨h.located.1, h.located.2, h.located.3⟩, h.price, h.market, h.modifiable⟩)
      (fun order hrem => ⟨by simp [FillerItchNasdaq.fillItchCancel], fun _ => by
        show (order.remainingQuantity - m.cancelledShares).toNat = _
        rw [UInt32.toNat_sub_of_le _ _ (UInt32.le_iff_toNat_le.mpr (by omega)), hrem]⟩)
    exact ⟨_, step_of_ok hom, hnotrenamed _ hsound⟩
  | executed m =>
    obtain ⟨hlive, _, hle⟩ := hcons
    obtain ⟨om, hom, hsound, -⟩ := sound_reduce hf ⟨hlive, haddr⟩ (.executed m)
      (FillerItchNasdaq.fillItchExecReport · m) Order.lastExecQuantity hle
      (fun _ h => ⟨⟨h.located.1, h.located.2, h.located.3⟩, h.price, h.market, h.modifiable⟩)
      (fun order hrem => ⟨rfl, fun _ => by
        show (order.remainingQuantity - m.executedShares).toNat = _
        rw [UInt32.toNat_sub_of_le _ _ (UInt32.le_iff_toNat_le.mpr (by omega)), hrem]⟩)
    exact ⟨_, step_of_ok hom, hnotrenamed _ hsound⟩
  | executedWithPrice m =>
    obtain ⟨⟨hlive, _, hle⟩, hprice⟩ := hcons
    obtain ⟨om, hom, hsound, -⟩ := sound_reduce hf ⟨hlive, haddr⟩ (.executedWithPrice m)
      (FillerItchNasdaq.fillItchExecReportWithPrice · m) Order.lastExecQuantity hle
      (fun _ h => ⟨⟨h.located.1, h.located.2, h.located.3⟩, hprice, h.market, h.modifiable⟩)
      (fun order hrem => ⟨rfl, fun _ => by
        show (order.remainingQuantity - m.executedShares).toNat = _
        rw [UInt32.toNat_sub_of_le _ _ (UInt32.le_iff_toNat_le.mpr (by omega)), hrem]⟩)
    exact ⟨_, step_of_ok hom, hnotrenamed _ hsound⟩
  | delete m =>
    -- what is taken away is all that is left
    obtain ⟨om, hom, hsound, -⟩ := sound_reduce hf ⟨hcons, haddr⟩ (.delete m)
      (FillerItchNasdaq.fillItchDelete · m) Order.remainingQuantity le_rfl
      (fun _ h => ⟨⟨h.located.1, h.located.2, h.located.3⟩, h.price, h.market, h.modifiable⟩)
      (fun order hrem => ⟨hrem, fun hlt => absurd hlt (lt_irrefl _)⟩)
    exact ⟨_, step_of_ok hom, hnotrenamed _ hsound⟩
  | replace m =>
    obtain ⟨om, i, hi, hom, hsound, -⟩ := sound_replace hf hcons haddr
    have hplace : exchangeStep f.manager f.exchange (.replace m) =
        (f.exchange.remove m.orderRef).place m.newOrderRef (m.level f.exchange i)
          m.shares.toNat := by
      simp only [exchangeStep, hi]
    refine ⟨_, step_of_ok hom, ?_⟩
    rw [hplace]
    exact hsound
  | trade m =>
    -- no displayed order has the reference of a trade
    have hom : f.manager.updateOrderNasdaq (.trade m) = .ok f.manager := by
      simp only [updateOrderNasdaq, onNasdaqOrder, OrderManager.nasdaqSlot,
        refnums_eq_none hf hcons]
    exact ⟨_, step_of_ok hom, hnotrenamed _ hf⟩
  | systemEvent m =>
    obtain ⟨om, hom⟩ := hcons
    have hsame := sameMarket_housekeeping (.systemEvent m) trivial hom
    exact ⟨_, step_of_ok hom, hnotrenamed _ (sound_same hf hsame)⟩
  | stockDirectory m =>
    obtain ⟨om, hom⟩ := hcons
    have hsame := sameMarket_housekeeping (.stockDirectory m) trivial hom
    exact ⟨_, step_of_ok hom, hnotrenamed _ (sound_same hf hsame)⟩
  | tradingState m =>
    obtain ⟨om, hom⟩ := hcons
    have hsame := sameMarket_housekeeping (.tradingState m) trivial hom
    exact ⟨_, step_of_ok hom, hnotrenamed _ (sound_same hf hsame)⟩

end Nasdaq

/-! ### Runs from a fresh market -/

/-- No market order has been taken and the books of the venue are empty. -/
structure FreshMarket (om : OrderManager) (v : VenueIndex) : Prop where
  marketOrders : om.marketOrders = ∅
  refnums : om.nqItchRefnumOrdkey = ∅
  next : om.marketNextSlot = 0
  notFull : om.marketMapFull = false
  book : ∀ i s p, om.marketbook.level v i s p = none
  slots : ∀ slot : OrderSlot, slot.val < 32768 →
    (om.orderPool slot).isOurOrder = false ∧ (om.orderPool slot).canModify ≠ 0

/-- The feed before the first message. -/
def Feed.start {ι : Type} (om : OrderManager) : Feed ι := ⟨om, .empty (0, 0, 0), ∅⟩

theorem tracks_start {ι : Type} [DecidableEq ι] {om : OrderManager} {v : VenueIndex}
    (resolve : OrderManager → ι → Option OrderSlot) (h : FreshMarket om v) :
    Tracks v resolve (Feed.start om) := by
  have hnobody : ∀ id : ι, ¬(Feed.start om).Addressed id := by
    intro id hid
    exact absurd hid.1.1 (Finset.notMem_empty id)
  refine ⟨?_, ?_, ?_, h.slots⟩
  · intro l
    show ShowsDepth (om.marketbook.level v l.1 l.2.1 l.2.2) 0
    rw [h.book]
    exact ⟨by simp, fun q hq => absurd hq (by simp)⟩
  · intro id hid
    exact absurd hid (hnobody id)
  · intro id id' slot hid
    exact absurd hid (hnobody id)

theorem Bist.sound_start {om : OrderManager} (h : FreshMarket om 0) :
    Bist.Sound (Feed.start om) := by
  refine ⟨tracks_start _ h, ?_, h.next, h.notFull, rfl⟩
  intro k slot hk
  have hk : om.marketOrders.lookup k = some slot := hk
  rw [h.marketOrders] at hk
  exact absurd hk (by simp)

theorem Nasdaq.sound_start {om : OrderManager} (h : FreshMarket om 1) :
    Nasdaq.Sound (Feed.start om) := by
  have hnext : (Feed.start om : Feed UInt64).manager.marketNextSlot = 0 := h.next
  have hfull : (Feed.start om : Feed UInt64).manager.marketMapFull = false := h.notFull
  refine ⟨tracks_start _ h, ?_, ?_, ?_, ?_, ?_, ?_⟩
  · intro ref k hk
    have hk : om.nqItchRefnumOrdkey.lookup ref = some k := hk
    rw [h.refnums] at hk
    exact absurd hk (by simp)
  · rw [hnext]
    omega
  · intro slot hslot
    rw [hnext, hfull] at hslot
    exact absurd hslot (by simp)
  · intro k slot hk
    have hk : om.marketOrders.lookup k = some slot := hk
    rw [h.marketOrders] at hk
    exact absurd hk (by simp)
  · rw [hnext]
    exact Or.inl (Nat.zero_le _)
  · intro hf
    rw [hfull] at hf
    exact absurd hf (by simp)

/-- What the exchange may send in a NASDAQ run without replaces and with at most
32768 adds. -/
def Nasdaq.PlainConsistent (f : Feed UInt64) (msg : Nasdaq.ItchMessage) : Prop :=
  match msg with
  | .addOrder _ | .addOrderMpid _ => Nasdaq.Consistent f msg ∧ f.exchange.used.card < 32768
  | .cancel _ | .executed _ | .delete _ => Nasdaq.Consistent f msg
  | _ => False

/-- While fewer than 32768 orders have been added the next slot was never
used. -/
theorem Nasdaq.slot_free {f : Feed UInt64} (hf : Nasdaq.Sound f)
    (hroom : f.exchange.used.card < 32768) (ref : UInt64) :
    f.manager.nasdaqSlot ref ≠ some f.manager.marketOrderSlot := by
  have hfull : f.manager.marketMapFull ≠ true := by
    intro h
    have := hf.countFull h
    omega
  have hnext := hf.count.resolve_right hfull
  have hval : f.manager.marketOrderSlot.val = f.manager.marketNextSlot :=
    marketSlot_of_room (by omega)
  intro hto
  unfold OrderManager.nasdaqSlot at hto
  split at hto
  · exact absurd hto (by simp)
  · have hlt := (hf.stored _ _ hto).resolve_right hfull
    omega

/-- One message of a run without replaces. -/
theorem Nasdaq.plain_step {f : Feed UInt64} {msg : Nasdaq.ItchMessage}
    (hf : Nasdaq.Sound f ∧ f.renamed = ∅) (hok : Nasdaq.PlainConsistent f msg) :
    ∃ f', Nasdaq.step f msg = .ok f' ∧ Nasdaq.Sound f' ∧ f'.renamed = ∅ := by
  obtain ⟨hsound, hren⟩ := hf
  have hcond : (Nasdaq.Consistent f msg ∧ Nasdaq.Addressable f msg) ∧ Nasdaq.renamedBy msg = ∅ := by
    cases msg with
    | addOrder m => exact ⟨⟨hok.1, fun ref _ => Nasdaq.slot_free hsound hok.2 ref⟩, rfl⟩
    | addOrderMpid m => exact ⟨⟨hok.1, fun ref _ => Nasdaq.slot_free hsound hok.2 ref⟩, rfl⟩
    | cancel m => exact ⟨⟨hok, by rw [Nasdaq.Addressable, hren]; exact Finset.notMem_empty _⟩, rfl⟩
    | executed m =>
      exact ⟨⟨hok, by rw [Nasdaq.Addressable, hren]; exact Finset.notMem_empty _⟩, rfl⟩
    | delete m => exact ⟨⟨hok, by rw [Nasdaq.Addressable, hren]; exact Finset.notMem_empty _⟩, rfl⟩
    | _ => exact absurd hok (by simp [Nasdaq.PlainConsistent])
  obtain ⟨f', hf', hsound'⟩ := Nasdaq.sound_step hsound hcond.1
  refine ⟨f', hf', hsound', ?_⟩
  obtain ⟨om, -, hom⟩ := bind_eq_ok_iff.mp hf'
  rw [Except.ok.injEq] at hom
  rw [← hom, hcond.2, hren]
  rfl

/-- **Market depth is the sum of the resting orders.**  In every state of every
exchange-consistent run from a fresh market, with at most 32768 adds, the entry
of each symbol, side and price exists iff quantity rests there and then is
exactly that quantity: for BIST adds, executions and deletes, and for NASDAQ
adds with and without MPID, executions, cancellations and deletes. -/
theorem depth_eq_restingOrders (om : OrderManager) :
    (FreshMarket om 0 → ∀ msgs : List Bist.ItchMessage,
      Along Bist.step Bist.Consistent (Feed.start om) msgs → ∀ n,
        ∃ f, exec Bist.step (Feed.start om) (msgs.take n) = .ok f ∧
          ∀ i s p, ShowsDepth (f.manager.marketbook.level 0 i s p) (f.exchange.depth (i, s, p))) ∧
    (FreshMarket om 1 → ∀ msgs : List Nasdaq.ItchMessage,
      Along Nasdaq.step Nasdaq.PlainConsistent (Feed.start om) msgs → ∀ n,
        ∃ f, exec Nasdaq.step (Feed.start om) (msgs.take n) = .ok f ∧
          ∀ i s p, ShowsDepth (f.manager.marketbook.level 1 i s p)
            (f.exchange.depth (i, s, p))) := by
  refine ⟨fun hfresh msgs h n => ?_, fun hfresh msgs h n => ?_⟩
  · rw [← List.take_append_drop n msgs] at h
    obtain ⟨f, hf, hsound⟩ := exec_of_along (fun _ _ => Bist.sound_step) (Bist.sound_start hfresh)
      (along_append h)
    exact ⟨f, hf, fun i s p => hsound.tracks.depth (i, s, p)⟩
  · rw [← List.take_append_drop n msgs] at h
    obtain ⟨f, hf, hsound, -⟩ := exec_of_along (fun _ _ => Nasdaq.plain_step)
      ⟨Nasdaq.sound_start hfresh, rfl⟩ (along_append h)
    exact ⟨f, hf, fun i s p => hsound.tracks.depth (i, s, p)⟩

/-! #### One instrument on each venue -/

/-- A fresh manager that knows one instrument on each venue. -/
def oneStock : OrderManager :=
  { instrumentCache := fun _ =>
      (∅ : HashMap UInt32 SymbolMeta).insert 7 { instrumentId := 7, symbol := [65] }
    hashtables := { hashtables := fun _ => (∅ : HashMap (List UInt8) UInt32).insert [65] 0 } }

theorem oneStock_fresh (v : VenueIndex) : FreshMarket oneStock v := by
  refine ⟨rfl, rfl, rfl, rfl, fun _ _ _ => rfl, fun _ _ => ⟨rfl, ?_⟩⟩
  show strategyDone ||| riskDone ||| builderDone ≠ 0
  decide

/-- A BIST bid of 5 at 100. -/
def bistBid : Bist.AddOrder :=
  { orderId := 1, quantity := 5, orderBookId := 7, price := 100, side := charB }

/-- A NASDAQ bid of 5 at 100. -/
def nasdaqBid : Nasdaq.AddOrder :=
  { orderRef := 1, shares := 5, price := 100, stockLocate := 7, side := charB }

/-- The feed after the NASDAQ bid has been added. -/
def afterBid : Feed UInt64 :=
  (Nasdaq.step (Feed.start oneStock) (.addOrder nasdaqBid)).toOption.getD (Feed.start oneStock)

theorem nasdaqBid_ok : Nasdaq.AddOk (Feed.start oneStock) nasdaqBid :=
  ⟨by decide, by decide, ⟨0, by decide, by decide⟩, fun h => h.1 rfl⟩

/-- The BIST bid, and the NASDAQ bid with an execution of 2, are such runs. -/
theorem depth_eq_restingOrders_oneStock :
    (∃ f, exec Bist.step (Feed.start oneStock) ([.addOrder bistBid].take 1) = .ok f ∧
      ∀ i s p, ShowsDepth (f.manager.marketbook.level 0 i s p) (f.exchange.depth (i, s, p))) ∧
    ∃ f, exec Nasdaq.step (Feed.start oneStock)
        ([.addOrder nasdaqBid, .executed { orderRef := 1, executedShares := 2 }].take 2) = .ok f ∧
      ∀ i s p, ShowsDepth (f.manager.marketbook.level 1 i s p) (f.exchange.depth (i, s, p)) := by
  refine ⟨(depth_eq_restingOrders oneStock).1 (oneStock_fresh 0) [.addOrder bistBid] ?_ 1,
    (depth_eq_restingOrders oneStock).2 (oneStock_fresh 1)
      [.addOrder nasdaqBid, .executed { orderRef := 1, executedShares := 2 }] ?_ 2⟩
  · refine ⟨⟨by decide, by decide, by decide, fun h => h.1 rfl, 0, by decide, by decide⟩, ?_⟩
    exact fun _ _ => trivial
  · refine along_cons afterBid ⟨nasdaqBid_ok, by decide⟩ rfl ⟨?_, fun _ _ => trivial⟩
    exact ⟨by decide, by decide, by decide⟩

/-- The bid replaced by another one at 101. -/
def bidReplace : Nasdaq.Replace :=
  { orderRef := 1, newOrderRef := 2, shares := 3, price := 101, stockLocate := 7 }

/-- The feed after the bid has been replaced. -/
def afterReplace : Feed UInt64 :=
  (Nasdaq.step afterBid (.replace bidReplace)).toOption.getD (Feed.start oneStock)

theorem bidReplace_ok : Nasdaq.ReplaceOk afterBid bidReplace :=
  ⟨by decide, by decide, by decide, ⟨0, by decide, by decide⟩⟩

end TradingEngine
