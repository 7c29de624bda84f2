/-
The market-order store under mixed venues.

The two venues share the pool of market slots and the index `market_orders_`.
A NASDAQ add is entered under a key whose venue is BIST, while its filler writes
the venue NASDAQ into the order; and a BIST trade that finds an order writes a
trade number into it as its identity.  The run below carries, next to the slots
that have been filled, the venue of the add that filled each of them.

* `mixedStore_exact` — from a fresh store the index stays exact and the venues
  stay apart along a run of messages of both venues iff every NASDAQ add of it
  is dropped as the echo of an own order and every BIST trade keeps the identity
  of the order it finds;
* `nasdaqAdd_key_not_exact` — one NASDAQ add makes the index inexact.
-/
import TradingEngine.MarketFrame

namespace TradingEngine

open FallibleRun OrderManager

/-- An ITCH message of one of the two venues. -/
inductive VenueMessage
  | bist (msg : Bist.ItchMessage)
  | nasdaq (msg : Nasdaq.ItchMessage)

def VenueMessage.venue : VenueMessage → Venue
  | .bist _ => .bist
  | .nasdaq _ => .nasdaq

/-- A store run that also knows the venue whose add filled each slot. -/
structure MixedRun extends StoreRun where
  addedBy : OrderSlot → Venue

namespace MixedRun

/-! ### The run -/

/-- `update_order` of the venue of the message. -/
def updateOrder (om : OrderManager) : VenueMessage → Except Fault OrderManager
  | .bist msg => om.updateOrderBist msg
  | .nasdaq msg => om.updateOrderNasdaq msg

/-- A NASDAQ add that looks like an own order. -/
def IsEcho (om : OrderManager) (m : Nasdaq.AddOrder) : Prop :=
  om.awaitingAckOrders ≠ ∅ ∧ om.isMatchedPendingOrderNasdaq m = true

instance (om : OrderManager) (m : Nasdaq.AddOrder) : Decidable (IsEcho om m) :=
  inferInstanceAs (Decidable (_ ∧ _))

/-- The slot a message fills with a new order. -/
def takenSlot (om : OrderManager) : VenueMessage → Option OrderSlot
  | .bist msg => StoreRun.takenSlot om msg
  | .nasdaq (.addOrder m) => if IsEcho om m then none else some om.marketOrderSlot
  | .nasdaq (.addOrderMpid m) => if IsEcho om m then none else some om.marketOrderSlot
  | .nasdaq _ => none

/-- One message, the slot it fills and whose slot that is now. -/
def step (s : MixedRun) (msg : VenueMessage) : Except Fault MixedRun := do
  let om ← updateOrder s.manager msg
  .ok { manager := om
        filled := (takenSlot s.manager msg).elim s.filled (insert · s.filled)
        addedBy := (takenSlot s.manager msg).elim s.addedBy
          (Function.update s.addedBy · msg.venue) }

/-- The messages of the run: of NASDAQ adds with and without MPID, executions,
cancellations and deletes, of BIST every message; adds and trades are of known
instruments. -/
def Offered (s : MixedRun) : VenueMessage → Prop
  | .bist (.addOrder m) => StoreRun.KnownInstrument s.manager 0 m.orderBookId
  | .bist (.trade m) => StoreRun.KnownInstrument s.manager 0 m.orderBookId
  | .bist _ => True
  | .nasdaq (.addOrder m) | .nasdaq (.addOrderMpid m) =>
    StoreRun.KnownInstrument s.manager 1 m.stockLocate.toUInt32
  | .nasdaq (.executed _) | .nasdaq (.cancel _) | .nasdaq (.delete _) => True
  | .nasdaq _ => False

/-! ### What is claimed of a step -/

/-- Every key of the index is the identity of the order in its slot, no two keys
have one slot, and every reference number names a stored order. -/
structure Exact (om : OrderManager) : Prop where
  identity : ∀ k slot, om.marketOrders.lookup k = some slot → (om.orderPool slot).key = k
  injective : ∀ k k' slot, om.marketOrders.lookup k = some slot →
    om.marketOrders.lookup k' = some slot → k = k'
  refnums : ∀ ref k, om.nqItchRefnumOrdkey.lookup ref = some k → k ∈ om.marketOrders

/-- A message leaves the orders of the other venue alone, but for the slot an
add takes again. -/
def Apart (s : MixedRun) (msg : VenueMessage) (s' : MixedRun) : Prop :=
  ∀ slot ∈ s.filled, s.addedBy slot ≠ msg.venue → takenSlot s.manager msg ≠ some slot →
    s'.manager.orderPool slot = s.manager.orderPool slot

/-- The step ends in an exact index and keeps the venues apart. -/
def Keeps (s : MixedRun) (msg : VenueMessage) : Prop :=
  ∀ s', step s msg = .ok s' → Exact s'.manager ∧ Apart s msg s'

/-- The order a trade finds may not be modified now, is an own order, or has the
identity the trade writes. -/
def TradeKeepsIdentity (om : OrderManager) (m : Bist.Trade) : Prop :=
  ∀ slot, om.getOrderFromMarketMap (bistKey m.orderId.toUInt64 m.orderBookId m.side) = some slot →
    (om.orderPool slot).canModify = 0 ∨ (om.orderPool slot).isOurOrder = true ∨
      (om.bistTradeId + 1 = m.orderId.toUInt64 ∧ m.side ≠ 32)

/-- No NASDAQ add is stored and no BIST trade changes an identity. -/
def Safe (s : MixedRun) : VenueMessage → Prop
  | .bist (.trade m) => TradeKeepsIdentity s.manager m
  | .nasdaq (.addOrder m) | .nasdaq (.addOrderMpid m) => IsEcho s.manager m
  | _ => True

/-! ### BIST messages -/

variable {s s' : MixedRun}

/-- What a trade does to an order it finds: the trade number becomes its
identity. -/
theorem trade_found {om : OrderManager} {m : Bist.Trade} {slot : OrderSlot}
    (hk : om.getOrderFromMarketMap (bistKey m.orderId.toUInt64 m.orderBookId m.side) = some slot)
    (hmodify : (om.orderPool slot).canModify ≠ 0) (hmarket : (om.orderPool slot).isOurOrder = false)
    (hknown : StoreRun.KnownInstrument om 0 m.orderBookId) :
    ∃ order om', om.updateOrderBist (.trade m) = .ok om' ∧
      om'.orderPool = Function.update om.orderPool slot order ∧
      om'.marketOrders = om.marketOrders ∧ om'.marketNextSlot = om.marketNextSlot ∧
      om'.marketMapFull = om.marketMapFull ∧
      order.key = ⟨om.bistTradeId + 1, m.orderBookId, Venue.bist.code,
        (FillerItchBist.tradeSide m.side).code⟩ ∧
      (m.side ≠ 32 → Bookable order) := by
  obtain ⟨sym, hsym, hindex⟩ := hknown
  have hfill : ∃ order, FillerItchBist.fillItchTrade om slot m =
        { om with bistTradeId := om.bistTradeId + 1 }.setOrder slot order ∧
      order.key = ⟨om.bistTradeId + 1, m.orderBookId, Venue.bist.code,
        (FillerItchBist.tradeSide m.side).code⟩ ∧ (m.side ≠ 32 → Bookable order) := by
    have hsym' : ({ om with bistTradeId := om.bistTradeId + 1 } : OrderManager).getSymbolmeta 0
        m.orderBookId = some sym := hsym
    unfold FillerItchBist.fillItchTrade OrderManager.fillWithSymbol
    simp only [hmarket, Bool.false_eq_true, if_false, hsym']
    refine ⟨_, rfl, rfl, fun hside => ⟨?_, ⟨0, rfl⟩, hindex⟩⟩
    show ∃ t, (FillerItchBist.tradeSide m.side).index = .ok t
    rw [FillerItchBist.tradeSide, if_neg hside]
    exact ⟨_, index_sideOfChar m.side⟩
  obtain ⟨order, hrun, hkey, hbook⟩ := hfill
  have hstep : om.updateOrderBist (.trade m) = _ :=
    onBistOrder_of_found hk hmodify (congrArg Except.ok hrun)
  exact ⟨order, _, hstep, rfl, rfl, rfl, rfl, hkey, hbook⟩

/-- A trade that finds no order, a deferred one, and one for an own order leave
the store alone. -/
theorem trade_idle {om om' : OrderManager} {m : Bist.Trade}
    (hidle : ∀ slot,
      om.getOrderFromMarketMap (bistKey m.orderId.toUInt64 m.orderBookId m.side) = some slot →
        (om.orderPool slot).canModify = 0 ∨ (om.orderPool slot).isOurOrder = true)
    (h : om.updateOrderBist (.trade m) = .ok om') :
    om'.orderPool = om.orderPool ∧ Nasdaq.SameStore om om' := by
  simp only [updateOrderBist, OrderManager.onBistOrder] at h
  split at h
  · rw [Except.ok.injEq] at h
    rw [← h]
    exact ⟨rfl, rfl, rfl, rfl, rfl, rfl⟩
  · rename_i slot hslot
    unfold OrderManager.onExisting at h
    split at h
    · rw [Except.ok.injEq] at h
      rw [← h]
      exact ⟨rfl, rfl, rfl, rfl, rfl, rfl⟩
    · rename_i hmodify
      have hown := (hidle slot hslot).resolve_left hmodify
      have hfill : FillerItchBist.fillItchTrade om slot m = om := if_pos hown
      obtain ⟨om₁, h₁, h₂⟩ := bind_eq_ok_iff.mp h
      replace h₁ : om = om₁ := hfill.symm.trans (Except.ok.inj h₁)
      rw [Except.ok.injEq] at h₂
      rw [← h₂, ← h₁]
      exact ⟨rfl, rfl, rfl, rfl, rfl, rfl⟩

/-- A BIST message that changes no identity keeps the store sound. -/
theorem bist_sound {om om' : OrderManager} {filled : Finset OrderSlot} {msg : Bist.ItchMessage}
    (hs : StoreRun.StoreSound ⟨om, filled⟩)
    (hadd : ∀ m, msg = .addOrder m → StoreRun.KnownInstrument om 0 m.orderBookId)
    (htrade : ∀ m, msg = .trade m →
      StoreRun.KnownInstrument om 0 m.orderBookId ∧ TradeKeepsIdentity om m)
    (h : om.updateOrderBist msg = .ok om') :
    StoreRun.StoreSound ⟨om', (StoreRun.takenSlot om msg).elim filled (insert · filled)⟩ := by
  have hlift : ∀ {filled' : Finset OrderSlot}, (∃ om₁, om.updateOrderBist msg = .ok om₁ ∧
      StoreRun.StoreSound ⟨om₁, filled'⟩) → StoreRun.StoreSound ⟨om', filled'⟩ := by
    rintro filled' ⟨om₁, h₁, hsound⟩
    rw [h, Except.ok.injEq] at h₁
    rw [h₁]
    exact hsound
  cases msg with
  | addOrder m => exact hlift (StoreRun.updateBistAdd_sound hs (hadd m rfl))
  | orderExecuted m =>
    exact hlift (StoreRun.onBistOrder_sound hs _ _ (FillerItchBist.fillItchExecReport · m)
      Order.lastExecQuantity fun _ => ⟨rfl, rfl, rfl, rfl⟩)
  | orderExecutedWithPrice m =>
    exact hlift (StoreRun.onBistOrder_sound hs _ _ (FillerItchBist.fillItchExecReportWithPrice · m)
      Order.lastExecQuantity fun _ => ⟨rfl, rfl, rfl, rfl⟩)
  | orderDelete m =>
    exact hlift (StoreRun.onBistOrder_sound hs _ _ (FillerItchBist.fillItchDelete · m)
      Order.remainingQuantity fun _ => ⟨rfl, rfl, rfl, rfl⟩)
  | trade m =>
    obtain ⟨hknown, hkeeps⟩ := htrade m rfl
    by_cases hidle : ∀ slot,
        om.getOrderFromMarketMap (bistKey m.orderId.toUInt64 m.orderBookId m.side) = some slot →
          (om.orderPool slot).canModify = 0 ∨ (om.orderPool slot).isOurOrder = true
    · obtain ⟨hpool, hstore⟩ := trade_idle hidle h
      exact StoreRun.storeSound_same hs hpool hstore.marketOrders hstore.next hstore.full
    · push Not at hidle
      obtain ⟨slot, hslot, hmodify, hmarket⟩ := hidle
      -- the trade writes the identity the order has
      obtain ⟨hnumber, hside⟩ := ((hkeeps slot hslot).resolve_left hmodify).resolve_left hmarket
      obtain ⟨order, om₁, h₁, hpool, hmap, hnext, hfull, hkey, hbook⟩ :=
        trade_found hslot hmodify (by simpa using hmarket) hknown
      rw [h, Except.ok.injEq] at h₁
      rw [← h₁] at hpool hmap hnext hfull
      have hold : (om.orderPool slot).key =
          bistKey m.orderId.toUInt64 m.orderBookId m.side := ((hs.index _ slot).mp hslot).2
      have hnew : order.key = (om.orderPool slot).key := by
        rw [hold, hkey, hnumber, FillerItchBist.tradeSide, if_neg hside]
        rfl
      exact StoreRun.storeSound_rewrite hs slot order hpool hnew (fun _ => hbook hside) hmap hnext
        hfull
  | orderBookFlush m =>
    obtain ⟨_, i, -, -, om₁, hflush, heq⟩ := Bist.flush_spec h
    have hstore : Nasdaq.SameStore om om' := by
      rw [heq]
      exact ⟨hflush.store.1, hflush.store.2, hflush.store.3, hflush.store.4, hflush.store.5⟩
    refine StoreRun.storeSound_identity hs hstore fun slot => ?_
    rw [heq]
    exact hflush.identity slot
  | _ =>
    obtain ⟨hsame, -⟩ := Bist.sameMarket_housekeeping (by simp [Bist.Housekeeping]) h
    exact StoreRun.storeSound_same hs hsame.orderPool hsame.store.marketOrders hsame.store.next
      hsame.store.full

/-- A trade that does change an identity leaves its key behind. -/
theorem trade_not_exact {om : OrderManager} {m : Bist.Trade}
    (hknown : StoreRun.KnownInstrument om 0 m.orderBookId) (hsafe : ¬TradeKeepsIdentity om m) :
    ∃ om', om.updateOrderBist (.trade m) = .ok om' ∧ ¬Exact om' := by
  unfold TradeKeepsIdentity at hsafe
  push Not at hsafe
  obtain ⟨slot, hslot, hmodify, hmarket, hdiffers⟩ := hsafe
  obtain ⟨order, om', h, hpool, hmap, -, -, hkey, -⟩ :=
    trade_found hslot hmodify (by simpa using hmarket) hknown
  refine ⟨om', h, fun hexact => ?_⟩
  have hstill : om'.marketOrders.lookup (bistKey m.orderId.toUInt64 m.orderBookId m.side) =
      some slot := by
    rw [hmap]
    exact hslot
  have hid := hexact.identity _ slot hstill
  rw [hpool, Function.update_self, hkey, bistKey, OrderKey.mk.injEq] at hid
  obtain ⟨hnumber, -, -, hsides⟩ := hid
  -- the numbers agree, so the side is the unknown one
  have hblank : m.side = 32 := hdiffers hnumber
  rw [hblank] at hsides
  exact absurd hsides (by decide)

/-! ### NASDAQ messages -/

/-- A filler of the NASDAQ adds. -/
def FillsNasdaq (m : Nasdaq.AddOrder)
    (fill : OrderManager → OrderSlot → Nasdaq.AddOrder → OrderManager) : Prop :=
  ∀ (om : OrderManager) slot, StoreRun.KnownInstrument om 1 m.stockLocate.toUInt32 →
    ∃ order, fill om slot m = om.setOrder slot order ∧ order.venue = .nasdaq ∧ Bookable order

theorem fillsNasdaq_fillItchAdd (m : Nasdaq.AddOrder) :
    FillsNasdaq m FillerItchNasdaq.fillItchAdd := by
  rintro om slot ⟨sym, hsym, hindex⟩
  unfold FillerItchNasdaq.fillItchAdd OrderManager.fillWithSymbol
  simp only [hsym]
  exact ⟨_, rfl, rfl, ⟨_, index_sideOfChar m.side⟩, ⟨1, rfl⟩, hindex⟩

theorem fillsNasdaq_fillItchAddMpid (m : Nasdaq.AddOrder) :
    FillsNasdaq m FillerItchNasdaq.fillItchAddMpid := by
  rintro om slot ⟨sym, hsym, hindex⟩
  unfold FillerItchNasdaq.fillItchAddMpid OrderManager.fillWithSymbol
  simp only [hsym]
  exact ⟨_, rfl, rfl, ⟨_, index_sideOfChar m.side⟩, ⟨1, rfl⟩, hindex⟩

/-- A NASDAQ add that is stored has a key of another venue than its order. -/
theorem nasdaqAdd_not_exact {om : OrderManager} {m : Nasdaq.AddOrder} (stored : Nasdaq.ItchMessage)
    {fill : OrderManager → OrderSlot → Nasdaq.AddOrder → OrderManager} (hfill : FillsNasdaq m fill)
    (hknown : StoreRun.KnownInstrument om 1 m.stockLocate.toUInt32) (hecho : ¬IsEcho om m) :
    ∃ om', om.updateNasdaqAdd m stored fill = .ok om' ∧ ¬Exact om' := by
  obtain ⟨order, horder, hvenue, hbook⟩ := hfill (om.addNasdaqOrder m) om.marketOrderSlot hknown
  obtain ⟨mb, hmb⟩ := MarketBook.addOrder_ok hbook om.marketbook
  have hrun : (fill (om.addNasdaqOrder m) om.marketOrderSlot m).onBook om.marketOrderSlot
      MarketBook.addOrder =
        .ok (((om.addNasdaqOrder m).setOrder om.marketOrderSlot order).setBook mb) := by
    rw [horder]
    exact onBook_setOrder hmb
  refine ⟨_, updateNasdaqAdd_of_new hecho hrun, fun hexact => ?_⟩
  have hid := hexact.identity (nasdaqKey m) om.marketOrderSlot
    (lookup_addMarketOrder_self om (nasdaqKey m))
  have hpool : (((((om.addNasdaqOrder m).setOrder om.marketOrderSlot order).setBook mb).publish
      om.marketOrderSlot).pushDb (.nasdaqItch stored)).orderPool om.marketOrderSlot = order :=
    Function.update_self _ _ _
  have hcode := congrArg OrderKey.venue hid
  rw [hpool, Order.key, hvenue] at hcode
  exact absurd (show Venue.nasdaq.code = Venue.bist.code from hcode) (by decide)

/-- With no reference numbers a message about an order is dropped. -/
theorem onNasdaqOrder_of_no_refnums {om : OrderManager} (href : om.nqItchRefnumOrdkey = ∅)
    (ref : UInt64) (msg : Nasdaq.ItchMessage)
    (process : OrderSlot → OrderManager → Except Fault OrderManager) :
    om.onNasdaqOrder ref msg process = .ok om := by
  have hnone : om.nasdaqSlot ref = none := by
    rw [OrderManager.nasdaqSlot, href, Finmap.lookup_empty]
  rw [OrderManager.onNasdaqOrder, hnone]

/-! ### Whole runs -/

/-- The invariant: the store is that of a BIST run. -/
structure Sound (s : MixedRun) : Prop where
  store : StoreRun.StoreSound s.toStoreRun
  refnums : s.manager.nqItchRefnumOrdkey = ∅
  bist : ∀ slot ∈ s.filled, s.addedBy slot = .bist

theorem Sound.exact (hs : Sound s) : Exact s.manager := by
  refine ⟨fun k slot hk => ((hs.store.index k slot).mp hk).2, ?_, ?_⟩
  · intro k k' slot hk hk'
    exact hs.store.index.key_unique hk hk'
  · intro ref k hk
    rw [hs.refnums, Finmap.lookup_empty] at hk
    exact absurd hk (by simp)

/-- A NASDAQ message that stores nothing changes nothing. -/
theorem nasdaq_idle {msg : Nasdaq.ItchMessage} (hs : Sound s) (hoffered : Offered s (.nasdaq msg))
    (hsafe : Safe s (.nasdaq msg)) :
    s.manager.updateOrderNasdaq msg = .ok s.manager ∧ takenSlot s.manager (.nasdaq msg) = none := by
  cases msg with
  | addOrder m => exact ⟨if_pos hsafe, if_pos hsafe⟩
  | addOrderMpid m => exact ⟨if_pos hsafe, if_pos hsafe⟩
  | executed m => exact ⟨onNasdaqOrder_of_no_refnums hs.refnums _ _ _, rfl⟩
  | cancel m => exact ⟨onNasdaqOrder_of_no_refnums hs.refnums _ _ _, rfl⟩
  | delete m => exact ⟨onNasdaqOrder_of_no_refnums hs.refnums _ _ _, rfl⟩
  | _ => exact absurd hoffered (by simp [Offered])

theorem sound_bist {msg : Bist.ItchMessage} (hs : Sound s) (hoffered : Offered s (.bist msg))
    (hsafe : Safe s (.bist msg)) (h : step s (.bist msg) = .ok s') : Sound s' := by
  obtain ⟨om, hom, hs'⟩ := bind_eq_ok_iff.mp h
  rw [Except.ok.injEq] at hs'
  have hstore := bist_sound hs.store
    (by rintro m rfl; exact hoffered) (by rintro m rfl; exact ⟨hoffered, hsafe⟩) hom
  rw [← hs']
  refine ⟨hstore, (bistFrame_updateOrderBist hom).refnums.trans hs.refnums, ?_⟩
  show ∀ slot ∈ (StoreRun.takenSlot s.manager msg).elim s.filled (insert · s.filled),
    (StoreRun.takenSlot s.manager msg).elim s.addedBy (Function.update s.addedBy · .bist) slot =
      .bist
  cases StoreRun.takenSlot s.manager msg with
  | none => exact hs.bist
  | some taken =>
    intro slot hslot
    by_cases ht : slot = taken
    · exact ht ▸ Function.update_self _ _ _
    · refine (Function.update_of_ne ht _ _).trans (hs.bist slot ?_)
      exact Finset.mem_of_mem_insert_of_ne hslot ht

/-- One safe message keeps the invariant and leaves the other venue's orders
alone. -/
theorem sound_step {msg : VenueMessage} (hs : Sound s) (hoffered : Offered s msg)
    (hsafe : Safe s msg) (h : step s msg = .ok s') : Sound s' ∧ Apart s msg s' := by
  cases msg with
  | bist msg =>
    refine ⟨sound_bist hs hoffered hsafe h, ?_⟩
    intro slot hslot hother
    exact absurd (hs.bist slot hslot) hother
  | nasdaq msg =>
    obtain ⟨hsame, htaken⟩ := nasdaq_idle hs hoffered hsafe
    have hstep : step s (.nasdaq msg) = .ok s := by
      simp only [step, updateOrder, hsame, htaken, Bind.bind, Except.bind, Option.elim_none]
    rw [hstep, Except.ok.injEq] at h
    rw [← h]
    exact ⟨hs, fun _ _ _ _ => rfl⟩

/-- A message that is not safe ends in an index that is not exact. -/
theorem not_keeps {msg : VenueMessage} (hoffered : Offered s msg) (hsafe : ¬Safe s msg) :
    ¬Keeps s msg := by
  have hbreak : (∃ om, updateOrder s.manager msg = .ok om ∧ ¬Exact om) → ¬Keeps s msg := by
    rintro ⟨om, hom, hnot⟩ hkeeps
    exact hnot (hkeeps _ (bind_eq_ok_iff.mpr ⟨om, hom, rfl⟩)).1
  cases msg with
  | bist msg =>
    cases msg with
    | trade m => exact hbreak (trade_not_exact hoffered hsafe)
    | _ => exact absurd trivial hsafe
  | nasdaq msg =>
    cases msg with
    | addOrder m =>
      exact hbreak (nasdaqAdd_not_exact _ (fillsNasdaq_fillItchAdd m) hoffered hsafe)
    | addOrderMpid m =>
      exact hbreak (nasdaqAdd_not_exact _ (fillsNasdaq_fillItchAddMpid m) hoffered hsafe)
    | _ => exact absurd trivial hsafe

/-- The run before the first message. -/
def start (om : OrderManager) : MixedRun := ⟨⟨om, ∅⟩, fun _ => .bist⟩

/-- **When the shared store is exact.**  From a fresh store, along every run of
NASDAQ adds, executions, cancellations and deletes interleaved with BIST
messages, each step ends in an exact index and leaves the orders of the other
venue alone iff at each step a NASDAQ add is dropped as the echo of an own order
and a BIST trade keeps the identity of the order it finds. -/
theorem mixedStore_exact (om : OrderManager) (hfresh : StoreRun.Fresh om)
    (href : om.nqItchRefnumOrdkey = ∅) (msgs : List VenueMessage)
    (h : Along step Offered (start om) msgs) :
    Along step Keeps (start om) msgs ↔ Along step Safe (start om) msgs := by
  have hstart : Sound (start om) :=
    ⟨StoreRun.storeSound_fresh hfresh, href, fun slot hslot => absurd hslot (by simp [start])⟩
  refine along_iff_along (fun s msg hs hoffered => ?_) (fun s msg s' hs hoffered hsafe hstep => ?_)
    hstart h
  · constructor
    · intro hkeeps
      by_contra hsafe
      exact not_keeps hoffered hsafe hkeeps
    · intro hsafe s' hstep
      obtain ⟨hs', hapart⟩ := sound_step hs hoffered hsafe hstep
      exact ⟨hs'.exact, hapart⟩
  · exact (sound_step hs hoffered hsafe hstep).1

theorem oneStock_known (v : VenueIndex) : StoreRun.KnownInstrument oneStock v 7 := by
  refine ⟨{ instrumentId := 7, symbol := [65] }, Finmap.lookup_insert _, Or.inr ⟨0, ?_⟩⟩
  have hindex : oneStock.hashtables.getIndex v [65] = 0 := by
    show ((Finmap.insert [65] 0 (∅ : HashMap (List UInt8) UInt32)).lookup [65]).getD uint32Max = 0
    rw [Finmap.lookup_insert]
    rfl
  rw [hindex]
  rfl

/-- A BIST order that is executed and deleted while NASDAQ messages name orders
that were never added. -/
def bistAmongNasdaq : List VenueMessage :=
  [.bist (.addOrder bistBid), .nasdaq (.executed { orderRef := 1, executedShares := 2 }),
    .bist (.orderExecuted { orderId := 1, executedQuantity := 2, orderBookId := 7, side := charB }),
    .nasdaq (.delete { orderRef := 1 }),
    .bist (.orderDelete { orderId := 1, orderBookId := 7, side := charB })]

/-- Such a run is safe. -/
theorem mixedStore_exact_bistAmongNasdaq : Along step Keeps (start oneStock) bistAmongNasdaq := by
  refine (mixedStore_exact oneStock ⟨rfl, rfl, rfl⟩ rfl bistAmongNasdaq ?_).mpr ?_
  · exact ⟨oneStock_known 0, fun _ _ => ⟨trivial, fun _ _ => ⟨trivial, fun _ _ => ⟨trivial,
      fun _ _ => ⟨trivial, fun _ _ => trivial⟩⟩⟩⟩⟩
  · exact ⟨trivial, fun _ _ => ⟨trivial, fun _ _ => ⟨trivial, fun _ _ => ⟨trivial,
      fun _ _ => ⟨trivial, fun _ _ => trivial⟩⟩⟩⟩⟩

/-- One NASDAQ add, and the only key of the index has the venue BIST while the
order in its slot has the venue NASDAQ. -/
theorem nasdaqAdd_key_not_exact :
    Along step Offered (start oneStock) [.nasdaq (.addOrder nasdaqBid)] ∧
      ∃ s, exec step (start oneStock) [.nasdaq (.addOrder nasdaqBid)] = .ok s ∧
        s.manager.marketOrders.lookup (nasdaqKey nasdaqBid) = some 0 ∧
        (s.manager.orderPool 0).key ≠ nasdaqKey nasdaqBid := by
  refine ⟨⟨oneStock_known 1, fun _ _ => trivial⟩, ?_⟩
  exact ⟨_, rfl, by decide, by decide⟩

end MixedRun

end TradingEngine
