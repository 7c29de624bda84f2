/-
The state of the order manager and its private operations
(`order_management/OrderManager.h`, `order_management/OrderManager.cpp`,
`core/HashTables.h`).

Order pointers are indices into the order pool of 65536 slots, the lower half
of which is for market orders.  `market_orders_` maps an `OrderKey` to a slot;
`nq_itch_refnum_ordkey_` maps a NASDAQ reference number to the key its order was
added under.  A market slot is taken in turn (`addMarketOrder`); once all
32768 have been used, the key of the slot that is taken again is rebuilt from
the order it holds and erased.

The hash maps are finite maps; `emplace` keeps an existing entry.  The
`MessageWithVenue` and `DbData` wrappers are passed by value, the packets of
`pending_to_strategy_` live in their ring pool as in the source.  What only the
FIX and OUCH handlers use (the own-order maps, the free-slot bookkeeping of own
orders) is left out here.
-/
import Mathlib.Data.Finmap
import TradingEngine.BoundedQueue
import TradingEngine.FixSession
import TradingEngine.ItchMessages
import TradingEngine.MarketBook
import TradingEngine.OuchMessages

namespace TradingEngine

/-- `absl::flat_hash_map`. -/
abbrev HashMap (κ ν : Type) := Finmap fun _ : κ => ν

/-- `emplace`: an existing entry stays. -/
def HashMap.emplace {κ ν : Type} [DecidableEq κ] (m : HashMap κ ν) (k : κ) (v : ν) : HashMap κ ν :=
  if k ∈ m then m else m.insert k v

theorem HashMap.lookup_emplace_self {κ ν : Type} [DecidableEq κ] {m : HashMap κ ν} {k : κ} (v : ν)
    (hk : m.lookup k = none) : (HashMap.emplace m k v).lookup k = some v := by
  rw [HashMap.emplace, if_neg (Finmap.lookup_eq_none.mp hk)]
  exact Finmap.lookup_insert m

theorem HashMap.lookup_emplace_of_ne {κ ν : Type} [DecidableEq κ] (m : HashMap κ ν) {k k' : κ}
    (v : ν) (hne : k' ≠ k) : (HashMap.emplace m k v).lookup k' = m.lookup k' := by
  rw [HashMap.emplace]
  split
  · rfl
  · exact Finmap.lookup_insert_of_ne m hne

theorem HashMap.lookup_of_lookup_insert {κ ν : Type} [DecidableEq κ] {m : HashMap κ ν} {k k' : κ}
    {v w : ν} (h : (m.insert k v).lookup k' = some w) : m.lookup k' = some w ∨ w = v := by
  by_cases heq : k' = k
  · subst heq
    rw [Finmap.lookup_insert, Option.some.injEq] at h
    exact .inr h.symm
  · rw [Finmap.lookup_insert_of_ne _ heq] at h
    exact .inl h

theorem HashMap.lookup_of_lookup_erase {κ ν : Type} [DecidableEq κ] {m : HashMap κ ν} {k k' : κ}
    {v : ν} (h : (m.erase k).lookup k' = some v) : m.lookup k' = some v := by
  by_cases heq : k' = k
  · rw [heq, Finmap.lookup_erase] at h
    cases h
  · rwa [Finmap.lookup_erase_ne heq] at h

/-! ### Directory data -/

structure TickSizeEntry where
  priceFrom : Int64 := 0
  priceTo : Int64 := 0
  tickSize : UInt64 := 0
  deriving DecidableEq, Repr

/-- `ORDER_POOL_CAPACITY`; a pointer into `order_pool_`. -/
abbrev OrderSlot := Fin 65536

/-- `TICKSIZE_POOL_CAPACITY`; a pointer into `tick_size_entry_pool_`. -/
abbrev TickSlot := Fin 65536

/-- The characters of a symbol up to the first NUL or blank, `SYMBOL_SIZE` at
most; what the constructor of `SymbolMeta` copies. -/
def trimSymbol (sym : List UInt8) : List UInt8 :=
  (sym.take 32).takeWhile fun c => c ≠ 0 ∧ c ≠ 32

structure SymbolMeta where
  instrumentId : UInt32
  roundLotSize : UInt32 := 0
  tickSizeTable : Fin 5 → Option TickSlot := fun _ => none
  symbol : List UInt8 := []
  halted : Bool := false

structure HashTables where
  /-- One symbol table per venue. -/
  hashtables : VenueIndex → HashMap (List UInt8) UInt32 := fun _ => ∅

/-- `UINT32_MAX` for a symbol that is not in the table. -/
def HashTables.getIndex (ht : HashTables) (v : VenueIndex) (symbol : List UInt8) : UInt32 :=
  ((ht.hashtables v).lookup symbol).getD uint32Max

structure OrderKey where
  orderId : UInt64
  instrumentId : UInt32
  venue : UInt8
  side : UInt8
  deriving DecidableEq, Repr

/-- The key rebuilt from the fields of an order. -/
def Order.key (order : Order) : OrderKey :=
  ⟨order.orderId, order.instrumentId, order.venue.code, order.side.code⟩

/-- The last 64 own orders of a symbol. -/
structure OrderHistory where
  orders : Fin 64 → Option OrderSlot := fun _ => none
  writeIndex : ℕ := 0

/-! ### Queues -/

/-- What is handed to the database thread. -/
inductive DbData
  | order (slot : OrderSlot)
  | fix (msg : FIXMessage)
  | fixSession (msg : FIXSessionMessage)
  | bistItch (msg : Bist.ItchMessage)
  | nasdaqItch (msg : Nasdaq.ItchMessage)
  | bistOuch (msg : Bist.OuchMessage)
  | nasdaqOuch (msg : Nasdaq.OuchMessage)

/-- A message that waits until its order may be modified. -/
structure PendingMessage where
  msgWithVenue : Option DbData := none
  order : Option OrderSlot := none

/-- `ORDER_QUEUE_CAPACITY`, `DB_QUEUE_CAPACITY`. -/
abbrev SpscQueue (α : Type) := BoundedQueue α 1024

/-! ### The order manager -/

structure OrderManager where
  marketMapFull : Bool := false
  tickSizeEntryPool : TickSlot → TickSizeEntry := fun _ => {}
  tickSizeBistNextSlot : ℕ := 0
  tickSizeNasdaqNextSlot : ℕ := 32768
  orderPool : OrderSlot → Order := fun _ => {}
  marketNextSlot : ℕ := 0
  pendingMessagePool : RingPool PendingMessage 65536 := ⟨fun _ => {}, 0⟩
  pendingOrders : VenueIndex → Fin 64 → Option OrderSlot := fun _ _ => none
  instrumentCache : VenueIndex → HashMap UInt32 SymbolMeta := fun _ => ∅
  ourOrdersAllVenue : VenueIndex → List OrderHistory := fun _ => []
  venueFlags : VenueIndex → UInt8 := fun _ => 0
  marketOrders : HashMap OrderKey OrderSlot := ∅
  awaitingAckOrders : HashMap UInt64 OrderSlot := ∅
  nqItchRefnumOrdkey : HashMap UInt64 OrderKey := ∅
  sympackSymid : HashMap (List UInt8) UInt32 := ∅
  pendingToStrategy : BoundedQueue (Fin 65536) 65536 := .empty
  storeToStrategy : SpscQueue OrderSlot := .empty
  storeToStrategyFreeSlot : SpscQueue OrderSlot := .empty
  storeToRisk : SpscQueue OrderSlot := .empty
  storeToDb : SpscQueue DbData := .empty
  marketbook : MarketBook := {}
  hashtables : HashTables := {}
  /-- `FillerITCH_BIST::bist_trade_id`. -/
  bistTradeId : UInt64 := 0

namespace OrderManager

/-- `MARKETORDER_LAST_INDEX`. -/
def marketOrderLastIndex : ℕ := 32768

/-- One slot of the order pool rewritten. -/
def setOrder (om : OrderManager) (slot : OrderSlot) (order : Order) : OrderManager :=
  { om with orderPool := Function.update om.orderPool slot order }

/-- The market book replaced. -/
def setBook (om : OrderManager) (mb : MarketBook) : OrderManager := { om with marketbook := mb }

def getSymbolmeta (om : OrderManager) (v : VenueIndex) (instrumentId : UInt32) :
    Option SymbolMeta :=
  (om.instrumentCache v).lookup instrumentId

def getOrderFromMarketMap (om : OrderManager) (k : OrderKey) : Option OrderSlot :=
  om.marketOrders.lookup k

/-- The slot `add_market_order` takes next. -/
def marketSlot (om : OrderManager) : ℕ :=
  if om.marketNextSlot ≥ marketOrderLastIndex then 0 else om.marketNextSlot

theorem marketSlot_lt (om : OrderManager) : om.marketSlot < 32768 := by
  unfold marketSlot marketOrderLastIndex
  split <;> omega

/-- Before the counter has reached the end of the market slots. -/
theorem marketSlot_of_room {om : OrderManager} (hroom : om.marketNextSlot < 32768) :
    om.marketSlot = om.marketNextSlot :=
  if_neg (show ¬om.marketNextSlot ≥ 32768 by omega)

/-- The slot `add_market_order` takes next, as a pointer into the pool. -/
def marketOrderSlot (om : OrderManager) : OrderSlot :=
  ⟨om.marketSlot, by have := om.marketSlot_lt; omega⟩

/-- `add_market_order`: returns the slot taken. -/
def addMarketOrder (om : OrderManager) (k : OrderKey) : OrderSlot × OrderManager :=
  let full := om.marketMapFull || decide (om.marketNextSlot ≥ marketOrderLastIndex)
  let slot := om.marketOrderSlot
  let kept := if full then om.marketOrders.erase (om.orderPool slot).key else om.marketOrders
  (slot, { om with
    marketMapFull := full
    marketOrders := kept.insert k slot
    marketNextSlot := om.marketSlot + 1 })

/-- A market slot that was never used: nothing is erased. -/
theorem addMarketOrder_of_room {om : OrderManager} (k : OrderKey) (hfull : om.marketMapFull = false)
    (hroom : om.marketNextSlot < 32768) :
    (om.addMarketOrder k).2 = { om with
      marketOrders := om.marketOrders.insert k om.marketOrderSlot
      marketNextSlot := om.marketNextSlot + 1 } := by
  have hlast : ¬om.marketNextSlot ≥ marketOrderLastIndex := by
    unfold marketOrderLastIndex
    omega
  simp only [addMarketOrder, marketSlot, hfull, if_neg hlast, decide_eq_false hlast, Bool.or_false,
    Bool.false_eq_true, if_false]

/-- A market slot that is used again: the key of its old order is erased. -/
theorem addMarketOrder_of_full {om : OrderManager} (k : OrderKey)
    (hfull : om.marketMapFull = true ∨ om.marketNextSlot ≥ 32768) :
    (om.addMarketOrder k).2 = { om with
      marketMapFull := true
      marketOrders := (om.marketOrders.erase (om.orderPool om.marketOrderSlot).key).insert k
        om.marketOrderSlot
      marketNextSlot := om.marketSlot + 1 } := by
  have htrue : (om.marketMapFull || decide (om.marketNextSlot ≥ marketOrderLastIndex)) = true := by
    rw [Bool.or_eq_true, decide_eq_true_eq]
    exact hfull
  simp only [addMarketOrder, htrue, if_true]

/-- The two ways `add_market_order` goes: a slot that was never used, or one that
is used again. -/
theorem addMarketOrder_cases (om : OrderManager) (k : OrderKey) :
    (om.marketMapFull = false ∧ om.marketNextSlot < 32768 ∧
      (om.addMarketOrder k).2 = { om with
        marketOrders := om.marketOrders.insert k om.marketOrderSlot
        marketNextSlot := om.marketNextSlot + 1 }) ∨
    ((om.marketMapFull = true ∨ om.marketNextSlot ≥ 32768) ∧
      (om.addMarketOrder k).2 = { om with
        marketMapFull := true
        marketOrders := (om.marketOrders.erase (om.orderPool om.marketOrderSlot).key).insert k
          om.marketOrderSlot
        marketNextSlot := om.marketSlot + 1 }) := by
  by_cases hwrap : om.marketMapFull = true ∨ om.marketNextSlot ≥ 32768
  · exact Or.inr ⟨hwrap, addMarketOrder_of_full k hwrap⟩
  · rw [not_or, Bool.not_eq_true, not_le] at hwrap
    exact Or.inl ⟨hwrap.1, hwrap.2, addMarketOrder_of_room k hwrap.1 hwrap.2⟩

theorem lookup_addMarketOrder_self (om : OrderManager) (k : OrderKey) :
    (om.addMarketOrder k).2.marketOrders.lookup k = some om.marketOrderSlot :=
  Finmap.lookup_insert _

/-- The other keys lead where they led. -/
theorem lookup_of_lookup_addMarketOrder {om : OrderManager} {k k' : OrderKey} {t : OrderSlot}
    (hne : k' ≠ k) (h : (om.addMarketOrder k).2.marketOrders.lookup k' = some t) :
    om.marketOrders.lookup k' = some t := by
  simp only [addMarketOrder, Finmap.lookup_insert_of_ne _ hne] at h
  split at h
  · exact HashMap.lookup_of_lookup_erase h
  · exact h

/-- The slots below the counter, and all of them once it has wrapped: no slot but
the one taken comes into use. -/
theorem inUse_of_addMarketOrder {om : OrderManager} (k : OrderKey) {t : OrderSlot}
    (hne : t ≠ om.marketOrderSlot)
    (ht : t.val < (om.addMarketOrder k).2.marketNextSlot ∨
      ((om.addMarketOrder k).2.marketMapFull = true ∧ t.val < 32768)) :
    t.val < om.marketNextSlot ∨ (om.marketMapFull = true ∧ t.val < 32768) := by
  have hval : t.val ≠ om.marketSlot := fun h => hne (Fin.ext h)
  have hlt := om.marketSlot_lt
  obtain ⟨hfull, hroom, hadd⟩ | ⟨hwrap, hadd⟩ := addMarketOrder_cases om k
  · -- the counter moves by one, past the slot taken
    have hslot := marketSlot_of_room hroom
    rw [hadd] at ht
    rcases ht with h | h
    · have h : t.val < om.marketNextSlot + 1 := h
      exact Or.inl (by omega)
    · exact Or.inr h
  · rw [hadd] at ht
    -- all market slots were in use before
    have hsmall : t.val < 32768 := by
      rcases ht with h | ⟨-, h⟩
      · have h : t.val < om.marketSlot + 1 := h
        omega
      · exact h
    rcases hwrap with h | h
    · exact Or.inr ⟨h, hsmall⟩
    · exact Or.inl (lt_of_lt_of_le hsmall h)

/-- `release_order` on a market order. -/
def releaseOrder (om : OrderManager) (slot : OrderSlot) : OrderManager :=
  { om with
    storeToStrategyFreeSlot := om.storeToStrategyFreeSlot.push slot
    marketOrders := om.marketOrders.erase (om.orderPool slot).key }

/-- One pending own order against the quantity, price, instrument, side and
time of an ITCH add. -/
def matchesPending (pending : Order) (quantity : UInt64) (price : Int64) (instrumentId : UInt32)
    (side : Side) (timestamp : UInt64) : Bool :=
  pending.quantity.toUInt64 == quantity && pending.price == price &&
    pending.instrumentId == instrumentId && pending.side == side &&
    decide (pending.lastUpdateTime < timestamp) &&
    decide (timestamp - pending.lastUpdateTime < 500000)

/-- The scan over the pending orders of a venue. -/
def isMatchedPending (om : OrderManager) (v : VenueIndex) (quantity : UInt64) (price : Int64)
    (instrumentId : UInt32) (side : Side) (timestamp : UInt64) : Bool :=
  (List.finRange 64).any fun i =>
    match om.pendingOrders v i with
    | none => false
    | some slot => matchesPending (om.orderPool slot) quantity price instrumentId side timestamp

/-- `is_matched_pending_order` of BIST. -/
def isMatchedPendingOrderBist (om : OrderManager) (msg : Bist.AddOrder) : Bool :=
  om.isMatchedPending 0 msg.quantity msg.price.toInt64 msg.orderBookId (sideOfChar msg.side)
    msg.timestampNs.toUInt64

/-- `is_matched_pending_order` of NASDAQ. -/
def isMatchedPendingOrderNasdaq (om : OrderManager) (msg : Nasdaq.AddOrder) : Bool :=
  om.isMatchedPending 1 msg.shares.toUInt64 msg.price.toInt64 msg.stockLocate.toUInt32
    (sideOfChar msg.side) msg.timestamp

/-- Defer a message until its order may be modified: `get_pending_packet` and
the push to `pending_to_strategy_`. -/
def deferMessage (om : OrderManager) (msg : DbData) (slot : OrderSlot) : OrderManager :=
  { om with
    pendingMessagePool := om.pendingMessagePool.put ⟨some msg, some slot⟩
    pendingToStrategy := om.pendingToStrategy.push om.pendingMessagePool.slot }

def pushDb (om : OrderManager) (d : DbData) : OrderManager :=
  { om with storeToDb := om.storeToDb.push d }

/-- Hand an updated order to the database, risk and strategy threads. -/
def publish (om : OrderManager) (slot : OrderSlot) : OrderManager :=
  { om with
    storeToDb := om.storeToDb.push (.order slot)
    storeToRisk := om.storeToRisk.push slot
    storeToStrategy := om.storeToStrategy.push slot }

/-! ### Metadata handlers -/

/-- Rewrite the directory entry of an instrument. -/
def setSymbolmeta (om : OrderManager) (v : VenueIndex) (instrumentId : UInt32) (m : SymbolMeta) :
    OrderManager :=
  { om with instrumentCache :=
      Function.update om.instrumentCache v ((om.instrumentCache v).insert instrumentId m) }

/-- Enter an instrument that is not in the directory yet. -/
def emplaceSymbolmeta (om : OrderManager) (v : VenueIndex) (m : SymbolMeta) : OrderManager :=
  let cache := HashMap.emplace (om.instrumentCache v) m.instrumentId m
  { om with instrumentCache := Function.update om.instrumentCache v cache }

/-- `handle_instrument_definition` of BIST. -/
def handleInstrumentDefinitionBist (om : OrderManager) (msg : Bist.OrderBookDirectory) :
    OrderManager :=
  { om with
    sympackSymid := HashMap.emplace om.sympackSymid (msg.symbol.take 8) msg.orderBookId }
    |>.emplaceSymbolmeta 0
      { instrumentId := msg.orderBookId, roundLotSize := msg.roundLotSize,
        symbol := trimSymbol msg.symbol }

/-- Rewrite one entry of the tick size pool. -/
def setTickSizeEntry (om : OrderManager) (t : TickSlot) (entry : TickSizeEntry) : OrderManager :=
  { om with tickSizeEntryPool := Function.update om.tickSizeEntryPool t entry }

/-- The scan of `handle_tick_size_definition` of BIST over the table of a
symbol: the first empty place takes the new entry, an entry of the same range
is overwritten, a full table loses its first entry. -/
def enterTickSizeBist (om : OrderManager) (orderBookId : UInt32) (m : SymbolMeta)
    (new : TickSlot) (entry : TickSizeEntry) : List (Fin 5) → OrderManager
  | [] => om.setSymbolmeta 0 orderBookId
      { m with tickSizeTable := Function.update m.tickSizeTable 0 (some new) }
  | i :: rest =>
    match m.tickSizeTable i with
    | none => om.setSymbolmeta 0 orderBookId
        { m with tickSizeTable := Function.update m.tickSizeTable i (some new) }
    | some old =>
      if (om.tickSizeEntryPool old).priceFrom = entry.priceFrom ∧
          (om.tickSizeEntryPool old).priceTo = entry.priceTo then
        om.setTickSizeEntry old entry
      else enterTickSizeBist om orderBookId m new entry rest

/-- `handle_tick_size_definition` of BIST.  The ring of its half of the pool is
taken even when an existing entry is overwritten. -/
def handleTickSizeDefinitionBist (om : OrderManager) (msg : Bist.TickSizeTableEntry) :
    Except Fault OrderManager :=
  match om.getSymbolmeta 0 msg.orderBookId with
  | none => .error .nullDereference
  | some m =>
    let new : TickSlot := ⟨om.tickSizeBistNextSlot % 32768, by omega⟩
    let entry : TickSizeEntry := ⟨msg.priceFrom.toInt64, msg.priceTo.toInt64, msg.tickSize⟩
    -- the slot is written before the table is searched
    let om := { om.setTickSizeEntry new entry with
      tickSizeBistNextSlot := om.tickSizeBistNextSlot + 1 }
    .ok (om.enterTickSizeBist msg.orderBookId m new entry (List.finRange 5))

/-- `handle_tick_size_definition` of NASDAQ: the next slot of the pool is taken
without a bound, and a full table ignores the entry. -/
def handleTickSizeDefinitionNasdaq (om : OrderManager) (instrumentId : UInt32)
    (entry : TickSizeEntry) : Except Fault OrderManager :=
  if h : om.tickSizeNasdaqNextSlot < 65536 then
    let new : TickSlot := ⟨om.tickSizeNasdaqNextSlot, h⟩
    let om := { om.setTickSizeEntry new entry with
      tickSizeNasdaqNextSlot := om.tickSizeNasdaqNextSlot + 1 }
    match om.getSymbolmeta 1 instrumentId with
    | none => .error .nullDereference
    | some m =>
      match (List.finRange 5).find? fun i => (m.tickSizeTable i).isNone with
      | none => .ok om
      | some i => .ok (om.setSymbolmeta 1 instrumentId
          { m with tickSizeTable := Function.update m.tickSizeTable i (some new) })
  else .error .outOfBounds

/-- The five price ranges of every NASDAQ stock. -/
def nasdaqTickSizeRanges : List TickSizeEntry :=
  [⟨0, 199999, 1⟩, ⟨200000, 999999, 5⟩, ⟨1000000, 4999999, 10⟩, ⟨5000000, 9999999, 50⟩,
    ⟨10000000, Int64.maxValue, 100⟩]

/-- `handle_instrument_definition` of NASDAQ. -/
def handleInstrumentDefinitionNasdaq (om : OrderManager) (msg : Nasdaq.StockDirectory) :
    Except Fault OrderManager :=
  let om := { om with
    sympackSymid := HashMap.emplace om.sympackSymid (msg.stock.take 8) msg.stockLocate.toUInt32 }
    |>.emplaceSymbolmeta 1
      { instrumentId := msg.stockLocate.toUInt32, roundLotSize := msg.roundLotSize,
        symbol := trimSymbol (msg.stock ++ msg.afterStock) }
  nasdaqTickSizeRanges.foldlM
    (fun om entry => om.handleTickSizeDefinitionNasdaq msg.stockLocate.toUInt32 entry) om

/-! ### System event handlers -/

/-- `update_venue_halt_status`: both flags are or-ed in. -/
def updateVenueHaltStatus (om : OrderManager) (v : VenueIndex) (halted circuitBreaker : UInt8) :
    OrderManager :=
  { om with venueFlags :=
      Function.update om.venueFlags v (om.venueFlags v ||| halted ||| circuitBreaker) }

/-- `update_symbol_halt_status`: `operator[]` enters a null pointer for an
instrument that is not in the directory, and it is then dereferenced. -/
def updateSymbolHaltStatus (om : OrderManager) (v : VenueIndex) (instrumentId : UInt32)
    (halted : Bool) : Except Fault OrderManager :=
  match om.getSymbolmeta v instrumentId with
  | none => .error .nullDereference
  | some m => .ok (om.setSymbolmeta v instrumentId { m with halted := halted })

/-- The body of the loop of `handle_flush_status` for one own order. -/
def flushOrder (om : OrderManager) (slot : OrderSlot) : OrderManager :=
  let order := om.orderPool slot
  if order.status = .new then
    { om.setOrder slot { order with
        status := .cancelled, cancelledCount := order.cancelledCount + 1,
        remainingQuantity := order.quantity } with
      storeToRisk := om.storeToRisk.push slot, storeToStrategy := om.storeToStrategy.push slot }
  else if order.status = .partialFill then
    { om.setOrder slot { order with
        status := .cancelled, cancelledCount := order.cancelledCount + 1,
        remainingQuantity := order.quantity - order.filledQuantity } with
      storeToRisk := om.storeToRisk.push slot, storeToStrategy := om.storeToStrategy.push slot }
  else om

/-- `handle_flush_status`. -/
def handleFlushStatus (om : OrderManager) (v : VenueIndex) (symbolIndex : UInt32) :
    Except Fault OrderManager :=
  match (om.ourOrdersAllVenue v)[symbolIndex.toNat]? with
  | none => .error .outOfBounds
  | some history =>
    .ok ((List.finRange 64).foldl
      (fun om i => match history.orders i with
        | none => om
        | some slot => om.flushOrder slot) om)

end OrderManager

end TradingEngine
