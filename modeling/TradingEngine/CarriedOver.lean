/-
What a recycled market slot keeps of its last order (`add_market_order`, `fill_itch_add`
of both venues).

An add writes the fields that its message gives and leaves the others as the last order of
the slot left them.  Among these are three or four that the later fillers, the book and risk
read: what was filled, executed and replaced last, and on NASDAQ how often the order was
cancelled, which the filler of BIST alone sets to zero.

* `sameReads_iff` — for two contents of a slot the same add leaves the same order exactly
  when they agree in these fields;
* `filledQuantity_lives` — on BIST the filled quantity of a slot is the total of all the
  orders it has held.
-/
import TradingEngine.ItchUpdate

namespace TradingEngine

open OrderManager

/-- The adds of both venues. -/
inductive MarketAdd
  | bist (msg : Bist.AddOrder)
  | nasdaq (msg : Nasdaq.AddOrder)
  | nasdaqMpid (msg : Nasdaq.AddOrder)

namespace MarketAdd

def venue : MarketAdd → VenueIndex
  | bist _ => 0
  | nasdaq _ => 1
  | nasdaqMpid _ => 1

def instrumentId : MarketAdd → UInt32
  | bist m => m.orderBookId
  | nasdaq m => m.stockLocate.toUInt32
  | nasdaqMpid m => m.stockLocate.toUInt32

/-- The slot is taken and entered under the key of the message. -/
def enter (om : OrderManager) : MarketAdd → OrderManager
  | bist m => (om.addMarketOrder (bistKey m.orderId m.orderBookId m.side)).2
  | nasdaq m => om.addNasdaqOrder m
  | nasdaqMpid m => om.addNasdaqOrder m

/-- The filler of the message. -/
def fill (om : OrderManager) (slot : OrderSlot) : MarketAdd → OrderManager
  | bist m => FillerItchBist.fillItchAdd om slot m
  | nasdaq m => FillerItchNasdaq.fillItchAdd om slot m
  | nasdaqMpid m => FillerItchNasdaq.fillItchAddMpid om slot m

/-- The order after the add, in the slot that `add_market_order` returns. -/
def addedOrder (om : OrderManager) (add : MarketAdd) : Order :=
  (add.fill (add.enter om) om.marketOrderSlot).orderPool om.marketOrderSlot

end MarketAdd

/-- The slot that the next add takes holds an order. -/
def OrderManager.holding (om : OrderManager) (order : Order) : OrderManager :=
  om.setOrder om.marketOrderSlot order

/-- The two orders are the same for the fillers, the book and risk. -/
structure SameReads (o o' : Order) : Prop where
  price : o'.price = o.price
  quantity : o'.quantity = o.quantity
  filledQuantity : o'.filledQuantity = o.filledQuantity
  remainingQuantity : o'.remainingQuantity = o.remainingQuantity
  lastExecQuantity : o'.lastExecQuantity = o.lastExecQuantity
  replacedQuantity : o'.replacedQuantity = o.replacedQuantity
  cancelledCount : o'.cancelledCount = o.cancelledCount
  side : o'.side = o.side
  status : o'.status = o.status
  orderId : o'.orderId = o.orderId
  instrumentId : o'.instrumentId = o.instrumentId
  symbolIndex : o'.symbolIndex = o.symbolIndex
  symbol : o'.symbol = o.symbol
  venue : o'.venue = o.venue

/-- The contents agree in what an add leaves as it was. -/
structure SameLeft (add : MarketAdd) (o o' : Order) : Prop where
  filledQuantity : o'.filledQuantity = o.filledQuantity
  lastExecQuantity : o'.lastExecQuantity = o.lastExecQuantity
  replacedQuantity : o'.replacedQuantity = o.replacedQuantity
  /-- the filler of BIST sets it to zero -/
  cancelledCount : add.venue = 1 → o'.cancelledCount = o.cancelledCount

namespace MarketAdd

variable {add : MarketAdd} {om : OrderManager} {m : SymbolMeta}

/-- What an add of a known instrument makes of the order that its slot holds. -/
def written (symbol : List UInt8) (index : UInt32) (order : Order) : MarketAdd → Order
  | bist msg => { order with
      price := msg.price.toInt64
      quantity := msg.quantity.toUInt32
      remainingQuantity := msg.quantity.toUInt32
      instrumentId := msg.orderBookId
      side := sideOfChar msg.side
      orderId := msg.orderId
      symbol := symbol
      symbolIndex := index
      status := .new
      timestamp := msg.timestampNs.toUInt64
      lastUpdateTime := msg.timestampNs.toUInt64
      messageType := msg.messageType
      protocol := .itch
      venue := .bist
      orderType := orderTypeOfPrice msg.price.toInt64
      cancelledCount := 0 }
  | nasdaq msg => writtenNasdaq msg
  | nasdaqMpid msg => writtenNasdaq msg
where
  /-- the two adds of NASDAQ write the same -/
  writtenNasdaq (msg : Nasdaq.AddOrder) : Order := { order with
    price := msg.price.toInt64
    quantity := msg.shares
    remainingQuantity := msg.shares
    instrumentId := msg.stockLocate.toUInt32
    side := sideOfChar msg.side
    orderId := msg.orderRef
    symbol := symbol
    symbolIndex := index
    status := .new
    timestamp := msg.timestamp
    lastUpdateTime := msg.timestamp
    messageType := msg.messageType
    protocol := .itch
    venue := .nasdaq
    orderType := orderTypeOfPrice msg.price.toInt64 }

theorem orderPool_fillWithSymbol {v : VenueIndex} {slot : OrderSlot} {order : Order}
    {finish : Order → Order} (hknown : om.getSymbolmeta v order.instrumentId = some m) :
    (om.fillWithSymbol v slot order finish).orderPool slot = finish { order with
      symbol := m.symbol, symbolIndex := om.hashtables.getIndex v m.symbol } := by
  unfold fillWithSymbol
  rw [hknown]
  exact Function.update_self ..

/-- **What an add writes**, for an instrument in the directory. -/
theorem addedOrder_eq (hknown : om.getSymbolmeta add.venue add.instrumentId = some m) :
    addedOrder om add = add.written m.symbol (om.hashtables.getIndex add.venue m.symbol)
      (om.orderPool om.marketOrderSlot) := by
  cases add with
  | bist msg => exact (orderPool_fillWithSymbol hknown).trans rfl
  | nasdaq msg => exact (orderPool_fillWithSymbol hknown).trans rfl
  | nasdaqMpid msg => exact (orderPool_fillWithSymbol hknown).trans rfl

theorem sameReads_written_iff {symbol : List UInt8} {index : UInt32} {o o' : Order} :
    SameReads (add.written symbol index o) (add.written symbol index o') ↔ SameLeft add o o' := by
  cases add with
  | bist msg =>
    refine ⟨fun h => ⟨h.filledQuantity, h.lastExecQuantity, h.replacedQuantity, fun hv => ?_⟩,
      fun h => ?_⟩
    · cases hv
    · exact ⟨rfl, rfl, h.filledQuantity, rfl, h.lastExecQuantity, h.replacedQuantity, rfl, rfl, rfl,
        rfl, rfl, rfl, rfl, rfl⟩
  | nasdaq msg =>
    refine ⟨fun h => ⟨h.filledQuantity, h.lastExecQuantity, h.replacedQuantity,
      fun _ => h.cancelledCount⟩, fun h => ?_⟩
    exact ⟨rfl, rfl, h.filledQuantity, rfl, h.lastExecQuantity, h.replacedQuantity,
      h.cancelledCount rfl, rfl, rfl, rfl, rfl, rfl, rfl, rfl⟩
  | nasdaqMpid msg =>
    refine ⟨fun h => ⟨h.filledQuantity, h.lastExecQuantity, h.replacedQuantity,
      fun _ => h.cancelledCount⟩, fun h => ?_⟩
    exact ⟨rfl, rfl, h.filledQuantity, rfl, h.lastExecQuantity, h.replacedQuantity,
      h.cancelledCount rfl, rfl, rfl, rfl, rfl, rfl, rfl, rfl⟩

/-- **When an add carries nothing over.**  For any two contents of the slot that
`add_market_order` returns, the add of a known instrument leaves the same order, in all that
is read later, exactly when the contents agree in what was filled, executed and replaced
last and, on NASDAQ, in how often the order was cancelled. -/
theorem sameReads_iff (hknown : om.getSymbolmeta add.venue add.instrumentId = some m)
    (o o' : Order) :
    SameReads (addedOrder (om.holding o) add) (addedOrder (om.holding o') add) ↔
      SameLeft add o o' := by
  have hadded : ∀ order, addedOrder (om.holding order) add =
      add.written m.symbol (om.hashtables.getIndex add.venue m.symbol) order := by
    intro order
    -- neither the slot that is taken nor the directory depends on what it held
    have heq : addedOrder (om.holding order) add = _ := addedOrder_eq hknown
    have hheld : (om.holding order).orderPool (om.holding order).marketOrderSlot = order :=
      Function.update_self ..
    rwa [hheld] at heq
  rw [hadded, hadded]
  exact sameReads_written_iff

end MarketAdd

/-! ### The lives of a slot -/

/-- A message about the order in a BIST slot; an add begins the next life. -/
inductive SlotMessage
  | add (msg : Bist.AddOrder) (symbol : List UInt8) (index : UInt32)
  | executed (msg : Bist.OrderExecuted)
  | executedWithPrice (msg : Bist.OrderExecutedWithPrice)
  | deleted (msg : Bist.OrderDelete)

namespace SlotMessage

/-- The filler of the message. -/
def fill (order : Order) : SlotMessage → Order
  | add msg symbol index => (MarketAdd.bist msg).written symbol index order
  | executed msg => FillerItchBist.fillItchExecReport order msg
  | executedWithPrice msg => FillerItchBist.fillItchExecReportWithPrice order msg
  | deleted msg => FillerItchBist.fillItchDelete order msg

/-- The shares a message executes. -/
def shares : SlotMessage → UInt32
  | add _ _ _ => 0
  | executed msg => msg.executedQuantity.toUInt32
  | executedWithPrice msg => msg.executedQuantity.toUInt32
  | deleted _ => 0

theorem filledQuantity_fill (order : Order) (msg : SlotMessage) :
    (msg.fill order).filledQuantity = order.filledQuantity + msg.shares := by
  cases msg with
  | add msg symbol index => exact (UInt32.add_zero _).symm
  | executed msg => rfl
  | executedWithPrice msg => rfl
  | deleted msg => exact (UInt32.add_zero _).symm

/-- **The filled quantity runs on.**  Over any number of lives of a slot it is the total of
what all of them executed. -/
theorem filledQuantity_lives (order : Order) (msgs : List SlotMessage) :
    (msgs.foldl fill order).filledQuantity =
      order.filledQuantity + (msgs.map shares).foldr (· + ·) 0 := by
  induction msgs generalizing order with
  | nil => exact (UInt32.add_zero _).symm
  | cons msg msgs ih =>
    rw [List.foldl_cons, ih, filledQuantity_fill, List.map_cons, List.foldr_cons,
      UInt32.add_assoc]

end SlotMessage

/-! ### A partly filled order -/

/-- The instrument 5 is in the directory of both venues. -/
def fiveListed : OrderManager :=
  { instrumentCache := fun _ => Finmap.singleton 5 { instrumentId := 5 } }

/-- Five of ten were executed, and the rest deleted. -/
def formerOrder : Order :=
  { quantity := 10, filledQuantity := 5, remainingQuantity := 5, lastExecQuantity := 5
    orderId := 1, instrumentId := 5, status := .deleted, cancelledCount := 1 }

def addEight : Bist.AddOrder :=
  { orderId := 2, orderBookId := 5, quantity := 8, price := 100, side := 66 }

/-- BIST forgets how often the former order was cancelled. -/
theorem sameReads_iff_cancelledBefore :
    SameReads (MarketAdd.addedOrder (fiveListed.holding {}) (.bist addEight))
      (MarketAdd.addedOrder (fiveListed.holding { cancelledCount := 1 }) (.bist addEight)) := by
  have hknown : fiveListed.getSymbolmeta (MarketAdd.bist addEight).venue
      (MarketAdd.bist addEight).instrumentId = some { instrumentId := 5 } :=
    Finmap.lookup_singleton_eq
  exact (MarketAdd.sameReads_iff hknown _ _).mpr ⟨rfl, rfl, rfl, fun hv => by cases hv⟩

/-- **The executions of the former order are carried over**, into the order that takes its
slot and what is executed of that. -/
theorem formerOrder_carriedOver :
    fiveListed.getSymbolmeta 0 5 = some { instrumentId := 5 } ∧
      (MarketAdd.addedOrder (fiveListed.holding {}) (.bist addEight)).filledQuantity = 0 ∧
      (MarketAdd.addedOrder (fiveListed.holding formerOrder) (.bist addEight)).filledQuantity = 5 ∧
      (FillerItchBist.fillItchExecReport
        (MarketAdd.addedOrder (fiveListed.holding formerOrder) (.bist addEight))
        { orderId := 2, orderBookId := 5, executedQuantity := 8, side := 66 }).filledQuantity = 13 ∧
      ¬SameReads (MarketAdd.addedOrder (fiveListed.holding {}) (.bist addEight))
        (MarketAdd.addedOrder (fiveListed.holding formerOrder) (.bist addEight)) := by
  refine ⟨Finmap.lookup_singleton_eq, rfl, rfl, rfl, fun h => ?_⟩
  exact absurd h.filledQuantity (by decide)

end TradingEngine
