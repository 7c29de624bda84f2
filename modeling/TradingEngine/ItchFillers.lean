/-
The ITCH fillers (`order_management/fillers/FillerITCH_BIST.cpp`,
`order_management/fillers/FillerITCH_NASDAQ.cpp`).

A filler copies a message into the order it is about.  The fillers that enter a
symbol first write the fields up to the directory lookup, then either the rest
of the fields or, for an instrument that is not in the directory, release the
order (`fillWithSymbol`).
-/
import TradingEngine.OrderManager

namespace TradingEngine

/-- `(order.price < 0) ? OrderType::Limit : OrderType::Market`. -/
def orderTypeOfPrice (price : Int64) : OrderType := if price < 0 then .limit else .market

namespace OrderManager

/-- The directory lookup of a filler: `order` is what has been written so far,
`finish` what is written for a known instrument. -/
def fillWithSymbol (om : OrderManager) (v : VenueIndex) (slot : OrderSlot) (order : Order)
    (finish : Order → Order) : OrderManager :=
  match om.getSymbolmeta v order.instrumentId with
  | some m =>
    om.setOrder slot (finish { order with
      symbol := m.symbol, symbolIndex := om.hashtables.getIndex v m.symbol })
  -- the order keeps what was written before the lookup, its key is gone
  | none => (om.setOrder slot order).releaseOrder slot

end OrderManager

/-! ### BIST -/

namespace FillerItchBist

def fillItchAdd (om : OrderManager) (slot : OrderSlot) (msg : Bist.AddOrder) : OrderManager :=
  om.fillWithSymbol 0 slot
    { om.orderPool slot with
      price := msg.price.toInt64
      quantity := msg.quantity.toUInt32
      remainingQuantity := msg.quantity.toUInt32
      instrumentId := msg.orderBookId
      side := sideOfChar msg.side
      orderId := msg.orderId }
    fun order => { order with
      status := .new
      timestamp := msg.timestampNs.toUInt64
      lastUpdateTime := msg.timestampNs.toUInt64
      messageType := msg.messageType
      protocol := .itch
      venue := .bist
      orderType := orderTypeOfPrice order.price
      cancelledCount := 0 }

def fillItchExecReport (order : Order) (msg : Bist.OrderExecuted) : Order :=
  let remaining := order.remainingQuantity - msg.executedQuantity.toUInt32
  { order with
    filledQuantity := order.filledQuantity + msg.executedQuantity.toUInt32
    lastExecQuantity := msg.executedQuantity.toUInt32
    remainingQuantity := remaining
    lastUpdateTime := msg.timestampNs.toUInt64
    status := if 0 < remaining then .partialFill else .filled
    messageType := msg.messageType }

def fillItchExecReportWithPrice (order : Order) (msg : Bist.OrderExecutedWithPrice) : Order :=
  -- the price is overwritten before the book is told of the execution
  { fillItchExecReport order msg.asOrderExecuted with price := msg.tradePrice.toInt64 }

def fillItchDelete (order : Order) (msg : Bist.OrderDelete) : Order :=
  { order with
    status := .deleted
    lastUpdateTime := msg.timestampNs.toUInt64
    cancelledCount := order.cancelledCount + 1
    messageType := msg.messageType }

/-- `msg.side == ' ' ? Side::Unknown : ...`. -/
def tradeSide (c : UInt8) : Side := if c = 32 then .unknown else sideOfChar c

def fillItchTrade (om : OrderManager) (slot : OrderSlot) (msg : Bist.Trade) : OrderManager :=
  let order := om.orderPool slot
  if order.isOurOrder then om
  else
    { om with bistTradeId := om.bistTradeId + 1 }.fillWithSymbol 0 slot
      { order with
        orderId := om.bistTradeId + 1
        filledQuantity := order.filledQuantity + msg.quantity.toUInt32
        lastExecQuantity := msg.quantity.toUInt32
        lastUpdateTime := msg.timestampNs.toUInt64
        remainingQuantity := 0
        instrumentId := msg.orderBookId }
      fun order => { order with
        price := msg.tradePrice.toInt64
        status := .filled
        side := tradeSide msg.side
        protocol := .itch
        venue := .bist
        messageType := msg.messageType }

end FillerItchBist

/-! ### NASDAQ -/

namespace FillerItchNasdaq

/-- What `fill_itch_add` writes after the directory lookup. -/
def finishAdd (msg : Nasdaq.AddOrder) (order : Order) : Order :=
  { order with
    side := sideOfChar msg.side
    status := .new
    orderId := msg.orderRef
    timestamp := msg.timestamp
    lastUpdateTime := msg.timestamp
    messageType := msg.messageType
    protocol := .itch
    venue := .nasdaq
    orderType := orderTypeOfPrice order.price }

def fillItchAdd (om : OrderManager) (slot : OrderSlot) (msg : Nasdaq.AddOrder) : OrderManager :=
  om.fillWithSymbol 1 slot
    { om.orderPool slot with
      price := msg.price.toInt64
      quantity := msg.shares
      remainingQuantity := msg.shares
      instrumentId := msg.stockLocate.toUInt32 }
    (finishAdd msg)

/-- The filler of an add with MPID also copies the symbol of the message. -/
def fillItchAddMpid (om : OrderManager) (slot : OrderSlot) (msg : Nasdaq.AddOrder) :
    OrderManager :=
  om.fillWithSymbol 1 slot
    { om.orderPool slot with
      price := msg.price.toInt64
      quantity := msg.shares
      remainingQuantity := msg.shares
      instrumentId := msg.stockLocate.toUInt32
      symbol := trimSymbol msg.stock }
    (finishAdd msg)

def fillItchCancel (order : Order) (msg : Nasdaq.Cancel) : Order :=
  { order with
    lastUpdateTime := msg.timestamp
    remainingQuantity := order.remainingQuantity - msg.cancelledShares
    replacedQuantity := msg.cancelledShares.toInt32
    status := .cancelled
    cancelledCount := order.cancelledCount + 1
    messageType := msg.messageType }

def fillItchExecReport (order : Order) (msg : Nasdaq.Executed) : Order :=
  let remaining := order.remainingQuantity - msg.executedShares
  { order with
    lastUpdateTime := msg.timestamp
    filledQuantity := order.filledQuantity + msg.executedShares
    lastExecQuantity := msg.executedShares
    remainingQuantity := remaining
    status := if 0 < remaining then .partialFill else .filled
    messageType := msg.messageType }

def fillItchExecReportWithPrice (order : Order) (msg : Nasdaq.ExecutedWithPrice) : Order :=
  { fillItchExecReport order msg.asExecuted with price := msg.executionPrice.toInt64 }

def fillItchDelete (order : Order) (msg : Nasdaq.Delete) : Order :=
  { order with
    status := .deleted
    lastUpdateTime := msg.timestamp
    messageType := msg.messageType
    cancelledCount := order.cancelledCount + 1 }

def fillItchReplace (om : OrderManager) (slot : OrderSlot) (msg : Nasdaq.Replace) :
    OrderManager :=
  om.fillWithSymbol 1 slot
    { om.orderPool slot with
      orderId := msg.newOrderRef
      price := msg.price.toInt64
      quantity := msg.shares
      instrumentId := msg.stockLocate.toUInt32
      filledQuantity := 0
      remainingQuantity := msg.shares }
    fun order => { order with
      messageType := msg.messageType
      status := .replaced
      protocol := .itch
      venue := .nasdaq
      lastUpdateTime := msg.timestamp
      orderType := orderTypeOfPrice order.price }

def fillItchTrade (om : OrderManager) (slot : OrderSlot) (msg : Nasdaq.Trade) : OrderManager :=
  let order := om.orderPool slot
  if order.isOurOrder then om
  else
    om.fillWithSymbol 1 slot
      { order with
        orderId := msg.orderRef
        filledQuantity := order.filledQuantity + msg.shares
        lastExecQuantity := msg.shares
        lastUpdateTime := msg.timestamp
        remainingQuantity := 0
        instrumentId := msg.stockLocate.toUInt32 }
      fun order => { order with
        price := msg.price.toInt64
        status := .filled
        protocol := .itch
        venue := .nasdaq
        messageType := msg.messageType }

end FillerItchNasdaq

end TradingEngine
