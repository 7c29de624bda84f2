/-
The ITCH messages the order manager receives
(`generated/GeneratedITCHMessages_BIST.h`,
`generated/GeneratedITCHMessages_NASDAQ.h`, `protocol/types/ITCH`).

A message keeps the fields that `update_order` and the fillers read, at the
widths of the source: BIST quantities are `uint64_t` and its prices `int32_t`,
NASDAQ quantities and prices are `uint32_t`.  The fields nothing reads (match
numbers, ranking data, tracking numbers, currencies) are left out, and so are
all fields of the message types `update_order` only passes on to the database.

Each filler of an execution with price views its message as the plain
execution of the same venue (`asOrderExecuted`, `asExecuted`).  The identity,
quantity and timestamp fields of the two structures coincide; the
`message_type` byte of the plain execution falls on the first byte of the field
that stands there in the longer structure.
-/
import TradingEngine.Order

namespace TradingEngine

/-- The character `'B'`. -/
def charB : UInt8 := 66

/-- `(msg->side == 'B') ? Side::Buy : Side::Sell`. -/
def sideOfChar (c : UInt8) : Side := if c = charB then .buy else .sell

/-! ### BIST -/

namespace Bist

structure OrderBookDirectory where
  orderBookId : UInt32
  roundLotSize : UInt32
  symbol : List UInt8

structure TickSizeTableEntry where
  tickSize : UInt64
  orderBookId : UInt32
  priceFrom : Int32
  priceTo : Int32

structure SystemEvent where
  eventCode : UInt8

structure OrderBookState where
  orderBookId : UInt32
  stateName : List UInt8

structure AddOrder where
  orderId : UInt64
  quantity : UInt64
  timestampNs : UInt32 := 0
  orderBookId : UInt32
  price : Int32
  messageType : UInt8 := 65
  side : UInt8

structure OrderExecuted where
  orderId : UInt64
  executedQuantity : UInt64
  timestampNs : UInt32 := 0
  orderBookId : UInt32
  messageType : UInt8 := 69
  side : UInt8

structure OrderExecutedWithPrice where
  orderId : UInt64
  executedQuantity : UInt64
  timestampNs : UInt32 := 0
  orderBookId : UInt32
  tradePrice : Int32
  messageType : UInt8 := 67
  side : UInt8

structure OrderDelete where
  orderId : UInt64
  timestampNs : UInt32 := 0
  orderBookId : UInt32
  messageType : UInt8 := 68
  side : UInt8

structure OrderBookFlush where
  orderBookId : UInt32

/-- `order_id` is the dummy byte that lets the message take the branch of the
order messages. -/
structure Trade where
  quantity : UInt64
  timestampNs : UInt32 := 0
  orderBookId : UInt32
  tradePrice : Int32
  messageType : UInt8 := 80
  side : UInt8
  orderId : UInt8 := 0

/-- `reinterpret_cast<const ITCHOrderExecutedMessage *>(&msg)`: byte 36 of the
structure, the `message_type` of an execution, is the low byte of
`trade_price`. -/
def OrderExecutedWithPrice.asOrderExecuted (msg : OrderExecutedWithPrice) : OrderExecuted :=
  { orderId := msg.orderId, executedQuantity := msg.executedQuantity,
    timestampNs := msg.timestampNs, orderBookId := msg.orderBookId,
    messageType := msg.tradePrice.toUInt32.toUInt8,
    side := (msg.tradePrice.toUInt32 >>> 8).toUInt8 }

/-- `BIST::ITCHMessage`. -/
inductive ItchMessage
  | seconds
  | orderBookDirectory (msg : OrderBookDirectory)
  | combinationOrderBookLeg
  | tickSizeTableEntry (msg : TickSizeTableEntry)
  | shortSellStatus
  | systemEvent (msg : SystemEvent)
  | orderBookState (msg : OrderBookState)
  | addOrder (msg : AddOrder)
  | orderExecuted (msg : OrderExecuted)
  | orderExecutedWithPrice (msg : OrderExecutedWithPrice)
  | orderDelete (msg : OrderDelete)
  | orderBookFlush (msg : OrderBookFlush)
  | trade (msg : Trade)
  | equilibriumPriceUpdate

end Bist

/-! ### NASDAQ -/

namespace Nasdaq

/-- `ITCHAddOrderMessage`, and `ITCHAddOrderMPIDMessage` with its own message
type.  `stock` is what stands in memory from that field on: `copy_symbol` reads
up to the first blank. -/
structure AddOrder where
  timestamp : UInt64 := 0
  orderRef : UInt64
  shares : UInt32
  price : UInt32
  stockLocate : UInt16
  messageType : UInt8 := 65
  side : UInt8
  stock : List UInt8 := []

structure Cancel where
  timestamp : UInt64 := 0
  orderRef : UInt64
  cancelledShares : UInt32
  messageType : UInt8 := 88

structure Executed where
  timestamp : UInt64 := 0
  orderRef : UInt64
  executedShares : UInt32
  messageType : UInt8 := 69

structure ExecutedWithPrice where
  timestamp : UInt64 := 0
  orderRef : UInt64
  executedShares : UInt32
  executionPrice : UInt32
  stockLocate : UInt16 := 0
  messageType : UInt8 := 67

structure Delete where
  timestamp : UInt64 := 0
  orderRef : UInt64
  messageType : UInt8 := 68

structure Replace where
  timestamp : UInt64 := 0
  orderRef : UInt64
  newOrderRef : UInt64
  shares : UInt32
  price : UInt32
  stockLocate : UInt16
  messageType : UInt8 := 85

structure Trade where
  timestamp : UInt64 := 0
  orderRef : UInt64
  shares : UInt32
  price : UInt32
  stockLocate : UInt16
  messageType : UInt8 := 80

structure SystemEvent where
  eventCode : UInt8

/-- `afterStock` is what follows the eight bytes of `stock` in memory: the
constructor of `SymbolMeta` reads on into it. -/
structure StockDirectory where
  roundLotSize : UInt32
  stockLocate : UInt16
  stock : List UInt8
  afterStock : List UInt8

structure TradingState where
  stockLocate : UInt16
  tradingState : UInt8

/-- `reinterpret_cast<const ITCHExecutedMessage *>(&msg)`: byte 32 of the
structure, the `message_type` of an execution, is the low byte of
`stock_locate`. -/
def ExecutedWithPrice.asExecuted (msg : ExecutedWithPrice) : Executed :=
  { timestamp := msg.timestamp, orderRef := msg.orderRef, executedShares := msg.executedShares,
    messageType := msg.stockLocate.toUInt8 }

/-- `NASDAQ::ITCHMessage`. -/
inductive ItchMessage
  | addOrder (msg : AddOrder)
  | addOrderMpid (msg : AddOrder)
  | cancel (msg : Cancel)
  | executed (msg : Executed)
  | executedWithPrice (msg : ExecutedWithPrice)
  | delete (msg : Delete)
  | replace (msg : Replace)
  | trade (msg : Trade)
  | systemEvent (msg : SystemEvent)
  | stockDirectory (msg : StockDirectory)
  | tradingState (msg : TradingState)

end Nasdaq

end TradingEngine
