/-
The OUCH messages the order manager receives
(`generated/GeneratedOUCHMessages_BIST.h`,
`generated/GeneratedOUCHMessages_NASDAQ.h`, `protocol/types/OUCH`).

As for ITCH, a message keeps the fields that `update_order` and the fillers
read, at the widths of the source: BIST quantities are `uint64_t` and its
prices `int32_t`, NASDAQ quantities are `uint32_t` and its prices `uint64_t`.
Tokens are the fourteen bytes of the wire, whatever they are.

`update_order` tells the types apart by the fields they have: BIST messages with
an `order_id` name their order by key, the other two by token; NASDAQ messages
with an `order_reference_number` name it by key, those with a `user_ref_num` by
that number, and the two that have neither are only passed on to the database.
-/
import TradingEngine.Order

namespace TradingEngine

/-! ### BIST -/

namespace Bist

structure OuchAccepted where
  timestamp : UInt64 := 0
  orderId : UInt64
  quantity : UInt64
  orderBookId : UInt32
  price : Int32
  orderToken : List UInt8
  side : UInt8
  deriving DecidableEq, Repr

structure OuchRejected where
  timestamp : UInt64 := 0
  orderToken : List UInt8
  deriving DecidableEq, Repr

structure OuchReplaced where
  timestamp : UInt64 := 0
  orderId : UInt64
  quantity : UInt64
  orderBookId : UInt32
  price : Int32
  side : UInt8
  timeInForce : UInt8 := 0
  orderState : UInt8 := 0
  orderToken : List UInt8
  deriving DecidableEq, Repr

structure OuchCancelled where
  timestamp : UInt64 := 0
  orderId : UInt64
  orderBookId : UInt32
  orderToken : List UInt8
  side : UInt8
  deriving DecidableEq, Repr

structure OuchExecuted where
  timestamp : UInt64 := 0
  tradedQuantity : UInt64
  tradePrice : Int32
  orderToken : List UInt8
  deriving DecidableEq, Repr

/-- `BIST::OUCHMessage`. -/
inductive OuchMessage
  | accepted (msg : OuchAccepted)
  | rejected (msg : OuchRejected)
  | replaced (msg : OuchReplaced)
  | cancelled (msg : OuchCancelled)
  | executed (msg : OuchExecuted)
  deriving DecidableEq, Repr

end Bist

/-! ### NASDAQ -/

namespace Nasdaq

structure OuchAccepted where
  timestamp : UInt64 := 0
  price : UInt64
  orderReferenceNumber : UInt64
  quantity : UInt32
  side : UInt8
  clOrdId : List UInt8
  deriving DecidableEq, Repr

structure OuchReplaced where
  timestamp : UInt64 := 0
  price : UInt64
  orderReferenceNumber : UInt64
  userRefNum : UInt32
  quantity : UInt32
  side : UInt8
  symbol : List UInt8
  timeInForce : UInt8 := 48
  clOrdId : List UInt8
  deriving DecidableEq, Repr

structure OuchCancelled where
  userRefNum : UInt32
  quantity : UInt32
  deriving DecidableEq, Repr

structure OuchExecuted where
  timestamp : UInt64 := 0
  price : UInt64
  userRefNum : UInt32
  quantity : UInt32
  deriving DecidableEq, Repr

structure OuchRejected where
  timestamp : UInt64 := 0
  clOrdId : List UInt8
  deriving DecidableEq, Repr

structure OuchModified where
  userRefNum : UInt32
  quantity : UInt32
  side : UInt8
  deriving DecidableEq, Repr

/-- The messages of which `update_order` reads nothing but the number of the
order: a broken trade, a pending cancel and a rejected cancel. -/
structure OuchUserRef where
  userRefNum : UInt32
  deriving DecidableEq, Repr

/-- `NASDAQ::OUCHMessage`. -/
inductive OuchMessage
  | systemEvent
  | accepted (msg : OuchAccepted)
  | replaced (msg : OuchReplaced)
  | cancelled (msg : OuchCancelled)
  | executed (msg : OuchExecuted)
  | rejected (msg : OuchRejected)
  | brokenTrade (msg : OuchUserRef)
  | modified (msg : OuchModified)
  | cancelPending (msg : OuchUserRef)
  | cancelReject (msg : OuchUserRef)
  | accountQueryResponse
  deriving DecidableEq, Repr

end Nasdaq

end TradingEngine
