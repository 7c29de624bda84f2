/-
The data of the risk engine (`risk/RiskEngine.h`, `risk/Limits.h`).

One account per venue, one `SymbolRisk` per symbol slot, and for every venue a
map from `OrderRiskKey` to a slot of the pool of 65536 `OrderRisk` entries that
the two venues share.  The update thread writes the risk fields, the check
thread reads them; an atomic access is a plain read or write here.

Machine arithmetic: amounts are `int64_t` and wrap; the account counts its open
orders in `uint32_t`, a symbol in `int32_t`; the average entry price is an
`int32_t` that a 64-bit quotient is truncated into.

* `OrderRiskKey.make` — the key as the two call sites build it.  The struct
  declares its fields in the order price, symbol, side, venue and the braces
  give symbol, price, side, venue, so the key's `price` holds the symbol and
  its `symbol_index` the low 32 bits of the price (`OrderRiskKey.make_eq_iff`).
* `RiskEngine.pushReject` — `get_reject_order_packet` and the push to
  `risk_to_strategy_`.

Field paddings, `pipeline_seq` and the scale factors of a `SymbolLimit`, which
no function reads, are left out.
-/
import Mathlib.Data.Finmap
import TradingEngine.BoundedQueue
import TradingEngine.OrderManager

namespace TradingEngine

/-! ### Limits -/

structure SymbolLimit where
  maxPositionScaled : Int64 := 0
  maxOrderNotionalScaled : Int64 := 0
  maxPriceDeviation : Int64 := 0
  maxExposureScaled : Int64 := 0
  fatFingerRatio : Int64 := 0
  minQty : UInt32 := 0
  maxQty : UInt32 := 0
  maxOpenOrders : UInt32 := 0
  fatFingerQtyThreshold : UInt32 := 0
  deriving DecidableEq, Repr

structure AccountLimit where
  maxNotional : Int64 := 0
  maxDailyLoss : Int64 := 0
  maxUnrealizedLoss : Int64 := 0
  /-- In parts per million, as the next. -/
  makerFeeRate : Int64 := 0
  takerFeeRate : Int64 := 0
  maxLeverage : Int64 := 0
  maxOpenOrders : UInt32 := 0
  deriving DecidableEq, Repr

structure Limits where
  symbolLimits : VenueIndex → List SymbolLimit := fun _ => []
  accountLimits : VenueIndex → AccountLimit := fun _ => {}

def Limits.getSymbolLimit (lim : Limits) (v : VenueIndex) (symbolIndex : UInt32) :
    Except Fault SymbolLimit :=
  match (lim.symbolLimits v)[symbolIndex.toNat]? with
  | none => .error .outOfBounds
  | some sl => .ok sl

def Limits.getAccountLimit (lim : Limits) (v : VenueIndex) : AccountLimit := lim.accountLimits v

/-! ### Risk records -/

structure OrderRateLimit where
  tokens : UInt64 := 0
  lastRefillNs : UInt64 := 0
  capacity : UInt64 := 0
  refillIntervalNs : UInt64 := 0
  deriving DecidableEq, Repr

structure CancelRateLimit where
  lastCancelTimestampNs : UInt64 := 0
  cancelCountWindow : UInt32 := 0
  maxCancelsPerSec : UInt32 := 0
  deriving DecidableEq, Repr

inductive AccountStatus
  | inactive
  | active
  | suspended
  | closed
  deriving DecidableEq, Repr

structure AccountRisk where
  currentExposure : Int64 := 0
  balance : Int64 := 10000000
  positionalExposure : Int64 := 0
  usedMargin : Int64 := 0
  currentLeverage : Int64 := 1
  dailyRealizedPnl : Int64 := 0
  totalUnrealizedPnl : Int64 := 0
  openOrdersCount : UInt32 := 0
  status : AccountStatus := .active
  orderratelimit : OrderRateLimit := {}
  cancelratelimit : CancelRateLimit := {}
  deriving DecidableEq, Repr

structure SymbolRisk where
  pendingNotionalScaled : Int64 := 0
  openOrdersCount : Int32 := 0
  bestBid : Int64 := 0
  bestAsk : Int64 := 0
  unrealizedPnl : Int64 := 0
  costBasisScaled : Int64 := 0
  realizedPnl : Int64 := 0
  netPosition : Int64 := 0
  avgEntryPrice : Int32 := 0
  orderratelimit : OrderRateLimit := {}
  cancelratelimit : CancelRateLimit := {}
  deriving DecidableEq, Repr

structure OrderRisk where
  price : Int64 := 0
  symbolIndex : UInt32 := 0
  remainingQty : UInt32 := 0
  side : Side := .unknown
  status : Status := .unknown
  active : Bool := false
  venue : Venue := .unknown
  deriving DecidableEq, Repr

structure OrderRiskKey where
  price : Int64
  symbolIndex : UInt32
  side : UInt8
  venue : UInt8
  deriving DecidableEq, Repr

/-- `OrderRiskKey{symbol_index, price, side, venue}`: the initialisers go to
the fields in declaration order. -/
def OrderRiskKey.make (symbolIndex : UInt32) (price : Int64) (side venue : UInt8) : OrderRiskKey :=
  { price := symbolIndex.toInt64
    symbolIndex := price.toUInt64.toUInt32
    side := side
    venue := venue }

/-- Two orders share a key exactly when they agree on symbol, side and venue
and on the low 32 bits of the price. -/
theorem OrderRiskKey.make_eq_iff {i i' : UInt32} {p p' : Int64} {s s' v v' : UInt8} :
    OrderRiskKey.make i p s v = OrderRiskKey.make i' p' s' v' ↔
      i = i' ∧ p.toUInt64.toUInt32 = p'.toUInt64.toUInt32 ∧ s = s' ∧ v = v' := by
  rw [make, make, OrderRiskKey.mk.injEq]
  have hwiden : i.toInt64 = i'.toInt64 ↔ i = i' := by
    constructor
    · intro h
      rw [← UInt32.toUInt32_toInt64 i, h, UInt32.toUInt32_toInt64]
    · exact fun h => congrArg _ h
  rw [hwiden]

/-- The products every update function starts from. -/
structure OrderMetrics where
  nominal : Int64
  notional : Int64
  replaced : Int64
  /-- 1 for a buy, -1 otherwise. -/
  sideMult : Int64

def OrderMetrics.ofOrder (order : Order) : OrderMetrics :=
  { nominal := order.price * order.lastExecQuantity.toInt64
    notional := order.price * order.quantity.toInt64
    replaced := order.price * order.replacedQuantity.toInt64
    sideMult := if order.side = .buy then 1 else -1 }

/-! ### Reject reasons -/

inductive RiskRejectReason
  | none
  | maxPositionLimitExceeded
  | maxOrderSizeExceeded
  | minOrderSizeExceeded
  | invalidLotSize
  | maxOrderNotionalLimitExceeded
  | maxNotionalLimitExceeded
  | maxSymbolExposureLimitExceeded
  | maxOpenOrdersReachedAccount
  | maxOpenOrdersReachedSymbol
  | priceTickInvalid
  | invalidPriceRange
  | fatFingerCheckFailed
  | maxOrderRateLimitExceededAccount
  | maxCancelRateLimitExceededAccount
  | maxOrderRateLimitExceededSymbol
  | maxCancelRateLimitExceededSymbol
  | selfTradeDetected
  | restrictedAccountStatus
  | accountBalanceInsufficient
  | maxLeverageExceeded
  | freeMarginInsufficient
  | realizedLossLimitExceeded
  | unrealizedLossLimitExceeded
  | venueTradingHalted
  | circuitBreakerTriggered
  | symbolTradingHalted
  | marketDataUnavailable
  | riskEngineInternalError
  deriving DecidableEq, Repr

/-- `RiskFlags_t`: a disjunction of reject reasons. -/
abbrev RiskFlags := UInt32

/-- `to_underlying(RiskRejectReason)`; bit 17 is not used by the source. -/
def RiskRejectReason.flag : RiskRejectReason → RiskFlags
  | .none => 0
  | .maxPositionLimitExceeded => (1 : RiskFlags) <<< 0
  | .maxOrderSizeExceeded => (1 : RiskFlags) <<< 1
  | .minOrderSizeExceeded => (1 : RiskFlags) <<< 2
  | .invalidLotSize => (1 : RiskFlags) <<< 3
  | .maxOrderNotionalLimitExceeded => (1 : RiskFlags) <<< 4
  | .maxNotionalLimitExceeded => (1 : RiskFlags) <<< 5
  | .maxSymbolExposureLimitExceeded => (1 : RiskFlags) <<< 6
  | .maxOpenOrdersReachedAccount => (1 : RiskFlags) <<< 7
  | .maxOpenOrdersReachedSymbol => (1 : RiskFlags) <<< 8
  | .priceTickInvalid => (1 : RiskFlags) <<< 9
  | .invalidPriceRange => (1 : RiskFlags) <<< 10
  | .fatFingerCheckFailed => (1 : RiskFlags) <<< 11
  | .maxOrderRateLimitExceededAccount => (1 : RiskFlags) <<< 12
  | .maxCancelRateLimitExceededAccount => (1 : RiskFlags) <<< 13
  | .maxOrderRateLimitExceededSymbol => (1 : RiskFlags) <<< 14
  | .maxCancelRateLimitExceededSymbol => (1 : RiskFlags) <<< 15
  | .selfTradeDetected => (1 : RiskFlags) <<< 16
  | .restrictedAccountStatus => (1 : RiskFlags) <<< 18
  | .accountBalanceInsufficient => (1 : RiskFlags) <<< 19
  | .maxLeverageExceeded => (1 : RiskFlags) <<< 20
  | .freeMarginInsufficient => (1 : RiskFlags) <<< 21
  | .realizedLossLimitExceeded => (1 : RiskFlags) <<< 22
  | .unrealizedLossLimitExceeded => (1 : RiskFlags) <<< 23
  | .venueTradingHalted => (1 : RiskFlags) <<< 24
  | .circuitBreakerTriggered => (1 : RiskFlags) <<< 25
  | .symbolTradingHalted => (1 : RiskFlags) <<< 26
  | .marketDataUnavailable => (1 : RiskFlags) <<< 27
  | .riskEngineInternalError => (1 : RiskFlags) <<< 28

structure OrderWithRejectReason where
  order : Option OrderSlot := none
  rejectReason : RiskFlags := 0
  deriving DecidableEq

/-! ### The engine -/

/-- `ORDERRISK_POOL_CAPACITY`; a pointer into `orderrisk_pool_`. -/
abbrev OrderRiskSlot := Fin 65536

/-- `REJECTORDER_POOL_CAPACITY`; a pointer into `reject_order_pool_`. -/
abbrev RejectSlot := Fin 1024

structure RiskEngine where
  orderriskPool : OrderRiskSlot → OrderRisk := fun _ => {}
  orderriskNextSlot : ℕ := 0
  rejectOrderPool : RingPool OrderWithRejectReason 1024 := ⟨fun _ => {}, 0⟩
  strategyToRisk : SpscQueue OrderSlot := .empty
  riskToStrategy : BoundedQueue RejectSlot 1024 := .empty
  riskToBuilder : SpscQueue OrderSlot := .empty
  accountrisks : VenueIndex → AccountRisk := fun _ => {}
  symbolrisks : VenueIndex → SymbolSlot → SymbolRisk := fun _ _ => {}
  orderrisks : VenueIndex → HashMap OrderRiskKey OrderRiskSlot := fun _ => ∅
  limits : Limits := {}

namespace RiskEngine

instance : Inhabited RiskEngine := ⟨{}⟩

/-- What the constructor leaves: `initialize_accountrisks` and
`initialize_symbolrisks` only set the rate limits. -/
structure Fresh (re : RiskEngine) : Prop where
  accounts : ∀ v, ∃ o c, re.accountrisks v = { orderratelimit := o, cancelratelimit := c }
  symbols : ∀ v i, ∃ o c, re.symbolrisks v i = { orderratelimit := o, cancelratelimit := c }
  orderrisks : ∀ v, re.orderrisks v = ∅
  pool : ∀ p, re.orderriskPool p = {}

theorem fresh_default : Fresh {} :=
  ⟨fun _ => ⟨{}, {}, rfl⟩, fun _ _ => ⟨{}, {}, rfl⟩, fun _ => rfl, fun _ => rfl⟩

/-- `venue_index` as the `uint8_t` of a key. -/
def venueCode (v : VenueIndex) : UInt8 := UInt8.ofNat v

/-- The account of one venue replaced. -/
def setAccount (re : RiskEngine) (v : VenueIndex) (acc : AccountRisk) : RiskEngine :=
  { re with accountrisks := Function.update re.accountrisks v acc }

/-- The risk of one symbol replaced. -/
def setSymbol (re : RiskEngine) (v : VenueIndex) (i : SymbolSlot) (sym : SymbolRisk) : RiskEngine :=
  { re with symbolrisks :=
      Function.update re.symbolrisks v (Function.update (re.symbolrisks v) i sym) }

/-- One entry of `orderrisk_pool_` rewritten. -/
def setOrderRisk (re : RiskEngine) (p : OrderRiskSlot) (oR : OrderRisk) : RiskEngine :=
  { re with orderriskPool := Function.update re.orderriskPool p oR }

/-- `risk_to_strategy_.push(get_reject_order_packet(order, reason))`. -/
def pushReject (re : RiskEngine) (order : OrderSlot) (reason : RiskFlags) : RiskEngine :=
  { re with
    rejectOrderPool := re.rejectOrderPool.put ⟨some order, reason⟩
    riskToStrategy := re.riskToStrategy.push re.rejectOrderPool.slot }

end RiskEngine

end TradingEngine
