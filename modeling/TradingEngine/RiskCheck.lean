/-
The check thread of the risk engine (`check_risk` and its helpers in
`risk/RiskEngine.h`, `risk/RiskEngine.cpp`).

`checkRisk` pops orders from `strategy_to_risk_` until one is forwarded to the
builder or the queue is empty.  Each order passes the halt check; a cancel
request then goes to the rate limiter; a limit order to the five price and
notional checks; and every order that is left to the main checks.  The reasons
of a stage are or-ed together and a non-zero disjunction is sent back to the
strategy.

The clock of the cancel limiter is an argument: `now i` is what the i-th popped
order would read from `tsc_to_ns(__rdtsc())`.  `check_risk` has the call of
`check_order_rate_limit` commented out; the limiter itself is in `RateLimit.lean`.

Two operations can fault: the remainder by `round_lot_size` in
`check_quantity_bounds`, and the accesses to the tables of an order whose venue,
symbol or instrument they do not have.
-/
import TradingEngine.RiskState

namespace TradingEngine

open RiskRejectReason hiding none

/-! ### Limit-order checks -/

/-- The loop of `check_price_tick_valid` over the entries of the tick table. -/
def checkTickEntries (price : Int64) (symbolmeta : SymbolMeta) (pool : TickSlot → TickSizeEntry) :
    List (Fin 5) → RiskFlags
  | [] => 0
  | i :: rest =>
    match symbolmeta.tickSizeTable i with
    | none => checkTickEntries price symbolmeta pool rest
    | some t =>
      let entry := pool t
      if entry.priceTo = 0 ∨ (entry.priceFrom ≤ price ∧ price ≤ entry.priceTo) then
        -- an entry that fits does not end the loop: later entries are tried as well
        let tickSize := entry.tickSize.toInt64
        if tickSize ≤ 0 then riskEngineInternalError.flag
        else if price % tickSize ≠ 0 then priceTickInvalid.flag
        else checkTickEntries price symbolmeta pool rest
      else checkTickEntries price symbolmeta pool rest

def checkPriceTickValid (price : Int64) (symbolmeta : SymbolMeta)
    (pool : TickSlot → TickSizeEntry) : RiskFlags :=
  checkTickEntries price symbolmeta pool (List.finRange 5)

/-- A check of one condition: its reason, or no flag. -/
def reasonIf (c : Prop) [Decidable c] (reason : RiskRejectReason) : RiskFlags :=
  if c then reason.flag else 0

def checkMaxOrderNotionalValue (price : Int64) (qty : UInt32) (maxNotionalScaled : Int64) :
    RiskFlags :=
  reasonIf (maxNotionalScaled < price * qty.toInt64) maxOrderNotionalLimitExceeded

def checkMaxSymbolExposureValue (price : Int64) (qty : UInt32) (side : Side)
    (pendingNotionalScaled maxExposureScaled : Int64) : RiskFlags :=
  let sideMult : Int64 := if side = .buy then 1 else -1
  let notional := price * qty.toInt64 * sideMult
  reasonIf (maxExposureScaled < pendingNotionalScaled + notional) maxSymbolExposureLimitExceeded

def checkMarketDataAndDeviation (bestBid bestAsk price maxPriceDeviation : Int64) : RiskFlags :=
  if bestBid = 0 ∧ bestAsk = 0 then marketDataUnavailable.flag
  else
    let midPrice := (bestBid + bestAsk) / 2
    reasonIf (0 < maxPriceDeviation ∧ maxPriceDeviation < (price - midPrice).abs) invalidPriceRange

def checkFatFinger (qty fatFingerQtyThreshold : UInt32)
    (price bestBid bestAsk fatFingerRatioScaled : Int64) : RiskFlags :=
  let mid := (bestBid + bestAsk) / 2
  if 0 < mid then
    let ratio := price * 1000 / mid
    reasonIf (fatFingerQtyThreshold ≤ qty ∧ fatFingerRatioScaled < ratio) fatFingerCheckFailed
  else 0

/-! ### Main checks -/

/-- The three tests are made in turn; the remainder traps on a lot size of 0. -/
def checkQuantityBounds (qty minQty maxQty roundLotSize : UInt32) : Except Fault RiskFlags :=
  if qty < minQty then .ok minOrderSizeExceeded.flag
  else if maxQty < qty then .ok maxOrderSizeExceeded.flag
  else if roundLotSize = 0 then .error .arithmeticTrap
  else .ok (reasonIf (qty % roundLotSize ≠ 0) invalidLotSize)

def checkMaxOpenOrdersAccount (currentOpenOrders maxOpenOrders : UInt32) : RiskFlags :=
  reasonIf (maxOpenOrders ≤ currentOpenOrders) maxOpenOrdersReachedAccount

def checkMaxOpenOrdersSymbol (symbolOpenOrders maxSymbolOpenOrders : UInt32) : RiskFlags :=
  reasonIf (maxSymbolOpenOrders ≤ symbolOpenOrders) maxOpenOrdersReachedSymbol

def checkMaxPositionLimit (netPositionScaled orderQty : Int64) (side : Side)
    (maxPositionScaled : Int64) : RiskFlags :=
  let sideMult : Int64 := if side = .buy then 1 else -1
  let projectedPosition := netPositionScaled + sideMult * orderQty
  reasonIf (maxPositionScaled.abs < projectedPosition.abs) maxPositionLimitExceeded

def checkAccStatus (status : AccountStatus) : RiskFlags :=
  reasonIf (status ≠ .active) restrictedAccountStatus

def checkFreeMargin (balance totalUnrealizedPnl estimatedNotional usedMargin : Int64) : RiskFlags :=
  let equity := balance + totalUnrealizedPnl
  let freeMargin := equity - usedMargin
  reasonIf (freeMargin < estimatedNotional) freeMarginInsufficient

def checkBalance (balance estimatedNotional : Int64) : RiskFlags :=
  reasonIf (balance < estimatedNotional) accountBalanceInsufficient

def checkMaxLeverage (balance currentExposure estimatedNotional maxLeverage : Int64) : RiskFlags :=
  if balance ≤ 0 then maxLeverageExceeded.flag
  else
    let projectedLeverage := (currentExposure + estimatedNotional) * 10000 / balance
    reasonIf (maxLeverage < projectedLeverage) maxLeverageExceeded

def checkMaxNotional (currentExposure estimatedNotional maxNotional : Int64) : RiskFlags :=
  reasonIf (maxNotional < currentExposure + estimatedNotional) maxNotionalLimitExceeded

def checkMaxDrawdown (dailyRealizedPnl avg price : Int64) (qty : UInt32) (side : Side)
    (maxDailyLoss : Int64) : RiskFlags :=
  let projectedRealized :=
    dailyRealizedPnl + if side = .sell then (price - avg) * qty.toInt64 else 0
  reasonIf (projectedRealized < -maxDailyLoss) realizedLossLimitExceeded

def checkUnrealizedLoss (totalUnrealizedPnl bestBid avg price : Int64) (qty : UInt32) (side : Side)
    (maxUnrealizedLoss : Int64) : RiskFlags :=
  let projectedUnrealized :=
    if side = .buy then totalUnrealizedPnl + (bestBid - price) * qty.toInt64
    else totalUnrealizedPnl - (bestBid - avg) * qty.toInt64
  reasonIf (projectedUnrealized < -maxUnrealizedLoss) unrealizedLossLimitExceeded

def checkAccountRisk (order : Order) (acc : AccountRisk) (lim : AccountLimit) (sym : SymbolRisk) :
    RiskFlags :=
  let avg := sym.avgEntryPrice.toInt64
  let estimatedNotional := order.price * order.quantity.toInt64
  let reason := checkAccStatus acc.status |||
    checkMaxLeverage acc.balance acc.currentExposure estimatedNotional lim.maxLeverage |||
    checkMaxDrawdown acc.dailyRealizedPnl avg order.price order.quantity order.side
      lim.maxDailyLoss |||
    checkUnrealizedLoss acc.totalUnrealizedPnl sym.bestBid avg order.price order.quantity order.side
      lim.maxUnrealizedLoss
  if 0 < order.price ∧ order.orderType = .limit then
    reason |||
      checkFreeMargin acc.balance acc.totalUnrealizedPnl estimatedNotional acc.usedMargin |||
      checkBalance acc.balance estimatedNotional |||
      checkMaxNotional acc.currentExposure estimatedNotional lim.maxNotional
  else reason

/-! ### The cancel limiter -/

namespace CancelRateLimit

/-- One cancel at time `now`: a window older than a second starts anew. -/
def note (c : CancelRateLimit) (now : UInt64) : CancelRateLimit :=
  let c := if 1000000000 < now - c.lastCancelTimestampNs then
    { c with cancelCountWindow := 0, lastCancelTimestampNs := now } else c
  { c with cancelCountWindow := c.cancelCountWindow + 1 }

def exceeded (c : CancelRateLimit) : Bool := c.maxCancelsPerSec < c.cancelCountWindow

end CancelRateLimit

namespace RiskEngine

/-- `!to_underlying(side)`. -/
def notSide (side : Side) : UInt8 := if side.code = 0 then 1 else 0

def checkSelfTradeOrder (re : RiskEngine) (order : Order) (v : VenueIndex) : RiskFlags :=
  let key := OrderRiskKey.make order.symbolIndex order.price (notSide order.side) (venueCode v)
  -- one level only: own orders at better prices on the other side are not looked at
  match (re.orderrisks v).lookup key with
  | none => 0
  | some p => reasonIf ((re.orderriskPool p).active = true) selfTradeDetected

/-- `check_cancel_rate_limit`: whether a limit is exceeded; the reject is already
pushed then. -/
def checkCancelRateLimit (re : RiskEngine) (v : VenueIndex) (i : SymbolSlot) (slot : OrderSlot)
    (now : UInt64) : Bool × RiskEngine :=
  let acc := re.accountrisks v
  let accLimiter := acc.cancelratelimit.note now
  let sym := re.symbolrisks v i
  let symLimiter := sym.cancelratelimit.note now
  let reason := reasonIf (accLimiter.exceeded = true) maxCancelRateLimitExceededAccount |||
    reasonIf (symLimiter.exceeded = true) maxCancelRateLimitExceededSymbol
  let re := (re.setAccount v { acc with cancelratelimit := accLimiter }).setSymbol v i
    { sym with cancelratelimit := symLimiter }
  (accLimiter.exceeded || symLimiter.exceeded,
    if reason ≠ 0 then re.pushReject slot reason else re)

/-! ### The stages of `check_risk` -/

/-- `check_venue_halt_and_circuit` up to the push: the reason to reject. -/
def haltReason (om : OrderManager) (v : VenueIndex) (symbolmeta : SymbolMeta) :
    Option RiskRejectReason :=
  if om.venueFlags v = 1 then some venueTradingHalted
  else if om.venueFlags v = 2 then some circuitBreakerTriggered
  else if symbolmeta.halted then some symbolTradingHalted
  else none

/-- The five checks of a limit order. -/
def limitChecks (order : Order) (sym : SymbolRisk) (lim : SymbolLimit) (symbolmeta : SymbolMeta)
    (pool : TickSlot → TickSizeEntry) : RiskFlags :=
  checkPriceTickValid order.price symbolmeta pool |||
    checkMaxOrderNotionalValue order.price order.quantity lim.maxOrderNotionalScaled |||
    checkMaxSymbolExposureValue order.price order.quantity order.side sym.pendingNotionalScaled
      lim.maxExposureScaled |||
    checkMarketDataAndDeviation sym.bestBid sym.bestAsk order.price lim.maxPriceDeviation |||
    checkFatFinger order.quantity lim.fatFingerQtyThreshold order.price sym.bestBid sym.bestAsk
      lim.fatFingerRatio

/-- The main checks. -/
def mainChecks (re : RiskEngine) (order : Order) (v : VenueIndex) (sym : SymbolRisk)
    (lim : SymbolLimit) (symbolmeta : SymbolMeta) : Except Fault RiskFlags := do
  let acc := re.accountrisks v
  let accLim := re.limits.getAccountLimit v
  let bounds ← checkQuantityBounds order.quantity lim.minQty lim.maxQty symbolmeta.roundLotSize
  .ok (bounds |||
    checkMaxOpenOrdersAccount acc.openOrdersCount accLim.maxOpenOrders |||
    checkMaxOpenOrdersSymbol sym.openOrdersCount.toUInt32 lim.maxOpenOrders |||
    re.checkSelfTradeOrder order v |||
    checkMaxPositionLimit sym.netPosition order.quantity.toInt64 order.side
      lim.maxPositionScaled |||
    checkAccountRisk order acc accLim sym)

/-- Mark the order as passed and push it to `risk_to_builder_`. -/
def forward (re : RiskEngine) (om : OrderManager) (slot : OrderSlot) :
    RiskEngine × OrderManager :=
  let order := om.orderPool slot
  ({ re with riskToBuilder := re.riskToBuilder.push slot },
    om.setOrder slot { order with canModify := order.canModify ||| riskDone })

/-- The last stage: the main checks, then reject or forward. -/
def checkMain (re : RiskEngine) (om : OrderManager) (slot : OrderSlot) (v : VenueIndex)
    (sym : SymbolRisk) (lim : SymbolLimit) (symbolmeta : SymbolMeta) :
    Except Fault (Bool × RiskEngine × OrderManager) := do
  let reason ← re.mainChecks (om.orderPool slot) v sym lim symbolmeta
  if reason ≠ 0 then .ok (false, re.pushReject slot reason, om)
  else .ok (true, re.forward om slot)

/-- The loop body of `check_risk`: whether the call returns, and the state. -/
def checkRiskOrder (re : RiskEngine) (om : OrderManager) (slot : OrderSlot) (now : UInt64) :
    Except Fault (Bool × RiskEngine × OrderManager) := do
  let order := om.orderPool slot
  let v ← order.venue.index
  let i ← symbolSlot order.symbolIndex
  let lim ← re.limits.getSymbolLimit v order.symbolIndex
  let sym := re.symbolrisks v i
  match om.getSymbolmeta v order.instrumentId with
  | none => .error .nullDereference
  | some symbolmeta =>
    match haltReason om v symbolmeta with
    | some reason => .ok (false, re.pushReject slot reason.flag, om)
    | none =>
      if order.status = .cancelRequest then
        -- the source takes the result for "allowed": an exceeded limit, already
        -- rejected, is also forwarded, and a cancel within the limits goes nowhere
        let (exceeded, re) := re.checkCancelRateLimit v i slot now
        if exceeded then .ok (true, re.forward om slot) else .ok (false, re, om)
      else
        let reason := if order.orderType = .limit then
          limitChecks order sym lim symbolmeta om.tickSizeEntryPool else 0
        if reason ≠ 0 then .ok (false, re.pushReject slot reason, om)
        else re.checkMain om slot v sym lim symbolmeta

/-- The loop of `check_risk` over the queued orders. -/
def checkRiskLoop (now : ℕ → UInt64) : ℕ → RiskEngine → OrderManager → List OrderSlot →
    Except Fault (Bool × RiskEngine × OrderManager)
  | _, re, om, [] => .ok (false, re, om)
  | n, re, om, slot :: rest => do
    let popped := { re with strategyToRisk := re.strategyToRisk.tail }
    let (done, re, om) ← popped.checkRiskOrder om slot (now n)
    if done then .ok (true, re, om) else checkRiskLoop now (n + 1) re om rest

def checkRisk (re : RiskEngine) (om : OrderManager) (now : ℕ → UInt64) :
    Except Fault (Bool × RiskEngine × OrderManager) :=
  checkRiskLoop now 0 re om re.strategyToRisk.items

end RiskEngine

end TradingEngine
