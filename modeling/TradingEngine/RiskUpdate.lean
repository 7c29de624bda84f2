/-
The update thread of the risk engine (`update_risk` and its helpers in
`risk/RiskEngine.cpp`).

`updateRisk` pops orders from `store_to_risk_`.  A FIX order is applied up to
three times, once for its status and once for each entry of `StatusesPreNew`
that is not `Unknown`, and the loop goes on; any other order is applied once
and ends the call.  Applying an own order touches the symbol, the self-trade
index and the account, in this order; a market order only refreshes the top of
book and the unrealized profit of its symbol.

The two fill branches of `update_symbol_risk` differ in the open-order count
only, so they share `applyFill`; the mark-to-market block that the source
writes out three times is `markToMarket`.  A case that returns early
(`cancelled_count > 1`) skips the clamps at the end of the function.

* `exec_reports_of_updateRiskOrder` — for an own order the loop body is the run
  of `applyReport` over the reports the order stands for;
* `exec_of_updateRisk` — a call is a run of the loop body over a first part of
  the queue.
-/
import TradingEngine.FallibleRun
import TradingEngine.RiskState

namespace TradingEngine

open FallibleRun

/-! ### One symbol -/

namespace SymbolRisk

def updateUnrealizedPnl (sym : SymbolRisk) (bestBid bestAsk : Int64) : SymbolRisk :=
  if sym.netPosition = 0 then { sym with unrealizedPnl := 0 }
  else
    let avgEntryPrice := sym.avgEntryPrice.toInt64
    let netPosAbs := sym.netPosition.abs
    if 0 < sym.netPosition then
      { sym with unrealizedPnl := (bestBid - avgEntryPrice) * netPosAbs }
    else { sym with unrealizedPnl := (avgEntryPrice - bestAsk) * netPosAbs }

/-- Only the unrealized profit is rewritten. -/
theorem updateUnrealizedPnl_eq (sym : SymbolRisk) (bestBid bestAsk : Int64) :
    ∃ pnl, sym.updateUnrealizedPnl bestBid bestAsk = { sym with unrealizedPnl := pnl } := by
  rw [updateUnrealizedPnl]
  dsimp only
  split
  · exact ⟨_, rfl⟩
  · split
    · exact ⟨_, rfl⟩
    · exact ⟨_, rfl⟩

/-- The two clamps at the end of `update_symbol_risk`. -/
def clamp (sym : SymbolRisk) : SymbolRisk :=
  { sym with
    pendingNotionalScaled := if sym.pendingNotionalScaled < 0 then 0 else sym.pendingNotionalScaled
    openOrdersCount := if sym.openOrdersCount < 0 then 0 else sym.openOrdersCount }

/-- What a buy fill does to the cost basis; the position is already updated. -/
def buyFill (sym : SymbolRisk) (m : OrderMetrics) : Except Fault SymbolRisk :=
  let costBasis := sym.costBasisScaled + m.nominal
  -- closing a short position by a buy divides by 0
  match costBasis.div? sym.netPosition with
  | none => .error .arithmeticTrap
  | some avg => .ok { sym with costBasisScaled := costBasis, avgEntryPrice := avg.toInt32 }

/-- Move the pending notional by the replaced amount of a priced order. -/
def addReplaced (sym : SymbolRisk) (order : Order) (m : OrderMetrics) : SymbolRisk :=
  if 0 < order.price then
    { sym with pendingNotionalScaled := sym.pendingNotionalScaled + m.replaced }
  else sym

end SymbolRisk

/-- The account gives up the old unrealized profit of the symbol and takes the
new one. -/
def markToMarket (acc : AccountRisk) (sym : SymbolRisk) (bestBid bestAsk : Int64) :
    AccountRisk × SymbolRisk :=
  if ¬(bestBid ≤ 0 ∧ bestAsk ≤ 0) ∧ sym.costBasisScaled ≠ 0 then
    let sym' := sym.updateUnrealizedPnl bestBid bestAsk
    ({ acc with totalUnrealizedPnl :=
        acc.totalUnrealizedPnl - sym.unrealizedPnl + sym'.unrealizedPnl }, sym')
  else (acc, sym)

/-- What a sell fill does to cost basis and realized profit; the position is
already updated. -/
def sellFill (acc : AccountRisk) (sym : SymbolRisk) (order : Order) : AccountRisk × SymbolRisk :=
  let avgEntryPrice := sym.avgEntryPrice.toInt64
  let execQty := order.lastExecQuantity.toInt64
  let realizedPnl := (order.price - avgEntryPrice) * execQty
  let acc := { acc with dailyRealizedPnl := acc.dailyRealizedPnl + realizedPnl }
  let sym := { sym with realizedPnl := sym.realizedPnl + realizedPnl }
  if sym.netPosition = 0 then (acc, { sym with costBasisScaled := 0, avgEntryPrice := 0 })
  else (acc, { sym with costBasisScaled := sym.costBasisScaled - avgEntryPrice * execQty })

/-- The branch on `side_mult` in the cases `Partial` and `Filled`. -/
def fillBasis (acc : AccountRisk) (sym : SymbolRisk) (order : Order) (m : OrderMetrics) :
    Except Fault (AccountRisk × SymbolRisk) :=
  if m.sideMult = 1 then (sym.buyFill m).map fun sym => (acc, sym)
  else .ok (sellFill acc sym order)

/-- The common body of the cases `Partial` and `Filled`. -/
def applyFill (acc : AccountRisk) (sym : SymbolRisk) (order : Order) (m : OrderMetrics) :
    Except Fault (AccountRisk × SymbolRisk) := do
  let sym := { sym with
    netPosition := sym.netPosition + m.sideMult * order.lastExecQuantity.toInt64
    pendingNotionalScaled := sym.pendingNotionalScaled - m.nominal * m.sideMult }
  let (acc, sym) ← fillBasis acc sym order m
  .ok (markToMarket acc sym sym.bestBid sym.bestAsk)

/-- `update_symbol_risk` on an own order. -/
def ownSymbolRisk (acc : AccountRisk) (sym : SymbolRisk) (order : Order) (m : OrderMetrics) :
    Except Fault (AccountRisk × SymbolRisk) :=
  match order.status with
  | .new =>
    let sym := { sym with openOrdersCount := sym.openOrdersCount + 1 }
    let pending := sym.pendingNotionalScaled
    let sym := { sym with pendingNotionalScaled :=
      if 0 < order.price then pending + m.notional * m.sideMult else pending }
    .ok (acc, sym.clamp)
  | .partialFill => do
    let (acc, sym) ← applyFill acc sym order m
    .ok (acc, sym.clamp)
  | .filled => do
    let sym := { sym with openOrdersCount := sym.openOrdersCount - 1 }
    let (acc, sym) ← applyFill acc sym order m
    .ok (acc, sym.clamp)
  | .cancelled | .deleted =>
    -- the early return also skips the clamps
    if 1 < order.cancelledCount then .ok (acc, sym)
    else
      let count := sym.openOrdersCount
      let sym := { sym with openOrdersCount :=
        if order.remainingQuantity = 0 then count - 1 else count }
      .ok (acc, (sym.addReplaced order m).clamp)
  | .replaced => .ok (acc, (sym.addReplaced order m).clamp)
  -- no case for `Expired`, which `update_account_risk` has
  | .unknown | .expired | .cancelRequest => .ok (acc, sym.clamp)

/-- `update_symbol_risk` on a market order.  The pointer that `get_symBook`
returns is not checked. -/
def marketSymbolRisk (acc : AccountRisk) (sym : SymbolRisk) (mb : MarketBook) (order : Order) :
    Except Fault (AccountRisk × SymbolRisk) := do
  match ← MarketBook.getSymBook order with
  | none => .error .nullDereference
  | some (v, i) =>
    let bestBid := (mb.symbolbooks v i).bestBid
    let bestAsk := (mb.symbolbooks v i).bestAsk
    let marked := markToMarket acc { sym with bestBid := bestBid, bestAsk := bestAsk }
      bestBid bestAsk
    .ok (marked.1, marked.2.clamp)

/-- `update_symbol_risk` on the account and the symbol it refers to. -/
def symbolRisk (acc : AccountRisk) (sym : SymbolRisk) (mb : MarketBook) (order : Order)
    (m : OrderMetrics) : Except Fault (AccountRisk × SymbolRisk) :=
  if order.isOurOrder then ownSymbolRisk acc sym order m else marketSymbolRisk acc sym mb order

/-- **What a fill changes.**  Position and pending notional move by the fill,
the profit figures of symbol and account are recomputed, nothing else is
touched. -/
theorem applyFill_eq_ok {acc acc' : AccountRisk} {sym sym' : SymbolRisk} {order : Order}
    {m : OrderMetrics} (h : applyFill acc sym order m = .ok (acc', sym')) :
    ∃ total daily cost avg realized unrealized,
      acc' = { acc with totalUnrealizedPnl := total, dailyRealizedPnl := daily } ∧
      sym' = { sym with
        netPosition := sym.netPosition + m.sideMult * order.lastExecQuantity.toInt64
        pendingNotionalScaled := sym.pendingNotionalScaled - m.nominal * m.sideMult
        costBasisScaled := cost, avgEntryPrice := avg, realizedPnl := realized,
        unrealizedPnl := unrealized } := by
  rw [applyFill] at h
  obtain ⟨⟨acc₁, sym₁⟩, hbasis, h⟩ := bind_eq_ok_iff.mp h
  have hmark : markToMarket acc₁ sym₁ sym₁.bestBid sym₁.bestAsk = (acc', sym') := Except.ok.inj h
  -- the mark-to-market rewrites one figure on each side
  have hmarked : ∃ total unrealized, acc' = { acc₁ with totalUnrealizedPnl := total } ∧
      sym' = { sym₁ with unrealizedPnl := unrealized } := by
    rw [markToMarket] at hmark
    split at hmark
    · obtain ⟨rfl, rfl⟩ := Prod.mk.inj hmark
      obtain ⟨pnl, hpnl⟩ := sym₁.updateUnrealizedPnl_eq sym₁.bestBid sym₁.bestAsk
      exact ⟨_, pnl, rfl, hpnl⟩
    · obtain ⟨rfl, rfl⟩ := Prod.mk.inj hmark
      exact ⟨_, _, rfl, rfl⟩
  obtain ⟨total, unrealized, rfl, rfl⟩ := hmarked
  rw [fillBasis] at hbasis
  split at hbasis
  · obtain ⟨bought, hbuy, heq⟩ := map_eq_ok_iff.mp hbasis
    obtain ⟨rfl, rfl⟩ := Prod.mk.inj heq
    rw [SymbolRisk.buyFill] at hbuy
    split at hbuy
    · exact absurd hbuy (by simp)
    · rw [← Except.ok.inj hbuy]
      exact ⟨total, _, _, _, _, unrealized, rfl, rfl⟩
  · have hsell := Except.ok.inj hbasis
    rw [sellFill] at hsell
    dsimp only at hsell
    split at hsell
    · obtain ⟨rfl, rfl⟩ := Prod.mk.inj hsell
      exact ⟨total, _, _, _, _, unrealized, rfl, rfl⟩
    · obtain ⟨rfl, rfl⟩ := Prod.mk.inj hsell
      exact ⟨total, _, _, _, _, unrealized, rfl, rfl⟩

/-! ### One account -/

namespace AccountRisk

/-- Exposure and margin of a priced order moved by its replaced amount. -/
def addReplaced (acc : AccountRisk) (order : Order) (m : OrderMetrics) : AccountRisk :=
  if 0 < order.price then
    { acc with
      currentExposure := acc.currentExposure + m.replaced * m.sideMult
      usedMargin := acc.usedMargin + m.replaced }
  else acc

/-- The payment of a fill. -/
def applyFill (acc : AccountRisk) (m : OrderMetrics) (fee : Int64) : AccountRisk :=
  { acc with
    balance := acc.balance - (m.nominal + fee)
    positionalExposure := acc.positionalExposure + m.nominal
    usedMargin := acc.usedMargin - m.nominal }

/-- The last statement of `update_account_risk`. -/
def updateLeverage (acc : AccountRisk) : Except Fault AccountRisk :=
  if acc.balance = 0 then .ok acc
  else
    match (acc.currentExposure * 10000).div? acc.balance with
    | none => .error .arithmeticTrap
    | some leverage => .ok { acc with currentLeverage := leverage }

end AccountRisk

def updateAccountRisk (acc : AccountRisk) (lim : AccountLimit) (order : Order) (m : OrderMetrics) :
    Except Fault AccountRisk :=
  let fee := if order.orderType = .market then lim.takerFeeRate * m.nominal / 1000000
    else lim.makerFeeRate * m.nominal / 1000000
  match order.status with
  | .new =>
    let acc :=
      if 0 < order.price then
        { acc with
          currentExposure := acc.currentExposure + m.notional * m.sideMult
          usedMargin := acc.usedMargin + m.notional }
      else acc
    { acc with openOrdersCount := acc.openOrdersCount + 1 }.updateLeverage
  | .partialFill => (acc.applyFill m fee).updateLeverage
  | .filled =>
    let acc := acc.applyFill m fee
    { acc with openOrdersCount := acc.openOrdersCount - 1 }.updateLeverage
  | .cancelled | .deleted | .expired =>
    -- here the early return skips the leverage
    if 1 < order.cancelledCount then .ok acc
    else
      let acc := acc.addReplaced order m
      let count := acc.openOrdersCount
      { acc with openOrdersCount :=
        if order.remainingQuantity = 0 then count - 1 else count }.updateLeverage
  | .replaced => (acc.addReplaced order m).updateLeverage
  | .unknown | .cancelRequest => acc.updateLeverage

/-! ### The engine -/

namespace RiskEngine

def updateSymbolRisk (re : RiskEngine) (mb : MarketBook) (order : Order) (m : OrderMetrics)
    (v : VenueIndex) : Except Fault RiskEngine := do
  let i ← symbolSlot order.symbolIndex
  let (acc, sym) ← symbolRisk (re.accountrisks v) (re.symbolrisks v i) mb order m
  .ok ((re.setAccount v acc).setSymbol v i sym)

/-- The key `update_order_risk` files an order under. -/
def orderKey (order : Order) (v : VenueIndex) : OrderRiskKey :=
  OrderRiskKey.make order.symbolIndex order.price order.side.code (venueCode v)

/-- The do-while scan for an entry of the pool that is not active, from index
`n` on.  After a full turn it would go on for ever. -/
def scanFree (pool : OrderRiskSlot → OrderRisk) : ℕ → ℕ → Option ℕ
  | 0, _ => none
  | fuel + 1, n =>
    if (pool (Fin.ofNat 65536 n)).active then scanFree pool fuel (n + 1) else some n

/-- The fields of a pool entry that every update writes. -/
def refresh (oR : OrderRisk) (order : Order) : OrderRisk :=
  { oR with
    price := order.price
    remainingQty := order.remainingQuantity
    status := order.status }

def updateOrderRisk (re : RiskEngine) (order : Order) (v : VenueIndex) :
    Except Fault RiskEngine :=
  if 1 < order.cancelledCount then .ok re
  else
    let key := orderKey order v
    match (re.orderrisks v).lookup key with
    | some p =>
      -- the entry belongs to the level, so an order that shares it with another
      -- one frees it for both
      let oR := refresh (re.orderriskPool p) order
      if order.remainingQuantity = 0 then
        .ok { re.setOrderRisk p { oR with active := false } with
          orderrisks := Function.update re.orderrisks v ((re.orderrisks v).erase key) }
      else .ok (re.setOrderRisk p oR)
    | none =>
      match scanFree re.orderriskPool 65536 re.orderriskNextSlot with
      | none => .error .nonTermination
      | some n =>
        let p := Fin.ofNat 65536 n
        let oR := { refresh (re.orderriskPool p) order with
          symbolIndex := order.symbolIndex, side := order.side, venue := order.venue,
          active := true }
        .ok { re.setOrderRisk p oR with
          orderriskNextSlot := n + 1
          orderrisks :=
            Function.update re.orderrisks v (HashMap.emplace (re.orderrisks v) key p) }

/-- The two updates that only own orders get: self-trade index and account. -/
def updateOwnRisk (re : RiskEngine) (order : Order) (m : OrderMetrics) (v : VenueIndex) :
    Except Fault RiskEngine := do
  let re ← re.updateOrderRisk order v
  let acc ← updateAccountRisk (re.accountrisks v) (re.limits.getAccountLimit v) order m
  .ok (re.setAccount v acc)

/-- One application of an own order: symbol, self-trade index, account. -/
def applyReport (re : RiskEngine) (mb : MarketBook) (order : Order) (m : OrderMetrics)
    (v : VenueIndex) : Except Fault RiskEngine := do
  let re ← re.updateSymbolRisk mb order m v
  re.updateOwnRisk order m v

/-- One turn of the loop of `update_risk_for_protocol_fix`. -/
def fixTurn (mb : MarketBook) (m : OrderMetrics) (v : VenueIndex) (s : RiskEngine × Order)
    (next : Status) : Except Fault (RiskEngine × Order) :=
  let order := { s.2 with status := next }
  if s.2.status ≠ .unknown then (s.1.applyReport mb s.2 m v).map fun re => (re, order)
  else .ok (s.1, order)

/-- `update_risk_for_protocol_fix`; `none` is the result false.  The loop runs
one turn more than `StatusesPreNew` has entries, and the status it leaves in
the order is the first of them again. -/
def updateRiskForProtocolFix (re : RiskEngine) (mb : MarketBook) (order : Order) (m : OrderMetrics)
    (v : VenueIndex) : Except Fault (Option (RiskEngine × Order)) :=
  if order.protocol = .fix then
    if order.syncState = .waitingNew then .ok (some (re, order))
    else do
      -- the metrics stay those of the order as it was popped
      let pre := order.statusesPreNew
      let (re, order) ← [pre.1, pre.2, pre.1].foldlM (fixTurn mb m v) (re, order)
      .ok (some (re, { order with canModify := order.canModify ||| riskDone }))
  else .ok none

/-- The loop body of `update_risk`: whether the call returns, the engine and
the order afterwards. -/
def updateRiskOrder (re : RiskEngine) (mb : MarketBook) (order : Order) :
    Except Fault (Bool × RiskEngine × Order) := do
  let v ← order.venue.index
  let m := OrderMetrics.ofOrder order
  match ← re.updateRiskForProtocolFix mb order m v with
  | some (re, order) => .ok (false, re, order)
  | none =>
    let re ← re.updateSymbolRisk mb order m v
    let order' := { order with canModify := order.canModify ||| riskDone }
    if order.isOurOrder then (re.updateOwnRisk order m v).map fun re => (true, re, order')
    else .ok (true, re, order')

/-- One turn of the loop of `update_risk`: pop an order and apply it. -/
def updateRiskTurn (re : RiskEngine) (om : OrderManager) (slot : OrderSlot) :
    Except Fault (Bool × RiskEngine × OrderManager) := do
  let (done, re, order) ← re.updateRiskOrder om.marketbook (om.orderPool slot)
  let om := { om with storeToRisk := om.storeToRisk.tail }
  .ok (done, re, om.setOrder slot order)

/-- The loop of `update_risk` over the queued orders. -/
def updateRiskLoop : RiskEngine → OrderManager → List OrderSlot →
    Except Fault (Bool × RiskEngine × OrderManager)
  | re, om, [] => .ok (false, re, om)
  | re, om, slot :: rest => do
    let (done, re, om) ← re.updateRiskTurn om slot
    if done then .ok (true, re, om) else updateRiskLoop re om rest

def updateRisk (re : RiskEngine) (om : OrderManager) :
    Except Fault (Bool × RiskEngine × OrderManager) :=
  re.updateRiskLoop om om.storeToRisk.items

/-! ### Field lemmas -/

@[simp] theorem accountrisks_setAccount (re : RiskEngine) (v : VenueIndex) (acc : AccountRisk) :
    (re.setAccount v acc).accountrisks = Function.update re.accountrisks v acc := rfl

@[simp] theorem symbolrisks_setAccount (re : RiskEngine) (v : VenueIndex) (acc : AccountRisk) :
    (re.setAccount v acc).symbolrisks = re.symbolrisks := rfl

@[simp] theorem accountrisks_setSymbol (re : RiskEngine) (v : VenueIndex) (i : SymbolSlot)
    (sym : SymbolRisk) : (re.setSymbol v i sym).accountrisks = re.accountrisks := rfl

@[simp] theorem symbolrisks_setSymbol (re : RiskEngine) (v : VenueIndex) (i : SymbolSlot)
    (sym : SymbolRisk) : (re.setSymbol v i sym).symbolrisks =
      Function.update re.symbolrisks v (Function.update (re.symbolrisks v) i sym) := rfl

/-! ### What the three updates can do -/

variable {re re' : RiskEngine} {mb : MarketBook} {order : Order} {m : OrderMetrics}
  {v : VenueIndex}

/-- `update_symbol_risk` rewrites the account of the venue and one symbol. -/
theorem updateSymbolRisk_eq_ok_iff :
    re.updateSymbolRisk mb order m v = .ok re' ↔ ∃ i acc sym,
      symbolSlot order.symbolIndex = .ok i ∧
      symbolRisk (re.accountrisks v) (re.symbolrisks v i) mb order m = .ok (acc, sym) ∧
      re' = (re.setAccount v acc).setSymbol v i sym := by
  rw [updateSymbolRisk, bind_eq_ok_iff]
  constructor
  · rintro ⟨i, hi, h⟩
    obtain ⟨⟨acc, sym⟩, hpair, hre⟩ := bind_eq_ok_iff.mp h
    exact ⟨i, acc, sym, hi, hpair, (Except.ok.inj hre).symm⟩
  · rintro ⟨i, acc, sym, hi, hpair, hre⟩
    exact ⟨i, hi, bind_eq_ok_iff.mpr ⟨(acc, sym), hpair, by rw [hre]⟩⟩

theorem updateOwnRisk_eq_ok_iff :
    re.updateOwnRisk order m v = .ok re' ↔ ∃ re₁ acc,
      re.updateOrderRisk order v = .ok re₁ ∧
      updateAccountRisk (re₁.accountrisks v) (re₁.limits.getAccountLimit v) order m = .ok acc ∧
      re' = re₁.setAccount v acc := by
  rw [updateOwnRisk, bind_eq_ok_iff]
  constructor
  · rintro ⟨re₁, h₁, h⟩
    obtain ⟨acc, hacc, hre⟩ := bind_eq_ok_iff.mp h
    exact ⟨re₁, acc, h₁, hacc, (Except.ok.inj hre).symm⟩
  · rintro ⟨re₁, acc, h₁, hacc, hre⟩
    exact ⟨re₁, h₁, bind_eq_ok_iff.mpr ⟨acc, hacc, by rw [hre]⟩⟩

/-- The self-trade index is kept apart from the risk figures. -/
theorem updateOrderRisk_risks (h : re.updateOrderRisk order v = .ok re') :
    re'.accountrisks = re.accountrisks ∧ re'.symbolrisks = re.symbolrisks := by
  rw [updateOrderRisk] at h
  split at h
  · rw [← Except.ok.inj h]
    exact ⟨rfl, rfl⟩
  · dsimp only at h
    split at h
    · split at h
      · rw [← Except.ok.inj h]
        exact ⟨rfl, rfl⟩
      · rw [← Except.ok.inj h]
        exact ⟨rfl, rfl⟩
    · split at h
      · exact absurd h (by simp)
      · rw [← Except.ok.inj h]
        exact ⟨rfl, rfl⟩

/-! ### The reports an order stands for -/

/-- What `update_risk` applies of one own order: a FIX order once for its status
and once for each status recorded before the New report, any other order
once. -/
def reports (order : Order) : List Order :=
  if order.protocol = .fix then
    if order.syncState = .waitingNew then []
    else
      let pre := order.statusesPreNew
      [order, { order with status := pre.1 }, { order with status := pre.2 }].filter fun o =>
        o.status ≠ .unknown
  else [order]

/-- The reports of an order differ from it in the status only. -/
theorem eq_of_mem_reports {o : Order} (h : o ∈ reports order) :
    ∃ s, o = { order with status := s } := by
  rw [reports] at h
  split at h
  · split at h
    · exact absurd h (by simp)
    · have hmem := (List.mem_filter.mp h).1
      simp only [List.mem_cons, List.not_mem_nil, or_false] at hmem
      obtain rfl | rfl | rfl := hmem
      · exact ⟨o.status, rfl⟩
      · exact ⟨_, rfl⟩
      · exact ⟨_, rfl⟩
  · obtain rfl := List.mem_singleton.mp h
    exact ⟨o.status, rfl⟩

/-- One application as a step of the engine. -/
def reportStep (mb : MarketBook) (v : VenueIndex) (re : RiskEngine) (order : Order) :
    Except Fault RiskEngine :=
  re.applyReport mb order (OrderMetrics.ofOrder order) v

/-- One turn of the FIX loop applies the order unless its status is unknown. -/
theorem exec_of_fixTurn {s s' : RiskEngine × Order} {next : Status}
    (hm : m = OrderMetrics.ofOrder s.2) (h : fixTurn mb m v s next = .ok s') :
    exec (reportStep mb v) s.1 ([s.2].filter fun o => o.status ≠ .unknown) = .ok s'.1 ∧
      s'.2 = { s.2 with status := next } := by
  rw [fixTurn] at h
  dsimp only at h
  split at h
  · rename_i hknown
    obtain ⟨re₁, h₁, rfl⟩ := map_eq_ok_iff.mp h
    have hkeep : [s.2].filter (fun o => o.status ≠ .unknown) = [s.2] := by simp [hknown]
    rw [hm] at h₁
    rw [hkeep, exec_cons_eq_ok_iff]
    exact ⟨⟨re₁, h₁, exec_nil _⟩, rfl⟩
  · rename_i hunknown
    rw [not_not] at hunknown
    have hdrop : [s.2].filter (fun o => o.status ≠ .unknown) = [] := by simp [hunknown]
    rw [hdrop, ← Except.ok.inj h]
    exact ⟨exec_nil _, rfl⟩

/-- The three turns, each on what the previous one left. -/
theorem fixTurns_eq_ok {s s' : RiskEngine × Order} {a b c : Status}
    (h : [a, b, c].foldlM (fixTurn mb m v) s = .ok s') :
    ∃ s₁ s₂, fixTurn mb m v s a = .ok s₁ ∧ fixTurn mb m v s₁ b = .ok s₂ ∧
      fixTurn mb m v s₂ c = .ok s' := by
  rw [List.foldlM_cons] at h
  obtain ⟨s₁, h₁, h⟩ := bind_eq_ok_iff.mp h
  rw [List.foldlM_cons] at h
  obtain ⟨s₂, h₂, h⟩ := bind_eq_ok_iff.mp h
  rw [List.foldlM_cons] at h
  obtain ⟨s₃, h₃, hnil⟩ := bind_eq_ok_iff.mp h
  exact ⟨s₁, s₂, h₁, h₂, Except.ok.inj hnil ▸ h₃⟩

/-- A FIX order, or any other own order, is applied report by report. -/
theorem exec_reports_of_fix_or_own {done : Bool} {order' : Order}
    (hreported : order.protocol = .fix ∨ order.isOurOrder = true)
    (hv : order.venue.index = .ok v)
    (h : re.updateRiskOrder mb order = .ok (done, re', order')) :
    exec (reportStep mb v) re (reports order) = .ok re' := by
  rw [updateRiskOrder, hv] at h
  obtain ⟨w, hw, h⟩ := bind_eq_ok_iff.mp h
  rw [← Except.ok.inj hw] at h
  obtain ⟨fixed, hfix, h⟩ := bind_eq_ok_iff.mp h
  rw [updateRiskForProtocolFix] at hfix
  by_cases hproto : order.protocol = .fix
  · rw [if_pos hproto] at hfix
    rw [reports, if_pos hproto]
    split at hfix
    · rename_i hwait
      rw [← Except.ok.inj hfix] at h
      have hre : re = re' := congrArg (fun x => x.2.1) (Except.ok.inj h)
      rw [if_pos hwait, exec_nil, hre]
    · rename_i hseen
      rw [if_neg hseen]
      -- three turns, each with the status the previous one left
      obtain ⟨s₃, hloop, hfix⟩ := bind_eq_ok_iff.mp hfix
      obtain ⟨s₁, s₂, h₁, h₂, h₃⟩ := fixTurns_eq_ok hloop
      obtain ⟨e₁, ho₁⟩ := exec_of_fixTurn (s := (re, order)) rfl h₁
      obtain ⟨e₂, ho₂⟩ := exec_of_fixTurn (by rw [ho₁]; rfl) h₂
      obtain ⟨e₃, ho₃⟩ := exec_of_fixTurn (by rw [ho₂, ho₁]; rfl) h₃
      rw [← Except.ok.inj hfix] at h
      have hre : s₃.1 = re' := congrArg (fun x => x.2.1) (Except.ok.inj h)
      rw [ho₁] at e₂
      rw [ho₂, ho₁] at e₃
      have hcat : ∀ a b c : Order, [a, b, c] = [a] ++ ([b] ++ [c]) := fun _ _ _ => rfl
      dsimp only
      rw [hcat, List.filter_append, List.filter_append, exec_append_eq_ok_iff]
      refine ⟨s₁.1, e₁, exec_append_eq_ok_iff.mpr ⟨s₂.1, e₂, ?_⟩⟩
      rw [e₃, hre]
  · have hown : order.isOurOrder = true := hreported.resolve_left hproto
    rw [if_neg hproto] at hfix
    rw [← Except.ok.inj hfix] at h
    obtain ⟨re₁, h₁, h⟩ := bind_eq_ok_iff.mp h
    dsimp only at h
    rw [if_pos hown] at h
    obtain ⟨re₂, h₂, heq⟩ := map_eq_ok_iff.mp h
    have hre : re₂ = re' := congrArg (fun x => x.2.1) heq
    rw [reports, if_neg hproto, exec_cons_eq_ok_iff]
    refine ⟨re₂, ?_, by rw [exec_nil, hre]⟩
    rw [reportStep, applyReport]
    exact bind_eq_ok_iff.mpr ⟨re₁, h₁, h₂⟩

/-- **An own order is applied report by report.** -/
theorem exec_reports_of_updateRiskOrder {done : Bool} {order' : Order}
    (hown : order.isOurOrder = true) (hv : order.venue.index = .ok v)
    (h : re.updateRiskOrder mb order = .ok (done, re', order')) :
    exec (reportStep mb v) re (reports order) = .ok re' :=
  exec_reports_of_fix_or_own (.inr hown) hv h

/-! ### Invariants of the update thread -/

/-- A predicate that each of the three updates keeps. -/
structure Kept (P : RiskEngine → Prop) : Prop where
  symbol : ∀ {re re' mb order v}, P re →
    re.updateSymbolRisk mb order (OrderMetrics.ofOrder order) v = .ok re' → P re'
  index : ∀ {re re' order v}, P re → re.updateOrderRisk order v = .ok re' → P re'
  account : ∀ {re : RiskEngine} {order v acc}, P re →
    updateAccountRisk (re.accountrisks v) (re.limits.getAccountLimit v) order
      (OrderMetrics.ofOrder order) = .ok acc → P (re.setAccount v acc)

variable {P : RiskEngine → Prop}

theorem Kept.own (hP : Kept P) (h : P re)
    (hok : re.updateOwnRisk order (OrderMetrics.ofOrder order) v = .ok re') : P re' := by
  obtain ⟨re₁, acc, h₁, hacc, rfl⟩ := updateOwnRisk_eq_ok_iff.mp hok
  exact hP.account (hP.index h h₁) hacc

theorem Kept.report (hP : Kept P) (h : P re)
    (hok : re.applyReport mb order (OrderMetrics.ofOrder order) v = .ok re') : P re' := by
  rw [applyReport] at hok
  obtain ⟨re₁, h₁, h₂⟩ := bind_eq_ok_iff.mp hok
  exact hP.own (hP.symbol h h₁) h₂

/-- The metrics do not read the status, so one turn of the FIX loop is an
application of the order with the status it has there. -/
theorem Kept.fixTurn (hP : Kept P) {s s' : RiskEngine × Order} {next : Status} (h : P s.1)
    (hm : m = OrderMetrics.ofOrder s.2) (hok : RiskEngine.fixTurn mb m v s next = .ok s') :
    P s'.1 ∧ m = OrderMetrics.ofOrder s'.2 := by
  rw [RiskEngine.fixTurn] at hok
  dsimp only at hok
  split at hok
  · obtain ⟨re₁, h₁, rfl⟩ := map_eq_ok_iff.mp hok
    rw [hm] at h₁
    exact ⟨hP.report h h₁, hm⟩
  · rw [← Except.ok.inj hok]
    exact ⟨h, hm⟩

theorem Kept.fixLoop (hP : Kept P) {s s' : RiskEngine × Order} {nexts : List Status} (h : P s.1)
    (hm : m = OrderMetrics.ofOrder s.2)
    (hok : nexts.foldlM (RiskEngine.fixTurn mb m v) s = .ok s') : P s'.1 := by
  induction nexts generalizing s with
  | nil =>
    rw [← Except.ok.inj hok]
    exact h
  | cons next nexts ih =>
    rw [List.foldlM_cons] at hok
    obtain ⟨s₁, h₁, h₂⟩ := bind_eq_ok_iff.mp hok
    obtain ⟨hp, hm'⟩ := hP.fixTurn h hm h₁
    exact ih hp hm' h₂

theorem Kept.popped (hP : Kept P) {done : Bool} {order' : Order} (h : P re)
    (hok : re.updateRiskOrder mb order = .ok (done, re', order')) : P re' := by
  rw [updateRiskOrder] at hok
  obtain ⟨v, -, hok⟩ := bind_eq_ok_iff.mp hok
  obtain ⟨fixed, hfix, hok⟩ := bind_eq_ok_iff.mp hok
  cases fixed with
  | some s =>
    -- the FIX branch: waiting for the New report nothing happens
    have hre : s.1 = re' := congrArg (fun x => x.2.1) (Except.ok.inj hok)
    rw [← hre]
    rw [updateRiskForProtocolFix] at hfix
    split at hfix
    · split at hfix
      · rw [← Option.some.inj (Except.ok.inj hfix)]
        exact h
      · obtain ⟨s₁, h₁, h₂⟩ := bind_eq_ok_iff.mp hfix
        have hp : P s₁.1 := hP.fixLoop (s := (re, order)) h rfl h₁
        rw [← Option.some.inj (Except.ok.inj h₂)]
        exact hp
    · exact absurd hfix (by simp)
  | none =>
    obtain ⟨re₁, h₁, hok⟩ := bind_eq_ok_iff.mp hok
    have hp : P re₁ := hP.symbol h h₁
    dsimp only at hok
    split at hok
    · obtain ⟨re₂, h₂, heq⟩ := map_eq_ok_iff.mp hok
      have hre : re₂ = re' := congrArg (fun x => x.2.1) heq
      exact hre ▸ hP.own hp h₂
    · have hre : re₁ = re' := congrArg (fun x => x.2.1) (Except.ok.inj hok)
      exact hre ▸ hp

/-- A turn is the loop body on the order at the front, which is popped. -/
theorem updateRiskTurn_eq_ok {om om' : OrderManager} {slot : OrderSlot} {stop : Bool}
    (h : re.updateRiskTurn om slot = .ok (stop, re', om')) :
    ∃ order', re.updateRiskOrder om.marketbook (om.orderPool slot) = .ok (stop, re', order') ∧
      om' = { om with storeToRisk := om.storeToRisk.tail }.setOrder slot order' := by
  rw [updateRiskTurn] at h
  obtain ⟨⟨stop', re₂, order'⟩, hbody, hturn⟩ := bind_eq_ok_iff.mp h
  obtain ⟨rfl, rfl, rfl⟩ : stop' = stop ∧ re₂ = re' ∧
      { om with storeToRisk := om.storeToRisk.tail }.setOrder slot order' = om' := by
    simpa using hturn
  exact ⟨order', hbody, rfl⟩

/-- A call of `update_risk` is a run of its loop body over the first orders of
the queue. -/
theorem exec_of_updateRisk {om om' : OrderManager} {done : Bool}
    (hok : re.updateRisk om = .ok (done, re', om')) :
    ∃ popped rest, om.storeToRisk.items = popped ++ rest ∧
      exec (fun s slot => (s.1.updateRiskTurn s.2 slot).map Prod.snd) (re, om) popped =
        .ok (re', om') := by
  rw [updateRisk] at hok
  generalize om.storeToRisk.items = slots at hok
  induction slots generalizing re om with
  | nil =>
    have hs : (re, om) = (re', om') := congrArg Prod.snd (Except.ok.inj hok)
    exact ⟨[], [], rfl, by rw [exec_nil, hs]⟩
  | cons slot rest ih =>
    rw [updateRiskLoop] at hok
    obtain ⟨⟨stop, re₁, om₁⟩, h₁, hok⟩ := bind_eq_ok_iff.mp hok
    have hturn : (re.updateRiskTurn om slot).map Prod.snd = .ok (re₁, om₁) :=
      map_eq_ok_iff.mpr ⟨_, h₁, rfl⟩
    cases stop with
    | true =>
      have hs : (re₁, om₁) = (re', om') := congrArg Prod.snd (Except.ok.inj hok)
      exact ⟨[slot], rest, rfl, exec_cons_eq_ok_iff.mpr ⟨_, hturn, by rw [exec_nil, hs]⟩⟩
    | false =>
      obtain ⟨popped, rest', hslots, hrun⟩ := ih hok
      exact ⟨slot :: popped, rest', by rw [hslots, List.cons_append],
        exec_cons_eq_ok_iff.mpr ⟨_, hturn, hrun⟩⟩

/-- **Invariants of `update_risk`.**  What each of the three updates keeps, a
whole call keeps, however many orders it pops. -/
theorem Kept.updateRisk (hP : Kept P) {om om' : OrderManager} {done : Bool} (h : P re)
    (hok : re.updateRisk om = .ok (done, re', om')) : P re' := by
  obtain ⟨popped, -, -, hrun⟩ := exec_of_updateRisk hok
  let Q : RiskEngine × OrderManager → Prop := fun s => P s.1
  suffices hQ : Q (re', om') from hQ
  refine exec_inv ?_ (show Q (re, om) from h) hrun
  rintro ⟨re₁, om₁⟩ slot s hp hstep
  obtain ⟨⟨stop, t⟩, hturn, rfl⟩ := map_eq_ok_iff.mp hstep
  obtain ⟨order', hbody, -⟩ := updateRiskTurn_eq_ok hturn
  exact hP.popped hp hbody

end RiskEngine

/-- An own order popped from `store_to_risk_`: its slot in the order pool, what
the slot holds then, and the market book of that time. -/
structure OwnEvent where
  slot : OrderSlot
  order : Order
  book : MarketBook := {}

end TradingEngine
