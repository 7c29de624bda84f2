/-
The limit checks against exact arithmetic.

Every helper of `check_risk` forms its products and sums in `int64_t`.  A bound
that is compared with such a value is a bound on the exact value only as long as
nothing wraps upwards: below, the exact value is under every bound anyway.

* `PassedLimits.withinLimits_iff` — tests that passed on the machine are exact precisely
  if the exact values are below their bounds for wrapping;
* `forwarded_withinLimits_iff` — a forwarded limit order is within its five limits
  precisely if no value wraps upwards (`NothingWraps`).  The notional of the account
  is not tested at all for an order without a positive price.
-/
import TradingEngine.CheckDisposition
import TradingEngine.NetPosition

namespace TradingEngine

open FallibleRun RiskEngine

/-! ### The five limits -/

namespace Order

/-- Price times quantity. -/
def exactNotional (o : Order) : ℤ := o.price.toInt * o.quantity.toNat

theorem ofInt_exactNotional (o : Order) :
    Int64.ofInt o.exactNotional = o.price * o.quantity.toInt64 := by
  rw [exactNotional, Int64.ofInt_mul, Int64.ofInt_toInt, toInt64_eq_ofInt]

end Order

/-- An order within the limits of its account and of its symbol, in the integers. -/
structure WithinLimits (o : Order) (acc : AccountRisk) (accLim : AccountLimit) (sym : SymbolRisk)
    (lim : SymbolLimit) : Prop where
  orderNotional : o.exactNotional ≤ lim.maxOrderNotionalScaled.toInt
  symbolExposure : sym.pendingNotionalScaled.toInt + signed o.side o.exactNotional ≤
    lim.maxExposureScaled.toInt
  notional : acc.currentExposure.toInt + o.exactNotional ≤ accLim.maxNotional.toInt
  balance : o.exactNotional ≤ acc.balance.toInt
  leverage : ((acc.currentExposure.toInt + o.exactNotional) * 10000).tdiv acc.balance.toInt ≤
    accLim.maxLeverage.toInt

/-- No value that is compared wraps upwards, except that the projected exposure times 10000
may below `maxLeverage + 1` balances; and an order without a positive price, which
`check_max_notional` does not see, leaves the exposure within the notional of the account. -/
structure NothingWraps (o : Order) (acc : AccountRisk) (accLim : AccountLimit)
    (sym : SymbolRisk) : Prop where
  orderNotional : o.exactNotional < 2 ^ 63
  symbolExposure : sym.pendingNotionalScaled.toInt + signed o.side o.exactNotional < 2 ^ 63
  notional : acc.currentExposure.toInt + o.exactNotional <
    if 0 < o.price then 2 ^ 63 else accLim.maxNotional.toInt + 1
  leverage : (acc.currentExposure.toInt + o.exactNotional) * 10000 <
    max (2 ^ 63) ((accLim.maxLeverage.toInt + 1) * acc.balance.toInt)

/-! ### What a forwarded order has passed -/

variable {re re' : RiskEngine} {om om' : OrderManager} {slot : OrderSlot} {v : VenueIndex}
  {i : SymbolSlot} {lim : SymbolLimit} {m : SymbolMeta} {now : UInt64}

theorem reasonIf_eq_zero {c : Prop} [Decidable c] {r : RiskRejectReason} (hr : r.flag ≠ 0)
    (h : reasonIf c r = 0) : ¬c := by
  intro hc
  rw [reasonIf, if_pos hc] at h
  exact hr h

/-- A forwarded order that is no cancel request has passed every check. -/
theorem checks_of_forwarded (h : Placed re om slot v i lim m)
    (hcancel : (om.orderPool slot).status ≠ .cancelRequest)
    (hforward : re.checkRiskOrder om slot now = .ok (true, re', om')) :
    ((om.orderPool slot).orderType = .limit →
      limitChecks (om.orderPool slot) (re.symbolrisks v i) lim m om.tickSizeEntryPool = 0) ∧
    re.mainChecks (om.orderPool slot) v (re.symbolrisks v i) lim m = .ok 0 := by
  cases hr : haltReason om v m with
  | some r =>
    rw [h.checkRiskOrder_halted hr] at hforward
    exact absurd (congrArg Prod.fst (Except.ok.inj hforward)) (by simp)
  | none =>
    obtain ⟨reason, hreason⟩ : ∃ reason, reason = if (om.orderPool slot).orderType = .limit then
        limitChecks (om.orderPool slot) (re.symbolrisks v i) lim m om.tickSizeEntryPool else 0 :=
      ⟨_, rfl⟩
    rw [h.checkRiskOrder_other hr hcancel hreason] at hforward
    by_cases hzero : reason = 0
    · rw [if_neg (not_not.mpr hzero)] at hforward
      refine ⟨fun htype => ?_, ?_⟩
      · rw [if_pos htype] at hreason
        exact hreason.symm.trans hzero
      · obtain ⟨flags, hmain, hrest⟩ := bind_eq_ok_iff.mp hforward
        split at hrest
        · exact absurd (congrArg Prod.fst (Except.ok.inj hrest)) (by simp)
        · rename_i hflags
          rw [hmain, not_not.mp hflags]
    · rw [if_pos hzero] at hforward
      exact absurd (congrArg Prod.fst (Except.ok.inj hforward)) (by simp)

/-- The account checks of an order that passes the main checks. -/
theorem checkAccountRisk_of_mainChecks {o : Order} {sym : SymbolRisk}
    (h : re.mainChecks o v sym lim m = .ok 0) :
    checkAccountRisk o (re.accountrisks v) (re.limits.getAccountLimit v) sym = 0 := by
  obtain ⟨bounds, -, h⟩ := bind_eq_ok_iff.mp h
  exact (UInt32.or_eq_zero_iff.mp (Except.ok.inj h)).2

/-- What the checks that passed say of the machine values. -/
structure PassedLimits (o : Order) (acc : AccountRisk) (accLim : AccountLimit) (sym : SymbolRisk)
    (lim : SymbolLimit) : Prop where
  orderNotional : Int64.ofInt o.exactNotional ≤ lim.maxOrderNotionalScaled
  symbolExposure : Int64.ofInt (sym.pendingNotionalScaled.toInt +
    signed o.side o.exactNotional) ≤ lim.maxExposureScaled
  solvent : 0 < acc.balance
  leverage : Int64.ofInt ((acc.currentExposure.toInt + o.exactNotional) * 10000) / acc.balance ≤
    accLim.maxLeverage
  notional : 0 < o.price →
    Int64.ofInt (acc.currentExposure.toInt + o.exactNotional) ≤ accLim.maxNotional
  balance : 0 < o.price → Int64.ofInt o.exactNotional ≤ acc.balance

theorem passedLimits_of_checks {o : Order} {acc : AccountRisk} {accLim : AccountLimit}
    {sym : SymbolRisk} {pool : TickSlot → TickSizeEntry} (hlimit : o.orderType = .limit)
    (hlimits : limitChecks o sym lim m pool = 0)
    (haccount : checkAccountRisk o acc accLim sym = 0) : PassedLimits o acc accLim sym lim := by
  simp only [limitChecks, UInt32.or_eq_zero_iff] at hlimits
  obtain ⟨⟨⟨⟨-, hnotional⟩, hexposure⟩, -⟩, -⟩ := hlimits
  have hleverage : checkMaxLeverage acc.balance acc.currentExposure
      (o.price * o.quantity.toInt64) accLim.maxLeverage = 0 := by
    simp only [checkAccountRisk] at haccount
    split at haccount
    · simp only [UInt32.or_eq_zero_iff] at haccount
      exact haccount.1.1.1.1.1.2
    · simp only [UInt32.or_eq_zero_iff] at haccount
      exact haccount.1.1.2
  rw [checkMaxLeverage] at hleverage
  have hsolvent : ¬acc.balance ≤ 0 := by
    intro hpoor
    rw [if_pos hpoor] at hleverage
    exact absurd hleverage (by decide)
  rw [if_neg hsolvent] at hleverage
  -- the last two checks are made for orders with a price only
  have hpriced : 0 < o.price →
      checkBalance acc.balance (o.price * o.quantity.toInt64) = 0 ∧
        checkMaxNotional acc.currentExposure (o.price * o.quantity.toInt64)
          accLim.maxNotional = 0 := by
    intro hprice
    simp only [checkAccountRisk, if_pos (And.intro hprice hlimit),
      UInt32.or_eq_zero_iff] at haccount
    exact ⟨haccount.1.2, haccount.2⟩
  -- the code computes in 64 bits; `ofInt` carries the exact amount there
  have hword := o.ofInt_exactNotional
  constructor
  · rw [hword]
    exact Int64.not_lt.mp (reasonIf_eq_zero (by decide) hnotional)
  · rw [Int64.ofInt_add, Int64.ofInt_toInt, ← ofInt_mul_sideMult, hword]
    exact Int64.not_lt.mp (reasonIf_eq_zero (by decide) hexposure)
  · exact Int64.not_le.mp hsolvent
  · rw [Int64.ofInt_mul, Int64.ofInt_add, Int64.ofInt_toInt, hword]
    exact Int64.not_lt.mp (reasonIf_eq_zero (by decide) hleverage)
  · intro hprice
    rw [Int64.ofInt_add, Int64.ofInt_toInt, hword]
    exact Int64.not_lt.mp (reasonIf_eq_zero (by decide) (hpriced hprice).2)
  · intro hprice
    rw [hword]
    exact Int64.not_lt.mp (reasonIf_eq_zero (by decide) (hpriced hprice).1)

/-- An order without a positive price has no positive value. -/
theorem exactNotional_nonpos {o : Order} (h : ¬0 < o.price) : o.exactNotional ≤ 0 := by
  have hprice := Int64.le_iff_toInt_le.mp (Int64.not_lt.mp h)
  exact Int.mul_nonpos_of_nonpos_of_nonneg hprice (Int.natCast_nonneg _)

/-- **The limits hold precisely if nothing wraps.** -/
theorem PassedLimits.withinLimits_iff {o : Order} {acc : AccountRisk} {accLim : AccountLimit}
    {sym : SymbolRisk} (h : PassedLimits o acc accLim sym lim) :
    WithinLimits o acc accLim sym lim ↔ NothingWraps o acc accLim sym := by
  have hsolvent : 0 < acc.balance.toInt := Int64.lt_iff_toInt_lt.mp h.solvent
  have hnotional : acc.currentExposure.toInt + o.exactNotional ≤ accLim.maxNotional.toInt ↔
      acc.currentExposure.toInt + o.exactNotional <
        if 0 < o.price then 2 ^ 63 else accLim.maxNotional.toInt + 1 := by
    split
    · rename_i hprice
      exact Int64.le_toInt_iff_of_ofInt_le (h.notional hprice)
    · exact Int.lt_add_one_iff.symm
  have hleverage := Int64.tdiv_le_toInt_iff_of_div_le hsolvent h.leverage
  constructor
  · intro hwithin
    exact ⟨(Int64.le_toInt_iff_of_ofInt_le h.orderNotional).mp hwithin.orderNotional,
      (Int64.le_toInt_iff_of_ofInt_le h.symbolExposure).mp hwithin.symbolExposure,
      hnotional.mp hwithin.notional, hleverage.mp hwithin.leverage⟩
  · intro hwraps
    refine ⟨(Int64.le_toInt_iff_of_ofInt_le h.orderNotional).mpr hwraps.orderNotional,
      (Int64.le_toInt_iff_of_ofInt_le h.symbolExposure).mpr hwraps.symbolExposure,
      hnotional.mpr hwraps.notional, ?_, hleverage.mpr hwraps.leverage⟩
    by_cases hprice : 0 < o.price
    · exact (Int64.le_toInt_iff_of_ofInt_le (h.balance hprice)).mpr hwraps.orderNotional
    · exact (exactNotional_nonpos hprice).trans hsolvent.le

/-- **Forwarded limit orders.**  Whatever the state of account and symbol, a limit order that
`check_risk` forwards is within the exact limits precisely if nothing wraps upwards. -/
theorem forwarded_withinLimits_iff (h : Placed re om slot v i lim m)
    (hlimit : (om.orderPool slot).orderType = .limit)
    (hcancel : (om.orderPool slot).status ≠ .cancelRequest)
    (hforward : re.checkRiskOrder om slot now = .ok (true, re', om')) :
    WithinLimits (om.orderPool slot) (re.accountrisks v) (re.limits.getAccountLimit v)
        (re.symbolrisks v i) lim ↔
      NothingWraps (om.orderPool slot) (re.accountrisks v) (re.limits.getAccountLimit v)
        (re.symbolrisks v i) := by
  obtain ⟨hlimits, hmain⟩ := checks_of_forwarded h hcancel hforward
  exact (passedLimits_of_checks hlimit (hlimits hlimit)
    (checkAccountRisk_of_mainChecks hmain)).withinLimits_iff

/-- Limits of an ordinary size, and a market of 100 to 102. -/
def quotedEngine : RiskEngine :=
  { symbolrisks := fun _ _ => { bestBid := 100, bestAsk := 102 }
    limits :=
      { symbolLimits := fun _ =>
          [{ minQty := 1, maxQty := 100, maxOpenOrders := 5, maxPositionScaled := 1000
             maxExposureScaled := 100000, maxOrderNotionalScaled := 100000
             fatFingerRatio := 2000, fatFingerQtyThreshold := 1 }]
        accountLimits := fun _ =>
          { maxNotional := 100000, maxDailyLoss := 100000, maxUnrealizedLoss := 100000
            maxLeverage := 100000, maxOpenOrders := 5 } } }

/-- A limit bid for the symbol. -/
def bidStore (price : Int64) (quantity : UInt32) : OrderManager :=
  { twoOrders with
    orderPool := fun _ =>
      { price := price, quantity := quantity, side := .buy, orderType := .limit } }

def afterCheck (price : Int64) (quantity : UInt32) : Bool × RiskEngine × OrderManager :=
  (quotedEngine.checkRiskOrder (bidStore price quantity) 7 0).toOption.getD (false, {}, {})

/-- The limits of the account and of the symbol of the bid. -/
def bidWithinLimits (price : Int64) (quantity : UInt32) : Prop :=
  ∃ lim, quotedEngine.limits.getSymbolLimit 0 0 = .ok lim ∧
    WithinLimits ((bidStore price quantity).orderPool 7) (quotedEngine.accountrisks 0)
      (quotedEngine.limits.getAccountLimit 0) (quotedEngine.symbolrisks 0 0) lim

/-- A bid for 10 at 100 is forwarded and within the limits. -/
theorem forwarded_withinLimits_iff_bid :
    quotedEngine.checkRiskOrder (bidStore 100 10) 7 0 =
        .ok (true, (afterCheck 100 10).2) ∧ bidWithinLimits 100 10 := by
  have hforward : quotedEngine.checkRiskOrder (bidStore 100 10) 7 0 =
      .ok (true, (afterCheck 100 10).2) := rfl
  refine ⟨hforward, _, rfl, (forwarded_withinLimits_iff (v := 0) (i := 0)
    ⟨rfl, rfl, rfl, rfl⟩ rfl (show Status.unknown ≠ .cancelRequest by decide) hforward).mpr ?_⟩
  exact ⟨by decide, by decide, by decide, by decide⟩

/-- A bid for 64 at 2^58, with the value 2^64, is forwarded as well. -/
theorem wrapped_bid_forwarded :
    quotedEngine.checkRiskOrder (bidStore 288230376151711744 64) 7 0 =
        .ok (true, (afterCheck 288230376151711744 64).2) ∧
      ¬bidWithinLimits 288230376151711744 64 := by
  refine ⟨rfl, ?_⟩
  rintro ⟨lim, hlim, hwithin⟩
  rw [← Except.ok.inj hlim] at hwithin
  exact absurd hwithin.orderNotional (by decide)

end TradingEngine
