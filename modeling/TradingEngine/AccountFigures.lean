/-
The figures of an account, report by report.

`update_account_risk` moves four amounts: the margin in use, the exposure, the
balance and the positional exposure.  `updateAccountRisk_figures` says by how
much, for every status; what a report of the self-trade index or of the symbol
does leaves them alone (`figures_riskStep`).

A fill pays its value and the fee out of the balance and adds its value to the
positional exposure.  The branch is the same for both sides, so a sell is
charged like a buy: `flat_round_trip_iff` — buying and selling the same quantity
at one price costs only the fees exactly when twice its value vanishes modulo
2^64.
-/
import TradingEngine.PositionPnl

namespace TradingEngine

open FallibleRun RiskEngine

/-! ### One report -/

/-- The fee of a fill. -/
def tradeFee (lim : AccountLimit) (o : Order) : Int64 :=
  let rate := if o.orderType = .market then lim.takerFeeRate else lim.makerFeeRate
  rate * (OrderMetrics.ofOrder o).nominal / 1000000

/-- A priced cancel, delete or expiry moves margin and exposure unless it is a
repeated one. -/
def replacedAmount (o : Order) : Int64 :=
  if 0 < o.price then (OrderMetrics.ofOrder o).replaced else 0

/-- What a report adds to the margin in use. -/
def marginMove (o : Order) : Int64 :=
  match o.status with
  | .new => if 0 < o.price then (OrderMetrics.ofOrder o).notional else 0
  | .partialFill | .filled => -(OrderMetrics.ofOrder o).nominal
  | .cancelled | .deleted | .expired => if 1 < o.cancelledCount then 0 else replacedAmount o
  | .replaced => replacedAmount o
  | .unknown | .cancelRequest => 0

/-- What a report adds to the exposure: as the margin, with the sign of the
side, and nothing on a fill. -/
def exposureMove (o : Order) : Int64 :=
  if o.IsFill then 0 else marginMove o * (OrderMetrics.ofOrder o).sideMult

variable {acc acc' : AccountRisk} {lim : AccountLimit} {o : Order}

theorem updateLeverage_eq_ok (h : acc.updateLeverage = .ok acc') :
    ∃ leverage, acc' = { acc with currentLeverage := leverage } := by
  rw [AccountRisk.updateLeverage] at h
  split at h
  · exact ⟨acc.currentLeverage, (Except.ok.inj h).symm⟩
  · split at h
    · exact absurd h (by simp)
    · exact ⟨_, (Except.ok.inj h).symm⟩

/-- The four amounts after a report. -/
structure FiguresMoved (acc acc' : AccountRisk) (lim : AccountLimit) (o : Order) : Prop where
  margin : acc'.usedMargin = acc.usedMargin + marginMove o
  exposure : acc'.currentExposure = acc.currentExposure + exposureMove o
  balance : acc'.balance = acc.balance -
    if o.IsFill then (OrderMetrics.ofOrder o).nominal + tradeFee lim o else 0
  positional : acc'.positionalExposure = acc.positionalExposure +
    if o.IsFill then (OrderMetrics.ofOrder o).nominal else 0

/-- A report that only moves margin and exposure, both by a priced amount. -/
theorem figuresMoved_of_amount {x : Int64} (hfill : ¬o.IsFill) (hmargin : marginMove o = x)
    (h : acc'.usedMargin = acc.usedMargin + x ∧
      acc'.currentExposure = acc.currentExposure + x * (OrderMetrics.ofOrder o).sideMult ∧
      acc'.balance = acc.balance ∧ acc'.positionalExposure = acc.positionalExposure) :
    FiguresMoved acc acc' lim o := by
  obtain ⟨hm, he, hb, hp⟩ := h
  refine ⟨by rw [hm, hmargin], ?_, ?_, ?_⟩
  · rw [he, exposureMove, if_neg hfill, hmargin]
  · rw [hb, if_neg hfill, Int64.sub_zero]
  · rw [hp, if_neg hfill, Int64.add_zero]

/-- The replaced amount of a cancel or of a replace. -/
theorem addReplaced_figures (acc : AccountRisk) (o : Order) :
    (acc.addReplaced o (OrderMetrics.ofOrder o)).usedMargin =
        acc.usedMargin + replacedAmount o ∧
      (acc.addReplaced o (OrderMetrics.ofOrder o)).currentExposure = acc.currentExposure +
        replacedAmount o * (OrderMetrics.ofOrder o).sideMult ∧
      (acc.addReplaced o (OrderMetrics.ofOrder o)).balance = acc.balance ∧
      (acc.addReplaced o (OrderMetrics.ofOrder o)).positionalExposure =
        acc.positionalExposure := by
  rw [AccountRisk.addReplaced, replacedAmount]
  split
  · exact ⟨rfl, rfl, rfl, rfl⟩
  · refine ⟨?_, ?_, rfl, rfl⟩
    · grind
    · grind

/-- The cases for cancel, delete and expiry. -/
theorem updateAccountRisk_cancel (hfill : ¬o.IsFill)
    (hmove : marginMove o = if 1 < o.cancelledCount then 0 else replacedAmount o)
    (h : (if 1 < o.cancelledCount then .ok acc
      else
        { acc.addReplaced o (OrderMetrics.ofOrder o) with openOrdersCount :=
          if o.remainingQuantity = 0
          then (acc.addReplaced o (OrderMetrics.ofOrder o)).openOrdersCount - 1
          else (acc.addReplaced o (OrderMetrics.ofOrder o)).openOrdersCount }.updateLeverage) =
      .ok acc') : FiguresMoved acc acc' lim o := by
  by_cases hcc : 1 < o.cancelledCount
  · rw [if_pos hcc] at h hmove
    rw [← Except.ok.inj h]
    refine figuresMoved_of_amount hfill hmove ⟨?_, ?_, rfl, rfl⟩
    · grind
    · grind
  · rw [if_neg hcc] at h hmove
    obtain ⟨leverage, rfl⟩ := updateLeverage_eq_ok h
    exact figuresMoved_of_amount hfill hmove (addReplaced_figures acc o)

/-- **What a report does to the account.** -/
theorem updateAccountRisk_figures
    (h : updateAccountRisk acc lim o (OrderMetrics.ofOrder o) = .ok acc') :
    FiguresMoved acc acc' lim o := by
  have hfee : (if o.orderType = .market
      then lim.takerFeeRate * (OrderMetrics.ofOrder o).nominal / 1000000
      else lim.makerFeeRate * (OrderMetrics.ofOrder o).nominal / 1000000) = tradeFee lim o := by
    rw [tradeFee]
    split <;> rfl
  rw [updateAccountRisk, hfee] at h
  dsimp only at h
  cases hs : o.status with
  | new =>
    have hfill : ¬o.IsFill := by simp [Order.IsFill, hs]
    rw [hs] at h
    obtain ⟨leverage, rfl⟩ := updateLeverage_eq_ok h
    by_cases hprice : 0 < o.price
    · refine figuresMoved_of_amount (x := (OrderMetrics.ofOrder o).notional) hfill ?_ ?_
      · rw [marginMove, hs]
        exact if_pos hprice
      · simp only [if_pos hprice]
        exact ⟨trivial, trivial, trivial, trivial⟩
    · -- a market order holds back nothing
      refine figuresMoved_of_amount (x := 0) hfill ?_ ?_
      · rw [marginMove, hs]
        exact if_neg hprice
      · simp only [if_neg hprice]
        refine ⟨?_, ?_, trivial, trivial⟩
        · grind
        · grind
  | partialFill | filled =>
    have hfill : o.IsFill := by simp [Order.IsFill, hs]
    rw [hs] at h
    obtain ⟨leverage, rfl⟩ := updateLeverage_eq_ok h
    refine ⟨?_, ?_, by rw [if_pos hfill]; rfl, by rw [if_pos hfill]; rfl⟩
    · rw [marginMove, hs]
      exact Int64.sub_eq_add_neg _ _
    · rw [exposureMove, if_pos hfill, Int64.add_zero]
      rfl
  | cancelled | deleted | expired =>
    rw [hs] at h
    refine updateAccountRisk_cancel (by simp [Order.IsFill, hs]) ?_ h
    rw [marginMove, hs]
  | replaced =>
    rw [hs] at h
    obtain ⟨leverage, rfl⟩ := updateLeverage_eq_ok h
    refine figuresMoved_of_amount (by simp [Order.IsFill, hs]) ?_ (addReplaced_figures acc o)
    rw [marginMove, hs]
  | unknown | cancelRequest =>
    -- no branch of the source adds anything here
    rw [hs] at h
    obtain ⟨leverage, rfl⟩ := updateLeverage_eq_ok h
    refine figuresMoved_of_amount (x := 0) (by simp [Order.IsFill, hs]) ?_ ?_
    · rw [marginMove, hs]
    · refine ⟨?_, ?_, rfl, rfl⟩
      · grind
      · grind

/-! ### One application -/

/-- `update_symbol_risk` only moves the profit totals of the account. -/
theorem symbolRisk_account {sym sym' : SymbolRisk} {mb : MarketBook} {m : OrderMetrics}
    (h : symbolRisk acc sym mb o m = .ok (acc', sym')) :
    ∃ total daily, acc' = { acc with totalUnrealizedPnl := total, dailyRealizedPnl := daily } := by
  rw [symbolRisk] at h
  split at h
  · by_cases hfill : o.IsFill
    · obtain ⟨count, filled, hfilled, -⟩ := ownSymbolRisk_of_fill hfill h
      obtain ⟨total, daily, _, _, _, _, rfl, -⟩ := applyFill_eq_ok hfilled
      exact ⟨total, daily, rfl⟩
    · obtain ⟨rfl, -⟩ := ownSymbolRisk_of_not_fill hfill h
      exact ⟨_, _, rfl⟩
  · rw [marketSymbolRisk] at h
    obtain ⟨book, -, h⟩ := bind_eq_ok_iff.mp h
    cases book with
    | none => exact absurd h (by simp)
    | some place =>
      have hacc := congrArg Prod.fst (Except.ok.inj h)
      dsimp only at hacc
      rw [markToMarket] at hacc
      split at hacc
      · exact ⟨_, _, hacc.symm⟩
      · exact ⟨_, _, hacc.symm⟩

variable {re re' : RiskEngine} {e : RiskEvent} {v : VenueIndex} {i : SymbolSlot}

/-- **What an own order does to the account of its venue.** -/
theorem figures_riskStep (hown : e.order.isOurOrder = true) (hv : e.order.venue.index = .ok v)
    (h : riskStep re e = .ok re') :
    FiguresMoved (re.accountrisks v) (re'.accountrisks v) (re.limits.getAccountLimit v) e.order ∧
      re'.limits = re.limits := by
  obtain ⟨w, j, acc, sym, acc', hw, -, hrisk, hacc, haccs, -, hlimits⟩ := riskStep_eq_ok h
  obtain rfl : v = w := Except.ok.inj (hv.symm.trans hw)
  rw [if_pos (.inr hown)] at hacc
  rw [haccs, Function.update_self]
  obtain ⟨total, daily, rfl⟩ := symbolRisk_account hrisk
  obtain ⟨hmargin, hexposure, hbalance, hpositional⟩ := updateAccountRisk_figures hacc
  exact ⟨⟨hmargin, hexposure, hbalance, hpositional⟩, hlimits⟩

/-! ### A flat round trip -/

/-- The value of all fills. -/
def tradedValue (es : List RiskEvent) : ℤ := (es.map fun e => e.order.value).sum

/-- The fees of all fills. -/
def feesCharged (lim : AccountLimit) (es : List RiskEvent) : Int64 :=
  (es.map fun e => tradeFee lim e.order).sum

/-- The quantity bought. -/
def boughtQuantity (es : List RiskEvent) : ℕ :=
  (es.map fun e => if e.order.side = .buy then e.order.lastExecQuantity.toNat else 0).sum

/-- The quantity sold. -/
def soldQuantity (es : List RiskEvent) : ℕ :=
  (es.map fun e => if e.order.side = .buy then 0 else e.order.lastExecQuantity.toNat).sum

variable {es : List RiskEvent}

/-- What fills of one venue cost, whatever their sides. -/
theorem figures_fills (hfills : ∀ e ∈ es, e.order.isOurOrder = true ∧ e.order.FillOf v i)
    (hrun : exec riskStep re es = .ok re') :
    (re'.accountrisks v).balance = (re.accountrisks v).balance -
        (Int64.ofInt (tradedValue es) + feesCharged (re.limits.getAccountLimit v) es) ∧
      (re'.accountrisks v).positionalExposure =
        (re.accountrisks v).positionalExposure + Int64.ofInt (tradedValue es) := by
  induction es generalizing re with
  | nil =>
    rw [exec_nil, Except.ok.injEq] at hrun
    rw [hrun]
    show _ = _ - (0 + 0) ∧ _ = _ + 0
    constructor
    · grind
    · grind
  | cons e es ih =>
    obtain ⟨re₁, hstep, hrest⟩ := exec_cons_eq_ok_iff.mp hrun
    obtain ⟨hown, hfill⟩ := hfills e List.mem_cons_self
    obtain ⟨hmoved, hlimits⟩ := figures_riskStep hown hfill.2.1 hstep
    obtain ⟨hbalance, hpositional⟩ :=
      ih (fun e' he' => hfills e' (List.mem_cons_of_mem e he')) hrest
    have hnominal : (OrderMetrics.ofOrder e.order).nominal = Int64.ofInt e.order.value :=
      (ofInt_value e.order).symm
    have hvalue : Int64.ofInt (tradedValue (e :: es)) =
        Int64.ofInt e.order.value + Int64.ofInt (tradedValue es) := Int64.ofInt_add _ _
    have hfees : feesCharged (re.limits.getAccountLimit v) (e :: es) =
        tradeFee (re.limits.getAccountLimit v) e.order +
          feesCharged (re.limits.getAccountLimit v) es := List.sum_cons
    rw [hlimits, hmoved.balance, if_pos hfill.1, hnominal] at hbalance
    rw [hmoved.positional, if_pos hfill.1, hnominal] at hpositional
    rw [hbalance, hpositional, hvalue, hfees]
    constructor
    · grind
    · grind

/-- Fills at one price are worth price times quantity. -/
theorem tradedValue_eq {p : Int64} (hprice : ∀ e ∈ es, e.order.price = p) :
    tradedValue es = p.toInt * (boughtQuantity es + soldQuantity es) := by
  induction es with
  | nil =>
    show (0 : ℤ) = p.toInt * ((0 : ℕ) + (0 : ℕ))
    ring
  | cons e es ih =>
    have hrest := ih fun e' he' => hprice e' (List.mem_cons_of_mem e he')
    have hvalue : tradedValue (e :: es) = e.order.value + tradedValue es := rfl
    have hsum : boughtQuantity (e :: es) + soldQuantity (e :: es) =
        e.order.lastExecQuantity.toNat + (boughtQuantity es + soldQuantity es) := by
      rw [boughtQuantity, soldQuantity, List.map_cons, List.map_cons, List.sum_cons, List.sum_cons]
      show _ + boughtQuantity es + (_ + soldQuantity es) = _
      split
      · omega
      · omega
    have hcast : (boughtQuantity (e :: es) : ℤ) + soldQuantity (e :: es) =
        e.order.lastExecQuantity.toNat + (boughtQuantity es + soldQuantity es) := by
      exact_mod_cast hsum
    rw [hvalue, hrest, hcast, Order.value, hprice e List.mem_cons_self]
    ring

theorem ofInt_eq_zero_iff (n : ℤ) : Int64.ofInt n = 0 ↔ (2 : ℤ) ^ 64 ∣ n := by
  rw [Int64.ofInt_eq_iff_bmod_eq_toInt]
  show n.bmod (2 ^ 64) = 0 ↔ _
  constructor
  · intro h
    exact Int.dvd_of_bmod_eq_zero h
  · intro h
    exact Int.bmod_eq_zero_of_dvd h

/-- **What a flat round trip costs.**  Of own fills of one symbol at one price,
as much bought as sold, the balance pays only the fees, and the positional
exposure comes back, exactly when the value of one side vanishes modulo 2^63:
a sell is charged like a buy. -/
theorem flat_round_trip_iff {p : Int64} {q : ℕ}
    (hfills : ∀ e ∈ es, e.order.isOurOrder = true ∧ e.order.FillOf v i)
    (hprice : ∀ e ∈ es, e.order.price = p) (hbought : boughtQuantity es = q)
    (hsold : soldQuantity es = q) (hrun : exec riskStep re es = .ok re') :
    ((re'.accountrisks v).balance = (re.accountrisks v).balance -
        feesCharged (re.limits.getAccountLimit v) es ∧
      (re'.accountrisks v).positionalExposure = (re.accountrisks v).positionalExposure) ↔
    (2 : ℤ) ^ 63 ∣ p.toInt * q := by
  obtain ⟨hbalance, hpositional⟩ := figures_fills hfills hrun
  have htwice : tradedValue es = 2 * (p.toInt * q) := by
    rw [tradedValue_eq hprice, hbought, hsold]
    ring
  have hdvd : Int64.ofInt (tradedValue es) = 0 ↔ (2 : ℤ) ^ 63 ∣ p.toInt * q := by
    rw [ofInt_eq_zero_iff, htwice]
    omega
  rw [hbalance, hpositional, ← hdvd]
  constructor
  · rintro ⟨-, h⟩
    grind
  · intro h
    rw [h]
    constructor
    · grind
    · grind

/-- Five bought and five sold, all at 100. -/
def thereAndBackAt100 : List RiskEvent :=
  [⟨tradedOrder .buy 100 5, {}⟩, ⟨tradedOrder .sell 100 5, {}⟩]

def afterThereAndBack : RiskEngine := (exec riskStep {} thereAndBackAt100).toOption.getD default

theorem flat_round_trip_iff_at100 :
    exec riskStep {} thereAndBackAt100 = .ok afterThereAndBack ∧
      (((afterThereAndBack.accountrisks 0).balance =
          (({} : RiskEngine).accountrisks 0).balance -
            feesCharged (({} : RiskEngine).limits.getAccountLimit 0) thereAndBackAt100 ∧
        (afterThereAndBack.accountrisks 0).positionalExposure =
          (({} : RiskEngine).accountrisks 0).positionalExposure) ↔
      (2 : ℤ) ^ 63 ∣ (100 : Int64).toInt * (5 : ℕ)) := by
  have hrun : exec riskStep {} thereAndBackAt100 = .ok afterThereAndBack := rfl
  have hfills : ∀ e ∈ thereAndBackAt100,
      (e.order.isOurOrder = true ∧ e.order.FillOf 0 0) ∧ e.order.price = 100 := by
    intro e he
    rw [thereAndBackAt100, List.mem_cons, List.mem_singleton] at he
    obtain rfl | rfl := he
    · exact ⟨⟨rfl, .inl rfl, rfl, rfl⟩, rfl⟩
    · exact ⟨⟨rfl, .inl rfl, rfl, rfl⟩, rfl⟩
  exact ⟨hrun, flat_round_trip_iff (fun e he => (hfills e he).1) (fun e he => (hfills e he).2)
    rfl rfl hrun⟩

/-- **A round trip costs its value twice.**  Without any fee the balance loses
1000 over five bought and five sold at 100, and the positional exposure keeps
them. -/
theorem round_trip_charged_twice :
    exec riskStep {} thereAndBackAt100 = .ok afterThereAndBack ∧
      boughtQuantity thereAndBackAt100 = 5 ∧ soldQuantity thereAndBackAt100 = 5 ∧
      feesCharged {} thereAndBackAt100 = 0 ∧
      (afterThereAndBack.symbolrisks 0 0).netPosition = 0 ∧
      (afterThereAndBack.accountrisks 0).balance = 10000000 - 1000 ∧
      (afterThereAndBack.accountrisks 0).positionalExposure = 1000 :=
  ⟨rfl, rfl, rfl, by decide, rfl, rfl, rfl⟩

end TradingEngine
