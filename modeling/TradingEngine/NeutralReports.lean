/-
Reports that leave the risk figures as they are.

The risk engine has no event identity: it applies whatever status and quantities
an order has when it is popped.  Applying an own order once moves the open-order
count of its account by `countMove`, the margin in use by `marginMove` and the
position of its symbol by what it executed.

* `sameFigures_riskStep_iff` — positions, counts, pending notional, margin,
  exposures and balances all stay as they are exactly on a `Neutral` order;
* `samePnl_riskStep` — an order that is not a fill leaves the profit figures;
* `clamped_riskStep` — no pending notional and no count of a symbol is ever
  negative, which is what makes the clamps harmless.
-/
import TradingEngine.AccountFigures
import TradingEngine.PendingNotional

namespace TradingEngine

open FallibleRun RiskEngine

/-! ### The open-order count of the account -/

/-- What an own order adds to the open-order count of its account. -/
def countMove (o : Order) : UInt32 :=
  match o.status with
  | .new => 1
  | .filled => -1
  | .cancelled | .deleted | .expired =>
    if 1 < o.cancelledCount ∨ o.remainingQuantity ≠ 0 then 0 else -1
  | .partialFill | .replaced | .unknown | .cancelRequest => 0

variable {acc acc' : AccountRisk} {sym sym' : SymbolRisk} {o : Order} {m : OrderMetrics}
  {lim : AccountLimit}

theorem count_updateLeverage (h : acc.updateLeverage = .ok acc') :
    acc'.openOrdersCount = acc.openOrdersCount := by
  obtain ⟨leverage, rfl⟩ := updateLeverage_eq_ok h
  rfl

theorem count_addReplaced (acc : AccountRisk) (o : Order) (m : OrderMetrics) :
    (acc.addReplaced o m).openOrdersCount = acc.openOrdersCount := by
  rw [AccountRisk.addReplaced]
  split <;> rfl

/-- The case for cancel, delete and expiry. -/
theorem count_accountCancel
    (hmove : countMove o = if 1 < o.cancelledCount ∨ o.remainingQuantity ≠ 0 then 0 else -1)
    (h : (if 1 < o.cancelledCount then .ok acc
      else
        { acc.addReplaced o m with openOrdersCount :=
          if o.remainingQuantity = 0 then (acc.addReplaced o m).openOrdersCount - 1
          else (acc.addReplaced o m).openOrdersCount }.updateLeverage) = .ok acc') :
    acc'.openOrdersCount = acc.openOrdersCount + countMove o := by
  by_cases hcc : 1 < o.cancelledCount
  · rw [if_pos hcc] at h
    rw [hmove, if_pos (.inl hcc), ← Except.ok.inj h, UInt32.add_zero]
  · rw [if_neg hcc] at h
    rw [count_updateLeverage h]
    dsimp only
    rw [hmove, count_addReplaced]
    by_cases hzero : o.remainingQuantity = 0
    · rw [if_pos hzero, if_neg (by simp [hcc, hzero]), UInt32.sub_eq_add_neg]
    · rw [if_neg hzero, if_pos (.inr hzero), UInt32.add_zero]

/-- **The count of the account after a report.** -/
theorem count_updateAccountRisk (h : updateAccountRisk acc lim o m = .ok acc') :
    acc'.openOrdersCount = acc.openOrdersCount + countMove o := by
  rw [updateAccountRisk] at h
  dsimp only at h
  cases hs : o.status with
  | new =>
    rw [hs] at h
    rw [count_updateLeverage h, countMove, hs]
    dsimp only
    split <;> rfl
  | filled =>
    rw [hs] at h
    rw [count_updateLeverage h, countMove, hs]
    exact UInt32.sub_eq_add_neg _ _
  | cancelled | deleted | expired =>
    rw [hs] at h
    refine count_accountCancel ?_ h
    rw [countMove, hs]
  | partialFill | unknown | cancelRequest =>
    rw [hs] at h
    rw [count_updateLeverage h, countMove, hs]
    exact (UInt32.add_zero _).symm
  | replaced =>
    rw [hs] at h
    rw [count_updateLeverage h, count_addReplaced, countMove, hs]
    exact (UInt32.add_zero _).symm

/-! ### The clamps -/

/-- The clamps of `update_symbol_risk` would change nothing. -/
structure SymbolRisk.Clamped (sym : SymbolRisk) : Prop where
  pending : ¬sym.pendingNotionalScaled < 0
  count : ¬sym.openOrdersCount < 0

theorem clamped_clamp (sym : SymbolRisk) : sym.clamp.Clamped := by
  constructor
  · show ¬(if sym.pendingNotionalScaled < 0 then 0 else sym.pendingNotionalScaled) < 0
    split
    · decide
    · assumption
  · show ¬(if sym.openOrdersCount < 0 then 0 else sym.openOrdersCount) < 0
    split
    · decide
    · assumption

theorem clamp_of_clamped (h : sym.Clamped) : sym.clamp = sym := by
  rw [SymbolRisk.clamp, if_neg h.pending, if_neg h.count]

theorem clamped_ownSymbolRisk (hclamped : sym.Clamped)
    (h : ownSymbolRisk acc sym o m = .ok (acc', sym')) : sym'.Clamped := by
  by_cases hfill : o.IsFill
  · obtain ⟨count, filled, -, rfl⟩ := ownSymbolRisk_of_fill hfill h
    exact clamped_clamp filled
  · rw [ownSymbolRisk] at h
    cases hs : o.status with
    | partialFill => exact absurd (.inl hs) hfill
    | filled => exact absurd (.inr hs) hfill
    | new | replaced | unknown | expired | cancelRequest =>
      rw [hs] at h
      obtain ⟨-, rfl⟩ := Prod.mk.inj (Except.ok.inj h)
      exact clamped_clamp _
    | cancelled | deleted =>
      rw [hs] at h
      dsimp only at h
      split at h
      · -- the early return skips the clamps
        obtain ⟨-, rfl⟩ := Prod.mk.inj (Except.ok.inj h)
        exact hclamped
      · obtain ⟨-, rfl⟩ := Prod.mk.inj (Except.ok.inj h)
        exact clamped_clamp _

theorem clamped_symbolRisk {mb : MarketBook} (hclamped : sym.Clamped)
    (h : symbolRisk acc sym mb o m = .ok (acc', sym')) : sym'.Clamped := by
  rw [symbolRisk] at h
  split at h
  · exact clamped_ownSymbolRisk hclamped h
  · rw [marketSymbolRisk] at h
    obtain ⟨book, -, h⟩ := bind_eq_ok_iff.mp h
    cases book with
    | none => exact absurd h (by simp)
    | some place =>
      obtain ⟨-, rfl⟩ := Prod.mk.inj (Except.ok.inj h)
      exact clamped_clamp _

variable {re re' : RiskEngine} {e : RiskEvent} {v : VenueIndex} {i : SymbolSlot}

/-- No symbol has a negative count or pending notional. -/
def RiskEngine.Clamped (re : RiskEngine) : Prop := ∀ v i, (re.symbolrisks v i).Clamped

theorem clamped_riskStep (hclamped : re.Clamped) (h : riskStep re e = .ok re') : re'.Clamped :=
  forall_symbols_riskStep hclamped h fun v i _ _ _ _ hrisk =>
    clamped_symbolRisk (hclamped v i) hrisk

theorem clamped_fresh (hfresh : re.Fresh) : re.Clamped := by
  intro v i
  obtain ⟨o, c, hsym⟩ := hfresh.symbols v i
  rw [hsym]
  exact ⟨show ¬(0 : Int64) < 0 by decide, show ¬(0 : Int32) < 0 by decide⟩

/-- Every state that calls of `update_risk` lead to is clamped. -/
theorem clamped_of_calls {calls : List OrderManager} (hfresh : re.Fresh)
    (h : exec updateRiskCall re calls = .ok re') : re'.Clamped :=
  exec_inv (fun _ _ _ hclamped => clamped_riskStep hclamped) (clamped_fresh hfresh)
    (exec_applied_of_calls h)

/-! ### Neutral orders -/

/-- An order that changes no figure when it is applied. -/
def Neutral (o : Order) : Prop :=
  match o.status with
  | .new | .filled => False
  | .partialFill => o.lastExecQuantity = 0
  | .cancelled | .deleted | .expired =>
    1 < o.cancelledCount ∨ o.remainingQuantity ≠ 0 ∧ replacedAmount o = 0
  | .replaced => replacedAmount o = 0
  | .unknown | .cancelRequest => True

/-- Positions, counts, pending notional, margin, exposures and balances. -/
structure SameFigures (re re' : RiskEngine) : Prop where
  position : ∀ v i, (re'.symbolrisks v i).netPosition = (re.symbolrisks v i).netPosition
  symbolCount : ∀ v i,
    (re'.symbolrisks v i).openOrdersCount = (re.symbolrisks v i).openOrdersCount
  pending : ∀ v i,
    (re'.symbolrisks v i).pendingNotionalScaled = (re.symbolrisks v i).pendingNotionalScaled
  accountCount : ∀ v, (re'.accountrisks v).openOrdersCount = (re.accountrisks v).openOrdersCount
  margin : ∀ v, (re'.accountrisks v).usedMargin = (re.accountrisks v).usedMargin
  exposure : ∀ v, (re'.accountrisks v).currentExposure = (re.accountrisks v).currentExposure
  positional : ∀ v,
    (re'.accountrisks v).positionalExposure = (re.accountrisks v).positionalExposure
  balance : ∀ v, (re'.accountrisks v).balance = (re.accountrisks v).balance

theorem nominal_eq_zero (hzero : o.lastExecQuantity = 0) :
    (OrderMetrics.ofOrder o).nominal = 0 := by
  show o.price * o.lastExecQuantity.toInt64 = 0
  rw [hzero]
  exact Int64.mul_zero

/-- An execution that moves no position is of quantity 0. -/
theorem ofInt_signedExec_eq_zero_iff : Int64.ofInt o.signedExec = 0 ↔ o.lastExecQuantity = 0 := by
  have hlt := o.lastExecQuantity.toNat_lt
  rw [ofInt_eq_zero_iff, Order.signedExec, signed]
  have hdvd : (2 : ℤ) ^ 64 ∣ o.lastExecQuantity.toNat ↔ o.lastExecQuantity = 0 := by
    rw [← UInt32.toNat_inj]
    constructor
    · intro h
      have hzero : o.lastExecQuantity.toNat = 0 := by
        norm_num at h
        omega
      exact hzero
    · intro h
      rw [h]
      exact dvd_zero _
  split
  · exact hdvd
  · rw [Int.dvd_neg]
    exact hdvd

/-- The three moves vanish exactly for a neutral order. -/
theorem neutral_iff : Neutral o ↔
    countMove o = 0 ∧ marginMove o = 0 ∧ (o.IsFill → o.lastExecQuantity = 0) := by
  rw [Neutral, countMove, marginMove]
  cases hs : o.status with
  | new | filled =>
    refine ⟨False.elim, fun h => ?_⟩
    exact absurd h.1 (by simp)
  | partialFill =>
    refine ⟨fun hzero => ⟨rfl, ?_, fun _ => hzero⟩, fun h => h.2.2 (.inl hs)⟩
    show -(OrderMetrics.ofOrder o).nominal = 0
    rw [nominal_eq_zero hzero]
    rfl
  | cancelled | deleted | expired =>
    have hfill : ¬o.IsFill := by simp [Order.IsFill, hs]
    by_cases hcc : 1 < o.cancelledCount
    · simp [hcc, hfill]
    · by_cases hzero : o.remainingQuantity = 0
      · simp [hcc, hzero]
      · simp [hcc, hzero, hfill]
  | replaced =>
    have hfill : ¬o.IsFill := by simp [Order.IsFill, hs]
    simp [hfill]
  | unknown | cancelRequest =>
    have hfill : ¬o.IsFill := by simp [Order.IsFill, hs]
    simp [hfill]

/-- A neutral order leaves the position, the count and the pending notional of its symbol. -/
theorem ownSymbolRisk_of_neutral (hneutral : Neutral o) (hclamped : sym.Clamped)
    (h : ownSymbolRisk acc sym o (OrderMetrics.ofOrder o) = .ok (acc', sym')) :
    sym'.netPosition = sym.netPosition ∧ sym'.openOrdersCount = sym.openOrdersCount ∧
      sym'.pendingNotionalScaled = sym.pendingNotionalScaled := by
  have hadd : replacedAmount o = 0 → sym.addReplaced o (OrderMetrics.ofOrder o) = sym := by
    intro hzero
    rw [replacedAmount] at hzero
    rw [SymbolRisk.addReplaced]
    split
    · rename_i hprice
      rw [if_pos hprice] at hzero
      rw [hzero, Int64.add_zero]
    · rfl
  rw [Neutral] at hneutral
  rw [ownSymbolRisk] at h
  cases hs : o.status with
  | new | filled =>
    rw [hs] at hneutral
    exact hneutral.elim
  | partialFill =>
    rw [hs] at h hneutral
    have hzero : o.lastExecQuantity = 0 := hneutral
    obtain ⟨⟨acc₁, sym₁⟩, hfill, h⟩ := bind_eq_ok_iff.mp h
    obtain ⟨-, rfl⟩ := Prod.mk.inj (Except.ok.inj h)
    obtain ⟨_, _, _, _, _, _, -, rfl⟩ := applyFill_eq_ok hfill
    have hposition : sym.netPosition +
        (OrderMetrics.ofOrder o).sideMult * o.lastExecQuantity.toInt64 = sym.netPosition := by
      rw [hzero]
      exact Int64.add_eq_left.mpr Int64.mul_zero
    have hpending : sym.pendingNotionalScaled -
        (OrderMetrics.ofOrder o).nominal * (OrderMetrics.ofOrder o).sideMult =
        sym.pendingNotionalScaled := by
      rw [nominal_eq_zero hzero, Int64.zero_mul, Int64.sub_zero]
    simp only [SymbolRisk.clamp, hposition, hpending, if_neg hclamped.pending,
      if_neg hclamped.count, and_self]
  | cancelled | deleted =>
    rw [hs] at h hneutral
    dsimp only at h hneutral
    by_cases hcc : 1 < o.cancelledCount
    · rw [if_pos hcc] at h
      obtain ⟨-, rfl⟩ := Prod.mk.inj (Except.ok.inj h)
      exact ⟨rfl, rfl, rfl⟩
    · obtain ⟨hleft, hzero⟩ := hneutral.resolve_left hcc
      rw [if_neg hcc, if_neg hleft] at h
      obtain ⟨-, rfl⟩ := Prod.mk.inj (Except.ok.inj h)
      rw [hadd hzero, clamp_of_clamped hclamped]
      exact ⟨rfl, rfl, rfl⟩
  | replaced =>
    rw [hs] at h hneutral
    obtain ⟨-, rfl⟩ := Prod.mk.inj (Except.ok.inj h)
    rw [hadd hneutral, clamp_of_clamped hclamped]
    exact ⟨rfl, rfl, rfl⟩
  | unknown | expired | cancelRequest =>
    rw [hs] at h
    obtain ⟨-, rfl⟩ := Prod.mk.inj (Except.ok.inj h)
    rw [clamp_of_clamped hclamped]
    exact ⟨rfl, rfl, rfl⟩

/-! ### One application -/

/-- The count of every account after an own order. -/
theorem count_riskStep (hown : e.order.isOurOrder = true) (h : riskStep re e = .ok re')
    (v : VenueIndex) : (re'.accountrisks v).openOrdersCount =
      (re.accountrisks v).openOrdersCount +
        if e.order.venue.index = .ok v then countMove e.order else 0 := by
  obtain ⟨w, j, acc, sym, acc', hw, -, hrisk, hacc, haccs, -, -⟩ := riskStep_eq_ok h
  rw [if_pos (.inr hown)] at hacc
  obtain ⟨total, daily, rfl⟩ := symbolRisk_account hrisk
  rw [haccs, hw]
  by_cases hv : w = v
  · subst hv
    rw [Function.update_self, if_pos rfl, count_updateAccountRisk hacc]
  · rw [Function.update_of_ne (Ne.symm hv), if_neg (fun h => hv (Except.ok.inj h)),
      UInt32.add_zero]

/-- The four amounts of another venue stay. -/
theorem account_riskStep_of_ne {w : VenueIndex} (hw : e.order.venue.index = .ok w) (hne : v ≠ w)
    (h : riskStep re e = .ok re') : re'.accountrisks v = re.accountrisks v := by
  obtain ⟨w', _, _, _, _, hw', -, -, -, haccs, -, -⟩ := riskStep_eq_ok h
  obtain rfl : w = w' := Except.ok.inj (hw.symm.trans hw')
  rw [haccs, Function.update_of_ne hne]

theorem symbol_riskStep_of_ne {w : VenueIndex} {j : SymbolSlot}
    (hw : e.order.venue.index = .ok w) (hj : symbolSlot e.order.symbolIndex = .ok j)
    (hne : ¬(v = w ∧ i = j)) (h : riskStep re e = .ok re') :
    re'.symbolrisks v i = re.symbolrisks v i := by
  obtain ⟨w', j', _, _, _, hw', hj', -, -, -, hsyms, -⟩ := riskStep_eq_ok h
  obtain rfl : w = w' := Except.ok.inj (hw.symm.trans hw')
  obtain rfl : j = j' := Except.ok.inj (hj.symm.trans hj')
  rw [hsyms]
  by_cases hv : v = w
  · subst hv
    rw [Function.update_self, Function.update_of_ne fun hi => hne ⟨rfl, hi⟩]
  · rw [Function.update_of_ne hv]

/-- **The figures stay exactly on a neutral order.** -/
theorem sameFigures_riskStep_iff (hown : e.order.isOurOrder = true) (hclamped : re.Clamped)
    (h : riskStep re e = .ok re') : SameFigures re re' ↔ Neutral e.order := by
  obtain ⟨w, j, acc, sym, acc', hw, hj, hrisk, -, -, hsyms, -⟩ := riskStep_eq_ok h
  rw [symbolRisk, if_pos hown] at hrisk
  obtain ⟨hmoved, -⟩ := figures_riskStep hown hw h
  constructor
  · intro hsame
    refine neutral_iff.mpr ⟨?_, ?_, fun hfill => ?_⟩
    · have hcount := hsame.accountCount w
      rw [count_riskStep hown h, if_pos hw] at hcount
      exact UInt32.add_eq_left.mp hcount
    · exact Int64.add_eq_left.mp (hmoved.margin.symm.trans (hsame.margin w))
    · have hposition := hsame.position w j
      rw [netPosition_riskStep hown h, executed, if_pos ⟨hfill, hw, hj⟩] at hposition
      exact ofInt_signedExec_eq_zero_iff.mp (Int64.add_eq_left.mp hposition)
  · intro hneutral
    obtain ⟨hcount, hmargin, hexec⟩ := neutral_iff.mp hneutral
    obtain ⟨hposition, hopen, hpending⟩ := ownSymbolRisk_of_neutral hneutral (hclamped w j) hrisk
    have hnominal : e.order.IsFill → (OrderMetrics.ofOrder e.order).nominal = 0 :=
      fun hfill => nominal_eq_zero (hexec hfill)
    have hfee : e.order.IsFill → tradeFee (re.limits.getAccountLimit w) e.order = 0 := by
      intro hfill
      rw [tradeFee, hnominal hfill, Int64.mul_zero]
      rfl
    -- symbols and accounts other than those of the order are not touched
    have hsymbols : ∀ {α : Type} (f : SymbolRisk → α), f sym = f (re.symbolrisks w j) →
        ∀ v i, f (re'.symbolrisks v i) = f (re.symbolrisks v i) := by
      intro α f hf v i
      by_cases hplace : v = w ∧ i = j
      · obtain ⟨rfl, rfl⟩ := hplace
        rw [hsyms, Function.update_self, Function.update_self, hf]
      · rw [symbol_riskStep_of_ne hw hj hplace h]
    have haccounts : ∀ {α : Type} (f : AccountRisk → α),
        f (re'.accountrisks w) = f (re.accountrisks w) →
        ∀ v, f (re'.accountrisks v) = f (re.accountrisks v) := by
      intro α f hf v
      by_cases hv : v = w
      · rw [hv, hf]
      · rw [account_riskStep_of_ne hw hv h]
    refine ⟨hsymbols _ hposition, hsymbols _ hopen, hsymbols _ hpending, haccounts _ ?_,
      haccounts _ ?_, haccounts _ ?_, haccounts _ ?_, haccounts _ ?_⟩
    · rw [count_riskStep hown h, if_pos hw]
      exact UInt32.add_eq_left.mpr hcount
    · rw [hmoved.margin]
      exact Int64.add_eq_left.mpr hmargin
    · rw [hmoved.exposure, exposureMove, hmargin, Int64.zero_mul, ite_self]
      exact Int64.add_zero _
    · rw [hmoved.positional]
      split
      · rename_i hfill
        rw [hnominal hfill, Int64.add_zero]
      · exact Int64.add_zero _
    · rw [hmoved.balance]
      split
      · rename_i hfill
        rw [hnominal hfill, hfee hfill]
        exact Int64.sub_zero _
      · exact Int64.sub_zero _

/-- The profit figures. -/
structure SamePnl (re re' : RiskEngine) : Prop where
  realized : ∀ v i, (re'.symbolrisks v i).realizedPnl = (re.symbolrisks v i).realizedPnl
  unrealized : ∀ v i, (re'.symbolrisks v i).unrealizedPnl = (re.symbolrisks v i).unrealizedPnl
  daily : ∀ v, (re'.accountrisks v).dailyRealizedPnl = (re.accountrisks v).dailyRealizedPnl
  total : ∀ v, (re'.accountrisks v).totalUnrealizedPnl = (re.accountrisks v).totalUnrealizedPnl

/-- **An own order that is not a fill leaves the profit figures.** -/
theorem samePnl_riskStep (hown : e.order.isOurOrder = true) (hfill : ¬e.order.IsFill)
    (h : riskStep re e = .ok re') : SamePnl re re' := by
  obtain ⟨w, j, acc, sym, acc', hw, hj, hrisk, hacc, haccs, hsyms, -⟩ := riskStep_eq_ok h
  rw [symbolRisk, if_pos hown] at hrisk
  rw [if_pos (.inr hown)] at hacc
  obtain ⟨rfl, pending, count, rfl⟩ := ownSymbolRisk_of_not_fill hfill hrisk
  obtain ⟨htotal, hdaily⟩ := pnl_updateAccountRisk hacc
  refine ⟨fun v i => ?_, fun v i => ?_, fun v => ?_, fun v => ?_⟩
  · by_cases hplace : v = w ∧ i = j
    · obtain ⟨rfl, rfl⟩ := hplace
      rw [hsyms, Function.update_self, Function.update_self]
    · rw [symbol_riskStep_of_ne hw hj hplace h]
  · by_cases hplace : v = w ∧ i = j
    · obtain ⟨rfl, rfl⟩ := hplace
      rw [hsyms, Function.update_self, Function.update_self]
    · rw [symbol_riskStep_of_ne hw hj hplace h]
  · by_cases hv : v = w
    · rw [hv, haccs, Function.update_self, hdaily]
    · rw [account_riskStep_of_ne hw hv h]
  · by_cases hv : v = w
    · rw [hv, haccs, Function.update_self, htotal]
    · rw [account_riskStep_of_ne hw hv h]

end TradingEngine
