/-
The profit totals of an account are the sums over its symbols.

The account totals are kept incrementally: a mark-to-market subtracts the
symbol's old unrealized profit, recomputes it and adds it back, a sell fill adds
its realized profit to both sides.  Every branch of `update_symbol_risk` leaves
what the *other* symbols contribute, `othersPnl`, as it was.

* `othersPnl_symbolRisk` — for own and market orders of every status;
* `kept_pnlAgrees` — so the agreement of totals and sums survives each of the
  three updates;
* `pnl_totals_eq_sum` — and with them every run of `update_risk`, FIX orders
  that are applied several times included.

Sums are taken in the integers and read back as an `int64_t`: the equations are
modulo 2^64, as the atomics compute.
-/
import TradingEngine.RiskUpdate

namespace TradingEngine

open FallibleRun

/-! ### One symbol against its account -/

/-- What the symbols other than `sym` contribute to the two totals. -/
def othersPnl (acc : AccountRisk) (sym : SymbolRisk) : Int64 × Int64 :=
  (acc.totalUnrealizedPnl - sym.unrealizedPnl, acc.dailyRealizedPnl - sym.realizedPnl)

variable {acc acc' : AccountRisk} {sym sym' : SymbolRisk} {mb : MarketBook} {order : Order}
  {m : OrderMetrics}

theorem othersPnl_congr (hunrealized : sym'.unrealizedPnl = sym.unrealizedPnl)
    (hrealized : sym'.realizedPnl = sym.realizedPnl) :
    othersPnl acc sym' = othersPnl acc sym := by
  rw [othersPnl, othersPnl, hunrealized, hrealized]

theorem realizedPnl_updateUnrealizedPnl (sym : SymbolRisk) (bestBid bestAsk : Int64) :
    (sym.updateUnrealizedPnl bestBid bestAsk).realizedPnl = sym.realizedPnl := by
  obtain ⟨pnl, hpnl⟩ := sym.updateUnrealizedPnl_eq bestBid bestAsk
  rw [hpnl]

theorem othersPnl_markToMarket (acc : AccountRisk) (sym : SymbolRisk) (bestBid bestAsk : Int64) :
    othersPnl (markToMarket acc sym bestBid bestAsk).1 (markToMarket acc sym bestBid bestAsk).2 =
      othersPnl acc sym := by
  rw [markToMarket]
  split
  · have hcancel : ∀ t a b : Int64, t - a + b - b = t - a := by
      intro t a b
      grind
    show (_, _) = (_, _)
    rw [realizedPnl_updateUnrealizedPnl]
    exact congrArg₂ Prod.mk (hcancel _ _ _) rfl
  · rfl

theorem othersPnl_sellFill (acc : AccountRisk) (sym : SymbolRisk) (order : Order) :
    othersPnl (sellFill acc sym order).1 (sellFill acc sym order).2 = othersPnl acc sym := by
  have hboth : ∀ t a b : Int64, t + b - (a + b) = t - a := by
    intro t a b
    grind
  rw [sellFill]
  dsimp only
  split <;> exact congrArg₂ Prod.mk rfl (hboth _ _ _)

theorem othersPnl_fillBasis (h : fillBasis acc sym order m = .ok (acc', sym')) :
    othersPnl acc' sym' = othersPnl acc sym := by
  rw [fillBasis] at h
  split at h
  · -- a buy moves cost basis and average only
    obtain ⟨bought, hbuy, heq⟩ := map_eq_ok_iff.mp h
    obtain ⟨rfl, rfl⟩ := Prod.mk.inj heq
    rw [SymbolRisk.buyFill] at hbuy
    split at hbuy
    · exact absurd hbuy (by simp)
    · rw [← Except.ok.inj hbuy]
      exact othersPnl_congr rfl rfl
  · obtain ⟨rfl, rfl⟩ := Prod.mk.inj (Except.ok.inj h)
    exact othersPnl_sellFill acc sym order

theorem othersPnl_applyFill (h : applyFill acc sym order m = .ok (acc', sym')) :
    othersPnl acc' sym' = othersPnl acc sym := by
  rw [applyFill] at h
  obtain ⟨⟨acc₁, sym₁⟩, hbasis, h⟩ := bind_eq_ok_iff.mp h
  have hmark : markToMarket acc₁ sym₁ sym₁.bestBid sym₁.bestAsk = (acc', sym') := Except.ok.inj h
  have hothers := othersPnl_markToMarket acc₁ sym₁ sym₁.bestBid sym₁.bestAsk
  rw [hmark] at hothers
  rw [hothers, othersPnl_fillBasis hbasis]
  exact othersPnl_congr rfl rfl

theorem othersPnl_clamp (acc : AccountRisk) (sym : SymbolRisk) :
    othersPnl acc sym.clamp = othersPnl acc sym := othersPnl_congr rfl rfl

theorem othersPnl_addReplaced (acc : AccountRisk) (sym : SymbolRisk) (order : Order)
    (m : OrderMetrics) : othersPnl acc (sym.addReplaced order m) = othersPnl acc sym := by
  rw [SymbolRisk.addReplaced]
  split
  · exact othersPnl_congr rfl rfl
  · rfl

theorem othersPnl_ownSymbolRisk (h : ownSymbolRisk acc sym order m = .ok (acc', sym')) :
    othersPnl acc' sym' = othersPnl acc sym := by
  rw [ownSymbolRisk] at h
  split at h
  · obtain ⟨rfl, rfl⟩ := Prod.mk.inj (Except.ok.inj h)
    exact othersPnl_congr rfl rfl
  · -- a partial fill
    obtain ⟨⟨acc₁, sym₁⟩, hfill, h⟩ := bind_eq_ok_iff.mp h
    obtain ⟨rfl, rfl⟩ := Prod.mk.inj (Except.ok.inj h)
    rw [othersPnl_clamp, othersPnl_applyFill hfill]
  · -- the last fill, which also closes the order
    obtain ⟨⟨acc₁, sym₁⟩, hfill, h⟩ := bind_eq_ok_iff.mp h
    obtain ⟨rfl, rfl⟩ := Prod.mk.inj (Except.ok.inj h)
    rw [othersPnl_clamp, othersPnl_applyFill hfill]
    exact othersPnl_congr rfl rfl
  all_goals
    first
    | -- a repeated cancel returns early
      split at h
      · obtain ⟨rfl, rfl⟩ := Prod.mk.inj (Except.ok.inj h)
        rfl
      · obtain ⟨rfl, rfl⟩ := Prod.mk.inj (Except.ok.inj h)
        rw [othersPnl_clamp, othersPnl_addReplaced]
        exact othersPnl_congr rfl rfl
    | obtain ⟨rfl, rfl⟩ := Prod.mk.inj (Except.ok.inj h)
      rw [othersPnl_clamp, othersPnl_addReplaced]
    | obtain ⟨rfl, rfl⟩ := Prod.mk.inj (Except.ok.inj h)
      rw [othersPnl_clamp]

theorem othersPnl_marketSymbolRisk (h : marketSymbolRisk acc sym mb order = .ok (acc', sym')) :
    othersPnl acc' sym' = othersPnl acc sym := by
  rw [marketSymbolRisk] at h
  obtain ⟨book, -, h⟩ := bind_eq_ok_iff.mp h
  cases book with
  | none => exact absurd h (by simp)
  | some place =>
    have hpair := Except.ok.inj h
    -- nothing depends on what the top of the book is
    generalize (mb.symbolbooks place.1 place.2).bestBid = bestBid at hpair
    generalize (mb.symbolbooks place.1 place.2).bestAsk = bestAsk at hpair
    have hacc := congrArg Prod.fst hpair
    have hsym := congrArg Prod.snd hpair
    dsimp only at hacc hsym
    rw [← hacc, ← hsym, othersPnl_clamp, othersPnl_markToMarket]
    exact othersPnl_congr rfl rfl

/-- **`update_symbol_risk` moves the totals by what it moves the symbol.** -/
theorem othersPnl_symbolRisk (h : symbolRisk acc sym mb order m = .ok (acc', sym')) :
    othersPnl acc' sym' = othersPnl acc sym := by
  rw [symbolRisk] at h
  split at h
  · exact othersPnl_ownSymbolRisk h
  · exact othersPnl_marketSymbolRisk h

/-! ### The account side -/

theorem pnl_updateLeverage (h : acc.updateLeverage = .ok acc') :
    acc'.totalUnrealizedPnl = acc.totalUnrealizedPnl ∧
      acc'.dailyRealizedPnl = acc.dailyRealizedPnl := by
  rw [AccountRisk.updateLeverage] at h
  split at h
  · rw [← Except.ok.inj h]
    exact ⟨rfl, rfl⟩
  · split at h
    · exact absurd h (by simp)
    · rw [← Except.ok.inj h]
      exact ⟨rfl, rfl⟩

/-- `update_account_risk` leaves the profit totals alone. -/
theorem pnl_updateAccountRisk {lim : AccountLimit}
    (h : updateAccountRisk acc lim order m = .ok acc') :
    acc'.totalUnrealizedPnl = acc.totalUnrealizedPnl ∧
      acc'.dailyRealizedPnl = acc.dailyRealizedPnl := by
  have hreplaced : (acc.addReplaced order m).totalUnrealizedPnl = acc.totalUnrealizedPnl ∧
      (acc.addReplaced order m).dailyRealizedPnl = acc.dailyRealizedPnl := by
    rw [AccountRisk.addReplaced]
    split <;> exact ⟨rfl, rfl⟩
  rw [updateAccountRisk] at h
  dsimp only at h
  split at h
  · obtain ⟨ht, hd⟩ := pnl_updateLeverage h
    rw [ht, hd]
    split <;> exact ⟨rfl, rfl⟩
  · obtain ⟨ht, hd⟩ := pnl_updateLeverage h
    exact ⟨ht, hd⟩
  · obtain ⟨ht, hd⟩ := pnl_updateLeverage h
    exact ⟨ht, hd⟩
  all_goals
    first
    -- cancel, delete and expiry: an early return, or the replaced amount
    | split at h
      · rw [← Except.ok.inj h]
        exact ⟨rfl, rfl⟩
      · obtain ⟨ht, hd⟩ := pnl_updateLeverage h
        rw [ht, hd]
        exact hreplaced
    | obtain ⟨ht, hd⟩ := pnl_updateLeverage h
      rw [ht, hd]
      exact hreplaced
    | exact pnl_updateLeverage h

/-! ### Sums over the symbols of a venue -/

/-- A sum over all members of a family after one of them is rewritten. -/
theorem sum_update {ι β : Type} [Fintype ι] [DecidableEq ι] (f : β → ℤ) (g : ι → β) (i : ι)
    (b : β) : ∑ j, f (Function.update g i b j) = ∑ j, f (g j) - f (g i) + f b := by
  -- all terms but that of `i` are the same
  have hrest : ∑ j ∈ Finset.univ.erase i, f (Function.update g i b j) =
      ∑ j ∈ Finset.univ.erase i, f (g j) := by
    refine Finset.sum_congr rfl fun j hj => ?_
    rw [Function.update_of_ne (Finset.ne_of_mem_erase hj)]
  rw [← Finset.add_sum_erase _ _ (Finset.mem_univ i),
    ← Finset.add_sum_erase _ (fun j => f (g j)) (Finset.mem_univ i), hrest,
    Function.update_self]
  omega

/-- A sum over all symbols after one of them is rewritten. -/
theorem sum_update_symbol (f : SymbolRisk → ℤ) (syms : SymbolSlot → SymbolRisk) (i : SymbolSlot)
    (sym : SymbolRisk) :
    ∑ j, f (Function.update syms i sym j) = ∑ j, f (syms j) - f (syms i) + f sym :=
  sum_update f syms i sym

/-- Both totals of every venue are the sums over its symbols. -/
def PnlAgrees (re : RiskEngine) : Prop :=
  ∀ v,
    (re.accountrisks v).totalUnrealizedPnl =
        Int64.ofInt (∑ i, (re.symbolrisks v i).unrealizedPnl.toInt) ∧
      (re.accountrisks v).dailyRealizedPnl =
        Int64.ofInt (∑ i, (re.symbolrisks v i).realizedPnl.toInt)

/-- Rewriting one symbol and moving the total by as much keeps a total equal to
the sum. -/
theorem total_eq_ofInt_sum {f : SymbolRisk → Int64} {t t' : Int64}
    {syms : SymbolSlot → SymbolRisk} {i : SymbolSlot} {sym : SymbolRisk}
    (h : t = Int64.ofInt (∑ j, (f (syms j)).toInt)) (hmove : t' - f sym = t - f (syms i)) :
    t' = Int64.ofInt (∑ j, (f (Function.update syms i sym j)).toInt) := by
  rw [sum_update_symbol (fun s => (f s).toInt), Int64.ofInt_add, Int64.ofInt_sub, ← h,
    Int64.ofInt_toInt, Int64.ofInt_toInt, ← hmove]
  grind

open RiskEngine in
theorem kept_pnlAgrees : Kept PnlAgrees where
  symbol := by
    intro re re' mb order v h hok w
    obtain ⟨i, acc, sym, -, hsym, rfl⟩ := updateSymbolRisk_eq_ok_iff.mp hok
    obtain ⟨htotal, hdaily⟩ := Prod.mk.inj (othersPnl_symbolRisk hsym)
    by_cases hw : w = v
    · subst hw
      simp only [accountrisks_setSymbol, accountrisks_setAccount, symbolrisks_setSymbol,
        symbolrisks_setAccount, Function.update_self]
      exact ⟨total_eq_ofInt_sum (h w).1 htotal, total_eq_ofInt_sum (h w).2 hdaily⟩
    · simp only [accountrisks_setSymbol, accountrisks_setAccount, symbolrisks_setSymbol,
        symbolrisks_setAccount, Function.update_of_ne hw]
      exact h w
  index := by
    intro re re' order v h hok w
    obtain ⟨hacc, hsym⟩ := updateOrderRisk_risks hok
    rw [hacc, hsym]
    exact h w
  account := by
    intro re order v acc h hok w
    obtain ⟨htotal, hdaily⟩ := pnl_updateAccountRisk hok
    by_cases hw : w = v
    · subst hw
      simp only [accountrisks_setAccount, symbolrisks_setAccount, Function.update_self]
      rw [htotal, hdaily]
      exact h w
    · simp only [accountrisks_setAccount, symbolrisks_setAccount, Function.update_of_ne hw]
      exact h w

theorem pnlAgrees_fresh {re : RiskEngine} (h : re.Fresh) : PnlAgrees re := by
  intro v
  obtain ⟨o, c, hacc⟩ := h.accounts v
  have hsym : ∀ i, (re.symbolrisks v i).unrealizedPnl.toInt = 0 ∧
      (re.symbolrisks v i).realizedPnl.toInt = 0 := by
    intro i
    obtain ⟨o', c', hi⟩ := h.symbols v i
    rw [hi]
    exact ⟨rfl, rfl⟩
  rw [hacc]
  simp only [fun i => (hsym i).1, fun i => (hsym i).2, Finset.sum_const_zero]
  exact ⟨rfl, rfl⟩

/-! ### Runs -/

/-- A call of `update_risk`, with whatever the store has queued, written to the
orders and to the market book by then. -/
def updateRiskCall (re : RiskEngine) (om : OrderManager) : Except Fault RiskEngine :=
  (re.updateRisk om).map fun s => s.2.1

/-- **The account totals are the sums over the symbols.**  After every run of
`update_risk` that does not trap, from a freshly constructed engine. -/
theorem pnl_totals_eq_sum {re re' : RiskEngine} (hfresh : re.Fresh) {calls : List OrderManager}
    (hrun : exec updateRiskCall re calls = .ok re') (v : VenueIndex) :
    (re'.accountrisks v).totalUnrealizedPnl =
        Int64.ofInt (∑ i, (re'.symbolrisks v i).unrealizedPnl.toInt) ∧
      (re'.accountrisks v).dailyRealizedPnl =
        Int64.ofInt (∑ i, (re'.symbolrisks v i).realizedPnl.toInt) := by
  have hagrees : PnlAgrees re' := by
    refine exec_inv (fun re₁ om re₂ h hcall => ?_) (pnlAgrees_fresh hfresh) hrun
    obtain ⟨s, hs, rfl⟩ := map_eq_ok_iff.mp hcall
    exact kept_pnlAgrees.updateRisk h hs
  exact hagrees v

/-- An own OUCH order on BIST that has just traded `qty` at `price`. -/
def tradedOrder (side : Side) (price : Int64) (qty : UInt32) : Order :=
  { price := price, quantity := 10, remainingQuantity := 1, lastExecQuantity := qty, side := side
    status := .partialFill, isOurOrder := true, protocol := .ouch, orderType := .limit }

/-- A store that has queued one order. -/
def queuedOrder (order : Order) (mb : MarketBook) : OrderManager :=
  { orderPool := fun _ => order, storeToRisk := BoundedQueue.empty.push 0, marketbook := mb }

/-- Five bought at 100, the market seen at 110/112, two sold at 120. -/
def roundTrip : List OrderManager :=
  let mb : MarketBook := { symbolbooks := fun _ _ => { bestBid := 110, bestAsk := 112 } }
  [queuedOrder (tradedOrder .buy 100 5) {}, queuedOrder { protocol := .itch } mb,
    queuedOrder (tradedOrder .sell 120 2) mb]

def afterRoundTrip : RiskEngine := (exec updateRiskCall {} roundTrip).toOption.getD default

theorem pnl_totals_eq_sum_roundTrip :
    exec updateRiskCall {} roundTrip = .ok afterRoundTrip ∧
      (afterRoundTrip.accountrisks 0).totalUnrealizedPnl = 30 ∧
      (afterRoundTrip.accountrisks 0).dailyRealizedPnl = 40 ∧
      Int64.ofInt (∑ i, (afterRoundTrip.symbolrisks 0 i).unrealizedPnl.toInt) = 30 ∧
      Int64.ofInt (∑ i, (afterRoundTrip.symbolrisks 0 i).realizedPnl.toInt) = 40 := by
  have hrun : exec updateRiskCall {} roundTrip = .ok afterRoundTrip := rfl
  have htotal : (afterRoundTrip.accountrisks 0).totalUnrealizedPnl = 30 := rfl
  have hdaily : (afterRoundTrip.accountrisks 0).dailyRealizedPnl = 40 := rfl
  obtain ⟨hsumU, hsumR⟩ := pnl_totals_eq_sum RiskEngine.fresh_default hrun 0
  rw [htotal] at hsumU
  rw [hdaily] at hsumR
  exact ⟨hrun, htotal, hdaily, hsumU.symm, hsumR.symm⟩

end TradingEngine
