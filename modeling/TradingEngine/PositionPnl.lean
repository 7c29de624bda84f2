/-
Cost basis and profit of a position.

A buy fill adds its value to the cost basis and divides by the new position; a
sell fill realizes the difference to the average entry price.  A sell that
brings the position to zero clears cost basis and average.  Two things follow
from what it does not do then:

* it leaves the unrealized profit as the last mark-to-market had it, since the
  block after it is skipped for a cost basis of zero
  (`unrealized_zero_iff`: a position closed without a loss or profit marked on
  it is the only kind that leaves none behind);
* it drops what is left of the cost basis after the truncated average has been
  taken out, without realizing it (`realizedPnl_exact_iff`: the realized profit
  is exact in flat states when every close finds the cost basis at average times
  quantity).

`costClosed_riskStep` is the invariant both rest on: no position, no cost basis.
A buy that brings the position to zero divides by it and does not return.
-/
import TradingEngine.NetPosition

namespace TradingEngine

open FallibleRun RiskEngine

/-! ### Fills by side -/

variable {acc acc' : AccountRisk} {sym sym' : SymbolRisk} {o : Order}

/-- The mark-to-market rewrites the unrealized profit, and that only while there
is a cost basis. -/
theorem markToMarket_symbol (acc : AccountRisk) (sym : SymbolRisk) (bestBid bestAsk : Int64) :
    ∃ pnl, (markToMarket acc sym bestBid bestAsk).2 = { sym with unrealizedPnl := pnl } ∧
      (sym.costBasisScaled = 0 → pnl = sym.unrealizedPnl) := by
  rw [markToMarket]
  by_cases hmarked : ¬(bestBid ≤ 0 ∧ bestAsk ≤ 0) ∧ sym.costBasisScaled ≠ 0
  · rw [if_pos hmarked]
    obtain ⟨pnl, hpnl⟩ := sym.updateUnrealizedPnl_eq bestBid bestAsk
    exact ⟨pnl, hpnl, fun hzero => absurd hzero hmarked.2⟩
  · rw [if_neg hmarked]
    exact ⟨sym.unrealizedPnl, rfl, fun _ => rfl⟩

theorem sideMult_buy (hbuy : o.side = .buy) : (OrderMetrics.ofOrder o).sideMult = 1 := if_pos hbuy

theorem sideMult_of_ne_buy (hsell : o.side ≠ .buy) : (OrderMetrics.ofOrder o).sideMult ≠ 1 := by
  rw [OrderMetrics.ofOrder]
  dsimp only
  rw [if_neg hsell]
  decide

theorem div?_eq_some {a b c : Int64} (h : a.div? b = some c) : b ≠ 0 := by
  intro hb
  rw [Int64.div?, if_pos (.inl hb)] at h
  exact absurd h (by simp)

/-- A buy fill returns with a position, and with its value in the cost basis. -/
theorem ownSymbolRisk_buy (hfill : o.IsFill) (hbuy : o.side = .buy)
    (h : ownSymbolRisk acc sym o (OrderMetrics.ofOrder o) = .ok (acc', sym')) :
    sym'.netPosition ≠ 0 ∧ sym'.realizedPnl = sym.realizedPnl ∧
      sym'.costBasisScaled = sym.costBasisScaled + o.price * o.lastExecQuantity.toInt64 := by
  obtain ⟨count, filled, hfilled, rfl⟩ := ownSymbolRisk_of_fill hfill h
  rw [applyFill] at hfilled
  obtain ⟨⟨acc₁, sym₁⟩, hbasis, hmark⟩ := bind_eq_ok_iff.mp hfilled
  rw [fillBasis, if_pos (sideMult_buy hbuy)] at hbasis
  obtain ⟨bought, hbought, heq⟩ := map_eq_ok_iff.mp hbasis
  obtain ⟨rfl, rfl⟩ := Prod.mk.inj heq
  obtain ⟨pnl, hpnl, -⟩ := markToMarket_symbol acc bought bought.bestBid bought.bestAsk
  have hsym : filled = { bought with unrealizedPnl := pnl } := by
    rw [← hpnl]
    exact (congrArg Prod.snd (Except.ok.inj hmark)).symm
  rw [SymbolRisk.buyFill] at hbought
  dsimp only at hbought
  cases hdiv : (sym.costBasisScaled + (OrderMetrics.ofOrder o).nominal).div?
      (sym.netPosition + (OrderMetrics.ofOrder o).sideMult * o.lastExecQuantity.toInt64) with
  | none =>
    rw [hdiv] at hbought
    exact absurd hbought (by simp)
  | some avg =>
    rw [hdiv, Except.ok.injEq] at hbought
    subst hbought
    subst hsym
    exact ⟨div?_eq_some hdiv, rfl, rfl⟩

/-- A sell fill realizes against the average; a close clears the cost basis and
leaves the unrealized profit. -/
theorem ownSymbolRisk_sell (hfill : o.IsFill) (hsell : o.side ≠ .buy)
    (h : ownSymbolRisk acc sym o (OrderMetrics.ofOrder o) = .ok (acc', sym')) :
    sym'.realizedPnl = sym.realizedPnl +
        (o.price - sym.avgEntryPrice.toInt64) * o.lastExecQuantity.toInt64 ∧
      (sym'.netPosition = 0 →
        sym'.costBasisScaled = 0 ∧ sym'.unrealizedPnl = sym.unrealizedPnl) ∧
      (sym'.netPosition ≠ 0 → sym'.costBasisScaled =
        sym.costBasisScaled - sym.avgEntryPrice.toInt64 * o.lastExecQuantity.toInt64) := by
  obtain ⟨count, filled, hfilled, rfl⟩ := ownSymbolRisk_of_fill hfill h
  rw [applyFill] at hfilled
  obtain ⟨⟨acc₁, sym₁⟩, hbasis, hmark⟩ := bind_eq_ok_iff.mp hfilled
  rw [fillBasis, if_neg (sideMult_of_ne_buy hsell), Except.ok.injEq] at hbasis
  obtain ⟨pnl, hpnl, hkeep⟩ := markToMarket_symbol acc₁ sym₁ sym₁.bestBid sym₁.bestAsk
  have hsym : filled = { sym₁ with unrealizedPnl := pnl } := by
    rw [← hpnl]
    exact (congrArg Prod.snd (Except.ok.inj hmark)).symm
  rw [sellFill] at hbasis
  dsimp only at hbasis
  by_cases hflat :
      sym.netPosition + (OrderMetrics.ofOrder o).sideMult * o.lastExecQuantity.toInt64 = 0
  · rw [if_pos hflat] at hbasis
    obtain ⟨-, rfl⟩ := Prod.mk.inj hbasis
    subst hsym
    exact ⟨rfl, fun _ => ⟨rfl, hkeep rfl⟩, fun hopen => absurd hflat hopen⟩
  · rw [if_neg hflat] at hbasis
    obtain ⟨-, rfl⟩ := Prod.mk.inj hbasis
    subst hsym
    exact ⟨rfl, fun hzero => absurd hzero hflat, fun _ => rfl⟩

/-- A market order moves the top of book and the unrealized profit, the latter
only while there is a cost basis. -/
theorem marketSymbolRisk_symbol {mb : MarketBook}
    (h : marketSymbolRisk acc sym mb o = .ok (acc', sym')) :
    ∃ bestBid bestAsk pnl pending count,
      sym' = { sym with
        bestBid := bestBid, bestAsk := bestAsk, unrealizedPnl := pnl,
        pendingNotionalScaled := pending, openOrdersCount := count } ∧
      (sym.costBasisScaled = 0 → pnl = sym.unrealizedPnl) := by
  rw [marketSymbolRisk] at h
  obtain ⟨book, -, h⟩ := bind_eq_ok_iff.mp h
  cases book with
  | none => exact absurd h (by simp)
  | some place =>
    have hsym := congrArg Prod.snd (Except.ok.inj h)
    generalize (mb.symbolbooks place.1 place.2).bestBid = bestBid at hsym
    generalize (mb.symbolbooks place.1 place.2).bestAsk = bestAsk at hsym
    obtain ⟨pnl, hpnl, hkeep⟩ := markToMarket_symbol acc
      { sym with bestBid := bestBid, bestAsk := bestAsk } bestBid bestAsk
    dsimp only at hsym
    rw [hpnl] at hsym
    exact ⟨bestBid, bestAsk, pnl, _, _, hsym.symm, hkeep⟩

/-! ### No position, no cost basis -/

/-- A symbol without a position has no cost basis. -/
def SymbolRisk.CostClosed (sym : SymbolRisk) : Prop :=
  sym.netPosition = 0 → sym.costBasisScaled = 0

theorem costClosed_symbolRisk {mb : MarketBook} (hclosed : sym.CostClosed)
    (h : symbolRisk acc sym mb o (OrderMetrics.ofOrder o) = .ok (acc', sym')) :
    sym'.CostClosed := by
  rw [symbolRisk] at h
  split at h
  · by_cases hfill : o.IsFill
    · by_cases hbuy : o.side = .buy
      · intro hzero
        exact absurd hzero (ownSymbolRisk_buy hfill hbuy h).1
      · intro hzero
        exact ((ownSymbolRisk_sell hfill hbuy h).2.1 hzero).1
    · obtain ⟨-, pending, count, rfl⟩ := ownSymbolRisk_of_not_fill hfill h
      exact hclosed
  · obtain ⟨bestBid, bestAsk, pnl, pending, count, rfl, -⟩ := marketSymbolRisk_symbol h
    exact hclosed

variable {re re' : RiskEngine} {e : RiskEvent}

theorem costClosed_riskStep (hclosed : ∀ v i, (re.symbolrisks v i).CostClosed)
    (h : riskStep re e = .ok re') : ∀ v i, (re'.symbolrisks v i).CostClosed :=
  forall_symbols_riskStep hclosed h fun v i _ _ _ _ hrisk =>
    costClosed_symbolRisk (hclosed v i) hrisk

theorem costClosed_fresh (hfresh : re.Fresh) (v : VenueIndex) (i : SymbolSlot) :
    (re.symbolrisks v i).CostClosed := by
  intro _
  obtain ⟨o, c, hsym⟩ := hfresh.symbols v i
  rw [hsym]

/-! ### Unrealized profit of a closed position -/

/-- A symbol without a position contributes no unrealized profit. -/
def SymbolRisk.Unmarked (sym : SymbolRisk) : Prop := sym.netPosition = 0 → sym.unrealizedPnl = 0

/-- If the order closes a position by a sell fill, nothing is marked on it. -/
def ClosesUnmarked (re : RiskEngine) (e : RiskEvent) : Prop :=
  ∀ v i, e.order.isOurOrder = true → e.order.FillOf v i → e.order.side ≠ .buy →
    (re.symbolrisks v i).netPosition + Int64.ofInt e.order.signedExec = 0 →
    (re.symbolrisks v i).unrealizedPnl = 0

theorem unmarked_symbolRisk {mb : MarketBook} (hclosed : sym.CostClosed) (hunmarked : sym.Unmarked)
    (hclose : o.isOurOrder = true → o.IsFill → o.side ≠ .buy →
      sym.netPosition + Int64.ofInt o.signedExec = 0 → sym.unrealizedPnl = 0)
    (h : symbolRisk acc sym mb o (OrderMetrics.ofOrder o) = .ok (acc', sym')) :
    sym'.Unmarked := by
  rw [symbolRisk] at h
  split at h
  · rename_i hown
    by_cases hfill : o.IsFill
    · intro hzero
      by_cases hbuy : o.side = .buy
      · exact absurd hzero (ownSymbolRisk_buy hfill hbuy h).1
      · -- the close keeps what was marked before it
        have hnet := netPosition_ownSymbolRisk h
        rw [if_pos hfill] at hnet
        rw [((ownSymbolRisk_sell hfill hbuy h).2.1 hzero).2]
        exact hclose hown hfill hbuy (hnet ▸ hzero)
    · obtain ⟨-, pending, count, rfl⟩ := ownSymbolRisk_of_not_fill hfill h
      exact hunmarked
  · obtain ⟨bestBid, bestAsk, pnl, pending, count, rfl, hkeep⟩ := marketSymbolRisk_symbol h
    intro hzero
    rw [hkeep (hclosed hzero)]
    exact hunmarked hzero

/-- A close that leaves nothing marked had nothing marked before it. -/
theorem closesUnmarked_of_unmarked (h : riskStep re e = .ok re')
    (hunmarked : ∀ v i, (re'.symbolrisks v i).Unmarked) : ClosesUnmarked re e := by
  rintro v i hown ⟨hfill, hv, hi⟩ hsell hzero
  obtain ⟨acc, hrisk⟩ := symbolRisk_of_riskStep hv hi h
  rw [symbolRisk, if_pos hown] at hrisk
  have hnet := netPosition_ownSymbolRisk hrisk
  rw [if_pos hfill, hzero] at hnet
  rw [← ((ownSymbolRisk_sell hfill hsell hrisk).2.1 hnet).2]
  exact hunmarked v i hnet

/-- The total of a venue whose closed positions contribute nothing. -/
theorem totalUnrealizedPnl_eq_sum_open (hagrees : PnlAgrees re)
    (hunmarked : ∀ v i, (re.symbolrisks v i).Unmarked) (v : VenueIndex) :
    (re.accountrisks v).totalUnrealizedPnl = Int64.ofInt
      (∑ i with (re.symbolrisks v i).netPosition ≠ 0, (re.symbolrisks v i).unrealizedPnl.toInt) := by
  rw [(hagrees v).1, Finset.sum_filter]
  refine congrArg Int64.ofInt (Finset.sum_congr rfl fun i _ => ?_)
  split
  · rfl
  · rename_i hzero
    rw [not_not] at hzero
    rw [hunmarked v i hzero]
    rfl

/-- **When a closed position leaves no unrealized profit.**  In a run of
`update_risk` from a fresh engine, over any own and market orders, every state
has zero unrealized profit on the symbols without a position exactly when every
sell fill that closes a position finds it unmarked; the total of an account is
then that of its open positions. -/
theorem unrealized_zero_iff (hfresh : re.Fresh) {calls : List OrderManager}
    (hrun : exec updateRiskCall re calls = .ok re') :
    ((∀ es u, es <+: (poppedByAll calls).flatMap applications → exec riskStep re es = .ok u →
        ∀ v i, (u.symbolrisks v i).netPosition = 0 → (u.symbolrisks v i).unrealizedPnl = 0) ↔
      Along riskStep ClosesUnmarked re ((poppedByAll calls).flatMap applications)) ∧
    (Along riskStep ClosesUnmarked re ((poppedByAll calls).flatMap applications) →
      ∀ v, (re'.accountrisks v).totalUnrealizedPnl = Int64.ofInt
        (∑ i with (re'.symbolrisks v i).netPosition ≠ 0,
          (re'.symbolrisks v i).unrealizedPnl.toInt)) := by
  let Inv : RiskEngine → Prop := fun re =>
    (∀ v i, (re.symbolrisks v i).CostClosed) ∧ ∀ v i, (re.symbolrisks v i).Unmarked
  have hstart : Inv re := by
    refine ⟨costClosed_fresh hfresh, fun v i _ => ?_⟩
    obtain ⟨o, c, hsym⟩ := hfresh.symbols v i
    rw [hsym]
  have hstep : ∀ s e s', Inv s → ClosesUnmarked s e → riskStep s e = .ok s' → Inv s' := by
    rintro s e s' ⟨hclosed, hunmarked⟩ hclose h
    refine ⟨costClosed_riskStep hclosed h, ?_⟩
    refine forall_symbols_riskStep hunmarked h fun v i acc sym hv hi hrisk => ?_
    exact unmarked_symbolRisk (hclosed v i) (hunmarked v i)
      (fun hown hfill hsell => hclose v i hown ⟨hfill, hv, hi⟩ hsell) hrisk
  have happlied := exec_applied_of_calls hrun
  refine ⟨forall_prefix_iff_along (fun s hs => hs.2) hstep
    (fun s e s' _ h hgood => closesUnmarked_of_unmarked h hgood) hstart happlied, ?_⟩
  intro halong
  have hagrees : PnlAgrees re' := exec_inv (fun s e s' hs h => kept_pnlAgrees.riskStep hs h)
    (pnlAgrees_fresh hfresh) happlied
  exact totalUnrealizedPnl_eq_sum_open hagrees (exec_inv_along hstep hstart halong happlied).2

/-- Five bought at 100 and sold at 120; in between the market may be seen at 110/112. -/
def boughtAndSold (seen : Bool) : List OrderManager :=
  let mb : MarketBook := { symbolbooks := fun _ _ => { bestBid := 110, bestAsk := 112 } }
  [queuedOrder (tradedOrder .buy 100 5) {}] ++
    (if seen then [queuedOrder { protocol := .itch } mb] else []) ++
    [queuedOrder (tradedOrder .sell 120 5) {}]

def afterSold (seen : Bool) : RiskEngine :=
  (exec updateRiskCall {} (boughtAndSold seen)).toOption.getD default

theorem unrealized_zero_iff_unseen :
    exec updateRiskCall {} (boughtAndSold false) = .ok (afterSold false) ∧
      ((afterSold false).symbolrisks 0 0).netPosition = 0 ∧
      ((afterSold false).symbolrisks 0 0).unrealizedPnl = 0 := by
  have hrun : exec updateRiskCall {} (boughtAndSold false) = .ok (afterSold false) := rfl
  have hflat : ((afterSold false).symbolrisks 0 0).netPosition = 0 := rfl
  have hiff := (unrealized_zero_iff fresh_default hrun).1
  have halong : Along riskStep ClosesUnmarked {}
      ((poppedByAll (boughtAndSold false)).flatMap applications) := by
    refine along_cons
      ((exec updateRiskCall {} [queuedOrder (tradedOrder .buy 100 5) {}]).toOption.getD default)
      ?_ rfl ?_
    · intro v i _ _ hsell
      exact absurd rfl hsell
    refine along_cons (afterSold false) ?_ rfl trivial
    rintro v i - ⟨-, hv, hi⟩ -
    obtain rfl : 0 = v := Except.ok.inj hv
    obtain rfl : 0 = i := Except.ok.inj hi
    exact fun _ => rfl
  exact ⟨hrun, hflat,
    hiff.mpr halong _ _ (List.prefix_refl _) (exec_applied_of_calls hrun) 0 0 hflat⟩

/-- **A closed position keeps its last mark.** -/
theorem closed_position_keeps_mark :
    exec updateRiskCall {} (boughtAndSold true) = .ok (afterSold true) ∧
      ((afterSold true).symbolrisks 0 0).netPosition = 0 ∧
      ((afterSold true).symbolrisks 0 0).unrealizedPnl = 50 ∧
      ((afterSold true).accountrisks 0).totalUnrealizedPnl = 50 := ⟨rfl, rfl, rfl, rfl⟩

/-! ### Realized profit -/

/-- The value of a fill, without a width. -/
def Order.value (o : Order) : ℤ := o.price.toInt * o.lastExecQuantity.toNat

/-- Price times quantity over the sells. -/
def soldValue (es : List RiskEvent) : ℤ :=
  (es.map fun e => if e.order.side = .buy then 0 else e.order.value).sum

/-- Price times quantity over the buys. -/
def boughtValue (es : List RiskEvent) : ℤ :=
  (es.map fun e => if e.order.side = .buy then e.order.value else 0).sum

theorem ofInt_value (o : Order) :
    Int64.ofInt o.value = o.price * o.lastExecQuantity.toInt64 := by
  rw [Order.value, Int64.ofInt_mul, Int64.ofInt_toInt, ← UInt32.toInt_toInt64, Int64.ofInt_toInt]

/-- What one more fill adds to sold less bought. -/
theorem soldValue_sub_boughtValue_append (es : List RiskEvent) (e : RiskEvent) :
    Int64.ofInt (soldValue (es ++ [e]) - boughtValue (es ++ [e])) =
      Int64.ofInt (soldValue es - boughtValue es) +
        (if e.order.side = .buy then -(e.order.price * e.order.lastExecQuantity.toInt64)
        else e.order.price * e.order.lastExecQuantity.toInt64) := by
  rw [soldValue, soldValue, boughtValue, boughtValue, List.map_append, List.map_append,
    List.sum_append, List.sum_append, List.map_singleton, List.map_singleton, List.sum_singleton,
    List.sum_singleton]
  split
  · rw [Int64.ofInt_sub, Int64.ofInt_sub, Int64.ofInt_add, Int64.ofInt_add, ofInt_value]
    show _ + 0 - _ = _
    grind
  · rw [Int64.ofInt_sub, Int64.ofInt_sub, Int64.ofInt_add, Int64.ofInt_add, ofInt_value]
    show _ + _ - (_ + 0) = _
    grind

/-- A sell fill that closes the position finds the cost basis at average times
quantity. -/
def ClosesAtAverage (v : VenueIndex) (i : SymbolSlot) (re : RiskEngine) (e : RiskEvent) : Prop :=
  let sym := re.symbolrisks v i
  e.order.side ≠ .buy → sym.netPosition + Int64.ofInt e.order.signedExec = 0 →
    sym.costBasisScaled = sym.avgEntryPrice.toInt64 * e.order.lastExecQuantity.toInt64

/-- Realized profit less cost basis is what the fills have paid in so far. -/
structure Accounted (v : VenueIndex) (i : SymbolSlot) (re₀ : RiskEngine) (es : List RiskEvent)
    (re : RiskEngine) : Prop where
  paid : (re.symbolrisks v i).realizedPnl - (re.symbolrisks v i).costBasisScaled =
    (re₀.symbolrisks v i).realizedPnl + Int64.ofInt (soldValue es - boughtValue es)
  closed : (re.symbolrisks v i).CostClosed
  daily : (re.accountrisks v).dailyRealizedPnl - (re.symbolrisks v i).realizedPnl =
    (re₀.accountrisks v).dailyRealizedPnl - (re₀.symbolrisks v i).realizedPnl

variable {v : VenueIndex} {i : SymbolSlot} {re₀ : RiskEngine} {es : List RiskEvent}

/-- The realized profit of a fill enters symbol and account alike. -/
theorem daily_riskStep (hown : e.order.isOurOrder = true) (hfill : e.order.FillOf v i)
    (h : riskStep re e = .ok re') :
    (re'.accountrisks v).dailyRealizedPnl - (re'.symbolrisks v i).realizedPnl =
      (re.accountrisks v).dailyRealizedPnl - (re.symbolrisks v i).realizedPnl := by
  obtain ⟨w, j, acc, sym, acc', hw, hj, hrisk, hacc, haccs, hsyms, -⟩ := riskStep_eq_ok h
  obtain rfl : w = v := Except.ok.inj (hw.symm.trans hfill.2.1)
  obtain rfl : j = i := Except.ok.inj (hj.symm.trans hfill.2.2)
  rw [if_pos (.inr hown)] at hacc
  rw [haccs, hsyms, Function.update_self, Function.update_self, Function.update_self,
    (pnl_updateAccountRisk hacc).2]
  exact congrArg Prod.snd (othersPnl_symbolRisk hrisk)

/-- The fill as `update_symbol_risk` sees it. -/
theorem ownSymbolRisk_of_riskStep (hown : e.order.isOurOrder = true) (hfill : e.order.FillOf v i)
    (h : riskStep re e = .ok re') :
    ∃ acc, ownSymbolRisk (re.accountrisks v) (re.symbolrisks v i) e.order
      (OrderMetrics.ofOrder e.order) = .ok (acc, re'.symbolrisks v i) := by
  obtain ⟨acc, hrisk⟩ := symbolRisk_of_riskStep hfill.2.1 hfill.2.2 h
  rw [symbolRisk, if_pos hown] at hrisk
  exact ⟨acc, hrisk⟩

theorem accounted_step (hown : e.order.isOurOrder = true ∧ e.order.FillOf v i)
    (hacc : Accounted v i re₀ es re) (hclose : ClosesAtAverage v i re e)
    (h : riskStep re e = .ok re') : Accounted v i re₀ (es ++ [e]) re' := by
  obtain ⟨hown, hfill⟩ := hown
  obtain ⟨acc, hrisk⟩ := ownSymbolRisk_of_riskStep hown hfill h
  have hpaid := hacc.paid
  refine ⟨?_, ?_, (daily_riskStep hown hfill h).trans hacc.daily⟩
  · rw [soldValue_sub_boughtValue_append]
    by_cases hbuy : e.order.side = .buy
    · obtain ⟨-, hrealized, hcost⟩ := ownSymbolRisk_buy hfill.1 hbuy hrisk
      rw [if_pos hbuy, hrealized, hcost]
      grind
    · obtain ⟨hrealized, hzero, hopen⟩ := ownSymbolRisk_sell hfill.1 hbuy hrisk
      rw [if_neg hbuy, hrealized]
      by_cases hnet : (re'.symbolrisks v i).netPosition = 0
      · -- the cost basis that is dropped is the one the average accounts for
        have hmoved := netPosition_ownSymbolRisk hrisk
        rw [if_pos hfill.1, hnet] at hmoved
        have hcost := hclose hbuy hmoved.symm
        rw [(hzero hnet).1]
        grind
      · rw [hopen hnet]
        grind
  · obtain ⟨acc', hsymbol⟩ := symbolRisk_of_riskStep hfill.2.1 hfill.2.2 h
    exact costClosed_symbolRisk hacc.closed hsymbol

/-- A close after which the realized profit is exact found the cost basis at
average times quantity. -/
theorem closesAtAverage_of_exact (hown : e.order.isOurOrder = true ∧ e.order.FillOf v i)
    (hacc : Accounted v i re₀ es re) (h : riskStep re e = .ok re')
    (hexact : (re'.symbolrisks v i).netPosition = 0 → (re'.symbolrisks v i).realizedPnl =
      (re₀.symbolrisks v i).realizedPnl +
        Int64.ofInt (soldValue (es ++ [e]) - boughtValue (es ++ [e]))) :
    ClosesAtAverage v i re e := by
  obtain ⟨hown, hfill⟩ := hown
  intro hsell hzero
  obtain ⟨acc, hrisk⟩ := ownSymbolRisk_of_riskStep hown hfill h
  have hnet := netPosition_ownSymbolRisk hrisk
  rw [if_pos hfill.1, hzero] at hnet
  have hrealized := hexact hnet
  rw [(ownSymbolRisk_sell hfill.1 hsell hrisk).1, soldValue_sub_boughtValue_append,
    if_neg hsell] at hrealized
  have hpaid := hacc.paid
  show (re.symbolrisks v i).costBasisScaled = _
  grind

/-- **When realized profit is exact.**  Over any sequence of own fills of one
symbol from a flat state, symbol and account have gained sold less bought in
every flat state reached exactly when each sell fill that closes the position
finds the cost basis at average entry price times quantity; otherwise the
difference is dropped with the cost basis.  That a flat symbol has no cost basis
is `costClosed_riskStep`. -/
theorem realizedPnl_exact_iff (hclosed : (re₀.symbolrisks v i).CostClosed)
    (hflat : (re₀.symbolrisks v i).netPosition = 0)
    (hfills : ∀ e ∈ es, e.order.isOurOrder = true ∧ e.order.FillOf v i)
    (hrun : exec riskStep re₀ es = .ok re) :
    (∀ es₁ u, es₁ <+: es → exec riskStep re₀ es₁ = .ok u →
      (u.symbolrisks v i).netPosition = 0 →
      (u.symbolrisks v i).realizedPnl = (re₀.symbolrisks v i).realizedPnl +
          Int64.ofInt (soldValue es₁ - boughtValue es₁) ∧
        (u.accountrisks v).dailyRealizedPnl = (re₀.accountrisks v).dailyRealizedPnl +
          Int64.ofInt (soldValue es₁ - boughtValue es₁)) ↔
    Along riskStep (ClosesAtAverage v i) re₀ es := by
  let P : List RiskEvent → RiskEngine → Prop := fun es₁ u =>
    (u.symbolrisks v i).netPosition = 0 →
      (u.symbolrisks v i).realizedPnl = (re₀.symbolrisks v i).realizedPnl +
          Int64.ofInt (soldValue es₁ - boughtValue es₁) ∧
        (u.accountrisks v).dailyRealizedPnl = (re₀.accountrisks v).dailyRealizedPnl +
          Int64.ofInt (soldValue es₁ - boughtValue es₁)
  have hgood : ∀ es₁ u, Accounted v i re₀ es₁ u → P es₁ u := by
    intro es₁ u hacc hnet
    have hpaid := hacc.paid
    have hdaily := hacc.daily
    rw [hacc.closed hnet] at hpaid
    constructor
    · grind
    · grind
  have hstart : Accounted v i re₀ [] re₀ := by
    refine ⟨?_, hclosed, rfl⟩
    rw [hclosed hflat]
    show _ - 0 = _ + 0
    grind
  exact forall_prefix_iff_along_history (P := P) hgood
    (fun es₁ s e s' hA hacc hclose h => accounted_step hA hacc hclose h)
    (fun es₁ s e s' hA hacc h hP => closesAtAverage_of_exact hA hacc h fun hnet => (hP hnet).1)
    [] hstart hfills hrun

/-- One bought at 100 and one at `p`, both sold at 101. -/
def twoLots (p : Int64) : List RiskEvent :=
  [⟨tradedOrder .buy 100 1, {}⟩, ⟨tradedOrder .buy p 1, {}⟩, ⟨tradedOrder .sell 101 2, {}⟩]

def afterLots (n : ℕ) (p : Int64) : RiskEngine :=
  (exec riskStep {} ((twoLots p).take n)).toOption.getD default

theorem fills_twoLots (p : Int64) :
    ∀ e ∈ twoLots p, e.order.isOurOrder = true ∧ e.order.FillOf 0 0 := by
  intro e he
  rw [twoLots, List.mem_cons, List.mem_cons, List.mem_singleton] at he
  obtain rfl | rfl | rfl := he
  · exact ⟨rfl, .inl rfl, rfl, rfl⟩
  · exact ⟨rfl, .inl rfl, rfl, rfl⟩
  · exact ⟨rfl, .inl rfl, rfl, rfl⟩

theorem realizedPnl_exact_iff_evenLots :
    exec riskStep {} (twoLots 102) = .ok (afterLots 3 102) ∧
      ((afterLots 3 102).symbolrisks 0 0).netPosition = 0 ∧
      soldValue (twoLots 102) - boughtValue (twoLots 102) = 0 ∧
      ((afterLots 3 102).symbolrisks 0 0).realizedPnl = 0 + Int64.ofInt 0 := by
  have hrun : exec riskStep {} (twoLots 102) = .ok (afterLots 3 102) := rfl
  have hflat : ((afterLots 3 102).symbolrisks 0 0).netPosition = 0 := rfl
  have hvalue : soldValue (twoLots 102) - boughtValue (twoLots 102) = 0 := rfl
  have hclosed : (({} : RiskEngine).symbolrisks 0 0).CostClosed := fun _ => rfl
  have hiff := realizedPnl_exact_iff hclosed rfl (fills_twoLots 102) hrun
  have halong : Along riskStep (ClosesAtAverage 0 0) {} (twoLots 102) := by
    refine along_cons (afterLots 1 102) (fun hsell => absurd rfl hsell) rfl ?_
    refine along_cons (afterLots 2 102) (fun hsell => absurd rfl hsell) rfl ?_
    exact along_cons (afterLots 3 102) (fun _ _ => rfl) rfl trivial
  have hexact := (hiff.mpr halong _ _ (List.prefix_refl _) hrun hflat).1
  rw [hvalue] at hexact
  exact ⟨hrun, hflat, hvalue, hexact⟩

/-- **An odd lot is dropped.**  The cost basis of 201 leaves an average of 100;
two are sold for 202, and a profit of 2 is realized. -/
theorem odd_lot_dropped :
    exec riskStep {} (twoLots 101) = .ok (afterLots 3 101) ∧
      ((afterLots 1 101).symbolrisks 0 0).netPosition = 1 ∧
      ((afterLots 2 101).symbolrisks 0 0).netPosition = 2 ∧
      ((afterLots 3 101).symbolrisks 0 0).netPosition = 0 ∧
      soldValue (twoLots 101) - boughtValue (twoLots 101) = 1 ∧
      ((afterLots 3 101).symbolrisks 0 0).realizedPnl = 2 ∧
      ((afterLots 3 101).accountrisks 0).dailyRealizedPnl = 2 := ⟨rfl, rfl, rfl, rfl, rfl, rfl, rfl⟩

end TradingEngine
