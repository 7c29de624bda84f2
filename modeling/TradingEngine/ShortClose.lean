/-
Closing a short position.

`check_max_position_limit` bounds the absolute value of the projected position,
so `check_risk` admits sells without a position.  The fill branches of
`update_symbol_risk` divide the cost basis by the new position on every buy,
also when that buy closes a short and the new position is zero.

A `TradeDesk` is the engine with the record of the orders `check_risk` has
forwarded; its steps are turns of `check_risk` and reports of admitted orders.

* `netPosition_checkRiskOrder`, `netPosition_tradeRun` — the position is moved by
  the fills alone, so it is known from the reports;
* `zero_division_iff` — no division by zero is executed exactly when no buy fill
  brings the position, so counted, to zero;
* `buy_closes_short` — a sell and a buy of the same quantity are enough.
-/
import TradingEngine.CheckDisposition
import TradingEngine.NetPosition

namespace TradingEngine

open FallibleRun RiskEngine

/-! ### The division -/

/-- The divisor of the division `cost_basis_scaled / net_pos` that the order makes
`update_symbol_risk` execute, if it does. -/
def divisor (re : RiskEngine) (o : Order) : Option Int64 :=
  match o.venue.index, symbolSlot o.symbolIndex with
  | .ok v, .ok i =>
    let m := OrderMetrics.ofOrder o
    if o.isOurOrder = true ∧ o.IsFill ∧ m.sideMult = 1 then
      some ((re.symbolrisks v i).netPosition + m.sideMult * o.lastExecQuantity.toInt64)
    else none
  | _, _ => none

variable {re re' : RiskEngine} {o : Order} {e : RiskEvent} {v : VenueIndex} {i : SymbolSlot}

theorem sideMult_eq_one_iff : (OrderMetrics.ofOrder o).sideMult = 1 ↔ o.side = .buy := by
  rw [OrderMetrics.ofOrder]
  dsimp only
  split
  · rename_i hbuy
    exact ⟨fun _ => hbuy, fun _ => rfl⟩
  · rename_i hsell
    exact ⟨fun h => absurd h (by decide), fun hbuy => absurd hbuy hsell⟩

/-- The division of an own fill: a buy divides by the position after it. -/
theorem divisor_eq_some_iff (hown : o.isOurOrder = true) {d : Int64} :
    divisor re o = some d ↔ ∃ v i, o.FillOf v i ∧ o.side = .buy ∧
      (re.symbolrisks v i).netPosition + Int64.ofInt o.signedExec = d := by
  rw [divisor]
  cases hv : o.venue.index with
  | error x =>
    refine ⟨fun h => absurd h (by simp), ?_⟩
    rintro ⟨v, i, ⟨-, hv', -⟩, -⟩
    exact absurd (hv.symm.trans hv') (by simp)
  | ok v =>
    cases hi : symbolSlot o.symbolIndex with
    | error x =>
      refine ⟨fun h => absurd h (by simp), ?_⟩
      rintro ⟨v, i, ⟨-, -, hi'⟩, -⟩
      exact absurd (hi.symm.trans hi') (by simp)
    | ok i =>
      dsimp only
      simp only [sideMult_eq_one_iff, ofInt_signedExec]
      constructor
      · intro h
        split at h
        · rename_i hfill
          exact ⟨v, i, ⟨hfill.2.1, hv, hi⟩, hfill.2.2, Option.some.inj h⟩
        · exact absurd h (by simp)
      · rintro ⟨w, j, ⟨hfill, hw, hj⟩, hbuy, rfl⟩
        obtain rfl : v = w := Except.ok.inj (hv.symm.trans hw)
        obtain rfl : i = j := Except.ok.inj (hi.symm.trans hj)
        rw [if_pos ⟨hown, hfill, hbuy⟩]

/-- A zero divisor is a trap, so the report does not return. -/
theorem riskStep_of_divisor_zero (hown : e.order.isOurOrder = true)
    (hzero : divisor re e.order = some 0) : riskStep re e = .error .arithmeticTrap := by
  obtain ⟨v, i, ⟨hfill, hv, hi⟩, hbuy, hnet⟩ := (divisor_eq_some_iff hown).mp hzero
  rw [← ofInt_signedExec] at hnet
  -- the division comes after the count of open orders, whatever that is
  have hbasis : ∀ count : Int32, applyFill (re.accountrisks v)
      { re.symbolrisks v i with openOrdersCount := count } e.order
      (OrderMetrics.ofOrder e.order) = .error .arithmeticTrap := by
    intro count
    rw [applyFill, fillBasis, if_pos (sideMult_eq_one_iff.mpr hbuy), SymbolRisk.buyFill]
    dsimp only
    rw [hnet, Int64.div?, if_pos (.inl rfl)]
    rfl
  have hsymbol : ownSymbolRisk (re.accountrisks v) (re.symbolrisks v i) e.order
      (OrderMetrics.ofOrder e.order) = .error .arithmeticTrap := by
    rw [ownSymbolRisk]
    obtain hs | hs := hfill
    · rw [hs]
      dsimp only
      have hfirst := hbasis (re.symbolrisks v i).openOrdersCount
      rw [hfirst]
      rfl
    · rw [hs]
      dsimp only
      rw [hbasis]
      rfl
  have hupdate : re.updateSymbolRisk e.book e.order (OrderMetrics.ofOrder e.order) v =
      .error .arithmeticTrap := by
    rw [updateSymbolRisk, hi]
    show (symbolRisk _ _ _ _ _ >>= _) = _
    rw [symbolRisk, if_pos hown, hsymbol]
    rfl
  rw [riskStep, hv]
  show (if e.order.protocol = .fix ∨ e.order.isOurOrder = true then _ else _) = _
  rw [if_pos (.inr hown), applyReport, hupdate]
  rfl

/-! ### Trading -/

/-- The engine and the orders that `check_risk` has forwarded, as they were then. -/
structure TradeDesk where
  re : RiskEngine
  admitted : OrderSlot → Option Order

inductive TradeEvent
  /-- One turn of `check_risk`. -/
  | check (om : OrderManager) (slot : OrderSlot) (now : UInt64)
  /-- A report of the order in a slot. -/
  | report (slot : OrderSlot) (e : RiskEvent)

namespace TradeDesk

def step (d : TradeDesk) : TradeEvent → Except Fault TradeDesk
  | .check om slot now =>
    (d.re.checkRiskOrder om slot now).map fun s =>
      ⟨s.2.1, if s.1 then Function.update d.admitted slot (some (om.orderPool slot))
        else d.admitted⟩
  | .report _ e => (riskStep d.re e).map fun re => ⟨re, d.admitted⟩

/-- A report is about an own order that `check_risk` has admitted. -/
def Admissible (d : TradeDesk) : TradeEvent → Prop
  | .check _ _ _ => True
  | .report slot e => e.order.isOurOrder = true ∧ ∃ o, d.admitted slot = some o ∧
      o.status ≠ .cancelRequest ∧ e.order.side = o.side ∧ e.order.venue = o.venue ∧
      e.order.symbolIndex = o.symbolIndex

end TradeDesk

/-- What an event adds to the position of a symbol. -/
def TradeEvent.executed (v : VenueIndex) (i : SymbolSlot) : TradeEvent → ℤ
  | .check _ _ _ => 0
  | .report _ e => TradingEngine.executed v i e.order

/-- What the events together add to it. -/
def executedBy (v : VenueIndex) (i : SymbolSlot) (es : List TradeEvent) : ℤ :=
  (es.map (TradeEvent.executed v i)).sum

/-- `check_risk` does not move a position. -/
theorem netPosition_checkRiskOrder {om om' : OrderManager} {slot : OrderSlot} {now : UInt64}
    {done : Bool} (h : re.checkRiskOrder om slot now = .ok (done, re', om')) :
    (re'.symbolrisks v i).netPosition = (re.symbolrisks v i).netPosition := by
  rw [checkRiskOrder] at h
  obtain ⟨w, -, h⟩ := bind_eq_ok_iff.mp h
  obtain ⟨j, -, h⟩ := bind_eq_ok_iff.mp h
  obtain ⟨lim, -, h⟩ := bind_eq_ok_iff.mp h
  dsimp only at h
  split at h
  · -- no instrument
    exact absurd h (by simp)
  · split at h
    · -- halted
      obtain ⟨-, rfl, -⟩ := by simpa using h
      rfl
    · split at h
      · -- a cancel request moves the rate limiters
        have hlimiter : ((re.checkCancelRateLimit w j slot now).2.symbolrisks v i).netPosition =
            (re.symbolrisks v i).netPosition := by
          have hset : ∀ c, ((re.setSymbol w j { re.symbolrisks w j with
              cancelratelimit := c }).symbolrisks v i).netPosition =
              (re.symbolrisks v i).netPosition := by
            intro c
            rw [symbolrisks_setSymbol]
            by_cases hv : v = w
            · subst hv
              by_cases hi : i = j
              · subst hi
                rw [Function.update_self, Function.update_self]
              · rw [Function.update_self, Function.update_of_ne hi]
            · rw [Function.update_of_ne hv]
          rw [checkCancelRateLimit]
          dsimp only
          split
          · exact hset _
          · exact hset _
        split at h
        · obtain ⟨-, rfl, -⟩ := by simpa [forward] using h
          exact hlimiter
        · obtain ⟨-, rfl, -⟩ := by simpa using h
          exact hlimiter
      · -- the other checks only read the risk state
        generalize (if (om.orderPool slot).orderType = .limit then limitChecks _ _ _ _ _ else 0) =
          reason at h
        split at h
        · obtain ⟨-, rfl, -⟩ := by simpa using h
          rfl
        · rw [checkMain] at h
          obtain ⟨reason, -, h⟩ := bind_eq_ok_iff.mp h
          split at h
          · obtain ⟨-, rfl, -⟩ := by simpa using h
            rfl
          · obtain ⟨-, rfl, -⟩ := by simpa [forward] using h
            rfl

/-- **The position is known from the reports.** -/
theorem netPosition_tradeRun {d d' : TradeDesk} {es : List TradeEvent}
    (hadm : Along TradeDesk.step TradeDesk.Admissible d es)
    (hrun : exec TradeDesk.step d es = .ok d') :
    (d'.re.symbolrisks v i).netPosition = (d.re.symbolrisks v i).netPosition +
      Int64.ofInt (executedBy v i es) := by
  induction es generalizing d with
  | nil =>
    rw [exec_nil, Except.ok.injEq] at hrun
    rw [hrun]
    show _ = (d'.re.symbolrisks v i).netPosition + 0
    grind
  | cons e es ih =>
    obtain ⟨d₁, hstep, hrest⟩ := exec_cons_eq_ok_iff.mp hrun
    rw [ih (hadm.2 d₁ hstep) hrest, executedBy, executedBy, List.map_cons, List.sum_cons,
      Int64.ofInt_add, ← Int64.add_assoc]
    refine congrArg (· + _) ?_
    cases e with
    | check om slot now =>
      obtain ⟨⟨done, re₁, om₁⟩, hcheck, rfl⟩ := map_eq_ok_iff.mp hstep
      rw [netPosition_checkRiskOrder hcheck]
      show _ = (d.re.symbolrisks v i).netPosition + 0
      grind
    | report slot r =>
      obtain ⟨re₁, hreport, rfl⟩ := map_eq_ok_iff.mp hstep
      exact netPosition_riskStep hadm.1.1 hreport

/-- **When no fill divides by zero.**  In a run of `check_risk` and of reports of
the orders it admits, no report reached executes the division with a zero
position exactly when for no buy fill reached the initial position and the fills
of its symbol up to it sum to zero. -/
theorem zero_division_iff {d : TradeDesk} {es : List TradeEvent}
    (hadm : Along TradeDesk.step TradeDesk.Admissible d es) :
    (∀ es₁ slot e u, es₁ ++ [TradeEvent.report slot e] <+: es →
      exec TradeDesk.step d es₁ = .ok u → divisor u.re e.order ≠ some 0) ↔
    ∀ es₁ slot e u v i, es₁ ++ [TradeEvent.report slot e] <+: es →
      exec TradeDesk.step d es₁ = .ok u → e.order.FillOf v i →
      e.order.side = .buy → (d.re.symbolrisks v i).netPosition +
        Int64.ofInt (executedBy v i (es₁ ++ [TradeEvent.report slot e])) ≠ 0 := by
  -- the position after the fill, from the state it meets and from the start
  have hposition : ∀ es₁ slot e u v i, es₁ ++ [TradeEvent.report slot e] <+: es →
      exec TradeDesk.step d es₁ = .ok u → e.order.FillOf v i →
      (u.re.symbolrisks v i).netPosition + Int64.ofInt e.order.signedExec =
        (d.re.symbolrisks v i).netPosition +
          Int64.ofInt (executedBy v i (es₁ ++ [TradeEvent.report slot e])) := by
    intro es₁ slot e u v i hpre hrun hfill
    have hexecuted : TradeEvent.executed v i (.report slot e) = e.order.signedExec := if_pos hfill
    rw [netPosition_tradeRun (along_append (along_of_initial hpre hadm)) hrun, executedBy,
      executedBy, List.map_append, List.sum_append, List.map_singleton, List.sum_singleton,
      hexecuted, Int64.ofInt_add, Int64.add_assoc]
  have hown : ∀ es₁ slot e u, es₁ ++ [TradeEvent.report slot e] <+: es →
      exec TradeDesk.step d es₁ = .ok u → e.order.isOurOrder = true :=
    fun es₁ slot e u hpre hrun => (last_of_along (along_of_initial hpre hadm) hrun).1
  constructor
  · intro hnever es₁ slot e u v i hpre hrun hfill hbuy hzero
    rw [← hposition es₁ slot e u v i hpre hrun hfill] at hzero
    exact hnever es₁ slot e u hpre hrun
      ((divisor_eq_some_iff (hown es₁ slot e u hpre hrun)).mpr ⟨v, i, hfill, hbuy, hzero⟩)
  · intro hcond es₁ slot e u hpre hrun hzero
    obtain ⟨v, i, hfill, hbuy, hnet⟩ :=
      (divisor_eq_some_iff (hown es₁ slot e u hpre hrun)).mp hzero
    rw [hposition es₁ slot e u v i hpre hrun hfill] at hnet
    exact hcond es₁ slot e u v i hpre hrun hfill hbuy hnet

/-- A store that knows one instrument and holds two market orders for five of it, a sell
in slot 7 and a buy in slot 8. -/
def sellThenBuy : OrderManager :=
  { twoOrders with
    orderPool := fun s =>
      { quantity := 5, side := if s = 7 then .sell else .buy, orderType := .market } }

/-- The sell is admitted and filled, then the buy. -/
def shortAndBack : List TradeEvent :=
  [.check sellThenBuy 7 0, .report 7 ⟨tradedOrder .sell 100 5, {}⟩, .check sellThenBuy 8 0,
    .report 8 ⟨tradedOrder .buy 100 5, {}⟩]

def TradeDesk.start : TradeDesk := ⟨oneSymbol 5 .empty, fun _ => none⟩

def TradeDesk.afterShort (n : ℕ) : TradeDesk :=
  (exec TradeDesk.step TradeDesk.start (shortAndBack.take n)).toOption.getD TradeDesk.start

theorem admissible_shortAndBack :
    Along TradeDesk.step TradeDesk.Admissible TradeDesk.start shortAndBack := by
  refine along_cons (TradeDesk.afterShort 1) trivial rfl ?_
  refine along_cons (TradeDesk.afterShort 2) ⟨rfl, _, rfl, by decide, rfl, rfl, rfl⟩ rfl ?_
  refine along_cons (TradeDesk.afterShort 3) trivial rfl ?_
  exact ⟨⟨rfl, _, rfl, by decide, rfl, rfl, rfl⟩, fun _ _ => trivial⟩

/-- The fills of `shortAndBack` sum to zero at a buy. -/
theorem zero_division_iff_shortAndBack :
    ¬∀ es₁ slot e u v i, es₁ ++ [TradeEvent.report slot e] <+: shortAndBack →
      exec TradeDesk.step TradeDesk.start es₁ = .ok u → e.order.FillOf v i →
      e.order.side = .buy → (TradeDesk.start.re.symbolrisks v i).netPosition +
        Int64.ofInt (executedBy v i (es₁ ++ [TradeEvent.report slot e])) ≠ 0 := by
  intro hcond
  have hrun : exec TradeDesk.step TradeDesk.start (shortAndBack.take 3) =
      .ok (TradeDesk.afterShort 3) := rfl
  have hzero : divisor (TradeDesk.afterShort 3).re (tradedOrder .buy 100 5) = some 0 := rfl
  exact (zero_division_iff admissible_shortAndBack).mpr hcond (shortAndBack.take 3) 8
    ⟨tradedOrder .buy 100 5, {}⟩ _ (List.prefix_refl _) hrun hzero

/-- **A buy that closes a short divides by zero.** -/
theorem buy_closes_short :
    Along TradeDesk.step TradeDesk.Admissible TradeDesk.start shortAndBack ∧
      exec TradeDesk.step TradeDesk.start (shortAndBack.take 3) = .ok (TradeDesk.afterShort 3) ∧
      ((TradeDesk.afterShort 3).re.symbolrisks 0 0).netPosition = -5 ∧
      divisor (TradeDesk.afterShort 3).re (tradedOrder .buy 100 5) = some 0 ∧
      riskStep (TradeDesk.afterShort 3).re ⟨tradedOrder .buy 100 5, {}⟩ =
        .error .arithmeticTrap :=
  ⟨admissible_shortAndBack, rfl, rfl, rfl, riskStep_of_divisor_zero rfl rfl⟩

end TradingEngine
