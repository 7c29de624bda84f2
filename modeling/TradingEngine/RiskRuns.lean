/-
Runs of the update thread, order by order and application by application.

A call of `update_risk` pops FIX orders until it meets one of another protocol,
applies that one and returns.  `popped` lists the orders a call pops, each as
its slot holds it then: a FIX order is left with the first of its
`StatusesPreNew` as its status, so a slot queued twice is seen with that status
the second time.  An order popped stands for the applications `applications`
lists; `riskStep` is one of them.

* `updateRiskOrder_eq_ok` — what the loop body leaves in the order does not
  depend on the engine, and its effect on the engine is a run of `riskStep`;
* `exec_applied_of_calls` — so every sequence of calls is a run of `riskStep`
  over the applications of the orders they pop.
-/
import TradingEngine.PnlTotals

namespace TradingEngine

open FallibleRun

namespace RiskEngine

/-- An order that the update thread applies, and the market book of that time. -/
structure RiskEvent where
  order : Order
  book : MarketBook := {}

/-- One application of an order. -/
def riskStep (re : RiskEngine) (e : RiskEvent) : Except Fault RiskEngine := do
  let v ← e.order.venue.index
  if e.order.protocol = .fix ∨ e.order.isOurOrder = true then
    re.applyReport e.book e.order (OrderMetrics.ofOrder e.order) v
  else re.updateSymbolRisk e.book e.order (OrderMetrics.ofOrder e.order) v

/-- The applications an order popped stands for. -/
def applications (e : RiskEvent) : List RiskEvent :=
  (reports e.order).map fun order => ⟨order, e.book⟩

/-- What the loop body of `update_risk` leaves in the order. -/
def settled (order : Order) : Order :=
  if order.protocol = .fix then
    if order.syncState = .waitingNew then order
    else { order with
      status := order.statusesPreNew.1
      canModify := order.canModify ||| riskDone }
  else { order with canModify := order.canModify ||| riskDone }

/-- The orders one call pops from the queued slots. -/
def popped (mb : MarketBook) : (OrderSlot → Order) → List OrderSlot → List RiskEvent
  | _, [] => []
  | pool, slot :: rest =>
    let order := pool slot
    ⟨order, mb⟩ ::
      if order.protocol = .fix then popped mb (Function.update pool slot (settled order)) rest
      else []

/-- The orders that a call of `update_risk` pops. -/
def poppedBy (om : OrderManager) : List RiskEvent :=
  popped om.marketbook om.orderPool om.storeToRisk.items

/-! ### The loop body -/

variable {re re' : RiskEngine} {mb : MarketBook} {order : Order}

theorem newSeen_of_ne_waitingNew {s : SyncState} (h : ¬ s = .waitingNew) : s = .newSeen := by
  cases s with
  | waitingNew => exact absurd rfl h
  | newSeen => rfl

theorem fixTurn_order {m : OrderMetrics} {v : VenueIndex} {s s' : RiskEngine × Order}
    {next : Status} (h : fixTurn mb m v s next = .ok s') : s'.2 = { s.2 with status := next } := by
  rw [fixTurn] at h
  dsimp only at h
  split at h
  · obtain ⟨re₁, -, rfl⟩ := map_eq_ok_iff.mp h
    rfl
  · rw [← Except.ok.inj h]

/-- The order after the loop body, and whether the call returns. -/
theorem order_of_updateRiskOrder {done : Bool} {order' : Order}
    (h : re.updateRiskOrder mb order = .ok (done, re', order')) :
    done = decide (order.protocol ≠ .fix) ∧ order' = settled order := by
  rw [updateRiskOrder] at h
  obtain ⟨v, -, h⟩ := bind_eq_ok_iff.mp h
  obtain ⟨fixed, hfix, h⟩ := bind_eq_ok_iff.mp h
  rw [updateRiskForProtocolFix] at hfix
  by_cases hproto : order.protocol = .fix
  · rw [if_pos hproto] at hfix
    rw [settled, if_pos hproto]
    by_cases hwait : order.syncState = .waitingNew
    · rw [if_pos hwait, Except.ok.injEq] at hfix
      subst hfix
      obtain ⟨rfl, -, rfl⟩ := by simpa using h
      rw [if_pos hwait]
      exact ⟨by simp [hproto], rfl⟩
    · rw [if_neg hwait] at hfix ⊢
      obtain ⟨s₃, hloop, hfix⟩ := bind_eq_ok_iff.mp hfix
      obtain ⟨s₁, s₂, h₁, h₂, h₃⟩ := fixTurns_eq_ok hloop
      have hlast : s₃.2 = { order with status := order.statusesPreNew.1 } := by
        rw [fixTurn_order h₃, fixTurn_order h₂, fixTurn_order h₁]
      rw [← Except.ok.inj hfix] at h
      obtain ⟨rfl, -, rfl⟩ := by simpa using h
      rw [hlast]
      exact ⟨by simp [hproto], rfl⟩
  · rw [if_neg hproto] at hfix
    rw [settled, if_neg hproto]
    rw [← Except.ok.inj hfix] at h
    obtain ⟨re₁, -, h⟩ := bind_eq_ok_iff.mp h
    dsimp only at h
    split at h
    · obtain ⟨re₂, -, heq⟩ := map_eq_ok_iff.mp h
      obtain ⟨rfl, -, rfl⟩ := by simpa using heq
      exact ⟨by simpa using hproto, rfl⟩
    · obtain ⟨rfl, -, rfl⟩ := by simpa using h
      exact ⟨by simpa using hproto, rfl⟩

/-- **The loop body is a run over the applications of the order.** -/
theorem exec_applications_of_updateRiskOrder {done : Bool} {order' : Order}
    (h : re.updateRiskOrder mb order = .ok (done, re', order')) :
    exec riskStep re (applications ⟨order, mb⟩) = .ok re' := by
  cases hv : order.venue.index with
  | error x =>
    rw [updateRiskOrder, hv] at h
    exact absurd h (by simp [Bind.bind, Except.bind])
  | ok v =>
    by_cases hreported : order.protocol = .fix ∨ order.isOurOrder = true
    · have hstep : ∀ o ∈ reports order, ∀ s : RiskEngine,
          riskStep s ⟨o, mb⟩ = reportStep mb v s o := by
        intro o ho s
        obtain ⟨status, rfl⟩ := eq_of_mem_reports ho
        rw [riskStep]
        simp only [hv]
        exact if_pos hreported
      rw [applications, exec_map hstep]
      exact exec_reports_of_fix_or_own hreported hv h
    · -- a market order is applied once, to its symbol only
      obtain ⟨hproto, hown⟩ := not_or.mp hreported
      rw [updateRiskOrder, hv] at h
      obtain ⟨w, hw, h⟩ := bind_eq_ok_iff.mp h
      rw [← Except.ok.inj hw] at h
      obtain ⟨fixed, hfix, h⟩ := bind_eq_ok_iff.mp h
      rw [updateRiskForProtocolFix, if_neg hproto] at hfix
      rw [← Except.ok.inj hfix] at h
      obtain ⟨re₁, h₁, h⟩ := bind_eq_ok_iff.mp h
      dsimp only at h
      rw [if_neg hown] at h
      obtain ⟨-, rfl, -⟩ := by simpa using h
      rw [applications, reports, if_neg hproto, List.map_singleton, exec_cons_eq_ok_iff]
      refine ⟨re₁, ?_, exec_nil _⟩
      rw [riskStep, hv]
      show (if order.protocol = .fix ∨ order.isOurOrder = true then _ else _) = _
      rw [if_neg hreported]
      exact h₁

/-! ### What one application can do -/

theorem updateOrderRisk_limits {v : VenueIndex} (h : re.updateOrderRisk order v = .ok re') :
    re'.limits = re.limits := by
  rw [updateOrderRisk] at h
  split at h
  · rw [← Except.ok.inj h]
  · dsimp only at h
    split at h
    · split at h
      · rw [← Except.ok.inj h]
        rfl
      · rw [← Except.ok.inj h]
        rfl
    · split at h
      · exact absurd h (by simp)
      · rw [← Except.ok.inj h]
        rfl

/-- **One application.**  It rewrites one symbol and the account of the venue: the symbol
first, then, for an own order or a FIX order, the account once more. -/
theorem riskStep_eq_ok {e : RiskEvent} (h : riskStep re e = .ok re') :
    ∃ v i acc sym acc', e.order.venue.index = .ok v ∧ symbolSlot e.order.symbolIndex = .ok i ∧
      symbolRisk (re.accountrisks v) (re.symbolrisks v i) e.book e.order
        (OrderMetrics.ofOrder e.order) = .ok (acc, sym) ∧
      (if e.order.protocol = .fix ∨ e.order.isOurOrder = true then
        updateAccountRisk acc (re.limits.getAccountLimit v) e.order
          (OrderMetrics.ofOrder e.order) = .ok acc'
      else acc' = acc) ∧
      re'.accountrisks = Function.update re.accountrisks v acc' ∧
      re'.symbolrisks =
        Function.update re.symbolrisks v (Function.update (re.symbolrisks v) i sym) ∧
      re'.limits = re.limits := by
  rw [riskStep] at h
  obtain ⟨v, hv, h⟩ := bind_eq_ok_iff.mp h
  by_cases hreported : e.order.protocol = .fix ∨ e.order.isOurOrder = true
  · rw [if_pos hreported, applyReport] at h
    obtain ⟨re₁, h₁, h⟩ := bind_eq_ok_iff.mp h
    obtain ⟨i, acc, sym, hi, hrisk, rfl⟩ := updateSymbolRisk_eq_ok_iff.mp h₁
    obtain ⟨re₂, acc', hindex, hacc, rfl⟩ := updateOwnRisk_eq_ok_iff.mp h
    obtain ⟨haccs, hsyms⟩ := updateOrderRisk_risks hindex
    have hlimits := updateOrderRisk_limits hindex
    rw [haccs, hlimits] at hacc
    simp only [accountrisks_setSymbol, accountrisks_setAccount, Function.update_self] at hacc
    refine ⟨v, i, acc, sym, acc', hv, hi, hrisk, ?_, ?_, hsyms, hlimits⟩
    · rw [if_pos hreported]
      exact hacc
    · rw [accountrisks_setAccount, haccs, accountrisks_setSymbol, accountrisks_setAccount,
        Function.update_idem]
  · rw [if_neg hreported] at h
    obtain ⟨i, acc, sym, hi, hrisk, rfl⟩ := updateSymbolRisk_eq_ok_iff.mp h
    refine ⟨v, i, acc, sym, acc, hv, hi, hrisk, ?_, rfl, rfl, rfl⟩
    rw [if_neg hreported]

/-- What holds of every symbol, and of the symbol that is rewritten, holds of every symbol
after the application. -/
theorem forall_symbols_riskStep {P : SymbolRisk → Prop} {e : RiskEvent}
    (hold : ∀ v i, P (re.symbolrisks v i)) (h : riskStep re e = .ok re')
    (hnew : ∀ v i acc sym, e.order.venue.index = .ok v → symbolSlot e.order.symbolIndex = .ok i →
      symbolRisk (re.accountrisks v) (re.symbolrisks v i) e.book e.order
        (OrderMetrics.ofOrder e.order) = .ok (acc, sym) → P sym) (v : VenueIndex)
    (i : SymbolSlot) : P (re'.symbolrisks v i) := by
  obtain ⟨w, j, acc, sym, -, hw, hj, hrisk, -, -, hsyms, -⟩ := riskStep_eq_ok h
  rw [hsyms]
  by_cases hv : v = w
  · subst hv
    rw [Function.update_self]
    by_cases hi : i = j
    · subst hi
      rw [Function.update_self]
      exact hnew v i acc sym hw hj hrisk
    · rw [Function.update_of_ne hi]
      exact hold v i
  · rw [Function.update_of_ne hv]
    exact hold v i

/-- The symbol of the order is the one rewritten. -/
theorem symbolRisk_of_riskStep {e : RiskEvent} {v : VenueIndex} {i : SymbolSlot}
    (hv : e.order.venue.index = .ok v) (hi : symbolSlot e.order.symbolIndex = .ok i)
    (h : riskStep re e = .ok re') :
    ∃ acc, symbolRisk (re.accountrisks v) (re.symbolrisks v i) e.book e.order
      (OrderMetrics.ofOrder e.order) = .ok (acc, re'.symbolrisks v i) := by
  obtain ⟨w, j, acc, sym, -, hw, hj, hrisk, -, -, hsyms, -⟩ := riskStep_eq_ok h
  obtain rfl : v = w := Except.ok.inj (hv.symm.trans hw)
  obtain rfl : i = j := Except.ok.inj (hi.symm.trans hj)
  rw [hsyms, Function.update_self, Function.update_self]
  exact ⟨acc, hrisk⟩

/-- What the three updates keep, an application keeps. -/
theorem Kept.riskStep {P : RiskEngine → Prop} (hP : Kept P) {e : RiskEvent} (hold : P re)
    (h : RiskEngine.riskStep re e = .ok re') : P re' := by
  rw [RiskEngine.riskStep] at h
  obtain ⟨v, -, h⟩ := bind_eq_ok_iff.mp h
  split at h
  · exact hP.report hold h
  · exact hP.symbol hold h

/-! ### Calls -/

/-- The loop on a queued order: it is settled, and a FIX order is not the last. -/
theorem updateRiskLoop_cons_eq_ok {om om' : OrderManager} {slot : OrderSlot}
    {rest : List OrderSlot} {done : Bool}
    (h : re.updateRiskLoop om (slot :: rest) = .ok (done, re', om')) :
    ∃ stop re₁ om₁, re.updateRiskOrder om.marketbook (om.orderPool slot) =
        .ok (stop, re₁, settled (om.orderPool slot)) ∧
      om₁ = { om with storeToRisk := om.storeToRisk.tail }.setOrder slot
        (settled (om.orderPool slot)) ∧
      (((om.orderPool slot).protocol = .fix ∧
          re₁.updateRiskLoop om₁ rest = .ok (done, re', om')) ∨
        ((om.orderPool slot).protocol ≠ .fix ∧ re₁ = re' ∧ om₁ = om')) := by
  rw [updateRiskLoop] at h
  obtain ⟨⟨stop, re₁, om₁⟩, hturn, h⟩ := bind_eq_ok_iff.mp h
  obtain ⟨order', hbody, hpopped⟩ := updateRiskTurn_eq_ok hturn
  obtain ⟨hstop, rfl⟩ := order_of_updateRiskOrder hbody
  refine ⟨stop, re₁, om₁, hbody, hpopped, ?_⟩
  by_cases hproto : (om.orderPool slot).protocol = .fix
  · have hgo : stop = false := by simpa [hproto] using hstop
    rw [hgo] at h
    exact .inl ⟨hproto, h⟩
  · have hdone : stop = true := by simpa [hproto] using hstop
    rw [hdone] at h
    obtain ⟨-, hre, hom⟩ : true = done ∧ re₁ = re' ∧ om₁ = om' := by simpa using h
    exact .inr ⟨hproto, hre, hom⟩

theorem exec_popped_of_updateRiskLoop {om om' : OrderManager} {done : Bool}
    {slots : List OrderSlot} (h : re.updateRiskLoop om slots = .ok (done, re', om')) :
    exec riskStep re ((popped om.marketbook om.orderPool slots).flatMap applications) =
      .ok re' := by
  induction slots generalizing re om with
  | nil =>
    obtain ⟨-, rfl, -⟩ : done = false ∧ re = re' ∧ om = om' := by
      simpa [updateRiskLoop, eq_comm] using h
    exact exec_nil re
  | cons slot rest ih =>
    obtain ⟨stop, re₁, om₁, hbody, rfl, hcase⟩ := updateRiskLoop_cons_eq_ok h
    have hfirst := exec_applications_of_updateRiskOrder hbody
    rw [popped, List.flatMap_cons]
    refine exec_append_eq_ok_iff.mpr ⟨re₁, hfirst, ?_⟩
    obtain ⟨hproto, hrest⟩ | ⟨hproto, rfl, -⟩ := hcase
    · -- a FIX order: the loop goes on with the order as it was left
      rw [if_pos hproto]
      exact ih hrest
    · rw [if_neg hproto]
      exact exec_nil re₁

/-- A call of `update_risk` is a run over the applications of the orders it pops. -/
theorem exec_applied_of_call {om : OrderManager} (h : updateRiskCall re om = .ok re') :
    exec riskStep re ((poppedBy om).flatMap applications) = .ok re' := by
  obtain ⟨⟨done, re₁, om'⟩, hcall, rfl⟩ := map_eq_ok_iff.mp h
  exact exec_popped_of_updateRiskLoop hcall

/-- The orders that a sequence of calls pops. -/
def poppedByAll (calls : List OrderManager) : List RiskEvent := calls.flatMap poppedBy

/-- **Every run of `update_risk` is a run of its applications.** -/
theorem exec_applied_of_calls {calls : List OrderManager}
    (h : exec updateRiskCall re calls = .ok re') :
    exec riskStep re ((poppedByAll calls).flatMap applications) = .ok re' := by
  rw [poppedByAll, List.flatMap_assoc]
  exact exec_flatMap (fun _ _ _ hcall => exec_applied_of_call hcall) h

end RiskEngine

end TradingEngine
