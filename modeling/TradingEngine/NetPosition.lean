/-
The net position of a symbol.

A fill is a report with status `Partial` or `Filled`.  It is the only thing that
moves `net_position`: by `last_exec_quantity`, upwards for a buy and downwards
otherwise.

* `ownSymbolRisk_of_fill`, `ownSymbolRisk_of_not_fill` — the switch of
  `update_symbol_risk` seen from the position: a fill is `applyFill` and the
  clamps, every other report touches counters and pending notional only;
* `netPosition_riskStep` — one application moves the position of one symbol by
  `executed` and no other;
* `netPosition_eq_sum` — a run of `update_risk` over own orders moves it by the
  sum over the orders popped, each counted once.

`net_position` is an atomic `int64_t`, so the sum is read modulo 2^64.
-/
import TradingEngine.RiskRuns

namespace TradingEngine

open FallibleRun RiskEngine

/-! ### Fills -/

/-- A value with the sign of the side. -/
def signed (side : Side) (n : ℤ) : ℤ := if side = .buy then n else -n

namespace Order

/-- The reports that carry an execution. -/
def IsFill (o : Order) : Prop := o.status = .partialFill ∨ o.status = .filled

instance (o : Order) : Decidable o.IsFill := inferInstanceAs (Decidable (_ ∨ _))

/-- `side_mult * last_exec_quantity`, without a width. -/
def signedExec (o : Order) : ℤ := signed o.side o.lastExecQuantity.toNat

end Order

/-- A fill of symbol `i` of venue `v`. -/
def Order.FillOf (v : VenueIndex) (i : SymbolSlot) (o : Order) : Prop :=
  o.IsFill ∧ o.venue.index = .ok v ∧ symbolSlot o.symbolIndex = .ok i

instance (v : VenueIndex) (i : SymbolSlot) (o : Order) : Decidable (o.FillOf v i) :=
  inferInstanceAs (Decidable (_ ∧ _))

/-- What an order adds to the position of symbol `i` of venue `v`. -/
def executed (v : VenueIndex) (i : SymbolSlot) (o : Order) : ℤ :=
  if o.FillOf v i then o.signedExec else 0

variable {acc acc' : AccountRisk} {sym sym' : SymbolRisk} {o : Order} {m : OrderMetrics}

/-- A widened quantity is the number it stands for. -/
theorem toInt64_eq_ofInt (n : UInt32) : n.toInt64 = Int64.ofInt n.toNat := by
  rw [← UInt32.toInt_toInt64, Int64.ofInt_toInt]

/-- Multiplying by `side_mult` puts the sign of the side. -/
theorem ofInt_mul_sideMult (n : ℤ) (o : Order) :
    Int64.ofInt n * (OrderMetrics.ofOrder o).sideMult = Int64.ofInt (signed o.side n) := by
  rw [OrderMetrics.ofOrder, signed]
  dsimp only
  split
  · grind
  · rw [Int64.ofInt_neg]
    grind

/-- The 64-bit product is the integer one. -/
theorem ofInt_signedExec (o : Order) :
    (OrderMetrics.ofOrder o).sideMult * o.lastExecQuantity.toInt64 = Int64.ofInt o.signedExec := by
  rw [Int64.mul_comm, toInt64_eq_ofInt, ofInt_mul_sideMult, Order.signedExec]

/-- A fill runs `applyFill` on the symbol, with the open-order count already
moved, and ends with the clamps. -/
theorem ownSymbolRisk_of_fill (hfill : o.IsFill)
    (h : ownSymbolRisk acc sym o m = .ok (acc', sym')) :
    ∃ count filled, applyFill acc { sym with openOrdersCount := count } o m = .ok (acc', filled) ∧
      sym' = filled.clamp := by
  rw [ownSymbolRisk] at h
  obtain hs | hs := hfill
  · rw [hs] at h
    obtain ⟨⟨acc₁, sym₁⟩, hfilled, h⟩ := bind_eq_ok_iff.mp h
    obtain ⟨rfl, rfl⟩ := Prod.mk.inj (Except.ok.inj h)
    exact ⟨sym.openOrdersCount, sym₁, hfilled, rfl⟩
  · rw [hs] at h
    obtain ⟨⟨acc₁, sym₁⟩, hfilled, h⟩ := bind_eq_ok_iff.mp h
    obtain ⟨rfl, rfl⟩ := Prod.mk.inj (Except.ok.inj h)
    exact ⟨sym.openOrdersCount - 1, sym₁, hfilled, rfl⟩

theorem addReplaced_eq (sym : SymbolRisk) (o : Order) (m : OrderMetrics) :
    ∃ pending, sym.addReplaced o m = { sym with pendingNotionalScaled := pending } := by
  rw [SymbolRisk.addReplaced]
  split
  · exact ⟨_, rfl⟩
  · exact ⟨sym.pendingNotionalScaled, rfl⟩

/-- Every other report moves the open-order count and the pending notional. -/
theorem ownSymbolRisk_of_not_fill (hfill : ¬o.IsFill)
    (h : ownSymbolRisk acc sym o m = .ok (acc', sym')) :
    acc' = acc ∧ ∃ pending count,
      sym' = { sym with pendingNotionalScaled := pending, openOrdersCount := count } := by
  -- the replaced amount and the clamps stay within these two fields
  have hclamp : ∀ (s : SymbolRisk) (c : Int32), ∃ pending count,
      ({ s with openOrdersCount := c }.addReplaced o m).clamp =
        { s with pendingNotionalScaled := pending, openOrdersCount := count } := by
    intro s c
    obtain ⟨pending, hp⟩ := addReplaced_eq { s with openOrdersCount := c } o m
    rw [hp]
    exact ⟨_, _, rfl⟩
  rw [ownSymbolRisk] at h
  cases hs : o.status with
  | partialFill => exact absurd (.inl hs) hfill
  | filled => exact absurd (.inr hs) hfill
  | new | unknown | expired | cancelRequest =>
    rw [hs] at h
    obtain ⟨rfl, rfl⟩ := Prod.mk.inj (Except.ok.inj h)
    exact ⟨rfl, _, _, rfl⟩
  | cancelled | deleted =>
    rw [hs] at h
    by_cases hcc : 1 < o.cancelledCount
    · dsimp only at h
      rw [if_pos hcc] at h
      obtain ⟨rfl, rfl⟩ := Prod.mk.inj (Except.ok.inj h)
      exact ⟨rfl, _, _, rfl⟩
    · dsimp only at h
      rw [if_neg hcc] at h
      obtain ⟨rfl, rfl⟩ := Prod.mk.inj (Except.ok.inj h)
      exact ⟨rfl, hclamp sym _⟩
  | replaced =>
    rw [hs] at h
    obtain ⟨rfl, rfl⟩ := Prod.mk.inj (Except.ok.inj h)
    exact ⟨rfl, hclamp sym sym.openOrdersCount⟩

/-- What an own report does to the position. -/
theorem netPosition_ownSymbolRisk
    (h : ownSymbolRisk acc sym o (OrderMetrics.ofOrder o) = .ok (acc', sym')) :
    sym'.netPosition = sym.netPosition + Int64.ofInt (if o.IsFill then o.signedExec else 0) := by
  by_cases hfill : o.IsFill
  · obtain ⟨count, filled, hfilled, rfl⟩ := ownSymbolRisk_of_fill hfill h
    obtain ⟨_, _, _, _, _, _, -, rfl⟩ := applyFill_eq_ok hfilled
    rw [if_pos hfill, ← ofInt_signedExec]
    rfl
  · obtain ⟨-, pending, count, rfl⟩ := ownSymbolRisk_of_not_fill hfill h
    rw [if_neg hfill]
    show sym.netPosition = sym.netPosition + 0
    grind

/-! ### Runs -/

variable {re re' : RiskEngine} {e : RiskEvent} {v : VenueIndex} {i : SymbolSlot}

theorem fillOf_iff {w : VenueIndex} {j : SymbolSlot} (hw : o.venue.index = .ok w)
    (hj : symbolSlot o.symbolIndex = .ok j) : o.FillOf v i ↔ o.IsFill ∧ w = v ∧ j = i := by
  rw [Order.FillOf, hw, hj, Except.ok.injEq, Except.ok.injEq]

/-- **One application moves one position, once.** -/
theorem netPosition_riskStep (hown : e.order.isOurOrder = true) (h : riskStep re e = .ok re') :
    (re'.symbolrisks v i).netPosition =
      (re.symbolrisks v i).netPosition + Int64.ofInt (executed v i e.order) := by
  have hzero : ∀ n : Int64, n = n + Int64.ofInt 0 := by
    intro n
    show n = n + 0
    grind
  obtain ⟨w, j, acc, sym, acc', hw, hj, hrisk, -, -, hsyms, -⟩ := riskStep_eq_ok h
  rw [symbolRisk, if_pos hown] at hrisk
  rw [hsyms]
  simp only [executed, fillOf_iff hw hj]
  by_cases hplace : w = v ∧ j = i
  · obtain ⟨rfl, rfl⟩ := hplace
    rw [Function.update_self, Function.update_self, netPosition_ownSymbolRisk hrisk]
    simp only [and_true]
  · -- another symbol is not touched
    rw [if_neg fun hf => hplace hf.2, ← hzero]
    by_cases hv : v = w
    · subst hv
      have hij : i ≠ j := fun hi => hplace ⟨rfl, hi.symm⟩
      rw [Function.update_self, Function.update_of_ne hij]
    · rw [Function.update_of_ne hv]

/-- An own order that `update_risk` applies once: an OUCH order, or a FIX order
after its New report with no status recorded before it. -/
def Order.AppliedOnce (o : Order) : Prop :=
  o.isOurOrder = true ∧ (o.protocol = .ouch ∨
    o.protocol = .fix ∧ o.syncState = .newSeen ∧ o.statusesPreNew = (.unknown, .unknown))

/-- Such an order is its only report, unless it has no status at all. -/
theorem applications_of_appliedOnce (h : e.order.AppliedOnce) :
    applications e = [e] ∨ applications e = [] ∧ ¬e.order.IsFill := by
  obtain ⟨-, hproto | ⟨hproto, hseen, hpre⟩⟩ := h
  · have hnot : e.order.protocol ≠ .fix := by rw [hproto]; decide
    rw [applications, reports, if_neg hnot]
    exact .inl rfl
  · have hwait : e.order.syncState ≠ .waitingNew := by rw [hseen]; decide
    rw [applications, reports, if_pos hproto, if_neg hwait]
    dsimp only
    rw [hpre]
    by_cases hunknown : e.order.status = .unknown
    · refine .inr ⟨by simp [hunknown], ?_⟩
      rintro (hs | hs) <;> rw [hunknown] at hs <;> exact absurd hs (by decide)
    · refine .inl ?_
      simp [hunknown]

/-- One popped order moves the position by what it executed. -/
theorem netPosition_applications (honce : e.order.AppliedOnce)
    (h : exec riskStep re (applications e) = .ok re') :
    (re'.symbolrisks v i).netPosition =
      (re.symbolrisks v i).netPosition + Int64.ofInt (executed v i e.order) := by
  obtain happ | ⟨happ, hfill⟩ := applications_of_appliedOnce honce
  · rw [happ] at h
    obtain ⟨re₁, hstep, hnil⟩ := exec_cons_eq_ok_iff.mp h
    rw [exec_nil, Except.ok.injEq] at hnil
    exact hnil ▸ netPosition_riskStep honce.1 hstep
  · have hnone : ¬e.order.FillOf v i := fun hf => hfill hf.1
    rw [happ, exec_nil, Except.ok.injEq] at h
    rw [executed, if_neg hnone, ← h]
    show _ = (re.symbolrisks v i).netPosition + 0
    grind

theorem netPosition_popped {es : List RiskEvent} (honce : ∀ e ∈ es, e.order.AppliedOnce)
    (h : exec riskStep re (es.flatMap applications) = .ok re') :
    (re'.symbolrisks v i).netPosition = (re.symbolrisks v i).netPosition +
      Int64.ofInt (es.map fun e => executed v i e.order).sum := by
  induction es generalizing re with
  | nil =>
    rw [List.flatMap_nil, exec_nil, Except.ok.injEq] at h
    rw [h]
    show _ = (re'.symbolrisks v i).netPosition + 0
    grind
  | cons e es ih =>
    rw [List.flatMap_cons] at h
    obtain ⟨re₁, hfirst, hrest⟩ := exec_append_eq_ok_iff.mp h
    rw [ih (fun x hx => honce x (List.mem_cons_of_mem e hx)) hrest,
      netPosition_applications (honce e List.mem_cons_self) hfirst, List.map_cons,
      List.sum_cons, Int64.ofInt_add, Int64.add_assoc]

/-- **Each execution moves the position exactly once.**  Over a run of
`update_risk` that pops own orders only, each of them OUCH or FIX after its New
report, every position moves by the sum of the fills popped for its symbol, and
a popped order that is not such a fill leaves it alone in whatever state it is
popped. -/
theorem netPosition_eq_sum {calls : List OrderManager}
    (honce : ∀ e ∈ poppedByAll calls, e.order.AppliedOnce)
    (hrun : exec updateRiskCall re calls = .ok re') (v : VenueIndex) (i : SymbolSlot) :
    (re'.symbolrisks v i).netPosition = (re.symbolrisks v i).netPosition +
        Int64.ofInt ((poppedByAll calls).map fun e => executed v i e.order).sum ∧
      ∀ e ∈ poppedByAll calls, ¬e.order.FillOf v i →
        ∀ (re₁ re₂ : RiskEngine) (done : Bool) (order' : Order),
        re₁.updateRiskOrder e.book e.order = .ok (done, re₂, order') →
        (re₂.symbolrisks v i).netPosition = (re₁.symbolrisks v i).netPosition := by
  refine ⟨netPosition_popped honce (exec_applied_of_calls hrun), ?_⟩
  intro e he hother re₁ re₂ done order' hbody
  rw [netPosition_applications (honce e he) (exec_applications_of_updateRiskOrder hbody),
    executed, if_neg hother]
  show (re₁.symbolrisks v i).netPosition + 0 = _
  grind

/-- Five and one bought, the one of a FIX order, two sold. -/
def threeFills : List OrderManager :=
  [queuedOrder (tradedOrder .buy 100 5) {},
    queuedOrder { tradedOrder .buy 90 1 with protocol := .fix, syncState := .newSeen } {},
    queuedOrder (tradedOrder .sell 120 2) {}]

def afterThreeFills : RiskEngine := (exec updateRiskCall {} threeFills).toOption.getD default

theorem netPosition_eq_sum_threeFills :
    exec updateRiskCall {} threeFills = .ok afterThreeFills ∧
      ((poppedByAll threeFills).map fun e => executed 0 0 e.order).sum = 4 ∧
      (afterThreeFills.symbolrisks 0 0).netPosition = 0 + Int64.ofInt 4 := by
  have hrun : exec updateRiskCall {} threeFills = .ok afterThreeFills := rfl
  have honce : ∀ e ∈ poppedByAll threeFills, e.order.AppliedOnce := by
    intro e he
    have hpopped : poppedByAll threeFills = [⟨tradedOrder .buy 100 5, {}⟩,
        ⟨{ tradedOrder .buy 90 1 with protocol := .fix, syncState := .newSeen }, {}⟩,
        ⟨tradedOrder .sell 120 2, {}⟩] := rfl
    rw [hpopped, List.mem_cons, List.mem_cons, List.mem_singleton] at he
    obtain rfl | rfl | rfl := he
    · exact ⟨rfl, .inl rfl⟩
    · exact ⟨rfl, .inr ⟨rfl, rfl, rfl⟩⟩
    · exact ⟨rfl, .inl rfl⟩
  have hsum : ((poppedByAll threeFills).map fun e => executed 0 0 e.order).sum = 4 := rfl
  have hposition := (netPosition_eq_sum honce hrun 0 0).1
  rw [hsum] at hposition
  exact ⟨hrun, hsum, hposition⟩

end TradingEngine
