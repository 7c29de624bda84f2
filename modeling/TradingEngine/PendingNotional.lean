/-
The pending notional of a symbol over the life of an order.

`update_symbol_risk` keeps `pending_notional_scaled` by four increments and a
clamp at zero: the notional of a New with the sign of the side, the value of a
fill against it, the replaced amount of a cancel or a replace without a sign.

* `pending_ownSymbolRisk` — the increment of each report;
* `pending_finishes_buy`, `pending_finishes_sell` — what is left at the end of a
  life: the clamp never acts on a buy that fits into 64 bits, a sell is first
  clamped, then added back fill by fill, and its cancelled rest is taken off once
  more;
* `pending_conserved_iff` — so the life of an order gives back what it found
  exactly under `Conserves`.
-/
import TradingEngine.PositionPnl

namespace TradingEngine

open FallibleRun RiskEngine

/-! ### One report -/

/-- The clamp at the end of `update_symbol_risk`. -/
def clampZero (x : Int64) : Int64 := if x < 0 then 0 else x

/-- The increment of a report. -/
def pendingMove (o : Order) : Int64 :=
  let m := OrderMetrics.ofOrder o
  match o.status with
  | .new => if 0 < o.price then m.notional * m.sideMult else 0
  | .partialFill | .filled => -(m.nominal * m.sideMult)
  | .cancelled | .deleted | .replaced => if 0 < o.price then m.replaced else 0
  | .unknown | .expired | .cancelRequest => 0

variable {acc acc' : AccountRisk} {sym sym' : SymbolRisk} {o : Order}

theorem pending_addReplaced (sym : SymbolRisk) (o : Order) :
    (sym.addReplaced o (OrderMetrics.ofOrder o)).pendingNotionalScaled =
      sym.pendingNotionalScaled + if 0 < o.price then (OrderMetrics.ofOrder o).replaced else 0 := by
  rw [SymbolRisk.addReplaced]
  split
  · rfl
  · show sym.pendingNotionalScaled = _ + 0
    grind

/-- **The pending notional after a report** that is not a repeated cancel. -/
theorem pending_ownSymbolRisk (hfirst : ¬1 < o.cancelledCount)
    (h : ownSymbolRisk acc sym o (OrderMetrics.ofOrder o) = .ok (acc', sym')) :
    sym'.pendingNotionalScaled = clampZero (sym.pendingNotionalScaled + pendingMove o) := by
  rw [pendingMove]
  by_cases hfill : o.IsFill
  · obtain ⟨count, filled, hfilled, rfl⟩ := ownSymbolRisk_of_fill hfill h
    obtain ⟨_, _, _, _, _, _, -, rfl⟩ := applyFill_eq_ok hfilled
    obtain hs | hs := hfill
    · rw [hs]
      show clampZero (sym.pendingNotionalScaled - _) = _
      rw [Int64.sub_eq_add_neg]
    · rw [hs]
      show clampZero (sym.pendingNotionalScaled - _) = _
      rw [Int64.sub_eq_add_neg]
  · rw [ownSymbolRisk] at h
    cases hs : o.status with
    | partialFill => exact absurd (.inl hs) hfill
    | filled => exact absurd (.inr hs) hfill
    | new =>
      rw [hs] at h
      obtain ⟨-, rfl⟩ := Prod.mk.inj (Except.ok.inj h)
      show clampZero (if 0 < o.price then _ else _) = clampZero (_ + if 0 < o.price then _ else 0)
      split
      · rfl
      · refine congrArg clampZero ?_
        grind
    | cancelled | deleted =>
      rw [hs] at h
      dsimp only at h
      rw [if_neg hfirst] at h
      obtain ⟨-, rfl⟩ := Prod.mk.inj (Except.ok.inj h)
      show clampZero (SymbolRisk.addReplaced _ _ _).pendingNotionalScaled = _
      rw [pending_addReplaced]
    | replaced =>
      rw [hs] at h
      obtain ⟨-, rfl⟩ := Prod.mk.inj (Except.ok.inj h)
      show clampZero (SymbolRisk.addReplaced _ _ _).pendingNotionalScaled = _
      rw [pending_addReplaced]
    | unknown | expired | cancelRequest =>
      -- nothing moves, but the clamp is taken all the same
      rw [hs] at h
      obtain ⟨-, rfl⟩ := Prod.mk.inj (Except.ok.inj h)
      show clampZero sym.pendingNotionalScaled = clampZero (_ + 0)
      refine congrArg clampZero ?_
      grind

/-! ### The life of an order -/

/-- The reports of an own limit order of one side and price after its New: fills
of the open quantity, ended by the fill of the last of it or by a cancel of the
rest.  `Finishes side p r f os` has `r` open at first and fills `f` of it. -/
inductive Finishes (side : Side) (p : Int64) : ℕ → ℕ → List Order → Prop
  | filled {r : ℕ} {o : Order} (hown : o.isOurOrder = true) (hside : o.side = side)
      (hprice : o.price = p) (hstatus : o.status = .filled) (hfirst : ¬1 < o.cancelledCount)
      (hlast : o.lastExecQuantity.toNat = r) : Finishes side p r r [o]
  | cancelled {r : ℕ} {o : Order} (hown : o.isOurOrder = true) (hside : o.side = side)
      (hprice : o.price = p) (hstatus : o.status = .cancelled ∨ o.status = .deleted)
      (hfirst : ¬1 < o.cancelledCount) (hrest : o.replacedQuantity.toInt = -r) :
      Finishes side p r 0 [o]
  | part {r f : ℕ} {o : Order} {os : List Order} (hown : o.isOurOrder = true)
      (hside : o.side = side) (hprice : o.price = p) (hstatus : o.status = .partialFill)
      (hfirst : ¬1 < o.cancelledCount) (hopen : o.lastExecQuantity.toNat ≤ r)
      (hrest : Finishes side p (r - o.lastExecQuantity.toNat) f os) :
      Finishes side p r (o.lastExecQuantity.toNat + f) (o :: os)

/-- A complete life: New for `q` at `p`, of which `f` is filled. -/
def Lifecycle (side : Side) (p : Int64) (q : UInt32) (f : ℕ) (os : List Order) : Prop :=
  ∃ o rest, os = o :: rest ∧ o.isOurOrder = true ∧ o.side = side ∧ o.price = p ∧
    o.status = .new ∧ o.orderType = .limit ∧ ¬1 < o.cancelledCount ∧ o.quantity = q ∧
    Finishes side p q.toNat f rest

/-- One report through `update_symbol_risk`. -/
def symbolReport (mb : MarketBook) (s : AccountRisk × SymbolRisk) (o : Order) :
    Except Fault (AccountRisk × SymbolRisk) :=
  symbolRisk s.1 s.2 mb o (OrderMetrics.ofOrder o)

/-! ### Amounts that fit -/

theorem toInt_clampZero (x : Int64) : (clampZero x).toInt = max 0 x.toInt := by
  rw [clampZero]
  split
  · rename_i hneg
    rw [Int64.lt_iff_toInt_lt, Int64.toInt_zero] at hneg
    rw [Int64.toInt_zero, max_eq_left hneg.le]
  · rename_i hpos
    rw [Int64.lt_iff_toInt_lt, Int64.toInt_zero, not_lt] at hpos
    rw [max_eq_right hpos]

theorem toInt_add_of_fits {a b : Int64} (hlow : -2 ^ 63 ≤ a.toInt + b.toInt)
    (hhigh : a.toInt + b.toInt < 2 ^ 63) : (a + b).toInt = a.toInt + b.toInt := by
  rw [← Int64.toInt_ofInt_of_le hlow hhigh, Int64.ofInt_add, Int64.ofInt_toInt, Int64.ofInt_toInt]

theorem toInt_mul_of_fits {a b : Int64} (hlow : -2 ^ 63 ≤ a.toInt * b.toInt)
    (hhigh : a.toInt * b.toInt < 2 ^ 63) : (a * b).toInt = a.toInt * b.toInt := by
  rw [← Int64.toInt_ofInt_of_le hlow hhigh, Int64.ofInt_mul, Int64.ofInt_toInt, Int64.ofInt_toInt]

theorem toInt_mul_sideMult {x : Int64} (hpos : 0 ≤ x.toInt) :
    (x * (OrderMetrics.ofOrder o).sideMult).toInt = signed o.side x.toInt := by
  have hlt := x.toInt_lt
  rw [OrderMetrics.ofOrder, signed]
  dsimp only
  split
  · rw [toInt_mul_of_fits] <;> rw [show (1 : Int64).toInt = 1 from rfl] <;> omega
  · rw [toInt_mul_of_fits] <;> rw [show (-1 : Int64).toInt = -1 from rfl] <;> omega

variable {p : Int64}

/-- The increment of a fill. -/
theorem toInt_pendingMove_fill (hfill : o.IsFill) (hpos : 0 < p.toInt) (hprice : o.price = p)
    (hfits : p.toInt * o.lastExecQuantity.toNat < 2 ^ 63) :
    (pendingMove o).toInt = -signed o.side (p.toInt * o.lastExecQuantity.toNat) := by
  have hnonneg : 0 ≤ p.toInt * o.lastExecQuantity.toNat := by positivity
  have hnominal : (OrderMetrics.ofOrder o).nominal.toInt =
      p.toInt * o.lastExecQuantity.toNat := by
    rw [OrderMetrics.ofOrder]
    dsimp only
    rw [toInt_mul_of_fits] <;> rw [UInt32.toInt_toInt64, hprice]
    · omega
    · exact hfits
  have hmove : pendingMove o =
      -((OrderMetrics.ofOrder o).nominal * (OrderMetrics.ofOrder o).sideMult) := by
    rw [pendingMove]
    obtain hs | hs := hfill <;> rw [hs]
  have hsigned := toInt_mul_sideMult (o := o) (x := (OrderMetrics.ofOrder o).nominal)
    (by rw [hnominal]; exact hnonneg)
  rw [hnominal] at hsigned
  rw [hmove, ← hsigned]
  have hrange : -2 ^ 63 < ((OrderMetrics.ofOrder o).nominal *
      (OrderMetrics.ofOrder o).sideMult).toInt := by
    rw [hsigned, signed]
    split <;> omega
  rw [Int64.toInt_neg, Int.bmod_eq_of_le]
  · have := Int64.toInt_lt ((OrderMetrics.ofOrder o).nominal * (OrderMetrics.ofOrder o).sideMult)
    omega
  · omega

/-- The increment of a cancel of `r`, which has no side. -/
theorem toInt_pendingMove_cancel {r : ℕ} (hstatus : o.status = .cancelled ∨ o.status = .deleted)
    (hpos : 0 < p.toInt) (hprice : o.price = p) (hrest : o.replacedQuantity.toInt = -r)
    (hfits : p.toInt * r < 2 ^ 63) : (pendingMove o).toInt = -(p.toInt * r) := by
  have hpriced : 0 < o.price := by
    rw [hprice, Int64.lt_iff_toInt_lt]
    exact hpos
  have hmove : pendingMove o = (OrderMetrics.ofOrder o).replaced := by
    rw [pendingMove]
    obtain hs | hs := hstatus
    · rw [hs]
      exact if_pos hpriced
    · rw [hs]
      exact if_pos hpriced
  have hnonneg : 0 ≤ p.toInt * r := by positivity
  rw [hmove, OrderMetrics.ofOrder]
  dsimp only
  have hneg : p.toInt * -(r : ℤ) = -(p.toInt * r) := by ring
  rw [toInt_mul_of_fits] <;> rw [Int32.toInt_toInt64, hprice, hrest, hneg]
  · omega
  · omega

/-- The increment of a New. -/
theorem toInt_pendingMove_new (hstatus : o.status = .new) (hpos : 0 < p.toInt)
    (hprice : o.price = p) (hfits : p.toInt * o.quantity.toNat < 2 ^ 63) :
    (pendingMove o).toInt = signed o.side (p.toInt * o.quantity.toNat) := by
  have hpriced : 0 < o.price := by
    rw [hprice, Int64.lt_iff_toInt_lt]
    exact hpos
  have hnonneg : 0 ≤ p.toInt * o.quantity.toNat := by positivity
  have hnotional : (OrderMetrics.ofOrder o).notional.toInt = p.toInt * o.quantity.toNat := by
    rw [OrderMetrics.ofOrder]
    dsimp only
    rw [toInt_mul_of_fits] <;> rw [UInt32.toInt_toInt64, hprice]
    · omega
    · exact hfits
  have hmove : pendingMove o =
      (OrderMetrics.ofOrder o).notional * (OrderMetrics.ofOrder o).sideMult := by
    rw [pendingMove, hstatus]
    exact if_pos hpriced
  rw [hmove, toInt_mul_sideMult (by rw [hnotional]; exact hnonneg), hnotional]

/-! ### From New to the end -/

variable {mb : MarketBook} {s s' : AccountRisk × SymbolRisk} {os : List Order} {r f : ℕ}

/-- The pending notional after a report, as an integer. -/
theorem toInt_pending_symbolReport (hown : o.isOurOrder = true) (hfirst : ¬1 < o.cancelledCount)
    (hlow : -2 ^ 63 ≤ s.2.pendingNotionalScaled.toInt + (pendingMove o).toInt)
    (hhigh : s.2.pendingNotionalScaled.toInt + (pendingMove o).toInt < 2 ^ 63)
    (h : symbolReport mb s o = .ok s') :
    s'.2.pendingNotionalScaled.toInt =
      max 0 (s.2.pendingNotionalScaled.toInt + (pendingMove o).toInt) := by
  rw [symbolReport, symbolRisk, if_pos hown] at h
  rw [pending_ownSymbolRisk hfirst h, toInt_clampZero, toInt_add_of_fits hlow hhigh]

/-- What is open is at most what fits. -/
theorem mul_le_of_open {t : ℕ} (hpos : 0 < p.toInt) (hopen : t ≤ r) :
    p.toInt * t ≤ p.toInt * r := by
  have hcast : (t : ℤ) ≤ r := by exact_mod_cast hopen
  exact mul_le_mul_of_nonneg_left hcast hpos.le

/-- A report that takes an amount off: what was above it stays, and nothing stays
nothing. -/
theorem pending_takenOff {x : ℤ} (hown : o.isOurOrder = true) (hfirst : ¬1 < o.cancelledCount)
    (hmove : (pendingMove o).toInt = -x) (hnonneg : 0 ≤ x) (hfits : x < 2 ^ 63)
    (h : symbolReport mb s o = .ok s') :
    (∀ P : ℤ, 0 ≤ P → s.2.pendingNotionalScaled.toInt = P + x →
      s'.2.pendingNotionalScaled.toInt = P) ∧
    (s.2.pendingNotionalScaled.toInt = 0 → s'.2.pendingNotionalScaled.toInt = 0) := by
  have hlt := s.2.pendingNotionalScaled.toInt_lt
  constructor
  · intro P hP hstart
    rw [toInt_pending_symbolReport hown hfirst (by omega) (by omega) h]
    omega
  · intro hzero
    rw [toInt_pending_symbolReport hown hfirst (by omega) (by omega) h]
    omega

/-- A buy gives back what its New has added, unless that has been clamped away:
then nothing is left. -/
theorem pending_finishes_buy (hpos : 0 < p.toInt) (hlife : Finishes .buy p r f os)
    (hfits : p.toInt * r < 2 ^ 63) (hrun : exec (symbolReport mb) s os = .ok s') :
    (∀ P : ℤ, 0 ≤ P → s.2.pendingNotionalScaled.toInt = P + p.toInt * r →
      s'.2.pendingNotionalScaled.toInt = P) ∧
    (s.2.pendingNotionalScaled.toInt = 0 → s'.2.pendingNotionalScaled.toInt = 0) := by
  induction hlife generalizing s with
  | @filled r o hown hside hprice hstatus hfirst hlast =>
    obtain ⟨s₁, hstep, hnil⟩ := exec_cons_eq_ok_iff.mp hrun
    rw [exec_nil, Except.ok.injEq] at hnil
    subst hnil
    have hmove := toInt_pendingMove_fill (.inr hstatus) hpos hprice (by rw [hlast]; exact hfits)
    rw [hside, hlast, signed, if_pos rfl] at hmove
    exact pending_takenOff hown hfirst hmove (by positivity) hfits hstep
  | @cancelled r o hown hside hprice hstatus hfirst hrest =>
    obtain ⟨s₁, hstep, hnil⟩ := exec_cons_eq_ok_iff.mp hrun
    rw [exec_nil, Except.ok.injEq] at hnil
    subst hnil
    have hmove := toInt_pendingMove_cancel hstatus hpos hprice hrest hfits
    exact pending_takenOff hown hfirst hmove (by positivity) hfits hstep
  | @part r f o os hown hside hprice hstatus hfirst hopen _ ih =>
    obtain ⟨s₁, hstep, hrest⟩ := exec_cons_eq_ok_iff.mp hrun
    have hle := mul_le_of_open hpos hopen
    have hmove := toInt_pendingMove_fill (.inl hstatus) hpos hprice (by omega)
    rw [hside, signed, if_pos rfl] at hmove
    have hrestOpen : p.toInt * ((r - o.lastExecQuantity.toNat : ℕ) : ℤ) =
        p.toInt * r - p.toInt * o.lastExecQuantity.toNat := by
      rw [Nat.cast_sub hopen]
      ring
    have hnonneg : 0 ≤ p.toInt * o.lastExecQuantity.toNat := by positivity
    obtain ⟨hback, hgone⟩ := ih (by omega) hrest
    obtain ⟨htaken, hnone⟩ := pending_takenOff hown hfirst hmove hnonneg (by omega) hstep
    constructor
    · intro P hP hstart
      -- the rest of the order stays above `P`
      exact hback P hP (htaken _ (by omega) (by omega))
    · intro hzero
      exact hgone (hnone hzero)

/-- Not more is filled than is open. -/
theorem filled_le_of_finishes {side : Side} (hlife : Finishes side p r f os) : f ≤ r := by
  induction hlife with
  | filled => exact le_rfl
  | cancelled => exact Nat.zero_le _
  | part _ _ _ _ _ hopen _ ih => omega

/-- A sell adds its fills and takes off its cancelled rest. -/
theorem pending_finishes_sell {side : Side} (hsell : side ≠ .buy) (hpos : 0 < p.toInt)
    (hlife : Finishes side p r f os) (hrun : exec (symbolReport mb) s os = .ok s')
    (hnonneg : 0 ≤ s.2.pendingNotionalScaled.toInt)
    (hfits : s.2.pendingNotionalScaled.toInt + p.toInt * r < 2 ^ 63) :
    s'.2.pendingNotionalScaled.toInt =
      max 0 (s.2.pendingNotionalScaled.toInt + p.toInt * (2 * f - r)) := by
  induction hlife generalizing s with
  | @filled r o hown hside hprice hstatus hfirst hlast =>
    obtain ⟨s₁, hstep, hnil⟩ := exec_cons_eq_ok_iff.mp hrun
    rw [exec_nil, Except.ok.injEq] at hnil
    subst hnil
    have hmove := toInt_pendingMove_fill (.inr hstatus) hpos hprice (by rw [hlast]; omega)
    rw [hside, hlast, signed, if_neg hsell, neg_neg] at hmove
    have hvalue : 0 ≤ p.toInt * r := by positivity
    have hall : p.toInt * (2 * (r : ℤ) - r) = p.toInt * r := by ring
    rw [toInt_pending_symbolReport hown hfirst (by omega) (by omega) hstep, hmove, hall]
  | @cancelled r o hown hside hprice hstatus hfirst hrest =>
    obtain ⟨s₁, hstep, hnil⟩ := exec_cons_eq_ok_iff.mp hrun
    rw [exec_nil, Except.ok.injEq] at hnil
    subst hnil
    have hmove := toInt_pendingMove_cancel hstatus hpos hprice hrest (by omega)
    have hvalue : 0 ≤ p.toInt * r := by positivity
    have hnone : p.toInt * (2 * ((0 : ℕ) : ℤ) - r) = -(p.toInt * r) := by
      push_cast
      ring
    rw [toInt_pending_symbolReport hown hfirst (by omega) (by omega) hstep, hmove, hnone]
  | @part r f o os hown hside hprice hstatus hfirst hopen _ ih =>
    -- a partial fill, then the life of what is still open
    obtain ⟨s₁, hstep, hrest⟩ := exec_cons_eq_ok_iff.mp hrun
    have hle := mul_le_of_open hpos hopen
    have hmove := toInt_pendingMove_fill (.inl hstatus) hpos hprice (by omega)
    rw [hside, signed, if_neg hsell, neg_neg] at hmove
    have hvalue : 0 ≤ p.toInt * o.lastExecQuantity.toNat := by positivity
    have hrestOpen : p.toInt * ((r - o.lastExecQuantity.toNat : ℕ) : ℤ) =
        p.toInt * r - p.toInt * o.lastExecQuantity.toNat := by
      rw [Nat.cast_sub hopen]
      ring
    have hpending := toInt_pending_symbolReport hown hfirst (by omega) (by omega) hstep
    rw [hmove, max_eq_right (by omega)] at hpending
    have hend := ih hrest (by omega) (by omega)
    have hsum : p.toInt * (2 * (f : ℤ) - ((r - o.lastExecQuantity.toNat : ℕ) : ℤ)) =
        p.toInt * (2 * ((o.lastExecQuantity.toNat + f : ℕ) : ℤ) - r) -
          p.toInt * o.lastExecQuantity.toNat := by
      rw [Nat.cast_sub hopen]
      push_cast
      ring
    rw [hend, hpending, hsum]
    congr 1
    omega

/-- The lives that give the pending notional `P` back.  A buy does when its New
fits; a sell when it was covered by `P` and filled, or when it was clamped and
its fills less its cancelled rest happen to come to `P`. -/
def Conserves (side : Side) (p : Int64) (q : UInt32) (f : ℕ) (P : Int64) : Prop :=
  if side = .buy then P.toInt + p.toInt * q.toNat < 2 ^ 63
  else (p.toInt * q.toNat ≤ P.toInt ∧ f = q.toNat) ∨
    (P.toInt < p.toInt * q.toNat ∧ P.toInt = max 0 (p.toInt * (2 * f - q.toNat)))

/-- What a New leaves pending. -/
theorem toInt_pending_new {side : Side} {q : UInt32} (hpos : 0 < p.toInt)
    (hP : 0 ≤ s.2.pendingNotionalScaled.toInt) (hfits : p.toInt * q.toNat < 2 ^ 63)
    (hown : o.isOurOrder = true) (hside : o.side = side) (hprice : o.price = p)
    (hstatus : o.status = .new) (hfirst : ¬1 < o.cancelledCount) (hquantity : o.quantity = q)
    (h : symbolReport mb s o = .ok s') :
    s'.2.pendingNotionalScaled.toInt =
      if side = .buy then
        if s.2.pendingNotionalScaled.toInt + p.toInt * q.toNat < 2 ^ 63 then
          s.2.pendingNotionalScaled.toInt + p.toInt * q.toNat
        else 0
      else max 0 (s.2.pendingNotionalScaled.toInt - p.toInt * q.toNat) := by
  have hmove := toInt_pendingMove_new hstatus hpos hprice (by rw [hquantity]; exact hfits)
  rw [hside, hquantity] at hmove
  have hvalue : 0 ≤ p.toInt * q.toNat := by positivity
  have hlt := s.2.pendingNotionalScaled.toInt_lt
  by_cases hbuy : side = .buy
  · rw [if_pos hbuy]
    rw [signed, if_pos hbuy] at hmove
    by_cases hsum : s.2.pendingNotionalScaled.toInt + p.toInt * q.toNat < 2 ^ 63
    · rw [if_pos hsum, toInt_pending_symbolReport hown hfirst (by omega) (by omega) h]
      omega
    · -- the sum wraps to a negative value and is clamped
      rw [if_neg hsum]
      rw [symbolReport, symbolRisk, if_pos hown] at h
      rw [pending_ownSymbolRisk hfirst h, toInt_clampZero, Int64.toInt_add, hmove]
      refine max_eq_left ?_
      rw [Int.bmod_def]
      split <;> omega
  · rw [if_neg hbuy]
    rw [signed, if_neg hbuy] at hmove
    rw [toInt_pending_symbolReport hown hfirst (by omega) (by omega) h, hmove]
    rfl

/-- **When the pending notional is conserved.**  For every life of an own limit
order whose notional fits into 64 bits, with no other order in between, the
pending notional of the symbol is afterwards what it was before exactly when the
life `Conserves` it. -/
theorem pending_conserved_iff {side : Side} {q : UInt32} (hpos : 0 < p)
    (hP : 0 ≤ s.2.pendingNotionalScaled) (hfits : p.toInt * q.toNat < 2 ^ 63)
    (hlife : Lifecycle side p q f os) (hrun : exec (symbolReport mb) s os = .ok s') :
    s'.2.pendingNotionalScaled = s.2.pendingNotionalScaled ↔
      Conserves side p q f s.2.pendingNotionalScaled := by
  obtain ⟨o, rest, rfl, hown, hside, hprice, hstatus, -, hfirst, hquantity, hfinishes⟩ := hlife
  obtain ⟨s₁, hnew, hrest⟩ := exec_cons_eq_ok_iff.mp hrun
  rw [Int64.lt_iff_toInt_lt, Int64.toInt_zero] at hpos
  rw [Int64.le_iff_toInt_le, Int64.toInt_zero] at hP
  have hpending := toInt_pending_new hpos hP hfits hown hside hprice hstatus hfirst hquantity hnew
  have hvalue : 0 ≤ p.toInt * q.toNat := by positivity
  rw [← Int64.toInt_inj, Conserves]
  by_cases hbuy : side = .buy
  · subst hbuy
    rw [if_pos rfl] at hpending ⊢
    obtain ⟨hback, hgone⟩ := pending_finishes_buy hpos hfinishes hfits hrest
    by_cases hsum : s.2.pendingNotionalScaled.toInt + p.toInt * q.toNat < 2 ^ 63
    · rw [if_pos hsum] at hpending
      exact ⟨fun _ => hsum, fun _ => hback _ hP hpending⟩
    · rw [if_neg hsum] at hpending
      rw [hgone hpending]
      omega
  · rw [if_neg hbuy] at hpending ⊢
    have hlt := s.2.pendingNotionalScaled.toInt_lt
    have hend := pending_finishes_sell hbuy hpos hfinishes hrest (by omega) (by omega)
    rw [hend, hpending]
    have hfilled := filled_le_of_finishes hfinishes
    have hsplit : p.toInt * (2 * f - q.toNat) =
        p.toInt * q.toNat - 2 * (p.toInt * (q.toNat - f)) := by ring
    have hrest0 : 0 ≤ p.toInt * (q.toNat - f) ∧
        (p.toInt * ((q.toNat : ℤ) - f) = 0 ↔ f = q.toNat) := by
      have hopen : (0 : ℤ) ≤ q.toNat - f := by omega
      refine ⟨mul_nonneg hpos.le hopen, ?_⟩
      rw [mul_eq_zero]
      omega
    have hrestLe : p.toInt * ((q.toNat : ℤ) - f) ≤ p.toInt * q.toNat :=
      mul_le_mul_of_nonneg_left (by omega) hpos.le
    rw [hsplit]
    generalize p.toInt * ((q.toNat : ℤ) - f) = c at hrest0 hrestLe ⊢
    generalize p.toInt * (q.toNat : ℤ) = n at hvalue hrestLe ⊢
    omega

/-- A limit order for ten at 100 as its New report leaves it. -/
def newTen (side : Side) : Order := { tradedOrder side 100 0 with status := .new }

/-- Its cancel with `rest` open. -/
def cancelTen (side : Side) (rest : Int32) : Order :=
  { tradedOrder side 100 0 with
    status := .cancelled, remainingQuantity := 0, replacedQuantity := -rest, cancelledCount := 1 }

/-- Ten ordered, four filled, the rest cancelled. -/
def partlyFilled (side : Side) : List Order :=
  [newTen side, tradedOrder side 100 4, cancelTen side 6]

/-- The account and a symbol with the given pending notional, after some reports. -/
def afterReports (pending : Int64) (os : List Order) : AccountRisk × SymbolRisk :=
  (exec (symbolReport {}) ({}, { pendingNotionalScaled := pending }) os).toOption.getD ({}, {})

theorem lifecycle_partlyFilled (side : Side) :
    Lifecycle side 100 10 4 (partlyFilled side) := by
  have hzero : ¬(1 : UInt8) < 0 := by decide
  have hone : ¬(1 : UInt8) < 1 := by decide
  have hopen : (4 : UInt32).toNat ≤ (10 : UInt32).toNat := by decide
  refine ⟨newTen side, _, rfl, rfl, rfl, rfl, rfl, rfl, hzero, rfl, ?_⟩
  exact Finishes.part (o := tradedOrder side 100 4) rfl rfl rfl rfl hzero hopen
    (Finishes.cancelled (o := cancelTen side 6) rfl rfl rfl (.inl rfl) hone rfl)

theorem pending_conserved_iff_partlyFilled :
    exec (symbolReport {}) ({}, { pendingNotionalScaled := 70 }) (partlyFilled .buy) =
        .ok (afterReports 70 (partlyFilled .buy)) ∧
      (afterReports 70 (partlyFilled .buy)).2.pendingNotionalScaled = 70 := by
  have hrun : exec (symbolReport {}) ({}, { pendingNotionalScaled := 70 }) (partlyFilled .buy) =
      .ok (afterReports 70 (partlyFilled .buy)) := rfl
  have hiff := pending_conserved_iff (p := 100) (q := 10) (by decide) (by decide) (by decide)
    (lifecycle_partlyFilled .buy) hrun
  refine ⟨hrun, hiff.mpr ?_⟩
  rw [Conserves, if_pos rfl]
  decide

/-- A sell for ten at 100, filled at once. -/
def soldTen : List Order := [newTen .sell, { tradedOrder .sell 100 10 with status := .filled }]

/-- **A sell does not give the pending notional back.**  Without any pending the
New is clamped and its fill counts the other way; with enough of it, a cancelled
sell is taken off twice. -/
theorem sell_not_conserved :
    (Lifecycle .sell 100 10 10 soldTen ∧
      exec (symbolReport {}) ({}, { pendingNotionalScaled := 0 }) soldTen =
        .ok (afterReports 0 soldTen) ∧
      (afterReports 0 soldTen).2.pendingNotionalScaled = 1000) ∧
    (Lifecycle .sell 100 10 4 (partlyFilled .sell) ∧
      exec (symbolReport {}) ({}, { pendingNotionalScaled := 5000 }) (partlyFilled .sell) =
        .ok (afterReports 5000 (partlyFilled .sell)) ∧
      (afterReports 5000 (partlyFilled .sell)).2.pendingNotionalScaled = 3800) := by
  refine ⟨⟨?_, rfl, rfl⟩, lifecycle_partlyFilled .sell, rfl, rfl⟩
  refine ⟨newTen .sell, _, rfl, rfl, rfl, rfl, rfl, rfl, by decide, rfl, ?_⟩
  exact Finishes.filled rfl rfl rfl rfl (by decide) rfl

end TradingEngine
