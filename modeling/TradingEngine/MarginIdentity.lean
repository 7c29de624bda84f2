/-
Margin and exposure of many orders at constant prices.

Any number of own BIST OUCH orders, each with a side and a price of its own, get
their reports in any interleaving.  A report is first filled into the order, then
applied to the account before the order's next report; between the two, other
orders may get theirs.  A `MarginDesk` therefore keeps, beside the orders, each
of them as `update_account_risk` last saw it.

* `moves_of_reported` — for one order, the report moves the margin by price times
  the change of `remaining_quantity` and the exposure by the change of
  `filled_quantity` plus `remaining_quantity`, with the sign of the side;
* `margin_identity` — so in every state of every such run the margin is the sum
  of price times remaining quantity, and the exposure that of side times price
  times filled and remaining quantity, over the orders.
-/
import TradingEngine.MarginLife

namespace TradingEngine

open FallibleRun RiskEngine

/-! ### The desk -/

/-- The orders, each as the account last saw it, those with a report not yet
applied, and the account. -/
structure MarginDesk (ι : Type) where
  orders : ι → Order
  seen : ι → Option Order
  waiting : ι → Bool
  acc : AccountRisk

inductive MarginEvent (ι : Type)
  /-- `FillerOUCH_BIST` on a message about an order. -/
  | report (k : ι) (msg : BistReport)
  /-- `update_account_risk` on an order. -/
  | apply (k : ι)

namespace MarginDesk

variable {ι : Type} [DecidableEq ι]

def step (lim : AccountLimit) (d : MarginDesk ι) : MarginEvent ι → Except Fault (MarginDesk ι)
  | .report k msg => .ok { d with
      orders := Function.update d.orders k (msg.fill (d.orders k))
      waiting := Function.update d.waiting k true }
  | .apply k =>
    (updateAccountRisk d.acc lim (d.orders k) (OrderMetrics.ofOrder (d.orders k))).map fun acc =>
      { d with
        seen := Function.update d.seen k (some (d.orders k))
        waiting := Function.update d.waiting k false
        acc := acc }

end MarginDesk

/-! ### One order -/

/-- A message that an order of price `p` can get next: Accepted first, then
Replaced and Executed at the price of the order, and one Cancelled at the end;
quantities stay below 2^31. -/
def InTerms (p : Int64) (side : Side) (seen : Option Order) : BistReport → Prop
  | .accepted msg => seen = none ∧ msg.price.toInt64 = p ∧ msg.quantity.toNat < 2 ^ 31
  | .replaced msg => ∃ o, seen = some o ∧ o.cancelledCount = 0 ∧ msg.orderState ≠ 2 ∧
      msg.price.toInt64 = p ∧ sideOfChar msg.side = side ∧ msg.quantity.toNat < 2 ^ 31
  | .executed msg => ∃ o, seen = some o ∧ o.cancelledCount = 0 ∧ msg.tradePrice.toInt64 = p ∧
      msg.tradedQuantity.toNat ≤ o.remainingQuantity.toNat ∧
      o.filledQuantity.toNat + msg.tradedQuantity.toNat < 2 ^ 31
  | .cancelled _ => ∃ o, seen = some o ∧ o.cancelledCount = 0

/-- An order with no report waiting: fresh, or as the account saw it. -/
def Steady (p : Int64) (side : Side) (o : Order) : Option Order → Prop
  | none => o.filledQuantity = 0 ∧ o.cancelledCount = 0 ∧ o.side = side
  | some x => x = o ∧ o.price = p ∧ o.side = side ∧ o.remainingQuantity.toNat < 2 ^ 31

/-- An order with one report waiting. -/
def Reported (p : Int64) (side : Side) (seen : Option Order) (o : Order) : Prop :=
  ∃ before msg, Steady p side before seen ∧ InTerms p side seen msg ∧ o = msg.fill before

/-- The margin of an order the account has seen. -/
def marginOf (p : Int64) : Option Order → ℤ
  | none => 0
  | some o => p.toInt * o.remainingQuantity.toNat

/-- Its exposure. -/
def exposureOf (p : Int64) (side : Side) : Option Order → ℤ
  | none => 0
  | some o => signed side (p.toInt * (o.filledQuantity.toNat + o.remainingQuantity.toNat))

variable {p : Int64} {side : Side} {seen : Option Order} {o : Order}

theorem signed_sub (side : Side) (a b : ℤ) :
    signed side a - signed side b = signed side (a - b) := by
  rw [signed, signed, signed]
  split <;> ring

theorem not_isFill {s : Status} (hs : o.status = s) (hne : s ≠ .partialFill ∧ s ≠ .filled) :
    ¬o.IsFill := by
  rintro (h | h)
  · exact hne.1 (hs.symm.trans h)
  · exact hne.2 (hs.symm.trans h)

/-- The margin and the exposure that a report moves, and the order it leaves. -/
structure Moves (p : Int64) (side : Side) (seen : Option Order) (o : Order) : Prop where
  margin : marginMove o = Int64.ofInt (marginOf p (some o) - marginOf p seen)
  exposure : exposureMove o = Int64.ofInt (exposureOf p side (some o) - exposureOf p side seen)
  steady : Steady p side o (some o)

theorem toNat_toUInt32_of_lt {n : UInt64} (h : n.toNat < 2 ^ 31) : n.toUInt32.toNat = n.toNat := by
  rw [UInt64.toNat_toUInt32, Nat.mod_eq_of_lt (by omega)]

theorem moves_accepted (hpos : 0 < p) {msg : Bist.OuchAccepted} {before : Order}
    (hsteady : Steady p side before none) (hprice : msg.price.toInt64 = p)
    (hquantity : msg.quantity.toNat < 2 ^ 31) :
    Moves p side none (BistReport.fill before (.accepted msg)) := by
  obtain ⟨hfilled, -, hside⟩ := hsteady
  have hopens : Opens (BistReport.fill before (.accepted msg)) := by
    refine ⟨?_, rfl, rfl⟩
    show 0 < msg.price.toInt64
    rw [hprice]
    exact hpos
  have hmargin : marginMove (BistReport.fill before (.accepted msg)) =
      Int64.ofInt (p.toInt * msg.quantity.toUInt32.toNat) := by
    rw [marginMove_opens hopens, ← hprice]
    rfl
  refine ⟨?_, ?_, rfl, hprice, hside, ?_⟩
  · rw [hmargin, marginOf, marginOf, sub_zero]
    rfl
  · rw [exposureMove, if_neg (not_isFill (s := .new) rfl (by decide)), hmargin,
      ofInt_mul_sideMult]
    show Int64.ofInt (signed before.side _) = Int64.ofInt (signed side (p.toInt *
      (before.filledQuantity.toNat + msg.quantity.toUInt32.toNat)) - 0)
    rw [hfilled, hside, sub_zero]
    refine congrArg (fun n => Int64.ofInt (signed side n)) ?_
    show _ = p.toInt * ((0 : ℕ) + _)
    ring
  · show msg.quantity.toUInt32.toNat < 2 ^ 31
    rw [toNat_toUInt32_of_lt hquantity]
    exact hquantity

/-- A report that is not a fill, keeps price and side and holds the change of the
remaining quantity in `replaced_quantity`. -/
theorem moves_of_carry {before : Order} (hpos : 0 < p) (hbefore : before.price = p)
    (hprice : o.price = p) (hside : o.side = side) (hsmall : o.remainingQuantity.toNat < 2 ^ 31)
    (hstatus : o.status = .replaced ∨ IsCancel o) (hfirst : ¬1 < o.cancelledCount)
    (hfilled : o.filledQuantity = before.filledQuantity) (hcarry : carry before o = 0) :
    Moves p side (some before) o := by
  have hcont : Continues before o := by
    rw [Continues, hprice]
    exact ⟨hpos, .inr (hstatus.imp id fun h => ⟨h, hbefore.symm⟩)⟩
  have hfill : ¬o.IsFill := by
    obtain hs | hs | hs | hs := hstatus
    · exact not_isFill hs (by decide)
    · exact not_isFill hs (by decide)
    · exact not_isFill hs (by decide)
    · exact not_isFill hs (by decide)
  have hslip : slip before o = 0 := by
    rw [slip, hbefore, hprice, hcarry, if_neg hfill, if_neg fun h => hfirst h.2]
    ring
  have hmargin : marginMove o =
      Int64.ofInt (p.toInt * (o.remainingQuantity.toNat - before.remainingQuantity.toNat)) := by
    rw [marginMove_continues hcont, hslip, reserved, reserved, hprice, hbefore]
    refine congrArg Int64.ofInt ?_
    ring
  refine ⟨?_, ?_, rfl, hprice, hside, hsmall⟩
  · rw [hmargin, marginOf, marginOf]
    refine congrArg Int64.ofInt ?_
    ring
  · rw [exposureMove, if_neg hfill, hmargin, ofInt_mul_sideMult, exposureOf, exposureOf,
      signed_sub, hside, hfilled]
    refine congrArg (fun n => Int64.ofInt (signed side n)) ?_
    ring

theorem moves_replaced (hpos : 0 < p) {msg : Bist.OuchReplaced} {before : Order}
    (hsteady : Steady p side before (some before)) (hcount : before.cancelledCount = 0)
    (hstate : msg.orderState ≠ 2) (hprice : msg.price.toInt64 = p)
    (hside : sideOfChar msg.side = side) (hquantity : msg.quantity.toNat < 2 ^ 31) :
    Moves p side (some before) (BistReport.fill before (.replaced msg)) := by
  obtain ⟨-, hbefore, -, hsmall⟩ := hsteady
  have hfill : BistReport.fill before (.replaced msg) =
      (FillerOuchBist.fillOuchReplaced before {} msg).1 := rfl
  rw [FillerOuchBist.fillOuchReplaced, if_neg hstate] at hfill
  rw [hfill]
  have hnat := toNat_toUInt32_of_lt hquantity
  refine moves_of_carry hpos hbefore hprice hside (by rw [← hnat] at hquantity; exact hquantity)
    (.inl rfl) ?_ rfl ?_
  · show ¬1 < before.cancelledCount
    rw [hcount]
    decide
  · -- the 64-bit difference is truncated to the 32-bit one
    show (msg.quantity - before.remainingQuantity.toUInt64).toUInt32.toInt32.toInt -
      (msg.quantity.toUInt32.toNat - before.remainingQuantity.toNat : ℤ) = 0
    rw [UInt64.toUInt32_sub, UInt32.toUInt32_toUInt64,
      UInt32.toInt_toInt32_sub (by rw [hnat]; exact hquantity) hsmall]
    ring

theorem moves_cancelled (hpos : 0 < p) {msg : Bist.OuchCancelled} {before : Order}
    (hsteady : Steady p side before (some before)) (hcount : before.cancelledCount = 0) :
    Moves p side (some before) (BistReport.fill before (.cancelled msg)) := by
  obtain ⟨-, hbefore, hside, hsmall⟩ := hsteady
  have hnone : (0 : UInt32).toNat < 2 ^ 31 := by decide
  refine moves_of_carry hpos hbefore hbefore hside hnone (.inr (.inr (.inl rfl))) ?_ rfl ?_
  · show ¬1 < before.cancelledCount + 1
    rw [hcount]
    decide
  · show (0 - before.remainingQuantity).toInt32.toInt -
      (((0 : UInt32).toNat : ℤ) - before.remainingQuantity.toNat) = 0
    rw [UInt32.toInt_toInt32_sub hnone hsmall]
    ring

theorem moves_executed (hpos : 0 < p) {msg : Bist.OuchExecuted} {before : Order}
    (hsteady : Steady p side before (some before)) (hprice : msg.tradePrice.toInt64 = p)
    (hopen : msg.tradedQuantity.toNat ≤ before.remainingQuantity.toNat)
    (htotal : before.filledQuantity.toNat + msg.tradedQuantity.toNat < 2 ^ 31) :
    Moves p side (some before) (BistReport.fill before (.executed msg)) := by
  obtain ⟨-, hbefore, hside, hsmall⟩ := hsteady
  have hconsistent : (BistReport.executed msg).Consistent before := by
    refine ⟨?_, hopen⟩
    rw [hprice]
    exact hpos
  have hcont := continues_of_bist (by rw [hbefore]; exact hpos) hconsistent
  have hfill : (BistReport.fill before (.executed msg)).IsFill := isFill_statusOfFilled rfl
  have htraded : msg.tradedQuantity.toUInt32.toNat = msg.tradedQuantity.toNat :=
    toNat_toUInt32_of_lt (by omega)
  have hle : msg.tradedQuantity.toUInt32 ≤ before.remainingQuantity := by
    rw [UInt32.le_iff_toNat_le, htraded]
    exact hopen
  -- what the fill moves from remaining to filled
  have hremaining : (before.remainingQuantity - msg.tradedQuantity.toUInt32).toNat =
      before.remainingQuantity.toNat - msg.tradedQuantity.toNat := by
    rw [UInt32.toNat_sub_of_le _ _ hle, htraded]
  have hfilled : (before.filledQuantity + msg.tradedQuantity.toUInt32).toNat =
      before.filledQuantity.toNat + msg.tradedQuantity.toNat := by
    rw [UInt32.toNat_add, htraded, Nat.mod_eq_of_lt (by omega)]
  refine ⟨?_, ?_, rfl, hprice, hside, ?_⟩
  · have hslip : slip before (BistReport.fill before (.executed msg)) = 0 := by
      rw [slip, if_pos hfill, hbefore]
      show (p.toInt - msg.tradePrice.toInt64.toInt) * _ + 0 = 0
      rw [hprice]
      ring
    have hreserved : reserved (BistReport.fill before (.executed msg)) =
        marginOf p (some (BistReport.fill before (.executed msg))) := by
      rw [marginOf, ← hprice]
      rfl
    rw [marginMove_continues hcont, hslip, hreserved, add_zero, marginOf, marginOf, reserved,
      hbefore]
  · rw [exposureMove, if_pos hfill, exposureOf, exposureOf, signed_sub]
    show Int64.ofInt 0 = Int64.ofInt (signed side (p.toInt *
      ((before.filledQuantity + msg.tradedQuantity.toUInt32).toNat +
        (before.remainingQuantity - msg.tradedQuantity.toUInt32).toNat) - _))
    have hzero : signed side 0 = 0 := by
      rw [signed]
      split <;> rfl
    rw [hremaining, hfilled, Nat.cast_sub hopen, Nat.cast_add]
    have hsame : p.toInt * ((before.filledQuantity.toNat : ℤ) + msg.tradedQuantity.toNat +
        (before.remainingQuantity.toNat - msg.tradedQuantity.toNat)) -
        p.toInt * (before.filledQuantity.toNat + before.remainingQuantity.toNat) = 0 := by ring
    rw [hsame, hzero]
  · show (before.remainingQuantity - msg.tradedQuantity.toUInt32).toNat < 2 ^ 31
    omega

/-- **One report of one order.** -/
theorem moves_of_reported (hpos : 0 < p) (h : Reported p side seen o) : Moves p side seen o := by
  obtain ⟨before, msg, hsteady, hterms, rfl⟩ := h
  cases msg with
  | accepted msg =>
    obtain ⟨rfl, hprice, hquantity⟩ := hterms
    exact moves_accepted hpos hsteady hprice hquantity
  | replaced msg =>
    obtain ⟨x, rfl, hcount, hstate, hprice, hside, hquantity⟩ := hterms
    obtain rfl : x = before := hsteady.1
    exact moves_replaced hpos hsteady hcount hstate hprice hside hquantity
  | executed msg =>
    obtain ⟨x, rfl, -, hprice, hopen, htotal⟩ := hterms
    obtain rfl : x = before := hsteady.1
    exact moves_executed hpos hsteady hprice hopen htotal
  | cancelled msg =>
    obtain ⟨x, rfl, hcount⟩ := hterms
    obtain rfl : x = before := hsteady.1
    exact moves_cancelled hpos hsteady hcount

/-! ### Runs -/

section Runs

variable {ι : Type} [DecidableEq ι] {price : ι → Int64} {sideOf : ι → Side} {lim : AccountLimit}
  {d d' : MarginDesk ι}

/-- A message comes when the order's previous report has been applied, and keeps
to the order's terms; what is applied has a report waiting. -/
def MarginDesk.InLife (price : ι → Int64) (sideOf : ι → Side) (d : MarginDesk ι) :
    MarginEvent ι → Prop
  | .report k msg => d.waiting k = false ∧ InTerms (price k) (sideOf k) (d.seen k) msg
  | .apply k => d.waiting k = true

/-- Every order is fresh. -/
def MarginDesk.Fresh (sideOf : ι → Side) (d : MarginDesk ι) : Prop :=
  ∀ k, d.seen k = none ∧ d.waiting k = false ∧ (d.orders k).filledQuantity = 0 ∧
    (d.orders k).cancelledCount = 0 ∧ (d.orders k).side = sideOf k

/-- The state of each order, waiting or not. -/
def MarginDesk.OrderKept (price : ι → Int64) (sideOf : ι → Side) (d : MarginDesk ι) : Prop :=
  ∀ k, if d.waiting k = true then Reported (price k) (sideOf k) (d.seen k) (d.orders k)
    else Steady (price k) (sideOf k) (d.orders k) (d.seen k)

variable [Fintype ι]

/-- The margin and the exposure of the orders, over those of the start. -/
structure MarginDesk.Balanced (price : ι → Int64) (sideOf : ι → Side) (start : AccountRisk)
    (d : MarginDesk ι) : Prop where
  margin : d.acc.usedMargin =
    start.usedMargin + Int64.ofInt (∑ k, marginOf (price k) (d.seen k))
  exposure : d.acc.currentExposure =
    start.currentExposure + Int64.ofInt (∑ k, exposureOf (price k) (sideOf k) (d.seen k))
  kept : d.OrderKept price sideOf

omit [Fintype ι] in
/-- A message is filled into an order. -/
theorem orderKept_report {k : ι} {msg : BistReport} (hkept : d.OrderKept price sideOf)
    (hlife : d.InLife price sideOf (.report k msg)) (h : d.step lim (.report k msg) = .ok d') :
    d'.OrderKept price sideOf ∧ d'.acc = d.acc ∧ d'.seen = d.seen := by
  rw [MarginDesk.step, Except.ok.injEq] at h
  subst h
  refine ⟨fun j => ?_, rfl, rfl⟩
  by_cases hj : j = k
  · subst hj
    have hbefore := hkept j
    rw [hlife.1] at hbefore
    simp only [Function.update_self]
    exact ⟨d.orders j, msg, hbefore, hlife.2, rfl⟩
  · simp only [Function.update_of_ne hj]
    exact hkept j

omit [Fintype ι] in
/-- An order is applied to the account. -/
theorem orderKept_apply {k : ι} (hpos : ∀ k, 0 < price k) (hkept : d.OrderKept price sideOf)
    (hlife : d.InLife price sideOf (.apply k)) (h : d.step lim (.apply k) = .ok d') :
    d'.OrderKept price sideOf ∧ Moves (price k) (sideOf k) (d.seen k) (d.orders k) ∧
      d'.seen = Function.update d.seen k (some (d.orders k)) ∧
      d'.acc.usedMargin = d.acc.usedMargin + marginMove (d.orders k) ∧
      d'.acc.currentExposure = d.acc.currentExposure + exposureMove (d.orders k) := by
  obtain ⟨acc, hacc, rfl⟩ := map_eq_ok_iff.mp h
  have hreported := hkept k
  rw [hlife, if_pos rfl] at hreported
  have hmoves := moves_of_reported (hpos k) hreported
  have hfigures := updateAccountRisk_figures hacc
  refine ⟨fun j => ?_, hmoves, rfl, hfigures.margin, hfigures.exposure⟩
  by_cases hj : j = k
  · subst hj
    simp only [Function.update_self]
    exact hmoves.steady
  · simp only [Function.update_of_ne hj]
    exact hkept j

/-- A sum over the orders follows the one that is applied. -/
theorem total_apply {f : ι → Option Order → ℤ} {x y start : Int64} {k : ι} {o : Order}
    {seen : ι → Option Order} (hx : x = start + Int64.ofInt (∑ j, f j (seen j)))
    (hy : y = x + Int64.ofInt (f k (some o) - f k (seen k))) :
    y = start + Int64.ofInt (∑ j, f j (Function.update seen k (some o) j)) := by
  have hsum : ∑ j, f j (Function.update seen k (some o) j) =
      ∑ j, f j (seen j) - f k (seen k) + f k (some o) := by
    have hpairs := sum_update (fun x : ι × Option Order => f x.1 x.2) (fun j => (j, seen j)) k
      (k, some o)
    rw [← hpairs]
    refine Finset.sum_congr rfl fun j _ => ?_
    by_cases hj : j = k
    · subst hj
      rw [Function.update_self, Function.update_self]
    · rw [Function.update_of_ne hj, Function.update_of_ne hj]
  rw [hy, hx, hsum, Int64.add_assoc, ← Int64.ofInt_add]
  refine congrArg (fun n => start + Int64.ofInt n) ?_
  ring

/-- **Every event keeps the balance.** -/
theorem balanced_step {start : AccountRisk} {e : MarginEvent ι} (hpos : ∀ k, 0 < price k)
    (hbalanced : d.Balanced price sideOf start) (hlife : d.InLife price sideOf e)
    (h : d.step lim e = .ok d') : d'.Balanced price sideOf start := by
  cases e with
  | report k msg =>
    obtain ⟨hkept, hacc, hseen⟩ := orderKept_report hbalanced.kept hlife h
    refine ⟨?_, ?_, hkept⟩
    · rw [hacc, hseen]
      exact hbalanced.margin
    · rw [hacc, hseen]
      exact hbalanced.exposure
  | apply k =>
    obtain ⟨hkept, hmoves, hseen, hmargin, hexposure⟩ :=
      orderKept_apply hpos hbalanced.kept hlife h
    rw [hmoves.margin] at hmargin
    rw [hmoves.exposure] at hexposure
    refine ⟨?_, ?_, hkept⟩
    · rw [hseen]
      exact total_apply (f := fun j => marginOf (price j)) hbalanced.margin hmargin
    · rw [hseen]
      exact total_apply (f := fun j => exposureOf (price j) (sideOf j)) hbalanced.exposure
        hexposure

/-- **Margin and exposure at constant prices.**  In every state that a run of
fresh orders reaches, `used_margin` is its initial value and price times
remaining quantity over the orders, `current_exposure` its initial value and side
times price times filled and remaining quantity over them, each order as the
account last saw it: that is as it is, unless a report of it waits. -/
theorem margin_identity {es : List (MarginEvent ι)} (hpos : ∀ k, 0 < price k)
    (hfresh : d.Fresh sideOf)
    (hlife : Along (MarginDesk.step lim) (MarginDesk.InLife price sideOf) d es)
    (hrun : exec (MarginDesk.step lim) d es = .ok d') :
    d'.acc.usedMargin = d.acc.usedMargin + Int64.ofInt (∑ k, marginOf (price k) (d'.seen k)) ∧
      d'.acc.currentExposure = d.acc.currentExposure +
        Int64.ofInt (∑ k, exposureOf (price k) (sideOf k) (d'.seen k)) ∧
      ∀ k, d'.waiting k = false → d'.seen k = none ∨ d'.seen k = some (d'.orders k) := by
  have hstart : d.Balanced price sideOf d.acc := by
    have hnone : ∀ k, d.seen k = none := fun k => (hfresh k).1
    refine ⟨?_, ?_, fun k => ?_⟩
    · rw [Finset.sum_eq_zero fun k _ => by rw [hnone k]; rfl]
      show _ = d.acc.usedMargin + 0
      grind
    · rw [Finset.sum_eq_zero fun k _ => by rw [hnone k]; rfl]
      show _ = d.acc.currentExposure + 0
      grind
    · obtain ⟨-, hwaiting, hfilled, hcount, hside⟩ := hfresh k
      rw [hwaiting, if_neg (by decide), hnone k]
      exact ⟨hfilled, hcount, hside⟩
  have hend : d'.Balanced price sideOf d.acc :=
    exec_inv_along (fun _ _ _ hb hl h => balanced_step hpos hb hl h) hstart hlife hrun
  refine ⟨hend.margin, hend.exposure, fun k hwaiting => ?_⟩
  have hkept := hend.kept k
  rw [hwaiting, if_neg (by decide)] at hkept
  cases hseen : d'.seen k with
  | none => exact .inl rfl
  | some x =>
    rw [hseen] at hkept
    exact .inr (congrArg some hkept.1)

end Runs

/-- The terms of two orders: a buy at 100 and a sell at 50. -/
def pairPrice (k : Bool) : Int64 := if k then 100 else 50

def pairSide (k : Bool) : Side := if k then .buy else .sell

def pairStart : MarginDesk Bool :=
  ⟨fun k => { side := pairSide k }, fun _ => none, fun _ => false, {}⟩

/-- Both are accepted, four of the buy trade, the sell is cancelled. -/
def pairEvents : List (MarginEvent Bool) :=
  [.report true (.accepted
      { orderId := 1, quantity := 10, orderBookId := 0, price := 100, orderToken := []
        side := charB }),
    .report false (.accepted
      { orderId := 2, quantity := 5, orderBookId := 0, price := 50, orderToken := []
        side := 83 }),
    .apply true, .apply false,
    .report true (.executed { tradedQuantity := 4, tradePrice := 100, orderToken := [] }),
    .report false (.cancelled { orderId := 2, orderBookId := 0, orderToken := [], side := 83 }),
    .apply true, .apply false]

def pairAfter (n : ℕ) : MarginDesk Bool :=
  (exec (MarginDesk.step {}) pairStart (pairEvents.take n)).toOption.getD pairStart

theorem margin_identity_pair :
    exec (MarginDesk.step {}) pairStart pairEvents = .ok (pairAfter 8) ∧
      ∑ k, marginOf (pairPrice k) ((pairAfter 8).seen k) = 600 ∧
      (pairAfter 8).acc.usedMargin = 0 + Int64.ofInt 600 ∧
      ∑ k, exposureOf (pairPrice k) (pairSide k) ((pairAfter 8).seen k) = 1000 ∧
      (pairAfter 8).acc.currentExposure = 0 + Int64.ofInt 1000 := by
  have hrun : exec (MarginDesk.step {}) pairStart pairEvents = .ok (pairAfter 8) := rfl
  have hpos : ∀ k, 0 < pairPrice k := by decide
  have hfresh : pairStart.Fresh pairSide := fun _ => ⟨rfl, rfl, rfl, rfl, rfl⟩
  have hlife : Along (MarginDesk.step {}) (MarginDesk.InLife pairPrice pairSide) pairStart
      pairEvents := by
    refine along_cons (pairAfter 1) ⟨rfl, rfl, rfl, by decide⟩ rfl ?_
    refine along_cons (pairAfter 2) ⟨rfl, rfl, rfl, by decide⟩ rfl ?_
    refine along_cons (pairAfter 3) rfl rfl ?_
    refine along_cons (pairAfter 4) rfl rfl ?_
    refine along_cons (pairAfter 5) ⟨rfl, _, rfl, rfl, rfl, by decide, by decide⟩ rfl ?_
    refine along_cons (pairAfter 6) ⟨rfl, _, rfl, rfl⟩ rfl ?_
    refine along_cons (pairAfter 7) rfl rfl ?_
    exact along_cons (pairAfter 8) rfl rfl trivial
  obtain ⟨hmargin, hexposure, -⟩ := margin_identity hpos hfresh hlife hrun
  have hmarginSum : ∑ k, marginOf (pairPrice k) ((pairAfter 8).seen k) = 600 := rfl
  have hexposureSum : ∑ k, exposureOf (pairPrice k) (pairSide k) ((pairAfter 8).seen k) = 1000 :=
    rfl
  rw [hmarginSum] at hmargin
  rw [hexposureSum] at hexposure
  exact ⟨hrun, hmarginSum, hmargin, hexposureSum, hexposure⟩

end TradingEngine
