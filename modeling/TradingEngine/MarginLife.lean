/-
The margin of an order over its life.

`update_account_risk` reserves price times quantity at New and gives back, report
by report, what is filled or taken off, at the price the order has then.  Seen
from the order, `used_margin` is to be price times remaining quantity.

* `marginMove_continues` — every report moves the margin to that value, up to
  `slip`: what a change of the price does to the quantity still open, what a
  repeated cancel leaves unreleased, and what the 32-bit `replaced_quantity`
  cannot hold;
* `margin_released_iff` — so over a complete life of an order of any protocol the
  margin is released exactly when the slips of its reports sum to zero.
-/
import TradingEngine.AccountFigures
import TradingEngine.OwnOrders

namespace TradingEngine

open FallibleRun RiskEngine

/-! ### Reports and fillers -/

/-- The BIST OUCH messages about an order. -/
inductive BistReport
  | accepted (msg : Bist.OuchAccepted)
  | replaced (msg : Bist.OuchReplaced)
  | executed (msg : Bist.OuchExecuted)
  | cancelled (msg : Bist.OuchCancelled)

/-- `FillerOUCH_BIST` on a message. -/
def BistReport.fill (o : Order) : BistReport → Order
  | .accepted msg => FillerOuchBist.fillOuchAccepted o msg
  | .replaced msg => (FillerOuchBist.fillOuchReplaced o {} msg).1
  | .executed msg => FillerOuchBist.fillOuchExecuted o msg
  | .cancelled msg => FillerOuchBist.fillOuchCancelled o msg

/-- The NASDAQ OUCH messages about an order. -/
inductive NasdaqReport
  | accepted (msg : Nasdaq.OuchAccepted)
  | replaced (msg : Nasdaq.OuchReplaced)
  | executed (msg : Nasdaq.OuchExecuted)
  | cancelled (msg : Nasdaq.OuchCancelled)
  | modified (msg : Nasdaq.OuchModified)

/-- `FillerOUCH_NASDAQ` on a message. -/
def NasdaqReport.fill (o : Order) : NasdaqReport → Order
  | .accepted msg => FillerOuchNasdaq.fillOuchAccepted o msg
  | .replaced msg => (FillerOuchNasdaq.fillOuchReplaced o {} msg).1
  | .executed msg => FillerOuchNasdaq.fillOuchExecuted o msg
  | .cancelled msg => FillerOuchNasdaq.fillOuchCancelled o msg
  | .modified msg => FillerOuchNasdaq.fillOuchModified o msg

/-- A report of any protocol. -/
inductive OwnReport
  | fix (msg : FIXMessage)
  | bist (msg : BistReport)
  | nasdaq (msg : NasdaqReport)

/-- The order after its filler; `hash` is `absl::Hash`. -/
def OwnReport.fill (hash : List UInt8 → UInt64) (o : Order) : OwnReport → Order
  | .fix msg => (FillerFix.fillFixExecReport hash o {} msg).1
  | .bist msg => msg.fill o
  | .nasdaq msg => msg.fill o

/-! ### What a report does to the margin -/

/-- Price times what is open. -/
def reserved (o : Order) : ℤ := o.price.toInt * o.remainingQuantity.toNat

/-- An order as its New report leaves it. -/
def Opens (o : Order) : Prop :=
  0 < o.price ∧ o.status = .new ∧ o.remainingQuantity = o.quantity

/-- The reports that end or reduce an order from outside. -/
def IsCancel (o : Order) : Prop :=
  o.status = .cancelled ∨ o.status = .deleted ∨ o.status = .expired

instance (o : Order) : Decidable (IsCancel o) := inferInstanceAs (Decidable (_ ∨ _))

/-- An order `o` that a later report has turned into `o'`: a fill takes its
quantity off what is open, a cancel leaves the price. -/
def Continues (o o' : Order) : Prop :=
  0 < o'.price ∧
    (o'.IsFill ∧ o'.remainingQuantity.toNat + o'.lastExecQuantity.toNat =
        o.remainingQuantity.toNat ∨
      o'.status = .replaced ∨ IsCancel o' ∧ o'.price = o.price)

/-- The part of `remaining_quantity`'s change that `replaced_quantity` misses. -/
def carry (o o' : Order) : ℤ :=
  o'.replacedQuantity.toInt - (o'.remainingQuantity.toNat - o.remainingQuantity.toNat)

/-- The margin a report leaves too much, or too little if negative: the quantity
open before it was reserved at the old price and is given back at the new one; a
repeated cancel gives nothing back. -/
def slip (o o' : Order) : ℤ :=
  (o.price.toInt - o'.price.toInt) * o.remainingQuantity.toNat +
    if o'.IsFill then 0
    else if IsCancel o' ∧ 1 < o'.cancelledCount then
      o'.price.toInt * (o.remainingQuantity.toNat - o'.remainingQuantity.toNat)
    else o'.price.toInt * carry o o'

variable {o o' : Order}

theorem ofInt_replaced (o : Order) :
    (OrderMetrics.ofOrder o).replaced = Int64.ofInt (o.price.toInt * o.replacedQuantity.toInt) := by
  rw [OrderMetrics.ofOrder, Int64.ofInt_mul, Int64.ofInt_toInt, ← Int32.toInt_toInt64,
    Int64.ofInt_toInt]

theorem replacedAmount_eq (hprice : 0 < o.price) :
    replacedAmount o = Int64.ofInt (o.price.toInt * o.replacedQuantity.toInt) := by
  rw [replacedAmount, if_pos hprice, ofInt_replaced]

/-- A New reserves what it opens. -/
theorem marginMove_opens (h : Opens o) : marginMove o = Int64.ofInt (reserved o) := by
  obtain ⟨hprice, hstatus, hquantity⟩ := h
  rw [marginMove, hstatus, reserved, hquantity, Int64.ofInt_mul, Int64.ofInt_toInt,
    ← toInt64_eq_ofInt]
  exact if_pos hprice

/-- **A report moves the margin to what is open, up to the slip.** -/
theorem marginMove_continues (h : Continues o o') :
    marginMove o' = Int64.ofInt (reserved o' - reserved o + slip o o') := by
  obtain ⟨hprice, ⟨hfill, hopen⟩ | hstatus | ⟨hcancel, hsame⟩⟩ := h
  · -- a fill gives back at its own price
    have hmove : marginMove o' = Int64.ofInt (-o'.value) := by
      rw [Int64.ofInt_neg, ofInt_value, marginMove]
      obtain hs | hs := hfill <;> rw [hs] <;> rfl
    have hbefore : (o.remainingQuantity.toNat : ℤ) =
        o'.remainingQuantity.toNat + o'.lastExecQuantity.toNat := by exact_mod_cast hopen.symm
    rw [hmove, slip, if_pos hfill, reserved, reserved, Order.value, hbefore]
    refine congrArg Int64.ofInt ?_
    ring
  · -- a replaced order holds back its new value
    have hfill : ¬o'.IsFill := by simp [Order.IsFill, hstatus]
    have hcancel : ¬(IsCancel o' ∧ 1 < o'.cancelledCount) := by simp [IsCancel, hstatus]
    have hmove : marginMove o' = replacedAmount o' := by rw [marginMove, hstatus]
    rw [hmove, replacedAmount_eq hprice, slip, if_neg hfill, if_neg hcancel, reserved, reserved,
      carry]
    refine congrArg Int64.ofInt ?_
    ring
  · -- a cancel gives back what is left, and only once
    have hfill : ¬o'.IsFill := by
      obtain hs | hs | hs := hcancel <;> simp [Order.IsFill, hs]
    have hmove : marginMove o' = if 1 < o'.cancelledCount then 0 else replacedAmount o' := by
      rw [marginMove]
      obtain hs | hs | hs := hcancel <;> rw [hs]
    rw [hmove, slip, if_neg hfill, reserved, reserved, hsame]
    by_cases hcc : 1 < o'.cancelledCount
    · rw [if_pos hcc, if_pos ⟨hcancel, hcc⟩]
      show Int64.ofInt 0 = _
      refine congrArg Int64.ofInt ?_
      ring
    · rw [if_neg hcc, if_neg (fun h => hcc h.2), replacedAmount_eq hprice, hsame, carry]
      refine congrArg Int64.ofInt ?_
      ring

/-! ### Reports the exchange can send -/

/-- The report that opens an order. -/
def OwnReport.IsNew : OwnReport → Prop
  | .fix msg => msg.ordStatus = 48 ∧ 0 < msg.price
  | .bist (.accepted msg) => 0 < msg.price.toInt64
  | .nasdaq (.accepted msg) => 0 < msg.price.toInt64
  | _ => False

/-- A later report of the order `o`: prices are positive, and a fill is of what
is open. -/
def BistReport.Consistent (o : Order) : BistReport → Prop
  | .accepted _ => False
  | .replaced msg => msg.orderState ≠ 2 ∧ 0 < msg.price.toInt64
  | .executed msg => 0 < msg.tradePrice.toInt64 ∧
      msg.tradedQuantity.toNat ≤ o.remainingQuantity.toNat
  | .cancelled _ => True

def NasdaqReport.Consistent (o : Order) : NasdaqReport → Prop
  | .accepted _ => False
  | .replaced msg => 0 < msg.price.toInt64
  | .executed msg => 0 < msg.price.toInt64 ∧ msg.quantity ≤ o.remainingQuantity
  | .cancelled _ => True
  | .modified _ => True

def OwnReport.Consistent (o : Order) : OwnReport → Prop
  | .fix msg =>
    (msg.ordStatus = 49 ∨ msg.ordStatus = 50) ∧ 0 < msg.lastPrice ∧
        msg.leavesQty.toNat + msg.lastQty.toNat = o.remainingQuantity.toNat ∨
      msg.ordStatus = 52 ∨ msg.ordStatus = 53 ∧ 0 < msg.price ∨ msg.ordStatus = 67
  | .bist msg => msg.Consistent o
  | .nasdaq msg => msg.Consistent o

theorem opens_of_isNew (hash : List UInt8 → UInt64) (o : Order) {r : OwnReport} (h : r.IsNew) :
    Opens (r.fill hash o) := by
  match r, h with
  | .fix msg, ⟨hstatus, hprice⟩ =>
    have hfill : OwnReport.fill hash o (.fix msg) = (FillerFix.fillFixNew hash o {} msg).1 := by
      rw [OwnReport.fill, FillerFix.fillFixExecReport, if_pos hstatus]
    rw [hfill]
    exact ⟨hprice, rfl, rfl⟩
  | .bist (.accepted msg), hprice => exact ⟨hprice, rfl, rfl⟩
  | .nasdaq (.accepted msg), hprice => exact ⟨hprice, rfl, rfl⟩

theorem isFill_statusOfFilled {filled quantity : UInt32}
    (h : o.status = statusOfFilled filled quantity) : o.IsFill := by
  rw [Order.IsFill, h, statusOfFilled]
  split
  · exact .inl rfl
  · exact .inr rfl

/-- What is taken off what is open. -/
theorem toNat_sub_add {a b : UInt32} (h : b ≤ a) : (a - b).toNat + b.toNat = a.toNat := by
  rw [UInt32.toNat_sub_of_le a b h]
  have hle := UInt32.le_iff_toNat_le.mp h
  omega

theorem continues_of_bist (hprice : 0 < o.price) {r : BistReport} (h : r.Consistent o) :
    Continues o (r.fill o) := by
  cases r with
  | accepted msg => exact absurd h id
  | replaced msg =>
    have hfill : BistReport.fill o (.replaced msg) = (FillerOuchBist.fillOuchReplaced o {} msg).1 :=
      rfl
    rw [FillerOuchBist.fillOuchReplaced, if_neg h.1] at hfill
    rw [hfill]
    exact ⟨h.2, .inr (.inl rfl)⟩
  | executed msg =>
    have hlt := o.remainingQuantity.toNat_lt
    have htraded : msg.tradedQuantity.toUInt32 ≤ o.remainingQuantity := by
      rw [UInt32.le_iff_toNat_le, UInt64.toNat_toUInt32, Nat.mod_eq_of_lt (by have := h.2; omega)]
      exact h.2
    exact ⟨h.1, .inl ⟨isFill_statusOfFilled rfl, toNat_sub_add htraded⟩⟩
  | cancelled msg => exact ⟨hprice, .inr (.inr ⟨.inr (.inl rfl), rfl⟩)⟩

theorem continues_of_nasdaq (hprice : 0 < o.price) {r : NasdaqReport} (h : r.Consistent o) :
    Continues o (r.fill o) := by
  cases r with
  | accepted msg => exact absurd h id
  | replaced msg => exact ⟨h, .inr (.inl rfl)⟩
  | executed msg => exact ⟨h.1, .inl ⟨isFill_statusOfFilled rfl, toNat_sub_add h.2⟩⟩
  | cancelled msg => exact ⟨hprice, .inr (.inr ⟨.inl rfl, rfl⟩)⟩
  | modified msg => exact ⟨hprice, .inr (.inl rfl)⟩

theorem continues_of_fix (hash : List UInt8 → UInt64) (hprice : 0 < o.price) {msg : FIXMessage}
    (h : (OwnReport.fix msg).Consistent o) : Continues o ((OwnReport.fix msg).fill hash o) := by
  rw [OwnReport.fill, FillerFix.fillFixExecReport]
  obtain ⟨hs | hs, hlast, hopen⟩ | hs | ⟨hs, hnew⟩ | hs := h
  · rw [hs]
    exact ⟨hlast, .inl ⟨.inl rfl, hopen⟩⟩
  · rw [hs]
    exact ⟨hlast, .inl ⟨.inr rfl, hopen⟩⟩
  · rw [hs]
    exact ⟨hprice, .inr (.inr ⟨.inr (.inl rfl), rfl⟩)⟩
  · rw [hs]
    exact ⟨hnew, .inr (.inl rfl)⟩
  · rw [hs]
    exact ⟨hprice, .inr (.inr ⟨.inr (.inr rfl), rfl⟩)⟩

/-- A consistent report continues the order. -/
theorem continues_of_consistent (hash : List UInt8 → UInt64) (hprice : 0 < o.price)
    {r : OwnReport} (h : r.Consistent o) : Continues o (r.fill hash o) := by
  cases r with
  | fix msg => exact continues_of_fix hash hprice h
  | bist msg => exact continues_of_bist hprice h
  | nasdaq msg => exact continues_of_nasdaq hprice h

/-! ### A life -/

/-- One report: its filler, then `update_account_risk`. -/
def lifeStep (hash : List UInt8 → UInt64) (lim : AccountLimit) (s : AccountRisk × Order)
    (r : OwnReport) : Except Fault (AccountRisk × Order) :=
  let o := r.fill hash s.2
  (updateAccountRisk s.1 lim o (OrderMetrics.ofOrder o)).map fun acc => (acc, o)

/-- The reports are consistent with the order, one after another. -/
def FollowsReports (hash : List UInt8 → UInt64) : Order → List OwnReport → Prop
  | _, [] => True
  | o, r :: rs => r.Consistent o ∧ FollowsReports hash (r.fill hash o) rs

/-- The slips of the reports of an order. -/
def slips (hash : List UInt8 → UInt64) : Order → List OwnReport → ℤ
  | _, [] => 0
  | o, r :: rs => slip o (r.fill hash o) + slips hash (r.fill hash o) rs

variable {hash : List UInt8 → UInt64} {lim : AccountLimit} {acc acc' : AccountRisk}

/-- The margin along a life. -/
theorem usedMargin_life {rs : List OwnReport} (hprice : 0 < o.price)
    (hfollows : FollowsReports hash o rs)
    (hrun : exec (lifeStep hash lim) (acc, o) rs = .ok (acc', o')) :
    acc'.usedMargin =
      acc.usedMargin + Int64.ofInt (reserved o' - reserved o + slips hash o rs) := by
  induction rs generalizing acc o with
  | nil =>
    rw [exec_nil, Except.ok.injEq] at hrun
    obtain ⟨rfl, rfl⟩ := Prod.mk.inj hrun
    rw [slips, sub_self]
    show _ = acc.usedMargin + 0
    grind
  | cons r rs ih =>
    obtain ⟨s, hstep, hrest⟩ := exec_cons_eq_ok_iff.mp hrun
    rw [lifeStep] at hstep
    obtain ⟨acc₁, hacc, rfl⟩ := map_eq_ok_iff.mp hstep
    have hcont := continues_of_consistent hash hprice hfollows.1
    rw [ih hcont.1 hfollows.2 hrest, (updateAccountRisk_figures hacc).margin,
      marginMove_continues hcont, Int64.add_assoc, ← Int64.ofInt_add, slips]
    refine congrArg (fun n => acc.usedMargin + Int64.ofInt n) ?_
    ring

/-- **When the margin is released.**  Over a complete life of an own limit order,
its reports filled by any of the three fillers and applied one after the other,
`used_margin` comes back to its value before New exactly when the slips of the
reports after New sum to zero. -/
theorem margin_released_iff {r : OwnReport} {rs : List OwnReport} (hnew : r.IsNew)
    (hfollows : FollowsReports hash (r.fill hash o) rs) (hend : o'.remainingQuantity = 0)
    (hrun : exec (lifeStep hash lim) (acc, o) (r :: rs) = .ok (acc', o')) :
    acc'.usedMargin = acc.usedMargin ↔ (2 : ℤ) ^ 64 ∣ slips hash (r.fill hash o) rs := by
  obtain ⟨s, hstep, hrest⟩ := exec_cons_eq_ok_iff.mp hrun
  rw [lifeStep] at hstep
  obtain ⟨acc₁, hacc, rfl⟩ := map_eq_ok_iff.mp hstep
  have hopens := opens_of_isNew hash o hnew
  have hdone : reserved o' = 0 := by
    rw [reserved, hend]
    exact mul_zero _
  have hmargin : acc'.usedMargin =
      acc.usedMargin + Int64.ofInt (slips hash (r.fill hash o) rs) := by
    rw [usedMargin_life hopens.1 hfollows hrest, (updateAccountRisk_figures hacc).margin,
      marginMove_opens hopens, hdone, Int64.add_assoc, ← Int64.ofInt_add]
    refine congrArg (fun n => acc.usedMargin + Int64.ofInt n) ?_
    ring
  rw [hmargin, ← ofInt_eq_zero_iff]
  constructor
  · intro h
    grind
  · intro h
    rw [h]
    grind

/-- A BIST order for ten at 100 is accepted. -/
def acceptTen : OwnReport :=
  .bist (.accepted
    { orderId := 1, quantity := 10, orderBookId := 0, price := 100, orderToken := []
      side := charB })

/-- `quantity` of it trade at `price`. -/
def executeAt (price : Int32) (quantity : UInt64) : OwnReport :=
  .bist (.executed { tradedQuantity := quantity, tradePrice := price, orderToken := [] })

/-- It is replaced by `quantity` at `price`. -/
def replaceAt (price : Int32) (quantity : UInt64) : OwnReport :=
  .bist (.replaced
    { orderId := 1, quantity := quantity, orderBookId := 0, price := price, side := charB
      orderToken := [] })

/-- The account and the order after some reports. -/
def afterLife (rs : List OwnReport) : AccountRisk × Order :=
  (exec (lifeStep (fun _ => 0) {}) ({}, { side := .buy }) rs).toOption.getD ({}, {})

/-- Five above the limit price and five as much below it. -/
def aboveAndBelow : List OwnReport := [executeAt 102 5, executeAt 98 5]

theorem margin_released_iff_aboveAndBelow :
    exec (lifeStep (fun _ => 0) {}) ({}, { side := .buy }) (acceptTen :: aboveAndBelow) =
        .ok (afterLife (acceptTen :: aboveAndBelow)) ∧
      (afterLife (acceptTen :: aboveAndBelow)).1.usedMargin = ({} : AccountRisk).usedMargin := by
  have hrun : exec (lifeStep (fun _ => 0) {}) ({}, { side := .buy }) (acceptTen :: aboveAndBelow) =
      .ok (afterLife (acceptTen :: aboveAndBelow)) := rfl
  have hnew : acceptTen.IsNew := by
    show (0 : Int64) < (100 : Int32).toInt64
    decide
  have hfollows : FollowsReports (fun _ => 0)
      (acceptTen.fill (fun _ => 0) { side := .buy }) aboveAndBelow :=
    ⟨⟨by decide, by decide⟩, ⟨by decide, by decide⟩, trivial⟩
  have hslips : slips (fun _ => 0) (acceptTen.fill (fun _ => 0) { side := .buy })
      aboveAndBelow = 0 := rfl
  refine ⟨hrun, (margin_released_iff hnew hfollows rfl hrun).mpr ?_⟩
  rw [hslips]
  exact dvd_zero _

/-- **Margin does not come back when prices move.**  Ten at 100 filled at 101
release 10 too much; ten at 100 replaced by ten at 90 and filled there leave 100
reserved. -/
theorem margin_not_released :
    (exec (lifeStep (fun _ => 0) {}) ({}, { side := .buy }) [acceptTen, executeAt 101 10] =
        .ok (afterLife [acceptTen, executeAt 101 10]) ∧
      (afterLife [acceptTen, executeAt 101 10]).2.status = .filled ∧
      (afterLife [acceptTen, executeAt 101 10]).2.remainingQuantity = 0 ∧
      ({} : AccountRisk).usedMargin = 0 ∧
      (afterLife [acceptTen, executeAt 101 10]).1.usedMargin = -10) ∧
    (exec (lifeStep (fun _ => 0) {}) ({}, { side := .buy })
        [acceptTen, replaceAt 90 10, executeAt 90 10] =
        .ok (afterLife [acceptTen, replaceAt 90 10, executeAt 90 10]) ∧
      (afterLife [acceptTen, replaceAt 90 10, executeAt 90 10]).2.status = .filled ∧
      (afterLife [acceptTen, replaceAt 90 10, executeAt 90 10]).2.remainingQuantity = 0 ∧
      (afterLife [acceptTen, replaceAt 90 10, executeAt 90 10]).1.usedMargin = 100) :=
  ⟨⟨rfl, rfl, rfl, rfl, rfl⟩, rfl, rfl, rfl, rfl⟩

end TradingEngine
