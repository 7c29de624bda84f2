/-
Machine integers as ordered types.

The core library gives `Int64` and `UInt32` their arithmetic and their order
relations, but not the order classes.  `Int64.instLinearOrder` and
`UInt32.instLinearOrder` supply them over the existing `≤` and `<`, so that
sorted containers keyed by them can use the general lemmas on linear orders.

`UInt32.toInt64` is the widening conversion; from 64 bits, a value that does not
fit comes out negative (`UInt64.toInt_toInt64_neg`).  `UInt32.ofInt_toNat_add_sub`
says that a sum computed wide and truncated back is the 32-bit sum.

Division is the one operation of the hardware that can trap.  `Int64.div?`
returns `none` exactly when it does: on a zero divisor, and on the single
quotient that does not fit (`minValue / -1`).

A value that is compared after it wrapped was under the bound unless it wrapped
upwards: `Int64.le_toInt_iff_of_ofInt_le`, and for a quotient
`Int64.tdiv_le_toInt_iff_of_div_le`.
-/
import Mathlib.Order.Defs.LinearOrder
import Mathlib.Tactic

namespace Int64

instance instLinearOrder : LinearOrder Int64 where
  le_refl := Int64.le_refl
  le_trans _ _ _ := Int64.le_trans
  le_antisymm _ _ := Int64.le_antisymm
  le_total := Int64.le_total
  lt_iff_le_not_ge a b := by
    rw [Int64.lt_iff_toInt_lt, Int64.le_iff_toInt_le, Int64.le_iff_toInt_le]
    omega
  toDecidableLE := inferInstance
  toDecidableEq := inferInstance
  min_def _ _ := rfl
  max_def _ _ := rfl

/-- Truncating signed division, `none` where the machine instruction traps. -/
def div? (a b : Int64) : Option Int64 :=
  if b = 0 ∨ (a = Int64.minValue ∧ b = -1) then none else some (a / b)

/-- A test against a bound that passed on the machine. -/
theorem le_toInt_iff_of_ofInt_le {x : ℤ} {m : Int64} (h : Int64.ofInt x ≤ m) :
    x ≤ m.toInt ↔ x < 2 ^ 63 := by
  have hm := m.toInt_lt
  have hm' := m.le_toInt
  constructor
  · intro hx
    omega
  · intro hx
    by_cases hlow : -2 ^ 63 ≤ x
    · rw [← toInt_ofInt_of_le hlow hx]
      exact le_iff_toInt_le.mp h
    · omega

/-- A test of a quotient that passed on the machine: a dividend that wraps does no harm while
the exact quotient is small. -/
theorem tdiv_le_toInt_iff_of_div_le {x : ℤ} {b m : Int64} (hb : 0 < b.toInt)
    (h : Int64.ofInt x / b ≤ m) :
    x.tdiv b.toInt ≤ m.toInt ↔ x < max (2 ^ 63) ((m.toInt + 1) * b.toInt) := by
  have hne : b ≠ -1 := by
    rintro rfl
    exact absurd hb (by decide)
  have hle := le_iff_toInt_le.mp h
  rw [toInt_div_of_ne_right _ _ hne] at hle
  rw [lt_max_iff]
  by_cases hx : x < 2 ^ 63
  · refine iff_of_true (le_trans (Int.tdiv_le_tdiv hb ?_) hle) (.inl hx)
    by_cases hlow : -2 ^ 63 ≤ x
    · rw [toInt_ofInt_of_le hlow hx]
    · have hlow' := (Int64.ofInt x).le_toInt
      omega
  · rw [Int.tdiv_eq_ediv_of_nonneg (by omega), ← Int.lt_add_one_iff, Int.ediv_lt_iff_lt_mul hb,
      or_iff_right hx]

end Int64

namespace UInt32

instance instLinearOrder : LinearOrder UInt32 where
  le_refl := UInt32.le_refl
  le_trans _ _ _ := UInt32.le_trans
  le_antisymm _ _ := UInt32.le_antisymm
  le_total := UInt32.le_total
  lt_iff_le_not_ge a b := by
    rw [UInt32.lt_iff_toNat_lt, UInt32.le_iff_toNat_le, UInt32.le_iff_toNat_le]
    omega
  toDecidableLE := inferInstance
  toDecidableEq := inferInstance
  min_def _ _ := rfl
  max_def _ _ := rfl

/-- `static_cast<int64_t>` of an unsigned 32-bit value. -/
def toInt64 (n : UInt32) : Int64 := n.toUInt64.toInt64

theorem toInt_toInt64 (n : UInt32) : n.toInt64.toInt = n.toNat := by
  have hn := n.toNat_lt
  show n.toUInt64.toBitVec.toInt = _
  rw [BitVec.toInt_eq_toNat_of_lt]
  · simp
  · simp
    omega

theorem toUInt32_toInt64 (n : UInt32) : n.toInt64.toUInt64.toUInt32 = n := by
  simp [toInt64]

theorem ofInt_toNat (n : UInt32) : UInt32.ofInt n.toNat = n := by
  have hn := n.toNat_lt
  rw [UInt32.ofInt, Int.emod_eq_of_lt (by omega) (by omega), Int.toNat_natCast]
  simp

/-- Truncating an exact sum and difference gives the wrapping ones. -/
theorem ofInt_toNat_add_sub (q n m : UInt32) :
    UInt32.ofInt (q.toNat + n.toNat - m.toNat) = q + (n - m) := by
  rw [sub_eq_add_neg, UInt32.ofInt_add, UInt32.ofInt_add, UInt32.ofInt_neg, ofInt_toNat,
    ofInt_toNat, ofInt_toNat, UInt32.add_assoc, UInt32.sub_eq_add_neg]

/-- A difference of small values, read as a signed number. -/
theorem toInt_toInt32_sub {n m : UInt32} (hn : n.toNat < 2 ^ 31) (hm : m.toNat < 2 ^ 31) :
    (n - m).toInt32.toInt = n.toNat - m.toNat := by
  show (n - m).toBitVec.toInt = _
  rw [UInt32.toBitVec_sub, BitVec.toInt_sub, BitVec.toInt_eq_toNat_of_lt,
    BitVec.toInt_eq_toNat_of_lt]
  · simp only [UInt32.toNat_toBitVec]
    rw [Int.bmod_eq_of_le] <;> omega
  · simp only [UInt32.toNat_toBitVec]
    omega
  · simp only [UInt32.toNat_toBitVec]
    omega

/-- A wide difference is positive exactly when the first operand is larger. -/
theorem toInt64_sub_pos_iff (n m : UInt32) : 0 < n.toInt64 - m.toInt64 ↔ m.toNat < n.toNat := by
  have hn := n.toNat_lt
  have hm := m.toNat_lt
  rw [Int64.lt_iff_toInt_lt, Int64.toInt_sub, toInt_toInt64, toInt_toInt64]
  simp [Int.bmod]
  omega

end UInt32

namespace UInt64

/-- `static_cast<int64_t>` keeps a value that fits. -/
theorem toInt_toInt64_of_lt {n : UInt64} (h : n.toNat < 2 ^ 63) : n.toInt64.toInt = n.toNat := by
  show n.toBitVec.toInt = _
  rw [BitVec.toInt_eq_toNat_of_lt]
  · simp
  · simp
    omega

/-- A value that does not fit comes out negative. -/
theorem toInt_toInt64_neg {n : UInt64} (h : 2 ^ 63 ≤ n.toNat) : n.toInt64.toInt < 0 := by
  show n.toBitVec.toInt < 0
  rw [BitVec.toInt_neg_iff]
  simp
  omega

end UInt64
