/-
The set bits of a mask, as the list of their places.

A loop that takes the lowest set bit of a mask and clears it goes through this list.

* `bits_of_ne_zero` — the lowest set bit and the others;
* `bits_behind` — what a mask of ones shifted to the left leaves of another.
-/
import Mathlib.Tactic

namespace BitMasks

variable {w : ℕ} {m : BitVec w}

/-- The places of the set bits, the lowest first. -/
def bits (m : BitVec w) : List ℕ := (List.range w).filter fun k => m.getLsbD k

theorem mem_bits {k : ℕ} : k ∈ bits m ↔ m.getLsbD k := by
  rw [bits, List.mem_filter, List.mem_range]
  exact and_iff_right_of_imp fun h => BitVec.lt_of_getLsbD h

theorem length_bits_le (m : BitVec w) : (bits m).length ≤ w :=
  (List.length_filter_le _ _).trans_eq List.length_range

@[simp] theorem bits_zero : bits 0#w = [] := by
  rw [bits, List.filter_eq_nil_iff]
  intro k _
  rw [BitVec.getLsbD_zero]
  exact Bool.false_ne_true

/-- The bits that another mask has, too. -/
theorem bits_and (m n : BitVec w) : bits (m &&& n) = (bits m).filter fun k => n.getLsbD k := by
  rw [bits, bits, List.filter_filter]
  refine List.filter_congr fun k _ => ?_
  rw [BitVec.getLsbD_and, Bool.and_comm]

/-- The bits behind a place. -/
theorem bits_behind (m : BitVec w) (k : ℕ) :
    bits (m &&& BitVec.allOnes w <<< (k + 1)) = (bits m).filter (k < ·) := by
  rw [bits_and]
  refine List.filter_congr fun j hj => ?_
  have hlt := BitVec.lt_of_getLsbD (mem_bits.mp hj)
  rw [BitVec.getLsbD_shiftLeft, BitVec.getLsbD_allOnes, Bool.eq_iff_iff]
  simp only [Bool.and_eq_true, Bool.not_eq_true', decide_eq_true_eq, decide_eq_false_iff_not]
  omega

/-- **The lowest set bit, and the mask without it.** -/
theorem bits_of_ne_zero (h : m ≠ 0#w) :
    bits m = m.ctz.toNat :: bits (m &&& ~~~(BitVec.twoPow w m.ctz.toNat)) := by
  have hset := BitVec.getLsbD_true_ctz_of_ne_zero h
  have hlow : ∀ k, k < m.ctz.toNat → m.getLsbD k = false := fun k hk =>
    BitVec.getLsbD_false_of_lt_ctz hk
  generalize m.ctz.toNat = c at hset hlow ⊢
  have hlt : c < w := BitVec.lt_of_getLsbD hset
  -- the positions below the lowest set bit, the bit, and those above it
  have hsplit : List.range w = List.range' 0 c ++ c :: List.range' (c + 1) (w - (c + 1)) := by
    have happ := List.range'_append_1 (s := 0) (m := c) (n := w - (c + 1) + 1)
    rw [Nat.zero_add, show c + (w - (c + 1) + 1) = w by omega, List.range'_succ] at happ
    rw [List.range_eq_range', happ]
  have hcleared : ∀ k, k < w →
      (m &&& ~~~(BitVec.twoPow w c)).getLsbD k = (m.getLsbD k && decide (k ≠ c)) := by
    intro k hk
    rw [BitVec.getLsbD_and, BitVec.getLsbD_not, BitVec.getLsbD_twoPow, decide_eq_true hk,
      decide_eq_true hlt, Bool.true_and, Bool.true_and]
    by_cases hkc : k = c
    · rw [hkc, decide_eq_true rfl, decide_eq_false (not_not.mpr rfl)]
      rfl
    · rw [decide_eq_false (Ne.symm hkc), decide_eq_true hkc]
      rfl
  have hfront : ∀ p : ℕ → Bool, (∀ k, k < c → p k = false) →
      (List.range' 0 c).filter p = [] := by
    intro p hp
    refine List.filter_eq_nil_iff.mpr fun k hk => ?_
    rw [hp k (by have := List.mem_range'_1.mp hk; omega)]
    exact Bool.false_ne_true
  rw [bits, bits, hsplit, List.filter_append, List.filter_append, hfront _ hlow,
    hfront _ fun k hk => by rw [hcleared k (by omega), hlow k hk, Bool.false_and],
    List.filter_cons_of_pos hset, List.filter_cons_of_neg, List.nil_append, List.nil_append]
  · congr 1
    refine List.filter_congr fun k hk => ?_
    obtain ⟨hle, hlt'⟩ := List.mem_range'_1.mp hk
    rw [hcleared k (by omega), decide_eq_true (by omega), Bool.and_true]
  · rw [hcleared c hlt, decide_eq_false (not_not.mpr rfl), Bool.and_false]
    exact Bool.false_ne_true

end BitMasks
