/-
Resting orders and the depth they make up.

An exchange places orders at levels, reduces them by executions and
cancellations, and removes them.  `RestingOrders ι ℓ` records the identifiers
used so far, the level of each order and what is left of it; `depth l` is the
sum of what is left at the level `l`.

* `depth_place` — a new order adds its quantity to the depth of its level;
* `depth_reduce` — a reduction is taken from the depth of the order's level;
* `depth_clear` — clearing a set of levels leaves them without depth;
* `rem_le_depth` — an order is part of the depth of its level;
* `depth_eq_zero_iff` — a level has no depth iff nothing is left of its orders.
-/
import Mathlib.Algebra.BigOperators.Group.Finset.Basic
import Mathlib.Tactic

open scoped BigOperators

/-- The orders of an exchange: `used` identifiers, their levels and their
remaining quantities. -/
structure RestingOrders (ι ℓ : Type*) where
  used : Finset ι
  level : ι → ℓ
  rem : ι → ℕ

namespace RestingOrders

variable {ι ℓ : Type*} [DecidableEq ι] [DecidableEq ℓ]

/-- No order has been placed. -/
def empty (l : ℓ) : RestingOrders ι ℓ := ⟨∅, fun _ => l, fun _ => 0⟩

/-- An order that has been placed and has quantity left. -/
def Live (x : RestingOrders ι ℓ) (id : ι) : Prop := id ∈ x.used ∧ 0 < x.rem id

instance (x : RestingOrders ι ℓ) (id : ι) : Decidable (x.Live id) :=
  inferInstanceAs (Decidable (_ ∧ _))

/-- The sum of the remaining quantities at a level. -/
def depth (x : RestingOrders ι ℓ) (l : ℓ) : ℕ :=
  ∑ id ∈ x.used, if x.level id = l then x.rem id else 0

def place (x : RestingOrders ι ℓ) (id : ι) (l : ℓ) (q : ℕ) : RestingOrders ι ℓ :=
  ⟨insert id x.used, Function.update x.level id l, Function.update x.rem id q⟩

def reduce (x : RestingOrders ι ℓ) (id : ι) (n : ℕ) : RestingOrders ι ℓ :=
  { x with rem := Function.update x.rem id (x.rem id - n) }

def remove (x : RestingOrders ι ℓ) (id : ι) : RestingOrders ι ℓ := x.reduce id (x.rem id)

/-- Remove every order at the levels of `P`. -/
def clear (x : RestingOrders ι ℓ) (P : ℓ → Prop) [DecidablePred P] : RestingOrders ι ℓ :=
  { x with rem := fun id => if P (x.level id) then 0 else x.rem id }

variable {x : RestingOrders ι ℓ} {id id' : ι} {l l' : ℓ} {n q : ℕ}

omit [DecidableEq ℓ] in
@[simp] theorem level_place_self (x : RestingOrders ι ℓ) (id : ι) (l : ℓ) (q : ℕ) :
    (x.place id l q).level id = l := by
  simp only [place, Function.update_self]

omit [DecidableEq ℓ] in
@[simp] theorem rem_place_self (x : RestingOrders ι ℓ) (id : ι) (l : ℓ) (q : ℕ) :
    (x.place id l q).rem id = q := by
  simp only [place, Function.update_self]

theorem depth_place (hid : id ∉ x.used) :
    (x.place id l q).depth l' = x.depth l' + if l = l' then q else 0 := by
  unfold depth place
  rw [Finset.sum_insert hid]
  simp only [Function.update_self]
  rw [Nat.add_comm]
  congr 1
  refine Finset.sum_congr rfl fun j hj => ?_
  have hne : j ≠ id := fun h => hid (h ▸ hj)
  rw [Function.update_of_ne hne, Function.update_of_ne hne]

theorem depth_reduce (l' : ℓ) (hid : id ∈ x.used) (hn : n ≤ x.rem id) :
    (x.reduce id n).depth l' + (if x.level id = l' then n else 0) = x.depth l' := by
  -- the other orders contribute what they did
  have hrest : ∑ j ∈ x.used.erase id,
        (if x.level j = l' then Function.update x.rem id (x.rem id - n) j else 0) =
      ∑ j ∈ x.used.erase id, if x.level j = l' then x.rem j else 0 := by
    refine Finset.sum_congr rfl fun j hj => ?_
    rw [Function.update_of_ne (Finset.ne_of_mem_erase hj)]
  unfold depth reduce
  rw [← Finset.add_sum_erase _ _ hid, ← Finset.add_sum_erase x.used _ hid, hrest]
  simp only [Function.update_self]
  split <;> omega

omit [DecidableEq ι] in
theorem depth_clear (x : RestingOrders ι ℓ) (P : ℓ → Prop) [DecidablePred P] (l : ℓ) :
    (x.clear P).depth l = if P l then 0 else x.depth l := by
  unfold depth clear
  by_cases hP : P l
  · rw [if_pos hP]
    refine Finset.sum_eq_zero fun id _ => ?_
    by_cases hl : x.level id = l
    · simp only [hl, hP, if_true]
    · simp only [if_neg hl]
  · rw [if_neg hP]
    refine Finset.sum_congr rfl fun id _ => ?_
    by_cases hl : x.level id = l
    · simp only [hl, hP, if_true, if_false]
    · simp only [if_neg hl]

omit [DecidableEq ι] in
theorem depth_eq_zero_iff : x.depth l = 0 ↔ ∀ id ∈ x.used, x.level id = l → x.rem id = 0 := by
  unfold depth
  rw [Finset.sum_eq_zero_iff]
  constructor
  · intro h id hid hl
    simpa only [hl, if_true] using h id hid
  · intro h id hid
    split
    · exact h id hid ‹_›
    · rfl

omit [DecidableEq ι] in
theorem rem_le_depth (hid : id ∈ x.used) : x.rem id ≤ x.depth (x.level id) := by
  unfold depth
  have hle := Finset.single_le_sum (f := fun j => if x.level j = x.level id then x.rem j else 0)
    (fun _ _ => Nat.zero_le _) hid
  simpa using hle

omit [DecidableEq ℓ] in
/-- Placing an order does not change what the others are. -/
theorem live_of_live_place (h : (x.place id l q).Live id') (hne : id' ≠ id) : x.Live id' := by
  obtain ⟨hmem, hpos⟩ := h
  refine ⟨Finset.mem_of_mem_insert_of_ne hmem hne, ?_⟩
  have hpos' : 0 < Function.update x.rem id q id' := hpos
  rwa [Function.update_of_ne hne] at hpos'

omit [DecidableEq ℓ] in
theorem live_of_live_reduce (h : (x.reduce id n).Live id') : x.Live id' := by
  obtain ⟨hmem, hpos⟩ := h
  refine ⟨hmem, ?_⟩
  have hpos' : 0 < Function.update x.rem id (x.rem id - n) id' := hpos
  by_cases hne : id' = id
  · subst hne
    rw [Function.update_self] at hpos'
    omega
  · rwa [Function.update_of_ne hne] at hpos'

omit [DecidableEq ι] [DecidableEq ℓ] in
theorem live_of_live_clear {P : ℓ → Prop} [DecidablePred P] (h : (x.clear P).Live id) :
    x.Live id ∧ ¬P (x.level id) := by
  obtain ⟨hmem, hpos⟩ := h
  have hpos' : 0 < if P (x.level id) then 0 else x.rem id := hpos
  split at hpos'
  · omega
  · exact ⟨⟨hmem, hpos'⟩, ‹_›⟩

end RestingOrders
