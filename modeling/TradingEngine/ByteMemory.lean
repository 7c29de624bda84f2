/-
Rows of bytes in memory.

Memory is a function on addresses.  `store` puts a row at an address, `load` reads as many
cells as it is asked for.

* `store_append` — a row can be stored in two parts, the end first;
* `load_store` — what was stored is read back;
* `store_of_outside` — and no other cell changes.
-/
import Mathlib.Tactic

namespace ByteMemory

variable {β : Type*} {mem : ℤ → β} {p a : ℤ}

/-- The memory with a row of cells stored from `p` on. -/
def store (mem : ℤ → β) (p : ℤ) : List β → ℤ → β
  | [] => mem
  | c :: cs => Function.update (store mem (p + 1) cs) p c

/-- The `n` cells from `p` on. -/
def load (mem : ℤ → β) (p : ℤ) (n : ℕ) : List β := (List.range n).map fun i : ℕ => mem (p + i)

theorem store_append (mem : ℤ → β) (p : ℤ) (front back : List β) :
    store mem p (front ++ back) = store (store mem (p + front.length) back) p front := by
  induction front generalizing p with
  | nil =>
    show store mem p back = store mem (p + (0 : ℕ)) back
    rw [Nat.cast_zero, add_zero]
  | cons c front ih =>
    have hplace : p + 1 + (front.length : ℤ) = p + ((c :: front).length : ℕ) := by
      rw [List.length_cons, Nat.cast_succ]
      ring
    rw [List.cons_append, store, ih, hplace, store]

/-- Cells outside of the row are left alone. -/
theorem store_of_outside {row : List β} (h : a < p ∨ p + row.length ≤ a) :
    store mem p row a = mem a := by
  induction row generalizing p with
  | nil => rfl
  | cons c row ih =>
    rw [List.length_cons, Nat.cast_succ] at h
    have hne : a ≠ p := by omega
    rw [store, Function.update_of_ne hne]
    exact ih (by omega)

theorem store_getElem {row : List β} {i : ℕ} (hi : i < row.length) :
    store mem p row (p + i) = row[i] := by
  induction row generalizing p i with
  | nil => cases hi
  | cons c row ih =>
    cases i with
    | zero =>
      rw [Nat.cast_zero, add_zero, store, Function.update_self]
      rfl
    | succ i =>
      have hne : p + ((i + 1 : ℕ) : ℤ) ≠ p := by omega
      have hplace : p + ((i + 1 : ℕ) : ℤ) = p + 1 + i := by omega
      rw [store, Function.update_of_ne hne, hplace, ih (Nat.lt_of_succ_lt_succ hi)]
      rfl

/-- **A row that was stored is read back.** -/
theorem load_store (mem : ℤ → β) (p : ℤ) (row : List β) :
    load (store mem p row) p row.length = row := by
  refine List.ext_getElem ?_ fun i h₁ h₂ => ?_
  · rw [load, List.length_map, List.length_range]
  · simp only [load, List.getElem_map, List.getElem_range, store_getElem h₂]

end ByteMemory
