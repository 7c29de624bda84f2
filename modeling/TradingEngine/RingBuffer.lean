/-
Queues in a ring of slots.

A `RingBuffer α n` keeps `n` slots, the place of its oldest element and the
place the next one goes to.  Equal places mean an empty queue, so at most
`n - 1` elements fit: `push` on a full ring leaves it as it was.  What was in a
slot stays there until it is written again.

`items` reads the queue off the ring, oldest element first:

* `items_push` — pushing appends, unless the ring is full;
* `pop_eq_none_iff`, `items_pop` — popping takes the oldest element;
* `full_iff` — the ring is full when it holds `n - 1` elements.
-/
import Mathlib.Tactic

/-- A queue of fewer than `n` elements in `n` slots. -/
structure RingBuffer (α : Type*) (n : ℕ) where
  slots : Fin n → α
  head : Fin n
  tail : Fin n

namespace RingBuffer

variable {α : Type*} {n : ℕ} {q : RingBuffer α n} {a : α}

/-- The place `k` slots after `i`. -/
def shift (i : Fin n) (k : ℕ) : Fin n := ⟨(i + k) % n, Nat.mod_lt _ (Nat.zero_lt_of_lt i.isLt)⟩

/-- Pushing would make the two places meet. -/
def full (q : RingBuffer α n) : Bool := shift q.tail 1 = q.head

/-- Append an element; a full ring refuses it. -/
def push (q : RingBuffer α n) (a : α) : RingBuffer α n :=
  if q.full then q else
    { q with slots := Function.update q.slots q.tail a, tail := shift q.tail 1 }

/-- The oldest element and what is left without it. -/
def pop (q : RingBuffer α n) : Option (α × RingBuffer α n) :=
  if q.head = q.tail then none else some (q.slots q.head, { q with head := shift q.head 1 })

/-- How many elements the ring holds. -/
def size (q : RingBuffer α n) : ℕ :=
  if q.head ≤ q.tail then q.tail - q.head else q.tail + n - q.head

/-- The elements, oldest first. -/
def items (q : RingBuffer α n) : List α :=
  (List.range q.size).map fun k => q.slots (shift q.head k)

theorem val_shift_of_lt {i : Fin n} {k : ℕ} (h : i + k < n) : (shift i k).val = i + k :=
  Nat.mod_eq_of_lt h

theorem val_shift_of_le {i : Fin n} {k : ℕ} (h : n ≤ i + k) (hk : k ≤ n) :
    (shift i k).val = i + k - n := by
  have hi := i.isLt
  show (i + k) % n = _
  rw [Nat.mod_eq_sub_mod h, Nat.mod_eq_of_lt (by omega)]

theorem val_shift_one (i : Fin n) :
    (shift i 1).val = i + 1 ∧ i + 1 < n ∨ (shift i 1).val = 0 ∧ i + 1 = n := by
  have hi := i.isLt
  by_cases h : i + 1 < n
  · exact .inl ⟨val_shift_of_lt h, h⟩
  · have hval := val_shift_of_le (i := i) (k := 1) (by omega) (by omega)
    exact .inr ⟨by omega, by omega⟩

theorem size_lt (q : RingBuffer α n) : q.size < n := by
  have hh := q.head.isLt
  have ht := q.tail.isLt
  rw [size]
  split
  · omega
  · rename_i h
    have h' : q.tail.val < q.head.val := by
      rw [Fin.le_iff_val_le_val] at h
      omega
    omega

@[simp] theorem length_items (q : RingBuffer α n) : q.items.length = q.size := by
  simp [items]

/-- The slot behind the newest element is the one the next element goes to. -/
theorem shift_head_size (q : RingBuffer α n) : shift q.head q.size = q.tail := by
  have hh := q.head.isLt
  have ht := q.tail.isLt
  apply Fin.ext
  by_cases h : q.head ≤ q.tail
  · have h' : q.head.val ≤ q.tail.val := h
    have hsize : q.size = q.tail - q.head := by rw [size, if_pos h]
    rw [val_shift_of_lt (by omega)]
    omega
  · have h' : q.tail.val < q.head.val := by
      rw [Fin.le_iff_val_le_val] at h
      omega
    have hsize : q.size = q.tail + n - q.head := by rw [size, if_neg h]
    rw [val_shift_of_le (by omega) (by omega)]
    omega

/-- Different elements sit in different slots. -/
theorem shift_inj {i : Fin n} {k m : ℕ} (hk : k < n) (hm : m < n) (h : shift i k = shift i m) :
    k = m := by
  have hi := i.isLt
  have hval := congrArg Fin.val h
  by_cases h₁ : i + k < n
  · by_cases h₂ : i + m < n
    · rw [val_shift_of_lt h₁, val_shift_of_lt h₂] at hval
      omega
    · rw [val_shift_of_lt h₁, val_shift_of_le (by omega) (by omega)] at hval
      omega
  · by_cases h₂ : i + m < n
    · rw [val_shift_of_le (by omega) (by omega), val_shift_of_lt h₂] at hval
      omega
    · rw [val_shift_of_le (by omega) (by omega), val_shift_of_le (by omega) (by omega)] at hval
      omega

theorem size_push (h : q.full = false) : (q.push a).size = q.size + 1 := by
  have hh := q.head.isLt
  have ht := q.tail.isLt
  have hne : (shift q.tail 1).val ≠ q.head.val := by
    intro heq
    have hfull : q.full = true := by
      rw [full]
      exact decide_eq_true (Fin.ext heq)
    rw [hfull] at h
    exact absurd h (by simp)
  rw [push, if_neg (by rw [h]; simp)]
  simp only [size, Fin.le_iff_val_le_val]
  rcases val_shift_one q.tail with ⟨hval, hlt⟩ | ⟨hval, heq⟩
  · rw [hval] at hne ⊢
    split
    · split <;> omega
    · split <;> omega
  · rw [hval] at hne ⊢
    split
    · split <;> omega
    · split <;> omega

/-- **Pushing appends.** -/
theorem items_push (h : q.full = false) : (q.push a).items = q.items ++ [a] := by
  have hsize := q.size_lt
  have hpush : q.push a =
      { q with slots := Function.update q.slots q.tail a, tail := shift q.tail 1 } := by
    rw [push, if_neg (by rw [h]; simp)]
  rw [items, size_push h, List.range_succ, List.map_append, List.map_singleton, hpush]
  congr 1
  · refine List.map_congr_left fun k hk => ?_
    have hk' := List.mem_range.mp hk
    show Function.update q.slots q.tail a (shift q.head k) = _
    rw [Function.update_of_ne]
    rw [← q.shift_head_size]
    intro heq
    have := shift_inj (by omega) (by omega) heq
    omega
  · show [Function.update q.slots q.tail a (shift q.head q.size)] = [a]
    rw [q.shift_head_size, Function.update_self]

theorem full_iff : q.full = true ↔ q.size + 1 = n := by
  have hh := q.head.isLt
  have ht := q.tail.isLt
  rw [full, decide_eq_true_eq, Fin.ext_iff]
  simp only [size, Fin.le_iff_val_le_val]
  rcases val_shift_one q.tail with ⟨hval, hlt⟩ | ⟨hval, heq⟩
  · rw [hval]
    split <;> omega
  · rw [hval]
    split <;> omega

theorem size_eq_zero_iff : q.size = 0 ↔ q.head = q.tail := by
  have hh := q.head.isLt
  have ht := q.tail.isLt
  rw [Fin.ext_iff]
  simp only [size, Fin.le_iff_val_le_val]
  split <;> omega

theorem pop_eq_none_iff : q.pop = none ↔ q.items = [] := by
  rw [← List.length_eq_zero_iff, length_items, size_eq_zero_iff, pop]
  split
  · rename_i h
    simp [h]
  · rename_i h
    simp [h]

/-- **Popping takes the oldest element.** -/
theorem items_pop {q' : RingBuffer α n} (h : q.pop = some (a, q')) : q.items = a :: q'.items := by
  have hh := q.head.isLt
  have ht := q.tail.isLt
  rw [pop] at h
  split at h
  · exact absurd h (by simp)
  · rename_i hne
    rw [Option.some.injEq, Prod.mk.injEq] at h
    obtain ⟨rfl, rfl⟩ := h
    -- the size is the distance of the indices, in both of its cases
    have hsize : q.size = { q with head := shift q.head 1 : RingBuffer α n }.size + 1 := by
      rw [Fin.ext_iff] at hne
      simp only [size, Fin.le_iff_val_le_val]
      rcases val_shift_one q.head with ⟨hval, hlt⟩ | ⟨hval, heq⟩
      · rw [hval]
        split
        · split <;> omega
        · split <;> omega
      · rw [hval]
        split
        · split <;> omega
        · split <;> omega
    rw [items, hsize, List.range_succ_eq_map, List.map_cons, List.map_map]
    congr 1
    · congr 1
      apply Fin.ext
      exact Nat.mod_eq_of_lt (by omega)
    · refine List.map_congr_left fun k _ => ?_
      show q.slots (shift q.head (k + 1)) = q.slots (shift (shift q.head 1) k)
      congr 1
      apply Fin.ext
      show (q.head.val + (k + 1)) % n = ((q.head.val + 1) % n + k) % n
      rw [Nat.mod_add_mod, Nat.add_assoc, Nat.add_comm 1]

end RingBuffer
