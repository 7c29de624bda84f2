/-
Bounded queues and ring pools.

A `BoundedQueue α n` is a first-in first-out list of at most `n` elements;
`push` on a full queue leaves it as it was, `tail` drops the oldest element.
A `RingPool α n` hands out its `n` slots in turn: `put` writes the next slot
and says which one it was, so a reference stays good for the following `n - 1`
calls (`map_slots_put`).
-/
import Mathlib.Tactic

/-- A queue of at most `n` elements, the oldest first. -/
structure BoundedQueue (α : Type*) (n : ℕ) where
  items : List α
  bounded : items.length ≤ n

namespace BoundedQueue

variable {α : Type*} {n : ℕ}

/-- The queue without elements. -/
def empty : BoundedQueue α n := ⟨[], n.zero_le⟩

instance : Inhabited (BoundedQueue α n) := ⟨empty⟩

/-- The queue that holds every index once. -/
def indices (n : ℕ) : BoundedQueue (Fin n) n := ⟨List.finRange n, by rw [List.length_finRange]⟩

/-- Append an element; a full queue refuses it. -/
def push (q : BoundedQueue α n) (a : α) : BoundedQueue α n :=
  if h : q.items.length < n then ⟨q.items ++ [a], by simp; omega⟩ else q

/-- What is left after the oldest element is taken. -/
def tail (q : BoundedQueue α n) : BoundedQueue α n :=
  ⟨q.items.tail, by have := q.bounded; rw [List.length_tail]; omega⟩

/-- What is left after the `k` oldest elements are taken. -/
def drop (q : BoundedQueue α n) (k : ℕ) : BoundedQueue α n :=
  ⟨q.items.drop k, by have := q.bounded; rw [List.length_drop]; omega⟩

@[simp] theorem items_empty : (empty : BoundedQueue α n).items = [] := rfl

theorem items_indices (n : ℕ) : (indices n).items = List.finRange n := rfl

theorem nodup_indices (n : ℕ) : (indices n).items.Nodup := List.nodup_finRange n

@[simp] theorem items_tail (q : BoundedQueue α n) : q.tail.items = q.items.tail := rfl

@[simp] theorem items_drop (q : BoundedQueue α n) (k : ℕ) :
    (q.drop k).items = q.items.drop k := rfl

/-- The first index comes first. -/
theorem items_indices_eq_cons [NeZero n] :
    (indices n).items = 0 :: (indices n).items.tail := by
  cases n with
  | zero => exact absurd rfl (NeZero.ne 0)
  | succ n =>
    rw [items_indices, List.finRange_succ, List.tail_cons]

theorem items_push {q : BoundedQueue α n} {a : α} (h : q.items.length < n) :
    (q.push a).items = q.items ++ [a] := by
  rw [push, dif_pos h]

theorem items_push_full {q : BoundedQueue α n} {a : α} (h : ¬q.items.length < n) :
    q.push a = q := by
  rw [push, dif_neg h]

theorem length_le_length_push (q : BoundedQueue α n) (a : α) :
    q.items.length ≤ (q.push a).items.length := by
  by_cases h : q.items.length < n
  · rw [items_push h, List.length_append]
    exact Nat.le_add_right _ _
  · rw [items_push_full h]

/-- Behind the first elements a push adds at most its own. -/
theorem mem_drop_push {q : BoundedQueue α n} {a b : α} {k : ℕ} (hk : k ≤ q.items.length)
    (h : b ∈ (q.push a).items.drop k) : b ∈ q.items.drop k ∨ b = a := by
  by_cases hroom : q.items.length < n
  · rw [items_push hroom, List.drop_append_of_le_length hk, List.mem_append] at h
    exact h.imp_right List.mem_singleton.mp
  · rw [items_push_full hroom] at h
    exact .inl h

/-- Pushing one element after another keeps those that fit. -/
theorem items_foldl_push (xs : List α) (q : BoundedQueue α n) :
    (xs.foldl push q).items = (q.items ++ xs).take n := by
  induction xs generalizing q with
  | nil => simp [q.bounded]
  | cons x xs ih =>
    rw [List.foldl_cons, ih]
    by_cases h : q.items.length < n
    · rw [items_push h, List.append_assoc, List.singleton_append]
    · -- a full queue stays as it is
      rw [items_push_full h]
      have hlen : n ≤ q.items.length := not_lt.mp h
      rw [List.take_append_of_le_length hlen, List.take_append_of_le_length hlen]

end BoundedQueue

/-- `n` slots handed out in turn. -/
structure RingPool (α : Type*) (n : ℕ) where
  slots : Fin n → α
  next : ℕ

namespace RingPool

variable {α : Type*} {n : ℕ} [NeZero n]

/-- The slot the next call of `put` takes. -/
def slot (r : RingPool α n) : Fin n := Fin.ofNat n r.next

/-- Write the next slot. -/
def put (r : RingPool α n) (a : α) : RingPool α n :=
  { slots := Function.update r.slots r.slot a, next := r.next + 1 }

@[simp] theorem slots_put_slot (r : RingPool α n) (a : α) : (r.put a).slots r.slot = a :=
  Function.update_self _ _ _

theorem slots_put_of_ne (r : RingPool α n) (a : α) {i : Fin n} (h : i ≠ r.slot) :
    (r.put a).slots i = r.slots i :=
  Function.update_of_ne h _ _

/-- What is read through references to other slots stays as it was. -/
theorem map_slots_put {r : RingPool α n} {is : List (Fin n)} (h : r.slot ∉ is) (a : α) :
    is.map (r.put a).slots = is.map r.slots := by
  refine List.map_congr_left fun i hi => slots_put_of_ne r a ?_
  rintro rfl
  exact h hi

end RingPool
