/-
Bounded FIFO queues, and rings whose slots say whether they are full.

`FifoOp` is one completed operation of a queue with what it returned, and
`fifoRun cap` replays a list of them against a queue of at most `cap` elements:
it fails as soon as one of them could not have returned what it says it did.

* `enqueued_eq_of_fifoRun` — in a list of operations that replays, what was
  taken out and what is left is what was put in, in the same order;
* `length_le_of_fifoRun` — the capacity is never exceeded.

A ring keeps its elements in slots that are empty or full, with no count beside
them.  Logical positions go to slots by `place`, which repeats with period `n`
and does not repeat earlier (`Placement`).  `Holds place slots r vals` says that
the slots hold exactly `vals`, the first of them at position `r`:

* `Holds.slot_front`, `Holds.slot_back` — what the two ends see in their slots;
* `Holds.store`, `Holds.clear` — filling the slot behind the last element
  appends, emptying the slot of the first one takes it off;
* `Holds.card_full` — the full slots are as many as the elements.
-/
import Mathlib.Tactic

namespace SlotRing

variable {α : Type*}

/-- An operation of a queue with what it returned. -/
inductive FifoOp (α : Type*)
  | enqueue (e : α) (ok : Bool)
  | dequeue (result : Option α)
  deriving DecidableEq, Repr

namespace FifoOp

/-- The element an operation has put into the queue. -/
def enqueued : FifoOp α → Option α
  | enqueue e true => some e
  | _ => none

/-- The element an operation has taken out of the queue. -/
def dequeued : FifoOp α → Option α
  | dequeue r => r
  | _ => none

/-- The operation is one of the side that puts elements in. -/
def isEnqueue : FifoOp α → Bool
  | enqueue _ _ => true
  | dequeue _ => false

end FifoOp

/-- A queue of capacity `cap` after an operation; `none` where it could not
have returned what it says. -/
def fifoStep [DecidableEq α] (cap : ℕ) (q : List α) : FifoOp α → Option (List α)
  | .enqueue e true => if q.length < cap then some (q ++ [e]) else none
  | .enqueue _ false => if q.length = cap then some q else none
  | .dequeue (some e) => if q.head? = some e then some q.tail else none
  | .dequeue none => if q = [] then some q else none

/-- A queue of capacity `cap` after a list of operations. -/
def fifoRun [DecidableEq α] (cap : ℕ) : List α → List (FifoOp α) → Option (List α)
  | q, [] => some q
  | q, op :: ops => (fifoStep cap q op).bind fun q' => fifoRun cap q' ops

section Fifo

variable [DecidableEq α] {cap : ℕ} {q q' : List α} {op : FifoOp α} {ops : List (FifoOp α)}

theorem fifoRun_append_singleton (h : fifoRun cap q ops = some q') :
    fifoRun cap q (ops ++ [op]) = fifoStep cap q' op := by
  induction ops generalizing q with
  | nil =>
    simp only [fifoRun, Option.some.injEq] at h
    subst h
    simp [fifoRun]
  | cons o ops ih =>
    simp only [fifoRun, Option.bind_eq_some_iff] at h
    obtain ⟨u, hu, hrun⟩ := h
    simp [fifoRun, hu, ih hrun]

/-- One operation: what was in the queue and what is put in is what is taken
out and what is left. -/
theorem append_enqueued_of_fifoStep (h : fifoStep cap q op = some q') :
    q ++ op.enqueued.toList = op.dequeued.toList ++ q' := by
  match op with
  | .enqueue e true =>
    simp only [fifoStep, Option.ite_none_right_eq_some, Option.some.injEq] at h
    simp [FifoOp.enqueued, FifoOp.dequeued, h.2]
  | .enqueue e false =>
    simp only [fifoStep, Option.ite_none_right_eq_some, Option.some.injEq] at h
    simp [FifoOp.enqueued, FifoOp.dequeued, h.2]
  | .dequeue (some e) =>
    simp only [fifoStep, Option.ite_none_right_eq_some, Option.some.injEq] at h
    obtain ⟨hhead, rfl⟩ := h
    simp only [FifoOp.enqueued, FifoOp.dequeued, Option.toList, List.append_nil]
    exact (List.cons_head?_tail hhead).symm
  | .dequeue none =>
    simp only [fifoStep, Option.ite_none_right_eq_some, Option.some.injEq] at h
    simp [FifoOp.enqueued, FifoOp.dequeued, h.2]

theorem length_le_of_fifoStep (hq : q.length ≤ cap) (h : fifoStep cap q op = some q') :
    q'.length ≤ cap := by
  match op with
  | .enqueue e true =>
    simp only [fifoStep, Option.ite_none_right_eq_some, Option.some.injEq] at h
    obtain ⟨hlt, rfl⟩ := h
    simp only [List.length_append, List.length_cons, List.length_nil]
    omega
  | .enqueue e false =>
    simp only [fifoStep, Option.ite_none_right_eq_some, Option.some.injEq] at h
    exact h.2 ▸ hq
  | .dequeue (some e) =>
    simp only [fifoStep, Option.ite_none_right_eq_some, Option.some.injEq] at h
    obtain ⟨-, rfl⟩ := h
    rw [List.length_tail]
    omega
  | .dequeue none =>
    simp only [fifoStep, Option.ite_none_right_eq_some, Option.some.injEq] at h
    exact h.2 ▸ hq

/-- **First in, first out.**  What a list of operations that replays has taken
out, followed by what is left, is what it found and has put in. -/
theorem enqueued_eq_of_fifoRun (h : fifoRun cap q ops = some q') :
    q ++ ops.filterMap FifoOp.enqueued = ops.filterMap FifoOp.dequeued ++ q' := by
  induction ops generalizing q with
  | nil =>
    simp only [fifoRun, Option.some.injEq] at h
    simp [h]
  | cons o ops ih =>
    simp only [fifoRun, Option.bind_eq_some_iff] at h
    obtain ⟨u, hu, hrun⟩ := h
    have hstep := append_enqueued_of_fifoStep hu
    have hcons : ∀ f : FifoOp α → Option α,
        (o :: ops).filterMap f = (f o).toList ++ ops.filterMap f := by
      intro f
      cases hf : f o <;> simp [hf]
    rw [hcons, hcons, ← List.append_assoc, hstep, List.append_assoc, ih hrun, List.append_assoc]

/-- A list of operations that replays never exceeds the capacity. -/
theorem length_le_of_fifoRun (hq : q.length ≤ cap) (h : fifoRun cap q ops = some q') :
    q'.length ≤ cap := by
  induction ops generalizing q with
  | nil =>
    simp only [fifoRun, Option.some.injEq] at h
    exact h ▸ hq
  | cons o ops ih =>
    simp only [fifoRun, Option.bind_eq_some_iff] at h
    obtain ⟨u, hu, hrun⟩ := h
    exact ih (length_le_of_fifoStep hq hu) hrun

end Fifo

/-- Logical positions go round the `n` slots, in whatever order. -/
def Placement {n : ℕ} (place : ℕ → Fin n) : Prop :=
  ∀ i j, place i = place j ↔ i ≡ j [MOD n]

/-- The slots hold exactly `vals`, the first of them at position `r`. -/
structure Holds {n : ℕ} (place : ℕ → Fin n) (slots : Fin n → Option α) (r : ℕ) (vals : List α) :
    Prop where
  length_le : vals.length ≤ n
  slot : ∀ j < n, slots (place (r + j)) = vals[j]?

section Ring

variable {n : ℕ} {place : ℕ → Fin n} {slots : Fin n → Option α} {r : ℕ} {vals : List α}

theorem Placement.add_inj (hp : Placement place) {i j : ℕ} (hi : i < n) (hj : j < n)
    (h : place (r + i) = place (r + j)) : i = j := by
  have hmod : r + i ≡ r + j [MOD n] := (hp _ _).mp h
  have hcancel : i ≡ j [MOD n] := Nat.ModEq.add_left_cancel' r hmod
  rw [Nat.ModEq, Nat.mod_eq_of_lt hi, Nat.mod_eq_of_lt hj] at hcancel
  exact hcancel

/-- Every slot has a position in the `n` positions from `r` on. -/
theorem Placement.exists_add (hp : Placement place) (r : ℕ) (i : Fin n) :
    ∃ j < n, place (r + j) = i := by
  have hinj : Function.Injective fun j : Fin n => place (r + j) := by
    intro a b hab
    exact Fin.ext (hp.add_inj a.isLt b.isLt hab)
  obtain ⟨j, hj⟩ := (Finite.injective_iff_surjective.mp hinj) i
  exact ⟨j, j.isLt, hj⟩

theorem Placement.add_period (hp : Placement place) (r : ℕ) : place (r + n) = place r := by
  refine (hp _ _).mpr ?_
  rw [Nat.ModEq, Nat.add_mod_right]

/-- An empty ring, wherever its position is. -/
theorem holds_nil (r : ℕ) : Holds place (fun _ => (none : Option α)) r [] :=
  ⟨Nat.zero_le n, fun j _ => by simp⟩

/-- The slot of the first position holds the first element. -/
theorem Holds.slot_front (h : Holds place slots r vals) : slots (place r) = vals.head? := by
  have hn : 0 < n := Nat.zero_lt_of_lt (place r).isLt
  have hslot := h.slot 0 hn
  rwa [Nat.add_zero, ← List.head?_eq_getElem?] at hslot

/-- The slot behind the last element is empty, unless the ring is full. -/
theorem Holds.slot_back (hp : Placement place) (h : Holds place slots r vals) :
    slots (place (r + vals.length)) = if vals.length < n then none else vals.head? := by
  by_cases hlt : vals.length < n
  · rw [if_pos hlt, h.slot _ hlt]
    simp
  · have hlen : vals.length = n := le_antisymm h.length_le (not_lt.mp hlt)
    rw [if_neg hlt, hlen, hp.add_period, h.slot_front]

/-- Filling the slot behind the last element appends. -/
theorem Holds.store (hp : Placement place) (h : Holds place slots r vals)
    (hlt : vals.length < n) (e : α) :
    Holds place (Function.update slots (place (r + vals.length)) (some e)) r (vals ++ [e]) := by
  refine ⟨by simp; omega, fun j hj => ?_⟩
  by_cases hjl : j = vals.length
  · subst hjl
    simp
  · have hne : place (r + j) ≠ place (r + vals.length) := fun heq =>
      hjl (hp.add_inj hj hlt heq)
    rw [Function.update_of_ne hne, h.slot j hj]
    by_cases hlow : j < vals.length
    · rw [List.getElem?_append_left hlow]
    · rw [List.getElem?_eq_none (by omega), List.getElem?_eq_none (by simp; omega)]

/-- Emptying the slot of the first element takes it off. -/
theorem Holds.clear (hp : Placement place) {e : α} (h : Holds place slots r (e :: vals)) :
    Holds place (Function.update slots (place r) none) (r + 1) vals := by
  have hlen : vals.length + 1 ≤ n := h.length_le
  refine ⟨by omega, fun j hj => ?_⟩
  by_cases hlast : j + 1 = n
  · have hplace : place (r + 1 + j) = place r := by
      rw [show r + 1 + j = r + n by omega, hp.add_period]
    rw [hplace, Function.update_self, List.getElem?_eq_none (by omega)]
  · have hne : place (r + 1 + j) ≠ place r := by
      intro heq
      have hzero := hp.add_inj (r := r) (i := j + 1) (j := 0) (by omega) (by omega)
        (by rw [← Nat.add_assoc, Nat.add_right_comm]; simpa using heq)
      omega
    rw [Function.update_of_ne hne, show r + 1 + j = r + (j + 1) by omega,
      h.slot (j + 1) (by omega), List.getElem?_cons_succ]

/-- The full slots are as many as the elements. -/
theorem Holds.card_full (hp : Placement place) (h : Holds place slots r vals) :
    (Finset.univ.filter fun i => (slots i).isSome).card = vals.length := by
  have himage : (Finset.univ.filter fun i => (slots i).isSome) =
      (Finset.range vals.length).image fun j => place (r + j) := by
    ext i
    simp only [Finset.mem_filter, Finset.mem_univ, true_and, Finset.mem_image, Finset.mem_range]
    constructor
    · intro hfull
      obtain ⟨j, hj, rfl⟩ := hp.exists_add r i
      rw [h.slot j hj] at hfull
      exact ⟨j, by simpa using hfull, rfl⟩
    · rintro ⟨j, hj, rfl⟩
      rw [h.slot j (lt_of_lt_of_le hj h.length_le)]
      simpa using hj
  rw [himage, Finset.card_image_of_injOn, Finset.card_range]
  intro a ha b hb hab
  have hle := h.length_le
  simp only [Finset.coe_range, Set.mem_Iio] at ha hb
  exact hp.add_inj (by omega) (by omega) hab

end Ring

end SlotRing
