/-
The pending queues over runs (`utils/CustomQueue.h`).

`CustomQueue<T, N>` keeps at most `N - 1` elements in a ring of `N` slots.  Its interface is
that of a list that is appended to at one end and taken from at the other, except `back`.
`back` looks at slot 0 when the oldest element is there, and else at the slot with the number
`tail_ - 1`, which there is not when the next element goes to slot 0.

* `val_shift_eq_and` — for a power of two the places of the ring are the masked sums of
  the source;
* `items_swapLastTwo` — `swap_last_two` exchanges the two newest elements;
* `customQueue_refines` — every sequence of operations, from every position of the ring,
  returns what the list returns;
* `back_newest_iff` — after which sequences `back` is the newest element.
-/
import TradingEngine.CustomQueue
import TradingEngine.Refinement

namespace TradingEngine

open Refinement

/-! ### Places of the ring -/

/-- `(i + k) & (N - 1)`. -/
theorem val_shift_eq_and {p : ℕ} (i : Fin (2 ^ p)) (k : ℕ) :
    (RingBuffer.shift i k).val = (i + k) &&& (2 ^ p - 1) :=
  (Nat.and_two_pow_sub_one_eq_mod (i + k) p).symm

namespace CustomQueue

variable {α : Type*} {n : ℕ} {q : CustomQueue α n}

/-- `CustomQueue::size`, `(tail_ - head_ + N) & (N - 1)`. -/
def maskedSize (q : CustomQueue α n) : ℕ := (q.tail + n - q.head) % n

theorem maskedSize_eq (q : CustomQueue α n) : q.maskedSize = RingBuffer.size q := by
  have hh := q.head.isLt
  have ht := q.tail.isLt
  rw [maskedSize, RingBuffer.size]
  split
  · rename_i h
    have hle : q.head.val ≤ q.tail.val := h
    rw [show q.tail.val + n - q.head.val = q.tail.val - q.head.val + n by omega,
      Nat.add_mod_right, Nat.mod_eq_of_lt (by omega)]
  · rename_i h
    have hlt : q.tail.val < q.head.val := not_le.mp h
    rw [Nat.mod_eq_of_lt (by omega)]

/-- `CustomQueue::empty`. -/
def empty (q : CustomQueue α n) : Bool := q.head = q.tail

/-- `CustomQueue::front`; `none` is the null pointer of the empty queue. -/
def front (q : CustomQueue α n) : Option α :=
  if q.head = q.tail then none else some (q.slots q.head)

/-- `CustomQueue::clear`. -/
def clear [NeZero n] (q : CustomQueue α n) : CustomQueue α n := { q with head := 0, tail := 0 }

theorem empty_eq (q : CustomQueue α n) : q.empty = q.items.isEmpty := by
  rw [empty, Bool.eq_iff_iff, decide_eq_true_eq, List.isEmpty_iff_length_eq_zero,
    RingBuffer.length_items, RingBuffer.size_eq_zero_iff]

theorem front_eq (q : CustomQueue α n) : q.front = q.items.head? := by
  cases hpop : q.pop with
  | none =>
    rw [RingBuffer.pop_eq_none_iff.mp hpop, front, if_pos]
    · rfl
    · rw [← RingBuffer.size_eq_zero_iff, ← RingBuffer.length_items,
        RingBuffer.pop_eq_none_iff.mp hpop, List.length_nil]
  | some popped =>
    obtain ⟨a, q'⟩ := popped
    have hitems := RingBuffer.items_pop hpop
    unfold RingBuffer.pop at hpop
    split at hpop
    · cases hpop
    · rename_i hne
      rw [Option.some.injEq, Prod.mk.injEq] at hpop
      rw [front, if_neg hne, hitems, List.head?_cons, hpop.1]

theorem items_clear [NeZero n] (q : CustomQueue α n) : q.clear.items = [] := by
  rw [← List.length_eq_zero_iff, RingBuffer.length_items, RingBuffer.size_eq_zero_iff]
  rfl

/-! ### The two newest elements -/

/-- The last two elements of a list exchanged. -/
def swapLast (l : List α) : List α :=
  match l.reverse with
  | b :: a :: rest => (a :: b :: rest).reverse
  | _ => l

theorem swapLast_append (l : List α) (a b : α) : swapLast (l ++ [a, b]) = l ++ [b, a] := by
  simp [swapLast]

theorem swapLast_of_length_le {l : List α} (h : l.length ≤ 1) : swapLast l = l := by
  match l with
  | [] => rfl
  | [a] => rfl
  | a :: b :: rest =>
    simp only [List.length_cons] at h
    omega

/-- Going back from the place behind the newest element. -/
theorem shift_tail_sub {k : ℕ} (hk : k ≤ RingBuffer.size q) :
    RingBuffer.shift q.tail (n - k) = RingBuffer.shift q.head (RingBuffer.size q - k) := by
  have hsize := q.size_lt
  rw [← q.shift_head_size]
  apply Fin.ext
  show ((q.head.val + RingBuffer.size q) % n + (n - k)) % n =
    (q.head.val + (RingBuffer.size q - k)) % n
  rw [Nat.mod_add_mod, show q.head.val + RingBuffer.size q + (n - k) =
    q.head.val + (RingBuffer.size q - k) + n by omega, Nat.add_mod_right]

/-- **`swap_last_two` exchanges the two newest elements.** -/
theorem items_swapLastTwo (q : CustomQueue α n) : q.swapLastTwo.items = swapLast q.items := by
  have hlt := q.size_lt
  by_cases hfew : RingBuffer.size q ≤ 1
  · rw [swapLast_of_length_le (by rw [RingBuffer.length_items]; exact hfew), swapLastTwo, if_pos]
    rcases Nat.le_one_iff_eq_zero_or_eq_one.mp hfew with hzero | hone
    · exact .inl (RingBuffer.size_eq_zero_iff.mp hzero).symm
    · right
      rw [shift_tail_sub hone.ge, hone]
      exact Fin.ext (Nat.mod_eq_of_lt q.head.isLt)
  · obtain ⟨m, hm⟩ : ∃ m, RingBuffer.size q = m + 2 := ⟨RingBuffer.size q - 2, by omega⟩
    have hlast : RingBuffer.shift q.tail (n - 1) = RingBuffer.shift q.head (m + 1) := by
      rw [shift_tail_sub (by omega), hm]
      rfl
    have hpre : RingBuffer.shift q.tail (n - 2) = RingBuffer.shift q.head m := by
      rw [shift_tail_sub (by omega), hm]
      rfl
    have hne : RingBuffer.shift q.head m ≠ RingBuffer.shift q.head (m + 1) := by
      intro h
      have := RingBuffer.shift_inj (by omega) (by omega) h
      omega
    have hguard : ¬(q.tail = q.head ∨ RingBuffer.shift q.head (m + 1) = q.head) := by
      rintro (h | h)
      · have hzero := RingBuffer.size_eq_zero_iff.mpr h.symm
        omega
      · have hself : RingBuffer.shift q.head 0 = q.head := Fin.ext (Nat.mod_eq_of_lt q.head.isLt)
        have := RingBuffer.shift_inj (by omega) (by omega) (h.trans hself.symm)
        omega
    have hitems : q.items = (List.range m).map (fun k => q.slots (RingBuffer.shift q.head k)) ++
        [q.slots (RingBuffer.shift q.head m), q.slots (RingBuffer.shift q.head (m + 1))] := by
      rw [RingBuffer.items, hm, List.range_succ, List.range_succ]
      simp
    have hswap : q.swapLastTwo = { q with
        slots := Function.update (Function.update q.slots (RingBuffer.shift q.head m)
          (q.slots (RingBuffer.shift q.head (m + 1)))) (RingBuffer.shift q.head (m + 1))
          (q.slots (RingBuffer.shift q.head m)) } := by
      rw [swapLastTwo, hlast, hpre, if_neg hguard]
    rw [hitems, swapLast_append, hswap, RingBuffer.items]
    show (List.range (RingBuffer.size q)).map _ = _
    rw [hm, List.range_succ, List.range_succ, List.append_assoc, List.map_append]
    congr 1
    · refine List.map_congr_left fun k hk => ?_
      have hk' := List.mem_range.mp hk
      -- the older elements stand in other slots
      have hk₁ : RingBuffer.shift q.head k ≠ RingBuffer.shift q.head (m + 1) := by
        intro h
        have := RingBuffer.shift_inj (by omega) (by omega) h
        omega
      have hk₀ : RingBuffer.shift q.head k ≠ RingBuffer.shift q.head m := by
        intro h
        have := RingBuffer.shift_inj (by omega) (by omega) h
        omega
      show Function.update _ _ _ (RingBuffer.shift q.head k) = _
      rw [Function.update_of_ne hk₁, Function.update_of_ne hk₀]
    · rw [List.singleton_append, List.map_cons, List.map_singleton]
      dsimp only
      rw [Function.update_self, Function.update_of_ne hne, Function.update_self]

end CustomQueue

/-! ### The interface -/

/-- A call of a queue. -/
inductive QueueOp (α : Type*)
  | push (b : α)
  | pop
  | front
  | size
  | empty
  | clear
  | swapLastTwo

/-- What a call returns. -/
inductive QueueResult (α : Type*)
  | accepted (ok : Bool)
  | element (b : Option α)
  | count (k : ℕ)
  | isEmpty (b : Bool)
  | done

section Interface

variable {α : Type*} {n : ℕ}

/-- The calls on the ring. -/
def CustomQueue.call [NeZero n] (q : CustomQueue α n) :
    QueueOp α → CustomQueue α n × QueueResult α
  | .push b => (q.push b, .accepted !q.full)
  | .pop =>
    match q.pop with
    | none => (q, .element none)
    | some (b, q') => (q', .element (some b))
  | .front => (q, .element q.front)
  | .size => (q, .count q.maskedSize)
  | .empty => (q, .isEmpty q.empty)
  | .clear => (q.clear, .done)
  | .swapLastTwo => (q.swapLastTwo, .done)

/-- The calls on a list of at most `capacity` elements, oldest first. -/
def listCall (capacity : ℕ) (l : List α) : QueueOp α → List α × QueueResult α
  | .push b =>
    if l.length < capacity then (l ++ [b], .accepted true) else (l, .accepted false)
  | .pop => (l.tail, .element l.head?)
  | .front => (l, .element l.head?)
  | .size => (l, .count l.length)
  | .empty => (l, .isEmpty l.isEmpty)
  | .clear => ([], .done)
  | .swapLastTwo => (CustomQueue.swapLast l, .done)

/-- One call on the ring is the call on its elements. -/
theorem call_items [NeZero n] (q : CustomQueue α n) (op : QueueOp α) :
    (q.call op).2 = (listCall (n - 1) q.items op).2 ∧
      (q.call op).1.items = (listCall (n - 1) q.items op).1 := by
  have hlen : q.items.length = RingBuffer.size q := q.length_items
  have hlt := q.size_lt
  cases op with
  | push b =>
    simp only [CustomQueue.call, listCall]
    by_cases hfull : q.full = true
    · have hsize := RingBuffer.full_iff.mp hfull
      rw [if_neg (by omega), RingBuffer.push, if_pos hfull, hfull]
      exact ⟨rfl, rfl⟩
    · have hsize : RingBuffer.size q + 1 ≠ n := fun h => hfull (RingBuffer.full_iff.mpr h)
      rw [Bool.not_eq_true] at hfull
      rw [if_pos (by omega), RingBuffer.items_push hfull, hfull]
      exact ⟨rfl, rfl⟩
  | pop =>
    simp only [CustomQueue.call, listCall]
    cases hpop : q.pop with
    | none =>
      have hnil := RingBuffer.pop_eq_none_iff.mp hpop
      exact ⟨by rw [hnil]; rfl, by rw [hnil]; rfl⟩
    | some popped =>
      rw [RingBuffer.items_pop hpop]
      exact ⟨rfl, rfl⟩
  | front => exact ⟨congrArg QueueResult.element q.front_eq, rfl⟩
  | size => exact ⟨congrArg QueueResult.count (q.maskedSize_eq.trans hlen.symm), rfl⟩
  | empty => exact ⟨congrArg QueueResult.isEmpty q.empty_eq, rfl⟩
  | clear => exact ⟨rfl, q.items_clear⟩
  | swapLastTwo => exact ⟨rfl, q.items_swapLastTwo⟩

theorem call_simulates [NeZero n] :
    Simulates (fun (q : CustomQueue α n) l => q.items = l) (fun _ _ => True) CustomQueue.call
      (listCall (n - 1)) where
  result h _ := h ▸ (call_items _ _).1
  next h _ := h ▸ (call_items _ _).2

end Interface

/-- **The queue is a bounded list.**  For every capacity that is a power of two and at
least 2, whatever stands in the ring and wherever its ends are, every sequence of calls
returns what the list of the elements returns, and leaves its elements. -/
theorem customQueue_refines {α : Type*} (p : ℕ) (q : CustomQueue α (2 ^ (p + 1)))
    (ops : List (QueueOp α)) :
    results CustomQueue.call q ops = results (listCall (2 ^ (p + 1) - 1)) q.items ops ∧
      (final CustomQueue.call q ops).items = final (listCall (2 ^ (p + 1) - 1)) q.items ops :=
  ⟨call_simulates.results_eq rfl (legal_true _ _ _),
    call_simulates.final_rel rfl (legal_true _ _ _)⟩

/-- A ring of two slots that has turned once: one element fits, a second does not. -/
example : results CustomQueue.call (⟨fun _ => 0, 1, 1⟩ : CustomQueue ℕ 2)
      [.push 7, .push 8, .swapLastTwo, .size, .pop, .pop] =
    [.accepted true, .accepted false, .done, .count 1, .element (some 7), .element none] := rfl

/-! ### The newest element -/

namespace CustomQueue

variable {α : Type*} {n : ℕ}

theorem getLast?_items (q : CustomQueue α n) {k : ℕ} (hk : RingBuffer.size q = k + 1) :
    q.items.getLast? = some (q.slots (RingBuffer.shift q.head k)) := by
  rw [RingBuffer.items, hk, List.range_succ, List.map_append, List.map_singleton,
    List.getLast?_concat]

/-- The slot before the place of the next element, without a mask. -/
theorem shift_eq_tail_pred (q : CustomQueue α n) {k : ℕ} (hk : RingBuffer.size q = k + 1)
    (htail : q.tail.val ≠ 0) : (RingBuffer.shift q.head k).val = q.tail.val - 1 := by
  have hlt := q.tail.isLt
  have hback := shift_tail_sub (q := q) (k := 1) (by omega)
  rw [hk, Nat.add_sub_cancel] at hback
  rw [← hback, RingBuffer.val_shift_of_le (by omega) (by omega)]
  omega

/-- `back` in a state of the ring. -/
theorem back_eq_iff (q : CustomQueue α n) :
    q.back = .ok q.items.getLast? ↔
      if q.head.val = 0 then q.items.head? = q.items.getLast? else q.tail.val ≠ 0 := by
  by_cases hempty : q.head = q.tail
  · have hnil : q.items = [] := by
      rw [← List.length_eq_zero_iff, RingBuffer.length_items]
      exact RingBuffer.size_eq_zero_iff.mpr hempty
    rw [back, if_pos hempty, hnil, ← hempty]
    refine ⟨fun _ => ?_, fun _ => rfl⟩
    split
    · rfl
    · rename_i hzero
      exact hzero
  · have hfront : some (q.slots q.head) = q.items.head? := by
      rw [← q.front_eq, front, if_neg hempty]
    obtain ⟨k, hk⟩ : ∃ k, RingBuffer.size q = k + 1 :=
      Nat.exists_eq_succ_of_ne_zero fun hzero => hempty (RingBuffer.size_eq_zero_iff.mp hzero)
    rw [back, if_neg hempty]
    by_cases hhead : q.head.val = 0
    · rw [if_pos hhead, if_pos hhead, hfront, Except.ok.injEq]
    · rw [if_neg hhead, if_neg hhead]
      by_cases htail : q.tail.val = 0
      · rw [if_pos htail]
        exact ⟨(fun h => by cases h), fun h => absurd htail h⟩
      · rw [if_neg htail, q.getLast?_items hk, Except.ok.injEq, Option.some.injEq]
        refine ⟨fun _ => htail, fun _ => congrArg q.slots (Fin.ext ?_)⟩
        exact (q.shift_eq_tail_pred hk htail).symm

end CustomQueue

/-- A list that is used as a queue, and how many elements have been taken from it since it was
last cleared. -/
structure TurnedList (α : Type*) where
  taken : ℕ := 0
  items : List α := []

namespace TurnedList

variable {α : Type*}

/-- A call on the list. -/
def call (capacity : ℕ) (l : TurnedList α) (op : QueueOp α) : TurnedList α × QueueResult α :=
  ({ taken :=
      match op with
      | .pop => if l.items = [] then l.taken else l.taken + 1
      | .clear => 0
      | _ => l.taken
     items := (listCall capacity l.items op).1 },
    (listCall capacity l.items op).2)

/-- Where the oldest element is in slot 0, it is also the newest; elsewhere the next element does
not go to slot 0. -/
def BackFound (n : ℕ) (l : TurnedList α) : Prop :=
  if l.taken % n = 0 then l.items.head? = l.items.getLast?
  else (l.taken + l.items.length) % n ≠ 0

end TurnedList

section Turns

variable {α : Type*} {n : ℕ}

/-- The ring has turned as far as elements have been taken. -/
structure TurnedAs (q : CustomQueue α n) (l : TurnedList α) : Prop where
  items : q.items = l.items
  head : q.head.val = l.taken % n

theorem TurnedAs.tail {q : CustomQueue α n} {l : TurnedList α} (h : TurnedAs q l) :
    q.tail.val = (l.taken + l.items.length) % n := by
  rw [← q.shift_head_size, ← RingBuffer.length_items, h.items]
  show (q.head.val + l.items.length) % n = _
  rw [h.head, Nat.mod_add_mod]

theorem head_pop (q : CustomQueue α n) {b : α} {q' : CustomQueue α n}
    (h : q.pop = some (b, q')) : q'.head = RingBuffer.shift q.head 1 := by
  unfold RingBuffer.pop at h
  split at h
  · cases h
  · rw [Option.some.injEq, Prod.mk.injEq] at h
    rw [← h.2]

theorem turnedAs_call [NeZero n] {q : CustomQueue α n} {l : TurnedList α} (h : TurnedAs q l)
    (op : QueueOp α) : TurnedAs (q.call op).1 (l.call (n - 1) op).1 := by
  refine ⟨?_, ?_⟩
  · rw [(call_items q op).2, h.items]
    rfl
  · cases op with
    | push b =>
      show (q.push b).head.val = l.taken % n
      rw [RingBuffer.push]
      split
      · exact h.head
      · exact h.head
    | pop =>
      -- the head moves on unless the queue is empty
      show (q.call .pop).1.head.val = (if l.items = [] then l.taken else l.taken + 1) % n
      rw [← h.items, CustomQueue.call]
      cases hpop : q.pop with
      | none =>
        rw [if_pos (RingBuffer.pop_eq_none_iff.mp hpop)]
        exact h.head
      | some popped =>
        obtain ⟨b, q'⟩ := popped
        have hne : q.items ≠ [] := by
          rw [RingBuffer.items_pop hpop]
          exact List.cons_ne_nil _ _
        rw [if_neg hne]
        show q'.head.val = _
        rw [head_pop q hpop]
        show (q.head.val + 1) % n = _
        rw [h.head, Nat.mod_add_mod]
    | front => exact h.head
    | size => exact h.head
    | empty => exact h.head
    | clear =>
      -- the head is reset, and the count of pops starts again
      show (0 : Fin n).val = 0 % n
      rw [Nat.zero_mod]
      rfl
    | swapLastTwo =>
      show q.swapLastTwo.head.val = l.taken % n
      rw [CustomQueue.swapLastTwo]
      split
      · exact h.head
      · exact h.head

theorem turned_simulates [NeZero n] :
    Simulates (TurnedAs (α := α) (n := n)) (fun _ _ => True) CustomQueue.call
      (TurnedList.call (n - 1)) where
  result h _ := by
    rw [(call_items _ _).1, h.items]
    rfl
  next h _ := turnedAs_call h _

end Turns

/-- **When `back` is the newest element.**  A queue that starts empty, whatever its slots hold,
has after every sequence of calls the elements of the list; `back` returns the last of them
exactly when the oldest element is in slot 0 and also the last, or neither the oldest element
is in slot 0 nor will the next one be. -/
theorem back_newest_iff {α : Type*} (p : ℕ) (slots : Fin (2 ^ (p + 1)) → α)
    (ops : List (QueueOp α)) :
    let q := final CustomQueue.call ⟨slots, 0, 0⟩ ops
    let l := final (TurnedList.call (2 ^ (p + 1) - 1)) {} ops
    q.items = l.items ∧ (q.back = .ok l.items.getLast? ↔ l.BackFound (2 ^ (p + 1))) := by
  intro q l
  have hstart : TurnedAs (⟨slots, 0, 0⟩ : CustomQueue α (2 ^ (p + 1))) {} :=
    ⟨(CustomQueue.items_clear ⟨slots, 0, 0⟩), (Nat.zero_mod _).symm⟩
  have hturned : TurnedAs q l := turned_simulates.final_rel hstart (legal_true _ _ _)
  refine ⟨hturned.items, ?_⟩
  rw [← hturned.items, CustomQueue.back_eq_iff, hturned.head, hturned.tail, hturned.items]
  rfl

/-- In a ring of four slots that has not turned, `back` is the oldest of two elements; in one of
two slots, it leaves the ring as soon as one element has been taken. -/
theorem back_missed :
    CustomQueue.back (final CustomQueue.call (⟨fun _ => 0, 0, 0⟩ : CustomQueue ℕ 4)
      [.push 7, .push 8]) = .ok (some 7) ∧
    (final CustomQueue.call (⟨fun _ => 0, 0, 0⟩ : CustomQueue ℕ 4)
      [.push 7, .push 8]).items = [7, 8] ∧
    CustomQueue.back (final CustomQueue.call (⟨fun _ => 0, 0, 0⟩ : CustomQueue ℕ 2)
      [.push 7, .pop, .push 8]) = .error .outOfBounds ∧
    (final CustomQueue.call (⟨fun _ => 0, 0, 0⟩ : CustomQueue ℕ 2)
      [.push 7, .pop, .push 8]).items = [8] :=
  ⟨rfl, rfl, rfl, rfl⟩

end TradingEngine
