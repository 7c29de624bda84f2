/-
The per-socket pending queues (`utils/CustomQueue.h`).

`CustomQueue<T, N>` is a ring buffer with two operations on its newest end.
`swap_last_two` exchanges the two newest elements.  `back` is meant to return
the newest one, but it looks at slot 0 whenever the oldest element is there,
and at the slot before slot 0 when the next element goes to slot 0.
-/
import TradingEngine.Order
import TradingEngine.RingBuffer

namespace TradingEngine

/-- `CustomQueue<T, N>`. -/
abbrev CustomQueue (α : Type*) (n : ℕ) := RingBuffer α n

namespace CustomQueue

variable {α : Type*} {n : ℕ} {q : CustomQueue α n} {a : α}

/-- `CustomQueue::back`. -/
def back (q : CustomQueue α n) : Except Fault (Option α) :=
  if q.head = q.tail then .ok none
  else if q.head.val = 0 then .ok (some (q.slots q.head))
  else if q.tail.val = 0 then .error .outOfBounds
  else .ok (some (q.slots ⟨q.tail.val - 1, by omega⟩))

/-- `CustomQueue::swap_last_two`. -/
def swapLastTwo (q : CustomQueue α n) : CustomQueue α n :=
  let last := RingBuffer.shift q.tail (n - 1)
  let preLast := RingBuffer.shift q.tail (n - 2)
  if q.tail = q.head ∨ last = q.head then q
  else
    { q with
      slots := Function.update (Function.update q.slots preLast (q.slots last)) last
        (q.slots preLast) }

/-- A queue with one element has nothing to swap. -/
theorem swapLastTwo_of_items (h : q.items = [a]) : q.swapLastTwo = q := by
  have hsize : q.size = 1 := by rw [← RingBuffer.length_items, h, List.length_singleton]
  have htail := q.shift_head_size
  have hh := q.head.isLt
  rw [hsize] at htail
  rw [swapLastTwo, if_pos]
  right
  rw [← htail]
  apply Fin.ext
  show ((q.head.val + 1) % n + (n - 1)) % n = q.head.val
  rw [Nat.mod_add_mod, Nat.add_assoc, Nat.add_sub_cancel' (by omega), Nat.add_mod_right,
    Nat.mod_eq_of_lt hh]

/-- What `push` does to an empty queue that has room. -/
theorem items_push_of_nil (hn : 2 ≤ n) (h : q.items = []) : (q.push a).items = [a] := by
  have hfull : q.full = false := by
    rw [Bool.eq_false_iff]
    intro hfull
    have hsize := RingBuffer.full_iff.mp hfull
    rw [← RingBuffer.length_items, h, List.length_nil] at hsize
    omega
  rw [RingBuffer.items_push hfull, h, List.nil_append]

/-- `back` finds what was pushed to an empty queue, unless it is in the last slot. -/
theorem back_push_of_nil (h : q.items = []) (hlast : q.tail.val + 1 ≠ n) :
    back (q.push a) = .ok (some a) := by
  have hlt := q.tail.isLt
  have hsize := congrArg List.length h
  rw [RingBuffer.length_items, List.length_nil] at hsize
  have hhead : q.head = q.tail := RingBuffer.size_eq_zero_iff.mp hsize
  have hnext : (RingBuffer.shift q.tail 1).val = q.tail.val + 1 :=
    RingBuffer.val_shift_of_lt (by omega)
  have hfull : q.full = false := by
    rw [Bool.eq_false_iff]
    intro hfull
    have hsame := RingBuffer.full_iff.mp hfull
    omega
  rw [RingBuffer.push, if_neg (by rw [hfull]; exact Bool.false_ne_true), back]
  have hne : q.head ≠ RingBuffer.shift q.tail 1 := by
    intro heq
    have hval := congrArg Fin.val heq
    rw [hhead, hnext] at hval
    omega
  have hslot : (⟨(RingBuffer.shift q.tail 1).val - 1, by omega⟩ : Fin n) = q.tail := by
    apply Fin.ext
    show (RingBuffer.shift q.tail 1).val - 1 = q.tail.val
    omega
  dsimp only
  rw [if_neg hne]
  split
  · rw [hhead, Function.update_self]
  · rw [if_neg (by omega), hslot, Function.update_self]

end CustomQueue

end TradingEngine
