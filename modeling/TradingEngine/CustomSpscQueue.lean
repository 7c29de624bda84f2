/-
The single-producer single-consumer queue (`utils/CustomSpscQueue`).

The queue has no shared index and no count: a slot holds a pointer or is null,
the producer keeps the index it writes at, the consumer the one it reads at, and
both send their index through `remap`, a rotation of its low bits.  Indices are
64-bit and wrap.

One move of a thread is one access to a slot or one increment of its index, so
a list of `Move`s is an interleaving of the two threads:

* `remap_eq_iff` — for every admissible size, two positions share a slot exactly
  when they are equal modulo the size, wrapped or not;
* `CustomSpscQueue.Inv` — the slots hold the elements from the consumer's position to
  the producer's, with the half-finished calls of both sides accounted for;
* `step_sim` — each move is a step of a bounded FIFO or leaves it as it is;
* `spsc_refines_bounded_fifo` — every interleaving behaves as a FIFO whose
  capacity is the number of slots.

A pointer that is pushed is not null, as the source asserts: the elements are
of an arbitrary type `α`, and a slot is an `Option α`.
-/
import Mathlib.Tactic
import TradingEngine.SlotRing

namespace TradingEngine

open SlotRing

/-- The sizes the template admits: a power of two, at least 8, of type `size_t`. -/
structure SpscSize where
  N : UInt64
  has_single_bit : ∃ k, N.toNat = 2 ^ k
  eight_le : 8 ≤ N.toNat

/-- `std::countr_one`: the ones below the lowest zero. -/
def countrOne (x : UInt64) : ℕ :=
  ((List.range 64).takeWhile fun i => x.toNat.testBit i).length

namespace SpscSize

variable (N : SpscSize)

def lBits : UInt64 := 3

def hBits : UInt64 := UInt64.ofNat (countrOne (N.N - 1)) - lBits

/-- The slot of a logical index: the low three bits of it choose the cache line. -/
def remap (i : UInt64) : UInt64 :=
  let idx := i &&& (N.N - 1)
  ((idx &&& 7) <<< N.hBits) ||| (idx >>> lBits)

end SpscSize

theorem takeWhile_testBit_ones {k m : ℕ} (hk : k ≤ m) :
    ((List.range m).takeWhile fun i => (2 ^ k - 1).testBit i) = List.range k := by
  have hsplit : List.range m = List.range k ++ (List.range (m - k)).map (k + ·) := by
    rw [← List.range_add, Nat.add_sub_cancel' hk]
  rw [hsplit, List.takeWhile_append_of_pos]
  · rcases hm : m - k with _ | d
    · simp
    · rw [List.range_succ_eq_map]
      simp [Nat.testBit_two_pow_sub_one]
  · intro i hi
    simpa [Nat.testBit_two_pow_sub_one] using hi

namespace SpscSize

variable (N : SpscSize)

/-- The size is a power of two between `2 ^ 3` and `2 ^ 63`. -/
theorem exists_pow : ∃ h, N.N.toNat = 2 ^ (h + 3) ∧ h ≤ 60 := by
  obtain ⟨k, hk⟩ := N.has_single_bit
  have hlt := N.N.toNat_lt
  have hge := N.eight_le
  rw [hk] at hlt hge
  have h3 : 3 ≤ k := (Nat.pow_le_pow_iff_right (a := 2) (by omega)).mp hge
  have h64 : k < 64 := (Nat.pow_lt_pow_iff_right (a := 2) (by omega)).mp hlt
  exact ⟨k - 3, by rw [hk]; congr 1; omega, by omega⟩

theorem toNat_mask {h : ℕ} (hN : N.N.toNat = 2 ^ (h + 3)) : (N.N - 1).toNat = 2 ^ (h + 3) - 1 := by
  rw [UInt64.toNat_sub_of_le _ _ (UInt64.le_iff_toNat_le.mpr (by have := N.eight_le; simp; omega)),
    hN]
  rfl

theorem toNat_hBits {h : ℕ} (hN : N.N.toNat = 2 ^ (h + 3)) (hle : h ≤ 60) :
    N.hBits.toNat = h := by
  have hones : countrOne (N.N - 1) = h + 3 := by
    rw [countrOne, N.toNat_mask hN, takeWhile_testBit_ones (by omega), List.length_range]
  have hthree : lBits ≤ UInt64.ofNat (h + 3) := by
    rw [UInt64.le_iff_toNat_le, UInt64.toNat_ofNat']
    show 3 ≤ _
    omega
  rw [hBits, hones, UInt64.toNat_sub_of_le _ _ hthree, UInt64.toNat_ofNat']
  show (h + 3) % 2 ^ 64 - 3 = h
  omega

/-- The rotation in arithmetic terms. -/
theorem toNat_remap {h : ℕ} (hN : N.N.toNat = 2 ^ (h + 3)) (hle : h ≤ 60) (i : UInt64) :
    (N.remap i).toNat =
      i.toNat % 2 ^ (h + 3) % 8 * 2 ^ h + i.toNat % 2 ^ (h + 3) / 8 := by
  have hidx : (i &&& (N.N - 1)).toNat = i.toNat % 2 ^ (h + 3) := by
    rw [UInt64.toNat_and, N.toNat_mask hN, Nat.and_two_pow_sub_one_eq_mod]
  have hlow : ((i &&& (N.N - 1)) &&& 7).toNat = i.toNat % 2 ^ (h + 3) % 8 := by
    rw [UInt64.toNat_and, hidx]
    exact Nat.and_two_pow_sub_one_eq_mod _ 3
  have hpow : 2 ^ h ≤ 2 ^ 60 := Nat.pow_le_pow_right (by omega) hle
  have hdiv : i.toNat % 2 ^ (h + 3) / 8 < 2 ^ h := by
    have hmod : i.toNat % 2 ^ (h + 3) < 2 ^ (h + 3) := Nat.mod_lt _ (by positivity)
    rw [pow_add] at hmod ⊢
    omega
  have hshl : i.toNat % 2 ^ (h + 3) % 8 * 2 ^ h < 2 ^ 64 := by
    have h8 : i.toNat % 2 ^ (h + 3) % 8 ≤ 7 := by omega
    calc i.toNat % 2 ^ (h + 3) % 8 * 2 ^ h ≤ 7 * 2 ^ 60 := Nat.mul_le_mul h8 hpow
      _ < 2 ^ 64 := by norm_num
  rw [remap, UInt64.toNat_or, UInt64.toNat_shiftLeft, UInt64.toNat_shiftRight, hlow, hidx,
    N.toNat_hBits hN hle, Nat.mod_eq_of_lt (by omega : h < 64), Nat.shiftLeft_eq,
    Nat.mod_eq_of_lt hshl, Nat.shiftRight_eq_div_pow, mul_comm]
  exact (Nat.two_pow_add_eq_or_of_lt hdiv _).symm

theorem remap_lt (i : UInt64) : (N.remap i).toNat < N.N.toNat := by
  obtain ⟨h, hN, hle⟩ := N.exists_pow
  rw [N.toNat_remap hN hle, hN]
  have hmod : i.toNat % 2 ^ (h + 3) < 2 ^ (h + 3) := Nat.mod_lt _ (by positivity)
  rw [pow_add] at hmod ⊢
  have hdiv : i.toNat % (2 ^ h * 2 ^ 3) / 8 < 2 ^ h := by omega
  have hlow : i.toNat % (2 ^ h * 2 ^ 3) % 8 * 2 ^ h ≤ 7 * 2 ^ h :=
    Nat.mul_le_mul_right _ (by omega)
  omega

/-- **The rotation is a bijection of the slots.**  Two positions of the
unbounded sequence share a slot exactly when they are equal modulo the size. -/
theorem remap_eq_iff (i j : ℕ) :
    N.remap (UInt64.ofNat i) = N.remap (UInt64.ofNat j) ↔ i ≡ j [MOD N.N.toNat] := by
  obtain ⟨h, hN, hle⟩ := N.exists_pow
  have hdvd : 2 ^ (h + 3) ∣ 2 ^ 64 := Nat.pow_dvd_pow 2 (by omega)
  have hmod : ∀ n, (UInt64.ofNat n).toNat % 2 ^ (h + 3) = n % 2 ^ (h + 3) := by
    intro n
    rw [UInt64.toNat_ofNat', Nat.mod_mod_of_dvd _ hdvd]
  have hdiv : ∀ n, n % 2 ^ (h + 3) / 8 < 2 ^ h := by
    intro n
    have hlt : n % 2 ^ (h + 3) < 2 ^ (h + 3) := Nat.mod_lt _ (by positivity)
    rw [pow_add] at hlt ⊢
    omega
  rw [← UInt64.toNat_inj, N.toNat_remap hN hle, N.toNat_remap hN hle, hmod, hmod, hN, Nat.ModEq]
  constructor
  · intro heq
    -- the quotient and the remainder by `2 ^ h` are the low bits and the rest
    have hlow : i % 2 ^ (h + 3) % 8 = j % 2 ^ (h + 3) % 8 := by
      have hquot := congrArg (· / 2 ^ h) heq
      simpa [Nat.add_comm, Nat.add_mul_div_right, Nat.div_eq_of_lt (hdiv i),
        Nat.div_eq_of_lt (hdiv j)] using hquot
    have hhigh : i % 2 ^ (h + 3) / 8 = j % 2 ^ (h + 3) / 8 := by
      rw [hlow] at heq
      omega
    omega
  · intro heq
    rw [heq]

/-- The slot of a logical index. -/
def slotOf (i : UInt64) : Fin N.N.toNat := ⟨(N.remap i).toNat, N.remap_lt i⟩

/-- The slot of a position of the unbounded sequence. -/
def place (i : ℕ) : Fin N.N.toNat := N.slotOf (UInt64.ofNat i)

theorem placement : Placement N.place := by
  intro i j
  rw [← N.remap_eq_iff, ← UInt64.toNat_inj]
  exact Fin.ext_iff

end SpscSize

/-- Where the producer is in a call of `push`. -/
inductive ProducerPc (N : SpscSize) (α : Type*)
  | idle
  /-- the slot was seen empty -/
  | storing (slot : Fin N.N.toNat) (elem : α)
  /-- the slot is written -/
  | advancing (elem : α)

/-- Where the consumer is in a call of `pop`. -/
inductive ConsumerPc (N : SpscSize) (α : Type*)
  | idle
  /-- the slot was seen full -/
  | clearing (slot : Fin N.N.toNat) (elem : α)
  /-- the slot is emptied -/
  | advancing (elem : α)

structure CustomSpscQueue (N : SpscSize) (α : Type*) where
  readIdx : UInt64
  writeIdx : UInt64
  buffer : Fin N.N.toNat → Option α
  producer : ProducerPc N α
  consumer : ConsumerPc N α

/-- Which thread takes its next step.  `next` is the argument of the `push`
that the producer calls when it is not inside one. -/
inductive Move (α : Type*)
  | producer (next : α)
  | consumer

namespace CustomSpscQueue

variable {N : SpscSize} {α : Type*}

def init (N : SpscSize) (α : Type*) : CustomSpscQueue N α :=
  { readIdx := 0, writeIdx := 0, buffer := fun _ => none, producer := .idle, consumer := .idle }

/-- What a move does to the queue, which operation takes effect in it and which
call returns in it. -/
structure Outcome (N : SpscSize) (α : Type*) where
  queue : CustomSpscQueue N α
  effect : Option (FifoOp α)
  returned : Option (FifoOp α)

/-- The next step of the producer. -/
def push (q : CustomSpscQueue N α) (next : α) : Outcome N α :=
  match q.producer with
  | .idle =>
    let slot := N.slotOf q.writeIdx
    match q.buffer slot with
    | some _ => ⟨q, some (.enqueue next false), some (.enqueue next false)⟩
    | none => ⟨{ q with producer := .storing slot next }, none, none⟩
  | .storing slot elem =>
    ⟨{ q with buffer := Function.update q.buffer slot (some elem), producer := .advancing elem },
      some (.enqueue elem true), none⟩
  | .advancing elem =>
    ⟨{ q with writeIdx := q.writeIdx + 1, producer := .idle }, none, some (.enqueue elem true)⟩

/-- The next step of the consumer. -/
def pop (q : CustomSpscQueue N α) : Outcome N α :=
  match q.consumer with
  | .idle =>
    let slot := N.slotOf q.readIdx
    match q.buffer slot with
    | none => ⟨q, some (.dequeue none), some (.dequeue none)⟩
    | some elem => ⟨{ q with consumer := .clearing slot elem }, none, none⟩
  | .clearing slot elem =>
    ⟨{ q with buffer := Function.update q.buffer slot none, consumer := .advancing elem },
      some (.dequeue (some elem)), none⟩
  | .advancing elem =>
    ⟨{ q with readIdx := q.readIdx + 1, consumer := .idle }, none, some (.dequeue (some elem))⟩

def step (q : CustomSpscQueue N α) : Move α → Outcome N α
  | .producer next => q.push next
  | .consumer => q.pop

/-- How many elements are in the buffer. -/
def occupied (q : CustomSpscQueue N α) : ℕ := (Finset.univ.filter fun i => (q.buffer i).isSome).card

end CustomSpscQueue

/-- What the producer's call has done and not yet returned. -/
def ProducerPc.pending {N : SpscSize} {α : Type*} : ProducerPc N α → List (FifoOp α)
  | .advancing elem => [.enqueue elem true]
  | _ => []

/-- What the consumer's call has done and not yet returned. -/
def ConsumerPc.pending {N : SpscSize} {α : Type*} : ConsumerPc N α → List (FifoOp α)
  | .advancing elem => [.dequeue (some elem)]
  | _ => []

/-- A queue with the operations that took effect on it and the calls that
returned, in order. -/
structure SpscHistory (N : SpscSize) (α : Type*) where
  queue : CustomSpscQueue N α
  effects : List (FifoOp α)
  returned : List (FifoOp α)

namespace SpscHistory

variable {N : SpscSize} {α : Type*}

def init (N : SpscSize) (α : Type*) : SpscHistory N α := ⟨CustomSpscQueue.init N α, [], []⟩

def move (h : SpscHistory N α) (m : Move α) : SpscHistory N α :=
  let o := h.queue.step m
  ⟨o.queue, h.effects ++ o.effect.toList, h.returned ++ o.returned.toList⟩

/-- An interleaving of the two threads. -/
def run (ms : List (Move α)) : SpscHistory N α := ms.foldl move (init N α)

end SpscHistory

namespace CustomSpscQueue

variable {N : SpscSize} {α : Type*}

/-- The producer's index and its half-finished call, when the slots hold `vals`
from position `r` on. -/
def ProducerAt (q : CustomSpscQueue N α) (r : ℕ) (vals : List α) : Prop :=
  match q.producer with
  | .idle => q.writeIdx = UInt64.ofNat (r + vals.length)
  | .storing slot _ =>
    q.writeIdx = UInt64.ofNat (r + vals.length) ∧ slot = N.place (r + vals.length) ∧
      vals.length < N.N.toNat
  | .advancing _ => q.writeIdx + 1 = UInt64.ofNat (r + vals.length)

/-- The consumer's index and its half-finished call. -/
def ConsumerAt (q : CustomSpscQueue N α) (r : ℕ) (vals : List α) : Prop :=
  match q.consumer with
  | .idle => q.readIdx = UInt64.ofNat r
  | .clearing slot elem =>
    q.readIdx = UInt64.ofNat r ∧ slot = N.place r ∧ vals.head? = some elem
  | .advancing _ => q.readIdx + 1 = UInt64.ofNat r

/-- The queue represents the list `vals`, whose first element is at position `r`. -/
structure Inv (q : CustomSpscQueue N α) (r : ℕ) (vals : List α) : Prop where
  holds : Holds N.place q.buffer r vals
  producer : q.ProducerAt r vals
  consumer : q.ConsumerAt r vals

theorem inv_init : (init N α).Inv 0 [] where
  holds := holds_nil 0
  producer := rfl
  consumer := rfl

theorem ofNat_succ (n : ℕ) : UInt64.ofNat n + 1 = UInt64.ofNat (n + 1) := by
  rw [UInt64.ofNat_add]
  rfl

/-- What a step of the producer changes of what the consumer relies on. -/
theorem ConsumerAt.append {q q' : CustomSpscQueue N α} {r : ℕ} {vals : List α} (es : List α)
    (h : q.ConsumerAt r vals) (hc : q'.consumer = q.consumer) (hr : q'.readIdx = q.readIdx) :
    q'.ConsumerAt r (vals ++ es) := by
  unfold ConsumerAt at h ⊢
  rw [hc, hr]
  cases hcons : q.consumer with
  | idle => simpa [hcons] using h
  | clearing slot elem =>
    simp only [hcons] at h
    obtain ⟨hidx, hslot, hhead⟩ := h
    refine ⟨hidx, hslot, ?_⟩
    rw [List.head?_append, hhead]
    rfl
  | advancing elem => simpa [hcons] using h

/-- What a step of the consumer changes of what the producer relies on: the
end of the elements stays where it is, and there is no less room. -/
theorem ProducerAt.drop {q q' : CustomSpscQueue N α} {r r' : ℕ} {vals vals' : List α}
    (h : q.ProducerAt r vals) (hp : q'.producer = q.producer) (hw : q'.writeIdx = q.writeIdx)
    (hend : r' + vals'.length = r + vals.length) (hle : vals'.length ≤ vals.length) :
    q'.ProducerAt r' vals' := by
  unfold ProducerAt at h ⊢
  rw [hp, hw, hend]
  cases hprod : q.producer with
  | idle => simpa [hprod] using h
  | storing slot elem =>
    simp only [hprod] at h
    exact ⟨h.1, h.2.1, lt_of_le_of_lt hle h.2.2⟩
  | advancing elem => simpa [hprod] using h

/-- What takes effect and what returns on the producer's side differ by the
call under way. -/
theorem pending_push (q : CustomSpscQueue N α) (m : Move α) :
    (q.step m).returned.toList.filter FifoOp.isEnqueue ++ (q.step m).queue.producer.pending =
      q.producer.pending ++ (q.step m).effect.toList.filter FifoOp.isEnqueue := by
  cases m with
  | producer next =>
    cases hpc : q.producer with
    | idle =>
      cases hseen : q.buffer (N.slotOf q.writeIdx) <;>
        simp [step, push, hpc, hseen, ProducerPc.pending]
    | storing slot elem =>
      simp only [step, push, hpc, ProducerPc.pending]
      rfl
    | advancing elem => simp [step, push, hpc, ProducerPc.pending, FifoOp.isEnqueue]
  | consumer =>
    cases hpc : q.consumer with
    | idle =>
      cases hseen : q.buffer (N.slotOf q.readIdx) <;>
        simp [step, pop, hpc, hseen, FifoOp.isEnqueue]
    | clearing slot elem => simp [step, pop, hpc, FifoOp.isEnqueue]
    | advancing elem => simp [step, pop, hpc, FifoOp.isEnqueue]

/-- What takes effect and what returns on the consumer's side differ by the
call under way. -/
theorem pending_pop (q : CustomSpscQueue N α) (m : Move α) :
    (q.step m).returned.toList.filter (!·.isEnqueue) ++ (q.step m).queue.consumer.pending =
      q.consumer.pending ++ (q.step m).effect.toList.filter (!·.isEnqueue) := by
  cases m with
  | producer next =>
    cases hpc : q.producer with
    | idle =>
      cases hseen : q.buffer (N.slotOf q.writeIdx) <;>
        simp [step, push, hpc, hseen, FifoOp.isEnqueue]
    | storing slot elem => simp [step, push, hpc, FifoOp.isEnqueue]
    | advancing elem => simp [step, push, hpc, FifoOp.isEnqueue]
  | consumer =>
    cases hpc : q.consumer with
    | idle =>
      cases hseen : q.buffer (N.slotOf q.readIdx) <;>
        simp [step, pop, hpc, hseen, ConsumerPc.pending, FifoOp.isEnqueue]
    | clearing slot elem => simp [step, pop, hpc, ConsumerPc.pending, FifoOp.isEnqueue]
    | advancing elem => simp [step, pop, hpc, ConsumerPc.pending, FifoOp.isEnqueue]

/-- A `push` that fails has its effect in the move in which it returns. -/
theorem effect_of_push_fails {q : CustomSpscQueue N α} {next e : α}
    (h : (q.push next).returned = some (.enqueue e false)) :
    (q.push next).effect = some (.enqueue e false) := by
  cases hpc : q.producer with
  | idle =>
    cases hseen : q.buffer (N.slotOf q.writeIdx) with
    | none => simp [push, hpc, hseen] at h
    | some _ => simpa [push, hpc, hseen] using h
  | storing slot elem => simp [push, hpc] at h
  | advancing elem => simp [push, hpc] at h

/-- A `pop` that fails has its effect in the move in which it returns. -/
theorem effect_of_pop_fails {q : CustomSpscQueue N α} (h : q.pop.returned = some (.dequeue none)) :
    q.pop.effect = some (.dequeue none) := by
  cases hpc : q.consumer with
  | idle =>
    cases hseen : q.buffer (N.slotOf q.readIdx) with
    | none => simp [pop, hpc, hseen]
    | some _ => simp [pop, hpc, hseen] at h
  | clearing slot elem => simp [pop, hpc] at h
  | advancing elem => simp [pop, hpc] at h

/-- The elements after an operation that may have taken effect. -/
def Effect [DecidableEq α] (n : ℕ) (vals : List α) (effect : Option (FifoOp α)) (vals' : List α) :
    Prop :=
  match effect with
  | none => vals' = vals
  | some op => fifoStep n vals op = some vals'

variable [DecidableEq α]

/-- A step of the producer is a step of the bounded FIFO, or none. -/
theorem push_sim {q : CustomSpscQueue N α} {r : ℕ} {vals : List α} (h : q.Inv r vals) (next : α) :
    ∃ vals', (q.push next).queue.Inv r vals' ∧
      Effect N.N.toNat vals (q.push next).effect vals' := by
  obtain ⟨hholds, hprod, hcons⟩ := h
  unfold ProducerAt at hprod
  cases hpc : q.producer with
  | idle =>
    simp only [hpc] at hprod
    have hslot : q.buffer (N.slotOf q.writeIdx) =
        if vals.length < N.N.toNat then none else vals.head? := by
      rw [hprod]
      exact hholds.slot_back N.placement
    cases hseen : q.buffer (N.slotOf q.writeIdx) with
    | some e =>
      -- the slot is taken: the queue is full
      have hlen : vals.length = N.N.toNat := by
        refine le_antisymm hholds.length_le (not_lt.mp fun hlt => ?_)
        rw [hseen, if_pos hlt] at hslot
        cases hslot
      refine ⟨vals, ?_, ?_⟩
      · simp only [push, hpc, hseen]
        exact ⟨hholds, by simpa [ProducerAt, hpc] using hprod, hcons⟩
      · simp only [push, hpc, hseen, Effect, fifoStep, if_pos hlen]
    | none =>
      -- the slot is free, and stays so until the producer has stored
      have hlt : vals.length < N.N.toNat := by
        by_contra hge
        rw [hseen, if_neg hge] at hslot
        have hnil : vals = [] := List.head?_eq_none_iff.mp hslot.symm
        have h8 := N.eight_le
        simp only [hnil, List.length_nil] at hge
        omega
      refine ⟨vals, ?_, ?_⟩
      · simp only [push, hpc, hseen]
        exact ⟨hholds, ⟨hprod, by rw [hprod]; rfl, hlt⟩, hcons⟩
      · simp only [push, hpc, hseen, Effect]
  | storing slot elem =>
    -- the element is in the queue from here on
    simp only [hpc] at hprod
    obtain ⟨hidx, rfl, hlt⟩ := hprod
    refine ⟨vals ++ [elem], ?_, ?_⟩
    · simp only [push, hpc]
      refine ⟨hholds.store N.placement hlt elem, ?_, hcons.append [elem] rfl rfl⟩
      show q.writeIdx + 1 = _
      rw [hidx, ofNat_succ, List.length_append, ← Nat.add_assoc]
      rfl
    · simp only [push, hpc, Effect, fifoStep, if_pos hlt]
  | advancing elem =>
    simp only [hpc] at hprod
    refine ⟨vals, ?_, ?_⟩
    · simp only [push, hpc]
      exact ⟨hholds, hprod, hcons⟩
    · simp only [push, hpc, Effect]

/-- A step of the consumer is a step of the bounded FIFO, or none. -/
theorem pop_sim {q : CustomSpscQueue N α} {r : ℕ} {vals : List α} (h : q.Inv r vals) :
    ∃ r' vals', q.pop.queue.Inv r' vals' ∧ Effect N.N.toNat vals q.pop.effect vals' := by
  obtain ⟨hholds, hprod, hcons⟩ := h
  unfold ConsumerAt at hcons
  cases hpc : q.consumer with
  | idle =>
    simp only [hpc] at hcons
    have hslot : q.buffer (N.slotOf q.readIdx) = vals.head? := by
      rw [hcons]
      exact hholds.slot_front
    cases hseen : q.buffer (N.slotOf q.readIdx) with
    | none =>
      have hnil : vals = [] := List.head?_eq_none_iff.mp (hslot.symm.trans hseen)
      refine ⟨r, vals, ?_, ?_⟩
      · simp only [pop, hpc, hseen]
        exact ⟨hholds, hprod, by simpa [ConsumerAt, hpc] using hcons⟩
      · simp only [pop, hpc, hseen, Effect, fifoStep, if_pos hnil]
    | some elem =>
      refine ⟨r, vals, ?_, ?_⟩
      · simp only [pop, hpc, hseen]
        exact ⟨hholds, hprod, ⟨hcons, by rw [hcons]; rfl, hslot.symm.trans hseen⟩⟩
      · simp only [pop, hpc, hseen, Effect]
  | clearing slot elem =>
    -- the element is out of the queue from here on
    simp only [hpc] at hcons
    obtain ⟨hidx, rfl, hhead⟩ := hcons
    obtain ⟨rest, rfl⟩ : ∃ rest, vals = elem :: rest :=
      ⟨vals.tail, (List.cons_head?_tail hhead).symm⟩
    refine ⟨r + 1, rest, ?_, ?_⟩
    · simp only [pop, hpc]
      refine ⟨hholds.clear N.placement, hprod.drop rfl rfl ?_ ?_, ?_⟩
      · rw [List.length_cons]
        omega
      · rw [List.length_cons]
        omega
      · show q.readIdx + 1 = _
        rw [hidx, ofNat_succ]
    · simp only [pop, hpc, Effect, fifoStep, List.head?_cons, if_true, List.tail_cons]
  | advancing elem =>
    simp only [hpc] at hcons
    refine ⟨r, vals, ?_, ?_⟩
    · simp only [pop, hpc]
      exact ⟨hholds, hprod, hcons⟩
    · simp only [pop, hpc, Effect]

/-- **Every move is a step of the bounded FIFO, or none.** -/
theorem step_sim {q : CustomSpscQueue N α} {r : ℕ} {vals : List α} (h : q.Inv r vals) (m : Move α) :
    ∃ r' vals', (q.step m).queue.Inv r' vals' ∧
      Effect N.N.toNat vals (q.step m).effect vals' := by
  cases m with
  | producer next => exact ⟨r, push_sim h next⟩
  | consumer => exact pop_sim h

end CustomSpscQueue

namespace SpscHistory

variable {N : SpscSize} {α : Type*} [DecidableEq α]

/-- What an interleaving has done: the operations that took effect are those of
a bounded FIFO holding what is in the slots, and the calls that returned are
those operations, up to the one call each thread may be in. -/
structure Refines (h : SpscHistory N α) : Prop where
  represents : ∃ r vals, h.queue.Inv r vals ∧ fifoRun N.N.toNat [] h.effects = some vals
  pushes : h.returned.filter FifoOp.isEnqueue ++ h.queue.producer.pending =
    h.effects.filter FifoOp.isEnqueue
  pops : h.returned.filter (!·.isEnqueue) ++ h.queue.consumer.pending =
    h.effects.filter (!·.isEnqueue)

theorem refines_move {h : SpscHistory N α} (hr : h.Refines) (m : Move α) : (h.move m).Refines := by
  obtain ⟨⟨r, vals, hinv, hrun⟩, hpush, hpop⟩ := hr
  refine ⟨?_, ?_, ?_⟩
  · obtain ⟨r', vals', hinv', heff⟩ := CustomSpscQueue.step_sim hinv m
    refine ⟨r', vals', hinv', ?_⟩
    show fifoRun N.N.toNat [] (h.effects ++ (h.queue.step m).effect.toList) = _
    unfold CustomSpscQueue.Effect at heff
    cases hop : (h.queue.step m).effect with
    | none =>
      simp only [hop] at heff
      rw [Option.toList_none, List.append_nil, hrun, heff]
    | some op =>
      simp only [hop] at heff
      rw [Option.toList_some, fifoRun_append_singleton hrun, heff]
  · show (h.returned ++ (h.queue.step m).returned.toList).filter _ ++ _ =
      (h.effects ++ (h.queue.step m).effect.toList).filter _
    rw [List.filter_append, List.filter_append, List.append_assoc]
    rw [show (h.move m).queue = (h.queue.step m).queue from rfl, CustomSpscQueue.pending_push,
      ← List.append_assoc, hpush]
  · show (h.returned ++ (h.queue.step m).returned.toList).filter _ ++ _ =
      (h.effects ++ (h.queue.step m).effect.toList).filter _
    rw [List.filter_append, List.filter_append, List.append_assoc]
    rw [show (h.move m).queue = (h.queue.step m).queue from rfl, CustomSpscQueue.pending_pop,
      ← List.append_assoc, hpop]

theorem refines_run (ms : List (Move α)) : (run ms : SpscHistory N α).Refines := by
  induction ms using List.reverseRecOn with
  | nil => exact ⟨⟨0, [], CustomSpscQueue.inv_init, rfl⟩, rfl, rfl⟩
  | append_singleton ms m ih =>
    rw [run, List.foldl_append]
    exact refines_move ih m

end SpscHistory

theorem filterMap_enqueued_filter {α : Type*} (ops : List (FifoOp α)) :
    (ops.filter FifoOp.isEnqueue).filterMap FifoOp.enqueued = ops.filterMap FifoOp.enqueued := by
  rw [List.filterMap_filter]
  congr 1
  funext op
  cases op <;> rfl

theorem filterMap_dequeued_filter {α : Type*} (ops : List (FifoOp α)) :
    (ops.filter (!·.isEnqueue)).filterMap FifoOp.dequeued = ops.filterMap FifoOp.dequeued := by
  rw [List.filterMap_filter]
  congr 1
  funext op
  cases op <;> rfl

/-- **The queue refines a bounded FIFO.**  For every admissible size and every
interleaving of the steps of one producer and one consumer:

* the operations that took effect replay on a FIFO whose capacity is the number
  of slots, and end with a list as long as there are full slots;
* a call returns what its operation did: on each side the calls that returned are
  the operations, except for the call that is under way;
* the values popped, then the one being handed out, then those in the buffer are
  the values pushed, in order;
* a `push` that fails finds every slot full, a `pop` that fails finds none. -/
theorem spsc_refines_bounded_fifo (N : SpscSize) {α : Type*} [DecidableEq α]
    (ms : List (Move α)) :
    let h : SpscHistory N α := SpscHistory.run ms
    ∃ vals : List α,
      fifoRun N.N.toNat [] h.effects = some vals ∧
      vals.length = h.queue.occupied ∧ vals.length ≤ N.N.toNat ∧
      h.returned.filter FifoOp.isEnqueue ++ h.queue.producer.pending =
        h.effects.filter FifoOp.isEnqueue ∧
      h.returned.filter (!·.isEnqueue) ++ h.queue.consumer.pending =
        h.effects.filter (!·.isEnqueue) ∧
      h.returned.filterMap FifoOp.enqueued ++
          h.queue.producer.pending.filterMap FifoOp.enqueued =
        h.returned.filterMap FifoOp.dequeued ++
          h.queue.consumer.pending.filterMap FifoOp.dequeued ++ vals ∧
      (∀ next, (h.queue.step (.producer next)).returned = some (.enqueue next false) →
        h.queue.occupied = N.N.toNat) ∧
      ((h.queue.step .consumer).returned = some (.dequeue none) → h.queue.occupied = 0) := by
  intro h
  obtain ⟨⟨r, vals, hinv, hrun⟩, hpush, hpop⟩ : h.Refines := SpscHistory.refines_run ms
  have hlen : h.queue.occupied = vals.length := hinv.holds.card_full N.placement
  refine ⟨vals, hrun, hlen.symm, hinv.holds.length_le, hpush, hpop, ?_, ?_, ?_⟩
  · -- the FIFO's account, with the values of the calls under way added
    have hfifo := enqueued_eq_of_fifoRun hrun
    rw [List.nil_append, ← filterMap_enqueued_filter, ← hpush, List.filterMap_append,
      filterMap_enqueued_filter, ← filterMap_dequeued_filter, ← hpop, List.filterMap_append,
      filterMap_dequeued_filter] at hfifo
    exact hfifo
  · intro next hfail
    obtain ⟨vals', -, heff⟩ := CustomSpscQueue.push_sim hinv next
    rw [CustomSpscQueue.effect_of_push_fails hfail] at heff
    simp only [CustomSpscQueue.Effect, fifoStep, Option.ite_none_right_eq_some] at heff
    rw [hlen, heff.1]
  · intro hfail
    obtain ⟨r', vals', -, heff⟩ := CustomSpscQueue.pop_sim hinv
    rw [CustomSpscQueue.effect_of_pop_fails hfail] at heff
    simp only [CustomSpscQueue.Effect, fifoStep, Option.ite_none_right_eq_some] at heff
    rw [hlen, heff.1, List.length_nil]

end TradingEngine
