/-
Rings of the last writes, with holes.

A ring of `n` places is written in turn: the write with number `k` goes to place `k % n`, over
what stands there.  An element can be taken out again, which leaves a hole.  The log lists the
writes, the newest first, with a hole for each element that was taken out.

* `Holds` — from the last write backwards, the places hold the beginning of the log;
* `Holds.write`, `Holds.erase` — a write is one more entry, taking an element out makes a hole;
* `Holds.readBack` — reading backwards over the holes gives the window of the log.
-/
import Mathlib.Data.List.ReduceOption
import Mathlib.Tactic

namespace WindowRing

variable {α : Type*} {n : ℕ} [NeZero n] {slots : Fin n → Option α} {next : ℕ}
  {log : List (Option α)} {a : α}

/-- The place of the write that is `i` writes older than the last one, when `next` is the number
of the next. -/
def place (n : ℕ) [NeZero n] (next i : ℕ) : Fin n := Fin.ofNat n (next + (n - 1 - i))

/-- The places hold the beginning of the log. -/
def Holds (slots : Fin n → Option α) (next : ℕ) (log : List (Option α)) : Prop :=
  ∀ i < n, slots (place n next i) = log[i]?.join

/-- What stands among the last `n` writes, the newest first. -/
def window (n : ℕ) (log : List (Option α)) : List α := (log.take n).reduceOption

/-! ### Places -/

theorem place_zero_succ (n : ℕ) [NeZero n] (next : ℕ) :
    place n (next + 1) 0 = Fin.ofNat n next := by
  have hpos := NeZero.pos n
  have hplace : next + 1 + (n - 1 - 0) = next + n := by omega
  apply Fin.ext
  show (next + 1 + (n - 1 - 0)) % n = next % n
  rw [hplace, Nat.add_mod_right]

theorem place_succ_succ {i : ℕ} (hi : i + 1 < n) : place n (next + 1) (i + 1) = place n next i := by
  have hplace : next + 1 + (n - 1 - (i + 1)) = next + (n - 1 - i) := by omega
  rw [place, hplace, place]

/-- The older writes went to other places than the next one goes to. -/
theorem place_ne_next {i : ℕ} (hi : i + 1 < n) : place n next i ≠ Fin.ofNat n next := by
  intro h
  have hval : (next + (n - 1 - i)) % n = next % n := congrArg Fin.val h
  have hzero : (n - 1 - i) % n = 0 % n := Nat.ModEq.add_left_cancel' next hval
  rw [Nat.mod_eq_of_lt (by omega), Nat.zero_mod] at hzero
  omega

/-- Every place is that of one of the last writes. -/
theorem exists_place (next : ℕ) (j : Fin n) : ∃ i < n, place n next i = j := by
  have hj := j.isLt
  obtain ⟨m, hm⟩ : ∃ m, m = next + (n - 1 - j.val) := ⟨_, rfl⟩
  have hlt : m % n < n := Nat.mod_lt m (NeZero.pos n)
  have hdiv := Nat.div_add_mod m n
  refine ⟨m % n, hlt, Fin.ext ?_⟩
  show (next + (n - 1 - m % n)) % n = j.val
  have hplace : next + (n - 1 - m % n) = n * (m / n) + j.val := by omega
  rw [hplace, Nat.mul_add_mod, Nat.mod_eq_of_lt hj]

/-! ### Writing -/

theorem holds_empty (next : ℕ) : Holds (fun _ : Fin n => (none : Option α)) next [] :=
  fun _ _ => rfl

/-- **A write is one more entry of the log.** -/
theorem Holds.write (h : Holds slots next log) (a : α) :
    Holds (Function.update slots (Fin.ofNat n next) (some a)) (next + 1) (some a :: log) := by
  intro i hi
  cases i with
  | zero =>
    rw [place_zero_succ, Function.update_self]
    rfl
  | succ i =>
    rw [place_succ_succ hi, Function.update_of_ne (place_ne_next hi), h i (Nat.lt_of_succ_lt hi)]
    rfl

/-- An element is taken out wherever it stands. -/
def erase [DecidableEq α] (a : α) (e : Option α) : Option α := if e = some a then none else e

theorem Holds.erase [DecidableEq α] (h : Holds slots next log) (a : α) :
    Holds (fun j => erase a (slots j)) next (log.map (erase a)) := by
  intro i hi
  dsimp only
  rw [h i hi, List.getElem?_map]
  cases log[i]? with
  | none => rfl
  | some e => rfl

/-! ### Elements that stand once -/

/-- No element stands at two places. -/
def Distinct (slots : Fin n → Option α) : Prop :=
  ∀ i j a, slots i = some a → slots j = some a → i = j

omit [NeZero n] in
theorem Distinct.write (h : Distinct slots) (hnew : ∀ j, slots j ≠ some a) (k : Fin n) :
    Distinct (Function.update slots k (some a)) := by
  have hold : ∀ {i b}, i ≠ k → Function.update slots k (some a) i = some b →
      slots i = some b ∧ b ≠ a := by
    intro i b hi hb
    rw [Function.update_of_ne hi] at hb
    exact ⟨hb, fun heq => hnew i (heq ▸ hb)⟩
  intro i j b hi hj
  by_cases hik : i = k
  · by_cases hjk : j = k
    · rw [hik, hjk]
    · rw [hik, Function.update_self, Option.some.injEq] at hi
      exact absurd hi.symm (hold hjk hj).2
  · by_cases hjk : j = k
    · rw [hjk, Function.update_self, Option.some.injEq] at hj
      exact absurd hj.symm (hold hik hi).2
    · exact h i j b (hold hik hi).1 (hold hjk hj).1

omit [NeZero n] in
theorem Distinct.erase [DecidableEq α] (h : Distinct slots) (a : α) :
    Distinct fun j => erase a (slots j) := by
  have hstood : ∀ {e : Option α} {b : α}, WindowRing.erase a e = some b → e = some b := by
    intro e b he
    unfold WindowRing.erase at he
    split at he
    · cases he
    · exact he
  exact fun i j b hi hj => h i j b (hstood hi) (hstood hj)

/-- What stands at a place is in the window. -/
theorem Holds.mem_take (h : Holds slots next log) {j : Fin n} (hj : slots j = some a) :
    some a ∈ log.take n := by
  obtain ⟨i, hi, rfl⟩ := exists_place next j
  rw [h i hi, Option.join_eq_some_iff] at hj
  exact List.mem_of_getElem? (i := i) (by rw [List.getElem?_take_of_lt hi, hj])

/-! ### Reading -/

theorem filterMap_range_eq (log : List (Option α)) (n : ℕ) :
    (List.range n).filterMap (fun i => log[i]?.join) = (log.take n).reduceOption := by
  induction n generalizing log with
  | zero => rfl
  | succ n ih =>
    rw [List.range_succ_eq_map, List.filterMap_cons, List.filterMap_map]
    cases log with
    | nil =>
      rw [List.take_nil]
      exact List.filterMap_eq_nil_iff.mpr fun _ _ => rfl
    | cons e log =>
      have hrest : (List.range n).filterMap ((fun i => (e :: log)[i]?.join) ∘ Nat.succ) =
          (log.take n).reduceOption := ih log
      rw [hrest, List.take_succ_cons]
      cases e with
      | none => rfl
      | some a => rfl

/-- **Reading backwards gives the window.** -/
theorem Holds.readBack (h : Holds slots next log) :
    (List.range n).filterMap (fun i => slots (place n next i)) = window n log := by
  rw [window, ← filterMap_range_eq]
  exact List.filterMap_congr fun i hi => h i (List.mem_range.mp hi)

end WindowRing
