/-
Rings that are written in turn and never emptied.

Several rings of `n` places share one counter.  The write with number `k` puts its element
at place `k % n` of one of them, over whatever stands there.  The log lists the writes:
which ring, which element.

* `LastAt` — the last write of the log to a place of a ring;
* `Records` — the places hold exactly the last writes;
* `Records.write` — writing a place and appending to the log keeps this.
-/
import Mathlib.Tactic

namespace RingLog

variable {ι α : Type*} {n : ℕ} {log : List (ι × α)} {i : ι} {a : α}

/-- The write with number `k` went to place `j` of ring `i`, and no later one did. -/
def LastAt (n : ℕ) (log : List (ι × α)) (i : ι) (j : ℕ) (a : α) : Prop :=
  ∃ k, log[k]? = some (i, a) ∧ k % n = j ∧
    ∀ l b, k < l → l % n = j → log[l]? ≠ some (i, b)

/-- `a` was written to ring `i` and has not been overwritten. -/
def Stands (n : ℕ) (log : List (ι × α)) (i : ι) (a : α) : Prop := ∃ j, LastAt n log i j a

theorem LastAt.mem {j : ℕ} (h : LastAt n log i j a) : (i, a) ∈ log := by
  obtain ⟨k, hk, -, -⟩ := h
  exact List.mem_of_getElem? hk

/-- The new write is the last one to its place. -/
theorem lastAt_append_self {b : α} :
    LastAt n (log ++ [(i, b)]) i (log.length % n) a ↔ a = b := by
  constructor
  · rintro ⟨k, hk, hplace, hlater⟩
    rcases Nat.lt_trichotomy k log.length with hlt | rfl | hgt
    · exact (hlater log.length b hlt rfl List.getElem?_concat_length).elim
    · rw [List.getElem?_concat_length, Option.some.injEq, Prod.mk.injEq] at hk
      exact hk.2.symm
    · rw [List.getElem?_eq_none (by rw [List.length_append]; exact hgt)] at hk
      cases hk
  · rintro rfl
    refine ⟨log.length, List.getElem?_concat_length, rfl, fun l b hl _ hsome => ?_⟩
    rw [List.getElem?_eq_none (by rw [List.length_append]; exact hl)] at hsome
    cases hsome

/-- Every other place keeps its last write. -/
theorem lastAt_append_of_ne {i' : ι} {b : α} {j : ℕ} (hne : ¬(i = i' ∧ j = log.length % n)) :
    LastAt n (log ++ [(i', b)]) i j a ↔ LastAt n log i j a := by
  constructor
  · rintro ⟨k, hk, hplace, hlater⟩
    -- the new write went to another place, so the last one to this place is older
    have hlt : k < log.length := by
      by_contra hge
      have hlast : k = log.length := by
        have hlen := (List.getElem?_eq_some_iff.mp hk).1
        rw [List.length_append, List.length_singleton] at hlen
        omega
      rw [hlast, List.getElem?_concat_length, Option.some.injEq, Prod.mk.injEq] at hk
      exact hne ⟨hk.1.symm, by rw [← hplace, hlast]⟩
    rw [List.getElem?_append_left hlt] at hk
    refine ⟨k, hk, hplace, fun l c hl hl' hsome => ?_⟩
    have hl'' := (List.getElem?_eq_some_iff.mp hsome).1
    exact hlater l c hl hl' (by rw [List.getElem?_append_left hl'', hsome])
  · rintro ⟨k, hk, hplace, hlater⟩
    have hlt := (List.getElem?_eq_some_iff.mp hk).1
    refine ⟨k, by rw [List.getElem?_append_left hlt, hk], hplace, fun l c hl hl' hsome => ?_⟩
    by_cases hold : l < log.length
    · rw [List.getElem?_append_left hold] at hsome
      exact hlater l c hl hl' hsome
    · have hlast : l = log.length := by
        have hlen := (List.getElem?_eq_some_iff.mp hsome).1
        rw [List.length_append, List.length_singleton] at hlen
        omega
      rw [hlast, List.getElem?_concat_length, Option.some.injEq, Prod.mk.injEq] at hsome
      exact hne ⟨hsome.1.symm, by rw [← hl', hlast]⟩

/-- Each place of each ring holds the last write to it. -/
def Records (ring : ι → Fin n → Option α) (log : List (ι × α)) : Prop :=
  ∀ i j a, ring i j = some a ↔ LastAt n log i j.val a

theorem records_empty : Records (fun (_ : ι) (_ : Fin n) => (none : Option α)) [] := by
  intro i j a
  constructor
  · intro h
    cases h
  · intro h
    cases h.mem

/-- **A write is recorded.** -/
theorem Records.write [DecidableEq ι] {ring : ι → Fin n → Option α} (h : Records ring log) (i : ι)
    (a : α) {j : Fin n} (hj : j.val = log.length % n) :
    Records (Function.update ring i (Function.update (ring i) j (some a)))
      (log ++ [(i, a)]) := by
  intro i' j' a'
  by_cases hi : i' = i
  · subst hi
    rw [Function.update_self]
    by_cases hj' : j' = j
    · rw [hj', Function.update_self, hj, lastAt_append_self, Option.some.injEq, eq_comm]
    · rw [Function.update_of_ne hj', h, lastAt_append_of_ne]
      rintro ⟨-, heq⟩
      exact hj' (Fin.ext (heq.trans hj.symm))
  · rw [Function.update_of_ne hi, h, lastAt_append_of_ne fun heq => hi heq.1]

/-- What stands in a ring is what some place of it holds. -/
theorem Records.stands_iff {ring : ι → Fin n → Option α} (h : Records ring log) (hn : 0 < n) :
    Stands n log i a ↔ ∃ j, ring i j = some a := by
  constructor
  · rintro ⟨j, hlast⟩
    have hj : j < n := by
      obtain ⟨k, -, rfl, -⟩ := hlast
      exact Nat.mod_lt k hn
    exact ⟨⟨j, hj⟩, (h i ⟨j, hj⟩ a).mpr hlast⟩
  · rintro ⟨j, hj⟩
    exact ⟨j, (h i j a).mp hj⟩

end RingLog
