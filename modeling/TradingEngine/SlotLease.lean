/-
Leases of pool slots.

`lease k` is the slot a key holds, if it holds one, and `active p` is the mark
the pool keeps on a slot.  `Leased lease active` says that no slot is held twice
and that the marked slots are exactly the held ones.

* `Leased.grant` — a key without a slot is given one that is not marked;
* `Leased.revoke` — a key gives its slot back.
-/
import Mathlib.Tactic

/-- No slot is held twice, and the active slots are the held ones. -/
structure Leased {κ σ : Type*} (lease : κ → Option σ) (active : σ → Bool) : Prop where
  unique : ∀ {k k' : κ} {p : σ}, lease k = some p → lease k' = some p → k = k'
  active_iff : ∀ p, active p = true ↔ ∃ k, lease k = some p

namespace Leased

variable {κ σ : Type*} {lease : κ → Option σ} {active : σ → Bool} {k : κ} {p : σ}

theorem none (hactive : ∀ p, active p = false) : Leased (fun _ : κ => Option.none) active := by
  constructor
  · intro k k' p h
    exact absurd h (by simp)
  · intro p
    simp [hactive p]

variable [DecidableEq κ] [DecidableEq σ]

theorem grant (h : Leased lease active) (hk : lease k = Option.none) (hp : active p = false) :
    Leased (Function.update lease k (some p)) (Function.update active p true) := by
  -- nobody holds a slot that is not active
  have hfree : ∀ j, lease j ≠ some p := by
    intro j hj
    have hact := (h.active_iff p).mpr ⟨j, hj⟩
    rw [hp] at hact
    exact absurd hact (by simp)
  constructor
  · intro j j' q hj hj'
    by_cases hjk : j = k
    · by_cases hjk' : j' = k
      · exact hjk.trans hjk'.symm
      · rw [hjk, Function.update_self] at hj
        rw [Function.update_of_ne hjk', ← hj] at hj'
        exact absurd hj' (hfree j')
    · by_cases hjk' : j' = k
      · rw [hjk', Function.update_self] at hj'
        rw [Function.update_of_ne hjk, ← hj'] at hj
        exact absurd hj (hfree j)
      · rw [Function.update_of_ne hjk] at hj
        rw [Function.update_of_ne hjk'] at hj'
        exact h.unique hj hj'
  · intro q
    by_cases hq : q = p
    · subst hq
      rw [Function.update_self]
      exact ⟨fun _ => ⟨k, Function.update_self k _ _⟩, fun _ => rfl⟩
    · rw [Function.update_of_ne hq, h.active_iff q]
      constructor
      · rintro ⟨j, hj⟩
        have hjk : j ≠ k := by
          rintro rfl
          rw [hk] at hj
          exact absurd hj (by simp)
        exact ⟨j, by rw [Function.update_of_ne hjk, hj]⟩
      · rintro ⟨j, hj⟩
        by_cases hjk : j = k
        · rw [hjk, Function.update_self, Option.some.injEq] at hj
          exact absurd hj.symm hq
        · rw [Function.update_of_ne hjk] at hj
          exact ⟨j, hj⟩

theorem revoke (h : Leased lease active) (hk : lease k = some p) :
    Leased (Function.update lease k Option.none) (Function.update active p false) := by
  -- the other keys hold what they held
  have hkept : ∀ j q, Function.update lease k Option.none j = some q →
      j ≠ k ∧ lease j = some q := by
    intro j q hj
    by_cases hjk : j = k
    · rw [hjk, Function.update_self] at hj
      exact absurd hj (by simp)
    · rw [Function.update_of_ne hjk] at hj
      exact ⟨hjk, hj⟩
  constructor
  · intro j j' q hj hj'
    exact h.unique (hkept j q hj).2 (hkept j' q hj').2
  · intro q
    by_cases hq : q = p
    · subst hq
      rw [Function.update_self]
      constructor
      · intro hfalse
        exact absurd hfalse (by simp)
      · rintro ⟨j, hj⟩
        -- a second holder of the slot given back would be `k`
        obtain ⟨hjk, hj⟩ := hkept j q hj
        exact absurd (h.unique hj hk) hjk
    · rw [Function.update_of_ne hq, h.active_iff q]
      constructor
      · rintro ⟨j, hj⟩
        have hjk : j ≠ k := by
          rintro rfl
          rw [hk, Option.some.injEq] at hj
          exact hq hj.symm
        exact ⟨j, by rw [Function.update_of_ne hjk, hj]⟩
      · rintro ⟨j, hj⟩
        exact ⟨j, (hkept j q hj).2⟩

end Leased
