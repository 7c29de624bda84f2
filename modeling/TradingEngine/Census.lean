/-
Counting what a finite population holds.

A `place : α → Option β` says where each member of a finite type is, `none` for
nowhere, and `count place b` is the number of members at `b`.

* `count_enter`, `count_leave` — one member enters a place or leaves it;
* `sum_count` — on a table with rows and columns, the members in a row are the
  sum over the cells of the row.
-/
import Mathlib.Algebra.BigOperators.Group.Finset.Basic
import Mathlib.Data.Fintype.Card
import Mathlib.Tactic

namespace Census

variable {α β : Type*} [Fintype α] [DecidableEq β]

/-- The number of members at `b`. -/
def count (place : α → Option β) (b : β) : ℕ :=
  (Finset.univ.filter fun a => place a = some b).card

@[simp] theorem count_nowhere (b : β) : count (fun _ : α => none) b = 0 := by
  simp [count]

theorem count_le_card (place : α → Option β) (b : β) : count place b ≤ Fintype.card α :=
  Finset.card_le_univ _

section Moves

variable [DecidableEq α]

/-- A member that was nowhere enters `b`. -/
theorem count_enter (place : α → Option β) {a : α} (ha : place a = none) (b b' : β) :
    count (Function.update place a (some b)) b' = count place b' + if b = b' then 1 else 0 := by
  by_cases hb : b = b'
  · subst hb
    rw [if_pos rfl, count, count]
    have hset : (Finset.univ.filter fun x => Function.update place a (some b) x = some b) =
        insert a (Finset.univ.filter fun x => place x = some b) := by
      ext x
      by_cases hx : x = a
      · simp [hx]
      · simp [hx]
    rw [hset, Finset.card_insert_of_notMem (by simp [ha])]
  · rw [if_neg hb, Nat.add_zero, count, count]
    congr 1
    ext x
    by_cases hx : x = a
    · simp [hx, hb, ha]
    · simp [hx]

/-- A member at `b` leaves. -/
theorem count_leave (place : α → Option β) {a : α} {b : β} (ha : place a = some b) (b' : β) :
    count (Function.update place a none) b' + (if b = b' then 1 else 0) = count place b' := by
  have hagain : Function.update (Function.update place a none) a (some b) = place := by
    rw [Function.update_idem, ← ha, Function.update_eq_self]
  have henter := count_enter (Function.update place a none) (Function.update_self a none place) b b'
  rw [hagain] at henter
  exact henter.symm

omit [Fintype α] [DecidableEq β] in
/-- Moving a member commutes with forgetting part of the place. -/
theorem map_update {γ : Type*} (f : β → γ) (place : α → Option β) (a : α) (o : Option β) :
    (fun x => (Function.update place a o x).map f) =
      Function.update (fun x => (place x).map f) a (o.map f) := by
  funext x
  by_cases hx : x = a
  · subst hx
    rw [Function.update_self, Function.update_self]
  · rw [Function.update_of_ne hx, Function.update_of_ne hx]

end Moves

/-- The members in row `r` are those in its cells. -/
theorem sum_count {ρ κ : Type*} [DecidableEq ρ] [DecidableEq κ] [Fintype κ]
    (place : α → Option (ρ × κ)) (r : ρ) :
    ∑ c, count place (r, c) = count (fun a => (place a).map Prod.fst) r := by
  classical
  have hcells : (Finset.univ.filter fun a => (place a).map Prod.fst = some r) =
      Finset.univ.biUnion fun c => Finset.univ.filter fun a => place a = some (r, c) := by
    ext a
    simp
  rw [count, hcells, Finset.card_biUnion]
  · rfl
  · intro c _ c' _ hne
    refine Finset.disjoint_left.mpr fun a ha ha' => hne ?_
    rw [Finset.mem_filter] at ha ha'
    have hsame := ha.2.symm.trans ha'.2
    exact congrArg Prod.snd (Option.some.inj hsame)

end Census
