/-
The first item of every key.

Items with a key come one after the other; an item whose key has come before is left
out.  What is kept is a list with one item for every key that has come, in the order of
arrival.

* `exists_mem_firstArrivals`, `unique_firstArrivals` — every key that came is kept, once;
* `forall₂_noted` — keeping an item of two lists that are related item by item, with the
  same keys, keeps them related.
-/
import Mathlib.Data.List.Forall2
import Mathlib.Data.List.Induction

namespace FirstArrivals

variable {κ α β : Type*} [DecidableEq κ]

/-- The list with `a` at its end, unless one with the same key is there. -/
def noted (key : α → κ) (l : List α) (a : α) : List α :=
  if ∃ b ∈ l, key b = key a then l else l ++ [a]

/-- The first item of every key, in the order in which they came. -/
def firstArrivals (key : α → κ) (l : List α) : List α := l.foldl (noted key) []

variable {key : α → κ} {l : List α} {a : α}

theorem firstArrivals_append (l : List α) (a : α) :
    firstArrivals key (l ++ [a]) = noted key (firstArrivals key l) a := by
  rw [firstArrivals, List.foldl_append]
  rfl

theorem exists_mem_noted {k : κ} : (∃ x ∈ noted key l a, key x = k) ↔
    (∃ x ∈ l, key x = k) ∨ key a = k := by
  rw [noted]
  split
  · rename_i hold
    refine ⟨Or.inl, fun h => h.elim id ?_⟩
    rintro rfl
    exact hold
  · simp [or_and_right, exists_or]

theorem unique_noted (h : ∀ x ∈ l, ∀ y ∈ l, key x = key y → x = y) :
    ∀ x ∈ noted key l a, ∀ y ∈ noted key l a, key x = key y → x = y := by
  rw [noted]
  split
  · exact h
  · rename_i hnew
    intro x hx y hy hxy
    rcases List.mem_append.mp hx with hx | hx <;> rcases List.mem_append.mp hy with hy | hy
    · exact h x hx y hy hxy
    · rw [List.mem_singleton.mp hy] at hxy
      exact absurd ⟨x, hx, hxy⟩ hnew
    · rw [List.mem_singleton.mp hx] at hxy
      exact absurd ⟨y, hy, hxy.symm⟩ hnew
    · rw [List.mem_singleton.mp hx, List.mem_singleton.mp hy]

/-- Every key that came is kept. -/
theorem exists_mem_firstArrivals (l : List α) (k : κ) :
    (∃ x ∈ firstArrivals key l, key x = k) ↔ ∃ x ∈ l, key x = k := by
  induction l using List.reverseRecOn with
  | nil => exact Iff.rfl
  | append_singleton l a ih =>
    rw [firstArrivals_append, exists_mem_noted, ih]
    simp [or_and_right, exists_or]

/-- No key is kept twice. -/
theorem unique_firstArrivals (l : List α) : ∀ x ∈ firstArrivals key l,
    ∀ y ∈ firstArrivals key l, key x = key y → x = y := by
  induction l using List.reverseRecOn with
  | nil => exact fun x hx => absurd hx List.not_mem_nil
  | append_singleton l a ih =>
    rw [firstArrivals_append]
    exact unique_noted ih

/-! ### Related lists -/

variable {keyB : β → κ} {m : List β} {b : β} {R : α → β → Prop}

omit [DecidableEq κ] in
theorem map_key_eq (hR : ∀ x y, R x y → keyB y = key x) (h : List.Forall₂ R l m) :
    m.map keyB = l.map key := by
  induction h with
  | nil => rfl
  | cons hxy _ ih => rw [List.map_cons, List.map_cons, hR _ _ hxy, ih]

omit [DecidableEq κ] in
theorem exists_key_iff (hR : ∀ x y, R x y → keyB y = key x) (h : List.Forall₂ R l m) (k : κ) :
    (∃ y ∈ m, keyB y = k) ↔ ∃ x ∈ l, key x = k := by
  rw [← List.mem_map, ← List.mem_map, map_key_eq hR h]

/-- An item is kept in both lists or in neither. -/
theorem forall₂_noted (hR : ∀ x y, R x y → keyB y = key x) (h : List.Forall₂ R l m)
    (hab : R a b) : List.Forall₂ R (noted key l a) (noted keyB m b) := by
  have hiff : (∃ y ∈ m, keyB y = keyB b) ↔ ∃ x ∈ l, key x = key a := by
    rw [hR _ _ hab]
    exact exists_key_iff hR h _
  by_cases hold : ∃ x ∈ l, key x = key a
  · rw [noted, if_pos hold, noted, if_pos (hiff.mpr hold)]
    exact h
  · rw [noted, if_neg hold, noted, if_neg (hiff.not.mpr hold)]
    exact List.rel_append h (.cons hab .nil)

theorem exists_left (h : List.Forall₂ R l m) : ∀ y ∈ m, ∃ x ∈ l, R x y := by
  induction h with
  | nil => exact fun y hy => absurd hy List.not_mem_nil
  | cons hxy _ ih =>
    refine List.forall_mem_cons.mpr ⟨⟨_, List.mem_cons_self, hxy⟩, fun y hy => ?_⟩
    obtain ⟨x, hx, h⟩ := ih y hy
    exact ⟨x, List.mem_cons_of_mem _ hx, h⟩

theorem exists_right (h : List.Forall₂ R l m) : ∀ x ∈ l, ∃ y ∈ m, R x y := exists_left h.flip

theorem exists_forall₂ (h : ∀ y ∈ m, ∃ x, R x y) : ∃ l, List.Forall₂ R l m := by
  induction m with
  | nil => exact ⟨[], .nil⟩
  | cons y m ih =>
    obtain ⟨⟨x, hx⟩, hm⟩ := List.forall_mem_cons.mp h
    obtain ⟨l, hl⟩ := ih hm
    exact ⟨x :: l, .cons hx hl⟩

end FirstArrivals
