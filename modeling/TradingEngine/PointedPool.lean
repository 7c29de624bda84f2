/-
Pools of cells that pointers lead to.

A `PointedPool` is a family of cells together with the set of those that something
points to.  A property `Good` of what the pointed cells hold survives an operation
that makes no good cell bad and points only to cells that were pointed to or are
good (`Keeps`); such operations compose, so the property survives a whole program.
-/
import Mathlib.Data.Set.Basic
import Mathlib.Logic.Function.Basic

/-- Cells, and which of them are pointed to. -/
structure PointedPool (ι α : Type*) where
  cells : ι → α
  pointed : Set ι

namespace PointedPool

variable {ι α : Type*} {Good : α → Prop} {p q r : PointedPool ι α} {i : ι}

/-- What is pointed to is good. -/
def Sound (Good : α → Prop) (p : PointedPool ι α) : Prop := ∀ i ∈ p.pointed, Good (p.cells i)

/-- No good cell becomes bad, and no bad one is pointed to anew. -/
structure Keeps (Good : α → Prop) (p q : PointedPool ι α) : Prop where
  cells : ∀ i, Good (p.cells i) → Good (q.cells i)
  pointed : ∀ i ∈ q.pointed, i ∈ p.pointed ∨ Good (q.cells i)

theorem Keeps.refl (p : PointedPool ι α) : Keeps Good p p := ⟨fun _ h => h, fun _ h => .inl h⟩

theorem Keeps.trans (h : Keeps Good p q) (h' : Keeps Good q r) : Keeps Good p r := by
  refine ⟨fun i hi => h'.cells i (h.cells i hi), fun i hi => ?_⟩
  rcases h'.pointed i hi with hq | hgood
  · exact (h.pointed i hq).imp_right (h'.cells i)
  · exact .inr hgood

theorem Keeps.sound (h : Keeps Good p q) (hp : p.Sound Good) : q.Sound Good := by
  intro i hi
  rcases h.pointed i hi with hold | hgood
  · exact h.cells i (hp i hold)
  · exact hgood

/-- A pointer is copied: it led to a cell that was pointed to from the start. -/
theorem Keeps.point (h : Keeps Good p q) (hi : i ∈ p.pointed) (hcells : r.cells = q.cells)
    (hpointed : ∀ j ∈ r.pointed, j ∈ q.pointed ∨ j = i) : Keeps Good p r := by
  refine ⟨fun j hj => ?_, fun j hj => ?_⟩
  · rw [hcells]
    exact h.cells j hj
  · rw [hcells]
    rcases hpointed j hj with hq | rfl
    · exact h.pointed j hq
    · exact .inl hi

/-- Pointers are dropped. -/
theorem Keeps.forget (h : Keeps Good p q) (hcells : r.cells = q.cells)
    (hpointed : r.pointed ⊆ q.pointed) : Keeps Good p r := by
  refine ⟨fun j hj => ?_, fun j hj => ?_⟩
  · rw [hcells]
    exact h.cells j hj
  · rw [hcells]
    exact h.pointed j (hpointed hj)

/-- One cell is rewritten, and stays good if it was. -/
theorem Keeps.write [DecidableEq ι] (h : Keeps Good p q) (i : ι) {a : α}
    (ha : Good (q.cells i) → Good a) :
    Keeps Good p ⟨Function.update q.cells i a, q.pointed⟩ := by
  have hwrite : ∀ j, Good (q.cells j) → Good (Function.update q.cells i a j) := by
    intro j hj
    by_cases hji : j = i
    · subst hji
      rw [Function.update_self]
      exact ha hj
    · rwa [Function.update_of_ne hji]
  exact ⟨fun j hj => hwrite j (h.cells j hj), fun j hj => (h.pointed j hj).imp_right (hwrite j)⟩

/-- One cell is rewritten with something good and pointed to. -/
theorem keeps_of_good (i : ι) (hcells : ∀ j, j ≠ i → q.cells j = p.cells j)
    (hpointed : ∀ j ∈ q.pointed, j ∈ p.pointed ∨ j = i) (hgood : Good (q.cells i)) :
    Keeps Good p q := by
  refine ⟨fun j hj => ?_, fun j hj => ?_⟩
  · by_cases hji : j = i
    · exact hji ▸ hgood
    · rw [hcells j hji]
      exact hj
  · rcases hpointed j hj with hold | rfl
    · exact .inl hold
    · exact .inr hgood

end PointedPool
