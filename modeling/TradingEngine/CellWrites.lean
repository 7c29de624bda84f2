/-
Records of cells that are overwritten from the front.

A record has fields, each a row of cells.  A write replaces the first cells of one
field and leaves the cells behind them.  Whatever a sequence of writes is, the field
it leaves is made of written cells up to the reach of the longest write to the field,
and of the old cells behind that.

* `writes_eq_iff` — two records are the same in a field after the same writes exactly
  when they were the same in it behind the reach of the writes;
* `writes_of_untouched` — a field that no write is about is left as it was;
* `writes_eq_of_all` — a field that is written with the same cells every time holds these.
-/
import Mathlib.Data.List.Basic
import Mathlib.Logic.Function.Basic

namespace CellWrites

variable {ι κ : Type*}

/-- New cells for the beginning of a field. -/
structure Write (ι κ : Type*) where
  field : ι
  cells : List κ

/-- The row `old` with `new` written over its beginning. -/
def overwrite (new old : List κ) : List κ := new ++ old.drop new.length

variable [DecidableEq ι]

def write (r : ι → List κ) (w : Write ι κ) : ι → List κ :=
  Function.update r w.field (overwrite w.cells (r w.field))

def writes (r : ι → List κ) (ws : List (Write ι κ)) : ι → List κ := ws.foldl write r

/-- How many cells of the field the writes cover. -/
def reach (ws : List (Write ι κ)) (i : ι) : ℕ :=
  ws.foldr (fun w n => if w.field = i then max w.cells.length n else n) 0

theorem reach_cons (w : Write ι κ) (ws : List (Write ι κ)) (i : ι) :
    reach (w :: ws) i = if w.field = i then max w.cells.length (reach ws i) else reach ws i := rfl

theorem write_self (r : ι → List κ) (w : Write ι κ) :
    write r w w.field = overwrite w.cells (r w.field) := Function.update_self _ _ _

theorem write_of_ne (r : ι → List κ) {w : Write ι κ} {i : ι} (h : w.field ≠ i) :
    write r w i = r i := Function.update_of_ne h.symm _ _

/-- Behind a write, what counts of the old row is what the write did not cover. -/
theorem drop_overwrite_eq_iff {new old old' : List κ} {n : ℕ} :
    (overwrite new old).drop n = (overwrite new old').drop n ↔
      old.drop (max new.length n) = old'.drop (max new.length n) := by
  have hmax : new.length + (n - new.length) = max new.length n := by omega
  rw [overwrite, overwrite, List.drop_append, List.drop_append, List.append_cancel_left_eq,
    List.drop_drop, List.drop_drop, hmax]

theorem writes_eq_iff (r r' : ι → List κ) (ws : List (Write ι κ)) (i : ι) :
    writes r ws i = writes r' ws i ↔ (r i).drop (reach ws i) = (r' i).drop (reach ws i) := by
  induction ws generalizing r r' with
  | nil => exact Iff.rfl
  | cons w ws ih =>
    show writes (write r w) ws i = writes (write r' w) ws i ↔ _
    rw [ih, reach_cons]
    by_cases h : w.field = i
    · subst h
      rw [if_pos rfl, write_self, write_self, drop_overwrite_eq_iff]
    · rw [if_neg h, write_of_ne r h, write_of_ne r' h]

theorem writes_of_untouched {r : ι → List κ} {ws : List (Write ι κ)} {i : ι}
    (h : ∀ w ∈ ws, w.field ≠ i) : writes r ws i = r i := by
  induction ws generalizing r with
  | nil => rfl
  | cons w ws ih =>
    show writes (write r w) ws i = r i
    rw [ih fun v hv => h v (List.mem_cons_of_mem _ hv), write_of_ne r (h w List.mem_cons_self)]

/-- A field that is written with the same cells every time holds these. -/
theorem writes_eq_of_all {r : ι → List κ} {ws : List (Write ι κ)} {i : ι} {cs : List κ}
    (hall : ∀ w ∈ ws, w.field = i → w.cells = cs) (hlen : (r i).length ≤ cs.length)
    (hmem : r i = cs ∨ ∃ w ∈ ws, w.field = i) : writes r ws i = cs := by
  induction ws generalizing r with
  | nil =>
    rcases hmem with h | ⟨w, hw, -⟩
    · exact h
    · exact absurd hw List.not_mem_nil
  | cons w ws ih =>
    obtain ⟨hw, hws⟩ := List.forall_mem_cons.mp hall
    show writes (write r w) ws i = cs
    by_cases h : w.field = i
    · have hwrite : write r w i = cs := by
        subst h
        rw [write_self, overwrite, hw rfl, List.drop_eq_nil_of_le hlen, List.append_nil]
      exact ih hws (Nat.le_of_eq (congrArg List.length hwrite)) (Or.inl hwrite)
    · have hwrite : write r w i = r i := write_of_ne r h
      refine ih hws (hwrite ▸ hlen) ?_
      rcases hmem with hr | ⟨v, hv, hfield⟩
      · exact Or.inl (hwrite.trans hr)
      · rcases List.mem_cons.mp hv with rfl | hv
        · exact absurd hfield h
        · exact Or.inr ⟨v, hv, hfield⟩

end CellWrites
