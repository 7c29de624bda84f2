/-
Buffers that are patched at fixed places.

A patch is a row of cells and the place they go to.  A message is written by a sequence of
patches into a buffer that holds what earlier messages left.  A place that some patch
covers holds the same whatever was in the buffer; the others keep what they had.

* `patches_eq_iff` — two buffers are alike at a place after the same patches exactly when
  the place is covered, or they were alike there;
* `Ring.Keeps.write` — buffers used in turn keep at a place what no message covers;
* `Ring.message_eq` — so a message does not depend on what was written before when each
  of its places is covered by its own patches, or by none of anybody's.
-/
import Mathlib.Data.List.OfFn
import Mathlib.Tactic

namespace BytePatches

variable {α : Type*} {n : ℕ}

/-- Cells, and the place of the first of them. -/
structure Patch (α : Type*) where
  pos : ℕ
  cells : List α

namespace Patch

def Covers (p : Patch α) (i : ℕ) : Prop := p.pos ≤ i ∧ i < p.pos + p.cells.length

instance (p : Patch α) (i : ℕ) : Decidable (p.Covers i) :=
  inferInstanceAs (Decidable (p.pos ≤ i ∧ i < p.pos + p.cells.length))

theorem sub_lt {p : Patch α} {i : ℕ} (h : p.Covers i) : i - p.pos < p.cells.length := by
  obtain ⟨hle, hlt⟩ := h
  omega

end Patch

/-- The buffer with one patch written over it. -/
def patch (b : Fin n → α) (p : Patch α) : Fin n → α := fun i =>
  if h : p.Covers i then p.cells.get ⟨i - p.pos, Patch.sub_lt h⟩ else b i

def patches (b : Fin n → α) (ps : List (Patch α)) : Fin n → α := ps.foldl patch b

/-- Some patch covers the place. -/
def CoveredBy (ps : List (Patch α)) (i : ℕ) : Prop := ∃ p ∈ ps, p.Covers i

@[simp] theorem covered_nil (i : ℕ) : ¬CoveredBy ([] : List (Patch α)) i := by
  rintro ⟨p, hp, -⟩
  cases hp

@[simp] theorem covered_cons (p : Patch α) (ps : List (Patch α)) (i : ℕ) :
    CoveredBy (p :: ps) i ↔ (p.pos ≤ i ∧ i < p.pos + p.cells.length) ∨ CoveredBy ps i := by
  simp [CoveredBy, Patch.Covers]

theorem patch_of_covers (b b' : Fin n → α) {p : Patch α} {i : Fin n} (h : p.Covers i) :
    patch b p i = patch b' p i := by
  rw [patch, patch, dif_pos h, dif_pos h]

theorem patch_of_not_covers (b : Fin n → α) {p : Patch α} {i : Fin n} (h : ¬p.Covers i) :
    patch b p i = b i := dif_neg h

theorem patches_cons (b : Fin n → α) (p : Patch α) (ps : List (Patch α)) :
    patches b (p :: ps) = patches (patch b p) ps := rfl

theorem patches_append (b : Fin n → α) (ps qs : List (Patch α)) :
    patches b (ps ++ qs) = patches (patches b ps) qs := List.foldl_append

/-- A place that no patch covers keeps what it had. -/
theorem patches_of_not_covered (b : Fin n → α) {ps : List (Patch α)} {i : Fin n}
    (h : ¬CoveredBy ps i) : patches b ps i = b i := by
  induction ps generalizing b with
  | nil => rfl
  | cons p ps ih =>
    rw [covered_cons, not_or] at h
    rw [patches_cons, ih _ h.2, patch_of_not_covers b h.1]

/-- **What a message leaves of the buffer it is written into.** -/
theorem patches_eq_iff (b b' : Fin n → α) (ps : List (Patch α)) (i : Fin n) :
    patches b ps i = patches b' ps i ↔ CoveredBy ps i ∨ b i = b' i := by
  induction ps generalizing b b' with
  | nil =>
    rw [or_iff_right (covered_nil _)]
    exact Iff.rfl
  | cons p ps ih =>
    rw [patches_cons, patches_cons, ih, covered_cons]
    by_cases hp : p.Covers i
    · exact iff_of_true (.inr (patch_of_covers b b' hp)) (.inl (.inl hp))
    · rw [patch_of_not_covers b hp, patch_of_not_covers b' hp, or_iff_right (a := _ ∧ _) hp]

/-- The cell at a place that no patch behind the `k`-th covers. -/
theorem patches_of_last (b : Fin n → α) {ps : List (Patch α)} {i : Fin n} {a : α} (k : ℕ)
    {p : Patch α} (hk : ps[k]? = some p) (h : p.Covers i) (hafter : ¬CoveredBy (ps.drop (k + 1)) i)
    (ha : ∀ c ∈ p.cells, c = a) : patches b ps i = a := by
  obtain ⟨hlt, hget⟩ := List.getElem?_eq_some_iff.mp hk
  rw [← List.take_append_drop k ps, List.drop_eq_getElem_cons hlt, hget, patches_append,
    patches_cons, patches_of_not_covered _ hafter, patch, dif_pos h]
  exact ha _ (List.get_mem _ _)

/-! ### Messages -/

/-- The first `len` cells of a buffer. -/
def message (b : Fin n → α) (len : ℕ) : List α := (List.ofFn b).take len

theorem length_message (b : Fin n → α) {len : ℕ} (h : len ≤ n) : (message b len).length = len := by
  rw [message, List.length_take, List.length_ofFn, Nat.min_eq_left h]

theorem message_eq_iff (b b' : Fin n → α) (len : ℕ) :
    message b len = message b' len ↔ ∀ i : Fin n, i.val < len → b i = b' i := by
  constructor
  · intro h i hi
    have hget := congrArg (fun l : List α => l[i.val]?) h
    simpa [message, hi] using hget
  · intro h
    apply List.ext_getElem?
    intro i
    rw [message, message, List.getElem?_take, List.getElem?_take]
    by_cases hi : i < len
    · rw [if_pos hi, if_pos hi, List.getElem?_ofFn, List.getElem?_ofFn]
      by_cases hn : i < n
      · rw [dif_pos hn, dif_pos hn, h ⟨i, hn⟩ hi]
      · rw [dif_neg hn, dif_neg hn]
    · rw [if_neg hi, if_neg hi]

/-! ### Buffers used in turn -/

/-- `k` buffers of `n` cells; `next` counts the messages written so far. -/
structure Ring (k n : ℕ) (α : Type*) where
  buffers : Fin k → Fin n → α
  next : ℕ := 0

namespace Ring

variable {k : ℕ} [NeZero k]

/-- The buffer whose turn it is. -/
def slot (r : Ring k n α) : Fin k := Fin.ofNat k r.next

/-- The buffer with a message in it. -/
def written (r : Ring k n α) (ps : List (Patch α)) : Fin n → α := patches (r.buffers r.slot) ps

def write (r : Ring k n α) (ps : List (Patch α)) : Ring k n α where
  buffers := Function.update r.buffers r.slot (r.written ps)
  next := r.next + 1

omit [NeZero k] in
/-- All buffers have the cell `a` at a place. -/
def Keeps (r : Ring k n α) (i : Fin n) (a : α) : Prop := ∀ s, r.buffers s i = a

theorem Keeps.write {r : Ring k n α} {i : Fin n} {a : α} (h : r.Keeps i a)
    {ps : List (Patch α)} (hps : ¬CoveredBy ps i) : (r.write ps).Keeps i a := by
  intro s
  by_cases hs : s = r.slot
  · show Function.update r.buffers r.slot (r.written ps) s i = a
    rw [hs, Function.update_self, written, patches_of_not_covered _ hps]
    exact h r.slot
  · show Function.update r.buffers r.slot (r.written ps) s i = a
    rw [Function.update_of_ne hs]
    exact h s

/-- When two messages have been written it is the first one's turn again. -/
theorem buffers_slot_write_write (r : Ring 2 n α) (ps qs : List (Patch α)) :
    ((r.write ps).write qs).buffers ((r.write ps).write qs).slot = r.written ps := by
  have hturn : ((r.write ps).write qs).slot = r.slot := by
    apply Fin.ext
    show (r.next + 1 + 1) % 2 = r.next % 2
    omega
  have hother : r.slot ≠ (r.write ps).slot := by
    intro h
    have hval : r.next % 2 = (r.next + 1) % 2 := congrArg Fin.val h
    omega
  rw [hturn]
  show Function.update (r.write ps).buffers (r.write ps).slot _ r.slot = _
  rw [Function.update_of_ne hother]
  exact Function.update_self _ _ _

/-- **A message that does not depend on earlier ones.** -/
theorem message_eq {r r' : Ring k n α} {ps : List (Patch α)} {len : ℕ} (init : Fin n → α)
    (h : ∀ i : Fin n, i.val < len →
      CoveredBy ps i ∨ (r.Keeps i (init i) ∧ r'.Keeps i (init i))) :
    message (r.written ps) len = message (r'.written ps) len := by
  rw [message_eq_iff]
  intro i hi
  rw [written, written, patches_eq_iff]
  rcases h i hi with hcovered | ⟨hr, hr'⟩
  · exact .inl hcovered
  · exact .inr ((hr _).trans (hr' _).symm)

end Ring

end BytePatches
