/-
Records of fields at fixed places.

A field is a place, a width, and a code: a bijection between the rows of that many cells and
the values of the field.  A record is read field by field, in any order; what one value of
the record looks like on the wire is the row of patches its fields write.

* `readRow_eq_some_iff` — a record is read from data exactly when the data carry each of
  its patches;
* `Layout.read_eq_some_iff` — when the fields tile the first `n` places, that is: exactly
  when the data begin with the bytes of the record;
* `Layout.exists_read_iff` — and there is a record to read in every data of at least `n`
  cells, and in no shorter ones.
-/
import TradingEngine.BytePatches

namespace RecordLayout

open BytePatches

variable {β : Type*} {n : ℕ}

/-! ### Fields -/

/-- Where a field stands, how many cells it has, and what they say. -/
structure FixedField (β : Type*) where
  Value : Type
  pos : ℕ
  width : ℕ
  code : Vector β width ≃ Value

namespace FixedField

/-- The cells of the field in the data. -/
def slice (f : FixedField β) (data : List β) : List β := (data.drop f.pos).take f.width

/-- Nothing where the data end before the field does. -/
def read (f : FixedField β) (data : List β) : Option f.Value :=
  if h : (f.slice data).length = f.width then some (f.code ⟨(f.slice data).toArray, h⟩) else none

/-- What a value writes. -/
def patch (f : FixedField β) (v : f.Value) : Patch β := ⟨f.pos, (f.code.symm v).toList⟩

@[simp] theorem patch_pos (f : FixedField β) (v : f.Value) : (f.patch v).pos = f.pos := rfl

@[simp] theorem length_patch (f : FixedField β) (v : f.Value) :
    (f.patch v).cells.length = f.width :=
  Vector.length_toList

end FixedField

/-- The data have the cells of the patch at its place. -/
def Carries (data : List β) (p : Patch β) : Prop := p.cells <+: data.drop p.pos

theorem FixedField.read_eq_some_iff (f : FixedField β) (data : List β) (v : f.Value) :
    f.read data = some v ↔ Carries data (f.patch v) := by
  rw [Carries, List.prefix_iff_eq_take, FixedField.length_patch]
  show _ ↔ (f.code.symm v).toList = f.slice data
  rw [FixedField.read]
  constructor
  · intro h
    split at h
    · cases h
      rw [Equiv.symm_apply_apply]
      rfl
    · cases h
  · intro h
    have hlen : (f.slice data).length = f.width := by rw [← h, Vector.length_toList]
    have hcells : (⟨(f.slice data).toArray, hlen⟩ : Vector β f.width) = f.code.symm v := by
      apply Vector.toList_inj.mp
      rw [h]
      rfl
    rw [dif_pos hlen, hcells, Equiv.apply_symm_apply]

/-- A field is read exactly where it fits. -/
theorem FixedField.exists_read_of_le {f : FixedField β} {data : List β}
    (h : f.pos + f.width ≤ data.length) : ∃ v, f.read data = some v := by
  have hlen : (f.slice data).length = f.width := by
    rw [FixedField.slice, List.length_take, List.length_drop]
    omega
  exact ⟨_, dif_pos hlen⟩

/-! ### Rows -/

/-- A value for each field. -/
def Row : List (FixedField β) → Type
  | [] => Unit
  | f :: fs => f.Value × Row fs

/-- The fields are read one after the other. -/
def readRow : (fs : List (FixedField β)) → List β → Option (Row fs)
  | [], _ => some ()
  | f :: fs, data => do
    let v ← f.read data
    let r ← readRow fs data
    return (v, r)

/-- What the fields of a row write. -/
def Row.patches : (fs : List (FixedField β)) → Row fs → List (Patch β)
  | [], _ => []
  | f :: fs, r => f.patch r.1 :: Row.patches fs r.2

/-- A function that takes the values of the fields one by one. -/
def Curried : List (FixedField β) → Type → Type
  | [], α => α
  | f :: fs, α => f.Value → Curried fs α

def Curried.apply {α : Type} : (fs : List (FixedField β)) → Curried fs α → Row fs → α
  | [], a, _ => a
  | _ :: fs, g, r => Curried.apply fs (g r.1) r.2

theorem readRow_cons_eq_some_iff (f : FixedField β) (fs : List (FixedField β)) (data : List β)
    (r : Row (f :: fs)) :
    readRow (f :: fs) data = some r ↔ f.read data = some r.1 ∧ readRow fs data = some r.2 := by
  rw [readRow]
  cases hv : f.read data with
  | none => exact iff_of_false (fun h => nomatch h) (fun h => nomatch h.1)
  | some v =>
    cases hr : readRow fs data with
    | none => exact iff_of_false (fun h => nomatch h) (fun h => nomatch h.2)
    | some r' =>
      constructor
      · rintro ⟨⟩
        exact ⟨rfl, rfl⟩
      · rintro ⟨hv', hr'⟩
        rw [Option.some.inj hv', Option.some.inj hr']
        rfl

/-- **A row is read exactly where its patches stand.** -/
theorem readRow_eq_some_iff (fs : List (FixedField β)) (data : List β) (r : Row fs) :
    readRow fs data = some r ↔ ∀ p ∈ r.patches fs, Carries data p := by
  induction fs with
  | nil => exact iff_of_true rfl fun p hp => absurd hp List.not_mem_nil
  | cons f fs ih =>
    rw [readRow_cons_eq_some_iff, FixedField.read_eq_some_iff, ih]
    exact List.forall_mem_cons.symm

theorem exists_readRow {fs : List (FixedField β)} {data : List β}
    (h : ∀ f ∈ fs, f.pos + f.width ≤ data.length) : ∃ r, readRow fs data = some r := by
  induction fs with
  | nil => exact ⟨(), rfl⟩
  | cons f fs ih =>
    obtain ⟨v, hv⟩ := FixedField.exists_read_of_le (h f List.mem_cons_self)
    obtain ⟨r, hr⟩ := ih fun g hg => h g (List.mem_cons_of_mem f hg)
    exact ⟨(v, r), (readRow_cons_eq_some_iff f fs data (v, r)).mpr ⟨hv, hr⟩⟩

/-! ### Fields that tile a message -/

/-- No place belongs to both. -/
def FixedField.Apart (f g : FixedField β) : Prop :=
  f.pos + f.width ≤ g.pos ∨ g.pos + g.width ≤ f.pos

instance (f g : FixedField β) : Decidable (f.Apart g) :=
  inferInstanceAs (Decidable (f.pos + f.width ≤ g.pos ∨ g.pos + g.width ≤ f.pos))

/-- Each of the first `n` places belongs to exactly one field, and no field goes beyond. -/
def Tiles (n : ℕ) (fs : List (FixedField β)) : Prop :=
  (∀ f ∈ fs, f.pos + f.width ≤ n) ∧ fs.Pairwise FixedField.Apart ∧
    ∀ i < n, ∃ f ∈ fs, f.pos ≤ i ∧ i < f.pos + f.width

instance (fs : List (FixedField β)) : Decidable (Tiles n fs) :=
  inferInstanceAs (Decidable (_ ∧ _ ∧ _))

theorem carries_iff (data : List β) (p : Patch β) :
    Carries data p ↔
      ∀ i (h : p.Covers i), data[i]? = some (p.cells.get ⟨i - p.pos, p.sub_lt h⟩) := by
  rw [Carries, List.prefix_iff_getElem?]
  constructor
  · intro h i hi
    have hj := h (i - p.pos) (Patch.sub_lt hi)
    rw [List.getElem?_drop, Nat.add_sub_cancel' hi.1] at hj
    exact hj
  · intro h j hj
    have hi := h (p.pos + j) ⟨Nat.le_add_right _ _, Nat.add_lt_add_left hj _⟩
    rw [List.getElem?_drop, hi]
    simp

/-- Patches that agree with the data make the data of what they are written into. -/
theorem patches_of_carries (b : Fin n → β) {ps : List (Patch β)} {data : List β}
    (hps : ∀ p ∈ ps, Carries data p) {i : Fin n} (hi : CoveredBy ps i ∨ data[i.val]? = some (b i)) :
    data[i.val]? = some (patches b ps i) := by
  induction ps generalizing b with
  | nil => exact hi.resolve_left (covered_nil _)
  | cons p ps ih =>
    rw [patches_cons]
    refine ih (patch b p) (fun q hq => hps q (List.mem_cons_of_mem p hq)) ?_
    by_cases hp : p.Covers i
    · right
      rw [patch, dif_pos hp]
      exact (carries_iff data p).mp (hps p List.mem_cons_self) i hp
    · rw [patch_of_not_covers b hp]
      exact hi.imp_left fun h => ((covered_cons p ps i).mp h).resolve_left hp

/-- Of patches that lie apart each keeps its cells. -/
theorem patches_of_apart (b : Fin n → β) {ps : List (Patch β)} {i : Fin n} {p : Patch β}
    (hp : p ∈ ps) (h : p.Covers i) (hps : ps.Pairwise fun p q => ∀ i, p.Covers i → ¬q.Covers i) :
    patches b ps i = p.cells.get ⟨i - p.pos, p.sub_lt h⟩ := by
  induction ps generalizing b with
  | nil => cases hp
  | cons q ps ih =>
    rw [List.pairwise_cons] at hps
    rw [patches_cons]
    rcases List.mem_cons.mp hp with rfl | hmem
    · have hafter : ¬CoveredBy ps i := by
        rintro ⟨q, hq, hqi⟩
        exact hps.1 q hq i h hqi
      rw [patches_of_not_covered _ hafter, patch, dif_pos h]
    · exact ih (patch b q) hmem hps.2

namespace Row

theorem mem_patches {fs : List (FixedField β)} {r : Row fs} {p : Patch β} (h : p ∈ r.patches fs) :
    ∃ f ∈ fs, p.pos = f.pos ∧ p.cells.length = f.width := by
  induction fs with
  | nil => cases h
  | cons f fs ih =>
    rcases List.mem_cons.mp h with rfl | h
    · exact ⟨f, List.mem_cons_self, f.patch_pos r.1, f.length_patch r.1⟩
    · obtain ⟨g, hg, hgp⟩ := ih h
      exact ⟨g, List.mem_cons_of_mem f hg, hgp⟩

theorem exists_patch {fs : List (FixedField β)} (r : Row fs) {f : FixedField β} (h : f ∈ fs) :
    ∃ p ∈ r.patches fs, p.pos = f.pos ∧ p.cells.length = f.width := by
  induction fs with
  | nil => cases h
  | cons g fs ih =>
    rcases List.mem_cons.mp h with rfl | h
    · exact ⟨f.patch r.1, List.mem_cons_self, f.patch_pos r.1, f.length_patch r.1⟩
    · obtain ⟨p, hp, hpf⟩ := ih r.2 h
      exact ⟨p, List.mem_cons_of_mem _ hp, hpf⟩

theorem patches_apart {fs : List (FixedField β)} (r : Row fs) (h : fs.Pairwise FixedField.Apart) :
    (r.patches fs).Pairwise fun p q => ∀ i, p.Covers i → ¬q.Covers i := by
  induction fs with
  | nil => exact List.Pairwise.nil
  | cons f fs ih =>
    rw [List.pairwise_cons] at h
    refine List.pairwise_cons.mpr ⟨?_, ih r.2 h.2⟩
    intro q hq i hfi hqi
    obtain ⟨g, hg, hpos, hlen⟩ := mem_patches hq
    have hapart := h.1 g hg
    rw [Patch.Covers, FixedField.patch_pos, FixedField.length_patch] at hfi
    rw [Patch.Covers, hpos, hlen] at hqi
    rw [FixedField.Apart] at hapart
    omega

end Row

/-- Fields that tile a message of `n` cells. -/
structure Layout (β : Type*) (n : ℕ) where
  fields : List (FixedField β)
  tiles : Tiles n fields := by decide

namespace Layout

variable [Inhabited β] (l : Layout β n)

/-- The message that says what the row says. -/
def bytes (r : Row l.fields) : List β :=
  List.ofFn (n := n) (patches (fun _ => default) (r.patches l.fields))

@[simp] theorem length_bytes (r : Row l.fields) : (l.bytes r).length = n := List.length_ofFn

theorem getElem?_bytes (r : Row l.fields) (i : Fin n) :
    (l.bytes r)[i.val]? = some (patches (fun _ => default) (r.patches l.fields) i) := by
  rw [bytes, List.getElem?_ofFn, dif_pos i.isLt]

omit [Inhabited β] in
theorem covered (r : Row l.fields) (i : Fin n) : CoveredBy (r.patches l.fields) i := by
  obtain ⟨f, hf, hle, hlt⟩ := l.tiles.2.2 i i.isLt
  obtain ⟨p, hp, hpos, hlen⟩ := r.exists_patch hf
  refine ⟨p, hp, ?_, ?_⟩
  · rw [hpos]
    exact hle
  · rw [hpos, hlen]
    exact hlt

/-- **Reading a message is undoing what wrote it.** -/
theorem read_eq_some_iff (data : List β) (r : Row l.fields) :
    readRow l.fields data = some r ↔ l.bytes r <+: data := by
  rw [readRow_eq_some_iff]
  constructor
  · intro h
    rw [List.prefix_iff_getElem?]
    intro i hi
    have hn : i < n := by rwa [length_bytes] at hi
    have hget := l.getElem?_bytes r ⟨i, hn⟩
    rw [patches_of_carries (fun _ => default) h (i := ⟨i, hn⟩) (.inl (l.covered r _)), ← hget]
    exact List.getElem?_eq_getElem hi
  · intro h p hp
    rw [carries_iff]
    intro i hi
    obtain ⟨f, hf, hpos, hlen⟩ := Row.mem_patches hp
    have hfits := l.tiles.1 f hf
    have hn : i < n := by
      have hlt := hi.2
      rw [hpos, hlen] at hlt
      omega
    rw [← patches_of_apart (fun _ => default) (i := ⟨i, hn⟩) hp hi
      (r.patches_apart l.tiles.2.1), ← l.getElem?_bytes r ⟨i, hn⟩]
    have hb : i < (l.bytes r).length := by rwa [length_bytes]
    rw [List.prefix_iff_getElem?.mp h i hb]
    exact (List.getElem?_eq_getElem hb).symm

/-- What was written in front of other data is read. -/
theorem read_bytes (r : Row l.fields) (rest : List β) :
    readRow l.fields (l.bytes r ++ rest) = some r :=
  (l.read_eq_some_iff _ r).mpr (List.prefix_append _ _)

theorem bytes_injective : Function.Injective l.bytes := by
  intro r r' h
  have hr := l.read_bytes r []
  rw [h, l.read_bytes r' []] at hr
  exact (Option.some.inj hr).symm

theorem exists_read_iff (data : List β) :
    (∃ r, readRow l.fields data = some r) ↔ n ≤ data.length := by
  constructor
  · rintro ⟨r, hr⟩
    have hle := ((l.read_eq_some_iff data r).mp hr).length_le
    rwa [length_bytes] at hle
  · intro h
    exact exists_readRow fun f hf => le_trans (l.tiles.1 f hf) h

theorem exists_bytes_prefix_iff (data : List β) : (∃ r, l.bytes r <+: data) ↔ n ≤ data.length := by
  rw [← l.exists_read_iff data]
  exact exists_congr fun r => (l.read_eq_some_iff data r).symm

end Layout

end RecordLayout
