/-
Finite maps with ordered keys.

A `SortedMap κ ν` is a list of key/value pairs whose keys are strictly
increasing; the order is a field, so every value of the type is sorted.  Its
operations are the ones an ordered tree map offers (look up, insert or
overwrite, insert if absent, erase, first entry, last entry), and everything
about them is stated through `find?`:

* `find?_insert`, `find?_emplace`, `find?_erase` — what an update does to every
  key;
* `last?_eq_some_iff`, `first?_eq_some_iff` — the end entries are the extreme
  keys together with their values;
* `eq_empty_iff` — a map with no value for any key is empty;
* `ext_find?` — a map is what it has stored, so that `insert_eq_self_iff` says when
  storing a value changes nothing.
-/
import Mathlib.Order.Defs.LinearOrder
import Mathlib.Tactic

/-- A finite map from `κ` to `ν`, kept as its entries in increasing key order. -/
structure SortedMap (κ ν : Type*) [LinearOrder κ] where
  entries : List (κ × ν)
  sorted : entries.Pairwise fun a b => a.1 < b.1

namespace SortedMap

variable {κ ν : Type*} [LinearOrder κ]

instance : EmptyCollection (SortedMap κ ν) := ⟨⟨[], List.Pairwise.nil⟩⟩

instance : Inhabited (SortedMap κ ν) := ⟨∅⟩

instance [DecidableEq ν] : DecidableEq (SortedMap κ ν) := fun m m' =>
  decidable_of_iff (m.entries = m'.entries) (by cases m; cases m'; simp)

/-- The value stored for `k`. -/
def find? (m : SortedMap κ ν) (k : κ) : Option ν :=
  (m.entries.find? fun e => e.1 == k).map Prod.snd

/-- Store `v` for `k`, overwriting what was there. -/
def insert (m : SortedMap κ ν) (k : κ) (v : ν) : SortedMap κ ν where
  entries := (m.entries.filter fun e => e.1 < k) ++ (k, v) :: m.entries.filter fun e => k < e.1
  sorted := by
    refine List.pairwise_append.mpr ⟨m.sorted.filter _, ?_, ?_⟩
    · refine List.pairwise_cons.mpr ⟨?_, m.sorted.filter _⟩
      intro e he
      simpa using (List.mem_filter.mp he).2
    · intro a ha b hb
      have hak : a.1 < k := by simpa using (List.mem_filter.mp ha).2
      rcases List.mem_cons.mp hb with rfl | hb
      · exact hak
      · have hkb : k < b.1 := by simpa using (List.mem_filter.mp hb).2
        exact hak.trans hkb

/-- Store `v` for `k` unless `k` has a value already. -/
def emplace (m : SortedMap κ ν) (k : κ) (v : ν) : SortedMap κ ν :=
  match m.find? k with
  | none => m.insert k v
  | some _ => m

/-- Drop the entry of `k`, if there is one. -/
def erase (m : SortedMap κ ν) (k : κ) : SortedMap κ ν where
  entries := m.entries.filter fun e => e.1 ≠ k
  sorted := m.sorted.filter _

/-- The entry with the smallest key. -/
def first? (m : SortedMap κ ν) : Option (κ × ν) := m.entries.head?

/-- The entry with the largest key. -/
def last? (m : SortedMap κ ν) : Option (κ × ν) := m.entries.getLast?

/-! ### Lookup -/

private theorem value_unique {l : List (κ × ν)} (hl : l.Pairwise fun a b => a.1 < b.1)
    {k : κ} {v w : ν} (hv : (k, v) ∈ l) (hw : (k, w) ∈ l) : v = w := by
  induction l with
  | nil => simp at hv
  | cons e l ih =>
    obtain ⟨hlt, hl'⟩ := List.pairwise_cons.mp hl
    rcases List.mem_cons.mp hv with rfl | hv'
    · rcases List.mem_cons.mp hw with h | hw'
      · exact (Prod.ext_iff.mp h).2.symm
      · exact absurd (hlt (k, w) hw') (lt_irrefl k)
    · rcases List.mem_cons.mp hw with rfl | hw'
      · exact absurd (hlt (k, v) hv') (lt_irrefl k)
      · exact ih hl' hv' hw'

theorem find?_eq_some_iff {m : SortedMap κ ν} {k : κ} {v : ν} :
    m.find? k = some v ↔ (k, v) ∈ m.entries := by
  rw [find?, Option.map_eq_some_iff]
  constructor
  · rintro ⟨⟨k', v'⟩, hf, rfl⟩
    have hk : k' = k := by simpa using List.find?_some hf
    subst hk
    exact List.mem_of_find?_eq_some hf
  · intro hmem
    have hsome : (m.entries.find? fun e => e.1 == k).isSome := by
      rw [List.find?_isSome]
      exact ⟨(k, v), hmem, by simp⟩
    obtain ⟨⟨k', v'⟩, hf⟩ := Option.isSome_iff_exists.mp hsome
    have hk : k' = k := by simpa using List.find?_some hf
    subst hk
    exact ⟨(k', v'), hf, value_unique m.sorted (List.mem_of_find?_eq_some hf) hmem⟩

theorem find?_eq_none_iff {m : SortedMap κ ν} {k : κ} :
    m.find? k = none ↔ ∀ v, (k, v) ∉ m.entries := by
  rw [Option.eq_none_iff_forall_ne_some]
  exact forall_congr' fun v => not_congr find?_eq_some_iff

@[simp] theorem find?_empty (k : κ) : (∅ : SortedMap κ ν).find? k = none := rfl

@[simp] theorem find?_insert (m : SortedMap κ ν) (k k' : κ) (v : ν) :
    (m.insert k v).find? k' = if k' = k then some v else m.find? k' := by
  ext w
  rw [find?_eq_some_iff]
  by_cases hk : k' = k
  · subst hk
    simp [insert, eq_comm]
  · rw [if_neg hk, find?_eq_some_iff]
    -- the other entries are kept, on one side of `k` or the other
    simp only [insert, List.mem_append, List.mem_filter, List.mem_cons, Prod.mk.injEq, hk,
      false_and, false_or, decide_eq_true_eq]
    constructor
    · rintro (h | h) <;> exact h.1
    · intro h
      rcases lt_or_gt_of_ne hk with hlt | hgt
      · exact Or.inl ⟨h, hlt⟩
      · exact Or.inr ⟨h, hgt⟩

@[simp] theorem find?_erase (m : SortedMap κ ν) (k k' : κ) :
    (m.erase k).find? k' = if k' = k then none else m.find? k' := by
  ext w
  rw [find?_eq_some_iff]
  by_cases hk : k' = k
  · simp [erase, hk]
  · rw [if_neg hk, find?_eq_some_iff]
    simp [erase, hk]

theorem find?_emplace (m : SortedMap κ ν) (k k' : κ) (v : ν) :
    (m.emplace k v).find? k' = if k' = k then some ((m.find? k).getD v) else m.find? k' := by
  rw [emplace]
  cases hk : m.find? k with
  | none => simp
  | some w =>
    by_cases h : k' = k
    · simp [h, hk]
    · simp [h]

/-- Erasing a key that is there makes the map smaller. -/
theorem length_erase_lt {m : SortedMap κ ν} {k : κ} {v : ν} (h : m.find? k = some v) :
    (m.erase k).entries.length < m.entries.length := by
  refine List.length_filter_lt_length_iff_exists.mpr ⟨(k, v), find?_eq_some_iff.mp h, ?_⟩
  simp

/-! ### The end entries -/

private theorem getLast?_eq_some_iff {l : List (κ × ν)} (hl : l.Pairwise fun a b => a.1 < b.1)
    {e : κ × ν} : l.getLast? = some e ↔ e ∈ l ∧ ∀ e' ∈ l, e'.1 ≤ e.1 := by
  induction l using List.reverseRecOn with
  | nil => simp
  | append_singleton l a _ =>
    obtain ⟨-, -, hlt⟩ := List.pairwise_append.mp hl
    have hle : ∀ e' ∈ l, e'.1 < a.1 := fun e' he' => hlt e' he' a (by simp)
    rw [List.getLast?_concat, Option.some_inj]
    constructor
    · rintro rfl
      refine ⟨by simp, fun e' he' => ?_⟩
      rcases List.mem_append.mp he' with he' | he'
      · exact (hle e' he').le
      · rw [List.mem_singleton.mp he']
    · rintro ⟨he, hmax⟩
      rcases List.mem_append.mp he with he | he
      · exact absurd (hle e he) (not_lt.mpr (hmax a (by simp)))
      · exact (List.mem_singleton.mp he).symm

private theorem head?_eq_some_iff {l : List (κ × ν)} (hl : l.Pairwise fun a b => a.1 < b.1)
    {e : κ × ν} : l.head? = some e ↔ e ∈ l ∧ ∀ e' ∈ l, e.1 ≤ e'.1 := by
  cases l with
  | nil => simp
  | cons a l =>
    obtain ⟨hlt, -⟩ := List.pairwise_cons.mp hl
    rw [List.head?_cons, Option.some_inj]
    constructor
    · rintro rfl
      refine ⟨by simp, fun e' he' => ?_⟩
      rcases List.mem_cons.mp he' with rfl | he'
      · exact le_rfl
      · exact (hlt e' he').le
    · rintro ⟨he, hmin⟩
      rcases List.mem_cons.mp he with rfl | he
      · rfl
      · exact absurd (hlt e he) (not_lt.mpr (hmin a (by simp)))

/-- The last entry is the largest key with its value. -/
theorem last?_eq_some_iff {m : SortedMap κ ν} {k : κ} {v : ν} :
    m.last? = some (k, v) ↔ m.find? k = some v ∧ ∀ k' w, m.find? k' = some w → k' ≤ k := by
  rw [last?, getLast?_eq_some_iff m.sorted, find?_eq_some_iff]
  refine and_congr_right fun _ => ⟨fun h k' w hw => ?_, fun h e he => ?_⟩
  · exact h (k', w) (find?_eq_some_iff.mp hw)
  · exact h e.1 e.2 (find?_eq_some_iff.mpr he)

/-- The first entry is the smallest key with its value. -/
theorem first?_eq_some_iff {m : SortedMap κ ν} {k : κ} {v : ν} :
    m.first? = some (k, v) ↔ m.find? k = some v ∧ ∀ k' w, m.find? k' = some w → k ≤ k' := by
  rw [first?, head?_eq_some_iff m.sorted, find?_eq_some_iff]
  refine and_congr_right fun _ => ⟨fun h k' w hw => ?_, fun h e he => ?_⟩
  · exact h (k', w) (find?_eq_some_iff.mp hw)
  · exact h e.1 e.2 (find?_eq_some_iff.mpr he)

theorem last?_eq_none_iff {m : SortedMap κ ν} : m.last? = none ↔ ∀ k, m.find? k = none := by
  rw [last?, List.getLast?_eq_none_iff]
  constructor
  · intro h k
    rw [find?, h]
    rfl
  · intro h
    refine List.eq_nil_iff_forall_not_mem.mpr fun e he => ?_
    exact find?_eq_none_iff.mp (h e.1) e.2 he

theorem first?_eq_none_iff {m : SortedMap κ ν} : m.first? = none ↔ ∀ k, m.find? k = none := by
  rw [← last?_eq_none_iff, first?, last?, List.head?_eq_none_iff, List.getLast?_eq_none_iff]

theorem eq_empty_iff {m : SortedMap κ ν} : m = ∅ ↔ ∀ k, m.find? k = none := by
  constructor
  · rintro rfl k
    exact find?_empty k
  · intro h
    rw [← first?_eq_none_iff, first?, List.head?_eq_none_iff] at h
    cases m with
    | mk entries sorted =>
      subst h
      rfl

/-- Two maps with the same values are the same. -/
theorem ext_find? {m m' : SortedMap κ ν} (h : ∀ k, m.find? k = m'.find? k) : m = m' := by
  have hmem : ∀ e, e ∈ m.entries ↔ e ∈ m'.entries := by
    intro e
    rw [← find?_eq_some_iff (k := e.1) (v := e.2), ← find?_eq_some_iff (k := e.1) (v := e.2), h]
  have hne : ∀ a b : κ × ν, a.1 < b.1 → a ≠ b := by
    intro a b hab heq
    rw [heq] at hab
    exact absurd hab (lt_irrefl _)
  have hentries : m.entries = m'.entries := by
    refine List.Perm.eq_of_pairwise (fun a b _ _ hab hba => ?_) m.sorted m'.sorted ?_
    · exact absurd (hab.trans hba) (lt_irrefl _)
    · exact (List.perm_ext_iff_of_nodup (m.sorted.imp (hne _ _)) (m'.sorted.imp (hne _ _))).mpr hmem
  cases m
  cases m'
  congr

/-- Storing a value changes nothing exactly when it is there already. -/
theorem insert_eq_self_iff {m : SortedMap κ ν} {k : κ} {v : ν} :
    m.insert k v = m ↔ m.find? k = some v := by
  constructor
  · intro h
    rw [← h, find?_insert, if_pos rfl]
  · intro h
    refine ext_find? fun k' => ?_
    rw [find?_insert]
    split
    · next heq => rw [heq, h]
    · rfl

/-- A value stored over another. -/
theorem insert_insert (m : SortedMap κ ν) (k : κ) (v w : ν) :
    (m.insert k v).insert k w = m.insert k w := by
  refine ext_find? fun k' => ?_
  rw [find?_insert, find?_insert, find?_insert]
  split <;> rfl

/-- A value stored for an erased key. -/
theorem insert_erase (m : SortedMap κ ν) (k : κ) (v : ν) :
    (m.erase k).insert k v = m.insert k v := by
  refine ext_find? fun k' => ?_
  rw [find?_insert, find?_insert, find?_erase]
  split <;> rfl

end SortedMap
