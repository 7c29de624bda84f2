/-
An index from keys to slots.

The slots of a pool each hold a record, and `keyOf` reads the key off the record
in a slot.  `Indexes m used keyOf` says that the finite map `m` is the exact
index of the slots in `used`: it maps `k` to `s` iff `s` is in use and its
record has the key `k`.

* `Indexes.insert` — a new slot is entered;
* `Indexes.recycle` — a slot in use is given a new record: the key of its old
  record is erased first;
* `Indexes.card_keys_le` — the index is never larger than the set of slots.
-/
import Mathlib.Data.Finmap
import Mathlib.Tactic

variable {κ ι : Type*} [DecidableEq κ]

/-- The map is the exact index of the slots in use. -/
def Indexes (m : Finmap fun _ : κ => ι) (used : Finset ι) (keyOf : ι → κ) : Prop :=
  ∀ k s, m.lookup k = some s ↔ s ∈ used ∧ keyOf s = k

namespace Indexes

variable {m : Finmap fun _ : κ => ι} {used : Finset ι} {keyOf keyOf' : ι → κ} {k k' : κ} {s : ι}

theorem empty (keyOf : ι → κ) : Indexes (∅ : Finmap fun _ : κ => ι) ∅ keyOf := by
  intro k s
  simp

theorem key_unique (h : Indexes m used keyOf) (hk : m.lookup k = some s)
    (hk' : m.lookup k' = some s) : k = k' := by
  have hs : keyOf s = k := ((h k s).mp hk).2
  have hs' : keyOf s = k' := ((h k' s).mp hk').2
  exact hs.symm.trans hs'

/-- Records may change as long as their keys stay. -/
theorem congr (h : Indexes m used keyOf) (hkey : ∀ t ∈ used, keyOf' t = keyOf t) :
    Indexes m used keyOf' := by
  intro k s
  rw [h k s]
  constructor
  · intro ⟨hs, hk⟩
    exact ⟨hs, (hkey s hs).trans hk⟩
  · intro ⟨hs, hk⟩
    exact ⟨hs, (hkey s hs).symm.trans hk⟩

variable [DecidableEq ι]

/-- A slot outside `used` is entered under a key the map does not have. -/
theorem insert (h : Indexes m used keyOf) (hk : m.lookup k = none) (hs : s ∉ used)
    (hkey : keyOf' s = k) (hother : ∀ t, t ≠ s → keyOf' t = keyOf t) :
    Indexes (m.insert k s) (Insert.insert s used) keyOf' := by
  intro k' t
  rw [Finset.mem_insert]
  by_cases hkk : k' = k
  · subst hkk
    rw [Finmap.lookup_insert, Option.some.injEq]
    constructor
    · intro hst
      subst hst
      exact ⟨Or.inl rfl, hkey⟩
    · rintro ⟨rfl | ht, hkt⟩
      · rfl
      · have hne : t ≠ s := fun hts => hs (hts ▸ ht)
        rw [hother t hne] at hkt
        have hlook : m.lookup k' = some t := (h k' t).mpr ⟨ht, hkt⟩
        rw [hk] at hlook
        exact absurd hlook (by simp)
  · rw [Finmap.lookup_insert_of_ne _ hkk, h k' t]
    constructor
    · intro ⟨ht, hkt⟩
      have hne : t ≠ s := fun hts => hs (hts ▸ ht)
      exact ⟨Or.inr ht, (hother t hne).trans hkt⟩
    · rintro ⟨rfl | ht, hkt⟩
      · exact absurd (hkt.symm.trans hkey) hkk
      · have hne : t ≠ s := fun hts => hs (hts ▸ ht)
        exact ⟨ht, (hother t hne).symm.trans hkt⟩

/-- A slot in use is given a new record: erasing the key of the old record
leaves the index of the other slots. -/
theorem recycle (h : Indexes m used keyOf) (hk : m.lookup k = none) (hs : s ∈ used)
    (hkey : keyOf' s = k) (hother : ∀ t, t ≠ s → keyOf' t = keyOf t) :
    Indexes ((m.erase (keyOf s)).insert k s) used keyOf' := by
  have hold : m.lookup (keyOf s) = some s := (h (keyOf s) s).mpr ⟨hs, rfl⟩
  -- first the slot is given up, then it is entered as a new one
  have herase : Indexes (m.erase (keyOf s)) (used.erase s) keyOf := by
    intro k' t
    rw [Finset.mem_erase]
    by_cases hkk : k' = keyOf s
    · subst hkk
      rw [Finmap.lookup_erase]
      constructor
      · intro hnone
        exact absurd hnone (by simp)
      · intro ⟨⟨hts, ht⟩, hkt⟩
        have hlook : m.lookup (keyOf s) = some t := (h _ t).mpr ⟨ht, hkt⟩
        rw [hold, Option.some.injEq] at hlook
        exact absurd hlook.symm hts
    · rw [Finmap.lookup_erase_ne hkk, h k' t]
      constructor
      · intro ⟨ht, hkt⟩
        have hts : t ≠ s := fun hts => hkk (by rw [← hkt, hts])
        exact ⟨⟨hts, ht⟩, hkt⟩
      · intro ⟨⟨_, ht⟩, hkt⟩
        exact ⟨ht, hkt⟩
  -- the new key may be the one just erased
  have hnone : (m.erase (keyOf s)).lookup k = none := by
    by_cases hkk : k = keyOf s
    · rw [hkk, Finmap.lookup_erase]
    · rw [Finmap.lookup_erase_ne hkk, hk]
  have hins := herase.insert hnone (Finset.notMem_erase s used) hkey hother
  rwa [Finset.insert_erase hs] at hins

omit [DecidableEq ι] in
/-- There are at most as many keys as slots in use. -/
theorem card_keys_le (h : Indexes m used keyOf) : m.keys.card ≤ used.card := by
  classical
  have hsub : m.keys ⊆ used.image keyOf := by
    intro k hk
    obtain ⟨s, hs⟩ := Finmap.mem_iff.mp (Finmap.mem_keys.mp hk)
    obtain ⟨hused, hkey⟩ := (h k s).mp hs
    exact Finset.mem_image.mpr ⟨s, hused, hkey⟩
  exact (Finset.card_le_card hsub).trans Finset.card_image_le

end Indexes
