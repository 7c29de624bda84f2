/-
A map in a fixed table with linear probing.

The entry of a key is looked for from the slot its hash names, around the whole
table.  `insert` writes the first empty slot, whatever keys it passes, and
refuses when only one slot is left; `erase` empties the slot it finds, so that a
lookup cannot stop at an empty one.

As long as no key is entered twice, the table is a finite map: `find_insert` and
`find_erase` say what becomes of every key, and `insert_refused` when an entry is
not made.  `Represents` compares it with one, `Represents.insert` and
`Represents.erase` keep the two together.
-/
import Mathlib.Data.Finmap
import Mathlib.Tactic

/-- `n` slots, each empty or with a key and a value, and the number of entries. -/
structure FlatMap (κ ν : Type*) (n : ℕ) where
  slots : Fin n → Option (κ × ν)
  size : ℕ

namespace FlatMap

variable {κ ν : Type*} {n : ℕ}

def empty : FlatMap κ ν n := ⟨fun _ => none, 0⟩

section

variable [NeZero n]

/-- The slots in the order in which they are probed. -/
def probes (n start : ℕ) [NeZero n] : List (Fin n) :=
  (List.range n).map fun i => Fin.ofNat n (start + i)

theorem mem_probes (start : ℕ) (i : Fin n) : i ∈ probes n start := by
  have hpos : 0 < n := Nat.pos_of_ne_zero (NeZero.ne n)
  refine List.mem_map.mpr ⟨(i.val + (n - start % n)) % n, ?_, ?_⟩
  · exact List.mem_range.mpr (Nat.mod_lt _ hpos)
  · apply Fin.ext
    have hmod := Nat.mod_lt start hpos
    have hsum : start % n + (i.val + (n - start % n)) = i.val + n := by omega
    show (start + (i.val + (n - start % n)) % n) % n = i.val
    rw [Nat.add_mod, Nat.mod_mod, ← Nat.add_mod, ← Nat.mod_add_mod, hsum, Nat.add_mod_right,
      Nat.mod_eq_of_lt i.isLt]

/-- The table after an insertion, and whether there was one. -/
def insert (m : FlatMap κ ν n) (start : ℕ) (k : κ) (v : ν) : FlatMap κ ν n × Bool :=
  if n - 1 ≤ m.size then (m, false)
  else
    match (probes n start).find? fun i => (m.slots i).isNone with
    | none => (m, false)
    | some i => ({ slots := Function.update m.slots i (some (k, v)), size := m.size + 1 }, true)

variable [DecidableEq κ]

/-- The first slot on the way that holds the key. -/
def index (m : FlatMap κ ν n) (start : ℕ) (k : κ) : Option (Fin n) :=
  (probes n start).find? fun i => (m.slots i).any fun e => e.1 = k

def find (m : FlatMap κ ν n) (start : ℕ) (k : κ) : Option ν :=
  (m.index start k).bind fun i => (m.slots i).map Prod.snd

def erase (m : FlatMap κ ν n) (start : ℕ) (k : κ) : FlatMap κ ν n :=
  match m.index start k with
  | none => m
  | some i => { slots := Function.update m.slots i none, size := m.size - 1 }

end

/-! ### Tables in which no key stands twice -/

/-- The number of entries is right and no key stands twice. -/
structure WellFormed (m : FlatMap κ ν n) : Prop where
  size : m.size = (Finset.univ.filter fun i => (m.slots i).isSome = true).card
  distinct : ∀ i j k v w, m.slots i = some (k, v) → m.slots j = some (k, w) → i = j

theorem wellFormed_empty : (empty : FlatMap κ ν n).WellFormed := by
  refine ⟨?_, ?_⟩
  · simp [empty]
  · intro i j k v w h
    cases h

/-- The slots that are taken after one slot is written. -/
theorem filter_update (slots : Fin n → Option (κ × ν)) (i : Fin n) (e : Option (κ × ν)) :
    (Finset.univ.filter fun j => (Function.update slots i e j).isSome = true) =
      if e.isSome then Insert.insert i (Finset.univ.filter fun j => (slots j).isSome = true)
      else (Finset.univ.filter fun j => (slots j).isSome = true).erase i := by
  ext j
  by_cases hj : j = i
  · subst hj
    cases e with
    | none => simp
    | some e => simp
  · cases e with
    | none => simp [hj]
    | some e => simp [hj]

variable [NeZero n] {m : FlatMap κ ν n} {start start' : ℕ} {k k' : κ} {v : ν}

/-- **A table that is not full takes a new key.** -/
theorem insert_cases (h : m.WellFormed) (hroom : m.size < n - 1) (start : ℕ) (k : κ) (v : ν) :
    ∃ i, m.slots i = none ∧ m.insert start k v =
      ({ slots := Function.update m.slots i (some (k, v)), size := m.size + 1 }, true) := by
  unfold insert
  rw [if_neg (not_le.mpr hroom)]
  cases hempty : (probes n start).find? fun i => (m.slots i).isNone with
  | some i =>
    have hnone := List.find?_some hempty
    exact ⟨i, Option.isNone_iff_eq_none.mp hnone, rfl⟩
  | none =>
    -- all slots would be taken
    have hall : ∀ i, (m.slots i).isSome = true := by
      intro i
      have hi := List.find?_eq_none.mp hempty i (mem_probes start i)
      cases hs : m.slots i with
      | none => simp [hs] at hi
      | some e => rfl
    have hcard : m.size = n := by
      rw [h.size, Finset.filter_true_of_mem fun i _ => hall i, Finset.card_univ, Fintype.card_fin]
    omega

theorem insert_refused (hfull : n - 1 ≤ m.size) (start : ℕ) (k : κ) (v : ν) :
    m.insert start k v = (m, false) := if_pos hfull

theorem wellFormed_insert (h : m.WellFormed) (hnew : ∀ i w, m.slots i ≠ some (k, w)) (start : ℕ)
    (v : ν) :
    (m.insert start k v).1.WellFormed := by
  by_cases hroom : m.size < n - 1
  · obtain ⟨i, hi, hinsert⟩ := insert_cases h hroom start k v
    rw [hinsert]
    refine ⟨?_, ?_⟩
    · show m.size + 1 = (Finset.univ.filter fun j =>
        (Function.update m.slots i (some (k, v)) j).isSome = true).card
      rw [filter_update, if_pos Option.isSome_some, Finset.card_insert_of_notMem (by simp [hi]),
        h.size]
    · intro a b key x y ha hb
      by_cases hai : a = i
      · by_cases hbi : b = i
        · rw [hai, hbi]
        · simp only [hai, Function.update_self, Function.update_of_ne hbi, Option.some.injEq,
            Prod.mk.injEq] at ha hb
          rw [← ha.1] at hb
          exact absurd hb (hnew b y)
      · by_cases hbi : b = i
        · simp only [hbi, Function.update_self, Function.update_of_ne hai, Option.some.injEq,
            Prod.mk.injEq] at ha hb
          rw [← hb.1] at ha
          exact absurd ha (hnew a x)
        · simp only [Function.update_of_ne hai, Function.update_of_ne hbi] at ha hb
          exact h.distinct a b key x y ha hb
  · rw [insert_refused (not_lt.mp hroom)]
    exact h

variable [DecidableEq κ]

theorem index_eq_some {i : Fin n} (h : m.index start k = some i) :
    ∃ v, m.slots i = some (k, v) := by
  have hany := List.find?_some h
  cases hi : m.slots i with
  | none => simp [hi] at hany
  | some e =>
    obtain ⟨k', v⟩ := e
    rw [hi] at hany
    simp only [Option.any_some, decide_eq_true_eq] at hany
    exact ⟨v, by rw [hany]⟩

theorem index_eq_none (h : m.index start k = none) (i : Fin n) : m.slots i ≠ some (k, v) := by
  intro hi
  have hnone := List.find?_eq_none.mp h i (mem_probes start i)
  rw [hi] at hnone
  simp at hnone

/-- A key that is in the table is found, from wherever the search starts. -/
theorem find_eq_some_iff (h : m.WellFormed) :
    m.find start k = some v ↔ ∃ i, m.slots i = some (k, v) := by
  unfold find
  cases hindex : m.index start k with
  | none =>
    constructor
    · intro hfind
      cases hfind
    · rintro ⟨i, hi⟩
      exact absurd hi (index_eq_none hindex i)
  | some j =>
    obtain ⟨w, hw⟩ := index_eq_some hindex
    rw [Option.bind_some, hw, Option.map_some, Option.some.injEq]
    constructor
    · rintro rfl
      exact ⟨j, hw⟩
    · rintro ⟨i, hi⟩
      have hij := h.distinct i j k v w hi hw
      rw [hij, hw, Option.some.injEq, Prod.mk.injEq] at hi
      exact hi.2

theorem find_eq_none_iff (h : m.WellFormed) :
    m.find start k = none ↔ ∀ i v, m.slots i ≠ some (k, v) := by
  constructor
  · intro hfind i v hi
    rw [(find_eq_some_iff h).mpr ⟨i, hi⟩] at hfind
    cases hfind
  · intro hno
    cases hfind : m.find start k with
    | none => rfl
    | some v =>
      obtain ⟨i, hi⟩ := (find_eq_some_iff h).mp hfind
      exact absurd hi (hno i v)

/-- What an insertion changes: the new key is found, the others as before. -/
theorem find_insert (h : m.WellFormed) (hroom : m.size < n - 1)
    (hnew : ∀ i w, m.slots i ≠ some (k, w)) :
    (m.insert start k v).1.find start' k' = if k' = k then some v else m.find start' k' := by
  have hwf := wellFormed_insert h hnew start v
  obtain ⟨i, hi, hinsert⟩ := insert_cases h hroom start k v
  rw [hinsert] at hwf ⊢
  by_cases hk : k' = k
  · rw [if_pos hk, find_eq_some_iff hwf]
    exact ⟨i, by simp [hk]⟩
  · rw [if_neg hk]
    apply Option.ext
    intro w
    rw [find_eq_some_iff hwf, find_eq_some_iff h]
    constructor
    · rintro ⟨j, hj⟩
      by_cases hji : j = i
      · rw [hji] at hj
        simp only [Function.update_self, Option.some.injEq, Prod.mk.injEq] at hj
        exact absurd hj.1.symm hk
      · simp only [Function.update_of_ne hji] at hj
        exact ⟨j, hj⟩
    · rintro ⟨j, hj⟩
      have hji : j ≠ i := by
        rintro rfl
        rw [hi] at hj
        cases hj
      exact ⟨j, by simpa only [Function.update_of_ne hji] using hj⟩

theorem wellFormed_erase (h : m.WellFormed) (start : ℕ) (k : κ) : (m.erase start k).WellFormed := by
  unfold erase
  split
  · exact h
  · rename_i i hindex
    obtain ⟨w, hw⟩ := index_eq_some hindex
    refine ⟨?_, ?_⟩
    · show m.size - 1 = (Finset.univ.filter fun j =>
        (Function.update m.slots i none j).isSome = true).card
      rw [filter_update, if_neg (by simp), Finset.card_erase_of_mem (by simp [hw]), h.size]
    · intro a b key x y ha hb
      have hai : a ≠ i := by
        rintro rfl
        simp at ha
      have hbi : b ≠ i := by
        rintro rfl
        simp at hb
      simp only [Function.update_of_ne hai, Function.update_of_ne hbi] at ha hb
      exact h.distinct a b key x y ha hb

/-- What an erasure changes: the key is gone, the others are found as before. -/
theorem find_erase (h : m.WellFormed) :
    (m.erase start k).find start' k' = if k' = k then none else m.find start' k' := by
  have hwf := wellFormed_erase h start k
  unfold erase at hwf ⊢
  cases hindex : m.index start k with
  | none =>
    -- no place holds the key, so nothing is erased
    simp only
    by_cases hk : k' = k
    · rw [if_pos hk, find_eq_none_iff h, hk]
      intro i v
      exact index_eq_none hindex i
    · rw [if_neg hk]
  | some i =>
    -- the place `i` is emptied; no other one holds the key
    rw [hindex] at hwf
    simp only at hwf ⊢
    obtain ⟨w, hw⟩ := index_eq_some hindex
    by_cases hk : k' = k
    · rw [if_pos hk, find_eq_none_iff hwf, hk]
      intro j x hj
      by_cases hji : j = i
      · rw [hji] at hj
        simp at hj
      · simp only [Function.update_of_ne hji] at hj
        exact hji (h.distinct j i k x w hj hw)
    · rw [if_neg hk]
      apply Option.ext
      intro x
      rw [find_eq_some_iff hwf, find_eq_some_iff h]
      constructor
      · rintro ⟨j, hj⟩
        by_cases hji : j = i
        · rw [hji] at hj
          simp at hj
        · simp only [Function.update_of_ne hji] at hj
          exact ⟨j, hj⟩
      · rintro ⟨j, hj⟩
        have hji : j ≠ i := by
          rintro rfl
          rw [hw, Option.some.injEq, Prod.mk.injEq] at hj
          exact hk hj.1.symm
        exact ⟨j, by simpa only [Function.update_of_ne hji] using hj⟩

/-! ### The table as a finite map -/

/-- The entries in the order of the slots. -/
def entries (m : FlatMap κ ν n) : List (κ × ν) := (List.finRange n).filterMap m.slots

omit [NeZero n] [DecidableEq κ] in
theorem mem_entries : (k, v) ∈ m.entries ↔ ∃ i, m.slots i = some (k, v) := by
  simp [entries]

omit [NeZero n] [DecidableEq κ] in
theorem nodup_entries (h : m.WellFormed) : m.entries.Nodup :=
  (List.nodup_finRange n).filterMap fun i j e hi hj => h.distinct i j e.1 e.2 e.2 hi hj

omit [NeZero n] [DecidableEq κ] in
theorem length_entries (h : m.WellFormed) : m.entries.length = m.size := by
  rw [h.size, entries, List.length_filterMap_eq_countP, List.countP_eq_length_filter]
  simp [Finset.card, Finset.filter, Finset.univ, Fintype.elems]

/-- The table holds what the finite map holds. -/
structure Represents (m : FlatMap κ ν n) (t : Finmap fun _ : κ => ν) : Prop where
  wellFormed : m.WellFormed
  holds : ∀ k v, (∃ i, m.slots i = some (k, v)) ↔ t.lookup k = some v

namespace Represents

variable {t : Finmap fun _ : κ => ν}

omit [NeZero n] in
theorem empty : (FlatMap.empty : FlatMap κ ν n).Represents ∅ := by
  refine ⟨wellFormed_empty, fun k v => ?_⟩
  rw [Finmap.lookup_empty]
  constructor
  · rintro ⟨i, hi⟩
    cases hi
  · intro h
    cases h

theorem find_eq (h : m.Represents t) (start : ℕ) (k : κ) : m.find start k = t.lookup k := by
  apply Option.ext
  intro v
  rw [find_eq_some_iff h.wellFormed, h.holds]

omit [NeZero n] in
theorem notMem_iff (h : m.Represents t) : k ∉ t ↔ ∀ i v, m.slots i ≠ some (k, v) := by
  rw [← Finmap.lookup_eq_none, Option.eq_none_iff_forall_ne_some]
  constructor
  · intro hnone i v hi
    exact hnone v ((h.holds k v).mp ⟨i, hi⟩)
  · intro hno v hv
    obtain ⟨i, hi⟩ := (h.holds k v).mpr hv
    exact hno i v hi

omit [NeZero n] in
/-- The slots that are taken are the entries of the map. -/
theorem entries_eq (h : m.Represents t) :
    (m.entries : Multiset (κ × ν)) = t.entries.map fun e => (e.1, e.2) := by
  have hinj : Function.Injective fun e : (_ : κ) × ν => (e.1, e.2) := by
    rintro ⟨k, v⟩ ⟨k', v'⟩ heq
    obtain ⟨hk, hv⟩ := Prod.mk.inj heq
    rw [show k = k' from hk, show v = v' from hv]
  rw [Multiset.Nodup.ext (Multiset.coe_nodup.mpr (nodup_entries h.wellFormed))
    (t.nodup_entries.map hinj)]
  rintro ⟨k, v⟩
  rw [Multiset.mem_coe, mem_entries, h.holds, Finmap.lookup_eq_some_iff, Multiset.mem_map]
  constructor
  · intro hmem
    exact ⟨⟨k, v⟩, hmem, rfl⟩
  · rintro ⟨⟨k', v'⟩, hmem, heq⟩
    rw [Prod.mk.injEq] at heq
    rw [← heq.1, ← heq.2]
    exact hmem

omit [NeZero n] in
theorem size_eq (h : m.Represents t) : m.size = t.keys.card := by
  have hcard := congrArg Multiset.card h.entries_eq
  rw [Multiset.coe_card, length_entries h.wellFormed, Multiset.card_map] at hcard
  rw [hcard]
  exact (Multiset.card_map Sigma.fst t.entries).symm

theorem insert (h : m.Represents t) (hroom : m.size < n - 1) (hnew : k ∉ t) (start : ℕ) (v : ν) :
    (m.insert start k v).1.Represents (t.insert k v) := by
  have hno := h.notMem_iff.mp hnew
  have hwf := wellFormed_insert h.wellFormed hno start v
  refine ⟨hwf, fun k' v' => ?_⟩
  have hfind : (m.insert start k v).1.find start k' = some v' ↔ _ := find_eq_some_iff hwf
  rw [← hfind, find_insert h.wellFormed hroom hno]
  by_cases hk : k' = k
  · rw [if_pos hk, hk, Finmap.lookup_insert]
  · rw [if_neg hk, Finmap.lookup_insert_of_ne _ hk, h.find_eq]

theorem erase (h : m.Represents t) (start : ℕ) (k : κ) :
    (m.erase start k).Represents (t.erase k) := by
  have hwf := wellFormed_erase h.wellFormed start k
  refine ⟨hwf, fun k' v' => ?_⟩
  have hfind : (m.erase start k).find start k' = some v' ↔ _ := find_eq_some_iff hwf
  rw [← hfind, find_erase h.wellFormed]
  by_cases hk : k' = k
  · rw [if_pos hk, hk, Finmap.lookup_erase]
  · rw [if_neg hk, Finmap.lookup_erase_ne hk, h.find_eq]

end Represents

end FlatMap
