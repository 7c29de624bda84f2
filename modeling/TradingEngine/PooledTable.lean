/-
Small tables of pointers into a shared pool.

The cells of a pool hold keyed values; a table is a row of places, each empty or
pointing to a cell.  `Fits pool table f` says that the table, read through the pool,
is the partial function `f`: its places are filled from the front, no two of them
have the same key, and they hold what `f` has.

* `Fits.congr` — only the cells pointed to count;
* `Fits.rewrite` — a cell that one place points to is given a new value for its key;
* `Fits.place` — the first empty place takes a cell that no place points to.
-/
import Mathlib.Data.Fintype.Basic
import Mathlib.Logic.Function.Basic

namespace PooledTable

variable {S K V : Type*} {n : ℕ} {pool pool' : S → K × V} {table : Fin n → Option S}
  {f : K → Option V}

/-- The table shows the value for the key. -/
def Shows (pool : S → K × V) (table : Fin n → Option S) (k : K) (v : V) : Prop :=
  ∃ i t, table i = some t ∧ pool t = (k, v)

structure Fits (pool : S → K × V) (table : Fin n → Option S) (f : K → Option V) : Prop where
  filled : ∀ i j, i < j → table i = none → table j = none
  one : ∀ i j t u, table i = some t → table j = some u → (pool t).1 = (pool u).1 → i = j
  shows : ∀ k v, f k = some v ↔ Shows pool table k v

theorem fits_empty (pool : S → K × V) : Fits pool (fun _ : Fin n => none) fun _ => none where
  filled _ _ _ _ := rfl
  one i j t u h := by cases h
  shows k v := by
    refine iff_of_false (fun h => by cases h) ?_
    rintro ⟨i, t, h, -⟩
    cases h

theorem shows_congr (h : ∀ i t, table i = some t → pool' t = pool t) {k : K} {v : V} :
    Shows pool' table k v ↔ Shows pool table k v := by
  constructor
  · rintro ⟨i, t, ht, hv⟩
    exact ⟨i, t, ht, (h i t ht).symm.trans hv⟩
  · rintro ⟨i, t, ht, hv⟩
    exact ⟨i, t, ht, (h i t ht).trans hv⟩

theorem Fits.congr (hfits : Fits pool table f) (h : ∀ i t, table i = some t → pool' t = pool t) :
    Fits pool' table f where
  filled := hfits.filled
  one i j t u ht hu hkey := by
    rw [h i t ht, h j u hu] at hkey
    exact hfits.one i j t u ht hu hkey
  shows k v := (hfits.shows k v).trans (shows_congr h).symm

/-- A place with a key has the value of the function. -/
theorem Fits.value (hfits : Fits pool table f) {i : Fin n} {t : S} (ht : table i = some t) :
    f (pool t).1 = some (pool t).2 := (hfits.shows _ _).mpr ⟨i, t, ht, rfl⟩

/-- Without a value for the key, no place has it. -/
theorem Fits.key_ne (hfits : Fits pool table f) {k : K} (hk : f k = none) {i : Fin n} {t : S}
    (ht : table i = some t) : (pool t).1 ≠ k := by
  intro hc
  have hv := hfits.value ht
  rw [hc, hk] at hv
  cases hv

/-- A value for the key is in one place, and before it there are filled places with
other keys. -/
theorem Fits.find (hfits : Fits pool table f) {k : K} {v : V} (hk : f k = some v) :
    ∃ i t, table i = some t ∧ pool t = (k, v) ∧
      ∀ j < i, ∃ u, table j = some u ∧ (pool u).1 ≠ k := by
  obtain ⟨i, t, ht, hv⟩ := (hfits.shows k v).mp hk
  refine ⟨i, t, ht, hv, fun j hj => ?_⟩
  cases hu : table j with
  | none =>
    rw [hfits.filled j i hj hu] at ht
    cases ht
  | some u =>
    refine ⟨u, rfl, fun hc => ?_⟩
    have heq := hfits.one j i u t hu ht (by rw [hc, hv])
    exact absurd hj (by rw [heq]; exact lt_irrefl i)

variable [DecidableEq S] [DecidableEq K]

theorem Fits.rewrite (hfits : Fits pool table f) {i : Fin n} {t : S} (ht : table i = some t)
    (hone : ∀ j u, table j = some u → j ≠ i → u ≠ t) (v : V) :
    Fits (Function.update pool t ((pool t).1, v)) table
      (Function.update f (pool t).1 (some v)) := by
  -- the cell keeps its key
  have hkey : ∀ u, (Function.update pool t ((pool t).1, v) u).1 = (pool u).1 := by
    intro u
    by_cases hu : u = t
    · rw [hu, Function.update_self]
    · rw [Function.update_of_ne hu]
  refine ⟨hfits.filled, fun j j' u u' hu hu' h => ?_, fun k w => ?_⟩
  · rw [hkey, hkey] at h
    exact hfits.one j j' u u' hu hu' h
  · by_cases hk : k = (pool t).1
    · subst hk
      rw [Function.update_self]
      constructor
      · intro h
        exact ⟨i, t, ht, by rw [Function.update_self, Option.some.inj h]⟩
      · rintro ⟨j, u, hu, hw⟩
        have hji : j = i := by
          refine hfits.one j i u t hu ht ?_
          rw [← hkey u, hw]
        rw [hji, ht] at hu
        rw [← Option.some.inj hu, Function.update_self] at hw
        exact congrArg some (Prod.mk.inj hw).2
    · rw [Function.update_of_ne hk, hfits.shows]
      constructor
      · rintro ⟨j, u, hu, hw⟩
        refine ⟨j, u, hu, ?_⟩
        have hut : u ≠ t := by
          rintro rfl
          exact hk (by rw [hw])
        rw [Function.update_of_ne hut, hw]
      · rintro ⟨j, u, hu, hw⟩
        refine ⟨j, u, hu, ?_⟩
        have hut : u ≠ t := by
          rintro rfl
          rw [Function.update_self] at hw
          exact hk (Prod.mk.inj hw).1.symm
        rwa [Function.update_of_ne hut] at hw

theorem Fits.place (hfits : Fits pool table f) {i : Fin n} (hempty : table i = none)
    (hbefore : ∀ j < i, table j ≠ none) {t : S} (hfresh : ∀ j, table j ≠ some t) {k : K}
    (hk : f k = none) (v : V) :
    Fits (Function.update pool t (k, v)) (Function.update table i (some t))
      (Function.update f k (some v)) := by
  have hold : ∀ j u, j ≠ i → Function.update table i (some t) j = some u →
      table j = some u ∧ Function.update pool t (k, v) u = pool u := by
    intro j u hj hu
    rw [Function.update_of_ne hj] at hu
    refine ⟨hu, Function.update_of_ne ?_ _ _⟩
    rintro rfl
    exact hfresh j hu
  have hnew : ∀ u, Function.update table i (some t) i = some u →
      Function.update pool t (k, v) u = (k, v) := by
    intro u hu
    rw [Function.update_self] at hu
    rw [← Option.some.inj hu, Function.update_self]
  refine ⟨fun j j' hlt hj => ?_, fun j j' u u' hu hu' h => ?_, fun k' w => ?_⟩
  · -- the place filled is the first empty one
    by_cases hji : j = i
    · rw [hji, Function.update_self] at hj
      cases hj
    · rw [Function.update_of_ne hji] at hj
      have hij : i < j' := by
        refine lt_of_le_of_lt (not_lt.mp fun hlt' => ?_) hlt
        exact hbefore j hlt' hj
      rw [Function.update_of_ne hij.ne']
      exact hfits.filled i j' hij hempty
  · -- the new key is not the key of an older entry
    by_cases hj : j = i
    · by_cases hj' : j' = i
      · rw [hj, hj']
      · subst hj
        obtain ⟨htab, hpool⟩ := hold j' u' hj' hu'
        rw [hnew u hu, hpool] at h
        exact absurd h.symm (hfits.key_ne hk htab)
    · obtain ⟨htab, hpool⟩ := hold j u hj hu
      by_cases hj' : j' = i
      · subst hj'
        rw [hnew u' hu', hpool] at h
        exact absurd h (hfits.key_ne hk htab)
      · obtain ⟨htab', hpool'⟩ := hold j' u' hj' hu'
        rw [hpool, hpool'] at h
        exact hfits.one j j' u u' htab htab' h
  · -- the new key shows the new value, any other key what it showed before
    by_cases hkk : k' = k
    · subst hkk
      rw [Function.update_self]
      constructor
      · intro h
        exact ⟨i, t, Function.update_self _ _ _, by rw [Function.update_self, Option.some.inj h]⟩
      · rintro ⟨j, u, hu, hw⟩
        by_cases hj : j = i
        · subst hj
          rw [hnew u hu] at hw
          exact congrArg some (Prod.mk.inj hw).2
        · obtain ⟨htab, hpool⟩ := hold j u hj hu
          rw [hpool] at hw
          exact absurd (by rw [hw]) (hfits.key_ne hk htab)
    · rw [Function.update_of_ne hkk, hfits.shows]
      constructor
      · rintro ⟨j, u, hu, hw⟩
        have hj : j ≠ i := by
          rintro rfl
          rw [hempty] at hu
          cases hu
        refine ⟨j, u, by rw [Function.update_of_ne hj]; exact hu, ?_⟩
        have hut : u ≠ t := by
          rintro rfl
          exact hfresh j hu
        rw [Function.update_of_ne hut, hw]
      · rintro ⟨j, u, hu, hw⟩
        by_cases hj : j = i
        · subst hj
          rw [hnew u hu] at hw
          exact absurd (Prod.mk.inj hw).1.symm hkk
        · obtain ⟨htab, hpool⟩ := hold j u hj hu
          exact ⟨j, u, htab, hpool.symm.trans hw⟩

end PooledTable
