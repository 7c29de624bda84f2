/-
Who holds what.

`held p` lists what is held at the place `p`.  `HeldOnce held` says that nothing is held
twice, at one place or at two.

* `HeldOnce.mono` — places let go of something;
* `HeldOnce.enter` — something that nobody holds comes to a place;
* `HeldOnce.move` — something goes from one place to another.
-/
import Mathlib.Tactic

open List

/-- Nothing is held twice. -/
structure HeldOnce {ι α : Type*} (held : ι → List α) : Prop where
  nodup : ∀ p, (held p).Nodup
  place : ∀ {p q : ι} {a : α}, a ∈ held p → a ∈ held q → p = q

namespace HeldOnce

variable {ι α : Type*} {held held' : ι → List α} {p q : ι} {a : α}

theorem none (h : ∀ p, held p = []) : HeldOnce held := by
  refine ⟨fun p => ?_, fun {p q a} ha => ?_⟩
  · rw [h p]
    exact nodup_nil
  · rw [h p] at ha
    exact absurd ha not_mem_nil

theorem mono (h : HeldOnce held) (hsub : ∀ p, held' p <+~ held p) : HeldOnce held' := by
  refine ⟨fun p => ?_, fun ha ha' => h.place ((hsub _).subset ha) ((hsub _).subset ha')⟩
  obtain ⟨l, hperm, hl⟩ := hsub p
  exact hperm.nodup_iff.mp ((h.nodup p).sublist hl)

theorem enter (h : HeldOnce held) (hfresh : ∀ p, a ∉ held p) (hq : held' q <+~ a :: held q)
    (hother : ∀ p, p ≠ q → held' p <+~ held p) : HeldOnce held' := by
  have hcons : (a :: held q).Nodup := nodup_cons.mpr ⟨hfresh q, h.nodup q⟩
  have hmem : ∀ p b, b ∈ held' p → (p = q ∧ b = a) ∨ b ∈ held p := by
    intro p b hb
    by_cases hpq : p = q
    · subst hpq
      rcases mem_cons.mp (hq.subset hb) with hba | hb
      · exact .inl ⟨rfl, hba⟩
      · exact .inr hb
    · exact .inr ((hother p hpq).subset hb)
  refine ⟨fun p => ?_, fun {p p' b} hb hb' => ?_⟩
  · by_cases hpq : p = q
    · subst hpq
      obtain ⟨l, hperm, hl⟩ := hq
      exact hperm.nodup_iff.mp (hcons.sublist hl)
    · obtain ⟨l, hperm, hl⟩ := hother p hpq
      exact hperm.nodup_iff.mp ((h.nodup p).sublist hl)
  · rcases hmem p b hb with ⟨hp, hba⟩ | hold
    · rcases hmem p' b hb' with ⟨hp', -⟩ | hold'
      · exact hp.trans hp'.symm
      · exact absurd (hba ▸ hold') (hfresh p')
    · rcases hmem p' b hb' with ⟨-, hba⟩ | hold'
      · exact absurd (hba ▸ hold) (hfresh p)
      · exact h.place hold hold'

theorem move (h : HeldOnce held) (hp : a :: held' p <+~ held p) (hq : held' q <+~ a :: held q)
    (hpq : p ≠ q) (hother : ∀ r, r ≠ p → r ≠ q → held' r <+~ held r) : HeldOnce held' := by
  classical
  have hheld : a ∈ held p := hp.subset mem_cons_self
  have hleft : a ∉ held' p := by
    obtain ⟨l, hperm, hl⟩ := hp
    exact (nodup_cons.mp (hperm.nodup_iff.mp ((h.nodup p).sublist hl))).1
  -- first it leaves the one place, then it comes to the other
  have hgone : HeldOnce (Function.update held p (held' p)) := by
    refine h.mono fun r => ?_
    by_cases hr : r = p
    · subst hr
      rw [Function.update_self]
      exact (sublist_cons_self a _).subperm.trans hp
    · rw [Function.update_of_ne hr]
  refine hgone.enter (a := a) (q := q) (fun r hr => ?_) ?_ fun r hr => ?_
  · by_cases hrp : r = p
    · subst hrp
      rw [Function.update_self] at hr
      exact hleft hr
    · rw [Function.update_of_ne hrp] at hr
      exact hrp (h.place hr hheld)
  · rw [Function.update_of_ne hpq.symm]
    exact hq
  · by_cases hrp : r = p
    · subst hrp
      rw [Function.update_self]
    · rw [Function.update_of_ne hrp]
      exact hother r hrp hr

end HeldOnce
