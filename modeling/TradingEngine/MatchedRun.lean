/-
Runs that answer alike.

`Matches R x y` says that two computations that can fail both succeed, with results related
by `R`, or fail with the same error.  An event of the one machine may be given to the other
in a form that depends on the state, as `translated` does it along a run.

* `exec_matches` — when every step is matched by that of the other machine on the translated
  event, every run is matched by a run;
* `exec_of_matched` — when both steps succeed, so do both runs.
-/
import TradingEngine.FallibleRun

namespace FallibleRun

universe u

/-- Both succeed with related results, or both fail with one error. -/
def Matches {σ τ φ : Type*} (R : σ → τ → Prop) : Except φ σ → Except φ τ → Prop
  | .ok s, .ok t => R s t
  | .error e, .error e' => e = e'
  | _, _ => False

section

variable {φ : Type*} {α α' β β' : Type u} {P : α → α' → Prop} {R : β → β' → Prop}

theorem matches_of_ok {s : β} {t : β'} (h : R s t) :
    Matches R (.ok s : Except φ β) (.ok t : Except φ β') := h

theorem Matches.bind {x : Except φ α} {y : Except φ α'} {f : α → Except φ β}
    {g : α' → Except φ β'} (h : Matches P x y) (hfg : ∀ a b, P a b → Matches R (f a) (g b)) :
    Matches R (x >>= f) (y >>= g) := by
  cases x with
  | error e =>
    cases y with
    | error e' => exact h
    | ok b => exact h.elim
  | ok a =>
    cases y with
    | error e' => exact h.elim
    | ok b => exact hfg a b h

/-- Where both succeed, more may be known of the results. -/
theorem Matches.strengthen {x : Except φ β} {y : Except φ β'} {Q : β → β' → Prop}
    (h : Matches R x y) (hQ : ∀ s t, x = .ok s → R s t → Q s t) : Matches Q x y := by
  cases x with
  | error e =>
    cases y with
    | error e' => exact h
    | ok t => exact h.elim
  | ok s =>
    cases y with
    | error e' => exact h.elim
    | ok t => exact hQ s t rfl h

theorem Matches.mono {x : Except φ β} {y : Except φ β'} {Q : β → β' → Prop} (h : Matches R x y)
    (hRQ : ∀ s t, R s t → Q s t) : Matches Q x y :=
  h.strengthen fun s t _ hst => hRQ s t hst

theorem Matches.exists_ok {x : Except φ β} {t : β'} (h : Matches R x (.ok t)) :
    ∃ s, x = .ok s ∧ R s t := by
  cases x with
  | error e => exact h.elim
  | ok s => exact ⟨s, rfl, h⟩

end

section

variable {σ τ ε ε' φ : Type*} (step : σ → ε → Except φ σ) (form : σ → ε → ε')

/-- The events of a run as the other machine is given them. -/
def translated : σ → List ε → List ε'
  | _, [] => []
  | s, e :: es =>
    form s e ::
      match step s e with
      | .ok s' => translated s' es
      | .error _ => []

variable {step form} {step' : τ → ε' → Except φ τ} {C : σ → ε → Prop} {R : σ → τ → Prop}

theorem exec_matches (hstep : ∀ s t e, R s t → C s e → Matches R (step s e) (step' t (form s e)))
    {s : σ} {t : τ} {es : List ε} (hst : R s t) (hc : Along step C s es) :
    Matches R (exec step s es) (exec step' t (translated step form s es)) := by
  induction es generalizing s t with
  | nil => exact hst
  | cons e es ih =>
    have hfirst := hstep s t e hst hc.1
    rw [exec, translated, exec]
    cases hs : step s e with
    | error x =>
      cases ht : step' t (form s e) with
      | error y =>
        rw [hs, ht] at hfirst
        exact hfirst
      | ok t' =>
        rw [hs, ht] at hfirst
        exact hfirst.elim
    | ok s' =>
      cases ht : step' t (form s e) with
      | error y =>
        rw [hs, ht] at hfirst
        exact hfirst.elim
      | ok t' =>
        rw [hs, ht] at hfirst
        exact ih hfirst (hc.2 s' hs)

theorem exec_of_matched
    (hstep : ∀ s t e, R s t → C s e →
      ∃ s' t', step s e = .ok s' ∧ step' t (form s e) = .ok t' ∧ R s' t')
    {s : σ} {t : τ} {es : List ε} (hst : R s t) (hc : Along step C s es) :
    ∃ s' t', exec step s es = .ok s' ∧ exec step' t (translated step form s es) = .ok t' ∧
      R s' t' := by
  induction es generalizing s t with
  | nil => exact ⟨s, t, rfl, rfl, hst⟩
  | cons e es ih =>
    obtain ⟨s', t', hs, ht, hst'⟩ := hstep s t e hst hc.1
    obtain ⟨s'', t'', hrun, hrun', hend⟩ := ih hst' (hc.2 s' hs)
    refine ⟨s'', t'', ?_, ?_, hend⟩
    · rw [exec_cons_ok es hs]
      exact hrun
    · rw [translated, hs]
      exact (exec_cons_ok _ ht).trans hrun'

end

end FallibleRun
