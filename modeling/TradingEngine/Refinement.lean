/-
Operations that return results, and refinement between two implementations of them.

An implementation is a function `step : σ → ω → σ × ρ`: an operation takes a state to a
state and a result.  `results` lists what a sequence of operations returns, `final` is the
state it ends in.  `Legal` says that each operation of the sequence may be called where it
is, by a precondition on the state.

* `Simulates` — one step of the concrete implementation does what the abstract one does;
* `Simulates.results_eq` — then every legal sequence returns the same results;
* `Simulates.final_rel` — and ends in related states.
-/
import Mathlib.Tactic

namespace Refinement

variable {σ τ ω ρ : Type*}

/-- What a sequence of operations returns. -/
def results (step : σ → ω → σ × ρ) : σ → List ω → List ρ
  | _, [] => []
  | s, o :: os => (step s o).2 :: results step (step s o).1 os

/-- The state after a sequence of operations. -/
def final (step : σ → ω → σ × ρ) : σ → List ω → σ
  | s, [] => s
  | s, o :: os => final step (step s o).1 os

/-- Each operation meets the precondition in the state in which it is called. -/
def Legal (step : σ → ω → σ × ρ) (pre : σ → ω → Prop) : σ → List ω → Prop
  | _, [] => True
  | s, o :: os => pre s o ∧ Legal step pre (step s o).1 os

/-- From related states a legal operation returns the same and leads to related states. -/
structure Simulates (R : σ → τ → Prop) (pre : τ → ω → Prop) (step : σ → ω → σ × ρ)
    (step' : τ → ω → τ × ρ) : Prop where
  result : ∀ {s t o}, R s t → pre t o → (step s o).2 = (step' t o).2
  next : ∀ {s t o}, R s t → pre t o → R (step s o).1 (step' t o).1

namespace Simulates

variable {R : σ → τ → Prop} {pre : τ → ω → Prop} {step : σ → ω → σ × ρ}
  {step' : τ → ω → τ × ρ} {s : σ} {t : τ}

theorem results_eq (h : Simulates R pre step step') (hst : R s t) {os : List ω}
    (hos : Legal step' pre t os) : results step s os = results step' t os := by
  induction os generalizing s t with
  | nil => rfl
  | cons o os ih =>
    rw [results, results, h.result hst hos.1, ih (h.next hst hos.1) hos.2]

theorem final_rel (h : Simulates R pre step step') (hst : R s t) {os : List ω}
    (hos : Legal step' pre t os) : R (final step s os) (final step' t os) := by
  induction os generalizing s t with
  | nil => exact hst
  | cons o os ih => exact ih (h.next hst hos.1) hos.2

end Simulates

/-- Without a precondition every sequence is legal. -/
theorem legal_true (step : τ → ω → τ × ρ) (t : τ) (os : List ω) :
    Legal step (fun _ _ => True) t os := by
  induction os generalizing t with
  | nil => trivial
  | cons o os ih => exact ⟨trivial, ih _⟩

end Refinement
