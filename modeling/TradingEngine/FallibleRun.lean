/-
Runs of a step function that can fail.

`step : σ → ε → Except φ σ` is one step of a machine on one event.  `exec`
threads a whole list of events through it and stops at the first failure.
`Along step C s es` says that the condition `C` holds at every step of the run
of `es` from `s`, in the state in which that step is taken.

* `exec_of_along` — if under the invariant and the condition every step
  succeeds and keeps the invariant, then every run that meets the condition
  succeeds and ends in the invariant;
* `exec_inv` — if every successful step keeps the invariant, so does every
  successful run; `exec_inv_along` is the same under a condition on the steps;
* `forall_prefix_iff_along` — when a condition is exact for single steps, it is exact
  for runs, also when it is about the events taken so far
  (`forall_prefix_iff_along_history`);
* `exec_flatMap` — a run whose steps are runs of finer steps is a run of those;
* `exec_simulates` — when every step is matched by one of another machine, so is every run;
* `OkUnless` — a computation that can only fail in one way and otherwise has a property.

Both are stated for whole lists; since the condition of a run is inherited by
its initial segments (`along_append`), they speak about every state reached.
-/
import Mathlib.Tactic

namespace FallibleRun

universe u

variable {σ ε φ : Type*}

/-- A fallible computation that succeeds is one whose two halves do. -/
theorem bind_eq_ok_iff {α β : Type u} {x : Except φ α} {f : α → Except φ β} {b : β} :
    (x >>= f) = .ok b ↔ ∃ a, x = .ok a ∧ f a = .ok b := by
  cases x with
  | error e => simp [Bind.bind, Except.bind]
  | ok a => simp [Bind.bind, Except.bind]

/-- A fallible computation that fails does so in one of its halves. -/
theorem bind_eq_error_iff {α β : Type u} {x : Except φ α} {f : α → Except φ β} {e : φ} :
    (x >>= f) = .error e ↔ x = .error e ∨ ∃ a, x = .ok a ∧ f a = .error e := by
  cases x with
  | error e' => simp [Bind.bind, Except.bind]
  | ok a => simp [Bind.bind, Except.bind]

theorem map_eq_ok_iff {α β : Type*} {x : Except φ α} {f : α → β} {b : β} :
    x.map f = .ok b ↔ ∃ a, x = .ok a ∧ f a = b := by
  cases x with
  | error e => simp [Except.map]
  | ok a => simp [Except.map]

/-- Run the events in order, stopping at the first failing step. -/
def exec (step : σ → ε → Except φ σ) : σ → List ε → Except φ σ
  | s, [] => .ok s
  | s, e :: es =>
    match step s e with
    | .ok s' => exec step s' es
    | .error f => .error f

/-- The condition `C` holds at each step of the run, in the state before it. -/
def Along (step : σ → ε → Except φ σ) (C : σ → ε → Prop) : σ → List ε → Prop
  | _, [] => True
  | s, e :: es => C s e ∧ ∀ s', step s e = .ok s' → Along step C s' es

variable {step : σ → ε → Except φ σ} {C : σ → ε → Prop} {Inv : σ → Prop}

instance decidableAlong [hC : ∀ s e, Decidable (C s e)] : ∀ s es, Decidable (Along step C s es)
  | _, [] => .isTrue trivial
  | s, e :: es =>
    match hs : step s e with
    | .error _ =>
      decidable_of_iff (C s e) ⟨fun h => ⟨h, fun _ h' => by rw [hs] at h'; cases h'⟩, And.left⟩
    | .ok s' =>
      haveI := decidableAlong s' es
      decidable_of_iff (C s e ∧ Along step C s' es)
        ⟨fun h => ⟨h.1, fun _ h' => by rw [hs] at h'; cases h'; exact h.2⟩,
          fun h => ⟨h.1, h.2 s' hs⟩⟩

@[simp] theorem exec_nil (s : σ) : exec step s [] = .ok s := rfl

theorem exec_cons_ok {s s' : σ} {e : ε} (es : List ε) (h : step s e = .ok s') :
    exec step s (e :: es) = exec step s' es := by
  rw [exec, h]

/-- A successful run on `e :: es` is a successful step followed by a
successful run. -/
theorem exec_cons_eq_ok_iff {s t : σ} {e : ε} {es : List ε} :
    exec step s (e :: es) = .ok t ↔ ∃ s', step s e = .ok s' ∧ exec step s' es = .ok t := by
  constructor
  · intro h
    cases hs : step s e with
    | error f =>
      rw [exec, hs] at h
      exact absurd h (by simp)
    | ok s' =>
      rw [exec_cons_ok es hs] at h
      exact ⟨s', rfl, h⟩
  · rintro ⟨s', hs, h⟩
    rw [exec_cons_ok es hs]
    exact h

theorem exec_append_eq_ok_iff {s t : σ} {es es' : List ε} :
    exec step s (es ++ es') = .ok t ↔ ∃ s', exec step s es = .ok s' ∧ exec step s' es' = .ok t := by
  induction es generalizing s with
  | nil => simp
  | cons e es ih =>
    rw [List.cons_append, exec_cons_eq_ok_iff]
    constructor
    · rintro ⟨u, hu, h⟩
      obtain ⟨v, hv, h'⟩ := ih.mp h
      exact ⟨v, exec_cons_eq_ok_iff.mpr ⟨u, hu, hv⟩, h'⟩
    · rintro ⟨v, hv, h'⟩
      obtain ⟨u, hu, hv'⟩ := exec_cons_eq_ok_iff.mp hv
      exact ⟨u, hu, ih.mpr ⟨v, hv', h'⟩⟩

/-- A run over translated events is a run of the translated steps. -/
theorem exec_map {ε' : Type*} {step' : σ → ε' → Except φ σ} {f : ε' → ε} {es : List ε'}
    (h : ∀ e ∈ es, ∀ s, step s (f e) = step' s e) (s : σ) :
    exec step s (es.map f) = exec step' s es := by
  induction es generalizing s with
  | nil => rfl
  | cons e es ih =>
    rw [List.map_cons, exec, exec, h e List.mem_cons_self s]
    cases step' s e with
    | error x => rfl
    | ok s' => exact ih (fun e' he => h e' (List.mem_cons_of_mem e he)) s'

/-- When every step is itself a run of finer steps, so is every run. -/
theorem exec_flatMap {ε' : Type*} {step' : σ → ε' → Except φ σ} {f : ε' → List ε}
    (h : ∀ s e s', step' s e = .ok s' → exec step s (f e) = .ok s') {s t : σ} {es : List ε'}
    (hrun : exec step' s es = .ok t) : exec step s (es.flatMap f) = .ok t := by
  induction es generalizing s with
  | nil => exact hrun
  | cons e es ih =>
    obtain ⟨s', hs', hrest⟩ := exec_cons_eq_ok_iff.mp hrun
    rw [List.flatMap_cons]
    exact exec_append_eq_ok_iff.mpr ⟨s', h s e s' hs', ih hrest⟩

/-- To follow a run whose first step is known. -/
theorem along_cons {s : σ} (s' : σ) {e : ε} {es : List ε} (hc : C s e) (hs : step s e = .ok s')
    (h : Along step C s' es) : Along step C s (e :: es) := by
  refine ⟨hc, fun t ht => ?_⟩
  rw [hs, Except.ok.injEq] at ht
  exact ht ▸ h

/-- What holds of every event holds along the run. -/
theorem along_of_forall {D : ε → Prop} {es : List ε} (h : ∀ e ∈ es, D e) (s : σ) :
    Along step (fun _ e => D e) s es := by
  induction es generalizing s with
  | nil => trivial
  | cons e es ih =>
    exact ⟨h e List.mem_cons_self, fun s' _ => ih (fun f hf => h f (List.mem_cons_of_mem _ hf)) s'⟩

theorem along_true (s : σ) (es : List ε) : Along step (fun _ _ => True) s es :=
  along_of_forall (fun _ _ => trivial) s

/-- An initial segment of a run that meets the condition meets it. -/
theorem along_append {s : σ} {es es' : List ε} (h : Along step C s (es ++ es')) :
    Along step C s es := by
  induction es generalizing s with
  | nil => trivial
  | cons e es ih => exact ⟨h.1, fun s' hs => ih (h.2 s' hs)⟩

theorem along_of_initial {s : σ} {es es' : List ε} (hpre : es <+: es')
    (h : Along step C s es') : Along step C s es := by
  obtain ⟨rest, rfl⟩ := hpre
  exact along_append h

/-- The condition of the last event of a run, in the state it is taken in. -/
theorem last_of_along {s t : σ} {es : List ε} {e : ε} (h : Along step C s (es ++ [e]))
    (hrun : exec step s es = .ok t) : C t e := by
  induction es generalizing s with
  | nil =>
    rw [exec_nil, Except.ok.injEq] at hrun
    exact hrun ▸ h.1
  | cons x es ih =>
    obtain ⟨s', hs', hrest⟩ := exec_cons_eq_ok_iff.mp hrun
    exact ih (h.2 s' hs') hrest

/-- A condition that holds along a run and along what follows it. -/
theorem along_append_of {s : σ} {es es' : List ε} (h : Along step C s es)
    (h' : ∀ t, exec step s es = .ok t → Along step C t es') : Along step C s (es ++ es') := by
  induction es generalizing s with
  | nil => exact h' s rfl
  | cons e es ih =>
    refine ⟨h.1, fun s' hs => ih (h.2 s' hs) fun t ht => h' t ?_⟩
    rw [exec_cons_ok es hs]
    exact ht

/-- Two conditions that agree under an invariant hold along the same runs, when one of
them keeps the invariant. -/
theorem along_iff_along {A K : σ → ε → Prop} (hiff : ∀ s e, Inv s → A s e → (K s e ↔ C s e))
    (hinv : ∀ s e s', Inv s → A s e → C s e → step s e = .ok s' → Inv s')
    {s : σ} {es : List ε} (hs : Inv s) (hA : Along step A s es) :
    Along step K s es ↔ Along step C s es := by
  induction es generalizing s with
  | nil => exact Iff.rfl
  | cons e es ih =>
    have hhead := hiff s e hs hA.1
    constructor
    · rintro ⟨hk, hrest⟩
      have hc := hhead.mp hk
      exact ⟨hc, fun s' hs' => (ih (hinv s e s' hs hA.1 hc hs') (hA.2 s' hs')).mp (hrest s' hs')⟩
    · rintro ⟨hc, hrest⟩
      exact ⟨hhead.mpr hc,
        fun s' hs' => (ih (hinv s e s' hs hA.1 hc hs') (hA.2 s' hs')).mpr (hrest s' hs')⟩

/-- Two conditions hold along a run when each of them does. -/
theorem along_and {K : σ → ε → Prop} {s : σ} {es : List ε} (h : Along step C s es)
    (h' : Along step K s es) : Along step (fun s e => C s e ∧ K s e) s es := by
  induction es generalizing s with
  | nil => trivial
  | cons e es ih => exact ⟨⟨h.1, h'.1⟩, fun s' hs => ih (h.2 s' hs) (h'.2 s' hs)⟩

/-- Conditions that agree under an invariant at the steps that return hold along the same
runs, when one of them keeps the invariant; `A` says which events there are. -/
theorem along_iff_along_of_exec {A K : σ → ε → Prop}
    (hiff : ∀ s e s', Inv s → A s e → step s e = .ok s' → (K s e ↔ C s e))
    (hinv : ∀ s e s', Inv s → A s e → C s e → step s e = .ok s' → Inv s')
    {s t : σ} {es : List ε} (hs : Inv s) (hA : Along step A s es) (h : exec step s es = .ok t) :
    Along step K s es ↔ Along step C s es := by
  induction es generalizing s with
  | nil => exact Iff.rfl
  | cons e es ih =>
    obtain ⟨s', hs', h'⟩ := exec_cons_eq_ok_iff.mp h
    have hhead := hiff s e s' hs hA.1 hs'
    have hrest : C s e → ∀ t, step s e = .ok t → (Along step K t es ↔ Along step C t es) := by
      intro hc u hu
      have hnext := ih (hinv s e s' hs hA.1 hc hs') (hA.2 s' hs') h'
      rw [hs', Except.ok.injEq] at hu
      exact hu ▸ hnext
    constructor
    · rintro ⟨hk, hrun⟩
      have hc := hhead.mp hk
      exact ⟨hc, fun u hu => (hrest hc u hu).mp (hrun u hu)⟩
    · rintro ⟨hc, hrun⟩
      exact ⟨hhead.mpr hc, fun u hu => (hrest hc u hu).mpr (hrun u hu)⟩

/-- Conditions that agree at the steps that return hold along the same runs. -/
theorem along_congr {K : σ → ε → Prop}
    (hiff : ∀ s e s', step s e = .ok s' → (K s e ↔ C s e)) {s t : σ} {es : List ε}
    (h : exec step s es = .ok t) : Along step K s es ↔ Along step C s es := by
  have hiff' : ∀ s e s', (fun _ : σ => True) s → (fun (_ : σ) (_ : ε) => True) s e →
      step s e = .ok s' → (K s e ↔ C s e) := fun s e s' _ _ => hiff s e s'
  exact along_iff_along_of_exec hiff' (fun _ _ _ _ _ _ _ => trivial) trivial (along_true s es) h

/-- **Progress and preservation over a run.**  If every step that meets the
condition succeeds and keeps the invariant, a run that meets the condition
succeeds and ends in the invariant. -/
theorem exec_of_along
    (hstep : ∀ s e, Inv s → C s e → ∃ s', step s e = .ok s' ∧ Inv s')
    {s : σ} {es : List ε} (hs : Inv s) (h : Along step C s es) :
    ∃ s', exec step s es = .ok s' ∧ Inv s' := by
  induction es generalizing s with
  | nil => exact ⟨s, rfl, hs⟩
  | cons e es ih =>
    obtain ⟨s', hs', hinv⟩ := hstep s e hs h.1
    obtain ⟨t, ht, htinv⟩ := ih hinv (h.2 s' hs')
    exact ⟨t, by rw [exec_cons_ok es hs', ht], htinv⟩

/-- **Preservation over a run that meets a condition.**  If every successful
step that meets the condition keeps the invariant, so does every successful run
that meets it. -/
theorem exec_inv_along (hstep : ∀ s e s', Inv s → C s e → step s e = .ok s' → Inv s')
    {s t : σ} {es : List ε} (hs : Inv s) (hc : Along step C s es) (h : exec step s es = .ok t) :
    Inv t := by
  induction es generalizing s with
  | nil =>
    rw [exec_nil, Except.ok.injEq] at h
    exact h ▸ hs
  | cons e es ih =>
    obtain ⟨s', hs', h'⟩ := exec_cons_eq_ok_iff.mp h
    exact ih (hstep s e s' hs hc.1 hs') (hc.2 s' hs') h'

/-- **Preservation over a run.**  If every successful step keeps the
invariant, so does every successful run. -/
theorem exec_inv (hstep : ∀ s e s', Inv s → step s e = .ok s' → Inv s')
    {s t : σ} {es : List ε} (hs : Inv s) (h : exec step s es = .ok t) : Inv t :=
  exec_inv_along (fun s e s' hi _ => hstep s e s' hi) hs (along_true s es) h

/-- **Forward simulation.**  When a step from related states is matched by a step of the other
machine to related states, a run is matched by a run. -/
theorem exec_simulates {σ' : Type*} {step' : σ' → ε → Except φ σ'} {R : σ → σ' → Prop}
    (hstep : ∀ s t e s', R s t → C s e → step s e = .ok s' → ∃ t', step' t e = .ok t' ∧ R s' t')
    {s s' : σ} {t : σ'} {es : List ε} (hst : R s t) (hc : Along step C s es)
    (hrun : exec step s es = .ok s') : ∃ t', exec step' t es = .ok t' ∧ R s' t' := by
  induction es generalizing s t with
  | nil =>
    rw [exec_nil, Except.ok.injEq] at hrun
    exact ⟨t, rfl, hrun ▸ hst⟩
  | cons e es ih =>
    obtain ⟨u, hu, hrest⟩ := exec_cons_eq_ok_iff.mp hrun
    obtain ⟨v, hv, huv⟩ := hstep s t e u hst hc.1 hu
    obtain ⟨t', ht', hend⟩ := ih huv (hc.2 u hu) hrest
    exact ⟨t', by rw [exec_cons_ok es hv, ht'], hend⟩

/-- **A condition that is exact, with the history.**  The invariant and the goal may speak
of the events taken so far; `A` says which events there are. -/
theorem forall_prefix_iff_along_history {A : ε → Prop} {I P : List ε → σ → Prop}
    (hgood : ∀ h s, I h s → P h s)
    (hstep : ∀ h s e s', A e → I h s → C s e → step s e = .ok s' → I (h ++ [e]) s')
    (hexact : ∀ h s e s', A e → I h s → step s e = .ok s' → P (h ++ [e]) s' → C s e)
    {s t : σ} {es : List ε} (past : List ε) (hs : I past s) (hes : ∀ e ∈ es, A e)
    (h : exec step s es = .ok t) :
    (∀ es₁ u, es₁ <+: es → exec step s es₁ = .ok u → P (past ++ es₁) u) ↔
      Along step C s es := by
  induction es generalizing s past with
  | nil =>
    refine ⟨fun _ => trivial, fun _ es₁ u hpre hu => ?_⟩
    rw [List.prefix_nil.mp hpre] at hu ⊢
    rw [exec_nil, Except.ok.injEq] at hu
    rw [List.append_nil]
    exact hu ▸ hgood past s hs
  | cons e es ih =>
    obtain ⟨s', hs', h'⟩ := exec_cons_eq_ok_iff.mp h
    have hA : A e := hes e List.mem_cons_self
    have hrest : ∀ e' ∈ es, A e' := fun e' he' => hes e' (List.mem_cons_of_mem e he')
    constructor
    · intro hall
      -- the prefix of one event decides the condition on the first step
      have hfirst : P (past ++ [e]) s' :=
        hall [e] s' (List.prefix_cons_inj e |>.mpr (List.nil_prefix)) (exec_cons_ok [] hs')
      have hc : C s e := hexact past s e s' hA hs hs' hfirst
      refine ⟨hc, fun u hu => ?_⟩
      rw [hs', Except.ok.injEq] at hu
      subst hu
      refine (ih (past ++ [e]) (hstep past s e s' hA hs hc hs') hrest h').mp
        fun es₁ u hpre hu => ?_
      rw [List.append_assoc, List.singleton_append]
      exact hall (e :: es₁) u ((List.prefix_cons_inj e).mpr hpre)
        (by rw [exec_cons_ok es₁ hs', hu])
    · rintro ⟨hc, hrun⟩ es₁ u hpre hu
      cases es₁ with
      | nil =>
        rw [exec_nil, Except.ok.injEq] at hu
        rw [List.append_nil]
        exact hu ▸ hgood past s hs
      | cons e₁ es₁ =>
        obtain ⟨rfl, hpre'⟩ := List.cons_prefix_cons.mp hpre
        obtain ⟨v, hv, hu'⟩ := exec_cons_eq_ok_iff.mp hu
        rw [hs', Except.ok.injEq] at hv
        subst hv
        have hlater := (ih (past ++ [e₁]) (hstep past s e₁ s' hA hs hc hs') hrest h').mpr
          (hrun s' hs') es₁ u hpre' hu'
        rw [List.append_assoc, List.singleton_append] at hlater
        exact hlater

/-- **A condition that is exact.**  When a step from the invariant leads to a good state
only under the condition, and under the condition to the invariant again, all states of a
run are good exactly when the condition holds along it. -/
theorem forall_prefix_iff_along {P : σ → Prop} (hgood : ∀ s, Inv s → P s)
    (hstep : ∀ s e s', Inv s → C s e → step s e = .ok s' → Inv s')
    (hexact : ∀ s e s', Inv s → step s e = .ok s' → P s' → C s e)
    {s t : σ} {es : List ε} (hs : Inv s) (h : exec step s es = .ok t) :
    (∀ es₁ u, es₁ <+: es → exec step s es₁ = .ok u → P u) ↔ Along step C s es :=
  forall_prefix_iff_along_history (A := fun _ => True) (I := fun _ => Inv) (P := fun _ => P)
    (fun _ => hgood) (fun _ s e s' _ => hstep s e s') (fun _ s e s' _ => hexact s e s') [] hs
    (fun _ _ => trivial) h

/-! ### Failing in one way only -/

/-- The computation gives a value with `P`, unless it fails with `e`. -/
def OkUnless {α : Type*} (e : φ) (P : α → Prop) (x : Except φ α) : Prop :=
  x = .error e ∨ ∃ a, x = .ok a ∧ P a

theorem okUnless_ok {α : Type*} {e : φ} {P : α → Prop} {a : α} (h : P a) :
    OkUnless e P (.ok a) := Or.inr ⟨a, rfl, h⟩

theorem OkUnless.bind {α β : Type u} {e : φ} {P : α → Prop} {Q : β → Prop} {x : Except φ α}
    {f : α → Except φ β} (h : OkUnless e P x) (hf : ∀ a, P a → OkUnless e Q (f a)) :
    OkUnless e Q (x >>= f) := by
  rcases h with rfl | ⟨a, rfl, ha⟩
  · exact Or.inl rfl
  · exact hf a ha

theorem OkUnless.mono {α : Type*} {e : φ} {P Q : α → Prop} {x : Except φ α}
    (h : OkUnless e P x) (hPQ : ∀ a, P a → Q a) : OkUnless e Q x := by
  rcases h with h | ⟨a, h, ha⟩
  · exact Or.inl h
  · exact Or.inr ⟨a, h, hPQ a ha⟩

end FallibleRun
