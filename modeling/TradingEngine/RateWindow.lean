/-
Limiters that are refilled: how many calls they let pass.

A limiter is asked call by call, and each call is a `Tick`: when it came, whether the
limiter was refilled for it and whether it let it pass.  A `Stretch` is a run of
calls without a refill behind its first.

* `Governed.boundedPerRefill` — a limiter that lets a call pass only while something
  is left of its capacity passes at most its capacity in every stretch;
* `boundedPerWindow` — if in addition its refills are more than an interval apart, it
  passes at most twice its capacity in every window of that length: such a window has
  at most one refill, hence at most two stretches.
-/
import Mathlib.Algebra.Order.Monoid.Defs
import Mathlib.Data.List.Infix
import Mathlib.Data.List.Basic
import Mathlib.Tactic.Linarith

namespace RateWindow

variable {τ : Type*}

/-- One call of a limiter. -/
structure Tick (τ : Type*) where
  time : τ
  refill : Bool
  pass : Bool

/-- How many calls pass. -/
def passes (ticks : List (Tick τ)) : ℕ := ticks.countP (·.pass)

/-- No refill but for the first call. -/
def Stretch (ticks : List (Tick τ)) : Prop := ∀ e ∈ ticks.tail, e.refill = false

/-- At most `cap` calls pass from one refill to the next. -/
def BoundedPerRefill (cap : ℕ) (ticks : List (Tick τ)) : Prop :=
  ∀ part, part <:+: ticks → Stretch part → passes part ≤ cap

@[simp] theorem passes_nil : passes ([] : List (Tick τ)) = 0 := rfl

theorem passes_cons (e : Tick τ) (es : List (Tick τ)) :
    passes (e :: es) = passes es + if e.pass = true then 1 else 0 := List.countP_cons

theorem passes_append (es es' : List (Tick τ)) : passes (es ++ es') = passes es + passes es' :=
  List.countP_append

/-- A stretch goes on until the next refill. -/
theorem Stretch.concat {es : List (Tick τ)} {e : Tick τ} (h : Stretch es) (he : e.refill = false) :
    Stretch (es ++ [e]) := by
  cases es with
  | nil => exact fun x hx => absurd hx (by simp)
  | cons a es =>
    intro x hx
    rw [List.cons_append, List.tail_cons, List.mem_append, List.mem_singleton] at hx
    obtain hx | rfl := hx
    · exact h x hx
    · exact he

/-! ### What is left of the capacity -/

/-- The calls of a limiter that has `left` to give: a refill brings this to `cap`, and each
call that passes takes one. -/
def Governed (cap : ℕ) : ℕ → List (Tick τ) → Prop
  | _, [] => True
  | left, e :: es =>
    let avail := if e.refill then cap else left
    (e.pass = true → 0 < avail) ∧ Governed cap (if e.pass then avail - 1 else avail) es

variable {cap left : ℕ} {ticks es es' : List (Tick τ)}

theorem avail_le {e : Tick τ} (hleft : left ≤ cap) :
    (if e.refill then cap else left) ≤ cap := by
  split
  · exact le_refl cap
  · exact hleft

theorem Governed.of_append_right (h : Governed cap left (es ++ es')) (hleft : left ≤ cap) :
    ∃ left', left' ≤ cap ∧ Governed cap left' es' := by
  induction es generalizing left with
  | nil => exact ⟨left, hleft, h⟩
  | cons e es ih =>
    refine ih h.2 ?_
    have havail := avail_le (e := e) hleft
    split
    · omega
    · exact havail

theorem Governed.of_append_left (h : Governed cap left (es ++ es')) : Governed cap left es := by
  induction es generalizing left with
  | nil => trivial
  | cons e es ih => exact ⟨h.1, ih h.2⟩

/-- Without a refill no more pass than are left. -/
theorem Governed.passes_le (h : Governed cap left ticks) (hnone : ∀ e ∈ ticks, e.refill = false) :
    passes ticks ≤ left := by
  induction ticks generalizing left with
  | nil => exact Nat.zero_le left
  | cons e es ih =>
    obtain ⟨hpass, hrest⟩ := h
    rw [hnone e List.mem_cons_self] at hpass hrest
    have hlater := ih hrest fun e' he' => hnone e' (List.mem_cons_of_mem e he')
    rw [passes_cons]
    by_cases hp : e.pass = true
    · have hpos : 0 < left := hpass hp
      rw [if_pos hp] at hlater ⊢
      have hone : passes es ≤ left - 1 := hlater
      omega
    · rw [if_neg hp] at hlater ⊢
      exact hlater

/-- **At most the capacity passes per refill.** -/
theorem Governed.boundedPerRefill (h : Governed cap left ticks) (hleft : left ≤ cap) :
    BoundedPerRefill cap ticks := by
  rintro part ⟨before, behind, rfl⟩ hstretch
  rw [List.append_assoc] at h
  obtain ⟨left', hleft', h'⟩ := h.of_append_right hleft
  have hpart := h'.of_append_left
  cases part with
  | nil => exact Nat.zero_le cap
  | cons e es =>
    obtain ⟨hpass, hrest⟩ := hpart
    have hlater := hrest.passes_le hstretch
    have havail := avail_le (e := e) hleft'
    rw [passes_cons]
    by_cases hp : e.pass = true
    · have hpos := hpass hp
      rw [if_pos hp] at hlater ⊢
      omega
    · rw [if_neg hp] at hlater ⊢
      exact hlater.trans havail

/-- Calls with at most one refill are at most two stretches. -/
theorem passes_le_two_mul {part : List (Tick τ)} (hbound : BoundedPerRefill cap part)
    (hone : part.Pairwise fun a b => ¬(a.refill = true ∧ b.refill = true)) :
    passes part ≤ 2 * cap := by
  by_cases hrefill : ∃ e ∈ part, e.refill = true
  · obtain ⟨e, he, hfilled⟩ := hrefill
    obtain ⟨before, behind, rfl⟩ := List.append_of_mem he
    -- the refill cuts the calls into two stretches
    obtain ⟨-, hlast, hcross⟩ := List.pairwise_append.mp hone
    have hbefore : ∀ x ∈ before, x.refill = false := by
      intro x hx
      have hnot := hcross x hx e List.mem_cons_self
      simpa [hfilled] using hnot
    have hbehind : ∀ x ∈ behind, x.refill = false := by
      intro x hx
      have hnot := (List.pairwise_cons.mp hlast).1 x hx
      simpa [hfilled] using hnot
    have hfirst : passes before ≤ cap := hbound before (List.prefix_append _ _).isInfix
      fun x hx => hbefore x (List.mem_of_mem_tail hx)
    have hsecond : passes (e :: behind) ≤ cap :=
      hbound (e :: behind) (List.suffix_append _ _).isInfix hbehind
    rw [passes_append]
    omega
  · have hnone : ∀ x ∈ part, x.refill = false := by
      intro x hx
      by_contra hx'
      exact hrefill ⟨x, hx, by simpa using hx'⟩
    have hall := hbound part (List.infix_refl _) fun x hx => hnone x (List.mem_of_mem_tail hx)
    omega

/-! ### Windows -/

section

variable [AddCommMonoid τ] [LinearOrder τ] [IsOrderedAddMonoid τ] {interval : τ}

/-- The calls from `start` to `stop`. -/
def window (start stop : τ) (ticks : List (Tick τ)) : List (Tick τ) :=
  ticks.filter fun e => start ≤ e.time ∧ e.time ≤ stop

/-- At most `cap` calls pass in a window that is no longer than the interval. -/
def BoundedPerWindow (cap : ℕ) (interval : τ) (ticks : List (Tick τ)) : Prop :=
  ∀ start stop, stop ≤ start + interval → passes (window start stop ticks) ≤ cap

/-- Calls in the order of their times. -/
def Timed (ticks : List (Tick τ)) : Prop := ticks.Pairwise fun a b => a.time ≤ b.time

/-- Two refills are more than an interval apart. -/
def Spaced (interval : τ) (ticks : List (Tick τ)) : Prop :=
  ticks.Pairwise fun a b => a.refill = true → b.refill = true → a.time + interval < b.time

omit [AddCommMonoid τ] [IsOrderedAddMonoid τ] in
/-- Behind the start of a window its calls are the first ones. -/
theorem window_isPrefix {start stop : τ} (htimed : Timed ticks)
    (hstart : ∀ e ∈ ticks, start ≤ e.time) : window start stop ticks <+: ticks := by
  induction ticks with
  | nil => exact List.prefix_refl _
  | cons e es ih =>
    obtain ⟨hfirst, hrest⟩ := List.pairwise_cons.mp htimed
    by_cases hin : e.time ≤ stop
    · have hkeep : window start stop (e :: es) = e :: window start stop es :=
        List.filter_cons_of_pos (by simpa using ⟨hstart e List.mem_cons_self, hin⟩)
      rw [hkeep]
      exact (List.prefix_cons_inj e).mpr
        (ih hrest fun e' he' => hstart e' (List.mem_cons_of_mem e he'))
    · -- the window is over
      have hempty : window start stop (e :: es) = [] := by
        refine List.filter_eq_nil_iff.mpr fun e' he' => ?_
        have hlate : e.time ≤ e'.time := by
          obtain rfl | he' := List.mem_cons.mp he'
          · exact le_refl _
          · exact hfirst e' he'
        have hout : ¬e'.time ≤ stop := fun h => hin (hlate.trans h)
        simp [hout]
      rw [hempty]
      exact List.nil_prefix

omit [AddCommMonoid τ] [IsOrderedAddMonoid τ] in
/-- The calls of a window follow each other. -/
theorem window_isInfix {start stop : τ} (htimed : Timed ticks) :
    window start stop ticks <:+: ticks := by
  induction ticks with
  | nil => exact List.infix_refl _
  | cons e es ih =>
    obtain ⟨hfirst, hrest⟩ := List.pairwise_cons.mp htimed
    -- from the first call behind `start` on, the window is a beginning
    by_cases hearly : start ≤ e.time
    · refine (window_isPrefix htimed fun e' he' => ?_).isInfix
      obtain rfl | he' := List.mem_cons.mp he'
      · exact hearly
      · exact hearly.trans (hfirst e' he')
    · have hskip : window start stop (e :: es) = window start stop es :=
        List.filter_cons_of_neg (by simp [hearly])
      rw [hskip]
      exact (ih hrest).trans (List.suffix_cons e es).isInfix

/-- The calls of a limiter that was last refilled at `last`: it is refilled only when more
than the interval has passed since. -/
def Paced (interval : τ) : Option τ → List (Tick τ) → Prop
  | _, [] => True
  | last, e :: es => (e.refill = true → ∀ r ∈ last, r + interval < e.time) ∧
    Paced interval (if e.refill then some e.time else last) es

theorem Paced.lt_of_refill {r : τ} (h : Paced interval (some r) ticks) (htimed : Timed ticks)
    (hlate : ∀ e ∈ ticks, r ≤ e.time) : ∀ e ∈ ticks, e.refill = true → r + interval < e.time := by
  induction ticks generalizing r with
  | nil => exact fun e he => absurd he (by simp)
  | cons e es ih =>
    obtain ⟨hhead, hrest⟩ := h
    obtain ⟨hfirst, htail⟩ := List.pairwise_cons.mp htimed
    intro b hb hfilled
    obtain rfl | hb := List.mem_cons.mp hb
    · exact hhead hfilled r rfl
    · -- a later refill is measured from the last one before it
      by_cases hr : e.refill = true
      · rw [if_pos hr] at hrest
        have hlater := ih hrest htail hfirst b hb hfilled
        exact (add_le_add_left (hlate e List.mem_cons_self) interval).trans_lt hlater
      · rw [if_neg hr] at hrest
        exact ih hrest htail (fun x hx => hlate x (List.mem_cons_of_mem e hx)) b hb hfilled

/-- Such a limiter has its refills apart. -/
theorem Paced.spaced {last : Option τ} (h : Paced interval last ticks) (htimed : Timed ticks) :
    Spaced interval ticks := by
  induction ticks generalizing last with
  | nil => exact List.Pairwise.nil
  | cons e es ih =>
    obtain ⟨-, hrest⟩ := h
    obtain ⟨hfirst, htail⟩ := List.pairwise_cons.mp htimed
    refine List.pairwise_cons.mpr ⟨fun b hb hr hfilled => ?_, ih hrest htail⟩
    rw [if_pos hr] at hrest
    exact hrest.lt_of_refill htail hfirst b hb hfilled

/-- **At most twice the capacity passes per window.** -/
theorem boundedPerWindow (htimed : Timed ticks) (hspaced : Spaced interval ticks)
    (hbound : BoundedPerRefill cap ticks) : BoundedPerWindow (2 * cap) interval ticks := by
  intro start stop hshort
  have hinfix : window start stop ticks <:+: ticks := window_isInfix htimed
  refine passes_le_two_mul (fun part hpart => hbound part (hpart.trans hinfix)) ?_
  have hwindow : ∀ e ∈ window start stop ticks, start ≤ e.time ∧ e.time ≤ stop := by
    intro e he
    simpa using (List.mem_filter.mp he).2
  -- two refills in the window would be no more than an interval apart
  refine (hspaced.sublist hinfix.sublist).imp_of_mem fun {a b} ha hb hab hboth => ?_
  have hapart := hab hboth.1 hboth.2
  have hnear : b.time ≤ a.time + interval :=
    calc b.time ≤ stop := (hwindow b hb).2
      _ ≤ start + interval := hshort
      _ ≤ a.time + interval := add_le_add_left (hwindow a ha).1 interval
  exact absurd hapart (not_lt.mpr hnear)

end

end RateWindow
