/-
Frames in a byte stream.

A sender writes frames one after the other, a receiver gets the bytes in
portions that know nothing of the frames.  A place in the stream is a number
`k` of bytes already received of the first of the frames still to come.
`advance` moves a place on by a portion of `n` bytes and says which frames the
portion completes.

* `advance_append` — the frames completed and the frames left are those there
  were, in order;
* `drop_advance` — the bytes left are those there were without the portion;
* `placeInsideHead_advance_iff` — a cut strictly inside the head of a frame is a
  place strictly inside the head of the first frame left.

So a receiver that hands out the completed frames of each portion hands out all
frames of a stream that is received to its end (`frames_eq_nil_of_drop`).
-/
import Mathlib.Tactic

namespace StreamFraming

variable {F α : Type*} {bytes : F → List α}

/-- The frames that `n` more bytes complete, and the place they lead to, from
the place `k` bytes into the first frame. -/
def advance (bytes : F → List α) : ℕ → List F → ℕ → List F × ℕ × List F
  | _, [], _ => ([], 0, [])
  | k, f :: fs, n =>
    if k + n < (bytes f).length then ([], k + n, f :: fs)
    else
      let r := advance bytes 0 fs (k + n - (bytes f).length)
      (f :: r.1, r.2)

/-- The bytes of the frames, one after the other. -/
def stream (bytes : F → List α) (frames : List F) : List α := (frames.map bytes).flatten

@[simp] theorem stream_nil : stream bytes [] = [] := rfl

@[simp] theorem stream_cons (f : F) (fs : List F) :
    stream bytes (f :: fs) = bytes f ++ stream bytes fs := rfl

theorem stream_append (fs gs : List F) :
    stream bytes (fs ++ gs) = stream bytes fs ++ stream bytes gs := by
  simp [stream]

/-- The place is strictly before the end of the first frame. -/
def Inside (bytes : F → List α) (k : ℕ) : List F → Prop
  | [] => k = 0
  | f :: _ => k < (bytes f).length

theorem advance_of_lt {k n : ℕ} {f : F} {fs : List F} (h : k + n < (bytes f).length) :
    advance bytes k (f :: fs) n = ([], k + n, f :: fs) := by
  rw [advance, if_pos h]

theorem advance_of_le {k n : ℕ} {f : F} {fs : List F} (h : (bytes f).length ≤ k + n) :
    advance bytes k (f :: fs) n =
      (f :: (advance bytes 0 fs (k + n - (bytes f).length)).1,
        (advance bytes 0 fs (k + n - (bytes f).length)).2) := by
  rw [advance, if_neg (not_lt.mpr h)]

theorem advance_append (k : ℕ) (frames : List F) (n : ℕ) :
    (advance bytes k frames n).1 ++ (advance bytes k frames n).2.2 = frames := by
  induction frames generalizing k n with
  | nil => rfl
  | cons f fs ih =>
    rw [advance]
    split
    · rfl
    · simp [ih]

/-- A place reached by `advance` is strictly before the end of its frame. -/
theorem inside_advance (k : ℕ) (frames : List F) (n : ℕ) :
    Inside bytes (advance bytes k frames n).2.1 (advance bytes k frames n).2.2 := by
  induction frames generalizing k n with
  | nil => rfl
  | cons f fs ih =>
    rw [advance]
    split
    · rename_i h
      exact h
    · exact ih 0 _

theorem inside_zero (hpos : ∀ f, 0 < (bytes f).length) (frames : List F) :
    Inside bytes 0 frames := by
  cases frames with
  | nil => rfl
  | cons f fs => exact hpos f

/-- An empty portion leads nowhere. -/
theorem advance_zero {k : ℕ} {frames : List F} (hin : Inside bytes k frames) :
    advance bytes k frames 0 = ([], k, frames) := by
  cases frames with
  | nil =>
    have hk : k = 0 := hin
    rw [hk]
    rfl
  | cons f fs =>
    have hk : k < (bytes f).length := hin
    rw [advance, if_pos (by omega), Nat.add_zero]

/-- A portion leaves the bytes after it. -/
theorem drop_advance (k : ℕ) (frames : List F) (n : ℕ) :
    (stream bytes (advance bytes k frames n).2.2).drop (advance bytes k frames n).2.1 =
      ((stream bytes frames).drop k).drop n := by
  induction frames generalizing k n with
  | nil => simp [advance]
  | cons f fs ih =>
    rw [advance, List.drop_drop]
    split
    · rfl
    · rename_i hge
      -- the portion covers the rest of `f`
      have hf : (bytes f).drop (k + n) = [] := List.drop_eq_nil_of_le (by omega)
      rw [ih, List.drop_zero, stream_cons, List.drop_append, hf, List.nil_append]

/-- A portion is the frames it completes and the beginning of the one behind them. -/
theorem take_stream (frames : List F) (n : ℕ) :
    (stream bytes frames).take n = stream bytes (advance bytes 0 frames n).1 ++
      (stream bytes (advance bytes 0 frames n).2.2).take (advance bytes 0 frames n).2.1 := by
  induction frames generalizing n with
  | nil => exact List.take_nil
  | cons f fs ih =>
    by_cases h : 0 + n < (bytes f).length
    · rw [advance_of_lt h, stream_nil, List.nil_append, Nat.zero_add]
    · rw [Nat.zero_add] at h
      rw [advance_of_le (by omega), stream_cons, stream_cons, List.append_assoc, Nat.zero_add, ← ih,
        List.take_append, List.take_of_length_le (by omega)]

/-- Two portions lead where both together lead. -/
theorem advance_advance (k : ℕ) (frames : List F) (n m : ℕ) :
    (advance bytes (advance bytes k frames n).2.1 (advance bytes k frames n).2.2 m).2 =
      (advance bytes k frames (n + m)).2 := by
  induction frames generalizing k n with
  | nil => rfl
  | cons f fs ih =>
    by_cases h : k + n < (bytes f).length
    · rw [advance_of_lt h, advance, advance, Nat.add_assoc]
    · have hsum : k + (n + m) - (bytes f).length = k + n - (bytes f).length + m := by omega
      rw [advance_of_le (not_lt.mp h), advance_of_le (by omega), hsum]
      exact ih 0 (k + n - (bytes f).length)

/-- The frames that two portions complete. -/
theorem advance_fst_add (k : ℕ) (frames : List F) (n m : ℕ) :
    (advance bytes k frames (n + m)).1 = (advance bytes k frames n).1 ++
      (advance bytes (advance bytes k frames n).2.1 (advance bytes k frames n).2.2 m).1 := by
  have hone : (advance bytes k frames n).1 ++ (advance bytes k frames n).2.2 = frames :=
    advance_append k frames n
  have hboth : (advance bytes k frames (n + m)).1 ++ (advance bytes k frames (n + m)).2.2 =
      frames := advance_append k frames (n + m)
  have htwo : (advance bytes (advance bytes k frames n).2.1 (advance bytes k frames n).2.2 m).1 ++
      (advance bytes (advance bytes k frames n).2.1 (advance bytes k frames n).2.2 m).2.2 =
      (advance bytes k frames n).2.2 := advance_append _ _ m
  rw [← advance_advance] at hboth
  rw [← htwo, ← List.append_assoc] at hone
  exact List.append_cancel_right (hboth.trans hone.symm)

/-- Frames that are values of other things. -/
theorem advance_map {G : Type*} (g : G → F) (k : ℕ) (l : List G)
    (n : ℕ) : advance bytes k (l.map g) n =
      ((advance (fun x => bytes (g x)) k l n).1.map g,
        (advance (fun x => bytes (g x)) k l n).2.1,
        (advance (fun x => bytes (g x)) k l n).2.2.map g) := by
  induction l generalizing k n with
  | nil => rfl
  | cons x l ih =>
    rw [List.map_cons]
    by_cases h : k + n < (bytes (g x)).length
    · have hshort : advance (fun x => bytes (g x)) k (x :: l) n = ([], k + n, x :: l) :=
        advance_of_lt h
      rw [advance_of_lt h, hshort]
      rfl
    · have hlong : advance (fun x => bytes (g x)) k (x :: l) n = _ :=
        advance_of_le (not_lt.mp h)
      rw [advance_of_le (not_lt.mp h), hlong, ih]
      rfl

/-- A portion that completes a frame: the rest of the frame, then a portion of those behind. -/
theorem advance_completes {k : ℕ} {f : F} {fs : List F} {l : List α}
    (hpre : l <+: (stream bytes (f :: fs)).drop k) (hk : k ≤ (bytes f).length)
    (hlen : (bytes f).length ≤ k + l.length) :
    ∃ l', l = (bytes f).drop k ++ l' ∧ l' <+: stream bytes fs ∧
      l'.length = k + l.length - (bytes f).length ∧
      advance bytes k (f :: fs) l.length =
        (f :: (advance bytes 0 fs l'.length).1, (advance bytes 0 fs l'.length).2) := by
  rw [stream_cons, List.drop_append_of_le_length hk] at hpre
  obtain ⟨more, hmore⟩ := hpre
  obtain ⟨l', rfl⟩ : (bytes f).drop k <+: l :=
    List.prefix_of_prefix_length_le (List.prefix_append _ _) ⟨more, hmore⟩
      (by rw [List.length_drop]; omega)
  rw [List.append_assoc] at hmore
  have hrest : l'.length = k + ((bytes f).drop k ++ l').length - (bytes f).length := by
    rw [List.length_append, List.length_drop]
    omega
  refine ⟨l', rfl, ⟨more, List.append_cancel_left hmore⟩, hrest, ?_⟩
  rw [advance_of_le hlen, ← hrest]

/-- Where no byte is left, no frame is. -/
theorem frames_eq_nil_of_drop {k : ℕ} {frames : List F} (hin : Inside bytes k frames)
    (h : (stream bytes frames).drop k = []) : frames = [] := by
  cases frames with
  | nil => rfl
  | cons f fs =>
    have hk : k < (bytes f).length := hin
    have hlen := congrArg List.length h
    rw [stream_cons, List.length_drop, List.length_append, List.length_nil] at hlen
    omega

/-! ### Cuts -/

/-- The stream is cut at position `p`: it is where some portions end. -/
def CutAt (segments : List (List α)) (p : ℕ) : Prop :=
  ∃ before after, segments = before ++ after ∧ before.flatten.length = p

theorem cutAt_zero (segments : List (List α)) : CutAt segments 0 := ⟨[], segments, rfl, rfl⟩

theorem CutAt.cons {segments : List (List α)} {p : ℕ} (h : CutAt segments p) (s : List α) :
    CutAt (s :: segments) (s.length + p) := by
  obtain ⟨before, after, rfl, rfl⟩ := h
  exact ⟨s :: before, after, rfl, by rw [List.flatten_cons, List.length_append]⟩

theorem eq_zero_of_cutAt_nil {p : ℕ} (h : CutAt ([] : List (List α)) p) : p = 0 := by
  obtain ⟨before, after, heq, rfl⟩ := h
  rw [(List.append_eq_nil_iff.mp heq.symm).1]
  rfl

/-- The cuts after the first portion. -/
theorem cutAt_cons_cases {s : List α} {segments : List (List α)} {p : ℕ}
    (h : CutAt (s :: segments) p) : p = 0 ∨ ∃ q, CutAt segments q ∧ p = s.length + q := by
  obtain ⟨before, after, heq, rfl⟩ := h
  cases before with
  | nil => exact .inl rfl
  | cons s' before =>
    rw [List.cons_append, List.cons.injEq] at heq
    refine .inr ⟨before.flatten.length, ⟨before, after, heq.2, rfl⟩, ?_⟩
    rw [List.flatten_cons, List.length_append, heq.1]

/-- Position `p` of the stream lies strictly inside the head of a frame. -/
def InsideHead (bytes head : F → List α) (frames : List F) (p : ℕ) : Prop :=
  ∃ before f after, frames = before ++ f :: after ∧
    (stream bytes before).length < p ∧ p < (stream bytes before).length + (head f).length

variable {head : F → List α}

/-- A place is strictly inside the head of its frame. -/
def PlaceInsideHead (head : F → List α) (k : ℕ) : List F → Prop
  | [] => False
  | f :: _ => 0 < k ∧ k < (head f).length

theorem insideHead_cons_of_lt {f : F} {fs : List F} {p : ℕ} (h : p < (bytes f).length) :
    InsideHead bytes head (f :: fs) p ↔ 0 < p ∧ p < (head f).length := by
  constructor
  · rintro ⟨before, g, after, heq, hlo, hhi⟩
    cases before with
    | nil =>
      rw [List.nil_append, List.cons.injEq] at heq
      rw [heq.1]
      rw [stream_nil, List.length_nil] at hlo hhi
      omega
    | cons f' before =>
      rw [List.cons_append, List.cons.injEq] at heq
      rw [stream_cons, List.length_append, ← heq.1] at hlo
      omega
  · rintro ⟨hlo, hhi⟩
    exact ⟨[], f, fs, rfl, hlo, by rw [stream_nil, List.length_nil]; omega⟩

theorem insideHead_cons_of_le (hhead : ∀ f, (head f).length ≤ (bytes f).length) {f : F}
    {fs : List F} {p : ℕ} (h : (bytes f).length ≤ p) :
    InsideHead bytes head (f :: fs) p ↔ InsideHead bytes head fs (p - (bytes f).length) := by
  constructor
  · rintro ⟨before, g, after, heq, hlo, hhi⟩
    cases before with
    | nil =>
      rw [List.nil_append, List.cons.injEq] at heq
      have hg := hhead f
      rw [stream_nil, List.length_nil, ← heq.1] at hhi
      omega
    | cons f' before =>
      rw [List.cons_append, List.cons.injEq] at heq
      rw [stream_cons, List.length_append, ← heq.1] at hlo hhi
      exact ⟨before, g, after, heq.2, by omega, by omega⟩
  · rintro ⟨before, g, after, rfl, hlo, hhi⟩
    refine ⟨f :: before, g, after, rfl, ?_, ?_⟩
    · rw [stream_cons, List.length_append]
      omega
    · rw [stream_cons, List.length_append]
      omega

/-- **A position inside a head is a place inside a head.** -/
theorem placeInsideHead_advance_iff (hhead : ∀ f, (head f).length ≤ (bytes f).length) (k : ℕ)
    (frames : List F) (n : ℕ) :
    PlaceInsideHead head (advance bytes k frames n).2.1 (advance bytes k frames n).2.2 ↔
      InsideHead bytes head frames (k + n) := by
  induction frames generalizing k n with
  | nil =>
    refine iff_of_false id ?_
    rintro ⟨before, f, after, heq, -⟩
    exact absurd heq (by simp)
  | cons f fs ih =>
    rw [advance]
    split
    · rename_i h
      exact (insideHead_cons_of_lt h).symm
    · rename_i h
      rw [ih, Nat.zero_add, insideHead_cons_of_le hhead (by omega)]

end StreamFraming
