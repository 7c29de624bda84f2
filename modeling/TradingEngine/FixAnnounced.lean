/-
The length that a message announces, and what a round of the framing loop does.

The scan for the body length looks for the first `=` that only digits separate from
a SOH, wherever it stands; the number is that of all digits behind an `=` up to
there.  Nothing bounds it: the length of the message is computed modulo `2 ^ 64`.

* `scanBodyLen_announced` — the scan of any bytes, in terms of the announced length;
* `frameMsg_cut`, `frameMsg_whole`, `frameMsg_next`, `frameMsg_overrun` — the four
  things a round can do, by the announced length and the bytes at hand.
-/
import Mathlib.Data.List.TakeWhile
import TradingEngine.FixReassembly

namespace TradingEngine

open FixCursor

/-! ### The announced length -/

/-- The digits directly behind each `=`, strung together. -/
def eqDigits : List UInt8 → List UInt8
  | [] => []
  | c :: rest => if c = equals then rest.takeWhile isDigit ++ eqDigits rest else eqDigits rest

/-- The bytes up to the first SOH that only digits separate from an `=`. -/
def headerLen : List UInt8 → Option ℕ
  | [] => none
  | c :: rest =>
    if c = equals ∧ (rest.dropWhile isDigit).head? = some soh then
      some ((rest.takeWhile isDigit).length + 2)
    else (headerLen rest).map (· + 1)

/-- The length of the message at the beginning of `l`, as its header announces it. -/
def announcedSize (l : List UInt8) : Option ℕ :=
  (headerLen l).map fun h => (h + digitsValue (eqDigits (l.take h)) + 7) % 2 ^ 64

/-- A byte at which the scan keeps its state. -/
def isPlain (c : UInt8) : Bool := c ≠ soh && c ≠ nine && c ≠ equals

/-- The announced length as the scan finds it from a state: when the last message was
cut behind its header, a plain byte ends the scan at once. -/
def announcedFrom (st : BodyLenState) (l : List UInt8) : Option ℕ :=
  if st = .done ∧ l.head?.any isPlain = true then none else announcedSize l

theorem announcedFrom_of_ne_done {st : BodyLenState} (hst : st ≠ .done) (l : List UInt8) :
    announcedFrom st l = announcedSize l :=
  if_neg fun h => hst h.1

/-! ### Digits -/

theorem isDigit_soh : isDigit soh = false := rfl

theorem eqDigits_of_ne {c : UInt8} (hc : c ≠ equals) (l : List UInt8) :
    eqDigits (c :: l) = eqDigits l := if_neg hc

theorem eqDigits_free {l : List UInt8} (hl : ∀ c ∈ l, c ≠ equals) : eqDigits l = [] := by
  induction l with
  | nil => rfl
  | cons c l ih =>
    rw [eqDigits_of_ne (hl c (by simp))]
    exact ih fun c hc => hl c (by simp [hc])

theorem eqDigits_digits (l : List UInt8) : ∀ c ∈ eqDigits l, isDigit c = true := by
  induction l with
  | nil => simp [eqDigits]
  | cons c l ih =>
    intro d hd
    rw [eqDigits] at hd
    split at hd
    · rcases List.mem_append.mp hd with hd | hd
      · exact List.mem_takeWhile_imp hd
      · exact ih d hd
    · exact ih d hd

theorem headerLen_free {l : List UInt8} (hl : ∀ c ∈ l, c ≠ equals) : headerLen l = none := by
  induction l with
  | nil => rfl
  | cons c l ih =>
    rw [headerLen, if_neg fun h => hl c (by simp) h.1, ih fun c hc => hl c (by simp [hc])]
    rfl

theorem headerLen_pos {l : List UInt8} {h : ℕ} (hh : headerLen l = some h) : 0 < h := by
  cases l with
  | nil => exact absurd hh (by simp [headerLen])
  | cons c l =>
    rw [headerLen] at hh
    split at hh
    · rw [Option.some.injEq] at hh
      omega
    · obtain ⟨h', -, rfl⟩ := Option.map_eq_some_iff.mp hh
      omega

/-- A header does not end among the digits that it begins with. -/
theorem length_takeWhile_lt {l : List UInt8} {h : ℕ} (hh : headerLen l = some h) :
    (l.takeWhile isDigit).length < h := by
  induction l generalizing h with
  | nil => exact absurd hh (by simp [headerLen])
  | cons c l ih =>
    by_cases hc : isDigit c = true
    · rw [headerLen, if_neg fun hand => digit_ne_equals hc hand.1] at hh
      obtain ⟨h', hh', rfl⟩ := Option.map_eq_some_iff.mp hh
      rw [List.takeWhile_cons_of_pos hc, List.length_cons]
      exact Nat.succ_lt_succ (ih hh')
    · rw [List.takeWhile_cons_of_neg hc]
      exact headerLen_pos hh

theorem takeWhile_take {l : List UInt8} {n : ℕ} (h : (l.takeWhile isDigit).length < n) :
    (l.take n).takeWhile isDigit = l.takeWhile isDigit := by
  induction l generalizing n with
  | nil => rw [List.take_nil]
  | cons c l ih =>
    cases n with
    | zero => exact absurd h (Nat.not_lt_zero _)
    | succ n =>
      rw [List.take_succ_cons]
      by_cases hc : isDigit c = true
      · rw [List.takeWhile_cons_of_pos hc, List.length_cons] at h
        rw [List.takeWhile_cons_of_pos hc, List.takeWhile_cons_of_pos hc,
          ih (Nat.lt_of_succ_lt_succ h)]
      · rw [List.takeWhile_cons_of_neg hc, List.takeWhile_cons_of_neg hc]

/-- In `size_t`, the digits add up modulo `2 ^ 64`. -/
theorem foldl_appendDigit_mod {ds : List UInt8} (hds : ∀ c ∈ ds, isDigit c = true) (n : ℕ) :
    ds.foldl appendDigit (n % 2 ^ 64) =
      ds.foldl (fun n c => n * 10 + (c.toNat - 0x30)) n % 2 ^ 64 := by
  induction ds generalizing n with
  | nil => rfl
  | cons c ds ih =>
    have hc : appendDigit (n % 2 ^ 64) c = (n * 10 + (c.toNat - 0x30)) % 2 ^ 64 := by
      rw [appendDigit_digit (hds c (by simp)), Nat.add_mod, Nat.mod_mul_mod, ← Nat.add_mod]
    rw [List.foldl_cons, List.foldl_cons, hc]
    exact ih (fun c hc => hds c (by simp [hc])) _

theorem foldl_appendDigit_eqDigits (l : List UInt8) :
    (eqDigits l).foldl appendDigit 0 = digitsValue (eqDigits l) % 2 ^ 64 := by
  have h := foldl_appendDigit_mod (eqDigits_digits l) 0
  rwa [Nat.zero_mod] at h

/-! ### The scan -/

/-- The digits behind an `=`, and what comes after them. -/
theorem readDigits_takeWhile (n saved pos : ℕ) (l : List UInt8) :
    ∃ saved', readDigits n saved pos l =
      ((l.takeWhile isDigit).foldl appendDigit n, saved', pos + (l.takeWhile isDigit).length,
        l.dropWhile isDigit) := by
  have hmore : ∀ c ∈ (l.dropWhile isDigit).head?, isDigit c = false := by
    intro c hc
    have h := List.head?_dropWhile_not isDigit l
    rw [Option.mem_def.mp hc] at h
    simpa using h
  obtain ⟨saved', h, -⟩ := readDigits_append (fun c hc => List.mem_takeWhile_imp hc) hmore
    n saved pos
  rw [List.takeWhile_append_dropWhile] at h
  exact ⟨saved', h⟩

/-- The header that ends behind its first `=`. -/
theorem eqDigits_take_equals {l : List UInt8} (h : (l.dropWhile isDigit).head? = some soh) :
    eqDigits ((equals :: l).take ((l.takeWhile isDigit).length + 2)) = l.takeWhile isDigit := by
  obtain ⟨more, hmore⟩ := List.head?_eq_some_iff.mp h
  have hds : ∀ c ∈ l.takeWhile isDigit, isDigit c = true := fun c hc => List.mem_takeWhile_imp hc
  have hl : l = l.takeWhile isDigit ++ soh :: more := by
    rw [← hmore, List.takeWhile_append_dropWhile]
  have htake : l.take ((l.takeWhile isDigit).length + 1) = l.takeWhile isDigit ++ [soh] := by
    generalize l.takeWhile isDigit = ds at hl ⊢
    rw [hl, List.take_length_add_append]
    rfl
  rw [List.take_succ_cons, htake, eqDigits, if_pos rfl, List.takeWhile_append_of_pos hds,
    eqDigits_free]
  · simp [isDigit_soh]
  · intro c hc
    rcases List.mem_append.mp hc with hc | hc
    · exact digit_ne_equals (hds c hc)
    · rw [List.mem_singleton.mp hc]
      decide

/-- **The scan of any bytes.**  Without a header it runs to the end; otherwise it ends
behind the header with the number of its digits. -/
theorem scanBodyLen_header_iff (l : List UInt8) (pos : ℕ) {s : BodyLenScan} (hs : s.state ≠ .done) :
    (headerLen l = none → ∃ st saved, st ≠ BodyLenState.done ∧ scanBodyLen pos l s =
      ⟨st, (eqDigits l).foldl appendDigit s.bodyLen, saved, s.bodyLenEnd⟩) ∧
    ∀ h, headerLen l = some h → ∃ saved, scanBodyLen pos l s =
      ⟨.done, (eqDigits (l.take h)).foldl appendDigit s.bodyLen, saved, pos + h⟩ := by
  induction l generalizing pos s with
  | nil => exact ⟨fun _ => ⟨s.state, s.saved, hs, rfl⟩, fun h hh => absurd hh (by simp [headerLen])⟩
  | cons c l ih =>
    -- an `=` starts a number; it is the header's if SOH follows the digits
    by_cases heq : c = equals
    · subst heq
      obtain ⟨saved, hread⟩ := readDigits_takeWhile s.bodyLen s.saved (pos + 1) l
      rw [scanBodyLen_equals hread, headerLen]
      by_cases hsoh : (l.dropWhile isDigit).head? = some soh
      · rw [if_pos hsoh, if_pos ⟨rfl, hsoh⟩]
        refine ⟨fun h => absurd h (by simp), fun h hh => ⟨saved, ?_⟩⟩
        rw [Option.some.injEq] at hh
        subst hh
        rw [eqDigits_take_equals hsoh]
        congr 1
        omega
      · rw [if_neg hsoh, if_neg fun h => hsoh h.2]
        obtain ⟨hnone, hsome⟩ := ih (pos + 1) (s := ⟨.readValue,
          (l.takeWhile isDigit).foldl appendDigit s.bodyLen, saved, s.bodyLenEnd⟩) (by simp)
        constructor
        · intro h
          obtain ⟨st, saved', hst, hscan⟩ := hnone (by simpa using h)
          refine ⟨st, saved', hst, ?_⟩
          rw [hscan, eqDigits, if_pos rfl, List.foldl_append]
        · intro h hh
          obtain ⟨h', hh', rfl⟩ := Option.map_eq_some_iff.mp hh
          obtain ⟨saved', hscan⟩ := hsome h' hh'
          refine ⟨saved', ?_⟩
          rw [hscan, List.take_succ_cons, eqDigits, if_pos rfl,
            takeWhile_take (length_takeWhile_lt hh'), List.foldl_append]
          congr 1
          omega
    · obtain ⟨st, hst, hscan⟩ := scanBodyLen_append (l := [c]) (by simpa using heq) hs pos l
      rw [List.singleton_append] at hscan
      obtain ⟨hnone, hsome⟩ := ih (pos + 1) (s := { s with state := st }) hst
      rw [hscan, headerLen, if_neg fun h => heq h.1]
      constructor
      · intro h
        rw [eqDigits_of_ne heq]
        exact hnone (by simpa using h)
      · intro h hh
        obtain ⟨h', hh', rfl⟩ := Option.map_eq_some_iff.mp hh
        obtain ⟨saved', hscan'⟩ := hsome h' hh'
        refine ⟨saved', ?_⟩
        rw [List.take_succ_cons, eqDigits_of_ne heq]
        refine hscan'.trans ?_
        congr 1
        omega

/-- Any byte but a plain one brings the scan out of the state `done`. -/
theorem scanBodyLen_of_not_plain {c : UInt8} (hc : isPlain c = false) (l : List UInt8) (pos : ℕ)
    (s : BodyLenScan) (st : BodyLenState) :
    scanBodyLen pos (c :: l) s = scanBodyLen pos (c :: l) { s with state := st } := by
  rw [scanBodyLen, scanBodyLen]
  by_cases hsoh : c = soh
  · rw [if_pos hsoh, if_pos hsoh]
  · by_cases hnine : c = nine
    · rw [if_neg hsoh, if_neg hsoh, if_pos hnine, if_pos hnine]
    · have heq : c = equals := by
        by_contra hne
        simp [isPlain, hsoh, hnine, hne] at hc
      rw [if_neg hsoh, if_neg hsoh, if_neg hnine, if_neg hnine, if_pos heq, if_pos heq]

/-- What the framing makes of a scan: the length of the message, if there is one. -/
def ScanFinds (s : BodyLenScan) (pos : ℕ) : Option ℕ → Prop
  | none => s.bodyLenEnd = 0
  | some n => s.bodyLenEnd ≠ 0 ∧ sizeT (s.bodyLenEnd + s.bodyLen + 7 - pos) = n

theorem scanFinds_announced {st : BodyLenState} (hst : st ≠ .done) (l : List UInt8)
    (pos saved : ℕ) : ScanFinds (scanBodyLen pos l ⟨st, 0, saved, 0⟩) pos (announcedSize l) := by
  obtain ⟨hnone, hsome⟩ := scanBodyLen_header_iff l pos (s := ⟨st, 0, saved, 0⟩) hst
  cases hh : headerLen l with
  | none =>
    obtain ⟨st', saved', -, hscan⟩ := hnone hh
    rw [hscan, announcedSize, hh]
    rfl
  | some h =>
    obtain ⟨saved', hscan⟩ := hsome h hh
    have hpos := headerLen_pos hh
    rw [hscan, announcedSize, hh, foldl_appendDigit_eqDigits]
    refine ⟨by show pos + h ≠ 0; omega, ?_⟩
    rw [sizeT]
    push_cast
    omega

/-- **The scan of the framing** in terms of the announced length. -/
theorem scanFinds_announcedFrom (l : List UInt8) (pos : ℕ) (st : BodyLenState) (saved : ℕ) :
    ScanFinds (scanBodyLen pos l ⟨st, 0, saved, 0⟩) pos (announcedFrom st l) := by
  by_cases hst : st = .done
  · subst hst
    cases l with
    | nil => rfl
    | cons c l =>
      cases hc : isPlain c with
      | false =>
        rw [scanBodyLen_of_not_plain hc l pos _ .none, announcedFrom,
          if_neg (by simp [hc])]
        exact scanFinds_announced (by decide) _ _ _
      | true =>
        have hplain : c ≠ soh ∧ c ≠ nine ∧ c ≠ equals := by
          simpa [isPlain, and_assoc] using hc
        rw [scanBodyLen, if_neg hplain.1, if_neg hplain.2.1, if_neg hplain.2.2, if_pos rfl,
          announcedFrom, if_pos (by simp [hc])]
        rfl
  · rw [announcedFrom_of_ne_done hst]
    exact scanFinds_announced hst _ _ _

/-! ### A round of the framing -/

/-- How many of the bytes at hand a round copies into the partial buffer: all if the
message is cut, none if it ends with the packet. -/
def copiedLen (n : Option ℕ) (here : ℕ) : ℕ :=
  match n with
  | none => here
  | some n => if n = here then 0 else min n here

variable {c : FixCursor}

/-- What the framing looks for at the cursor. -/
def FixCursor.announcedHere (c : FixCursor) : Option ℕ := announcedFrom c.buf.bodylenState c.rest

/-- **A message that is cut** is copied whole. -/
theorem frameMsg_cut (hc : Ready c) (hcut : ∀ n, c.announcedHere = some n → c.rest.length < n)
    (hfits : c.rest.length ≤ partialFixSize) :
    ∃ c', c.frameMsg = .ok (none, c') ∧ c'.pkt.consumed = true := by
  have hlen := length_rest hc.len
  have hsrc : slice c.pkt.data c.offset (c.pkt.len - c.offset) = .ok c.rest := by
    rw [slice_rest hc.len (le_of_eq hlen.symm) hc.offset.le, ← hlen, List.take_length]
  obtain ⟨data, hdata, -⟩ := writeAt_of_le c.buf.data 0 c.rest (by omega)
  have hfinds := scanFinds_announcedFrom c.rest c.offset c.buf.bodylenState c.buf.bodyLen
  rw [frameMsg]
  cases hn : announcedFrom c.buf.bodylenState c.rest with
  | none =>
    rw [hn] at hfinds
    simp only [ScanFinds] at hfinds
    simp only [hfinds, if_true, hsrc, hdata, bind, Except.bind]
    exact ⟨_, rfl, rfl⟩
  | some n =>
    have hlt := hcut n hn
    rw [hn] at hfinds
    obtain ⟨hend, hmsg⟩ := hfinds
    simp only [hmsg]
    rw [if_neg hend, if_pos (by omega)]
    simp only [hsrc, hdata, bind, Except.bind]
    exact ⟨_, rfl, rfl⟩

/-- **A message that ends with the packet** is handed out and not copied. -/
theorem frameMsg_whole (hc : Ready c) (hwhole : c.announcedHere = some c.rest.length) :
    ∃ c', c.frameMsg = .ok (some c.rest, c') ∧ c'.pkt.consumed = true := by
  have hlen := length_rest hc.len
  have hsrc : slice c.pkt.data c.offset c.rest.length = .ok c.rest := by
    rw [slice_rest hc.len le_rfl hc.offset.le, List.take_length]
  have hfinds := scanFinds_announcedFrom c.rest c.offset c.buf.bodylenState c.buf.bodyLen
  rw [announcedHere] at hwhole
  rw [hwhole] at hfinds
  obtain ⟨hend, hmsg⟩ := hfinds
  rw [frameMsg]
  simp only [hmsg]
  rw [if_neg hend, if_neg (by omega), if_neg (by omega)]
  simp only [hsrc, bind, Except.bind]
  exact ⟨_, rfl, rfl⟩

/-- **A message with more behind it** is copied and handed out, and the offset moves on
by the announced length, whatever it is. -/
theorem frameMsg_next (hc : Ready c) {n : ℕ} (hn : c.announcedHere = some n)
    (hlt : n < c.rest.length) (hfits : n ≤ partialFixSize) :
    ∃ c', c.frameMsg = .ok (some (c.rest.take n), c') ∧ c'.buf.active = false ∧
      c'.buf.bodylenState = .none ∧ c'.pkt = { c.pkt with consumed := false } ∧
      c'.offset = c.offset + n := by
  have hlen := length_rest hc.len
  have hsrc := slice_rest hc.len hlt.le hc.offset.le
  obtain ⟨data, hdata, -⟩ := writeAt_of_le c.buf.data 0 (c.rest.take n)
    (by rw [List.length_take]; omega)
  have hfinds := scanFinds_announcedFrom c.rest c.offset c.buf.bodylenState c.buf.bodyLen
  rw [announcedHere] at hn
  rw [hn] at hfinds
  obtain ⟨hend, hmsg⟩ := hfinds
  rw [frameMsg]
  simp only [hmsg]
  rw [if_neg hend, if_neg (by omega), if_pos (by omega)]
  simp only [hsrc, hdata, bind, Except.bind]
  exact ⟨_, rfl, rfl, rfl, rfl, rfl⟩

/-- **A copy behind the partial buffer.** -/
theorem frameMsg_overrun (hc : Ready c)
    (hover : partialFixSize < copiedLen c.announcedHere c.rest.length) :
    c.frameMsg = .error .outOfBounds := by
  have hlen := length_rest hc.len
  have hfinds := scanFinds_announcedFrom c.rest c.offset c.buf.bodylenState c.buf.bodyLen
  have hsrc : slice c.pkt.data c.offset (c.pkt.len - c.offset) = .ok c.rest := by
    rw [slice_rest hc.len (le_of_eq hlen.symm) hc.offset.le, ← hlen, List.take_length]
  rw [announcedHere] at hover
  rw [frameMsg]
  cases hn : announcedFrom c.buf.bodylenState c.rest with
  | none =>
    -- no length is announced: all the rest is copied
    rw [hn] at hfinds hover
    simp only [ScanFinds] at hfinds
    simp only [copiedLen] at hover
    have hwrite : writeAt c.buf.data 0 c.rest = .error .outOfBounds :=
      writeAt_of_lt _ _ _ (by omega)
    simp only [hfinds, if_true, hsrc, hwrite, bind, Except.bind]
  | some n =>
    rw [hn] at hfinds hover
    obtain ⟨hend, hmsg⟩ := hfinds
    simp only [copiedLen] at hover
    have hne : n ≠ c.rest.length := by
      intro h
      rw [if_pos h] at hover
      exact absurd hover (Nat.not_lt_zero _)
    rw [if_neg hne] at hover
    simp only [hmsg]
    rw [if_neg hend]
    -- what is copied is the rest, or the message in it
    by_cases hlt : c.rest.length < n
    · have hwrite : writeAt c.buf.data 0 c.rest = .error .outOfBounds :=
        writeAt_of_lt _ _ _ (by omega)
      rw [if_pos (by omega)]
      simp only [hsrc, hwrite, bind, Except.bind]
    · have hsrc' := slice_rest hc.len (show n ≤ c.rest.length by omega) hc.offset.le
      have hwrite : writeAt c.buf.data 0 (c.rest.take n) = .error .outOfBounds :=
        writeAt_of_lt _ _ _ (by rw [List.length_take]; omega)
      rw [if_neg (by omega), if_pos (by omega)]
      simp only [hsrc', hwrite, bind, Except.bind]

end TradingEngine
