/-
Searching a field of a FIX message (`protocol/builders/FIX/Builder_FIX.cpp`, `findValue`).

The plain search goes from field to field and compares the tags.  `findValue` takes the places
of `=` from the masks of 32 bytes at a time, and keeps the beginning of the tag behind the last
SOH.  When `=` is the last byte of a chunk, the mask of the bits behind it is shifted by 32, the
processor shifts by 0, and the first SOH of the chunk is taken for the one behind `=`.

* `findValueMasks_eq` — the loops over the set bits of the masks;
* `findValue_eq_walk` — so `findValue` goes from field to field;
* `scanRest_eq` — the byte-by-byte loop is the plain search;
* `findValue_eq_iff` — when `findValue` finds what the plain search finds.
-/
import Mathlib.Data.List.TakeWhile
import TradingEngine.BitMasks
import TradingEngine.FixResend

namespace TradingEngine

open BitMasks

/-! ### The masks -/

/-- `_mm256_movemask_epi8(_mm256_cmpeq_epi8(chunk, c))`. -/
def maskOf (c : UInt8) (chunk : List UInt8) : BitVec 32 :=
  (BitVec.ofBoolListLE ((List.range 32).map fun k => decide (chunk[k]? = some c))).cast
    (by rw [List.length_map, List.length_range])

/-- `soh_pos`, from `soh_bits`; the processor shifts by `eq_offset + 1` modulo 32. -/
def maskSoh (data : List UInt8) (len pos : ℕ) (sohBits : BitVec 32) (eqOffset : ℕ) : ℕ :=
  let sohAfter := sohBits &&& BitVec.allOnes 32 <<< ((eqOffset + 1) % 32)
  if sohAfter ≠ 0#32 then pos + sohAfter.ctz.toNat else scanTo soh data len (pos + eqOffset + 1)

/-- The loop `while (eq_bits != 0)`, for as many rounds as there are bits. -/
def scanMask (data : List UInt8) (len : ℕ) (wantTag : List UInt8) (pos : ℕ) (sohBits : BitVec 32) :
    ℕ → BitVec 32 → ℕ → (ℕ × ℕ) ⊕ ℕ
  | 0, _, tagStart => .inr tagStart
  | rounds + 1, eqBits, tagStart =>
    if eqBits ≠ 0#32 then
      let eqOffset := eqBits.ctz.toNat
      let sohPos := maskSoh data len pos sohBits eqOffset
      if isTagAt data wantTag tagStart (pos + eqOffset) then
        .inl (valueRef (pos + eqOffset) sohPos)
      else
        scanMask data len wantTag pos sohBits rounds (eqBits &&& ~~~(BitVec.twoPow 32 eqOffset))
          (sohPos + 1)
    else .inr tagStart

/-- The loop `while (pos + 32 <= len)`, with the masks of each chunk. -/
def scanMasks (data : List UInt8) (len : ℕ) (wantTag : List UInt8) :
    List ℕ → ℕ → (ℕ × ℕ) ⊕ ℕ
  | [], tagStart => .inr tagStart
  | pos :: rest, tagStart =>
    let chunk := (data.drop pos).take 32
    match scanMask data len wantTag pos (maskOf soh chunk) 32 (maskOf equals chunk) tagStart with
    | .inl val => .inl val
    | .inr tagStart => scanMasks data len wantTag rest tagStart

/-- `findValue` with the masks as they are. -/
def findValueMasks (data : List UInt8) (len : ℕ) (wantTag : List UInt8) : TextRef :=
  match scanMasks data len wantTag ((List.range (len / 32)).map (32 * ·)) 0 with
  | .inl val => some val
  | .inr tagStart => scanRest data len wantTag (32 * (len / 32)) tagStart

theorem bits_maskOf (c : UInt8) (chunk : List UInt8) :
    bits (maskOf c chunk) = offsetsOf c chunk := by
  refine List.filter_congr fun k hk => ?_
  rw [maskOf, BitVec.getLsbD_cast, BitVec.getLsbD_ofBoolListLE, List.getD_eq_getElem?_getD,
    List.getElem?_map, List.getElem?_range (List.mem_range.mp hk)]
  rfl

theorem maskSoh_eq (data : List UInt8) (len pos : ℕ) (sohBits : BitVec 32) {eq : ℕ}
    (heq : eq < 32) :
    maskSoh data len pos sohBits eq = sohBehind data len pos (bits sohBits) eq := by
  have hbits : bits (sohBits &&& BitVec.allOnes 32 <<< ((eq + 1) % 32)) =
      if eq = 31 then bits sohBits else (bits sohBits).filter (eq < ·) := by
    split
    · rename_i hlast
      rw [hlast, show (31 + 1) % 32 = 0 from rfl, BitVec.shiftLeft_zero, BitVec.and_allOnes]
    · rw [Nat.mod_eq_of_lt (by omega), bits_behind]
  rw [maskSoh, sohBehind, ← hbits]
  split
  · rename_i hne
    rw [bits_of_ne_zero hne]
  · rename_i hzero
    rw [not_not.mp hzero, bits_zero]

/-- The loop over the set bits. -/
theorem scanMask_eq (data : List UInt8) (len : ℕ) (wantTag : List UInt8) (pos : ℕ)
    (sohBits : BitVec 32) {rounds : ℕ} {eqBits : BitVec 32} (tagStart : ℕ)
    (hrounds : (bits eqBits).length ≤ rounds) :
    scanMask data len wantTag pos sohBits rounds eqBits tagStart =
      scanChunk data len wantTag pos (bits sohBits) (bits eqBits) tagStart := by
  induction rounds generalizing eqBits tagStart with
  | zero =>
    rw [List.length_eq_zero_iff.mp (Nat.le_zero.mp hrounds)]
    rfl
  | succ rounds ih =>
    rw [scanMask]
    split
    · rename_i hne
      have hbits := bits_of_ne_zero hne
      have hlt : eqBits.ctz.toNat < 32 :=
        BitVec.lt_of_getLsbD (BitVec.getLsbD_true_ctz_of_ne_zero hne)
      rw [hbits, List.length_cons] at hrounds
      rw [hbits, scanChunk, ← maskSoh_eq data len pos sohBits hlt]
      dsimp only
      rw [ih _ (Nat.le_of_succ_le_succ hrounds)]
    · rename_i hzero
      rw [not_not.mp hzero, bits_zero]
      rfl

theorem findValueMasks_eq (data : List UInt8) (len : ℕ) (wantTag : List UInt8) :
    findValueMasks data len wantTag = findValue data len wantTag := by
  have hchunks : ∀ chunks tagStart, scanMasks data len wantTag chunks tagStart =
      scanChunks data len wantTag chunks tagStart := by
    intro chunks
    induction chunks with
    | nil => exact fun _ => rfl
    | cons pos chunks ih =>
      intro tagStart
      rw [scanMasks, scanChunks, scanMask_eq _ _ _ _ _ _ (length_bits_le _), bits_maskOf,
        bits_maskOf]
      cases scanChunk data len wantTag pos (offsetsOf soh ((data.drop pos).take 32))
        (offsetsOf equals ((data.drop pos).take 32)) tagStart with
      | inl val => rfl
      | inr tagStart => exact ih tagStart
  exact congrArg (fun r : (ℕ × ℕ) ⊕ ℕ => match r with
    | .inl val => some val
    | .inr tagStart => scanRest data len wantTag (32 * (len / 32)) tagStart) (hchunks _ 0)

/-! ### The plain search -/

/-- A field with any tag text; a well-formed message has neither `=` nor SOH in its texts. -/
structure TextField where
  tag : List UInt8
  value : List UInt8
  tag_clean : equals ∉ tag ∧ soh ∉ tag
  value_clean : equals ∉ value ∧ soh ∉ value

namespace TextField

def text (f : TextField) : List UInt8 := f.tag ++ equals :: (f.value ++ [soh])

theorem length_text (f : TextField) : f.text.length = f.tag.length + f.value.length + 2 := by
  rw [text, List.length_append, List.length_cons, List.length_append]
  exact (Nat.add_assoc _ _ _).symm

end TextField

/-- The bytes of a message. -/
def messageText (fs : List TextField) : List UInt8 := fs.flatMap TextField.text

theorem messageText_cons (f : TextField) (fs : List TextField) :
    messageText (f :: fs) = f.text ++ messageText fs := List.flatMap_cons

/-- The value of the first field with the tag, when the fields begin at `start`. -/
def firstValue (wantTag : List UInt8) : List TextField → ℕ → TextRef
  | [], _ => none
  | f :: fs, start =>
    if f.tag = wantTag then some (start + f.tag.length + 1, f.value.length)
    else firstValue wantTag fs (start + f.text.length)

/-! ### Loops over the bytes -/

section

variable {data : List UInt8} {len q e : ℕ} {c : UInt8}

/-- The loop stops at the first `c`. -/
theorem scanTo_eq (hq : q ≤ e) (he : (data.take len)[e]? = some c)
    (hno : ∀ j, q ≤ j → j < e → (data.take len)[j]? ≠ some c) : scanTo c data len q = e := by
  obtain ⟨k, rfl⟩ := Nat.exists_eq_add_of_le hq
  rw [scanTo]
  congr 1
  generalize data.take len = text at he hno
  have hget : ∀ j, (text.drop q)[j]? = text[q + j]? := fun j => List.getElem?_drop
  have hlt : k < (text.drop q).length := (List.getElem?_eq_some_iff.mp ((hget k).trans he)).1
  have hsplit := (List.take_append_drop k (text.drop q)).symm
  rw [List.drop_eq_getElem_cons hlt] at hsplit
  have hc : (text.drop q)[k] = c := by
    have h := (List.getElem?_eq_getElem hlt).symm.trans ((hget k).trans he)
    exact Option.some.inj h
  have hclear : c ∉ (text.drop q).take k := by
    intro hmem
    obtain ⟨j, hj⟩ := List.getElem?_of_mem hmem
    rw [List.getElem?_take] at hj
    split at hj
    · exact hno (q + j) (Nat.le_add_right q j) (by omega) ((hget j).symm.trans hj)
    · cases hj
  rw [hc] at hsplit
  rw [hsplit, takeWhile_ne_append_cons hclear, List.length_take]
  omega

/-- The loop runs to the end. -/
theorem scanTo_none (hq : q ≤ len) (hlen : len ≤ data.length)
    (hno : ∀ j, q ≤ j → (data.take len)[j]? ≠ some c) : scanTo c data len q = len := by
  rw [scanTo, List.takeWhile_eq_self_iff.mpr, List.length_drop, List.length_take]
  · omega
  · intro a ha
    obtain ⟨j, hj⟩ := List.getElem?_of_mem ha
    rw [List.getElem?_drop] at hj
    refine decide_eq_true fun heq => hno (q + j) (Nat.le_add_right q j) ?_
    rw [hj, heq]

end

/-! ### The fields of a message -/

/-- From `p` on the message holds the fields `fs`, and a field ends in front of `p`. -/
structure Held (data : List UInt8) (len p : ℕ) (fs : List TextField) : Prop where
  inside : p ≤ len
  fits : len ≤ data.length
  rest : (data.take len).drop p = messageText fs
  before : p ≠ 0 → (data.take len)[p - 1]? = some soh

namespace Held

variable {data : List UInt8} {len p : ℕ} {f : TextField} {fs : List TextField}

theorem getElem? (h : Held data len p fs) (j : ℕ) :
    (data.take len)[p + j]? = (messageText fs)[j]? := by
  rw [← h.rest, List.getElem?_drop]

theorem length_eq (h : Held data len p fs) : p + (messageText fs).length = len := by
  have hlen := congrArg List.length h.rest
  rw [List.length_drop, List.length_take, Nat.min_eq_left h.fits] at hlen
  have hin := h.inside
  omega

/-- Where `=` stands. -/
theorem getElem?_equals (h : Held data len p (f :: fs)) :
    (data.take len)[p + f.tag.length]? = some equals := by
  rw [h.getElem?, messageText_cons, TextField.text, List.append_assoc,
    List.getElem?_append_right (le_refl _), Nat.sub_self]
  rfl

/-- Where the field ends. -/
theorem getElem?_soh (h : Held data len p (f :: fs)) :
    (data.take len)[p + f.tag.length + 1 + f.value.length]? = some soh := by
  have hsplit : messageText (f :: fs) =
      (f.tag ++ equals :: f.value) ++ soh :: messageText fs := by
    rw [messageText_cons, TextField.text]
    simp only [List.append_assoc, List.cons_append, List.nil_append]
  have hlen : (f.tag ++ equals :: f.value).length = f.tag.length + 1 + f.value.length := by
    rw [List.length_append, List.length_cons]
    omega
  rw [Nat.add_assoc, Nat.add_assoc, ← Nat.add_assoc f.tag.length, h.getElem?, hsplit, ← hlen,
    List.getElem?_append_right (le_refl _), Nat.sub_self]
  rfl

/-- What stands in a field. -/
theorem byte_cases (h : Held data len p (f :: fs)) {j : ℕ} (hp : p ≤ j)
    (hj : j < p + f.text.length) :
    (∃ c ∈ f.tag ++ f.value, (data.take len)[j]? = some c) ∨ j = p + f.tag.length ∨
      j = p + f.tag.length + 1 + f.value.length := by
  obtain ⟨k, rfl⟩ := Nat.exists_eq_add_of_le hp
  rw [f.length_text] at hj
  by_cases htag : k < f.tag.length
  · left
    refine ⟨f.tag[k], List.mem_append_left _ (List.getElem_mem htag), ?_⟩
    rw [h.getElem?, messageText_cons, TextField.text, List.append_assoc,
      List.getElem?_append_left htag, List.getElem?_eq_getElem htag]
  · by_cases heq : k = f.tag.length
    · exact .inr (.inl (by rw [heq]))
    · obtain ⟨i, rfl⟩ : ∃ i, k = f.tag.length + 1 + i := ⟨k - f.tag.length - 1, by omega⟩
      by_cases hvalue : i < f.value.length
      · left
        refine ⟨f.value[i], List.mem_append_right _ (List.getElem_mem hvalue), ?_⟩
        rw [h.getElem?, messageText_cons, TextField.text, List.append_assoc,
          List.getElem?_append_right (by omega),
          show f.tag.length + 1 + i - f.tag.length = i + 1 by omega, List.cons_append,
          List.getElem?_cons_succ, List.append_assoc, List.getElem?_append_left hvalue,
          List.getElem?_eq_getElem hvalue]
      · exact .inr (.inr (by omega))

/-- No other `=` in the field. -/
theorem ne_equals (h : Held data len p (f :: fs)) {j : ℕ} (hp : p ≤ j)
    (hj : j < p + f.text.length) (hne : j ≠ p + f.tag.length) :
    (data.take len)[j]? ≠ some equals := by
  rcases h.byte_cases hp hj with ⟨c, hc, hget⟩ | heq | rfl
  · rw [hget, Ne, Option.some.injEq]
    rintro rfl
    rcases List.mem_append.mp hc with ht | hv
    · exact f.tag_clean.1 ht
    · exact f.value_clean.1 hv
  · exact absurd heq hne
  · rw [h.getElem?_soh]
    decide

/-- No SOH before its end. -/
theorem ne_soh (h : Held data len p (f :: fs)) {j : ℕ} (hp : p ≤ j)
    (hj : j < p + f.tag.length + 1 + f.value.length) : (data.take len)[j]? ≠ some soh := by
  rcases h.byte_cases hp (by rw [f.length_text]; omega) with ⟨c, hc, hget⟩ | rfl | heq
  · rw [hget, Ne, Option.some.injEq]
    rintro rfl
    rcases List.mem_append.mp hc with ht | hv
    · exact f.tag_clean.2 ht
    · exact f.value_clean.2 hv
  · rw [h.getElem?_equals]
    decide
  · omega

/-- Behind the last field nothing is left. -/
theorem eq_len_of_nil (h : Held data len p []) : p = len := h.length_eq

/-- The fields behind the first. -/
theorem tail (h : Held data len p (f :: fs)) : Held data len (p + f.text.length) fs := by
  have hlen := h.length_eq
  rw [messageText_cons, List.length_append] at hlen
  refine ⟨by omega, h.fits, ?_, fun _ => ?_⟩
  · rw [← List.drop_drop, h.rest, messageText_cons, List.drop_left]
  · rw [f.length_text, ← h.getElem?_soh]
    congr 1
    omega

/-- The tag stands in front of `=`. -/
theorem take_tag (h : Held data len p (f :: fs)) : (data.drop p).take f.tag.length = f.tag := by
  have hlen := h.length_eq
  rw [messageText_cons, List.length_append, f.length_text] at hlen
  have htake : (data.drop p).take f.tag.length = ((data.take len).drop p).take f.tag.length := by
    rw [List.drop_take, List.take_take, Nat.min_eq_left (by omega)]
  rw [htake, h.rest, messageText_cons, TextField.text, List.append_assoc, List.take_left]

end Held

/-! ### Tags and ends of values -/

section

variable {data wantTag : List UInt8} {len p : ℕ} {f : TextField} {fs : List TextField}

theorem isTagAt_of_start (h : Held data len p (f :: fs)) :
    isTagAt data wantTag p (p + f.tag.length) = decide (f.tag = wantTag) := by
  rw [isTagAt, Nat.add_sub_cancel_left, h.take_tag, decide_eq_true (Nat.le_add_right _ _),
    Bool.true_and, Bool.eq_iff_iff, beq_iff_eq, decide_eq_true_iff]

/-- A text with `=` in it is no tag. -/
theorem isTagAt_of_equals {start e j : ℕ} (hwant : equals ∉ wantTag) (hle : start ≤ j)
    (hlt : j < e) (hj : data[j]? = some equals) : isTagAt data wantTag start e = false := by
  rw [isTagAt, Bool.and_eq_false_iff]
  right
  rw [Bool.eq_false_iff]
  intro heq
  refine hwant (beq_iff_eq.mp heq ▸ ?_)
  refine List.mem_of_getElem? (i := j - start) ?_
  rw [List.getElem?_take, if_pos (by omega), List.getElem?_drop, Nat.add_sub_cancel' hle]
  exact hj

theorem mem_offsetsOf {c : UInt8} {pos k : ℕ} :
    k ∈ offsetsOf c ((data.drop pos).take 32) ↔ k < 32 ∧ data[pos + k]? = some c := by
  rw [offsetsOf, List.mem_filter, List.mem_range, decide_eq_true_iff]
  refine and_congr_right fun hk => ?_
  rw [List.getElem?_take, if_pos hk, List.getElem?_drop]

theorem offsetsOf_sorted (c : UInt8) (chunk : List UInt8) :
    (offsetsOf c chunk).Pairwise (· < ·) :=
  List.pairwise_lt_range.filter _

theorem getElem?_of_lt (len : ℕ) {j : ℕ} (h : j < len) : data[j]? = (data.take len)[j]? := by
  rw [List.getElem?_take, if_pos h]

/-- `=` is the last byte of a chunk of 32 bytes in which a field ends. -/
def EqLast (len p : ℕ) (f : TextField) : Prop :=
  p ≠ 0 ∧ f.tag.length ≤ 30 ∧ (p + f.tag.length) % 32 = 31 ∧
    p + f.tag.length < 32 * (len / 32)

instance (len p : ℕ) (f : TextField) : Decidable (EqLast len p f) := by
  unfold EqLast
  infer_instance

/-- `soh_pos` for the `=` at `e`, in the chunk it lies in. -/
def chunkSoh (data : List UInt8) (len e : ℕ) : ℕ :=
  sohBehind data len (32 * (e / 32)) (offsetsOf soh ((data.drop (32 * (e / 32))).take 32)) (e % 32)

theorem scanTo_soh (h : Held data len p (f :: fs)) :
    scanTo soh data len (p + f.tag.length + 1) = p + f.tag.length + 1 + f.value.length :=
  scanTo_eq (Nat.le_add_right _ _) h.getElem?_soh fun _ hle hlt => h.ne_soh (by omega) hlt

/-- The end of the value is found. -/
theorem chunkSoh_of_not (h : Held data len p (f :: fs))
    (hchunk : p + f.tag.length < 32 * (len / 32)) (hlast : ¬EqLast len p f) :
    chunkSoh data len (p + f.tag.length) = p + f.tag.length + 1 + f.value.length := by
  have hdiv := Nat.div_add_mod (p + f.tag.length) 32
  have hmod := Nat.mod_lt (p + f.tag.length) (by omega : 0 < 32)
  have hin := h.getElem?_soh
  have hlen := h.length_eq
  rw [messageText_cons, List.length_append, f.length_text] at hlen
  have hfull : 32 * (len / 32) ≤ len := Nat.mul_div_le len 32
  rw [chunkSoh, sohBehind, hdiv]
  generalize hpos : 32 * ((p + f.tag.length) / 32) = pos at hdiv ⊢
  generalize hoff : (p + f.tag.length) % 32 = off at hdiv hmod ⊢
  have hwhole : pos + 32 ≤ len := by omega
  -- the offsets that are looked at are behind `=`
  obtain ⟨offs, hoffs⟩ : ∃ offs, offs = (if off = 31 then
      offsetsOf soh ((data.drop pos).take 32)
    else (offsetsOf soh ((data.drop pos).take 32)).filter (off < ·)) := ⟨_, rfl⟩
  rw [← hoffs]
  have hmem : ∀ k, k ∈ offs ↔ off < k ∧ k < 32 ∧ data[pos + k]? = some soh := by
    intro k
    rw [hoffs]
    split
    · rename_i hedge
      rw [mem_offsetsOf]
      refine ⟨fun ⟨hk, hsoh⟩ => ?_, fun ⟨_, hk, hsoh⟩ => ⟨hk, hsoh⟩⟩
      -- a SOH in the chunk would be in front of the field
      exfalso
      rw [getElem?_of_lt len (by omega)] at hsoh
      have hfront : pos + k < p := by
        by_contra hge
        exact h.ne_soh (by omega) (by omega) hsoh
      refine hlast ⟨by omega, ?_, by omega, hchunk⟩
      omega
    · rw [List.mem_filter, mem_offsetsOf, decide_eq_true_iff]
      exact ⟨fun ⟨⟨hk, hsoh⟩, hlt⟩ => ⟨hlt, hk, hsoh⟩, fun ⟨hlt, hk, hsoh⟩ => ⟨⟨hk, hsoh⟩, hlt⟩⟩
  have hsorted : offs.Pairwise (· < ·) := by
    rw [hoffs]
    split
    · exact offsetsOf_sorted _ _
    · exact (offsetsOf_sorted _ _).filter _
  cases offs with
  | nil =>
    have hscan := scanTo_soh h
    rw [← hdiv] at hscan ⊢
    exact hscan
  | cons k ks =>
    obtain ⟨hlt, hk, hsoh⟩ := (hmem k).mp List.mem_cons_self
    rw [getElem?_of_lt len (by omega)] at hsoh
    show pos + k = _
    refine le_antisymm ?_ ?_
    · by_contra hgt
      have hend : p + f.tag.length + 1 + f.value.length - pos ∈ k :: ks := by
        rw [hmem]
        refine ⟨by omega, by omega, ?_⟩
        rw [Nat.add_sub_cancel' (by omega), getElem?_of_lt len (by omega)]
        exact hin
      rcases List.mem_cons.mp hend with heq | htail
      · omega
      · have hless := (List.pairwise_cons.mp hsorted).1 _ htail
        omega
    · by_contra hgt
      exact h.ne_soh (by omega) (by omega) hsoh

/-- The first SOH of the chunk is taken, in front of the field. -/
theorem chunkSoh_of_last (h : Held data len p (f :: fs)) (hlast : EqLast len p f) :
    chunkSoh data len (p + f.tag.length) < p := by
  obtain ⟨hp, htag, hmod, hchunk⟩ := hlast
  have hdiv := Nat.div_add_mod (p + f.tag.length) 32
  have hlen := h.length_eq
  rw [messageText_cons, List.length_append, f.length_text] at hlen
  have hfull : 32 * (len / 32) ≤ len := Nat.mul_div_le len 32
  rw [chunkSoh, sohBehind, hmod, if_pos rfl]
  generalize hpos : 32 * ((p + f.tag.length) / 32) = pos at hdiv ⊢
  have hwhole : pos + 32 ≤ len := by omega
  have hbefore := h.before hp
  have hmem : p - 1 - pos ∈ offsetsOf soh ((data.drop pos).take 32) := by
    rw [mem_offsetsOf]
    refine ⟨by omega, ?_⟩
    rw [Nat.add_sub_cancel' (by omega), getElem?_of_lt len (by omega)]
    exact hbefore
  have hsorted := offsetsOf_sorted soh ((data.drop pos).take 32)
  cases hoffs : offsetsOf soh ((data.drop pos).take 32) with
  | nil =>
    rw [hoffs] at hmem
    cases hmem
  | cons k ks =>
    rw [hoffs] at hmem hsorted
    show pos + k < p
    rcases List.mem_cons.mp hmem with heq | htail
    · omega
    · have hless := (List.pairwise_cons.mp hsorted).1 _ htail
      omega

end

/-! ### From `=` to `=` -/

section

variable (data : List UInt8) (len : ℕ) (wantTag : List UInt8)

/-- The loops over the chunks, as one loop over the places of `=`. -/
def scanEqs : List ℕ → ℕ → (ℕ × ℕ) ⊕ ℕ
  | [], tagStart => .inr tagStart
  | e :: es, tagStart =>
    if isTagAt data wantTag tagStart e then .inl (valueRef e (chunkSoh data len e))
    else scanEqs es (chunkSoh data len e + 1)

theorem scanChunk_eq (i : ℕ) (rest offs : List ℕ) (hoffs : ∀ k ∈ offs, k < 32) (tagStart : ℕ) :
    (match scanChunk data len wantTag (32 * i) (offsetsOf soh ((data.drop (32 * i)).take 32)) offs
        tagStart with
      | .inl val => .inl val
      | .inr tagStart => scanEqs data len wantTag rest tagStart) =
    scanEqs data len wantTag (offs.map (32 * i + ·) ++ rest) tagStart := by
  induction offs generalizing tagStart with
  | nil => rfl
  | cons k ks ih =>
    have hk : k < 32 := hoffs k List.mem_cons_self
    have hsoh : chunkSoh data len (32 * i + k) =
        sohBehind data len (32 * i) (offsetsOf soh ((data.drop (32 * i)).take 32)) k := by
      rw [chunkSoh, Nat.mul_add_div (by omega), Nat.div_eq_of_lt hk, Nat.add_zero, Nat.mul_add_mod,
        Nat.mod_eq_of_lt hk]
    rw [scanChunk, List.map_cons, List.cons_append, scanEqs, hsoh]
    by_cases htag : isTagAt data wantTag tagStart (32 * i + k)
    · rw [if_pos htag, if_pos htag]
    · rw [if_neg htag, if_neg htag]
      exact ih (fun k' hk' => hoffs k' (List.mem_cons_of_mem _ hk')) _

theorem scanChunks_eq (chunks : List ℕ) (tagStart : ℕ) :
    scanChunks data len wantTag (chunks.map (32 * ·)) tagStart =
      scanEqs data len wantTag (chunks.flatMap fun i =>
        (offsetsOf equals ((data.drop (32 * i)).take 32)).map (32 * i + ·)) tagStart := by
  induction chunks generalizing tagStart with
  | nil => rfl
  | cons i chunks ih =>
    rw [List.flatMap_cons, ← scanChunk_eq data len wantTag i _ _
      (fun k hk => (mem_offsetsOf.mp hk).1), List.map_cons, scanChunks]
    cases scanChunk data len wantTag (32 * i) (offsetsOf soh ((data.drop (32 * i)).take 32))
      (offsetsOf equals ((data.drop (32 * i)).take 32)) tagStart with
    | inl val => rfl
    | inr tagStart => exact ih tagStart

/-- The masks of the chunks give the places of a byte in them. -/
theorem flatMap_offsetsOf (c : UInt8) (n : ℕ) :
    ((List.range n).flatMap fun i =>
        (offsetsOf c ((data.drop (32 * i)).take 32)).map (32 * i + ·)) =
      (List.range (32 * n)).filter fun j => data[j]? = some c := by
  induction n with
  | zero => rfl
  | succ n ih =>
    rw [List.range_succ, List.flatMap_append, ih, List.flatMap_singleton, Nat.mul_succ,
      List.range_add, List.filter_append, List.filter_map, offsetsOf]
    congr 2
    refine List.filter_congr fun k hk => ?_
    have hlt := List.mem_range.mp hk
    show decide (((data.drop (32 * n)).take 32)[k]? = some c) = decide (data[32 * n + k]? = some c)
    rw [List.getElem?_take, if_pos hlt, List.getElem?_drop]

end

/-- The places of `=`, one in each field. -/
def eqPlaces : List TextField → ℕ → List ℕ
  | [], _ => []
  | f :: fs, p => (p + f.tag.length) :: eqPlaces fs (p + f.text.length)

theorem le_of_mem_eqPlaces {fs : List TextField} {p j : ℕ} (h : j ∈ eqPlaces fs p) : p ≤ j := by
  induction fs generalizing p with
  | nil => cases h
  | cons f fs ih =>
    rcases List.mem_cons.mp h with rfl | htail
    · exact Nat.le_add_right _ _
    · exact le_trans (Nat.le_add_right _ _) (ih htail)

section

variable {data wantTag : List UInt8} {len p : ℕ} {f : TextField} {fs : List TextField}

theorem filter_range'_eq (h : Held data len p fs) :
    (List.range' p (messageText fs).length).filter (fun j => data[j]? = some equals) =
      eqPlaces fs p := by
  induction fs generalizing p with
  | nil => rfl
  | cons f fs ih =>
    have hlen := h.length_eq
    rw [messageText_cons, List.length_append] at hlen
    have hnone : ∀ a n, p ≤ a → a + n ≤ p + f.text.length →
        (a + n ≤ p + f.tag.length ∨ p + f.tag.length < a) →
        (List.range' a n).filter (fun j => data[j]? = some equals) = [] := by
      intro a n ha hn hside
      refine List.filter_eq_nil_iff.mpr fun j hj => ?_
      obtain ⟨hle, hlt⟩ := List.mem_range'_1.mp hj
      rw [decide_eq_true_iff, getElem?_of_lt len (by omega)]
      exact h.ne_equals (by omega) (by omega) (by omega)
    have htext := f.length_text
    rw [messageText_cons, List.length_append,
      show f.text.length + (messageText fs).length =
        f.tag.length + (1 + (f.value.length + 1 + (messageText fs).length)) by omega,
      ← List.range'_append_1, ← List.range'_append_1, ← List.range'_append_1, List.filter_append,
      List.filter_append, List.filter_append, hnone p _ (by omega) (by omega) (by omega),
      hnone (p + f.tag.length + 1) _ (by omega) (by omega) (by omega), List.nil_append,
      List.nil_append, eqPlaces]
    have hone : (List.range' (p + f.tag.length) 1).filter (fun j => data[j]? = some equals) =
        [p + f.tag.length] := by
      rw [List.range'_one, List.filter_singleton, getElem?_of_lt len (by omega), h.getElem?_equals,
        decide_eq_true rfl]
      rfl
    have hrest := ih h.tail
    rw [htext] at hrest ⊢
    rw [hone, show p + f.tag.length + 1 + (f.value.length + 1) =
      p + (f.tag.length + f.value.length + 2) by omega, hrest]
    rfl

/-- The places of `=` in the full chunks. -/
theorem filter_range_eq (h : Held data len 0 fs) {n : ℕ} (hn : n ≤ len) :
    (List.range n).filter (fun j => data[j]? = some equals) = (eqPlaces fs 0).filter (· < n) := by
  have hlen := h.length_eq
  rw [Nat.zero_add] at hlen
  rw [← filter_range'_eq h, hlen, ← List.range_eq_range', List.filter_filter]
  obtain ⟨m, rfl⟩ := Nat.exists_eq_add_of_le hn
  have hbehind : ((List.range m).map (n + ·)).filter
      (fun j => decide (j < n) && decide (data[j]? = some equals)) = [] := by
    refine List.filter_eq_nil_iff.mpr fun j hj => ?_
    obtain ⟨k, -, rfl⟩ := List.mem_map.mp hj
    rw [decide_eq_false (Nat.not_lt.mpr (Nat.le_add_right n k)), Bool.false_and]
    exact Bool.false_ne_true
  rw [List.range_add, List.filter_append, hbehind, List.append_nil]
  refine List.filter_congr fun j hj => ?_
  rw [decide_eq_true (List.mem_range.mp hj), Bool.true_and]

/-! ### From field to field -/

/-- `soh_pos` for the `=` at `e`, in a chunk or behind the chunks. -/
def endOf (data : List UInt8) (len e : ℕ) : ℕ :=
  if e < 32 * (len / 32) then chunkSoh data len e else scanTo soh data len (e + 1)

/-- `findValue` from the field at `p` on, when the tag is taken to begin at `tagStart`. -/
def walk (data : List UInt8) (len : ℕ) (wantTag : List UInt8) : List TextField → ℕ → ℕ → TextRef
  | [], _, _ => none
  | f :: fs, p, tagStart =>
    let e := p + f.tag.length
    if isTagAt data wantTag tagStart e then some (valueRef e (endOf data len e))
    else walk data len wantTag fs (p + f.text.length) (endOf data len e + 1)

/-- A round of the byte-by-byte loop goes over a field. -/
theorem scanRest_cons (h : Held data len p (f :: fs)) {pos tagStart : ℕ}
    (hpos : pos ≤ p + f.tag.length)
    (hbefore : ∀ j, pos ≤ j → j < p → (data.take len)[j]? ≠ some equals) :
    scanRest data len wantTag pos tagStart =
      if isTagAt data wantTag tagStart (p + f.tag.length) then
        some (valueRef (p + f.tag.length) (p + f.tag.length + 1 + f.value.length))
      else scanRest data len wantTag (p + f.text.length) (p + f.text.length) := by
  have hin := h.length_eq
  rw [messageText_cons, List.length_append, f.length_text] at hin
  have heq : scanTo equals data len pos = p + f.tag.length := by
    refine scanTo_eq hpos h.getElem?_equals fun j hj hlt => ?_
    by_cases hfront : j < p
    · exact hbefore j hj hfront
    · exact h.ne_equals (by omega) (by rw [f.length_text]; omega) (by omega)
  have hnext : p + f.tag.length + 1 + f.value.length + 1 = p + f.text.length := by
    rw [f.length_text]
    omega
  rw [scanRest, if_pos (by omega), heq]
  dsimp only
  rw [scanTo_soh h, if_neg (by omega), hnext]

/-- Behind the last field it finds nothing. -/
theorem scanRest_nil (h : Held data len p []) {pos tagStart : ℕ} (hlen : pos ≤ len)
    (hbefore : ∀ j, pos ≤ j → j < p → (data.take len)[j]? ≠ some equals) :
    scanRest data len wantTag pos tagStart = none := by
  have hp := h.eq_len_of_nil
  rw [scanRest]
  split
  · rw [scanTo_none hlen h.fits, if_pos (le_refl _)]
    intro j hj
    by_cases hlt : j < p
    · exact hbefore j hj hlt
    · rw [List.getElem?_take, if_neg (by omega)]
      exact (Option.some_ne_none _).symm
  · rfl

/-- **The byte-by-byte loop is the plain search.** -/
theorem scanRest_eq (h : Held data len p fs) (hsize : len < 2 ^ 64) :
    scanRest data len wantTag p p = firstValue wantTag fs p := by
  induction fs generalizing p with
  | nil => exact scanRest_nil h h.inside fun j hj hlt => absurd hlt (Nat.not_lt.mpr hj)
  | cons f fs ih =>
    have hin := h.length_eq
    rw [messageText_cons, List.length_append, f.length_text] at hin
    rw [scanRest_cons h (Nat.le_add_right _ _) fun j hj hlt => absurd hlt (Nat.not_lt.mpr hj),
      isTagAt_of_start h, ih h.tail, firstValue]
    by_cases hf : f.tag = wantTag
    · have hlength : (p + f.tag.length + 1 + f.value.length + 2 ^ 64 - (p + f.tag.length + 1)) %
          2 ^ 64 = f.value.length := by omega
      rw [if_pos hf, if_pos (decide_eq_true hf), valueRef, hlength]
    · rw [if_neg hf, if_neg (by rw [decide_eq_false hf]; exact Bool.false_ne_true)]

/-- The loop behind the chunks goes from field to field. -/
theorem scanRest_eq_walk (h : Held data len p fs) {pos tagStart : ℕ}
    (hpos : 32 * (len / 32) ≤ pos) (hlen : pos ≤ len)
    (hbefore : ∀ j, pos ≤ j → j < p → (data.take len)[j]? ≠ some equals)
    (hplaces : ∀ j ∈ eqPlaces fs p, pos ≤ j) :
    scanRest data len wantTag pos tagStart = walk data len wantTag fs p tagStart := by
  induction fs generalizing p pos tagStart with
  | nil => exact scanRest_nil h hlen hbefore
  | cons f fs ih =>
    have hle : pos ≤ p + f.tag.length := hplaces _ List.mem_cons_self
    have hnext : p + f.tag.length + 1 + f.value.length + 1 = p + f.text.length := by
      rw [f.length_text]
      omega
    have hend : endOf data len (p + f.tag.length) = p + f.tag.length + 1 + f.value.length := by
      rw [endOf, if_neg (by omega), scanTo_soh h]
    rw [scanRest_cons h hle hbefore, walk, hend, hnext, ih h.tail (by omega)
      h.tail.inside (fun j hj hlt => absurd hlt (Nat.not_lt.mpr hj))
      fun j hj => le_of_mem_eqPlaces hj]

/-- The loops over the chunks, and the one behind them, go from field to field. -/
theorem scanEqs_eq_walk (h : Held data len p fs) {tagStart : ℕ}
    (hbefore : ∀ j, 32 * (len / 32) ≤ j → j < p → (data.take len)[j]? ≠ some equals) :
    (match scanEqs data len wantTag ((eqPlaces fs p).filter (· < 32 * (len / 32))) tagStart with
      | .inl val => some val
      | .inr tagStart => scanRest data len wantTag (32 * (len / 32)) tagStart) =
    walk data len wantTag fs p tagStart := by
  have hfull : 32 * (len / 32) ≤ len := Nat.mul_div_le len 32
  induction fs generalizing p tagStart with
  | nil =>
    exact scanRest_eq_walk h (le_refl _) hfull hbefore fun j hj => absurd hj List.not_mem_nil
  | cons f fs ih =>
    -- the `=` of the field lies in a full chunk, or it and all later ones behind them
    by_cases hchunk : p + f.tag.length < 32 * (len / 32)
    · have hlen := f.length_text
      have hplaces : (eqPlaces (f :: fs) p).filter (· < 32 * (len / 32)) = (p + f.tag.length) ::
          (eqPlaces fs (p + f.text.length)).filter (· < 32 * (len / 32)) :=
        List.filter_cons_of_pos (decide_eq_true hchunk)
      rw [hplaces, scanEqs, walk, endOf, if_pos hchunk]
      by_cases htag : isTagAt data wantTag tagStart (p + f.tag.length)
      · rw [if_pos htag, if_pos htag]
      · rw [if_neg htag, if_neg htag]
        refine ih h.tail fun j hj hlt => ?_
        by_cases hfront : j < p
        · exact hbefore j hj hfront
        · exact h.ne_equals (by omega) hlt (by omega)
    · have hplaces : ∀ j ∈ eqPlaces (f :: fs) p, 32 * (len / 32) ≤ j := by
        intro j hj
        rcases List.mem_cons.mp hj with rfl | htail
        · omega
        · have hle := le_of_mem_eqPlaces htail
          rw [f.length_text] at hle
          omega
      have hnone : (eqPlaces (f :: fs) p).filter (· < 32 * (len / 32)) = [] := by
        refine List.filter_eq_nil_iff.mpr fun j hj => ?_
        rw [decide_eq_true_iff]
        exact Nat.not_lt.mpr (hplaces j hj)
      rw [hnone]
      exact scanRest_eq_walk h (le_refl _) hfull hbefore hplaces

theorem findValue_eq_walk (h : Held data len 0 fs) :
    findValue data len wantTag = walk data len wantTag fs 0 0 := by
  rw [findValue, scanChunks_eq, flatMap_offsetsOf, filter_range_eq h (Nat.mul_div_le len 32)]
  exact scanEqs_eq_walk h fun j _ hlt => absurd hlt (Nat.not_lt_zero j)

/-! ### What is found -/

theorem lt_of_walk {tagStart q n : ℕ} (h : walk data len wantTag fs p tagStart = some (q, n)) :
    p < q := by
  induction fs generalizing p tagStart with
  | nil => cases h
  | cons f fs ih =>
    rw [walk] at h
    split at h
    · rw [valueRef, Option.some.injEq, Prod.mk.injEq] at h
      omega
    · exact lt_of_le_of_lt (Nat.le_add_right _ _) (ih h)

/-- The first field with the tag is found: neither its `=` nor that of the field before it is the
last byte of a chunk. -/
def ClearOfEdges (len : ℕ) (wantTag : List UInt8) : Bool → List TextField → ℕ → Prop
  | _, [], _ => True
  | afterLast, f :: fs, p =>
    if f.tag = wantTag then afterLast = false ∧ ¬EqLast len p f
    else ClearOfEdges len wantTag (decide (EqLast len p f)) fs (p + f.text.length)

/-- The tag is taken to begin at `p`, or in front of an `=`. -/
def StartsAt (data : List UInt8) (p tagStart : ℕ) (afterLast : Bool) : Prop :=
  (afterLast = false ∧ tagStart = p) ∨
    afterLast = true ∧ ∃ j, tagStart ≤ j ∧ j < p ∧ data[j]? = some equals

/-- The tag is recognised when it is taken to begin where it does. -/
theorem isTagAt_of_startsAt (h : Held data len p (f :: fs)) (hwant : equals ∉ wantTag)
    {tagStart : ℕ} {afterLast : Bool} (hstart : StartsAt data p tagStart afterLast) :
    isTagAt data wantTag tagStart (p + f.tag.length) =
      (decide (f.tag = wantTag) && !afterLast) := by
  rcases hstart with ⟨rfl, rfl⟩ | ⟨rfl, j, hle, hlt, hj⟩
  · rw [isTagAt_of_start h, Bool.not_false, Bool.and_true]
  · rw [isTagAt_of_equals hwant hle (by omega) hj, Bool.not_true, Bool.and_false]

theorem endOf_of_not (h : Held data len p (f :: fs)) (hlast : ¬EqLast len p f) :
    endOf data len (p + f.tag.length) = p + f.tag.length + 1 + f.value.length := by
  rw [endOf]
  split
  · rename_i hchunk
    exact chunkSoh_of_not h hchunk hlast
  · exact scanTo_soh h

theorem endOf_of_last (h : Held data len p (f :: fs)) (hlast : EqLast len p f) :
    endOf data len (p + f.tag.length) < p := by
  rw [endOf, if_pos hlast.2.2.2]
  exact chunkSoh_of_last h hlast

/-- Where the next tag is taken to begin. -/
theorem startsAt_tail (h : Held data len p (f :: fs)) :
    StartsAt data (p + f.text.length) (endOf data len (p + f.tag.length) + 1)
      (decide (EqLast len p f)) := by
  have hin := h.length_eq
  have htext := f.length_text
  rw [messageText_cons, List.length_append] at hin
  by_cases hlast : EqLast len p f
  · refine .inr ⟨decide_eq_true hlast, p + f.tag.length, ?_, by omega, ?_⟩
    · have hlt := endOf_of_last h hlast
      omega
    · rw [getElem?_of_lt len (by omega)]
      exact h.getElem?_equals
  · refine .inl ⟨decide_eq_false hlast, ?_⟩
    rw [endOf_of_not h hlast]
    omega

/-- **From a field on, what the plain search finds is found exactly when it is not behind an
`=` at the end of a chunk.** -/
theorem walk_eq_iff (h : Held data len p fs) (hwant : equals ∉ wantTag) (hsize : len < 2 ^ 64)
    {tagStart : ℕ} {afterLast : Bool} (hstart : StartsAt data p tagStart afterLast) :
    walk data len wantTag fs p tagStart = firstValue wantTag fs p ↔
      ClearOfEdges len wantTag afterLast fs p := by
  induction fs generalizing p tagStart afterLast with
  | nil => exact iff_of_true rfl trivial
  | cons f fs ih =>
    have hin := h.length_eq
    have htext := f.length_text
    rw [messageText_cons, List.length_append] at hin
    rw [walk, firstValue, ClearOfEdges, isTagAt_of_startsAt h hwant hstart]
    by_cases hf : f.tag = wantTag
    · rw [if_pos hf, if_pos hf, decide_eq_true hf, Bool.true_and]
      cases afterLast with
      | false =>
        rw [Bool.not_false, if_pos rfl, valueRef, Option.some.injEq, Prod.mk.injEq]
        by_cases hlast : EqLast len p f
        · -- the length wraps around
          have hlt := endOf_of_last h hlast
          exact iff_of_false (fun hval => by omega) fun hclear => hclear.2 hlast
        · have heq := endOf_of_not h hlast
          exact iff_of_true ⟨rfl, by omega⟩ ⟨rfl, hlast⟩
      | true =>
        -- the field is passed over, and what is found lies behind it
        rw [Bool.not_true, if_neg Bool.false_ne_true]
        refine iff_of_false (fun hfound => ?_) fun hclear => Bool.noConfusion hclear.1
        have hlt := lt_of_walk hfound
        omega
    · rw [if_neg hf, if_neg hf, decide_eq_false hf, Bool.false_and, if_neg Bool.false_ne_true]
      exact ih h.tail (startsAt_tail h)

end

theorem held_message (fs : List TextField) (behind : List UInt8) :
    Held (messageText fs ++ behind) (messageText fs).length 0 fs where
  inside := Nat.zero_le _
  fits := by
    rw [List.length_append]
    exact Nat.le_add_right _ _
  rest := by rw [List.drop_zero, List.take_left]
  before := fun h => absurd rfl h

/-- **The vector search and the plain one.**  For every message of well-formed fields, whatever
stands behind it in memory, and every tag, `findValue` gives what a byte-by-byte scan gives, the
value of the first field with the tag, exactly when neither the `=` of this field nor that of the
field before it is the last byte of a chunk. -/
theorem findValue_eq_iff (fs : List TextField) (behind wantTag : List UInt8)
    (hwant : equals ∉ wantTag) (hsize : (messageText fs).length < 2 ^ 64) :
    (findValue (messageText fs ++ behind) (messageText fs).length wantTag =
        firstValue wantTag fs 0 ↔
      ClearOfEdges (messageText fs).length wantTag false fs 0) ∧
    scanRest (messageText fs ++ behind) (messageText fs).length wantTag 0 0 =
      firstValue wantTag fs 0 ∧
    findValueMasks (messageText fs ++ behind) (messageText fs).length wantTag =
      findValue (messageText fs ++ behind) (messageText fs).length wantTag := by
  have h := held_message fs behind
  refine ⟨?_, scanRest_eq h hsize, findValueMasks_eq _ _ _⟩
  rw [findValue_eq_walk h]
  exact walk_eq_iff h hwant hsize (.inl ⟨rfl, rfl⟩)

instance (len : ℕ) (wantTag : List UInt8) :
    ∀ afterLast fs p, Decidable (ClearOfEdges len wantTag afterLast fs p)
  | _, [], _ => .isTrue trivial
  | afterLast, f :: fs, p =>
    if h : f.tag = wantTag then
      decidable_of_iff (afterLast = false ∧ ¬EqLast len p f) (by rw [ClearOfEdges, if_pos h])
    else
      haveI :=
        instDecidableClearOfEdges len wantTag (decide (EqLast len p f)) fs (p + f.text.length)
      decidable_of_iff (ClearOfEdges len wantTag (decide (EqLast len p f)) fs (p + f.text.length))
        (by rw [ClearOfEdges, if_neg h])

/-- A message with a sender. -/
def shortMessage (sender : TextField) : List TextField :=
  [⟨ascii ['8'], ascii ['F', 'I', 'X', '.', '5', '.', '0'], by decide, by decide⟩,
    ⟨ascii ['9'], ascii ['6', '5'], by decide, by decide⟩,
    ⟨ascii ['3', '5'], ascii ['D'], by decide, by decide⟩, sender,
    ⟨ascii ['5', '6'], ascii ['B', 'I', 'S', 'T'], by decide, by decide⟩,
    ⟨ascii ['3', '4'], ascii ['7'], by decide, by decide⟩]

def threeCharId : TextField := ⟨ascii ['4', '9'], ascii ['A', 'B', 'C'], by decide, by decide⟩

def fiveCharId : TextField :=
  ⟨ascii ['4', '9'], ascii ['A', 'B', 'C', 'D', 'E'], by decide, by decide⟩

theorem findValue_threeCharId :
    findValue (messageText (shortMessage threeCharId)) 40 (ascii ['3', '4']) = some (38, 1) := by
  have h := findValue_eq_iff (shortMessage threeCharId) [] (ascii ['3', '4']) (by decide)
    (by decide)
  rw [List.append_nil] at h
  exact h.1.mpr (by decide)

/-- With a sender of five characters the `=` of the receiver is the last byte of the first chunk:
its value gets a length of almost 2^64, and the sequence number is not found. -/
theorem findValue_fiveCharId :
    firstValue (ascii ['5', '6']) (shortMessage fiveCharId) 0 = some (32, 4) ∧
    findValue (messageText (shortMessage fiveCharId)) 42 (ascii ['5', '6']) =
      some (32, 2 ^ 64 - 23) ∧
    firstValue (ascii ['3', '4']) (shortMessage fiveCharId) 0 = some (40, 1) ∧
    findValue (messageText (shortMessage fiveCharId)) 42 (ascii ['3', '4']) = none := by
  have hwalk : ∀ wantTag, findValue (messageText (shortMessage fiveCharId)) 42 wantTag =
      walk (messageText (shortMessage fiveCharId)) 42 wantTag (shortMessage fiveCharId) 0 0 := by
    have hheld := held_message (shortMessage fiveCharId) []
    rw [List.append_nil] at hheld
    exact fun _ => findValue_eq_walk hheld
  rw [hwalk, hwalk]
  decide

end TradingEngine
