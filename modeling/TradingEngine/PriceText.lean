/-
The price field of a FIX message, written by `Builder_FIX::addTagPrice` and read
back by `Parser_FIX::parsePrice`.

The writer prints the scaled price into an array of 16 bytes and copies it out in
two parts, with the point between them.  The size of the first part is the number
of digits less the scale, as a `size_t`.

* `withinScratch_iff` — the copies stay in the array exactly when the price has as
  many digits as the scale;
* `priceKept_iff` — exactly then the written text is a decimal number and the price
  is read back from it, whatever the slot in which the field stands;
* `priceKept_full_iff` — one digit more is needed for a digit before the point.
-/
import TradingEngine.FixOrderText

namespace TradingEngine

open DecimalText

/-! ### Decimal numbers -/

/-- A decimal number: digits around one point. -/
def IsDecimalText (text : List UInt8) : Prop :=
  ∃ whole frac, text = whole ++ point :: frac ∧ IsDigits whole ∧ IsDigits frac ∧
    whole ++ frac ≠ []

/-- A decimal number with digits on both sides of the point. -/
def IsFullDecimalText (text : List UInt8) : Prop :=
  ∃ whole frac, text = whole ++ point :: frac ∧ IsDigits whole ∧ IsDigits frac ∧
    whole ≠ [] ∧ frac ≠ []

theorem isDigits_take {text : List UInt8} (h : IsDigits text) (n : ℕ) : IsDigits (text.take n) :=
  fun _ hc => h _ (List.mem_of_mem_take hc)

theorem isDigits_drop {text : List UInt8} (h : IsDigits text) (n : ℕ) : IsDigits (text.drop n) :=
  fun _ hc => h _ (List.mem_of_mem_drop hc)

theorem point_notMem_of_isDigits {text : List UInt8} (h : IsDigits text) : point ∉ text := by
  intro hp
  obtain ⟨d, hd, heq⟩ := h point hp
  have hval := congrArg UInt8.toNat heq
  rw [toNat_digitChar hd] at hval
  have hpoint : point.toNat = 0x2E := by decide
  omega

/-! ### The scratch array -/

/-- The size of the array `temp` of `addTagPrice`. -/
def priceScratchSize : ℕ := 16

/-- How many characters `placeIntValue` writes. -/
def placedLength (num : UInt32) : ℕ :=
  if num.toNat < 100 then if num.toNat < 10 then 1 else 2 else placedDigits num.toNat

/-- What `addTagPrice<scale>` touches of `temp`, as offsets and sizes: the digits
written by `placeIntValue`, then the two copies.  The sizes are of type `size_t`. -/
def scratchAccesses (scale : ℕ) (val : UInt32) : List (ℕ × ℕ) :=
  let placed := placedLength val
  let intPartSize := sizeT (placed - scale)
  [(0, placed), (0, intPartSize), (intPartSize, sizeT (placed - intPartSize))]

def WithinScratch (scale : ℕ) (val : UInt32) : Prop :=
  ∀ a ∈ scratchAccesses scale val, a.1 + a.2 ≤ priceScratchSize

theorem placedLength_eq (val : UInt32) : placedLength val = (decimal val.toNat).length := by
  rw [placedLength]
  by_cases h100 : val.toNat < 100
  · rw [if_pos h100]
    by_cases h10 : val.toNat < 10
    · rw [if_pos h10, decimal_of_lt h10]
      rfl
    · rw [if_neg h10, decimal_pair (by omega) h100]
      rfl
  · rw [if_neg h100, length_decimal_eq_placedDigits (by omega) val.toNat_lt]

theorem length_decimal_uint32_le (val : UInt32) : (decimal val.toNat).length ≤ 10 :=
  (length_decimal_le_iff _ 9).mpr (lt_trans val.toNat_lt (by decide))

/-- The first copy stays in the array when the price has the digits of the scale;
otherwise its size wraps around. -/
theorem withinScratch_iff {scale : ℕ} (hscale : scale ≤ priceScratchSize) (val : UInt32) :
    WithinScratch scale val ↔ scale ≤ (decimal val.toNat).length := by
  have hlen := length_decimal_uint32_le val
  simp only [WithinScratch, scratchAccesses, placedLength_eq, List.forall_mem_cons,
    List.not_mem_nil, IsEmpty.forall_iff, implies_true, and_true]
  simp only [priceScratchSize, sizeT] at *
  constructor
  · rintro ⟨-, hint, -⟩
    omega
  · intro h
    refine ⟨by omega, by omega, by omega⟩

/-! ### The round trip -/

/-- The field that `addTagPrice<scale>` writes holds a text of the given shape from
which `parsePrice<scale>` reads the price, and the scratch array is not left. -/
def PriceKept (shape : List UInt8 → Prop) (scale : ℕ) (tag : List Char) (val : UInt32) : Prop :=
  WithinScratch scale val ∧
  ∃ text, addTagPrice scale tag tag.length val = .ok (ascii tag ++ text ++ [soh]) ∧
    shape text ∧ (parsePrice scale text).toNat = val.toNat

theorem copyBytes_ascii (tag : List Char) : copyBytes (ascii tag) tag.length = .ok (ascii tag) := by
  have hlen : (ascii tag).length = tag.length := List.length_map _
  rw [← hlen, copyBytes_all]

theorem addTagPrice_text {scale : ℕ} {val : UInt32} (tag : List Char)
    (h : scale ≤ (decimal val.toNat).length) :
    addTagPrice scale tag tag.length val
      = .ok (ascii tag ++ priceText scale val.toNat ++ [soh]) := by
  rw [addTagPrice, copyBytes_ascii, placeIntValue_eq]
  show (if (decimal val.toNat).length < scale then _ else _) = _
  rw [if_neg (Nat.not_lt.mpr h)]
  show Except.ok _ = Except.ok _
  simp only [List.append_assoc, priceText]

theorem priceText_eq (scale num : ℕ) : priceText scale num
    = (decimal num).take ((decimal num).length - scale) ++
      point :: (decimal num).drop ((decimal num).length - scale) := by
  rw [priceText, List.append_assoc]
  rfl

/-- A text splits at its only point in one way. -/
theorem split_at_point {whole frac whole' frac' : List UInt8} (hw : IsDigits whole)
    (hw' : IsDigits whole') (h : whole ++ point :: frac = whole' ++ point :: frac') :
    whole = whole' ∧ frac = frac' :=
  append_delimiter_inj (point_notMem_of_isDigits hw) (point_notMem_of_isDigits hw') h

theorem isDecimalText_priceText (scale num : ℕ) : IsDecimalText (priceText scale num) := by
  have hd := isDigits_decimal num
  refine ⟨_, _, priceText_eq scale num, isDigits_take hd _, isDigits_drop hd _, ?_⟩
  rw [List.take_append_drop]
  intro hnil
  have hlen := (length_decimal_le_iff num 0).mp (by rw [hnil]; exact Nat.zero_le _)
  rw [decimal_of_lt (by omega)] at hnil
  exact List.cons_ne_nil _ _ hnil

theorem isFullDecimalText_priceText_iff {scale num : ℕ} (hscale : 0 < scale)
    (hlen : scale ≤ (decimal num).length) :
    IsFullDecimalText (priceText scale num) ↔ scale < (decimal num).length := by
  have hd := isDigits_decimal num
  constructor
  · rintro ⟨whole, frac, heq, hwhole, -, hne, -⟩
    obtain ⟨hw, -⟩ := split_at_point (isDigits_take hd _) hwhole
      ((priceText_eq scale num).symm.trans heq)
    by_contra hle
    apply hne
    rw [← hw, Nat.sub_eq_zero_of_le (by omega), List.take_zero]
  · intro hlt
    refine ⟨_, _, priceText_eq scale num, isDigits_take hd _, isDigits_drop hd _, ?_, ?_⟩
    · exact List.ne_nil_of_length_pos (by rw [List.length_take]; omega)
    · exact List.ne_nil_of_length_pos (by rw [List.length_drop]; omega)

/-- For any shape that the written texts may have: the round trip succeeds exactly
when the price has the digits of the scale and its text has the shape. -/
theorem priceKept_shape_iff {shape : List UInt8 → Prop} {scale : ℕ}
    (hscale : scale ≤ priceScratchSize) (tag : List Char) (val : UInt32) :
    PriceKept shape scale tag val ↔
      scale ≤ (decimal val.toNat).length ∧ shape (priceText scale val.toNat) := by
  rw [PriceKept, withinScratch_iff hscale]
  constructor
  · rintro ⟨hlen, text, htext, hshape, -⟩
    rw [addTagPrice_text tag hlen] at htext
    have heq : ascii tag ++ priceText scale val.toNat ++ [soh] = ascii tag ++ text ++ [soh] :=
      Except.ok.inj htext
    have hsame := List.append_cancel_left (List.append_cancel_right heq)
    exact ⟨hlen, hsame ▸ hshape⟩
  · rintro ⟨hlen, hshape⟩
    exact ⟨hlen, _, addTagPrice_text tag hlen, hshape, toNat_parsePrice_priceText hlen
      (lt_trans val.toNat_lt (by decide))⟩

theorem priceKept_iff {scale : ℕ} (hscale : scale ≤ priceScratchSize) (tag : List Char)
    (val : UInt32) :
    PriceKept IsDecimalText scale tag val ↔ scale ≤ (decimal val.toNat).length := by
  rw [priceKept_shape_iff hscale]
  exact and_iff_left (isDecimalText_priceText _ _)

theorem priceKept_full_iff {scale : ℕ} (hpos : 0 < scale) (hscale : scale ≤ priceScratchSize)
    (tag : List Char) (val : UInt32) :
    PriceKept IsFullDecimalText scale tag val ↔ scale < (decimal val.toNat).length := by
  rw [priceKept_shape_iff hscale]
  constructor
  · rintro ⟨hlen, hfull⟩
    exact (isFullDecimalText_priceText_iff hpos hlen).mp hfull
  · intro hlt
    exact ⟨hlt.le, (isFullDecimalText_priceText_iff hpos hlt.le).mpr hlt⟩

/-- **The price field with four places**: a price of at least one thousand, that is
0.1, is written as a decimal number and read back, a smaller one sends the copies out
of the scratch array; a digit stands before the point from ten thousand on. -/
theorem addTagPrice_round_trip_iff (tag : List Char) (val : UInt32) :
    (PriceKept IsDecimalText 4 tag val ↔ 1000 ≤ val.toNat) ∧
    (PriceKept IsFullDecimalText 4 tag val ↔ 10000 ≤ val.toNat) := by
  have h4 : 4 ≤ priceScratchSize := by decide
  refine ⟨(priceKept_iff h4 tag val).trans (BuilderFIX.four_le_length_iff _), ?_⟩
  rw [priceKept_full_iff (by decide) h4]
  have h := length_decimal_le_iff val.toNat 3
  omega

/-- A price of 0.0999 has three digits. -/
theorem addTagPrice_short_price :
    ¬ PriceKept IsDecimalText 4 ['4', '4', '='] 999 ∧
    addTagPrice 4 ['4', '4', '='] 3 999 = .error .outOfBounds := by
  have hlen : (decimal (999 : UInt32).toNat).length < 4 :=
    Nat.lt_succ_of_le ((length_decimal_le_iff _ 2).mpr (by decide))
  refine ⟨?_, addTagPrice_error (n := 44) ⟨rfl, rfl⟩ hlen⟩
  rw [priceKept_iff (by decide)]
  exact Nat.not_le.mpr hlen

end TradingEngine
