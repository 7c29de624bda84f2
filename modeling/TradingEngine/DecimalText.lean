/-
Decimal texts: a number as the list of its digits' characters, most significant
first, and the number read back from such a list.

* `decimal_append_digit`, `decimal_append_pair` — a text grows at its end by the
  last digit, or by the last two;
* `length_decimal_eq_iff` — the length of a text tells between which powers of
  ten the number lies;
* `readDecimal_decimal`, `decimal_injective` — reading inverts writing.
-/
import Mathlib.Data.Nat.Digits.Lemmas

namespace DecimalText

/-- The character of a digit. -/
def digitChar (d : ℕ) : UInt8 := UInt8.ofNat (0x30 + d)

/-- The decimal text of a number. -/
def decimal (n : ℕ) : List UInt8 :=
  if n = 0 then [digitChar 0] else ((Nat.digits 10 n).map digitChar).reverse

/-- The value of a digit's character. -/
def digitValue (c : UInt8) : ℕ := c.toNat - 0x30

/-- The number a list of digits stands for, on top of what was read before. -/
def readDecimal (n : ℕ) (text : List UInt8) : ℕ :=
  text.foldl (fun m c => m * 10 + digitValue c) n

/-! ### Digits -/

theorem toNat_digitChar {d : ℕ} (h : d < 10) : (digitChar d).toNat = 0x30 + d := by
  show (0x30 + d) % 2 ^ 8 = 0x30 + d
  omega

theorem digitValue_digitChar {d : ℕ} (h : d < 10) : digitValue (digitChar d) = d := by
  rw [digitValue, toNat_digitChar h]
  omega

/-! ### The shape of a text -/

theorem decimal_of_lt {n : ℕ} (h : n < 10) : decimal n = [digitChar n] := by
  by_cases h0 : n = 0
  · rw [decimal, if_pos h0, h0]
  · rw [decimal, if_neg h0, Nat.digits_of_lt 10 n h0 h]
    rfl

theorem decimal_append_digit {n : ℕ} (h : 10 ≤ n) :
    decimal n = decimal (n / 10) ++ [digitChar (n % 10)] := by
  have hn : n ≠ 0 := by omega
  have hq : n / 10 ≠ 0 := by omega
  rw [decimal, if_neg hn, decimal, if_neg hq,
    Nat.digits_eq_cons_digits_div (by omega) hn, List.map_cons, List.reverse_cons]

theorem decimal_append_pair {n : ℕ} (h : 100 ≤ n) :
    decimal n = decimal (n / 100) ++ [digitChar (n % 100 / 10), digitChar (n % 100 % 10)] := by
  have htens : n / 10 % 10 = n % 100 / 10 := by omega
  have hones : n % 10 = n % 100 % 10 := by omega
  rw [decimal_append_digit (by omega : 10 ≤ n), decimal_append_digit (by omega : 10 ≤ n / 10),
    Nat.div_div_eq_div_mul, htens, hones, List.append_assoc]
  rfl

theorem decimal_pair {n : ℕ} (h₁ : 10 ≤ n) (h₂ : n < 100) :
    decimal n = [digitChar (n / 10), digitChar (n % 10)] := by
  rw [decimal_append_digit h₁, decimal_of_lt (by omega)]
  rfl

/-- A text is made of digits. -/
theorem mem_decimal {n : ℕ} {c : UInt8} (hc : c ∈ decimal n) : ∃ d < 10, c = digitChar d := by
  by_cases h0 : n = 0
  · rw [decimal, if_pos h0] at hc
    exact ⟨0, by omega, List.mem_singleton.mp hc⟩
  · rw [decimal, if_neg h0, List.mem_reverse, List.mem_map] at hc
    obtain ⟨d, hd, rfl⟩ := hc
    exact ⟨d, Nat.digits_lt_base (by omega) hd, rfl⟩

theorem decimal_ne_nil (n : ℕ) : decimal n ≠ [] := by
  by_cases h0 : n = 0
  · rw [decimal, if_pos h0]
    exact List.cons_ne_nil _ _
  · rw [decimal, if_neg h0, Ne, List.reverse_eq_nil_iff, List.map_eq_nil_iff]
    exact Nat.digits_ne_nil_iff_ne_zero.mpr h0

/-! ### Lengths -/

/-- A number has at most `k + 1` digits when it is below the power `k + 1` of ten. -/
theorem length_decimal_le_iff (n k : ℕ) : (decimal n).length ≤ k + 1 ↔ n < 10 ^ (k + 1) := by
  by_cases h0 : n = 0
  · have hpow : 0 < 10 ^ (k + 1) := by positivity
    rw [decimal, if_pos h0, h0]
    simp only [List.length_singleton]
    omega
  · rw [decimal, if_neg h0, List.length_reverse, List.length_map]
    exact Nat.digits_length_le_iff (by omega) n

/-- The length of a text, from the powers of ten around the number. -/
theorem length_decimal_eq {n k : ℕ} (h₁ : 10 ^ (k + 1) ≤ n) (h₂ : n < 10 ^ (k + 2)) :
    (decimal n).length = k + 2 := by
  have hle := (length_decimal_le_iff n (k + 1)).mpr h₂
  have hgt : ¬ (decimal n).length ≤ k + 1 := fun h =>
    absurd ((length_decimal_le_iff n k).mp h) (Nat.not_lt.mpr h₁)
  omega

/-! ### Reading -/

theorem readDecimal_append (n : ℕ) (a b : List UInt8) :
    readDecimal n (a ++ b) = readDecimal (readDecimal n a) b := List.foldl_append

theorem readDecimal_singleton (n : ℕ) (c : UInt8) :
    readDecimal n [c] = n * 10 + digitValue c := rfl

/-- What was read before counts modulo `m` only. -/
theorem readDecimal_mod (m n : ℕ) (text : List UInt8) :
    readDecimal (n % m) text % m = readDecimal n text % m := by
  induction text generalizing n with
  | nil => exact Nat.mod_mod n m
  | cons c text ih =>
    show readDecimal (n % m * 10 + digitValue c) text % m
      = readDecimal (n * 10 + digitValue c) text % m
    rw [← ih, ← ih (n * 10 + digitValue c)]
    congr 2
    rw [Nat.add_mod, Nat.mod_mul_mod, ← Nat.add_mod]

theorem readDecimal_decimal (n : ℕ) : readDecimal 0 (decimal n) = n := by
  induction n using Nat.strong_induction_on with
  | _ n ih =>
    by_cases h : n < 10
    · rw [decimal_of_lt h, readDecimal_singleton, digitValue_digitChar h]
      omega
    · rw [decimal_append_digit (by omega), readDecimal_append, ih (n / 10) (by omega),
        readDecimal_singleton, digitValue_digitChar (by omega)]
      omega

theorem decimal_injective : Function.Injective decimal := by
  intro m n h
  rw [← readDecimal_decimal m, h, readDecimal_decimal]

end DecimalText
