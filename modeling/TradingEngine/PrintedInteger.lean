/-
Integers in a buffer (`protocol/builders/FIX/Builder_FIX.cpp`, `placeIntValue`).

`FixBuilder` says which text an integer is printed as; here the text is put into memory.  A
number of one or two digits is written from `buf` on.  For a longer one the number of digits
is found first, and pairs of them are taken from a table and written towards `buf`.

* `placeBackwards_eq` — the loop leaves the decimal text in front of the pointer;
* `placeIntValueAt_eq` — what stands in memory is the text of `placeIntValue`;
* `placeIntValueAt_canonical` — it has no leading zero, the parser reads the number back, and
  no other byte changes.
-/
import TradingEngine.ByteMemory
import TradingEngine.FixFramed
import TradingEngine.FixParse

namespace TradingEngine

open DecimalText ByteMemory

/-! ### The printer -/

/-- `DIGIT_PAIRS`. -/
def digitPairs : List UInt8 :=
  ascii ['0', '0', '0', '1', '0', '2', '0', '3', '0', '4',
    '0', '5', '0', '6', '0', '7', '0', '8', '0', '9',
    '1', '0', '1', '1', '1', '2', '1', '3', '1', '4',
    '1', '5', '1', '6', '1', '7', '1', '8', '1', '9',
    '2', '0', '2', '1', '2', '2', '2', '3', '2', '4',
    '2', '5', '2', '6', '2', '7', '2', '8', '2', '9',
    '3', '0', '3', '1', '3', '2', '3', '3', '3', '4',
    '3', '5', '3', '6', '3', '7', '3', '8', '3', '9',
    '4', '0', '4', '1', '4', '2', '4', '3', '4', '4',
    '4', '5', '4', '6', '4', '7', '4', '8', '4', '9',
    '5', '0', '5', '1', '5', '2', '5', '3', '5', '4',
    '5', '5', '5', '6', '5', '7', '5', '8', '5', '9',
    '6', '0', '6', '1', '6', '2', '6', '3', '6', '4',
    '6', '5', '6', '6', '6', '7', '6', '8', '6', '9',
    '7', '0', '7', '1', '7', '2', '7', '3', '7', '4',
    '7', '5', '7', '6', '7', '7', '7', '8', '7', '9',
    '8', '0', '8', '1', '8', '2', '8', '3', '8', '4',
    '8', '5', '8', '6', '8', '7', '8', '8', '8', '9',
    '9', '0', '9', '1', '9', '2', '9', '3', '9', '4',
    '9', '5', '9', '6', '9', '7', '9', '8', '9', '9']

/-- The two characters behind `&DIGIT_PAIRS[n * 2]`. -/
def digitPairAt (n : UInt32) : Except Fault (List UInt8) :=
  match digitPairs[(n * 2).toNat]?, digitPairs[(n * 2).toNat + 1]? with
  | some c, some d => .ok [c, d]
  | _, _ => .error .outOfBounds

/-- The loop `while (num >= 100)` and the branch behind it. -/
def placeBackwards (mem : ℤ → UInt8) (num : UInt32) (tmpPtr : ℤ) : Except Fault (ℤ → UInt8) :=
  if 100 ≤ num then do
    let quot := num / 100
    let remainder := num - quot * 100
    let pair ← digitPairAt remainder
    placeBackwards (store mem (tmpPtr - 2) pair) quot (tmpPtr - 2)
  else if num < 10 then .ok (store mem (tmpPtr - 1) [0x30 + num.toUInt8])
  else do
    let pair ← digitPairAt num
    .ok (store mem (tmpPtr - 2) pair)
termination_by num.toNat
decreasing_by
  have hlarge : 100 ≤ num.toNat := UInt32.le_iff_toNat_le.mp ‹100 ≤ num›
  rw [UInt32.toNat_div]
  exact Nat.div_lt_self (by omega) (by decide)

/-- `placeIntValue`: the memory and the pointer that is returned. -/
def placeIntValueAt (num : UInt32) (mem : ℤ → UInt8) (buf : ℤ) :
    Except Fault ((ℤ → UInt8) × ℤ) :=
  if num < 100 then
    if num < 10 then .ok (store mem buf [0x30 + num.toUInt8], buf + 1)
    else do
      let pair ← digitPairAt num
      .ok (store mem buf pair, buf + 2)
  else do
    let endPtr := buf + placedDigits num.toNat
    let mem ← placeBackwards mem num endPtr
    .ok (mem, endPtr)

/-! ### What it writes -/

theorem digitPairs_getElem? {n : ℕ} (h : n < 100) :
    digitPairs[n * 2]? = some (digitChar (n / 10)) ∧
      digitPairs[n * 2 + 1]? = some (digitChar (n % 10)) := by
  have htable : ∀ n < 100, digitPairs[n * 2]? = some (digitChar (n / 10)) ∧
      digitPairs[n * 2 + 1]? = some (digitChar (n % 10)) := by decide
  exact htable n h

/-- The table holds the digits of the numbers below 100. -/
theorem digitPairAt_eq {n : UInt32} (h : n.toNat < 100) :
    digitPairAt n = .ok (digitPair n.toNat) := by
  have hdouble : (n * 2).toNat = n.toNat * 2 := by
    rw [UInt32.toNat_mul]
    show n.toNat * 2 % 2 ^ 32 = n.toNat * 2
    omega
  obtain ⟨htens, hones⟩ := digitPairs_getElem? h
  rw [digitPairAt, hdouble, htens, hones]
  rfl

theorem char_of_lt_ten {num : UInt32} (h : num.toNat < 10) :
    [0x30 + num.toUInt8] = decimal num.toNat := by
  rw [decimal_of_lt h]
  congr 1
  apply UInt8.toNat_inj.mp
  rw [toNat_digitChar h, UInt8.toNat_add, UInt32.toNat_toUInt8]
  have hzero : (0x30 : UInt8).toNat = 0x30 := rfl
  omega

theorem pair_of_lt_hundred {num : UInt32} (h₁ : 10 ≤ num.toNat) (h₂ : num.toNat < 100) :
    digitPairAt num = .ok (decimal num.toNat) := by
  rw [digitPairAt_eq h₂, decimal_pair h₁ h₂]
  rfl

/-- The branch of both functions for one or two digits: `write` gets their number and the text. -/
theorem write_of_lt_hundred {β : Type} {num : UInt32} (h : num.toNat < 100)
    (write : ℕ → List UInt8 → β) :
    (if num < 10 then .ok (write 1 [0x30 + num.toUInt8])
      else digitPairAt num >>= fun pair => .ok (write 2 pair)) =
      (.ok (write (decimal num.toNat).length (decimal num.toNat)) : Except Fault β) := by
  by_cases hone : num < 10
  · have hdigit : num.toNat < 10 := UInt32.lt_iff_toNat_lt.mp hone
    rw [if_pos hone, ← char_of_lt_ten hdigit]
    rfl
  · have hten : 10 ≤ num.toNat := by
      rw [UInt32.lt_iff_toNat_lt] at hone
      exact Nat.not_lt.mp hone
    rw [if_neg hone, pair_of_lt_hundred hten h, ok_bind, length_decimal_two hten h]

/-- The decimal text stands in front of the pointer. -/
theorem placeBackwards_eq (mem : ℤ → UInt8) (num : UInt32) (tmpPtr : ℤ) :
    placeBackwards mem num tmpPtr =
      .ok (store mem (tmpPtr - (decimal num.toNat).length) (decimal num.toNat)) := by
  induction hn : num.toNat using Nat.strong_induction_on generalizing mem num tmpPtr with
  | _ n ih =>
    subst hn
    rw [placeBackwards]
    by_cases hlarge : 100 ≤ num
    · have hnat : 100 ≤ num.toNat := UInt32.le_iff_toNat_le.mp hlarge
      have hquot : (num / 100).toNat = num.toNat / 100 := UInt32.toNat_div _ _
      have hremainder : (num - num / 100 * 100).toNat = num.toNat % 100 := by
        have hmul : (num / 100 * 100).toNat = num.toNat / 100 * 100 := by
          have hlt := num.toNat_lt
          rw [UInt32.toNat_mul, hquot]
          show num.toNat / 100 * 100 % 2 ^ 32 = num.toNat / 100 * 100
          omega
        rw [UInt32.toNat_sub_of_le _ _ (by rw [UInt32.le_iff_toNat_le, hmul]; omega), hmul]
        omega
      have hpair : digitPairAt (num - num / 100 * 100) = .ok (digitPair (num.toNat % 100)) := by
        rw [digitPairAt_eq (by omega), hremainder]
      have htext : decimal num.toNat = decimal (num.toNat / 100) ++ digitPair (num.toNat % 100) :=
        decimal_append_pair hnat
      rw [if_pos hlarge]
      show (digitPairAt (num - num / 100 * 100) >>= _) = _
      rw [hpair, ok_bind]
      -- the pair first, the digits in front of it by the induction hypothesis
      have hlen : (decimal (num.toNat / 100) ++ digitPair (num.toNat % 100)).length =
          (decimal (num.toNat / 100)).length + 2 := List.length_append
      have hplace : tmpPtr - ((decimal (num.toNat / 100)).length + 2 : ℕ) =
          tmpPtr - 2 - (decimal (num.toNat / 100)).length := by omega
      have hback : tmpPtr - 2 - (decimal (num.toNat / 100)).length +
          (decimal (num.toNat / 100)).length = tmpPtr - 2 := by omega
      rw [ih (num / 100).toNat (by omega) _ _ _ rfl, hquot, htext, hlen, hplace, store_append,
        hback]
    · have hnat : num.toNat < 100 := by
        rw [UInt32.le_iff_toNat_le] at hlarge
        exact Nat.not_le.mp hlarge
      rw [if_neg hlarge]
      exact write_of_lt_hundred hnat fun len text => store mem (tmpPtr - len) text

/-- The buffer holds what `placeIntValue` prints, and the pointer stands behind it. -/
theorem placeIntValueAt_eq (num : UInt32) (mem : ℤ → UInt8) (buf : ℤ) :
    placeIntValueAt num mem buf =
      (placeIntValue num).map fun text => (store mem buf text, buf + text.length) := by
  rw [placeIntValue_eq]
  show _ = Except.ok (store mem buf (decimal num.toNat), buf + ((decimal num.toNat).length : ℤ))
  rw [placeIntValueAt]
  by_cases hsmall : num < 100
  · have hnat : num.toNat < 100 := UInt32.lt_iff_toNat_lt.mp hsmall
    rw [if_pos hsmall]
    exact write_of_lt_hundred hnat fun len text => (store mem buf text, buf + len)
  · have hnat : 100 ≤ num.toNat := by
      rw [UInt32.lt_iff_toNat_lt] at hsmall
      exact Nat.not_lt.mp hsmall
    rw [if_neg hsmall]
    dsimp only
    rw [placeBackwards_eq, ok_bind, ← length_decimal_eq_placedDigits hnat num.toNat_lt,
      add_sub_cancel_right]

/-! ### The text -/

/-- No number but 0 begins with a zero. -/
theorem decimal_leading {n : ℕ} {rest : List UInt8} (h : decimal n = 0x30 :: rest) : rest = [] := by
  induction n using Nat.strong_induction_on generalizing rest with
  | _ n ih =>
    by_cases hlt : n < 10
    · rw [decimal_of_lt hlt] at h
      exact (List.tail_eq_of_cons_eq h).symm
    · exfalso
      obtain ⟨c, front, hfront⟩ := List.exists_cons_of_ne_nil (decimal_ne_nil (n / 10))
      rw [decimal_append_digit (by omega), hfront, List.cons_append] at h
      have hc : c = 0x30 := List.head_eq_of_cons_eq h
      rw [hc] at hfront
      have hnil := ih (n / 10) (by omega) hfront
      rw [hnil] at hfront
      have hzero : n / 10 = 0 := decimal_injective hfront
      omega

/-- The decimal text of a number without leading zeros. -/
structure Canonical (text : List UInt8) (n : ℕ) : Prop where
  digits : text = decimal n
  value : readDecimal 0 text = n
  leading : ∀ rest, text = 0x30 :: rest → rest = []

theorem canonical_decimal (n : ℕ) : Canonical (decimal n) n :=
  ⟨rfl, readDecimal_decimal n, fun _ h => decimal_leading h⟩

/-- **Integers are printed canonically.**  Whatever stands in memory, `placeIntValue` writes the
digits of the number between `buf` and the pointer that it returns and changes no other byte;
`parseNum` reads the number back. -/
theorem placeIntValueAt_canonical (num : UInt32) (mem : ℤ → UInt8) (buf : ℤ) :
    ∃ mem' last, placeIntValueAt num mem buf = .ok (mem', last) ∧ buf < last ∧
      Canonical (load mem' buf (last - buf).toNat) num.toNat ∧
      parseNum (load mem' buf (last - buf).toNat) = num.toUInt64 ∧
      ∀ a, a < buf ∨ last ≤ a → mem' a = mem a := by
  obtain ⟨text, htext⟩ : ∃ text, text = decimal num.toNat := ⟨_, rfl⟩
  have hpos : 0 < text.length := by
    rw [htext]
    exact List.length_pos_of_ne_nil (decimal_ne_nil _)
  have hload : load (store mem buf text) buf (buf + text.length - buf).toNat = text := by
    rw [add_sub_cancel_left, Int.toNat_natCast, load_store]
  refine ⟨store mem buf text, buf + text.length, ?_, by omega, ?_, ?_, fun a ha => ?_⟩
  · rw [placeIntValueAt_eq, placeIntValue_eq, htext]
    rfl
  · rw [hload, htext]
    exact canonical_decimal _
  · rw [hload, htext]
    apply UInt64.toNat_inj.mp
    rw [toNat_parseNum_decimal (lt_trans num.toNat_lt (by decide)), UInt32.toNat_toUInt64]
  · exact store_of_outside ha

end TradingEngine
