/-
What `Builder_FIX` writes, as a list of fields.

A field is a tag number and a value; its text is the decimal tag, `=`, the value
and SOH.  A body of the source is a list of `addTag` calls; when everything that
is copied lies inside its array (`FIXRequest.Printable`), these calls write the
texts of `bodyFields` (`writeFields_buildBody`), and otherwise one of them fails
(`writeFields_buildBody_error`).

* `placeIntValue_eq` — the integer printer writes the decimal text of its
  argument;
* `addTagPrice_eq` — a price is printed with a point before its last digits;
* `buildHeader_eq` — the header is a list of fields, too.
-/
import TradingEngine.FixBuilder

namespace TradingEngine

open DecimalText

/-! ### The integer printer -/

theorem placePairs_eq (num : ℕ) (text : List UInt8) :
    placePairs num text = decimal num ++ text := by
  induction num, text using placePairs.induct with
  | case1 num text h ih =>
    rw [placePairs, if_pos h, ih, decimal_append_pair h, List.append_assoc]
    rfl
  | case2 num text h hlt =>
    rw [placePairs, if_neg h, if_pos hlt, decimal_of_lt hlt]
    rfl
  | case3 num text h hlt =>
    rw [placePairs, if_neg h, if_neg hlt, decimal_pair (by omega) (by omega)]
    rfl

theorem length_decimal_eq_placedDigits {num : ℕ} (h₁ : 100 ≤ num) (h₂ : num < 2 ^ 32) :
    (decimal num).length = placedDigits num := by
  unfold placedDigits
  split
  · exact length_decimal_eq (k := 8) (by omega) (by omega)
  split
  · exact length_decimal_eq (k := 7) (by omega) (by omega)
  split
  · exact length_decimal_eq (k := 6) (by omega) (by omega)
  split
  · exact length_decimal_eq (k := 5) (by omega) (by omega)
  split
  · exact length_decimal_eq (k := 4) (by omega) (by omega)
  split
  · exact length_decimal_eq (k := 3) (by omega) (by omega)
  split
  · exact length_decimal_eq (k := 2) (by omega) (by omega)
  · exact length_decimal_eq (k := 1) (by omega) (by omega)

/-- The printer fills exactly the characters it sets aside. -/
theorem placeIntValue_eq (num : UInt32) : placeIntValue num = .ok (decimal num.toNat) := by
  unfold placeIntValue
  by_cases h : num.toNat < 100
  · rw [if_pos h]
    by_cases hlt : num.toNat < 10
    · rw [if_pos hlt, decimal_of_lt hlt]
    · rw [if_neg hlt, decimal_pair (by omega) h]
      rfl
  · have htext : placePairs num.toNat [] = decimal num.toNat := by
      rw [placePairs_eq, List.append_nil]
    rw [if_neg h, htext,
      if_pos (length_decimal_eq_placedDigits (by omega) num.toNat_lt)]

/-- `digit` is the number of digits up to six. -/
theorem digit_eq {num : UInt32} (h : num.toNat < 1000000) :
    digit num = (decimal num.toNat).length := by
  unfold digit
  split
  · exact (length_decimal_eq (k := 4) (by omega) (by omega)).symm
  split
  · exact (length_decimal_eq (k := 3) (by omega) (by omega)).symm
  split
  · exact (length_decimal_eq (k := 2) (by omega) (by omega)).symm
  split
  · exact (length_decimal_eq (k := 1) (by omega) (by omega)).symm
  split
  · exact (length_decimal_eq (k := 0) (by omega) (by omega)).symm
  · rw [decimal_of_lt (by omega)]
    rfl

/-- From a million on, `digit` counts too few. -/
theorem digit_lt {num : UInt32} (h : 1000000 ≤ num.toNat) :
    digit num < (decimal num.toNat).length := by
  have hsix : digit num = 6 := if_pos (by omega)
  have hlong : ¬ (decimal num.toNat).length ≤ 6 := fun hle =>
    absurd ((length_decimal_le_iff num.toNat 5).mp hle) (by omega)
  omega

/-! ### Fields -/

/-- A field of a FIX message. -/
structure FixField where
  tag : ℕ
  value : List UInt8
  deriving DecidableEq, Repr

/-- The bytes of a field. -/
def FixField.text (f : FixField) : List UInt8 := decimal f.tag ++ equals :: (f.value ++ [soh])

/-- The bytes of a list of fields. -/
def fieldsText (fs : List FixField) : List UInt8 := fs.flatMap FixField.text

theorem FixField.length_text (f : FixField) :
    f.text.length = (decimal f.tag).length + f.value.length + 2 := by
  rw [FixField.text, List.length_append, List.length_cons, List.length_append]
  exact (Nat.add_assoc _ _ _).symm

theorem fieldsText_append (fs gs : List FixField) :
    fieldsText (fs ++ gs) = fieldsText fs ++ fieldsText gs := List.flatMap_append

theorem fieldsText_cons (f : FixField) (fs : List FixField) :
    fieldsText (f :: fs) = f.text ++ fieldsText fs := List.flatMap_cons

theorem fieldsText_singleton (f : FixField) : fieldsText [f] = f.text := by
  rw [fieldsText_cons]
  exact List.append_nil _

theorem writeFields_fields (fs : List FixField) :
    writeFields (fs.map fun f => .ok f.text) = .ok (fieldsText fs) := by
  induction fs with
  | nil => rfl
  | cons f fs ih =>
    rw [List.map_cons, writeFields, ih, fieldsText_cons]
    rfl

/-- A call that fails makes the whole body fail. -/
theorem writeFields_error {fs : List (Except Fault (List UInt8))} {e : Fault}
    (h : .error e ∈ fs) : ∃ e', writeFields fs = .error e' := by
  induction fs with
  | nil => exact absurd h List.not_mem_nil
  | cons f fs ih =>
    cases hc : f with
    | error e' => exact ⟨e', rfl⟩
    | ok text =>
      rw [hc, List.mem_cons] at h
      have hmem : .error e ∈ fs := h.resolve_left (by intro heq; cases heq)
      obtain ⟨e', he⟩ := ih hmem
      exact ⟨e', by rw [writeFields, he]; rfl⟩

/-! ### Delimiters -/

/-- Up to its first occurrence, a delimiter is skipped over exactly once. -/
theorem takeWhile_ne_append_cons {x : List UInt8} {a : UInt8} (h : a ∉ x) (s : List UInt8) :
    (x ++ a :: s).takeWhile (· ≠ a) = x := by
  have hall : ∀ c ∈ x, decide (c ≠ a) = true := by
    intro c hc
    exact decide_eq_true fun heq => h (heq ▸ hc)
  rw [List.takeWhile_append_of_pos hall, List.takeWhile_cons_of_neg (by simp), List.append_nil]

theorem dropWhile_ne_append_cons {x : List UInt8} {a : UInt8} (h : a ∉ x) (s : List UInt8) :
    (x ++ a :: s).dropWhile (· ≠ a) = a :: s := by
  have hall : ∀ c ∈ x, decide (c ≠ a) = true := by
    intro c hc
    exact decide_eq_true fun heq => h (heq ▸ hc)
  rw [List.dropWhile_append_of_pos hall, List.dropWhile_cons_of_neg (by simp)]

theorem append_delimiter_inj {x y s t : List UInt8} {a : UInt8} (hx : a ∉ x) (hy : a ∉ y)
    (h : x ++ a :: s = y ++ a :: t) : x = y ∧ s = t := by
  have hxy : x = y := by
    rw [← takeWhile_ne_append_cons hx s, h, takeWhile_ne_append_cons hy t]
  subst hxy
  exact ⟨rfl, List.tail_eq_of_cons_eq (List.append_cancel_left h)⟩

/-! ### The calls of `addTag` -/

theorem copyBytes_all (text : List UInt8) : copyBytes text text.length = .ok text := by
  rw [copyBytes, if_pos (le_refl _), List.take_length]

theorem copyBytes_ok {val : List UInt8} {vallen : ℕ} (h : vallen ≤ val.length) :
    copyBytes val vallen = .ok (val.take vallen) := if_pos h

theorem copyBytes_error {val : List UInt8} {vallen : ℕ} (h : val.length < vallen) :
    copyBytes val vallen = .error .outOfBounds := if_neg (Nat.not_le.mpr h)

/-- The tag texts of the source are a number and `=`, with the right length. -/
def IsTag (tag : List Char) (taglen n : ℕ) : Prop :=
  taglen = (ascii tag).length ∧ ascii tag = decimal n ++ [equals]

theorem IsTag.copyBytes {tag : List Char} {taglen n : ℕ} (h : IsTag tag taglen n) :
    copyBytes (ascii tag) taglen = .ok (decimal n ++ [equals]) := by
  rw [h.1, copyBytes_all, h.2]

theorem addTag_eq {tag : List Char} {taglen n vallen : ℕ} {val : List UInt8}
    (h : IsTag tag taglen n) (hval : vallen ≤ val.length) :
    addTag tag taglen val vallen = .ok (FixField.text ⟨n, val.take vallen⟩) := by
  rw [addTag, h.copyBytes, copyBytes_ok hval]
  show Except.ok _ = Except.ok _
  rw [FixField.text, List.append_assoc, List.append_assoc]
  rfl

theorem addTag_error {tag : List Char} {taglen n vallen : ℕ} {val : List UInt8}
    (h : IsTag tag taglen n) (hval : val.length < vallen) :
    addTag tag taglen val vallen = .error .outOfBounds := by
  rw [addTag, h.copyBytes, copyBytes_error hval]
  rfl

/-- A text that is copied whole. -/
theorem addTag_all {tag : List Char} {taglen n : ℕ} (val : List UInt8)
    (h : IsTag tag taglen n) :
    addTag tag taglen val val.length = .ok (FixField.text ⟨n, val⟩) := by
  rw [addTag_eq h (le_refl _), List.take_length]

theorem addTagInt_eq {tag : List Char} {taglen n : ℕ} (val : UInt32) (h : IsTag tag taglen n) :
    addTagInt tag taglen val = .ok (FixField.text ⟨n, decimal val.toNat⟩) := by
  rw [addTagInt, h.copyBytes, placeIntValue_eq]
  show Except.ok _ = Except.ok _
  rw [FixField.text, List.append_assoc, List.append_assoc]
  rfl

/-- The text of a price with `scale` digits behind the point. -/
def priceText (scale num : ℕ) : List UInt8 :=
  let text := decimal num
  text.take (text.length - scale) ++ ascii ['.'] ++ text.drop (text.length - scale)

theorem length_priceText {scale num : ℕ} (h : scale ≤ (decimal num).length) :
    (priceText scale num).length = (decimal num).length + 1 := by
  show (List.take _ _ ++ ascii ['.'] ++ List.drop _ _).length = _
  rw [List.length_append, List.length_append, List.length_take, List.length_drop]
  show min _ _ + 1 + _ = _
  omega

theorem addTagPrice_eq {tag : List Char} {scale taglen n : ℕ} {val : UInt32}
    (h : IsTag tag taglen n) (hval : scale ≤ (decimal val.toNat).length) :
    addTagPrice scale tag taglen val = .ok (FixField.text ⟨n, priceText scale val.toNat⟩) := by
  rw [addTagPrice, h.copyBytes, placeIntValue_eq]
  show (if (decimal val.toNat).length < scale then _ else _) = _
  rw [if_neg (Nat.not_lt.mpr hval), FixField.text]
  show Except.ok _ = Except.ok _
  simp only [List.append_assoc, priceText]
  rfl

theorem addTagPrice_error {tag : List Char} {scale taglen n : ℕ} {val : UInt32}
    (h : IsTag tag taglen n) (hval : (decimal val.toNat).length < scale) :
    addTagPrice scale tag taglen val = .error .outOfBounds := by
  rw [addTagPrice, h.copyBytes, placeIntValue_eq]
  show (if (decimal val.toNat).length < scale then _ else _) = _
  rw [if_pos hval]

/-! ### The fields of a message -/

theorem length_charArray (size : ℕ) (text : List UInt8) : (charArray size text).length = size := by
  rw [charArray, List.length_take, List.length_append, List.length_replicate]
  omega

/-- The first bytes of the symbol and of the token of an order. -/
def symbolText (order : Order) (own : OwnFields) : List UInt8 :=
  (charArray orderTextSize order.symbol).take own.realSymbolLen.toNat

def tokenText (own : OwnFields) (len : ℕ) : List UInt8 :=
  (charArray orderTextSize own.clientOrderToken).take len

/-- `static_cast<uint32_t>(order.price)`. -/
def Order.printedPrice (order : Order) : UInt32 := order.price.toUInt64.toUInt32

/-- The codes that the table `timeinforce` has a text for. -/
def timeInForceCodes : List UInt8 := [0, 1, 3, 4, 6, 9, 0x53]

/-- The character of a time in force. -/
def timeInForceText (code : UInt8) : List UInt8 :=
  if code = 0x53 then ascii ['S'] else [digitChar code.toNat]

theorem timeinforce_eq {code : UInt8} (h : code ∈ timeInForceCodes) :
    timeinforce code = .ok (timeInForceText code) := by
  simp only [timeInForceCodes, List.mem_cons, List.not_mem_nil, or_false] at h
  rcases h with rfl | rfl | rfl | rfl | rfl | rfl | rfl <;> rfl

theorem timeinforce_error {code : UInt8} (h : code ∉ timeInForceCodes) :
    ∃ e, timeinforce code = .error e := by
  simp only [timeInForceCodes, List.mem_cons, List.not_mem_nil, or_false, not_or] at h
  obtain ⟨h0, h1, h3, h4, h6, h9, hS⟩ := h
  unfold timeinforce
  rw [if_neg h0, if_neg h1, if_neg h3, if_neg h4, if_neg h6, if_neg h9, if_neg hS]
  split
  · exact ⟨_, rfl⟩
  · exact ⟨_, rfl⟩

theorem length_timeInForceText (code : UInt8) : (timeInForceText code).length = 1 := by
  unfold timeInForceText
  split
  · rfl
  · rfl

theorem addTimeInForce_eq {code : UInt8} (h : code ∈ timeInForceCodes) :
    addTimeInForce code = .ok (FixField.text ⟨59, timeInForceText code⟩) := by
  have htag : IsTag ['5', '9', '='] 3 59 := ⟨rfl, rfl⟩
  rw [addTimeInForce, timeinforce_eq h]
  show addTag ['5', '9', '='] 3 (timeInForceText code) 1 = _
  rw [← length_timeInForceText code]
  exact addTag_all _ htag

/-- The symbol and the token lengths stay inside their arrays. -/
def OwnFields.SymbolFits (own : OwnFields) : Prop := own.realSymbolLen.toNat ≤ orderTextSize

def OwnFields.TokenFits (own : OwnFields) : Prop := own.realClOrdTokenLen.toNat ≤ orderTextSize

/-- A limit price has the digits that are printed behind the point, and the time
in force is one of the enumeration. -/
def TermsPrintable (order : Order) (own : OwnFields) : Prop :=
  (order.orderType = .limit → 1000 ≤ order.printedPrice.toNat) ∧
  own.timeInForce ∈ timeInForceCodes

/-- Everything a body is printed from lies inside its array. -/
def FIXRequest.Printable : FIXRequest → Prop
  | .newOrderSingle order own => own.SymbolFits ∧ TermsPrintable order own
  | .orderCancelRequest _ own => own.SymbolFits ∧ own.TokenFits
  | .orderCancelReplaceRequest order own =>
    own.SymbolFits ∧ own.TokenFits ∧ TermsPrintable order own
  | _ => True

/-- The fields from the quantity on. -/
def termsFields (order : Order) (own : OwnFields) : List FixField :=
  [⟨38, decimal order.quantity.toNat⟩, ⟨40, decimal order.orderType.code.toNat⟩] ++
  (if order.orderType = .limit then [⟨44, priceText 4 order.printedPrice.toNat⟩] else []) ++
  [⟨59, timeInForceText own.timeInForce⟩]

namespace BuilderFIX

variable (b : BuilderFIX)

/-- Symbol, side and time stamp, as in every order message. -/
def orderFields (order : Order) (own : OwnFields) : List FixField :=
  [⟨55, symbolText order own⟩, ⟨54, decimal order.side.code.toNat⟩,
    ⟨60, b.day.epochToTransactTime order.timestamp⟩]

def accountFields : List FixField := [⟨1, b.auth.account⟩, ⟨528, ascii ['A']⟩]

/-- The fields of the body. -/
def bodyFields : FIXRequest → List FixField
  | .logon reset =>
    [⟨98, ascii ['0']⟩] ++ (if reset then [⟨141, ascii ['Y']⟩] else []) ++
    [⟨108, heartbeatInterval⟩, ⟨553, b.auth.username⟩, ⟨554, b.auth.password⟩, ⟨1137, ascii ['9']⟩]
  | .logout => []
  | .heartbeat => []
  | .testRequest => [⟨112, decimal 1⟩]
  | .sequenceReset newSeq => [⟨123, ascii ['Y']⟩, ⟨36, decimal newSeq.toNat⟩]
  | .resendRequest beginSeq endSeq => [⟨7, decimal beginSeq.toNat⟩, ⟨16, decimal endSeq.toNat⟩]
  | .newOrderSingle order own =>
    [⟨11, tokenText own 13⟩] ++ b.accountFields ++ b.orderFields order own ++
      termsFields order own
  | .orderCancelRequest order own =>
    [⟨41, ascii ['N', 'O', 'N', 'E']⟩, ⟨37, decimal order.orderId.toUInt32.toNat⟩,
      ⟨11, tokenText own own.realClOrdTokenLen.toNat⟩] ++ b.orderFields order own ++
      [⟨38, decimal order.quantity.toNat⟩]
  | .orderCancelReplaceRequest order own =>
    [⟨37, decimal order.orderId.toUInt32.toNat⟩, ⟨41, ascii ['N', 'O', 'N', 'E']⟩,
      ⟨11, tokenText own own.realClOrdTokenLen.toNat⟩] ++ b.accountFields ++
      b.orderFields order own ++ termsFields order own

/-- The fields of the header, with `len` in the place of the body length. -/
def headerFields (len : ℕ) (type : FIXTypes) (now : ℕ) : List FixField :=
  [⟨8, ascii ['F', 'I', 'X', '.', '5', '.', '0']⟩, ⟨9, decimal len⟩, ⟨35, [type.code]⟩,
    ⟨49, b.auth.myId⟩, ⟨56, b.auth.venueId⟩, ⟨34, decimal b.sent.myNextSeqnum.toNat⟩,
    ⟨52, b.day.transactTime now⟩]

/-! ### The calls write the fields -/

/-- What a list of calls writes when none of them fails. -/
def texts (fs : List FixField) : List (Except Fault (List UInt8)) := fs.map fun f => .ok f.text

variable {b} {order : Order} {own : OwnFields}

theorem addSymbol_eq (h : own.SymbolFits) :
    addSymbol order own = .ok (FixField.text ⟨55, symbolText order own⟩) := by
  have hlen : own.realSymbolLen.toNat ≤ (charArray orderTextSize order.symbol).length := by
    rw [length_charArray]
    exact h
  exact addTag_eq ⟨rfl, rfl⟩ hlen

theorem addSymbol_error (h : ¬ own.SymbolFits) : addSymbol order own = .error .outOfBounds := by
  have hlen : (charArray orderTextSize order.symbol).length < own.realSymbolLen.toNat := by
    rw [length_charArray]
    exact Nat.not_le.mp h
  exact addTag_error (n := 55) ⟨rfl, rfl⟩ hlen

theorem addToken_eq {len : ℕ} (h : len ≤ orderTextSize) :
    addToken own len = .ok (FixField.text ⟨11, tokenText own len⟩) := by
  have hlen : len ≤ (charArray orderTextSize own.clientOrderToken).length := by
    rw [length_charArray]
    exact h
  exact addTag_eq ⟨rfl, rfl⟩ hlen

theorem addToken_error {len : ℕ} (h : ¬ len ≤ orderTextSize) :
    addToken own len = .error .outOfBounds := by
  have hlen : (charArray orderTextSize own.clientOrderToken).length < len := by
    rw [length_charArray]
    exact Nat.not_le.mp h
  exact addTag_error (n := 11) ⟨rfl, rfl⟩ hlen

theorem addSide_eq : addSide order = .ok (FixField.text ⟨54, decimal order.side.code.toNat⟩) := by
  rw [← UInt8.toNat_toUInt32 order.side.code]
  exact addTagInt_eq _ ⟨rfl, rfl⟩

theorem addOrderId_eq :
    addOrderId order = .ok (FixField.text ⟨37, decimal order.orderId.toUInt32.toNat⟩) :=
  addTagInt_eq _ ⟨rfl, rfl⟩

theorem addTimestamp_eq :
    b.addTimestamp order
      = .ok (FixField.text ⟨60, b.day.epochToTransactTime order.timestamp⟩) :=
  addTag_all _ ⟨rfl, rfl⟩

theorem addAccount_eq : b.addAccount = texts b.accountFields := by
  have h1 : addTag ['1', '='] 2 b.auth.account b.auth.account.length
      = .ok (FixField.text ⟨1, b.auth.account⟩) := addTag_all _ ⟨rfl, rfl⟩
  have h528 : addTag ['5', '2', '8', '='] 4 (ascii ['A']) 1
      = .ok (FixField.text ⟨528, ascii ['A']⟩) := addTag_all _ ⟨rfl, rfl⟩
  rw [addAccount, h1, h528]
  rfl

/-- A limit price is printable exactly when it has four digits. -/
theorem four_le_length_iff (num : ℕ) : 4 ≤ (decimal num).length ↔ 1000 ≤ num := by
  have h := length_decimal_le_iff num 2
  omega

theorem addQuantity_eq : addTagInt ['3', '8', '='] 3 order.quantity
    = .ok (FixField.text ⟨38, decimal order.quantity.toNat⟩) := addTagInt_eq _ ⟨rfl, rfl⟩

theorem addTerms_eq (h : TermsPrintable order own) :
    addTerms order own = texts (termsFields order own) := by
  have h40 : addTagInt ['4', '0', '='] 3 order.orderType.code
      = .ok (FixField.text ⟨40, decimal order.orderType.code.toNat⟩) := addTagInt_eq _ ⟨rfl, rfl⟩
  rw [addTerms, termsFields, addQuantity_eq, h40, addTimeInForce_eq h.2]
  by_cases hlimit : order.orderType = .limit
  · have h44 : addTagPrice 4 ['4', '4', '='] 3 order.price.toUInt64.toUInt32
        = .ok (FixField.text ⟨44, priceText 4 order.printedPrice.toNat⟩) :=
      addTagPrice_eq ⟨rfl, rfl⟩ ((four_le_length_iff _).mpr (h.1 hlimit))
    rw [if_pos hlimit, if_pos hlimit, h44]
    rfl
  · rw [if_neg hlimit, if_neg hlimit]
    rfl

theorem addTerms_error (h : ¬ TermsPrintable order own) : ∃ e, .error e ∈ addTerms order own := by
  by_cases htif : own.timeInForce ∈ timeInForceCodes
  · have hprice : ¬ (order.orderType = .limit → 1000 ≤ order.printedPrice.toNat) :=
      fun hp => h ⟨hp, htif⟩
    rw [Classical.not_imp] at hprice
    obtain ⟨hlimit, hlow⟩ := hprice
    have hshort := Nat.not_le.mp fun hle => hlow ((four_le_length_iff _).mp hle)
    have h44 : addTagPrice 4 ['4', '4', '='] 3 order.price.toUInt64.toUInt32
        = .error .outOfBounds := addTagPrice_error (n := 44) ⟨rfl, rfl⟩ hshort
    refine ⟨.outOfBounds, ?_⟩
    rw [addTerms, if_pos hlimit, h44]
    simp
  · obtain ⟨e, he⟩ := timeinforce_error htif
    refine ⟨e, ?_⟩
    have h59 : addTimeInForce own.timeInForce = .error e := by
      rw [addTimeInForce, he]
      rfl
    rw [addTerms, h59]
    simp

theorem addNone_eq : addTag ['4', '1', '='] 3 (ascii ['N', 'O', 'N', 'E']) 4
    = .ok (FixField.text ⟨41, ascii ['N', 'O', 'N', 'E']⟩) := addTag_all _ ⟨rfl, rfl⟩

theorem buildLogon_eq (reset : Bool) : b.buildLogon reset = texts (b.bodyFields (.logon reset)) := by
  have h98 : addTag ['9', '8', '='] 3 (ascii ['0']) 1 = .ok (FixField.text ⟨98, ascii ['0']⟩) :=
    addTag_all _ ⟨rfl, rfl⟩
  have h141 : addTag ['1', '4', '1', '='] 4 (ascii ['Y']) 1
      = .ok (FixField.text ⟨141, ascii ['Y']⟩) := addTag_all _ ⟨rfl, rfl⟩
  have h108 : addTag ['1', '0', '8', '='] 4 heartbeatInterval 2
      = .ok (FixField.text ⟨108, heartbeatInterval⟩) := addTag_all _ ⟨rfl, rfl⟩
  have h553 : addTag ['5', '5', '3', '='] 4 b.auth.username b.auth.username.length
      = .ok (FixField.text ⟨553, b.auth.username⟩) := addTag_all _ ⟨rfl, rfl⟩
  have h554 : addTag ['5', '5', '4', '='] 4 b.auth.password b.auth.password.length
      = .ok (FixField.text ⟨554, b.auth.password⟩) := addTag_all _ ⟨rfl, rfl⟩
  have h1137 : addTag ['1', '1', '3', '7', '='] 5 (ascii ['9']) 1
      = .ok (FixField.text ⟨1137, ascii ['9']⟩) := addTag_all _ ⟨rfl, rfl⟩
  rw [buildLogon, h98, h141, h108, h553, h554, h1137]
  cases reset with
  | false => rfl
  | true => rfl

/-- A printable body is the list of its fields. -/
theorem buildBody_eq {r : FIXRequest} (h : r.Printable) :
    b.buildBody r = texts (b.bodyFields r) := by
  cases r with
  | logon reset => exact buildLogon_eq reset
  | logout => rfl
  | heartbeat => rfl
  | testRequest =>
    have h112 : addTagInt ['1', '1', '2', '='] 4 1 = .ok (FixField.text ⟨112, decimal 1⟩) :=
      addTagInt_eq _ ⟨rfl, rfl⟩
    exact congrArg (fun f => [f]) h112
  | sequenceReset newSeq =>
    have h123 : addTag ['1', '2', '3', '='] 4 (ascii ['Y']) 1
        = .ok (FixField.text ⟨123, ascii ['Y']⟩) := addTag_all _ ⟨rfl, rfl⟩
    have h36 : addTagInt ['3', '6', '='] 3 newSeq
        = .ok (FixField.text ⟨36, decimal newSeq.toNat⟩) := addTagInt_eq _ ⟨rfl, rfl⟩
    show buildSequenceReset newSeq = _
    rw [buildSequenceReset, h123, h36]
    rfl
  | resendRequest beginSeq endSeq =>
    have h7 : addTagInt ['7', '='] 2 beginSeq
        = .ok (FixField.text ⟨7, decimal beginSeq.toNat⟩) := addTagInt_eq _ ⟨rfl, rfl⟩
    have h16 : addTagInt ['1', '6', '='] 3 endSeq
        = .ok (FixField.text ⟨16, decimal endSeq.toNat⟩) := addTagInt_eq _ ⟨rfl, rfl⟩
    show buildResendRequest beginSeq endSeq = _
    rw [buildResendRequest, h7, h16]
    rfl
  | newOrderSingle order own =>
    obtain ⟨hsym, hterms⟩ := h
    show b.buildNewOrderSingle order own = _
    rw [buildNewOrderSingle, addToken_eq (by decide), addAccount_eq, addSymbol_eq hsym,
      addSide_eq, addTimestamp_eq, addTerms_eq hterms]
    simp only [bodyFields, texts, List.map_append]
    rfl
  | orderCancelRequest order own =>
    obtain ⟨hsym, htok⟩ := h
    show b.buildCancelRequest order own = _
    rw [buildCancelRequest, addNone_eq, addOrderId_eq, addToken_eq htok, addSymbol_eq hsym,
      addSide_eq, addTimestamp_eq, addQuantity_eq]
    rfl
  | orderCancelReplaceRequest order own =>
    obtain ⟨hsym, htok, hterms⟩ := h
    show b.buildCancelReplaceRequest order own = _
    rw [buildCancelReplaceRequest, addOrderId_eq, addNone_eq, addToken_eq htok, addAccount_eq,
      addSymbol_eq hsym, addSide_eq, addTimestamp_eq, addTerms_eq hterms]
    simp only [bodyFields, texts, List.map_append]
    rfl

/-- A body that is not printable has a call that fails. -/
theorem buildBody_error {r : FIXRequest} (h : ¬ r.Printable) : ∃ e, .error e ∈ b.buildBody r := by
  cases r with
  | logon reset => exact absurd trivial h
  | logout => exact absurd trivial h
  | heartbeat => exact absurd trivial h
  | testRequest => exact absurd trivial h
  | sequenceReset newSeq => exact absurd trivial h
  | resendRequest beginSeq endSeq => exact absurd trivial h
  | newOrderSingle order own =>
    show ∃ e, .error e ∈ b.buildNewOrderSingle order own
    by_cases hsym : own.SymbolFits
    · obtain ⟨e, he⟩ := addTerms_error (fun hterms => h ⟨hsym, hterms⟩)
      exact ⟨e, List.mem_append_right _ he⟩
    · refine ⟨.outOfBounds, List.mem_append_left _ (List.mem_append_right _ ?_)⟩
      rw [addSymbol_error hsym]
      exact List.mem_cons_self
  | orderCancelRequest order own =>
    refine ⟨.outOfBounds, ?_⟩
    show _ ∈ b.buildCancelRequest order own
    by_cases hsym : own.SymbolFits
    · rw [buildCancelRequest, addToken_error (fun htok => h ⟨hsym, htok⟩)]
      simp
    · rw [buildCancelRequest, addSymbol_error hsym]
      simp
  | orderCancelReplaceRequest order own =>
    show ∃ e, .error e ∈ b.buildCancelReplaceRequest order own
    by_cases hsym : own.SymbolFits
    · by_cases htok : own.TokenFits
      · obtain ⟨e, he⟩ := addTerms_error (fun hterms => h ⟨hsym, htok, hterms⟩)
        exact ⟨e, List.mem_append_right _ he⟩
      · refine ⟨.outOfBounds, ?_⟩
        rw [buildCancelReplaceRequest, addToken_error htok]
        simp
    · refine ⟨.outOfBounds, List.mem_append_left _ (List.mem_append_right _ ?_)⟩
      rw [addSymbol_error hsym]
      exact List.mem_cons_self

theorem writeFields_buildBody {r : FIXRequest} (h : r.Printable) :
    writeFields (b.buildBody r) = .ok (fieldsText (b.bodyFields r)) := by
  rw [buildBody_eq h]
  exact writeFields_fields _

theorem writeFields_buildBody_error {r : FIXRequest} (h : ¬ r.Printable) :
    ∃ e, writeFields (b.buildBody r) = .error e := by
  obtain ⟨e, he⟩ := buildBody_error (b := b) h
  exact writeFields_error he

/-- The body length that `buildHeader` announces for `bodyLen` bytes of body. -/
def announcedLen (b : BuilderFIX) (bodyLen now : ℕ) : ℕ :=
  bodyLen + (1 + b.auth.myId.length + b.auth.venueId.length + digit b.sent.myNextSeqnum +
    (b.day.transactTime now).length + 20)

theorem buildHeader_eq (bodyLen : ℕ) (type : FIXTypes) (now : ℕ) :
    b.buildHeader bodyLen type now
      = .ok (fieldsText
          (b.headerFields (UInt32.ofNat (b.announcedLen bodyLen now)).toNat type now)) := by
  have h8 : addTag ['8', '='] 2 (ascii ['F', 'I', 'X', '.', '5', '.', '0', ' ']) 7
      = .ok (FixField.text ⟨8, ascii ['F', 'I', 'X', '.', '5', '.', '0']⟩) :=
    addTag_eq ⟨rfl, rfl⟩ (by decide)
  have h9 : addTagInt ['9', '='] 2 (UInt32.ofNat (b.announcedLen bodyLen now))
      = .ok (FixField.text ⟨9, decimal (UInt32.ofNat (b.announcedLen bodyLen now)).toNat⟩) :=
    addTagInt_eq _ ⟨rfl, rfl⟩
  have h35 : addTag ['3', '5', '='] 3 [type.code] 1 = .ok (FixField.text ⟨35, [type.code]⟩) :=
    addTag_all _ ⟨rfl, rfl⟩
  have h49 : addTag ['4', '9', '='] 3 b.auth.myId b.auth.myId.length
      = .ok (FixField.text ⟨49, b.auth.myId⟩) := addTag_all _ ⟨rfl, rfl⟩
  have h56 : addTag ['5', '6', '='] 3 b.auth.venueId b.auth.venueId.length
      = .ok (FixField.text ⟨56, b.auth.venueId⟩) := addTag_all _ ⟨rfl, rfl⟩
  have h34 : addTagInt ['3', '4', '='] 3 b.sent.myNextSeqnum
      = .ok (FixField.text ⟨34, decimal b.sent.myNextSeqnum.toNat⟩) := addTagInt_eq _ ⟨rfl, rfl⟩
  have h52 : addTag ['5', '2', '='] 3 (b.day.transactTime now) (b.day.transactTime now).length
      = .ok (FixField.text ⟨52, b.day.transactTime now⟩) := addTag_all _ ⟨rfl, rfl⟩
  show writeFields [addTag ['8', '='] 2 _ 7,
    addTagInt ['9', '='] 2 (UInt32.ofNat (b.announcedLen bodyLen now)),
    addTag ['3', '5', '='] 3 _ 1, addTag ['4', '9', '='] 3 _ _, addTag ['5', '6', '='] 3 _ _,
    addTagInt ['3', '4', '='] 3 _, addTag ['5', '2', '='] 3 _ _] = _
  rw [h8, h9, h35, h49, h56, h34, h52]
  exact writeFields_fields (b.headerFields _ type now)

end BuilderFIX

end TradingEngine
