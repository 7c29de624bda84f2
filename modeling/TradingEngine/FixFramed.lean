/-
The framing of built FIX messages: body length, checksum and buffer length.

`Framed` says what a receiver expects of the bytes: `8=FIX.5.0`, a body length
that counts the bytes from `35=` up to the SOH before `10=`, a checksum over
everything before `10=`, and a buffer length that covers them all.

`build` computes the body length before the header exists, from the sizes of its
parts.  `digit` counts at most six digits of the sequence number while
`placeIntValue` prints all of them, so the two agree below a million
(`announcedLen_eq`) and differ from there on.  `build_framed_iff` is the exact
condition, with the sizes and values at which the builder leaves its arrays.
-/
import TradingEngine.FixFields

namespace TradingEngine

open DecimalText

/-! ### Framed messages -/

/-- The sum of the bytes modulo 256. -/
def checkSum (text : List UInt8) : ℕ := (text.map UInt8.toNat).sum % 256

/-- Three digits with leading zeros. -/
def threeDigits (n : ℕ) : List UInt8 :=
  [digitChar (n / 100), digitChar (n / 10 % 10), digitChar (n % 10)]

/-- The bytes before the body. -/
def beginString : FixField := ⟨8, ascii ['F', 'I', 'X', '.', '5', '.', '0']⟩

/-- A body behind a begin string and the body length `n`. -/
def announce (n : ℕ) (body : List UInt8) : List UInt8 :=
  fieldsText [beginString, ⟨9, decimal n⟩] ++ body

/-- The trailer for a text. -/
def trailer (text : List UInt8) : List UInt8 :=
  FixField.text ⟨10, threeDigits (checkSum text)⟩

/-- The buffer holds one message whose body length, checksum and length are right. -/
def Framed (buffer : BufferFIX) : Prop :=
  ∃ body : List UInt8,
    ascii ['3', '5', '='] <+: body ∧ [soh] <:+ body ∧
    buffer.data = announce body.length body ++ trailer (announce body.length body) ∧
    buffer.len.toNat = buffer.data.length

/-! ### The trailer -/

theorem foldl_toUInt32_mod (text : List UInt8) (sum : UInt32) :
    (text.foldl (fun s c => s + c.toUInt32) sum).toNat % 256
      = (sum.toNat + (text.map UInt8.toNat).sum) % 256 := by
  induction text generalizing sum with
  | nil => rfl
  | cons c text ih =>
    have hadd : (sum + c.toUInt32).toNat = (sum.toNat + c.toNat) % 2 ^ 32 := by
      rw [UInt32.toNat_add, UInt8.toNat_toUInt32]
    rw [List.foldl_cons, ih, hadd, List.map_cons, List.sum_cons]
    omega

theorem finalizeChecksum_eq (text : List UInt8) :
    BuilderFIX.finalizeChecksum text = trailer text := by
  have hsum : (text.foldl (fun s c => s + c.toUInt32) (0 : UInt32) % 256).toNat = checkSum text := by
    rw [UInt32.toNat_mod]
    exact (foldl_toUInt32_mod text 0).trans (by rw [UInt32.toNat_zero, Nat.zero_add]; rfl)
  have hdigit : checkSum text / 100 % 10 = checkSum text / 100 := by
    have hlt : checkSum text < 256 := Nat.mod_lt _ (by omega)
    omega
  unfold BuilderFIX.finalizeChecksum
  simp only [hsum, hdigit]
  rfl

theorem length_trailer (text : List UInt8) : (trailer text).length = 7 := rfl

/-! ### Reading the body length back -/

theorem soh_notMem_decimal (n : ℕ) : soh ∉ decimal n := by
  intro h
  obtain ⟨d, hd, heq⟩ := mem_decimal h
  have hnat := congrArg UInt8.toNat heq
  rw [toNat_digitChar hd] at hnat
  have hsoh : soh.toNat = 1 := rfl
  omega

/-- The announced length and the body can be told from the bytes. -/
theorem announce_inj {m n : ℕ} {body body' tail tail' : List UInt8}
    (htail : tail.length = tail'.length)
    (h : announce m body ++ tail = announce n body' ++ tail') : m = n ∧ body = body' := by
  have hshape : ∀ k (x y : List UInt8), announce k x ++ y
      = (beginString.text ++ [0x39, equals]) ++ (decimal k ++ soh :: (x ++ y)) := by
    intro k x y
    show (beginString.text ++ (([0x39] ++ equals :: (decimal k ++ [soh])) ++ []) ++ x) ++ y = _
    simp only [List.append_assoc, List.cons_append, List.nil_append]
  rw [hshape, hshape, List.append_cancel_left_eq] at h
  obtain ⟨hdec, hrest⟩ := append_delimiter_inj (soh_notMem_decimal m) (soh_notMem_decimal n) h
  exact ⟨decimal_injective hdec, (List.append_inj' hrest htail).1⟩

/-! ### The size of a message -/

theorem length_decimal_one {n : ℕ} (h : n < 10) : (decimal n).length = 1 := by
  rw [decimal_of_lt h]
  rfl

theorem length_decimal_two {n : ℕ} (h₁ : 10 ≤ n) (h₂ : n < 100) : (decimal n).length = 2 :=
  length_decimal_eq (k := 0) (by omega) (by omega)

theorem length_decimal_three {n : ℕ} (h₁ : 100 ≤ n) (h₂ : n < 1000) : (decimal n).length = 3 :=
  length_decimal_eq (k := 1) (by omega) (by omega)

theorem length_decimal_four {n : ℕ} (h₁ : 1000 ≤ n) (h₂ : n < 10000) : (decimal n).length = 4 :=
  length_decimal_eq (k := 2) (by omega) (by omega)

theorem length_symbolText {order : Order} {own : OwnFields} (h : own.SymbolFits) :
    (symbolText order own).length = own.realSymbolLen.toNat := by
  rw [symbolText, List.length_take, length_charArray]
  exact Nat.min_eq_left h

theorem length_tokenText {own : OwnFields} {len : ℕ} (h : len ≤ orderTextSize) :
    (tokenText own len).length = len := by
  rw [tokenText, List.length_take, length_charArray]
  exact Nat.min_eq_left h

/-- The bytes of the fields from the quantity on. -/
def termsSize (order : Order) : ℕ :=
  4 + (decimal order.quantity.toNat).length + 5 +
  (if order.orderType = .limit then 5 + (decimal order.printedPrice.toNat).length else 0) + 5

theorem ok_bind {α β : Type} (a : α) (f : α → Except Fault β) : (Except.ok a >>= f) = f a := rfl

namespace BuilderFIX

variable (b : BuilderFIX)

/-- The bytes of a body, counted on its argument. -/
def bodySize : FIXRequest → ℕ
  | .logon reset =>
    5 + (if reset then 6 else 0) + 7 + (5 + b.auth.username.length) +
      (5 + b.auth.password.length) + 7
  | .logout => 0
  | .heartbeat => 0
  | .testRequest => 6
  | .sequenceReset newSeq => 6 + (4 + (decimal newSeq.toNat).length)
  | .resendRequest beginSeq endSeq =>
    (3 + (decimal beginSeq.toNat).length) + (4 + (decimal endSeq.toNat).length)
  | .newOrderSingle order own =>
    17 + (3 + b.auth.account.length) + 6 + (4 + own.realSymbolLen.toNat) + 30 + termsSize order
  | .orderCancelRequest order own =>
    8 + (4 + (decimal order.orderId.toUInt32.toNat).length) +
      (4 + own.realClOrdTokenLen.toNat) + (4 + own.realSymbolLen.toNat) + 30 +
      (4 + (decimal order.quantity.toNat).length)
  | .orderCancelReplaceRequest order own =>
    (4 + (decimal order.orderId.toUInt32.toNat).length) + 8 +
      (4 + own.realClOrdTokenLen.toNat) + (3 + b.auth.account.length) + 6 +
      (4 + own.realSymbolLen.toNat) + 30 + termsSize order

theorem length_fieldsText_cons (f : FixField) (fs : List FixField) :
    (fieldsText (f :: fs)).length
      = (decimal f.tag).length + f.value.length + 2 + (fieldsText fs).length := by
  rw [fieldsText_cons, List.length_append, FixField.length_text]

theorem length_fieldsText_nil : (fieldsText []).length = 0 := rfl

theorem length_termsFields {order : Order} {own : OwnFields} (h : TermsPrintable order own) :
    (fieldsText (termsFields order own)).length = termsSize order := by
  have hcode : (decimal order.orderType.code.toNat).length = 1 := by
    cases order.orderType with
    | unknown => rfl
    | market => rfl
    | limit => rfl
  unfold termsFields termsSize
  by_cases hlimit : order.orderType = .limit
  · have hprice := length_priceText ((four_le_length_iff _).mpr (h.1 hlimit))
    rw [if_pos hlimit, if_pos hlimit]
    simp (disch := omega) only [List.cons_append, List.nil_append, length_fieldsText_cons, hcode,
      hprice, length_timeInForceText, length_decimal_two, length_fieldsText_nil]
    omega
  · rw [if_neg hlimit, if_neg hlimit]
    simp (disch := omega) only [List.cons_append, List.nil_append, length_fieldsText_cons, hcode,
      length_timeInForceText, length_decimal_two, length_fieldsText_nil]
    omega

theorem length_orderFields {order : Order} {own : OwnFields} (h : own.SymbolFits) :
    (fieldsText (b.orderFields order own)).length = 4 + own.realSymbolLen.toNat + 30 := by
  have hside : (decimal order.side.code.toNat).length = 1 := by
    cases order.side with
    | buy => rfl
    | sell => rfl
    | unknown => rfl
  have htime : (b.day.epochToTransactTime order.timestamp).length = 21 := rfl
  unfold orderFields
  simp (disch := omega) only [length_fieldsText_cons, length_symbolText h, hside, htime,
    length_decimal_two, length_fieldsText_nil]
  omega

theorem length_accountFields :
    (fieldsText b.accountFields).length = 3 + b.auth.account.length + 6 := by
  have hA : (ascii ['A']).length = 1 := rfl
  unfold accountFields
  simp (disch := omega) only [length_fieldsText_cons, hA, length_decimal_one,
    length_decimal_three, length_fieldsText_nil]
  omega

/-- `bodySize` counts the bytes of a printable body. -/
theorem length_bodyFields {r : FIXRequest} (h : r.Printable) :
    (fieldsText (b.bodyFields r)).length = b.bodySize r := by
  have hnone : (ascii ['N', 'O', 'N', 'E']).length = 4 := rfl
  cases r with
  | logon reset =>
    have hflag : (ascii ['0']).length = 1 ∧ (ascii ['Y']).length = 1 ∧ (ascii ['9']).length = 1 ∧
      heartbeatInterval.length = 2 := ⟨rfl, rfl, rfl, rfl⟩
    unfold bodyFields bodySize
    cases reset with
    | false =>
      simp (disch := omega) only [Bool.false_eq_true, if_false, List.append_nil, List.cons_append,
        List.nil_append, length_fieldsText_cons, hflag, length_decimal_two, length_decimal_three,
        length_decimal_four, length_fieldsText_nil]
      omega
    | true =>
      simp (disch := omega) only [if_true, List.cons_append,
        List.nil_append, length_fieldsText_cons, hflag, length_decimal_two, length_decimal_three,
        length_decimal_four, length_fieldsText_nil]
      omega
  | logout => rfl
  | heartbeat => rfl
  | testRequest => rfl
  | sequenceReset newSeq =>
    have hflag : (ascii ['Y']).length = 1 := rfl
    unfold bodyFields bodySize
    simp (disch := omega) only [length_fieldsText_cons, hflag, length_decimal_two,
      length_decimal_three, length_fieldsText_nil]
    omega
  | resendRequest beginSeq endSeq =>
    unfold bodyFields bodySize
    simp (disch := omega) only [length_fieldsText_cons, length_decimal_one, length_decimal_two,
      length_fieldsText_nil]
    omega
  | newOrderSingle order own =>
    -- only an order has fields of a length of its own: symbol, token and terms
    obtain ⟨hsym, hterms⟩ := h
    unfold bodyFields bodySize
    simp (disch := omega) only [fieldsText_append, List.length_append, length_fieldsText_cons,
      length_accountFields, length_orderFields b hsym, length_termsFields hterms,
      length_tokenText (by decide : 13 ≤ orderTextSize), length_decimal_two, length_fieldsText_nil]
    omega
  | orderCancelRequest order own =>
    obtain ⟨hsym, htok⟩ := h
    unfold bodyFields bodySize
    simp (disch := omega) only [fieldsText_append, List.length_append, length_fieldsText_cons,
      length_orderFields b hsym, length_tokenText htok, hnone, length_decimal_two,
      length_fieldsText_nil]
    omega
  | orderCancelReplaceRequest order own =>
    obtain ⟨hsym, htok, hterms⟩ := h
    unfold bodyFields bodySize
    simp (disch := omega) only [fieldsText_append, List.length_append, length_fieldsText_cons,
      length_accountFields, length_orderFields b hsym, length_termsFields hterms,
      length_tokenText htok, hnone, length_decimal_two, length_fieldsText_nil]
    omega

/-! ### What `build` returns -/

/-- The fields of the header that the body length counts. -/
def routingFields (type : FIXTypes) (now : ℕ) : List FixField :=
  [⟨35, [type.code]⟩, ⟨49, b.auth.myId⟩, ⟨56, b.auth.venueId⟩,
    ⟨34, decimal b.sent.myNextSeqnum.toNat⟩, ⟨52, b.day.transactTime now⟩]

/-- The bytes that the body length counts. -/
def countedText (r : FIXRequest) (now : ℕ) : List UInt8 :=
  fieldsText (b.routingFields r.type now) ++ fieldsText (b.bodyFields r)

theorem length_countedText {r : FIXRequest} (h : r.Printable) (now : ℕ) :
    (b.countedText r now).length
      = b.bodySize r + b.auth.myId.length + b.auth.venueId.length +
        (decimal b.sent.myNextSeqnum.toNat).length + 42 := by
  have htime : (b.day.transactTime now).length = 21 := rfl
  have hcode : [r.type.code].length = 1 := rfl
  unfold countedText routingFields
  simp (disch := omega) only [List.length_append, length_bodyFields b h, length_fieldsText_cons,
    htime, hcode, length_decimal_two, length_fieldsText_nil]
  omega

/-- The number printed as the body length. -/
def printedLen (r : FIXRequest) (now : ℕ) : ℕ :=
  (UInt32.ofNat (b.announcedLen (b.bodySize r) now)).toNat

/-- The buffer that `build` fills. -/
def builtBuffer (r : FIXRequest) (now : ℕ) : BufferFIX :=
  let text := announce (b.printedLen r now) (b.countedText r now)
  { data := text ++ trailer text
    hotdataStart := text.length
    len := UInt16.ofNat text.length + 7
    hotdataLen := UInt16.ofNat (b.bodySize r) }

theorem headerFields_eq (n : ℕ) (type : FIXTypes) (now : ℕ) :
    b.headerFields n type now = [beginString, ⟨9, decimal n⟩] ++ b.routingFields type now := rfl

/-- The builder once `build` has filed the buffer. -/
def afterBuild (r : FIXRequest) (now : ℕ) : BuilderFIX :=
  { b with sent :=
    { myNextSeqnum := b.sent.myNextSeqnum + 1
      messages := Function.update b.sent.messages b.sent.myNextSeqnum.toNat
        (b.builtBuffer r now) } }

theorem fileMessage_eq {r : FIXRequest} (now : ℕ) (hprint : r.Printable) :
    b.fileMessage (fieldsText (b.headerFields (b.printedLen r now) r.type now))
        (fieldsText (b.bodyFields r)) =
      if maxMsgSize < (b.builtBuffer r now).data.length then .error .outOfBounds
      else .ok (b.builtBuffer r now, b.afterBuild r now) := by
  have htext : fieldsText (b.headerFields (b.printedLen r now) r.type now) ++
      fieldsText (b.bodyFields r) = announce (b.printedLen r now) (b.countedText r now) := by
    rw [headerFields_eq, fieldsText_append, List.append_assoc]
    rfl
  unfold fileMessage
  simp only [htext, finalizeChecksum_eq, length_bodyFields b hprint]
  rfl

/-- `build` on a printable message. -/
theorem build_printable {r : FIXRequest} (now : ℕ)
    (hseq : b.sent.myNextSeqnum.toNat < dailyFixMsgCount) (hprint : r.Printable) :
    b.build r now =
      if maxBodySize < b.bodySize r then .error .outOfBounds
      else if maxMsgSize < (b.builtBuffer r now).data.length then .error .outOfBounds
      else .ok (b.builtBuffer r now, b.afterBuild r now) := by
  unfold build
  rw [if_neg (Nat.not_le.mpr hseq), writeFields_buildBody hprint, ok_bind,
    length_bodyFields b hprint, buildHeader_eq, ok_bind]
  by_cases hbody : maxBodySize < b.bodySize r
  · rw [if_pos hbody, if_pos hbody]
  · rw [if_neg hbody, if_neg hbody]
    exact fileMessage_eq b now hprint

/-- `build` on a message that is not printable, or beyond the history. -/
theorem build_error {r : FIXRequest} (now : ℕ)
    (h : ¬ (b.sent.myNextSeqnum.toNat < dailyFixMsgCount ∧ r.Printable)) :
    ∃ e, b.build r now = .error e := by
  unfold build
  by_cases hseq : dailyFixMsgCount ≤ b.sent.myNextSeqnum.toNat
  · exact ⟨.outOfBounds, if_pos hseq⟩
  · have hprint : ¬ r.Printable := fun hp => h ⟨Nat.not_le.mp hseq, hp⟩
    obtain ⟨e, he⟩ := writeFields_buildBody_error (b := b) hprint
    refine ⟨e, ?_⟩
    rw [if_neg hseq, he]
    rfl

/-- `build` returns a buffer exactly when the sequence number is in the history,
the message is printable and it fits into both arrays. -/
theorem build_ok_iff {r : FIXRequest} {now : ℕ} {buffer : BufferFIX} {b' : BuilderFIX} :
    b.build r now = .ok (buffer, b') ↔
      b.sent.myNextSeqnum.toNat < dailyFixMsgCount ∧ r.Printable ∧
      b.bodySize r ≤ maxBodySize ∧ (b.builtBuffer r now).data.length ≤ maxMsgSize ∧
      buffer = b.builtBuffer r now ∧ b' = b.afterBuild r now := by
  by_cases h : b.sent.myNextSeqnum.toNat < dailyFixMsgCount ∧ r.Printable
  · rw [build_printable b now h.1 h.2]
    by_cases hbody : maxBodySize < b.bodySize r
    · rw [if_pos hbody]
      refine ⟨fun heq => (by cases heq), fun hall => ?_⟩
      exact absurd hall.2.2.1 (Nat.not_le.mpr hbody)
    rw [if_neg hbody]
    by_cases hdata : maxMsgSize < (b.builtBuffer r now).data.length
    · rw [if_pos hdata]
      refine ⟨fun heq => (by cases heq), fun hall => ?_⟩
      exact absurd hall.2.2.2.1 (Nat.not_le.mpr hdata)
    rw [if_neg hdata]
    constructor
    · intro heq
      cases heq
      exact ⟨h.1, h.2, Nat.not_lt.mp hbody, Nat.not_lt.mp hdata, rfl, rfl⟩
    · rintro ⟨-, -, -, -, rfl, rfl⟩
      rfl
  · obtain ⟨e, he⟩ := build_error b now h
    rw [he]
    exact ⟨fun heq => (by cases heq), fun hall => absurd ⟨hall.1, hall.2.1⟩ h⟩

/-! ### The exact condition -/

/-- Below a million the announced length is the counted one; from there on it is
smaller. -/
theorem announcedLen_eq_iff {r : FIXRequest} (hprint : r.Printable) (now : ℕ) :
    b.announcedLen (b.bodySize r) now = (b.countedText r now).length ↔
      b.sent.myNextSeqnum.toNat < 1000000 := by
  have htime : (b.day.transactTime now).length = 21 := rfl
  rw [length_countedText b hprint, announcedLen, htime]
  by_cases hseq : b.sent.myNextSeqnum.toNat < 1000000
  · have hdigit := digit_eq hseq
    refine ⟨fun _ => hseq, fun _ => ?_⟩
    omega
  · have hdigit := digit_lt (Nat.not_lt.mp hseq)
    refine ⟨fun heq => ?_, fun hlt => absurd hlt hseq⟩
    omega

theorem length_announce (n : ℕ) (body : List UInt8) :
    (announce n body).length = 13 + (decimal n).length + body.length := by
  have hbegin : beginString.text.length = 10 := rfl
  rw [announce, List.length_append, fieldsText_cons, List.length_append, hbegin,
    length_fieldsText_cons, length_decimal_one (by decide : 9 < 10), length_fieldsText_nil]
  show 10 + (1 + (decimal n).length + 2 + 0) + body.length = _
  omega

theorem length_builtBuffer (r : FIXRequest) (now : ℕ) :
    (b.builtBuffer r now).data.length
      = 20 + (decimal (b.printedLen r now)).length + (b.countedText r now).length := by
  unfold builtBuffer
  rw [List.length_append, length_trailer, length_announce]
  omega

/-- What the body length counts starts with `35=`. -/
theorem prefix_countedText (r : FIXRequest) (now : ℕ) :
    ascii ['3', '5', '='] <+: b.countedText r now := by
  unfold countedText routingFields
  rw [fieldsText_cons, List.append_assoc]
  exact ⟨[r.type.code, soh] ++ _, rfl⟩

theorem soh_suffix_fieldsText {fs : List FixField} (h : fs ≠ []) : [soh] <:+ fieldsText fs := by
  obtain ⟨gs, f, rfl⟩ := List.eq_nil_or_concat fs |>.resolve_left h
  refine ⟨fieldsText gs ++ (decimal f.tag ++ equals :: f.value), ?_⟩
  rw [List.concat_eq_append, fieldsText_append, fieldsText_cons, FixField.text]
  simp only [List.append_assoc, List.cons_append]
  rfl

/-- It ends with the SOH before `10=`. -/
theorem soh_suffix_countedText (r : FIXRequest) (now : ℕ) : [soh] <:+ b.countedText r now := by
  rw [countedText, ← fieldsText_append]
  exact soh_suffix_fieldsText (List.append_ne_nil_of_left_ne_nil (List.cons_ne_nil _ _) _)

/-- The announced length is at most the counted one. -/
theorem announcedLen_le {r : FIXRequest} (hprint : r.Printable) (now : ℕ) :
    b.announcedLen (b.bodySize r) now ≤ (b.countedText r now).length := by
  have htime : (b.day.transactTime now).length = 21 := rfl
  have hdigit : digit b.sent.myNextSeqnum ≤ (decimal b.sent.myNextSeqnum.toNat).length := by
    by_cases hseq : b.sent.myNextSeqnum.toNat < 1000000
    · exact le_of_eq (digit_eq hseq)
    · exact le_of_lt (digit_lt (Nat.not_lt.mp hseq))
  rw [length_countedText b hprint, announcedLen, htime]
  omega

/-- The announced length survives the cast to `uint32_t`. -/
theorem printedLen_eq {r : FIXRequest} (hprint : r.Printable) {now : ℕ}
    (hsmall : (b.countedText r now).length < 2 ^ 32) :
    b.printedLen r now = b.announcedLen (b.bodySize r) now := by
  have hle := announcedLen_le b hprint now
  exact UInt32.toNat_ofNat_of_lt' (lt_of_le_of_lt hle hsmall)

/-- The bytes that a message may have besides its own fit into a buffer. -/
theorem length_builtBuffer_le {r : FIXRequest} (hprint : r.Printable) (now : ℕ)
    (hfit : b.bodySize r + b.auth.myId.length + b.auth.venueId.length +
      (decimal b.sent.myNextSeqnum.toNat).length ≤ 447) :
    (b.builtBuffer r now).data.length ≤ maxMsgSize := by
  have hmax : maxMsgSize = 512 := rfl
  have hcounted := length_countedText b hprint now
  have hle := announcedLen_le b hprint now
  have hdigits : (decimal (b.printedLen r now)).length ≤ 3 := by
    rw [printedLen_eq b hprint (by omega)]
    exact (length_decimal_le_iff _ 2).mpr (by omega)
  rw [length_builtBuffer]
  omega

/-- The length of a buffer that fits is that of its bytes. -/
theorem len_builtBuffer {r : FIXRequest} {now : ℕ}
    (hdata : (b.builtBuffer r now).data.length ≤ maxMsgSize) :
    (b.builtBuffer r now).len.toNat = (b.builtBuffer r now).data.length := by
  have hmax : maxMsgSize = 512 := rfl
  have htext := length_announce (b.printedLen r now) (b.countedText r now)
  rw [length_builtBuffer] at hdata ⊢
  show (UInt16.ofNat (announce _ _).length + 7).toNat = _
  rw [UInt16.toNat_add, UInt16.toNat_ofNat', htext]
  show (_ % 2 ^ 16 + 7) % 2 ^ 16 = _
  omega

/-- A buffer that fits is framed exactly when the printed length is right. -/
theorem framed_builtBuffer_iff {r : FIXRequest} {now : ℕ}
    (hdata : (b.builtBuffer r now).data.length ≤ maxMsgSize) :
    Framed (b.builtBuffer r now) ↔ b.printedLen r now = (b.countedText r now).length := by
  constructor
  · rintro ⟨body, -, -, hbytes, -⟩
    have hinj := announce_inj (length_trailer _) hbytes
    rw [hinj.1, hinj.2]
  · intro hlen
    refine ⟨b.countedText r now, prefix_countedText b r now, soh_suffix_countedText b r now, ?_,
      len_builtBuffer b hdata⟩
    rw [← hlen]
    rfl

/-- A built message is framed exactly when its sequence number is below a million,
provided that the builder stays inside its arrays: the fields of the order are
printable, the body has at most 256 bytes and the message at most 512. -/
theorem build_framed_iff (r : FIXRequest) (now : ℕ) :
    (∃ buffer b', b.build r now = .ok (buffer, b') ∧ Framed buffer) ↔
      b.sent.myNextSeqnum.toNat < 1000000 ∧ r.Printable ∧ b.bodySize r ≤ 256 ∧
      b.bodySize r + b.auth.myId.length + b.auth.venueId.length +
        (decimal b.sent.myNextSeqnum.toNat).length ≤ 447 := by
  have hmax : maxMsgSize = 512 ∧ maxBodySize = 256 ∧ dailyFixMsgCount = 1300000 :=
    ⟨rfl, rfl, rfl⟩
  constructor
  · rintro ⟨buffer, b', hbuild, hframed⟩
    obtain ⟨-, hprint, hbody, hdata, rfl, -⟩ := (build_ok_iff b).mp hbuild
    have hlen := (framed_builtBuffer_iff b hdata).mp hframed
    have hsize := length_builtBuffer b r now
    have hcounted := length_countedText b hprint now
    rw [printedLen_eq b hprint (by omega)] at hlen
    refine ⟨(announcedLen_eq_iff b hprint now).mp hlen, hprint, by omega, ?_⟩
    rw [printedLen_eq b hprint (by omega), hlen] at hsize
    -- a message of more than 489 counted bytes has a length of three digits
    have hthree : 100 ≤ (b.countedText r now).length → (b.countedText r now).length < 1000 →
      (decimal (b.countedText r now).length).length = 3 := length_decimal_three
    omega
  · rintro ⟨hseq, hprint, hbody, hfit⟩
    have hcounted := length_countedText b hprint now
    have hprinted : b.printedLen r now = (b.countedText r now).length := by
      rw [printedLen_eq b hprint (by omega)]
      exact (announcedLen_eq_iff b hprint now).mpr hseq
    have hdata := length_builtBuffer_le b hprint now hfit
    refine ⟨_, _, (build_ok_iff b).mpr ⟨by omega, hprint, by omega, hdata, rfl, rfl⟩, ?_⟩
    exact (framed_builtBuffer_iff b hdata).mpr hprinted

/-- The second of June 2025. -/
def secondOfJune : CalendarDay := { year := 2025, month := 6, mday := 2 }

/-- A session whose next message is the millionth. -/
def millionth : BuilderFIX where
  day := secondOfJune
  auth := { myId := ascii ['M', 'E'], venueId := ascii ['B', 'I'] }
  sent := { myNextSeqnum := 1000000 }

/-- The heartbeat number 1,000,000 announces a byte too few. -/
theorem millionth_heartbeat_not_framed :
    millionth.sent.myNextSeqnum.toNat < dailyFixMsgCount ∧
    ∃ buffer b', millionth.build .heartbeat 0 = .ok (buffer, b') ∧ ¬ Framed buffer := by
  have hprint : FIXRequest.heartbeat.Printable := trivial
  have hdata := length_builtBuffer_le millionth hprint 0 (by decide)
  have hsmall : (millionth.countedText .heartbeat 0).length < 2 ^ 32 := by
    have hmax : maxMsgSize = 512 := rfl
    rw [length_builtBuffer] at hdata
    omega
  have hwrong : ¬ Framed (millionth.builtBuffer .heartbeat 0) := by
    intro hframed
    have hlen := (framed_builtBuffer_iff millionth hdata).mp hframed
    rw [printedLen_eq millionth hprint hsmall] at hlen
    exact absurd ((announcedLen_eq_iff millionth hprint 0).mp hlen) (by decide)
  exact ⟨by decide, _, _,
    (build_ok_iff millionth).mpr ⟨by decide, hprint, by decide, hdata, rfl, rfl⟩, hwrong⟩

end BuilderFIX

end TradingEngine
