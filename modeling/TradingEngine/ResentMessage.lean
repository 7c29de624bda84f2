/-
What `build_resend` makes of a message that `build` returned.

Three things go wrong.  `build` sets `hotdata_start` behind the body, at the trailer, so the bytes
that are copied as the body are those of `10=`.  `findValue` misses fields when an `=` is the last
byte of a chunk.  And `strnum_to_int` is given a pointer for a `string_view`: it reads from the
body length to the end of the message, every byte as a digit, in an `int` that wraps around, so
that only the last 32 bytes count.

* `strnumToInt_append` — the number that is read for the body length;
* `value_nine`, `value_type` — the fields in the first chunk are found in every message;
* `bodyFields_eq_nil_of_copied` — what is copied is the body only if there is none;
* `sentAgain_iff` — when the original comes back with the duplicate fields.
-/
import TradingEngine.FixOrderText
import TradingEngine.FoundValues
import TradingEngine.ResendRange

namespace TradingEngine

open DecimalText FallibleRun

/-! ### The original with the duplicate fields -/

namespace BuilderFIX

variable (b : BuilderFIX)

/-- The fields that the body length of the duplicate counts, when the message was built at `now`
and is sent again with the time stamp `time`. -/
def duplicateFields (r : FIXRequest) (now : ℕ) (time : List UInt8) : List FixField :=
  [⟨35, [r.type.code]⟩, ⟨49, b.auth.myId⟩, ⟨56, b.auth.venueId⟩,
    ⟨34, decimal b.sent.myNextSeqnum.toNat⟩, ⟨43, ascii ['Y']⟩, ⟨122, b.day.transactTime now⟩,
    ⟨52, time⟩] ++ b.bodyFields r

/-- The bytes are those of the duplicate, with its body length and its checksum. -/
def SentAgain (r : FIXRequest) (now : ℕ) (time data : List UInt8) : Prop :=
  let text := fieldsText (b.duplicateFields r now time)
  data = announce text.length text ++ trailer (announce text.length text)

end BuilderFIX

/-! ### The number that is read -/

/-- A round of `strnum_to_int`. -/
def strnumStep (result : Int32) (c : UInt8) : Int32 := result * 10 + (c.toUInt32.toInt32 - 0x30)

theorem strnumToInt_eq_foldl (text : List UInt8) : strnumToInt text = text.foldl strnumStep 0 := rfl

theorem foldl_strnumStep (text : List UInt8) (result : Int32) :
    text.foldl strnumStep result = result * 10 ^ text.length + strnumToInt text := by
  induction text generalizing result with
  | nil =>
    rw [strnumToInt_eq_foldl]
    simp
  | cons c text ih =>
    rw [strnumToInt_eq_foldl, List.foldl_cons, List.foldl_cons, ih, ih (strnumStep 0 c),
      strnumStep, strnumStep, List.length_cons]
    grind

/-- The number depends on the last 32 characters: `10^32` is a multiple of `2^32`. -/
theorem strnumToInt_append (front : List UInt8) {text : List UInt8} (h : text.length = 32) :
    strnumToInt (front ++ text) = strnumToInt text := by
  have hzero : (10 : Int32) ^ 32 = 0 := by decide
  rw [strnumToInt_eq_foldl, List.foldl_append, foldl_strnumStep, h, hzero]
  grind

/-! ### The fields in the first chunk -/

/-- A field as the search sees it. -/
def FixField.toText (f : FixField) (h : equals ∉ f.value ∧ soh ∉ f.value) : TextField :=
  ⟨decimal f.tag, f.value, ⟨equals_notMem_decimal _, soh_notMem_decimal _⟩, h⟩

theorem FixField.text_toText (f : FixField) (h : equals ∉ f.value ∧ soh ∉ f.value) :
    (f.toText h).text = f.text := rfl

theorem firstValue_toText (tag : ℕ) (f : FixField) (h : equals ∉ f.value ∧ soh ∉ f.value)
    (fs : List TextField) (start : ℕ) :
    firstValue (decimal tag) (f.toText h :: fs) start =
      if f.tag = tag then some (start + (decimal f.tag).length + 1, f.value.length)
      else firstValue (decimal tag) fs (start + f.text.length) := by
  rw [firstValue, FixField.text_toText]
  show (if decimal f.tag = decimal tag then some (start + (decimal f.tag).length + 1, _) else _) = _
  by_cases heq : f.tag = tag
  · rw [if_pos heq, if_pos (congrArg decimal heq)]
    rfl
  · rw [if_neg heq, if_neg fun hdec => heq (decimal_injective hdec)]

theorem clean_decimal (n : ℕ) : equals ∉ decimal n ∧ soh ∉ decimal n :=
  ⟨equals_notMem_decimal n, soh_notMem_decimal n⟩

theorem clean_code (type : FIXTypes) : equals ∉ [type.code] ∧ soh ∉ [type.code] := by
  cases type <;> decide

/-- Begin string, body length and type. -/
def frontFields (n : ℕ) (type : FIXTypes) : List TextField :=
  [beginString.toText (by decide), FixField.toText ⟨9, decimal n⟩ (clean_decimal n),
    FixField.toText ⟨35, [type.code]⟩ (clean_code type)]

theorem messageText_frontFields (n : ℕ) (type : FIXTypes) :
    messageText (frontFields n type) =
      fieldsText [beginString, ⟨9, decimal n⟩, ⟨35, [type.code]⟩] := by
  rw [frontFields, messageText_cons, messageText_cons, messageText_cons, fieldsText_cons,
    fieldsText_cons, fieldsText_cons, FixField.text_toText, FixField.text_toText,
    FixField.text_toText]
  rfl

theorem length_text_nine (n : ℕ) :
    (FixField.text ⟨9, decimal n⟩).length = 3 + (decimal n).length := by
  rw [FixField.length_text, length_decimal_one (by decide : 9 < 10)]
  show 1 + (decimal n).length + 2 = _
  omega

theorem length_frontFields (n : ℕ) (type : FIXTypes) :
    (messageText (frontFields n type)).length = 18 + (decimal n).length := by
  have hbegin : beginString.text.length = 10 := rfl
  have htype : (FixField.text ⟨35, [type.code]⟩).length = 5 := rfl
  rw [messageText_frontFields, fieldsText_cons, fieldsText_cons, fieldsText_singleton,
    List.length_append, List.length_append, hbegin, length_text_nine, htype]
  omega

/-- Where the values of these fields stand. -/
theorem firstValue_frontFields (n : ℕ) (type : FIXTypes) :
    firstValue (decimal 9) (frontFields n type) 0 = some (12, (decimal n).length) ∧
    firstValue (decimal 35) (frontFields n type) 0 = some (16 + (decimal n).length, 1) := by
  have hbegin : beginString.text.length = 10 := rfl
  rw [frontFields, firstValue_toText, if_neg (by decide), firstValue_toText, if_pos rfl, hbegin]
  refine ⟨rfl, ?_⟩
  rw [firstValue_toText, if_neg (by decide), firstValue_toText, if_neg (by decide : (9 : ℕ) ≠ 35),
    firstValue_toText, if_pos rfl, hbegin, length_text_nine]
  congr 2
  show 0 + 10 + (3 + (decimal n).length) + 2 + 1 = _
  omega

theorem charArray_of_le {size : ℕ} {text : List UInt8} (h : text.length ≤ size) :
    charArray size text = text ++ List.replicate (size - text.length) 0 := by
  rw [charArray, List.take_append, List.take_of_length_le h, List.take_replicate,
    Nat.min_eq_left (Nat.sub_le _ _)]

namespace BuilderFIX

variable {b : BuilderFIX} {r : FIXRequest} {now : ℕ}

theorem array_builtBuffer (hdata : (b.builtBuffer r now).data.length ≤ maxMsgSize) :
    (b.builtBuffer r now).array = (b.builtBuffer r now).data ++
      List.replicate (maxMsgSize - (b.builtBuffer r now).data.length) 0 :=
  charArray_of_le hdata

/-- Every message begins with these fields. -/
theorem data_front (b : BuilderFIX) (r : FIXRequest) (now : ℕ) :
    ∃ rest, (b.builtBuffer r now).data = messageText (frontFields (b.printedLen r now) r.type) ++
      rest := by
  obtain ⟨fs, hsplit⟩ : ∃ fs, b.messageFields r now =
      [beginString, ⟨9, decimal (b.printedLen r now)⟩, ⟨35, [r.type.code]⟩] ++ fs := by
    rw [messageFields, routingFields]
    simp only [List.cons_append, List.nil_append]
    exact ⟨_, rfl⟩
  exact ⟨fieldsText fs, by
    rw [b.data_builtBuffer, hsplit, fieldsText_append, messageText_frontFields]⟩

/-- At least 42 bytes are counted, and the number that is printed for them is short. -/
theorem printedLen_bounds (hprint : r.Printable)
    (hdata : (b.builtBuffer r now).data.length ≤ maxMsgSize) :
    42 ≤ (b.countedText r now).length ∧ (decimal (b.printedLen r now)).length ≤ 3 := by
  have hmax : maxMsgSize = 512 := rfl
  have hcounted := length_countedText b hprint now
  have hbuilt := b.length_builtBuffer r now
  have hle := announcedLen_le b hprint now
  refine ⟨by omega, ?_⟩
  rw [printedLen_eq b hprint (by omega)]
  exact (length_decimal_le_iff _ 2).mpr (by omega)

/-- The first chunk of the message is searched whatever the rest is. -/
theorem value_front (hprint : r.Printable)
    (hdata : (b.builtBuffer r now).data.length ≤ maxMsgSize) {wantTag : List Char} {val : ℕ × ℕ}
    (hval : firstValue (ascii wantTag) (frontFields (b.printedLen r now) r.type) 0 = some val) :
    (b.builtBuffer r now).value wantTag = some val := by
  obtain ⟨rest, hrest⟩ := data_front b r now
  obtain ⟨hcounted, hdigits⟩ := printedLen_bounds hprint hdata
  have hbuilt := b.length_builtBuffer r now
  have hfront := length_frontFields (b.printedLen r now) r.type
  have hheld := held_message (frontFields (b.printedLen r now) r.type)
    (rest ++ List.replicate (maxMsgSize - (b.builtBuffer r now).data.length) 0)
  rw [← List.append_assoc, ← hrest, ← array_builtBuffer hdata] at hheld
  rw [BufferFIX.value, len_builtBuffer b hdata]
  exact findValue_of_front hheld (by omega) (by omega) hval

/-- The body length is found, at the 13th byte. -/
theorem value_nine (hprint : r.Printable)
    (hdata : (b.builtBuffer r now).data.length ≤ maxMsgSize) :
    (b.builtBuffer r now).value ['9'] = some (12, (decimal (b.printedLen r now)).length) :=
  value_front hprint hdata (firstValue_frontFields _ _).1

/-- The type is found. -/
theorem value_type (hprint : r.Printable)
    (hdata : (b.builtBuffer r now).data.length ≤ maxMsgSize) :
    (b.builtBuffer r now).value ['3', '5'] =
      some (16 + (decimal (b.printedLen r now)).length, 1) :=
  value_front hprint hdata (firstValue_frontFields _ _).2

/-- What the pointer to the type points at. -/
theorem take_type (hprint : r.Printable)
    (hdata : (b.builtBuffer r now).data.length ≤ maxMsgSize) :
    ((b.builtBuffer r now).behind ((b.builtBuffer r now).value ['3', '5'])).take 1 =
      [r.type.code] := by
  obtain ⟨rest, hrest⟩ := data_front b r now
  have hbegin : beginString.text.length = 10 := rfl
  have htype : FixField.text ⟨35, [r.type.code]⟩ =
      ascii ['3', '5', '='] ++ [r.type.code, soh] := rfl
  obtain ⟨front, hfront⟩ : ∃ front, front = beginString.text ++
      (FixField.text ⟨9, decimal (b.printedLen r now)⟩ ++ ascii ['3', '5', '=']) := ⟨_, rfl⟩
  have hlen : front.length = 16 + (decimal (b.printedLen r now)).length := by
    rw [hfront, List.length_append, List.length_append, hbegin, length_text_nine]
    show 10 + (3 + _ + 3) = _
    omega
  have harray : ∃ tail, (b.builtBuffer r now).array = front ++ r.type.code :: tail := by
    rw [array_builtBuffer hdata, hrest, messageText_frontFields, fieldsText_cons, fieldsText_cons,
      fieldsText_singleton, htype, hfront]
    simp only [List.append_assoc, List.cons_append]
    exact ⟨_, rfl⟩
  obtain ⟨tail, htail⟩ := harray
  rw [value_type hprint hdata, BufferFIX.behind, htail, ← hlen, List.drop_left]
  rfl

/-! ### The body length -/

theorem cString_append_zeros (text : List UInt8) (n : ℕ) :
    cString (text ++ List.replicate n 0) = cString text := by
  have hzeros : (List.replicate n (0 : UInt8)).takeWhile (· ≠ 0) = [] := by
    cases n with
    | zero => rfl
    | succ n => rfl
  rw [cString, List.takeWhile_append, hzeros, List.append_nil]
  split
  · rename_i hall
    exact ((List.takeWhile_prefix _).eq_of_length hall).symm
  · rfl

/-- What `strnum_to_int` reads: the message from its 13th byte on, up to a NUL. -/
def lengthText (b : BuilderFIX) (r : FIXRequest) (now : ℕ) : List UInt8 :=
  cString ((b.builtBuffer r now).data.drop 12)

theorem cString_array_drop (hdata : (b.builtBuffer r now).data.length ≤ maxMsgSize)
    (hlen : 12 ≤ (b.builtBuffer r now).data.length) :
    cString ((b.builtBuffer r now).array.drop 12) = b.lengthText r now := by
  rw [array_builtBuffer hdata, List.drop_append_of_le_length hlen, cString_append_zeros, lengthText]

theorem le_length_builtBuffer (b : BuilderFIX) (r : FIXRequest) (now : ℕ) :
    12 ≤ (b.builtBuffer r now).data.length := by
  rw [length_builtBuffer]
  omega

theorem bodyLenInt_eq (hprint : r.Printable)
    (hdata : (b.builtBuffer r now).data.length ≤ maxMsgSize) {orgLen : Int32}
    (h : (b.builtBuffer r now).bodyLenInt = .ok orgLen) :
    orgLen = strnumToInt (b.lengthText r now) := by
  rw [BufferFIX.bodyLenInt, value_nine hprint hdata] at h
  simp only [cString_array_drop hdata (le_length_builtBuffer b r now)] at h
  split at h
  · exact (Except.ok.inj h).symm
  · cases h

/-- Below 512 bytes there is a NUL behind the message. -/
theorem bodyLenInt_ok (hprint : r.Printable)
    (hdata : (b.builtBuffer r now).data.length < maxMsgSize) :
    (b.builtBuffer r now).bodyLenInt = .ok (strnumToInt (b.lengthText r now)) := by
  have hzero : (0 : UInt8) ∈ (b.builtBuffer r now).array.drop 12 := by
    rw [array_builtBuffer hdata.le,
      List.drop_append_of_le_length (le_length_builtBuffer b r now)]
    exact List.mem_append_right _ (List.mem_replicate.mpr ⟨by omega, rfl⟩)
  rw [BufferFIX.bodyLenInt, value_nine hprint hdata.le]
  simp only [cString_array_drop hdata.le (le_length_builtBuffer b r now)]
  rw [if_pos hzero]

/-! ### What is copied for the body -/

/-- `hotdata_start` points at the trailer. -/
theorem drop_hotdataStart (hdata : (b.builtBuffer r now).data.length ≤ maxMsgSize) :
    ∃ zeros, (b.builtBuffer r now).array.drop (b.builtBuffer r now).hotdataStart =
      trailer (announce (b.printedLen r now) (b.countedText r now)) ++ zeros := by
  refine ⟨List.replicate (maxMsgSize - (b.builtBuffer r now).data.length) 0, ?_⟩
  rw [array_builtBuffer hdata]
  show ((announce _ _ ++ trailer _) ++ _).drop (announce _ _).length = _
  rw [List.append_assoc, List.drop_left]

/-- No body begins with the tag of the checksum. -/
theorem tag_ne_ten {f : FixField} {fs : List FixField} (h : b.bodyFields r = f :: fs) :
    f.tag ≠ 10 := by
  have hhead : (b.bodyFields r).head?.map FixField.tag = some f.tag := by
    rw [h]
    rfl
  intro hten
  rw [hten] at hhead
  cases r with
  | logon reset => exact absurd (show some 98 = some 10 from hhead) (by decide)
  | logout => cases h
  | heartbeat => cases h
  | testRequest => exact absurd (show some 112 = some 10 from hhead) (by decide)
  | sequenceReset newSeq => exact absurd (show some 123 = some 10 from hhead) (by decide)
  | resendRequest beginSeq endSeq => exact absurd (show some 7 = some 10 from hhead) (by decide)
  | newOrderSingle order own => exact absurd (show some 11 = some 10 from hhead) (by decide)
  | orderCancelRequest order own => exact absurd (show some 41 = some 10 from hhead) (by decide)
  | orderCancelReplaceRequest order own =>
    exact absurd (show some 37 = some 10 from hhead) (by decide)

/-- A copy from the trailer on is the body only if there is no body. -/
theorem bodyFields_eq_nil_of_copied {text zeros : List UInt8}
    (h : (trailer text ++ zeros).take (fieldsText (b.bodyFields r)).length =
      fieldsText (b.bodyFields r)) : b.bodyFields r = [] := by
  cases hbody : b.bodyFields r with
  | nil => rfl
  | cons f fs =>
    exfalso
    have hten : trailer text ++ zeros = decimal 10 ++ equals ::
        (threeDigits (checkSum text) ++ soh :: zeros) := FixField.text_append _ _
    have hdecimal : (decimal 10).length = 2 := rfl
    rw [hbody, hten] at h
    obtain ⟨k, hk⟩ : ∃ k, (fieldsText (f :: fs)).length = (decimal 10).length + (k + 1) := by
      have hlen := length_fieldsText_cons f fs
      have hpos := List.length_pos_of_ne_nil (decimal_ne_nil f.tag)
      exact ⟨(fieldsText (f :: fs)).length - 3, by omega⟩
    rw [hk, List.take_length_add_append, List.take_succ_cons, fieldsText_cons, f.text_append] at h
    have htag := (append_delimiter_inj (equals_notMem_decimal 10) (equals_notMem_decimal f.tag) h).1
    exact tag_ne_ten hbody (decimal_injective htag).symm

end BuilderFIX

/-! ### Fields that are read back -/

namespace BufferFIX

variable {m : BufferFIX} {wantTag : List Char} {text : List UInt8}

/-- `findValue` finds the text under the tag, with its length. -/
def Reads (m : BufferFIX) (wantTag : List Char) (text : List UInt8) : Prop :=
  ∃ pos, m.value wantTag = some (pos, text.length) ∧ text <+: m.array.drop pos

/-- The value that is copied for a tag. -/
def copied (m : BufferFIX) (wantTag : List Char) : List UInt8 :=
  (m.behind (m.value wantTag)).take (m.value wantTag).len

theorem Reads.inside (h : m.Reads wantTag text) :
    (m.value wantTag).len ≤ (m.behind (m.value wantTag)).length := by
  obtain ⟨pos, hval, hprefix⟩ := h
  rw [hval]
  exact hprefix.length_le

theorem Reads.copied (h : m.Reads wantTag text) : m.copied wantTag = text := by
  obtain ⟨pos, hval, hprefix⟩ := h
  rw [BufferFIX.copied, hval]
  exact (List.prefix_iff_eq_take.mp hprefix).symm

/-- A text that is copied was read. -/
theorem reads_of_copied (hne : text ≠ [])
    (hin : (m.value wantTag).len ≤ (m.behind (m.value wantTag)).length)
    (h : m.copied wantTag = text) : m.Reads wantTag text := by
  rw [BufferFIX.copied] at h
  have hlen := List.length_take_of_le hin
  rw [h] at hlen
  cases hval : m.value wantTag with
  | none =>
    rw [hval] at h
    exact absurd h.symm hne
  | some val =>
    obtain ⟨pos, n⟩ := val
    rw [hval] at hlen h
    refine ⟨pos, ?_, ?_⟩
    · rw [hval, hlen]
      rfl
    · rw [← h]
      exact List.take_prefix _ _

/-- What is copied holds no SOH. -/
theorem soh_notMem_copied
    (hin : (m.value wantTag).len ≤ (m.behind (m.value wantTag)).length) :
    soh ∉ m.copied wantTag := by
  have hmax : maxMsgSize = 512 := rfl
  rw [BufferFIX.copied]
  cases hval : m.value wantTag with
  | none => exact List.not_mem_nil
  | some val =>
    obtain ⟨pos, n⟩ := val
    rw [hval] at hin
    have hsmall : n ≤ (m.array.drop pos).length := hin
    rw [List.length_drop, m.length_array] at hsmall
    rcases findValue_cut hval with hlarge | hclear
    · have hn : 2 ^ 63 ≤ n := hlarge
      omega
    · exact hclear

end BufferFIX

/-- The first field of a text can be told. -/
theorem text_append_inj {tag : ℕ} {v w rest rest' : List UInt8} (hv : soh ∉ v) (hw : soh ∉ w)
    (h : FixField.text ⟨tag, v⟩ ++ rest = FixField.text ⟨tag, w⟩ ++ rest') :
    v = w ∧ rest = rest' := by
  rw [FixField.text_append, FixField.text_append, List.append_cancel_left_eq] at h
  exact append_delimiter_inj hv hw (List.tail_eq_of_cons_eq h)

namespace BuilderFIX

variable {b b₂ : BuilderFIX} {r : FIXRequest} {now now₂ : ℕ}

/-- The bytes before the trailer, from their parts. -/
def duplicateText (b : BuilderFIX) (r : FIXRequest) (time : List UInt8) (n : ℕ)
    (seq send body : List UInt8) : List UInt8 :=
  fieldsText [beginString, ⟨9, decimal n⟩, ⟨35, [r.type.code]⟩, ⟨49, b.auth.myId⟩,
    ⟨56, b.auth.venueId⟩, ⟨34, seq⟩, ⟨43, ascii ['Y']⟩, ⟨122, send⟩, ⟨52, time⟩] ++ body

/-- The parts can be told from the bytes. -/
theorem duplicateText_inj_iff {time : List UInt8} {n n' : ℕ}
    {seq seq' send send' body body' : List UInt8} (hseq : soh ∉ seq) (hseq' : soh ∉ seq')
    (hsend : soh ∉ send) (hsend' : soh ∉ send') :
    b.duplicateText r time n seq send body = b.duplicateText r time n' seq' send' body' ↔
      n = n' ∧ seq = seq' ∧ send = send' ∧ body = body' := by
  constructor
  · intro h
    simp only [duplicateText, fieldsText_cons, List.append_assoc,
      List.append_cancel_left_eq] at h
    obtain ⟨hn, h⟩ := text_append_inj (soh_notMem_decimal n) (soh_notMem_decimal n') h
    simp only [List.append_cancel_left_eq] at h
    obtain ⟨hs, h⟩ := text_append_inj hseq hseq' h
    simp only [List.append_cancel_left_eq] at h
    obtain ⟨ht, h⟩ := text_append_inj hsend hsend' h
    simp only [List.append_cancel_left_eq] at h
    exact ⟨decimal_injective hn, hs, ht, h⟩
  · rintro ⟨rfl, rfl, rfl, rfl⟩
    rfl

theorem announce_duplicateFields (b : BuilderFIX) (r : FIXRequest) (now n : ℕ)
    (time : List UInt8) :
    announce n (fieldsText (b.duplicateFields r now time)) =
      b.duplicateText r time n (decimal b.sent.myNextSeqnum.toNat) (b.day.transactTime now)
        (fieldsText (b.bodyFields r)) := by
  rw [announce, duplicateFields, fieldsText_append, duplicateText, ← List.append_assoc,
    ← fieldsText_append]
  rfl

/-- The bytes that are written are the duplicate exactly when each part is right. -/
theorem sentAgain_resendBytes_iff (hauth : b₂.auth = b.auth) (hprint : r.Printable)
    (hdata : (b.builtBuffer r now).data.length ≤ maxMsgSize)
    (hfields : (b.builtBuffer r now).FieldsInside) (orgLen : Int32) :
    b.SentAgain r now (b₂.day.transactTime now₂)
        (b₂.resendBytes (b.builtBuffer r now) orgLen now₂) ↔
      (resendLen orgLen 21).toNat =
          (fieldsText (b.duplicateFields r now (b₂.day.transactTime now₂))).length ∧
        (b.builtBuffer r now).copied ['3', '4'] = decimal b.sent.myNextSeqnum.toNat ∧
        (b.builtBuffer r now).copied ['5', '2'] = b.day.transactTime now ∧
        ((b.builtBuffer r now).array.drop (b.builtBuffer r now).hotdataStart).take
          (b.builtBuffer r now).hotdataLen.toNat = fieldsText (b.bodyFields r) := by
  have hwritten : fieldsText (b₂.resendFields (b.builtBuffer r now) orgLen now₂) ++
      ((b.builtBuffer r now).array.drop (b.builtBuffer r now).hotdataStart).take
        (b.builtBuffer r now).hotdataLen.toNat =
      b.duplicateText r (b₂.day.transactTime now₂) (resendLen orgLen 21).toNat
        ((b.builtBuffer r now).copied ['3', '4']) ((b.builtBuffer r now).copied ['5', '2'])
        (((b.builtBuffer r now).array.drop (b.builtBuffer r now).hotdataStart).take
          (b.builtBuffer r now).hotdataLen.toNat) := by
    rw [resendFields, take_type hprint hdata, hauth]
    rfl
  have htime : soh ∉ b.day.transactTime now := soh_notMem_timestamp b.day now
  rw [resendBytes, SentAgain, announce_duplicateFields, hwritten,
    ← duplicateText_inj_iff (BufferFIX.soh_notMem_copied hfields.seq) (soh_notMem_decimal _)
      (BufferFIX.soh_notMem_copied hfields.sendTime) htime]
  constructor
  · intro h
    exact (List.append_inj' h (length_trailer _)).1
  · intro h
    rw [h]

/-- The duplicate counts 31 bytes more: `43=Y` and the second time stamp. -/
theorem length_duplicateFields (b : BuilderFIX) (r : FIXRequest) (now : ℕ) {time : List UInt8}
    (htime : time.length = 21) :
    (fieldsText (b.duplicateFields r now time)).length = (b.countedText r now).length + 31 := by
  have hnow : (b.day.transactTime now).length = 21 := rfl
  have hyes : (ascii ['Y']).length = 1 := rfl
  rw [duplicateFields, countedText, routingFields, fieldsText_append]
  simp (disch := omega) only [List.length_append, length_fieldsText_cons, length_fieldsText_nil,
    hnow, htime, hyes, length_decimal_two, length_decimal_three]
  omega

/-- The number that is printed is right when the number that was read is. -/
theorem toNat_resendLen_iff (orgLen : Int32) {n : ℕ} (hn : n ≤ 512) :
    (resendLen orgLen 21).toNat = n + 31 ↔ orgLen.toUInt32.toNat = n := by
  have hlt := orgLen.toUInt32.toNat_lt
  have hadd : (resendLen orgLen 21).toNat = (orgLen.toUInt32.toNat + 31) % 2 ^ 32 :=
    UInt32.toNat_add _ _
  rw [hadd]
  omega

/-- **When a message can be sent again.**  It has no body, `findValue` finds its sequence number
and its sending time, the number that `strnum_to_int` reads is its body length, and the duplicate
fits into a buffer. -/
structure Repeatable (b : BuilderFIX) (r : FIXRequest) (now : ℕ) : Prop where
  body : b.bodyFields r = []
  seq : (b.builtBuffer r now).Reads ['3', '4'] (decimal b.sent.myNextSeqnum.toNat)
  sendTime : (b.builtBuffer r now).Reads ['5', '2'] (b.day.transactTime now)
  length : (strnumToInt (b.lengthText r now)).toUInt32.toNat = (b.countedText r now).length
  size : 51 + (decimal ((b.countedText r now).length + 31)).length + (b.countedText r now).length ≤
    maxMsgSize

theorem toNat_hotdataLen (hsize : b.bodySize r ≤ maxBodySize) :
    (b.builtBuffer r now).hotdataLen.toNat = b.bodySize r := by
  have hmax : maxBodySize = 256 := rfl
  show (UInt16.ofNat (b.bodySize r)).toNat = _
  rw [UInt16.toNat_ofNat']
  exact Nat.mod_eq_of_lt (by omega)

/-- The size of the duplicate, when everything is found. -/
theorem resendSize_eq (hauth : b₂.auth = b.auth) (hprint : r.Printable)
    (hsize : b.bodySize r ≤ maxBodySize)
    (hdata : (b.builtBuffer r now).data.length ≤ maxMsgSize) {orgLen : Int32}
    (hseq : (b.builtBuffer r now).Reads ['3', '4'] (decimal b.sent.myNextSeqnum.toNat))
    (htime : (b.builtBuffer r now).Reads ['5', '2'] (b.day.transactTime now))
    (hlen : orgLen.toUInt32.toNat = (b.countedText r now).length) :
    b₂.resendSize (b.builtBuffer r now) orgLen =
      51 + (decimal ((b.countedText r now).length + 31)).length + (b.countedText r now).length := by
  have hmax : maxMsgSize = 512 := rfl
  have hbuilt := b.length_builtBuffer r now
  have hnow : (b.day.transactTime now).length = 21 := rfl
  obtain ⟨p, hp, -⟩ := hseq
  obtain ⟨q, hq, -⟩ := htime
  have hlen34 : ((b.builtBuffer r now).value ['3', '4']).len =
      (decimal b.sent.myNextSeqnum.toNat).length := by
    rw [hp]
    rfl
  have hlen52 : ((b.builtBuffer r now).value ['5', '2']).len = 21 := by
    rw [hq, hnow]
    rfl
  rw [resendSize, (toNat_resendLen_iff orgLen (by omega)).mpr hlen, hauth, hlen34, hlen52,
    toNat_hotdataLen hsize]
  have hcounted := length_countedText b hprint now
  omega

theorem fieldsInside_of_reads (hprint : r.Printable)
    (hdata : (b.builtBuffer r now).data.length ≤ maxMsgSize) {seq time : List UInt8}
    (hseq : (b.builtBuffer r now).Reads ['3', '4'] seq)
    (htime : (b.builtBuffer r now).Reads ['5', '2'] time) :
    (b.builtBuffer r now).FieldsInside := by
  refine ⟨?_, hseq.inside, htime.inside⟩
  have htype := congrArg List.length (take_type hprint hdata)
  rw [List.length_take] at htype
  exact le_trans (le_of_eq htype.symm) (Nat.min_le_right _ _)

/-- What is copied for the body, of any length. -/
theorem copied_body (hprint : r.Printable) (hsize : b.bodySize r ≤ maxBodySize)
    (hdata : (b.builtBuffer r now).data.length ≤ maxMsgSize) :
    ((b.builtBuffer r now).array.drop (b.builtBuffer r now).hotdataStart).take
      (b.builtBuffer r now).hotdataLen.toNat = fieldsText (b.bodyFields r) ↔
    b.bodyFields r = [] := by
  obtain ⟨zeros, hzeros⟩ := drop_hotdataStart hdata
  rw [hzeros, toNat_hotdataLen hsize, ← length_bodyFields b hprint]
  constructor
  · exact bodyFields_eq_nil_of_copied
  · intro hbody
    rw [hbody]
    rfl

theorem sentAgain_iff {org : BufferFIX} {b' : BuilderFIX} (now₂ : ℕ) (hauth : b₂.auth = b.auth)
    (hbuild : b.build r now = .ok (org, b')) :
    (∃ data, b₂.resendText org now₂ = .ok data ∧
        b.SentAgain r now (b₂.day.transactTime now₂) data) ↔ b.Repeatable r now := by
  have hmax : maxMsgSize = 512 := rfl
  obtain ⟨-, hprint, hsize, hdata, rfl, -⟩ := (b.build_ok_iff).mp hbuild
  have hbuilt := b.length_builtBuffer r now
  have htime : (b₂.day.transactTime now₂).length = 21 := rfl
  -- the new body length is right exactly if the old one was read right
  have hcount : ∀ orgLen, (resendLen orgLen 21).toNat =
      (fieldsText (b.duplicateFields r now (b₂.day.transactTime now₂))).length ↔
        orgLen.toUInt32.toNat = (b.countedText r now).length := by
    intro orgLen
    rw [length_duplicateFields b r now htime]
    exact toNat_resendLen_iff orgLen (by omega)
  constructor
  · rintro ⟨data, hdone, hagain⟩
    obtain ⟨orgLen, hlen, hfields, hfits, rfl⟩ := resendText_eq_ok hdone
    obtain ⟨hnumber, hseq, hsend, hbody⟩ :=
      (sentAgain_resendBytes_iff hauth hprint hdata hfields orgLen).mp hagain
    have hreadsSeq := BufferFIX.reads_of_copied (decimal_ne_nil _) hfields.seq hseq
    have hreadsTime := BufferFIX.reads_of_copied (List.cons_ne_nil _ _) hfields.sendTime hsend
    have hread := (hcount orgLen).mp hnumber
    rw [resendSize_eq hauth hprint hsize hdata hreadsSeq hreadsTime hread] at hfits
    rw [bodyLenInt_eq hprint hdata hlen] at hread
    exact ⟨(copied_body hprint hsize hdata).mp hbody, hreadsSeq, hreadsTime, hread, hfits⟩
  · intro h
    have hdigits := (printedLen_bounds hprint hdata).2
    have hsmall : (b.builtBuffer r now).data.length < maxMsgSize := by
      have hfits := h.size
      omega
    have hfields := fieldsInside_of_reads hprint hdata h.seq h.sendTime
    have hhot : (b.builtBuffer r now).hotdataLen.toNat ≤
        ((b.builtBuffer r now).array.drop (b.builtBuffer r now).hotdataStart).length := by
      rw [toNat_hotdataLen hsize, ← length_bodyFields b hprint, h.body]
      exact Nat.zero_le _
    refine ⟨_, ?_, (sentAgain_resendBytes_iff hauth hprint hdata hfields _).mpr
      ⟨(hcount _).mpr h.length, h.seq.copied, h.sendTime.copied,
        (copied_body hprint hsize hdata).mpr h.body⟩⟩
    rw [resendText_of_fields now₂ (bodyLenInt_ok hprint hsmall) hfields hhot,
      resendSize_eq hauth hprint hsize hdata h.seq h.sendTime h.length,
      if_neg (Nat.not_lt.mpr h.size)]

end BuilderFIX

end TradingEngine
