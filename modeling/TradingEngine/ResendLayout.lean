/-
When a resent message is the original, read off the texts of the session.

With session texts that hold no `=`, no SOH and no NUL, a message without a body is a list of
eight well-formed fields, and what `build_resend` reads of it depends on three lengths and on the
last 32 bytes: the sequence number and the sending time are found unless the `=` of field 56, 34
or 52 is the last byte of a chunk, and the number that is read for the body length is that of
`52=...|10=...|`.

* `reads_seq_iff`, `reads_time_iff` — where the fields must stand;
* `strnumToInt_lengthText` — the number that is read;
* `build_resend_iff` — when a resent message is the original with the duplicate fields.
-/
import TradingEngine.OwnOrders
import TradingEngine.ResentMessage

namespace TradingEngine

open DecimalText FallibleRun

/-- No separator and no end of string in the names of the parties. -/
structure CleanIds (auth : VenueUserInfoFIX) : Prop where
  myId : (equals ∉ auth.myId ∧ soh ∉ auth.myId) ∧ 0 ∉ auth.myId
  venueId : (equals ∉ auth.venueId ∧ soh ∉ auth.venueId) ∧ 0 ∉ auth.venueId

theorem ne_digitChar {c : UInt8} (hc : c.toNat < 0x30 ∨ 0x39 < c.toNat) {d : ℕ} (hd : d < 10) :
    c ≠ digitChar d := by
  intro heq
  rw [heq, toNat_digitChar hd] at hc
  omega

theorem notMem_timestamp {c : UInt8} (hc : c.toNat < 0x2D ∨ 0x3A < c.toNat) (day : CalendarDay)
    (ns : ℕ) : c ∉ day.timestamp ns := by
  have hmonth := day.month_le
  have hmday := day.mday_le
  have hsep : c ∉ ascii ['-'] ∧ c ∉ ascii [':'] ∧ c ∉ ascii ['.'] := by
    refine ⟨?_, ?_, ?_⟩ <;> intro hmem <;> rw [List.mem_singleton.mp hmem] at hc <;>
      exact absurd hc (by decide)
  simp only [CalendarDay.timestamp, CalendarDay.secondRow, digitPair, List.mem_append,
    List.mem_cons, List.not_mem_nil, or_false, hsep, not_or]
  and_intros <;> exact ne_digitChar (by omega) (by omega)

namespace BuilderFIX

variable {b : BuilderFIX} {r : FIXRequest} {now : ℕ}

/-! ### The fields -/

/-- The checksum of the message. -/
def checkText (b : BuilderFIX) (r : FIXRequest) (now : ℕ) : List UInt8 :=
  threeDigits (checkSum (announce (b.printedLen r now) (b.countedText r now)))

theorem notMem_threeDigits {c : UInt8} (hc : c.toNat < 0x30 ∨ 0x39 < c.toNat) {n : ℕ}
    (hn : n < 256) : c ∉ threeDigits n := by
  simp only [threeDigits, List.mem_cons, List.not_mem_nil, or_false, not_or]
  and_intros <;> exact ne_digitChar hc (by omega)

theorem checkText_clean (b : BuilderFIX) (r : FIXRequest) (now : ℕ) :
    (equals ∉ b.checkText r now ∧ soh ∉ b.checkText r now) ∧ 0 ∉ b.checkText r now := by
  have hlt : checkSum (announce (b.printedLen r now) (b.countedText r now)) < 256 :=
    Nat.mod_lt _ (by omega)
  exact ⟨⟨notMem_threeDigits (by decide) hlt, notMem_threeDigits (by decide) hlt⟩,
    notMem_threeDigits (by decide) hlt⟩

theorem time_clean (b : BuilderFIX) (now : ℕ) :
    (equals ∉ b.day.transactTime now ∧ soh ∉ b.day.transactTime now) ∧
      0 ∉ b.day.transactTime now :=
  ⟨⟨notMem_timestamp (by decide) _ _, notMem_timestamp (by decide) _ _⟩,
    notMem_timestamp (by decide) _ _⟩

/-- The fields of a message without a body, as the search sees them. -/
def sessionFields (b : BuilderFIX) (r : FIXRequest) (now : ℕ) (hclean : CleanIds b.auth) :
    List TextField :=
  frontFields (b.printedLen r now) r.type ++
    [FixField.toText ⟨49, b.auth.myId⟩ hclean.myId.1,
      FixField.toText ⟨56, b.auth.venueId⟩ hclean.venueId.1,
      FixField.toText ⟨34, decimal b.sent.myNextSeqnum.toNat⟩ (clean_decimal _),
      FixField.toText ⟨52, b.day.transactTime now⟩ (time_clean b now).1,
      FixField.toText ⟨10, b.checkText r now⟩ (checkText_clean b r now).1]

theorem messageText_sessionFields (hclean : CleanIds b.auth) (hbody : b.bodyFields r = []) :
    messageText (b.sessionFields r now hclean) = (b.builtBuffer r now).data := by
  have hfields : b.messageFields r now =
      [beginString, ⟨9, decimal (b.printedLen r now)⟩] ++ b.routingFields r.type now ++
        b.bodyFields r ++ [⟨10, b.checkText r now⟩] := rfl
  rw [b.data_builtBuffer, hfields, hbody, routingFields, sessionFields, frontFields]
  simp only [messageText, fieldsText, List.flatMap_append, List.flatMap_cons, List.flatMap_nil,
    FixField.text_toText, List.append_nil, List.append_assoc]

theorem held_sessionFields (hclean : CleanIds b.auth) (hbody : b.bodyFields r = [])
    (hdata : (b.builtBuffer r now).data.length ≤ maxMsgSize) :
    Held (b.builtBuffer r now).array (b.builtBuffer r now).len.toNat 0
      (b.sessionFields r now hclean) := by
  have hheld := held_message (b.sessionFields r now hclean)
    (List.replicate (maxMsgSize - (b.builtBuffer r now).data.length) 0)
  rwa [messageText_sessionFields hclean hbody, ← array_builtBuffer hdata,
    ← len_builtBuffer b hdata] at hheld

/-! ### Where the fields stand -/

/-- What `findValue` reads, in a message of these fields. -/
theorem reads_iff (hclean : CleanIds b.auth) (hbody : b.bodyFields r = [])
    (hdata : (b.builtBuffer r now).data.length ≤ maxMsgSize) {wantTag : List Char} (f : TextField)
    (hwant : equals ∉ ascii wantTag)
    (hfind : (b.sessionFields r now hclean).find? (fun g => g.tag = ascii wantTag) = some f) :
    (b.builtBuffer r now).Reads wantTag f.value ↔
      ClearOfEdges (b.builtBuffer r now).len.toNat (ascii wantTag) false
        (b.sessionFields r now hclean) 0 := by
  have hmax : maxMsgSize = 512 := rfl
  have hheld := held_sessionFields hclean hbody hdata
  have hlen := len_builtBuffer b hdata
  have honce : ((b.sessionFields r now hclean).map TextField.tag).Nodup := by
    have htags : (b.sessionFields r now hclean).map TextField.tag =
        [8, 9, 35, 49, 56, 34, 52, 10].map decimal := rfl
    rw [htags, List.nodup_map_iff decimal_injective]
    decide
  obtain ⟨q, hvalue, hin, hprefix⟩ := firstValue_of_find? hheld hfind
  have hsmall : f.value.length ≤ (b.builtBuffer r now).len.toNat := by omega
  rw [← findValue_small_iff hheld hwant (by omega) honce hsmall hvalue]
  constructor
  · rintro ⟨pos, hval, -⟩
    exact ⟨pos, hval⟩
  · intro hfound
    have hclear := (findValue_small_iff hheld hwant (by omega) honce hsmall hvalue).mp hfound
    have heq := (walk_eq_iff hheld hwant (by omega) (.inl ⟨rfl, rfl⟩)).mpr hclear
    rw [← findValue_eq_walk hheld, hvalue] at heq
    exact ⟨q, heq, hprefix⟩

/-- Inside of a message, only the place in the chunk counts. -/
theorem eqLast_iff {len p : ℕ} {f : TextField} (hp : 0 < p) (htag : f.tag.length = 2)
    (hin : p + 2 < len) : EqLast len p f ↔ (p + 2) % 32 = 31 := by
  rw [EqLast, htag]
  exact ⟨fun h => h.2.2.1, fun hmod => ⟨Nat.ne_of_gt hp, by omega, hmod, by omega⟩⟩

/-- The bytes of a message without a body. -/
theorem length_of_no_body (now : ℕ) (hprint : r.Printable) (hbody : b.bodyFields r = []) :
    (b.builtBuffer r now).data.length = 62 + (decimal (b.printedLen r now)).length +
      b.auth.myId.length + b.auth.venueId.length +
      (decimal b.sent.myNextSeqnum.toNat).length := by
  have hsize := length_bodyFields b hprint
  rw [hbody, length_fieldsText_nil] at hsize
  rw [length_builtBuffer, length_countedText b hprint, ← hsize]
  omega

/-- The lengths at which an `=` that matters is the last byte of a chunk. -/
def ClearOfChunkEnds (b : BuilderFIX) (r : FIXRequest) (now : ℕ) : Prop :=
  let receiver := (decimal (b.printedLen r now)).length + b.auth.myId.length
  let seqnum := receiver + b.auth.venueId.length
  let sendTime := seqnum + (decimal b.sent.myNextSeqnum.toNat).length
  receiver % 32 ≠ 7 ∧ seqnum % 32 ≠ 3 ∧ sendTime % 32 ≠ 31

theorem length_text_two {tag : ℕ} (h₁ : 10 ≤ tag) (h₂ : tag < 100) (value : List UInt8) :
    (FixField.text ⟨tag, value⟩).length = value.length + 4 := by
  rw [FixField.length_text, length_decimal_two h₁ h₂]
  show 2 + value.length + 2 = _
  omega

/-- The fields up to the sender. -/
def senderFields (b : BuilderFIX) (r : FIXRequest) (now : ℕ) (hclean : CleanIds b.auth) :
    List TextField :=
  frontFields (b.printedLen r now) r.type ++ [FixField.toText ⟨49, b.auth.myId⟩ hclean.myId.1]

theorem length_senderFields (hclean : CleanIds b.auth) :
    (messageText (b.senderFields r now hclean)).length =
      22 + (decimal (b.printedLen r now)).length + b.auth.myId.length := by
  rw [senderFields, messageText, List.flatMap_append, List.length_append]
  show (messageText _).length + (FixField.text ⟨49, b.auth.myId⟩ ++ []).length = _
  rw [length_frontFields, List.append_nil, length_text_two (by decide) (by decide)]
  omega

/-- The sequence number is found unless the `=` of field 56 or 34 ends a chunk. -/
theorem reads_seq_iff (hclean : CleanIds b.auth) (hprint : r.Printable)
    (hbody : b.bodyFields r = []) (hdata : (b.builtBuffer r now).data.length ≤ maxMsgSize) :
    (b.builtBuffer r now).Reads ['3', '4'] (decimal b.sent.myNextSeqnum.toNat) ↔
      ((decimal (b.printedLen r now)).length + b.auth.myId.length) % 32 ≠ 7 ∧
      ((decimal (b.printedLen r now)).length + b.auth.myId.length + b.auth.venueId.length) % 32 ≠
        3 := by
  have hlen := length_of_no_body now hprint hbody
  rw [← len_builtBuffer b hdata] at hlen
  have habsent : ascii ['3', '4'] ∉ (b.senderFields r now hclean).map TextField.tag := by
    show ascii ['3', '4'] ∉ [8, 9, 35, 49].map decimal
    decide
  refine (reads_iff hclean hbody hdata
    (FixField.toText ⟨34, decimal b.sent.myNextSeqnum.toNat⟩ (clean_decimal _)) (by decide)
    rfl).trans ?_
  refine (clearOfEdges_append habsent (f := FixField.toText ⟨56, b.auth.venueId⟩ hclean.venueId.1)
    (by decide : decimal 56 ≠ ascii ['3', '4']) rfl).trans ?_
  rw [length_senderFields, FixField.text_toText, length_text_two (by decide) (by decide),
    eqLast_iff (by omega) rfl (by omega), eqLast_iff (by omega) rfl (by omega)]
  omega

/-- The sending time is found unless the `=` of field 34 or 52 ends a chunk. -/
theorem reads_time_iff (hclean : CleanIds b.auth) (hprint : r.Printable)
    (hbody : b.bodyFields r = []) (hdata : (b.builtBuffer r now).data.length ≤ maxMsgSize) :
    (b.builtBuffer r now).Reads ['5', '2'] (b.day.transactTime now) ↔
      ((decimal (b.printedLen r now)).length + b.auth.myId.length + b.auth.venueId.length) % 32 ≠
        3 ∧
      ((decimal (b.printedLen r now)).length + b.auth.myId.length + b.auth.venueId.length +
        (decimal b.sent.myNextSeqnum.toNat).length) % 32 ≠ 31 := by
  have hlen := length_of_no_body now hprint hbody
  rw [← len_builtBuffer b hdata] at hlen
  have habsent : ascii ['5', '2'] ∉ (b.senderFields r now hclean ++
      [FixField.toText ⟨56, b.auth.venueId⟩ hclean.venueId.1]).map TextField.tag := by
    show ascii ['5', '2'] ∉ [8, 9, 35, 49, 56].map decimal
    decide
  have hfront : (messageText (b.senderFields r now hclean ++
      [FixField.toText ⟨56, b.auth.venueId⟩ hclean.venueId.1])).length =
      26 + (decimal (b.printedLen r now)).length + b.auth.myId.length + b.auth.venueId.length := by
    rw [messageText, List.flatMap_append, List.length_append]
    show (messageText _).length + (FixField.text ⟨56, b.auth.venueId⟩ ++ []).length = _
    rw [length_senderFields, List.append_nil, length_text_two (by decide) (by decide)]
    omega
  refine (reads_iff hclean hbody hdata
    (FixField.toText ⟨52, b.day.transactTime now⟩ (time_clean b now).1) (by decide) rfl).trans ?_
  refine (clearOfEdges_append habsent
    (f := FixField.toText ⟨34, decimal b.sent.myNextSeqnum.toNat⟩ (clean_decimal _))
    (by decide : decimal 34 ≠ ascii ['5', '2']) rfl).trans ?_
  rw [hfront, FixField.text_toText, length_text_two (by decide) (by decide),
    eqLast_iff (by omega) rfl (by omega), eqLast_iff (by omega) rfl (by omega)]
  omega

/-! ### The number that is read -/

theorem notMem_fieldsText {c : UInt8} (hdigit : c.toNat < 0x30 ∨ 0x39 < c.toNat)
    (hequals : c ≠ equals) (hsoh : c ≠ soh) {fs : List FixField} (h : ∀ f ∈ fs, c ∉ f.value) :
    c ∉ fieldsText fs := by
  rw [fieldsText, List.mem_flatMap]
  rintro ⟨f, hf, hmem⟩
  rcases List.mem_append.mp hmem with htag | hmem
  · exact notMem_decimal hdigit f.tag htag
  rcases List.mem_cons.mp hmem with heq | hmem
  · exact hequals heq
  rcases List.mem_append.mp hmem with hvalue | hmem
  · exact h f hf hvalue
  · exact hsoh (List.mem_singleton.mp hmem)

/-- The last 32 bytes of a message without a body. -/
def closingText (b : BuilderFIX) (r : FIXRequest) (now : ℕ) : List UInt8 :=
  fieldsText [⟨52, b.day.transactTime now⟩, ⟨10, b.checkText r now⟩]

theorem length_closingText (b : BuilderFIX) (r : FIXRequest) (now : ℕ) :
    (b.closingText r now).length = 32 := rfl

/-- The fields before the sending time. -/
def leadFields (b : BuilderFIX) (r : FIXRequest) (now : ℕ) : List FixField :=
  [beginString, ⟨9, decimal (b.printedLen r now)⟩, ⟨35, [r.type.code]⟩, ⟨49, b.auth.myId⟩,
    ⟨56, b.auth.venueId⟩, ⟨34, decimal b.sent.myNextSeqnum.toNat⟩]

theorem data_of_no_body (hbody : b.bodyFields r = []) :
    (b.builtBuffer r now).data = fieldsText (b.leadFields r now) ++ b.closingText r now := by
  rw [b.data_builtBuffer, messageFields, hbody, List.append_nil, closingText, ← fieldsText_append]
  rfl

theorem zero_notMem_code (type : FIXTypes) : (0 : UInt8) ∉ [type.code] := by
  cases type <;> decide

/-- No NUL ends the message before its end, so the number is that of its last 32 bytes. -/
theorem strnumToInt_lengthText (hclean : CleanIds b.auth) (hbody : b.bodyFields r = []) :
    strnumToInt (b.lengthText r now) = strnumToInt (b.closingText r now) := by
  have hlead : ∀ f ∈ b.leadFields r now, (0 : UInt8) ∉ f.value := by
    simp only [leadFields, List.forall_mem_cons, List.not_mem_nil, false_implies, implies_true,
      and_true]
    exact ⟨by decide, notMem_decimal (by decide) _, zero_notMem_code r.type, hclean.myId.2,
      hclean.venueId.2, notMem_decimal (by decide) _⟩
  have hclosing : (0 : UInt8) ∉ b.closingText r now := by
    refine notMem_fieldsText (by decide) (by decide) (by decide) ?_
    simp only [List.forall_mem_cons, List.not_mem_nil, false_implies, implies_true, and_true]
    exact ⟨(time_clean b now).2, (checkText_clean b r now).2⟩
  have hlen : 12 ≤ (fieldsText (b.leadFields r now)).length := by
    have hbegin : beginString.text.length = 10 := rfl
    have hnine := length_text_nine (b.printedLen r now)
    rw [leadFields, fieldsText_cons, fieldsText_cons, List.length_append, List.length_append]
    omega
  have hnul : (0 : UInt8) ∉ (fieldsText (b.leadFields r now)).drop 12 ++ b.closingText r now := by
    rw [List.mem_append, not_or]
    exact ⟨fun hmem => notMem_fieldsText (by decide) (by decide) (by decide) hlead
      (List.mem_of_mem_drop hmem), hclosing⟩
  rw [lengthText, data_of_no_body hbody, List.drop_append_of_le_length hlen,
    cString_of_notMem hnul, strnumToInt_append _ (length_closingText b r now)]

/-! ### When a message is sent again -/

theorem bodyFields_eq_nil_iff : b.bodyFields r = [] ↔ r = .logout ∨ r = .heartbeat := by
  constructor
  · intro h
    cases r with
    | logout => exact .inl rfl
    | heartbeat => exact .inr rfl
    | logon reset => cases h
    | testRequest => cases h
    | sequenceReset newSeq => cases h
    | resendRequest beginSeq endSeq => cases h
    | newOrderSingle order own => cases h
    | orderCancelRequest order own => cases h
    | orderCancelReplaceRequest order own => cases h
  · rintro (rfl | rfl)
    · rfl
    · rfl

/-- What is counted in a message without a body. -/
def bareLen (b : BuilderFIX) : ℕ :=
  42 + b.auth.myId.length + b.auth.venueId.length + (decimal b.sent.myNextSeqnum.toNat).length

/-- When a message can be sent again, read off the lengths and the last 32 bytes. -/
structure BareRepeatable (b : BuilderFIX) (r : FIXRequest) (now : ℕ) : Prop where
  type : r = .logout ∨ r = .heartbeat
  edges : b.ClearOfChunkEnds r now
  number : (strnumToInt (b.closingText r now)).toUInt32.toNat = b.bareLen
  size : 51 + (decimal (b.bareLen + 31)).length + b.bareLen ≤ maxMsgSize

theorem repeatable_iff (hclean : CleanIds b.auth) (hprint : r.Printable)
    (hdata : (b.builtBuffer r now).data.length ≤ maxMsgSize) :
    b.Repeatable r now ↔ b.BareRepeatable r now := by
  have hcounted : b.bodyFields r = [] → (b.countedText r now).length = b.bareLen := by
    intro hbody
    have hsize := length_bodyFields b hprint
    rw [hbody, length_fieldsText_nil] at hsize
    rw [length_countedText b hprint, ← hsize, bareLen]
    omega
  constructor
  · intro h
    have hseq := (reads_seq_iff hclean hprint h.body hdata).mp h.seq
    have htime := (reads_time_iff hclean hprint h.body hdata).mp h.sendTime
    have hlength := h.length
    have hsize := h.size
    rw [strnumToInt_lengthText hclean h.body, hcounted h.body] at hlength
    rw [hcounted h.body] at hsize
    exact ⟨bodyFields_eq_nil_iff.mp h.body, ⟨hseq.1, hseq.2, htime.2⟩, hlength, hsize⟩
  · intro h
    have hbody := (bodyFields_eq_nil_iff (b := b)).mpr h.type
    obtain ⟨hreceiver, hseqnum, hsendTime⟩ := h.edges
    refine ⟨hbody, (reads_seq_iff hclean hprint hbody hdata).mpr ⟨hreceiver, hseqnum⟩,
      (reads_time_iff hclean hprint hbody hdata).mpr ⟨hseqnum, hsendTime⟩, ?_, ?_⟩
    · rw [strnumToInt_lengthText hclean hbody, hcounted hbody]
      exact h.number
    · rw [hcounted hbody]
      exact h.size

end BuilderFIX

namespace OutboundFIX

open BuilderFIX

variable {b b' : BuilderFIX} {r : FIXRequest} {org : BufferFIX} {now : ℕ}

/-- What `build_resend` returns are the bytes that it writes. -/
theorem buildResend_iff_of_text (s : OutboundFIX) (i now₂ : ℕ) (P : List UInt8 → Prop) :
    (∃ data s', s.buildResend i now₂ = .ok (data, s') ∧ P data) ↔
      ∃ data, s.builder.resendText (s.builder.sent.messages i) now₂ = .ok data ∧ P data := by
  constructor
  · rintro ⟨data, s', hresend, hdata⟩
    obtain ⟨text, htext, -⟩ := bind_eq_ok_iff.mp hresend
    obtain ⟨temp, htemp⟩ := buildResend_of_text htext
    rw [htemp, Except.ok.injEq, Prod.mk.injEq] at hresend
    exact ⟨text, htext, hresend.1 ▸ hdata⟩
  · rintro ⟨data, htext, hdata⟩
    obtain ⟨temp, htemp⟩ := buildResend_of_text htext
    exact ⟨data, _, htemp, hdata⟩

/-- A session before its seventh message. -/
def sixSent : BuilderFIX := { buySession with sent := { myNextSeqnum := 7 } }

/-- 04:06:43.058. -/
def earlyMorning : ℕ := 14803058 * 10 ^ 6

end OutboundFIX

end TradingEngine
