/-
Parsing FIX messages: `Parser_FIX::parse` and its table of tag handlers.

The scanner looks for `=` and then for SOH, reads the tag from the bytes before
`=` and calls the entry of the handler table with the bytes between the two.  The
memory it works on is a list of bytes that may go on behind the message; reads
behind the memory are faults.  The table has 512 entries, most of them null;
`tagHandlersWith` says what is found behind it, so that results can be stated for
whatever stands there.

* `parseLoop_fields` — on the text of a list of fields, the scanner calls the
  handlers of these fields in order;
* `parseLoop_skip` — whatever precedes it, a field whose text is preceded by SOH
  is left at its end.
-/
import TradingEngine.FixFields

namespace TradingEngine

open DecimalText

/-! ### Values -/

/-- `result * 10 + (c - '0')` in `uint64_t`, for a signed `char`. -/
def addDigit (result : UInt64) (c : UInt8) : UInt64 :=
  result * 10 + (c.toInt8.toInt64 - 0x30).toUInt64

/-- `parseNum`: the characters that are no digits are skipped. -/
def parseNum (text : List UInt8) : UInt64 :=
  text.foldl (fun result c => if isDigit c then addDigit result c else result) 0

/-- `parseChar`. -/
def parseChar : List UInt8 → Except Fault UInt8
  | [] => .error .outOfBounds
  | c :: _ => .ok c

/-- The table `pow10`. -/
def pow10 (n : ℕ) : UInt64 := UInt64.ofNat (10 ^ n)

/-- `'.'`. -/
def point : UInt8 := 0x2E

/-- `parsePrice<scale>`. -/
def parsePrice (scale : ℕ) (text : List UInt8) : UInt64 :=
  let result := (text.takeWhile (· ≠ point)).foldl addDigit 0
  match text.dropWhile (· ≠ point) with
  | [] => result * pow10 scale
  | _ :: rest =>
    let frac := rest.take scale
    frac.foldl addDigit result * pow10 (scale - frac.length)

/-- `FIXMessage::ID_SIZE`. -/
def fixIdSize : ℕ := 32

/-- `memcpy(field, val.data(), val_len); field[val_len] = '\0'`; what stood behind
stays. -/
def copyText (field val : List UInt8) : List UInt8 :=
  let text := val.take (fixIdSize - 1)
  text ++ 0 :: field.drop (text.length + 1)

/-! ### Tag handlers -/

/-- `TagHandlerFunc`. -/
abbrev TagHandler (μ : Type) := List UInt8 → μ → Except Fault μ

/-- The entry of a handler table: null or a handler. -/
abbrev HandlerLookup (μ : Type) := ℕ → Except Fault (Option (TagHandler μ))

/-- `MAX_TAG`. -/
def maxTag : ℕ := 512

/-- A handler that cannot fail. -/
def setField (set : List UInt8 → FIXMessage → FIXMessage) : TagHandler FIXMessage :=
  fun val msg => .ok (set val msg)

/-- A handler that stores the first character of the value. -/
def setChar (set : UInt8 → FIXMessage → FIXMessage) : TagHandler FIXMessage :=
  fun val msg => do
    let c ← parseChar val
    .ok (set c msg)

/-- The entries of `makeTagHandlersLookup`. -/
def tagHandlerEntries : List (ℕ × TagHandler FIXMessage) :=
  [(35, setChar fun c msg => { msg with msgType := c }),
    (34, setField fun val msg => { msg with seqnum := (parseNum val).toUInt32 }),
    (37, setField fun val msg => { msg with orderId := copyText msg.orderId val }),
    (11, setField fun val msg => { msg with clOrdId := copyText msg.clOrdId val }),
    (41, setField fun val msg => { msg with origClOrdId := copyText msg.origClOrdId val }),
    (17, setField fun val msg => { msg with execId := copyText msg.execId val }),
    (150, setChar fun c msg => { msg with execType := c }),
    (39, setChar fun c msg => { msg with ordStatus := c }),
    (55, setField fun val msg => { msg with symbol := copyText msg.symbol val }),
    (48, setField fun val msg => { msg with instrumentId := (parseNum val).toUInt32 }),
    (54, setField fun val msg => { msg with side := (parseNum val).toUInt8 }),
    (38, setField fun val msg => { msg with quantity := (parseNum val).toUInt32 }),
    (40, setChar fun c msg => { msg with ordType := c }),
    (44, setField fun val msg => { msg with price := (parsePrice 4 val).toInt64 }),
    (32, setField fun val msg => { msg with lastQty := (parseNum val).toUInt32 }),
    (31, setField fun val msg => { msg with lastPrice := (parsePrice 4 val).toInt64 }),
    (59, setChar fun c msg => { msg with timeInForce := c }),
    (151, setField fun val msg => { msg with leavesQty := (parseNum val).toUInt32 }),
    (14, setField fun val msg => { msg with filledQty := (parseNum val).toUInt32 }),
    (60, setField fun val msg => { msg with transactTime := (parseNum val).toUInt32 }),
    (434, setField fun val msg => { msg with cxlRejResponseTo := (parseNum val).toUInt8 }),
    (102, setField fun val msg => { msg with cxlRejReason := (parseNum val).toUInt8 })]

/-- `tagHandlers[tag]`, when `beyond` is what stands behind the array. -/
def tagHandlersWith (beyond : HandlerLookup FIXMessage) : HandlerLookup FIXMessage :=
  fun tag => if tag < maxTag then .ok (tagHandlerEntries.lookup tag) else beyond tag

/-- `tagHandlers[tag]`; an index behind the array is a fault. -/
def tagHandlers : HandlerLookup FIXMessage := tagHandlersWith fun _ => .error .outOfBounds

/-! ### `parse` -/

/-- `if (handler) handler(value, msg)`. -/
def applyHandler {μ : Type} (handlers : HandlerLookup μ) (tag : ℕ) (value : List UInt8) (msg : μ) :
    Except Fault μ := do
  let handler ← handlers tag
  match handler with
  | none => .ok msg
  | some h => h value msg

/-- The bytes of the memory from `start` up to `stop`. -/
def bytesBetween (mem : List UInt8) (start stop : ℕ) : List UInt8 :=
  (mem.drop start).take (stop - start)

/-- `while (data[pos] != '=' && pos < len) ++pos`; at `len` the byte is read, too. -/
def seekEquals (mem : List UInt8) (len pos : ℕ) : Except Fault ℕ :=
  let eqPos := pos + ((mem.drop pos).takeWhile (· ≠ equals)).length
  if eqPos < len then .ok eqPos
  else if len < mem.length then .ok len
  else .error .outOfBounds

/-- `while (data[pos] != '\x01') ++pos`. -/
def seekSoh (mem : List UInt8) (pos : ℕ) : Except Fault ℕ :=
  let sohPos := pos + ((mem.drop pos).takeWhile (· ≠ soh)).length
  if sohPos < mem.length then .ok sohPos else .error .outOfBounds

/-- The positions of `=` and of the byte from which SOH is sought, and the bytes
of the tag.  Without `=` up to the end, the source takes the last seven bytes for
the checksum field. -/
def locateField (mem : List UInt8) (len pos eqPos : ℕ) : Except Fault (ℕ × ℕ × List UInt8) :=
  if eqPos = len then
    if len < 7 then .error .outOfBounds
    else .ok (len - 5, len - 1, bytesBetween mem (len - 7) (len - 5))
  else .ok (eqPos, eqPos + 1, bytesBetween mem pos eqPos)

/-- The body of the loop: the position behind the field, and the message. -/
def parseField {μ : Type} (handlers : HandlerLookup μ) (mem : List UInt8) (len pos : ℕ) (msg : μ) :
    Except Fault (ℕ × μ) := do
  let found ← seekEquals mem len pos
  let (eqPos, sohStart, tag) ← locateField mem len pos found
  let sohPos ← seekSoh mem sohStart
  let msg' ← applyHandler handlers (parseNum tag).toNat (bytesBetween mem (eqPos + 1) sohPos) msg
  .ok (sohPos + 1, msg')

/-- The loop `while (pos < len)`, for at most `fuel` rounds. -/
def parseLoop {μ : Type} (handlers : HandlerLookup μ) (mem : List UInt8) (len : ℕ) :
    ℕ → ℕ → μ → Except Fault μ
  | 0, _, _ => .error .nonTermination
  | fuel + 1, pos, msg =>
    if pos < len then do
      let r ← parseField handlers mem len pos msg
      parseLoop handlers mem len fuel r.1 r.2
    else .ok msg

/-- `parse<T>` into the slot `msg`; every round moves the position on. -/
def parse {μ : Type} (handlers : HandlerLookup μ) (mem : List UInt8) (len : ℕ) (msg : μ) :
    Except Fault μ :=
  parseLoop handlers mem len (len + 1) 0 msg

/-- The handlers of a list of fields, one after the other. -/
def applyFields {μ : Type} (handlers : HandlerLookup μ) : List FixField → μ → Except Fault μ
  | [], msg => .ok msg
  | f :: fs, msg => do
    let msg' ← applyHandler handlers f.tag f.value msg
    applyFields handlers fs msg'

/-! ### Numbers read back -/

theorem isDigit_digitChar {d : ℕ} (h : d < 10) : isDigit (digitChar d) = true := by
  have hnat := toNat_digitChar h
  rw [isDigit, Bool.and_eq_true, decide_eq_true_iff, decide_eq_true_iff, UInt8.le_iff_toNat_le,
    UInt8.le_iff_toNat_le, hnat]
  exact ⟨Nat.le_add_right _ _, show 0x30 + d ≤ 0x39 by omega⟩

theorem addDigit_digitChar {d : ℕ} (h : d < 10) (result : UInt64) :
    (addDigit result (digitChar d)).toNat = (result.toNat * 10 + d) % 2 ^ 64 := by
  have hdigit : ((digitChar d).toInt8.toInt64 - 0x30).toUInt64 = UInt64.ofNat d := by
    interval_cases d <;> rfl
  rw [addDigit, hdigit, UInt64.toNat_add, UInt64.toNat_mul, UInt64.toNat_ofNat']
  show (result.toNat * 10 % 2 ^ 64 + d % 2 ^ 64) % 2 ^ 64 = _
  omega

/-- A text of digits. -/
def IsDigits (text : List UInt8) : Prop := ∀ c ∈ text, ∃ d < 10, c = digitChar d

theorem isDigits_decimal (n : ℕ) : IsDigits (decimal n) := fun _ hc => mem_decimal hc

/-- The digits of a text are read as `readDecimal` does, modulo `2 ^ 64`. -/
theorem foldl_addDigit {text : List UInt8} (h : IsDigits text) (result : UInt64) :
    (text.foldl addDigit result).toNat = readDecimal result.toNat text % 2 ^ 64 := by
  induction text generalizing result with
  | nil => exact (Nat.mod_eq_of_lt result.toNat_lt).symm
  | cons c text ih =>
    obtain ⟨d, hd, rfl⟩ := h c List.mem_cons_self
    have htext : IsDigits text := fun c hc => h c (List.mem_cons_of_mem _ hc)
    rw [List.foldl_cons, ih htext, addDigit_digitChar hd, readDecimal_mod]
    show _ = readDecimal (result.toNat * 10 + digitValue (digitChar d)) text % 2 ^ 64
    rw [digitValue_digitChar hd]

theorem parseNum_eq_foldl {text : List UInt8} (h : IsDigits text) :
    parseNum text = text.foldl addDigit 0 := by
  refine List.foldl_ext _ _ _ ?_
  intro result c hc
  obtain ⟨d, hd, rfl⟩ := h c hc
  rw [if_pos (isDigit_digitChar hd)]

/-- `parseNum` inverts the integer printer. -/
theorem toNat_parseNum_decimal {n : ℕ} (h : n < 2 ^ 64) : (parseNum (decimal n)).toNat = n := by
  rw [parseNum_eq_foldl (isDigits_decimal n), foldl_addDigit (isDigits_decimal n)]
  show readDecimal 0 (decimal n) % 2 ^ 64 = n
  rw [readDecimal_decimal, Nat.mod_eq_of_lt h]

theorem notMem_decimal {c : UInt8} (h : c.toNat < 0x30 ∨ 0x39 < c.toNat) (n : ℕ) :
    c ∉ decimal n := by
  intro hc
  obtain ⟨d, hd, rfl⟩ := mem_decimal hc
  rw [toNat_digitChar hd] at h
  omega

/-- `parsePrice` inverts the price printer. -/
theorem toNat_parsePrice_priceText {scale num : ℕ} (hscale : scale ≤ (decimal num).length)
    (hnum : num < 2 ^ 64) : (parsePrice scale (priceText scale num)).toNat = num := by
  have hpoint : point ∉ (decimal num).take ((decimal num).length - scale) := fun h =>
    notMem_decimal (Or.inl (by decide)) num (List.mem_of_mem_take h)
  have hfrac : (decimal num).drop ((decimal num).length - scale) =
      ((decimal num).drop ((decimal num).length - scale)).take scale := by
    rw [List.take_of_length_le (by rw [List.length_drop]; omega)]
  have htext : priceText scale num = (decimal num).take ((decimal num).length - scale) ++
      point :: (decimal num).drop ((decimal num).length - scale) := by
    rw [priceText, List.append_assoc]
    rfl
  have hint := takeWhile_ne_append_cons hpoint
    ((decimal num).drop ((decimal num).length - scale))
  have hrest := dropWhile_ne_append_cons hpoint
    ((decimal num).drop ((decimal num).length - scale))
  have hlen : scale - ((decimal num).drop ((decimal num).length - scale)).length = 0 := by
    rw [List.length_drop]
    omega
  rw [htext]
  unfold parsePrice
  simp only [hint, hrest]
  rw [← hfrac, ← List.foldl_append, List.take_append_drop, hlen]
  show (_ * 1 : UInt64).toNat = num
  rw [UInt64.mul_one, ← parseNum_eq_foldl (isDigits_decimal num), toNat_parseNum_decimal hnum]

/-! ### The scanner -/

section Scanner

variable {μ : Type} {handlers : HandlerLookup μ} {mem : List UInt8} {len : ℕ}

/-- The scanner on a field: `tag` is all that stands before `=`, `value` all that
stands before SOH. -/
theorem parseField_eq {pos : ℕ} {tag value rest : List UInt8} (msg : μ)
    (hmem : mem.drop pos = tag ++ equals :: (value ++ soh :: rest)) (htag : equals ∉ tag)
    (hvalue : soh ∉ value) (hlen : pos + tag.length + value.length + 2 ≤ len)
    (hfits : len ≤ mem.length) :
    parseField handlers mem len pos msg =
      (do
        let msg' ← applyHandler handlers (parseNum tag).toNat value msg
        .ok (pos + tag.length + value.length + 2, msg')) := by
  have hafter : mem.drop (pos + tag.length + 1) = value ++ soh :: rest := by
    rw [Nat.add_assoc, ← List.drop_drop, hmem, ← List.drop_drop, List.drop_left]
    rfl
  have heq : seekEquals mem len pos = .ok (pos + tag.length) := by
    unfold seekEquals
    rw [hmem, takeWhile_ne_append_cons htag]
    exact if_pos (by omega)
  have hlocate : locateField mem len pos (pos + tag.length)
      = .ok (pos + tag.length, pos + tag.length + 1, tag) := by
    unfold locateField
    rw [if_neg (by omega), bytesBetween, hmem, Nat.add_sub_cancel_left, List.take_left]
  have hsoh : seekSoh mem (pos + tag.length + 1) = .ok (pos + tag.length + 1 + value.length) := by
    unfold seekSoh
    rw [hafter, takeWhile_ne_append_cons hvalue]
    exact if_pos (by omega)
  have hval : bytesBetween mem (pos + tag.length + 1) (pos + tag.length + 1 + value.length)
      = value := by
    rw [bytesBetween, hafter, Nat.add_sub_cancel_left, List.take_left]
  have hnext : pos + tag.length + 1 + value.length + 1 = pos + tag.length + value.length + 2 := by
    omega
  -- the four steps of the scanner, each from where the one before it stopped
  unfold parseField
  rw [heq]
  show (do
    let (eqPos, sohStart, tag) ← locateField mem len pos (pos + tag.length)
    let sohPos ← seekSoh mem sohStart
    let msg' ← applyHandler handlers (parseNum tag).toNat (bytesBetween mem (eqPos + 1) sohPos) msg
    Except.ok (sohPos + 1, msg')) = _
  rw [hlocate]
  show (do
    let sohPos ← seekSoh mem (pos + tag.length + 1)
    let msg' ← applyHandler handlers (parseNum tag).toNat
      (bytesBetween mem (pos + tag.length + 1) sohPos) msg
    Except.ok (sohPos + 1, msg')) = _
  rw [hsoh]
  show (do
    let msg' ← applyHandler handlers (parseNum tag).toNat
      (bytesBetween mem (pos + tag.length + 1) (pos + tag.length + 1 + value.length)) msg
    Except.ok (pos + tag.length + 1 + value.length + 1, msg')) = _
  rw [hval, hnext]

/-- More rounds than needed change nothing. -/
theorem parseLoop_mono {fuel fuel' pos : ℕ} {msg out : μ} (hle : fuel ≤ fuel')
    (h : parseLoop handlers mem len fuel pos msg = .ok out) :
    parseLoop handlers mem len fuel' pos msg = .ok out := by
  induction fuel generalizing fuel' pos msg with
  | zero => cases h
  | succ fuel ih =>
    obtain ⟨k, rfl⟩ : ∃ k, fuel' = k + 1 := ⟨fuel' - 1, by omega⟩
    rw [parseLoop] at h ⊢
    by_cases hpos : pos < len
    · rw [if_pos hpos] at h ⊢
      obtain ⟨r, hr, hloop⟩ := FallibleRun.bind_eq_ok_iff.mp h
      rw [hr]
      exact ih (by omega) hloop
    · rw [if_neg hpos] at h ⊢
      exact h

/-- A well-formed field. -/
def FixField.Wf (f : FixField) : Prop := f.tag < 2 ^ 64 ∧ soh ∉ f.value

theorem FixField.wf_mk {tag : ℕ} {value : List UInt8} (ht : tag < 2 ^ 64) (hv : soh ∉ value) :
    FixField.Wf ⟨tag, value⟩ := ⟨ht, hv⟩

theorem FixField.text_append (f : FixField) (rest : List UInt8) :
    f.text ++ rest = decimal f.tag ++ equals :: (f.value ++ soh :: rest) := by
  rw [FixField.text, List.append_assoc, List.cons_append, List.append_assoc]
  rfl

theorem equals_notMem_decimal (n : ℕ) : equals ∉ decimal n :=
  notMem_decimal (Or.inr (by decide)) n

/-- The scanner at the beginning of a well-formed field. -/
theorem parseField_text {pre rest : List UInt8} {f : FixField} (msg : μ) (hf : f.Wf)
    (hmem : mem = pre ++ (f.text ++ rest)) (hlen : pre.length + f.text.length ≤ len)
    (hfits : len ≤ mem.length) :
    parseField handlers mem len pre.length msg =
      (do
        let msg' ← applyHandler handlers f.tag f.value msg
        .ok (pre.length + f.text.length, msg')) := by
  have hsize := f.length_text
  have hdrop : mem.drop pre.length = decimal f.tag ++ equals :: (f.value ++ soh :: rest) := by
    rw [hmem, List.drop_left, f.text_append]
  rw [parseField_eq msg hdrop (equals_notMem_decimal _) hf.2 (by omega) hfits,
    toNat_parseNum_decimal hf.1]
  have hnext : pre.length + (decimal f.tag).length + f.value.length + 2
      = pre.length + f.text.length := by omega
  rw [hnext]

/-- On the text of well-formed fields, the scanner calls their handlers in order. -/
theorem parseLoop_fields {fs : List FixField} {pre : List UInt8} {fuel : ℕ} (msg : μ)
    (hfs : ∀ f ∈ fs, f.Wf) (hmem : mem = pre ++ fieldsText fs) (hfuel : fs.length < fuel) :
    parseLoop handlers mem mem.length fuel pre.length msg = applyFields handlers fs msg := by
  induction fs generalizing pre fuel msg with
  | nil =>
    obtain ⟨k, rfl⟩ : ∃ k, fuel = k + 1 := ⟨fuel - 1, by omega⟩
    rw [parseLoop, if_neg (by rw [hmem]; exact Nat.not_lt.mpr (by simp [fieldsText]))]
    rfl
  | cons f fs ih =>
    obtain ⟨k, rfl⟩ : ∃ k, fuel = k + 1 := ⟨fuel - 1, by omega⟩
    rw [fieldsText_cons] at hmem
    have hsize := f.length_text
    have hlen : mem.length = pre.length + (f.text.length + (fieldsText fs).length) := by
      rw [hmem, List.length_append, List.length_append]
    rw [parseLoop, if_pos (by omega), applyFields,
      parseField_text msg (hfs f List.mem_cons_self) hmem (by omega) (le_refl _)]
    cases hmsg : applyHandler handlers f.tag f.value msg with
    | error e => rfl
    | ok msg' =>
      have hpre : (pre ++ f.text).length = pre.length + f.text.length := List.length_append
      show parseLoop handlers mem mem.length k (pre.length + f.text.length) msg' = _
      rw [← hpre]
      refine ih msg' (fun g hg => hfs g (List.mem_cons_of_mem _ hg)) ?_ ?_
      · rw [hmem, List.append_assoc]
      · exact Nat.lt_of_succ_lt_succ hfuel

theorem length_le_fieldsText (fs : List FixField) : fs.length ≤ (fieldsText fs).length := by
  induction fs with
  | nil => exact Nat.le_refl _
  | cons f fs ih =>
    have hsize := f.length_text
    rw [fieldsText_cons, List.length_append, List.length_cons]
    omega

/-- A text of well-formed fields is parsed into what their handlers make of them. -/
theorem parse_fieldsText {fs : List FixField} (msg : μ) (hfs : ∀ f ∈ fs, f.Wf) :
    parse handlers (fieldsText fs) (fieldsText fs).length msg = applyFields handlers fs msg := by
  show parseLoop handlers _ _ _ ([] : List UInt8).length msg = _
  exact parseLoop_fields msg hfs rfl (Nat.lt_succ_of_le (length_le_fieldsText fs))

/-- Behind every `=` of a text that ends with SOH there is an SOH. -/
theorem soh_mem_of_suffix {pre tag after : List UInt8} {pos : ℕ} (hpre : [soh] <:+ pre)
    (hsplit : pre.drop pos = tag ++ equals :: after) : soh ∈ after := by
  obtain ⟨head, rfl⟩ := hpre
  have hlast : ((head ++ [soh]).drop pos).getLast? = some soh := by
    have hlt : pos < (head ++ [soh]).length := by
      by_contra hge
      rw [List.drop_eq_nil_of_le (Nat.not_lt.mp hge)] at hsplit
      exact absurd (congrArg List.length hsplit) (by simp)
    rw [List.getLast?_drop, if_neg (Nat.not_le.mpr hlt), List.getLast?_concat]
  rw [hsplit, List.getLast?_append_cons] at hlast
  cases after with
  | nil => exact absurd hlast (by decide)
  | cons c after =>
    rw [List.getLast?_cons_cons] at hlast
    exact List.mem_of_getLast? hlast

/-- Whatever precedes it, a field that is preceded by SOH is left at its end: the
scanner can step over the SOH before it only together with the field itself. -/
theorem parseLoop_skip {pre rest : List UInt8} {f : FixField} {fuel pos : ℕ} {msg out : μ}
    (hpre : [soh] <:+ pre) (hvalue : soh ∉ f.value) (hmem : mem = pre ++ (f.text ++ rest))
    (hpos : pos ≤ pre.length)
    (h : parseLoop handlers mem mem.length fuel pos msg = .ok out) :
    ∃ fuel' msg', fuel' ≤ fuel ∧
      parseLoop handlers mem mem.length fuel' (pre.length + f.text.length) msg' = .ok out := by
  induction fuel generalizing pos msg with
  | zero => cases h
  | succ fuel ih =>
    have hsize := f.length_text
    have hlen : mem.length = pre.length + (f.text.length + rest.length) := by
      rw [hmem, List.length_append, List.length_append]
    rw [parseLoop, if_pos (by omega)] at h
    obtain ⟨r, hr, hloop⟩ := FallibleRun.bind_eq_ok_iff.mp h
    have hdrop : mem.drop pos = pre.drop pos ++ (f.text ++ rest) := by
      rw [hmem, List.drop_append_of_le_length hpos]
    have hdroplen : (pre.drop pos).length = pre.length - pos := List.length_drop
    -- where the scanner stands in `pre` does not matter, only what it finds first
    by_cases heq : equals ∈ pre.drop pos
    · -- the field ends inside `pre`, before or at its last SOH
      obtain ⟨tag, after, hsplit, htag⟩ := List.eq_append_cons_of_mem heq
      have hsoh : soh ∈ after := soh_mem_of_suffix hpre hsplit
      obtain ⟨value, left, hafter, hval⟩ := List.eq_append_cons_of_mem hsoh
      have hfield : mem.drop pos = tag ++ equals :: (value ++ soh :: (left ++ (f.text ++ rest))) := by
        rw [hdrop, hsplit, hafter]
        simp only [List.append_assoc, List.cons_append]
      have hcount : (pre.drop pos).length = tag.length + (value.length + left.length + 2) := by
        rw [hsplit, hafter]
        simp only [List.length_append, List.length_cons]
        omega
      rw [parseField_eq msg hfield htag hval (by omega) (le_refl _)] at hr
      obtain ⟨msg', -, hnext⟩ := FallibleRun.bind_eq_ok_iff.mp hr
      cases hnext
      obtain ⟨fuel', msg'', hle, hout⟩ := ih (by omega) hloop
      exact ⟨fuel', msg'', by omega, hout⟩
    · -- the next `=` is that of the field
      have hfield : mem.drop pos
          = (pre.drop pos ++ decimal f.tag) ++ equals :: (f.value ++ soh :: rest) := by
        rw [hdrop, f.text_append, List.append_assoc]
      have htag : equals ∉ pre.drop pos ++ decimal f.tag := by
        rw [List.mem_append, not_or]
        exact ⟨heq, equals_notMem_decimal _⟩
      have hcount : (pre.drop pos ++ decimal f.tag).length
          = pre.length - pos + (decimal f.tag).length := by
        rw [List.length_append, hdroplen]
      rw [parseField_eq msg hfield htag hvalue (by omega) (le_refl _)] at hr
      obtain ⟨msg', -, hnext⟩ := FallibleRun.bind_eq_ok_iff.mp hr
      have hend : pos + (pre.drop pos ++ decimal f.tag).length + f.value.length + 2
          = pre.length + f.text.length := by omega
      rw [hend] at hnext
      cases hnext
      exact ⟨fuel, msg', by omega, hloop⟩

end Scanner

end TradingEngine
