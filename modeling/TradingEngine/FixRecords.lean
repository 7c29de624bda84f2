/-
What a parsed FIX message owes to the slot it was parsed into.

The message slots come from a pool and go back to it; neither `parse` nor
`releaseFIX` resets them.  A handler writes one field of the slot: a number whole, a
text up to its terminating zero.  A slot is a record of cells and the text of a
message a sequence of writes to it.

* `FixRecord` — a message type with its handler table and the write of each handler;
* `cells_parse` — a parsed message is the slot after the writes of its text;
* `message_from_bytes_iff` — the messages parsed from one text into two slots are the
  same, with defaults in the fields that the text lacks, exactly when the earlier
  messages left these defaults and the same bytes behind what the text writes.
-/
import TradingEngine.CellWrites
import TradingEngine.FixSplit

namespace TradingEngine

open CellWrites

/-! ### Fields as cells -/

/-- A field of a message type: its tag, its name and what a value puts in it. -/
structure FieldRow (φ : Type) where
  tag : ℕ
  field : φ
  read : List UInt8 → List ℤ

/-- The handler makes the write of the row and no other. -/
def WritesRow {μ φ : Type} [DecidableEq φ] (cells : μ → φ → List ℤ) (h : TagHandler μ)
    (row : FieldRow φ) : Prop :=
  ∀ val msg msg', h val msg = .ok msg' → cells msg' = write (cells msg) ⟨row.field, row.read val⟩

/-- A message type with its fields, its handler table and a slot as constructed. -/
structure FixRecord (μ φ : Type) [DecidableEq φ] where
  size : ℕ
  entries : List (ℕ × TagHandler μ)
  cells : μ → φ → List ℤ
  rows : List (FieldRow φ)
  fresh : μ
  agree : List.Forall₂ (fun e row => e.1 = row.tag ∧ WritesRow cells e.2 row) entries rows

/-- The cells of a character array; what stands behind the bytes modelled is zero. -/
def textCells (field : List UInt8) : List ℤ := (charArray fixIdSize field).map fun c => (c.toNat : ℤ)

/-- What `copyText` writes: at most 31 bytes and a zero. -/
def textWritten (val : List UInt8) : List ℤ :=
  (val.take (fixIdSize - 1) ++ [0]).map fun c : UInt8 => (c.toNat : ℤ)

theorem drop_charArray {size k : ℕ} (field : List UInt8) (hk : k ≤ size) :
    (charArray size field).drop k = charArray (size - k) (field.drop k) := by
  have hrep : (List.replicate size (0 : UInt8)).drop (k - field.length)
      = List.replicate (size - (k - field.length)) 0 := List.drop_replicate
  rw [charArray, charArray, List.drop_take, List.drop_append, hrep, List.take_append,
    List.take_append, List.take_replicate, List.take_replicate, List.length_drop]
  congr 2
  omega

theorem charArray_append {size : ℕ} {text : List UInt8} (field : List UInt8)
    (h : text.length ≤ size) :
    charArray size (text ++ field) = text ++ charArray (size - text.length) field := by
  rw [charArray, charArray, List.append_assoc, List.take_append, List.take_of_length_le h,
    List.take_append, List.take_append, List.take_replicate, List.take_replicate]
  congr 3
  omega

/-- The array after a copy: the text, the zero, and what stood behind. -/
theorem charArray_copyText (field val : List UInt8) :
    charArray fixIdSize (copyText field val)
      = (val.take (fixIdSize - 1) ++ [0]) ++
        (charArray fixIdSize field).drop (val.take (fixIdSize - 1) ++ [0]).length := by
  have hlen : (val.take (fixIdSize - 1) ++ [0]).length ≤ fixIdSize := by
    rw [List.length_append, List.length_take, fixIdSize]
    show min _ _ + 1 ≤ 32
    omega
  have hcopy : copyText field val = (val.take (fixIdSize - 1) ++ [0]) ++
      field.drop (val.take (fixIdSize - 1) ++ [0]).length := by
    rw [List.length_append, copyText, List.append_assoc]
    rfl
  rw [hcopy, charArray_append _ hlen, drop_charArray field hlen]

theorem textCells_copyText (field val : List UInt8) :
    textCells (copyText field val) = overwrite (textWritten val) (textCells field) := by
  rw [textCells, textCells, charArray_copyText, List.map_append, overwrite, textWritten,
    List.length_map, List.map_drop]

/-! ### Messages as sequences of writes -/

namespace FixRecord

variable {μ φ : Type} [DecidableEq φ] (R : FixRecord μ φ)

/-- The handler table. -/
def table : HandlerLookup μ := handlerTable R.size R.entries

/-- The write of one piece, when its tag has a handler. -/
def writeOf (p : FixPiece) : Option (Write φ ℤ) :=
  (R.rows.find? fun row => row.tag == p.number).map fun row => ⟨row.field, row.read p.value⟩

/-- The writes of a message. -/
def writesOf (text : List UInt8) : List (Write φ ℤ) := (splitPieces text).filterMap R.writeOf

/-- The text has no tag for the field. -/
def Absent (text : List UInt8) (f : φ) : Prop := ∀ w ∈ R.writesOf text, w.field ≠ f

/-- `parse` into a slot, from a memory that holds the message. -/
def parseInto (slot : μ) (text : List UInt8) : Except Fault μ :=
  parse R.table text text.length slot

/-- A slot of the pool after earlier messages were parsed into it, each released in
between, which leaves the slot as it is. -/
def slotAfter (history : List (List UInt8)) : Except Fault μ := history.foldlM R.parseInto R.fresh

theorem lookup_rows (tag : ℕ) :
    (R.entries.lookup tag = none ∧ R.rows.find? (fun row => row.tag == tag) = none) ∨
    ∃ h row, R.entries.lookup tag = some h ∧ R.rows.find? (fun row => row.tag == tag) = some row ∧
      WritesRow R.cells h row := by
  have hagree := R.agree
  generalize R.entries = entries at hagree ⊢
  generalize R.rows = rows at hagree ⊢
  induction hagree with
  | nil => exact Or.inl ⟨rfl, rfl⟩
  | @cons e row es rows hrow hrest ih =>
    obtain ⟨htag, hwrites⟩ := hrow
    by_cases h : e.1 = tag
    · refine Or.inr ⟨e.2, row, ?_, ?_, hwrites⟩
      · rw [List.lookup_cons, beq_iff_eq.mpr h.symm]
      · rw [List.find?_cons, beq_iff_eq.mpr (htag.symm.trans h)]
    · have hne : ¬ tag = e.1 := fun hc => h hc.symm
      have hne' : ¬ row.tag = tag := fun hc => h (htag.trans hc)
      rw [List.lookup_cons, beq_false_of_ne hne, List.find?_cons, beq_false_of_ne hne']
      exact ih

/-- A handler makes the write of its piece; without a handler nothing is written. -/
theorem cells_applyHandler {p : FixPiece} {msg msg' : μ}
    (h : applyHandler R.table p.number p.value msg = .ok msg') :
    R.cells msg' = writes (R.cells msg) (R.writeOf p).toList := by
  obtain ⟨entry, hentry, h⟩ := FallibleRun.bind_eq_ok_iff.mp h
  have hlook : R.entries.lookup p.number = entry := by
    by_cases hsize : p.number < R.size
    · have htable : R.table p.number = .ok (R.entries.lookup p.number) := if_pos hsize
      rw [htable] at hentry
      exact Except.ok.inj hentry
    · have htable : R.table p.number = .error .outOfBounds := if_neg hsize
      rw [htable] at hentry
      cases hentry
  obtain ⟨hnone, hrow⟩ | ⟨handler, row, hsome, hrow, hwrites⟩ := R.lookup_rows p.number
  · rw [hnone] at hlook
    subst hlook
    cases h
    rw [writeOf, hrow]
    rfl
  · rw [hsome] at hlook
    subst hlook
    rw [writeOf, hrow, hwrites _ _ _ h]
    rfl

theorem cells_applyPieces {ps : List FixPiece} {msg out : μ}
    (h : applyPieces R.table ps msg = .ok out) :
    R.cells out = writes (R.cells msg) (ps.filterMap R.writeOf) := by
  induction ps generalizing msg with
  | nil =>
    cases h
    rfl
  | cons p ps ih =>
    rw [applyPieces_cons] at h
    obtain ⟨msg', happ, hrest⟩ := FallibleRun.bind_eq_ok_iff.mp h
    rw [ih hrest, R.cells_applyHandler happ, List.filterMap_cons]
    cases R.writeOf p with
    | none => rfl
    | some w => rfl

/-- **A parsed message is its slot after the writes of the text.** -/
theorem cells_parse {text : List UInt8} {slot out : μ} (h : R.parseInto slot text = .ok out) :
    R.cells out = writes (R.cells slot) (R.writesOf text) :=
  R.cells_applyPieces (applyPieces_splitPieces h)

theorem cells_of_absent {text : List UInt8} {slot out : μ} {f : φ}
    (h : R.parseInto slot text = .ok out) (hf : R.Absent text f) :
    R.cells out f = R.cells slot f := by
  rw [R.cells_parse h, writes_of_untouched hf]

/-- What a slot holds after earlier messages: the writes of their texts. -/
def held (history : List (List UInt8)) : φ → List ℤ :=
  writes (R.cells R.fresh) (history.flatMap R.writesOf)

theorem cells_slotAfter {history : List (List UInt8)} {slot : μ}
    (h : R.slotAfter history = .ok slot) : R.cells slot = R.held history := by
  have hrun : ∀ (texts : List (List UInt8)) (start : μ),
      texts.foldlM R.parseInto start = .ok slot →
      R.cells slot = writes (R.cells start) (texts.flatMap R.writesOf) := by
    intro texts
    induction texts with
    | nil =>
      intro start hstart
      cases hstart
      rfl
    | cons text texts ih =>
      intro start hstart
      rw [List.foldlM_cons] at hstart
      obtain ⟨next, hnext, hrest⟩ := FallibleRun.bind_eq_ok_iff.mp hstart
      rw [ih next hrest, R.cells_parse hnext, List.flatMap_cons, writes, writes, writes,
        List.foldl_append]
  exact hrun history R.fresh h

/-- The same field values in both messages, and the defaults in the fields that the
text lacks. -/
def FromBytes (text : List UInt8) (out₁ out₂ : μ) : Prop :=
  (∀ f, R.cells out₁ f = R.cells out₂ f) ∧
    ∀ f, R.Absent text f → R.cells out₁ f = R.cells R.fresh f ∧ R.cells out₂ f = R.cells R.fresh f

/-- After both histories the slot holds the default in every field that the text
lacks, and the two slots agree behind what the text writes to the others. -/
def HistoriesFit (text : List UInt8) (history₁ history₂ : List (List UInt8)) : Prop :=
  ∀ f, (R.Absent text f →
      R.held history₁ f = R.cells R.fresh f ∧ R.held history₂ f = R.cells R.fresh f) ∧
    (R.held history₁ f).drop (reach (R.writesOf text) f)
      = (R.held history₂ f).drop (reach (R.writesOf text) f)

theorem fromBytes_iff {text : List UInt8} {history₁ history₂ : List (List UInt8)}
    {slot₁ slot₂ out₁ out₂ : μ} (hslot₁ : R.slotAfter history₁ = .ok slot₁)
    (hslot₂ : R.slotAfter history₂ = .ok slot₂)
    (h₁ : R.parseInto slot₁ text = .ok out₁) (h₂ : R.parseInto slot₂ text = .ok out₂) :
    R.FromBytes text out₁ out₂ ↔ R.HistoriesFit text history₁ history₂ := by
  have hsame : ∀ f, R.cells out₁ f = R.cells out₂ f ↔
      (R.held history₁ f).drop (reach (R.writesOf text) f)
        = (R.held history₂ f).drop (reach (R.writesOf text) f) := fun f => by
    rw [R.cells_parse h₁, R.cells_parse h₂, writes_eq_iff, R.cells_slotAfter hslot₁,
      R.cells_slotAfter hslot₂]
  have hkept : ∀ f, R.Absent text f →
      R.cells out₁ f = R.held history₁ f ∧ R.cells out₂ f = R.held history₂ f := fun f hf => by
    rw [R.cells_of_absent h₁ hf, R.cells_of_absent h₂ hf, R.cells_slotAfter hslot₁,
      R.cells_slotAfter hslot₂]
    exact ⟨rfl, rfl⟩
  constructor
  · rintro ⟨heq, hdefault⟩ f
    refine ⟨fun hf => ?_, (hsame f).mp (heq f)⟩
    rw [← (hkept f hf).1, ← (hkept f hf).2]
    exact hdefault f hf
  · intro hfit
    refine ⟨fun f => (hsame f).mpr (hfit f).2, fun f hf => ?_⟩
    rw [(hkept f hf).1, (hkept f hf).2]
    exact (hfit f).1 hf

end FixRecord

/-! ### Application messages -/

/-- The fields of a `FIXMessage`. -/
inductive FIXField
  | price | lastPrice | quantity | leavesQty | lastQty | filledQty | transactTime | instrumentId
  | seqnum | msgType | side | ordStatus | execType | ordType | timeInForce | cxlRejResponseTo
  | cxlRejReason | symbol | orderId | clOrdId | execId | origClOrdId
  deriving DecidableEq, Repr

def FIXMessage.cells (m : FIXMessage) : FIXField → List ℤ
  | .price => [m.price.toInt]
  | .lastPrice => [m.lastPrice.toInt]
  | .quantity => [(m.quantity.toNat : ℤ)]
  | .leavesQty => [(m.leavesQty.toNat : ℤ)]
  | .lastQty => [(m.lastQty.toNat : ℤ)]
  | .filledQty => [(m.filledQty.toNat : ℤ)]
  | .transactTime => [(m.transactTime.toNat : ℤ)]
  | .instrumentId => [(m.instrumentId.toNat : ℤ)]
  | .seqnum => [(m.seqnum.toNat : ℤ)]
  | .msgType => [(m.msgType.toNat : ℤ)]
  | .side => [(m.side.toNat : ℤ)]
  | .ordStatus => [(m.ordStatus.toNat : ℤ)]
  | .execType => [(m.execType.toNat : ℤ)]
  | .ordType => [(m.ordType.toNat : ℤ)]
  | .timeInForce => [(m.timeInForce.toNat : ℤ)]
  | .cxlRejResponseTo => [(m.cxlRejResponseTo.toNat : ℤ)]
  | .cxlRejReason => [(m.cxlRejReason.toNat : ℤ)]
  | .symbol => textCells m.symbol
  | .orderId => textCells m.orderId
  | .clOrdId => textCells m.clOrdId
  | .execId => textCells m.execId
  | .origClOrdId => textCells m.origClOrdId

/-- What the handlers store, as cells. -/
def charRead (val : List UInt8) : List ℤ := (val.take 1).map fun c => (c.toNat : ℤ)

def wordRead (val : List UInt8) : List ℤ := [((parseNum val).toUInt32.toNat : ℤ)]

def byteRead (val : List UInt8) : List ℤ := [((parseNum val).toUInt8.toNat : ℤ)]

def priceRead (val : List UInt8) : List ℤ := [(parsePrice 4 val).toInt64.toInt]

/-- The fields behind the entries of `tagHandlerEntries`. -/
def tagRows : List (FieldRow FIXField) :=
  [⟨35, .msgType, charRead⟩, ⟨34, .seqnum, wordRead⟩, ⟨37, .orderId, textWritten⟩,
    ⟨11, .clOrdId, textWritten⟩, ⟨41, .origClOrdId, textWritten⟩, ⟨17, .execId, textWritten⟩,
    ⟨150, .execType, charRead⟩, ⟨39, .ordStatus, charRead⟩, ⟨55, .symbol, textWritten⟩,
    ⟨48, .instrumentId, wordRead⟩, ⟨54, .side, byteRead⟩, ⟨38, .quantity, wordRead⟩,
    ⟨40, .ordType, charRead⟩, ⟨44, .price, priceRead⟩, ⟨32, .lastQty, wordRead⟩,
    ⟨31, .lastPrice, priceRead⟩, ⟨59, .timeInForce, charRead⟩, ⟨151, .leavesQty, wordRead⟩,
    ⟨14, .filledQty, wordRead⟩, ⟨60, .transactTime, wordRead⟩,
    ⟨434, .cxlRejResponseTo, byteRead⟩, ⟨102, .cxlRejReason, byteRead⟩]

section Rows

variable {μ φ : Type} [DecidableEq φ] {cells : μ → φ → List ℤ}

/-- A handler that sets one field. -/
theorem writesRow_value {set : List UInt8 → μ → μ} {row : FieldRow φ}
    (hset : ∀ val msg, cells (set val msg) row.field
      = overwrite (row.read val) (cells msg row.field))
    (hframe : ∀ val msg f, f ≠ row.field → cells (set val msg) f = cells msg f) :
    WritesRow cells (fun val msg => .ok (set val msg)) row := by
  intro val msg msg' h
  cases h
  funext f
  by_cases hf : f = row.field
  · subst hf
    rw [hset]
    exact (write_self (cells msg) ⟨row.field, row.read val⟩).symm
  · rw [hframe val msg f hf]
    exact (write_of_ne (cells msg) (w := ⟨row.field, row.read val⟩) fun hc => hf hc.symm).symm

/-- A handler that stores the first character. -/
theorem writesRow_char {set : UInt8 → μ → μ} {row : FieldRow φ}
    (hset : ∀ c msg, cells (set c msg) row.field = overwrite [(c.toNat : ℤ)] (cells msg row.field))
    (hframe : ∀ c msg f, f ≠ row.field → cells (set c msg) f = cells msg f)
    (hread : row.read = charRead) :
    WritesRow cells (fun val msg => (do
      let c ← parseChar val
      .ok (set c msg))) row := by
  intro val msg msg' h
  cases val with
  | nil => cases h
  | cons c val =>
    cases h
    have hone : row.read (c :: val) = [(c.toNat : ℤ)] := by
      rw [hread]
      rfl
    funext f
    by_cases hf : f = row.field
    · subst hf
      rw [hset, hone]
      exact (write_self (cells msg) ⟨row.field, [(c.toNat : ℤ)]⟩).symm
    · rw [hframe c msg f hf]
      exact (write_of_ne (cells msg) (w := ⟨row.field, row.read (c :: val)⟩)
        fun hc => hf hc.symm).symm

end Rows

theorem agree_tagRows : List.Forall₂ (fun e row => e.1 = row.tag ∧ WritesRow FIXMessage.cells e.2 row)
    tagHandlerEntries tagRows := by
  refine .cons ⟨rfl, writesRow_char (fun _ _ => rfl) ?_ rfl⟩ <|
    .cons ⟨rfl, writesRow_value (fun _ _ => rfl) ?_⟩ <|
    .cons ⟨rfl, writesRow_value (fun _ _ => textCells_copyText _ _) ?_⟩ <|
    .cons ⟨rfl, writesRow_value (fun _ _ => textCells_copyText _ _) ?_⟩ <|
    .cons ⟨rfl, writesRow_value (fun _ _ => textCells_copyText _ _) ?_⟩ <|
    .cons ⟨rfl, writesRow_value (fun _ _ => textCells_copyText _ _) ?_⟩ <|
    .cons ⟨rfl, writesRow_char (fun _ _ => rfl) ?_ rfl⟩ <|
    .cons ⟨rfl, writesRow_char (fun _ _ => rfl) ?_ rfl⟩ <|
    .cons ⟨rfl, writesRow_value (fun _ _ => textCells_copyText _ _) ?_⟩ <|
    .cons ⟨rfl, writesRow_value (fun _ _ => rfl) ?_⟩ <|
    .cons ⟨rfl, writesRow_value (fun _ _ => rfl) ?_⟩ <|
    .cons ⟨rfl, writesRow_value (fun _ _ => rfl) ?_⟩ <|
    .cons ⟨rfl, writesRow_char (fun _ _ => rfl) ?_ rfl⟩ <|
    .cons ⟨rfl, writesRow_value (fun _ _ => rfl) ?_⟩ <|
    .cons ⟨rfl, writesRow_value (fun _ _ => rfl) ?_⟩ <|
    .cons ⟨rfl, writesRow_value (fun _ _ => rfl) ?_⟩ <|
    .cons ⟨rfl, writesRow_char (fun _ _ => rfl) ?_ rfl⟩ <|
    .cons ⟨rfl, writesRow_value (fun _ _ => rfl) ?_⟩ <|
    .cons ⟨rfl, writesRow_value (fun _ _ => rfl) ?_⟩ <|
    .cons ⟨rfl, writesRow_value (fun _ _ => rfl) ?_⟩ <|
    .cons ⟨rfl, writesRow_value (fun _ _ => rfl) ?_⟩ <|
    .cons ⟨rfl, writesRow_value (fun _ _ => rfl) ?_⟩ <|
    .nil
  all_goals
    intro _ _ f hf
    cases f <;> first | rfl | exact absurd rfl hf

/-- `FIXMessage` with `tagHandlers`. -/
def fixRecord : FixRecord FIXMessage FIXField where
  size := maxTag
  entries := tagHandlerEntries
  cells := FIXMessage.cells
  rows := tagRows
  fresh := {}
  agree := agree_tagRows

/-! ### Session messages -/

/-- The fields of a `FIXSessionMessage`. -/
inductive FIXSessionField
  | seqnum | interval | sesStatus | newSeqnum | beginSeqnum | endSeqnum | refSeqnum | testReqId
  | sendingTime | orgSendingTime | gapFillFlag | rejectReason | msgType | possDubFlag
  | resetSeqnumFlag | text
  deriving DecidableEq, Repr

def FIXSessionMessage.cells (m : FIXSessionMessage) : FIXSessionField → List ℤ
  | .seqnum => [(m.seqnum.toNat : ℤ)]
  | .interval => [(m.interval.toNat : ℤ)]
  | .sesStatus => [(m.sesStatus.toNat : ℤ)]
  | .newSeqnum => [(m.newSeqnum.toNat : ℤ)]
  | .beginSeqnum => [(m.beginSeqnum.toNat : ℤ)]
  | .endSeqnum => [(m.endSeqnum.toNat : ℤ)]
  | .refSeqnum => [(m.refSeqnum.toNat : ℤ)]
  | .testReqId => [(m.testReqId.toNat : ℤ)]
  | .sendingTime => [(m.sendingTime.toNat : ℤ)]
  | .orgSendingTime => [(m.orgSendingTime.toNat : ℤ)]
  | .gapFillFlag => [(m.gapFillFlag.toNat : ℤ)]
  | .rejectReason => [(m.rejectReason.toNat : ℤ)]
  | .msgType => [(m.msgType.toNat : ℤ)]
  | .possDubFlag => [(m.possDubFlag.toNat : ℤ)]
  | .resetSeqnumFlag => [(m.resetSeqnumFlag.toNat : ℤ)]
  | .text => textCells m.text

/-- The fields behind the entries of `sesTagHandlerEntries`. -/
def sesTagRows : List (FieldRow FIXSessionField) :=
  [⟨35, .msgType, charRead⟩, ⟨34, .seqnum, wordRead⟩, ⟨43, .possDubFlag, charRead⟩,
    ⟨122, .orgSendingTime, wordRead⟩, ⟨52, .sendingTime, wordRead⟩, ⟨141, .resetSeqnumFlag, charRead⟩,
    ⟨108, .interval, wordRead⟩, ⟨1409, .sesStatus, wordRead⟩, ⟨123, .gapFillFlag, charRead⟩,
    ⟨36, .newSeqnum, wordRead⟩, ⟨7, .beginSeqnum, wordRead⟩, ⟨16, .endSeqnum, wordRead⟩,
    ⟨45, .refSeqnum, wordRead⟩, ⟨373, .rejectReason, byteRead⟩, ⟨112, .testReqId, wordRead⟩,
    ⟨58, .text, textWritten⟩]

theorem agree_sesTagRows :
    List.Forall₂ (fun e row => e.1 = row.tag ∧ WritesRow FIXSessionMessage.cells e.2 row)
      sesTagHandlerEntries sesTagRows := by
  refine .cons ⟨rfl, writesRow_char (fun _ _ => rfl) ?_ rfl⟩ <|
    .cons ⟨rfl, writesRow_value (fun _ _ => rfl) ?_⟩ <|
    .cons ⟨rfl, writesRow_char (fun _ _ => rfl) ?_ rfl⟩ <|
    .cons ⟨rfl, writesRow_value (fun _ _ => rfl) ?_⟩ <|
    .cons ⟨rfl, writesRow_value (fun _ _ => rfl) ?_⟩ <|
    .cons ⟨rfl, writesRow_char (fun _ _ => rfl) ?_ rfl⟩ <|
    .cons ⟨rfl, writesRow_value (fun _ _ => rfl) ?_⟩ <|
    .cons ⟨rfl, writesRow_value (fun _ _ => rfl) ?_⟩ <|
    .cons ⟨rfl, writesRow_char (fun _ _ => rfl) ?_ rfl⟩ <|
    .cons ⟨rfl, writesRow_value (fun _ _ => rfl) ?_⟩ <|
    .cons ⟨rfl, writesRow_value (fun _ _ => rfl) ?_⟩ <|
    .cons ⟨rfl, writesRow_value (fun _ _ => rfl) ?_⟩ <|
    .cons ⟨rfl, writesRow_value (fun _ _ => rfl) ?_⟩ <|
    .cons ⟨rfl, writesRow_value (fun _ _ => rfl) ?_⟩ <|
    .cons ⟨rfl, writesRow_value (fun _ _ => rfl) ?_⟩ <|
    .cons ⟨rfl, writesRow_value (fun _ _ => textCells_copyText _ _) ?_⟩ <|
    .nil
  all_goals
    intro _ _ f hf
    cases f <;> first | rfl | exact absurd rfl hf

/-- `FIXSessionMessage` with `SestagHandlers`. -/
def sesRecord : FixRecord FIXSessionMessage FIXSessionField where
  size := maxSesTag
  entries := sesTagHandlerEntries
  cells := FIXSessionMessage.cells
  rows := sesTagRows
  fresh := {}
  agree := agree_sesTagRows

/-! ### The messages of two histories -/

/-- **Parsed messages and the histories of their slots**: for both message types, the
messages parsed from a text after two histories are the same, with defaults where the
text has no tag, exactly when the histories left these defaults in the slots and the
same bytes behind the texts that are written. -/
theorem message_from_bytes_iff (text : List UInt8) (history₁ history₂ : List (List UInt8)) :
    (∀ slot₁ slot₂ out₁ out₂, fixRecord.slotAfter history₁ = .ok slot₁ →
      fixRecord.slotAfter history₂ = .ok slot₂ → fixRecord.parseInto slot₁ text = .ok out₁ →
      fixRecord.parseInto slot₂ text = .ok out₂ →
      (fixRecord.FromBytes text out₁ out₂ ↔ fixRecord.HistoriesFit text history₁ history₂)) ∧
    (∀ slot₁ slot₂ out₁ out₂, sesRecord.slotAfter history₁ = .ok slot₁ →
      sesRecord.slotAfter history₂ = .ok slot₂ → sesRecord.parseInto slot₁ text = .ok out₁ →
      sesRecord.parseInto slot₂ text = .ok out₂ →
      (sesRecord.FromBytes text out₁ out₂ ↔ sesRecord.HistoriesFit text history₁ history₂)) :=
  ⟨fun _ _ _ _ => fixRecord.fromBytes_iff, fun _ _ _ _ => sesRecord.fromBytes_iff⟩

/-- `35=8`. -/
def execReportText : List UInt8 := [0x33, 0x35, 0x3D, 0x38, 0x01]

/-- `35=9`. -/
def cancelRejectText : List UInt8 := [0x33, 0x35, 0x3D, 0x39, 0x01]

/-- `32=7`. -/
def fillText : List UInt8 := [0x33, 0x32, 0x3D, 0x37, 0x01]

theorem message_from_bytes_report :
    (fixRecord.FromBytes execReportText { msgType := 0x38 } { msgType := 0x38 } ↔
      fixRecord.HistoriesFit execReportText [] [cancelRejectText]) ∧
    (sesRecord.FromBytes execReportText { msgType := 0x38 } { msgType := 0x38 } ↔
      sesRecord.HistoriesFit execReportText [] [cancelRejectText]) :=
  ⟨(message_from_bytes_iff execReportText [] [cancelRejectText]).1 {} { msgType := 0x39 } _ _
      rfl rfl rfl rfl,
    (message_from_bytes_iff execReportText [] [cancelRejectText]).2 {} { msgType := 0x39 } _ _
      rfl rfl rfl rfl⟩

/-- A report without a last quantity, parsed into a slot as constructed and into one
that held a fill of seven. -/
theorem report_keeps_last_quantity :
    fixRecord.slotAfter [] = .ok {} ∧ fixRecord.slotAfter [fillText] = .ok { lastQty := 7 } ∧
    fixRecord.parseInto {} execReportText = .ok { msgType := 0x38 } ∧
    fixRecord.parseInto { lastQty := 7 } execReportText = .ok { msgType := 0x38, lastQty := 7 } ∧
    ¬ fixRecord.FromBytes execReportText { msgType := 0x38 } { msgType := 0x38, lastQty := 7 } := by
  refine ⟨rfl, rfl, rfl, rfl, fun h => ?_⟩
  exact absurd (h.1 .lastQty) (by decide)

end TradingEngine
