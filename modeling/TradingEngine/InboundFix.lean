/-
FIX messages from the packets to the store.

`parseFIX` takes the messages of a packet one after the other.  `find_type` looks up the
byte behind the third `=`, `parse` fills the record at the head of the free list that
this byte asks for, and the session decides what becomes of the record.  Between two
packets the consumers give records back, each with whatever it was left with.

A stream of messages that have a number, a type and fields inside the tables
(`FixSent`) comes in packets.  A number may come any number of times, with different
texts; the first one counts.

* `takeMessages_eq` — the loop of `parseFIX` is the framing loop followed by one call
  for each message it hands out;
* `arrive_sent` — what one message of the stream does to the session;
* `fix_messages_in_order` — after any packets of the stream, none of which ends inside
  a header, the application messages pushed to the store are those received, in the
  order of their numbers up to the first one missing, each filled in from its own text.
-/
import TradingEngine.FirstArrivals
import TradingEngine.FixDelivery
import TradingEngine.FixReassembly
import TradingEngine.FixRecords

namespace TradingEngine

open FallibleRun StreamFraming CellWrites DecimalText FirstArrivals

/-! ### The parser -/

/-- The bytes behind the next `=`. -/
def behindEquals : List UInt8 → Except Fault (List UInt8)
  | [] => .error .outOfBounds
  | c :: rest => if c = equals then .ok rest else behindEquals rest

/-- `Parser_FIX::find_type`: the byte behind the third `=`. -/
def findType (text : List UInt8) : Except Fault UInt8 := do
  let first ← behindEquals text
  let second ← behindEquals first
  let third ← behindEquals second
  match third with
  | [] => .error .outOfBounds
  | c :: _ => .ok c

/-- `type >= 56 && type != 'A'`. -/
def isApplicationType (type : UInt8) : Bool := (FIXText.mk type {} {}).isApplication

namespace FixDispatch

/-- `parse` of a message into the record at the head of the free list that its type
asks for. -/
def readText (d : FixDispatch) (text : List UInt8) : Except Fault FIXText := do
  let type ← findType text
  if isApplicationType type then
    match d.freeFixMsgList with
    | [] => .error .nullDereference
    | slot :: _ => do
      let msg ← fixRecord.parseInto slot text
      .ok ⟨type, msg, {}⟩
  else
    match d.freeFixSesMsgList with
    | [] => .error .nullDereference
    | slot :: _ => do
      let msg ← sesRecord.parseInto slot text
      .ok ⟨type, {}, msg⟩

/-- The body of the loop of `parseFIX` for a message and the time of it. -/
def arrive (d : FixDispatch) (m : List UInt8 × ℕ) : Except Fault FixDispatch := do
  let t ← d.readText m.1
  d.parseFIXMsg t m.2

/-- What `parseFIX` does with the result of `nextFixMsg`. -/
def onNext (d : FixDispatch) (now : ℕ) : Option (List UInt8) → Except Fault FixDispatch
  | none => .ok d
  | some text => d.arrive (text, now)

end FixDispatch

/-- The loop of `parseFIX`; the clock is read in every round. -/
def takeMessages (clock : ℕ → ℕ) :
    ℕ → FixCursor → FixDispatch → Except Fault (FixDispatch × PartialFIXBuffer)
  | 0, _, _ => .error .nonTermination
  | fuel + 1, c, d => do
    let (msg, c') ← c.nextFixMsg
    let d' ← d.onNext (clock fuel) msg
    if c'.pkt.consumed = false then takeMessages clock fuel c' d'
    else .ok (d', c'.buf)

/-- `Parser_Dispatch` as far as FIX goes: the partial buffer and the session. -/
structure FixInbound where
  buf : PartialFIXBuffer := {}
  dispatch : FixDispatch := {}

/-- A packet to parse, or a record that comes back to its free list. -/
inductive FixTraffic
  | packet (pkt : RxPacket) (clock : ℕ → ℕ)
  | releaseApp (msg : FIXMessage)
  | releaseSes (msg : FIXSessionMessage)

namespace FixInbound

def step (s : FixInbound) : FixTraffic → Except Fault FixInbound
  | .packet pkt clock => do
    let (d, buf) ← takeMessages clock (pkt.len + 1)
      { buf := s.buf, pkt := pkt, offset := 0 } s.dispatch
    .ok { buf := buf, dispatch := d }
  | .releaseApp msg => do
    let d ← s.dispatch.step (.releaseApp msg)
    .ok { s with dispatch := d }
  | .releaseSes msg => do
    let d ← s.dispatch.step (.releaseSes msg)
    .ok { s with dispatch := d }

end FixInbound

/-- The packets of a run. -/
def packetsIn : List FixTraffic → List RxPacket
  | [] => []
  | .packet pkt _ :: es => pkt :: packetsIn es
  | .releaseApp _ :: es => packetsIn es
  | .releaseSes _ :: es => packetsIn es

/-! ### The loop and the framing -/

/-- **The loop of `parseFIX`** finds the messages as the framing loop does and handles
each of them before it looks for the next. -/
theorem takeMessages_eq (clock : ℕ → ℕ) {fuel : ℕ} {c : FixCursor} {texts : List (List UInt8)}
    {buf : PartialFIXBuffer} (h : fixLoop fuel c = .ok (texts, buf)) :
    ∃ timed : List (List UInt8 × ℕ), timed.map Prod.fst = texts ∧ ∀ d,
      takeMessages clock fuel c d = (exec FixDispatch.arrive d timed).map fun d' => (d', buf) := by
  induction fuel generalizing c texts with
  | zero => cases h
  | succ fuel ih =>
    rw [fixLoop] at h
    obtain ⟨⟨msg, c'⟩, hnext, h⟩ := bind_eq_ok_iff.mp h
    change (if c'.pkt.consumed = false then _ else _) = _ at h
    -- the rest of the loop runs on what this round leaves
    have hround : ∀ (more : List (List UInt8 × ℕ))
        (k : FixDispatch → Except Fault (FixDispatch × PartialFIXBuffer)),
        (∀ d', k d' = (exec FixDispatch.arrive d' more).map fun d'' => (d'', buf)) →
        ∃ timed : List (List UInt8 × ℕ), timed.map Prod.fst = msg.toList ++ more.map Prod.fst ∧
          ∀ d : FixDispatch, (d.onNext (clock fuel) msg >>= k) =
            (exec FixDispatch.arrive d timed).map fun d' => (d', buf) := by
      intro more k hk
      cases msg with
      | none => exact ⟨more, rfl, hk⟩
      | some text =>
        refine ⟨(text, clock fuel) :: more, rfl, fun d => ?_⟩
        rw [FixDispatch.onNext, exec]
        cases harrive : d.arrive (text, clock fuel) with
        | error e => rfl
        | ok d' => exact hk d'
    by_cases hcons : c'.pkt.consumed = false
    · rw [if_pos hcons] at h
      obtain ⟨⟨msgs, buf'⟩, hloop, h⟩ := bind_eq_ok_iff.mp h
      obtain ⟨rfl, rfl⟩ := Prod.mk.inj (Except.ok.inj h)
      obtain ⟨more, rfl, hmore⟩ := ih hloop
      obtain ⟨timed, htexts, htimed⟩ := hround more (takeMessages clock fuel c') hmore
      refine ⟨timed, htexts, fun d => ?_⟩
      rw [takeMessages, hnext, ← htimed d]
      simp only [bind, Except.bind, if_pos hcons]
    · rw [if_neg hcons] at h
      obtain ⟨rfl, rfl⟩ := Prod.mk.inj (Except.ok.inj h)
      obtain ⟨timed, htexts, htimed⟩ := hround [] (fun d => .ok (d, c'.buf)) fun d => rfl
      refine ⟨timed, htexts.trans (List.append_nil _), fun d => ?_⟩
      rw [takeMessages, hnext, ← htimed d]
      simp only [bind, Except.bind, if_neg hcons]

/-! ### The messages of the exchange -/

/-- A message of the stream: a frame whose body is `35=<type>` and well-formed fields
with numbers inside the table of the type, one or more of them the sequence number. -/
structure FixSent where
  frame : FixFrame
  type : UInt8
  seqnum : UInt32
  fields : List FixPiece
  body_eq : frame.body = piecesText (⟨[0x33, 0x35], [type]⟩ :: fields)
  type_ne : type ≠ soh
  wellFormed : ∀ p ∈ fields, p.WellFormed
  inTable : ∀ p ∈ fields, p.tagNumber < if isApplicationType type then maxTag else maxSesTag
  typeOnce : ∀ p ∈ fields, p.tagNumber ≠ 35
  numbered : ∃ p ∈ fields, p.tagNumber = 34
  number : ∀ p ∈ fields, p.tagNumber = 34 →
    IsDigits p.value ∧ readDecimal 0 p.value = seqnum.toNat

namespace FixSent

def bytes (f : FixSent) : List UInt8 := f.frame.bytes

/-- The message as the scanner of `parse` sees it. -/
def pieces (f : FixSent) : List FixPiece :=
  [⟨[0x38], f.frame.beginString⟩, ⟨[0x39], f.frame.digits⟩, ⟨[0x33, 0x35], [f.type]⟩] ++
    f.fields ++ [⟨[0x31, 0x30], f.frame.checkSum⟩]

def isApplication (f : FixSent) : Bool := isApplicationType f.type

/-- An application message, or a session message other than Logon and SequenceReset. -/
def Ordinary (f : FixSent) : Prop :=
  f.isApplication = true ∨
    f.type ≠ FIXTypes.logon.code ∧ f.type ≠ FIXTypes.sequenceReset.code

/-- The record is filled in from the text: whatever it held before, the fields of the
text are written over it. -/
def Fills {μ φ : Type} [DecidableEq φ] (R : FixRecord μ φ) (f : FixSent) (msg : μ) : Prop :=
  ∃ slot, R.cells msg = writes (R.cells slot) (f.pieces.filterMap R.writeOf)

/-- What the parser makes of the message. -/
def Reads (f : FixSent) : FIXVariant → Prop
  | .app msg => f.isApplication = true ∧ msg.seqnum = f.seqnum ∧ f.Fills fixRecord msg
  | .ses msg => f.isApplication = false ∧ msg.seqnum = f.seqnum ∧ msg.msgType = f.type ∧
      f.Fills sesRecord msg

variable {f : FixSent} {v : FIXVariant}

theorem Reads.seqnum_eq (h : f.Reads v) : v.seqnum = f.seqnum := by
  cases v with
  | app msg => exact h.2.1
  | ses msg => exact h.2.1

theorem Reads.ordinary (h : f.Reads v) (hord : f.Ordinary) : v.Ordinary := by
  cases v with
  | app msg => trivial
  | ses msg =>
    obtain ⟨hses, -, htype, -⟩ := h
    rcases hord with happ | hord
    · exact absurd (happ.symm.trans hses) (by decide)
    · exact (htype.symm ▸ hord : msg.msgType ≠ _ ∧ msg.msgType ≠ _)

theorem bytes_eq (f : FixSent) : f.bytes = piecesText f.pieces := by
  rw [bytes, FixFrame.bytes, FixFrame.header, fixHeader, f.body_eq]
  simp [pieces, piecesText, FixPiece.text, soh, nine, equals]

theorem soh_notMem_of_isDigit {text : List UInt8} (h : ∀ c ∈ text, isDigit c = true) :
    soh ∉ text := fun hmem => absurd (h _ hmem) (by decide)

/-- A piece with a number below that of the type is well formed and inside both tables. -/
theorem wellFormed_header (f : FixSent) {tag value : List UInt8}
    (htag : tag ≠ [] ∧ tag.all isDigit = true ∧ readDecimal 0 tag < 36) (hne : value ≠ [])
    (hsoh : soh ∉ value) : (FixPiece.mk tag value).WellFormed ∧
      (FixPiece.mk tag value).tagNumber < if f.isApplication then maxTag else maxSesTag := by
  obtain ⟨htne, hdigits, hsmall⟩ := htag
  refine ⟨⟨htne, isDigits_of_all hdigits, hne, hsoh⟩, ?_⟩
  have happ : 36 ≤ maxTag := by decide
  have hses : 36 ≤ maxSesTag := by decide
  rw [FixPiece.tagNumber]
  split
  · exact lt_of_lt_of_le hsmall happ
  · exact lt_of_lt_of_le hsmall hses

theorem mem_pieces {p : FixPiece} : p ∈ f.pieces ↔
    p = ⟨[0x38], f.frame.beginString⟩ ∨ p = ⟨[0x39], f.frame.digits⟩ ∨
      p = ⟨[0x33, 0x35], [f.type]⟩ ∨ p ∈ f.fields ∨ p = ⟨[0x31, 0x30], f.frame.checkSum⟩ := by
  simp [pieces]

theorem wellFormed_pieces (f : FixSent) : ∀ p ∈ f.pieces,
    p.WellFormed ∧ p.tagNumber < if f.isApplication then maxTag else maxSesTag := by
  obtain ⟨hlen, hchecks⟩ := f.frame.checkSum_digits
  have hcheck_ne : f.frame.checkSum ≠ [] := fun hnil => by simp [hnil] at hlen
  intro p hp
  rcases mem_pieces.mp hp with rfl | rfl | rfl | hp | rfl
  · exact f.wellFormed_header (by decide) f.frame.begin_ne
      fun hmem => (f.frame.begin_free _ hmem).2 rfl
  · exact f.wellFormed_header (by decide) f.frame.bodyLength.1
      (soh_notMem_of_isDigit f.frame.digits_digit)
  · exact f.wellFormed_header (by decide) (List.cons_ne_nil _ _) (by simpa using f.type_ne.symm)
  · exact ⟨f.wellFormed p hp, f.inTable p hp⟩
  · exact f.wellFormed_header (by decide) hcheck_ne (soh_notMem_of_isDigit hchecks)

theorem number_of_mem {p : FixPiece} (hp : p ∈ f.pieces) : p.number = p.tagNumber := by
  obtain ⟨hwf, htag⟩ := f.wellFormed_pieces p hp
  have happ : maxTag ≤ 2 ^ 64 := by decide
  have hses : maxSesTag ≤ 2 ^ 64 := by decide
  rw [hwf.number_eq, Nat.mod_eq_of_lt]
  split at htag
  · exact lt_of_lt_of_le htag happ
  · exact lt_of_lt_of_le htag hses

theorem behindEquals_append {l rest : List UInt8} (h : ∀ c ∈ l, c ≠ equals) :
    behindEquals (l ++ equals :: rest) = .ok rest := by
  induction l with
  | nil => rfl
  | cons c l ih =>
    obtain ⟨hc, hl⟩ := List.forall_mem_cons.mp h
    rw [List.cons_append, behindEquals, if_neg hc]
    exact ih hl

/-- **The type is found**: the first two `=` belong to the header. -/
theorem findType_bytes (f : FixSent) : findType f.bytes = .ok f.type := by
  have hbody : f.frame.body = [0x33, 0x35] ++ equals :: f.type :: soh :: piecesText f.fields := by
    rw [f.body_eq, piecesText_cons, FixPiece.text]
    rfl
  have hbytes : ∃ more, f.bytes = [0x38] ++ equals :: (f.frame.between ++ equals ::
      ((f.frame.digits ++ [soh, 0x33, 0x35]) ++ equals :: f.type :: more)) := by
    refine ⟨soh :: (piecesText f.fields ++
      (0x31 :: 0x30 :: equals :: f.frame.checkSum ++ [soh])), ?_⟩
    rw [bytes, FixFrame.bytes, FixFrame.header, fixHeader, hbody, FixFrame.between]
    simp
  obtain ⟨more, hbytes⟩ := hbytes
  have hlast : ∀ c ∈ f.frame.digits ++ [soh, 0x33, 0x35], c ≠ equals := by
    intro c hc
    rcases List.mem_append.mp hc with hc | hc
    · exact digit_ne_equals (f.frame.digits_digit c hc)
    · simp only [List.mem_cons, List.not_mem_nil, or_false] at hc
      rcases hc with rfl | rfl | rfl <;> simp [soh, equals]
  rw [findType, hbytes, behindEquals_append (by simp [equals])]
  simp only [bind, Except.bind]
  rw [behindEquals_append f.frame.between_ne_equals]
  simp only
  rw [behindEquals_append hlast]

section Record

variable {μ φ : Type} [DecidableEq φ] {R : FixRecord μ φ} {msg : μ}

theorem fills_of_parseInto {slot : μ} (h : R.parseInto slot f.bytes = .ok msg) :
    f.Fills R msg := by
  refine ⟨slot, ?_⟩
  rw [R.cells_parse h, FixRecord.writesOf, f.bytes_eq,
    splitPieces_piecesText fun p hp => (f.wellFormed_pieces p hp).1.delimited]

/-- A field of the record that one tag alone writes, and always the same, holds that. -/
theorem Fills.cells_eq {cs : List ℤ} (h : f.Fills R msg) (row : FieldRow φ)
    (hfind : R.rows.find? (fun r => r.tag == row.tag) = some row)
    (hsole : ∀ r ∈ R.rows, r.field = row.field → r.tag = row.tag)
    (hmem : ∃ p ∈ f.pieces, p.tagNumber = row.tag)
    (hall : ∀ p ∈ f.pieces, p.tagNumber = row.tag → row.read p.value = cs)
    (hlen : ∀ slot, (R.cells slot row.field).length ≤ cs.length) :
    R.cells msg row.field = cs := by
  obtain ⟨slot, h⟩ := h
  rw [h]
  refine writes_eq_of_all (fun w hw hfield => ?_) (hlen slot) (Or.inr ?_)
  · obtain ⟨p, hp, hw⟩ := List.mem_filterMap.mp hw
    obtain ⟨r, hr, rfl⟩ := Option.map_eq_some_iff.mp hw
    have htag : p.tagNumber = row.tag := by
      rw [← f.number_of_mem hp, ← hsole r (List.mem_of_find?_eq_some hr) hfield]
      exact (by simpa using List.find?_some hr : r.tag = p.number).symm
    have hrow : r = row := by
      rw [f.number_of_mem hp, htag, hfind] at hr
      exact (Option.some.inj hr).symm
    rw [hrow]
    exact hall p hp htag
  · obtain ⟨p, hp, htag⟩ := hmem
    refine ⟨⟨row.field, row.read p.value⟩, List.mem_filterMap.mpr ⟨p, hp, ?_⟩, rfl⟩
    rw [FixRecord.writeOf, f.number_of_mem hp, htag, hfind]
    rfl

end Record

/-- The number of the message, where the scanner finds it. -/
theorem number_pieces (f : FixSent) : (∃ p ∈ f.pieces, p.tagNumber = 34) ∧
    ∀ p ∈ f.pieces, p.tagNumber = 34 → wordRead p.value = [(f.seqnum.toNat : ℤ)] := by
  constructor
  · obtain ⟨p, hp, htag⟩ := f.numbered
    exact ⟨p, mem_pieces.mpr (by simp [hp]), htag⟩
  · intro p hp htag
    have hfield : p ∈ f.fields := by
      rcases mem_pieces.mp hp with rfl | rfl | rfl | hp | rfl
      · exact absurd htag (by decide : readDecimal 0 [0x38] ≠ 34)
      · exact absurd htag (by decide : readDecimal 0 [0x39] ≠ 34)
      · exact absurd htag (by decide : readDecimal 0 [0x33, 0x35] ≠ 34)
      · exact hp
      · exact absurd htag (by decide : readDecimal 0 [0x31, 0x30] ≠ 34)
    obtain ⟨hdigits, hvalue⟩ := f.number p hfield htag
    have hlt := f.seqnum.toNat_lt
    have hnum : (parseNum p.value).toNat = f.seqnum.toNat := by
      rw [parseNum_eq_foldl hdigits, foldl_addDigit hdigits]
      show readDecimal 0 p.value % 2 ^ 64 = _
      rw [hvalue, Nat.mod_eq_of_lt (by omega)]
    rw [wordRead, UInt64.toNat_toUInt32, hnum, Nat.mod_eq_of_lt hlt]

/-- The type of the message, where the scanner finds it. -/
theorem type_pieces (f : FixSent) : (∃ p ∈ f.pieces, p.tagNumber = 35) ∧
    ∀ p ∈ f.pieces, p.tagNumber = 35 → charRead p.value = [(f.type.toNat : ℤ)] := by
  constructor
  · exact ⟨⟨[0x33, 0x35], [f.type]⟩, mem_pieces.mpr (by simp),
      (by decide : readDecimal 0 [0x33, 0x35] = 35)⟩
  · intro p hp htag
    rcases mem_pieces.mp hp with rfl | rfl | rfl | hp | rfl
    · exact absurd htag (by decide : readDecimal 0 [0x38] ≠ 35)
    · exact absurd htag (by decide : readDecimal 0 [0x39] ≠ 35)
    · rfl
    · exact absurd htag (f.typeOnce p hp)
    · exact absurd htag (by decide : readDecimal 0 [0x31, 0x30] ≠ 35)

/-- **An application message is read**, whatever record it is parsed into. -/
theorem parseInto_app (f : FixSent) (happ : f.isApplication = true) (slot : FIXMessage) :
    ∃ msg, fixRecord.parseInto slot f.bytes = .ok msg ∧ f.Reads (.app msg) := by
  have hwf := f.wellFormed_pieces
  rw [happ] at hwf
  obtain ⟨msg, hmsg, -⟩ := (parse_wellFormed f.pieces [] fun p hp => (hwf p hp).1).2.1
    (fun p hp => (hwf p hp).2) slot
  rw [List.append_nil, ← f.bytes_eq] at hmsg
  have hfills : f.Fills fixRecord msg := fills_of_parseInto hmsg
  obtain ⟨hmem, hall⟩ := f.number_pieces
  have hnum : fixRecord.cells msg .seqnum = [(f.seqnum.toNat : ℤ)] :=
    hfills.cells_eq ⟨34, .seqnum, wordRead⟩ rfl (by decide) hmem hall fun slot => le_refl 1
  refine ⟨msg, hmsg, happ, ?_, hfills⟩
  have hcell : [(msg.seqnum.toNat : ℤ)] = [(f.seqnum.toNat : ℤ)] := hnum
  exact UInt32.toNat_inj.mp (by simpa using hcell)

/-- **A session message is read**, whatever record it is parsed into. -/
theorem parseInto_ses (f : FixSent) (hses : f.isApplication = false) (slot : FIXSessionMessage) :
    ∃ msg, sesRecord.parseInto slot f.bytes = .ok msg ∧ f.Reads (.ses msg) := by
  have hwf := f.wellFormed_pieces
  rw [hses] at hwf
  obtain ⟨msg, hmsg, -⟩ := (parse_wellFormed f.pieces [] fun p hp => (hwf p hp).1).2.2
    (fun p hp => (hwf p hp).2) slot
  rw [List.append_nil, ← f.bytes_eq] at hmsg
  have hfills : f.Fills sesRecord msg := fills_of_parseInto hmsg
  obtain ⟨hmem, hall⟩ := f.number_pieces
  obtain ⟨hmem', hall'⟩ := f.type_pieces
  have hnum : sesRecord.cells msg .seqnum = [(f.seqnum.toNat : ℤ)] :=
    hfills.cells_eq ⟨34, .seqnum, wordRead⟩ rfl (by decide) hmem hall fun slot => le_refl 1
  have htype : sesRecord.cells msg .msgType = [(f.type.toNat : ℤ)] :=
    hfills.cells_eq ⟨35, .msgType, charRead⟩ rfl (by decide) hmem' hall' fun slot => le_refl 1
  have hcell : [(msg.seqnum.toNat : ℤ)] = [(f.seqnum.toNat : ℤ)] := hnum
  have hcell' : [(msg.msgType.toNat : ℤ)] = [(f.type.toNat : ℤ)] := htype
  exact ⟨msg, hmsg, hses, UInt32.toNat_inj.mp (by simpa using hcell),
    UInt8.toNat_inj.mp (by simpa using hcell'), hfills⟩

end FixSent

/-! ### The session -/

section Session

open FixDispatch

variable {e n : UInt32} {msgs : List FIXVariant} {v : FIXVariant} {d d₀ : FixDispatch}

theorem InOrder.noted_of_expected (h : InOrder e msgs d₀ d) (hseq : v.seqnum = d.expected) :
    noted FIXVariant.seqnum msgs v = msgs ++ [v] := by
  refine if_neg fun hrec => h.first.missing ?_
  rw [← hseq]
  exact hrec

theorem InOrder.behind_noted (h : InOrder e msgs d₀ d) (hone : OnePerNumber msgs)
    (hlt : v.seqnum < d.expected) : InOrder e (noted FIXVariant.seqnum msgs v) d₀ d := by
  have hone' : OnePerNumber (noted FIXVariant.seqnum msgs v) := unique_noted hone
  by_cases hrec : ∃ w ∈ msgs, w.seqnum = v.seqnum
  · rw [noted, if_pos hrec]
    exact h
  · rw [noted, if_neg hrec] at hone' ⊢
    exact h.behind hone' hlt

/-- A number that is pending already keeps the message it has. -/
theorem InOrder.ahead_noted (h : InOrder e msgs d₀ d) (hone : OnePerNumber msgs)
    (hlt : d.expected < v.seqnum) :
    InOrder e (noted FIXVariant.seqnum msgs v) d₀ (d.pushPending v) := by
  have hone' : OnePerNumber (noted FIXVariant.seqnum msgs v) := unique_noted hone
  by_cases hrec : ∃ w ∈ msgs, w.seqnum = v.seqnum
  · rw [noted, if_pos hrec]
    refine ⟨h.first, h.delivered, fun k w => ?_⟩
    show (d.pendingToStoreMap.emplace v.seqnum v).find? k = some w ↔ _ ∧ _ ∧ d.expected < k
    rw [← h.pending, SortedMap.find?_emplace]
    split
    · rename_i hk
      subst hk
      obtain ⟨u, hu, hseq⟩ := hrec
      rw [(h.pending _ _).mpr ⟨hu, hseq, hlt⟩, Option.getD_some]
    · exact Iff.rfl
  · rw [noted, if_neg hrec] at hone' ⊢
    exact h.ahead hone' hlt

theorem popFixMsg_okUnless : OkUnless .nullDereference (SameView d) d.popFixMsg := by
  rw [popFixMsg]
  split
  · exact Or.inl rfl
  · exact okUnless_ok ⟨rfl, rfl, rfl⟩

theorem popFixSesMsg_okUnless : OkUnless .nullDereference (SameView d) d.popFixSesMsg := by
  rw [popFixSesMsg]
  split
  · exact Or.inl rfl
  · exact okUnless_ok ⟨rfl, rfl, rfl⟩

theorem sendSes_okUnless (fill : FIXSessionMessage → FIXSessionMessage) :
    OkUnless .nullDereference (SameView d) (d.sendSes fill) := by
  rw [sendSes]
  split
  · exact Or.inl rfl
  · exact okUnless_ok ⟨rfl, rfl, rfl⟩

theorem resendLogic_okUnless (n : UInt32) (now : ℕ) :
    OkUnless .nullDereference (SameView d) (d.resendLogic n now) := by
  rw [resendLogic]
  split
  · refine (sendSes_okUnless _).bind fun d' hview => ?_
    exact okUnless_ok ⟨hview.expected, hview.stored, hview.pending⟩
  · refine (sendSes_okUnless _).bind fun d' hview => ?_
    refine (sendSes_okUnless _).bind fun d'' hview' => ?_
    have hboth := hview.trans hview'
    exact okUnless_ok ⟨hboth.expected, hboth.stored, hboth.pending⟩

/-- What a session in order goes on with. -/
structure GoesOn (e n : UInt32) (msgs : List FIXVariant) (v : FIXVariant) : Prop where
  one : OnePerNumber msgs
  ordinary : ∀ w ∈ noted FIXVariant.seqnum msgs v, w.Ordinary
  from_le : e ≤ n
  missing : ¬ Received (noted FIXVariant.seqnum msgs v) n

theorem onAppMsg_okUnless {msg : FIXMessage} (h : InOrder e msgs d₀ d)
    (hv : GoesOn e n msgs (.app msg)) :
    OkUnless .nullDereference (InOrder e (noted FIXVariant.seqnum msgs (.app msg)) d₀)
      (d.onAppMsg msg) := by
  rw [onAppMsg]
  split
  · rename_i heq
    have hnoted := h.noted_of_expected (v := .app msg) heq.symm
    have hone : OnePerNumber (noted FIXVariant.seqnum msgs (.app msg)) := unique_noted hv.one
    have hord := hv.ordinary
    have hmiss := hv.missing
    rw [hnoted] at hone hord hmiss ⊢
    exact Or.inr (h.drain hone hord hv.from_le hmiss heq.symm rfl (stored_toStore_app d msg) rfl)
  · rename_i hne
    split
    · rename_i hlt
      exact okUnless_ok (h.ahead_noted hv.one hlt)
    · rename_i hge
      exact okUnless_ok (h.behind_noted hv.one (lt_of_le_of_ne (not_lt.mp hge) (Ne.symm hne)))

theorem onSesMsg_okUnless {msg : FIXSessionMessage} (now : ℕ) (h : InOrder e msgs d₀ d)
    (hmsg : (FIXVariant.ses msg).Ordinary) (hv : GoesOn e n msgs (.ses msg)) :
    OkUnless .nullDereference (InOrder e (noted FIXVariant.seqnum msgs (.ses msg)) d₀)
      (d.onSesMsg msg now) := by
  rw [onSesMsg]
  split
  · rename_i heq
    have hnoted := h.noted_of_expected (v := .ses msg) heq.symm
    have hone : OnePerNumber (noted FIXVariant.seqnum msgs (.ses msg)) := unique_noted hv.one
    have hord := hv.ordinary
    have hmiss := hv.missing
    have hview := sameView_handleSes hmsg d
    rw [hnoted] at hone hord hmiss ⊢
    exact Or.inr (h.drain hone hord hv.from_le hmiss heq.symm
      (congrArg (· + 1) hview.expected) (hview.stored.trans (List.append_nil _).symm) hview.pending)
  · rename_i hne
    split
    · rename_i hlt
      rw [if_pos hmsg.1]
      refine (resendLogic_okUnless msg.seqnum now).bind fun d' hview => okUnless_ok ?_
      exact (h.congr hview).ahead_noted hv.one (by rw [hview.expected]; exact hlt)
    · rename_i hge
      exact okUnless_ok (h.behind_noted hv.one (lt_of_le_of_ne (not_lt.mp hge) (Ne.symm hne)))

theorem parseFIXMsg_okUnless {t : FIXText} (now : ℕ) (h : InOrder e msgs d₀ d)
    (ht : t.variant.Ordinary) (hv : GoesOn e n msgs t.variant) :
    OkUnless .nullDereference (InOrder e (noted FIXVariant.seqnum msgs t.variant) d₀)
      (d.parseFIXMsg t now) := by
  rw [parseFIXMsg]
  by_cases happ : t.isApplication
  · rw [FIXText.variant, if_pos happ] at hv ⊢
    rw [if_pos happ]
    exact popFixMsg_okUnless.bind fun d' hview => onAppMsg_okUnless (h.congr hview) hv
  · rw [FIXText.variant, if_neg happ] at hv ht ⊢
    rw [if_neg happ]
    refine popFixSesMsg_okUnless.bind fun d' hview => ?_
    refine (onSesMsg_okUnless now (h.congr hview) ht hv).bind fun d'' horder => okUnless_ok ?_
    exact horder.congr (sameView_toStore_ses d'' t.fixSesMsg)

/-! ### The messages received -/

/-- The messages `sent` have been received from `d₀` on. -/
def Taken (e : UInt32) (sent : List FixSent) (d₀ d : FixDispatch) : Prop :=
  ∃ msgs, List.Forall₂ FixSent.Reads (firstArrivals FixSent.seqnum sent) msgs ∧
    OnePerNumber msgs ∧ (∀ w ∈ msgs, w.Ordinary) ∧ InOrder e msgs d₀ d

/-- **One message of the stream**: it is read into a record and handled by the session,
unless a free list is empty. -/
theorem arrive_sent {sent : List FixSent} {f : FixSent} (now : ℕ) (h : Taken e sent d₀ d)
    (hord : f.Ordinary) (hn : e ≤ n) (hmiss : ∀ g ∈ sent ++ [f], g.seqnum ≠ n) :
    OkUnless .nullDereference (Taken e (sent ++ [f]) d₀) (d.arrive (f.bytes, now)) := by
  obtain ⟨msgs, hreads, hone, hall, horder⟩ := h
  have hnumber : ∀ (g : FixSent) (w : FIXVariant), g.Reads w → w.seqnum = g.seqnum :=
    fun g w hgw => hgw.seqnum_eq
  -- whatever the message is read as, the session goes on
  have hread : ∀ t : FIXText, f.Reads t.variant →
      OkUnless .nullDereference (Taken e (sent ++ [f]) d₀) (d.parseFIXMsg t now) := by
    intro t ht
    have hreads' := forall₂_noted hnumber hreads ht
    rw [← firstArrivals_append] at hreads'
    have hordinary : ∀ w ∈ noted FIXVariant.seqnum msgs t.variant, w.Ordinary := by
      intro w hw
      rw [noted] at hw
      split at hw
      · exact hall w hw
      · rcases List.mem_append.mp hw with hw | hw
        · exact hall w hw
        · exact List.mem_singleton.mp hw ▸ ht.ordinary hord
    have hmissing : ¬ Received (noted FIXVariant.seqnum msgs t.variant) n := by
      intro hrec
      obtain ⟨g, hg, hseq⟩ := (exists_mem_firstArrivals _ n).mp
        ((exists_key_iff hnumber hreads' n).mp hrec)
      exact hmiss g hg hseq
    refine (parseFIXMsg_okUnless now horder (ht.ordinary hord)
      ⟨hone, hordinary, hn, hmissing⟩).mono fun d' hd' => ?_
    exact ⟨_, hreads', unique_noted hone, hordinary, hd'⟩
  rw [arrive, readText, f.findType_bytes]
  by_cases happ : f.isApplication = true
  · have htype : isApplicationType f.type = true := happ
    simp only [bind, Except.bind, if_pos htype]
    cases d.freeFixMsgList with
    | nil => exact Or.inl rfl
    | cons slot rest =>
      obtain ⟨msg, hmsg, hreads⟩ := f.parseInto_app happ slot
      have hvariant : (FIXText.mk f.type msg {}).variant = .app msg := if_pos htype
      simp only [hmsg]
      exact hread ⟨f.type, msg, {}⟩ (by rw [hvariant]; exact hreads)
  · have htype : ¬ isApplicationType f.type = true := happ
    simp only [bind, Except.bind, if_neg htype]
    cases d.freeFixSesMsgList with
    | nil => exact Or.inl rfl
    | cons slot rest =>
      obtain ⟨msg, hmsg, hreads⟩ := f.parseInto_ses (by simpa using happ) slot
      have hvariant : (FIXText.mk f.type {} msg).variant = .ses msg := if_neg htype
      simp only [hmsg]
      exact hread ⟨f.type, {}, msg⟩ (by rw [hvariant]; exact hreads)

/-- The messages of a packet, one after the other. -/
theorem exec_arrive {sent : List FixSent} {fs : List FixSent} {timed : List (List UInt8 × ℕ)}
    (htimed : timed.map Prod.fst = fs.map FixSent.bytes) (h : Taken e sent d₀ d)
    (hord : ∀ f ∈ fs, f.Ordinary) (hn : e ≤ n) (hmiss : ∀ g ∈ sent ++ fs, g.seqnum ≠ n) :
    OkUnless .nullDereference (Taken e (sent ++ fs) d₀) (exec arrive d timed) := by
  induction fs generalizing timed sent d with
  | nil =>
    rw [List.map_eq_nil_iff.mp htimed, List.append_nil]
    exact okUnless_ok h
  | cons f fs ih =>
    obtain ⟨⟨text, now⟩, more, rfl, htext, hmore⟩ := List.map_eq_cons_iff.mp htimed
    obtain ⟨hf, hfs⟩ := List.forall_mem_cons.mp hord
    rw [List.append_cons] at hmiss ⊢
    have htext' : text = f.bytes := htext
    subst htext'
    rw [exec]
    rcases arrive_sent now h hf hn (fun g hg => hmiss g (List.mem_append_left _ hg)) with
      herror | ⟨d', hd', htaken⟩
    · exact Or.inl (by rw [herror])
    · rw [hd']
      exact ih hmore htaken hfs hmiss

end Session

/-! ### Whole runs -/

/-- The messages of the stream that the segments complete. -/
def completed (sent : List FixSent) (segments : List (List UInt8)) : List FixSent :=
  (advance FixSent.bytes 0 sent segments.flatten.length).1

/-- From `d`, with `e` expected and nothing pending, the messages received have led to
`d'`: the first number missing is expected, and the application messages below it have
been pushed to the store in the order of their numbers, the first message of every number
and no other, each filled in from its own text. -/
structure TakenInOrder (e : UInt32) (received : List FixSent) (d d' : FixDispatch) : Prop where
  from_le : e ≤ d'.expected
  before : ∀ n, e ≤ n → n < d'.expected → ∃ f ∈ received, f.seqnum = n
  missing : ∀ f ∈ received, f.seqnum ≠ d'.expected
  delivered : ∃ fs out, d'.stored = d.stored ++ out ∧
    List.Forall₂ (fun f msg => f.Fills fixRecord msg) fs out ∧
    fs.Pairwise (fun f g => f.seqnum < g.seqnum) ∧
    ∀ f, f ∈ fs ↔ f ∈ firstArrivals FixSent.seqnum received ∧ f.isApplication = true ∧
      e ≤ f.seqnum ∧ f.seqnum < d'.expected

theorem taken_nil {d : FixDispatch} (h : d.pendingToStoreMap = ∅) : Taken d.expected [] d d := by
  refine ⟨[], .nil, fun v hv => absurd hv List.not_mem_nil,
    fun v hv => absurd hv List.not_mem_nil, ?_⟩
  refine ⟨⟨le_rfl, fun n hn hlt => absurd hlt (not_lt.mpr hn), ?_⟩,
    ⟨[], (List.append_nil _).symm, List.Pairwise.nil, fun msg => ?_⟩, fun k v => ?_⟩
  · rintro ⟨v, hv, -⟩
    exact absurd hv List.not_mem_nil
  · simp
  · rw [h]
    simp

theorem Taken.congr {e : UInt32} {received : List FixSent} {d₀ d d' : FixDispatch}
    (h : Taken e received d₀ d) (hview : SameView d d') : Taken e received d₀ d' := by
  obtain ⟨msgs, hreads, hone, hord, horder⟩ := h
  exact ⟨msgs, hreads, hone, hord, horder.congr hview⟩

theorem Taken.inOrder {e : UInt32} {received : List FixSent} {d d' : FixDispatch}
    (h : Taken e received d d') : TakenInOrder e received d d' := by
  obtain ⟨msgs, hreads, hone, -, horder⟩ := h
  have hnumber : ∀ (g : FixSent) (w : FIXVariant), g.Reads w → w.seqnum = g.seqnum :=
    fun g w hgw => hgw.seqnum_eq
  have hreceived : ∀ n, Received msgs n ↔ ∃ f ∈ received, f.seqnum = n := fun n =>
    (exists_key_iff hnumber hreads n).trans (exists_mem_firstArrivals _ n)
  obtain ⟨out, hstored, hinc, hexact⟩ := horder.delivered
  refine ⟨horder.first.from_le, fun n hn hlt => (hreceived n).mp (horder.first.before n hn hlt),
    fun f hf heq => horder.first.missing ((hreceived _).mpr ⟨f, hf, heq⟩), ?_⟩
  -- every message pushed was read from one that came
  obtain ⟨fs, hfs⟩ : ∃ fs, List.Forall₂
      (fun f msg => f ∈ firstArrivals FixSent.seqnum received ∧ f.Reads (.app msg)) fs out := by
    refine exists_forall₂ fun msg hmsg => ?_
    exact exists_left hreads _ ((hexact msg).mp hmsg).1
  have hseq : ∀ f msg, f ∈ firstArrivals FixSent.seqnum received ∧ f.Reads (.app msg) →
      msg.seqnum = f.seqnum := fun f msg h => h.2.seqnum_eq
  refine ⟨fs, out, hstored, hfs.imp fun f msg h => h.2.2.2, ?_, fun f => ⟨fun hf => ?_, ?_⟩⟩
  · have hmap := List.pairwise_map.mpr hinc
    rw [map_key_eq hseq hfs] at hmap
    exact List.pairwise_map.mp hmap
  · obtain ⟨msg, hmsg, hf, hread⟩ := exists_right hfs f hf
    obtain ⟨-, hrange⟩ := (hexact msg).mp hmsg
    rw [hseq f msg ⟨hf, hread⟩] at hrange
    exact ⟨hf, hread.1, hrange⟩
  · rintro ⟨hf, happ, hrange⟩
    obtain ⟨w, hw, hread⟩ := exists_right hreads f hf
    cases w with
    | ses msg => exact absurd (happ.symm.trans hread.1) (by decide)
    | app msg =>
      have hmsg : msg ∈ out := (hexact msg).mpr ⟨hw, by rw [hread.2.1]; exact hrange⟩
      obtain ⟨g, hg, hmem, hread'⟩ := exists_left hfs msg hmsg
      -- one message per number
      have hgf : g = f := unique_firstArrivals received g hmem f hf
        (hread'.seqnum_eq.symm.trans hread.seqnum_eq)
      exact hgf ▸ hg

section Run

variable {e n : UInt32} {got rest : List FixSent} {d₀ : FixDispatch} {s : FixInbound} {k : ℕ}

theorem inside_frames (h : StreamFraming.Inside FixSent.bytes k rest) :
    StreamFraming.Inside FixFrame.bytes k (rest.map FixSent.frame) := by
  cases rest with
  | nil => exact h
  | cons f fs => exact h

theorem advance_frames (k : ℕ) (fs : List FixSent) (n : ℕ) :
    advance FixFrame.bytes k (fs.map FixSent.frame) n =
      ((advance FixSent.bytes k fs n).1.map FixSent.frame, (advance FixSent.bytes k fs n).2.1,
        (advance FixSent.bytes k fs n).2.2.map FixSent.frame) :=
  advance_map FixSent.frame k fs n

theorem stream_frames (fs : List FixSent) :
    stream FixFrame.bytes (fs.map FixSent.frame) = stream FixSent.bytes fs := by
  rw [stream, List.map_map]
  rfl

/-- **One packet**: its messages are taken out and handled, and the buffer is left at the
place the packet leads to. -/
theorem packet_sent {pkt : RxPacket} {segment : List UInt8} (clock : ℕ → ℕ)
    (h : Taken e got d₀ s.dispatch) (hplace : AtPlace s.buf k (rest.map FixSent.frame))
    (hin : StreamFraming.Inside FixSent.bytes k rest)
    (hgood : ¬ PlaceInsideHead FixFrame.header k (rest.map FixSent.frame))
    (hcarry : Carries pkt segment) (hne : segment ≠ [])
    (hpre : segment <+: (stream FixSent.bytes rest).drop k)
    (hord : ∀ f ∈ rest, f.Ordinary) (hn : e ≤ n) (hmiss : ∀ g ∈ got ++ rest, g.seqnum ≠ n) :
    OkUnless .nullDereference (fun s' : FixInbound =>
        Taken e (got ++ (advance FixSent.bytes k rest segment.length).1) d₀ s'.dispatch ∧
          AtPlace s'.buf (advance FixSent.bytes k rest segment.length).2.1
            ((advance FixSent.bytes k rest segment.length).2.2.map FixSent.frame))
      (s.step (.packet pkt clock)) := by
  have hstream := stream_frames rest
  obtain ⟨buf, hparse, hplace'⟩ :=
    parseFIX_place hplace (inside_frames hin) hgood hcarry hne (hstream ▸ hpre)
  have hadvance := advance_frames k rest segment.length
  have hmap : (advance FixFrame.bytes k (rest.map FixSent.frame) segment.length).1.map
      FixFrame.bytes = (advance FixSent.bytes k rest segment.length).1.map FixSent.bytes := by
    rw [hadvance, List.map_map]
    rfl
  rw [hmap] at hparse
  rw [hadvance] at hplace'
  obtain ⟨timed, htimed, hloop⟩ := takeMessages_eq clock hparse
  have hsplit : (advance FixSent.bytes k rest segment.length).1 ++ _ = rest :=
    advance_append k rest segment.length
  have hsub : ∀ f ∈ (advance FixSent.bytes k rest segment.length).1, f ∈ rest :=
    fun f hf => hsplit ▸ List.mem_append_left _ hf
  have hrun := exec_arrive htimed h (fun f hf => hord f (hsub f hf)) hn fun g hg => hmiss g <| by
    rcases List.mem_append.mp hg with hg | hg
    · exact List.mem_append_left _ hg
    · exact List.mem_append_right _ (hsub g hg)
  rw [FixInbound.step, hloop s.dispatch]
  rcases hrun with herror | ⟨d, hd, htaken⟩
  · rw [herror]
    exact Or.inl rfl
  · rw [hd]
    exact okUnless_ok ⟨htaken, hplace'⟩

/-- **Along a run.** -/
theorem exec_sent {segments : List (List UInt8)} (events : List FixTraffic)
    (h : Taken e got d₀ s.dispatch) (hplace : AtPlace s.buf k (rest.map FixSent.frame))
    (hin : StreamFraming.Inside FixSent.bytes k rest)
    (hcarry : List.Forall₂ Carries (packetsIn events) segments)
    (hstream : segments.flatten <+: (stream FixSent.bytes rest).drop k)
    (hne : ∀ segment ∈ segments, segment ≠ [])
    (hgood : ∀ p, CutAt segments p → ¬ LeadsInsideHeader k (rest.map FixSent.frame) p)
    (hord : ∀ f ∈ rest, f.Ordinary) (hn : e ≤ n) (hmiss : ∀ g ∈ got ++ rest, g.seqnum ≠ n) :
    OkUnless .nullDereference (fun s' : FixInbound =>
        Taken e (got ++ (advance FixSent.bytes k rest segments.flatten.length).1) d₀ s'.dispatch)
      (exec FixInbound.step s events) := by
  induction events generalizing s got rest k segments with
  | nil =>
    cases hcarry
    rw [List.flatten_nil, List.length_nil, advance_zero hin, List.append_nil]
    exact okUnless_ok h
  | cons event events ih =>
    cases event with
    | releaseApp msg =>
      rw [exec_cons_ok events rfl]
      exact ih (h.congr ⟨rfl, rfl, rfl⟩) hplace hin hcarry hstream hne hgood hord hmiss
    | releaseSes msg =>
      rw [exec_cons_ok events rfl]
      exact ih (h.congr ⟨rfl, rfl, rfl⟩) hplace hin hcarry hstream hne hgood hord hmiss
    | packet pkt clock =>
      cases hcarry with
      | @cons _ segment _ segments hpkt hcarry =>
        obtain ⟨hsegment, hne⟩ := List.forall_mem_cons.mp hne
        rw [List.flatten_cons] at hstream
        have hstart : ¬ PlaceInsideHead FixFrame.header k (rest.map FixSent.frame) := by
          intro hinside
          exact hgood 0 (cutAt_zero _) ((leadsInsideHeader_zero (inside_frames hin)).mpr hinside)
        have hsplit : (advance FixSent.bytes k rest segment.length).1 ++ _ = rest :=
          advance_append k rest segment.length
        have hstep := packet_sent clock h hplace hin hstart hpkt hsegment
          ((List.prefix_append _ _).trans hstream) hord hn hmiss
        rcases hstep with herror | ⟨s', hs', htaken, hplace'⟩
        · exact Or.inl (by rw [exec, herror])
        · rw [exec_cons_ok events hs', List.flatten_cons, List.length_append, advance_fst_add,
            ← List.append_assoc]
          refine ih htaken hplace' (inside_advance k rest segment.length) hcarry ?_ hne ?_ ?_ ?_
          · rw [drop_advance]
            obtain ⟨more, hmore⟩ := hstream
            rw [← hmore, List.append_assoc, List.drop_left]
            exact List.prefix_append _ _
          · intro p hp
            have hleads : LeadsInsideHeader _ _ p ↔
                LeadsInsideHeader k (rest.map FixSent.frame) _ :=
              leadsInsideHeader_advance segment.length p
            rw [advance_frames] at hleads
            exact hleads.not.mpr (hgood _ (hp.cons segment))
          · exact fun f hf => hord f (hsplit ▸ List.mem_append_right _ hf)
          · intro g hg
            rw [List.append_assoc, hsplit] at hg
            exact hmiss g hg

end Run

theorem isDigits_singleton (k : Fin 10) : IsDigits [digitChar k] := by
  intro c hc
  exact ⟨k, k.2, List.mem_singleton.mp hc⟩

/-- `8=F|9=10|35=8|34=<k>|10=123|`. -/
def numberedReport (k : Fin 10) : FixSent where
  frame :=
    { beginString := [0x46]
      digits := [0x31, 0x30]
      body := piecesText [⟨[0x33, 0x35], [0x38]⟩, ⟨[0x33, 0x34], [digitChar k]⟩]
      checkSum := [0x31, 0x32, 0x33]
      begin_ne := shortFrame.begin_ne
      begin_head := shortFrame.begin_head
      begin_free := shortFrame.begin_free
      digits_digit := by simp [isDigit]
      bodyLength := ⟨by decide, rfl⟩
      checkSum_digits := shortFrame.checkSum_digits
      fits := Nat.le_of_ble_eq_true rfl }
  type := 0x38
  seqnum := UInt32.ofNat k
  fields := [⟨[0x33, 0x34], [digitChar k]⟩]
  body_eq := rfl
  type_ne := by decide
  wellFormed := by
    refine List.forall_mem_singleton.mpr ⟨by simp, isDigits_of_all rfl, by simp, fun hmem => ?_⟩
    obtain ⟨d, hd, hsoh⟩ := isDigits_singleton k soh hmem
    have hval := congrArg UInt8.toNat hsoh
    rw [toNat_digitChar hd] at hval
    have hone : soh.toNat = 1 := rfl
    omega
  inTable := List.forall_mem_singleton.mpr (by decide : readDecimal 0 [0x33, 0x34] < 512)
  typeOnce := List.forall_mem_singleton.mpr (by decide : readDecimal 0 [0x33, 0x34] ≠ 35)
  numbered := ⟨_, List.mem_singleton_self _, rfl⟩
  number := List.forall_mem_singleton.mpr fun _ => ⟨isDigits_singleton k, by revert k; decide⟩

/-- The second report, and the first one cut in its body. -/
def reportSegments : List (List UInt8) :=
  [(numberedReport 2).bytes ++ (numberedReport 1).bytes.take 12, (numberedReport 1).bytes.drop 12]

theorem cutAt_reportSegments {p : ℕ} (hp : CutAt reportSegments p) : p = 0 ∨ p = 38 ∨ p = 52 := by
  obtain rfl | ⟨q, hq, rfl⟩ := cutAt_cons_cases hp
  · exact .inl rfl
  · obtain rfl | ⟨r, hr, rfl⟩ := cutAt_cons_cases hq
    · exact .inr (.inl rfl)
    · rw [eq_zero_of_cutAt_nil hr]
      exact .inr (.inr rfl)

end TradingEngine
