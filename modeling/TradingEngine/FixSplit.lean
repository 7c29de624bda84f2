/-
The fields of a FIX message and the scanner of `Parser_FIX::parse`.

A message is a sequence of pieces: the bytes before `=`, and those from there up
to SOH.  The scanner looks for these two bytes only; the tag is the number that the
digits before `=` form, and it is used as an index without a check.

* `parse_pieces` — on the text of a sequence of pieces, whatever stands behind it,
  the scanner calls one handler for each piece, in order, with its value;
* `parse_wellFormed` — so for well-formed fields with tags inside the table it is
  the left fold of the handlers, and no handler fails;
* `splitPieces_piecesText` — the pieces are determined by the text;
* `exists_pieces_of_parseLoop` — a scan that reads nothing behind the message has
  found it to be a sequence of pieces with numbers inside the table;
* `parsesSafely_iff` — which is therefore the exact condition for a safe scan.
-/
import Mathlib.Data.List.TakeWhile
import TradingEngine.FixParse

namespace TradingEngine

open DecimalText

/-! ### The table of the session messages -/

/-- `MAX_SESTAG`. -/
def maxSesTag : ℕ := 2048

/-- A handler that cannot fail. -/
def setSesField (set : List UInt8 → FIXSessionMessage → FIXSessionMessage) :
    TagHandler FIXSessionMessage := fun val msg => .ok (set val msg)

/-- A handler that stores the first character of the value. -/
def setSesChar (set : UInt8 → FIXSessionMessage → FIXSessionMessage) :
    TagHandler FIXSessionMessage := fun val msg => do
  let c ← parseChar val
  .ok (set c msg)

/-- The entries of `makeSesTagHandlersLookup`; `TEXT_SIZE` is `ID_SIZE`. -/
def sesTagHandlerEntries : List (ℕ × TagHandler FIXSessionMessage) :=
  [(35, setSesChar fun c msg => { msg with msgType := c }),
    (34, setSesField fun val msg => { msg with seqnum := (parseNum val).toUInt32 }),
    (43, setSesChar fun c msg => { msg with possDubFlag := c }),
    (122, setSesField fun val msg => { msg with orgSendingTime := (parseNum val).toUInt32 }),
    (52, setSesField fun val msg => { msg with sendingTime := (parseNum val).toUInt32 }),
    (141, setSesChar fun c msg => { msg with resetSeqnumFlag := c }),
    (108, setSesField fun val msg => { msg with interval := (parseNum val).toUInt32 }),
    (1409, setSesField fun val msg => { msg with sesStatus := (parseNum val).toUInt32 }),
    (123, setSesChar fun c msg => { msg with gapFillFlag := c }),
    (36, setSesField fun val msg => { msg with newSeqnum := (parseNum val).toUInt32 }),
    (7, setSesField fun val msg => { msg with beginSeqnum := (parseNum val).toUInt32 }),
    (16, setSesField fun val msg => { msg with endSeqnum := (parseNum val).toUInt32 }),
    (45, setSesField fun val msg => { msg with refSeqnum := (parseNum val).toUInt32 }),
    (373, setSesField fun val msg => { msg with rejectReason := (parseNum val).toUInt8 }),
    (112, setSesField fun val msg => { msg with testReqId := (parseNum val).toUInt32 }),
    (58, setSesField fun val msg => { msg with text := copyText msg.text val })]

/-- A handler table of `size` entries; an index behind it is a fault. -/
def handlerTable {μ : Type} (size : ℕ) (entries : List (ℕ × TagHandler μ)) : HandlerLookup μ :=
  fun tag => if tag < size then .ok (entries.lookup tag) else .error .outOfBounds

/-- `SestagHandlers[tag]`. -/
def sesTagHandlers : HandlerLookup FIXSessionMessage := handlerTable maxSesTag sesTagHandlerEntries

/-! ### Pieces -/

/-- A field as it stands in a message: the bytes before `=` and those before SOH. -/
structure FixPiece where
  tag : List UInt8
  value : List UInt8
  deriving DecidableEq, Repr

namespace FixPiece

def text (p : FixPiece) : List UInt8 := p.tag ++ equals :: (p.value ++ [soh])

/-- The index that the scanner takes from the tag. -/
def number (p : FixPiece) : ℕ := (parseNum p.tag).toNat

/-- The piece is delimited by its first `=` and the SOH behind it. -/
def Delimited (p : FixPiece) : Prop := equals ∉ p.tag ∧ soh ∉ p.value

instance (p : FixPiece) : Decidable p.Delimited := inferInstanceAs (Decidable (_ ∧ _))

/-- `<digits>=<value>SOH` with a value that is not empty. -/
structure WellFormed (p : FixPiece) : Prop where
  tag_ne : p.tag ≠ []
  digits : IsDigits p.tag
  value_ne : p.value ≠ []
  value : soh ∉ p.value

/-- The tag as a number. -/
def tagNumber (p : FixPiece) : ℕ := readDecimal 0 p.tag

theorem text_append (p : FixPiece) (rest : List UInt8) :
    p.text ++ rest = p.tag ++ equals :: (p.value ++ soh :: rest) := by
  rw [text, List.append_assoc, List.cons_append, List.append_assoc]
  rfl

theorem length_text (p : FixPiece) : p.text.length = p.tag.length + p.value.length + 2 := by
  simp only [text, List.length_append, List.length_cons, List.length_nil]
  omega

theorem WellFormed.delimited {p : FixPiece} (h : p.WellFormed) : p.Delimited := by
  refine ⟨fun hmem => ?_, h.value⟩
  obtain ⟨d, hd, heq⟩ := h.digits _ hmem
  have hval := congrArg UInt8.toNat heq
  rw [toNat_digitChar hd] at hval
  have heqs : equals.toNat = 0x3D := by decide
  omega

/-- The scanner reads the number of a tag of digits modulo `2 ^ 64`. -/
theorem WellFormed.number_eq {p : FixPiece} (h : p.WellFormed) :
    p.number = p.tagNumber % 2 ^ 64 := by
  rw [number, parseNum_eq_foldl h.digits, foldl_addDigit h.digits]
  rfl

end FixPiece

/-- The text of a message. -/
def piecesText (ps : List FixPiece) : List UInt8 := ps.flatMap FixPiece.text

@[simp] theorem piecesText_nil : piecesText [] = [] := rfl

theorem piecesText_cons (p : FixPiece) (ps : List FixPiece) :
    piecesText (p :: ps) = p.text ++ piecesText ps := rfl

theorem length_le_length_piecesText (ps : List FixPiece) : ps.length ≤ (piecesText ps).length := by
  induction ps with
  | nil => exact le_refl _
  | cons p ps ih =>
    rw [piecesText_cons, List.length_append, p.length_text, List.length_cons]
    omega

/-- The text cut at every first `=` and the SOH behind it, for at most `fuel` pieces. -/
def cutPieces : ℕ → List UInt8 → List FixPiece
  | 0, _ => []
  | _ + 1, [] => []
  | fuel + 1, c :: text =>
    let tag := (c :: text).takeWhile (· ≠ equals)
    let after := ((c :: text).dropWhile (· ≠ equals)).drop 1
    ⟨tag, after.takeWhile (· ≠ soh)⟩ :: cutPieces fuel ((after.dropWhile (· ≠ soh)).drop 1)

/-- The pieces of a message. -/
def splitPieces (text : List UInt8) : List FixPiece := cutPieces text.length text

theorem cutPieces_piecesText {ps : List FixPiece} {fuel : ℕ} (hps : ∀ p ∈ ps, p.Delimited)
    (hfuel : ps.length ≤ fuel) : cutPieces fuel (piecesText ps) = ps := by
  induction ps generalizing fuel with
  | nil => cases fuel <;> rfl
  | cons p ps ih =>
    obtain ⟨k, rfl⟩ : ∃ k, fuel = k + 1 := ⟨fuel - 1, by rw [List.length_cons] at hfuel; omega⟩
    have hp := hps p List.mem_cons_self
    have htext : piecesText (p :: ps) = p.tag ++ equals :: (p.value ++ soh :: piecesText ps) := by
      rw [piecesText_cons, p.text_append]
    have hne : p.tag ++ equals :: (p.value ++ soh :: piecesText ps) ≠ [] := by simp
    have hcut : ∀ s : List UInt8, s ≠ [] → cutPieces (k + 1) s =
        ⟨s.takeWhile (· ≠ equals), ((s.dropWhile (· ≠ equals)).drop 1).takeWhile (· ≠ soh)⟩ ::
          cutPieces k ((((s.dropWhile (· ≠ equals)).drop 1).dropWhile (· ≠ soh)).drop 1) := by
      intro s hs
      cases s with
      | nil => exact absurd rfl hs
      | cons c s => rfl
    rw [htext, hcut _ hne, takeWhile_ne_append_cons hp.1, dropWhile_ne_append_cons hp.1,
      List.drop_one, List.tail_cons, takeWhile_ne_append_cons hp.2,
      dropWhile_ne_append_cons hp.2, List.drop_one, List.tail_cons,
      ih (fun q hq => hps q (List.mem_cons_of_mem _ hq))
        (Nat.le_of_succ_le_succ (by rw [List.length_cons] at hfuel; exact hfuel))]

/-- A text of pieces has no other decomposition. -/
theorem splitPieces_piecesText {ps : List FixPiece} (hps : ∀ p ∈ ps, p.Delimited) :
    splitPieces (piecesText ps) = ps :=
  cutPieces_piecesText hps (length_le_length_piecesText ps)

/-! ### The scanner on pieces -/

section Pieces

variable {μ : Type} {handlers : HandlerLookup μ} {mem : List UInt8} {len : ℕ}

/-- The handlers of the pieces, one after the other. -/
def applyPieces (handlers : HandlerLookup μ) (ps : List FixPiece) (msg : μ) : Except Fault μ :=
  ps.foldlM (fun msg p => applyHandler handlers p.number p.value msg) msg

theorem applyPieces_cons (p : FixPiece) (ps : List FixPiece) (msg : μ) :
    applyPieces handlers (p :: ps) msg =
      (do
        let msg' ← applyHandler handlers p.number p.value msg
        applyPieces handlers ps msg') := List.foldlM_cons

/-- The scanner at the beginning of a piece. -/
theorem parseField_piece {pos : ℕ} {rest : List UInt8} {p : FixPiece} (msg : μ) (hp : p.Delimited)
    (hmem : mem.drop pos = p.text ++ rest) (hlen : pos + p.text.length ≤ len)
    (hfits : len ≤ mem.length) :
    parseField handlers mem len pos msg =
      (do
        let msg' ← applyHandler handlers p.number p.value msg
        .ok (pos + p.text.length, msg')) := by
  have hsize := p.length_text
  have hnext : pos + p.tag.length + p.value.length + 2 = pos + p.text.length := by omega
  rw [p.text_append] at hmem
  rw [parseField_eq msg hmem hp.1 hp.2 (by omega) hfits, hnext]
  rfl

/-- The scanner stays aligned with the pieces: it calls their handlers in order. -/
theorem parseLoop_pieces {ps : List FixPiece} {behind : List UInt8} {pos fuel : ℕ} (msg : μ)
    (hps : ∀ p ∈ ps, p.Delimited) (hmem : mem.drop pos = piecesText ps ++ behind)
    (hlen : pos + (piecesText ps).length = len) (hfits : len ≤ mem.length)
    (hfuel : ps.length < fuel) :
    parseLoop handlers mem len fuel pos msg = applyPieces handlers ps msg := by
  induction ps generalizing pos fuel msg with
  | nil =>
    obtain ⟨k, rfl⟩ : ∃ k, fuel = k + 1 := ⟨fuel - 1, by omega⟩
    have hend : ¬ pos < len := by
      rw [piecesText_nil, List.length_nil] at hlen
      omega
    rw [parseLoop, if_neg hend]
    rfl
  | cons p ps ih =>
    obtain ⟨k, rfl⟩ : ∃ k, fuel = k + 1 := ⟨fuel - 1, by omega⟩
    have hsize := p.length_text
    rw [piecesText_cons, List.length_append] at hlen
    rw [piecesText_cons, List.append_assoc] at hmem
    have hrest : mem.drop (pos + p.text.length) = piecesText ps ++ behind := by
      rw [← List.drop_drop, hmem, List.drop_left]
    rw [parseLoop, if_pos (by omega), applyPieces_cons,
      parseField_piece msg (hps p List.mem_cons_self) hmem (by omega) hfits]
    cases hmsg : applyHandler handlers p.number p.value msg with
    | error e => rfl
    | ok msg' =>
      exact ih msg' (fun q hq => hps q (List.mem_cons_of_mem _ hq)) hrest (by omega)
        (Nat.lt_of_succ_lt_succ hfuel)

theorem parse_pieces {ps : List FixPiece} (behind : List UInt8) (msg : μ)
    (hps : ∀ p ∈ ps, p.Delimited) :
    parse handlers (piecesText ps ++ behind) (piecesText ps).length msg
      = applyPieces handlers ps msg := by
  have hcount := length_le_length_piecesText ps
  exact parseLoop_pieces msg hps rfl (Nat.zero_add _)
    (by rw [List.length_append]; exact Nat.le_add_right _ _) (by omega)

/-! ### Well-formed messages -/

/-- The reference: the handlers registered for the fields' tags, in order, each on
the value of its field. -/
def foldFields (handlers : HandlerLookup μ) (ps : List FixPiece) (msg : μ) : Except Fault μ :=
  ps.foldlM (fun msg p => applyHandler handlers p.tagNumber p.value msg) msg

theorem applyPieces_wellFormed {ps : List FixPiece} (msg : μ) (hps : ∀ p ∈ ps, p.WellFormed)
    (htag : ∀ p ∈ ps, p.tagNumber < 2 ^ 64) :
    applyPieces handlers ps msg = foldFields handlers ps msg := by
  induction ps generalizing msg with
  | nil => rfl
  | cons p ps ih =>
    have hnumber : p.number = p.tagNumber := by
      rw [(hps p List.mem_cons_self).number_eq, Nat.mod_eq_of_lt (htag p List.mem_cons_self)]
    rw [applyPieces_cons, foldFields, List.foldlM_cons, hnumber]
    refine bind_congr fun msg' => ?_
    exact ih msg' (fun q hq => hps q (List.mem_cons_of_mem _ hq))
      (fun q hq => htag q (List.mem_cons_of_mem _ hq))

/-- A handler that succeeds on every value that is not empty. -/
def Handles (h : TagHandler μ) : Prop := ∀ val msg, val ≠ [] → ∃ msg', h val msg = .ok msg'

theorem applyHandler_handles {size : ℕ} {entries : List (ℕ × TagHandler μ)} {tag : ℕ}
    {val : List UInt8} (msg : μ) (hall : ∀ e ∈ entries, Handles e.2) (htag : tag < size)
    (hval : val ≠ []) : ∃ msg', applyHandler (handlerTable size entries) tag val msg = .ok msg' := by
  have htable : handlerTable size entries tag = .ok (entries.lookup tag) := if_pos htag
  rw [applyHandler, htable]
  cases hlook : entries.lookup tag with
  | none => exact ⟨msg, rfl⟩
  | some h =>
    obtain ⟨e, he, rfl⟩ : ∃ e ∈ entries, e.2 = h := by
      obtain ⟨l₁, l₂, heq, -⟩ := List.lookup_eq_some_iff.mp hlook
      exact ⟨(tag, h), by rw [heq]; simp, rfl⟩
    exact hall e he val msg hval

theorem foldFields_ok {size : ℕ} {entries : List (ℕ × TagHandler μ)} {ps : List FixPiece} (msg : μ)
    (hall : ∀ e ∈ entries, Handles e.2) (hps : ∀ p ∈ ps, p.WellFormed)
    (htag : ∀ p ∈ ps, p.tagNumber < size) :
    ∃ msg', foldFields (handlerTable size entries) ps msg = .ok msg' := by
  induction ps generalizing msg with
  | nil => exact ⟨msg, rfl⟩
  | cons p ps ih =>
    obtain ⟨msg', hmsg'⟩ := applyHandler_handles msg hall (htag p List.mem_cons_self)
      (hps p List.mem_cons_self).value_ne
    obtain ⟨out, hout⟩ := ih msg' (fun q hq => hps q (List.mem_cons_of_mem _ hq))
      (fun q hq => htag q (List.mem_cons_of_mem _ hq))
    refine ⟨out, ?_⟩
    rw [foldFields, List.foldlM_cons, hmsg']
    exact hout

end Pieces

theorem handles_value {μ : Type} (set : List UInt8 → μ → μ) :
    Handles fun val msg => .ok (set val msg) := fun val msg _ => ⟨set val msg, rfl⟩

theorem handles_char {μ : Type} (set : UInt8 → μ → μ) :
    Handles (fun val msg => (do
      let c ← parseChar val
      .ok (set c msg))) := by
  intro val msg hval
  cases val with
  | nil => exact absurd rfl hval
  | cons c val => exact ⟨set c msg, rfl⟩

theorem handles_tagHandlerEntries : ∀ e ∈ tagHandlerEntries, Handles e.2 := by
  have hvalue : ∀ set, Handles (setField set) := fun set => handles_value set
  have hchar : ∀ set, Handles (setChar set) := fun set => handles_char set
  simp only [tagHandlerEntries, List.forall_mem_cons, List.not_mem_nil, IsEmpty.forall_iff,
    implies_true, hvalue, hchar, and_self]

theorem handles_sesTagHandlerEntries : ∀ e ∈ sesTagHandlerEntries, Handles e.2 := by
  have hvalue : ∀ set, Handles (setSesField set) := fun set => handles_value set
  have hchar : ∀ set, Handles (setSesChar set) := fun set => handles_char set
  simp only [sesTagHandlerEntries, List.forall_mem_cons, List.not_mem_nil, IsEmpty.forall_iff,
    implies_true, hvalue, hchar, and_self]

/-- **A well-formed message is the left fold of the handlers over its fields**: on any
table with tags inside it, and on the two tables of the parser, whose handlers then all
succeed.  What stands behind the message is not looked at. -/
theorem parse_wellFormed (ps : List FixPiece) (behind : List UInt8)
    (hps : ∀ p ∈ ps, p.WellFormed) :
    (∀ (μ : Type) (size : ℕ) (entries : List (ℕ × TagHandler μ)) (slot : μ), size ≤ 2 ^ 64 →
      (∀ p ∈ ps, p.tagNumber < size) →
      parse (handlerTable size entries) (piecesText ps ++ behind) (piecesText ps).length slot
        = foldFields (handlerTable size entries) ps slot) ∧
    ((∀ p ∈ ps, p.tagNumber < maxTag) → ∀ slot, ∃ msg,
      parse tagHandlers (piecesText ps ++ behind) (piecesText ps).length slot = .ok msg ∧
      foldFields tagHandlers ps slot = .ok msg) ∧
    ((∀ p ∈ ps, p.tagNumber < maxSesTag) → ∀ slot, ∃ msg,
      parse sesTagHandlers (piecesText ps ++ behind) (piecesText ps).length slot = .ok msg ∧
      foldFields sesTagHandlers ps slot = .ok msg) := by
  have hfold : ∀ (μ : Type) (size : ℕ) (entries : List (ℕ × TagHandler μ)) (slot : μ),
      size ≤ 2 ^ 64 → (∀ p ∈ ps, p.tagNumber < size) →
      parse (handlerTable size entries) (piecesText ps ++ behind) (piecesText ps).length slot
        = foldFields (handlerTable size entries) ps slot := by
    intro μ size entries slot hsize htag
    rw [parse_pieces behind slot fun p hp => (hps p hp).delimited]
    exact applyPieces_wellFormed slot hps fun p hp => lt_of_lt_of_le (htag p hp) hsize
  refine ⟨hfold, fun htag slot => ?_, fun htag slot => ?_⟩
  · obtain ⟨msg, hmsg⟩ := foldFields_ok slot handles_tagHandlerEntries hps htag
    exact ⟨msg, (hfold _ _ _ slot (by decide) htag).trans hmsg, hmsg⟩
  · obtain ⟨msg, hmsg⟩ := foldFields_ok slot handles_sesTagHandlerEntries hps htag
    exact ⟨msg, (hfold _ _ _ slot (by decide) htag).trans hmsg, hmsg⟩

theorem isDigits_of_all {text : List UInt8} (h : text.all isDigit = true) : IsDigits text := by
  intro c hc
  have hbounds := List.all_eq_true.mp h c hc
  rw [isDigit, Bool.and_eq_true, decide_eq_true_iff, decide_eq_true_iff, UInt8.le_iff_toNat_le,
    UInt8.le_iff_toNat_le] at hbounds
  have hlow : (0x30 : UInt8).toNat = 0x30 := rfl
  have hhigh : (0x39 : UInt8).toNat = 0x39 := rfl
  have hd : c.toNat - 0x30 < 10 := by omega
  refine ⟨c.toNat - 0x30, hd, UInt8.toNat_inj.mp ?_⟩
  rw [toNat_digitChar hd]
  omega

/-- `35=8`, and a symbol whose tag has a leading zero and whose value has an `=`. -/
def reportPieces : List FixPiece := [⟨[0x33, 0x35], [0x38]⟩, ⟨[0x30, 0x35, 0x35], [0x41, 0x3D]⟩]

theorem parse_wellFormed_reportPieces :
    ∃ msg, parse tagHandlers (piecesText reportPieces ++ [0x38]) (piecesText reportPieces).length {}
      = .ok msg ∧ foldFields tagHandlers reportPieces {} = .ok msg := by
  have hwf : ∀ p ∈ reportPieces, p.WellFormed := List.forall_mem_cons.mpr
    ⟨⟨by decide, isDigits_of_all (by decide), by decide, by decide⟩,
      List.forall_mem_singleton.mpr
        ⟨by decide, isDigits_of_all (by decide), by decide, by decide⟩⟩
  exact (parse_wellFormed reportPieces [0x38] hwf).2.1 (by decide) {}

/-! ### Arbitrary bytes -/

section Arbitrary

variable {μ : Type} {handlers : HandlerLookup μ} {mem : List UInt8}

/-- A position found by a scan for `b` is that of the first `b`. -/
theorem drop_eq_of_lt {b : UInt8} {pos : ℕ}
    (h : pos + ((mem.drop pos).takeWhile (· ≠ b)).length < mem.length) :
    ∃ before after, mem.drop pos = before ++ b :: after ∧ b ∉ before ∧
      ((mem.drop pos).takeWhile (· ≠ b)) = before := by
  have hmem : b ∈ mem.drop pos := by
    by_contra hnone
    have hall : (mem.drop pos).takeWhile (· ≠ b) = mem.drop pos :=
      List.takeWhile_eq_self_iff.mpr fun c hc => by
        simp only [ne_eq, decide_not, Bool.not_eq_eq_eq_not, Bool.not_true,
          decide_eq_false_iff_not]
        rintro rfl
        exact hnone hc
    rw [hall, List.length_drop] at h
    omega
  obtain ⟨before, after, hsplit, hbefore⟩ := List.eq_append_cons_of_mem hmem
  refine ⟨before, after, hsplit, hbefore, ?_⟩
  rw [hsplit, takeWhile_ne_append_cons hbefore]

/-- A round of the scanner that reads nothing behind the message has found a piece. -/
theorem exists_piece_of_parseField {pos next : ℕ} {msg msg' : μ}
    (h : parseField handlers mem mem.length pos msg = .ok (next, msg')) :
    ∃ p : FixPiece, p.Delimited ∧ mem.drop pos = p.text ++ mem.drop next ∧
      next = pos + p.text.length ∧ next ≤ mem.length ∧
      applyHandler handlers p.number p.value msg = .ok msg' := by
  obtain ⟨found, hfound, h⟩ := FallibleRun.bind_eq_ok_iff.mp h
  obtain ⟨⟨eqPos, sohStart, tag⟩, hloc, h⟩ := FallibleRun.bind_eq_ok_iff.mp h
  obtain ⟨sohPos, hsoh, h⟩ := FallibleRun.bind_eq_ok_iff.mp h
  obtain ⟨out, happ, h⟩ := FallibleRun.bind_eq_ok_iff.mp h
  obtain ⟨rfl, rfl⟩ := Prod.mk.inj (Except.ok.inj h)
  -- `=` is found inside the message: at its end the byte behind would be read
  have heq : pos + ((mem.drop pos).takeWhile (· ≠ equals)).length < mem.length ∧
      found = pos + ((mem.drop pos).takeWhile (· ≠ equals)).length := by
    unfold seekEquals at hfound
    by_cases hlt : pos + ((mem.drop pos).takeWhile (· ≠ equals)).length < mem.length
    · rw [if_pos hlt] at hfound
      exact ⟨hlt, (Except.ok.inj hfound).symm⟩
    · rw [if_neg hlt, if_neg (lt_irrefl _)] at hfound
      cases hfound
  obtain ⟨before, after, hsplit, htag, htake⟩ := drop_eq_of_lt heq.1
  rw [htake] at heq
  obtain ⟨hinside, rfl⟩ := heq
  have hplace : locateField mem mem.length pos (pos + before.length)
      = .ok (pos + before.length, pos + before.length + 1, before) := by
    unfold locateField
    rw [if_neg (by omega), bytesBetween, hsplit, Nat.add_sub_cancel_left, List.take_left]
  rw [hplace] at hloc
  cases hloc
  have hafter : mem.drop (pos + tag.length + 1) = after := by
    rw [Nat.add_assoc, ← List.drop_drop, hsplit, ← List.drop_drop, List.drop_left]
    rfl
  have hend : pos + tag.length + 1
        + ((mem.drop (pos + tag.length + 1)).takeWhile (· ≠ soh)).length < mem.length ∧
      sohPos = pos + tag.length + 1
        + ((mem.drop (pos + tag.length + 1)).takeWhile (· ≠ soh)).length := by
    unfold seekSoh at hsoh
    by_cases hlt : pos + tag.length + 1
        + ((mem.drop (pos + tag.length + 1)).takeWhile (· ≠ soh)).length < mem.length
    · rw [if_pos hlt] at hsoh
      exact ⟨hlt, (Except.ok.inj hsoh).symm⟩
    · rw [if_neg hlt] at hsoh
      cases hsoh
  obtain ⟨value, rest, hsplit', hvalue, htake'⟩ := drop_eq_of_lt hend.1
  rw [htake'] at hend
  obtain ⟨hinside', rfl⟩ := hend
  have hbetween : bytesBetween mem (pos + tag.length + 1) (pos + tag.length + 1 + value.length)
      = value := by
    rw [bytesBetween, hsplit', Nat.add_sub_cancel_left, List.take_left]
  have hsize := FixPiece.length_text ⟨tag, value⟩
  have hnext : pos + tag.length + 1 + value.length + 1
      = pos + (FixPiece.text ⟨tag, value⟩).length := by
    rw [hsize]
    show _ = pos + (tag.length + value.length + 2)
    omega
  have hwhole : mem.drop pos = FixPiece.text ⟨tag, value⟩ ++ rest := by
    rw [FixPiece.text_append, hsplit, ← hafter, hsplit']
  refine ⟨⟨tag, value⟩, ⟨htag, hvalue⟩, ?_, hnext, by omega, ?_⟩
  · rw [hnext, ← List.drop_drop, hwhole, List.drop_left]
  · rw [hbetween] at happ
    exact happ

/-- A scan that reads nothing behind the message has found it to be a sequence of
pieces, and what it gives is what their handlers give. -/
theorem exists_pieces_of_parseLoop {fuel pos : ℕ} {msg out : μ}
    (h : parseLoop handlers mem mem.length fuel pos msg = .ok out) :
    ∃ ps : List FixPiece, (∀ p ∈ ps, p.Delimited) ∧ mem.drop pos = piecesText ps ∧
      applyPieces handlers ps msg = .ok out := by
  induction fuel generalizing pos msg with
  | zero => cases h
  | succ fuel ih =>
    rw [parseLoop] at h
    by_cases hpos : pos < mem.length
    · rw [if_pos hpos] at h
      obtain ⟨⟨next, msg'⟩, hfield, hloop⟩ := FallibleRun.bind_eq_ok_iff.mp h
      obtain ⟨p, hp, hdrop, -, -, happ⟩ := exists_piece_of_parseField hfield
      obtain ⟨ps, hps, hrest, hout⟩ := ih hloop
      refine ⟨p :: ps, List.forall_mem_cons.mpr ⟨hp, hps⟩, ?_, ?_⟩
      · rw [hdrop, hrest, piecesText_cons]
      · rw [applyPieces_cons, happ]
        exact hout
    · rw [if_neg hpos] at h
      refine ⟨[], fun p hp => absurd hp (List.not_mem_nil), ?_, h⟩
      exact List.drop_eq_nil_of_le (Nat.not_lt.mp hpos)

/-- The result of a scan that keeps to the message comes from the pieces of the text. -/
theorem applyPieces_splitPieces {text : List UInt8} {msg out : μ}
    (h : parse handlers text text.length msg = .ok out) :
    applyPieces handlers (splitPieces text) msg = .ok out := by
  obtain ⟨ps, hps, htext, happ⟩ := exists_pieces_of_parseLoop h
  rw [List.drop_zero] at htext
  rw [htext, splitPieces_piecesText hps]
  exact happ

end Arbitrary

/-! ### Safe scans -/

/-- A table of `size` entries whose handlers cannot fail; an index behind it is a fault. -/
def totalTable {μ : Type} (size : ℕ) (entries : ℕ → Option (List UInt8 → μ → μ)) :
    HandlerLookup μ :=
  fun tag =>
    if tag < size then .ok ((entries tag).map fun h val msg => .ok (h val msg))
    else .error .outOfBounds

/-- The handler registered for the tag of the piece, if there is one, on its value. -/
def applyKnown {μ : Type} (size : ℕ) (entries : ℕ → Option (List UInt8 → μ → μ)) (msg : μ)
    (p : FixPiece) : μ :=
  if p.number < size then
    match entries p.number with
    | none => msg
    | some h => h p.value msg
  else msg

/-- In a memory that holds the message and nothing else, `parse` on a table of `size`
entries ends without leaving the message or the table, whatever the handlers do with
the values; fields whose tag has no handler contribute nothing. -/
def ParsesSafely (size : ℕ) (text : List UInt8) : Prop :=
  ∀ (μ : Type) (entries : ℕ → Option (List UInt8 → μ → μ)) (msg : μ),
    ∃ out, parse (totalTable size entries) text text.length msg = .ok out ∧
      ∀ ps : List FixPiece, text = piecesText ps → (∀ p ∈ ps, p.Delimited) →
        out = ps.foldl (applyKnown size entries) msg

/-- The message is a sequence of pieces whose numbers are inside a table of `size`
entries. -/
def PiecesInTable (size : ℕ) (text : List UInt8) : Prop :=
  ∃ ps : List FixPiece, text = piecesText ps ∧ ∀ p ∈ ps, p.Delimited ∧ p.number < size

section Safe

variable {μ : Type} {size : ℕ} {entries : ℕ → Option (List UInt8 → μ → μ)}

theorem applyHandler_totalTable {p : FixPiece} (msg : μ) (h : p.number < size) :
    applyHandler (totalTable size entries) p.number p.value msg
      = .ok (applyKnown size entries msg p) := by
  have htable : totalTable size entries p.number
      = .ok ((entries p.number).map fun h val msg => .ok (h val msg)) := if_pos h
  rw [applyHandler, htable, applyKnown, if_pos h]
  cases entries p.number with
  | none => rfl
  | some h => rfl

theorem number_lt_of_applyHandler {tag : ℕ} {val : List UInt8} {msg out : μ}
    (h : applyHandler (totalTable size entries) tag val msg = .ok out) : tag < size := by
  by_contra hge
  have htable : totalTable size entries tag = .error .outOfBounds := if_neg hge
  rw [applyHandler, htable] at h
  cases h

theorem applyPieces_totalTable {ps : List FixPiece} (msg : μ) (h : ∀ p ∈ ps, p.number < size) :
    applyPieces (totalTable size entries) ps msg
      = .ok (ps.foldl (applyKnown size entries) msg) := by
  induction ps generalizing msg with
  | nil => rfl
  | cons p ps ih =>
    rw [applyPieces_cons, applyHandler_totalTable msg (h p List.mem_cons_self)]
    exact ih _ fun q hq => h q (List.mem_cons_of_mem _ hq)

theorem number_lt_of_applyPieces {ps : List FixPiece} {msg out : μ}
    (h : applyPieces (totalTable size entries) ps msg = .ok out) : ∀ p ∈ ps, p.number < size := by
  induction ps generalizing msg with
  | nil => exact fun p hp => absurd hp List.not_mem_nil
  | cons p ps ih =>
    rw [applyPieces_cons] at h
    obtain ⟨msg', happ, hrest⟩ := FallibleRun.bind_eq_ok_iff.mp h
    exact List.forall_mem_cons.mpr ⟨number_lt_of_applyHandler happ, ih hrest⟩

end Safe

/-- **A scan is safe exactly on sequences of pieces with numbers inside the table.** -/
theorem parsesSafely_iff (size : ℕ) (text : List UInt8) :
    ParsesSafely size text ↔ PiecesInTable size text := by
  constructor
  · intro h
    obtain ⟨out, hout, -⟩ := h Unit (fun _ => none) ()
    obtain ⟨ps, hps, htext, happ⟩ := exists_pieces_of_parseLoop hout
    have hnumber := number_lt_of_applyPieces happ
    exact ⟨ps, htext, fun p hp => ⟨hps p hp, hnumber p hp⟩⟩
  · rintro ⟨ps, rfl, hps⟩ μ entries msg
    have hscan : parse (totalTable size entries) (piecesText ps ++ []) (piecesText ps).length msg
        = applyPieces (totalTable size entries) ps msg :=
      parse_pieces [] msg fun p hp => (hps p hp).1
    have hrun := hscan.trans (applyPieces_totalTable msg fun p hp => (hps p hp).2)
    rw [List.append_nil] at hrun
    refine ⟨_, hrun, fun qs htext hqs => ?_⟩
    have hsame := congrArg splitPieces htext
    rw [splitPieces_piecesText fun p hp => (hps p hp).1, splitPieces_piecesText hqs] at hsame
    rw [hsame]

/-- **The two tables of the parser.** -/
theorem parse_safe_iff (text : List UInt8) :
    (ParsesSafely maxTag text ↔ PiecesInTable maxTag text) ∧
    (ParsesSafely maxSesTag text ↔ PiecesInTable maxSesTag text) :=
  ⟨parsesSafely_iff maxTag text, parsesSafely_iff maxSesTag text⟩

/-- A field with the user-defined tag 5001 is well-formed and indexes both tables
behind their ends. -/
theorem user_defined_tag_faults :
    (FixPiece.mk (decimal 5001) [0x58]).WellFormed ∧
    ¬ ParsesSafely maxTag (FixPiece.mk (decimal 5001) [0x58]).text ∧
    ¬ ParsesSafely maxSesTag (FixPiece.mk (decimal 5001) [0x58]).text := by
  have htag : decimal 5001 = [0x35, 0x30, 0x30, 0x31] := by
    rw [decimal_append_pair (by decide), decimal_pair (by decide) (by decide)]
    rfl
  have hdigits : IsDigits (decimal 5001) := isDigits_decimal _
  refine ⟨⟨by rw [htag]; decide, hdigits, by decide, by decide⟩, ?_, ?_⟩
  all_goals
    rw [htag]
    intro h
    obtain ⟨out, hout, -⟩ := h Unit (fun _ => none) ()
    cases hout

end TradingEngine
