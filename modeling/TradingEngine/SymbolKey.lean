/-
The symbol key of the BIST directory and of the FIX reports.

An OrderBookDirectory message carries the symbol left-justified in 32 bytes, filled
up with blanks, and its first eight bytes are the key of `sympack_symid_`.  A report
is looked up under the first eight bytes of its parsed symbol, which is terminated
by a zero; what stands behind the zero is left over from earlier messages.

* `cells_symbol` — the symbol of a parsed report, whatever its slot held;
* `symbol_key_iff` — the two keys are the same exactly for symbols of eight bytes.
-/
import TradingEngine.FixRecords

namespace TradingEngine

open CellWrites

/-- The symbol field of a directory message. -/
def paddedSymbol (symbol : List UInt8) : List UInt8 :=
  symbol ++ List.replicate (orderTextSize - symbol.length) 0x20

/-- A report with `55=symbol`, which no later field 55 replaces. -/
def ReportOf (symbol : List UInt8) (ps : List FixPiece) : Prop :=
  (∀ p ∈ ps, p.Delimited) ∧ ∃ before p after, ps = before ++ p :: after ∧ p.number = 55 ∧
    p.value = symbol ∧ ∀ q ∈ after, q.number ≠ 55

/-- The report is looked up under the key that the directory message is stored under,
and unless an earlier message had taken it this leads to its order book. -/
def KeyAgrees (om : OrderManager) (dir : Bist.OrderBookDirectory) (msg : FIXMessage) : Prop :=
  symbolPack msg.symbol = dir.symbol.take 8 ∧
    (om.sympackSymid.lookup (dir.symbol.take 8) = none →
      (om.handleInstrumentDefinitionBist dir).sympackSymid.lookup (symbolPack msg.symbol)
        = some dir.orderBookId)

/-! ### The symbol of a parsed report -/

theorem field_of_writeOf {q : FixPiece} (hq : q.number ≠ 55) :
    ∀ w ∈ fixRecord.writeOf q, w.field ≠ .symbol := by
  intro w hw
  obtain ⟨row, hrow, rfl⟩ := Option.map_eq_some_iff.mp (Option.mem_def.mp hw)
  have hfound := List.find?_some hrow
  have htag : row.tag = q.number := beq_iff_eq.mp hfound
  have hsymbol : ∀ r ∈ tagRows, r.field = .symbol → r.tag = 55 := by decide
  exact fun hc => hq (htag.symm.trans (hsymbol row (List.mem_of_find?_eq_some hrow) hc))

/-- The symbol and its terminating zero, and behind it what the slot held. -/
theorem cells_symbol {ps : List FixPiece} {symbol behind : List UInt8} {slot msg : FIXMessage}
    (hps : ReportOf symbol ps)
    (h : parse tagHandlers (piecesText ps ++ behind) (piecesText ps).length slot = .ok msg) :
    ∃ left, textCells msg.symbol = textWritten symbol ++ left := by
  obtain ⟨hdel, before, p, after, rfl, hp, rfl, hafter⟩ := hps
  rw [parse_pieces behind slot hdel] at h
  have hcells := fixRecord.cells_applyPieces h
  have hwrite : fixRecord.writeOf p = some ⟨.symbol, textWritten p.value⟩ := by
    unfold FixRecord.writeOf
    rw [hp]
    rfl
  have hlater : ∀ w ∈ after.filterMap fixRecord.writeOf, w.field ≠ .symbol := by
    intro w hw
    obtain ⟨q, hq, hw⟩ := List.mem_filterMap.mp hw
    exact field_of_writeOf (hafter q hq) w hw
  have hsymbol := congrFun hcells .symbol
  rw [List.filterMap_append, List.filterMap_cons_some hwrite, writes, List.foldl_append,
    List.foldl_cons] at hsymbol
  refine ⟨_, hsymbol.trans ((writes_of_untouched hlater).trans (write_self _ _))⟩

theorem map_symbolPack (symbol : List UInt8) :
    (symbolPack symbol).map (fun c => (c.toNat : ℤ)) = (textCells symbol).take 8 := by
  have hhead : (charArray fixIdSize symbol).take 8 = symbolPack symbol := by
    rw [charArray, symbolPack, List.take_take, List.take_append, List.take_append,
      List.take_replicate, List.take_replicate]
    congr 2
    simp only [fixIdSize]
    omega
  rw [textCells, ← List.map_take, hhead]

theorem toNat_cast_injective : Function.Injective fun c : UInt8 => (c.toNat : ℤ) := by
  intro c d h
  exact UInt8.toNat_inj.mp (Int.ofNat_inj.mp h)

/-! ### The two keys -/

/-- **The keys of the directory and of the reports agree exactly on symbols of eight
bytes**: for a shorter one the key of the directory has a blank where that of the
report has the terminating zero, whatever the slot held before. -/
theorem symbol_key_iff {symbol behind : List UInt8} {ps : List FixPiece} {slot msg : FIXMessage}
    (om : OrderManager) (id lot : UInt32) (hlen : symbol.length ≤ 8) (hps : ReportOf symbol ps)
    (h : parse tagHandlers (piecesText ps ++ behind) (piecesText ps).length slot = .ok msg) :
    KeyAgrees om ⟨id, lot, paddedSymbol symbol⟩ msg ↔ symbol.length = 8 := by
  obtain ⟨left, hleft⟩ := cells_symbol hps h
  have hshort : symbol.take (fixIdSize - 1) = symbol :=
    List.take_of_length_le (hlen.trans (by decide))
  have hpack : (symbolPack msg.symbol).map (fun c => (c.toNat : ℤ))
      = ((symbol ++ [0]).map (fun c : UInt8 => (c.toNat : ℤ)) ++ left).take 8 := by
    rw [map_symbolPack, hleft, textWritten, hshort]
  constructor
  · rintro ⟨hkey, -⟩
    by_contra hne
    have hlt : symbol.length < 8 := by omega
    -- the byte behind the symbol
    have hzero := congrArg (fun l => l[symbol.length]?) hpack
    rw [hkey] at hzero
    simp only [paddedSymbol, orderTextSize, List.map_append, List.map_take, List.append_assoc,
      List.getElem?_take_of_lt hlt, List.map_cons, List.map_nil, List.map_replicate] at hzero
    rw [List.getElem?_append_right (by simp), List.getElem?_append_right (by simp)] at hzero
    simp only [List.length_map, Nat.sub_self, List.getElem?_replicate] at hzero
    rw [if_pos (by omega)] at hzero
    cases hzero
  · intro heq
    have hsame : symbolPack msg.symbol = (paddedSymbol symbol).take 8 := by
      refine List.map_injective_iff.mpr toNat_cast_injective ?_
      rw [hpack, paddedSymbol, ← heq, List.take_left, List.map_append, List.append_assoc,
        ← List.length_map (f := fun c : UInt8 => (c.toNat : ℤ)), List.take_left]
    refine ⟨hsame, fun hfree => ?_⟩
    rw [hsame]
    exact HashMap.lookup_emplace_self id hfree

theorem reportOf_last {first last : FixPiece} (h : ∀ p ∈ [first, last], p.Delimited)
    (hlast : last.number = 55) : ReportOf last.value [first, last] :=
  ⟨h, [first], last, [], rfl, hlast, rfl, fun _ hq => absurd hq List.not_mem_nil⟩

/-- A symbol of eight bytes. -/
def eightSymbol : List UInt8 := [0x41, 0x42, 0x43, 0x44, 0x45, 0x46, 0x47, 0x48]

/-- `35=8` and `55=` with that symbol. -/
def eightPieces : List FixPiece := [⟨[0x33, 0x35], [0x38]⟩, ⟨[0x35, 0x35], eightSymbol⟩]

/-- A slot that held a longer symbol. -/
def longSymbolSlot : FIXMessage := { symbol := List.replicate 12 0x58 ++ [0] }

theorem symbol_key_iff_eight :
    KeyAgrees {} ⟨70, 1, paddedSymbol eightSymbol⟩
      { msgType := 0x38, symbol := copyText longSymbolSlot.symbol eightSymbol } ↔
    eightSymbol.length = 8 := by
  have hparse : parse tagHandlers (piecesText eightPieces ++ []) (piecesText eightPieces).length
      longSymbolSlot
        = .ok { msgType := 0x38, symbol := copyText longSymbolSlot.symbol eightSymbol } := rfl
  exact symbol_key_iff {} 70 1 (by decide) (reportOf_last (by decide) rfl) hparse

/-- `35=8` and `55=GARAN`. -/
def garanPieces : List FixPiece :=
  [⟨[0x33, 0x35], [0x38]⟩, ⟨[0x35, 0x35], [0x47, 0x41, 0x52, 0x41, 0x4E]⟩]

/-- The directory announces GARAN, and a report for it finds no order book. -/
theorem garan_key_not_found :
    parse tagHandlers (piecesText garanPieces) (piecesText garanPieces).length {}
      = .ok { msgType := 0x38, symbol := [0x47, 0x41, 0x52, 0x41, 0x4E, 0] } ∧
    (OrderManager.handleInstrumentDefinitionBist {}
      ⟨70, 1, paddedSymbol [0x47, 0x41, 0x52, 0x41, 0x4E]⟩).sympackSymid.lookup
        (symbolPack [0x47, 0x41, 0x52, 0x41, 0x4E, 0]) = none ∧
    ¬ KeyAgrees {} ⟨70, 1, paddedSymbol [0x47, 0x41, 0x52, 0x41, 0x4E]⟩
      { msgType := 0x38, symbol := [0x47, 0x41, 0x52, 0x41, 0x4E, 0] } := by
  refine ⟨rfl, by decide, fun h => ?_⟩
  exact absurd h.1 (by decide)

end TradingEngine
