/-
The ITCH parsers (`protocol/parsers/ITCH/Parser_ITCH_BIST.{h,cpp}`,
`protocol/parsers/ITCH/Parser_ITCH_NASDAQ.{h,cpp}`).

The handlers copy every field of their message, in the order written down here; of the
message the store sees only the fields that it reads.  In memory a NASDAQ symbol is followed
by the rest of its object and by what stands behind the object.

* `itch_decodes` — at both venues the well-formed byte strings are the wire messages, one
  for one, and a parser returns that message wherever it stands, whatever follows it.
-/
import TradingEngine.ItchMessages
import TradingEngine.ItchSplit
import TradingEngine.MessageParser

namespace TradingEngine

open RecordLayout ByteField

/-! ### BIST -/

namespace Bist

/-- `handlers[0]`. -/
def parseSeconds : MessageHandler ItchMessage where
  size := 5
  layout := { fields := [u32 1, char 0] }
  build _second _messageType := .seconds

/-- `handlers[1]`. -/
def parseOrderBookDirectory : MessageHandler ItchMessage where
  size := 130
  layout :=
    { fields :=
        [u64 105, u32 1, u32 5, u32 93, u32 97, u32 101, u32 114, i32 118, u32 122, u16 89, u16 91,
          u16 126, char 85, char 113, char 128, char 129, char 0, chars 73 12, chars 9 32,
          chars 41 32, chars 86 3] }
  build _nominalValue _timestampNs orderBookId _oddLotSize roundLotSize _blockLotSize
      _underlyingOrderBookId _strikePrice _expirationDate _decimalsInPrice _decimalsInNominal
      _decimalsInStrikePrice _financialProduct _numberOfLegs _putOrCall _rankingType _messageType
      _isin symbol _longName _tradingCurrency :=
    .orderBookDirectory { orderBookId, roundLotSize, symbol := symbol.toList }

/-- `handlers[2]`. -/
def parseCombinationOrderBookLeg : MessageHandler ItchMessage where
  size := 18
  layout := { fields := [u32 1, u32 5, u32 9, u32 14, char 0, char 13] }
  build _timestampNs _combinationOrderBookId _legOrderBookId _legRatio _messageType _legSide :=
    .combinationOrderBookLeg

/-- `handlers[3]`. -/
def parseTickSizeTableEntry : MessageHandler ItchMessage where
  size := 25
  layout := { fields := [u64 9, u32 1, u32 5, i32 17, i32 21, char 0] }
  build tickSize _timestampNs orderBookId priceFrom priceTo _messageType :=
    .tickSizeTableEntry { tickSize, orderBookId, priceFrom, priceTo }

/-- `handlers[4]`. -/
def parseShortSellStatus : MessageHandler ItchMessage where
  size := 10
  layout := { fields := [u32 1, u32 5, char 9, char 0] }
  build _timestampNs _orderBookId _shortSaleRestriction _messageType := .shortSellStatus

/-- `handlers[5]`. -/
def parseSystemEvent : MessageHandler ItchMessage where
  size := 6
  layout := { fields := [u32 1, char 0, char 5] }
  build _timestampNs _messageType eventCode := .systemEvent { eventCode }

/-- `handlers[6]`. -/
def parseOrderBookState : MessageHandler ItchMessage where
  size := 29
  layout := { fields := [u32 1, u32 5, char 0, chars 9 20] }
  build _timestampNs orderBookId _messageType stateName :=
    .orderBookState { orderBookId, stateName := stateName.toList }

/-- `handlers[7]`. -/
def parseAddOrder : MessageHandler ItchMessage where
  size := 45
  layout :=
    { fields :=
        [u64 5, u64 22, u64 37, u32 1, u32 13, u32 18, i32 30, u16 34, char 36, char 0, char 17] }
  build orderId quantity _rankingTime timestampNs orderBookId _rankingSeqNumber price
      _orderAttributes _lotType messageType side :=
    .addOrder { orderId, quantity, timestampNs, orderBookId, price, messageType, side }

/-- `handlers[8]`. -/
def parseOrderExecuted : MessageHandler ItchMessage where
  size := 52
  layout :=
    { fields :=
        [u64 5, u64 18, u64 26, u32 1, u32 13, u32 34, char 0, char 17, chars 38 7, chars 45 7] }
  build orderId executedQuantity _matchId timestampNs orderBookId _comboGroupId messageType side
      _reserved1 _reserved2 :=
    .orderExecuted { orderId, executedQuantity, timestampNs, orderBookId, messageType, side }

/-- `handlers[9]`. -/
def parseOrderExecutedWithPrice : MessageHandler ItchMessage where
  size := 58
  layout :=
    { fields :=
        [u64 5, u64 18, u64 26, u32 1, u32 13, u32 34, i32 52, char 0, char 17, chars 38 7,
          chars 45 7, char 56, char 57] }
  build orderId executedQuantity _matchId timestampNs orderBookId _comboGroupId tradePrice
      messageType side _reserved1 _reserved2 _occurredAtCross _printable :=
    .orderExecutedWithPrice
      { orderId, executedQuantity, timestampNs, orderBookId, tradePrice, messageType, side }

/-- `handlers[10]`. -/
def parseOrderDelete : MessageHandler ItchMessage where
  size := 18
  layout := { fields := [u64 5, u32 1, u32 13, char 0, char 17] }
  build orderId timestampNs orderBookId messageType side :=
    .orderDelete { orderId, timestampNs, orderBookId, messageType, side }

/-- `handlers[11]`. -/
def parseOrderBookFlush : MessageHandler ItchMessage where
  size := 9
  layout := { fields := [u32 1, u32 5, char 0] }
  build _timestampNs orderBookId _messageType := .orderBookFlush { orderBookId }

/-- `handlers[12]`.  The dummy `order_id` stays 0. -/
def parseTrade : MessageHandler ItchMessage where
  size := 50
  layout :=
    { fields :=
        [u64 5, u64 18, u32 1, u32 13, u32 26, i32 30, char 0, char 17, chars 34 7, chars 41 7,
          char 48, char 49] }
  build _matchId quantity timestampNs _comboGroupId orderBookId tradePrice messageType side
      _reserved1 _reserved2 _printable _occurredAtCross :=
    .trade { quantity, timestampNs, orderBookId, tradePrice, messageType, side }

/-- `handlers[13]`. -/
def parseEquilibriumPriceUpdate : MessageHandler ItchMessage where
  size := 53
  layout :=
    { fields :=
        [u64 9, u64 17, u64 37, u64 45, u32 1, u32 5, i32 25, i32 29, i32 33, char 0] }
  build _availableBidQuantity _availableAskQuantity _bestBidQuantity _bestAskQuantity _timestampNs
      _orderBookId _equilibriumPrice _bestBidPrice _bestAskPrice _messageType :=
    .equilibriumPriceUpdate

/-- `Parser_ITCH_BIST`. -/
def itchParser : MessageParser ItchMessage where
  messageIndex := itchMessageIndex
  messageHandlers :=
    [parseSeconds, parseOrderBookDirectory, parseCombinationOrderBookLeg, parseTickSizeTableEntry,
      parseShortSellStatus, parseSystemEvent, parseOrderBookState, parseAddOrder,
      parseOrderExecuted, parseOrderExecutedWithPrice, parseOrderDelete, parseOrderBookFlush,
      parseTrade, parseEquilibriumPriceUpdate]

end Bist

/-! ### NASDAQ -/

namespace Nasdaq

/-- `handlers[0]`. -/
def parseAddOrder (behind : List UInt8) : MessageHandler ItchMessage where
  size := 36
  layout :=
    { fields := [u48 5, u64 11, u32 20, u32 32, u16 1, u16 3, char 0, char 19, chars 24 8] }
  build timestamp orderRef shares price stockLocate _trackingNumber messageType side stock :=
    .addOrder
      { timestamp := timestamp.toUInt64, orderRef, shares, price, stockLocate, messageType, side,
        stock := stock.toList ++ behind }

/-- `handlers[1]`. -/
def parseAddOrderMPID (behind : List UInt8) : MessageHandler ItchMessage where
  size := 40
  layout :=
    { fields :=
        [u48 5, u64 11, u32 20, u32 32, u16 1, u16 3, char 0, char 19, chars 24 8, chars 36 4] }
  build timestamp orderRef shares price stockLocate _trackingNumber messageType side stock mpid :=
    .addOrderMpid
      { timestamp := timestamp.toUInt64, orderRef, shares, price, stockLocate, messageType, side,
        stock := stock.toList ++ mpid.toList ++ behind }

/-- `handlers[2]`. -/
def parseCancel : MessageHandler ItchMessage where
  size := 23
  layout := { fields := [u48 5, u64 11, u32 19, u16 1, u16 3, char 0] }
  build timestamp orderRef cancelledShares _stockLocate _trackingNumber messageType :=
    .cancel { timestamp := timestamp.toUInt64, orderRef, cancelledShares, messageType }

/-- `handlers[3]`. -/
def parseExecuted : MessageHandler ItchMessage where
  size := 31
  layout := { fields := [u48 5, u64 11, u64 23, u32 19, u16 1, u16 3, char 0] }
  build timestamp orderRef _matchNumber executedShares _stockLocate _trackingNumber messageType :=
    .executed { timestamp := timestamp.toUInt64, orderRef, executedShares, messageType }

/-- `handlers[4]`. -/
def parseExecutedWithPrice : MessageHandler ItchMessage where
  size := 36
  layout := { fields := [u48 5, u64 11, u64 23, u32 19, u32 32, u16 1, u16 3, char 0, char 31] }
  build timestamp orderRef _matchNumber executedShares executionPrice stockLocate _trackingNumber
      messageType _printable :=
    .executedWithPrice
      { timestamp := timestamp.toUInt64, orderRef, executedShares, executionPrice, stockLocate,
        messageType }

/-- `handlers[5]`. -/
def parseDelete : MessageHandler ItchMessage where
  size := 19
  layout := { fields := [u48 5, u64 11, u16 1, u16 3, char 0] }
  build timestamp orderRef _stockLocate _trackingNumber messageType :=
    .delete { timestamp := timestamp.toUInt64, orderRef, messageType }

/-- `handlers[6]`. -/
def parseReplace : MessageHandler ItchMessage where
  size := 35
  layout := { fields := [u48 5, u64 11, u64 19, u32 27, u32 31, u16 1, u16 3, char 0] }
  build timestamp orderRef newOrderRef shares price stockLocate _trackingNumber messageType :=
    .replace
      { timestamp := timestamp.toUInt64, orderRef, newOrderRef, shares, price, stockLocate,
        messageType }

/-- `handlers[7]`. -/
def parseTrade : MessageHandler ItchMessage where
  size := 37
  layout :=
    { fields :=
        [u48 5, u64 11, u64 28, u32 20, u32 24, u16 1, u16 3, char 0, char 19, char 36] }
  build timestamp orderRef _matchNumber shares price stockLocate _trackingNumber messageType _side
      _crossType :=
    .trade { timestamp := timestamp.toUInt64, orderRef, shares, price, stockLocate, messageType }

/-- `handlers[8]`. -/
def parseSystemEvent : MessageHandler ItchMessage where
  size := 12
  layout := { fields := [u48 5, u16 1, u16 3, char 0, char 11] }
  build _timestamp _stockLocate _trackingNumber _messageType eventCode := .systemEvent { eventCode }

/-- `handlers[9]`. -/
def parseStockDirectory (behind : List UInt8) : MessageHandler ItchMessage where
  size := 39
  layout :=
    { fields :=
        [u48 5, u32 21, u32 34, u16 1, u16 3, char 0, chars 11 8, char 19, char 20, char 25,
          char 26, chars 27 2, char 29, char 30, char 31, char 32, char 33, char 38] }
  build _timestamp roundLotSize _etpLeverageFactor stockLocate _trackingNumber _messageType stock
      marketCategory financialStatusIndicator roundLotsOnly issueClassification issueSubType
      authenticity shortSaleThresholdIndicator ipoFlag luldReferencePriceTier etpFlag
      inverseIndicator :=
    .stockDirectory
      { roundLotSize, stockLocate, stock := stock.toList,
        afterStock :=
          [marketCategory, financialStatusIndicator, roundLotsOnly, issueClassification] ++
            issueSubType.toList ++
            [authenticity, shortSaleThresholdIndicator, ipoFlag, luldReferencePriceTier, etpFlag,
              inverseIndicator] ++ behind }

/-- `handlers[10]`. -/
def parseTradingState : MessageHandler ItchMessage where
  size := 25
  layout := { fields := [u48 5, u16 1, u16 3, char 0, chars 11 8, char 19, char 20, chars 21 4] }
  build _timestamp stockLocate _trackingNumber _messageType _stock tradingState _reserved _reason :=
    .tradingState { stockLocate, tradingState }

/-- `Parser_ITCH_NASDAQ`; `behind` is what stands in memory behind the message object. -/
def itchParser (behind : List UInt8) : MessageParser ItchMessage where
  messageIndex := itchMessageIndex
  messageHandlers :=
    [parseAddOrder behind, parseAddOrderMPID behind, parseCancel, parseExecuted,
      parseExecutedWithPrice, parseDelete, parseReplace, parseTrade, parseSystemEvent,
      parseStockDirectory behind, parseTradingState]

end Nasdaq

/-! ### The parsers and the size tables -/

/-- The walk of `ItchPacketHandler` and the handlers go by the same types and sizes. -/
structure ParsesBy {α : Type} (p : MessageParser α) (t : ItchTable) : Prop where
  index : p.messageIndex = t.itchMessageIndex
  sizes : p.messageHandlers.map MessageHandler.size = t.itchSizeOfs
  unknown : ∀ type, t.sizeOf type = none ↔ t.itchMessageIndex type = 99
  sized : ∀ size ∈ t.itchSizeOfs, 0 < size

namespace ParsesBy

variable {α : Type} {p : MessageParser α} {t : ItchTable}

theorem sizeOf_eq (h : ParsesBy p t) (type : UInt8) :
    t.sizeOf type = (p.messageHandlers[p.messageIndex type]?).map MessageHandler.size := by
  rw [ItchTable.sizeOf, ← h.sizes, ← h.index, List.getElem?_map]

theorem complete (h : ParsesBy p t) : p.Complete where
  unknown type := by
    rw [← Option.map_eq_none_iff, ← h.sizeOf_eq type, h.unknown type, h.index]
  sized handler hh := h.sized handler.size (h.sizes ▸ List.mem_map_of_mem hh)

/-- A wire message is well formed. -/
theorem wellFormed (h : ParsesBy p t) (w : WireMessage p) : ItchWellFormed t w.bytes := by
  obtain ⟨rest, hrest⟩ := List.head?_eq_some_iff.mp w.typed
  refine ⟨w.type, rest, hrest, ?_⟩
  rw [h.sizeOf_eq, w.known, w.length_bytes]
  rfl

/-- **Well-formed byte strings are the wire messages**, one for one. -/
theorem wellFormed_iff (h : ParsesBy p t) (bytes : List UInt8) :
    ItchWellFormed t bytes ↔ ∃! w : WireMessage p, w.bytes = bytes := by
  constructor
  · rintro ⟨type, rest, rfl, hsize⟩
    rw [h.sizeOf_eq, Option.map_eq_some_iff] at hsize
    obtain ⟨handler, known, hlen⟩ := hsize
    obtain ⟨w, hw, rfl⟩ := WireMessage.exists_of_length h.complete rfl known (le_of_eq hlen)
    have hall : w.bytes = type :: rest := by
      refine hw.eq_of_length ?_
      rw [w.length_bytes, hlen]
    exact ⟨w, hall, fun w' hw' => WireMessage.bytes_injective (hw'.trans hall.symm)⟩
  · rintro ⟨w, rfl, -⟩
    exact h.wellFormed w

end ParsesBy

theorem Bist.itchParser_parsesBy : ParsesBy Bist.itchParser Bist.itchTable where
  index := rfl
  sizes := rfl
  unknown type := (sizeOf_eq_none_iff type).1
  sized := by decide

theorem Nasdaq.itchParser_parsesBy (behind : List UInt8) :
    ParsesBy (Nasdaq.itchParser behind) Nasdaq.itchTable where
  index := rfl
  sizes := rfl
  unknown type := (sizeOf_eq_none_iff type).2
  sized := by decide

/-- What is asked of a parser for the messages of a size table. -/
structure Decodes {α : Type} (p : MessageParser α) (t : ItchTable) : Prop where
  /-- Every well-formed byte string is the text of one message. -/
  wellFormed : ∀ bytes, ItchWellFormed t bytes ↔ ∃! w : WireMessage p, w.bytes = bytes
  /-- The parser returns a message exactly where the bytes begin with its text. -/
  parse : ∀ data m,
    p.parse data = .ok (some m) ↔ ∃ w : WireMessage p, w.bytes <+: data ∧ w.message = m
  /-- It returns nothing exactly at a byte that is no type. -/
  unknown : ∀ data, p.parse data = .ok none ↔ StartsUnknown t data
  /-- It leaves the bytes exactly where they end within a message. -/
  short : ∀ data, p.parse data = .error .outOfBounds ↔
    ¬StartsUnknown t data ∧ ∀ bytes, bytes <+: data → ¬ItchWellFormed t bytes

namespace ParsesBy

variable {α : Type} {p : MessageParser α} {t : ItchTable}

theorem parse_eq_none_iff (h : ParsesBy p t) (data : List UInt8) :
    p.parse data = .ok none ↔ StartsUnknown t data := by
  rw [p.parse_eq_none_iff h.complete]
  constructor
  · rintro ⟨type, hhead, h99⟩
    obtain ⟨rest, rfl⟩ := List.head?_eq_some_iff.mp hhead
    exact ⟨type, rest, rfl, (h.unknown type).mpr (h.index ▸ h99)⟩
  · rintro ⟨type, rest, rfl, hsize⟩
    exact ⟨type, rfl, h.index ▸ (h.unknown type).mp hsize⟩

theorem parse_eq_error_iff (h : ParsesBy p t) (data : List UInt8) :
    p.parse data = .error .outOfBounds ↔
      ¬StartsUnknown t data ∧ ∀ bytes, bytes <+: data → ¬ItchWellFormed t bytes := by
  constructor
  · intro hparse
    constructor
    · intro hunknown
      rw [(h.parse_eq_none_iff data).mpr hunknown] at hparse
      cases hparse
    · intro bytes hpre hwf
      obtain ⟨w, rfl, -⟩ := (h.wellFormed_iff bytes).mp hwf
      rw [(p.parse_eq_some_iff h.complete _).mpr ⟨w, hpre, rfl⟩] at hparse
      cases hparse
  · rintro ⟨hunknown, hwf⟩
    cases hparse : p.parse data with
    | error f => rw [((p.parse_eq_error_iff h.complete f).mp hparse).1]
    | ok found =>
      cases found with
      | none => exact absurd ((h.parse_eq_none_iff data).mp hparse) hunknown
      | some m =>
        obtain ⟨w, hpre, -⟩ := (p.parse_eq_some_iff h.complete m).mp hparse
        exact absurd (h.wellFormed w) (hwf w.bytes hpre)

theorem decodes (h : ParsesBy p t) : Decodes p t where
  wellFormed := h.wellFormed_iff
  parse _ m := p.parse_eq_some_iff h.complete m
  unknown := h.parse_eq_none_iff
  short := h.parse_eq_error_iff

end ParsesBy

/-- **The ITCH parsers decode their messages.**  At both venues a well-formed byte string is
the text of exactly one message, with a value for every field; the parser returns that message
wherever the text stands and whatever follows it, and no other. -/
theorem itch_decodes (behind : List UInt8) :
    Decodes Bist.itchParser Bist.itchTable ∧
      Decodes (Nasdaq.itchParser behind) Nasdaq.itchTable :=
  ⟨Bist.itchParser_parsesBy.decodes, (Nasdaq.itchParser_parsesBy behind).decodes⟩

end TradingEngine
