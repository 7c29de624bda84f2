/-
The OUCH parsers (`protocol/parsers/OUCH/Parser_OUCH_BIST.{h,cpp}`,
`protocol/parsers/OUCH/Parser_OUCH_NASDAQ.{h,cpp}`, `generated/GeneratedOUCHMessages_*.h`).

A message stands behind the three bytes of its SoupBinTCP header.  The parsers do not look at
the length in the header: they read as far as the fields of the type go, and what a NASDAQ
message has behind its fields, its appendage, is not looked at.

* `Bist.ouchParser_complete`, `Nasdaq.ouchParser_complete` — each type of message has a handler
  of its own, which reads as far as its fields go.
-/
import TradingEngine.MessageParser
import TradingEngine.OuchMessages
import TradingEngine.SoupScan

namespace TradingEngine

open RecordLayout ByteField

/-! ### BIST -/

namespace Bist

/-- `BIST::ouchMessageIndex`. -/
def ouchMessageIndex (type : UInt8) : ℕ :=
  match Char.ofNat type.toNat with
  | 'A' => 0
  | 'J' => 1
  | 'U' => 2
  | 'C' => 3
  | 'E' => 4
  | _ => 99

/-- `handlers[0]`. -/
def parseOrderAccepted : MessageHandler OuchMessage where
  size := 137
  layout :=
    { fields :=
        [u64 1, u64 28, u64 36, u64 114, u64 122, u32 23, i32 44, char 0, chars 9 14, char 27,
          char 48, chars 50 16, chars 67 15, chars 82 32, char 49, char 66, char 130, char 131,
          char 132, char 133, chars 134 3] }
  build timestamp orderId quantity _preTradeQty _displayQty orderBookId price _messageType
      orderToken side _timeInForce _clientAccount _customerInfo _exchangeInfo _openClose
      _orderState _clientCategory _offhours _smpLevel _smpMethod _smpID :=
    .accepted
      { timestamp, orderId, quantity, orderBookId, price, orderToken := orderToken.toList, side }

/-- `handlers[1]`. -/
def parseOrderRejected : MessageHandler OuchMessage where
  size := 27
  layout := { fields := [u64 1, i32 23, char 0, chars 9 14] }
  build timestamp _rejectCode _messageType orderToken :=
    .rejected { timestamp, orderToken := orderToken.toList }

/-- `handlers[2]`. -/
def parseOrderReplaced : MessageHandler OuchMessage where
  size := 145
  layout :=
    { fields :=
        [u64 1, u64 42, u64 50, u64 128, u32 37, i32 58, char 0, chars 23 14, char 41, char 62,
          char 63, char 80, char 144, u64 136, chars 9 14, chars 96 32, chars 64 16,
          chars 81 15] }
  build timestamp orderId quantity _preTradeQty orderBookId price _messageType
      _previousOrderToken side timeInForce _openClose orderState _clientCategory _displayQty
      orderToken _exchangeInfo _clientAccount _customerInfo :=
    .replaced
      { timestamp, orderId, quantity, orderBookId, price, side, timeInForce, orderState,
        orderToken := orderToken.toList }

/-- `handlers[3]`. -/
def parseOrderCancelled : MessageHandler OuchMessage where
  size := 37
  layout := { fields := [u64 1, u64 28, u32 23, char 0, chars 9 14, char 27, char 36] }
  build timestamp orderId orderBookId _messageType orderToken side _reason :=
    .cancelled { timestamp, orderId, orderBookId, orderToken := orderToken.toList, side }

/-- `handlers[4]` of the OUCH parser. -/
def parseOuchExecuted : MessageHandler OuchMessage where
  size := 68
  layout :=
    { fields :=
        [u64 1, u64 27, u32 23, i32 35, char 0, chars 9 14, chars 39 12, char 51, chars 52 16] }
  build timestamp tradedQuantity _orderBookId tradePrice _messageType orderToken _matchId
      _clientCategory _reserved :=
    .executed { timestamp, tradedQuantity, tradePrice, orderToken := orderToken.toList }

/-- `Parser_OUCH_BIST`.  Its table has room for 14 handlers, of which five are set. -/
def ouchParser : MessageParser OuchMessage where
  messageIndex := ouchMessageIndex
  messageHandlers :=
    [parseOrderAccepted, parseOrderRejected, parseOrderReplaced, parseOrderCancelled,
      parseOuchExecuted]

theorem ouchParser_complete : ouchParser.Complete where
  unknown type := by
    show ouchParser.messageHandlers[ouchMessageIndex type]? = none ↔ ouchMessageIndex type = 99
    unfold ouchMessageIndex
    split <;> simp [ouchParser]
  sized := by
    show ∀ h ∈ ouchParser.messageHandlers, 0 < h.size
    simp [ouchParser, parseOrderAccepted, parseOrderRejected, parseOrderReplaced,
      parseOrderCancelled, parseOuchExecuted]

end Bist

/-! ### NASDAQ -/

namespace Nasdaq

/-- `NASDAQ::ouchMessageIndex`. -/
def ouchMessageIndex (type : UInt8) : ℕ :=
  match Char.ofNat type.toNat with
  | 'S' => 0
  | 'A' => 1
  | 'U' => 2
  | 'C' => 3
  | 'E' => 4
  | 'J' => 5
  | 'B' => 6
  | 'M' => 7
  | 'P' => 8
  | 'I' => 9
  | 'Q' => 10
  | _ => 99

/-- `handlers[0]` of the OUCH parser. -/
def parseOuchSystemEvent : MessageHandler OuchMessage where
  size := 10
  layout := { fields := [u64 1, char 0, char 9] }
  build _timestamp _messageType _eventCode := .systemEvent

/-- `handlers[1]`.  The price is read signed and kept unsigned. -/
def parseOrderAccepted : MessageHandler OuchMessage where
  size := 64
  layout :=
    { fields :=
        [u64 1, u32 9, i64 26, u64 36, u32 14, u16 62, char 0, char 13, chars 18 8, char 34,
          char 35, char 44, char 45, char 46, char 47, chars 48 14] }
  build timestamp _userRefNum price orderReferenceNumber quantity _appendageLength _messageType
      side _symbol _timeInForce _display _capacity _intermarketSweepEligibility _crossType
      _orderState clOrdId :=
    .accepted
      { timestamp, price := price.toUInt64, orderReferenceNumber, quantity, side,
        clOrdId := clOrdId.toList }

/-- `handlers[2]`. -/
def parseOrderReplaced : MessageHandler OuchMessage where
  size := 68
  layout :=
    { fields :=
        [u64 1, i64 30, u64 40, u32 9, u32 13, u32 18, u16 66, char 0, char 17, chars 22 8,
          char 38, char 51, chars 52 14, char 39, char 48, char 49, char 50] }
  build timestamp price orderReferenceNumber _origUserRefNum userRefNum quantity _appendageLength
      _messageType side symbol timeInForce _orderState clOrdId _display _capacity
      _intermarketSweepEligibility _crossType :=
    .replaced
      { timestamp, price := price.toUInt64, orderReferenceNumber, userRefNum, quantity, side,
        symbol := symbol.toList, timeInForce, clOrdId := clOrdId.toList }

/-- `handlers[3]`. -/
def parseOrderCancelled : MessageHandler OuchMessage where
  size := 20
  layout := { fields := [u64 1, u32 9, u32 13, u16 18, char 0, char 17] }
  build _timestamp userRefNum quantity _appendageLength _messageType _reason :=
    .cancelled { userRefNum, quantity }

/-- `handlers[4]`. -/
def parseOrderExecuted : MessageHandler OuchMessage where
  size := 36
  layout := { fields := [u64 1, i64 17, u64 26, u32 9, u32 13, u16 34, char 0, char 25] }
  build timestamp price _matchNumber userRefNum quantity _appendageLength _messageType
      _liquidityFlag :=
    .executed { timestamp, price := price.toUInt64, userRefNum, quantity }

/-- `handlers[5]`. -/
def parseOrderRejected : MessageHandler OuchMessage where
  size := 31
  layout := { fields := [u64 1, u32 9, u16 13, u16 29, char 0, chars 15 14] }
  build timestamp _userRefNum _reason _appendageLength _messageType clOrdId :=
    .rejected { timestamp, clOrdId := clOrdId.toList }

/-- `handlers[6]`. -/
def parseBrokenTrade : MessageHandler OuchMessage where
  size := 38
  layout := { fields := [u64 1, u64 13, u32 9, u16 36, char 0, char 21, chars 22 14] }
  build _timestamp _matchNumber userRefNum _appendageLength _messageType _reason _clOrdId :=
    .brokenTrade { userRefNum }

/-- `handlers[7]`. -/
def parseOrderModified : MessageHandler OuchMessage where
  size := 20
  layout := { fields := [u64 1, u32 9, u32 14, u16 18, char 0, char 13] }
  build _timestamp userRefNum quantity _appendageLength _messageType side :=
    .modified { userRefNum, quantity, side }

/-- `handlers[8]`. -/
def parseCancelPending : MessageHandler OuchMessage where
  size := 15
  layout := { fields := [u64 1, u32 9, u16 13, char 0] }
  build _timestamp userRefNum _appendageLength _messageType := .cancelPending { userRefNum }

/-- `handlers[9]`. -/
def parseCancelReject : MessageHandler OuchMessage where
  size := 15
  layout := { fields := [u64 1, u32 9, u16 13, char 0] }
  build _timestamp userRefNum _appendageLength _messageType := .cancelReject { userRefNum }

/-- `handlers[10]`. -/
def parseAccountQueryResponse : MessageHandler OuchMessage where
  size := 15
  layout := { fields := [u64 1, u32 9, u16 13, char 0] }
  build _timestamp _nextUserRefNum _appendageLength _messageType := .accountQueryResponse

/-- `Parser_OUCH_NASDAQ`. -/
def ouchParser : MessageParser OuchMessage where
  messageIndex := ouchMessageIndex
  messageHandlers :=
    [parseOuchSystemEvent, parseOrderAccepted, parseOrderReplaced, parseOrderCancelled,
      parseOrderExecuted, parseOrderRejected, parseBrokenTrade, parseOrderModified,
      parseCancelPending, parseCancelReject, parseAccountQueryResponse]

theorem ouchParser_complete : ouchParser.Complete where
  unknown type := by
    show ouchParser.messageHandlers[ouchMessageIndex type]? = none ↔ ouchMessageIndex type = 99
    unfold ouchMessageIndex
    split <;> simp [ouchParser]
  sized := by
    show ∀ h ∈ ouchParser.messageHandlers, 0 < h.size
    simp [ouchParser, parseOuchSystemEvent, parseOrderAccepted, parseOrderReplaced,
      parseOrderCancelled, parseOrderExecuted, parseOrderRejected, parseBrokenTrade,
      parseOrderModified, parseCancelPending, parseCancelReject, parseAccountQueryResponse]

end Nasdaq

end TradingEngine
