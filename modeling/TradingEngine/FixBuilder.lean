/-
Building FIX messages: `Builder_FIX::build` and the outbound half of
`Sequence_FIX`.

`build` writes the body into a scratch array of 256 bytes, then the header, the
body and the trailer into the history entry of the next sequence number, which
holds 512 bytes.  The length that stands in the header is computed before the
header is written, from the sizes of its parts.

A pointer into a buffer is the list of the bytes written so far, so a function
that takes a pointer and returns one gives the bytes it writes.  Copies past the
end of an array, the reads of a table entry that holds a null pointer and the
writes past the two buffers are faults.  The clock of the header is the argument
`now`, in nanoseconds since the epoch; the seconds table is computed from the day
on which the builder was constructed.
-/
import TradingEngine.DecimalText
import TradingEngine.FixFraming
import TradingEngine.FixSession
import TradingEngine.OwnOrders

namespace TradingEngine

open DecimalText

/-! ### Texts -/

/-- The bytes of a string literal. -/
def ascii (text : List Char) : List UInt8 := text.map fun c => UInt8.ofNat c.toNat

/-- A `std::array<char, size>` that holds `text`; the rest is zero. -/
def charArray (size : ℕ) (text : List UInt8) : List UInt8 :=
  (text ++ List.replicate size 0).take size

/-- `SYMBOL_SIZE` and `ORDER_TOKEN_SIZE`. -/
def orderTextSize : ℕ := 32

/-- `memcpy(buf, val, vallen)`. -/
def copyBytes (val : List UInt8) (vallen : ℕ) : Except Fault (List UInt8) :=
  if vallen ≤ val.length then .ok (val.take vallen) else .error .outOfBounds

/-! ### Numbers -/

/-- The two characters at `&DIGIT_PAIRS[n * 2]`. -/
def digitPair (n : ℕ) : List UInt8 := [digitChar (n / 10), digitChar (n % 10)]

/-- The loop `while (num >= 100)` and the branch behind it: what stands from
`tmp_ptr` on, when `text` stands behind it. -/
def placePairs (num : ℕ) (text : List UInt8) : List UInt8 :=
  if 100 ≤ num then placePairs (num / 100) (digitPair (num % 100) ++ text)
  else if num < 10 then digitChar num :: text
  else digitPair num ++ text
termination_by num

/-- The number of characters that `placeIntValue` sets aside. -/
def placedDigits (num : ℕ) : ℕ :=
  if 1000000000 ≤ num then 10
  else if 100000000 ≤ num then 9
  else if 10000000 ≤ num then 8
  else if 1000000 ≤ num then 7
  else if 100000 ≤ num then 6
  else if 10000 ≤ num then 5
  else if 1000 ≤ num then 4
  else 3

/-- `placeIntValue`.  The digits are written from the end of the characters set
aside towards `buf`; any other number of them would leave bytes unwritten or
overwrite what stands before. -/
def placeIntValue (num : UInt32) : Except Fault (List UInt8) :=
  if num.toNat < 100 then
    if num.toNat < 10 then .ok [digitChar num.toNat] else .ok (digitPair num.toNat)
  else
    let text := placePairs num.toNat []
    if text.length = placedDigits num.toNat then .ok text else .error .outOfBounds

/-- `digit`, the number of digits that the header counts for the sequence number. -/
def digit (num : UInt32) : ℕ :=
  if 100000 ≤ num.toNat then 6
  else if 10000 ≤ num.toNat then 5
  else if 1000 ≤ num.toNat then 4
  else if 100 ≤ num.toNat then 3
  else if 10 ≤ num.toNat then 2
  else 1

/-! ### Fields -/

/-- `addTag` for a text. -/
def addTag (tag : List Char) (taglen : ℕ) (val : List UInt8) (vallen : ℕ) :
    Except Fault (List UInt8) := do
  let t ← copyBytes (ascii tag) taglen
  let v ← copyBytes val vallen
  .ok (t ++ v ++ [soh])

/-- `addTag` for a number. -/
def addTagInt (tag : List Char) (taglen : ℕ) (val : UInt32) : Except Fault (List UInt8) := do
  let t ← copyBytes (ascii tag) taglen
  let v ← placeIntValue val
  .ok (t ++ v ++ [soh])

/-- `addTagPrice<scale>`.  The size of the integer part is a `size_t`: with fewer
digits than the scale it wraps around and the copy leaves the buffers. -/
def addTagPrice (scale : ℕ) (tag : List Char) (taglen : ℕ) (val : UInt32) :
    Except Fault (List UInt8) := do
  let t ← copyBytes (ascii tag) taglen
  let temp ← placeIntValue val
  if temp.length < scale then .error .outOfBounds
  else
    let intPartSize := temp.length - scale
    .ok (t ++ temp.take intPartSize ++ ascii ['.'] ++ temp.drop intPartSize ++ [soh])

/-- The calls of a body, one after the other. -/
def writeFields : List (Except Fault (List UInt8)) → Except Fault (List UInt8)
  | [] => .ok []
  | field :: fields => do
    let text ← field
    let rest ← writeFields fields
    .ok (text ++ rest)

/-! ### Time stamps -/

/-- The day in the `std::tm` that `localtime_r` fills for `init_time_table`. -/
structure CalendarDay where
  year : ℕ
  month : ℕ
  mday : ℕ
  month_le : month ≤ 12 := by decide
  mday_le : mday ≤ 31 := by decide
  deriving DecidableEq, Repr

/-- The row of `g_second_table` for a second of the day. -/
def CalendarDay.secondRow (day : CalendarDay) (i : ℕ) : List UInt8 :=
  [digitChar (day.year / 1000 % 10), digitChar (day.year / 100 % 10),
    digitChar (day.year / 10 % 10), digitChar (day.year % 10),
    digitChar (day.month / 10), digitChar (day.month % 10),
    digitChar (day.mday / 10), digitChar (day.mday % 10)] ++ ascii ['-'] ++
  digitPair (i / 3600) ++ ascii [':'] ++ digitPair (i % 3600 / 60) ++ ascii [':'] ++
  digitPair (i % 60)

/-- A time stamp for a number of nanoseconds since the epoch. -/
def CalendarDay.timestamp (day : CalendarDay) (ns : ℕ) : List UInt8 :=
  let ms := ns / 1000000 % 1000
  day.secondRow (ns / 1000000000 % 86400) ++ ascii ['.'] ++
    [digitChar (ms / 100), digitChar (ms / 10 % 10), digitChar (ms % 10)]

/-- `transact_time`, when the system clock reads `now`. -/
def CalendarDay.transactTime (day : CalendarDay) (now : ℕ) : List UInt8 := day.timestamp now

/-- `epoch_to_transact_time`. -/
def CalendarDay.epochToTransactTime (day : CalendarDay) (ns : UInt64) : List UInt8 :=
  day.timestamp ns.toNat

/-! ### Buffers and sequence numbers -/

/-- `struct Buffer_FIX`: the bytes written into `data`, and where the body is
said to start in it. -/
structure BufferFIX where
  data : List UInt8 := []
  hotdataStart : ℕ := 0
  len : UInt16 := 0
  hotdataLen : UInt16 := 0
  deriving DecidableEq, Repr

/-- `MAX_MSG_SIZE`. -/
def maxMsgSize : ℕ := 512

/-- `MAX_BODY_SIZE`. -/
def maxBodySize : ℕ := 256

/-- `DAILY_FIX_MSG_COUNT`. -/
def dailyFixMsgCount : ℕ := 1300000

/-- The outbound half of `Sequence_FIX`: the next number and the history. -/
structure SentFIX where
  myNextSeqnum : UInt32 := 1
  messages : ℕ → BufferFIX := fun _ => {}

/-- `struct VenueUserInfo_FIX`. -/
structure VenueUserInfoFIX where
  username : List UInt8 := []
  password : List UInt8 := []
  myId : List UInt8 := []
  venueId : List UInt8 := []
  account : List UInt8 := []
  deriving DecidableEq, Repr

/-- The instances of `build<T>` with their arguments. -/
inductive FIXRequest
  | logon (reset : Bool)
  | logout
  | heartbeat
  | testRequest
  | sequenceReset (newSeq : UInt32)
  | resendRequest (beginSeq endSeq : UInt32)
  | newOrderSingle (order : Order) (own : OwnFields)
  | orderCancelRequest (order : Order) (own : OwnFields)
  | orderCancelReplaceRequest (order : Order) (own : OwnFields)

/-- The `T` of `build<T>`. -/
def FIXRequest.type : FIXRequest → FIXTypes
  | .logon _ => .logon
  | .logout => .logout
  | .heartbeat => .heartbeat
  | .testRequest => .testRequest
  | .sequenceReset _ => .sequenceReset
  | .resendRequest _ _ => .resendRequest
  | .newOrderSingle _ _ => .newOrderSingle
  | .orderCancelRequest _ _ => .orderCancelRequest
  | .orderCancelReplaceRequest _ _ => .orderCancelReplaceRequest

/-- `static_cast<uint32_t>(order_type)`. -/
def OrderType.code : OrderType → UInt32
  | .unknown => 0
  | .market => 1
  | .limit => 2

/-- The table `timeinforce`: its 128 entries are null but for the codes of the
enumeration. -/
def timeinforce (code : UInt8) : Except Fault (List UInt8) :=
  if 128 ≤ code then .error .outOfBounds
  else if code = 0 then .ok (ascii ['0'])
  else if code = 1 then .ok (ascii ['1'])
  else if code = 3 then .ok (ascii ['3'])
  else if code = 4 then .ok (ascii ['4'])
  else if code = 6 then .ok (ascii ['6'])
  else if code = 9 then .ok (ascii ['9'])
  else if code = 0x53 then .ok (ascii ['S'])
  else .error .nullDereference

/-- `addTag("59=", 3, timeinforce[...], 1, buf)`. -/
def addTimeInForce (code : UInt8) : Except Fault (List UInt8) := do
  let text ← timeinforce code
  addTag ['5', '9', '='] 3 text 1

/-! ### Bodies -/

/-- `Builder_FIX` of one session: the day of its seconds table, the identities of
the session and what it has sent. -/
structure BuilderFIX where
  day : CalendarDay
  auth : VenueUserInfoFIX := {}
  sent : SentFIX := {}

namespace BuilderFIX

/-- The heartbeat interval of `Sequence_FIX`. -/
def heartbeatInterval : List UInt8 := ascii ['6', '0']

def buildLogon (b : BuilderFIX) (reset : Bool) : List (Except Fault (List UInt8)) :=
  [addTag ['9', '8', '='] 3 (ascii ['0']) 1] ++
  (if reset then [addTag ['1', '4', '1', '='] 4 (ascii ['Y']) 1] else []) ++
  [addTag ['1', '0', '8', '='] 4 heartbeatInterval 2,
    addTag ['5', '5', '3', '='] 4 b.auth.username b.auth.username.length,
    addTag ['5', '5', '4', '='] 4 b.auth.password b.auth.password.length,
    addTag ['1', '1', '3', '7', '='] 5 (ascii ['9']) 1]

def buildTestRequest : List (Except Fault (List UInt8)) :=
  [addTagInt ['1', '1', '2', '='] 4 1]

def buildSequenceReset (newSeq : UInt32) : List (Except Fault (List UInt8)) :=
  [addTag ['1', '2', '3', '='] 4 (ascii ['Y']) 1, addTagInt ['3', '6', '='] 3 newSeq]

def buildResendRequest (beginSeq endSeq : UInt32) : List (Except Fault (List UInt8)) :=
  [addTagInt ['7', '='] 2 beginSeq, addTagInt ['1', '6', '='] 3 endSeq]

/-- `addTag("55=", 3, order.symbol.data(), order.real_symbol_len, buf)`. -/
def addSymbol (order : Order) (own : OwnFields) : Except Fault (List UInt8) :=
  addTag ['5', '5', '='] 3 (charArray orderTextSize order.symbol) own.realSymbolLen.toNat

/-- The client order token, of which `len` bytes are copied. -/
def addToken (own : OwnFields) (len : ℕ) : Except Fault (List UInt8) :=
  addTag ['1', '1', '='] 3 (charArray orderTextSize own.clientOrderToken) len

/-- `addTag("54=", 3, static_cast<uint32_t>(order.side), buf)`. -/
def addSide (order : Order) : Except Fault (List UInt8) :=
  addTagInt ['5', '4', '='] 3 order.side.code.toUInt32

/-- `addTag("37=", 3, order.order_id, buf)`, which narrows the order id. -/
def addOrderId (order : Order) : Except Fault (List UInt8) :=
  addTagInt ['3', '7', '='] 3 order.orderId.toUInt32

/-- The field 60 of the time stamp of an order. -/
def addTimestamp (b : BuilderFIX) (order : Order) : Except Fault (List UInt8) :=
  let ts := b.day.epochToTransactTime order.timestamp
  addTag ['6', '0', '='] 3 ts ts.length

/-- The account and the fixed capacity of an order. -/
def addAccount (b : BuilderFIX) : List (Except Fault (List UInt8)) :=
  [addTag ['1', '='] 2 b.auth.account b.auth.account.length,
    addTag ['5', '2', '8', '='] 4 (ascii ['A']) 1]

/-- The fields from the quantity on, as in new and replaced orders. -/
def addTerms (order : Order) (own : OwnFields) : List (Except Fault (List UInt8)) :=
  [addTagInt ['3', '8', '='] 3 order.quantity,
    addTagInt ['4', '0', '='] 3 order.orderType.code] ++
  (if order.orderType = .limit then
    [addTagPrice 4 ['4', '4', '='] 3 order.price.toUInt64.toUInt32] else []) ++
  [addTimeInForce own.timeInForce]

/-- `buildNewOrderSingle`; 13 bytes of the token are copied, whatever its length. -/
def buildNewOrderSingle (b : BuilderFIX) (order : Order) (own : OwnFields) :
    List (Except Fault (List UInt8)) :=
  [addToken own 13] ++ b.addAccount ++
  [addSymbol order own, addSide order, b.addTimestamp order] ++ addTerms order own

def buildCancelRequest (b : BuilderFIX) (order : Order) (own : OwnFields) :
    List (Except Fault (List UInt8)) :=
  [addTag ['4', '1', '='] 3 (ascii ['N', 'O', 'N', 'E']) 4, addOrderId order,
    addToken own own.realClOrdTokenLen.toNat, addSymbol order own, addSide order,
    b.addTimestamp order, addTagInt ['3', '8', '='] 3 order.quantity]

def buildCancelReplaceRequest (b : BuilderFIX) (order : Order) (own : OwnFields) :
    List (Except Fault (List UInt8)) :=
  [addOrderId order, addTag ['4', '1', '='] 3 (ascii ['N', 'O', 'N', 'E']) 4,
    addToken own own.realClOrdTokenLen.toNat] ++ b.addAccount ++
  [addSymbol order own, addSide order, b.addTimestamp order] ++ addTerms order own

/-- `buildBody_impl`, by the type of the message: the calls of `addTag`. -/
def buildBody (b : BuilderFIX) : FIXRequest → List (Except Fault (List UInt8))
  | .logon reset => b.buildLogon reset
  | .logout => []
  | .heartbeat => []
  | .testRequest => buildTestRequest
  | .sequenceReset newSeq => buildSequenceReset newSeq
  | .resendRequest beginSeq endSeq => buildResendRequest beginSeq endSeq
  | .newOrderSingle order own => b.buildNewOrderSingle order own
  | .orderCancelRequest order own => b.buildCancelRequest order own
  | .orderCancelReplaceRequest order own => b.buildCancelReplaceRequest order own

/-! ### Header, trailer and `build` -/

/-- `buildHeader` for a new message with `bodyLen` bytes of body. -/
def buildHeader (b : BuilderFIX) (bodyLen : ℕ) (type : FIXTypes) (now : ℕ) :
    Except Fault (List UInt8) :=
  let seq := b.sent.myNextSeqnum
  let ts := b.day.transactTime now
  let len :=
    bodyLen + (1 + b.auth.myId.length + b.auth.venueId.length + digit seq + ts.length + 20)
  writeFields [
    addTag ['8', '='] 2 (ascii ['F', 'I', 'X', '.', '5', '.', '0', ' ']) 7,
    addTagInt ['9', '='] 2 (UInt32.ofNat len),
    addTag ['3', '5', '='] 3 [type.code] 1,
    addTag ['4', '9', '='] 3 b.auth.myId b.auth.myId.length,
    addTag ['5', '6', '='] 3 b.auth.venueId b.auth.venueId.length,
    addTagInt ['3', '4', '='] 3 seq,
    addTag ['5', '2', '='] 3 ts ts.length]

/-- `finalizeChecksum`: the bytes written behind `text`. -/
def finalizeChecksum (text : List UInt8) : List UInt8 :=
  let cksum := (text.foldl (fun sum c => sum + c.toUInt32) (0 : UInt32) % 256).toNat
  ascii ['1', '0', '='] ++
    [digitChar (cksum / 100 % 10), digitChar (cksum / 10 % 10), digitChar (cksum % 10)] ++ [soh]

/-- The part of `build` behind the header: body and trailer go into the history
entry of the next sequence number. -/
def fileMessage (b : BuilderFIX) (header body : List UInt8) :
    Except Fault (BufferFIX × BuilderFIX) :=
  let seq := b.sent.myNextSeqnum
  let text := header ++ body
  let data := text ++ finalizeChecksum text
  if maxMsgSize < data.length then .error .outOfBounds
  else
    let buffer : BufferFIX :=
      { data := data
        hotdataStart := text.length
        len := UInt16.ofNat text.length + 7
        hotdataLen := UInt16.ofNat body.length }
    let sent : SentFIX :=
      { myNextSeqnum := seq + 1
        messages := Function.update b.sent.messages seq.toNat buffer }
    .ok (buffer, { b with sent := sent })

/-- `build<T>`: the buffer it returns, and the builder after it. -/
def build (b : BuilderFIX) (r : FIXRequest) (now : ℕ) : Except Fault (BufferFIX × BuilderFIX) :=
  if dailyFixMsgCount ≤ b.sent.myNextSeqnum.toNat then .error .outOfBounds
  else do
    let body ← writeFields (b.buildBody r)
    if maxBodySize < body.length then .error .outOfBounds
    else do
      let header ← b.buildHeader body.length r.type now
      b.fileMessage header body

end BuilderFIX

end TradingEngine
