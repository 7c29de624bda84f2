/-
The FIX session level: what `parseFIX` does with a message once its bytes have
been found (`Parser_Dispatch.cpp`, `Parser_FIX.{h,cpp}`, `Sequence_FIX.h`).

A message is delivered when its sequence number is the expected one, buffered
in `pending_to_store_map_` when it is ahead, and dropped when it is behind.
Every delivery is followed by a loop that drains the map as long as it holds
the next expected number.

Messages are values here; a record stands for the pooled object it is parsed
into.  The two free lists are kept, because `parse` and `resend_logic` take
records from them and write through the pointer without a test.  The queues
`parser_to_store_` and `parser_to_fixbuilder_rx_/tx_` are kept as the list of
everything pushed to them.

`drainPending` counts its rounds; `drainPending_ok` says that one round more
than the map has entries is always enough, as long as every entry is filed
under its own number.
-/
import TradingEngine.FallibleRun
import TradingEngine.Order
import TradingEngine.SortedMap

namespace TradingEngine

open FallibleRun

/-! ### Messages -/

/-- `enum class FIXTypes`, as the byte that tag 35 carries. -/
inductive FIXTypes
  | logon
  | logout
  | heartbeat
  | testRequest
  | resendRequest
  | reject
  | sequenceReset
  | newOrderSingle
  | orderCancelRequest
  | orderCancelReplaceRequest
  | executionReport
  | orderCancelReject
  deriving DecidableEq, Repr

def FIXTypes.code : FIXTypes → UInt8
  | .logon => 0x41
  | .logout => 0x35
  | .heartbeat => 0x30
  | .testRequest => 0x31
  | .resendRequest => 0x32
  | .reject => 0x33
  | .sequenceReset => 0x34
  | .newOrderSingle => 0x44
  | .orderCancelRequest => 0x46
  | .orderCancelReplaceRequest => 0x47
  | .executionReport => 0x38
  | .orderCancelReject => 0x39

/-- `struct FIXMessage`, an application message; the texts are byte lists. -/
structure FIXMessage where
  price : Int64 := 0
  lastPrice : Int64 := 0
  quantity : UInt32 := 0
  leavesQty : UInt32 := 0
  lastQty : UInt32 := 0
  filledQty : UInt32 := 0
  transactTime : UInt32 := 0
  instrumentId : UInt32 := 0
  seqnum : UInt32 := 0
  msgType : UInt8 := 0
  side : UInt8 := 0
  ordStatus : UInt8 := 0
  execType : UInt8 := 0
  ordType : UInt8 := 0
  timeInForce : UInt8 := 0
  cxlRejResponseTo : UInt8 := 0
  cxlRejReason : UInt8 := 255
  symbol : List UInt8 := []
  orderId : List UInt8 := []
  clOrdId : List UInt8 := []
  execId : List UInt8 := []
  origClOrdId : List UInt8 := []
  deriving DecidableEq, Repr

/-- `struct FIXSessionMessage`. -/
structure FIXSessionMessage where
  seqnum : UInt32 := 0
  interval : UInt32 := 0
  sesStatus : UInt32 := 255
  newSeqnum : UInt32 := 0
  beginSeqnum : UInt32 := 0
  endSeqnum : UInt32 := 0
  refSeqnum : UInt32 := 0
  testReqId : UInt32 := 0
  sendingTime : UInt32 := 0
  orgSendingTime : UInt32 := 0
  gapFillFlag : UInt8 := 0
  rejectReason : UInt8 := 255
  msgType : UInt8 := 0
  possDubFlag : UInt8 := 0
  resetSeqnumFlag : UInt8 := 0x4E
  text : List UInt8 := []
  deriving DecidableEq, Repr

/-- `std::variant<FIXMessage*, FIXSessionMessage*>`. -/
inductive FIXVariant
  | app (msg : FIXMessage)
  | ses (msg : FIXSessionMessage)
  deriving DecidableEq, Repr

/-- `msg->seqnum`, whichever alternative the variant holds. -/
def FIXVariant.seqnum : FIXVariant → UInt32
  | .app msg => msg.seqnum
  | .ses msg => msg.seqnum

/-- The application message of a variant, if it is one. -/
def FIXVariant.app? : FIXVariant → Option FIXMessage
  | .app msg => some msg
  | .ses _ => none

/-- What the bytes of one complete message give: the byte `find_type` returns,
and the record each instance of `parse` hands out. -/
structure FIXText where
  type : UInt8
  fixMsg : FIXMessage
  fixSesMsg : FIXSessionMessage
  deriving DecidableEq, Repr

/-- `type >= 56 && type != 'A'` on a signed `char`. -/
def FIXText.isApplication (t : FIXText) : Bool :=
  56 ≤ t.type && t.type < 128 && t.type ≠ 0x41

/-- The message `parseFIX` makes of the text. -/
def FIXText.variant (t : FIXText) : FIXVariant :=
  if t.isApplication then .app t.fixMsg else .ses t.fixSesMsg

/-! ### State -/

/-- `struct FIXSequence`; time points count nanoseconds. -/
structure SequenceFIX where
  myNextSeqnum : UInt32 := 1
  expectedSeqnum : UInt32 := 1
  lastResendTs : ℕ := 0
  resendCounter : UInt8 := 0
  deriving DecidableEq, Repr

/-- The fields of `SessionState` that the FIX session messages touch. -/
structure SessionState where
  isLoggedIn : Bool := false
  loggedBefore : Bool := false
  loginRetryCount : UInt32 := 0
  fix : SequenceFIX := {}
  deriving DecidableEq, Repr

/-- `Parser_Dispatch` with its `Parser_FIX` and the state of the FIX session. -/
structure FixDispatch where
  state : SessionState := {}
  pendingToStoreMap : SortedMap UInt32 FIXVariant := ∅
  freeFixMsgList : List FIXMessage := []
  freeFixSesMsgList : List FIXSessionMessage := []
  parserToStore : List FIXVariant := []
  parserToFixbuilderRx : List FIXSessionMessage := []
  parserToFixbuilderTx : List FIXSessionMessage := []
  deriving DecidableEq

namespace SequenceFIX

/-- `MAX_RESEND_ATTEMPT`. -/
def maxResendAttempt : UInt8 := 3

/-- `RESEND_INTERVAL`, one second. -/
def resendInterval : ℕ := 1000000000

def setNextSeq (s : SequenceFIX) (num : UInt32) : SequenceFIX := { s with myNextSeqnum := num }

def setExpectedSeq (s : SequenceFIX) (num : UInt32) : SequenceFIX :=
  { s with expectedSeqnum := num }

def increaseExpectedSeq (s : SequenceFIX) : SequenceFIX :=
  { s with expectedSeqnum := s.expectedSeqnum + 1 }

def increaseResendCounter (s : SequenceFIX) : SequenceFIX :=
  { s with resendCounter := s.resendCounter + 1 }

def resetResendCounter (s : SequenceFIX) : SequenceFIX := { s with resendCounter := 0 }

end SequenceFIX

/-- `Parser_FIX::handle_sesMsg`: whether the message is dealt with, and the
session after it. -/
def handleSesMsg (msg : FIXSessionMessage) (state : SessionState) : Bool × SessionState :=
  if msg.msgType = FIXTypes.resendRequest.code then (false, state)
  else if msg.msgType = FIXTypes.reject.code then (false, state)
  else if msg.msgType = FIXTypes.sequenceReset.code then
    (true, { state with fix := state.fix.setExpectedSeq msg.newSeqnum })
  else if msg.msgType = FIXTypes.testRequest.code then (false, state)
  else if msg.msgType = FIXTypes.logout.code then
    if msg.sesStatus = 255 then (false, state)
    else if msg.sesStatus = 4 then (true, { state with isLoggedIn := false })
    else (true, state)
  else if msg.msgType = FIXTypes.logon.code then
    let fix :=
      if msg.resetSeqnumFlag = 0x59 then (state.fix.setExpectedSeq 2).setNextSeq 1 else state.fix
    (true, { state with fix := fix, isLoggedIn := true, loggedBefore := true, loginRetryCount := 0 })
  else (true, state)

namespace FixDispatch

/-- `get_expected()`. -/
def expected (d : FixDispatch) : UInt32 := d.state.fix.expectedSeqnum

/-- `get_next_seq()`. -/
def nextSeq (d : FixDispatch) : UInt32 := d.state.fix.myNextSeqnum

def increaseExpectedSeq (d : FixDispatch) : FixDispatch :=
  { d with state := { d.state with fix := d.state.fix.increaseExpectedSeq } }

/-- `parser_to_store_.push(...)`. -/
def toStore (d : FixDispatch) (v : FIXVariant) : FixDispatch :=
  { d with parserToStore := d.parserToStore ++ [v] }

/-- `push_pending`. -/
def pushPending (d : FixDispatch) (v : FIXVariant) : FixDispatch :=
  { d with pendingToStoreMap := d.pendingToStoreMap.emplace v.seqnum v }

/-- `pop_pending`. -/
def popPending (d : FixDispatch) (seqnum : UInt32) : FixDispatch :=
  { d with pendingToStoreMap := d.pendingToStoreMap.erase seqnum }

/-- `if (!handle_sesMsg(...)) parser_to_fixbuilder_rx_.push(...)`. -/
def handleSes (d : FixDispatch) (msg : FIXSessionMessage) : FixDispatch :=
  let r := handleSesMsg msg d.state
  if r.1 then { d with state := r.2 }
  else { d with state := r.2, parserToFixbuilderRx := d.parserToFixbuilderRx ++ [msg] }

/-- `free_fixMsg_list_.pop(msg)` at the head of `parse<FIXMessage>`; an empty
list leaves a null pointer for the tag handlers. -/
def popFixMsg (d : FixDispatch) : Except Fault FixDispatch :=
  match d.freeFixMsgList with
  | [] => .error .nullDereference
  | _ :: rest => .ok { d with freeFixMsgList := rest }

/-- `free_fixSesMsg_list_.pop(msg)` at the head of `parse<FIXSessionMessage>`. -/
def popFixSesMsg (d : FixDispatch) : Except Fault FixDispatch :=
  match d.freeFixSesMsgList with
  | [] => .error .nullDereference
  | _ :: rest => .ok { d with freeFixSesMsgList := rest }

/-- Take a record off `free_fixSesMsg_list_`, fill it and hand it to the
builder; an empty list leaves a null pointer behind. -/
def sendSes (d : FixDispatch) (fill : FIXSessionMessage → FIXSessionMessage) :
    Except Fault FixDispatch :=
  match d.freeFixSesMsgList with
  | [] => .error .nullDereference
  | msg :: rest =>
    .ok { d with
      freeFixSesMsgList := rest
      parserToFixbuilderTx := d.parserToFixbuilderTx ++ [fill msg] }

/-- `Parser_FIX::resend_logic` at the time `now`. -/
def resendLogic (d : FixDispatch) (msgSeqnum : UInt32) (now : ℕ) : Except Fault FixDispatch :=
  if d.state.fix.resendCounter < SequenceFIX.maxResendAttempt ∧
      SequenceFIX.resendInterval < now - d.state.fix.lastResendTs then do
    let d' ← d.sendSes fun msg =>
      { msg with
        beginSeqnum := d.expected
        endSeqnum := msgSeqnum
        msgType := FIXTypes.resendRequest.code }
    .ok { d' with state := { d'.state with fix := d'.state.fix.increaseResendCounter } }
  else do
    let d' ← d.sendSes fun msg => { msg with msgType := FIXTypes.logout.code }
    let d'' ← d'.sendSes fun msg => { msg with msgType := FIXTypes.logon.code }
    .ok { d'' with state := { d''.state with fix := d''.state.fix.resetResendCounter } }

/-- `Parser_FIX::resend_logic_logon`. -/
def resendLogicLogon (d : FixDispatch) (msg : FIXSessionMessage) : Except Fault FixDispatch :=
  if msg.resetSeqnumFlag = 0x59 then
    .ok { d with
      state := { d.state with fix := (d.state.fix.setExpectedSeq 2).setNextSeq 1 }
      pendingToStoreMap := ∅
      freeFixSesMsgList := d.freeFixSesMsgList ++ [msg] }
  else do
    let d' ← d.sendSes fun out =>
      { out with
        beginSeqnum := d.expected
        endSeqnum := msg.seqnum - 1
        msgType := FIXTypes.resendRequest.code }
    .ok (d'.pushPending (.ses msg))

/-- `Parser_Dispatch::proceedPendingFIX`. -/
def proceedPendingFIX (d : FixDispatch) (v : FIXVariant) : FixDispatch :=
  let d' := match v with
    | .ses msg => if msg.msgType ≠ FIXTypes.logon.code then d.handleSes msg else d
    | .app msg => d.toStore (.app msg)
  d'.popPending v.seqnum

/-- The loop `while (find_in_pending(get_expected()))`, for at most `fuel`
rounds. -/
def drainPending : ℕ → FixDispatch → Except Fault FixDispatch
  | 0, _ => .error .nonTermination
  | fuel + 1, d =>
    match d.pendingToStoreMap.find? d.expected with
    | none => .ok d
    | some v => drainPending fuel (d.proceedPendingFIX v).increaseExpectedSeq

/-- The draining loop with as many rounds as it can need. -/
def drain (d : FixDispatch) : Except Fault FixDispatch :=
  drainPending (d.pendingToStoreMap.entries.length + 1) d

/-- An application message with the expected number, up to the draining loop. -/
def acceptApp (d : FixDispatch) (msg : FIXMessage) : FixDispatch :=
  (d.toStore (.app msg)).increaseExpectedSeq

/-- A session message with the expected number, up to the draining loop. -/
def acceptSes (d : FixDispatch) (msg : FIXSessionMessage) : FixDispatch :=
  (d.handleSes msg).increaseExpectedSeq

/-- `parseFIX` on an application message. -/
def onAppMsg (d : FixDispatch) (msg : FIXMessage) : Except Fault FixDispatch :=
  if d.expected = msg.seqnum then (d.acceptApp msg).drain
  else if d.expected < msg.seqnum then .ok (d.pushPending (.app msg))
  else .ok d

/-- `parseFIX` on a session message at the time `now`. -/
def onSesMsg (d : FixDispatch) (msg : FIXSessionMessage) (now : ℕ) : Except Fault FixDispatch :=
  if d.expected = msg.seqnum then (d.acceptSes msg).drain
  else if d.expected < msg.seqnum then
    if msg.msgType ≠ FIXTypes.logon.code then do
      let d' ← d.resendLogic msg.seqnum now
      .ok (d'.pushPending (.ses msg))
    else d.resendLogicLogon msg
  else .ok d

/-- The body of the `parseFIX` loop for one complete message. -/
def parseFIXMsg (d : FixDispatch) (t : FIXText) (now : ℕ) : Except Fault FixDispatch :=
  if t.isApplication then do
    let d' ← d.popFixMsg
    d'.onAppMsg t.fixMsg
  else do
    let d' ← d.popFixSesMsg
    let d'' ← d'.onSesMsg t.fixSesMsg now
    .ok (d''.toStore (.ses t.fixSesMsg))

end FixDispatch

/-- What happens to the parser: a complete message, or a record that comes back
to its free list (`releaseFIX`). -/
inductive FixEvent
  | arrive (t : FIXText) (now : ℕ)
  | releaseApp (msg : FIXMessage)
  | releaseSes (msg : FIXSessionMessage)
  deriving DecidableEq, Repr

namespace FixDispatch

def step (d : FixDispatch) : FixEvent → Except Fault FixDispatch
  | .arrive t now => d.parseFIXMsg t now
  | .releaseApp msg => .ok { d with freeFixMsgList := d.freeFixMsgList ++ [msg] }
  | .releaseSes msg => .ok { d with freeFixSesMsgList := d.freeFixSesMsgList ++ [msg] }

end FixDispatch

end TradingEngine
