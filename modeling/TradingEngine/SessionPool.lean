/-
The pooled FIX session messages and the components they pass through.

`FixSession` treats messages as values; here a session message is an object of
`fixSesMsg_pool_`, named by its slot, and the queues carry slots.  The parser
takes an object from `free_fixSesMsg_list_` for every session message and for
every request of the resend logic.  Three places give objects back: the builder
for every message it pops (`buildFIX_ses_out`, `buildFIX_ses_in`), the logon path
with a reset, and `flush_DbQueue` for what the database thread returns.

The store path is the `Pipeline` of wrappers and queues; the other messages on it
are kept as far as they take wrappers and room.  The pool of the application
messages is left out, as is what the builder sends: both can only end a run.

`releases` counts the calls of `releaseFIX` on an object since it was last taken.
-/
import TradingEngine.FixSession
import TradingEngine.LossyPipeline

namespace TradingEngine

/-- An object of `fixSesMsg_pool_`. -/
abbrev SesSlot := Fin 1024

/-- What `pending_to_store_map_` holds. -/
inductive PendingFix
  | app (msg : FIXMessage)
  | ses (slot : SesSlot)

/-- A message object on the store path. -/
inductive StoreObj
  | ses (slot : SesSlot)
  | other (kind : MessageKind)

def PendingFix.ses? : PendingFix → Option SesSlot
  | .app _ => none
  | .ses slot => some slot

def StoreObj.ses? : StoreObj → Option SesSlot
  | .ses slot => some slot
  | .other _ => none

def StoreObj.kind : StoreObj → MessageKind
  | .ses _ => .fixSession
  | .other kind => kind

/-- `free_fixSesMsg_list_` as the constructor of `Parser_FIX` fills it. -/
def allSesSlots : BoundedQueue SesSlot 1024 := .indices 1024

/-- `Parser_FIX` and `Parser_Dispatch` with the queues to the builder. -/
structure SesParser where
  state : SessionState := {}
  pool : SesSlot → FIXSessionMessage := fun _ => {}
  freeList : BoundedQueue SesSlot 1024 := allSesSlots
  pending : SortedMap UInt32 PendingFix := ∅
  rx : BoundedQueue SesSlot 1024 := .empty
  tx : BoundedQueue SesSlot 1024 := .empty
  /-- what the call under way pushes to `parser_to_store_` -/
  out : List StoreObj := []
  releases : SesSlot → ℕ := fun _ => 0

namespace SesParser

/-- `get_expected()`. -/
def expected (p : SesParser) : UInt32 := p.state.fix.expectedSeqnum

def increaseExpectedSeq (p : SesParser) : SesParser :=
  { p with state := { p.state with fix := p.state.fix.increaseExpectedSeq } }

/-- `free_fixSesMsg_list_.pop(msg)`; an empty list leaves a null pointer. -/
def takeSes (p : SesParser) : Except Fault (SesSlot × SesParser) :=
  match p.freeList.items with
  | [] => .error .nullDereference
  | slot :: _ =>
    .ok (slot,
      { p with
        freeList := p.freeList.tail
        releases := Function.update p.releases slot 0 })

/-- `releaseFIX(fixSesMsg)`. -/
def releaseFIX (p : SesParser) (slot : SesSlot) : SesParser :=
  { p with
    freeList := p.freeList.push slot
    releases := Function.update p.releases slot (p.releases slot + 1) }

/-- Write into an object. -/
def fill (p : SesParser) (slot : SesSlot) (msg : FIXSessionMessage) : SesParser :=
  { p with pool := Function.update p.pool slot msg }

/-- `parser_to_store_.push(...)`. -/
def toStore (p : SesParser) (obj : StoreObj) : SesParser := { p with out := p.out ++ [obj] }

/-- `push_pending`. -/
def pushPending (p : SesParser) (seqnum : UInt32) (v : PendingFix) : SesParser :=
  { p with pending := p.pending.emplace seqnum v }

/-- `pop_pending`. -/
def popPending (p : SesParser) (seqnum : UInt32) : SesParser :=
  { p with pending := p.pending.erase seqnum }

/-- `if (!handle_sesMsg(...)) parser_to_fixbuilder_rx_.push(...)`. -/
def handleSes (p : SesParser) (slot : SesSlot) : SesParser :=
  let r := handleSesMsg (p.pool slot) p.state
  if r.1 then { p with state := r.2 } else { p with state := r.2, rx := p.rx.push slot }

/-- Take an object, fill it and push it to `parser_to_fixbuilder_tx_`. -/
def sendSes (p : SesParser) (f : FIXSessionMessage → FIXSessionMessage) :
    Except Fault SesParser := do
  let (slot, q) ← p.takeSes
  .ok { q.fill slot (f (q.pool slot)) with tx := q.tx.push slot }

/-- `Parser_FIX::resend_logic` at the time `now`. -/
def resendLogic (p : SesParser) (msgSeqnum : UInt32) (now : ℕ) : Except Fault SesParser :=
  if p.state.fix.resendCounter < SequenceFIX.maxResendAttempt ∧
      SequenceFIX.resendInterval < now - p.state.fix.lastResendTs then do
    let q ← p.sendSes fun msg =>
      { msg with
        beginSeqnum := p.expected
        endSeqnum := msgSeqnum
        msgType := FIXTypes.resendRequest.code }
    .ok { q with state := { q.state with fix := q.state.fix.increaseResendCounter } }
  else do
    let q ← p.sendSes fun msg => { msg with msgType := FIXTypes.logout.code }
    let r ← q.sendSes fun msg => { msg with msgType := FIXTypes.logon.code }
    .ok { r with state := { r.state with fix := r.state.fix.resetResendCounter } }

/-- `Parser_FIX::resend_logic_logon`. -/
def resendLogicLogon (p : SesParser) (slot : SesSlot) : Except Fault SesParser :=
  if (p.pool slot).resetSeqnumFlag = 0x59 then
    .ok ({ p with
      state := { p.state with fix := (p.state.fix.setExpectedSeq 2).setNextSeq 1 }
      pending := ∅ }.releaseFIX slot)
  else do
    let q ← p.sendSes fun out =>
      { out with
        beginSeqnum := p.expected
        endSeqnum := (p.pool slot).seqnum - 1
        msgType := FIXTypes.resendRequest.code }
    .ok (q.pushPending (q.pool slot).seqnum (.ses slot))

/-- `Parser_Dispatch::proceedPendingFIX`; the number that is erased is read from
the object. -/
def proceedPendingFIX (p : SesParser) : PendingFix → SesParser
  | .ses slot =>
    let q := if (p.pool slot).msgType ≠ FIXTypes.logon.code then p.handleSes slot else p
    q.popPending (q.pool slot).seqnum
  | .app msg => (p.toStore (.other .fix)).popPending msg.seqnum

/-- The loop `while (find_in_pending(get_expected()))`, for at most `fuel`
rounds. -/
def drainPending : ℕ → SesParser → Except Fault SesParser
  | 0, _ => .error .nonTermination
  | fuel + 1, p =>
    match p.pending.find? p.expected with
    | none => .ok p
    | some v => drainPending fuel (p.proceedPendingFIX v).increaseExpectedSeq

def drain (p : SesParser) : Except Fault SesParser :=
  drainPending (p.pending.entries.length + 1) p

/-- `parseFIX` on an application message. -/
def onAppMsg (p : SesParser) (msg : FIXMessage) : Except Fault SesParser :=
  if p.expected = msg.seqnum then (p.toStore (.other .fix)).increaseExpectedSeq.drain
  else if p.expected < msg.seqnum then .ok (p.pushPending msg.seqnum (.app msg))
  else .ok p

/-- `parseFIX` on the session message in `slot` at the time `now`. -/
def onSesMsg (p : SesParser) (slot : SesSlot) (now : ℕ) : Except Fault SesParser :=
  if p.expected = (p.pool slot).seqnum then (p.handleSes slot).increaseExpectedSeq.drain
  else if p.expected < (p.pool slot).seqnum then
    if (p.pool slot).msgType ≠ FIXTypes.logon.code then do
      let q ← p.resendLogic (p.pool slot).seqnum now
      .ok (q.pushPending (q.pool slot).seqnum (.ses slot))
    else p.resendLogicLogon slot
  else .ok p

/-- The body of the `parseFIX` loop for one complete message. -/
def parseFIXMsg (p : SesParser) (t : FIXText) (now : ℕ) : Except Fault SesParser :=
  if t.isApplication then p.onAppMsg t.fixMsg
  else do
    let (slot, q) ← p.takeSes
    let r ← (q.fill slot t.fixSesMsg).onSesMsg slot now
    .ok (r.toStore (.ses slot))

end SesParser

/-! ### The system -/

/-- The parser and the store path. -/
structure SesSystem where
  parser : SesParser := {}
  pipe : Pipeline StoreObj := {}

/-- The steps of the four threads. -/
inductive SesEvent
  /-- the parser handles a complete FIX message -/
  | arrive (t : FIXText) (now : ℕ)
  /-- the parser hands over a message of another protocol -/
  | give (kind : MessageKind)
  /-- the store takes a deferred message, or a new one, and handles it -/
  | takePending
  | takeNew
  | handle (outs : List StoreOut)
  /-- the database thread passes one item on -/
  | write
  /-- the parser takes one item back -/
  | flush
  /-- the builder takes a message from `parser_to_fixbuilder_rx_`, or from `tx_` -/
  | buildOut
  | buildIn

namespace SesSystem

/-- The store pushes a session message to the database; what it does with others
is up to `outs`. -/
def storeOuts (s : SesSystem) (outs : List StoreOut) : List StoreOut :=
  match s.pipe.inHand.bind s.pipe.msgWrappers.slots with
  | some (.ses _) => [.message]
  | _ => outs

/-- The object of a session message that comes back is released. -/
def takeBack (s : SesSystem) : SesParser :=
  match s.pipe.flushed? with
  | some (.ses slot) => s.parser.releaseFIX slot
  | _ => s.parser

/-- `buildFIX_ses_out`: every branch releases the message. -/
def buildOut (s : SesSystem) : SesSystem :=
  match s.parser.rx.items with
  | [] => s
  | slot :: _ =>
    { s with parser := { s.parser with rx := s.parser.rx.tail }.releaseFIX slot }

/-- `buildFIX_ses_in`: every branch releases the message. -/
def buildIn (s : SesSystem) : SesSystem :=
  match s.parser.tx.items with
  | [] => s
  | slot :: _ =>
    { s with parser := { s.parser with tx := s.parser.tx.tail }.releaseFIX slot }

def step (s : SesSystem) : SesEvent → Except Fault SesSystem
  | .arrive t now => do
    let q ← s.parser.parseFIXMsg t now
    .ok { parser := { q with out := [] }, pipe := q.out.foldl Pipeline.give s.pipe }
  | .give kind => .ok { s with pipe := s.pipe.give (.other kind) }
  | .takePending => do
    let p ← s.pipe.takePending
    .ok { s with pipe := p }
  | .takeNew => .ok { s with pipe := s.pipe.takeNew }
  | .handle outs => do
    let p ← s.pipe.handle StoreObj.kind (s.storeOuts outs)
    .ok { s with pipe := p }
  | .write => .ok { s with pipe := s.pipe.write }
  | .flush => do
    let p ← s.pipe.flush
    .ok { parser := s.takeBack, pipe := p }
  | .buildOut => .ok s.buildOut
  | .buildIn => .ok s.buildIn

end SesSystem

end TradingEngine
