/-
The pool of packets to send (`network/NetworkPackets.h`,
`protocol/Builder_Dispatch.cpp`, `network/NetworkIO.{h,cpp}`).

`get_txPkt` hands out the 1024 packets of the pool in turn and never asks whether
the packet it hands out is still on its way.  A packet is named here by the number
of the call that handed it out; two packets share a slot of the pool when their
numbers agree modulo 1024.

The builder takes a packet, fills it and pushes it to `builder_to_sender_` in three
steps.  The network thread pops packets, sends them, queues them per session and
takes packets of its own for logins.  Any of these steps can come next.

`snapshot` keeps what a packet held when it was pushed.
-/
import TradingEngine.NetworkSend
import TradingEngine.BoundedQueue
import TradingEngine.FallibleRun

namespace TradingEngine

open FallibleRun

/-- `PACKET_POOL_CAPACITY`. -/
abbrev packetPoolCapacity : ℕ := 1024

/-- `TxPacketPoolManager::pool`. -/
abbrev PacketPool := Fin packetPoolCapacity → TxPacket

/-- `&pool[n & (PACKET_POOL_CAPACITY - 1)]`. -/
def poolSlot (n : ℕ) : Fin packetPoolCapacity := Fin.ofNat _ n

/-- Packets in the pool. -/
def TxAccess.byPool : TxAccess PacketPool ℕ where
  pkt pool t := pool (poolSlot t)
  setOffset pool t n :=
    (Function.update pool (poolSlot t) { pool (poolSlot t) with offset := n }, t)

/-- Where the builder is between `get_txPkt` and `push`. -/
inductive BuilderPc
  | idle
  | got (t : ℕ)
  | filled (t : ℕ)
  deriving DecidableEq, Repr

/-- Where the network thread is: with a packet it has popped, or in a login. -/
inductive SenderPc
  | idle
  | popped (t : ℕ)
  | loginGot (index : UInt8) (t : ℕ)
  | loginFilled (index : UInt8) (t : ℕ)
  deriving DecidableEq, Repr

/-- The pool, the queue between the threads, and the threads. -/
structure TxSystem where
  pool : PacketPool := fun _ => {}
  nextTxPkt : ℕ := 0
  builderToSender : BoundedQueue ℕ packetQueueCapacity := .empty
  builder : BuilderPc := .idle
  sender : SenderPc := .idle
  sessions : UInt8 → SendSession ℕ
  snapshot : ℕ → TxPacket := fun _ => {}

/-- The steps of the two threads. -/
inductive TxMove
  | getTxPkt
  | fillPacket (src : List UInt8) (index : UInt8) (loginMsg : Bool)
  | push
  | pop
  | trySend (os : List SendResult)
  | epollout (index : UInt8) (os : List SendResult)
  | setupSocket (index : UInt8) (inProgress : Bool)
  | connectionMade (index : UInt8)
  | loginFill (msg : List UInt8)
  | loginSend (os : List SendResult)
  | closeSocket (index : UInt8)
  | sessionState (index : UInt8) (loggedIn : Bool) (loginRetryCount : ℕ)

namespace TxSystem

/-- The session `index` becomes `session`. -/
def setSession (s : TxSystem) (index : UInt8) (session : SendSession ℕ) : TxSystem :=
  { s with sessions := Function.update s.sessions index session }

/-- The login of a connected session, up to `get_txPkt`. -/
def beginLogin (s : TxSystem) (index : UInt8) (session : SendSession ℕ) : TxSystem :=
  match session.loginDecider with
  | .alreadyLoggedIn => s.setSession index session
  | .disconnect => s.setSession index session.closeSocket
  | .tryAgain =>
    { s.setSession index { session with loginRetryCount := session.loginRetryCount + 1 } with
      sender := .loginGot index s.nextTxPkt
      nextTxPkt := s.nextTxPkt + 1 }

/-- The session of a socket that was just connected. -/
def reopened (s : TxSystem) (index : UInt8) : SendSession ℕ :=
  { (s.sessions index).closeSocket with closed := false }

/-- A step; one that does not apply changes nothing. -/
def step (s : TxSystem) : TxMove → Except Fault TxSystem
  | .getTxPkt =>
    match s.builder with
    | .idle => .ok { s with builder := .got s.nextTxPkt, nextTxPkt := s.nextTxPkt + 1 }
    | _ => .ok s
  | .fillPacket src index loginMsg =>
    match s.builder with
    | .got t => do
      let pkt ← (s.pool (poolSlot t)).fillPacket src index loginMsg
      .ok { s with pool := Function.update s.pool (poolSlot t) pkt, builder := .filled t }
    | _ => .ok s
  | .push =>
    match s.builder with
    | .filled t =>
      .ok { s with
        builderToSender := s.builderToSender.push t
        builder := .idle
        snapshot := Function.update s.snapshot t (s.pool (poolSlot t)) }
    | _ => .ok s
  | .pop =>
    match s.sender, s.builderToSender.items with
    | .idle, t :: _ =>
      .ok { s with sender := .popped t, builderToSender := s.builderToSender.tail }
    | _, _ => .ok s
  | .trySend os =>
    match s.sender with
    | .popped t =>
      let index := (s.pool (poolSlot t)).sockIndex
      if (s.sessions index).closed then .ok { s with sender := .idle }
      else
        let r := (s.sessions index).trySend .byPool s.pool t os
        .ok { s.setSession index r.2.2 with pool := r.1, sender := .idle }
    | _ => .ok s
  | .epollout index os =>
    let session := s.sessions index
    if s.sender = .idle ∧ session.isEpolloutSet = true ∧ session.connectionPending = false then do
      let r ← session.resume .byPool s.pool os
      .ok { s.setSession index r.2 with pool := r.1 }
    else .ok s
  | .setupSocket index inProgress =>
    if s.sender = .idle then
      if inProgress then
        .ok (s.setSession index { s.reopened index with connectionPending := true })
      else .ok (s.beginLogin index (s.reopened index))
    else .ok s
  | .connectionMade index =>
    if s.sender = .idle ∧ (s.sessions index).connectionPending = true then
      .ok (s.beginLogin index (s.sessions index).connected)
    else .ok s
  | .loginFill msg =>
    match s.sender with
    | .loginGot index t => do
      let pkt ← loginAttempt (s.pool (poolSlot t)) msg index
      .ok { s with
        pool := Function.update s.pool (poolSlot t) pkt
        sender := .loginFilled index t }
    | _ => .ok s
  | .loginSend os =>
    match s.sender with
    | .loginFilled index t =>
      let r := (s.sessions index).send .byPool s.pool t os
      .ok { s.setSession index r.2.1 with
        pool := r.1
        sender := .idle
        snapshot := Function.update s.snapshot t (s.pool (poolSlot t)) }
    | _ => .ok s
  | .closeSocket index =>
    if s.sender = .idle then .ok (s.setSession index (s.sessions index).closeSocket) else .ok s
  | .sessionState index loggedIn loginRetryCount =>
    .ok (s.setSession index
      { s.sessions index with loggedIn := loggedIn, loginRetryCount := loginRetryCount })

/-- Whether the step calls `get_txPkt`. -/
def callsGet (s : TxSystem) : TxMove → Bool
  | .getTxPkt => s.builder = .idle
  | .setupSocket index inProgress =>
    s.sender = .idle && !inProgress && (s.reopened index).loginDecider = .tryAgain
  | .connectionMade index =>
    s.sender = .idle && (s.sessions index).connectionPending &&
      (s.sessions index).connected.loginDecider = .tryAgain
  | _ => false

end TxSystem

end TradingEngine
