/-
The pool of received packets and the threads that pass them on
(`NetworkIO::recv_send`, `NetworkIO::SBTPacketHandler`, `NetworkIO::releasePacket`,
`Parser_Dispatch::dispatch`).

`NetworkReceive` follows the bytes of one session and takes the packets as values;
here a packet is an object of `packet_pool_`, named by its slot, and the free list,
the queue to the parser and the pending queues of all eight sessions carry slots.
The contents of the packets are kept: they decide what the handler does.

The receiving thread takes one step for each iteration of a loop, as in
`NetworkReceive`, and the parser can act between any two steps.  `inReceipt` is the
packet that the thread works on.

`partial_packet_pool_` holds no packets, so an empty free list at the wrong moment
ends the run.  What the parser reads off a packet is left out; of what it writes,
`releasePacket` resets the message count and nothing else is read again.
-/
import TradingEngine.BoundedQueue
import TradingEngine.FallibleRun
import TradingEngine.NetworkReceive

namespace TradingEngine

/-- An object of `packet_pool_`. -/
abbrev RxSlot := Fin 1024

/-- An index below `MAX_SESSIONS`. -/
abbrev SessionIndex := Fin 8

/-- What `epollPackData` packs of a session. -/
structure SessionContext where
  protocol : Protocol
  venue : Venue

/-- Where the receiving thread is. -/
inductive RxPc
  | idle
  | drain (i : SessionIndex)
  | recv (i : SessionIndex)
  | pending (i : SessionIndex) (rx : RxSlot) (offset : ℕ)
  | scan (i : SessionIndex) (rx : RxSlot) (offset : ℕ)
  | deliver (i : SessionIndex) (rx : RxSlot)

/-- The packet that the receiving thread works on. -/
def RxPc.inReceipt : RxPc → List RxSlot
  | .pending _ rx _ => [rx]
  | .scan _ rx _ => [rx]
  | .deliver _ rx => [rx]
  | _ => []

/-- What `recv` or `recvfrom` comes back with; no bytes mean that the peer has closed. -/
inductive RecvResult
  | again
  | interrupted
  | failed
  | bytes (segment : List UInt8)

/-- The packet pool with everything that holds a packet. -/
structure RxSystem where
  pool : RxSlot → RxPacket := fun _ => {}
  freePktList : BoundedQueue RxSlot 1024 := .indices 1024
  receiverToParser : BoundedQueue RxSlot 1024 := .empty
  pendingRead : SessionIndex → CustomQueue RxSlot pendingCapacity := fun _ => ⟨fun _ => 0, 0, 0⟩
  closed : SessionIndex → Bool := fun _ => false
  pc : RxPc := .idle
  /-- the packet that `dispatch` has popped -/
  inParser : Option RxSlot := none

/-- What can happen next. -/
inductive RxMove
  | epollin (i : SessionIndex)
  | recv (result : RecvResult)
  | run
  | parserTake
  | parserDone

/-! ### The loop over a segment -/

/-- How the loop over the packets of a segment ends. -/
inductive ScanEnd
  | deliver
  | rest (offset pktLen : ℕ) (lenPartial : Bool)
  | drop
  | close

/-- The loop over the packets of a segment from `offset` on, for at most `fuel`
rounds, with the offsets it records in the packet. -/
def scanPackets : ℕ → RxPacket → ℕ → Except Fault (RxPacket × ScanEnd)
  | 0, _, _ => .error .outOfBounds
  | fuel + 1, pkt, offset =>
    if pkt.len ≤ offset then .ok (pkt, .deliver)
    else do
      let (pktLen, lenPartial) ← packetLen { pkt := pkt } offset
      if pkt.len < pktLen + offset ∨ lenPartial = true then
        .ok (pkt, .rest offset pktLen lenPartial)
      else do
        let action ← pktHandler pkt.data offset
        match action with
        | .toParser =>
          if h : pkt.msgCount.toNat < maxAppMsg then
            scanPackets fuel
              { pkt with
                offsets := pkt.offsets.set pkt.msgCount.toNat offset h
                msgCount := pkt.msgCount + 1 }
              (offset + pktLen)
          else .error .outOfBounds
        | .reconnect => .ok (pkt, .close)
        | .disconnect => .ok (pkt, .close)
        | .notToParser => .ok (pkt, .drop)
        | .ignore => .ok (pkt, .drop)

/-- The rest of the segment in `rx` from `offset` on, copied into another packet. -/
def copyRest (pkt rx : RxPacket) (offset pktLen : ℕ) (lenPartial : Bool) :
    Except Fault RxPacket := do
  let avail := rx.len - offset
  let src ← slice rx.data offset avail
  let data ← writeAt pkt.data 0 src
  .ok
    { pkt with
      data := data
      isPartial := true
      len := pktLen
      lastPktRemainingLen := if lenPartial then 0 else Int16.ofInt (pktLen - avail)
      isLenReceived := if lenPartial then false else pkt.isLenReceived
      protocol := rx.protocol
      venue := rx.venue }

/-- Whether `parser_table_` has an entry. -/
def hasParser : Protocol → Venue → Bool
  | .fix, .bist => true
  | .itch, .bist => true
  | .itch, .nasdaq => true
  | .ouch, .bist => true
  | .ouch, .nasdaq => true
  | _, _ => false

namespace RxSystem

/-! ### Small steps -/

def setPkt (s : RxSystem) (slot : RxSlot) (pkt : RxPacket) : RxSystem :=
  { s with pool := Function.update s.pool slot pkt }

def setPend (s : RxSystem) (i : SessionIndex) (q : CustomQueue RxSlot pendingCapacity) : RxSystem :=
  { s with pendingRead := Function.update s.pendingRead i q }

/-- `closeSocket`; `reconnect` leaves `socks_[index]` at -1 too. -/
def closeSocket (s : RxSystem) (i : SessionIndex) : RxSystem :=
  { s with closed := Function.update s.closed i true }

def releasePacket (s : RxSystem) (slot : RxSlot) : RxSystem :=
  { s.setPkt slot { s.pool slot with msgCount := 0 } with
    freePktList := s.freePktList.push slot }

/-- `if (!receiver_to_parser_.push(slot)) pend_read.push(slot)`. -/
def pushOrPend (s : RxSystem) (i : SessionIndex) (slot : RxSlot) : RxSystem :=
  if s.receiverToParser.items.length < packetQueueCapacity then
    { s with receiverToParser := s.receiverToParser.push slot }
  else s.setPend i ((s.pendingRead i).push slot)

/-! ### The receiving thread -/

/-- One round of the draining loop at the head of the event. -/
def drainRound (s : RxSystem) (i : SessionIndex) : RxSystem :=
  match (s.pendingRead i).pop with
  | none => { s with pc := .recv i }
  | some (slot, q) =>
    if (s.pool slot).isPartial then { s.setPend i (q.push slot) with pc := .recv i }
    else (s.setPend i q).pushOrPend i slot

/-- `free_pkt_list_.pop(rxPkt)`, `recv`, and what is done with an error or the end of
the stream.  A failed `recv` leaves the length -1, as an `uint16_t`. -/
def receive (cxt : SessionIndex → SessionContext) (s : RxSystem) (i : SessionIndex)
    (result : RecvResult) : Except Fault RxSystem :=
  match s.freePktList.items with
  | [] => .ok { s with pc := .idle }
  | slot :: _ =>
    let pkt := { s.pool slot with protocol := (cxt i).protocol, venue := (cxt i).venue }
    let t := { s with freePktList := s.freePktList.tail }
    match result with
    | .again => .ok { (t.setPkt slot { pkt with len := 65535 }).releasePacket slot with pc := .idle }
    | .interrupted => .ok { t.setPkt slot { pkt with len := 65535 } with pc := .drain i }
    | .failed =>
      .ok { (t.setPkt slot { pkt with len := 65535 }).closeSocket i with pc := .idle }
    | .bytes [] => .ok { (t.setPkt slot { pkt with len := 0 }).closeSocket i with pc := .idle }
    | .bytes segment => do
      let data ← writeAt pkt.data 0 segment
      .ok
        { t.setPkt slot { pkt with data := data, len := segment.length } with
          pc := if pkt.protocol = .ouch then .pending i slot 0 else .deliver i slot }

/-- One round of the pending loop of `SBTPacketHandler`. -/
def pendingRound (s : RxSystem) (i : SessionIndex) (rx : RxSlot) (offset : ℕ) :
    Except Fault RxSystem :=
  match (s.pendingRead i).pop with
  | none => .ok { s with pc := .scan i rx offset }
  | some (slot, q) =>
    if (s.pool slot).isPartial then do
      let (whole, e) ← fillPending { pkt := s.pool slot } { pkt := s.pool rx } offset
      let t := (s.setPend i q).setPkt slot e.pkt
      if whole then
        let b := (s.pool rx).data.toList.getD offset 0
        let taken := takeCount (fillLen (s.pool slot) b) (s.pool rx).len
        .ok { t.pushOrPend i slot with pc := .pending i rx (offset + taken) }
      else .ok { t.setPend i (q.push slot) with pc := .scan i rx offset }
    else .ok ((s.setPend i q).pushOrPend i slot)

/-- The rest of `SBTPacketHandler`; the thread is idle again where it returns false. -/
def scanSegment (s : RxSystem) (i : SessionIndex) (rx : RxSlot) (offset : ℕ) :
    Except Fault RxSystem :=
  if (s.pool rx).len ≤ offset then .ok { s with pc := .idle }
  else do
    let (pkt, outcome) ← scanPackets (maxAppMsg + 1) (s.pool rx) offset
    let t := s.setPkt rx pkt
    match outcome with
    | .deliver => .ok { t with pc := .deliver i rx }
    | .rest offset' pktLen lenPartial =>
      match t.freePktList.items with
      | [] => .error .nullDereference
      | slot :: _ => do
        let rest ← copyRest (t.pool slot) pkt offset' pktLen lenPartial
        let u := { t with freePktList := t.freePktList.tail }
        .ok { (u.setPkt slot rest).setPend i ((u.pendingRead i).push slot) with pc := .idle }
    | .drop => .ok { t with pc := .idle }
    | .close => .ok { t.closeSocket i with pc := .idle }

/-- The push at the end of the event. -/
def deliver (s : RxSystem) (i : SessionIndex) (rx : RxSlot) : Except Fault RxSystem :=
  if s.receiverToParser.items.length < packetQueueCapacity then
    .ok { s with receiverToParser := s.receiverToParser.push rx, pc := .idle }
  else do
    let q : CustomQueue RxSlot pendingCapacity := (s.pendingRead i).push rx
    match ← q.back with
    | none => .ok { s.setPend i q with pc := .idle }
    | some b =>
      if (s.pool b).isPartial then .ok { s.setPend i q with pc := .idle }
      else .ok { s.setPend i q.swapLastTwo with pc := .idle }

/-- One step of the receiving thread. -/
def run (s : RxSystem) : Except Fault RxSystem :=
  match s.pc with
  | .idle => .ok s
  | .recv _ => .ok s
  | .drain i => .ok (s.drainRound i)
  | .pending i rx offset => s.pendingRound i rx offset
  | .scan i rx offset => s.scanSegment i rx offset
  | .deliver i rx => s.deliver i rx

/-! ### The parser -/

/-- `receiver_to_parser_.pop(pkt)`. -/
def parserTake (s : RxSystem) : RxSystem :=
  match s.inParser, s.receiverToParser.items with
  | none, slot :: _ =>
    { s with receiverToParser := s.receiverToParser.tail, inParser := some slot }
  | _, _ => s

/-- The rest of `dispatch`. -/
def parserDone (s : RxSystem) : Except Fault RxSystem :=
  match s.inParser with
  | none => .ok s
  | some slot =>
    if (s.pool slot).len = 0 then .ok { s.releasePacket slot with inParser := none }
    else if hasParser (s.pool slot).protocol (s.pool slot).venue then
      if (s.pool slot).releaseThisPkt then .ok { s.releasePacket slot with inParser := none }
      else .ok { s with inParser := none }
    else .error .nullDereference

/-! ### Moves -/

/-- A move; one that does not apply changes nothing. -/
def step (cxt : SessionIndex → SessionContext) (s : RxSystem) : RxMove → Except Fault RxSystem
  | .epollin i =>
    match s.pc with
    | .idle => .ok (if s.closed i then s else { s with pc := .drain i })
    | _ => .ok s
  | .recv result =>
    match s.pc with
    | .recv i => s.receive cxt i result
    | _ => .ok s
  | .run => s.run
  | .parserTake => .ok s.parserTake
  | .parserDone => s.parserDone

end RxSystem

end TradingEngine
