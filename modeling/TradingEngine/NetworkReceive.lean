/-
The receive path of `NetworkIO` for one session: `recv_send` on an EPOLLIN event
and `SBTPacketHandler` (`network/NetworkIO.cpp`, `session/SoupBinTcp.{h,cpp}`).

An event first drains `pending_read_`, then receives once.  A packet of a FIX or
ITCH session goes to `receiver_to_parser_` as it is.  A packet of an OUCH session
goes through the SoupBinTCP handler: it completes a pending partial packet,
records the offsets of the sequenced packets and stashes an incomplete rest.
When the queue to the parser is full the packet waits in `pending_read_`.

The queue to the parser is shared with the other sessions and emptied by the
parser thread, so it is kept as the number of packets in it; `pushed` records
what this session has pushed.  Each iteration of a loop is one step of the
receiving thread (`Reader.step`), with at most one attempt to push, so that the
parser can take packets between any two attempts.

Every packet carries the numbers of the `recv` calls that brought its first and
its last byte.
-/
import TradingEngine.CustomQueue
import TradingEngine.NetworkPackets

namespace TradingEngine

/-- A packet from `free_pkt_list_`: `releasePacket` has reset its message count, and
only packets that are no longer partial are released. -/
structure FreePacket where
  pkt : RxPacket
  msgCount : pkt.msgCount = 0
  whole : pkt.isPartial = false
  lenReceived : pkt.isLenReceived = true

/-- A received packet, with the `recv` calls that brought its first and last byte. -/
structure RxEntry where
  pkt : RxPacket := {}
  first : ℕ := 0
  last : ℕ := 0

instance : Inhabited RxEntry := ⟨{}⟩

/-! ### SoupBinTCP -/

/-- `enum class SBTAction`. -/
inductive SBTAction
  | notToParser
  | toParser
  | disconnect
  | reconnect
  | ignore
  deriving DecidableEq, Repr

/-- `SoupBinTcp::pkt_handler` on the packet that begins at `start`. -/
def pktHandler (data : Vector UInt8 packetSize) (start : ℕ) : Except Fault SBTAction :=
  match data.toList[start + 2]? with
  | none => .error .outOfBounds
  | some type =>
    if type = 0x53 then .ok .toParser
    else if type = 0x48 then .ok .ignore
    else if type = 0x5A then .ok .reconnect
    else if type = 0x41 then .ok .notToParser
    else if type = 0x4A then
      match data.toList[start + 3]? with
      | none => .error .outOfBounds
      | some reason => .ok (if reason = 0x53 then .reconnect else .disconnect)
    else if type = 0x55 then .ok .notToParser
    else if type = 0x2B then .ok .ignore
    else .ok .ignore

/-- A signed `char` converted to `int`, as a 32-bit pattern. -/
def signExtend (b : UInt8) : ℕ := b.toInt8.toInt32.toUInt32.toNat

/-- `uint16_t` of a signed `char`. -/
def charToU16 (b : UInt8) : ℕ := signExtend b % 2 ^ 16

/-- `((len << 8) | *next_pkt_start) + 2` in `uint16_t`. -/
def joinLen (len : ℕ) (b : UInt8) : ℕ := ((len <<< 8 ||| signExtend b) + 2) % 2 ^ 16

/-- `Endian::read_u16_be`. -/
def readU16be (hi lo : UInt8) : ℕ := hi.toNat * 256 + lo.toNat

/-- What the handler does with the rest of a segment. -/
inductive ScanResult
  | deliver (rx : RxEntry)
  | stash (e : RxEntry)
  | drop
  | close

/-- The length of the packet that begins at `offset`, and whether only its first
byte is there. -/
def packetLen (rx : RxEntry) (offset : ℕ) : Except Fault (ℕ × Bool) :=
  match rx.pkt.data.toList[offset]?, rx.pkt.data.toList[offset + 1]? with
  | some hi, some lo =>
    if rx.pkt.len - offset = 1 then .ok (charToU16 hi, true)
    else .ok ((readU16be hi lo + 2) % 2 ^ 16, false)
  | some hi, none =>
    if rx.pkt.len - offset = 1 then .ok (charToU16 hi, true) else .error .outOfBounds
  | none, _ => .error .outOfBounds

/-- The rest of a segment from `offset` on, kept as a partial packet. -/
def stashRest (rx : RxEntry) (offset pktLen : ℕ) (lenPartial : Bool)
    (spare : Option FreePacket) : Except Fault ScanResult :=
  match spare with
  | none => .error .nullDereference
  | some free => do
    let avail := rx.pkt.len - offset
    let src ← slice rx.pkt.data offset avail
    let data ← writeAt free.pkt.data 0 src
    .ok (.stash
      { pkt :=
          { free.pkt with
            data := data
            len := pktLen
            isPartial := true
            lastPktRemainingLen := if lenPartial then 0 else Int16.ofInt (pktLen - avail)
            isLenReceived := if lenPartial then false else free.pkt.isLenReceived
            venue := rx.pkt.venue
            protocol := rx.pkt.protocol }
        first := rx.first
        last := rx.last })

/-- The loop over the packets of a segment from `offset` on, for at most `fuel`
rounds: each but the last records a message, and there is room for 32. -/
def sbtScan : ℕ → RxEntry → ℕ → Option FreePacket → Except Fault ScanResult
  | 0, _, _, _ => .error .outOfBounds
  | fuel + 1, rx, offset, spare =>
    if rx.pkt.len ≤ offset then .ok (.deliver rx)
    else do
      let (pktLen, lenPartial) ← packetLen rx offset
      if rx.pkt.len < pktLen + offset ∨ lenPartial = true then
        stashRest rx offset pktLen lenPartial spare
      else do
        let action ← pktHandler rx.pkt.data offset
        match action with
        | .toParser =>
          if h : rx.pkt.msgCount.toNat < maxAppMsg then
            sbtScan fuel
              { rx with
                pkt :=
                  { rx.pkt with
                    offsets := rx.pkt.offsets.set rx.pkt.msgCount.toNat offset h
                    msgCount := rx.pkt.msgCount + 1 } }
              (offset + pktLen) spare
          else .error .outOfBounds
        | .reconnect => .ok .close
        | .disconnect => .ok .close
        | .notToParser => .ok .drop
        | .ignore => .ok .drop

/-- The pending packet with its length, once the second length byte is there. -/
def fillLen (pkt : RxPacket) (b : UInt8) : RxPacket :=
  if pkt.isLenReceived then pkt
  else
    { pkt with
      len := joinLen pkt.len b
      isLenReceived := true
      lastPktRemainingLen := Int16.ofInt (joinLen pkt.len b - 1) }

/-- How many bytes the pending packet takes from a segment of `len` bytes. -/
def takeCount (pkt : RxPacket) (len : ℕ) : ℕ := min pkt.lastPktRemainingLen.toUInt16.toNat len

/-- The bytes of a segment copied behind what the pending packet has, and whether
that completes it. -/
def fillPending (e rx : RxEntry) (offset : ℕ) : Except Fault (Bool × RxEntry) :=
  match rx.pkt.data.toList[offset]? with
  | none => .error .outOfBounds
  | some b => do
    let pkt := fillLen e.pkt b
    let remaining := takeCount pkt rx.pkt.len
    let start : ℤ := pkt.len - pkt.lastPktRemainingLen.toInt
    if start < 0 then .error .outOfBounds
    else do
      let src ← slice rx.pkt.data offset remaining
      let data ← writeAt pkt.data start.toNat src
      if (pkt.lastPktRemainingLen.toInt - remaining) % 2 ^ 16 = 0 then
        .ok (true,
          { e with
            pkt :=
              { pkt with
                data := data
                isPartial := false
                msgCount := 1
                offsets := pkt.offsets.set 0 0 }
            last := rx.last })
      else
        .ok (false,
          { e with
            pkt :=
              { pkt with
                data := data
                lastPktRemainingLen :=
                  Int16.ofInt (pkt.lastPktRemainingLen.toInt - remaining) }
            last := rx.last })

/-! ### One session -/

/-- The receive state of a session. -/
structure ReadState where
  pend : CustomQueue RxEntry pendingCapacity
  queued : ℕ := 0
  pushed : List RxEntry := []
  recvCount : ℕ := 0
  closed : Bool := false

namespace ReadState

/-- `receiver_to_parser_.push(...)`. -/
def tryPush (s : ReadState) (e : RxEntry) : Option ReadState :=
  if s.queued < packetQueueCapacity then
    some { s with queued := s.queued + 1, pushed := s.pushed ++ [e] }
  else none

/-- `if (!receiver_to_parser_.push(e)) pend_read.push(e)`. -/
def pushOrPend (s : ReadState) (e : RxEntry) : ReadState :=
  match s.tryPush e with
  | some s' => s'
  | none => { s with pend := s.pend.push e }

/-- One round of the draining loop at the head of the event, and whether there is
another. -/
def drainRound (s : ReadState) : Bool × ReadState :=
  match s.pend.pop with
  | none => (false, s)
  | some (e, q) =>
    if e.pkt.isPartial then (false, { s with pend := q.push e })
    else (true, { s with pend := q }.pushOrPend e)

/-- One round of the pending loop of `SBTPacketHandler`: whether there is another,
the state and the offset into the segment. -/
def pendingRound (s : ReadState) (rx : RxEntry) (offset : ℕ) :
    Except Fault (Bool × ReadState × ℕ) :=
  match s.pend.pop with
  | none => .ok (false, s, offset)
  | some (e, q) =>
    if e.pkt.isPartial then do
      let (whole, e') ← fillPending e rx offset
      if whole then
        let taken := takeCount (fillLen e.pkt (rx.pkt.data.toList.getD offset 0)) rx.pkt.len
        .ok (true, { s with pend := q }.pushOrPend e', offset + taken)
      else .ok (false, { s with pend := q.push e' }, offset)
    else .ok (true, { s with pend := q }.pushOrPend e, offset)

/-- The rest of `SBTPacketHandler`: the packet to push, if there is one. -/
def finishSbt (s : ReadState) (rx : RxEntry) (offset : ℕ) (spare : Option FreePacket) :
    Except Fault (Option RxEntry × ReadState) :=
  if rx.pkt.len ≤ offset then .ok (none, s)
  else do
    match ← sbtScan (maxAppMsg + 1) rx offset spare with
    | .deliver rx' => .ok (some rx', s)
    | .stash e => .ok (none, { s with pend := s.pend.push e })
    | .drop => .ok (none, s)
    | .close => .ok (none, { s with closed := true })

/-- What follows from the result of the scan of a segment that is not used up. -/
theorem finishSbt_of_scan (s : ReadState) {rx : RxEntry} {offset : ℕ} {spare : Option FreePacket}
    {res : ScanResult} (hlt : offset < rx.pkt.len)
    (hres : sbtScan (maxAppMsg + 1) rx offset spare = .ok res) :
    s.finishSbt rx offset spare = match res with
      | .deliver rx' => .ok (some rx', s)
      | .stash e => .ok (none, { s with pend := s.pend.push e })
      | .drop => .ok (none, s)
      | .close => .ok (none, { s with closed := true }) := by
  have hmore : ¬rx.pkt.len ≤ offset := by omega
  simp only [finishSbt, if_neg hmore, hres, Bind.bind, Except.bind]
  cases res <;> rfl

/-- The push at the end of the event. -/
def deliver (s : ReadState) (rx : RxEntry) : Except Fault ReadState :=
  match s.tryPush rx with
  | some s' => .ok s'
  | none => do
    let q : CustomQueue RxEntry pendingCapacity := s.pend.push rx
    match ← q.back with
    | none => .ok { s with pend := q }
    | some b =>
      if b.pkt.isPartial then .ok { s with pend := q }
      else .ok { s with pend := q.swapLastTwo }

end ReadState

/-- The bytes a `recv` call returns, in a packet from the free list. -/
def receivePacket (free : FreePacket) (segment : List UInt8) (protocol : Protocol) :
    Except Fault RxPacket := do
  let data ← writeAt free.pkt.data 0 segment
  .ok { free.pkt with data := data, len := segment.length, protocol := protocol }

/-! ### The receiving thread -/

/-- Where the receiving thread is in the event. -/
inductive ReadPc
  | idle
  | drain
  | recv
  | pending (rx : RxEntry) (offset : ℕ) (spare : Option FreePacket)
  | scan (rx : RxEntry) (offset : ℕ) (spare : Option FreePacket)
  | deliver (rx : RxEntry)

/-- The receiving thread and the state of the session. -/
structure Reader where
  protocol : Protocol
  state : ReadState
  pc : ReadPc := .idle

instance (r : Reader) : Decidable (r.pc = .recv) :=
  match h : r.pc with
  | .recv => .isTrue rfl
  | .idle | .drain | .pending .. | .scan .. | .deliver .. => .isFalse (by simp)

/-- What can happen next: the parser takes a packet, another session pushes one, an
event begins, `recv` returns, or the thread takes a step. -/
inductive ReadMove
  | parserPop
  | otherPush
  | epollin
  | noPacket
  | recv (segment : List UInt8) (free : FreePacket) (spare : Option FreePacket)
  | recvAgain
  | recvInterrupted
  | recvClosed
  | run

/-- A packet that was never used. -/
def newPacket : FreePacket := ⟨{}, rfl, rfl, rfl⟩

/-- The receive of a segment, with packets left in the free list. -/
def receiveSegment (segment : List UInt8) : ReadMove := .recv segment newPacket (some newPacket)

namespace Reader

/-- `recv` returns a segment. -/
def receive (r : Reader) (segment : List UInt8) (free : FreePacket) (spare : Option FreePacket) :
    Except Fault Reader := do
  let pkt ← receivePacket free segment r.protocol
  let n := r.state.recvCount + 1
  let rx : RxEntry := { pkt := pkt, first := n, last := n }
  .ok { r with
    state := { r.state with recvCount := n }
    pc := if r.protocol = .ouch then .pending rx 0 spare else .deliver rx }

/-- One step of the receiving thread. -/
def run (r : Reader) : Except Fault Reader :=
  match r.pc with
  | .idle => .ok r
  | .recv => .ok r
  | .drain =>
    let (again, s) := r.state.drainRound
    .ok { r with state := s, pc := if again then .drain else .recv }
  | .pending rx offset spare => do
    let (again, s, offset') ← r.state.pendingRound rx offset
    .ok { r with
      state := s
      pc := if again then .pending rx offset' spare else .scan rx offset' spare }
  | .scan rx offset spare => do
    match ← r.state.finishSbt rx offset spare with
    | (some rx', s) => .ok { r with state := s, pc := .deliver rx' }
    | (none, s) => .ok { r with state := s, pc := .idle }
  | .deliver rx => do
    let s ← r.state.deliver rx
    .ok { r with state := s, pc := .idle }

/-- A move; one that does not apply changes nothing. -/
def step (r : Reader) : ReadMove → Except Fault Reader
  | .parserPop => .ok { r with state := { r.state with queued := r.state.queued - 1 } }
  | .otherPush =>
    if r.state.queued < packetQueueCapacity then
      .ok { r with state := { r.state with queued := r.state.queued + 1 } }
    else .ok r
  | .epollin =>
    match r.pc with
    | .idle => .ok { r with pc := if r.state.closed then .idle else .drain }
    | _ => .ok r
  | .noPacket =>
    match r.pc with
    | .recv => .ok { r with pc := .idle }
    | _ => .ok r
  | .recv segment free spare =>
    match r.pc with
    | .recv => if segment = [] then .ok r else r.receive segment free spare
    | _ => .ok r
  | .recvAgain =>
    match r.pc with
    | .recv => .ok { r with pc := .idle }
    | _ => .ok r
  | .recvInterrupted =>
    match r.pc with
    | .recv => .ok { r with pc := .drain }
    | _ => .ok r
  | .recvClosed =>
    match r.pc with
    | .recv => .ok { r with state := { r.state with closed := true }, pc := .idle }
    | _ => .ok r
  | .run => r.run

end Reader

end TradingEngine
