/-
The send path of `NetworkIO` (`network/NetworkIO.{h,cpp}`,
`session/LoginController.cpp`).

A packet is sent with as many `::send` calls as it takes.  When the socket would
block, the packet becomes the session's active one and an EPOLLOUT event resumes
it; meanwhile `trySend` appends further packets to `pending_write_`, which the
event then empties.  While the connection is being made, `trySend` only appends.
When it is made, the login packet is built in a packet from the pool and sent.

The code handles packets by pointer.  `TxAccess` says how a pointer is followed
and how the offset behind it is moved, so that the same functions serve packets
that nobody else touches (`TxAccess.byValue`) and the shared pool.

The answers of the operating system are a list of results; where the list ends,
the socket would block.
-/
import TradingEngine.CustomQueue
import TradingEngine.NetworkPackets

namespace TradingEngine

/-- `ALLOWED_LOGIN_ATTEMPT`. -/
abbrev allowedLoginAttempt : ℕ := 3

/-! ### Packets -/

/-- What `::send` can answer, fatal errors apart. -/
inductive SendResult
  | sent (n : ℕ)
  | again
  | interrupted
  deriving DecidableEq, Repr

/-- What `NetworkIO::send` does with a packet. -/
structure Sent where
  offset : ℕ
  written : List UInt8 := []
  left : List SendResult
  blocked : Bool

/-- The loop of `NetworkIO::send` over a packet, from an offset on. -/
def sendLoop (pkt : TxPacket) : ℕ → List SendResult → Sent
  | offset, [] => { offset := offset, left := [], blocked := offset < pkt.len }
  | offset, r :: rs =>
    if offset < pkt.len then
      match r with
      | .sent n =>
        let k := min n (pkt.len - offset)
        let out := sendLoop pkt (offset + k) rs
        { out with written := (pkt.bytes.drop offset).take k ++ out.written }
      | .again => { offset := offset, left := rs, blocked := true }
      | .interrupted => sendLoop pkt offset rs
    else { offset := offset, left := r :: rs, blocked := false }

/-- How a packet is reached. -/
structure TxAccess (M P : Type) where
  pkt : M → P → TxPacket
  setOffset : M → P → ℕ → M × P

/-- Packets that nobody else touches. -/
def TxAccess.byValue : TxAccess Unit TxPacket where
  pkt _ p := p
  setOffset _ p n := ((), { p with offset := n })

/-- `LoginController::LoginAttempt`: the message goes into the packet as it is. -/
def loginAttempt (pkt : TxPacket) (msg : List UInt8) (index : UInt8) : Except Fault TxPacket := do
  let data ← writeAt pkt.data 0 msg
  .ok { pkt with data := data, len := msg.length, sockIndex := index, isLoginMsg := true }

/-! ### One session -/

/-- `enum class LoginDecision`. -/
inductive LoginDecision
  | tryAgain
  | disconnect
  | alreadyLoggedIn
  deriving DecidableEq, Repr

/-- The send state of a session: its `SocketState`, its `pending_write_`, what
`SessionManager` knows of it, and the bytes written to the socket. -/
structure SendSession (P : Type) where
  pendWrite : CustomQueue P pendingCapacity
  activePkt : Option P := none
  isEpolloutSet : Bool := false
  connectionPending : Bool := false
  loggedIn : Bool := false
  loginRetryCount : ℕ := 0
  closed : Bool := false
  wire : List UInt8 := []

namespace SendSession

variable {M P : Type} (A : TxAccess M P)

/-- `NetworkIO::send`. -/
def send (m : M) (s : SendSession P) (p : P) (os : List SendResult) :
    M × SendSession P × List SendResult :=
  let out := sendLoop (A.pkt m p) (A.pkt m p).offset os
  let stored := A.setOffset m p out.offset
  (stored.1,
    { s with
      wire := s.wire ++ out.written
      activePkt := if out.blocked then some stored.2 else none
      isEpolloutSet := s.isEpolloutSet || out.blocked },
    out.left)

/-- `pending_write_[index].push(&txPkt)`, and whether there was room. -/
def enqueue (s : SendSession P) (p : P) : Bool × SendSession P :=
  (!s.pendWrite.full, { s with pendWrite := s.pendWrite.push p })

/-- `NetworkIO::trySend`, and whether the packet was sent or queued. -/
def trySend (m : M) (s : SendSession P) (p : P) (os : List SendResult) :
    M × Bool × SendSession P :=
  if s.connectionPending then (m, s.enqueue p)
  else if s.loggedIn = false ∧ (A.pkt m p).isLoginMsg = false then (m, false, s)
  else if s.activePkt.isSome then (m, s.enqueue p)
  else
    let r := s.send A m p os
    (r.1, true, r.2.1)

/-- The loop over `pending_write_` in the EPOLLOUT branch. -/
def flush : ℕ → M → SendSession P → List SendResult → M × SendSession P
  | 0, m, s, _ => (m, s)
  | fuel + 1, m, s, os =>
    if s.activePkt.isSome then (m, s)
    else
      match s.pendWrite.pop with
      | none => (m, s)
      | some (p, q) =>
        let r := { s with pendWrite := q }.send A m p os
        flush fuel r.1 r.2.1 r.2.2

/-- The EPOLLOUT branch of `recv_send`, with the connection made. -/
def resume (m : M) (s : SendSession P) (os : List SendResult) :
    Except Fault (M × SendSession P) :=
  match s.activePkt with
  | none => .error .nullDereference
  | some p =>
    let r := s.send A m p os
    let r' := flush A pendingCapacity r.1 r.2.1 r.2.2
    .ok (r'.1, { r'.2 with isEpolloutSet := r'.2.isEpolloutSet && r'.2.activePkt.isSome })

/-- `LoginController::LoginDecider` on a connected session. -/
def loginDecider (s : SendSession P) : LoginDecision :=
  if s.loggedIn then .alreadyLoggedIn
  else if allowedLoginAttempt ≤ s.loginRetryCount then .disconnect
  else .tryAgain

/-- `closeSocket`. -/
def closeSocket (s : SendSession P) : SendSession P :=
  { pendWrite := { s.pendWrite with head := 0, tail := 0 }, closed := true, wire := s.wire }

/-- `handleEINPROGRESS` on a connection that was made, up to the login. -/
def connected (s : SendSession P) : SendSession P :=
  { s with connectionPending := false, isEpolloutSet := false }

/-- Whether an EPOLLOUT event can be reported. -/
def writable (s : SendSession P) : Bool := s.isEpolloutSet || s.connectionPending

theorem items_closeSocket (s : SendSession P) : s.closeSocket.pendWrite.items = [] := by
  rw [← List.length_eq_zero_iff, RingBuffer.length_items, RingBuffer.size_eq_zero_iff]
  rfl

/-- What `trySend` can do: queue the packet, while the connection is being made or
behind an active packet; drop it, while nobody is logged in; or send it. -/
theorem trySend_cases (m : M) (s : SendSession P) (p : P) (os : List SendResult) :
    (s.trySend A m p os = (m, s.enqueue p) ∧
      (s.connectionPending = true ∨ s.activePkt.isSome = true)) ∨
    (s.trySend A m p os = (m, false, s) ∧ s.connectionPending = false) ∨
    (s.trySend A m p os = ((s.send A m p os).1, true, (s.send A m p os).2.1) ∧
      s.connectionPending = false ∧ s.activePkt = none ∧
      (s.loggedIn = true ∨ (A.pkt m p).isLoginMsg = true)) := by
  rw [trySend]
  by_cases hpend : s.connectionPending = true
  · exact .inl ⟨if_pos hpend, .inl hpend⟩
  · have hpend' : s.connectionPending = false := by simpa using hpend
    rw [if_neg hpend]
    by_cases hdrop : s.loggedIn = false ∧ (A.pkt m p).isLoginMsg = false
    · exact .inr (.inl ⟨if_pos hdrop, hpend'⟩)
    · rw [if_neg hdrop]
      by_cases hactive : s.activePkt.isSome = true
      · exact .inl ⟨if_pos hactive, .inr hactive⟩
      · refine .inr (.inr ⟨if_neg hactive, hpend', by simpa using hactive, ?_⟩)
        by_contra hno
        push Not at hno
        exact hdrop ⟨by simpa using hno.1, by simpa using hno.2⟩

end SendSession

end TradingEngine
