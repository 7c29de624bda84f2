/-
The network thread and the socket of one index (`network/NetworkIO.{h,cpp}`,
`session/LoginController.cpp`, `utils/ErrorHandler.{h,cpp}`, `GeneratedErrorMap.h`).

`NetworkSend` follows the packets of a session whose socket never fails.  Here every call of
the operating system can fail, and the thread does what the source does then: it closes the
socket, or makes a new one and connects it, or waits and tries again, or logs in.

A socket is named by the number of the call of `socket()` that made it, so that a descriptor
the system hands out again is another socket; `none` is `-1` in `socks_`.  What the calls of
one event come back with is given with the event.  `SBTPacketHandler` is in `NetworkReceive`;
of what it does with a segment only the action counts here on which it ends, and any action
is possible.

* `handleError_cases` — what the error handler answers: it counts every retry;
* `sendAll_map` — with no fatal error, `send` is the one of `NetworkSend`.
-/
import TradingEngine.FallibleRun
import TradingEngine.NetworkReceive
import TradingEngine.QueueRuns
import TradingEngine.SendStream

namespace TradingEngine

/-! ### Errors -/

/-- How the thread ends: with undefined behaviour or a loop that never ends, or in
`std::abort`. -/
inductive ThreadEnd
  | fault (f : Fault)
  | aborted
  deriving DecidableEq, Repr

/-- `enum class ErrorStrategy`; the table has no `Custom`. -/
inductive ErrorStrategy
  | ignore
  | retry
  | abort
  deriving DecidableEq, Repr

/-- `errno_strategies`, a table of 128 entries. -/
def errnoStrategy (err : ℕ) : Except ThreadEnd ErrorStrategy :=
  if 128 ≤ err then .error (.fault .outOfBounds)
  else if err ∈ [4, 11, 104] then .ok .retry
  else if err ∈ [1, 3, 5, 12, 13, 22, 28, 32] then .ok .abort
  else .ok .ignore

/-- `MAX_RETRY_COUNT`, and the default of `max_retry`. -/
abbrev maxRetryCount : ℕ := 3

/-- `MAX_DELAY_MS`. -/
abbrev maxDelayMs : ℕ := 30000

/-- The counters of `ErrorHandler` for the errors of one thread. -/
structure Backoff where
  startRetryDelayMs : ℕ := 500
  errnoRetryDelayMs : ℕ := 500
  errnoRetryCount : ℕ := 0

/-- `BackoffRetry_errno`, without the wait: whether to try again. -/
def backoffRetry (b : Backoff) : Bool × Backoff :=
  if b.errnoRetryCount < maxRetryCount then
    (true,
      { b with
        errnoRetryDelayMs :=
          if maxDelayMs ≤ b.errnoRetryDelayMs * 2 then maxDelayMs else b.errnoRetryDelayMs * 2
        errnoRetryCount := b.errnoRetryCount + 1 })
  else (false, { b with errnoRetryDelayMs := b.startRetryDelayMs, errnoRetryCount := 0 })

/-- `ErrorHandler::handleError`. -/
def handleError (b : Backoff) (err : ℕ) : Except ThreadEnd (Bool × Backoff) := do
  match ← errnoStrategy err with
  | .retry => .ok (backoffRetry b)
  | .abort => .error .aborted
  | .ignore => .ok (false, b)

/-- Only a retry that is counted is a retry. -/
theorem handleError_cases {b b' : Backoff} {err : ℕ} {retry : Bool}
    (h : handleError b err = .ok (retry, b')) :
    (retry = true ∧ b.errnoRetryCount < maxRetryCount ∧
      b'.errnoRetryCount = b.errnoRetryCount + 1) ∨ retry = false := by
  rw [handleError] at h
  obtain ⟨strategy, -, h⟩ := FallibleRun.bind_eq_ok_iff.mp h
  cases strategy with
  | retry =>
    rw [Except.ok.injEq, backoffRetry] at h
    split at h
    · rename_i hlt
      rw [Prod.mk.injEq] at h
      exact .inl ⟨h.1.symm, hlt, by rw [← h.2]⟩
    · rw [Prod.mk.injEq] at h
      exact .inr h.1.symm
  | abort => exact absurd h (by simp)
  | ignore =>
    rw [Except.ok.injEq, Prod.mk.injEq] at h
    exact .inr h.1.symm

/-! ### What the calls come back with -/

/-- `socket` and the `setsockopt` behind it.  After `badOption` the socket is closed and
made again. -/
inductive SocketAnswer
  | made
  | interrupted
  | failed
  | badOption
  | optionFailed
  deriving DecidableEq, Repr

/-- What `connect`, or `bind` for a datagram socket, leads to. -/
inductive SetupCase
  | ready
  | inProgress
  | retry
  | giveUp
  | unknownError
  deriving DecidableEq, Repr

/-- What `::send` can answer. -/
inductive SendAnswer
  | sent (n : ℕ)
  | again
  | interrupted
  | failed
  deriving DecidableEq, Repr

/-- What `recv` can answer, with the action on which `SBTPacketHandler` ends. -/
inductive RecvAnswer
  | again
  | interrupted
  | failed
  | ended
  | segment (bytes : List UInt8) (action : SBTAction)

/-- What the calls of one event come back with: `socket`, `connect` or `bind`, `send` for the
packets that wait and for the login, and `recv`; and the login message with the packet that
`get_txPkt` hands out for it. -/
structure Answers where
  sockets : List SocketAnswer := []
  connects : List (Option ℕ) := []
  sends : List SendAnswer := []
  recvs : List RecvAnswer := []
  loginSends : List SendAnswer := []
  slot : TxPacket := {}
  login : LoginMsg

/-- `createSocket`: whether there is a socket, and the answers that are left.  Where the
list ends the calls succeed. -/
def createSocket : List SocketAnswer → Bool × List SocketAnswer
  | [] => (true, [])
  | .made :: as => (true, as)
  | .interrupted :: as => createSocket as
  | .badOption :: as => createSocket as
  | .failed :: as => (false, as)
  | .optionFailed :: as => (false, as)

/-- `cxt.protocol == Protocol::OUCH || cxt.protocol == Protocol::FIX`. -/
def Protocol.connects : Protocol → Bool
  | .ouch => true
  | .fix => true
  | _ => false

/-- The switch on `errno` after `connect`: `EISCONN`, `EINPROGRESS`; `ECONNREFUSED`,
`ETIMEDOUT`, `EADDRINUSE`; `ENETUNREACH`, `EHOSTUNREACH`, `EINVAL`, `EAFNOSUPPORT`, `EACCES`,
`EFAULT`. -/
def connectCase (err : ℕ) : SetupCase :=
  if err = 106 then .ready
  else if err = 115 then .inProgress
  else if err ∈ [111, 110, 98] then .retry
  else if err ∈ [101, 113, 22, 97, 13, 14] then .giveUp
  else .unknownError

/-- The switch on `errno` after `bind`: `EINTR`, `ENOBUFS`, `ENOMEM`; `EADDRINUSE`,
`EADDRNOTAVAIL`, `EACCES`, `EINVAL`. -/
def bindCase (err : ℕ) : SetupCase :=
  if err ∈ [4, 105, 12] then .retry
  else if err ∈ [98, 99, 13, 22] then .giveUp
  else .unknownError

def Protocol.setupCase (p : Protocol) (err : ℕ) : SetupCase :=
  if p.connects then connectCase err else bindCase err

/-! ### Sending a packet -/

/-- How `NetworkIO::send` leaves its loop. -/
inductive SendOutcome
  | done
  | blocked
  | failed
  deriving DecidableEq, Repr

/-- What the loop of `NetworkIO::send` does with a packet. -/
structure SendEnd where
  offset : ℕ
  written : List UInt8 := []
  left : List SendAnswer
  outcome : SendOutcome

/-- The loop of `NetworkIO::send` over a packet, from an offset on. -/
def sendAll (pkt : TxPacket) : ℕ → List SendAnswer → SendEnd
  | offset, [] =>
    { offset := offset, left := [], outcome := if offset < pkt.len then .blocked else .done }
  | offset, r :: rs =>
    if offset < pkt.len then
      match r with
      | .sent n =>
        let k := min n (pkt.len - offset)
        let out := sendAll pkt (offset + k) rs
        { out with written := (pkt.bytes.drop offset).take k ++ out.written }
      | .again => { offset := offset, left := rs, outcome := .blocked }
      | .interrupted => sendAll pkt offset rs
      | .failed => { offset := offset, left := rs, outcome := .failed }
    else { offset := offset, left := r :: rs, outcome := .done }

/-- The answers of a socket that does not fail. -/
def SendResult.answer : SendResult → SendAnswer
  | .sent n => .sent n
  | .again => .again
  | .interrupted => .interrupted

/-- **Without a fatal error, a packet is sent as in `NetworkSend`.** -/
theorem sendAll_map (pkt : TxPacket) (offset : ℕ) (os : List SendResult) :
    sendAll pkt offset (os.map SendResult.answer) =
      { offset := (sendLoop pkt offset os).offset
        written := (sendLoop pkt offset os).written
        left := (sendLoop pkt offset os).left.map SendResult.answer
        outcome := if (sendLoop pkt offset os).blocked then .blocked else .done } := by
  induction os generalizing offset with
  | nil => simp [sendAll, sendLoop]
  | cons o os ih =>
    by_cases hlt : offset < pkt.len
    · cases o with
      | sent n => simp only [List.map_cons, SendResult.answer, sendAll, sendLoop, if_pos hlt, ih]
      | again => simp [SendResult.answer, sendAll, sendLoop, hlt]
      | interrupted =>
        simp only [List.map_cons, SendResult.answer, sendAll, sendLoop, if_pos hlt, ih]
    · simp [sendAll, sendLoop, hlt]

/-! ### One index -/

/-- A socket, by the number of the call that made it. -/
abbrev Socket := ℕ

/-- `struct SocketState`. -/
structure SocketState where
  activePkt : Option TxPacket := none
  isEpolloutSet : Bool := false
  connectionPending : Bool := false

/-- Bytes that went over a socket.  `login` marks those of a login message. -/
inductive Traffic
  | sent (sock : Socket) (login : Bool) (bytes : List UInt8)
  | received (sock : Socket) (bytes : List UInt8)
  deriving DecidableEq, Repr

/-- The entries of one index in the arrays of `NetworkIO`, what `SessionManager` knows of the
session, and the counters of the thread.  `made`, `shut`, `logins` and `traffic` only
record: how many sockets there were, which of them were closed, on which a login was
attempted, and the bytes. -/
structure NetworkIndex where
  protocol : Protocol
  sock : Option Socket
  states : SocketState := {}
  pendingWrite : CustomQueue TxPacket pendingCapacity
  isConnected : Bool := false
  isLoggedIn : Bool := false
  loginRetryCount : ℕ := 0
  backoff : Backoff := {}
  made : ℕ := 1
  shut : List Socket := []
  logins : List Socket := []
  traffic : List Traffic := []

namespace NetworkIndex

/-- `closeSocket`. -/
def closeSocket (s : NetworkIndex) : NetworkIndex :=
  match s.sock with
  | none => s
  | some c =>
    { s with
      sock := none
      states := {}
      pendingWrite := CustomQueue.clear s.pendingWrite
      isConnected := false
      isLoggedIn := false
      shut := s.shut ++ [c] }

/-- Bytes sent over a socket. -/
def note (s : NetworkIndex) (sock : Option Socket) (pkt : TxPacket) (written : List UInt8) :
    NetworkIndex :=
  match sock, written with
  | some c, _ :: _ => { s with traffic := s.traffic ++ [.sent c pkt.isLoginMsg written] }
  | _, _ => s

section
variable (s : NetworkIndex) (sock : Option Socket) (pkt : TxPacket) (written : List UInt8)

@[simp] theorem note_sock : (s.note sock pkt written).sock = s.sock := by
  unfold note
  split <;> rfl

@[simp] theorem note_states : (s.note sock pkt written).states = s.states := by
  unfold note
  split <;> rfl

@[simp] theorem note_pendingWrite : (s.note sock pkt written).pendingWrite = s.pendingWrite := by
  unfold note
  split <;> rfl

end

/-- What `NetworkIO::send` does behind its loop. -/
def settle (s : NetworkIndex) (pkt : TxPacket) (out : SendEnd) : NetworkIndex :=
  match out.outcome with
  | .done => { s with states := { s.states with activePkt := none } }
  | .blocked =>
    { s with
      states :=
        { s.states with
          activePkt := some { pkt with offset := out.offset }
          isEpolloutSet := true } }
  | .failed => s.closeSocket

/-- `NetworkIO::send`.  Every call on the descriptor -1 fails with `EBADF`. -/
def send (s : NetworkIndex) (pkt : TxPacket) (sock : Option Socket) (os : List SendAnswer) :
    NetworkIndex × List SendAnswer :=
  let out := sendAll pkt pkt.offset (if sock.isSome then os else .failed :: os)
  ((s.note sock pkt out.written).settle pkt out, out.left)

/-- `trySend`. -/
def trySend (s : NetworkIndex) (pkt : TxPacket) (os : List SendAnswer) : NetworkIndex :=
  if s.states.connectionPending then { s with pendingWrite := s.pendingWrite.push pkt }
  else if s.isLoggedIn = false ∧ pkt.isLoginMsg = false then s
  else if s.states.activePkt.isSome then { s with pendingWrite := s.pendingWrite.push pkt }
  else (s.send pkt s.sock os).1

/-- `LoginController::LoginDecider`, without the wait for the next attempt. -/
def loginDecider (s : NetworkIndex) : LoginDecision :=
  if s.isConnected = false then .disconnect
  else if s.isLoggedIn then .alreadyLoggedIn
  else if allowedLoginAttempt ≤ s.loginRetryCount then .disconnect
  else .tryAgain

/-- What `setupSocket` and `handleEINPROGRESS` do on a connection that was made. -/
def login (s : NetworkIndex) (sock : Socket) (a : Answers) : Except ThreadEnd NetworkIndex :=
  let t := { s with isConnected := true }
  match t.loginDecider with
  | .tryAgain =>
    match loginAttempt a.slot a.login.bytes 0 with
    | .error f => .error (.fault f)
    | .ok pkt =>
      let u := { t with loginRetryCount := t.loginRetryCount + 1, logins := t.logins ++ [sock] }
      .ok (u.send pkt (some sock) a.loginSends).1
  | .alreadyLoggedIn => .ok t
  | .disconnect => .ok t.closeSocket

/-- `createSocket` for the index. -/
def openSocket (s : NetworkIndex) (as : List SocketAnswer) :
    NetworkIndex × Option Socket × List SocketAnswer :=
  match createSocket as with
  | (true, left) => ({ s with made := s.made + 1 }, some s.made, left)
  | (false, left) => (s, none, left)

/-- `setupSocket`, with an answer of `connect` or `bind` for each socket it is tried with;
where the list ends the connection is in progress.  With the descriptor -1
`makeSocketNonBlocking` never returns, and `bind` fails with `EBADF`. -/
def setupSocket (a : Answers) : List (Option ℕ) → NetworkIndex → Option Socket →
    List SocketAnswer → Except ThreadEnd NetworkIndex
  | _, s, none, _ =>
    if s.protocol.connects then .error (.fault .nonTermination) else .ok s.closeSocket
  | [], s, some _, _ =>
    if s.protocol.connects then
      .ok { s with states := { s.states with connectionPending := true } }
    else .ok s
  | none :: _, s, some c, _ => if s.protocol.connects then s.login c a else .ok s
  | some err :: rest, s, some _, sockets =>
    match s.protocol.setupCase err with
    | .ready => .ok s
    | .inProgress => .ok { s with states := { s.states with connectionPending := true } }
    | .retry => do
      let (again, backoff) ← handleError s.backoff err
      let t := { s with backoff := backoff }
      if again then
        let r := t.closeSocket.openSocket sockets
        setupSocket a rest r.1 r.2.1 r.2.2
      else .ok t.closeSocket
    | .giveUp => do
      let (_, backoff) ← handleError s.backoff err
      .ok { s with backoff := backoff }.closeSocket
    | .unknownError => .ok s.closeSocket

/-- `reconnect`.  Nobody keeps the descriptor it returns. -/
def reconnect (s : NetworkIndex) (a : Answers) : Except ThreadEnd NetworkIndex :=
  let r := s.closeSocket.openSocket a.sockets
  setupSocket a a.connects r.1 r.2.1 r.2.2

/-- `handleEINPROGRESS`; `err` is the error of `getsockopt` or the one it reports. -/
def handleEINPROGRESS (s : NetworkIndex) (sock : Socket) (err : Option ℕ) (a : Answers) :
    Except ThreadEnd NetworkIndex :=
  let t := { s with states := { s.states with connectionPending := false } }
  match err with
  | some err => do
    let (again, backoff) ← handleError t.backoff err
    let u := { t with backoff := backoff }
    if again then u.reconnect a else .ok u.closeSocket
  | none => { t with states := { t.states with isEpolloutSet := false } }.login sock a

/-- The loop over `pending_write_` on an EPOLLOUT event. -/
def flush (sock : Socket) : ℕ → NetworkIndex → List SendAnswer → NetworkIndex
  | 0, s, _ => s
  | fuel + 1, s, os =>
    if s.states.activePkt.isSome then s
    else
      match s.pendingWrite.pop with
      | none => s
      | some (pkt, q) =>
        let r := { s with pendingWrite := q }.send pkt (some sock) os
        flush sock fuel r.1 r.2

/-- An EPOLLOUT event with the connection made.  `modEpoll` on a socket that was closed
meanwhile fails for ever. -/
def resume (s : NetworkIndex) (sock : Socket) (os : List SendAnswer) :
    Except ThreadEnd NetworkIndex :=
  match s.states.activePkt with
  | none => .error (.fault .nullDereference)
  | some pkt =>
    let r := s.send pkt (some sock) os
    let t := flush sock pendingCapacity r.1 r.2
    if t.states.activePkt.isSome then .ok t
    else if t.sock.isSome then .ok { t with states := { t.states with isEpolloutSet := false } }
    else .error (.fault .nonTermination)

/-- What the action of `SBTPacketHandler` leads to. -/
def handled (s : NetworkIndex) (a : Answers) : SBTAction → Except ThreadEnd NetworkIndex
  | .reconnect => s.reconnect a
  | .disconnect => .ok s.closeSocket
  | .notToParser => .ok s
  | .toParser => .ok s
  | .ignore => .ok s

/-- An EPOLLIN event; where the list ends `free_pkt_list_` is empty. -/
def receive (a : Answers) (sock : Socket) : List RecvAnswer → NetworkIndex →
    Except ThreadEnd NetworkIndex
  | [], s => .ok s
  | .again :: _, s => .ok s
  | .interrupted :: rs, s => receive a sock rs s
  | .failed :: _, s => .ok s.closeSocket
  | .ended :: _, s => .ok s.closeSocket
  | .segment bytes action :: _, s =>
    let t := { s with traffic := s.traffic ++ [.received sock bytes] }
    if s.protocol = .ouch then t.handled a action else .ok t

/-- What happens to the index: `trySend` is called, an event is reported for it, with the
error of a connection that was pending; another thread changes what is known of the session,
or the thread counts an error of another index. -/
inductive Move
  | trySend (pkt : TxPacket) (os : List SendAnswer)
  | event (writable readable : Bool) (err : Option ℕ) (a : Answers)
  | session (loggedIn : Bool) (loginRetryCount : ℕ)
  | others (backoff : Backoff)

/-- A move. -/
def step (s : NetworkIndex) : Move → Except ThreadEnd NetworkIndex
  | .trySend pkt os => .ok (s.trySend pkt os)
  | .event writable readable err a =>
    match s.sock with
    | none => .ok s
    | some sock =>
      if writable ∧ s.states.connectionPending then s.handleEINPROGRESS sock err a
      else do
        let t ← if writable then s.resume sock a.sends else .ok s
        if readable then receive a sock a.recvs t else .ok t
  | .session loggedIn loginRetryCount =>
    .ok { s with isLoggedIn := loggedIn, loginRetryCount := loginRetryCount }
  | .others backoff => .ok { s with backoff := backoff }

end NetworkIndex

end TradingEngine
