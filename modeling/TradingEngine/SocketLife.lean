/-
How long a session lasts.

`reconnect` closes the socket of an index, makes a new one and connects it, but no caller
puts the new descriptor into `socks_`.  There it stays -1, and for -1 `recv_send` passes over
every event and `send` has no socket to write to.  A reconnect can therefore do no more than
send a login, and only when the connection is made at once; the answer to it is never read.

* `session_ends_with_its_socket` — in every run bytes go over the first socket only, except
  for logins; at most five sockets are made and two logins attempted; only the first socket
  is ever closed; and once it is, nothing is sent or received any more.
-/
import TradingEngine.NetworkThread

namespace TradingEngine

open FallibleRun

/-- The bytes went over the first socket, or they are those of a login message. -/
def Traffic.Expected : Traffic → Prop
  | .sent sock login _ => sock = 0 ∨ login = true
  | .received sock _ => sock = 0

namespace NetworkIndex

variable {s t u : NetworkIndex} {pkt : TxPacket} {sock : Option Socket} {c : Socket} {a : Answers}

/-! ### Without a socket -/

/-- The two indices have the same sockets and have carried the same bytes. -/
structure SameLine (s t : NetworkIndex) : Prop where
  sock : t.sock = s.sock
  made : t.made = s.made
  shut : t.shut = s.shut
  logins : t.logins = s.logins
  traffic : t.traffic = s.traffic

theorem SameLine.refl (s : NetworkIndex) : SameLine s s := ⟨rfl, rfl, rfl, rfl, rfl⟩

theorem closeSocket_of_none (h : s.sock = none) : s.closeSocket = s := by
  rw [closeSocket, h]

/-- Nothing is sent without a socket. -/
theorem sameLine_send_none (h : s.sock = none) (pkt : TxPacket) (os : List SendAnswer) :
    SameLine s (s.send pkt none os).1 := by
  show SameLine s (s.settle pkt (sendAll pkt pkt.offset (.failed :: os)))
  rw [settle]
  split
  · exact ⟨rfl, rfl, rfl, rfl, rfl⟩
  · exact ⟨rfl, rfl, rfl, rfl, rfl⟩
  · rw [closeSocket_of_none h]
    exact .refl s

theorem sameLine_trySend (h : s.sock = none) (pkt : TxPacket) (os : List SendAnswer) :
    SameLine s (s.trySend pkt os) := by
  rw [trySend]
  split
  · exact ⟨rfl, rfl, rfl, rfl, rfl⟩
  · split
    · exact .refl s
    · split
      · exact ⟨rfl, rfl, rfl, rfl, rfl⟩
      · rw [h]
        exact sameLine_send_none h pkt os

/-- **An index without a socket neither sends nor receives.** -/
theorem step_of_closed (h : s.sock = none) {m : Move} (hstep : s.step m = .ok t) :
    SameLine s t := by
  cases m with
  | trySend pkt os =>
    rw [step, Except.ok.injEq] at hstep
    exact hstep ▸ sameLine_trySend h pkt os
  | event writable readable err a =>
    rw [step, h, Except.ok.injEq] at hstep
    exact hstep ▸ .refl s
  | session loggedIn loginRetryCount =>
    rw [step, Except.ok.injEq] at hstep
    exact hstep ▸ ⟨rfl, rfl, rfl, rfl, rfl⟩
  | others backoff =>
    rw [step, Except.ok.injEq] at hstep
    exact hstep ▸ ⟨rfl, rfl, rfl, rfl, rfl⟩

/-- Nor does it in any run. -/
theorem exec_of_closed (h : s.sock = none) {ms : List Move} (hrun : exec step s ms = .ok t) :
    SameLine s t := by
  have hkeeps : ∀ u m u', SameLine s u → step u m = .ok u' → SameLine s u' := by
    intro u m u' hu hstep
    have hu' := step_of_closed (hu.sock.trans h) hstep
    exact ⟨hu'.sock.trans hu.sock, hu'.made.trans hu.made, hu'.shut.trans hu.shut,
      hu'.logins.trans hu.logins, hu'.traffic.trans hu.traffic⟩
  exact exec_inv hkeeps (.refl s) hrun

/-! ### With the first socket -/

/-- The first socket is open. -/
structure Open (s : NetworkIndex) : Prop where
  sock : s.sock = some 0
  made : s.made = 1
  shut : s.shut = []
  logins : s.logins.length ≤ 1
  waiting : s.states.connectionPending = true → s.logins = []
  traffic : ∀ x ∈ s.traffic, x.Expected

/-- The first socket was closed. -/
structure Lost (s : NetworkIndex) : Prop where
  sock : s.sock = none
  made : s.made ≤ 5
  shut : s.shut = [0]
  logins : s.logins.length ≤ 2
  traffic : ∀ x ∈ s.traffic, x.Expected

/-- What `closeSocket` leaves: no packet is active and none waits. -/
structure Closed (s : NetworkIndex) : Prop extends Lost s where
  active : s.states.activePkt = none
  empty : s.pendingWrite.pop = none

/-- The first socket was closed and others are tried; each error that is counted leaves one
try less. -/
structure Reopening (s : NetworkIndex) : Prop where
  sock : s.sock = none
  made : s.made + (maxRetryCount - s.backoff.errnoRetryCount) ≤ 5
  shut : s.shut = [0]
  logins : s.logins.length ≤ 1
  traffic : ∀ x ∈ s.traffic, x.Expected

/-- The invariant of every run. -/
def Life (s : NetworkIndex) : Prop := Open s ∨ Lost s

theorem Reopening.lost (h : Reopening s) : Lost s :=
  ⟨h.sock, by have := h.made; omega, h.shut, by have := h.logins; omega, h.traffic⟩

theorem Lost.of_sameLine (h : Lost s) (hst : SameLine s t) : Lost t :=
  ⟨hst.sock.trans h.sock, hst.made ▸ h.made, hst.shut.trans h.shut, hst.logins ▸ h.logins,
    hst.traffic ▸ h.traffic⟩

/-- `closeSocket` on an open socket. -/
theorem Open.closeSocket (h : Open s) :
    s.closeSocket.sock = none ∧ s.closeSocket.made = 1 ∧ s.closeSocket.shut = [0] ∧
      s.closeSocket.logins = s.logins ∧ s.closeSocket.traffic = s.traffic ∧
      s.closeSocket.backoff = s.backoff := by
  rw [NetworkIndex.closeSocket, h.sock]
  refine ⟨rfl, h.made, ?_, rfl, rfl, rfl⟩
  show s.shut ++ [0] = [0]
  rw [h.shut, List.nil_append]

theorem Open.closed_closeSocket (h : Open s) : Closed s.closeSocket := by
  obtain ⟨hsock, hmade, hshut, hlogins, htraffic, -⟩ := h.closeSocket
  refine ⟨⟨hsock, by rw [hmade]; norm_num, hshut, by rw [hlogins]; have := h.logins; omega,
    htraffic ▸ h.traffic⟩, ?_, ?_⟩
  · rw [NetworkIndex.closeSocket, h.sock]
  · rw [NetworkIndex.closeSocket, h.sock]
    rfl

theorem Open.lost_closeSocket (h : Open s) : Lost s.closeSocket := h.closed_closeSocket.toLost

theorem Lost.closeSocket (h : Lost s) : Lost s.closeSocket := by
  rw [closeSocket_of_none h.sock]
  exact h

/-! ### Sending -/

theorem settle_cases (s : NetworkIndex) (pkt : TxPacket) (out : SendEnd) :
    (∃ st, st.connectionPending = s.states.connectionPending ∧
      s.settle pkt out = { s with states := st }) ∨ s.settle pkt out = s.closeSocket := by
  rw [settle]
  split
  · exact .inl ⟨{ s.states with activePkt := none }, rfl, rfl⟩
  · exact .inl ⟨{ s.states with
      activePkt := some { pkt with offset := out.offset }
      isEpolloutSet := true }, rfl, rfl⟩
  · exact .inr rfl

/-- What `send` can do: it writes some bytes, and closes the socket or not. -/
theorem send_cases (s : NetworkIndex) (pkt : TxPacket) (c : Socket) (os : List SendAnswer) :
    ∃ new st, (∀ x ∈ new, ∃ w, x = Traffic.sent c pkt.isLoginMsg w) ∧
      st.connectionPending = s.states.connectionPending ∧
      ((s.send pkt (some c) os).1 = { s with traffic := s.traffic ++ new, states := st } ∨
        (s.send pkt (some c) os).1 = { s with traffic := s.traffic ++ new }.closeSocket) := by
  have hnote : ∀ w, ∃ new, (∀ x ∈ new, ∃ w, x = Traffic.sent c pkt.isLoginMsg w) ∧
      s.note (some c) pkt w = { s with traffic := s.traffic ++ new } := by
    intro w
    cases w with
    | nil =>
      refine ⟨[], fun x hx => absurd hx List.not_mem_nil, ?_⟩
      rw [List.append_nil]
      rfl
    | cons b w => exact ⟨[.sent c pkt.isLoginMsg (b :: w)], by simp, rfl⟩
  obtain ⟨new, hnew, heq⟩ := hnote (sendAll pkt pkt.offset os).written
  have hsend : (s.send pkt (some c) os).1 =
      { s with traffic := s.traffic ++ new }.settle pkt (sendAll pkt pkt.offset os) := by
    rw [← heq]
    rfl
  rcases settle_cases { s with traffic := s.traffic ++ new } pkt (sendAll pkt pkt.offset os) with
    ⟨st, hpend, hst⟩ | hclose
  · exact ⟨new, st, hnew, hpend, .inl (hsend.trans hst)⟩
  · exact ⟨new, s.states, hnew, rfl, .inr (hsend.trans hclose)⟩

theorem expected_append {new : List Traffic} (h : ∀ x ∈ s.traffic, x.Expected)
    (hnew : ∀ x ∈ new, x.Expected) : ∀ x ∈ s.traffic ++ new, x.Expected := by
  intro x hx
  rcases List.mem_append.mp hx with hx | hx
  · exact h x hx
  · exact hnew x hx

theorem expected_sent {new : List Traffic} (hc : c = 0 ∨ pkt.isLoginMsg = true)
    (hnew : ∀ x ∈ new, ∃ w, x = Traffic.sent c pkt.isLoginMsg w) : ∀ x ∈ new, x.Expected := by
  intro x hx
  obtain ⟨w, rfl⟩ := hnew x hx
  exact hc

/-- **Sending.**  Over the first socket everything may be sent, over another a login. -/
theorem lost_send (h : Lost s) (hc : c = 0 ∨ pkt.isLoginMsg = true) (os : List SendAnswer) :
    Lost (s.send pkt (some c) os).1 := by
  obtain ⟨new, st, hnew, -, heq | heq⟩ := send_cases s pkt c os
  · rw [heq]
    exact ⟨h.sock, h.made, h.shut, h.logins, expected_append h.traffic (expected_sent hc hnew)⟩
  · rw [heq, closeSocket_of_none (s := { s with traffic := s.traffic ++ new }) h.sock]
    exact ⟨h.sock, h.made, h.shut, h.logins, expected_append h.traffic (expected_sent hc hnew)⟩

theorem open_send (h : Open s) (pkt : TxPacket) (os : List SendAnswer) :
    Open (s.send pkt (some 0) os).1 ∨ Closed (s.send pkt (some 0) os).1 := by
  obtain ⟨new, st, hnew, hpend, heq | heq⟩ := send_cases s pkt 0 os
  · rw [heq]
    exact .inl ⟨h.sock, h.made, h.shut, h.logins, fun hp => h.waiting (hpend ▸ hp),
      expected_append h.traffic (expected_sent (.inl rfl) hnew)⟩
  · have hopen : Open { s with traffic := s.traffic ++ new } :=
      ⟨h.sock, h.made, h.shut, h.logins, h.waiting,
        expected_append h.traffic (expected_sent (.inl rfl) hnew)⟩
    rw [heq]
    exact .inr hopen.closed_closeSocket

theorem life_send (h : Open s) (pkt : TxPacket) (os : List SendAnswer) :
    Life (s.send pkt (some 0) os).1 :=
  (open_send h pkt os).imp id Closed.toLost

theorem life_trySend (h : Open s) (pkt : TxPacket) (os : List SendAnswer) :
    Life (s.trySend pkt os) := by
  have hqueue : Open { s with pendingWrite := s.pendingWrite.push pkt } :=
    ⟨h.sock, h.made, h.shut, h.logins, h.waiting, h.traffic⟩
  rw [trySend]
  split
  · exact .inl hqueue
  · split
    · exact .inl h
    · split
      · exact .inl hqueue
      · rw [h.sock]
        exact life_send h pkt os

/-- The loop over `pending_write_` ends with the socket. -/
theorem open_flush (h : Open s ∨ Closed s) (fuel : ℕ) (os : List SendAnswer) :
    Open (flush 0 fuel s os) ∨ Closed (flush 0 fuel s os) := by
  induction fuel generalizing s os with
  | zero => exact h
  | succ fuel ih =>
    rw [flush]
    split
    · exact h
    · cases hpop : s.pendingWrite.pop with
      | none => exact h
      | some r =>
        obtain ⟨pkt, q⟩ := r
        rcases h with h | h
        · have hq : Open { s with pendingWrite := q } :=
            ⟨h.sock, h.made, h.shut, h.logins, h.waiting, h.traffic⟩
          exact ih (open_send hq pkt os) _
        · exact absurd (h.empty.symm.trans hpop) (by simp)

/-- If the thread goes on behind an EPOLLOUT event, the socket is still there. -/
theorem open_resume (h : Open s) {os : List SendAnswer} (hres : s.resume 0 os = .ok t) :
    Open t := by
  rw [resume] at hres
  cases hactive : s.states.activePkt with
  | none =>
    rw [hactive] at hres
    exact absurd hres (by simp)
  | some pkt =>
    rw [hactive] at hres
    simp only at hres
    rcases open_flush (open_send h pkt os) pendingCapacity (s.send pkt (some 0) os).2 with
      hopen | hclosed
    · split at hres
      · exact Except.ok.inj hres ▸ hopen
      · split at hres
        · exact Except.ok.inj hres ▸ ⟨hopen.sock, hopen.made, hopen.shut, hopen.logins,
            hopen.waiting, hopen.traffic⟩
        · exact absurd hres (by simp)
    · rw [hclosed.active, hclosed.sock] at hres
      exact absurd hres (by simp)

/-! ### Logging in and connecting -/

theorem isLoginMsg_loginAttempt {msg : List UInt8} {index : UInt8} {pkt' : TxPacket}
    (h : loginAttempt pkt msg index = .ok pkt') : pkt'.isLoginMsg = true := by
  rw [loginAttempt] at h
  obtain ⟨data, -, h⟩ := bind_eq_ok_iff.mp h
  rw [← Except.ok.inj h]

/-- The session while a login is attempted. -/
def attempting (s : NetworkIndex) (c : Socket) : NetworkIndex :=
  { s with
    isConnected := true
    loginRetryCount := s.loginRetryCount + 1
    logins := s.logins ++ [c] }

/-- What a connection that was made leads to: a login is sent, or was before, or there were
too many. -/
theorem login_cases (ht : s.login c a = .ok t) :
    (∃ pkt, pkt.isLoginMsg = true ∧
      t = ((s.attempting c).send pkt (some c) a.loginSends).1) ∨
    t = { s with isConnected := true } ∨ t = { s with isConnected := true }.closeSocket := by
  rw [login] at ht
  simp only at ht
  split at ht
  · split at ht
    · exact absurd ht (by simp)
    · rename_i pkt hpkt
      exact .inl ⟨pkt, isLoginMsg_loginAttempt hpkt, (Except.ok.inj ht).symm⟩
  · exact .inr (.inl (Except.ok.inj ht).symm)
  · exact .inr (.inr (Except.ok.inj ht).symm)

/-- The first attempt over the first socket. -/
theorem open_attempting (h : Open s) (hpend : s.states.connectionPending = false)
    (hnone : s.logins = []) : Open (s.attempting 0) := by
  refine ⟨h.sock, h.made, h.shut, ?_, fun hp => ?_, h.traffic⟩
  · show (s.logins ++ [0]).length ≤ 1
    rw [hnone, List.nil_append, List.length_singleton]
  · exact absurd (hpend.symm.trans hp) (by simp)

/-- A login over the first socket, when none was attempted yet. -/
theorem life_login (h : Open s) (hpend : s.states.connectionPending = false)
    (hnone : s.logins = []) (ht : s.login 0 a = .ok t) : Life t := by
  have hopen : Open { s with isConnected := true } :=
    ⟨h.sock, h.made, h.shut, h.logins, h.waiting, h.traffic⟩
  rcases login_cases ht with ⟨pkt, -, rfl⟩ | rfl | rfl
  · exact life_send (open_attempting h hpend hnone) pkt _
  · exact .inl hopen
  · exact .inr hopen.lost_closeSocket

/-- A login over a socket that was made later. -/
theorem lost_login (h : Reopening s) (ht : s.login c a = .ok t) : Lost t := by
  have hlost : Lost { s with isConnected := true } :=
    ⟨h.sock, h.lost.made, h.shut, h.lost.logins, h.traffic⟩
  have hmore : Lost (s.attempting c) := by
    refine ⟨h.sock, h.lost.made, h.shut, ?_, h.traffic⟩
    show (s.logins ++ [c]).length ≤ 2
    have := h.logins
    rw [List.length_append, List.length_singleton]
    omega
  rcases login_cases ht with ⟨pkt, hlogin, rfl⟩ | rfl | rfl
  · exact lost_send hmore (.inr hlogin) _
  · exact hlost
  · exact hlost.closeSocket

theorem Reopening.openSocket (h : Open s) (as : List SocketAnswer) :
    Reopening (s.closeSocket.openSocket as).1 := by
  obtain ⟨hsock, hmade, hshut, hlogins, htraffic, -⟩ := h.closeSocket
  rw [NetworkIndex.openSocket]
  split
  · refine ⟨hsock, ?_, hshut, hlogins ▸ h.logins, htraffic ▸ h.traffic⟩
    show s.closeSocket.made + 1 + _ ≤ 5
    rw [hmade]
    exact Nat.add_le_add_left (Nat.sub_le _ _) 2
  · refine ⟨hsock, ?_, hshut, hlogins ▸ h.logins, htraffic ▸ h.traffic⟩
    show s.closeSocket.made + _ ≤ 5
    rw [hmade]
    exact (Nat.add_le_add_left (Nat.sub_le _ _) 1).trans (by norm_num)

/-- Another try, when the last one was counted. -/
theorem Reopening.retry (h : Reopening s) {b : Backoff}
    (hlt : s.backoff.errnoRetryCount < maxRetryCount)
    (hcount : b.errnoRetryCount = s.backoff.errnoRetryCount + 1) (as : List SocketAnswer) :
    Reopening ({ s with backoff := b }.closeSocket.openSocket as).1 := by
  have hmade := h.made
  rw [closeSocket_of_none (s := { s with backoff := b }) h.sock, NetworkIndex.openSocket]
  split
  · refine ⟨h.sock, ?_, h.shut, h.logins, h.traffic⟩
    show s.made + 1 + (maxRetryCount - b.errnoRetryCount) ≤ 5
    omega
  · refine ⟨h.sock, ?_, h.shut, h.logins, h.traffic⟩
    show s.made + (maxRetryCount - b.errnoRetryCount) ≤ 5
    omega

/-- **What `setupSocket` does for a socket that nobody keeps.** -/
theorem lost_setupSocket (connects : List (Option ℕ)) (h : Reopening s)
    {sockets : List SocketAnswer} (ht : setupSocket a connects s sock sockets = .ok t) :
    Lost t := by
  induction connects generalizing s sock sockets with
  | nil =>
    cases sock with
    | none =>
      rw [setupSocket] at ht
      split at ht
      · exact absurd ht (by simp)
      · exact Except.ok.inj ht ▸ h.lost.closeSocket
    | some c =>
      rw [setupSocket] at ht
      split at ht
      · exact Except.ok.inj ht ▸
          ⟨h.sock, h.lost.made, h.shut, h.lost.logins, h.traffic⟩
      · exact Except.ok.inj ht ▸ h.lost
  | cons answer connects ih =>
    cases sock with
    | none =>
      rw [setupSocket] at ht
      split at ht
      · exact absurd ht (by simp)
      · exact Except.ok.inj ht ▸ h.lost.closeSocket
    | some c =>
      cases answer with
      | none =>
        rw [setupSocket] at ht
        split at ht
        · exact lost_login h ht
        · exact Except.ok.inj ht ▸ h.lost
      | some err =>
        rw [setupSocket] at ht
        cases hcase : s.protocol.setupCase err with
        | ready =>
          rw [hcase] at ht
          exact Except.ok.inj ht ▸ h.lost
        | inProgress =>
          rw [hcase] at ht
          exact Except.ok.inj ht ▸ ⟨h.sock, h.lost.made, h.shut, h.lost.logins, h.traffic⟩
        | unknownError =>
          rw [hcase] at ht
          exact Except.ok.inj ht ▸ h.lost.closeSocket
        | giveUp =>
          rw [hcase] at ht
          obtain ⟨⟨again, b⟩, -, ht⟩ := bind_eq_ok_iff.mp ht
          have hlost : Lost { s with backoff := b } :=
            ⟨h.sock, h.lost.made, h.shut, h.lost.logins, h.traffic⟩
          exact Except.ok.inj ht ▸ hlost.closeSocket
        | retry =>
          rw [hcase] at ht
          obtain ⟨⟨again, b⟩, hb, ht⟩ := bind_eq_ok_iff.mp ht
          rcases handleError_cases hb with ⟨rfl, hlt, hcount⟩ | rfl
          · exact ih (h.retry hlt hcount sockets) ht
          · have hlost : Lost { s with backoff := b } :=
              ⟨h.sock, h.lost.made, h.shut, h.lost.logins, h.traffic⟩
            exact Except.ok.inj ht ▸ hlost.closeSocket

theorem lost_reconnect (h : Open s) (ht : s.reconnect a = .ok t) : Lost t :=
  lost_setupSocket a.connects (Reopening.openSocket h a.sockets) ht

/-! ### Events -/

theorem life_handleEINPROGRESS (h : Open s) (hpend : s.states.connectionPending = true)
    {err : Option ℕ} (ht : s.handleEINPROGRESS 0 err a = .ok t) : Life t := by
  have hnone := h.waiting hpend
  cases err with
  | none =>
    have hopen : Open { s with
        states := { s.states with connectionPending := false, isEpolloutSet := false } } :=
      ⟨h.sock, h.made, h.shut, h.logins, fun hp => absurd hp (by simp), h.traffic⟩
    exact life_login hopen rfl hnone ht
  | some err =>
    rw [handleEINPROGRESS] at ht
    obtain ⟨⟨again, b⟩, -, ht⟩ := bind_eq_ok_iff.mp ht
    have hopen : Open { s with
        states := { s.states with connectionPending := false }
        backoff := b } :=
      ⟨h.sock, h.made, h.shut, h.logins, fun hp => absurd hp (by simp), h.traffic⟩
    cases again with
    | true => exact .inr (lost_reconnect hopen ht)
    | false => exact Except.ok.inj ht ▸ .inr hopen.lost_closeSocket

theorem open_received (h : Open s) (bytes : List UInt8) :
    Open { s with traffic := s.traffic ++ [.received 0 bytes] } :=
  ⟨h.sock, h.made, h.shut, h.logins, h.waiting, expected_append h.traffic fun x hx => by
    rw [List.mem_singleton.mp hx]
    rfl⟩

theorem life_handled (h : Open s) {action : SBTAction} (ht : s.handled a action = .ok t) :
    Life t := by
  cases action with
  | reconnect => exact .inr (lost_reconnect h ht)
  | disconnect => exact Except.ok.inj ht ▸ .inr h.lost_closeSocket
  | notToParser => exact Except.ok.inj ht ▸ .inl h
  | toParser => exact Except.ok.inj ht ▸ .inl h
  | ignore => exact Except.ok.inj ht ▸ .inl h

theorem life_receive (rs : List RecvAnswer) (h : Open s) (ht : receive a 0 rs s = .ok t) :
    Life t := by
  induction rs generalizing s with
  | nil => exact Except.ok.inj ht ▸ .inl h
  | cons r rs ih =>
    cases r with
    | again => exact Except.ok.inj ht ▸ .inl h
    | interrupted => exact ih h ht
    | failed => exact Except.ok.inj ht ▸ .inr h.lost_closeSocket
    | ended => exact Except.ok.inj ht ▸ .inr h.lost_closeSocket
    | segment bytes action =>
      have hopen := open_received h bytes
      rw [receive] at ht
      split at ht
      · exact life_handled hopen ht
      · exact Except.ok.inj ht ▸ .inl hopen

theorem life_event (h : Open s) {writable readable : Bool} {err : Option ℕ}
    (ht : s.step (.event writable readable err a) = .ok t) : Life t := by
  rw [step, h.sock] at ht
  simp only at ht
  split at ht
  · rename_i hpend
    exact life_handleEINPROGRESS h hpend.2 ht
  · have hread : ∀ u, Open u →
        (if readable = true then receive a 0 a.recvs u else .ok u) = .ok t → Life t := by
      intro u hu hut
      split at hut
      · exact life_receive a.recvs hu hut
      · exact Except.ok.inj hut ▸ .inl hu
    cases writable with
    | true =>
      obtain ⟨u, hu, hut⟩ := bind_eq_ok_iff.mp ht
      exact hread u (open_resume h hu) hut
    | false => exact hread s h ht

/-- **One move.** -/
theorem life_step (h : Life s) {m : Move} (ht : s.step m = .ok t) : Life t := by
  rcases h with h | h
  · cases m with
    | trySend pkt os => exact Except.ok.inj ht ▸ life_trySend h pkt os
    | event writable readable err a => exact life_event h ht
    | session loggedIn loginRetryCount =>
      exact Except.ok.inj ht ▸ .inl ⟨h.sock, h.made, h.shut, h.logins, h.waiting, h.traffic⟩
    | others backoff =>
      exact Except.ok.inj ht ▸ .inl ⟨h.sock, h.made, h.shut, h.logins, h.waiting, h.traffic⟩
  · exact .inr (h.of_sameLine (step_of_closed h.sock ht))

/-- An index with its first socket, of which nothing is recorded yet. -/
structure Opened (s : NetworkIndex) : Prop where
  sock : s.sock = some 0
  made : s.made = 1
  shut : s.shut = []
  logins : s.logins = []
  traffic : s.traffic = []

theorem Opened.life (h : Opened s) : Life s :=
  .inl ⟨h.sock, h.made, h.shut, by rw [h.logins]; exact Nat.zero_le 1, fun _ => h.logins,
    fun x hx => by
      rw [h.traffic] at hx
      exact absurd hx List.not_mem_nil⟩

/-- An OUCH session that is logged in. -/
def loggedInIndex : NetworkIndex where
  protocol := .ouch
  sock := some 0
  pendingWrite := ⟨fun _ => {}, 0, 0⟩
  isConnected := true
  isLoggedIn := true

/-- The exchange ends the session; the new connection is made at once, and a login is sent. -/
def endOfSession : Answers where
  connects := [none]
  recvs := [.segment [0, 1, 0x5A] .reconnect]
  loginSends := [.sent 1]
  login := loginMsg

/-- A packet is sent, the session ends, and the exchange accepts the login. -/
def sessionMoves : List Move :=
  [.trySend (oneBytePacket 0x41).pkt [.sent 1], .event false true none endOfSession,
    .session true 0, .trySend (oneBytePacket 0x42).pkt [.sent 1]]

end NetworkIndex

end TradingEngine
