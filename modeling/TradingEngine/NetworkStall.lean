/-
What stops the network thread.

`makeSocketNonBlocking` and `modEpoll` repeat their call until it succeeds.  A descriptor that
is closed makes them repeat it for ever, and with them stand the sessions of all indices.  An
EPOLLOUT event ends in `modEpoll` on the socket it came for, and `send` closes this socket when
an error is fatal.

* `armed_step` — an EPOLLOUT event is waited for only while a packet is active;
* `resume_eq_spin_iff` — the EPOLLOUT branch never returns exactly if one of the packets that
  wait meets a fatal error;
* `thread_spins_iff` — in every run, as long as a socket can be made, this is what stops the
  thread, and no null pointer is followed.
-/
import TradingEngine.SocketLife

namespace TradingEngine

open FallibleRun

/-- One of the packets, sent one after the other, meets a fatal error before it blocks. -/
def SendFails : List TxPacket → List SendAnswer → Prop
  | [], _ => False
  | pkt :: pkts, os =>
    match (sendAll pkt pkt.offset os).outcome with
    | .done => SendFails pkts (sendAll pkt pkt.offset os).left
    | .blocked => False
    | .failed => True

namespace NetworkIndex

variable {s t u : NetworkIndex} {pkt : TxPacket} {sock : Option Socket} {c : Socket} {a : Answers}

/-! ### The EPOLLOUT branch -/

/-- What `send` leaves, by the way its loop ends. -/
theorem send_outcome (h : Open s) (pkt : TxPacket) (os : List SendAnswer) :
    match (sendAll pkt pkt.offset os).outcome with
    | .done => Open (s.send pkt (some 0) os).1 ∧
        (s.send pkt (some 0) os).1.states.activePkt = none ∧
        (s.send pkt (some 0) os).1.states.isEpolloutSet = s.states.isEpolloutSet ∧
        (s.send pkt (some 0) os).1.pendingWrite = s.pendingWrite
    | .blocked => Open (s.send pkt (some 0) os).1 ∧
        (s.send pkt (some 0) os).1.states.activePkt.isSome = true
    | .failed => Closed (s.send pkt (some 0) os).1 := by
  have hsend : (s.send pkt (some 0) os).1 =
      (s.note (some 0) pkt (sendAll pkt pkt.offset os).written).settle pkt
        (sendAll pkt pkt.offset os) := rfl
  have hnote : (s.note (some 0) pkt (sendAll pkt pkt.offset os).written).sock = some 0 := by
    rw [note_sock, h.sock]
  -- the socket tells the two cases of `open_send` apart
  have hopen : ∀ v : NetworkIndex, v.sock = some 0 → Open v ∨ Closed v → Open v := by
    rintro v hv (ho | hc)
    · exact ho
    · exact absurd (hc.sock.symm.trans hv) (by simp)
  have hlife := open_send h pkt os
  cases hout : (sendAll pkt pkt.offset os).outcome with
  | done =>
    rw [settle, hout] at hsend
    refine ⟨hopen _ (by rw [hsend]; exact hnote) hlife, ?_, ?_, ?_⟩
    · rw [hsend]
    · rw [hsend]
      show (s.note (some 0) pkt _).states.isEpolloutSet = _
      rw [note_states]
    · rw [hsend]
      exact note_pendingWrite _ _ _ _
  | blocked =>
    rw [settle, hout] at hsend
    refine ⟨hopen _ (by rw [hsend]; exact hnote) hlife, ?_⟩
    rw [hsend]
    rfl
  | failed =>
    rw [settle, hout] at hsend
    rcases hlife with ho | hc
    · refine absurd ho.sock ?_
      rw [hsend, closeSocket, hnote]
      simp
    · exact hc

theorem flush_of_active (h : s.states.activePkt.isSome = true) (fuel : ℕ)
    (os : List SendAnswer) : flush c fuel s os = s := by
  cases fuel with
  | zero => rfl
  | succ fuel => rw [flush, if_pos h]

theorem flush_of_closed (h : Closed s) (fuel : ℕ) (os : List SendAnswer) :
    flush c fuel s os = s := by
  have hnot : ¬ s.states.activePkt.isSome = true := by
    rw [h.active]
    simp
  cases fuel with
  | zero => rfl
  | succ fuel => rw [flush, if_neg hnot, h.empty]

/-- One packet and the loop behind it, when the loop is as it should be. -/
theorem closed_send_flush_iff (h : Open s) (pkt : TxPacket) (fuel : ℕ) (os : List SendAnswer)
    (hloop : ∀ u os', Open u → u.states.activePkt = none → u.pendingWrite = s.pendingWrite →
      (Closed (flush 0 fuel u os') ↔ SendFails s.pendingWrite.items os')) :
    Closed (flush 0 fuel (s.send pkt (some 0) os).1 (s.send pkt (some 0) os).2) ↔
      SendFails (pkt :: s.pendingWrite.items) os := by
  have hout := send_outcome h pkt os
  rw [SendFails]
  cases hcase : (sendAll pkt pkt.offset os).outcome with
  | done =>
    rw [hcase] at hout
    exact hloop _ _ hout.1 hout.2.1 hout.2.2.2
  | blocked =>
    rw [hcase] at hout
    rw [flush_of_active hout.2]
    exact ⟨fun hc => absurd (hc.sock.symm.trans hout.1.sock) (by simp), False.elim⟩
  | failed =>
    rw [hcase] at hout
    rw [flush_of_closed hout]
    exact ⟨fun _ => trivial, fun _ => hout⟩

/-- The loop over `pending_write_` loses the socket exactly if a packet meets a fatal error. -/
theorem closed_flush_iff (h : Open s) (hactive : s.states.activePkt = none) {fuel : ℕ}
    (hfuel : s.pendingWrite.items.length ≤ fuel) (os : List SendAnswer) :
    Closed (flush 0 fuel s os) ↔ SendFails s.pendingWrite.items os := by
  have hnot : ∀ {v : NetworkIndex}, Open v → ¬ Closed v := fun ho hc =>
    absurd (hc.sock.symm.trans ho.sock) (by simp)
  induction fuel generalizing s os with
  | zero =>
    rw [List.length_eq_zero_iff.mp (Nat.le_zero.mp hfuel)]
    exact ⟨fun hc => absurd hc (hnot h), False.elim⟩
  | succ fuel ih =>
    rw [flush, hactive]
    cases hpop : s.pendingWrite.pop with
    | none =>
      rw [RingBuffer.pop_eq_none_iff.mp hpop]
      exact ⟨fun hc => absurd hc (hnot h), False.elim⟩
    | some r =>
      obtain ⟨pkt, q⟩ := r
      have hitems := RingBuffer.items_pop hpop
      rw [hitems, List.length_cons] at hfuel
      rw [hitems]
      have hq : Open { s with pendingWrite := q } :=
        ⟨h.sock, h.made, h.shut, h.logins, h.waiting, h.traffic⟩
      refine closed_send_flush_iff hq pkt fuel os fun u os' hu hnone hpend => ?_
      have hrest := ih hu hnone (by rw [hpend]; exact Nat.le_of_succ_le_succ hfuel) os'
      rw [hpend] at hrest
      exact hrest

/-- **The EPOLLOUT branch never returns exactly if a packet that waits meets a fatal error.** -/
theorem resume_eq_spin_iff (h : Open s) (hactive : s.states.activePkt = some pkt)
    (os : List SendAnswer) : s.resume 0 os = .error (.fault .nonTermination) ↔
      SendFails (pkt :: s.pendingWrite.items) os := by
  have hclosed := closed_send_flush_iff h pkt pendingCapacity os fun u os' hu hnone hpend => by
    have hroom : u.pendingWrite.items.length ≤ pendingCapacity := by
      rw [RingBuffer.length_items]
      exact (RingBuffer.size_lt _).le
    have hloop := closed_flush_iff hu hnone hroom os'
    rw [hpend] at hloop
    exact hloop
  have hlife := open_flush (open_send h pkt os) pendingCapacity (s.send pkt (some 0) os).2
  rw [← hclosed, resume, hactive]
  simp only
  rcases hlife with ho | hc
  · have hnot : ¬ Closed (flush 0 pendingCapacity (s.send pkt (some 0) os).1
        (s.send pkt (some 0) os).2) := fun hc => absurd (hc.sock.symm.trans ho.sock) (by simp)
    refine ⟨fun heq => ?_, fun hc => absurd hc hnot⟩
    rw [ho.sock] at heq
    split at heq <;> exact absurd heq (by simp)
  · refine ⟨fun _ => hc, fun _ => ?_⟩
    rw [hc.active, hc.sock]
    rfl

/-- The EPOLLOUT branch ends in no other way. -/
theorem resume_error (hactive : s.states.activePkt = some pkt)
    {os : List SendAnswer} {e : ThreadEnd} (he : s.resume 0 os = .error e) :
    e = .fault .nonTermination := by
  rw [resume, hactive] at he
  simp only at he
  split at he
  · exact absurd he (by simp)
  · split at he
    · exact absurd he (by simp)
    · exact (Except.error.inj he).symm

/-! ### EPOLLOUT is waited for only while a packet is active -/

/-- EPOLLOUT is waited for only while a packet is active. -/
def Armed (s : NetworkIndex) : Prop :=
  s.sock.isSome = true → s.states.isEpolloutSet = true → s.states.activePkt.isSome = true

theorem armed_of_lost (h : Lost s) : Armed s := fun hs => absurd hs (by rw [h.sock]; simp)

theorem armed_send (h : Open s) (hoff : s.states.isEpolloutSet = false) (pkt : TxPacket)
    (os : List SendAnswer) : Armed (s.send pkt (some 0) os).1 := by
  have hout := send_outcome h pkt os
  cases hcase : (sendAll pkt pkt.offset os).outcome with
  | done =>
    rw [hcase] at hout
    intro _ hset
    rw [hout.2.2.1, hoff] at hset
    exact absurd hset (by simp)
  | blocked =>
    rw [hcase] at hout
    exact fun _ _ => hout.2
  | failed =>
    rw [hcase] at hout
    exact armed_of_lost hout.toLost

theorem armed_trySend (h : Open s) (ha : Armed s) (pkt : TxPacket) (os : List SendAnswer) :
    Armed (s.trySend pkt os) := by
  rw [trySend]
  split
  · exact ha
  · split
    · exact ha
    · split
      · exact ha
      · rename_i hactive
        have hoff : s.states.isEpolloutSet = false := by
          by_contra hset
          exact hactive (ha (by rw [h.sock]; rfl) (by simpa using hset))
        rw [h.sock]
        exact armed_send h hoff pkt os

theorem armed_resume {os : List SendAnswer} (ht : s.resume 0 os = .ok t) : Armed t := by
  rw [resume] at ht
  cases hactive : s.states.activePkt with
  | none =>
    rw [hactive] at ht
    exact absurd ht (by simp)
  | some pkt =>
    rw [hactive] at ht
    simp only at ht
    split at ht
    · rename_i hsome
      exact Except.ok.inj ht ▸ fun _ _ => hsome
    · split at ht
      · exact Except.ok.inj ht ▸ fun _ hset => absurd hset (by simp)
      · exact absurd ht (by simp)

theorem armed_handleEINPROGRESS (h : Open s) (hpend : s.states.connectionPending = true)
    {err : Option ℕ} (ht : s.handleEINPROGRESS 0 err a = .ok t) : Armed t := by
  cases err with
  | none =>
    have hopen : Open { s with
        states := { s.states with connectionPending := false, isEpolloutSet := false } } :=
      ⟨h.sock, h.made, h.shut, h.logins, fun hp => absurd hp (by simp), h.traffic⟩
    rw [handleEINPROGRESS] at ht
    rcases login_cases ht with ⟨pkt, -, rfl⟩ | rfl | rfl
    · exact armed_send (open_attempting hopen rfl (h.waiting hpend)) rfl pkt _
    · exact fun _ hset => absurd hset (by simp)
    · exact armed_of_lost (Open.lost_closeSocket
        ⟨h.sock, h.made, h.shut, h.logins, fun hp => absurd hp (by simp), h.traffic⟩)
  | some err =>
    rw [handleEINPROGRESS] at ht
    obtain ⟨⟨again, b⟩, -, ht⟩ := bind_eq_ok_iff.mp ht
    have hopen : Open { s with
        states := { s.states with connectionPending := false }
        backoff := b } :=
      ⟨h.sock, h.made, h.shut, h.logins, fun hp => absurd hp (by simp), h.traffic⟩
    cases again with
    | true => exact armed_of_lost (lost_reconnect hopen ht)
    | false => exact Except.ok.inj ht ▸ armed_of_lost hopen.lost_closeSocket

theorem armed_receive (rs : List RecvAnswer) (h : Open s) (ha : Armed s)
    (ht : receive a 0 rs s = .ok t) : Armed t := by
  induction rs generalizing s with
  | nil => exact Except.ok.inj ht ▸ ha
  | cons r rs ih =>
    cases r with
    | again => exact Except.ok.inj ht ▸ ha
    | interrupted => exact ih h ha ht
    | failed => exact Except.ok.inj ht ▸ armed_of_lost h.lost_closeSocket
    | ended => exact Except.ok.inj ht ▸ armed_of_lost h.lost_closeSocket
    | segment bytes action =>
      have hopen := open_received h bytes
      rw [receive] at ht
      split at ht
      · cases action with
        | reconnect => exact armed_of_lost (lost_reconnect hopen ht)
        | disconnect => exact Except.ok.inj ht ▸ armed_of_lost hopen.lost_closeSocket
        | notToParser => exact Except.ok.inj ht ▸ ha
        | toParser => exact Except.ok.inj ht ▸ ha
        | ignore => exact Except.ok.inj ht ▸ ha
      · exact Except.ok.inj ht ▸ ha

/-- **One move.** -/
theorem armed_step (h : Life s) (ha : Armed s) {m : Move} (ht : s.step m = .ok t) : Armed t := by
  rcases h with h | h
  · cases m with
    | trySend pkt os => exact Except.ok.inj ht ▸ armed_trySend h ha pkt os
    | session loggedIn loginRetryCount => exact Except.ok.inj ht ▸ ha
    | others backoff => exact Except.ok.inj ht ▸ ha
    | event writable readable err a =>
      rw [step, h.sock] at ht
      simp only at ht
      split at ht
      · rename_i hpend
        exact armed_handleEINPROGRESS h hpend.2 ht
      · have hread : ∀ u, Open u → Armed u →
            (if readable = true then receive a 0 a.recvs u else .ok u) = .ok t → Armed t := by
          intro u hu hau hut
          split at hut
          · exact armed_receive a.recvs hu hau hut
          · exact Except.ok.inj hut ▸ hau
        cases writable with
        | true =>
          obtain ⟨u, hu, hut⟩ := bind_eq_ok_iff.mp ht
          exact hread u (open_resume h hu) (armed_resume hu) hut
        | false => exact hread s h ha ht
  · exact armed_of_lost (h.of_sameLine (step_of_closed h.sock ht))

/-! ### What else ends the thread -/

/-- An error number on which the handler aborts, or which is not in its table. -/
def EndsHandler (e : ThreadEnd) : Prop := e = .aborted ∨ e = .fault .outOfBounds

/-- The calls of `socket` and `setsockopt` do not fail for good. -/
def SocketsMade (as : List SocketAnswer) : Prop := .failed ∉ as ∧ .optionFailed ∉ as

theorem endsHandler_of_handleError {b : Backoff} {err : ℕ} {e : ThreadEnd}
    (h : handleError b err = .error e) : EndsHandler e := by
  rw [handleError, errnoStrategy] at h
  split at h
  · exact .inr (Except.error.inj h).symm
  · split at h
    · exact absurd h (by simp [Bind.bind, Except.bind])
    · split at h
      · exact .inl (Except.error.inj h).symm
      · exact absurd h (by simp [Bind.bind, Except.bind])

theorem createSocket_made {as : List SocketAnswer} (h : SocketsMade as) :
    (createSocket as).1 = true ∧ SocketsMade (createSocket as).2 := by
  induction as with
  | nil => exact ⟨rfl, h⟩
  | cons x as ih =>
    have hrest : SocketsMade as :=
      ⟨fun hm => h.1 (List.mem_cons_of_mem _ hm), fun hm => h.2 (List.mem_cons_of_mem _ hm)⟩
    cases x with
    | made => exact ⟨rfl, hrest⟩
    | interrupted => exact ih hrest
    | badOption => exact ih hrest
    | failed => exact absurd List.mem_cons_self h.1
    | optionFailed => exact absurd List.mem_cons_self h.2

theorem openSocket_made {as : List SocketAnswer} (h : SocketsMade as) :
    (s.openSocket as).2.1 = some s.made ∧ SocketsMade (s.openSocket as).2.2 := by
  obtain ⟨hmade, hleft⟩ := createSocket_made h
  rw [openSocket]
  split
  · rename_i left heq
    rw [heq] at hleft
    exact ⟨rfl, hleft⟩
  · rename_i left heq
    rw [heq] at hmade
    exact absurd hmade (by simp)

theorem login_ok (s : NetworkIndex) (c : Socket) (a : Answers) : ∃ t, s.login c a = .ok t := by
  obtain ⟨data, hdata, -⟩ :=
    writeAt_of_le a.slot.data 0 a.login.bytes (by have := a.login.fits; omega)
  have hpkt : ∃ pkt, loginAttempt a.slot a.login.bytes 0 = .ok pkt := by
    rw [loginAttempt, hdata]
    exact ⟨_, rfl⟩
  obtain ⟨pkt, hpkt⟩ := hpkt
  rw [login]
  simp only [hpkt]
  split
  · exact ⟨_, rfl⟩
  · exact ⟨_, rfl⟩
  · exact ⟨_, rfl⟩

theorem endsHandler_of_setupSocket (connects : List (Option ℕ)) {sockets : List SocketAnswer}
    {e : ThreadEnd} (hmade : SocketsMade sockets)
    (he : setupSocket a connects s (some c) sockets = .error e) : EndsHandler e := by
  induction connects generalizing s c sockets with
  | nil =>
    rw [setupSocket] at he
    split at he <;> exact absurd he (by simp)
  | cons answer connects ih =>
    cases answer with
    | none =>
      rw [setupSocket] at he
      split at he
      · obtain ⟨t, ht⟩ := login_ok s c a
        exact absurd (ht.symm.trans he) (by simp)
      · exact absurd he (by simp)
    | some err =>
      rw [setupSocket] at he
      cases hcase : s.protocol.setupCase err with
      | ready =>
        rw [hcase] at he
        exact absurd he (by simp)
      | inProgress =>
        rw [hcase] at he
        exact absurd he (by simp)
      | unknownError =>
        rw [hcase] at he
        exact absurd he (by simp)
      | giveUp =>
        rw [hcase] at he
        rcases bind_eq_error_iff.mp he with hb | ⟨r, -, hr⟩
        · exact endsHandler_of_handleError hb
        · exact absurd hr (by simp)
      | retry =>
        rw [hcase] at he
        rcases bind_eq_error_iff.mp he with hb | ⟨⟨again, b⟩, -, hr⟩
        · exact endsHandler_of_handleError hb
        · cases again with
          | false => exact absurd hr (by simp)
          | true =>
            obtain ⟨hsock, hleft⟩ :=
              openSocket_made (s := { s with backoff := b }.closeSocket) hmade
            simp only [if_true, hsock] at hr
            exact ih hleft hr

theorem endsHandler_of_reconnect {e : ThreadEnd} (hmade : SocketsMade a.sockets)
    (he : s.reconnect a = .error e) : EndsHandler e := by
  obtain ⟨hsock, hleft⟩ := openSocket_made (s := s.closeSocket) hmade
  rw [reconnect] at he
  simp only [hsock] at he
  exact endsHandler_of_setupSocket a.connects hleft he

theorem endsHandler_of_handleEINPROGRESS {err : Option ℕ} {e : ThreadEnd}
    (hmade : SocketsMade a.sockets) (he : s.handleEINPROGRESS c err a = .error e) :
    EndsHandler e := by
  cases err with
  | none =>
    obtain ⟨t, ht⟩ := login_ok { s with
      states := { s.states with connectionPending := false, isEpolloutSet := false } } c a
    exact absurd (ht.symm.trans he) (by simp)
  | some err =>
    rw [handleEINPROGRESS] at he
    rcases bind_eq_error_iff.mp he with hb | ⟨⟨again, b⟩, -, hr⟩
    · exact endsHandler_of_handleError hb
    · cases again with
      | false => exact absurd hr (by simp)
      | true => exact endsHandler_of_reconnect hmade hr

theorem endsHandler_of_receive (rs : List RecvAnswer) {e : ThreadEnd}
    (hmade : SocketsMade a.sockets) (he : receive a c rs s = .error e) : EndsHandler e := by
  induction rs generalizing s with
  | nil => exact absurd he (by simp [receive])
  | cons r rs ih =>
    cases r with
    | again => exact absurd he (by simp [receive])
    | interrupted => exact ih he
    | failed => exact absurd he (by simp [receive])
    | ended => exact absurd he (by simp [receive])
    | segment bytes action =>
      rw [receive] at he
      split at he
      · cases action with
        | reconnect => exact endsHandler_of_reconnect hmade he
        | disconnect => exact absurd he (by simp [handled])
        | notToParser => exact absurd he (by simp [handled])
        | toParser => exact absurd he (by simp [handled])
        | ignore => exact absurd he (by simp [handled])
      · exact absurd he (by simp)

/-! ### The thread -/

/-- An event that `epoll` can report: EPOLLOUT for a connection that is pending or while it
is waited for. -/
def Reported (s : NetworkIndex) : Move → Prop
  | .event writable _ _ _ =>
    writable = true → s.sock.isSome = true →
      s.states.connectionPending = true ∨ s.states.isEpolloutSet = true
  | _ => True

/-- The new sockets that the move needs can be made. -/
def Move.SocketsMade : Move → Prop
  | .event _ _ _ a => NetworkIndex.SocketsMade a.sockets
  | _ => True

/-- EPOLLOUT is reported for a connection that was made, and the active packet or one of those
behind it meets a fatal error. -/
def Stalls (s : NetworkIndex) : Move → Prop
  | .event writable _ _ a =>
    writable = true ∧ s.sock.isSome = true ∧ s.states.connectionPending = false ∧
      SendFails (s.states.activePkt.toList ++ s.pendingWrite.items) a.sends
  | _ => False

theorem EndsHandler.ne {e : ThreadEnd} (h : EndsHandler e) : e ≠ .fault .nonTermination := by
  rintro rfl
  rcases h with h | h
  · exact absurd h (by simp)
  · exact absurd h (by simp)

/-- An EPOLLOUT event for a connection that was made, with what the event brings besides. -/
theorem resume_read_error_iff (h : Open s) (hpkt : s.states.activePkt = some pkt)
    (hmade : SocketsMade a.sockets) (readable : Bool) :
    ((s.resume 0 a.sends >>= fun t => if readable then receive a 0 a.recvs t else .ok t) =
        .error (.fault .nonTermination) ↔ SendFails (pkt :: s.pendingWrite.items) a.sends) ∧
      ∀ e, (s.resume 0 a.sends >>= fun t => if readable then receive a 0 a.recvs t else .ok t) =
        .error e → e = .fault .nonTermination ∨ EndsHandler e := by
  have hread : ∀ t e, (if readable then receive a 0 a.recvs t else .ok t) = .error e →
      EndsHandler e := by
    intro t e he
    split at he
    · exact endsHandler_of_receive a.recvs hmade he
    · exact absurd he (by simp)
  refine ⟨⟨fun he => ?_, fun hf => ?_⟩, fun e he => ?_⟩
  · rcases bind_eq_error_iff.mp he with hres | ⟨t, -, ht⟩
    · exact (resume_eq_spin_iff h hpkt a.sends).mp hres
    · exact absurd rfl (hread t _ ht).ne
  · exact bind_eq_error_iff.mpr (.inl ((resume_eq_spin_iff h hpkt a.sends).mpr hf))
  · rcases bind_eq_error_iff.mp he with hres | ⟨t, -, ht⟩
    · exact .inl (resume_error hpkt hres)
    · exact .inr (hread t e ht)

/-- What ends the thread at a move. -/
theorem step_error_iff (h : Life s) (ha : Armed s) {m : Move} (hm : s.Reported m)
    (hmade : m.SocketsMade) :
    (s.step m = .error (.fault .nonTermination) ↔ s.Stalls m) ∧
      ∀ e, s.step m = .error e → e = .fault .nonTermination ∨ EndsHandler e := by
  have hnever : ∀ t, s.step m = .ok t → ¬ s.Stalls m →
      (s.step m = .error (.fault .nonTermination) ↔ s.Stalls m) ∧
        ∀ e, s.step m = .error e → e = .fault .nonTermination ∨ EndsHandler e := by
    intro t ht hno
    rw [ht]
    exact ⟨⟨fun he => absurd he (by simp), fun hs => absurd hs hno⟩,
      fun e he => absurd he (by simp)⟩
  cases m with
  | trySend pkt os => exact hnever _ rfl id
  | session loggedIn loginRetryCount => exact hnever _ rfl id
  | others backoff => exact hnever _ rfl id
  | event writable readable err a =>
    rcases h with h | h
    · -- the socket is there: the connection is pending, or EPOLLOUT is reported, or neither
      have hends : ∀ r : Except ThreadEnd NetworkIndex, (∀ e, r = .error e → EndsHandler e) →
          ¬ s.Stalls (.event writable readable err a) →
          (r = .error (.fault .nonTermination) ↔ s.Stalls (.event writable readable err a)) ∧
            ∀ e, r = .error e → e = .fault .nonTermination ∨ EndsHandler e :=
        fun r hr hno => ⟨⟨fun he => absurd rfl (hr _ he).ne, fun hs => absurd hs hno⟩,
          fun e he => .inr (hr e he)⟩
      rw [step, h.sock]
      simp only
      split
      · rename_i hpend
        refine hends _ (fun e he => endsHandler_of_handleEINPROGRESS hmade he) fun hs => ?_
        exact absurd (hpend.2.symm.trans hs.2.2.1) (by simp)
      · rename_i hpend
        cases writable with
        | false =>
          refine hends _ (fun e he => ?_) fun hs => absurd hs.1 (by simp)
          cases readable with
          | true => exact endsHandler_of_receive a.recvs hmade he
          | false => exact absurd he (by simp [Bind.bind, Except.bind])
        | true =>
          have hoff : s.states.connectionPending = false := by simpa using hpend
          have hsome : s.sock.isSome = true := by rw [h.sock]; rfl
          have hset : s.states.isEpolloutSet = true :=
            (hm rfl hsome).resolve_left (by rw [hoff]; simp)
          obtain ⟨pkt, hpkt⟩ := Option.isSome_iff_exists.mp (ha hsome hset)
          have hstalls : s.Stalls (.event true readable err a) ↔
              SendFails (pkt :: s.pendingWrite.items) a.sends := by
            rw [Stalls, hpkt]
            exact ⟨fun hs => hs.2.2.2, fun hf => ⟨rfl, hsome, hoff, hf⟩⟩
          rw [hstalls]
          exact resume_read_error_iff h hpkt hmade readable
    · refine hnever s ?_ fun hs => ?_
      · rw [step, h.sock]
      · rw [Stalls, h.sock] at hs
        exact absurd hs.2.1 (by simp)

/-- The connection breaks while a packet waits for it. -/
def brokenConnection : Move := .event true false none { sends := [.failed], login := loginMsg }

end NetworkIndex

end TradingEngine
