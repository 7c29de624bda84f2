/-
The byte stream of a session.

An `Outbound` is the send path of one session, with the packets `trySend`
accepted and the login packet that was sent when the connection was made.  The
bytes on the wire, the rest of the active packet and the packets in
`pending_write_` together should be the login packet and the accepted packets.

Two things break that.  When the connection is made, the packets that were
queued meanwhile stay in `pending_write_` unless the login packet blocks, and the
next `trySend` overtakes them.  And `LoginAttempt` leaves the offset of the packet
it is given as it was.

* `outbound_stream` — in every run without either, the bytes on the wire are the
  first bytes of the login packet and the accepted packets, in `trySend` order;
* `queued_packet_overtaken` — a run in which a packet is overtaken.
-/
import TradingEngine.NetworkSend
import TradingEngine.FallibleRun

namespace TradingEngine

open FallibleRun

/-- A packet as `fillPacket` leaves it. -/
structure FilledPacket where
  pkt : TxPacket
  offset : pkt.offset = 0

/-- A login message, which fits into a packet. -/
structure LoginMsg where
  bytes : List UInt8
  fits : bytes.length ≤ packetSize

/-- The send path of a session, from the creation of its socket on. -/
structure Outbound where
  session : SendSession TxPacket
  index : UInt8 := 0
  opened : Bool := false
  login : List UInt8 := []
  accepted : List TxPacket := []

/-- What can happen: the socket is set up, `trySend` is called, an EPOLLOUT event is
reported, or another thread changes what is known of the session.  A login takes the
packet `slot` from the pool. -/
inductive SendMove
  | setupSocket (inProgress : Bool) (slot : TxPacket) (msg : LoginMsg) (os : List SendResult)
  | trySend (p : FilledPacket) (os : List SendResult)
  | epollout (slot : TxPacket) (msg : LoginMsg) (os : List SendResult)
  | sessionState (loggedIn : Bool) (loginRetryCount : ℕ)

namespace Outbound

/-- The login when the connection is made. -/
def attemptLogin (o : Outbound) (slot : TxPacket) (msg : LoginMsg) (os : List SendResult) :
    Except Fault Outbound :=
  match o.session.loginDecider with
  | .alreadyLoggedIn => .ok o
  | .disconnect => .ok { o with session := o.session.closeSocket }
  | .tryAgain => do
    let pkt ← loginAttempt slot msg.bytes o.index
    let s := { o.session with loginRetryCount := o.session.loginRetryCount + 1 }
    .ok { o with session := (s.send .byValue () pkt os).2.1, login := pkt.bytes }

/-- A move; one that cannot happen changes nothing. -/
def step (o : Outbound) : SendMove → Except Fault Outbound
  | .setupSocket inProgress slot msg os =>
    if o.opened then .ok o
    else if inProgress then
      .ok { o with opened := true, session := { o.session with connectionPending := true } }
    else { o with opened := true }.attemptLogin slot msg os
  | .trySend p os =>
    if o.opened = false ∨ o.session.closed = true then .ok o
    else
      let r := o.session.trySend .byValue () p.pkt os
      .ok { o with
        session := r.2.2
        accepted := if r.2.1 then o.accepted ++ [p.pkt] else o.accepted }
  | .epollout slot msg os =>
    if o.session.closed = true ∨ o.session.writable = false then .ok o
    else if o.session.connectionPending then
      { o with session := o.session.connected }.attemptLogin slot msg os
    else do
      let (_, s) ← o.session.resume .byValue () os
      .ok { o with session := s }
  | .sessionState loggedIn loginRetryCount =>
    .ok { o with
      session := { o.session with loggedIn := loggedIn, loginRetryCount := loginRetryCount } }

/-- No packet is sent past those that wait, and the packet a login is built in has no
offset left from before. -/
def Orderly (o : Outbound) : SendMove → Prop
  | .setupSocket _ slot _ _ => slot.offset = 0
  | .trySend p _ =>
    o.session.connectionPending = false → o.session.activePkt = none →
      o.session.loggedIn = true ∨ p.pkt.isLoginMsg = true → o.session.pendWrite.items = []
  | .epollout slot _ _ => o.session.connectionPending = true → slot.offset = 0
  | .sessionState _ _ => True

/-- What the session has to send: the login packet and the accepted packets. -/
def expected (o : Outbound) : List UInt8 := o.login ++ o.accepted.flatMap TxPacket.bytes

/-- What is on its way: the rest of the active packet and the packets that wait. -/
def unsent (s : SendSession TxPacket) : List UInt8 :=
  (s.activePkt.elim [] TxPacket.unsent) ++ s.pendWrite.items.flatMap TxPacket.bytes

/-! ### Sending a packet -/

theorem sendLoop_bytes (pkt : TxPacket) (offset : ℕ) (os : List SendResult) :
    (sendLoop pkt offset os).written ++ pkt.bytes.drop (sendLoop pkt offset os).offset =
      pkt.bytes.drop offset := by
  induction os generalizing offset with
  | nil => rfl
  | cons r rs ih =>
    cases r with
    | sent n =>
      rw [sendLoop]
      split
      · show (_ ++ (sendLoop pkt _ rs).written) ++ pkt.bytes.drop (sendLoop pkt _ rs).offset = _
        rw [List.append_assoc, ih, ← List.drop_drop, List.take_append_drop]
      · rfl
    | again =>
      rw [sendLoop]
      split <;> rfl
    | interrupted =>
      rw [sendLoop]
      split
      · exact ih offset
      · rfl

/-- A packet whose sending did not block was sent to its end. -/
theorem sendLoop_done {pkt : TxPacket} {offset : ℕ} {os : List SendResult}
    (h : (sendLoop pkt offset os).blocked = false) :
    pkt.bytes.drop (sendLoop pkt offset os).offset = [] := by
  have hlen : pkt.bytes.length ≤ pkt.len := by
    rw [TxPacket.bytes, List.length_take]
    omega
  induction os generalizing offset with
  | nil =>
    have hle : ¬ offset < pkt.len := by simpa [sendLoop] using h
    exact List.drop_eq_nil_of_le (by show pkt.bytes.length ≤ offset; omega)
  | cons r rs ih =>
    by_cases hlt : offset < pkt.len
    · cases r with
      | sent n =>
        rw [sendLoop, if_pos hlt] at h ⊢
        exact ih h
      | again =>
        rw [sendLoop, if_pos hlt] at h
        exact absurd h (by simp)
      | interrupted =>
        rw [sendLoop, if_pos hlt] at h ⊢
        exact ih h
    · have hoff : (sendLoop pkt offset (r :: rs)).offset = offset := by
        cases r <;> rw [sendLoop, if_neg hlt]
      rw [hoff]
      exact List.drop_eq_nil_of_le (by omega)

/-- What `send` does: it moves bytes of the packet to the wire, and what is left of the
packet is active. -/
theorem send_cases (s : SendSession TxPacket) (p : TxPacket) (os : List SendResult) :
    ∃ written active armed, (s.send .byValue () p os).2.1 =
        { s with wire := s.wire ++ written, activePkt := active, isEpolloutSet := armed } ∧
      written ++ active.elim [] TxPacket.unsent = p.unsent ∧
      (active = none → armed = s.isEpolloutSet) := by
  have hbytes := sendLoop_bytes p p.offset os
  refine ⟨_, _, _, rfl, ?_, ?_⟩
  · show (sendLoop p p.offset os).written ++
      (if (sendLoop p p.offset os).blocked then some { p with offset := _ } else none).elim []
        TxPacket.unsent = _
    cases hb : (sendLoop p p.offset os).blocked with
    | true => exact hbytes
    | false =>
      rw [sendLoop_done hb] at hbytes
      exact hbytes
  · intro hnone
    change (if (sendLoop p p.offset os).blocked then some _ else none) = none at hnone
    show (s.isEpolloutSet || (sendLoop p p.offset os).blocked) = _
    cases hb : (sendLoop p p.offset os).blocked with
    | true =>
      rw [hb] at hnone
      exact absurd hnone (by simp)
    | false => exact Bool.or_false _

/-- What a step of the sender leaves as it was. -/
structure SameLine (s s' : SendSession TxPacket) : Prop where
  stream : s'.wire ++ unsent s' = s.wire ++ unsent s
  fresh : ∀ p ∈ s'.pendWrite.items, p.offset = 0
  closed : s'.closed = s.closed
  connectionPending : s'.connectionPending = s.connectionPending

/-- The packets that wait are sent in order. -/
theorem flush_sameLine (fuel : ℕ) (s : SendSession TxPacket) (os : List SendResult)
    (hfresh : ∀ p ∈ s.pendWrite.items, p.offset = 0) :
    SameLine s (s.flush .byValue fuel () os).2 := by
  induction fuel generalizing s os with
  | zero => exact ⟨rfl, hfresh, rfl, rfl⟩
  | succ fuel ih =>
    rw [SendSession.flush]
    split
    · exact ⟨rfl, hfresh, rfl, rfl⟩
    · rename_i hactive
      cases hpop : s.pendWrite.pop with
      | none => exact ⟨rfl, hfresh, rfl, rfl⟩
      | some r =>
        obtain ⟨p, q⟩ := r
        have hitems := RingBuffer.items_pop hpop
        have hnone : s.activePkt = none := by simpa using hactive
        have hzero : p.offset = 0 := hfresh p (by rw [hitems]; exact List.mem_cons_self)
        have hwhole : p.unsent = p.bytes := by rw [TxPacket.unsent, hzero, List.drop_zero]
        obtain ⟨written, active, armed, hsend, hbytes, -⟩ :=
          send_cases { s with pendWrite := q } p os
        have hq : ∀ x ∈ q.items, x.offset = 0 := fun x hx =>
          hfresh x (by rw [hitems]; exact List.mem_cons_of_mem _ hx)
        have hrest := ih ({ s with pendWrite := q }.send .byValue () p os).2.1
          ({ s with pendWrite := q }.send .byValue () p os).2.2 (by rw [hsend]; exact hq)
        refine ⟨?_, hrest.fresh, ?_, ?_⟩
        · refine hrest.stream.trans ?_
          rw [hsend]
          show (s.wire ++ written) ++ (active.elim [] TxPacket.unsent ++ q.items.flatMap _) =
            s.wire ++ (s.activePkt.elim [] TxPacket.unsent ++ s.pendWrite.items.flatMap _)
          rw [hnone, hitems, List.flatMap_cons, List.append_assoc, ← List.append_assoc written,
            hbytes, hwhole]
          rfl
        · exact hrest.closed.trans (by rw [hsend])
        · exact hrest.connectionPending.trans (by rw [hsend])

/-- An EPOLLOUT event keeps the line, and disarms itself when nothing is left. -/
theorem resume_sameLine {s : SendSession TxPacket} (os : List SendResult)
    (hfresh : ∀ p ∈ s.pendWrite.items, p.offset = 0) (hactive : s.activePkt.isSome) :
    ∃ s', s.resume .byValue () os = .ok ((), s') ∧ SameLine s s' ∧
      (s'.isEpolloutSet = true → s'.activePkt.isSome) := by
  obtain ⟨p, hp⟩ := Option.isSome_iff_exists.mp hactive
  obtain ⟨written, active, armed, hsend, hbytes, -⟩ := send_cases s p os
  have hline : SameLine s (s.send .byValue () p os).2.1 := by
    rw [hsend]
    refine ⟨?_, hfresh, rfl, rfl⟩
    show (s.wire ++ written) ++ (active.elim [] TxPacket.unsent ++ _) =
      s.wire ++ (s.activePkt.elim [] TxPacket.unsent ++ _)
    rw [hp, List.append_assoc, ← List.append_assoc written, hbytes]
    rfl
  have hflush := flush_sameLine pendingCapacity (s.send .byValue () p os).2.1
    (s.send .byValue () p os).2.2 hline.fresh
  let t := (s.send .byValue () p os).2.1.flush .byValue pendingCapacity () (s.send .byValue () p os).2.2
  have hres : s.resume .byValue () os =
      .ok ((), { t.2 with isEpolloutSet := t.2.isEpolloutSet && t.2.activePkt.isSome }) := by
    rw [SendSession.resume, hp]
  refine ⟨_, hres, ⟨?_, hflush.fresh, ?_, ?_⟩, fun h => ?_⟩
  · exact hflush.stream.trans hline.stream
  · exact hflush.closed.trans hline.closed
  · exact hflush.connectionPending.trans hline.connectionPending
  · exact (Bool.and_eq_true_iff.mp h).2

/-! ### Runs -/

/-- The invariant: wire and unsent bytes are what is expected, and EPOLLOUT is armed
only for an active packet. -/
structure Streams (o : Outbound) : Prop where
  wire : o.session.wire <+: o.expected
  stream : o.session.closed = false → o.session.wire ++ unsent o.session = o.expected
  fresh : ∀ p ∈ o.session.pendWrite.items, p.offset = 0
  armed : o.session.isEpolloutSet = true → o.session.activePkt.isSome
  waiting : o.opened = false ∨ o.session.connectionPending = true →
    o.session.closed = false ∧ o.session.wire = [] ∧ o.login = [] ∧ o.session.activePkt = none
  unopened : o.opened = false → o.session.connectionPending = false

theorem streams_of_stream {o : Outbound}
    (hstream : o.session.wire ++ unsent o.session = o.expected)
    (hfresh : ∀ p ∈ o.session.pendWrite.items, p.offset = 0)
    (harmed : o.session.isEpolloutSet = true → o.session.activePkt.isSome)
    (hwait : o.opened = false ∨ o.session.connectionPending = true →
      o.session.closed = false ∧ o.session.wire = [] ∧ o.login = [] ∧ o.session.activePkt = none)
    (hunopened : o.opened = false → o.session.connectionPending = false) :
    Streams o :=
  ⟨⟨_, hstream⟩, fun _ => hstream, hfresh, harmed, hwait, hunopened⟩

/-- The login goes out before the packets that wait. -/
theorem streams_attemptLogin {o : Outbound} {slot : TxPacket} {msg : LoginMsg}
    {os : List SendResult} (h : Streams o) (hopen : o.opened = true)
    (hpend : o.session.connectionPending = false) (hclosed : o.session.closed = false)
    (hwire : o.session.wire = []) (hlogin : o.login = []) (hactive : o.session.activePkt = none)
    (hslot : slot.offset = 0) : ∃ o', o.attemptLogin slot msg os = .ok o' ∧ Streams o' := by
  have hnot : ¬ (o.opened = false ∨ o.session.connectionPending = true) := by
    rw [hopen, hpend]
    simp
  rw [attemptLogin]
  cases hdec : o.session.loginDecider with
  | alreadyLoggedIn => exact ⟨o, rfl, h⟩
  | disconnect =>
    -- the socket is closed, and nothing stays armed
    refine ⟨_, rfl, ?_, by simp [SendSession.closeSocket], ?_, by simp [SendSession.closeSocket], ?_,
      fun hf => absurd hf (by simp [hopen])⟩
    · exact h.wire
    · intro p hp
      rw [SendSession.items_closeSocket] at hp
      exact absurd hp List.not_mem_nil
    · intro hw
      exact absurd hw (by simp [SendSession.closeSocket, hopen])
  | tryAgain =>
    -- nothing is in front of the login: no bytes and no partial packet
    obtain ⟨data, hdata, hread⟩ := writeAt_of_le slot.data 0 msg.bytes (by have := msg.fits; omega)
    let pkt : TxPacket :=
      { slot with data := data, len := msg.bytes.length, sockIndex := o.index, isLoginMsg := true }
    have hpkt : loginAttempt slot msg.bytes o.index = .ok pkt := by
      rw [loginAttempt, hdata]
      rfl
    have hwhole : pkt.unsent = pkt.bytes := by
      show pkt.bytes.drop slot.offset = _
      rw [hslot, List.drop_zero]
    obtain ⟨written, active, armed, hsend, hbytes, harm⟩ :=
      send_cases { o.session with loginRetryCount := o.session.loginRetryCount + 1 } pkt os
    have hstream := h.stream hclosed
    rw [expected, hwire, hlogin, unsent, hactive] at hstream
    have hstep : (loginAttempt slot msg.bytes o.index >>= fun pkt => Except.ok
          { o with
            session := ({ o.session with
              loginRetryCount := o.session.loginRetryCount + 1 }.send .byValue () pkt os).2.1
            login := pkt.bytes }) =
        (.ok { o with
          session := { o.session with
            loginRetryCount := o.session.loginRetryCount + 1
            wire := o.session.wire ++ written
            activePkt := active
            isEpolloutSet := armed }
          login := pkt.bytes } : Except Fault Outbound) := by
      rw [hpkt]
      show Except.ok { o with session := (SendSession.send _ _ _ pkt os).2.1, login := pkt.bytes } = _
      rw [hsend]
    refine ⟨_, hstep, streams_of_stream ?_ h.fresh ?_ (fun hw => absurd hw hnot) fun _ => hpend⟩
    · show (o.session.wire ++ written) ++ (active.elim [] TxPacket.unsent ++ _) = pkt.bytes ++ _
      rw [hwire, List.nil_append, ← List.append_assoc, hbytes, hwhole]
      exact congrArg (pkt.bytes ++ ·) hstream
    · show armed = true → active.isSome
      intro ht
      cases active with
      | none =>
        have := h.armed ((harm rfl).symm.trans ht)
        rw [hactive] at this
        exact absurd this (by simp)
      | some p => rfl

theorem expected_append (o : Outbound) (p : TxPacket) (s : SendSession TxPacket) :
    { o with session := s, accepted := o.accepted ++ [p] : Outbound }.expected =
      o.expected ++ p.bytes := by
  show o.login ++ (o.accepted ++ [p]).flatMap TxPacket.bytes = _
  rw [List.flatMap_append, List.flatMap_singleton, expected, List.append_assoc]

/-- A packet that finds no room is forgotten; one that finds room waits behind the others. -/
theorem streams_enqueue {o : Outbound} {p : FilledPacket} (h : Streams o)
    (hclosed : o.session.closed = false) :
    Streams { o with
      session := (o.session.enqueue p.pkt).2
      accepted :=
        if (o.session.enqueue p.pkt).1 then o.accepted ++ [p.pkt] else o.accepted } := by
  show Streams { o with
    session := { o.session with pendWrite := o.session.pendWrite.push p.pkt }
    accepted := if !o.session.pendWrite.full then o.accepted ++ [p.pkt] else o.accepted }
  cases hfull : o.session.pendWrite.full with
  | true =>
    have hpush : o.session.pendWrite.push p.pkt = o.session.pendWrite := by
      rw [RingBuffer.push, if_pos hfull]
    rw [hpush]
    exact h
  | false =>
    have hitems := RingBuffer.items_push (a := p.pkt) hfull
    refine streams_of_stream ?_ ?_ h.armed h.waiting h.unopened
    · refine Eq.trans ?_ (expected_append o p.pkt _).symm
      show o.session.wire ++ (o.session.activePkt.elim [] TxPacket.unsent ++
        (o.session.pendWrite.push p.pkt).items.flatMap TxPacket.bytes) = _
      rw [hitems, List.flatMap_append, List.flatMap_singleton, ← h.stream hclosed, unsent,
        List.append_assoc, List.append_assoc]
    · intro x hx
      change x ∈ (o.session.pendWrite.push p.pkt).items at hx
      rw [hitems] at hx
      rcases List.mem_append.mp hx with hx | hx
      · exact h.fresh x hx
      · rw [List.mem_singleton.mp hx]
        exact p.offset

theorem streams_trySend {o : Outbound} {p : FilledPacket} {os : List SendResult} (h : Streams o)
    (hc : o.Orderly (.trySend p os)) :
    ∃ o', o.step (.trySend p os) = .ok o' ∧ Streams o' := by
  rw [step]
  by_cases hoff : o.opened = false ∨ o.session.closed = true
  · exact ⟨o, if_pos hoff, h⟩
  · rw [if_neg hoff]
    have hopen : o.opened = true := by simpa using fun hf => hoff (.inl hf)
    have hclosed : o.session.closed = false := by simpa using fun hf => hoff (.inr hf)
    rcases SendSession.trySend_cases .byValue () o.session p.pkt os with
      ⟨htry, -⟩ | ⟨htry, -⟩ | ⟨htry, hpend, hnone, hflag⟩
    · -- the packet waits behind the others
      rw [htry]
      exact ⟨_, rfl, streams_enqueue h hclosed⟩
    · -- nobody is logged in, and only a login is sent then
      rw [htry]
      exact ⟨_, rfl, h⟩
    · -- nothing is active, so nothing may wait
      have hnil := hc hpend hnone hflag
      obtain ⟨written, active, armed, hsend, hbytes, harm⟩ := send_cases o.session p.pkt os
      have hwhole : p.pkt.unsent = p.pkt.bytes := by
        rw [TxPacket.unsent, p.offset, List.drop_zero]
      have hstream := h.stream hclosed
      rw [unsent, hnone, hnil] at hstream
      rw [htry]
      refine ⟨_, rfl, ?_⟩
      show Streams { o with
        session := (o.session.send .byValue () p.pkt os).2.1
        accepted := o.accepted ++ [p.pkt] }
      rw [hsend]
      refine streams_of_stream ?_ h.fresh ?_ ?_ fun hf => absurd hf (by simp [hopen])
      · show (o.session.wire ++ written) ++ (active.elim [] TxPacket.unsent ++
          o.session.pendWrite.items.flatMap _) = _
        rw [hnil, expected_append, ← hstream, List.append_assoc, ← List.append_assoc written,
          hbytes, hwhole]
        simp
      · show armed = true → active.isSome
        intro ht
        cases active with
        | none =>
          have := h.armed ((harm rfl).symm.trans ht)
          rw [hnone] at this
          exact absurd this (by simp)
        | some q => rfl
      · rintro (hw | hw)
        · exact absurd hw (by simp [hopen])
        · exact absurd hw (by simp [hpend])

/-- **One move.** -/
theorem streams_step {o : Outbound} {m : SendMove} (h : Streams o) (hc : o.Orderly m) :
    ∃ o', o.step m = .ok o' ∧ Streams o' := by
  cases m with
  | setupSocket inProgress slot msg os =>
    rw [step]
    by_cases hopen : o.opened = true
    · exact ⟨o, if_pos hopen, h⟩
    · rw [if_neg hopen]
      have hnew : o.opened = false := by simpa using hopen
      obtain ⟨hclosed, hwire, hlogin, hactive⟩ := h.waiting (.inl hnew)
      cases inProgress with
      | true =>
        exact ⟨_, rfl, h.wire, h.stream, h.fresh, h.armed,
          fun _ => ⟨hclosed, hwire, hlogin, hactive⟩, fun hf => absurd hf (by simp)⟩
      | false =>
        exact streams_attemptLogin ⟨h.wire, h.stream, h.fresh, h.armed,
          fun _ => ⟨hclosed, hwire, hlogin, hactive⟩, fun hf => absurd hf (by simp)⟩ rfl
          (h.unopened hnew) hclosed hwire hlogin hactive hc
  | trySend p os => exact streams_trySend h hc
  | epollout slot msg os =>
    rw [step]
    by_cases hoff : o.session.closed = true ∨ o.session.writable = false
    · exact ⟨o, if_pos hoff, h⟩
    · rw [if_neg hoff]
      by_cases hpend : o.session.connectionPending = true
      · rw [if_pos hpend]
        obtain ⟨hclosed, hwire, hlogin, hactive⟩ := h.waiting (.inr hpend)
        have hopen : o.opened = true := by
          by_contra hno
          rw [h.unopened (by simpa using hno)] at hpend
          exact absurd hpend (by simp)
        exact streams_attemptLogin ⟨h.wire, h.stream, h.fresh, fun hf => absurd hf (by
            simp [SendSession.connected]), fun _ => ⟨hclosed, hwire, hlogin, hactive⟩,
          fun _ => rfl⟩ hopen rfl hclosed hwire hlogin hactive (hc hpend)
      · rw [if_neg hpend]
        have hwrite : o.session.isEpolloutSet = true := by
          by_contra hno
          exact hoff (.inr (by simp [SendSession.writable, hno, hpend]))
        obtain ⟨s', hres, hline, harmed⟩ := resume_sameLine os h.fresh (h.armed hwrite)
        have hclosed : o.session.closed = false := by simpa using fun hf => hoff (.inl hf)
        refine ⟨_, by rw [hres]; rfl, streams_of_stream ?_ hline.fresh harmed ?_ ?_⟩
        · exact hline.stream.trans (h.stream hclosed)
        · rintro (hw | hw)
          · have hactive := h.armed hwrite
            rw [(h.waiting (.inl hw)).2.2.2] at hactive
            exact absurd hactive (by simp)
          · exact absurd (hline.connectionPending.symm.trans hw) hpend
        · intro hf
          exact hline.connectionPending.trans (h.unopened hf)
  | sessionState loggedIn loginRetryCount =>
    exact ⟨_, rfl, h.wire, h.stream, h.fresh, h.armed, h.waiting, h.unopened⟩

/-- A session whose socket is not yet set up. -/
def start (index : UInt8) (pend : CustomQueue TxPacket pendingCapacity) : Outbound :=
  { session := { pendWrite := pend }, index := index }

theorem streams_start {index : UInt8} {pend : CustomQueue TxPacket pendingCapacity}
    (hpend : pend.items = []) : Streams (start index pend) := by
  refine streams_of_stream ?_ ?_ (by simp [start]) (fun _ => ⟨rfl, rfl, rfl, rfl⟩) fun _ => rfl
  · show [] ++ ([] ++ pend.items.flatMap _) = _
    rw [hpend]
    rfl
  · intro p hp
    change p ∈ pend.items at hp
    rw [hpend] at hp
    exact absurd hp List.not_mem_nil

end Outbound

/-- **The byte stream is exact and in order.**  In every run in which no packet is sent
past those that wait and no login packet has an offset left, the bytes on the wire are
the first bytes of the login packet and the accepted packets, in `trySend` order; as
long as the session is open, what is missing is the rest of the active packet and the
packets in `pending_write_`. -/
theorem outbound_stream {index : UInt8} {pend : CustomQueue TxPacket pendingCapacity}
    (hpend : pend.items = []) {moves : List SendMove}
    (hmoves : Along Outbound.step Outbound.Orderly (Outbound.start index pend) moves) :
    ∃ o, exec Outbound.step (Outbound.start index pend) moves = .ok o ∧
      o.session.wire <+: o.login ++ o.accepted.flatMap TxPacket.bytes ∧
      (o.session.closed = false →
        o.session.wire ++ Outbound.unsent o.session =
          o.login ++ o.accepted.flatMap TxPacket.bytes) := by
  obtain ⟨o, hrun, hinv⟩ := exec_of_along
    (fun _ _ h hc => Outbound.streams_step h hc) (Outbound.streams_start hpend) hmoves
  exact ⟨o, hrun, hinv.wire, hinv.stream⟩

/-! ### Two orders and a login -/

/-- A packet of one byte. -/
def oneBytePacket (b : UInt8) : FilledPacket :=
  ⟨{ data := Vector.replicate packetSize b, len := 1 }, rfl⟩

def loginMsg : LoginMsg := ⟨[0x4C], by decide⟩

/-- A session that has sent nothing. -/
def freshOutbound : Outbound := Outbound.start 0 ⟨fun _ => {}, 0, 0⟩

instance (o : Outbound) (m : SendMove) : Decidable (o.Orderly m) :=
  match m with
  | .setupSocket _ slot _ _ => inferInstanceAs (Decidable (slot.offset = 0))
  | .trySend p _ =>
    decidable_of_iff
      (o.session.connectionPending = false → o.session.activePkt.isNone = true →
        o.session.loggedIn = true ∨ p.pkt.isLoginMsg = true →
        o.session.pendWrite.size = 0) (by
      rw [Option.isNone_iff_eq_none, ← RingBuffer.length_items, List.length_eq_zero_iff]
      exact Iff.rfl)
  | .epollout slot _ _ =>
    inferInstanceAs (Decidable (o.session.connectionPending = true → slot.offset = 0))
  | .sessionState _ _ => .isTrue trivial

/-- A packet is queued while the connection is made, and the login packet blocks. -/
def blockedLogin : List SendMove :=
  [.setupSocket true {} loginMsg [], .trySend (oneBytePacket 0x41) [],
    .epollout {} loginMsg [.again], .sessionState true 0, .trySend (oneBytePacket 0x42) [],
    .epollout {} loginMsg [.sent 1, .interrupted, .sent 1, .sent 1]]

/-- With a login packet that blocks, everything goes out in order. -/
theorem outbound_stream_blocked_login :
    ∃ o, exec Outbound.step freshOutbound blockedLogin = .ok o ∧
      o.session.wire = [0x4C, 0x41, 0x42] ∧
      o.session.wire <+: o.login ++ o.accepted.flatMap TxPacket.bytes := by
  have horderly : Along Outbound.step Outbound.Orderly freshOutbound blockedLogin := by
    decide +kernel
  obtain ⟨o, hrun, hpre, -⟩ := outbound_stream rfl horderly
  have hwire : (exec Outbound.step freshOutbound blockedLogin).map (·.session.wire) =
      .ok [0x4C, 0x41, 0x42] := rfl
  rw [freshOutbound, hrun] at hwire
  exact ⟨o, hrun, Except.ok.inj hwire, hpre⟩

/-- The same with a login packet that is sent at once. -/
def smoothLogin : List SendMove :=
  [.setupSocket true {} loginMsg [], .trySend (oneBytePacket 0x41) [],
    .epollout {} loginMsg [.sent 1], .sessionState true 0,
    .trySend (oneBytePacket 0x42) [.sent 1]]

/-- **A queued packet is overtaken.**  The packet `A` is accepted while the connection is
made, `B` after the login; `B` is on the wire and `A` is not. -/
theorem queued_packet_overtaken :
    ∃ o, exec Outbound.step freshOutbound smoothLogin = .ok o ∧
      o.session.wire = [0x4C, 0x42] ∧
      o.login ++ o.accepted.flatMap TxPacket.bytes = [0x4C, 0x41, 0x42] ∧
      ¬ o.session.wire <+: o.login ++ o.accepted.flatMap TxPacket.bytes := by
  have hend : (exec Outbound.step freshOutbound smoothLogin).map
      (fun o => (o.session.wire, o.login ++ o.accepted.flatMap TxPacket.bytes)) =
        .ok ([0x4C, 0x42], [0x4C, 0x41, 0x42]) := rfl
  obtain ⟨o, ho, heq⟩ := map_eq_ok_iff.mp hend
  rw [Prod.mk.injEq] at heq
  refine ⟨o, ho, heq.1, heq.2, ?_⟩
  rw [heq.1, heq.2]
  decide

end TradingEngine
