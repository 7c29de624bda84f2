/-
What the sessions send from the pool.

The builder and the network thread share the pool, the queue and the sessions.  With packets
handed over by value each session is an `Outbound`, whose stream is that of `SendStream`; the
login is in three steps here, and what the builder pushes comes through the queue.

* `DirectTx.lined_step` — no step breaks the line of any session;
* `pooled_stream` — in every run without a packet handed out in use, overtaken or built in at
  an offset, what a socket carried is the beginning of the login message and of packets that
  the builder pushed for this session, in the order in which it pushed them.
-/
import TradingEngine.PacketValues

namespace TradingEngine

open FallibleRun List

/-! ### One session -/

namespace Outbound

variable {o : Outbound}

/-- A session of the network thread: its stream is right, and a socket that is closed has
nothing armed. -/
structure Lined (o : Outbound) : Prop where
  streams : o.Streams
  opened : o.opened = true
  disarmed : o.session.closed = true → o.session.isEpolloutSet = false

/-- The connection is made and nothing was sent on it. -/
structure AtLogin (o : Outbound) : Prop where
  closed : o.session.closed = false
  connectionPending : o.session.connectionPending = false
  wire : o.session.wire = []
  login : o.login = []
  activePkt : o.session.activePkt = none

theorem Lined.sessionState (h : o.Lined) (loggedIn : Bool) (loginRetryCount : ℕ) :
    Lined { o with
      session := { o.session with loggedIn := loggedIn, loginRetryCount := loginRetryCount } } :=
  ⟨⟨h.streams.wire, h.streams.stream, h.streams.fresh, h.streams.armed, h.streams.waiting,
    h.streams.unopened⟩, h.opened, h.disarmed⟩

theorem Lined.closeSocket (h : o.Lined) : Lined { o with session := o.session.closeSocket } := by
  refine ⟨⟨h.streams.wire, ?_, ?_, ?_, ?_, fun _ => rfl⟩, h.opened, fun _ => rfl⟩
  · intro hopen
    exact absurd hopen (by simp [SendSession.closeSocket])
  · intro p hp
    rw [SendSession.items_closeSocket] at hp
    exact absurd hp not_mem_nil
  · intro harmed
    exact absurd harmed (by simp [SendSession.closeSocket])
  · rintro (hw | hw)
    · exact absurd (h.opened.symm.trans hw) (by simp)
    · exact absurd hw (by simp [SendSession.closeSocket])

/-- A new socket, connected or to be connected. -/
theorem lined_reopened (session : SendSession TxPacket) (index : UInt8) (inProgress : Bool) :
    Lined
      { session := { session.closeSocket with
          closed := false, wire := [], connectionPending := inProgress }
        index := index
        opened := true } := by
  refine ⟨streams_of_stream ?_ ?_ ?_ ?_ ?_, rfl, fun hclosed => absurd hclosed (by simp)⟩
  · show [] ++ ([] ++ session.closeSocket.pendWrite.items.flatMap _) = []
    rw [SendSession.items_closeSocket]
    rfl
  · intro p hp
    change p ∈ session.closeSocket.pendWrite.items at hp
    rw [SendSession.items_closeSocket] at hp
    exact absurd hp not_mem_nil
  · intro harmed
    exact absurd harmed (by simp [SendSession.closeSocket])
  · intro _
    exact ⟨rfl, rfl, rfl, rfl⟩
  · intro hopened
    exact absurd hopened (by simp)

theorem Lined.connected (h : o.Lined) (hpend : o.session.connectionPending = true) :
    Lined { o with session := o.session.connected } ∧
      AtLogin { o with session := o.session.connected } := by
  obtain ⟨hclosed, hwire, hlogin, hactive⟩ := h.streams.waiting (.inr hpend)
  refine ⟨⟨⟨h.streams.wire, h.streams.stream, h.streams.fresh, ?_, ?_, fun _ => rfl⟩, h.opened,
    fun _ => rfl⟩, hclosed, rfl, hwire, hlogin, hactive⟩
  · intro harmed
    exact absurd harmed (by simp [SendSession.connected])
  · intro _
    exact ⟨hclosed, hwire, hlogin, hactive⟩

/-- Nothing is in front of the login: no bytes and no partial packet. -/
theorem Lined.loginSend (h : o.Lined) (hlogin : o.AtLogin) {p : TxPacket} (hoffset : p.offset = 0)
    (os : List SendResult) :
    Lined { o with session := (o.session.send .byValue () p os).2.1, login := p.bytes } := by
  obtain ⟨written, active, armed, hsend, hbytes, harm⟩ := send_cases o.session p os
  have hwhole : p.unsent = p.bytes := by rw [TxPacket.unsent, hoffset, drop_zero]
  have hstream := h.streams.stream hlogin.closed
  rw [expected, hlogin.wire, hlogin.login, unsent, hlogin.activePkt] at hstream
  rw [hsend]
  refine ⟨streams_of_stream ?_ h.streams.fresh ?_ ?_ ?_, h.opened, fun hclosed =>
    absurd (hlogin.closed.symm.trans hclosed) (by simp)⟩
  · show (o.session.wire ++ written) ++ (active.elim [] TxPacket.unsent ++ _) = p.bytes ++ _
    rw [hlogin.wire, nil_append, ← append_assoc, hbytes, hwhole]
    exact congrArg (p.bytes ++ ·) hstream
  · show armed = true → active.isSome
    intro harmed
    cases active with
    | none =>
      have hold := h.streams.armed ((harm rfl).symm.trans harmed)
      rw [hlogin.activePkt] at hold
      exact absurd hold (by simp)
    | some q => rfl
  · rintro (hw | hw)
    · exact absurd (h.opened.symm.trans hw) (by simp)
    · exact absurd (hlogin.connectionPending.symm.trans hw) (by simp)
  · intro _
    exact hlogin.connectionPending

theorem Lined.trySend (h : o.Lined) (p : FilledPacket) (os : List SendResult)
    (hopen : o.session.closed = false) (hc : o.Orderly (.trySend p os)) :
    Lined
      { o with
        session := (o.session.trySend .byValue () p.pkt os).2.2
        accepted :=
          if (o.session.trySend .byValue () p.pkt os).2.1 then o.accepted ++ [p.pkt]
          else o.accepted } := by
  obtain ⟨o', hstep, hstreams⟩ := streams_trySend h.streams hc
  have hnot : ¬ (o.opened = false ∨ o.session.closed = true) := by
    rw [h.opened, hopen]
    simp
  rw [step, if_neg hnot, Except.ok.injEq] at hstep
  subst hstep
  refine ⟨hstreams, h.opened, fun hclosed => ?_⟩
  have hkept : (o.session.trySend .byValue () p.pkt os).2.2.closed = o.session.closed := by
    rcases o.session.trySend_cases .byValue () p.pkt os with ⟨heq, -⟩ | ⟨heq, -⟩ | ⟨heq, -⟩
    · rw [heq]
      rfl
    · rw [heq]
    · rw [heq]
      rfl
  exact absurd (hkept.symm.trans hclosed) (by rw [hopen]; simp)

/-- An EPOLLOUT event finds an active packet. -/
theorem Lined.resume (h : o.Lined) (os : List SendResult)
    (harmed : o.session.isEpolloutSet = true) (hpend : o.session.connectionPending = false) :
    ∃ session, o.session.resume .byValue () os = .ok ((), session) ∧
      Lined { o with session := session } := by
  obtain ⟨session, hres, hline, harmed'⟩ :=
    resume_sameLine os h.streams.fresh (h.streams.armed harmed)
  have hopen : o.session.closed = false := by
    by_contra hno
    have hoff := h.disarmed (by simpa using hno)
    exact absurd (harmed.symm.trans hoff) (by simp)
  have hpend' : session.connectionPending = false := hline.connectionPending.trans hpend
  refine ⟨session, hres, streams_of_stream ?_ hline.fresh harmed' ?_ fun _ => hpend', h.opened, ?_⟩
  · exact hline.stream.trans (h.streams.stream hopen)
  · rintro (hw | hw)
    · exact absurd (h.opened.symm.trans hw) (by simp)
    · exact absurd (hpend'.symm.trans hw) (by simp)
  · intro hclosed
    exact absurd ((hline.closed.trans hopen).symm.trans hclosed) (by simp)

end Outbound

/-! ### All sessions -/

/-- The packets the network thread has popped. -/
def SenderHand.packets : SenderHand → List TxPacket
  | .popped p => [p]
  | _ => []

/-- The packet is for the session. -/
def isFor (index : UInt8) (p : TxPacket) : Bool := p.sockIndex = index

namespace DirectTx

variable {a : DirectTx}

/-- What the builder pushed and a session has not yet been asked to send. -/
def toCome (a : DirectTx) : List TxPacket := a.sender.packets ++ a.queue.items

/-- No packet is sent past those that wait, and the packet a login is built in has no offset
left from before. -/
def Orderly (a : DirectTx) : TxMove → Prop
  | .trySend _ =>
    ∀ p, a.sender = .popped p →
      let session := (a.lines p.sockIndex).session
      session.closed = false → session.connectionPending = false → session.activePkt = none →
        session.loggedIn = true ∨ p.isLoginMsg = true → session.pendWrite.items = []
  | .loginFill _ => ∀ index p, a.sender = .loginGot index p → p.offset = 0
  | _ => True

/-- The invariant. -/
structure Lined (a : DirectTx) : Prop where
  line : ∀ index, (a.lines index).Lined
  login : ∀ index p, a.sender = .loginGot index p ∨ a.sender = .loginFilled index p →
    (a.lines index).AtLogin
  loginFilled : ∀ index p, a.sender = .loginFilled index p → p.offset = 0
  filled : ∀ p, a.builder = .filled p → p.offset = 0
  toCome : ∀ p ∈ a.toCome, p.offset = 0
  inOrder : ∀ index,
    (a.lines index).accepted ++ a.toCome.filter (isFor index) <+ a.pushed.filter (isFor index)

end DirectTx

/-- The messages fit into a packet. -/
def TxMove.Fits : TxMove → Prop
  | .fillPacket src _ _ => src.length ≤ packetSize
  | .loginFill msg => msg.length ≤ packetSize
  | _ => True

namespace DirectTx

variable {a b : DirectTx} {slot : TxPacket} {index : UInt8} {o : Outbound}

/-- A step that changes one session and lets go of the packet the network thread has. -/
theorem lined_setLine (h : a.Lined) (ho : o.Lined) {hand : SenderHand}
    (hlogin : ∀ i p, hand = .loginGot i p ∨ hand = .loginFilled i p → i = index ∧ o.AtLogin)
    (hfilled : ∀ i p, hand ≠ .loginFilled i p) (hhand : hand.packets = [])
    (haccepted : o.accepted ++ a.queue.items.filter (isFor index) <+
      (a.lines index).accepted ++ a.toCome.filter (isFor index)) :
    Lined { a.setLine index o with sender := hand } := by
  have htoCome : toCome { a.setLine index o with sender := hand } = a.queue.items := by
    show hand.packets ++ a.queue.items = _
    rw [hhand, nil_append]
  refine ⟨fun i => ?_, fun i p hi => ?_, fun i p hi => absurd hi (hfilled i p), h.filled,
    fun p hp => ?_, fun i => ?_⟩
  · show (Function.update a.lines index o i).Lined
    by_cases hi : i = index
    · subst hi
      rw [Function.update_self]
      exact ho
    · rw [Function.update_of_ne hi]
      exact h.line i
  · obtain ⟨rfl, hat⟩ := hlogin i p hi
    show (Function.update a.lines i o i).AtLogin
    rw [Function.update_self]
    exact hat
  · rw [htoCome] at hp
    exact h.toCome p (mem_append_right _ hp)
  · rw [htoCome]
    show (Function.update a.lines index o i).accepted ++ _ <+ _
    by_cases hi : i = index
    · subst hi
      rw [Function.update_self]
      exact haccepted.trans (h.inOrder i)
    · rw [Function.update_of_ne hi]
      refine Sublist.trans ?_ (h.inOrder i)
      exact (Sublist.refl _).append ((sublist_append_right _ _).filter _)

/-- The same with what the session was asked to send. -/
theorem lined_setSession (h : a.Lined) (hidle : a.sender = .idle)
    {session : SendSession TxPacket}
    (ho : Outbound.Lined { a.lines index with session := session }) :
    (a.setSession index session).Lined := by
  have hset : Lined { a.setLine index { a.lines index with session := session } with
      sender := SenderHand.idle } := by
    refine lined_setLine h ho ?_ (by simp) rfl ?_
    · intro i p hi
      exact absurd hi (by simp)
    · rw [DirectTx.toCome, hidle]
      exact Sublist.refl _
  have heq : a.setSession index session =
      { a.setLine index { a.lines index with session := session } with sender := .idle } := by
    rw [← hidle]
    rfl
  rw [heq]
  exact hset

theorem lined_reopened (h : a.Lined) (hidle : a.sender = .idle) (index : UInt8) :
    (a.reopened index).Lined := by
  let o : Outbound :=
    { session := { (a.lines index).session.closeSocket with closed := false, wire := [] }
      index := index
      opened := true }
  have hset : Lined { a.setLine index o with sender := SenderHand.idle } := by
    refine lined_setLine h (Outbound.lined_reopened _ index false) ?_ (by simp) rfl ?_
    · intro i p hi
      exact absurd hi (by simp)
    · rw [DirectTx.toCome, hidle]
      exact sublist_append_right _ _
  refine ⟨hset.line, ?_, ?_, hset.filled, ?_, ?_⟩
  · intro i p hi
    change a.sender = _ ∨ a.sender = _ at hi
    rw [hidle] at hi
    exact absurd hi (by simp)
  · intro i p hi
    change a.sender = _ at hi
    rw [hidle] at hi
    exact absurd hi (by simp)
  · have htoCome : (a.reopened index).toCome = SenderHand.idle.packets ++ a.queue.items := by
      rw [← hidle]
      rfl
    rw [htoCome]
    exact hset.toCome
  · have htoCome : (a.reopened index).toCome = SenderHand.idle.packets ++ a.queue.items := by
      rw [← hidle]
      rfl
    rw [htoCome]
    exact hset.inOrder

/-- A connected session on which nothing was sent logs in. -/
theorem lined_beginLogin (h : a.Lined) (hidle : a.sender = .idle)
    (hat : (a.lines index).AtLogin) : (a.beginLogin slot index).Lined := by
  rw [beginLogin]
  dsimp only
  cases (a.lines index).session.loginDecider with
  | alreadyLoggedIn => exact h
  | disconnect => exact lined_setSession h hidle (h.line index).closeSocket
  | tryAgain =>
    have ho := (h.line index).sessionState (a.lines index).session.loggedIn
      ((a.lines index).session.loginRetryCount + 1)
    refine lined_setLine h ho ?_ (by simp) rfl ?_
    · intro i p hi
      have hindex : i = index := by
        rcases hi with hi | hi
        · exact (SenderHand.loginGot.inj hi).1.symm
        · exact absurd hi (by simp)
      exact ⟨hindex, hat.closed, hat.connectionPending, hat.wire, hat.login, hat.activePkt⟩
    · rw [DirectTx.toCome, hidle]
      exact Sublist.refl _

/-! ### One step -/

theorem lined_builder {m : TxMove} (h : a.Lined) (hfits : m.Fits)
    (hm : m = .getTxPkt ∨ (∃ src i loginMsg, m = .fillPacket src i loginMsg) ∨ m = .push) :
    ∃ b, a.step (m, slot) = .ok b ∧ b.Lined := by
  rcases hm with rfl | ⟨src, i, loginMsg, rfl⟩ | rfl
  · rw [step]
    cases hb : a.builder with
    | idle => exact ⟨_, rfl, h.line, h.login, h.loginFilled, by simp, h.toCome, h.inOrder⟩
    | got p | filled p => exact ⟨a, rfl, h⟩
  · rw [step]
    cases hb : a.builder with
    | got p =>
      have hlen : 0 + src.length ≤ packetSize := (Nat.zero_add _).trans_le hfits
      obtain ⟨data, hdata, -⟩ := writeAt_of_le p.data 0 src hlen
      have hfill : p.fillPacket src i loginMsg =
          .ok { data := data, len := src.length, offset := 0, sockIndex := i,
                isLoginMsg := loginMsg } := by
        rw [TxPacket.fillPacket, hdata]
        rfl
      dsimp only
      rw [hfill]
      refine ⟨_, rfl, h.line, h.login, h.loginFilled, ?_, h.toCome, h.inOrder⟩
      intro q hq
      rw [← BuilderHand.filled.inj hq]
    | idle | filled p => exact ⟨a, rfl, h⟩
  · rw [step]
    cases hb : a.builder with
    | filled p =>
      refine ⟨_, rfl, h.line, h.login, h.loginFilled, by simp, ?_, fun i => ?_⟩
      · intro q hq
        change q ∈ a.sender.packets ++ (a.queue.push p).items at hq
        rcases mem_append.mp hq with hq | hq
        · exact h.toCome q (mem_append_left _ hq)
        · rcases BoundedQueue.mem_drop_push (k := 0) (Nat.zero_le _) hq with hq | rfl
          · exact h.toCome q (mem_append_right _ hq)
          · exact h.filled q hb
      · show _ ++ (a.sender.packets ++ (a.queue.push p).items).filter _ <+
          (a.pushed ++ [p]).filter _
        -- a full queue loses the packet
        have hpush : (a.queue.push p).items <+ a.queue.items ++ [p] := by
          by_cases hroom : a.queue.items.length < packetQueueCapacity
          · rw [BoundedQueue.items_push hroom]
          · rw [BoundedQueue.items_push_full hroom]
            exact sublist_append_left _ _
        have hcome : a.sender.packets ++ (a.queue.push p).items <+ a.toCome ++ [p] := by
          rw [DirectTx.toCome, append_assoc]
          exact (Sublist.refl _).append hpush
        refine ((Sublist.refl _).append (hcome.filter _)).trans ?_
        rw [filter_append, filter_append, ← append_assoc]
        exact (h.inOrder i).append (Sublist.refl _)
    | idle | got p => exact ⟨a, rfl, h⟩

theorem lined_pop (h : a.Lined) : ∃ b, a.step (.pop, slot) = .ok b ∧ b.Lined := by
  rw [step]
  split
  · rename_i p rest hidle hitems
    have htoCome : toCome { a with sender := .popped p, queue := a.queue.tail } = a.toCome := by
      show [p] ++ a.queue.items.tail = a.sender.packets ++ a.queue.items
      rw [hidle, hitems]
      rfl
    refine ⟨_, rfl, h.line, by simp, by simp, h.filled, ?_, ?_⟩
    · rw [htoCome]
      exact h.toCome
    · rw [htoCome]
      exact h.inOrder
  · exact ⟨a, rfl, h⟩

theorem lined_trySend {os : List SendResult} (h : a.Lined) (hord : a.Orderly (.trySend os)) :
    ∃ b, a.step (.trySend os, slot) = .ok b ∧ b.Lined := by
  rw [step]
  cases hs : a.sender with
  | popped p =>
    dsimp only
    have htoCome : a.toCome = p :: a.queue.items := by
      rw [DirectTx.toCome, hs]
      rfl
    have hfor : a.toCome.filter (isFor p.sockIndex) =
        p :: a.queue.items.filter (isFor p.sockIndex) := by
      rw [htoCome, filter_cons_of_pos (by simp [isFor])]
    by_cases hclosed : (a.lines p.sockIndex).session.closed = true
    · rw [if_pos hclosed]
      refine ⟨_, rfl, h.line, by simp, by simp, h.filled, ?_, fun i => ?_⟩
      · intro q hq
        exact h.toCome q (mem_append_right _ hq)
      · refine Sublist.trans ?_ (h.inOrder i)
        exact (Sublist.refl _).append ((sublist_append_right _ _).filter _)
    · rw [if_neg hclosed]
      have hopen : (a.lines p.sockIndex).session.closed = false := by simpa using hclosed
      have hoffset : p.offset = 0 := h.toCome p (by rw [htoCome]; exact mem_cons_self)
      have hline := (h.line p.sockIndex).trySend ⟨p, hoffset⟩ os hopen
        fun hpend hactive hmay => hord p hs hopen hpend hactive hmay
      refine ⟨_, rfl, lined_setLine h hline ?_ (by simp) rfl ?_⟩
      · intro i q hi
        exact absurd hi (by simp)
      · rw [hfor]
        dsimp only
        split
        · rw [append_assoc]
          exact Sublist.refl _
        · exact (Sublist.refl _).append (sublist_cons_self _ _)
  | idle | loginGot | loginFilled => exact ⟨a, rfl, h⟩

theorem lined_login {m : TxMove} (h : a.Lined) (hord : a.Orderly m) (hfits : m.Fits)
    (hm : (∃ msg, m = .loginFill msg) ∨ ∃ os, m = .loginSend os) :
    ∃ b, a.step (m, slot) = .ok b ∧ b.Lined := by
  rcases hm with ⟨msg, rfl⟩ | ⟨os, rfl⟩
  · rw [step]
    cases hs : a.sender with
    | loginGot i p =>
      have hlen : 0 + msg.length ≤ packetSize := (Nat.zero_add _).trans_le hfits
      obtain ⟨data, hdata, -⟩ := writeAt_of_le p.data 0 msg hlen
      have hfill : loginAttempt p msg i =
          .ok { p with data := data, len := msg.length, sockIndex := i, isLoginMsg := true } := by
        rw [loginAttempt, hdata]
        rfl
      have htoCome : a.toCome = a.queue.items := by
        rw [DirectTx.toCome, hs]
        rfl
      dsimp only
      rw [hfill]
      refine ⟨_, rfl, h.line, ?_, ?_, h.filled, ?_, ?_⟩
      · intro j q hj
        have hij : i = j := by
          rcases hj with hj | hj
          · exact absurd hj (by simp)
          · exact (SenderHand.loginFilled.inj hj).1
        exact hij ▸ h.login i p (.inl hs)
      · intro j q hj
        rw [← (SenderHand.loginFilled.inj hj).2]
        exact hord i p hs
      · rw [htoCome] at *
        intro q hq
        exact h.toCome q (mem_append_right _ hq)
      · intro j
        have hj := h.inOrder j
        rw [htoCome] at hj
        exact hj
    | idle | popped | loginFilled => exact ⟨a, rfl, h⟩
  · rw [step]
    cases hs : a.sender with
    | loginFilled i p =>
      have hline := (h.line i).loginSend (h.login i p (.inr hs)) (h.loginFilled i p hs) os
      refine ⟨_, rfl, lined_setLine h hline ?_ (by simp) rfl ?_⟩
      · intro j q hj
        exact absurd hj (by simp)
      · rw [DirectTx.toCome, hs]
        exact Sublist.refl _
    | idle | popped | loginGot => exact ⟨a, rfl, h⟩

theorem lined_epollout {os : List SendResult} (h : a.Lined) :
    ∃ b, a.step (.epollout index os, slot) = .ok b ∧ b.Lined := by
  rw [step]
  cases hs : a.sender with
  | idle =>
    dsimp only
    by_cases hcond : (a.lines index).session.isEpolloutSet = true ∧
        (a.lines index).session.connectionPending = false
    · rw [if_pos hcond]
      obtain ⟨session, hres, hline⟩ := (h.line index).resume os hcond.1 hcond.2
      exact ⟨_, by rw [hres]; rfl, lined_setSession h hs hline⟩
    · rw [if_neg hcond]
      exact ⟨a, rfl, h⟩
  | popped | loginGot | loginFilled => exact ⟨a, rfl, h⟩

theorem lined_setupSocket {inProgress : Bool} (h : a.Lined) :
    ∃ b, a.step (.setupSocket index inProgress, slot) = .ok b ∧ b.Lined := by
  rw [step]
  cases hs : a.sender with
  | idle =>
    dsimp only
    have hopen := lined_reopened h hs index
    have hline : (a.reopened index).lines index =
        { session := { (a.lines index).session.closeSocket with closed := false, wire := [] }
          index := index
          opened := true } := Function.update_self _ _ _
    cases inProgress with
    | true =>
      refine ⟨_, rfl, lined_setSession hopen hs ?_⟩
      rw [hline]
      exact Outbound.lined_reopened (a.lines index).session index true
    | false =>
      refine ⟨_, rfl, lined_beginLogin hopen hs ?_⟩
      rw [hline]
      exact ⟨rfl, rfl, rfl, rfl, rfl⟩
  | popped | loginGot | loginFilled => exact ⟨a, rfl, h⟩

theorem lined_connectionMade (h : a.Lined) :
    ∃ b, a.step (.connectionMade index, slot) = .ok b ∧ b.Lined := by
  rw [step]
  cases hs : a.sender with
  | idle =>
    dsimp only
    by_cases hpend : (a.lines index).session.connectionPending = true
    · rw [if_pos hpend]
      obtain ⟨hline, hat⟩ := (h.line index).connected hpend
      have hset := lined_setSession h hs hline
      refine ⟨_, rfl, lined_beginLogin hset hs ?_⟩
      show (Function.update a.lines index _ index).AtLogin
      rw [Function.update_self]
      exact hat
    · rw [if_neg hpend]
      exact ⟨a, rfl, h⟩
  | popped | loginGot | loginFilled => exact ⟨a, rfl, h⟩

/-- Another thread changes what is known of the session. -/
theorem lined_sessionState (h : a.Lined) (loggedIn : Bool) (loginRetryCount : ℕ) :
    Lined (a.setSession index
      { (a.lines index).session with
        loggedIn := loggedIn, loginRetryCount := loginRetryCount }) := by
  refine ⟨fun i => ?_, fun i p hi => ?_, h.loginFilled, h.filled, h.toCome, fun i => ?_⟩
  · show (Function.update a.lines index _ i).Lined
    by_cases hindex : i = index
    · subst hindex
      rw [Function.update_self]
      exact (h.line i).sessionState loggedIn loginRetryCount
    · rw [Function.update_of_ne hindex]
      exact h.line i
  · have hat := h.login i p hi
    show (Function.update a.lines index _ i).AtLogin
    by_cases hindex : i = index
    · subst hindex
      rw [Function.update_self]
      exact ⟨hat.closed, hat.connectionPending, hat.wire, hat.login, hat.activePkt⟩
    · rw [Function.update_of_ne hindex]
      exact hat
  · have hacc : (Function.update a.lines index
        { a.lines index with
          session := { (a.lines index).session with
            loggedIn := loggedIn, loginRetryCount := loginRetryCount } } i).accepted =
        (a.lines i).accepted := by
      by_cases hindex : i = index
      · subst hindex
        rw [Function.update_self]
      · rw [Function.update_of_ne hindex]
    show (Function.update a.lines index _ i).accepted ++ _ <+ _
    rw [hacc]
    exact h.inOrder i

/-- **One step.** -/
theorem lined_step {m : TxMove} (h : a.Lined) (hord : a.Orderly m) (hfits : m.Fits) :
    ∃ b, a.step (m, slot) = .ok b ∧ b.Lined := by
  cases m with
  | getTxPkt => exact lined_builder h hfits (.inl rfl)
  | fillPacket src i loginMsg => exact lined_builder h hfits (.inr (.inl ⟨src, i, loginMsg, rfl⟩))
  | push => exact lined_builder h hfits (.inr (.inr rfl))
  | pop => exact lined_pop h
  | trySend os => exact lined_trySend h hord
  | epollout i os => exact lined_epollout h
  | setupSocket i inProgress => exact lined_setupSocket h
  | connectionMade i => exact lined_connectionMade h
  | loginFill msg => exact lined_login h hord hfits (.inl ⟨msg, rfl⟩)
  | loginSend os => exact lined_login h hord hfits (.inr ⟨os, rfl⟩)
  | closeSocket i =>
    rw [step]
    cases hs : a.sender with
    | idle => exact ⟨_, rfl, lined_setSession h hs (h.line i).closeSocket⟩
    | popped | loginGot | loginFilled => exact ⟨a, rfl, h⟩
  | sessionState i loggedIn loginRetryCount =>
    exact ⟨_, rfl, lined_sessionState h loggedIn loginRetryCount⟩

end DirectTx

/-! ### Runs -/

namespace TxSystem

variable {s : TxSystem} {a : DirectTx} {m : TxMove}

/-- No packet is sent past those that wait, and the packet a login is built in has no offset
left from before. -/
def Orderly (s : TxSystem) : TxMove → Prop
  | .trySend _ =>
    ∀ t, s.sender = .popped t →
      let session := s.sessions (lookUp s.pool t).sockIndex
      session.closed = false → session.connectionPending = false → session.activePkt = none →
        session.loggedIn = true ∨ (lookUp s.pool t).isLoginMsg = true →
          session.pendWrite.items = []
  | .loginFill _ => ∀ index t, s.sender = .loginGot index t → (lookUp s.pool t).offset = 0
  | _ => True

theorem Shows.orderly (h : s.Shows a) (hm : s.Orderly m) : a.Orderly m := by
  cases m with
  | trySend os =>
    intro p hp
    rw [h.sender] at hp
    cases hs : s.sender with
    | popped t =>
      rw [hs] at hp
      obtain rfl := SenderHand.popped.inj hp
      have hview := h.sessions (lookUp s.pool t).sockIndex
      intro session hclosed hpend hactive hmay
      have hpool := hm t hs (hview.closed.symm.trans hclosed)
        (hview.connectionPending.symm.trans hpend)
        (Option.map_eq_none_iff.mp (hview.activePkt.symm.trans hactive))
        (hmay.imp_left hview.loggedIn.symm.trans)
      rw [hview.pendWrite, hpool]
      rfl
    | idle | loginGot | loginFilled =>
      rw [hs] at hp
      exact absurd hp (by simp [SenderPc.shown])
  | loginFill msg =>
    intro index p hp
    rw [h.sender] at hp
    cases hs : s.sender with
    | loginGot i t =>
      rw [hs] at hp
      obtain ⟨-, rfl⟩ := SenderHand.loginGot.inj hp
      exact hm i t hs
    | idle | popped | loginFilled =>
      rw [hs] at hp
      exact absurd hp (by simp [SenderPc.shown])
  | _ => trivial

/-- The pool, with the packets themselves beside it. -/
structure Follows (s : TxSystem) (a : DirectTx) : Prop where
  tidy : s.Tidy
  shows : s.Shows a
  lined : a.Lined

/-- **One step** succeeds, and so does the step on the packets themselves. -/
theorem follows_step (h : s.Follows a) (hm : s.Spaced m ∧ s.Orderly m ∧ m.Fits) :
    ∃ s' b, s.step m = .ok s' ∧ a.step (m, s.slot) = .ok b ∧ s'.Follows b := by
  obtain ⟨hspaced, hord, hfits⟩ := hm
  have hnext : ∃ b, a.step (m, s.slot) = .ok b ∧ b.Lined :=
    DirectTx.lined_step h.lined (h.shows.orderly hord) hfits
  obtain ⟨b, hb, hlined⟩ := hnext
  have hboth := shows_step h.tidy h.shows m
  rw [hb] at hboth
  obtain ⟨s', hs', hshows⟩ := hboth.exists_ok
  exact ⟨s', b, hs', hb, tidy_step h.tidy hspaced hs', hshows, hlined⟩

end TxSystem

theorem DirectTx.lined_initial : DirectTx.initial.Lined := by
  refine ⟨fun index => ⟨⟨?_, ?_, ?_, ?_, ?_, ?_⟩, rfl, fun _ => rfl⟩, ?_, ?_, ?_, ?_, fun _ => ?_⟩
  · exact List.nil_prefix
  · intro hopen
    exact absurd hopen (by simp [initial, SendSession.noSocket])
  · intro p hp
    exact absurd hp not_mem_nil
  · intro harmed
    exact absurd harmed (by simp [initial, SendSession.noSocket])
  · rintro (hw | hw)
    · exact absurd hw (by simp [initial])
    · exact absurd hw (by simp [initial, SendSession.noSocket])
  · intro hopened
    exact absurd hopened (by simp [initial])
  · intro index p hp
    exact absurd hp (by simp [initial])
  · intro index p hp
    exact absurd hp (by simp [initial])
  · intro p hp
    exact absurd hp (by simp [initial])
  · intro p hp
    exact absurd hp not_mem_nil
  · exact Sublist.refl _

/-- **Every session sends in order from the pool.**  In every run in which `get_txPkt` hands out
no packet in use, no packet is sent past those that wait and no login is built in a packet with
an offset, nothing faults.  What a socket carried is the beginning of the login message and
of the packets the session accepted, and these are packets that the builder pushed for this
session, as it filled them, in the order in which it pushed them.  As long as the socket
is open, what is missing is the rest of the active packet and the packets that wait. -/
theorem pooled_stream {moves : List TxMove}
    (hmoves : Along TxSystem.step (fun s m => s.Spaced m ∧ s.Orderly m ∧ m.Fits) .initial moves) :
    ∃ s a, exec TxSystem.step .initial moves = .ok s ∧
      exec DirectTx.step .initial (TxSystem.byValue moves) = .ok a ∧ s.Shows a ∧
      ∀ index, ∃ sent,
        (s.sessions index).wire = a.before index ++ sent ∧
        sent <+: (a.lines index).login ++ (a.lines index).accepted.flatMap TxPacket.bytes ∧
        (a.lines index).accepted <+ a.pushed.filter (isFor index) ∧
        ((s.sessions index).closed = false →
          sent ++ Outbound.unsent (a.lines index).session =
            (a.lines index).login ++ (a.lines index).accepted.flatMap TxPacket.bytes) := by
  have hstart : TxSystem.initial.Follows .initial :=
    ⟨TxSystem.tidy_initial, TxSystem.shows_initial, DirectTx.lined_initial⟩
  obtain ⟨s, a, hrun, hrun', h⟩ := exec_of_matched
    (fun s a m h hm => TxSystem.follows_step h hm) hstart hmoves
  refine ⟨s, a, hrun, hrun', h.shows, fun index => ⟨(a.lines index).session.wire, ?_, ?_, ?_, ?_⟩⟩
  · exact (h.shows.sessions index).wire
  · exact (h.lined.line index).streams.wire
  · exact (sublist_append_left _ _).trans (h.lined.inOrder index)
  · intro hopen
    exact (h.lined.line index).streams.stream ((h.shows.sessions index).closed.trans hopen)

/-! ### A login and an order -/

instance (c : SenderPc) (P : ℕ → Prop) [DecidablePred P] :
    Decidable (∀ t, c = .popped t → P t) :=
  match c with
  | .popped t =>
    decidable_of_iff (P t) ⟨fun h _ hu => SenderPc.popped.inj hu ▸ h, fun h => h t rfl⟩
  | .idle => .isTrue fun _ h => absurd h (by simp)
  | .loginGot _ _ => .isTrue fun _ h => absurd h (by simp)
  | .loginFilled _ _ => .isTrue fun _ h => absurd h (by simp)

instance (c : SenderPc) (P : ℕ → Prop) [DecidablePred P] :
    Decidable (∀ i t, c = .loginGot i t → P t) :=
  match c with
  | .loginGot i t =>
    decidable_of_iff (P t) ⟨fun h _ _ hu => (SenderPc.loginGot.inj hu).2 ▸ h, fun h => h i t rfl⟩
  | .idle => .isTrue fun _ _ h => absurd h (by simp)
  | .popped _ => .isTrue fun _ _ h => absurd h (by simp)
  | .loginFilled _ _ => .isTrue fun _ _ h => absurd h (by simp)

instance (s : TxSystem) (m : TxMove) : Decidable (s.Orderly m) :=
  match m with
  | .trySend _ =>
    inferInstanceAs (Decidable (∀ t, s.sender = .popped t →
      (s.sessions (lookUp s.pool t).sockIndex).closed = false →
        (s.sessions (lookUp s.pool t).sockIndex).connectionPending = false →
          (s.sessions (lookUp s.pool t).sockIndex).activePkt = none →
            (s.sessions (lookUp s.pool t).sockIndex).loggedIn = true ∨
                (lookUp s.pool t).isLoginMsg = true →
              (s.sessions (lookUp s.pool t).sockIndex).pendWrite.items = []))
  | .loginFill _ =>
    inferInstanceAs (Decidable (∀ i t, s.sender = .loginGot i t → (lookUp s.pool t).offset = 0))
  | .getTxPkt | .fillPacket _ _ _ | .push | .pop | .epollout _ _ | .setupSocket _ _
  | .connectionMade _ | .loginSend _ | .closeSocket _ | .sessionState _ _ _ => .isTrue trivial

instance (m : TxMove) : Decidable m.Fits :=
  match m with
  | .fillPacket src _ _ => inferInstanceAs (Decidable (src.length ≤ packetSize))
  | .loginFill msg => inferInstanceAs (Decidable (msg.length ≤ packetSize))
  | .getTxPkt | .push | .pop | .trySend _ | .epollout _ _ | .setupSocket _ _
  | .connectionMade _ | .loginSend _ | .closeSocket _ | .sessionState _ _ _ => .isTrue trivial

/-- The login and the order are sent in this order. -/
theorem pooled_stream_login_and_order :
    ∃ s, exec TxSystem.step .initial loginAndOrder = .ok s ∧
      (s.sessions 0).wire = [0x4C, 0x41] := by
  have hspaced : Along TxSystem.step TxSystem.Spaced .initial loginAndOrder :=
    TxSystem.spaced_of_length (by decide)
  have horderly : Along TxSystem.step (fun s m => s.Orderly m ∧ m.Fits) .initial loginAndOrder := by
    decide +kernel
  obtain ⟨s, a, hrun, -, -, -⟩ := pooled_stream (along_and hspaced horderly)
  have hwire : (exec TxSystem.step .initial loginAndOrder).map (fun s => (s.sessions 0).wire) =
      .ok [0x4C, 0x41] := rfl
  rw [hrun] at hwire
  exact ⟨s, hrun, Except.ok.inj hwire⟩

end TradingEngine
