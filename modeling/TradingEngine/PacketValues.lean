/-
Packets handed over by value.

`DirectTx` is what the pool is there to save copies for: the builder hands the packets
themselves to the network thread, and each session is an `Outbound` of its own.  It keeps what
the builder pushed, and what went over the earlier sockets of a session.  What `get_txPkt`
finds in the packet it hands out is given with the step.

* `TxSystem.shows_step` — as long as `get_txPkt` hands out no packet in use, a step on the
  pool is the step on the packets themselves;
* `pool_is_transparent` — so is every run: both end in the same fault, or the sessions of the
  one are those of the other.
-/
import TradingEngine.MatchedRun
import TradingEngine.PacketPlaces
import TradingEngine.SendStream

namespace TradingEngine

open FallibleRun List

/-! ### The packets themselves -/

/-- The builder, with the packet in its hands. -/
inductive BuilderHand
  | idle
  | got (pkt : TxPacket)
  | filled (pkt : TxPacket)

/-- The network thread, with the packet in its hands. -/
inductive SenderHand
  | idle
  | popped (pkt : TxPacket)
  | loginGot (index : UInt8) (pkt : TxPacket)
  | loginFilled (index : UInt8) (pkt : TxPacket)

/-- The two threads, with packets that nobody else has.  `before` is what went over the sockets
a session had before this one. -/
structure DirectTx where
  queue : BoundedQueue TxPacket packetQueueCapacity := .empty
  builder : BuilderHand := .idle
  sender : SenderHand := .idle
  lines : UInt8 → Outbound
  before : UInt8 → List UInt8 := fun _ => []
  pushed : List TxPacket := []

namespace DirectTx

def setLine (a : DirectTx) (index : UInt8) (o : Outbound) : DirectTx :=
  { a with lines := Function.update a.lines index o }

/-- A session on a new socket. -/
def reopened (a : DirectTx) (index : UInt8) : DirectTx :=
  let session := (a.lines index).session
  { a.setLine index
      { session := { session.closeSocket with closed := false, wire := [] }
        index := index
        opened := true } with
    before := Function.update a.before index (a.before index ++ session.wire) }

/-- The session `index` becomes `session`. -/
def setSession (a : DirectTx) (index : UInt8) (session : SendSession TxPacket) : DirectTx :=
  a.setLine index { a.lines index with session := session }

/-- The login of a connected session, up to `get_txPkt`. -/
def beginLogin (a : DirectTx) (slot : TxPacket) (index : UInt8) : DirectTx :=
  let session := (a.lines index).session
  match session.loginDecider with
  | .alreadyLoggedIn => a
  | .disconnect => a.setSession index session.closeSocket
  | .tryAgain =>
    { a.setSession index { session with loginRetryCount := session.loginRetryCount + 1 } with
      sender := .loginGot index slot }

/-- A step, with what the next packet of `get_txPkt` holds. -/
def step (a : DirectTx) : TxMove × TxPacket → Except Fault DirectTx
  | (.getTxPkt, slot) =>
    match a.builder with
    | .idle => .ok { a with builder := .got slot }
    | _ => .ok a
  | (.fillPacket src index loginMsg, _) =>
    match a.builder with
    | .got p => do
      let pkt ← p.fillPacket src index loginMsg
      .ok { a with builder := .filled pkt }
    | _ => .ok a
  | (.push, _) =>
    match a.builder with
    | .filled p =>
      .ok { a with
        queue := a.queue.push p
        builder := .idle
        pushed := a.pushed ++ [p] }
    | _ => .ok a
  | (.pop, _) =>
    match a.sender, a.queue.items with
    | .idle, p :: _ => .ok { a with sender := .popped p, queue := a.queue.tail }
    | _, _ => .ok a
  | (.trySend os, _) =>
    match a.sender with
    | .popped p =>
      let o := a.lines p.sockIndex
      if o.session.closed then .ok { a with sender := .idle }
      else
        let r := o.session.trySend .byValue () p os
        .ok { a.setLine p.sockIndex
            { o with
              session := r.2.2
              accepted := if r.2.1 then o.accepted ++ [p] else o.accepted } with
          sender := .idle }
    | _ => .ok a
  | (.epollout index os, _) =>
    let session := (a.lines index).session
    match a.sender with
    | .idle =>
      if session.isEpolloutSet = true ∧ session.connectionPending = false then do
        let r ← session.resume .byValue () os
        .ok (a.setSession index r.2)
      else .ok a
    | _ => .ok a
  | (.setupSocket index inProgress, slot) =>
    match a.sender with
    | .idle =>
      let a := a.reopened index
      if inProgress then
        .ok (a.setSession index { (a.lines index).session with connectionPending := true })
      else .ok (a.beginLogin slot index)
    | _ => .ok a
  | (.connectionMade index, slot) =>
    match a.sender with
    | .idle =>
      if (a.lines index).session.connectionPending = true then
        .ok ((a.setSession index (a.lines index).session.connected).beginLogin slot index)
      else .ok a
    | _ => .ok a
  | (.loginFill msg, _) =>
    match a.sender with
    | .loginGot index p => do
      let pkt ← loginAttempt p msg index
      .ok { a with sender := .loginFilled index pkt }
    | _ => .ok a
  | (.loginSend os, _) =>
    match a.sender with
    | .loginFilled index p =>
      let o := a.lines index
      .ok { a.setLine index
          { o with session := (o.session.send .byValue () p os).2.1, login := p.bytes } with
        sender := .idle }
    | _ => .ok a
  | (.closeSocket index, _) =>
    match a.sender with
    | .idle => .ok (a.setSession index (a.lines index).session.closeSocket)
    | _ => .ok a
  | (.sessionState index loggedIn loginRetryCount, _) =>
    .ok (a.setSession index
      { (a.lines index).session with loggedIn := loggedIn, loginRetryCount := loginRetryCount })

/-- Nothing was pushed and no session has a socket. -/
def start (lines : UInt8 → Outbound) : DirectTx := { lines := lines }

end DirectTx

/-! ### A session on the pool and on the packets -/

/-- The packet that the number stands for. -/
def lookUp (pool : PacketPool) (t : ℕ) : TxPacket := pool (poolSlot t)

theorem byPool_pkt (pool : PacketPool) (t : ℕ) : TxAccess.byPool.pkt pool t = lookUp pool t := rfl

theorem byValue_pkt (p : TxPacket) : TxAccess.byValue.pkt () p = p := rfl

namespace SendSession

/-- `v` has the packets themselves, and the bytes of this socket only. -/
structure Viewed (pool : PacketPool) (before : List UInt8) (s : SendSession ℕ)
    (v : SendSession TxPacket) : Prop where
  pendWrite : v.pendWrite.items = s.pendWrite.items.map (lookUp pool)
  activePkt : v.activePkt = s.activePkt.map (lookUp pool)
  isEpolloutSet : v.isEpolloutSet = s.isEpolloutSet
  connectionPending : v.connectionPending = s.connectionPending
  loggedIn : v.loggedIn = s.loggedIn
  loginRetryCount : v.loginRetryCount = s.loginRetryCount
  closed : v.closed = s.closed
  wire : s.wire = before ++ v.wire

variable {pool pool' : PacketPool} {before : List UInt8} {s : SendSession ℕ}
  {v : SendSession TxPacket} {t : ℕ}

theorem Viewed.congr (h : Viewed pool before s v)
    (hsame : ∀ u ∈ s.tokens, lookUp pool' u = lookUp pool u) : Viewed pool' before s v := by
  refine { h with pendWrite := ?_, activePkt := ?_ }
  · rw [h.pendWrite]
    refine map_congr_left ?_
    intro u hu
    exact (hsame u (mem_append_right _ hu)).symm
  · rw [h.activePkt]
    cases hactive : s.activePkt with
    | none => rfl
    | some u =>
      have hmem : u ∈ s.tokens := by
        rw [tokens, hactive]
        exact mem_cons_self
      exact congrArg some (hsame u hmem).symm

theorem Viewed.full (h : Viewed pool before s v) : v.pendWrite.full = s.pendWrite.full := by
  have hlen : v.pendWrite.size = s.pendWrite.size := by
    rw [← RingBuffer.length_items, ← RingBuffer.length_items, h.pendWrite, length_map]
  rw [Bool.eq_iff_iff, RingBuffer.full_iff, RingBuffer.full_iff, hlen]

theorem Viewed.loginDecider (h : Viewed pool before s v) :
    v.loginDecider = s.loginDecider := by
  rw [SendSession.loginDecider, SendSession.loginDecider, h.loggedIn, h.loginRetryCount]

theorem Viewed.closeSocket (h : Viewed pool before s v) :
    Viewed pool before s.closeSocket v.closeSocket := by
  refine ⟨?_, rfl, rfl, rfl, rfl, rfl, rfl, h.wire⟩
  rw [items_closeSocket, items_closeSocket]
  rfl

theorem Viewed.reopened (h : Viewed pool before s v) :
    Viewed pool (before ++ v.wire) { s.closeSocket with closed := false }
      { v.closeSocket with closed := false, wire := [] } := by
  refine ⟨h.closeSocket.pendWrite, rfl, rfl, rfl, rfl, rfl, rfl, ?_⟩
  rw [append_nil]
  exact h.wire

/-- Sending changes the offset of the packet, and nobody else has it. -/
theorem Viewed.send (h : Viewed pool before s v) (os : List SendResult)
    (hapart : ∀ u ∈ s.pendWrite.items, poolSlot u ≠ poolSlot t) :
    Viewed (s.send .byPool pool t os).1 before (s.send .byPool pool t os).2.1
        (v.send .byValue () (lookUp pool t) os).2.1 ∧
      (v.send .byValue () (lookUp pool t) os).2.2 = (s.send .byPool pool t os).2.2 ∧
      ∀ k, k ≠ poolSlot t → (s.send .byPool pool t os).1 k = pool k := by
  let out := sendLoop (lookUp pool t) (lookUp pool t).offset os
  have hpool : (s.send .byPool pool t os).1 =
      Function.update pool (poolSlot t) { lookUp pool t with offset := out.offset } := rfl
  refine ⟨⟨?_, ?_, ?_, h.connectionPending, h.loggedIn, h.loginRetryCount, h.closed, ?_⟩, rfl, ?_⟩
  · rw [hpool]
    refine h.pendWrite.trans (map_congr_left ?_)
    intro u hu
    exact (Function.update_of_ne (hapart u hu) _ _).symm
  · rw [hpool]
    show (if out.blocked then some _ else none) =
      (if out.blocked then some t else none).map (lookUp _)
    cases out.blocked with
    | true => exact congrArg some (Function.update_self (poolSlot t) _ pool).symm
    | false => rfl
  · exact congrArg (· || out.blocked) h.isEpolloutSet
  · show s.wire ++ out.written = before ++ (v.wire ++ out.written)
    rw [h.wire, append_assoc]
  · intro k hk
    rw [hpool]
    exact Function.update_of_ne hk _ _

theorem Viewed.enqueue (h : Viewed pool before s v) (t : ℕ) :
    Viewed pool before (s.enqueue t).2 (v.enqueue (lookUp pool t)).2 ∧
      (v.enqueue (lookUp pool t)).1 = (s.enqueue t).1 := by
  refine ⟨{ h with pendWrite := ?_ }, congrArg (!·) h.full⟩
  show (v.pendWrite.push _).items = (s.pendWrite.push t).items.map _
  cases hfull : s.pendWrite.full with
  | true =>
    rw [RingBuffer.push, if_pos (h.full.trans hfull), RingBuffer.push, if_pos hfull]
    exact h.pendWrite
  | false =>
    rw [RingBuffer.items_push (h.full.trans hfull), RingBuffer.items_push hfull, h.pendWrite,
      map_append]
    rfl

theorem Viewed.trySend (h : Viewed pool before s v) (os : List SendResult)
    (hapart : ∀ u ∈ s.pendWrite.items, poolSlot u ≠ poolSlot t) :
    Viewed (s.trySend .byPool pool t os).1 before (s.trySend .byPool pool t os).2.2
        (v.trySend .byValue () (lookUp pool t) os).2.2 ∧
      (v.trySend .byValue () (lookUp pool t) os).2.1 = (s.trySend .byPool pool t os).2.1 ∧
      ∀ k, k ≠ poolSlot t → (s.trySend .byPool pool t os).1 k = pool k := by
  have hsome : v.activePkt.isSome = s.activePkt.isSome := by
    rw [h.activePkt, Option.isSome_map]
  rw [SendSession.trySend, SendSession.trySend, h.connectionPending, h.loggedIn, hsome, byPool_pkt,
    byValue_pkt]
  by_cases hpend : s.connectionPending = true
  · rw [if_pos hpend, if_pos hpend]
    exact ⟨(h.enqueue t).1, (h.enqueue t).2, fun _ _ => rfl⟩
  · rw [if_neg hpend, if_neg hpend]
    by_cases hdrop : s.loggedIn = false ∧ (lookUp pool t).isLoginMsg = false
    · rw [if_pos hdrop, if_pos hdrop]
      exact ⟨h, rfl, fun _ _ => rfl⟩
    · rw [if_neg hdrop, if_neg hdrop]
      by_cases hactive : s.activePkt.isSome = true
      · rw [if_pos hactive, if_pos hactive]
        exact ⟨(h.enqueue t).1, (h.enqueue t).2, fun _ _ => rfl⟩
      · rw [if_neg hactive, if_neg hactive]
        obtain ⟨hview, -, hpool⟩ := h.send os hapart
        exact ⟨hview, rfl, hpool⟩

/-- The packets that wait are sent one after the other; each has a slot of its own. -/
theorem Viewed.flush (fuel : ℕ) (h : Viewed pool before s v) (os : List SendResult)
    (hapart : (s.pendWrite.items.map poolSlot).Nodup) :
    Viewed (s.flush .byPool fuel pool os).1 before (s.flush .byPool fuel pool os).2
        (v.flush .byValue fuel () os).2 ∧
      ∀ k, k ∉ s.pendWrite.items.map poolSlot → (s.flush .byPool fuel pool os).1 k = pool k := by
  induction fuel generalizing pool s v os with
  | zero => exact ⟨h, fun _ _ => rfl⟩
  | succ fuel ih =>
    have hsome : v.activePkt.isSome = s.activePkt.isSome := by
      rw [h.activePkt, Option.isSome_map]
    rw [SendSession.flush, SendSession.flush, hsome]
    by_cases hactive : s.activePkt.isSome = true
    · rw [if_pos hactive, if_pos hactive]
      exact ⟨h, fun _ _ => rfl⟩
    · rw [if_neg hactive, if_neg hactive]
      cases hpop : s.pendWrite.pop with
      | none =>
        have hnone : v.pendWrite.pop = none := by
          rw [RingBuffer.pop_eq_none_iff, h.pendWrite, RingBuffer.pop_eq_none_iff.mp hpop, map_nil]
        rw [hnone]
        exact ⟨h, fun _ _ => rfl⟩
      | some r =>
        obtain ⟨t, q⟩ := r
        have hitems := RingBuffer.items_pop hpop
        have hview := h.pendWrite
        rw [hitems, map_cons] at hview
        rw [hitems, map_cons, nodup_cons] at hapart
        cases hpop' : v.pendWrite.pop with
        | none =>
          rw [RingBuffer.pop_eq_none_iff.mp hpop'] at hview
          exact absurd hview (by simp)
        | some r' =>
          obtain ⟨p, q'⟩ := r'
          rw [RingBuffer.items_pop hpop', cons.injEq] at hview
          obtain ⟨rfl, hrest⟩ := hview
          have hsession : Viewed pool before { s with pendWrite := q } { v with pendWrite := q' } :=
            { h with pendWrite := hrest }
          obtain ⟨hsent, hleft, hpool⟩ := hsession.send (t := t) os fun u hu heq =>
            hapart.1 (heq ▸ mem_map_of_mem hu)
          obtain ⟨hflush, hpool'⟩ := ih hsent
            ({ s with pendWrite := q }.send .byPool pool t os).2.2 hapart.2
          dsimp only
          rw [hleft]
          refine ⟨hflush, fun k hk => ?_⟩
          rw [hitems, map_cons, mem_cons, not_or] at hk
          exact (hpool' k hk.2).trans (hpool k hk.1)

theorem Viewed.resume (h : Viewed pool before s v) (os : List SendResult)
    (hapart : (s.tokens.map poolSlot).Nodup) :
    Matches
      (fun (r : PacketPool × SendSession ℕ) (r' : Unit × SendSession TxPacket) =>
        Viewed r.1 before r.2 r'.2 ∧ ∀ k, k ∉ s.tokens.map poolSlot → r.1 k = pool k)
      (s.resume .byPool pool os) (v.resume .byValue () os) := by
  rw [SendSession.resume, SendSession.resume, h.activePkt]
  cases hactive : s.activePkt with
  | none => exact rfl
  | some t =>
    rw [tokens, hactive, Option.toList_some, singleton_append, map_cons, nodup_cons] at hapart
    obtain ⟨hsent, hleft, hpool⟩ := h.send (t := t) os fun u hu heq =>
      hapart.1 (heq ▸ mem_map_of_mem hu)
    obtain ⟨hflush, hpool'⟩ := hsent.flush pendingCapacity
      (s.send .byPool pool t os).2.2 hapart.2
    have hsome := congrArg Option.isSome hflush.activePkt
    rw [Option.isSome_map] at hsome
    show Viewed _ before _ _ ∧ _
    rw [hleft]
    refine ⟨{ hflush with isEpolloutSet := ?_ }, fun k hk => ?_⟩
    · show (_ && _) = (_ && _)
      rw [hflush.isEpolloutSet, hsome]
    · rw [tokens, hactive, Option.toList_some, singleton_append, map_cons, mem_cons, not_or] at hk
      exact (hpool' k hk.2).trans (hpool k hk.1)

end SendSession

/-! ### The pool and the packets -/

def BuilderPc.shown (pool : PacketPool) : BuilderPc → BuilderHand
  | .idle => .idle
  | .got t => .got (lookUp pool t)
  | .filled t => .filled (lookUp pool t)

def SenderPc.shown (pool : PacketPool) : SenderPc → SenderHand
  | .idle => .idle
  | .popped t => .popped (lookUp pool t)
  | .loginGot index t => .loginGot index (lookUp pool t)
  | .loginFilled index t => .loginFilled index (lookUp pool t)

namespace TxSystem

/-- `a` has the packets that `s` has the numbers of. -/
structure Shows (s : TxSystem) (a : DirectTx) : Prop where
  queue : a.queue.items = s.builderToSender.items.map (lookUp s.pool)
  builder : a.builder = s.builder.shown s.pool
  sender : a.sender = s.sender.shown s.pool
  sessions : ∀ index,
    (s.sessions index).Viewed s.pool (a.before index) (a.lines index).session

/-- What `get_txPkt` finds in the packet that it hands out next. -/
def slot (s : TxSystem) : TxPacket := lookUp s.pool s.nextTxPkt

/-- What is known of the pool in every run without a packet handed out in use. -/
structure Tidy (s : TxSystem) : Prop where
  intact : s.Intact
  once : HeldOnce s.heldAt

variable {s s' : TxSystem} {a : DirectTx} {pool : PacketPool} {p q : TxPlace} {t u : ℕ}

/-- Packets at two places have different slots. -/
theorem Tidy.slot_ne (h : s.Tidy) (hp : t ∈ s.heldAt p) (hq : u ∈ s.heldAt q) (hpq : p ≠ q) :
    poolSlot t ≠ poolSlot u := by
  refine poolSlot_ne h.intact (inUse_iff.mpr ⟨p, hp⟩) (inUse_iff.mpr ⟨q, hq⟩) ?_
  rintro rfl
  exact hpq (h.once.place hp hq)

theorem Tidy.slots_nodup (h : s.Tidy) (p : TxPlace) : ((s.heldAt p).map poolSlot).Nodup := by
  refine (nodup_map_iff_inj_on (h.once.nodup p)).mpr ?_
  intro t ht u hu heq
  by_contra hne
  exact poolSlot_ne h.intact (inUse_iff.mpr ⟨p, ht⟩) (inUse_iff.mpr ⟨p, hu⟩) hne heq

/-- Outside `p` no packet in use has changed. -/
def OnlyAt (s : TxSystem) (p : TxPlace) (pool : PacketPool) : Prop :=
  ∀ q, q ≠ p → ∀ t ∈ s.heldAt q, lookUp pool t = lookUp s.pool t

theorem Tidy.onlyAt (h : s.Tidy)
    (hpool : ∀ k, k ∉ (s.heldAt p).map poolSlot → pool k = s.pool k) : s.OnlyAt p pool := by
  intro q hqp t ht
  refine hpool _ ?_
  intro hmem
  obtain ⟨u, hu, heq⟩ := mem_map.mp hmem
  exact h.slot_ne ht hu hqp heq.symm

/-- One packet has changed, and it is at `p`. -/
theorem Tidy.onlyAt_slot (h : s.Tidy) (ht : t ∈ s.heldAt p)
    (hpool : ∀ k, k ≠ poolSlot t → pool k = s.pool k) : s.OnlyAt p pool := by
  refine h.onlyAt ?_
  intro k hk
  refine hpool k ?_
  rintro rfl
  exact hk (mem_map_of_mem ht)

theorem Tidy.onlyAt_update (h : s.Tidy) (ht : t ∈ s.heldAt p) (pkt : TxPacket) :
    s.OnlyAt p (Function.update s.pool (poolSlot t) pkt) :=
  h.onlyAt_slot ht fun _ hk => Function.update_of_ne hk _ _

/-- What waits in a session is apart from the packet that the network thread has. -/
theorem Tidy.slot_ne_waiting (h : s.Tidy) (ht : t ∈ s.heldAt .sender) (index : UInt8) :
    ∀ u ∈ (s.sessions index).pendWrite.items, poolSlot u ≠ poolSlot t := by
  intro u hu
  have hmem : u ∈ s.heldAt (.session index) := mem_append_right _ hu
  exact h.slot_ne hmem ht (by simp)

theorem lookUp_update (pool : PacketPool) (t : ℕ) (pkt : TxPacket) :
    lookUp (Function.update pool (poolSlot t) pkt) t = pkt := Function.update_self _ _ _

section Changed

variable (h : s.Shows a) (hpool : s.OnlyAt p pool)

include h hpool

theorem Shows.queue_of (hp : p ≠ .queue) :
    a.queue.items = s.builderToSender.items.map (lookUp pool) :=
  h.queue.trans (map_congr_left fun t ht => (hpool .queue hp.symm t ht).symm)

theorem Shows.builder_of (hp : p ≠ .builder) : a.builder = s.builder.shown pool := by
  rw [h.builder]
  have hsame := hpool .builder hp.symm
  cases hb : s.builder with
  | idle => rfl
  | got t => exact congrArg BuilderHand.got (hsame t (by simp [heldAt, hb, BuilderPc.tokens])).symm
  | filled t =>
    exact congrArg BuilderHand.filled (hsame t (by simp [heldAt, hb, BuilderPc.tokens])).symm

theorem Shows.sender_of (hp : p ≠ .sender) : a.sender = s.sender.shown pool := by
  rw [h.sender]
  have hsame := hpool .sender hp.symm
  cases hs : s.sender with
  | idle => rfl
  | popped t =>
    exact congrArg SenderHand.popped (hsame t (by simp [heldAt, hs, SenderPc.tokens])).symm
  | loginGot index t =>
    exact congrArg (SenderHand.loginGot index)
      (hsame t (by simp [heldAt, hs, SenderPc.tokens])).symm
  | loginFilled index t =>
    exact congrArg (SenderHand.loginFilled index)
      (hsame t (by simp [heldAt, hs, SenderPc.tokens])).symm

theorem Shows.session_of {index : UInt8} (hp : p ≠ .session index) :
    (s.sessions index).Viewed pool (a.before index) (a.lines index).session :=
  (h.sessions index).congr (hpool (.session index) hp.symm)

end Changed

theorem onlyAt_self (s : TxSystem) (p : TxPlace) : s.OnlyAt p s.pool := fun _ _ _ _ => rfl

/-- A step on the one session, with what the network thread has and the pool. -/
theorem shows_session {index : UInt8} {session : SendSession ℕ} {o : Outbound}
    (h : s.Shows a) (hpool : s.OnlyAt p s'.pool) (hp : p = .sender ∨ p = .session index)
    (hone : OneSession s s' index session)
    (hsession : session.Viewed s'.pool (a.before index) o.session)
    {hand : SenderHand} (hsender : hand = s'.sender.shown s'.pool) :
    s'.Shows { a.setLine index o with sender := hand } := by
  have hq : p ≠ .queue := by rcases hp with rfl | rfl <;> simp
  have hb : p ≠ .builder := by rcases hp with rfl | rfl <;> simp
  refine ⟨?_, ?_, hsender, fun i => ?_⟩
  · rw [hone.queue]
    exact h.queue_of hpool hq
  · rw [hone.builder]
    exact h.builder_of hpool hb
  · rw [hone.sessions]
    show SendSession.Viewed _ _ _ (Function.update a.lines index o i).session
    by_cases hi : i = index
    · subst hi
      rw [Function.update_self, Function.update_self]
      exact hsession
    · have hpi : p ≠ .session i := by
        rcases hp with rfl | rfl
        · simp
        · simpa using Ne.symm hi
      rw [Function.update_of_ne hi, Function.update_of_ne hi]
      exact h.session_of hpool hpi

/-! ### One step -/

theorem shows_getTxPkt (h : s.Shows a) :
    Matches Shows (s.step .getTxPkt) (a.step (.getTxPkt, s.slot)) := by
  rw [step, DirectTx.step, h.builder]
  cases s.builder with
  | idle => exact ⟨h.queue, rfl, h.sender, h.sessions⟩
  | got t | filled t => exact h

theorem shows_fillPacket {src : List UInt8} {index : UInt8} {loginMsg : Bool} (ht : s.Tidy)
    (h : s.Shows a) :
    Matches Shows (s.step (.fillPacket src index loginMsg))
      (a.step (.fillPacket src index loginMsg, s.slot)) := by
  rw [step, DirectTx.step, h.builder]
  cases hb : s.builder with
  | got t =>
    have hmem : t ∈ s.heldAt .builder := by simp [heldAt, hb, BuilderPc.tokens]
    show Matches Shows ((lookUp s.pool t).fillPacket src index loginMsg >>= _)
      ((lookUp s.pool t).fillPacket src index loginMsg >>= _)
    cases (lookUp s.pool t).fillPacket src index loginMsg with
    | error f => exact rfl
    | ok pkt =>
      have hpool := ht.onlyAt_update hmem pkt
      refine matches_of_ok ⟨h.queue_of hpool (by simp), ?_, h.sender_of hpool (by simp),
        fun i => h.session_of hpool (by simp)⟩
      exact congrArg BuilderHand.filled (lookUp_update s.pool t pkt).symm
  | idle | filled t => exact h

theorem shows_push (h : s.Shows a) :
    Matches Shows (s.step .push) (a.step (.push, s.slot)) := by
  rw [step, DirectTx.step, h.builder]
  cases s.builder with
  | filled t =>
    refine matches_of_ok ⟨?_, rfl, h.sender, h.sessions⟩
    have hlen : a.queue.items.length = s.builderToSender.items.length := by
      rw [h.queue, length_map]
    show (a.queue.push _).items = (s.builderToSender.push t).items.map _
    by_cases hroom : s.builderToSender.items.length < packetQueueCapacity
    · rw [BoundedQueue.items_push hroom, BoundedQueue.items_push (hlen ▸ hroom), h.queue,
        map_append]
      rfl
    · rw [BoundedQueue.items_push_full hroom, BoundedQueue.items_push_full (hlen ▸ hroom)]
      exact h.queue
  | idle | got t => exact h

theorem shows_pop (h : s.Shows a) : Matches Shows (s.step .pop) (a.step (.pop, s.slot)) := by
  rw [step, DirectTx.step, h.sender]
  cases hs : s.sender with
  | idle =>
    have hqueue := h.queue
    cases hitems : s.builderToSender.items with
    | nil =>
      rw [hitems, map_nil] at hqueue
      rw [hqueue]
      exact h
    | cons t rest =>
      rw [hitems, map_cons] at hqueue
      rw [hqueue]
      refine matches_of_ok ⟨?_, h.builder, rfl, h.sessions⟩
      show a.queue.items.tail = s.builderToSender.items.tail.map _
      rw [hqueue, hitems]
      rfl
  | popped | loginGot | loginFilled =>
    exact h

theorem shows_trySend {os : List SendResult} (ht : s.Tidy) (h : s.Shows a) :
    Matches Shows (s.step (.trySend os)) (a.step (.trySend os, s.slot)) := by
  rw [step, DirectTx.step, h.sender]
  cases hs : s.sender with
  | popped t =>
    let index := (lookUp s.pool t).sockIndex
    have hmem : t ∈ s.heldAt .sender := by simp [heldAt, hs, SenderPc.tokens]
    have hview := h.sessions index
    show Matches Shows (if (s.sessions index).closed = true then _ else _)
      (if (a.lines index).session.closed = true then _ else _)
    rw [hview.closed]
    by_cases hclosed : (s.sessions index).closed = true
    · rw [if_pos hclosed, if_pos hclosed]
      exact ⟨h.queue, h.builder, rfl, h.sessions⟩
    · rw [if_neg hclosed, if_neg hclosed]
      obtain ⟨hsent, -, hpool⟩ := hview.trySend os (ht.slot_ne_waiting hmem index)
      have honly := ht.onlyAt_slot hmem hpool
      let r := (s.sessions index).trySend .byPool s.pool t os
      have hone : OneSession s { s.setSession index r.2.2 with pool := r.1, sender := .idle } index
        r.2.2 := ⟨rfl, rfl, rfl⟩
      exact shows_session h honly (.inl rfl) hone hsent rfl
  | idle | loginGot | loginFilled => exact h

theorem shows_epollout {index : UInt8} {os : List SendResult} (ht : s.Tidy) (h : s.Shows a) :
    Matches Shows (s.step (.epollout index os)) (a.step (.epollout index os, s.slot)) := by
  rw [step, DirectTx.step, h.sender]
  have hview := h.sessions index
  cases hs : s.sender with
  | idle =>
    show Matches Shows (if _ then _ else _)
      (if (a.lines index).session.isEpolloutSet = true ∧
        (a.lines index).session.connectionPending = false then _ else _)
    rw [hview.isEpolloutSet, hview.connectionPending]
    by_cases hcond : (s.sessions index).isEpolloutSet = true ∧
        (s.sessions index).connectionPending = false
    · rw [if_pos hcond, if_pos ⟨rfl, hcond⟩]
      refine (hview.resume os (ht.slots_nodup (.session index))).bind ?_
      intro r r' hr
      have hone : OneSession s { s.setSession index r.2 with pool := r.1 } index r.2 :=
        ⟨rfl, rfl, rfl⟩
      have hidle : a.sender = s.sender.shown r.1 := by
        rw [h.sender, hs]
        rfl
      have honly : s.OnlyAt (.session index) r.1 := ht.onlyAt hr.2
      exact matches_of_ok (shows_session h honly (.inr rfl) hone hr.1 hidle)
    · rw [if_neg hcond, if_neg fun hc => hcond hc.2]
      exact h
  | popped | loginGot | loginFilled =>
    rw [if_neg fun hc => absurd hc.1 (by simp)]
    exact h

/-- The session on its new socket. -/
theorem shows_reopened (h : s.Shows a) (index : UInt8) :
    (s.setSession index (s.reopened index)).Shows (a.reopened index) := by
  refine ⟨h.queue, h.builder, h.sender, fun i => ?_⟩
  show SendSession.Viewed _ (Function.update a.before index _ i)
    (Function.update s.sessions index _ i) (Function.update a.lines index _ i).session
  by_cases hi : i = index
  · subst hi
    rw [Function.update_self, Function.update_self, Function.update_self]
    exact (h.sessions i).reopened
  · rw [Function.update_of_ne hi, Function.update_of_ne hi, Function.update_of_ne hi]
    exact h.sessions i

theorem shows_setSession {index : UInt8} {session : SendSession ℕ}
    {session' : SendSession TxPacket} (h : s.Shows a)
    (hview : session.Viewed s.pool (a.before index) session') :
    (s.setSession index session).Shows (a.setSession index session') := by
  have hone := oneSession_setSession s index session
  have honly : s.OnlyAt (.session index) (s.setSession index session).pool := onlyAt_self s _
  exact shows_session (o := { a.lines index with session := session' }) h honly (.inr rfl) hone
    hview h.sender

theorem setSession_setSession (s : TxSystem) (index : UInt8) (session session' : SendSession ℕ) :
    (s.setSession index session).setSession index session' = s.setSession index session' := by
  show { s with sessions := Function.update (Function.update s.sessions index session) index _ } = _
  rw [Function.update_idem]
  rfl

/-- The login of a connected session, up to `get_txPkt`. -/
theorem shows_beginLogin {index : UInt8} {session : SendSession ℕ}
    (h : (s.setSession index session).Shows a) :
    (s.beginLogin index session).Shows (a.beginLogin s.slot index) := by
  have hview := h.sessions index
  have hsession : (s.setSession index session).sessions index = session :=
    Function.update_self _ _ _
  rw [hsession] at hview
  rw [beginLogin, DirectTx.beginLogin]
  dsimp only
  rw [hview.loginDecider]
  cases session.loginDecider with
  | alreadyLoggedIn => exact h
  | disconnect =>
    have hclosed := shows_setSession h hview.closeSocket
    rw [setSession_setSession] at hclosed
    exact hclosed
  | tryAgain =>
    have hcounted : SendSession.Viewed s.pool (a.before index)
        { session with loginRetryCount := session.loginRetryCount + 1 }
        { (a.lines index).session with
          loginRetryCount := (a.lines index).session.loginRetryCount + 1 } :=
      { hview with loginRetryCount := congrArg (· + 1) hview.loginRetryCount }
    have hset := shows_setSession h hcounted
    rw [setSession_setSession] at hset
    exact ⟨hset.queue, hset.builder, rfl, hset.sessions⟩

theorem shows_setupSocket {index : UInt8} {inProgress : Bool} (h : s.Shows a) :
    Matches Shows (s.step (.setupSocket index inProgress))
      (a.step (.setupSocket index inProgress, s.slot)) := by
  have hopen := shows_reopened h index
  rw [step, DirectTx.step, h.sender]
  cases hs : s.sender with
  | idle =>
    rw [if_pos rfl]
    cases inProgress with
    | true =>
      have hview := hopen.sessions index
      have hsession : (s.setSession index (s.reopened index)).sessions index = s.reopened index :=
        Function.update_self _ _ _
      rw [hsession] at hview
      have hpending : SendSession.Viewed s.pool ((a.reopened index).before index)
          { s.reopened index with connectionPending := true }
          { ((a.reopened index).lines index).session with connectionPending := true } :=
        { hview with connectionPending := rfl }
      have hset := shows_setSession hopen hpending
      rw [setSession_setSession] at hset
      exact hset
    | false => exact shows_beginLogin hopen
  | popped | loginGot | loginFilled =>
    rw [if_neg (by simp)]
    exact h

theorem shows_connectionMade {index : UInt8} (h : s.Shows a) :
    Matches Shows (s.step (.connectionMade index)) (a.step (.connectionMade index, s.slot)) := by
  have hview := h.sessions index
  rw [step, DirectTx.step, h.sender]
  cases hs : s.sender with
  | idle =>
    show Matches Shows _ (if (a.lines index).session.connectionPending = true then _ else _)
    rw [hview.connectionPending]
    by_cases hpend : (s.sessions index).connectionPending = true
    · rw [if_pos ⟨rfl, hpend⟩, if_pos hpend]
      have hmade : SendSession.Viewed s.pool (a.before index) (s.sessions index).connected
          (a.lines index).session.connected :=
        { hview with connectionPending := rfl, isEpolloutSet := rfl }
      exact matches_of_ok (shows_beginLogin (shows_setSession h hmade))
    · rw [if_neg fun hc => hpend hc.2, if_neg hpend]
      exact h
  | popped | loginGot | loginFilled =>
    rw [if_neg fun hc => absurd hc.1 (by simp)]
    exact h

theorem shows_loginFill {msg : List UInt8} (ht : s.Tidy) (h : s.Shows a) :
    Matches Shows (s.step (.loginFill msg)) (a.step (.loginFill msg, s.slot)) := by
  rw [step, DirectTx.step, h.sender]
  cases hs : s.sender with
  | loginGot index t =>
    have hmem : t ∈ s.heldAt .sender := by simp [heldAt, hs, SenderPc.tokens]
    show Matches Shows (loginAttempt (lookUp s.pool t) msg index >>= _)
      (loginAttempt (lookUp s.pool t) msg index >>= _)
    cases loginAttempt (lookUp s.pool t) msg index with
    | error f => exact rfl
    | ok pkt =>
      have hpool := ht.onlyAt_update hmem pkt
      refine matches_of_ok ⟨h.queue_of hpool (by simp), h.builder_of hpool (by simp), ?_,
        fun i => h.session_of hpool (by simp)⟩
      exact congrArg (SenderHand.loginFilled index) (lookUp_update s.pool t pkt).symm
  | idle | popped | loginFilled => exact h

theorem shows_loginSend {os : List SendResult} (ht : s.Tidy) (h : s.Shows a) :
    Matches Shows (s.step (.loginSend os)) (a.step (.loginSend os, s.slot)) := by
  rw [step, DirectTx.step, h.sender]
  cases hs : s.sender with
  | loginFilled index t =>
    have hmem : t ∈ s.heldAt .sender := by simp [heldAt, hs, SenderPc.tokens]
    obtain ⟨hsent, -, hpool⟩ := (h.sessions index).send os (ht.slot_ne_waiting hmem index)
    have honly := ht.onlyAt_slot hmem hpool
    let r := (s.sessions index).send .byPool s.pool t os
    have hone : OneSession s
        { s.setSession index r.2.1 with
          pool := r.1
          sender := .idle
          snapshot := Function.update s.snapshot t (s.pool (poolSlot t)) } index r.2.1 :=
      ⟨rfl, rfl, rfl⟩
    exact matches_of_ok (shows_session h honly (.inl rfl) hone hsent rfl)
  | idle | popped | loginGot => exact h

/-- **One step.**  The pool does what the packets themselves would do. -/
theorem shows_step (ht : s.Tidy) (h : s.Shows a) (m : TxMove) :
    Matches Shows (s.step m) (a.step (m, s.slot)) := by
  cases m with
  | getTxPkt => exact shows_getTxPkt h
  | fillPacket src index loginMsg => exact shows_fillPacket ht h
  | push => exact shows_push h
  | pop => exact shows_pop h
  | trySend os => exact shows_trySend ht h
  | epollout index os => exact shows_epollout ht h
  | setupSocket index inProgress => exact shows_setupSocket h
  | connectionMade index => exact shows_connectionMade h
  | loginFill msg => exact shows_loginFill ht h
  | loginSend os => exact shows_loginSend ht h
  | closeSocket index =>
    rw [step, DirectTx.step, h.sender]
    cases hs : s.sender with
    | idle =>
      rw [if_pos rfl]
      exact matches_of_ok (shows_setSession h (h.sessions index).closeSocket)
    | popped | loginGot | loginFilled =>
      rw [if_neg (by simp)]
      exact h
  | sessionState index loggedIn loginRetryCount =>
    have hview := h.sessions index
    exact matches_of_ok (shows_setSession h { hview with loggedIn := rfl, loginRetryCount := rfl })

theorem tidy_step (h : s.Tidy) {m : TxMove} (hm : s.Spaced m) (hstep : s.step m = .ok s') :
    s'.Tidy :=
  ⟨intact_step h.intact hm hstep, once_step h.intact h.once hstep⟩

/-! ### Runs -/

theorem tidy_start {sessions : UInt8 → SendSession ℕ}
    (hempty : ∀ index, (sessions index).tokens = []) : (start sessions).Tidy := by
  refine ⟨intact_start fun index t hhas => ?_, HeldOnce.none fun p => ?_⟩
  · rw [SendSession.has_iff_mem_tokens, hempty index] at hhas
    exact absurd hhas not_mem_nil
  · cases p with
    | builder | queue | sender => rfl
    | session index => exact hempty index

end TxSystem

/-- A session that has no socket yet. -/
def SendSession.noSocket {P : Type} (p : P) : SendSession P :=
  { pendWrite := ⟨fun _ => p, 0, 0⟩, closed := true }

/-- The sockets are not set up. -/
def TxSystem.initial : TxSystem := .start fun _ => .noSocket 0

def DirectTx.initial : DirectTx :=
  { lines := fun index => { session := .noSocket {}, index := index, opened := true } }

namespace TxSystem

theorem tidy_initial : initial.Tidy := tidy_start fun _ => rfl

theorem shows_initial : initial.Shows .initial :=
  ⟨rfl, rfl, rfl, fun _ => ⟨rfl, rfl, rfl, rfl, rfl, rfl, rfl, rfl⟩⟩

/-- The run on the packets themselves: each step with what `get_txPkt` hands out next. -/
def byValue (moves : List TxMove) : List (TxMove × TxPacket) :=
  translated step (fun s m => (m, s.slot)) initial moves

end TxSystem

/-- **The pool is transparent** as long as `get_txPkt` hands out no packet in use.  However the
builder and the network thread interleave, the run on the pool ends as the run does in which
they hand the packets themselves to each other: with the same fault, or with the same bytes on
every socket and the same packets before it. -/
theorem pool_is_transparent {moves : List TxMove}
    (hspaced : Along TxSystem.step TxSystem.Spaced .initial moves) :
    Matches TxSystem.Shows (exec TxSystem.step .initial moves)
      (exec DirectTx.step .initial (TxSystem.byValue moves)) := by
  have hboth : Matches (fun (s : TxSystem) (a : DirectTx) => s.Tidy ∧ s.Shows a)
      (exec TxSystem.step .initial moves)
      (exec DirectTx.step .initial (TxSystem.byValue moves)) := by
    refine exec_matches (C := TxSystem.Spaced) ?_ ⟨TxSystem.tidy_initial, TxSystem.shows_initial⟩
      hspaced
    intro s a m hsa hm
    exact (TxSystem.shows_step hsa.1 hsa.2 m).strengthen fun s' _ hstep hshow =>
      ⟨TxSystem.tidy_step hsa.1 hm hstep, hshow⟩
  exact hboth.mono fun _ _ h => h.2

namespace TxSystem

theorem nextTxPkt_setSession (s : TxSystem) (index : UInt8) (session : SendSession ℕ) :
    (s.setSession index session).nextTxPkt = s.nextTxPkt := rfl

theorem nextTxPkt_beginLogin (s : TxSystem) (index : UInt8) (session : SendSession ℕ) :
    (s.beginLogin index session).nextTxPkt ≤ s.nextTxPkt + 1 := by
  rw [beginLogin]
  cases session.loginDecider with
  | tryAgain => exact le_refl _
  | alreadyLoggedIn | disconnect => exact Nat.le_succ _

theorem nextTxPkt_of_ok {s s' : TxSystem} {n : ℕ} (h : (.ok s : Except Fault TxSystem) = .ok s')
    (hs : s.nextTxPkt ≤ n) : s'.nextTxPkt ≤ n := by
  rw [Except.ok.injEq] at h
  exact h ▸ hs

theorem nextTxPkt_step {s s' : TxSystem} {m : TxMove} (hstep : s.step m = .ok s') :
    s'.nextTxPkt ≤ s.nextTxPkt + 1 := by
  cases m with
  | setupSocket index inProgress =>
    rw [step] at hstep
    split at hstep
    · split at hstep
      · exact nextTxPkt_of_ok hstep (Nat.le_succ _)
      · exact nextTxPkt_of_ok hstep (nextTxPkt_beginLogin s index _)
    · exact nextTxPkt_of_ok hstep (Nat.le_succ _)
  | connectionMade index =>
    rw [step] at hstep
    split at hstep
    · exact nextTxPkt_of_ok hstep (nextTxPkt_beginLogin s index _)
    · exact nextTxPkt_of_ok hstep (Nat.le_succ _)
  | fillPacket src index loginMsg =>
    rw [step] at hstep
    split at hstep
    · obtain ⟨pkt, -, hstep⟩ := bind_eq_ok_iff.mp hstep
      exact nextTxPkt_of_ok hstep (Nat.le_succ _)
    · exact nextTxPkt_of_ok hstep (Nat.le_succ _)
  | loginFill msg =>
    rw [step] at hstep
    split at hstep
    · obtain ⟨pkt, -, hstep⟩ := bind_eq_ok_iff.mp hstep
      exact nextTxPkt_of_ok hstep (Nat.le_succ _)
    · exact nextTxPkt_of_ok hstep (Nat.le_succ _)
  | epollout index os =>
    rw [step] at hstep
    dsimp only at hstep
    split at hstep
    · obtain ⟨r, -, hstep⟩ := bind_eq_ok_iff.mp hstep
      exact nextTxPkt_of_ok hstep (Nat.le_succ _)
    · exact nextTxPkt_of_ok hstep (Nat.le_succ _)
  | getTxPkt | push | pop | trySend | loginSend | closeSocket | sessionState =>
    rw [step] at hstep
    grind [nextTxPkt_setSession]

/-- The pool is not used up in the first 1024 steps. -/
theorem spaced_of_length {s : TxSystem} {moves : List TxMove}
    (h : s.nextTxPkt + moves.length ≤ packetPoolCapacity) : Along step Spaced s moves := by
  induction moves generalizing s with
  | nil => trivial
  | cons m moves ih =>
    rw [length_cons] at h
    refine ⟨fun _ hfull => by omega, fun s' hstep => ih ?_⟩
    have := nextTxPkt_step hstep
    omega

end TxSystem

/-- A session logs in, and the builder sends it a packet of one byte. -/
def loginAndOrder : List TxMove :=
  [.setupSocket 0 false, .getTxPkt, .loginFill [0x4C], .fillPacket [0x41] 0 false,
    .loginSend [.sent 1], .sessionState 0 true 0, .push, .pop, .trySend [.interrupted, .sent 1]]

/-- Both bytes are sent from the pool as from the packets themselves. -/
theorem pool_is_transparent_login_and_order :
    Matches TxSystem.Shows (exec TxSystem.step .initial loginAndOrder)
        (exec DirectTx.step .initial (TxSystem.byValue loginAndOrder)) ∧
      (exec TxSystem.step .initial loginAndOrder).map (fun s => (s.sessions 0).wire) =
        .ok [0x4C, 0x41] :=
  ⟨pool_is_transparent (TxSystem.spaced_of_length (by decide)), rfl⟩

end TradingEngine
