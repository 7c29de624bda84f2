/-
Where the packets of the pool are (`network/NetworkPackets.h`,
`protocol/Builder_Dispatch.cpp`, `network/NetworkIO.{h,cpp}`).

A packet in use is with the builder, in `builder_to_sender_`, with the network thread, or at
a session, where it is active or in `pending_write_`.

* `once_step` — as long as `get_txPkt` hands out no packet in use, no step of the two threads
  puts a packet at two places.
-/
import TradingEngine.HeldOnce
import TradingEngine.TxReuse

namespace TradingEngine

open FallibleRun List

/-! ### The packets of a session -/

namespace SendSession

variable {s : SendSession ℕ} {pool : PacketPool} {t : ℕ} {os : List SendResult}

/-- The packets of a session, the active one first. -/
def tokens (s : SendSession ℕ) : List ℕ := s.activePkt.toList ++ s.pendWrite.items

theorem has_iff_mem_tokens : s.Has t ↔ t ∈ s.tokens := by
  rw [Has, tokens, mem_append, Option.mem_toList]

theorem tokens_closeSocket (s : SendSession ℕ) : s.closeSocket.tokens = [] := by
  rw [tokens, items_closeSocket]
  rfl

theorem tokens_send (pool : PacketPool) (s : SendSession ℕ) (t : ℕ) (os : List SendResult) :
    (s.send .byPool pool t os).2.1.tokens <+ t :: s.pendWrite.items := by
  show (if (sendLoop _ _ os).blocked then some t else none).toList ++ s.pendWrite.items <+ _
  split
  · exact Sublist.refl _
  · exact sublist_cons_self t _

theorem tokens_enqueue (s : SendSession ℕ) (t : ℕ) : (s.enqueue t).2.tokens <+~ t :: s.tokens := by
  show s.activePkt.toList ++ (s.pendWrite.push t).items <+~ _
  cases hfull : s.pendWrite.full with
  | true =>
    rw [RingBuffer.push, if_pos hfull]
    exact (sublist_cons_self t _).subperm
  | false =>
    rw [RingBuffer.items_push hfull, ← append_assoc]
    exact perm_append_singleton t _ |>.subperm

theorem tokens_trySend (pool : PacketPool) (s : SendSession ℕ) (t : ℕ) (os : List SendResult) :
    (s.trySend .byPool pool t os).2.2.tokens <+~ t :: s.tokens := by
  rcases trySend_cases .byPool pool s t os with ⟨h, -⟩ | ⟨h, -⟩ | ⟨h, -⟩
  · rw [h]
    exact tokens_enqueue s t
  · rw [h]
    exact (sublist_cons_self t _).subperm
  · rw [h]
    exact ((tokens_send pool s t os).trans ((sublist_append_right _ _).cons_cons t)).subperm

theorem tokens_flush (fuel : ℕ) (pool : PacketPool) (s : SendSession ℕ) (os : List SendResult) :
    (s.flush .byPool fuel pool os).2.tokens <+ s.tokens := by
  induction fuel generalizing pool s os with
  | zero => exact Sublist.refl _
  | succ fuel ih =>
    rw [flush]
    split
    · exact Sublist.refl _
    · cases hpop : s.pendWrite.pop with
      | none => exact Sublist.refl _
      | some r =>
        obtain ⟨t, q⟩ := r
        refine (ih _ _ _).trans ((tokens_send pool { s with pendWrite := q } t os).trans ?_)
        rw [tokens, RingBuffer.items_pop hpop]
        exact sublist_append_right _ _

theorem tokens_resume {pool' : PacketPool} {s' : SendSession ℕ}
    (h : s.resume .byPool pool os = .ok (pool', s')) : s'.tokens <+ s.tokens := by
  rw [resume] at h
  cases hactive : s.activePkt with
  | none =>
    rw [hactive] at h
    exact absurd h (by simp)
  | some t =>
    rw [hactive] at h
    simp only [Except.ok.injEq, Prod.mk.injEq] at h
    obtain ⟨-, rfl⟩ := h
    have hflush := tokens_flush pendingCapacity (s.send .byPool pool t os).1
      (s.send .byPool pool t os).2.1 (s.send .byPool pool t os).2.2
    refine hflush.trans ((tokens_send pool s t os).trans ?_)
    rw [tokens, hactive]
    exact Sublist.refl _

end SendSession

/-! ### Places -/

inductive TxPlace
  | builder
  | queue
  | sender
  | session (index : UInt8)
  deriving DecidableEq

def BuilderPc.tokens : BuilderPc → List ℕ
  | .idle => []
  | .got t => [t]
  | .filled t => [t]

def SenderPc.tokens : SenderPc → List ℕ
  | .idle => []
  | .popped t => [t]
  | .loginGot _ t => [t]
  | .loginFilled _ t => [t]

namespace TxSystem

variable {s s' : TxSystem} {t : ℕ} {m : TxMove}

/-- The packets at a place. -/
def heldAt (s : TxSystem) : TxPlace → List ℕ
  | .builder => s.builder.tokens
  | .queue => s.builderToSender.items
  | .sender => s.sender.tokens
  | .session index => (s.sessions index).tokens

theorem builderHolds_iff : s.BuilderHolds t ↔ t ∈ s.builder.tokens := by
  rw [BuilderHolds]
  cases s.builder <;> simp [BuilderPc.tokens, eq_comm]

theorem loginHolds_or_popped_iff :
    s.LoginHolds t ∨ s.sender = .popped t ↔ t ∈ s.sender.tokens := by
  rw [LoginHolds]
  cases s.sender <;> simp [SenderPc.tokens, eq_comm]

/-- A packet is in use when it is somewhere. -/
theorem inUse_iff : s.InUse t ↔ ∃ p, t ∈ s.heldAt p := by
  constructor
  · rintro ((h | h | ⟨index, h⟩) | h | h)
    · exact ⟨.queue, h⟩
    · exact ⟨.sender, loginHolds_or_popped_iff.mp (.inr h)⟩
    · exact ⟨.session index, SendSession.has_iff_mem_tokens.mp h⟩
    · exact ⟨.builder, builderHolds_iff.mp h⟩
    · exact ⟨.sender, loginHolds_or_popped_iff.mp (.inl h)⟩
  · rintro ⟨p, h⟩
    cases p with
    | builder => exact .inr (.inl (builderHolds_iff.mpr h))
    | queue => exact .inl (.inl h)
    | sender =>
      rcases loginHolds_or_popped_iff.mpr h with h | h
      · exact .inr (.inr h)
      · exact .inl (.inr (.inl h))
    | session index => exact .inl (.inr (.inr ⟨index, SendSession.has_iff_mem_tokens.mpr h⟩))

/-- The next number is nobody's. -/
theorem fresh_nextTxPkt (h : s.Intact) (p : TxPlace) : s.nextTxPkt ∉ s.heldAt p := by
  intro hp
  have := h.recent _ (inUse_iff.mpr ⟨p, hp⟩)
  omega

/-! ### The steps -/

section

variable {index : UInt8} {session : SendSession ℕ}

/-- A step that leaves the queue as it was and changes one session. -/
structure OneSession (s s' : TxSystem) (index : UInt8) (session : SendSession ℕ) : Prop where
  builder : s'.builder = s.builder
  queue : s'.builderToSender = s.builderToSender
  sessions : s'.sessions = Function.update s.sessions index session

theorem oneSession_setSession (s : TxSystem) (index : UInt8) (session : SendSession ℕ) :
    OneSession s (s.setSession index session) index session := ⟨rfl, rfl, rfl⟩

theorem OneSession.heldAt_self (h : OneSession s s' index session) :
    s'.heldAt (.session index) = session.tokens := by
  show (s'.sessions index).tokens = _
  rw [h.sessions, Function.update_self]

theorem OneSession.heldAt_other (h : OneSession s s' index session) {p : TxPlace}
    (hsession : p ≠ .session index) (hsender : p ≠ .sender) : s'.heldAt p = s.heldAt p := by
  cases p with
  | builder => exact congrArg BuilderPc.tokens h.builder
  | queue => exact congrArg BoundedQueue.items h.queue
  | sender => exact absurd rfl hsender
  | session i =>
    have hi : i ≠ index := fun heq => hsession (by rw [heq])
    show (s'.sessions i).tokens = (s.sessions i).tokens
    rw [h.sessions, Function.update_of_ne hi]

/-- The session and the network thread let packets go. -/
theorem once_oneSession (h : HeldOnce s.heldAt) (hone : OneSession s s' index session)
    (hsender : s'.sender.tokens <+~ s.sender.tokens)
    (htokens : session.tokens <+~ (s.sessions index).tokens) : HeldOnce s'.heldAt := by
  refine h.mono fun p => ?_
  by_cases hp : p = .session index
  · subst hp
    rw [hone.heldAt_self]
    exact htokens
  · by_cases hs : p = .sender
    · subst hs
      exact hsender
    · rw [hone.heldAt_other hp hs]

/-- The packet that the network thread has goes to a session. -/
theorem once_toSession (h : HeldOnce s.heldAt) (hone : OneSession s s' index session)
    (hsender : s.sender.tokens = [t]) (hidle : s'.sender = .idle)
    (htokens : session.tokens <+~ t :: (s.sessions index).tokens) : HeldOnce s'.heldAt := by
  refine h.move (a := t) (p := .sender) (q := .session index) ?_ ?_ (by simp) fun p hs hp => ?_
  · show t :: s'.sender.tokens <+~ s.sender.tokens
    rw [hsender, hidle]
    exact Subperm.refl _
  · rw [hone.heldAt_self]
    exact htokens
  · rw [hone.heldAt_other hp hs]

/-- `get_txPkt` for the network thread. -/
theorem once_loginGot (hi : s.Intact) (h : HeldOnce s.heldAt) (hone : OneSession s s' index session)
    (hidle : s.sender = .idle) (hsender : s'.sender = .loginGot index s.nextTxPkt)
    (htokens : session.tokens <+~ (s.sessions index).tokens) : HeldOnce s'.heldAt := by
  have hset := oneSession_setSession s index session
  have hheld : HeldOnce (s.setSession index session).heldAt :=
    once_oneSession h hset (Subperm.refl _) htokens
  refine hheld.enter (a := s.nextTxPkt) (q := .sender) (fun p hp => ?_) ?_ fun p hp => ?_
  · by_cases hpi : p = .session index
    · subst hpi
      rw [hset.heldAt_self] at hp
      exact fresh_nextTxPkt hi (.session index) (htokens.subset hp)
    · by_cases hps : p = .sender
      · subst hps
        exact fresh_nextTxPkt hi .sender hp
      · rw [hset.heldAt_other hpi hps] at hp
        exact fresh_nextTxPkt hi p hp
  · show s'.sender.tokens <+~ s.nextTxPkt :: s.sender.tokens
    rw [hsender, hidle]
    exact Subperm.refl _
  · by_cases hpi : p = .session index
    · subst hpi
      rw [hone.heldAt_self, hset.heldAt_self]
    · rw [hone.heldAt_other hpi hp, hset.heldAt_other hpi hp]

theorem once_beginLogin (hi : s.Intact) (h : HeldOnce s.heldAt) (hidle : s.sender = .idle)
    (htokens : session.tokens <+~ (s.sessions index).tokens) :
    HeldOnce (s.beginLogin index session).heldAt := by
  rw [beginLogin]
  cases session.loginDecider with
  | alreadyLoggedIn => exact once_oneSession h ⟨rfl, rfl, rfl⟩ (Subperm.refl _) htokens
  | disconnect =>
    refine once_oneSession h ⟨rfl, rfl, rfl⟩ (Subperm.refl _) ?_
    rw [SendSession.tokens_closeSocket]
    exact nil_subperm
  | tryAgain =>
    refine once_loginGot hi h ⟨rfl, rfl, rfl⟩ hidle rfl ?_
    exact htokens

end

/-- A step that moves no packet. -/
theorem once_same (h : HeldOnce s.heldAt) (hbuilder : s'.builder.tokens = s.builder.tokens)
    (hqueue : s'.builderToSender = s.builderToSender)
    (hsender : s'.sender.tokens = s.sender.tokens) (hsessions : s'.sessions = s.sessions) :
    HeldOnce s'.heldAt := by
  have hheld : s'.heldAt = s.heldAt := by
    funext p
    cases p with
    | builder => exact hbuilder
    | queue => exact congrArg BoundedQueue.items hqueue
    | sender => exact hsender
    | session index => exact congrArg (fun f => (f index).tokens) hsessions
  rw [hheld]
  exact h

theorem once_builder (hi : s.Intact) (h : HeldOnce s.heldAt)
    (hm : m = .getTxPkt ∨ (∃ src index loginMsg, m = .fillPacket src index loginMsg) ∨ m = .push)
    (hstep : s.step m = .ok s') : HeldOnce s'.heldAt := by
  rcases hm with rfl | ⟨src, index, loginMsg, rfl⟩ | rfl
  · rw [step] at hstep
    cases hb : s.builder with
    | idle =>
      rw [hb, Except.ok.injEq] at hstep
      subst hstep
      refine h.enter (a := s.nextTxPkt) (q := .builder) (fresh_nextTxPkt hi) ?_ fun p hp => ?_
      · show [s.nextTxPkt] <+~ s.nextTxPkt :: s.builder.tokens
        rw [hb]
        exact Subperm.refl _
      · cases p with
        | builder => exact absurd rfl hp
        | queue | sender | session => exact Subperm.refl _
    | got t | filled t =>
      rw [hb, Except.ok.injEq] at hstep
      exact hstep ▸ h
  · rw [step] at hstep
    cases hb : s.builder with
    | got t =>
      rw [hb] at hstep
      obtain ⟨pkt, -, hstep⟩ := bind_eq_ok_iff.mp hstep
      rw [Except.ok.injEq] at hstep
      subst hstep
      exact once_same h (by rw [hb]; rfl) rfl rfl rfl
    | idle | filled t =>
      rw [hb, Except.ok.injEq] at hstep
      exact hstep ▸ h
  · rw [step] at hstep
    cases hb : s.builder with
    | filled t =>
      rw [hb, Except.ok.injEq] at hstep
      subst hstep
      refine h.move (a := t) (p := .builder) (q := .queue) ?_ ?_ (by simp) fun p hpb hpq => ?_
      · show [t] <+~ s.builder.tokens
        rw [hb]
        exact Subperm.refl _
      · show (s.builderToSender.push t).items <+~ t :: s.builderToSender.items
        by_cases hroom : s.builderToSender.items.length < packetQueueCapacity
        · rw [BoundedQueue.items_push hroom]
          exact (perm_append_singleton t _).subperm
        · rw [BoundedQueue.items_push_full hroom]
          exact (sublist_cons_self t _).subperm
      · cases p with
        | builder => exact absurd rfl hpb
        | queue => exact absurd rfl hpq
        | sender | session => exact Subperm.refl _
    | idle | got t =>
      rw [hb, Except.ok.injEq] at hstep
      exact hstep ▸ h

theorem once_pop (h : HeldOnce s.heldAt) (hstep : s.step .pop = .ok s') : HeldOnce s'.heldAt := by
  rw [step] at hstep
  split at hstep
  · rename_i t rest hidle hitems
    rw [Except.ok.injEq] at hstep
    subst hstep
    refine h.move (a := t) (p := .queue) (q := .sender) ?_ ?_ (by simp) fun p hpq hps => ?_
    · show t :: s.builderToSender.items.tail <+~ s.builderToSender.items
      rw [hitems]
      exact Subperm.refl _
    · show [t] <+~ t :: s.sender.tokens
      rw [hidle]
      exact Subperm.refl _
    · cases p with
      | queue => exact absurd rfl hpq
      | sender => exact absurd rfl hps
      | builder | session => exact Subperm.refl _
  · rw [Except.ok.injEq] at hstep
    exact hstep ▸ h

theorem once_trySend {os : List SendResult} (h : HeldOnce s.heldAt)
    (hstep : s.step (.trySend os) = .ok s') : HeldOnce s'.heldAt := by
  rw [step] at hstep
  cases hsend : s.sender with
  | popped t =>
    rw [hsend] at hstep
    dsimp only at hstep
    have htokens : s.sender.tokens = [t] := by rw [hsend]; rfl
    split at hstep
    · rw [Except.ok.injEq] at hstep
      subst hstep
      refine h.mono fun p => ?_
      cases p with
      | sender => exact nil_subperm
      | builder | queue | session => exact Subperm.refl _
    · rw [Except.ok.injEq] at hstep
      subst hstep
      exact once_toSession h ⟨rfl, rfl, rfl⟩ htokens rfl (SendSession.tokens_trySend _ _ _ _)
  | idle | loginGot | loginFilled =>
    rw [hsend, Except.ok.injEq] at hstep
    exact hstep ▸ h

theorem once_epollout {index : UInt8} {os : List SendResult} (h : HeldOnce s.heldAt)
    (hstep : s.step (.epollout index os) = .ok s') : HeldOnce s'.heldAt := by
  rw [step] at hstep
  dsimp only at hstep
  split at hstep
  · obtain ⟨⟨pool', session'⟩, hres, hstep⟩ := bind_eq_ok_iff.mp hstep
    rw [Except.ok.injEq] at hstep
    subst hstep
    exact once_oneSession h ⟨rfl, rfl, rfl⟩ (Subperm.refl _)
      (SendSession.tokens_resume hres).subperm
  · rw [Except.ok.injEq] at hstep
    exact hstep ▸ h

theorem once_login (h : HeldOnce s.heldAt)
    (hm : (∃ msg, m = .loginFill msg) ∨ ∃ os, m = .loginSend os) (hstep : s.step m = .ok s') :
    HeldOnce s'.heldAt := by
  rcases hm with ⟨msg, rfl⟩ | ⟨os, rfl⟩
  · rw [step] at hstep
    cases hsend : s.sender with
    | loginGot index t =>
      rw [hsend] at hstep
      obtain ⟨pkt, -, hstep⟩ := bind_eq_ok_iff.mp hstep
      rw [Except.ok.injEq] at hstep
      subst hstep
      exact once_same h rfl rfl (by rw [hsend]; rfl) rfl
    | idle | popped | loginFilled =>
      rw [hsend, Except.ok.injEq] at hstep
      exact hstep ▸ h
  · rw [step] at hstep
    cases hsend : s.sender with
    | loginFilled index t =>
      rw [hsend, Except.ok.injEq] at hstep
      subst hstep
      refine once_toSession h ⟨rfl, rfl, rfl⟩ (by rw [hsend]; rfl) rfl ?_
      exact ((SendSession.tokens_send _ _ _ _).trans
        ((sublist_append_right _ _).cons_cons t)).subperm
    | idle | popped | loginGot =>
      rw [hsend, Except.ok.injEq] at hstep
      exact hstep ▸ h

/-- **One step.** -/
theorem once_step (hi : s.Intact) (h : HeldOnce s.heldAt) (hstep : s.step m = .ok s') :
    HeldOnce s'.heldAt := by
  have hcleared : ∀ index, (s.reopened index).tokens <+~ (s.sessions index).tokens := by
    intro index
    have hnone : (s.reopened index).tokens = [] := (s.sessions index).tokens_closeSocket
    rw [hnone]
    exact nil_subperm
  cases m with
  | getTxPkt => exact once_builder hi h (.inl rfl) hstep
  | fillPacket src index loginMsg =>
    exact once_builder hi h (.inr (.inl ⟨src, index, loginMsg, rfl⟩)) hstep
  | push => exact once_builder hi h (.inr (.inr rfl)) hstep
  | pop => exact once_pop h hstep
  | trySend os => exact once_trySend h hstep
  | epollout index os => exact once_epollout h hstep
  | setupSocket index inProgress =>
    rw [step] at hstep
    split at hstep
    · rename_i hidle
      split at hstep
      · rw [Except.ok.injEq] at hstep
        exact hstep ▸ once_oneSession h ⟨rfl, rfl, rfl⟩ (Subperm.refl _) (hcleared index)
      · rw [Except.ok.injEq] at hstep
        exact hstep ▸ once_beginLogin hi h hidle (hcleared index)
    · rw [Except.ok.injEq] at hstep
      exact hstep ▸ h
  | connectionMade index =>
    rw [step] at hstep
    split at hstep
    · rename_i hcond
      rw [Except.ok.injEq] at hstep
      exact hstep ▸ once_beginLogin hi h hcond.1 (Subperm.refl _)
    · rw [Except.ok.injEq] at hstep
      exact hstep ▸ h
  | loginFill msg => exact once_login h (.inl ⟨msg, rfl⟩) hstep
  | loginSend os => exact once_login h (.inr ⟨os, rfl⟩) hstep
  | closeSocket index =>
    rw [step] at hstep
    split at hstep
    · rw [Except.ok.injEq] at hstep
      exact hstep ▸ once_oneSession h ⟨rfl, rfl, rfl⟩ (Subperm.refl _) (hcleared index)
    · rw [Except.ok.injEq] at hstep
      exact hstep ▸ h
  | sessionState index loggedIn loginRetryCount =>
    rw [step, Except.ok.injEq] at hstep
    exact hstep ▸ once_oneSession h ⟨rfl, rfl, rfl⟩ (Subperm.refl _) (Subperm.refl _)

end TxSystem

end TradingEngine
