/-
Reuse of packets that are still on their way.

A packet is in flight from the push that enqueues it until its last byte is sent:
in `builder_to_sender_`, in the hands of the network thread, in a session's
`pending_write_`, or active.  `held` are the packets between `get_txPkt` and the
push.  Two packets that are handed out fewer than 1024 calls apart do not share a
slot, so everything is well as long as `get_txPkt` never hands out a packet whose
slot is taken (`Spaced`).

* `queued_packet_unchanged` — in every such run a packet in flight holds the bytes
  and the length it was pushed with;
* `queued_packet_overwritten` — 1024 packets are queued and the builder fills the
  next one: the first packet in the queue has changed.
-/
import TradingEngine.TxPool

namespace TradingEngine

open FallibleRun

/-! ### What the sender does to the pool -/

/-- Two pools whose packets hold the same bytes. -/
def SameContent (pool pool' : PacketPool) : Prop :=
  ∀ k, (pool' k).data = (pool k).data ∧ (pool' k).len = (pool k).len

theorem SameContent.refl (pool : PacketPool) : SameContent pool pool := fun _ => ⟨rfl, rfl⟩

theorem SameContent.trans {pool pool' pool'' : PacketPool} (h : SameContent pool pool')
    (h' : SameContent pool' pool'') : SameContent pool pool'' :=
  fun k => ⟨(h' k).1.trans (h k).1, (h' k).2.trans (h k).2⟩

namespace SendSession

variable {pool : PacketPool} {s : SendSession ℕ} {t u : ℕ} {os : List SendResult}

/-- The packets a session has: the active one and those that wait. -/
def Has (s : SendSession ℕ) (t : ℕ) : Prop := s.activePkt = some t ∨ t ∈ s.pendWrite.items

theorem sameContent_send (pool : PacketPool) (s : SendSession ℕ) (t : ℕ) (os : List SendResult) :
    SameContent pool (s.send .byPool pool t os).1 := by
  intro k
  show ((Function.update pool (poolSlot t) _) k).data = _ ∧ _
  by_cases hk : k = poolSlot t
  · subst hk
    show (Function.update pool (poolSlot t) _ (poolSlot t)).data = _ ∧
      (Function.update pool (poolSlot t) _ (poolSlot t)).len = _
    rw [Function.update_self]
    exact ⟨rfl, rfl⟩
  · show (Function.update pool (poolSlot t) _ k).data = _ ∧
      (Function.update pool (poolSlot t) _ k).len = _
    rw [Function.update_of_ne hk]
    exact ⟨rfl, rfl⟩

theorem has_send (h : (s.send .byPool pool t os).2.1.Has u) : u = t ∨ u ∈ s.pendWrite.items := by
  rcases h with h | h
  · left
    change (if (sendLoop _ _ os).blocked then some t else none) = some u at h
    split at h
    · exact (Option.some.inj h).symm
    · exact absurd h (by simp)
  · exact .inr h

theorem has_enqueue (h : (s.enqueue t).2.Has u) : u = t ∨ s.Has u := by
  rcases h with h | h
  · exact .inr (.inl h)
  · change u ∈ (s.pendWrite.push t).items at h
    cases hfull : s.pendWrite.full with
    | true =>
      rw [RingBuffer.push, if_pos hfull] at h
      exact .inr (.inr h)
    | false =>
      rw [RingBuffer.items_push hfull] at h
      rcases List.mem_append.mp h with h | h
      · exact .inr (.inr h)
      · exact .inl (List.mem_singleton.mp h)

/-- `trySend` changes no bytes, and the session has at most the packet more. -/
theorem trySend_pool (pool : PacketPool) (s : SendSession ℕ) (t : ℕ) (os : List SendResult) :
    SameContent pool (s.trySend .byPool pool t os).1 ∧
      ∀ u, (s.trySend .byPool pool t os).2.2.Has u → u = t ∨ s.Has u := by
  rcases trySend_cases .byPool pool s t os with ⟨h, -⟩ | ⟨h, -⟩ | ⟨h, -⟩
  · rw [h]
    exact ⟨.refl pool, fun u hu => has_enqueue hu⟩
  · rw [h]
    exact ⟨.refl pool, fun u hu => .inr hu⟩
  · rw [h]
    refine ⟨sameContent_send pool s t os, fun u hu => ?_⟩
    rcases has_send hu with h | h
    · exact .inl h
    · exact .inr (.inr h)

theorem flush_pool (fuel : ℕ) (pool : PacketPool) (s : SendSession ℕ) (os : List SendResult) :
    SameContent pool (s.flush .byPool fuel pool os).1 ∧
      ∀ u, (s.flush .byPool fuel pool os).2.Has u → s.Has u := by
  induction fuel generalizing pool s os with
  | zero => exact ⟨.refl pool, fun u hu => hu⟩
  | succ fuel ih =>
    rw [flush]
    split
    · exact ⟨.refl pool, fun u hu => hu⟩
    · cases hpop : s.pendWrite.pop with
      | none => exact ⟨.refl pool, fun u hu => hu⟩
      | some r =>
        obtain ⟨t, q⟩ := r
        have hitems := RingBuffer.items_pop hpop
        obtain ⟨hsame, hhas⟩ := ih ({ s with pendWrite := q }.send .byPool pool t os).1
          ({ s with pendWrite := q }.send .byPool pool t os).2.1
          ({ s with pendWrite := q }.send .byPool pool t os).2.2
        refine ⟨(sameContent_send pool _ t os).trans hsame, fun u hu => .inr ?_⟩
        rw [hitems]
        rcases has_send (hhas u hu) with h | h
        · rw [h]
          exact List.mem_cons_self
        · exact List.mem_cons_of_mem _ h

theorem resume_pool {pool' : PacketPool} {s' : SendSession ℕ}
    (h : s.resume .byPool pool os = .ok (pool', s')) :
    SameContent pool pool' ∧ ∀ u, s'.Has u → s.Has u := by
  rw [resume] at h
  cases hactive : s.activePkt with
  | none =>
    rw [hactive] at h
    exact absurd h (by simp)
  | some t =>
    rw [hactive] at h
    simp only [Except.ok.injEq, Prod.mk.injEq] at h
    obtain ⟨rfl, rfl⟩ := h
    obtain ⟨hsame, hhas⟩ := flush_pool pendingCapacity (s.send .byPool pool t os).1
      (s.send .byPool pool t os).2.1 (s.send .byPool pool t os).2.2
    refine ⟨(sameContent_send pool s t os).trans hsame, fun u hu => ?_⟩
    rcases has_send (hhas u hu) with h | h
    · rw [h]
      exact .inl hactive
    · exact .inr h

theorem not_has_closeSocket (s : SendSession ℕ) (u : ℕ) : ¬ s.closeSocket.Has u := by
  rintro (h | h)
  · exact absurd h (by simp [closeSocket])
  · rw [items_closeSocket] at h
    exact absurd h List.not_mem_nil

end SendSession

/-! ### Packets in use -/

namespace TxSystem

variable {s s' : TxSystem} {t u : ℕ}

/-- The packet was pushed and its last byte is not sent. -/
def InFlight (s : TxSystem) (t : ℕ) : Prop :=
  t ∈ s.builderToSender.items ∨ s.sender = .popped t ∨ ∃ i, (s.sessions i).Has t

/-- The builder has the packet and has not pushed it. -/
def BuilderHolds (s : TxSystem) (t : ℕ) : Prop := s.builder = .got t ∨ s.builder = .filled t

/-- The network thread builds a login in the packet. -/
def LoginHolds (s : TxSystem) (t : ℕ) : Prop :=
  ∃ i, s.sender = .loginGot i t ∨ s.sender = .loginFilled i t

def InUse (s : TxSystem) (t : ℕ) : Prop := s.InFlight t ∨ s.BuilderHolds t ∨ s.LoginHolds t

/-- The packet that was handed out 1024 calls ago is no longer in use. -/
def Reusable (s : TxSystem) : Prop :=
  packetPoolCapacity ≤ s.nextTxPkt → ¬ s.InUse (s.nextTxPkt - packetPoolCapacity)

/-- `get_txPkt` is called only when the packet it hands out is no longer in use. -/
def Spaced (s : TxSystem) (m : TxMove) : Prop := s.callsGet m = true → s.Reusable

/-- The packet holds what it was pushed with. -/
def Unchanged (s : TxSystem) (t : ℕ) : Prop :=
  (s.pool (poolSlot t)).data = (s.snapshot t).data ∧ (s.pool (poolSlot t)).len = (s.snapshot t).len

/-- The invariant: packets in use were handed out by the last 1024 calls, those held
are not in flight, and those in flight have not changed. -/
structure Intact (s : TxSystem) : Prop where
  recent : ∀ t, s.InUse t → t < s.nextTxPkt ∧ s.nextTxPkt ≤ t + packetPoolCapacity
  builderApart : ∀ t, s.BuilderHolds t → ¬ s.InFlight t ∧ ¬ s.LoginHolds t
  loginApart : ∀ t, s.LoginHolds t → ¬ s.InFlight t
  same : ∀ t, s.InFlight t → s.Unchanged t

/-- Different packets in use have different slots. -/
theorem poolSlot_ne (h : Intact s) (ht : s.InUse t) (hu : s.InUse u) (hne : t ≠ u) :
    poolSlot t ≠ poolSlot u := by
  have h₁ := h.recent t ht
  have h₂ := h.recent u hu
  intro heq
  have hmod : t % 1024 = u % 1024 := congrArg Fin.val heq
  have hcap : packetPoolCapacity = 1024 := rfl
  omega

/-- A step that lets packets go and moves no bytes. -/
theorem intact_mono (h : Intact s) (hnext : s'.nextTxPkt = s.nextTxPkt)
    (hpool : SameContent s.pool s'.pool) (hsnap : s'.snapshot = s.snapshot)
    (hflight : ∀ t, s'.InFlight t → s.InFlight t)
    (hbuilder : ∀ t, s'.BuilderHolds t → s.BuilderHolds t)
    (hlogin : ∀ t, s'.LoginHolds t → s.LoginHolds t) : Intact s' := by
  refine ⟨fun t ht => ?_, fun t ht => ?_, fun t ht hf => ?_, fun t ht => ?_⟩
  · rw [hnext]
    exact h.recent t (ht.imp (hflight t) (Or.imp (hbuilder t) (hlogin t)))
  · obtain ⟨h₁, h₂⟩ := h.builderApart t (hbuilder t ht)
    exact ⟨fun hf => h₁ (hflight t hf), fun hl => h₂ (hlogin t hl)⟩
  · exact h.loginApart t (hlogin t ht) (hflight t hf)
  · obtain ⟨hd, hl⟩ := h.same t (hflight t ht)
    rw [Unchanged, hsnap, (hpool _).1, (hpool _).2]
    exact ⟨hd, hl⟩

/-- `get_txPkt`: the new number is nobody's, and everything in use is recent enough. -/
theorem intact_get (h : Intact s) (hreuse : s.Reusable) (hnext : s'.nextTxPkt = s.nextTxPkt + 1)
    (hpool : s'.pool = s.pool) (hsnap : s'.snapshot = s.snapshot)
    (hflight : ∀ t, s'.InFlight t → s.InFlight t)
    (hbuilder : ∀ t, s'.BuilderHolds t → s.BuilderHolds t ∨ t = s.nextTxPkt)
    (hlogin : ∀ t, s'.LoginHolds t → s.LoginHolds t ∨ t = s.nextTxPkt)
    (honce : ¬ (s'.BuilderHolds s.nextTxPkt ∧ s'.LoginHolds s.nextTxPkt)) : Intact s' := by
  have hfresh : ¬ s.InUse s.nextTxPkt := fun hu => by
    have := h.recent _ hu
    omega
  refine ⟨fun t ht => ?_, fun t ht => ?_, fun t ht hf => ?_, fun t ht => ?_⟩
  · have hold : s.InUse t ∨ t = s.nextTxPkt := by
      rcases ht with ht | ht | ht
      · exact .inl (.inl (hflight t ht))
      · exact (hbuilder t ht).imp (fun h => .inr (.inl h)) id
      · exact (hlogin t ht).imp (fun h => .inr (.inr h)) id
    rw [hnext]
    rcases hold with hold | rfl
    · obtain ⟨h₁, h₂⟩ := h.recent t hold
      -- the oldest number still allowed is the one that is not in use
      have hne : s.nextTxPkt ≠ t + packetPoolCapacity := by
        intro heq
        refine hreuse (by omega) ?_
        rw [heq, Nat.add_sub_cancel]
        exact hold
      omega
    · have hcap : packetPoolCapacity = 1024 := rfl
      omega
  · rcases hbuilder t ht with hb | rfl
    · obtain ⟨h₁, h₂⟩ := h.builderApart t hb
      refine ⟨fun hf => h₁ (hflight t hf), fun hl => ?_⟩
      rcases hlogin t hl with hl | rfl
      · exact h₂ hl
      · exact hfresh (.inr (.inl hb))
    · exact ⟨fun hf => hfresh (.inl (hflight _ hf)), fun hl => honce ⟨ht, hl⟩⟩
  · rcases hlogin t ht with hl | rfl
    · exact h.loginApart t hl (hflight t hf)
    · exact hfresh (.inl (hflight _ hf))
  · rw [Unchanged, hsnap, hpool]
    exact h.same t (hflight t ht)

/-- Filling a packet that is held: no packet in flight has its slot. -/
theorem intact_fill {pkt : TxPacket} (h : Intact s) (ht : s.BuilderHolds t ∨ s.LoginHolds t)
    (hnext : s'.nextTxPkt = s.nextTxPkt) (hpool : s'.pool = Function.update s.pool (poolSlot t) pkt)
    (hsnap : s'.snapshot = s.snapshot) (hflight : ∀ t, s'.InFlight t → s.InFlight t)
    (hbuilder : ∀ t, s'.BuilderHolds t → s.BuilderHolds t)
    (hlogin : ∀ t, s'.LoginHolds t → s.LoginHolds t) : Intact s' := by
  refine ⟨fun t ht => ?_, fun t ht => ?_, fun t ht hf => ?_, fun u hu => ?_⟩
  · rw [hnext]
    exact h.recent t (ht.imp (hflight t) (Or.imp (hbuilder t) (hlogin t)))
  · obtain ⟨h₁, h₂⟩ := h.builderApart t (hbuilder t ht)
    exact ⟨fun hf => h₁ (hflight t hf), fun hl => h₂ (hlogin t hl)⟩
  · exact h.loginApart t (hlogin t ht) (hflight t hf)
  · have hne : t ≠ u := by
      rintro rfl
      rcases ht with ht | ht
      · exact (h.builderApart t ht).1 (hflight t hu)
      · exact h.loginApart t ht (hflight t hu)
    have hslot := poolSlot_ne h (.inr ht) (.inl (hflight u hu)) hne
    rw [Unchanged, hsnap, hpool, Function.update_of_ne hslot.symm]
    exact h.same u (hflight u hu)

/-- A held packet goes on its way with what it holds now. -/
theorem intact_release (h : Intact s) (ht : s.BuilderHolds t ∨ s.LoginHolds t)
    (hnext : s'.nextTxPkt = s.nextTxPkt) (hpool : SameContent s.pool s'.pool)
    (hsnap : s'.snapshot = Function.update s.snapshot t (s.pool (poolSlot t)))
    (hflight : ∀ u, s'.InFlight u → u = t ∨ s.InFlight u)
    (hbuilder : ∀ u, s'.BuilderHolds u → s.BuilderHolds u ∧ u ≠ t)
    (hlogin : ∀ u, s'.LoginHolds u → s.LoginHolds u ∧ u ≠ t) : Intact s' := by
  refine ⟨fun u hu => ?_, fun u hu => ?_, fun u hu hf => ?_, fun u hu => ?_⟩
  · rw [hnext]
    rcases hu with hu | hu | hu
    · rcases hflight u hu with rfl | hu
      · exact h.recent u (.inr ht)
      · exact h.recent u (.inl hu)
    · exact h.recent u (.inr (.inl (hbuilder u hu).1))
    · exact h.recent u (.inr (.inr (hlogin u hu).1))
  · obtain ⟨hb, hne⟩ := hbuilder u hu
    obtain ⟨h₁, h₂⟩ := h.builderApart u hb
    exact ⟨fun hf => (hflight u hf).elim hne h₁, fun hl => h₂ (hlogin u hl).1⟩
  · obtain ⟨hl, hne⟩ := hlogin u hu
    exact (hflight u hf).elim hne (h.loginApart u hl)
  · rw [Unchanged, hsnap, (hpool _).1, (hpool _).2]
    by_cases hne : u = t
    · subst hne
      rw [Function.update_self]
      exact ⟨rfl, rfl⟩
    · rw [Function.update_of_ne hne]
      exact h.same u ((hflight u hu).resolve_left hne)

/-! ### The steps -/

/-- A step that changes one session and what the network thread has in hand. -/
theorem inFlight_of_session {index : UInt8} {session : SendSession ℕ}
    (hqueue : s'.builderToSender = s.builderToSender)
    (hsender : ∀ u, s'.sender = .popped u → s.InFlight u)
    (hsessions : s'.sessions = Function.update s.sessions index session)
    (hhas : ∀ u, session.Has u → s.InFlight u) (u : ℕ) (hu : s'.InFlight u) : s.InFlight u := by
  rcases hu with hu | hu | ⟨i, hu⟩
  · rw [hqueue] at hu
    exact .inl hu
  · exact hsender u hu
  · rw [hsessions] at hu
    by_cases hi : i = index
    · subst hi
      rw [Function.update_self] at hu
      exact hhas u hu
    · rw [Function.update_of_ne hi] at hu
      exact .inr (.inr ⟨i, hu⟩)

theorem inFlight_of_has {index : UInt8} (u : ℕ) (h : (s.sessions index).Has u) : s.InFlight u :=
  .inr (.inr ⟨index, h⟩)

theorem not_has_reopened (s : TxSystem) (index : UInt8) (u : ℕ) : ¬ (s.reopened index).Has u :=
  fun h => (s.sessions index).not_has_closeSocket u h

/-- A session that lets packets go. -/
theorem intact_setSession {index : UInt8} {session : SendSession ℕ} (h : Intact s)
    (hhas : ∀ u, session.Has u → s.InFlight u) : Intact (s.setSession index session) :=
  intact_mono h rfl (.refl _) rfl
    (inFlight_of_session rfl (fun _ hu => .inr (.inl hu)) rfl hhas) (fun _ hb => hb) fun _ hl => hl

theorem intact_beginLogin {index : UInt8} {session : SendSession ℕ} (h : Intact s)
    (hhas : ∀ u, session.Has u → s.InFlight u)
    (hreuse : session.loginDecider = .tryAgain → s.Reusable) :
    Intact (s.beginLogin index session) := by
  rw [beginLogin]
  cases hdec : session.loginDecider with
  | alreadyLoggedIn => exact intact_setSession h hhas
  | disconnect =>
    exact intact_setSession h fun u hu => absurd hu (session.not_has_closeSocket u)
  | tryAgain =>
    refine intact_get h (hreuse hdec) rfl rfl rfl
      (inFlight_of_session rfl (fun u hu => absurd hu (by simp)) rfl hhas)
      (fun t ht => .inl ht) ?_ ?_
    · rintro t ⟨i, ht | ht⟩
      · right
        exact (SenderPc.loginGot.inj ht).2.symm
      · exact absurd ht (by simp)
    · rintro ⟨hb, -⟩
      have := h.recent s.nextTxPkt (.inr (.inl hb))
      omega

theorem intact_builder {m : TxMove} (h : Intact s) (hs : s.Spaced m)
    (hm : m = .getTxPkt ∨ (∃ src index loginMsg, m = .fillPacket src index loginMsg) ∨ m = .push)
    (hstep : s.step m = .ok s') : Intact s' := by
  -- only the state the move is meant for moves; the others stay
  rcases hm with rfl | ⟨src, index, loginMsg, rfl⟩ | rfl
  · rw [step] at hstep
    cases hb : s.builder with
    | idle =>
      rw [hb, Except.ok.injEq] at hstep
      subst hstep
      have hreuse := hs (by simp [callsGet, hb])
      refine intact_get h hreuse rfl rfl rfl (fun t ht => ht) ?_ (fun t ht => .inl ht) ?_
      · rintro t (ht | ht)
        · right
          exact (BuilderPc.got.inj ht).symm
        · exact absurd ht (by simp)
      · rintro ⟨-, hl⟩
        have := h.recent s.nextTxPkt (.inr (.inr hl))
        omega
    | got t | filled t =>
      rw [hb, Except.ok.injEq] at hstep
      exact hstep ▸ h
  · rw [step] at hstep
    cases hb : s.builder with
    | got t =>
      rw [hb] at hstep
      obtain ⟨pkt, -, hstep⟩ := bind_eq_ok_iff.mp hstep
      rw [Except.ok.injEq] at hstep
      subst hstep
      refine intact_fill h (.inl (.inl hb)) rfl rfl rfl (fun u hu => hu) ?_ (fun u hu => hu)
      rintro u (hu | hu)
      · exact absurd hu (by simp)
      · rw [← BuilderPc.filled.inj hu]
        exact .inl hb
    | idle | filled t =>
      rw [hb, Except.ok.injEq] at hstep
      exact hstep ▸ h
  · rw [step] at hstep
    cases hb : s.builder with
    | filled t =>
      rw [hb, Except.ok.injEq] at hstep
      subst hstep
      refine intact_release h (.inl (.inr hb)) rfl (.refl _) rfl ?_ ?_ ?_
      · rintro u (hu | hu)
        · -- a full queue drops the slot
          change u ∈ (s.builderToSender.push t).items at hu
          by_cases hroom : s.builderToSender.items.length < packetQueueCapacity
          · rw [BoundedQueue.items_push hroom] at hu
            rcases List.mem_append.mp hu with hu | hu
            · exact .inr (.inl hu)
            · exact .inl (List.mem_singleton.mp hu)
          · rw [BoundedQueue.push, dif_neg hroom] at hu
            exact .inr (.inl hu)
        · exact .inr (.inr hu)
      · rintro u (hu | hu)
        · exact absurd hu (by simp)
        · exact absurd hu (by simp)
      · intro u hu
        refine ⟨hu, ?_⟩
        rintro rfl
        exact (h.builderApart u (.inr hb)).2 hu
    | idle | got t =>
      rw [hb, Except.ok.injEq] at hstep
      exact hstep ▸ h

theorem intact_pop (h : Intact s) (hstep : s.step .pop = .ok s') : Intact s' := by
  rw [step] at hstep
  split at hstep
  · rename_i t rest hidle hitems
    rw [Except.ok.injEq] at hstep
    subst hstep
    refine intact_mono h rfl (.refl _) rfl ?_ (fun _ hb => hb) ?_
    · rintro u (hu | hu | hu)
      · change u ∈ s.builderToSender.items.tail at hu
        exact .inl (List.mem_of_mem_tail hu)
      · rw [← SenderPc.popped.inj hu]
        exact .inl (by rw [hitems]; exact List.mem_cons_self)
      · exact .inr (.inr hu)
    · rintro u ⟨i, hu | hu⟩
      · exact absurd hu (by simp)
      · exact absurd hu (by simp)
  · rw [Except.ok.injEq] at hstep
    exact hstep ▸ h

theorem intact_trySend {os : List SendResult} (h : Intact s)
    (hstep : s.step (.trySend os) = .ok s') : Intact s' := by
  rw [step] at hstep
  cases hsend : s.sender with
  | popped t =>
    rw [hsend] at hstep
    dsimp only at hstep
    split at hstep
    · rw [Except.ok.injEq] at hstep
      subst hstep
      refine intact_mono h rfl (.refl _) rfl ?_ (fun _ hb => hb) ?_
      · rintro u (hu | hu | hu)
        · exact .inl hu
        · exact absurd hu (by simp)
        · exact .inr (.inr hu)
      · rintro u ⟨i, hu | hu⟩
        · exact absurd hu (by simp)
        · exact absurd hu (by simp)
    · rw [Except.ok.injEq] at hstep
      subst hstep
      obtain ⟨hsame, hhas⟩ := SendSession.trySend_pool s.pool
        (s.sessions (s.pool (poolSlot t)).sockIndex) t os
      refine intact_mono h rfl hsame rfl (inFlight_of_session rfl ?_ rfl ?_) (fun _ hb => hb) ?_
      · intro u hu
        exact absurd hu (by simp)
      · intro u hu
        rcases hhas u hu with rfl | hu
        · exact .inr (.inl hsend)
        · exact inFlight_of_has u hu
      · rintro u ⟨i, hu | hu⟩
        · exact absurd hu (by simp)
        · exact absurd hu (by simp)
  | idle | loginGot | loginFilled =>
    rw [hsend, Except.ok.injEq] at hstep
    exact hstep ▸ h

theorem intact_epollout {index : UInt8} {os : List SendResult} (h : Intact s)
    (hstep : s.step (.epollout index os) = .ok s') : Intact s' := by
  rw [step] at hstep
  dsimp only at hstep
  split at hstep
  · obtain ⟨⟨pool', session'⟩, hres, hstep⟩ := bind_eq_ok_iff.mp hstep
    rw [Except.ok.injEq] at hstep
    subst hstep
    obtain ⟨hsame, hhas⟩ := SendSession.resume_pool hres
    exact intact_mono h rfl hsame rfl
      (inFlight_of_session rfl (fun u hu => .inr (.inl hu)) rfl
        fun u hu => inFlight_of_has u (hhas u hu)) (fun _ hb => hb) fun _ hl => hl
  · rw [Except.ok.injEq] at hstep
    exact hstep ▸ h

theorem intact_loginFill {msg : List UInt8} (h : Intact s)
    (hstep : s.step (.loginFill msg) = .ok s') : Intact s' := by
  rw [step] at hstep
  cases hsend : s.sender with
  | loginGot index t =>
    rw [hsend] at hstep
    obtain ⟨pkt, -, hstep⟩ := bind_eq_ok_iff.mp hstep
    rw [Except.ok.injEq] at hstep
    subst hstep
    refine intact_fill h (.inr ⟨index, .inl hsend⟩) rfl rfl rfl ?_ (fun u hu => hu) ?_
    · rintro u (hu | hu | hu)
      · exact .inl hu
      · exact absurd hu (by simp)
      · exact .inr (.inr hu)
    · rintro u ⟨i, hu | hu⟩
      · exact absurd hu (by simp)
      · obtain ⟨rfl, rfl⟩ := SenderPc.loginFilled.inj hu
        exact ⟨index, .inl hsend⟩
  | idle | popped | loginFilled =>
    rw [hsend, Except.ok.injEq] at hstep
    exact hstep ▸ h

theorem intact_loginSend {os : List SendResult} (h : Intact s)
    (hstep : s.step (.loginSend os) = .ok s') : Intact s' := by
  rw [step] at hstep
  cases hsend : s.sender with
  | loginFilled index t =>
    rw [hsend, Except.ok.injEq] at hstep
    have hheld : s.LoginHolds t := ⟨index, .inr hsend⟩
    subst hstep
    refine intact_release h (.inr hheld) rfl 
      (SendSession.sameContent_send s.pool (s.sessions index) t os) rfl ?_ ?_ ?_
    · rintro u (hu | hu | ⟨i, hu⟩)
      · exact .inr (.inl hu)
      · exact absurd hu (by simp)
      · change (Function.update s.sessions index _ i).Has u at hu
        by_cases hi : i = index
        · subst hi
          rw [Function.update_self] at hu
          rcases SendSession.has_send hu with hu | hu
          · exact .inl hu
          · exact .inr (inFlight_of_has u (.inr hu))
        · rw [Function.update_of_ne hi] at hu
          exact .inr (.inr (.inr ⟨i, hu⟩))
    · intro u hu
      refine ⟨hu, ?_⟩
      rintro rfl
      exact (h.builderApart u hu).2 hheld
    · rintro u ⟨i, hu | hu⟩
      · exact absurd hu (by simp)
      · exact absurd hu (by simp)
  | idle | popped | loginGot =>
    rw [hsend, Except.ok.injEq] at hstep
    exact hstep ▸ h

/-- **One step.**  Where `get_txPkt` hands out no packet in use, every step keeps the
packets in flight as they were pushed. -/
theorem intact_step {m : TxMove} (h : Intact s) (hs : s.Spaced m) (hstep : s.step m = .ok s') :
    Intact s' := by
  cases m with
  | getTxPkt => exact intact_builder h hs (.inl rfl) hstep
  | fillPacket src index loginMsg =>
    exact intact_builder h hs (.inr (.inl ⟨src, index, loginMsg, rfl⟩)) hstep
  | push => exact intact_builder h hs (.inr (.inr rfl)) hstep
  | pop => exact intact_pop h hstep
  | trySend os => exact intact_trySend h hstep
  | epollout index os => exact intact_epollout h hstep
  | setupSocket index inProgress =>
    rw [step] at hstep
    split at hstep
    · rename_i hidle
      split at hstep
      · rw [Except.ok.injEq] at hstep
        exact hstep ▸ intact_setSession h fun u hu => absurd hu (s.not_has_reopened index u)
      · rename_i hnow
        rw [Except.ok.injEq] at hstep
        refine hstep ▸ intact_beginLogin h (fun u hu => absurd hu (s.not_has_reopened index u)) ?_
        intro hdec
        exact hs (by simp [callsGet, hidle, hnow, hdec])
    · rw [Except.ok.injEq] at hstep
      exact hstep ▸ h
  | connectionMade index =>
    rw [step] at hstep
    split at hstep
    · rename_i hcond
      rw [Except.ok.injEq] at hstep
      refine hstep ▸ intact_beginLogin h (fun u hu => inFlight_of_has u hu) ?_
      intro hdec
      exact hs (by simp [callsGet, hcond.1, hcond.2, hdec])
    · rw [Except.ok.injEq] at hstep
      exact hstep ▸ h
  | loginFill msg => exact intact_loginFill h hstep
  | loginSend os => exact intact_loginSend h hstep
  | closeSocket index =>
    rw [step] at hstep
    split at hstep
    · rw [Except.ok.injEq] at hstep
      exact hstep ▸ intact_setSession h fun u hu => absurd hu (SendSession.not_has_closeSocket _ u)
    · rw [Except.ok.injEq] at hstep
      exact hstep ▸ h
  | sessionState index loggedIn loginRetryCount =>
    rw [step, Except.ok.injEq] at hstep
    exact hstep ▸ intact_setSession h fun u hu => inFlight_of_has u hu

/-- Nothing has been handed out. -/
def start (sessions : UInt8 → SendSession ℕ) : TxSystem := { sessions := sessions }

theorem intact_start {sessions : UInt8 → SendSession ℕ} (hempty : ∀ i t, ¬ (sessions i).Has t) :
    Intact (start sessions) := by
  have hnone : ∀ t, ¬ (start sessions).InUse t := by
    rintro t ((ht | ht | ⟨i, ht⟩) | (ht | ht) | ⟨i, ht | ht⟩)
    · exact absurd ht List.not_mem_nil
    · exact absurd ht (by simp [start])
    · exact hempty i t ht
    · exact absurd ht (by simp [start])
    · exact absurd ht (by simp [start])
    · exact absurd ht (by simp [start])
    · exact absurd ht (by simp [start])
  exact ⟨fun t ht => absurd ht (hnone t), fun t ht => absurd (.inr (.inl ht)) (hnone t),
    fun t ht => absurd (.inr (.inr ht)) (hnone t), fun t ht => absurd (.inl ht) (hnone t)⟩

end TxSystem

/-- **A queued packet is never overwritten**, as long as `get_txPkt` hands out no packet
in use: in every run of the builder and the network thread, a packet in flight holds the
bytes and the length it was pushed with. -/
theorem queued_packet_unchanged {sessions : UInt8 → SendSession ℕ}
    (hempty : ∀ i t, ¬ (sessions i).Has t) {moves : List TxMove}
    (hspaced : Along TxSystem.step TxSystem.Spaced (TxSystem.start sessions) moves)
    {s : TxSystem} (hrun : exec TxSystem.step (TxSystem.start sessions) moves = .ok s) :
    ∀ t, s.InFlight t →
      (s.pool (poolSlot t)).data = (s.snapshot t).data ∧
        (s.pool (poolSlot t)).len = (s.snapshot t).len := by
  have hinv : s.Intact :=
    exec_inv_along (fun _ _ _ h hs hstep => TxSystem.intact_step h hs hstep)
      (TxSystem.intact_start hempty) hspaced hrun
  exact hinv.same

/-! ### A full queue -/

/-- The builder takes the next packet and fills it with one byte. -/
def fillOne (b : UInt8) : List TxMove := [.getTxPkt, .fillPacket [b] 0 false]

/-- The builder sends a packet with one byte. -/
def buildOne (b : UInt8) : List TxMove := fillOne b ++ [.push]

theorem exec_fillOne {s : TxSystem} (hidle : s.builder = .idle) (b : UInt8) :
    ∃ pkt : TxPacket, pkt.bytes = [b] ∧
      exec TxSystem.step s (fillOne b) =
        .ok { s with
          nextTxPkt := s.nextTxPkt + 1
          pool := Function.update s.pool (poolSlot s.nextTxPkt) pkt
          builder := .filled s.nextTxPkt } := by
  have hfits : [b].length ≤ packetSize := by simp
  obtain ⟨pkt, hpkt, hbytes, -, -⟩ :=
    (s.pool (poolSlot s.nextTxPkt)).fillPacket_of_le 0 false hfits
  have hget : s.step .getTxPkt =
      .ok { s with builder := .got s.nextTxPkt, nextTxPkt := s.nextTxPkt + 1 } := by
    rw [TxSystem.step, hidle]
  refine ⟨pkt, hbytes, ?_⟩
  rw [fillOne, exec_cons_ok _ hget]
  refine exec_cons_ok [] ?_
  rw [TxSystem.step]
  dsimp only
  rw [hpkt]
  rfl

/-- No session has anything to send. -/
def quietSessions : UInt8 → SendSession ℕ := fun _ => { pendWrite := ⟨fun _ => 0, 0, 0⟩ }

theorem quietSessions_empty (i : UInt8) (t : ℕ) : ¬ (quietSessions i).Has t := by
  rintro (h | h)
  · exact absurd h (by simp [quietSessions])
  · exact absurd h List.not_mem_nil

/-- One packet: it is in flight with the byte it was filled with. -/
theorem queued_packet_unchanged_once :
    ∃ s, exec TxSystem.step (TxSystem.start quietSessions) (buildOne 0x41) = .ok s ∧
      s.InFlight 0 ∧ (s.pool (poolSlot 0)).data = (s.snapshot 0).data := by
  have hspaced : Along TxSystem.step TxSystem.Spaced (TxSystem.start quietSessions)
      (buildOne 0x41) := by
    refine ⟨fun _ hle => absurd hle (by decide), fun _ _ => ⟨fun h => ?_, fun _ _ => ⟨fun h => ?_,
      fun _ _ => trivial⟩⟩⟩
    · exact absurd h (by simp [TxSystem.callsGet])
    · exact absurd h (by simp [TxSystem.callsGet])
  have hqueue : (exec TxSystem.step (TxSystem.start quietSessions) (buildOne 0x41)).map
      (fun s => s.builderToSender.items) = .ok [0] := rfl
  obtain ⟨s, hrun, hitems⟩ := map_eq_ok_iff.mp hqueue
  have hflight : s.InFlight 0 := .inl (by rw [hitems]; exact List.mem_singleton_self 0)
  exact ⟨s, hrun, hflight, (queued_packet_unchanged quietSessions_empty hspaced hrun 0 hflight).1⟩

/-- The first packet is queued with the byte `0x41`, and `n` packets have been handed
out. -/
structure Queued (s : TxSystem) (n : ℕ) : Prop where
  next : s.nextTxPkt = n
  idle : s.builder = .idle
  length : s.builderToSender.items.length = n
  first : 0 ∈ s.builderToSender.items
  snapshot : (s.snapshot 0).bytes = [0x41]

/-- Another packet, while the queue has room. -/
theorem queued_buildOne {s : TxSystem} {n : ℕ} (h : Queued s n) (hroom : n < packetQueueCapacity)
    (b : UInt8) : ∃ s', exec TxSystem.step s (buildOne b) = .ok s' ∧ Queued s' (n + 1) := by
  obtain ⟨pkt, -, hfill⟩ := exec_fillOne h.idle b
  have hfirst := h.first
  have hlen := h.length
  have hpos : 0 < n := by
    rw [← hlen]
    exact List.length_pos_of_mem hfirst
  have hpush := BoundedQueue.items_push (q := s.builderToSender) (a := s.nextTxPkt) (by omega)
  refine ⟨{ s with
    nextTxPkt := s.nextTxPkt + 1
    pool := Function.update s.pool (poolSlot s.nextTxPkt) pkt
    builderToSender := s.builderToSender.push s.nextTxPkt
    builder := .idle
    snapshot := Function.update s.snapshot s.nextTxPkt
      (Function.update s.pool (poolSlot s.nextTxPkt) pkt (poolSlot s.nextTxPkt)) }, ?_, ?_⟩
  · exact exec_append_eq_ok_iff.mpr ⟨_, hfill, rfl⟩
  · refine ⟨congrArg (· + 1) h.next, rfl, ?_, ?_, ?_⟩
    · show (s.builderToSender.push s.nextTxPkt).items.length = n + 1
      rw [hpush, List.length_append, hlen, List.length_singleton]
    · show 0 ∈ (s.builderToSender.push s.nextTxPkt).items
      rw [hpush]
      exact List.mem_append_left _ hfirst
    · show (Function.update s.snapshot s.nextTxPkt _ 0).bytes = [0x41]
      rw [Function.update_of_ne (by rw [h.next]; omega)]
      exact h.snapshot

/-- The builder sends `n` packets and nobody takes one. -/
theorem queued_buildMany (n : ℕ) (hn : n < packetQueueCapacity) :
    ∃ s, exec TxSystem.step (TxSystem.start quietSessions)
        (List.replicate (n + 1) (buildOne 0x41)).flatten = .ok s ∧ Queued s (n + 1) := by
  induction n with
  | zero =>
    have hrun : (exec TxSystem.step (TxSystem.start quietSessions) (buildOne 0x41)).map
        (fun s => (s.nextTxPkt, s.builder, s.builderToSender.items, (s.snapshot 0).bytes)) =
          .ok (1, .idle, [0], [0x41]) := rfl
    obtain ⟨s, hs, heq⟩ := map_eq_ok_iff.mp hrun
    simp only [Prod.mk.injEq] at heq
    refine ⟨s, by rw [List.replicate_one, List.flatten_singleton]; exact hs, heq.1, heq.2.1, ?_, ?_,
      heq.2.2.2⟩
    · rw [heq.2.2.1]
      rfl
    · rw [heq.2.2.1]
      exact List.mem_singleton_self 0
  | succ n ih =>
    obtain ⟨s, hs, hq⟩ := ih (by omega)
    obtain ⟨s', hs', hq'⟩ := queued_buildOne hq hn 0x41
    refine ⟨s', ?_, hq'⟩
    rw [List.replicate_succ', List.flatten_append, List.flatten_singleton]
    exact exec_append_eq_ok_iff.mpr ⟨s, hs, hs'⟩

/-- **A queued packet is overwritten.**  The queue holds the 1024 packets of the pool;
the builder takes the next packet, which is the first one again, and fills it. -/
theorem queued_packet_overwritten :
    ∃ s, exec TxSystem.step (TxSystem.start quietSessions)
        ((List.replicate packetPoolCapacity (buildOne 0x41)).flatten ++ fillOne 0x42) = .ok s ∧
      s.InFlight 0 ∧ (s.snapshot 0).bytes = [0x41] ∧ (s.pool (poolSlot 0)).bytes = [0x42] ∧
      ¬ s.Unchanged 0 := by
  obtain ⟨s, hs, hq⟩ := queued_buildMany 1023 (by decide)
  have hslot : poolSlot s.nextTxPkt = poolSlot 0 := by
    rw [hq.next]
    rfl
  obtain ⟨pkt, hbytes, hfill⟩ := exec_fillOne hq.idle 0x42
  have hpool : Function.update s.pool (poolSlot s.nextTxPkt) pkt (poolSlot 0) = pkt := by
    rw [hslot, Function.update_self]
  refine ⟨_, exec_append_eq_ok_iff.mpr ⟨s, hs, hfill⟩, .inl hq.first, hq.snapshot, ?_, ?_⟩
  · show (Function.update s.pool (poolSlot s.nextTxPkt) pkt (poolSlot 0)).bytes = [0x42]
    rw [hpool, hbytes]
  · rintro ⟨hdata, hlen⟩
    change (Function.update s.pool (poolSlot s.nextTxPkt) pkt (poolSlot 0)).data = _ at hdata
    change (Function.update s.pool (poolSlot s.nextTxPkt) pkt (poolSlot 0)).len = _ at hlen
    rw [hpool] at hdata hlen
    have hsame : pkt.bytes = (s.snapshot 0).bytes := by
      rw [TxPacket.bytes, TxPacket.bytes, hdata, hlen]
    rw [hbytes, hq.snapshot] at hsame
    exact absurd hsame (by decide)

end TradingEngine
