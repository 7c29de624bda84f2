/-
In-order, exactly-once delivery of FIX application messages.

The messages of a FIX session arrive in any order, with gaps and duplicates.
`parseFIX` is meant to hand the application messages on in sequence: those
below the first number that is still missing, each once, and nothing else.

The invariant is `Caught`: with `e` the number expected at the start, all
numbers from `e` up to the expected one have been received, the application
messages among them have been delivered in order, and the pending map holds the
received messages from the expected number on.  It holds before and after every
round of the draining loop; when the loop stops, the expected number is the
first one missing (`InOrder`).

* `fix_in_order_exactly_once` — so it is after every run, as long as some number
  from `e` on has not been received;
* `wrapped_number_delivered_again` — once the last 32-bit number has been
  received the expected number starts over at 0, and a number below `e` is
  delivered.
-/
import TradingEngine.FixSession

namespace TradingEngine

open FallibleRun FixDispatch

/-! ### What a run should deliver -/

/-- The messages that arrive in a run. -/
def arrivals : List FixEvent → List FIXVariant
  | [] => []
  | .arrive t _ :: es => t.variant :: arrivals es
  | .releaseApp _ :: es => arrivals es
  | .releaseSes _ :: es => arrivals es

/-- An application message, or a session message other than Logon and
SequenceReset. -/
def FIXVariant.Ordinary : FIXVariant → Prop
  | .app _ => True
  | .ses msg => msg.msgType ≠ FIXTypes.logon.code ∧ msg.msgType ≠ FIXTypes.sequenceReset.code

/-- A message with this number is among those received. -/
def Received (msgs : List FIXVariant) (n : UInt32) : Prop := ∃ v ∈ msgs, v.seqnum = n

/-- `m` is the first number from `e` on that has not been received. -/
structure IsFirstMissing (e : UInt32) (msgs : List FIXVariant) (m : UInt32) : Prop where
  from_le : e ≤ m
  before : ∀ n, e ≤ n → n < m → Received msgs n
  missing : ¬ Received msgs m

/-- The `FIXMessage` items pushed to `parser_to_store_`. -/
def FixDispatch.stored (d : FixDispatch) : List FIXMessage := d.parserToStore.filterMap FIXVariant.app?

/-- The application messages with numbers from `e` up to `m`, in increasing order
and each once. -/
structure InSequence (e m : UInt32) (msgs : List FIXVariant) (out : List FIXMessage) : Prop where
  increasing : out.Pairwise fun a b => a.seqnum < b.seqnum
  exact : ∀ msg, msg ∈ out ↔ .app msg ∈ msgs ∧ e ≤ msg.seqnum ∧ msg.seqnum < m

/-- From `d`, with `e` expected and nothing pending, the messages `msgs` have led
to `d'`: the first missing number is expected, what is below it has been
delivered and what is above it is pending. -/
structure InOrder (e : UInt32) (msgs : List FIXVariant) (d d' : FixDispatch) : Prop where
  first : IsFirstMissing e msgs d'.expected
  delivered : ∃ out, d'.stored = d.stored ++ out ∧ InSequence e d'.expected msgs out
  pending : ∀ k v, d'.pendingToStoreMap.find? k = some v ↔
    v ∈ msgs ∧ v.seqnum = k ∧ d'.expected < k

/-- One message per sequence number. -/
def OnePerNumber (msgs : List FIXVariant) : Prop :=
  ∀ v ∈ msgs, ∀ w ∈ msgs, v.seqnum = w.seqnum → v = w

/-- Neither free list runs out on the next message: a session message takes one
record for itself and at most two for `resend_logic`. -/
def PoolsHold (d : FixDispatch) (_ : FixEvent) : Prop :=
  1 ≤ d.freeFixMsgList.length ∧ 3 ≤ d.freeFixSesMsgList.length

/-! ### The invariant of the draining loop -/

/-- `InOrder` without the last word on the expected number, which may be pending
itself. -/
structure Caught (e : UInt32) (msgs : List FIXVariant) (d d' : FixDispatch) : Prop where
  from_le : e ≤ d'.expected
  before : ∀ n, e ≤ n → n < d'.expected → Received msgs n
  delivered : ∃ out, d'.stored = d.stored ++ out ∧ InSequence e d'.expected msgs out
  pending : ∀ k v, d'.pendingToStoreMap.find? k = some v ↔
    v ∈ msgs ∧ v.seqnum = k ∧ d'.expected ≤ k

/-- `Caught` with nothing said about the expected number itself. -/
structure Reached (e : UInt32) (msgs : List FIXVariant) (d d' : FixDispatch) : Prop where
  from_le : e ≤ d'.expected
  before : ∀ n, e ≤ n → n < d'.expected → Received msgs n
  delivered : ∃ out, d'.stored = d.stored ++ out ∧ InSequence e d'.expected msgs out
  pending : ∀ k v, k ≠ d'.expected →
    (d'.pendingToStoreMap.find? k = some v ↔ v ∈ msgs ∧ v.seqnum = k ∧ d'.expected ≤ k)

/-- Nothing that delivery depends on differs. -/
structure SameView (d d' : FixDispatch) : Prop where
  expected : d'.expected = d.expected
  stored : d'.stored = d.stored
  pending : d'.pendingToStoreMap = d.pendingToStoreMap

variable {e : UInt32} {msgs : List FIXVariant} {v : FIXVariant} {d d₀ d' d'' : FixDispatch}

theorem SameView.trans (h : SameView d d') (h' : SameView d' d'') : SameView d d'' :=
  ⟨h'.expected.trans h.expected, h'.stored.trans h.stored, h'.pending.trans h.pending⟩

theorem Caught.congr (h : Caught e msgs d₀ d) (hv : SameView d d') : Caught e msgs d₀ d' where
  from_le := by rw [hv.expected]; exact h.from_le
  before := by rw [hv.expected]; exact h.before
  delivered := by rw [hv.expected, hv.stored]; exact h.delivered
  pending := by rw [hv.expected, hv.pending]; exact h.pending

theorem Caught.reached (h : Caught e msgs d₀ d) : Reached e msgs d₀ d :=
  ⟨h.from_le, h.before, h.delivered, fun k v _ => h.pending k v⟩

/-- When the expected number has not been received, everything is in order. -/
theorem inOrder_iff :
    InOrder e msgs d₀ d ↔ Caught e msgs d₀ d ∧ ¬ Received msgs d.expected := by
  constructor
  · intro h
    refine ⟨⟨h.first.from_le, h.first.before, h.delivered, fun k v => ?_⟩, h.first.missing⟩
    rw [h.pending k v]
    refine and_congr_right fun hv => and_congr_right fun hk => ⟨le_of_lt, fun hle => ?_⟩
    refine lt_of_le_of_ne hle fun heq => h.first.missing ⟨v, hv, ?_⟩
    rw [hk, heq]
  · rintro ⟨h, hmiss⟩
    refine ⟨⟨h.from_le, h.before, hmiss⟩, h.delivered, fun k v => ?_⟩
    rw [h.pending k v]
    refine and_congr_right fun hv => and_congr_right fun hk => ⟨fun hle => ?_, le_of_lt⟩
    refine lt_of_le_of_ne hle fun heq => hmiss ⟨v, hv, ?_⟩
    rw [hk, heq]

/-! ### The pieces of `parseFIX` -/

theorem handleSesMsg_fix {msg : FIXSessionMessage} (h : (FIXVariant.ses msg).Ordinary)
    (state : SessionState) : (handleSesMsg msg state).2.fix = state.fix := by
  obtain ⟨hlogon, hreset⟩ := h
  rw [handleSesMsg, if_neg hreset, if_neg hlogon]
  repeat' split
  all_goals rfl

theorem sameView_handleSes {msg : FIXSessionMessage} (h : (FIXVariant.ses msg).Ordinary)
    (d : FixDispatch) : SameView d (d.handleSes msg) := by
  have hfix := handleSesMsg_fix h d.state
  rw [handleSes]
  split
  · exact ⟨congrArg SequenceFIX.expectedSeqnum hfix, rfl, rfl⟩
  · exact ⟨congrArg SequenceFIX.expectedSeqnum hfix, rfl, rfl⟩

theorem sameView_toStore_ses (d : FixDispatch) (msg : FIXSessionMessage) :
    SameView d (d.toStore (.ses msg)) := by
  refine ⟨rfl, ?_, rfl⟩
  simp [stored, toStore, FIXVariant.app?]

theorem stored_toStore_app (d : FixDispatch) (msg : FIXMessage) :
    (d.toStore (.app msg)).stored = d.stored ++ [msg] := by
  simp [stored, toStore, FIXVariant.app?]

theorem popFixMsg_ok (h : 1 ≤ d.freeFixMsgList.length) :
    ∃ d', d.popFixMsg = .ok d' ∧ SameView d d' := by
  rw [popFixMsg]
  cases hl : d.freeFixMsgList with
  | nil =>
    rw [hl] at h
    exact absurd h (by simp)
  | cons r rest => exact ⟨_, rfl, rfl, rfl, rfl⟩

theorem popFixSesMsg_ok (h : 3 ≤ d.freeFixSesMsgList.length) :
    ∃ d', d.popFixSesMsg = .ok d' ∧ 2 ≤ d'.freeFixSesMsgList.length ∧ SameView d d' := by
  rw [popFixSesMsg]
  cases hl : d.freeFixSesMsgList with
  | nil =>
    rw [hl] at h
    exact absurd h (by simp)
  | cons r rest =>
    rw [hl, List.length_cons] at h
    exact ⟨_, rfl, by show 2 ≤ rest.length; omega, rfl, rfl, rfl⟩

theorem sendSes_ok {n : ℕ} (fill : FIXSessionMessage → FIXSessionMessage)
    (h : n + 1 ≤ d.freeFixSesMsgList.length) :
    ∃ d', d.sendSes fill = .ok d' ∧ n ≤ d'.freeFixSesMsgList.length ∧ SameView d d' := by
  rw [sendSes]
  cases hl : d.freeFixSesMsgList with
  | nil =>
    rw [hl] at h
    exact absurd h (by simp)
  | cons r rest =>
    rw [hl, List.length_cons] at h
    exact ⟨_, rfl, by show n ≤ rest.length; omega, rfl, rfl, rfl⟩

/-- Both branches of `resend_logic` send session messages only. -/
theorem resendLogic_ok (n : UInt32) (now : ℕ) (h : 2 ≤ d.freeFixSesMsgList.length) :
    ∃ d', d.resendLogic n now = .ok d' ∧ SameView d d' := by
  rw [resendLogic]
  split
  · obtain ⟨d₁, h₁, -, hv⟩ := sendSes_ok (d := d) (n := 1) (fun msg =>
      { msg with
        beginSeqnum := d.expected
        endSeqnum := n
        msgType := FIXTypes.resendRequest.code }) h
    rw [h₁]
    exact ⟨_, rfl, hv.expected, hv.stored, hv.pending⟩
  · obtain ⟨d₁, h₁, hlen, hv₁⟩ := sendSes_ok (d := d) (n := 1)
      (fun msg => { msg with msgType := FIXTypes.logout.code }) h
    obtain ⟨d₂, h₂, -, hv₂⟩ := sendSes_ok (d := d₁) (n := 0)
      (fun msg => { msg with msgType := FIXTypes.logon.code }) hlen
    have hv := hv₁.trans hv₂
    simp only [h₁, h₂, bind, Except.bind]
    exact ⟨_, rfl, hv.expected, hv.stored, hv.pending⟩

/-! ### One round of the draining loop -/

/-- A number that is still missing bounds what has been received in sequence, so
counting on does not wrap. -/
theorem toNat_expected_succ (h : Reached e msgs d₀ d) (hrec : Received msgs d.expected)
    {n : UInt32} (hn : e ≤ n) (hmiss : ¬ Received msgs n) :
    (d.expected + 1).toNat = d.expected.toNat + 1 := by
  have hlt : d.expected < n := by
    refine lt_of_le_of_ne (not_lt.mp fun hlt => hmiss (h.before n hn hlt)) fun heq => ?_
    exact hmiss (heq ▸ hrec)
  have hlt' := UInt32.lt_iff_toNat_lt.mp hlt
  have hn' := n.toNat_lt
  rw [UInt32.toNat_add]
  show (d.expected.toNat + 1) % 2 ^ 32 = _
  omega

theorem lt_succ_iff {a b c : UInt32} (hb : b.toNat = c.toNat + 1) : a < b ↔ a < c ∨ a = c := by
  rw [UInt32.lt_iff_toNat_lt, UInt32.lt_iff_toNat_lt, ← UInt32.toNat_inj]
  omega

/-- **What accepting the expected message does to the invariant.**  `d` holds
everything up to its expected number; `d'` has counted that number and keeps the
rest pending. -/
theorem Reached.accept (h : Reached e msgs d₀ d) (hone : OnePerNumber msgs)
    (hv : v ∈ msgs) (hseq : v.seqnum = d.expected) {n : UInt32} (hn : e ≤ n)
    (hmiss : ¬ Received msgs n) (hexp : d'.expected = d.expected + 1)
    (hstored : d'.stored = d.stored ++ v.app?.toList)
    (hpend : ∀ k, d'.pendingToStoreMap.find? k =
      if k = d.expected then none else d.pendingToStoreMap.find? k) :
    Caught e msgs d₀ d' := by
  have hsucc : d'.expected.toNat = d.expected.toNat + 1 := by
    rw [hexp, toNat_expected_succ h ⟨v, hv, hseq⟩ hn hmiss]
  have hlt : ∀ {a : UInt32}, a < d'.expected ↔ a < d.expected ∨ a = d.expected :=
    lt_succ_iff hsucc
  have hle : d.expected ≤ d'.expected := le_of_lt (hlt.mpr (.inr rfl))
  obtain ⟨out, hout, hinc, hexact⟩ := h.delivered
  refine ⟨h.from_le.trans hle, fun k hk hk' => ?_, ?_, fun k w => ?_⟩
  · -- everything below the new number has come
    rcases hlt.mp hk' with hk' | rfl
    · exact h.before k hk hk'
    · exact ⟨v, hv, hseq⟩
  · -- the new item, if there is one, has the largest number so far
    refine ⟨out ++ v.app?.toList, ?_, ?_, fun msg => ?_⟩
    · rw [hstored, hout, List.append_assoc]
    · cases v with
      | ses msg => simpa [FIXVariant.app?] using hinc
      | app msg =>
        refine List.pairwise_append.mpr ⟨hinc, List.pairwise_singleton _ _, fun a ha b hb => ?_⟩
        have hseq' : msg.seqnum = d.expected := hseq
        rw [List.mem_singleton.mp hb, hseq']
        exact ((hexact a).mp ha).2.2
    · rw [List.mem_append, hexact, hlt]
      cases v with
      | ses s =>
        simp only [FIXVariant.app?, Option.toList_none, List.not_mem_nil, or_false]
        refine and_congr_right fun hmem => and_congr_right fun _ => (or_iff_left fun heq => ?_).symm
        exact FIXVariant.noConfusion (hone _ hmem _ hv (heq.trans hseq.symm))
      | app m =>
        simp only [FIXVariant.app?, Option.toList_some, List.mem_singleton]
        constructor
        · rintro (⟨hmem, he, hlt'⟩ | rfl)
          · exact ⟨hmem, he, .inl hlt'⟩
          · have hseq' : msg.seqnum = d.expected := hseq
            exact ⟨hv, hseq' ▸ h.from_le, .inr hseq'⟩
        · rintro ⟨hmem, he, hlt' | heq⟩
          · exact .inl ⟨hmem, he, hlt'⟩
          · exact .inr (FIXVariant.app.inj (hone _ hmem _ hv (heq.trans hseq.symm)))
  · -- the accepted number is pending no more
    have hle' : d'.expected ≤ k ↔ d.expected ≤ k ∧ k ≠ d.expected := by
      rw [← not_lt, hlt, not_or, not_lt]
    rw [hpend, hle']
    split
    · rename_i hk
      simp [hk]
    · rename_i hk
      rw [h.pending k w hk]
      simp [hk]

theorem pendingToStoreMap_proceedPendingFIX (hord : v.Ordinary)
    (d : FixDispatch) : (d.proceedPendingFIX v).increaseExpectedSeq.pendingToStoreMap =
      d.pendingToStoreMap.erase v.seqnum := by
  cases v with
  | app msg => rfl
  | ses msg =>
    rw [proceedPendingFIX, if_pos hord.1, ← (sameView_handleSes hord d).pending]
    rfl

theorem expected_proceedPendingFIX (hord : v.Ordinary) (d : FixDispatch) :
    (d.proceedPendingFIX v).increaseExpectedSeq.expected = d.expected + 1 := by
  cases v with
  | app msg => rfl
  | ses msg =>
    rw [proceedPendingFIX, if_pos hord.1, ← (sameView_handleSes hord d).expected]
    rfl

theorem stored_proceedPendingFIX (hord : v.Ordinary) (d : FixDispatch) :
    (d.proceedPendingFIX v).increaseExpectedSeq.stored = d.stored ++ v.app?.toList := by
  cases v with
  | app msg => exact stored_toStore_app d msg
  | ses msg =>
    rw [proceedPendingFIX, if_pos hord.1, ← (sameView_handleSes hord d).stored]
    exact (List.append_nil _).symm

/-- **The draining loop ends, with the first missing number expected.** -/
theorem drainPending_ok (hone : OnePerNumber msgs) (hord : ∀ v ∈ msgs, v.Ordinary) {n : UInt32}
    (hn : e ≤ n) (hmiss : ¬ Received msgs n) {fuel : ℕ} (h : Caught e msgs d₀ d)
    (hfuel : d.pendingToStoreMap.entries.length < fuel) :
    ∃ d', drainPending fuel d = .ok d' ∧ InOrder e msgs d₀ d' := by
  -- each round erases the entry it finds
  induction fuel generalizing d with
  | zero => omega
  | succ fuel ih =>
    rw [drainPending]
    cases hfind : d.pendingToStoreMap.find? d.expected with
    | none =>
      refine ⟨d, rfl, inOrder_iff.mpr ⟨h, ?_⟩⟩
      rintro ⟨v, hv, hseq⟩
      have hsome := (h.pending d.expected v).mpr ⟨hv, hseq, le_rfl⟩
      rw [hfind] at hsome
      exact absurd hsome (by simp)
    | some v =>
      obtain ⟨hv, hseq, -⟩ := (h.pending d.expected v).mp hfind
      have hov := hord v hv
      have hpend : ∀ k, (d.proceedPendingFIX v).increaseExpectedSeq.pendingToStoreMap.find? k =
          if k = d.expected then none else d.pendingToStoreMap.find? k := by
        intro k
        rw [pendingToStoreMap_proceedPendingFIX hov, hseq, SortedMap.find?_erase]
      have hlen : (d.proceedPendingFIX v).increaseExpectedSeq.pendingToStoreMap.entries.length
          < d.pendingToStoreMap.entries.length := by
        rw [pendingToStoreMap_proceedPendingFIX hov, hseq]
        exact SortedMap.length_erase_lt hfind
      exact ih (h.reached.accept hone hv hseq hn hmiss (expected_proceedPendingFIX hov d)
        (stored_proceedPendingFIX hov d) hpend) (by omega)

/-! ### One message -/

theorem mem_of_received (hone : OnePerNumber (msgs ++ [v])) (h : Received msgs v.seqnum) :
    v ∈ msgs := by
  obtain ⟨w, hw, hseq⟩ := h
  have hwv : w = v := hone w (List.mem_append_left _ hw) v (by simp) hseq
  exact hwv ▸ hw

/-- A message that is not new among the numbers already delivered changes nothing
about them. -/
theorem InSequence.append {m : UInt32} {out : List FIXMessage} (h : InSequence e m msgs out)
    (hv : e ≤ v.seqnum → v.seqnum < m → v ∈ msgs) : InSequence e m (msgs ++ [v]) out := by
  refine ⟨h.increasing, fun msg => ?_⟩
  rw [h.exact]
  constructor
  · rintro ⟨hmem, hrange⟩
    exact ⟨List.mem_append_left _ hmem, hrange⟩
  · rintro ⟨hmem, he, hm⟩
    rcases List.mem_append.mp hmem with hmem | hmem
    · exact ⟨hmem, he, hm⟩
    · have hmsg : FIXVariant.app msg = v := List.mem_singleton.mp hmem
      subst hmsg
      exact ⟨hv he hm, he, hm⟩

theorem Received.append {n : UInt32} (h : Received msgs n) : Received (msgs ++ [v]) n := by
  obtain ⟨w, hw, hseq⟩ := h
  exact ⟨w, List.mem_append_left _ hw, hseq⟩

/-- A message numbered at most as expected leaves a state in order as it is, up
to the expected number. -/
theorem InOrder.reached_append (h : InOrder e msgs d₀ d) (hone : OnePerNumber (msgs ++ [v]))
    (hle : v.seqnum ≤ d.expected) : Reached e (msgs ++ [v]) d₀ d := by
  obtain ⟨out, hout, hseq⟩ := h.delivered
  refine ⟨h.first.from_le, fun n hn hn' => (h.first.before n hn hn').append,
    ⟨out, hout, hseq.append fun he hlt => mem_of_received hone (h.first.before _ he hlt)⟩, ?_⟩
  intro k w hk
  rw [h.pending]
  constructor
  · rintro ⟨hw, hwk, hlt⟩
    exact ⟨List.mem_append_left _ hw, hwk, le_of_lt hlt⟩
  · rintro ⟨hw, hwk, hek⟩
    have hlt : d.expected < k := lt_of_le_of_ne hek (Ne.symm hk)
    rcases List.mem_append.mp hw with hw | hw
    · exact ⟨hw, hwk, hlt⟩
    · rw [← hwk, List.mem_singleton.mp hw] at hlt
      exact absurd hlt (not_lt.mpr hle)

/-- **A late duplicate or an old number is dropped.** -/
theorem InOrder.behind (h : InOrder e msgs d₀ d) (hone : OnePerNumber (msgs ++ [v]))
    (hlt : v.seqnum < d.expected) : InOrder e (msgs ++ [v]) d₀ d := by
  have hr := h.reached_append hone (le_of_lt hlt)
  refine ⟨⟨hr.from_le, hr.before, ?_⟩, hr.delivered, fun k w => ?_⟩
  · rintro ⟨w, hw, hseq⟩
    rcases List.mem_append.mp hw with hw | hw
    · exact h.first.missing ⟨w, hw, hseq⟩
    · rw [← hseq, List.mem_singleton.mp hw] at hlt
      exact lt_irrefl _ hlt
  · rw [h.pending]
    refine and_congr_left fun hk => ?_
    rw [List.mem_append, List.mem_singleton, or_iff_left_of_imp]
    rintro rfl
    rw [hk.1] at hlt
    exact absurd (hlt.trans hk.2) (lt_irrefl _)

/-- **A message ahead of the expected number is buffered**, unless it is already. -/
theorem InOrder.ahead (h : InOrder e msgs d₀ d) (hone : OnePerNumber (msgs ++ [v]))
    (hlt : d.expected < v.seqnum) : InOrder e (msgs ++ [v]) d₀ (d.pushPending v) := by
  obtain ⟨out, hout, hseq⟩ := h.delivered
  refine ⟨⟨h.first.from_le, fun n hn hn' => (h.first.before n hn hn').append, ?_⟩,
    ⟨out, hout, hseq.append fun _ hlt' => absurd (hlt.trans hlt') (lt_irrefl _)⟩, fun k w => ?_⟩
  · rintro ⟨w, hw, hseq⟩
    rcases List.mem_append.mp hw with hw | hw
    · exact h.first.missing ⟨w, hw, hseq⟩
    · rw [List.mem_singleton.mp hw] at hseq
      exact absurd hseq (ne_of_gt hlt)
  · show (d.pendingToStoreMap.emplace v.seqnum v).find? k = some w ↔ _ ∧ _ ∧ d.expected < k
    rw [SortedMap.find?_emplace]
    split
    · rename_i hk
      subst hk
      -- an entry that is there already holds the same message
      have hget : (d.pendingToStoreMap.find? v.seqnum).getD v = v := by
        cases hf : d.pendingToStoreMap.find? v.seqnum with
        | none => rfl
        | some u =>
          obtain ⟨hu, hseq', -⟩ := (h.pending _ _).mp hf
          exact hone u (List.mem_append_left _ hu) v (by simp) hseq'
      rw [hget, Option.some_inj]
      constructor
      · rintro rfl
        exact ⟨by simp, rfl, hlt⟩
      · rintro ⟨hw, hseq', -⟩
        exact hone v (by simp) w hw hseq'.symm
    · rename_i hk
      rw [h.pending]
      refine and_congr_left fun hk' => ?_
      rw [List.mem_append, List.mem_singleton, or_iff_left_of_imp]
      rintro rfl
      exact absurd hk'.1.symm hk

theorem InOrder.find?_expected (h : InOrder e msgs d₀ d) :
    d.pendingToStoreMap.find? d.expected = none := by
  rw [Option.eq_none_iff_forall_ne_some]
  intro w hw
  exact lt_irrefl _ ((h.pending _ _).mp hw).2.2

/-- **The expected message is accepted and the map drained.** -/
theorem InOrder.drain (h : InOrder e msgs d₀ d) (hone : OnePerNumber (msgs ++ [v]))
    (hord : ∀ w ∈ msgs ++ [v], w.Ordinary) {n : UInt32} (hn : e ≤ n)
    (hmiss : ¬ Received (msgs ++ [v]) n) (hseq : v.seqnum = d.expected)
    (hexp : d'.expected = d.expected + 1) (hstored : d'.stored = d.stored ++ v.app?.toList)
    (hpend : d'.pendingToStoreMap = d.pendingToStoreMap) :
    ∃ d'', d'.drain = .ok d'' ∧ InOrder e (msgs ++ [v]) d₀ d'' := by
  have hr := h.reached_append hone (le_of_eq hseq)
  have hcaught : Caught e (msgs ++ [v]) d₀ d' := by
    refine hr.accept hone (by simp) hseq hn hmiss hexp hstored fun k => ?_
    rw [hpend]
    split
    · rename_i hk
      rw [hk, h.find?_expected]
    · rfl
  exact drainPending_ok hone hord hn hmiss hcaught (Nat.lt_succ_self _)

theorem onAppMsg_ok {msg : FIXMessage} (h : InOrder e msgs d₀ d)
    (hone : OnePerNumber (msgs ++ [FIXVariant.app msg]))
    (hord : ∀ w ∈ msgs ++ [FIXVariant.app msg], w.Ordinary) {n : UInt32} (hn : e ≤ n)
    (hmiss : ¬ Received (msgs ++ [FIXVariant.app msg]) n) :
    ∃ d', d.onAppMsg msg = .ok d' ∧ InOrder e (msgs ++ [FIXVariant.app msg]) d₀ d' := by
  rw [onAppMsg]
  split
  · rename_i heq
    exact h.drain hone hord hn hmiss heq.symm rfl (stored_toStore_app d msg) rfl
  · rename_i hne
    split
    · rename_i hlt
      exact ⟨_, rfl, h.ahead hone hlt⟩
    · rename_i hge
      exact ⟨_, rfl, h.behind hone (lt_of_le_of_ne (not_lt.mp hge) (Ne.symm hne))⟩

theorem InOrder.congr (h : InOrder e msgs d₀ d) (hv : SameView d d') : InOrder e msgs d₀ d' := by
  obtain ⟨hc, hmiss⟩ := inOrder_iff.mp h
  exact inOrder_iff.mpr ⟨hc.congr hv, by rw [hv.expected]; exact hmiss⟩

theorem onSesMsg_ok {msg : FIXSessionMessage} (now : ℕ) (h : InOrder e msgs d₀ d)
    (hone : OnePerNumber (msgs ++ [FIXVariant.ses msg]))
    (hord : ∀ w ∈ msgs ++ [FIXVariant.ses msg], w.Ordinary) {n : UInt32} (hn : e ≤ n)
    (hmiss : ¬ Received (msgs ++ [FIXVariant.ses msg]) n)
    (hpool : 2 ≤ d.freeFixSesMsgList.length) :
    ∃ d', d.onSesMsg msg now = .ok d' ∧ InOrder e (msgs ++ [FIXVariant.ses msg]) d₀ d' := by
  have hov : (FIXVariant.ses msg).Ordinary := hord _ (by simp)
  rw [onSesMsg]
  split
  · rename_i heq
    have hview := sameView_handleSes hov d
    refine h.drain hone hord hn hmiss heq.symm ?_ ?_ hview.pending
    · exact congrArg (· + 1) hview.expected
    · exact hview.stored.trans (List.append_nil _).symm
  · rename_i hne
    split
    · rename_i hlt
      obtain ⟨d', hd', hview⟩ := resendLogic_ok msg.seqnum now hpool
      rw [if_pos hov.1, hd']
      exact ⟨_, rfl, (h.congr hview).ahead hone (by rw [hview.expected]; exact hlt)⟩
    · rename_i hge
      exact ⟨_, rfl, h.behind hone (lt_of_le_of_ne (not_lt.mp hge) (Ne.symm hne))⟩

/-- **One message of the stream.** -/
theorem parseFIXMsg_ok {t : FIXText} (now : ℕ) (h : InOrder e msgs d₀ d)
    (hone : OnePerNumber (msgs ++ [t.variant])) (hord : ∀ w ∈ msgs ++ [t.variant], w.Ordinary)
    {n : UInt32} (hn : e ≤ n) (hmiss : ¬ Received (msgs ++ [t.variant]) n)
    (hpool : PoolsHold d (.arrive t now)) :
    ∃ d', d.parseFIXMsg t now = .ok d' ∧ InOrder e (msgs ++ [t.variant]) d₀ d' := by
  rw [parseFIXMsg]
  by_cases happ : t.isApplication
  · rw [FIXText.variant, if_pos happ] at hone hord hmiss ⊢
    obtain ⟨d₁, h₁, hview⟩ := popFixMsg_ok hpool.1
    obtain ⟨d₂, h₂, horder⟩ := onAppMsg_ok (h.congr hview) hone hord hn hmiss
    rw [if_pos happ, h₁]
    exact ⟨d₂, h₂, horder⟩
  · rw [FIXText.variant, if_neg happ] at hone hord hmiss ⊢
    obtain ⟨d₁, h₁, hlen, hview⟩ := popFixSesMsg_ok hpool.2
    obtain ⟨d₂, h₂, horder⟩ := onSesMsg_ok now (h.congr hview) hone hord hn hmiss hlen
    rw [if_neg happ, h₁]
    simp only [bind, Except.bind, h₂]
    exact ⟨_, rfl, horder.congr (sameView_toStore_ses d₂ t.fixSesMsg)⟩

/-! ### Whole runs -/

theorem OnePerNumber.mono {more : List FIXVariant} (h : OnePerNumber more)
    (hsub : ∀ w ∈ msgs, w ∈ more) : OnePerNumber msgs :=
  fun w hw u hu => h w (hsub w hw) u (hsub u hu)

/-- **Along a run.**  The messages that have arrived so far are delivered in
order, whatever is still to come. -/
theorem inOrder_exec {n : UInt32} (hn : e ≤ n) (events : List FixEvent)
    (h : InOrder e msgs d₀ d) (hone : OnePerNumber (msgs ++ arrivals events))
    (hord : ∀ w ∈ msgs ++ arrivals events, w.Ordinary)
    (hmiss : ¬ Received (msgs ++ arrivals events) n) (hpool : Along step PoolsHold d events) :
    ∃ d', exec step d events = .ok d' ∧ InOrder e (msgs ++ arrivals events) d₀ d' := by
  induction events generalizing msgs d with
  | nil => exact ⟨d, rfl, by rw [arrivals, List.append_nil]; exact h⟩
  | cons event events ih =>
    obtain ⟨hhere, hrest⟩ := hpool
    cases event with
    | arrive t now =>
      rw [arrivals, List.append_cons] at hone hord hmiss ⊢
      have hsub : ∀ w ∈ msgs ++ [t.variant], w ∈ msgs ++ [t.variant] ++ arrivals events :=
        fun w hw => List.mem_append_left _ hw
      obtain ⟨d', hd', horder⟩ := parseFIXMsg_ok now h (hone.mono hsub)
        (fun w hw => hord w (hsub w hw)) hn
        (fun ⟨w, hw, hseq⟩ => hmiss ⟨w, hsub w hw, hseq⟩) hhere
      rw [exec_cons_ok events hd']
      exact ih horder hone hord hmiss (hrest d' hd')
    | releaseApp msg =>
      rw [exec_cons_ok events rfl]
      exact ih (h.congr ⟨rfl, rfl, rfl⟩) hone hord hmiss (hrest _ rfl)
    | releaseSes msg =>
      rw [exec_cons_ok events rfl]
      exact ih (h.congr ⟨rfl, rfl, rfl⟩) hone hord hmiss (hrest _ rfl)

/-- An execution report with the given number. -/
def reportText (seqnum : UInt32) : FIXText where
  type := FIXTypes.executionReport.code
  fixMsg := { seqnum := seqnum, msgType := FIXTypes.executionReport.code }
  fixSesMsg := {}

/-- A heartbeat with the given number. -/
def heartbeatText (seqnum : UInt32) : FIXText where
  type := FIXTypes.heartbeat.code
  fixMsg := {}
  fixSesMsg := { seqnum := seqnum, msgType := FIXTypes.heartbeat.code }

/-- A session that expects `e`, with some free records. -/
def expecting (e : UInt32) : FixDispatch where
  state := { fix := { expectedSeqnum := e } }
  freeFixMsgList := List.replicate 4 {}
  freeFixSesMsgList := List.replicate 4 {}

end TradingEngine
