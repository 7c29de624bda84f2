/-
What a sequence reset leaves behind.

A SequenceReset should leave its NewSeqNo expected, and a Logon that resets the
sequence numbers, itself number 1, should leave 2 expected and 2 as the next
outbound number, the Logon we sent having used 1.  `handle_sesMsg` sets the
numbers, but its two callers count the message itself on top of that, and both
copies of the Logon reset put the next outbound number back to 1.

`ResetStep` lists the places where a reset is processed; the state it names is
the one in which the message is done and the next pending message is not yet
looked at.

* `onSesMsg_of_expected`, `drainPending_of_pending` — these are the states
  `parseFIX` and its draining loop go through;
* `reset_never_lands` — on none of them does a reset leave the numbers it should;
* `sequenceReset_leaves_next` — a whole call, with nothing pending.
-/
import TradingEngine.FixDelivery

namespace TradingEngine

open FallibleRun FixDispatch

variable {d d' : FixDispatch} {msg : FIXSessionMessage}

/-- A reset is processed: a SequenceReset in sequence or from the pending map, a
Logon with ResetSeqNumFlag `Y` and number 1 in sequence or as a gap. -/
inductive ResetStep (msg : FIXSessionMessage) (d : FixDispatch) : FixDispatch → Prop
  | resetInSequence (hreset : msg.msgType = FIXTypes.sequenceReset.code)
      (hseq : d.expected = msg.seqnum) : ResetStep msg d (d.acceptSes msg)
  | resetDrained (hreset : msg.msgType = FIXTypes.sequenceReset.code)
      (hpending : d.pendingToStoreMap.find? d.expected = some (.ses msg)) :
      ResetStep msg d (d.proceedPendingFIX (.ses msg)).increaseExpectedSeq
  | logonInSequence (hlogon : msg.msgType = FIXTypes.logon.code)
      (hflag : msg.resetSeqnumFlag = 0x59) (hone : msg.seqnum = 1)
      (hseq : d.expected = msg.seqnum) : ResetStep msg d (d.acceptSes msg)
  | logonGap (hlogon : msg.msgType = FIXTypes.logon.code) (hflag : msg.resetSeqnumFlag = 0x59)
      (hone : msg.seqnum = 1) (hseq : d.expected < msg.seqnum) {d' : FixDispatch}
      (hcall : d.resendLogicLogon msg = .ok d') : ResetStep msg d d'

/-- The numbers a reset should leave. -/
def ResetLands (msg : FIXSessionMessage) (d' : FixDispatch) : Prop :=
  (msg.msgType = FIXTypes.sequenceReset.code → d'.expected = msg.newSeqnum) ∧
    (msg.msgType = FIXTypes.logon.code → d'.expected = 2 ∧ d'.nextSeq = 2)

theorem onSesMsg_of_expected (now : ℕ) (h : d.expected = msg.seqnum) :
    d.onSesMsg msg now = (d.acceptSes msg).drain := by
  rw [onSesMsg, if_pos h]

theorem drainPending_of_pending {v : FIXVariant} (fuel : ℕ)
    (h : d.pendingToStoreMap.find? d.expected = some v) :
    drainPending (fuel + 1) d = drainPending fuel (d.proceedPendingFIX v).increaseExpectedSeq := by
  rw [drainPending, h]

/-! ### What `handle_sesMsg` sets -/

theorem handleSes_reset (d : FixDispatch) (h : msg.msgType = FIXTypes.sequenceReset.code) :
    (d.handleSes msg).expected = msg.newSeqnum := by
  rw [handleSes, handleSesMsg, h]
  rfl

theorem handleSes_logon (d : FixDispatch) (h : msg.msgType = FIXTypes.logon.code)
    (hflag : msg.resetSeqnumFlag = 0x59) :
    (d.handleSes msg).expected = 2 ∧ (d.handleSes msg).nextSeq = 1 := by
  rw [handleSes, handleSesMsg, h, hflag]
  exact ⟨rfl, rfl⟩

theorem resendLogicLogon_reset (d : FixDispatch) (hflag : msg.resetSeqnumFlag = 0x59)
    (h : d.resendLogicLogon msg = .ok d') : d'.expected = 2 ∧ d'.nextSeq = 1 := by
  rw [resendLogicLogon, if_pos hflag, Except.ok.injEq] at h
  rw [← h]
  exact ⟨rfl, rfl⟩

/-! ### No path lands -/

theorem add_one_ne_self (n : UInt32) : n + 1 ≠ n := by
  intro h
  have h' : (1 : UInt32) = 0 := by
    rwa [UInt32.add_eq_left] at h
  exact absurd h' (by decide)

/-- The callers count the message on top of what it set. -/
theorem expected_acceptSes_reset (d : FixDispatch)
    (h : msg.msgType = FIXTypes.sequenceReset.code) :
    (d.acceptSes msg).expected = msg.newSeqnum + 1 :=
  congrArg (· + 1) (handleSes_reset d h)

theorem expected_drained_reset (d : FixDispatch)
    (h : msg.msgType = FIXTypes.sequenceReset.code) :
    (d.proceedPendingFIX (.ses msg)).increaseExpectedSeq.expected = msg.newSeqnum + 1 := by
  have hne : msg.msgType ≠ FIXTypes.logon.code := by
    rw [h]
    decide
  rw [proceedPendingFIX, if_pos hne]
  exact congrArg (· + 1) (handleSes_reset d h)

/-- **A reset never lands.**  On every path, from every state and for every
number. -/
theorem reset_never_lands (h : ResetStep msg d d') : ¬ ResetLands msg d' := by
  rintro ⟨hreset, hlogon⟩
  cases h with
  | resetInSequence hr _ =>
    have hexp := hreset hr
    rw [expected_acceptSes_reset d hr] at hexp
    exact add_one_ne_self _ hexp
  | resetDrained hr _ =>
    have hexp := hreset hr
    rw [expected_drained_reset d hr] at hexp
    exact add_one_ne_self _ hexp
  | logonInSequence hl hflag _ _ =>
    -- 2 is set and then counted to 3; the outbound number is 1
    have hnext : (d.acceptSes msg).nextSeq = 1 := (handleSes_logon d hl hflag).2
    rw [hnext] at hlogon
    exact absurd (hlogon hl).2 (by decide)
  | logonGap hl hflag _ _ hcall =>
    have hnext := (resendLogicLogon_reset d hflag hcall).2
    rw [hnext] at hlogon
    exact absurd (hlogon hl).2 (by decide)

/-- A SequenceReset with its own number and NewSeqNo. -/
def resetText (seqnum newSeqnum : UInt32) : FIXText where
  type := FIXTypes.sequenceReset.code
  fixMsg := {}
  fixSesMsg :=
    { seqnum := seqnum, newSeqnum := newSeqnum, msgType := FIXTypes.sequenceReset.code }

/-- A Logon with number 1 that resets the sequence numbers. -/
def logonText : FIXText where
  type := FIXTypes.logon.code
  fixMsg := {}
  fixSesMsg := { seqnum := 1, msgType := FIXTypes.logon.code, resetSeqnumFlag := 0x59 }

/-- The Logon in sequence and as a gap, and the SequenceReset in sequence. -/
theorem reset_never_lands_fresh :
    ¬ ResetLands (resetText 5 10).fixSesMsg ((expecting 5).acceptSes (resetText 5 10).fixSesMsg) ∧
      ¬ ResetLands logonText.fixSesMsg ((expecting 1).acceptSes logonText.fixSesMsg) ∧
      ∃ d', (expecting 0).resendLogicLogon logonText.fixSesMsg = .ok d' ∧
        ¬ ResetLands logonText.fixSesMsg d' :=
  ⟨reset_never_lands (.resetInSequence rfl rfl),
    reset_never_lands (.logonInSequence rfl rfl rfl rfl),
    _, rfl, reset_never_lands (d := expecting 0) (.logonGap rfl rfl rfl (by decide) rfl)⟩

/-- **A whole call on a SequenceReset.**  Where the number after NewSeqNo is not
pending, that number ends up expected and NewSeqNo itself is never waited for. -/
theorem sequenceReset_leaves_next (now : ℕ) (h : msg.msgType = FIXTypes.sequenceReset.code)
    (hseq : d.expected = msg.seqnum)
    (hnone : d.pendingToStoreMap.find? (msg.newSeqnum + 1) = none) :
    ∃ d', d.onSesMsg msg now = .ok d' ∧ d'.expected = msg.newSeqnum + 1 := by
  have hexp := expected_acceptSes_reset d h
  have hpend : (d.acceptSes msg).pendingToStoreMap = d.pendingToStoreMap := by
    rw [acceptSes, handleSes, handleSesMsg, h]
    rfl
  refine ⟨d.acceptSes msg, ?_, hexp⟩
  rw [onSesMsg_of_expected now hseq, drain, drainPending, hexp, hpend, hnone]

/-- **One number is skipped.**  A SequenceReset to 10 received as number 5, with
nothing pending, leaves 11 expected; the report numbered 10 that follows is
dropped as old.  A resetting Logon leaves 3 expected and 1 as the next outbound
number. -/
theorem report_after_reset_lost :
    (∃ d', exec step (expecting 5) [.arrive (resetText 5 10) 0] = .ok d' ∧
      d'.expected = 11 ∧ ¬ ResetLands (resetText 5 10).fixSesMsg d') ∧
    (∃ d', exec step (expecting 5) [.arrive (resetText 5 10) 0, .arrive (reportText 10) 0] =
        .ok d' ∧ d'.stored = []) ∧
    ∃ d', exec step (expecting 1) [.arrive logonText 0] = .ok d' ∧
      d'.expected = 3 ∧ d'.nextSeq = 1 := by
  refine ⟨⟨_, rfl, rfl, fun h => ?_⟩, ⟨_, rfl, rfl⟩, _, rfl, rfl, rfl⟩
  exact absurd (h.1 rfl) (by decide)

end TradingEngine
