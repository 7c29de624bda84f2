/-
FIX reports that arrive before the New report of their order.

While an order waits for its New report, the fillers note the status of an early
fill and of an early cancel, expiry or replace in `StatusesPreNew`, and
`update_risk_for_protocol_fix` holds the order back.  The New report then clears
`StatusesPreNew` before the risk engine has seen it, so nothing is replayed: the
early reports are lost.

* `exec_reportTurn_of_waiting` — early reports only fill the order;
* `riskStep_new_congr` — and what they filled makes no difference to the New report;
* `earlyReports_iff` — so a late New report leads to the figures and quantities of a
  New report that comes first exactly when the other reports say nothing new.
-/
import TradingEngine.ReplaceReports

namespace TradingEngine

open FallibleRun RiskEngine FillerFix

/-! ### The reports -/

def IsFillReport (msg : FIXMessage) : Prop := msg.ordStatus = 49 ∨ msg.ordStatus = 50

/-- Cancel, replace or expiry. -/
def IsCloseReport (msg : FIXMessage) : Prop :=
  msg.ordStatus = 52 ∨ msg.ordStatus = 53 ∨ msg.ordStatus = 67

/-- An optional fill and an optional cancel, replace or expiry, in either order. -/
inductive EarlyReports : List FIXMessage → Prop
  | none : EarlyReports []
  | fill {f : FIXMessage} (hf : IsFillReport f) : EarlyReports [f]
  | close {l : FIXMessage} (hl : IsCloseReport l) : EarlyReports [l]
  | fillClose {f l : FIXMessage} (hf : IsFillReport f) (hl : IsCloseReport l) :
      EarlyReports [f, l]
  | closeFill {f l : FIXMessage} (hf : IsFillReport f) (hl : IsCloseReport l) :
      EarlyReports [l, f]

theorem EarlyReports.kinds {early : List FIXMessage} (h : EarlyReports early) :
    ∀ msg ∈ early, IsFillReport msg ∨ IsCloseReport msg := by
  intro msg hmem
  cases h with
  | none => exact absurd hmem (by simp)
  | fill hf =>
    rw [List.mem_singleton.mp hmem]
    exact .inl hf
  | close hl =>
    rw [List.mem_singleton.mp hmem]
    exact .inr hl
  | fillClose hf hl =>
    obtain rfl | hmem := List.mem_cons.mp hmem
    · exact .inl hf
    · rw [List.mem_singleton.mp hmem]
      exact .inr hl
  | closeFill hf hl =>
    obtain rfl | hmem := List.mem_cons.mp hmem
    · exact .inr hl
    · rw [List.mem_singleton.mp hmem]
      exact .inl hf

/-- A report that says nothing new of an order for `q` with `left` open: a partial fill of
nothing, or a replace that changes no value. -/
def SaysNothing (q left : UInt32) (msg : FIXMessage) : Prop :=
  msg.ordStatus = 49 ∧ msg.lastQty = 0 ∨
    msg.ordStatus = 53 ∧ msg.quantity = q ∧
      (0 < msg.price → msg.price * (msg.leavesQty - left).toInt32.toInt64 = 0)

/-- Each report says nothing new, and the last one leaves the whole quantity open. -/
def AllSayNothing (q : UInt32) : UInt32 → List FIXMessage → Prop
  | left, [] => left = q
  | left, msg :: rest => SaysNothing q left msg ∧ AllSayNothing q msg.leavesQty rest

/-! ### What the fillers write -/

section

variable (hash : List UInt8 → UInt64) {o : Order} {own : OwnFields} {msg : FIXMessage}

theorem fillFixExecReport_new (hnew : msg.ordStatus = 48) :
    fillFixExecReport hash o own msg = fillFixNew hash o own msg := if_pos hnew

/-- The status that a fill or a close gives the order. -/
def statusOfReport (msg : FIXMessage) : Status :=
  if msg.ordStatus = 49 then .partialFill
  else if msg.ordStatus = 50 then .filled
  else if msg.ordStatus = 52 then .deleted
  else if msg.ordStatus = 53 then .replaced
  else .expired

/-- What the fillers have in common. -/
structure FilledBy (o o' : Order) (msg : FIXMessage) : Prop where
  status : o'.status = statusOfReport msg
  venue : o'.venue = o.venue
  symbolIndex : o'.symbolIndex = o.symbolIndex
  own : o'.isOurOrder = o.isOurOrder
  protocol : o'.protocol = o.protocol
  syncState : o'.syncState = o.syncState
  quantity : o'.quantity = if msg.ordStatus = 53 then msg.quantity else o.quantity
  filled : o'.filledQuantity = if msg.ordStatus = 53 then o.filledQuantity else msg.filledQty
  left : o'.remainingQuantity =
    if msg.ordStatus = 52 ∨ msg.ordStatus = 67 then 0 else msg.leavesQty
  cancelled : o'.cancelledCount = if msg.ordStatus = 52 then o.cancelledCount + 1
    else o.cancelledCount
  traded : IsFillReport msg → o'.lastExecQuantity = msg.lastQty
  price : msg.ordStatus = 53 → o'.price = msg.price
  replaced : msg.ordStatus = 53 →
    o'.replacedQuantity = (msg.leavesQty - o.remainingQuantity).toInt32

theorem filledBy_fillFixExecReport (hearly : IsFillReport msg ∨ IsCloseReport msg) :
    FilledBy o (fillFixExecReport hash o own msg).1 msg := by
  rcases hearly with (hs | hs) | hs | hs | hs
  all_goals
    rw [fillFixExecReport, hs]
    constructor <;> simp only [statusOfReport, IsFillReport, hs] <;>
      first
      | rfl
      | exact fun _ => rfl
      | exact fun h => absurd h (by decide)

end

/-! ### One report through store and risk engine -/

/-- A report fills the order and the update thread pops it. -/
def reportTurn (hash : List UInt8 → UInt64) (mb : MarketBook)
    (s : RiskEngine × Order × OwnFields) (msg : FIXMessage) :
    Except Fault (RiskEngine × Order × OwnFields) :=
  let filled := fillFixExecReport hash s.2.1 s.2.2 msg
  (s.1.updateRiskOrder mb filled.1).map fun done => (done.2.1, done.2.2, filled.2)

variable {hash : List UInt8 → UInt64} {mb : MarketBook} {re re' : RiskEngine} {o o' : Order}
  {own own' : OwnFields} {msg : FIXMessage}

/-- The update thread passes a waiting order over. -/
theorem updateRiskOrder_of_waiting {v : VenueIndex} (hv : o.venue.index = .ok v)
    (hfix : o.protocol = .fix) (hwait : o.syncState = .waitingNew) :
    re.updateRiskOrder mb o = .ok (false, re, o) := by
  have hpassed : re.updateRiskForProtocolFix mb o (OrderMetrics.ofOrder o) v =
      .ok (some (re, o)) := by
    rw [updateRiskForProtocolFix, if_pos hfix, if_pos hwait]
  rw [updateRiskOrder, hv]
  simp only [bind, Except.bind, hpassed]

/-- An acknowledged order with a status is applied once. -/
theorem updateRiskOrder_of_acknowledged (hack : Acknowledged o) (hknown : o.status ≠ .unknown) :
    re.updateRiskOrder mb o =
      (riskStep re ⟨o, mb⟩).map fun re' => (false, re', settled o) := by
  have hwait : o.syncState ≠ .waitingNew := by
    rw [hack.seen]
    decide
  have hsettled : settled o =
      { o with status := .unknown, canModify := o.canModify ||| riskDone } := by
    rw [settled, if_pos hack.fix, if_neg hwait, hack.preNew]
  rw [updateRiskOrder, riskStep, hsettled]
  cases hv : o.venue.index with
  | error x => rfl
  | ok v =>
    -- the first turn applies the order, the other two find no status
    have hturn : fixTurn mb (OrderMetrics.ofOrder o) v (re, o) .unknown =
        (re.applyReport mb o (OrderMetrics.ofOrder o) v).map fun re' =>
          (re', { o with status := .unknown }) := if_pos hknown
    have hidle : ∀ re₁, fixTurn mb (OrderMetrics.ofOrder o) v
        (re₁, { o with status := .unknown }) .unknown =
          .ok (re₁, { o with status := .unknown }) := fun _ => rfl
    have hreplay : re.updateRiskForProtocolFix mb o (OrderMetrics.ofOrder o) v =
        (re.applyReport mb o (OrderMetrics.ofOrder o) v).map fun re' =>
          some (re', { o with status := .unknown, canModify := o.canModify ||| riskDone }) := by
      rw [updateRiskForProtocolFix, if_pos hack.fix, if_neg hwait, hack.preNew]
      simp only [bind, Except.bind, List.foldlM_cons, List.foldlM_nil, hturn]
      cases re.applyReport mb o (OrderMetrics.ofOrder o) v with
      | error x => rfl
      | ok re₁ =>
        rw [← hack.preNew]
        rfl
    simp only [bind, Except.bind, hreplay, hack.fix, true_or, if_true]
    cases re.applyReport mb o (OrderMetrics.ofOrder o) v with
    | error x => rfl
    | ok re₁ => rfl

/-- Two orders that are the same to the risk engine as long as nothing was executed. -/
structure SameNew (o o' : Order) : Prop where
  price : o'.price = o.price
  quantity : o'.quantity = o.quantity
  left : o'.remainingQuantity = o.remainingQuantity
  side : o'.side = o.side
  status : o'.status = o.status
  venue : o'.venue = o.venue
  symbolIndex : o'.symbolIndex = o.symbolIndex
  own : o'.isOurOrder = o.isOurOrder
  protocol : o'.protocol = o.protocol
  cancelled : 1 < o'.cancelledCount ↔ 1 < o.cancelledCount

/-- A New order counts with its price, its quantity and its side, whatever earlier reports
have executed, replaced or cancelled. -/
theorem riskStep_new_congr (hsame : SameNew o o') (hnew : o.status = .new)
    (hown : o.isOurOrder = true) : riskStep re ⟨o', mb⟩ = riskStep re ⟨o, mb⟩ := by
  have hsymbol : ∀ acc sym, symbolRisk acc sym mb o' (OrderMetrics.ofOrder o') =
      symbolRisk acc sym mb o (OrderMetrics.ofOrder o) := by
    intro acc sym
    simp only [symbolRisk, hsame.own, hown, if_true, ownSymbolRisk, hsame.status, hnew,
      OrderMetrics.ofOrder, hsame.price, hsame.quantity, hsame.side]
  have hindex : ∀ (s : RiskEngine) v, s.updateOrderRisk o' v = s.updateOrderRisk o v := by
    intro s v
    have hkey : orderKey o' v = orderKey o v := by
      rw [orderKey, hsame.symbolIndex, hsame.price, hsame.side]
      rfl
    have hfields : ∀ oR : OrderRisk, refresh oR o' = refresh oR o := by
      intro oR
      rw [refresh, hsame.price, hsame.left, hsame.status]
      rfl
    rw [updateOrderRisk, updateOrderRisk, hkey, hsame.left, hsame.side, hsame.symbolIndex,
      hsame.venue]
    simp only [hsame.cancelled, hfields]
  have haccount : ∀ acc lim, updateAccountRisk acc lim o' (OrderMetrics.ofOrder o') =
      updateAccountRisk acc lim o (OrderMetrics.ofOrder o) := by
    intro acc lim
    simp only [updateAccountRisk, hsame.status, hnew, OrderMetrics.ofOrder, hsame.price,
      hsame.quantity, hsame.side]
  simp only [riskStep, applyReport, updateSymbolRisk, updateOwnRisk, hsymbol, hindex, haccount,
    hsame.venue, hsame.symbolIndex, hsame.own, hsame.protocol]

/-! ### When a report is neutral -/

section

variable {p : Order}

theorem FilledBy.isFill (h : FilledBy o p msg) (hf : IsFillReport msg) : p.IsFill := by
  rcases hf with hs | hs
  · exact .inl (by rw [h.status, statusOfReport, hs]; rfl)
  · exact .inr (by rw [h.status, statusOfReport, hs]; rfl)

theorem FilledBy.not_isFill (h : FilledBy o p msg) (hl : IsCloseReport msg) : ¬p.IsFill := by
  rcases hl with hs | hs | hs
  all_goals
    rw [Order.IsFill, h.status, statusOfReport, hs]
    decide

/-- The risk engine takes a finished order off its count. -/
theorem FilledBy.countMove (h : FilledBy o p msg) (hearly : IsFillReport msg ∨ IsCloseReport msg)
    (hcc : ¬1 < p.cancelledCount) :
    countMove p = if msg.ordStatus = 49 ∨ msg.ordStatus = 53 then 0 else -1 := by
  have hgone : msg.ordStatus = 52 ∨ msg.ordStatus = 67 → p.remainingQuantity = 0 := by
    intro hs
    rw [h.left, if_pos hs]
  rcases hearly with (hs | hs) | hs | hs | hs
  · simp [TradingEngine.countMove, h.status, statusOfReport, hs]
  · simp [TradingEngine.countMove, h.status, statusOfReport, hs]
  · simp [TradingEngine.countMove, h.status, statusOfReport, hs, hcc, hgone (.inl hs)]
  · simp [TradingEngine.countMove, h.status, statusOfReport, hs]
  · simp [TradingEngine.countMove, h.status, statusOfReport, hs, hcc, hgone (.inr hs)]

theorem FilledBy.neutral_iff_of_fill (h : FilledBy o p msg) (hf : IsFillReport msg) :
    Neutral p ↔ msg.ordStatus = 49 ∧ msg.lastQty = 0 := by
  rcases hf with hs | hs
  · simp [Neutral, h.status, statusOfReport, hs, h.traded (.inl hs)]
  · simp [Neutral, h.status, statusOfReport, hs]

theorem FilledBy.neutral_iff_of_close (h : FilledBy o p msg) (hl : IsCloseReport msg)
    (hcc : ¬1 < p.cancelledCount) : Neutral p ↔ msg.ordStatus = 53 ∧
      (0 < msg.price →
        msg.price * (msg.leavesQty - o.remainingQuantity).toInt32.toInt64 = 0) := by
  rcases hl with hs | hs | hs
  · simp [Neutral, h.status, statusOfReport, hs, hcc, h.left]
  · simp only [Neutral, h.status, statusOfReport, hs, replacedAmount, h.price hs,
      OrderMetrics.ofOrder, h.replaced hs]
    simp
  · simp [Neutral, h.status, statusOfReport, hs, hcc, h.left]

end

/-- A fill and a close after which count, position and margin are what they were: neither
has moved anything. -/
theorem neutral_of_moves {p q a b : Order} {f l : FIXMessage} (hf : IsFillReport f)
    (hl : IsCloseReport l) (hp : FilledBy a p f) (hq : FilledBy b q l)
    (hpc : ¬1 < p.cancelledCount) (hqc : ¬1 < q.cancelledCount)
    (hcount : countMove p + countMove q = 0) (hexec : p.lastExecQuantity = 0)
    (hmargin : marginMove p + marginMove q = 0) : Neutral p ∧ Neutral q := by
  rw [hp.countMove (.inl hf) hpc, hq.countMove (.inr hl) hqc] at hcount
  -- a last fill takes the order off the count, and nothing puts it back
  have hfirst : f.ordStatus = 49 := by
    rcases hf with hs | hs
    · exact hs
    · rw [hs, if_neg (by decide)] at hcount
      split at hcount
      · exact absurd hcount (by decide)
      · exact absurd hcount (by decide)
  have hneutral : Neutral p :=
    (hp.neutral_iff_of_fill hf).mpr ⟨hfirst, (hp.traded hf).symm.trans hexec⟩
  have hlast : l.ordStatus = 53 := by
    rw [if_pos (.inl hfirst)] at hcount
    rcases hl with hs | hs | hs
    · rw [hs] at hcount
      exact absurd hcount (by decide)
    · exact hs
    · rw [hs] at hcount
      exact absurd hcount (by decide)
  refine ⟨hneutral, ?_⟩
  rw [(neutral_iff.mp hneutral).2.1, Int64.zero_add] at hmargin
  refine neutral_iff.mpr ⟨?_, hmargin, fun hfill => absurd hfill (hq.not_isFill hl)⟩
  rw [hq.countMove (.inr hl) hqc, if_pos (.inr hlast)]

/-! ### Runs of early reports -/

/-- The quantity filled so far; a replace reports none. -/
def filledAfter (q : UInt32) (early : List FIXMessage) : UInt32 :=
  early.foldl (fun q msg => if msg.ordStatus = 53 then q else msg.filledQty) q

def cancelsAfter (c : UInt8) (early : List FIXMessage) : UInt8 :=
  early.foldl (fun c msg => if msg.ordStatus = 52 then c + 1 else c) c

/-- At most one of the early reports is a cancel. -/
theorem EarlyReports.cancels {early : List FIXMessage} (h : EarlyReports early) :
    ¬1 < cancelsAfter 0 early := by
  have hfill : ∀ {f : FIXMessage}, IsFillReport f → f.ordStatus ≠ 52 := by
    intro f hf
    rcases hf with hs | hs <;> rw [hs] <;> decide
  cases h with
  | none | fill hf | close hl =>
    simp only [cancelsAfter, List.foldl_cons, List.foldl_nil]
    try split
    all_goals decide
  | fillClose hf hl | closeFill hf hl =>
    simp only [cancelsAfter, List.foldl_cons, List.foldl_nil, if_neg (hfill hf)]
    split <;> decide

/-- What becomes of the order whether it waits or not. -/
structure Followed (o o' : Order) (early : List FIXMessage) : Prop where
  venue : o'.venue = o.venue
  symbolIndex : o'.symbolIndex = o.symbolIndex
  own : o'.isOurOrder = o.isOurOrder
  protocol : o'.protocol = o.protocol
  syncState : o'.syncState = o.syncState
  filled : o'.filledQuantity = filledAfter o.filledQuantity early
  cancelled : o'.cancelledCount = cancelsAfter o.cancelledCount early

/-- One turn on a report other than New. -/
theorem reportTurn_eq_ok (hearly : IsFillReport msg ∨ IsCloseReport msg)
    (h : reportTurn hash mb (re, o, own) msg = .ok (re', o', own')) :
    ∃ p, FilledBy o p msg ∧ (Acknowledged o → Acknowledged p) ∧ o' = settled p ∧
      (Acknowledged p → riskStep re ⟨p, mb⟩ = .ok re') := by
  obtain ⟨⟨done, re₁, o₁⟩, hbody, heq⟩ := map_eq_ok_iff.mp h
  obtain ⟨rfl, rfl, rfl⟩ : re₁ = re' ∧ o₁ = o' ∧ _ = own' := by simpa using heq
  have hfilled : FilledBy o (fillFixExecReport hash o own msg).1 msg :=
    filledBy_fillFixExecReport hash hearly
  refine ⟨_, hfilled, fun hack => hack.fillFixExecReport hash own msg,
    (order_of_updateRiskOrder hbody).2, fun hack => ?_⟩
  have hknown : (fillFixExecReport hash o own msg).1.status ≠ .unknown := by
    rw [hfilled.status, statusOfReport]
    repeat' split
    all_goals decide
  rw [updateRiskOrder_of_acknowledged hack hknown] at hbody
  obtain ⟨re₂, hstep, heq₂⟩ := map_eq_ok_iff.mp hbody
  obtain ⟨-, rfl, -⟩ : _ ∧ re₂ = re₁ ∧ _ := by simpa using heq₂
  exact hstep

theorem followed_exec {early : List FIXMessage}
    (hearly : ∀ msg ∈ early, IsFillReport msg ∨ IsCloseReport msg)
    (h : exec (reportTurn hash mb) (re, o, own) early = .ok (re', o', own')) :
    Followed o o' early := by
  induction early generalizing re o own with
  | nil =>
    obtain ⟨-, rfl, -⟩ : re = re' ∧ o = o' ∧ own = own' := by simpa using h
    exact ⟨rfl, rfl, rfl, rfl, rfl, rfl, rfl⟩
  | cons msg rest ih =>
    obtain ⟨⟨re₁, o₁, own₁⟩, hturn, hrest⟩ := exec_cons_eq_ok_iff.mp h
    obtain ⟨p, hp, -, rfl, -⟩ := reportTurn_eq_ok (hearly msg List.mem_cons_self) hturn
    have hlater := ih (fun m hm => hearly m (List.mem_cons_of_mem msg hm)) hrest
    constructor
    · rw [hlater.venue, venue_settled, hp.venue]
    · rw [hlater.symbolIndex, symbolIndex_settled, hp.symbolIndex]
    · rw [hlater.own, isOurOrder_settled, hp.own]
    · rw [hlater.protocol, protocol_settled, hp.protocol]
    · rw [hlater.syncState, syncState_settled, hp.syncState]
    · rw [hlater.filled, filledQuantity_settled, hp.filled]
      rfl
    · rw [hlater.cancelled, cancelledCount_settled, hp.cancelled]
      rfl

/-- Early reports fill a waiting order, and the risk engine sees none of them. -/
theorem exec_reportTurn_of_waiting {v : VenueIndex} {early : List FIXMessage}
    (hearly : ∀ msg ∈ early, IsFillReport msg ∨ IsCloseReport msg)
    (hv : o.venue.index = .ok v) (hfix : o.protocol = .fix) (hwait : o.syncState = .waitingNew) :
    ∃ o' own', exec (reportTurn hash mb) (re, o, own) early = .ok (re, o', own') := by
  induction early generalizing o own with
  | nil => exact ⟨o, own, exec_nil _⟩
  | cons msg rest ih =>
    have hfilled : FilledBy o (fillFixExecReport hash o own msg).1 msg :=
      filledBy_fillFixExecReport hash (hearly msg List.mem_cons_self)
    have hpassed : re.updateRiskOrder mb (fillFixExecReport hash o own msg).1 =
        .ok (false, re, (fillFixExecReport hash o own msg).1) :=
      updateRiskOrder_of_waiting (hfilled.venue ▸ hv) (hfilled.protocol.trans hfix)
        (hfilled.syncState.trans hwait)
    obtain ⟨o', own', hrest⟩ := @ih (fillFixExecReport hash o own msg).1
      (fillFixExecReport hash o own msg).2 (fun m hm => hearly m (List.mem_cons_of_mem msg hm))
      (hfilled.venue ▸ hv) (hfilled.protocol.trans hfix) (hfilled.syncState.trans hwait)
    refine ⟨o', own', (exec_cons_ok rest ?_).trans hrest⟩
    rw [reportTurn, hpassed]
    rfl

/-! ### Reports that come after New -/

theorem Acknowledged.settled (h : Acknowledged o) : Acknowledged (settled o) := by
  constructor
  · rw [isOurOrder_settled, h.own]
  · rw [protocol_settled, h.fix]
  · rw [syncState_settled, h.seen]
  · rw [statusesPreNew_settled, h.preNew]

theorem SameFigures.trans {re₁ re₂ : RiskEngine} (h : SameFigures re re₁)
    (h' : SameFigures re₁ re₂) : SameFigures re re₂ where
  position v i := (h'.position v i).trans (h.position v i)
  symbolCount v i := (h'.symbolCount v i).trans (h.symbolCount v i)
  pending v i := (h'.pending v i).trans (h.pending v i)
  accountCount v := (h'.accountCount v).trans (h.accountCount v)
  margin v := (h'.margin v).trans (h.margin v)
  exposure v := (h'.exposure v).trans (h.exposure v)
  positional v := (h'.positional v).trans (h.positional v)
  balance v := (h'.balance v).trans (h.balance v)

/-- Two orders of one symbol after which the figures are what they were. -/
theorem moves_of_sameFigures {a b : Order} {re₁ re₂ : RiskEngine} (hown : a.isOurOrder = true)
    (hown' : b.isOurOrder = true) (hvenue : b.venue = a.venue)
    (hindex : b.symbolIndex = a.symbolIndex) (ha : riskStep re ⟨a, mb⟩ = .ok re₁)
    (hb : riskStep re₁ ⟨b, mb⟩ = .ok re₂) (hsame : SameFigures re re₂) :
    countMove a + countMove b = 0 ∧ marginMove a + marginMove b = 0 ∧
      (a.IsFill → ¬b.IsFill → a.lastExecQuantity = 0) ∧
      (b.IsFill → ¬a.IsFill → b.lastExecQuantity = 0) := by
  obtain ⟨w, j, -, -, -, hw, hj, -, -, -, -, -⟩ := riskStep_eq_ok ha
  have hw' : b.venue.index = .ok w := hvenue ▸ hw
  have hj' : symbolSlot b.symbolIndex = .ok j := hindex ▸ hj
  have hcount := hsame.accountCount w
  rw [count_riskStep hown' hb, count_riskStep hown ha, if_pos hw, if_pos hw',
    UInt32.add_assoc] at hcount
  have hmargin := hsame.margin w
  rw [(figures_riskStep hown' hw' hb).1.margin, (figures_riskStep hown hw ha).1.margin,
    Int64.add_assoc] at hmargin
  have hposition := hsame.position w j
  rw [netPosition_riskStep hown' hb, netPosition_riskStep hown ha, Int64.add_assoc] at hposition
  have hexec : Int64.ofInt (executed w j a) + Int64.ofInt (executed w j b) = 0 :=
    Int64.add_eq_left.mp hposition
  have hnone : ∀ x : Order, ¬x.IsFill → Int64.ofInt (executed w j x) = 0 := by
    intro x hx
    rw [executed, if_neg fun h => hx h.1]
    rfl
  refine ⟨UInt32.add_eq_left.mp hcount, Int64.add_eq_left.mp hmargin, ?_, ?_⟩
  · intro hfill hrest
    rw [hnone b hrest, Int64.add_zero, executed, if_pos ⟨hfill, hw, hj⟩] at hexec
    exact ofInt_signedExec_eq_zero_iff.mp hexec
  · intro hfill hrest
    rw [hnone a hrest, Int64.zero_add, executed, if_pos ⟨hfill, hw', hj'⟩] at hexec
    exact ofInt_signedExec_eq_zero_iff.mp hexec

section

variable {p : Order} {q left : UInt32}

theorem FilledBy.neutral_iff_saysNothing (h : FilledBy o p msg) (hf : IsFillReport msg) :
    Neutral p ↔ SaysNothing q left msg := by
  rw [h.neutral_iff_of_fill hf, SaysNothing]
  have hnot : msg.ordStatus ≠ 53 := by
    rcases hf with hs | hs <;> rw [hs] <;> decide
  simp [hnot]

theorem FilledBy.neutral_and_quantity_iff (h : FilledBy o p msg) (hl : IsCloseReport msg)
    (hcc : ¬1 < p.cancelledCount) (hleft : o.remainingQuantity = left) :
    Neutral p ∧ p.quantity = q ↔ SaysNothing q left msg := by
  rw [h.neutral_iff_of_close hl hcc, SaysNothing, h.quantity, hleft]
  have hnot : msg.ordStatus ≠ 49 := by
    rcases hl with hs | hs | hs <;> rw [hs] <;> decide
  by_cases hs : msg.ordStatus = 53
  · simp [hs, and_comm]
  · simp [hs, hnot]

theorem FilledBy.left_of_saysNothing (h : FilledBy o p msg) (hn : SaysNothing q left msg) :
    p.remainingQuantity = msg.leavesQty := by
  rw [h.left, if_neg]
  rcases hn with ⟨hs, -⟩ | ⟨hs, -⟩ <;> rw [hs] <;> decide

end

/-- One report on an acknowledged order. -/
theorem reportTurn_of_acknowledged (hack : Acknowledged o)
    (hearly : IsFillReport msg ∨ IsCloseReport msg)
    (h : reportTurn hash mb (re, o, own) msg = .ok (re', o', own')) :
    ∃ p, FilledBy o p msg ∧ Acknowledged p ∧ riskStep re ⟨p, mb⟩ = .ok re' ∧ o' = settled p := by
  obtain ⟨p, hfilled, hkeep, hsettled, hstep⟩ := reportTurn_eq_ok hearly h
  exact ⟨p, hfilled, hkeep hack, hstep (hkeep hack), hsettled⟩

/-- Two orders of one symbol leave the figures exactly if both are neutral, provided that
their moves cannot make up for each other. -/
theorem sameFigures_pair_iff {a b : Order} {re₁ re₂ : RiskEngine} (hown : a.isOurOrder = true)
    (hown' : b.isOurOrder = true) (hvenue : b.venue = a.venue)
    (hindex : b.symbolIndex = a.symbolIndex) (hclamped : re.Clamped)
    (ha : riskStep re ⟨a, mb⟩ = .ok re₁) (hb : riskStep re₁ ⟨b, mb⟩ = .ok re₂)
    (hmoves : countMove a + countMove b = 0 → marginMove a + marginMove b = 0 →
      (a.IsFill → ¬b.IsFill → a.lastExecQuantity = 0) →
      (b.IsFill → ¬a.IsFill → b.lastExecQuantity = 0) → Neutral a ∧ Neutral b) :
    SameFigures re re₂ ↔ Neutral a ∧ Neutral b := by
  constructor
  · intro hsame
    obtain ⟨hcount, hmargin, hfirst, hsecond⟩ :=
      moves_of_sameFigures hown hown' hvenue hindex ha hb hsame
    exact hmoves hcount hmargin hfirst hsecond
  · rintro ⟨hna, hnb⟩
    exact ((sameFigures_riskStep_iff (e := ⟨a, mb⟩) hown hclamped ha).mpr hna).trans
      ((sameFigures_riskStep_iff (e := ⟨b, mb⟩) hown' (clamped_riskStep hclamped ha) hb).mpr hnb)

theorem FilledBy.quantity_of_fill {p : Order} (h : FilledBy o p msg) (hf : IsFillReport msg) :
    p.quantity = o.quantity := by
  rw [h.quantity, if_neg]
  rcases hf with hs | hs <;> rw [hs] <;> decide

theorem FilledBy.cancelled_of_fill {p : Order} (h : FilledBy o p msg) (hf : IsFillReport msg) :
    p.cancelledCount = o.cancelledCount := by
  rw [h.cancelled, if_neg]
  rcases hf with hs | hs <;> rw [hs] <;> decide

/-- **Reports after New.**  They leave figures, quantity and open quantity exactly when they
all say nothing new. -/
theorem sameFigures_exec_iff {early : List FIXMessage} {q : UInt32} (hearly : EarlyReports early)
    (hack : Acknowledged o) (hq : o.quantity = q) (hleft : o.remainingQuantity = q)
    (hcc : o.cancelledCount = 0) (hclamped : re.Clamped)
    (h : exec (reportTurn hash mb) (re, o, own) early = .ok (re', o', own')) :
    SameFigures re re' ∧ o'.quantity = q ∧ o'.remainingQuantity = q ↔
      AllSayNothing q q early := by
  have hone : ∀ {p a : Order} {m : FIXMessage}, FilledBy a p m → a.cancelledCount = 0 →
      ¬1 < p.cancelledCount := by
    intro p a m hp ha
    rw [hp.cancelled, ha]
    split <;> decide
  cases hearly with
  | none =>
    obtain ⟨rfl, rfl, -⟩ : re = re' ∧ o = o' ∧ own = own' := by simpa using h
    exact ⟨fun _ => rfl, fun _ => ⟨⟨fun _ _ => rfl, fun _ _ => rfl, fun _ _ => rfl, fun _ => rfl,
      fun _ => rfl, fun _ => rfl, fun _ => rfl, fun _ => rfl⟩, hq, hleft⟩⟩
  | @fill f hf =>
    obtain ⟨⟨re₁, o₁, own₁⟩, hturn, hnil⟩ := exec_cons_eq_ok_iff.mp h
    obtain ⟨rfl, rfl, -⟩ : re₁ = re' ∧ o₁ = o' ∧ own₁ = own' := by simpa using hnil
    obtain ⟨p, hp, hackp, hstep, rfl⟩ := reportTurn_of_acknowledged hack (.inl hf) hturn
    have hfigures : Neutral p ↔ SaysNothing q q f := hp.neutral_iff_saysNothing hf
    rw [sameFigures_riskStep_iff (e := ⟨p, mb⟩) hackp.own hclamped hstep,
      quantity_settled, remainingQuantity_settled]
    constructor
    · rintro ⟨hneutral, -, hlast⟩
      have hn := hfigures.mp hneutral
      exact ⟨hn, (hp.left_of_saysNothing hn).symm.trans hlast⟩
    · rintro ⟨hn, hlast⟩
      exact ⟨hfigures.mpr hn, (hp.quantity_of_fill hf).trans hq,
        (hp.left_of_saysNothing hn).trans hlast⟩
  | @close l hl =>
    obtain ⟨⟨re₁, o₁, own₁⟩, hturn, hnil⟩ := exec_cons_eq_ok_iff.mp h
    obtain ⟨rfl, rfl, -⟩ : re₁ = re' ∧ o₁ = o' ∧ own₁ = own' := by simpa using hnil
    obtain ⟨p, hp, hackp, hstep, rfl⟩ := reportTurn_of_acknowledged hack (.inr hl) hturn
    have hfigures := hp.neutral_and_quantity_iff (q := q) hl (hone hp hcc) hleft
    rw [sameFigures_riskStep_iff (e := ⟨p, mb⟩) hackp.own hclamped hstep,
      quantity_settled, remainingQuantity_settled]
    constructor
    · rintro ⟨hneutral, hquantity, hlast⟩
      have hn := hfigures.mp ⟨hneutral, hquantity⟩
      exact ⟨hn, (hp.left_of_saysNothing hn).symm.trans hlast⟩
    · rintro ⟨hn, hlast⟩
      obtain ⟨hneutral, hquantity⟩ := hfigures.mpr hn
      exact ⟨hneutral, hquantity, (hp.left_of_saysNothing hn).trans hlast⟩
  | @fillClose f l hf hl =>
    -- the close report finds the open quantity the fill has announced
    obtain ⟨⟨re₁, o₁, own₁⟩, hturn, hrest⟩ := exec_cons_eq_ok_iff.mp h
    obtain ⟨⟨re₂, o₂, own₂⟩, hturn₂, hnil⟩ := exec_cons_eq_ok_iff.mp hrest
    obtain ⟨rfl, rfl, -⟩ : re₂ = re' ∧ o₂ = o' ∧ own₂ = own' := by simpa using hnil
    obtain ⟨a, ha, hacka, hstep, rfl⟩ := reportTurn_of_acknowledged hack (.inl hf) hturn
    obtain ⟨b, hb, hackb, hstep₂, rfl⟩ :=
      reportTurn_of_acknowledged hacka.settled (.inr hl) hturn₂
    have hcca : (settled a).cancelledCount = 0 := by
      rw [cancelledCount_settled]
      exact (ha.cancelled_of_fill hf).trans hcc
    have hfirst : Neutral a ↔ SaysNothing q q f := ha.neutral_iff_saysNothing hf
    have hsecond := hb.neutral_and_quantity_iff (q := q) hl (hone hb hcca) rfl
    -- a fill moves the position, a close report does not
    rw [sameFigures_pair_iff hacka.own hackb.own (hb.venue.trans (venue_settled a))
      (hb.symbolIndex.trans (symbolIndex_settled a)) hclamped hstep hstep₂
      (fun hcount hmargin hexec _ => neutral_of_moves hf hl ha hb (hone ha hcc) (hone hb hcca)
        hcount (hexec (ha.isFill hf) (hb.not_isFill hl)) hmargin),
      quantity_settled, remainingQuantity_settled]
    rw [remainingQuantity_settled] at hsecond
    constructor
    · rintro ⟨⟨hna, hnb⟩, hquantity, hlast⟩
      have hn := hfirst.mp hna
      rw [ha.left_of_saysNothing hn] at hsecond
      have hn₂ := hsecond.mp ⟨hnb, hquantity⟩
      exact ⟨hn, hn₂, (hb.left_of_saysNothing hn₂).symm.trans hlast⟩
    · rintro ⟨hn, hn₂, hlast⟩
      rw [ha.left_of_saysNothing hn] at hsecond
      obtain ⟨hnb, hquantity⟩ := hsecond.mpr hn₂
      exact ⟨⟨hfirst.mpr hn, hnb⟩, hquantity, (hb.left_of_saysNothing hn₂).trans hlast⟩
  | @closeFill f l hf hl =>
    -- the fill keeps the quantity and announces the open quantity anew
    obtain ⟨⟨re₁, o₁, own₁⟩, hturn, hrest⟩ := exec_cons_eq_ok_iff.mp h
    obtain ⟨⟨re₂, o₂, own₂⟩, hturn₂, hnil⟩ := exec_cons_eq_ok_iff.mp hrest
    obtain ⟨rfl, rfl, -⟩ : re₂ = re' ∧ o₂ = o' ∧ own₂ = own' := by simpa using hnil
    obtain ⟨a, ha, hacka, hstep, rfl⟩ := reportTurn_of_acknowledged hack (.inr hl) hturn
    obtain ⟨b, hb, hackb, hstep₂, rfl⟩ :=
      reportTurn_of_acknowledged hacka.settled (.inl hf) hturn₂
    have hccb : ¬1 < b.cancelledCount := by
      rw [hb.cancelled_of_fill hf, cancelledCount_settled]
      exact hone ha hcc
    have hquantity : b.quantity = a.quantity :=
      (hb.quantity_of_fill hf).trans (quantity_settled a)
    have hfirst := ha.neutral_and_quantity_iff (q := q) hl (hone ha hcc) hleft
    have hsecond : Neutral b ↔ SaysNothing q l.leavesQty f := hb.neutral_iff_saysNothing hf
    rw [sameFigures_pair_iff hacka.own hackb.own (hb.venue.trans (venue_settled a))
      (hb.symbolIndex.trans (symbolIndex_settled a)) hclamped hstep hstep₂
      (fun hcount hmargin _ hexec => (neutral_of_moves hf hl hb ha hccb (hone ha hcc)
        ((UInt32.add_comm _ _).trans hcount) (hexec (hb.isFill hf) (ha.not_isFill hl))
        ((Int64.add_comm _ _).trans hmargin)).symm), quantity_settled, remainingQuantity_settled]
    constructor
    · rintro ⟨⟨hna, hnb⟩, hq', hlast⟩
      have hn := hfirst.mp ⟨hna, hquantity.symm.trans hq'⟩
      have hn₂ := hsecond.mp hnb
      exact ⟨hn, hn₂, (hb.left_of_saysNothing hn₂).symm.trans hlast⟩
    · rintro ⟨hn, hn₂, hlast⟩
      obtain ⟨hna, hq'⟩ := hfirst.mpr hn
      exact ⟨⟨hna, hsecond.mpr hn₂⟩, hquantity.trans hq', (hb.left_of_saysNothing hn₂).trans hlast⟩

/-! ### The New report last, or first -/

/-- An own FIX order that no report has reached. -/
structure Unreported (o : Order) : Prop where
  own : o.isOurOrder = true
  fix : o.protocol = .fix
  wait : o.syncState = .waitingNew
  cancelled : o.cancelledCount = 0

structure SameQuantities (o o' : Order) : Prop where
  quantity : o'.quantity = o.quantity
  filled : o'.filledQuantity = o.filledQuantity
  left : o'.remainingQuantity = o.remainingQuantity

/-- **Early FIX reports.**  The run with New first and the run with New last lead to the
same figures and quantities exactly when the other reports say nothing new. -/
theorem earlyReports_iff {new : FIXMessage} {early : List FIXMessage} {re₁ : RiskEngine}
    {o₁ : Order} {own₁ : OwnFields} (ho : Unreported o) (hnew : new.ordStatus = 48)
    (hearly : EarlyReports early) (hclamped : re.Clamped)
    (hfirst : exec (reportTurn hash mb) (re, o, own) (new :: early) = .ok (re₁, o₁, own₁)) :
    ∃ re₂ o₂ own₂,
      exec (reportTurn hash mb) (re, o, own) (early ++ [new]) = .ok (re₂, o₂, own₂) ∧
      (SameFigures re₂ re₁ ∧ SameQuantities o₂ o₁ ↔
        AllSayNothing new.quantity new.quantity early) := by
  have hack : Acknowledged (fillFixNew hash o own new).1 :=
    acknowledged_fillFixNew hash own new ho.own ho.fix
  -- the run with New first
  obtain ⟨⟨reN, oN, ownN⟩, hturn, hlater⟩ := exec_cons_eq_ok_iff.mp hfirst
  rw [reportTurn, fillFixExecReport_new hash hnew,
    updateRiskOrder_of_acknowledged hack (show Status.new ≠ .unknown by decide)] at hturn
  obtain ⟨done, hbody, heq⟩ := map_eq_ok_iff.mp hturn
  obtain ⟨re', hstep, rfl⟩ := map_eq_ok_iff.mp hbody
  obtain ⟨rfl, rfl, rfl⟩ : re' = reN ∧ settled _ = oN ∧ _ = ownN := by simpa using heq
  have hseen := followed_exec hearly.kinds hlater
  obtain ⟨v, hv, -⟩ := bind_eq_ok_iff.mp hstep
  -- the run with New last
  obtain ⟨oW, ownW, hwaiting⟩ : ∃ oW ownW,
      exec (reportTurn hash mb) (re, o, own) early = .ok (re, oW, ownW) :=
    exec_reportTurn_of_waiting hearly.kinds (show o.venue.index = .ok v from hv) ho.fix ho.wait
  have hwaited := followed_exec hearly.kinds hwaiting
  have hackW : Acknowledged (fillFixNew hash oW ownW new).1 :=
    acknowledged_fillFixNew hash ownW new (hwaited.own.trans ho.own)
      (hwaited.protocol.trans ho.fix)
  have hcancelled : ¬1 < oW.cancelledCount := by
    rw [hwaited.cancelled, ho.cancelled]
    exact hearly.cancels
  -- what the early reports filled makes no difference to the New report
  have hcongr : SameNew (fillFixNew hash o own new).1 (fillFixNew hash oW ownW new).1 :=
    ⟨rfl, rfl, rfl, rfl, rfl, hwaited.venue, hwaited.symbolIndex, hwaited.own, hwaited.protocol,
      iff_of_false hcancelled (show ¬1 < o.cancelledCount by rw [ho.cancelled]; decide)⟩
  have hstepW : riskStep re ⟨(fillFixNew hash oW ownW new).1, mb⟩ = .ok re' :=
    (riskStep_new_congr hcongr rfl ho.own).trans hstep
  have hlast : reportTurn hash mb (re, oW, ownW) new =
      .ok (re', settled (fillFixNew hash oW ownW new).1, (fillFixNew hash oW ownW new).2) := by
    rw [reportTurn, fillFixExecReport_new hash hnew,
      updateRiskOrder_of_acknowledged hackW (show Status.new ≠ .unknown by decide), hstepW]
    rfl
  refine ⟨re', _, _, exec_append_eq_ok_iff.mpr ⟨_, hwaiting, (exec_cons_ok [] hlast).trans
    (exec_nil _)⟩, ?_⟩
  have hiff := sameFigures_exec_iff (q := new.quantity) hearly hack.settled
    (quantity_settled _) (remainingQuantity_settled _)
    ((cancelledCount_settled _).trans ho.cancelled) (clamped_riskStep hclamped hstep) hlater
  have hfilled : o₁.filledQuantity = (settled (fillFixNew hash oW ownW new).1).filledQuantity := by
    rw [hseen.filled, filledQuantity_settled, filledQuantity_settled]
    exact hwaited.filled.symm
  rw [← hiff]
  constructor
  · rintro ⟨hsame, hquantities⟩
    refine ⟨hsame, ?_, ?_⟩
    · exact hquantities.quantity.trans (quantity_settled _)
    · exact hquantities.left.trans (remainingQuantity_settled _)
  · rintro ⟨hsame, hquantity, hleft⟩
    refine ⟨hsame, ?_, hfilled, ?_⟩
    · rw [quantity_settled]
      exact hquantity
    · rw [remainingQuantity_settled]
      exact hleft

/-- A bid for 10 at 100 that waits for its New report. -/
def waitingBid : Order := { acknowledgedBid with syncState := .waitingNew }

/-- All of it is filled. -/
def fillReport : FIXMessage :=
  { fixReport 50 50 with lastQty := 10, filledQty := 10, leavesQty := 0 }

def afterReportTurns (msgs : List FIXMessage) : RiskEngine × Order × OwnFields :=
  (exec (reportTurn (fun _ => 0) {}) ({}, waitingBid, {}) msgs).toOption.getD ({}, {}, {})

/-- The early report replaces the order by itself. -/
theorem earlyReports_iff_replaced :
    ∃ re₂ o₂ own₂,
      exec (reportTurn (fun _ => 0) {}) ({}, waitingBid, {}) [fixReport 53 53, fixReport 48 48] =
        .ok (re₂, o₂, own₂) ∧
      SameFigures re₂ (afterReportTurns [fixReport 48 48, fixReport 53 53]).1 ∧
      SameQuantities o₂ (afterReportTurns [fixReport 48 48, fixReport 53 53]).2.1 := by
  have hfirst : exec (reportTurn (fun _ => 0) {}) ({}, waitingBid, {})
      [fixReport 48 48, fixReport 53 53] =
      .ok (afterReportTurns [fixReport 48 48, fixReport 53 53]) := rfl
  obtain ⟨re₂, o₂, own₂, hlast, hiff⟩ := earlyReports_iff ⟨rfl, rfl, rfl, rfl⟩ rfl
    (.close (.inr (.inl rfl))) (clamped_fresh fresh_default) hfirst
  exact ⟨re₂, o₂, own₂, hlast, hiff.mpr ⟨.inr ⟨rfl, rfl, fun _ => rfl⟩, rfl⟩⟩

/-- An early fill is lost: no position, and the order stays open. -/
theorem early_fill_lost :
    exec (reportTurn (fun _ => 0) {}) ({}, waitingBid, {}) [fixReport 48 48, fillReport] =
        .ok (afterReportTurns [fixReport 48 48, fillReport]) ∧
      exec (reportTurn (fun _ => 0) {}) ({}, waitingBid, {}) [fillReport, fixReport 48 48] =
        .ok (afterReportTurns [fillReport, fixReport 48 48]) ∧
      ¬SameFigures (afterReportTurns [fillReport, fixReport 48 48]).1
        (afterReportTurns [fixReport 48 48, fillReport]).1 := by
  refine ⟨rfl, rfl, fun hsame => ?_⟩
  have hposition : (10 : Int64) = 0 := hsame.position 0 0
  exact absurd hposition (by decide)

end TradingEngine
