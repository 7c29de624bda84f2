/-
Reports about a replace that the risk engine takes for something else.

The store admits a FIX report by its ExecType and fills the order by its
OrdStatus: a report that an order was replaced or triggered carries the status of
the order, so `fill_fix_exec_report` runs the filler of a New report or of a fill.
On OUCH, `fill_ouch_replaced` ignores a replaced order that is not on the book.
Either way the order goes to the risk engine, which applies whatever status it
has.

* `updateOrderFix_of_acknowledged`, `updateOrderBistOuch_offBook` — what the store
  does with the two reports: one order rewritten or none, one order queued;
* `fix_replaceReport_iff` — the FIX report leaves counts and position, and moves the
  margin with the order, only as a partial fill of nothing that keeps the value of
  the order;
* `bist_offBook_iff` — the OUCH report is without effect exactly on a neutral order.
-/
import TradingEngine.BookFlush
import TradingEngine.MarginLife
import TradingEngine.OrderFrame
import TradingEngine.NeutralReports

namespace TradingEngine

open FallibleRun RiskEngine

/-! ### One order through the risk engine -/

variable {re re' : RiskEngine} {e : RiskEvent} {slot : OrderSlot} {o : Order}

/-- An order that is applied once is its own application if it has a status. -/
theorem applications_eq_singleton (honce : e.order.AppliedOnce)
    (hknown : e.order.protocol = .fix → e.order.status ≠ .unknown) : applications e = [e] := by
  obtain happ | ⟨-, -⟩ := applications_of_appliedOnce honce
  · exact happ
  · obtain ⟨-, hproto | ⟨hproto, hseen, hpre⟩⟩ := honce
    · have hnot : e.order.protocol ≠ .fix := by rw [hproto]; decide
      rw [applications, reports, if_neg hnot]
      rfl
    · have hwait : e.order.syncState ≠ .waitingNew := by rw [hseen]; decide
      rw [applications, reports, if_pos hproto, if_neg hwait]
      simp [hpre, hknown hproto]

/-- The turn of the update thread on such an order is one application. -/
theorem riskStep_of_riskTurns {om om' : OrderManager} (honce : (om.orderPool slot).AppliedOnce)
    (hknown : (om.orderPool slot).protocol = .fix → (om.orderPool slot).status ≠ .unknown)
    (h : riskTurns (re, om) [slot] = .ok (re', om')) :
    riskStep re ⟨om.orderPool slot, om.marketbook⟩ = .ok re' := by
  obtain ⟨⟨re₁, om₁⟩, hone, hnil⟩ := exec_cons_eq_ok_iff.mp h
  obtain ⟨⟨done, re₂, om₂⟩, hturn, heq⟩ := map_eq_ok_iff.mp hone
  obtain ⟨⟨done', re₃, order'⟩, hbody, hset⟩ := bind_eq_ok_iff.mp hturn
  cases heq
  cases hset
  cases hnil
  have happlied := exec_applications_of_updateRiskOrder hbody
  rw [applications_eq_singleton (e := ⟨_, _⟩) honce hknown] at happlied
  obtain ⟨re₄, hstep, hlast⟩ := exec_cons_eq_ok_iff.mp happlied
  cases hlast
  exact hstep

/-- A slot pushed to a queue with room is what was queued. -/
theorem queuedBy_push {om om₁ : OrderManager} (hroom : om.storeToRisk.items.length < 1024)
    (hqueue : om₁.storeToRisk = om.storeToRisk.push slot) : queuedBy om om₁ = [slot] := by
  rw [queuedBy, hqueue, BoundedQueue.items_push hroom, List.drop_left]

/-! ### FIX reports for an acknowledged order -/

/-- An own FIX order as its New report leaves it: the early statuses are cleared. -/
structure Acknowledged (o : Order) : Prop where
  own : o.isOurOrder = true
  fix : o.protocol = .fix
  seen : o.syncState = .newSeen
  preNew : o.statusesPreNew = (.unknown, .unknown)

theorem Acknowledged.appliedOnce (h : Acknowledged o) : o.AppliedOnce :=
  ⟨h.own, .inr ⟨h.fix, h.seen, h.preNew⟩⟩

section

variable (hash : List UInt8 → UInt64) (own : OwnFields) (msg : FIXMessage)

theorem acknowledged_fillFixNew (hown : o.isOurOrder = true) (hfix : o.protocol = .fix) :
    Acknowledged (FillerFix.fillFixNew hash o own msg).1 := ⟨hown, hfix, rfl, rfl⟩

/-- Later reports record no early status. -/
theorem Acknowledged.fillFixExecReport (h : Acknowledged o) :
    Acknowledged (FillerFix.fillFixExecReport hash o own msg).1 := by
  have hwait : o.syncState ≠ .waitingNew := by
    rw [h.seen]
    decide
  rw [FillerFix.fillFixExecReport]
  split
  · exact acknowledged_fillFixNew hash own msg h.own h.fix
  · split
    · exact ⟨h.own, h.fix, h.seen, (if_neg hwait).trans h.preNew⟩
    · split
      · exact ⟨h.own, h.fix, h.seen, (if_neg hwait).trans h.preNew⟩
      · split
        · exact ⟨h.own, h.fix, h.seen, (if_neg hwait).trans h.preNew⟩
        · split
          · exact ⟨h.own, h.fix, h.seen, (if_neg hwait).trans h.preNew⟩
          · split
            · exact ⟨h.own, h.fix, h.seen, (if_neg hwait).trans h.preNew⟩
            · exact h

end

namespace OwnManager

variable {hash : List UInt8 → UInt64} {om om₁ : OwnManager} {msg : FIXMessage}

/-- The message is an execution report for the own order in `slot`, which may be
modified. -/
structure FindsFix (hash : List UInt8 → UInt64) (om : OwnManager) (msg : FIXMessage)
    (slot : OrderSlot) : Prop where
  report : msg.msgType = 56
  ours : ∃ book, om.sympackSymid.lookup (symbolPack msg.symbol) = some book ∧
    om.getOrderFromOurMap (fixKey hash book msg) = some slot
  unlocked : (om.orderPool slot).canModify ≠ 0

/-- An admitted report fills the order and queues it. -/
theorem updateOrderFix_of_acknowledged (hfinds : FindsFix hash om msg slot)
    (hexec : allowedExecType msg.execType = true) (h : updateOrderFix hash om msg = .ok om₁) :
    om₁.orderPool slot =
        (FillerFix.fillFixExecReport hash (om.orderPool slot) (om.ownFields slot) msg).1 ∧
      om₁.storeToRisk = om.storeToRisk.push slot := by
  obtain ⟨book, hbook, hfound⟩ := hfinds.ours
  have hcode : ¬128 ≤ msg.execType := by
    intro hle
    simp only [allowedExecType, List.mem_cons, List.not_mem_nil, or_false,
      decide_eq_true_eq] at hexec
    rcases hexec with hc | hc | hc | hc | hc | hc <;> exact absurd hle (by rw [hc]; decide)
  rw [updateOrderFix, hbook] at h
  simp only [hfound] at h
  rw [unlessDeferred, if_neg hfinds.unlocked, handleFix, if_pos hfinds.report, if_neg hcode,
    if_pos hexec] at h
  rw [← Except.ok.inj h]
  exact ⟨Function.update_self _ _ _, rfl⟩

end OwnManager

theorem ofInt_reserved (o : Order) :
    Int64.ofInt (reserved o) = o.price * o.remainingQuantity.toInt64 := by
  rw [reserved, Int64.ofInt_mul, Int64.ofInt_toInt, toInt64_eq_ofInt]

/-- What a replaced or triggered order should do to the risk figures: no count and no
position moves, and the margin in use goes from price times what was open, in `o`, to price
times what is open now, in `o'`. -/
structure ReplaceLaw (re re' : RiskEngine) (o o' : Order) : Prop where
  accountCount : ∀ v, (re'.accountrisks v).openOrdersCount = (re.accountrisks v).openOrdersCount
  symbolCount : ∀ v i,
    (re'.symbolrisks v i).openOrdersCount = (re.symbolrisks v i).openOrdersCount
  position : ∀ v i, (re'.symbolrisks v i).netPosition = (re.symbolrisks v i).netPosition
  margin : ∀ v, o.venue.index = .ok v → (re'.accountrisks v).usedMargin =
    (re.accountrisks v).usedMargin + Int64.ofInt (reserved o' - reserved o)

/-- The law for an own order that has just been filled with status `Partial`. -/
theorem replaceLaw_iff_of_partialFill {o : Order} (hown : e.order.isOurOrder = true)
    (hclamped : re.Clamped) (hstatus : e.order.status = .partialFill)
    (hvenue : e.order.venue = o.venue) (h : riskStep re e = .ok re') :
    ReplaceLaw re re' o e.order ↔ e.order.lastExecQuantity = 0 ∧
      e.order.price * e.order.remainingQuantity.toInt64 =
        o.price * o.remainingQuantity.toInt64 := by
  have hneutral : Neutral e.order ↔ e.order.lastExecQuantity = 0 := by
    rw [Neutral, hstatus]
  obtain ⟨w, j, -, -, -, hw, hj, -, -, -, -, -⟩ := riskStep_eq_ok h
  have hsame : Int64.ofInt (reserved e.order - reserved o) = 0 ↔
      e.order.price * e.order.remainingQuantity.toInt64 =
        o.price * o.remainingQuantity.toInt64 := by
    rw [Int64.ofInt_sub, ofInt_reserved, ofInt_reserved]
    constructor
    · intro hzero
      grind
    · intro heq
      grind
  constructor
  · intro hlaw
    -- nothing was executed, so the order is neutral and its margin stays
    have hposition := hlaw.position w j
    rw [netPosition_riskStep hown h, executed, if_pos ⟨.inl hstatus, hw, hj⟩] at hposition
    have hzero := ofInt_signedExec_eq_zero_iff.mp (Int64.add_eq_left.mp hposition)
    have hkept := (sameFigures_riskStep_iff hown hclamped h).mpr (hneutral.mpr hzero)
    have hmargin := hlaw.margin w (hvenue ▸ hw)
    rw [hkept.margin w] at hmargin
    exact ⟨hzero, hsame.mp (Int64.add_eq_left.mp hmargin.symm)⟩
  · rintro ⟨hzero, hvalue⟩
    have hkept := (sameFigures_riskStep_iff hown hclamped h).mpr (hneutral.mpr hzero)
    refine ⟨hkept.accountCount, hkept.symbolCount, hkept.position, fun v _ => ?_⟩
    rw [hkept.margin v, hsame.mpr hvalue, Int64.add_zero]

/-- A report that the account counts breaks the law. -/
theorem not_replaceLaw_of_counted {o o' : Order} (hown : e.order.isOurOrder = true)
    (hcounted : countMove e.order ≠ 0) (h : riskStep re e = .ok re') :
    ¬ReplaceLaw re re' o o' := by
  intro hlaw
  obtain ⟨w, -, -, -, -, hw, -⟩ := riskStep_eq_ok h
  have hcount := hlaw.accountCount w
  rw [count_riskStep hown h, if_pos hw] at hcount
  exact hcounted (UInt32.add_eq_left.mp hcount)

/-- **Replaced and triggered FIX orders.**  For an acknowledged order and a report with
ExecType `5` or `L` and OrdStatus `0`, `1` or `2`, the law holds exactly when the report is
taken for a partial fill, of nothing, that leaves the value of what is open. -/
theorem fix_replaceReport_iff {hash : List UInt8 → UInt64} {om om₁ : OwnManager}
    {om' : OrderManager} {msg : FIXMessage} (hexec : msg.execType = 53 ∨ msg.execType = 76)
    (hord : msg.ordStatus = 48 ∨ msg.ordStatus = 49 ∨ msg.ordStatus = 50)
    (hfinds : OwnManager.FindsFix hash om msg slot) (hack : Acknowledged (om.orderPool slot))
    (hroom : om.storeToRisk.items.length < 1024) (hclamped : re.Clamped)
    (hupdate : OwnManager.updateOrderFix hash om msg = .ok om₁)
    (hrisk : riskTurns (re, om₁.toOrderManager)
      (queuedBy om.toOrderManager om₁.toOrderManager) = .ok (re', om')) :
    ReplaceLaw re re' (om.orderPool slot) (om₁.orderPool slot) ↔
      msg.ordStatus = 49 ∧ msg.lastQty = 0 ∧ msg.lastPrice * msg.leavesQty.toInt64 =
        (om.orderPool slot).price * (om.orderPool slot).remainingQuantity.toInt64 := by
  have hadmitted : OwnManager.allowedExecType msg.execType = true := by
    rcases hexec with hc | hc <;> rw [hc] <;> decide
  obtain ⟨hfilled, hqueue⟩ := OwnManager.updateOrderFix_of_acknowledged hfinds hadmitted hupdate
  rw [queuedBy_push hroom hqueue] at hrisk
  have hack₁ := hack.fillFixExecReport hash (om.ownFields slot) msg
  rw [← hfilled] at hack₁
  rcases hord with hs | hs | hs
  · -- taken for a New report
    have hnew : (om₁.orderPool slot).status = .new := by
      rw [hfilled, FillerFix.fillFixExecReport, if_pos hs]
      rfl
    have hstep := riskStep_of_riskTurns hack₁.appliedOnce (fun _ => by rw [hnew]; decide) hrisk
    refine iff_of_false (not_replaceLaw_of_counted hack₁.own ?_ hstep) ?_
    · simp [countMove, hnew]
    · simp [hs]
  · -- taken for a partial fill
    have hpart : om₁.orderPool slot =
        (FillerFix.fillFixPartial (om.orderPool slot) (om.ownFields slot) msg).1 := by
      rw [hfilled, FillerFix.fillFixExecReport, hs]
      rfl
    have hstatus : (om₁.orderPool slot).status = .partialFill := by
      rw [hpart]
      rfl
    have hstep := riskStep_of_riskTurns hack₁.appliedOnce (fun _ => by rw [hstatus]; decide) hrisk
    rw [replaceLaw_iff_of_partialFill (o := om.orderPool slot) hack₁.own hclamped hstatus
      (by rw [hpart]; rfl) hstep, hpart]
    exact ⟨fun hlaw => ⟨hs, hlaw⟩, fun hlaw => hlaw.2⟩
  · -- taken for the last fill
    have hdone : (om₁.orderPool slot).status = .filled := by
      rw [hfilled, FillerFix.fillFixExecReport, hs]
      rfl
    have hstep := riskStep_of_riskTurns hack₁.appliedOnce (fun _ => by rw [hdone]; decide) hrisk
    refine iff_of_false (not_replaceLaw_of_counted hack₁.own ?_ hstep) ?_
    · simp [countMove, hdone]
    · simp [hs]

/-- The symbol `A` with its blanks. -/
def symbolA : List UInt8 := [65, 32, 32, 32, 32, 32, 32, 32]

/-- A report on the order with the id 1 of the exchange. -/
def fixReport (execType ordStatus : UInt8) : FIXMessage :=
  { msgType := 56, execType := execType, ordStatus := ordStatus, symbol := symbolA, orderId := [1]
    side := 1, price := 100, quantity := 10, lastPrice := 100, leavesQty := 10 }

/-- A store that holds one acknowledged FIX order. -/
def fixStore : OwnManager :=
  { orderPool := fun _ => acknowledgedBid
    sympackSymid := (∅ : HashMap (List UInt8) UInt32).insert symbolA 5
    ourOrders := (∅ : HashMap OrderKey OrderSlot).insert
      (OwnManager.fixKey (fun _ => 0) 5 (fixReport 53 48)) 40000 }

def afterFixReport (msg : FIXMessage) : OwnManager :=
  (OwnManager.updateOrderFix (fun _ => 0) fixStore msg).toOption.getD {}

/-- Five held of every symbol. -/
def heldRisk : RiskEngine :=
  { symbolrisks := fun _ _ => { netPosition := 5, costBasisScaled := 500, avgEntryPrice := 100 } }

def riskAfterFixReport (msg : FIXMessage) : RiskEngine × OrderManager :=
  (riskTurns (heldRisk, (afterFixReport msg).toOrderManager) [40000]).toOption.getD ({}, {})

theorem clamped_heldRisk : heldRisk.Clamped := fun _ _ =>
  ⟨show ¬(0 : Int64) < 0 by decide, show ¬(0 : Int32) < 0 by decide⟩

theorem findsFix_fixStore (execType ordStatus : UInt8) :
    OwnManager.FindsFix (fun _ => 0) fixStore (fixReport execType ordStatus) 40000 :=
  ⟨rfl, ⟨5, Finmap.lookup_insert _, Finmap.lookup_insert _⟩, show (7 : UInt8) ≠ 0 by decide⟩

theorem fix_replaceReport_iff_part :
    OwnManager.updateOrderFix (fun _ => 0) fixStore (fixReport 53 49) =
        .ok (afterFixReport (fixReport 53 49)) ∧
      ReplaceLaw heldRisk (riskAfterFixReport (fixReport 53 49)).1 acknowledgedBid
        ((afterFixReport (fixReport 53 49)).orderPool 40000) := by
  have hupdate : OwnManager.updateOrderFix (fun _ => 0) fixStore (fixReport 53 49) =
      .ok (afterFixReport (fixReport 53 49)) := rfl
  have hrisk : riskTurns (heldRisk, (afterFixReport (fixReport 53 49)).toOrderManager)
      (queuedBy fixStore.toOrderManager (afterFixReport (fixReport 53 49)).toOrderManager) =
      .ok (riskAfterFixReport (fixReport 53 49)) := rfl
  exact ⟨hupdate, (fix_replaceReport_iff (.inl rfl) (.inr (.inl rfl)) (findsFix_fixStore 53 49)
    ⟨rfl, rfl, rfl, rfl⟩ (by decide) clamped_heldRisk hupdate hrisk).mpr
    ⟨rfl, rfl, rfl⟩⟩

/-- A replaced order that was never filled: the report counts it a second time. -/
theorem replaced_order_counted_again :
    OwnManager.FindsFix (fun _ => 0) fixStore (fixReport 53 48) 40000 ∧
      OwnManager.updateOrderFix (fun _ => 0) fixStore (fixReport 53 48) =
        .ok (afterFixReport (fixReport 53 48)) ∧
      riskTurns (heldRisk, (afterFixReport (fixReport 53 48)).toOrderManager)
        (queuedBy fixStore.toOrderManager (afterFixReport (fixReport 53 48)).toOrderManager) =
        .ok (riskAfterFixReport (fixReport 53 48)) ∧
      ¬ReplaceLaw heldRisk (riskAfterFixReport (fixReport 53 48)).1 acknowledgedBid
        ((afterFixReport (fixReport 53 48)).orderPool 40000) := by
  refine ⟨findsFix_fixStore 53 48, rfl, rfl, fun hlaw => ?_⟩
  have hcount : (1 : UInt32) = 0 := hlaw.accountCount 0
  exact absurd hcount (by decide)

/-! ### A replaced BIST order that is not on the book -/

/-- An own OUCH order; its executions have traded something. -/
structure OuchOrder (o : Order) : Prop where
  own : o.isOurOrder = true
  ouch : o.protocol = .ouch
  traded : o.status = .partialFill → o.lastExecQuantity ≠ 0

/-- The reports of the exchange keep to this when no execution is of quantity 0. -/
theorem OuchOrder.fill (h : OuchOrder o) {r : BistReport}
    (hr : ∀ msg, r = .executed msg → msg.tradedQuantity.toUInt32 ≠ 0) : OuchOrder (r.fill o) := by
  cases r with
  | accepted msg => exact ⟨h.own, h.ouch, fun hpart => by cases hpart⟩
  | replaced msg =>
    rw [BistReport.fill, FillerOuchBist.fillOuchReplaced]
    split
    · exact h
    · exact ⟨h.own, h.ouch, fun hpart => by cases hpart⟩
  | executed msg => exact ⟨h.own, h.ouch, fun _ => hr msg rfl⟩
  | cancelled msg => exact ⟨h.own, h.ouch, fun hpart => by cases hpart⟩

namespace OwnManager

variable {hash : List UInt8 → UInt64} {om om₁ : OwnManager} {msg : Bist.OuchReplaced}

/-- Entering an order among ours moves no order and queues none for the risk engine. -/
theorem addOurOrder_frame {k : OrderKey} (h : om.addOurOrder slot k = .ok om₁) :
    om₁.orderPool = om.orderPool ∧ om₁.storeToRisk = om.storeToRisk := by
  obtain ⟨swept, histories, hsweep, rfl⟩ := addOurOrder_cases h
  obtain ⟨-, rfl⟩ | ⟨-, next, hnext, histories, -, rfl⟩ := sweep_cases hsweep
  · exact ⟨rfl, rfl⟩
  · exact ⟨rfl, rfl⟩

/-- The message names the own order in `slot`, by its key or by the token it waits under;
an order found by its key may be modified. -/
def FindsOuch (hash : List UInt8 → UInt64) (om : OwnManager) (msg : Bist.OuchReplaced)
    (slot : OrderSlot) : Prop :=
  let k : OrderKey :=
    ⟨msg.orderId, msg.orderBookId, Venue.bist.code, (sideOfChar msg.side).code⟩
  om.getOrderFromOurMap k = some slot ∧ (om.orderPool slot).canModify ≠ 0 ∨
    om.getOrderFromOurMap k = none ∧
      om.getOrderFromAwaitingAckOrders (hash msg.orderToken) = some slot

/-- An order that is not on the book is queued as it is. -/
theorem updateOrderBistOuch_offBook (hstate : msg.orderState = 2)
    (hfinds : FindsOuch hash om msg slot)
    (h : updateOrderBistOuch hash om (.replaced msg) = .ok om₁) :
    om₁.orderPool slot = om.orderPool slot ∧
      om₁.storeToRisk = om.storeToRisk.push slot := by
  have hfill : ∀ om : OwnManager, FillerOuchBist.fillOuchReplaced (om.orderPool slot)
      (om.ownFields slot) msg = (om.orderPool slot, om.ownFields slot) :=
    fun om => if_pos hstate
  rw [updateOrderBistOuch, onBistOuchKey] at h
  rcases hfinds with ⟨hours, hopen⟩ | ⟨hours, hawait⟩
  · simp only [Bool.false_eq_true, if_false, hours, unlessDeferred, if_neg hopen, hfill] at h
    rw [← Except.ok.inj h]
    exact ⟨Function.update_self _ _ _, rfl⟩
  · simp only [Bool.false_eq_true, if_false, hours, hawait] at h
    split at h
    · exact absurd h (by simp)
    · rename_i added hadd
      obtain ⟨hpool, hqueue⟩ := addOurOrder_frame hadd
      rw [← Except.ok.inj h]
      refine ⟨(Function.update_self _ _ _).trans ?_, ?_⟩
      · rw [hfill]
        exact congrFun hpool slot
      · exact congrArg (fun q => BoundedQueue.push q slot) hqueue

end OwnManager

/-- **A replaced order that is not on the book.**  The message has no effect on the risk
figures exactly when the order is neutral. -/
theorem bist_offBook_iff {hash : List UInt8 → UInt64} {om om₁ : OwnManager}
    {om' : OrderManager} {msg : Bist.OuchReplaced} (hstate : msg.orderState = 2)
    (hfinds : OwnManager.FindsOuch hash om msg slot) (horder : OuchOrder (om.orderPool slot))
    (hroom : om.storeToRisk.items.length < 1024) (hclamped : re.Clamped)
    (hupdate : OwnManager.updateOrderBistOuch hash om (.replaced msg) = .ok om₁)
    (hrisk : riskTurns (re, om₁.toOrderManager)
      (queuedBy om.toOrderManager om₁.toOrderManager) = .ok (re', om')) :
    (SameFigures re re' ∧ SamePnl re re') ↔ Neutral (om.orderPool slot) := by
  obtain ⟨hsame, hqueue⟩ := OwnManager.updateOrderBistOuch_offBook hstate hfinds hupdate
  rw [queuedBy_push hroom hqueue] at hrisk
  rw [← hsame] at horder ⊢
  have hnot : (om₁.orderPool slot).protocol ≠ .fix := by
    rw [horder.ouch]
    decide
  have hstep := riskStep_of_riskTurns ⟨horder.own, .inl horder.ouch⟩
    (fun hfix => absurd hfix hnot) hrisk
  have hfigures := sameFigures_riskStep_iff (e := ⟨_, _⟩) horder.own hclamped hstep
  refine ⟨fun hall => hfigures.mp hall.1, fun hneutral => ⟨hfigures.mpr hneutral, ?_⟩⟩
  refine samePnl_riskStep (e := ⟨_, _⟩) horder.own ?_ hstep
  -- a neutral fill would have traded nothing
  rintro (hs | hs)
  · have hzero : (om₁.orderPool slot).lastExecQuantity = 0 := by
      rw [Neutral, hs] at hneutral
      exact hneutral
    exact horder.traded hs hzero
  · rw [Neutral, hs] at hneutral
    exact hneutral

/-- The order with the exchange id 1 on the book with the id 5 is not on the book. -/
def offBook : Bist.OuchReplaced :=
  { orderId := 1, quantity := 10, orderBookId := 5, price := 100, side := 66, orderState := 2
    orderToken := [1] }

/-- A store that holds one own OUCH order. -/
def ouchStore (status : Status) : OwnManager :=
  { orderPool := fun _ => { acceptedBid with status := status }
    ourOrders := (∅ : HashMap OrderKey OrderSlot).insert
      ⟨1, 5, Venue.bist.code, Side.buy.code⟩ 40000 }

def afterOffBook (status : Status) : OwnManager :=
  (OwnManager.updateOrderBistOuch (fun _ => 0) (ouchStore status)
    (.replaced offBook)).toOption.getD {}

def riskAfterOffBook (status : Status) : RiskEngine × OrderManager :=
  (riskTurns (heldRisk, (afterOffBook status).toOrderManager) [40000]).toOption.getD ({}, {})

theorem findsOuch_ouchStore (status : Status) :
    OwnManager.FindsOuch (fun _ => 0) (ouchStore status) offBook 40000 :=
  .inl ⟨Finmap.lookup_insert _, show (7 : UInt8) ≠ 0 by decide⟩

/-- The message comes a second time: the order has been replaced by the same quantity. -/
theorem bist_offBook_iff_replaced :
    OwnManager.updateOrderBistOuch (fun _ => 0) (ouchStore .replaced) (.replaced offBook) =
        .ok (afterOffBook .replaced) ∧
      SameFigures heldRisk (riskAfterOffBook .replaced).1 ∧
      SamePnl heldRisk (riskAfterOffBook .replaced).1 := by
  have hupdate : OwnManager.updateOrderBistOuch (fun _ => 0) (ouchStore .replaced)
      (.replaced offBook) = .ok (afterOffBook .replaced) := rfl
  have hrisk : riskTurns (heldRisk, (afterOffBook .replaced).toOrderManager)
      (queuedBy (ouchStore .replaced).toOrderManager (afterOffBook .replaced).toOrderManager) =
      .ok (riskAfterOffBook .replaced) := rfl
  refine ⟨hupdate, (bist_offBook_iff rfl (findsOuch_ouchStore .replaced)
    ⟨rfl, rfl, fun hpart => absurd hpart (show Status.replaced ≠ .partialFill by decide)⟩
    (by decide) clamped_heldRisk hupdate hrisk).mpr ?_⟩
  exact show replacedAmount _ = 0 from rfl

/-- An accepted order that the message finds is counted a second time. -/
theorem offBook_order_counted_again :
    OwnManager.FindsOuch (fun _ => 0) (ouchStore .new) offBook 40000 ∧
      OwnManager.updateOrderBistOuch (fun _ => 0) (ouchStore .new) (.replaced offBook) =
        .ok (afterOffBook .new) ∧
      riskTurns (heldRisk, (afterOffBook .new).toOrderManager)
        (queuedBy (ouchStore .new).toOrderManager (afterOffBook .new).toOrderManager) =
        .ok (riskAfterOffBook .new) ∧
      ¬SameFigures heldRisk (riskAfterOffBook .new).1 := by
  refine ⟨findsOuch_ouchStore .new, rfl, rfl, fun hsame => ?_⟩
  have hcount : (1 : UInt32) = 0 := hsame.accountCount 0
  exact absurd hcount (by decide)

end TradingEngine
