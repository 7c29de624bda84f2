/-
Orders that may not be modified (`canModify`, `OrderManager::store`,
`fill_ouch_rejected`, `RiskEngine::update_risk`, `Builder_Dispatch`).

A message about an order none of whose bits is set is deferred.  The bits are set by the
threads that are done with the order: risk and strategy when they take it from their
queues, the builder when it has built it.  They are cleared by `fill_ouch_rejected` alone,
when a request for an acknowledged order is rejected, and that handler hands the order to
nobody.

* `masks_update` — no message but such a reject clears the bits, and no message takes an
  order out of the queues;
* `locked_queued_iff` — over every run each locked order is in both queues exactly when
  every order is in both when a reject locks it, and risk takes no locked order that it
  leaves as it is;
* `OnItsWay.unlocked` — from there the other threads can set all bits of the order.
-/
import TradingEngine.MaskFrame
import TradingEngine.OuchFills
import TradingEngine.RiskRuns
import TradingEngine.StoreFront

namespace TradingEngine

open FallibleRun RiskEngine

/-! ### Masks and queues over one message -/

/-- What is queued for risk and strategy stays queued. -/
structure StaysQueued (om om' : OrderManager) : Prop where
  risk : ∀ t ∈ om.storeToRisk.items, t ∈ om'.storeToRisk.items
  strategy : ∀ t ∈ om.storeToStrategy.items, t ∈ om'.storeToStrategy.items

theorem mem_push_of_mem {α : Type*} {n : ℕ} {q : BoundedQueue α n} {a b : α} (h : b ∈ q.items) :
    b ∈ (q.push a).items := by
  by_cases hroom : q.items.length < n
  · rw [BoundedQueue.items_push hroom]
    exact List.mem_append_left _ h
  · rwa [BoundedQueue.items_push_full hroom]

theorem StaysQueued.of_eq {om om' : OrderManager} (hrisk : om'.storeToRisk = om.storeToRisk)
    (hstrategy : om'.storeToStrategy = om.storeToStrategy) : StaysQueued om om' := by
  refine ⟨fun t ht => ?_, fun t ht => ?_⟩
  · rwa [hrisk]
  · rwa [hstrategy]

theorem StaysQueued.trans {om₁ om₂ om₃ : OrderManager} (h : StaysQueued om₁ om₂)
    (h' : StaysQueued om₂ om₃) : StaysQueued om₁ om₃ :=
  ⟨fun t ht => h'.risk t (h.risk t ht), fun t ht => h'.strategy t (h.strategy t ht)⟩

theorem staysQueued_publish (om : OrderManager) (slot : OrderSlot) :
    StaysQueued om (om.publish slot) :=
  ⟨fun _ => mem_push_of_mem, fun _ => mem_push_of_mem⟩

/-- No bit changes either. -/
structure KeepsMasks (om om' : OrderManager) : Prop extends StaysQueued om om' where
  masks : ∀ t, (om'.orderPool t).canModify = (om.orderPool t).canModify

theorem KeepsMasks.of_pool {om om' : OrderManager} (h : StaysQueued om om')
    (hpool : om'.orderPool = om.orderPool) : KeepsMasks om om' := by
  refine ⟨h, fun t => ?_⟩
  rw [hpool]

theorem KeepsMasks.trans {om₁ om₂ om₃ : OrderManager} (h : KeepsMasks om₁ om₂)
    (h' : KeepsMasks om₂ om₃) : KeepsMasks om₁ om₃ :=
  ⟨h.toStaysQueued.trans h'.toStaysQueued, fun t => (h'.masks t).trans (h.masks t)⟩

theorem keepsMasks_setOrder (om : OrderManager) (slot : OrderSlot) (order : Order)
    (hmask : order.canModify = (om.orderPool slot).canModify) :
    KeepsMasks om (om.setOrder slot order) := by
  refine ⟨.of_eq rfl rfl, fun t => ?_⟩
  show (Function.update om.orderPool slot order t).canModify = _
  by_cases ht : t = slot
  · rw [ht, Function.update_self, hmask]
  · rw [Function.update_of_ne ht]

/-- The market handlers touch no bit. -/
theorem marketSteps_keepsMasks : MarketSteps KeepsMasks where
  trans h h' := h.trans h'
  rest hpool hrisk hstrategy := .of_pool (.of_eq hrisk hstrategy) hpool
  write om slot order hmask _ := keepsMasks_setOrder om slot order hmask
  queue slot hpool hrisk hstrategy := by
    refine .of_pool ⟨fun t ht => ?_, fun t ht => ?_⟩ hpool
    · rw [hrisk]
      exact mem_push_of_mem ht
    · rw [hstrategy]
      exact mem_push_of_mem ht

namespace OwnManager

variable {hash : List UInt8 → UInt64} {om om' : OwnManager} {slot : OrderSlot} {d : DbData}

/-! #### Own orders -/

/-- The two queues are as they were. -/
def SameQueues (om om' : OwnManager) : Prop :=
  om'.storeToRisk = om.storeToRisk ∧ om'.storeToStrategy = om.storeToStrategy

theorem SameQueues.trans {om₁ om₂ om₃ : OwnManager} (h : SameQueues om₁ om₂)
    (h' : SameQueues om₂ om₃) : SameQueues om₁ om₃ := ⟨h'.1.trans h.1, h'.2.trans h.2⟩

theorem SameQueues.stays (h : SameQueues om om') :
    StaysQueued om.toOrderManager om'.toOrderManager := .of_eq h.1 h.2

/-- What is handed over is queued on top. -/
theorem SameQueues.published (h : SameQueues om om') (slot : OrderSlot) (d : DbData) :
    StaysQueued om.toOrderManager (om'.publishWith slot d).toOrderManager := by
  have hpublish := staysQueued_publish om'.toOrderManager slot
  exact h.stays.trans ⟨hpublish.risk, hpublish.strategy⟩

theorem sameQueues_sweep (h : om.sweep = .ok om') : SameQueues om om' := by
  obtain ⟨-, rfl⟩ | ⟨-, next, hnext, histories, -, rfl⟩ := sweep_cases h
  · exact ⟨rfl, rfl⟩
  · exact ⟨rfl, rfl⟩

theorem sameQueues_addOurOrder {k : OrderKey} (h : om.addOurOrder slot k = .ok om') :
    SameQueues om om' := by
  obtain ⟨om₁, histories, hsweep, rfl⟩ := addOurOrder_cases h
  exact (sameQueues_sweep hsweep).trans ⟨rfl, rfl⟩

theorem keepsMasks_addOurOrder {k : OrderKey} (h : om.addOurOrder slot k = .ok om') :
    KeepsMasks om.toOrderManager om'.toOrderManager :=
  .of_pool (sameQueues_addOurOrder h).stays (still_addOurOrder h).orderPool

theorem stays_unlessDeferred {handle : OwnManager → Except Fault OwnManager}
    (hhandle : handle om = .ok om' → StaysQueued om.toOrderManager om'.toOrderManager)
    (h : om.unlessDeferred slot d handle = .ok om') :
    StaysQueued om.toOrderManager om'.toOrderManager := by
  obtain ⟨-, rfl⟩ | ⟨-, hhandled⟩ := unlessDeferred_cases h
  · exact .of_eq rfl rfl
  · exact hhandle hhandled

/-! #### FIX -/

theorem canModify_fillFixExecReport (hash : List UInt8 → UInt64) (order : Order) (own : OwnFields)
    (m : FIXMessage) :
    (FillerFix.fillFixExecReport hash order own m).1.canModify = order.canModify := by
  unfold FillerFix.fillFixExecReport
  repeat' split
  all_goals rfl

theorem keepsMasks_finishFix (om : OwnManager) (slot : OrderSlot) (id : UInt64) (m : FIXMessage) :
    KeepsMasks om.toOrderManager (om.finishFix slot id m).toOrderManager :=
  .of_pool ⟨fun _ => mem_push_of_mem, fun _ => mem_push_of_mem⟩ rfl

theorem keepsMasks_handleFix {id : UInt64} {m : FIXMessage}
    (h : handleFix hash om slot id m = .ok om') :
    KeepsMasks om.toOrderManager om'.toOrderManager := by
  obtain ⟨-, -, filled, rfl, rfl⟩ | ⟨-, -, rfl⟩ | ⟨-, rfl⟩ | ⟨-, -, rfl⟩ := handleFix_cases h
  · have hfill := keepsMasks_setOrder om.toOrderManager slot _
      (canModify_fillFixExecReport hash (om.orderPool slot) (om.ownFields slot) m)
    have hfinish := keepsMasks_finishFix (om.setOwn slot
      (FillerFix.fillFixExecReport hash (om.orderPool slot) (om.ownFields slot) m).1
      (FillerFix.fillFixExecReport hash (om.orderPool slot) (om.ownFields slot) m).2) slot id m
    exact hfill.trans ⟨⟨hfinish.risk, hfinish.strategy⟩, hfinish.masks⟩
  · exact .of_pool (.of_eq rfl rfl) rfl
  · have hfill := keepsMasks_setOrder om.toOrderManager slot
      (FillerFix.fillFixCancelReject (om.orderPool slot) m) rfl
    exact hfill.trans (.of_pool (.of_eq rfl rfl) rfl)
  · exact keepsMasks_finishFix om slot id m

theorem keepsMasks_unlessDeferred {handle : OwnManager → Except Fault OwnManager}
    (hhandle : handle om = .ok om' → KeepsMasks om.toOrderManager om'.toOrderManager)
    (h : om.unlessDeferred slot d handle = .ok om') :
    KeepsMasks om.toOrderManager om'.toOrderManager := by
  obtain ⟨-, rfl⟩ | ⟨-, hhandled⟩ := unlessDeferred_cases h
  · exact .of_pool (.of_eq rfl rfl) rfl
  · exact hhandle hhandled

/-- A FIX message touches no bit. -/
theorem keepsMasks_updateOrderFix {m : FIXMessage} (h : updateOrderFix hash om m = .ok om') :
    KeepsMasks om.toOrderManager om'.toOrderManager := by
  obtain ⟨id, -, hcase⟩ := updateOrderFix_cases h
  obtain ⟨slot, -, hhandled⟩ | ⟨-, -, rfl⟩ | ⟨slot, -, -, -, rfl⟩ |
    ⟨slot, om₁, -, -, -, hadd, hhandled⟩ := hcase
  · exact keepsMasks_unlessDeferred keepsMasks_handleFix hhandled
  · exact .of_pool (.of_eq rfl rfl) rfl
  · exact .of_pool (.of_eq rfl rfl) rfl
  · exact (keepsMasks_addOurOrder hadd).trans
      (keepsMasks_unlessDeferred keepsMasks_handleFix hhandled)

/-! #### OUCH -/

theorem stays_onBistOuchKey {acknowledges : Bool} {k : OrderKey} {token : List UInt8}
    {fill : OwnManager → OrderSlot → OwnManager}
    (h : onBistOuchKey hash om acknowledges k token d fill = .ok om')
    (hfill : ∀ (om : OwnManager) slot, SameQueues om (fill om slot)) :
    StaysQueued om.toOrderManager om'.toOrderManager := by
  obtain ⟨slot, -, hhandled⟩ | ⟨-, -, rfl⟩ | ⟨slot, om₁, tokens, -, -, hadd, -, rfl⟩ :=
    onBistOuchKey_cases h
  · refine stays_unlessDeferred (fun hok => ?_) hhandled
    rw [← Except.ok.inj hok]
    exact (hfill om _).published _ d
  · exact .of_eq rfl rfl
  · refine SameQueues.published ((sameQueues_addOurOrder hadd).trans ?_) _ d
    exact SameQueues.trans ⟨rfl, rfl⟩ (hfill _ slot)

theorem stays_onNasdaqOuchAwaited {orderId : UInt64} {side : UInt8} {clOrdId : List UInt8}
    {fill : OwnManager → OrderSlot → OwnManager}
    (h : onNasdaqOuchAwaited hash om orderId side clOrdId d fill = .ok om')
    (hfill : ∀ (om : OwnManager) slot, SameQueues om (fill om slot)) :
    StaysQueued om.toOrderManager om'.toOrderManager := by
  obtain ⟨-, rfl⟩ | ⟨slot, om₁, k, refs, -, -, hadd, -, rfl⟩ := onNasdaqOuchAwaited_cases h
  · exact .of_eq rfl rfl
  · refine SameQueues.published ((sameQueues_addOurOrder hadd).trans ?_) _ d
    exact SameQueues.trans ⟨rfl, rfl⟩ (hfill _ slot)

theorem stays_onNasdaqOuchRef {userRefNum : UInt32} {finish : OwnManager → OrderSlot → OwnManager}
    (hfinish : ∀ (om : OwnManager) slot,
      StaysQueued om.toOrderManager (finish om slot).toOrderManager)
    (h : onNasdaqOuchRef om userRefNum d finish = .ok om') :
    StaysQueued om.toOrderManager om'.toOrderManager := by
  obtain ⟨k, slot, -, -, hhandled⟩ := onNasdaqOuchRef_cases h
  refine stays_unlessDeferred (fun hok => ?_) hhandled
  rw [← Except.ok.inj hok]
  exact (hfinish om _).trans (.of_eq rfl rfl)

/-- `fill_ouch_rejected` hands the order to nobody. -/
theorem sameQueues_fillOuchRejected (om : OwnManager) (slot : OrderSlot) (timestamp : UInt64) :
    SameQueues om (om.fillOuchRejected slot timestamp) := by
  unfold fillOuchRejected
  simp only
  split
  · exact ⟨rfl, rfl⟩
  · exact ⟨rfl, rfl⟩

/-- A reject leaves both queues as they are. -/
theorem sameQueues_rejectBistOuch {m : Bist.OuchRejected}
    (h : updateOrderBistOuch hash om (.rejected m) = .ok om') : SameQueues om om' := by
  obtain ⟨slot, -, hhandled⟩ | ⟨-, -, rfl⟩ | ⟨slot, -, -, rfl⟩ := onBistOuchToken_cases h
  · obtain ⟨-, rfl⟩ | ⟨-, hok⟩ := unlessDeferred_cases hhandled
    · exact ⟨rfl, rfl⟩
    · rw [← Except.ok.inj hok]
      exact sameQueues_fillOuchRejected om _ _
  · exact ⟨rfl, rfl⟩
  · exact SameQueues.trans ⟨rfl, rfl⟩ (sameQueues_fillOuchRejected (om.eraseAwaitingAck
      (om.orderPool slot).clientOrderId) slot m.timestamp)

theorem sameQueues_rejectNasdaqOuch {m : Nasdaq.OuchRejected}
    (h : updateOrderNasdaqOuch hash om (.rejected m) = .ok om') : SameQueues om om' := by
  obtain ⟨-, rfl⟩ | ⟨slot, -, rfl⟩ := ouchRejected_cases h
  · exact ⟨rfl, rfl⟩
  · exact SameQueues.trans ⟨rfl, rfl⟩ (sameQueues_fillOuchRejected (om.eraseAwaitingAck
      (om.orderPool slot).clientOrderId) slot m.timestamp)

theorem stays_updateOrderBistOuch {m : Bist.OuchMessage}
    (h : updateOrderBistOuch hash om m = .ok om') :
    StaysQueued om.toOrderManager om'.toOrderManager := by
  cases m with
  | accepted m =>
    simp only [updateOrderBistOuch] at h
    exact stays_onBistOuchKey h fun _ _ => ⟨rfl, rfl⟩
  | replaced m => exact stays_onBistOuchKey h fun _ _ => ⟨rfl, rfl⟩
  | cancelled m => exact stays_onBistOuchKey h fun _ _ => ⟨rfl, rfl⟩
  | rejected m => exact (sameQueues_rejectBistOuch h).stays
  | executed m =>
    obtain ⟨slot, -, hhandled⟩ | ⟨-, -, rfl⟩ | ⟨slot, -, -, rfl⟩ := onBistOuchToken_cases h
    · refine stays_unlessDeferred (fun hok => ?_) hhandled
      rw [← Except.ok.inj hok]
      exact ⟨fun _ => mem_push_of_mem, fun _ => mem_push_of_mem⟩
    · exact .of_eq rfl rfl
    · exact ⟨fun _ => mem_push_of_mem, fun _ => mem_push_of_mem⟩

theorem stays_updateOrderNasdaqOuch {m : Nasdaq.OuchMessage}
    (h : updateOrderNasdaqOuch hash om m = .ok om') :
    StaysQueued om.toOrderManager om'.toOrderManager := by
  have hpublished : ∀ (om : OwnManager) (slot : OrderSlot) (order : Order),
      StaysQueued om.toOrderManager ((om.setOrder slot order).publish slot).toOrderManager :=
    fun _ _ _ => ⟨fun _ => mem_push_of_mem, fun _ => mem_push_of_mem⟩
  have hsame : ∀ om : OwnManager, OrderSlot → StaysQueued om.toOrderManager om.toOrderManager :=
    fun _ _ => .of_eq rfl rfl
  cases m with
  | accepted m =>
    simp only [updateOrderNasdaqOuch] at h
    exact stays_onNasdaqOuchAwaited h fun _ _ => ⟨rfl, rfl⟩
  | replaced m =>
    obtain ⟨fill, rfl, locate, k, -, -, hcase⟩ := ouchReplaced_cases h
    obtain ⟨slot, -, hhandled⟩ | ⟨-, hawaited⟩ := hcase
    · refine stays_unlessDeferred (fun hok => ?_) hhandled
      rw [← Except.ok.inj hok]
      exact ⟨fun _ => mem_push_of_mem, fun _ => mem_push_of_mem⟩
    · exact stays_onNasdaqOuchAwaited hawaited fun _ _ => ⟨rfl, rfl⟩
  | rejected m => exact (sameQueues_rejectNasdaqOuch h).stays
  | cancelled m => exact stays_onNasdaqOuchRef (fun om slot => hpublished om slot _) h
  | executed m => exact stays_onNasdaqOuchRef (fun om slot => hpublished om slot _) h
  | modified m => exact stays_onNasdaqOuchRef (fun om slot => hpublished om slot _) h
  | brokenTrade m => exact stays_onNasdaqOuchRef hsame h
  | cancelPending m => exact stays_onNasdaqOuchRef hsame h
  | cancelReject m => exact stays_onNasdaqOuchRef hsame h
  | systemEvent =>
    rw [← Except.ok.inj h]
    exact .of_eq rfl rfl
  | accountQueryResponse =>
    rw [← Except.ok.inj h]
    exact .of_eq rfl rfl

/-! #### Which order a message locks -/

/-- The order that `fill_ouch_rejected` locks: one that has been acknowledged. -/
def lockedBy (om : OwnManager) : Disposition → Option OrderSlot
  | .applied slot => if (om.orderPool slot).status = .unknown then none else some slot
  | _ => none

def locks (hash : List UInt8 → UInt64) (om : OwnManager) : StoreMessage → Option OrderSlot
  | .bistOuch (.rejected m) => om.lockedBy (dispositionBistOuch hash om (.rejected m))
  | .nasdaqOuch (.rejected m) => om.lockedBy (dispositionNasdaqOuch hash om (.rejected m))
  | _ => none

/-- The bits after a filler that leaves them alone. -/
theorem masks_of_fillsAt {disp : Disposition} {fill : Order → Order}
    (h : FillsAt disp fill om om') (hfill : ∀ o, (fill o).canModify = o.canModify)
    (t : OrderSlot) : (om'.orderPool t).canModify = (om.orderPool t).canModify := by
  rw [h t]
  split
  · exact hfill _
  · rfl

/-- The bits after a reject. -/
theorem masks_of_rejected {disp : Disposition} {timestamp : UInt64}
    (h : FillsAt disp (rejectedOrder · timestamp) om om') (t : OrderSlot) :
    (om'.orderPool t).canModify =
      if om.lockedBy disp = some t then 0 else (om.orderPool t).canModify := by
  rw [h t]
  by_cases hd : disp = .applied t
  · subst hd
    rw [if_pos rfl]
    by_cases hnew : (om.orderPool t).status = .unknown
    · have hnone : om.lockedBy (.applied t) = none := if_pos hnew
      rw [hnone, if_neg (fun h => by cases h)]
      exact congrArg Order.canModify (if_pos hnew)
    · have hsome : om.lockedBy (.applied t) = some t := if_neg hnew
      rw [hsome, if_pos rfl]
      exact congrArg Order.canModify (if_neg hnew)
  · rw [if_neg hd, if_neg]
    intro hlocked
    unfold lockedBy at hlocked
    split at hlocked
    · split at hlocked
      · cases hlocked
      · exact hd (congrArg Disposition.applied (Option.some.inj hlocked))
    · cases hlocked

theorem canModify_fillBistReplaced (order : Order) (own : OwnFields) (m : Bist.OuchReplaced) :
    (FillerOuchBist.fillOuchReplaced order own m).1.canModify = order.canModify := by
  unfold FillerOuchBist.fillOuchReplaced
  split
  · rfl
  · rfl

/-- **One message.**  Only a reject of an acknowledged order clears bits, those of that
order; it leaves the queues as they are, and no message takes an order out of them. -/
theorem masks_update {msg : StoreMessage} (h : update hash om msg = .ok om') :
    StaysQueued om.toOrderManager om'.toOrderManager ∧
      (∀ t, (om'.orderPool t).canModify =
        if om.locks hash msg = some t then 0 else (om.orderPool t).canModify) ∧
      ∀ t, om.locks hash msg = some t → SameQueues om om' := by
  have hkeeps : KeepsMasks om.toOrderManager om'.toOrderManager → om.locks hash msg = none →
      StaysQueued om.toOrderManager om'.toOrderManager ∧
      (∀ t, (om'.orderPool t).canModify =
        if om.locks hash msg = some t then 0 else (om.orderPool t).canModify) ∧
      ∀ t, om.locks hash msg = some t → SameQueues om om' := by
    intro hmasks hnone
    rw [hnone]
    exact ⟨hmasks.toStaysQueued, fun t => (hmasks.masks t).trans (if_neg fun h => by cases h).symm,
      fun t ht => by cases ht⟩
  cases msg with
  | fix m => exact hkeeps (keepsMasks_updateOrderFix h) rfl
  | fixSession m =>
    rw [← Except.ok.inj h] at hkeeps ⊢
    exact hkeeps (.of_pool (.of_eq rfl rfl) rfl) rfl
  | bistItch m =>
    obtain ⟨market, hmarket, rfl⟩ := map_eq_ok_iff.mp h
    exact hkeeps (marketSteps_keepsMasks.updateOrderBist hmarket) rfl
  | nasdaqItch m =>
    obtain ⟨market, hmarket, rfl⟩ := map_eq_ok_iff.mp h
    exact hkeeps (marketSteps_keepsMasks.updateOrderNasdaq hmarket) rfl
  | bistOuch m =>
    have hfills := orderPool_updateOrderBistOuch h
    have hstays := stays_updateOrderBistOuch h
    cases m with
    | rejected m =>
      exact ⟨hstays, masks_of_rejected hfills, fun _ _ => sameQueues_rejectBistOuch h⟩
    | accepted m => exact hkeeps ⟨hstays, masks_of_fillsAt hfills fun _ => rfl⟩ rfl
    | replaced m =>
      exact hkeeps ⟨hstays, masks_of_fillsAt hfills fun o => canModify_fillBistReplaced o {} m⟩
        rfl
    | cancelled m => exact hkeeps ⟨hstays, masks_of_fillsAt hfills fun _ => rfl⟩ rfl
    | executed m => exact hkeeps ⟨hstays, masks_of_fillsAt hfills fun _ => rfl⟩ rfl
  | nasdaqOuch m =>
    have hfills := orderPool_updateOrderNasdaqOuch h
    -- the bits by what the filler writes, the queues by what the handler pushes
    have hstays := stays_updateOrderNasdaqOuch h
    cases m with
    | rejected m =>
      exact ⟨hstays, masks_of_rejected hfills, fun _ _ => sameQueues_rejectNasdaqOuch h⟩
    | _ => exact hkeeps ⟨hstays, masks_of_fillsAt hfills fun _ => rfl⟩ rfl

end OwnManager

/-! ### Store, risk, strategy and builder -/

/-- The threads around an order. -/
inductive LockEvent
  /-- the store handles a message, new or deferred -/
  | store (msg : StoreMessage)
  /-- `update_risk` pops an order -/
  | risk
  /-- the strategy pops an order and is done with it -/
  | strategy
  /-- the builder has built an order, or the risk check has let it through -/
  | mark (slot : OrderSlot) (bits : UInt8)
  /-- the strategy writes an order that then waits for its acknowledgement -/
  | place (slot : OrderSlot) (order : Order)

namespace OwnManager

variable {hash : List UInt8 → UInt64} {om om' : OwnManager} {slot : OrderSlot}

/-- The front order of the risk queue, as `settled` leaves it. -/
def riskTurn (om : OwnManager) : OwnManager :=
  match om.storeToRisk.items with
  | [] => om
  | slot :: _ =>
    { om.setOrder slot (settled (om.orderPool slot)) with storeToRisk := om.storeToRisk.tail }

def strategyTurn (om : OwnManager) : OwnManager :=
  match om.storeToStrategy.items with
  | [] => om
  | slot :: _ =>
    { om.orMask slot strategyDone with storeToStrategy := om.storeToStrategy.tail }

def place (om : OwnManager) (slot : OrderSlot) (order : Order) : OwnManager :=
  { om.setOrder slot { order with canModify := (om.orderPool slot).canModify } with
    awaitingAckOrders := om.awaitingAckOrders.insert order.clientOrderId slot }

def lockStep (hash : List UInt8 → UInt64) (om : OwnManager) : LockEvent → Except Fault OwnManager
  | .store msg => update hash om msg
  | .risk => .ok om.riskTurn
  | .strategy => .ok om.strategyTurn
  | .mark slot bits => .ok (om.orMask slot bits)
  | .place slot order => .ok (om.place slot order)

/-- **Locked orders are on their way**: one without any bit is queued for risk and for
strategy. -/
def OnItsWay (om : OwnManager) : Prop :=
  ∀ slot, (om.orderPool slot).canModify = 0 →
    slot ∈ om.storeToRisk.items ∧ slot ∈ om.storeToStrategy.items

/-- Risk leaves the bits of the order as they are: a FIX order that waits for its New. -/
def RiskSkips (om : OwnManager) (slot : OrderSlot) : Prop :=
  (om.orderPool slot).protocol = .fix ∧ (om.orderPool slot).syncState = .waitingNew

/-- An order that a reject locks is in both queues; a locked order that risk skips is queued
once more. -/
def LocksQueued (hash : List UInt8 → UInt64) (om : OwnManager) : LockEvent → Prop
  | .store msg => ∀ slot, om.locks hash msg = some slot →
      slot ∈ om.storeToRisk.items ∧ slot ∈ om.storeToStrategy.items
  | .risk => ∀ slot rest, om.storeToRisk.items = slot :: rest →
      (om.orderPool slot).canModify = 0 → om.RiskSkips slot → slot ∈ rest
  | _ => True

/-! #### One event -/

theorem canModify_settled (order : Order) :
    (settled order).canModify = 0 ↔
      order.canModify = 0 ∧ order.protocol = .fix ∧ order.syncState = .waitingNew := by
  have hmarked : ¬(order.canModify ||| riskDone = 0) := by
    rw [UInt8.or_eq_zero_iff]
    exact fun h => absurd h.2 (by decide)
  unfold settled
  by_cases hfix : order.protocol = .fix
  · rw [if_pos hfix]
    by_cases hwait : order.syncState = .waitingNew
    · rw [if_pos hwait]
      exact ⟨fun h => ⟨h, hfix, hwait⟩, And.left⟩
    · rw [if_neg hwait]
      exact ⟨fun h => absurd h hmarked, fun h => absurd h.2.2 hwait⟩
  · rw [if_neg hfix]
    exact ⟨fun h => absurd h hmarked, fun h => absurd h.2.1 hfix⟩

/-- A message. -/
theorem onItsWay_store_iff (hs : om.OnItsWay) {msg : StoreMessage}
    (h : update hash om msg = .ok om') :
    om'.OnItsWay ↔ om.LocksQueued hash (.store msg) := by
  obtain ⟨hstays, hmasks, hsame⟩ := masks_update h
  -- a message only adds to the queues, and those of an order it locks it leaves alone
  constructor
  · intro hs' slot hlocks
    have hlocked : (om'.orderPool slot).canModify = 0 := (hmasks slot).trans (if_pos hlocks)
    obtain ⟨hrisk, hstrategy⟩ := hs' slot hlocked
    obtain ⟨heq, heq'⟩ := hsame slot hlocks
    exact ⟨heq ▸ hrisk, heq' ▸ hstrategy⟩
  · intro hqueued slot hlocked
    have hbefore : slot ∈ om.storeToRisk.items ∧ slot ∈ om.storeToStrategy.items := by
      by_cases hlocks : om.locks hash msg = some slot
      · exact hqueued slot hlocks
      · exact hs slot (((hmasks slot).trans (if_neg hlocks)).symm.trans hlocked)
    exact ⟨hstays.risk slot hbefore.1, hstays.strategy slot hbefore.2⟩

/-- Risk takes an order. -/
theorem onItsWay_riskTurn_iff (hs : om.OnItsWay) :
    om.riskTurn.OnItsWay ↔ om.LocksQueued hash .risk := by
  unfold riskTurn LocksQueued
  cases hitems : om.storeToRisk.items with
  | nil => exact ⟨fun _ slot rest h => (by cases h), fun _ => hs⟩
  | cons front rest =>
    have hrest : om.storeToRisk.tail.items = rest := by
      rw [BoundedQueue.items_tail, hitems, List.tail_cons]
    have hfront : (Function.update om.orderPool front (settled (om.orderPool front)) front) =
        settled (om.orderPool front) := Function.update_self ..
    constructor
    · intro hs' slot rest' heq hlocked hskips
      obtain ⟨rfl, rfl⟩ := List.cons.inj heq
      have hstill : (settled (om.orderPool front)).canModify = 0 :=
        (canModify_settled _).mpr ⟨hlocked, hskips⟩
      have hmem := (hs' front ((congrArg Order.canModify hfront).trans hstill)).1
      rwa [← hrest]
    · intro hskipped slot hlocked
      change (Function.update om.orderPool front _ slot).canModify = 0 at hlocked
      show slot ∈ om.storeToRisk.tail.items ∧ slot ∈ om.storeToStrategy.items
      rw [hrest]
      by_cases hslot : slot = front
      · subst hslot
        rw [hfront, canModify_settled] at hlocked
        -- risk set no bit, so the order is one that it skips
        exact ⟨hskipped slot rest rfl hlocked.1 hlocked.2, (hs slot hlocked.1).2⟩
      · rw [Function.update_of_ne hslot] at hlocked
        obtain ⟨hrisk, hstrategy⟩ := hs slot hlocked
        rw [hitems] at hrisk
        exact ⟨(List.mem_cons.mp hrisk).resolve_left hslot, hstrategy⟩

theorem canModify_orMask (om : OwnManager) (slot t : OrderSlot) (bits : UInt8) :
    ((om.orMask slot bits).orderPool t).canModify =
      if t = slot then (om.orderPool t).canModify ||| bits else (om.orderPool t).canModify := by
  show (Function.update om.orderPool slot _ t).canModify = _
  by_cases ht : t = slot
  · subst ht
    rw [Function.update_self, if_pos rfl]
  · rw [Function.update_of_ne ht, if_neg ht]

/-- Setting bits locks nothing. -/
theorem canModify_of_orMask {t : OrderSlot} {bits : UInt8}
    (h : ((om.orMask slot bits).orderPool t).canModify = 0) : (om.orderPool t).canModify = 0 := by
  rw [canModify_orMask] at h
  split at h
  · exact (UInt8.or_eq_zero_iff.mp h).1
  · exact h

theorem onItsWay_strategyTurn (hs : om.OnItsWay) : om.strategyTurn.OnItsWay := by
  unfold strategyTurn
  cases hitems : om.storeToStrategy.items with
  | nil => exact hs
  | cons front rest =>
    intro slot hlocked
    have hrest : om.storeToStrategy.tail.items = rest := by
      rw [BoundedQueue.items_tail, hitems, List.tail_cons]
    have hlocked : ((om.orMask front strategyDone).orderPool slot).canModify = 0 := hlocked
    obtain ⟨hrisk, hstrategy⟩ := hs slot (canModify_of_orMask hlocked)
    refine ⟨hrisk, ?_⟩
    show slot ∈ om.storeToStrategy.tail.items
    rw [hrest]
    rw [hitems] at hstrategy
    refine (List.mem_cons.mp hstrategy).resolve_left fun heq => ?_
    -- the order taken has the bit of the strategy
    rw [canModify_orMask, if_pos heq, UInt8.or_eq_zero_iff] at hlocked
    exact absurd hlocked.2 (by decide)

theorem onItsWay_place (hs : om.OnItsWay) (slot : OrderSlot) (order : Order) :
    (om.place slot order).OnItsWay := by
  intro t hlocked
  refine hs t ?_
  change (Function.update om.orderPool slot _ t).canModify = 0 at hlocked
  by_cases ht : t = slot
  · subst ht
    rwa [Function.update_self] at hlocked
  · rwa [Function.update_of_ne ht] at hlocked

/-- **One event.**  The locked orders stay on their way exactly under the condition. -/
theorem onItsWay_step_iff {e : LockEvent} (hs : om.OnItsWay)
    (h : om.lockStep hash e = .ok om') : om'.OnItsWay ↔ om.LocksQueued hash e := by
  cases e with
  | store msg => exact onItsWay_store_iff hs h
  | risk =>
    rw [← Except.ok.inj h]
    exact onItsWay_riskTurn_iff hs
  | strategy =>
    rw [← Except.ok.inj h]
    exact ⟨fun _ => trivial, fun _ => onItsWay_strategyTurn hs⟩
  | mark slot bits =>
    rw [← Except.ok.inj h]
    exact ⟨fun _ => trivial, fun _ t hlocked => hs t (canModify_of_orMask hlocked)⟩
  | place slot order =>
    rw [← Except.ok.inj h]
    exact ⟨fun _ => trivial, fun _ => onItsWay_place hs slot order⟩

/-! #### Runs -/

/-- **When locked orders are on their way.**  Over every run of messages, risk, strategy and
builder, each order without bits is queued for risk and for strategy in every state reached
exactly when an order is in both queues whenever a reject locks it, and risk skips no locked
order that is not queued again. -/
theorem locked_queued_iff {t : OwnManager} {es : List LockEvent} (hs : om.OnItsWay)
    (hrun : exec (lockStep hash) om es = .ok t) :
    (∀ es₁ u, es₁ <+: es → exec (lockStep hash) om es₁ = .ok u → u.OnItsWay) ↔
      Along (lockStep hash) (LocksQueued hash) om es :=
  forall_prefix_iff_along (fun _ hs => hs)
    (fun _ _ _ hs hqueued h => (onItsWay_step_iff hs h).mpr hqueued)
    (fun _ _ _ hs h hs' => (onItsWay_step_iff hs h).mp hs') hs hrun

/-! #### What unlocks an order -/

/-- Risk reaches an order that is queued, and marks it. -/
theorem risk_marks (hash : List UInt8 → UInt64) {items : List OrderSlot}
    (hitems : om.storeToRisk.items = items) (hslot : slot ∈ items) (hskips : ¬om.RiskSkips slot) :
    ∃ es t, exec (lockStep hash) om es = .ok t ∧ (∀ e ∈ es, e = .risk) ∧
      (t.orderPool slot).canModify = (om.orderPool slot).canModify ||| riskDone ∧
      t.storeToStrategy = om.storeToStrategy := by
  -- on the risk queue: the orders before this one are taken first
  induction items generalizing om with
  | nil => cases hslot
  | cons front rest ih =>
    have hturn : om.riskTurn = { om.setOrder front (settled (om.orderPool front)) with
        storeToRisk := om.storeToRisk.tail } := by
      simp only [riskTurn, hitems]
    have hstrategy : om.riskTurn.storeToStrategy = om.storeToStrategy := by
      rw [hturn]
      rfl
    have hpool : om.riskTurn.orderPool =
        Function.update om.orderPool front (settled (om.orderPool front)) := by
      rw [hturn]
      rfl
    by_cases hfront : slot = front
    · subst hfront
      refine ⟨[.risk], om.riskTurn, rfl, fun e he => List.mem_singleton.mp he, ?_, hstrategy⟩
      rw [hpool, Function.update_self]
      unfold settled
      split
      · rename_i hfix
        rw [if_neg fun hwait => hskips ⟨hfix, hwait⟩]
      · rfl
    · have hsame : om.riskTurn.orderPool slot = om.orderPool slot := by
        rw [hpool, Function.update_of_ne hfront]
      have hrest : om.riskTurn.storeToRisk.items = rest := by
        rw [hturn]
        show om.storeToRisk.tail.items = rest
        rw [BoundedQueue.items_tail, hitems, List.tail_cons]
      have hskips' : ¬om.riskTurn.RiskSkips slot := by
        unfold RiskSkips
        rw [hsame]
        exact hskips
      obtain ⟨es, t, hrun, hes, hmask, hqueue⟩ :=
        ih hrest ((List.mem_cons.mp hslot).resolve_left hfront) hskips'
      refine ⟨.risk :: es, t, ?_, fun e he => ?_, ?_, hqueue.trans hstrategy⟩
      · rw [exec_cons_ok es (show lockStep hash om .risk = .ok om.riskTurn from rfl)]
        exact hrun
      · exact (List.mem_cons.mp he).elim id (hes e)
      · rw [hmask, hsame]

theorem strategy_marks (hash : List UInt8 → UInt64) {items : List OrderSlot}
    (hitems : om.storeToStrategy.items = items) (hslot : slot ∈ items) :
    ∃ es t, exec (lockStep hash) om es = .ok t ∧ (∀ e ∈ es, e = .strategy) ∧
      (t.orderPool slot).canModify = (om.orderPool slot).canModify ||| strategyDone := by
  induction items generalizing om with
  | nil => cases hslot
  | cons front rest ih =>
    have hturn : om.strategyTurn = { om.orMask front strategyDone with
        storeToStrategy := om.storeToStrategy.tail } := by
      simp only [strategyTurn, hitems]
    have hmasks : ∀ t, (om.strategyTurn.orderPool t).canModify =
        ((om.orMask front strategyDone).orderPool t).canModify := by
      intro t
      rw [hturn]
    by_cases hfront : slot = front
    · refine ⟨[.strategy], om.strategyTurn, rfl, fun e he => List.mem_singleton.mp he, ?_⟩
      rw [hmasks, canModify_orMask, if_pos hfront]
    · have hrest : om.strategyTurn.storeToStrategy.items = rest := by
        rw [hturn]
        show om.storeToStrategy.tail.items = rest
        rw [BoundedQueue.items_tail, hitems, List.tail_cons]
      obtain ⟨es, t, hrun, hes, hmask⟩ :=
        ih hrest ((List.mem_cons.mp hslot).resolve_left hfront)
      refine ⟨.strategy :: es, t, ?_, fun e he => ?_, ?_⟩
      · rw [exec_cons_ok es (show lockStep hash om .strategy = .ok om.strategyTurn from rfl)]
        exact hrun
      · exact (List.mem_cons.mp he).elim id (hes e)
      · rw [hmask, hmasks, canModify_orMask, if_neg hfront]

/-- **A locked order on its way can be unlocked**: when risk, strategy and builder have done
their parts all its bits are set, so that its deferred messages are taken up again. -/
theorem OnItsWay.unlocked (hash : List UInt8 → UInt64) (hs : om.OnItsWay)
    (hlocked : (om.orderPool slot).canModify = 0) (hskips : ¬om.RiskSkips slot) :
    ∃ es t, exec (lockStep hash) om es = .ok t ∧ (∀ e ∈ es, ∀ msg, e ≠ .store msg) ∧
      (t.orderPool slot).canModify = allDone := by
  obtain ⟨hrisk, hstrategy⟩ := hs slot hlocked
  obtain ⟨es, om₁, hrun, hes, hmask, hqueue⟩ := risk_marks hash rfl hrisk hskips
  have hqueued : slot ∈ om₁.storeToStrategy.items := by rwa [hqueue]
  obtain ⟨es', om₂, hrun', hes', hmask'⟩ := strategy_marks hash rfl hqueued
  have hbuilt : lockStep hash om₂ (.mark slot builderDone) = .ok (om₂.orMask slot builderDone) :=
    rfl
  -- risk's turns, the strategy's, and the builder's mark: each sets one bit of the three
  refine ⟨es ++ (es' ++ [.mark slot builderDone]), om₂.orMask slot builderDone, ?_, ?_, ?_⟩
  · exact exec_append_eq_ok_iff.mpr ⟨om₁, hrun, exec_append_eq_ok_iff.mpr
      ⟨om₂, hrun', by rw [exec_cons_ok _ hbuilt, exec_nil]⟩⟩
  · intro e he msg heq
    rcases List.mem_append.mp he with h | h
    · exact absurd ((hes e h).symm.trans heq) fun h => by cases h
    · rcases List.mem_append.mp h with h | h
      · exact absurd ((hes' e h).symm.trans heq) fun h => by cases h
      · exact absurd ((List.mem_singleton.mp h).symm.trans heq) fun h => by cases h
  · rw [canModify_orMask, if_pos rfl, hmask', hmask, hlocked]
    rfl

/-! ### A rejected request -/

/-- The order is accepted. -/
def accepted : LockEvent :=
  .store (.bistOuch (.accepted { quantity := 10, orderId := 1, orderBookId := 5, price := 100
                                 side := 66, orderToken := [] }))

/-- A request for it is rejected. -/
def requestRejected : LockEvent := .store (.bistOuch (.rejected { orderToken := [] }))

def executedLater : LockEvent :=
  .store (.bistOuch (.executed { tradedQuantity := 5, tradePrice := 100, orderToken := [] }))

theorem onItsWay_sentOrder : (sentOrder .bist).OnItsWay := by
  intro slot hlocked
  have hopen : ((sentOrder .bist).orderPool slot).canModify = allDone := rfl
  rw [hopen] at hlocked
  exact absurd hlocked (by decide)

/-- The request is rejected before risk and strategy have seen the acceptance. -/
theorem locked_queued_iff_stillQueued : ∃ t,
    exec (lockStep fun _ => 0) (sentOrder .bist) [accepted, requestRejected] = .ok t ∧
      (t.orderPool 32768).canModify = 0 ∧ t.OnItsWay := by
  have hqueued : Along (lockStep fun _ => 0) (LocksQueued fun _ => 0) (sentOrder .bist)
      [accepted, requestRejected] := by
    refine along_cons _ (fun slot h => (by cases h)) rfl
      (along_cons _ (fun slot h => ?_) rfl trivial)
    rw [← Option.some.inj h]
    exact ⟨List.mem_singleton_self _, List.mem_singleton_self _⟩
  exact ⟨_, rfl, rfl, (locked_queued_iff onItsWay_sentOrder rfl).mpr hqueued _ _
    (List.prefix_refl _) rfl⟩

/-- **A rejected request locks the order for good.**  Risk and strategy are done with it; an
execution that follows is deferred, and nobody will set a bit. -/
theorem rejected_request_locks : ∃ t,
    exec (lockStep fun _ => 0) (sentOrder .bist)
        [accepted, .risk, .strategy, requestRejected, executedLater] = .ok t ∧
      (sentOrder .bist).OnItsWay ∧
      (t.orderPool 32768).canModify = 0 ∧ (t.orderPool 32768).filledQuantity = 0 ∧
      t.storeToRisk.items = [] ∧ t.storeToStrategy.items = [] ∧
      t.pendingToStrategy.items.length = 1 ∧ ¬t.OnItsWay := by
  refine ⟨_, rfl, onItsWay_sentOrder, rfl, rfl, rfl, rfl, rfl, fun h => ?_⟩
  exact absurd (h 32768 rfl).1 List.not_mem_nil

end OwnManager

end TradingEngine
