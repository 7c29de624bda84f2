/-
What `update_order` hands on of the message it is given
(`order_management/OrderManager.cpp`).

For each message type `disposition` reads off the lookups of the handler what
becomes of the message:

* it is applied to an order and goes to the database with it,
* it only goes to the database,
* it is deferred because its order may not be modified now,
* it is dropped: its order is unknown, or is an own order echoed by the market
  feed, or was rejected; or its order is known and the message is ignored, because
  its execution type is not one the handler allows.

`update_agrees` says that a handler that returns has pushed to the database and
to the pending queue what the disposition says, for every message of every
protocol in every state of the order manager.
-/
import TradingEngine.OwnOrders
import TradingEngine.StorePipeline

namespace TradingEngine

open FallibleRun

/-- What becomes of a message. -/
inductive Disposition
  | dropped
  | ignored (slot : OrderSlot)
  | deferred (slot : OrderSlot)
  | applied (slot : OrderSlot)
  | stored
  deriving DecidableEq, Repr

namespace Disposition

/-- The pushes of a handler that deals with its message in this way. -/
def Agrees : Disposition → List StoreOut → Prop
  | dropped, outs => outs = []
  | ignored _, outs => outs = []
  | deferred slot, outs => outs = [.defer slot]
  | applied slot, outs =>
    outs = [.message] ∨ outs = [.order slot, .message] ∨ outs = [.message, .order slot]
  | stored, outs => outs = [.message]

/-- The message is handed to nobody. -/
def lost : Disposition → Bool
  | dropped => true
  | ignored _ => true
  | _ => false

end Disposition

namespace StoreOut

/-- The message itself is handed over, to the database or to the pending queue. -/
def isHandOver : StoreOut → Bool
  | order _ => false
  | message => true
  | defer _ => true

end StoreOut

theorem Disposition.Agrees.handOvers {d : Disposition} {outs : List StoreOut} (h : d.Agrees outs) :
    outs.countP StoreOut.isHandOver = if d.lost then 0 else 1 := by
  cases d with
  | dropped =>
    subst h
    rfl
  | ignored slot =>
    subst h
    rfl
  | deferred slot =>
    subst h
    rfl
  | applied slot =>
    obtain rfl | rfl | rfl := h
    · rfl
    · rfl
    · rfl
  | stored =>
    subst h
    rfl

/-! ### What a handler has pushed -/

namespace OrderManager

/-- An item for the database as the pipeline sees it. -/
def outOf : DbData → StoreOut
  | .order slot => .order slot
  | _ => .message

/-- The two queues a handler hands its message to are empty. -/
def Silent (om : OrderManager) : Prop :=
  om.storeToDb.items = [] ∧ om.pendingToStrategy.items = []

/-- What is in the two queues: after a handler that found them empty, what it
has pushed. -/
def outputs (om : OrderManager) : List StoreOut :=
  om.storeToDb.items.map outOf ++
    om.pendingToStrategy.items.map fun q => .defer ((om.pendingMessagePool.slots q).order.getD 0)

/-- The two queues and the packets are as they were. -/
structure Quiet (om om' : OrderManager) : Prop where
  db : om'.storeToDb = om.storeToDb
  pending : om'.pendingToStrategy = om.pendingToStrategy
  packets : om'.pendingMessagePool = om.pendingMessagePool

theorem Quiet.refl (om : OrderManager) : Quiet om om := ⟨rfl, rfl, rfl⟩

theorem Quiet.trans {om₁ om₂ om₃ : OrderManager} (h : Quiet om₁ om₂) (h' : Quiet om₂ om₃) :
    Quiet om₁ om₃ :=
  ⟨h'.1.trans h.1, h'.2.trans h.2, h'.3.trans h.3⟩

theorem Quiet.silent {om om' : OrderManager} (h : Quiet om om') (hs : om.Silent) : om'.Silent := by
  unfold Silent
  rw [h.db, h.pending]
  exact hs

variable {om om' : OrderManager} {slot : OrderSlot} {d : DbData}

theorem outputs_silent (hs : om.Silent) : om.outputs = [] := by
  rw [outputs, hs.1, hs.2]
  rfl

@[simp] theorem outOf_order (slot : OrderSlot) : outOf (.order slot) = .order slot := rfl

theorem outOf_message (hd : d.isMessage = true) : outOf d = .message := by
  cases d with
  | order slot => cases hd
  | _ => rfl

theorem items_pushDb (hs : om.Silent) (d : DbData) : (om.pushDb d).storeToDb.items = [d] := by
  show (om.storeToDb.push d).items = [d]
  rw [BoundedQueue.items_push (by simp [hs.1]), hs.1, List.nil_append]

theorem outputs_pushDb (hs : om.Silent) (hd : d.isMessage = true) :
    (om.pushDb d).outputs = [.message] := by
  rw [outputs, items_pushDb hs, show (om.pushDb d).pendingToStrategy.items = [] from hs.2]
  simp [outOf_message hd]

theorem outputs_publish_pushDb (hs : om.Silent) (hd : d.isMessage = true) (slot : OrderSlot) :
    ((om.publish slot).pushDb d).outputs = [.order slot, .message] := by
  have hfirst : (om.publish slot).storeToDb.items = [.order slot] := items_pushDb hs (.order slot)
  have hboth : ((om.publish slot).pushDb d).storeToDb.items = [.order slot, d] := by
    show ((om.publish slot).storeToDb.push d).items = _
    rw [BoundedQueue.items_push (by simp [hfirst]), hfirst]
    rfl
  rw [outputs, hboth, show ((om.publish slot).pushDb d).pendingToStrategy.items = [] from hs.2]
  simp [outOf_message hd]

theorem outputs_pushDb_order (hs : om.Silent) (hd : d.isMessage = true) (slot : OrderSlot) :
    ((om.pushDb d).pushDb (.order slot)).outputs = [.message, .order slot] := by
  have hboth : ((om.pushDb d).pushDb (.order slot)).storeToDb.items = [d, .order slot] := by
    show ((om.pushDb d).storeToDb.push (.order slot)).items = _
    rw [BoundedQueue.items_push (by simp [items_pushDb hs]), items_pushDb hs]
    rfl
  rw [outputs, hboth,
    show ((om.pushDb d).pushDb (.order slot)).pendingToStrategy.items = [] from hs.2]
  simp [outOf_message hd]

theorem outputs_pushDb_publish (hs : om.Silent) (hd : d.isMessage = true) (slot : OrderSlot) :
    ((om.pushDb d).publish slot).outputs = [.message, .order slot] :=
  outputs_pushDb_order hs hd slot

theorem outputs_deferMessage (hs : om.Silent) (d : DbData) (slot : OrderSlot) :
    (om.deferMessage d slot).outputs = [.defer slot] := by
  have hpending : (om.deferMessage d slot).pendingToStrategy.items =
      [om.pendingMessagePool.slot] := by
    show (om.pendingToStrategy.push om.pendingMessagePool.slot).items = _
    rw [BoundedQueue.items_push (by simp [hs.2]), hs.2, List.nil_append]
  rw [outputs, hpending, show (om.deferMessage d slot).storeToDb.items = [] from hs.1]
  simp [deferMessage]

/-! ### Handlers that push nothing themselves -/

theorem quiet_onBook {f : MarketBook → Order → Except Fault MarketBook}
    (h : om.onBook slot f = .ok om') : Quiet om om' := by
  obtain ⟨mb, -, hmb⟩ := bind_eq_ok_iff.mp h
  rw [Except.ok.injEq] at hmb
  rw [← hmb]
  exact ⟨rfl, rfl, rfl⟩

theorem quiet_fillWithSymbol (om : OrderManager) (v : VenueIndex) (slot : OrderSlot)
    (order : Order) (finish : Order → Order) : Quiet om (om.fillWithSymbol v slot order finish) := by
  unfold fillWithSymbol
  split
  · exact ⟨rfl, rfl, rfl⟩
  · exact ⟨rfl, rfl, rfl⟩

theorem quiet_fillThenBook {fill : Order → Order}
    {f : MarketBook → Order → Except Fault MarketBook} (h : fillThenBook fill f slot om = .ok om') :
    Quiet om om' := by
  have hset : Quiet om (om.setOrder slot (fill (om.orderPool slot))) := ⟨rfl, rfl, rfl⟩
  exact hset.trans (quiet_onBook h)

theorem quiet_addBist {msg : Bist.AddOrder} (h : addBist msg slot om = .ok om') : Quiet om om' :=
  (quiet_fillWithSymbol om 0 slot _ _).trans (quiet_onBook h)

theorem quiet_fillTradeBist (om : OrderManager) (slot : OrderSlot) (msg : Bist.Trade) :
    Quiet om (FillerItchBist.fillItchTrade om slot msg) := by
  unfold FillerItchBist.fillItchTrade
  simp only
  split
  · exact .refl om
  · have hcount : Quiet om { om with bistTradeId := om.bistTradeId + 1 } := ⟨rfl, rfl, rfl⟩
    exact hcount.trans (quiet_fillWithSymbol _ _ _ _ _)

theorem quiet_fillTradeNasdaq (om : OrderManager) (slot : OrderSlot) (msg : Nasdaq.Trade) :
    Quiet om (FillerItchNasdaq.fillItchTrade om slot msg) := by
  unfold FillerItchNasdaq.fillItchTrade
  simp only
  split
  · exact .refl om
  · exact quiet_fillWithSymbol _ _ _ _ _

theorem quiet_replaceNasdaq {msg : Nasdaq.Replace} (h : replaceNasdaq msg slot om = .ok om') :
    Quiet om om' := by
  obtain ⟨om₁, h₁, h₂⟩ := bind_eq_ok_iff.mp h
  exact (quiet_onBook h₁).trans ((quiet_fillWithSymbol om₁ 1 slot _ _).trans (quiet_onBook h₂))

theorem quiet_enterTickSize (om : OrderManager) (orderBookId : UInt32) (m : SymbolMeta)
    (new : TickSlot) (entry : TickSizeEntry) (places : List (Fin 5)) :
    Quiet om (om.enterTickSizeBist orderBookId m new entry places) := by
  induction places with
  | nil => exact ⟨rfl, rfl, rfl⟩
  | cons i rest ih =>
    unfold enterTickSizeBist
    split
    · exact ⟨rfl, rfl, rfl⟩
    · split
      · exact ⟨rfl, rfl, rfl⟩
      · exact ih

theorem quiet_tickSizeBist {msg : Bist.TickSizeTableEntry}
    (h : om.handleTickSizeDefinitionBist msg = .ok om') : Quiet om om' := by
  unfold handleTickSizeDefinitionBist at h
  split at h
  · cases h
  · rw [Except.ok.injEq] at h
    rw [← h]
    refine Quiet.trans ?_ (quiet_enterTickSize _ _ _ _ _ _)
    exact ⟨rfl, rfl, rfl⟩

theorem quiet_tickSizeNasdaq {instrumentId : UInt32} {entry : TickSizeEntry}
    (h : om.handleTickSizeDefinitionNasdaq instrumentId entry = .ok om') : Quiet om om' := by
  unfold handleTickSizeDefinitionNasdaq at h
  split at h
  · simp only at h
    split at h
    · cases h
    · split at h
      · rw [Except.ok.injEq] at h
        rw [← h]
        exact ⟨rfl, rfl, rfl⟩
      · rw [Except.ok.injEq] at h
        rw [← h]
        exact ⟨rfl, rfl, rfl⟩
  · cases h

theorem quiet_tickSizes {instrumentId : UInt32} (entries : List TickSizeEntry)
    (h : entries.foldlM (fun om entry => om.handleTickSizeDefinitionNasdaq instrumentId entry) om =
      .ok om') : Quiet om om' := by
  induction entries generalizing om with
  | nil =>
    simp only [List.foldlM_nil, pure, Except.pure, Except.ok.injEq] at h
    exact h ▸ .refl _
  | cons entry rest ih =>
    rw [List.foldlM_cons] at h
    obtain ⟨om₁, h₁, h₂⟩ := bind_eq_ok_iff.mp h
    exact (quiet_tickSizeNasdaq h₁).trans (ih h₂)

theorem quiet_symbolHalt {v : VenueIndex} {instrumentId : UInt32} {halted : Bool}
    (h : om.updateSymbolHaltStatus v instrumentId halted = .ok om') : Quiet om om' := by
  unfold updateSymbolHaltStatus at h
  split at h
  · cases h
  · rw [Except.ok.injEq] at h
    rw [← h]
    exact ⟨rfl, rfl, rfl⟩

theorem quiet_flushOrder (om : OrderManager) (slot : OrderSlot) : Quiet om (om.flushOrder slot) := by
  unfold flushOrder
  simp only
  split
  · exact ⟨rfl, rfl, rfl⟩
  · split
    · exact ⟨rfl, rfl, rfl⟩
    · exact .refl om

theorem quiet_flushOrders (orders : Fin 64 → Option OrderSlot) (is : List (Fin 64))
    (om : OrderManager) :
    Quiet om (is.foldl (fun om i => match orders i with
      | none => om
      | some slot => om.flushOrder slot) om) := by
  induction is generalizing om with
  | nil => exact .refl om
  | cons i is ih =>
    rw [List.foldl_cons]
    refine Quiet.trans ?_ (ih _)
    split
    · exact .refl om
    · exact quiet_flushOrder om _

theorem quiet_flush {msg : Bist.OrderBookFlush} (h : om.updateBistFlush msg = .ok om') :
    Quiet om om' := by
  unfold updateBistFlush at h
  split at h
  · cases h
  · obtain ⟨mb, -, h₂⟩ := bind_eq_ok_iff.mp h
    unfold handleFlushStatus at h₂
    split at h₂
    · cases h₂
    · rw [Except.ok.injEq] at h₂
      rw [← h₂]
      have hbook : Quiet om (om.setBook mb) := ⟨rfl, rfl, rfl⟩
      exact hbook.trans (quiet_flushOrders _ _ _)

/-! ### ITCH -/

/-- A message about an order that was found. -/
def existing (om : OrderManager) (slot : OrderSlot) : Disposition :=
  if (om.orderPool slot).canModify = 0 then .deferred slot else .applied slot

/-- A message about an order that was looked up. -/
def lookedUp (om : OrderManager) : Option OrderSlot → Disposition
  | none => .dropped
  | some slot => om.existing slot

def dispositionBist (om : OrderManager) : Bist.ItchMessage → Disposition
  | .addOrder m =>
    match om.getOrderFromMarketMap (bistKey m.orderId m.orderBookId m.side) with
    | some slot => om.existing slot
    | none =>
      if om.awaitingAckOrders ≠ ∅ ∧ om.isMatchedPendingOrderBist m then .dropped
      else .applied om.marketOrderSlot
  | .orderExecuted m =>
    om.lookedUp (om.getOrderFromMarketMap (bistKey m.orderId m.orderBookId m.side))
  | .orderExecutedWithPrice m =>
    om.lookedUp (om.getOrderFromMarketMap (bistKey m.orderId m.orderBookId m.side))
  | .orderDelete m =>
    om.lookedUp (om.getOrderFromMarketMap (bistKey m.orderId m.orderBookId m.side))
  | .trade m =>
    om.lookedUp (om.getOrderFromMarketMap (bistKey m.orderId.toUInt64 m.orderBookId m.side))
  | _ => .stored

/-- The two adds of NASDAQ never look for an existing order. -/
def dispositionNasdaqAdd (om : OrderManager) (m : Nasdaq.AddOrder) : Disposition :=
  if om.awaitingAckOrders ≠ ∅ ∧ om.isMatchedPendingOrderNasdaq m then .dropped
  else .applied om.marketOrderSlot

def dispositionNasdaq (om : OrderManager) : Nasdaq.ItchMessage → Disposition
  | .addOrder m => om.dispositionNasdaqAdd m
  | .addOrderMpid m => om.dispositionNasdaqAdd m
  | .cancel m => om.lookedUp (om.nasdaqSlot m.orderRef)
  | .executed m => om.lookedUp (om.nasdaqSlot m.orderRef)
  | .executedWithPrice m => om.lookedUp (om.nasdaqSlot m.orderRef)
  | .delete m => om.lookedUp (om.nasdaqSlot m.orderRef)
  | .replace m => om.lookedUp (om.nasdaqSlot m.orderRef)
  | .trade m => om.lookedUp (om.nasdaqSlot m.orderRef)
  | _ => .stored

theorem agrees_onExisting (hs : om.Silent) (hd : d.isMessage = true)
    {process : OrderManager → Except Fault OrderManager}
    (hp : ∀ om₁, process om = .ok om₁ → Quiet om om₁)
    (h : om.onExisting slot d process = .ok om') : (om.existing slot).Agrees om'.outputs := by
  unfold onExisting at h
  unfold existing
  split at h
  · rename_i hmodify
    rw [Except.ok.injEq] at h
    rw [if_pos hmodify, ← h]
    exact outputs_deferMessage hs d slot
  · rename_i hmodify
    obtain ⟨om₁, h₁, h₂⟩ := bind_eq_ok_iff.mp h
    rw [Except.ok.injEq] at h₂
    rw [if_neg hmodify, ← h₂]
    exact .inr (.inl (outputs_publish_pushDb ((hp om₁ h₁).silent hs) hd slot))

theorem agrees_onBistOrder (hs : om.Silent) {k : OrderKey} {msg : Bist.ItchMessage}
    {process : OrderSlot → OrderManager → Except Fault OrderManager}
    (hp : ∀ slot om₁, process slot om = .ok om₁ → Quiet om om₁)
    (h : om.onBistOrder k msg process = .ok om') :
    (om.lookedUp (om.getOrderFromMarketMap k)).Agrees om'.outputs := by
  unfold onBistOrder at h
  cases hk : om.getOrderFromMarketMap k with
  | none =>
    simp only [hk, Except.ok.injEq] at h
    rw [← h]
    exact outputs_silent hs
  | some slot =>
    simp only [hk] at h
    exact agrees_onExisting hs rfl (hp slot) h

theorem agrees_onNasdaqOrder (hs : om.Silent) {ref : UInt64} {msg : Nasdaq.ItchMessage}
    {process : OrderSlot → OrderManager → Except Fault OrderManager}
    (hp : ∀ slot om₁, process slot om = .ok om₁ → Quiet om om₁)
    (h : om.onNasdaqOrder ref msg process = .ok om') :
    (om.lookedUp (om.nasdaqSlot ref)).Agrees om'.outputs := by
  unfold onNasdaqOrder at h
  cases hk : om.nasdaqSlot ref with
  | none =>
    simp only [hk, Except.ok.injEq] at h
    rw [← h]
    exact outputs_silent hs
  | some slot =>
    simp only [hk] at h
    exact agrees_onExisting hs rfl (hp slot) h

/-- A handler that pushes nothing but the message. -/
theorem agrees_stored (hs : om.Silent) (hd : d.isMessage = true) {om₁ : OrderManager}
    (hq : Quiet om om₁) (h : (Except.ok (om₁.pushDb d) : Except Fault OrderManager) = .ok om') :
    Disposition.stored.Agrees om'.outputs := by
  rw [Except.ok.injEq] at h
  rw [← h]
  exact outputs_pushDb (hq.silent hs) hd

theorem agrees_updateBistAdd (hs : om.Silent) {m : Bist.AddOrder}
    (h : om.updateBistAdd m = .ok om') :
    (om.dispositionBist (.addOrder m)).Agrees om'.outputs := by
  unfold updateBistAdd at h
  unfold dispositionBist
  simp only at h ⊢
  cases hk : om.getOrderFromMarketMap (bistKey m.orderId m.orderBookId m.side) with
  | some slot =>
    simp only [hk] at h
    exact agrees_onExisting hs rfl (fun _ => quiet_addBist) h
  | none =>
    simp only [hk] at h ⊢
    by_cases hecho : om.awaitingAckOrders ≠ ∅ ∧ om.isMatchedPendingOrderBist m
    · rw [if_pos hecho, Except.ok.injEq] at h
      rw [if_pos hecho, ← h]
      exact outputs_silent hs
    · rw [if_neg hecho] at h
      rw [if_neg hecho]
      obtain ⟨om₁, h₁, h₂⟩ := bind_eq_ok_iff.mp h
      rw [Except.ok.injEq] at h₂
      have hadd : Quiet om (om.addMarketOrder (bistKey m.orderId m.orderBookId m.side)).2 :=
        ⟨rfl, rfl, rfl⟩
      rw [← h₂]
      exact .inr (.inl (outputs_publish_pushDb ((hadd.trans (quiet_addBist h₁)).silent hs) rfl _))

theorem agrees_updateNasdaqAdd (hs : om.Silent) {m : Nasdaq.AddOrder} {stored : Nasdaq.ItchMessage}
    {fill : OrderManager → OrderSlot → Nasdaq.AddOrder → OrderManager}
    (hfill : ∀ om slot, Quiet om (fill om slot m)) (h : om.updateNasdaqAdd m stored fill = .ok om') :
    (om.dispositionNasdaqAdd m).Agrees om'.outputs := by
  unfold updateNasdaqAdd at h
  unfold dispositionNasdaqAdd
  by_cases hecho : om.awaitingAckOrders ≠ ∅ ∧ om.isMatchedPendingOrderNasdaq m
  · rw [if_pos hecho, Except.ok.injEq] at h
    rw [if_pos hecho, ← h]
    exact outputs_silent hs
  · rw [if_neg hecho] at h
    rw [if_neg hecho]
    obtain ⟨om₁, h₁, h₂⟩ := bind_eq_ok_iff.mp h
    rw [Except.ok.injEq] at h₂
    have hadd : Quiet om (om.addNasdaqOrder m) := ⟨rfl, rfl, rfl⟩
    have hq := (hadd.trans (hfill _ _)).trans (quiet_onBook h₁)
    rw [← h₂]
    exact .inr (.inl (outputs_publish_pushDb (hq.silent hs) rfl _))

theorem agrees_updateOrderBist (hs : om.Silent) {msg : Bist.ItchMessage}
    (h : om.updateOrderBist msg = .ok om') : (om.dispositionBist msg).Agrees om'.outputs := by
  cases msg with
  | addOrder m => exact agrees_updateBistAdd hs h
  | orderExecuted m => exact agrees_onBistOrder hs (fun _ _ => quiet_fillThenBook) h
  | orderExecutedWithPrice m => exact agrees_onBistOrder hs (fun _ _ => quiet_fillThenBook) h
  | orderDelete m => exact agrees_onBistOrder hs (fun _ _ => quiet_fillThenBook) h
  | trade m =>
    refine agrees_onBistOrder hs (fun slot om₁ h₁ => ?_) h
    rw [Except.ok.injEq] at h₁
    rw [← h₁]
    exact quiet_fillTradeBist om slot m
  | orderBookDirectory m =>
    have hq : Quiet om (om.handleInstrumentDefinitionBist m) := ⟨rfl, rfl, rfl⟩
    exact agrees_stored hs rfl hq h
  | orderBookState m =>
    obtain ⟨om₁, h₁, h₂⟩ := bind_eq_ok_iff.mp h
    exact agrees_stored hs rfl (quiet_symbolHalt h₁) h₂
  | systemEvent m =>
    have hq : Quiet om (om.updateVenueHaltStatus 0 (if m.eventCode = 79 then 0 else 1) 0) :=
      ⟨rfl, rfl, rfl⟩
    exact agrees_stored hs rfl hq h
  | tickSizeTableEntry m =>
    obtain ⟨om₁, h₁, h₂⟩ := bind_eq_ok_iff.mp h
    exact agrees_stored hs rfl (quiet_tickSizeBist h₁) h₂
  | orderBookFlush m =>
    obtain ⟨om₁, h₁, h₂⟩ := bind_eq_ok_iff.mp h
    exact agrees_stored hs rfl (quiet_flush h₁) h₂
  | seconds => exact agrees_stored hs rfl (.refl om) h
  | combinationOrderBookLeg => exact agrees_stored hs rfl (.refl om) h
  | shortSellStatus => exact agrees_stored hs rfl (.refl om) h
  | equilibriumPriceUpdate => exact agrees_stored hs rfl (.refl om) h

theorem agrees_updateOrderNasdaq (hs : om.Silent) {msg : Nasdaq.ItchMessage}
    (h : om.updateOrderNasdaq msg = .ok om') : (om.dispositionNasdaq msg).Agrees om'.outputs := by
  cases msg with
  | addOrder m =>
    exact agrees_updateNasdaqAdd hs (fun om slot => quiet_fillWithSymbol om 1 slot _ _) h
  | addOrderMpid m =>
    exact agrees_updateNasdaqAdd hs (fun om slot => quiet_fillWithSymbol om 1 slot _ _) h
  | cancel m => exact agrees_onNasdaqOrder hs (fun _ _ => quiet_fillThenBook) h
  | executed m => exact agrees_onNasdaqOrder hs (fun _ _ => quiet_fillThenBook) h
  | executedWithPrice m => exact agrees_onNasdaqOrder hs (fun _ _ => quiet_fillThenBook) h
  | delete m => exact agrees_onNasdaqOrder hs (fun _ _ => quiet_fillThenBook) h
  | replace m => exact agrees_onNasdaqOrder hs (fun _ _ => quiet_replaceNasdaq) h
  | trade m =>
    refine agrees_onNasdaqOrder hs (fun slot om₁ h₁ => ?_) h
    rw [Except.ok.injEq] at h₁
    rw [← h₁]
    exact quiet_fillTradeNasdaq om slot m
  | stockDirectory m =>
    obtain ⟨om₁, h₁, h₂⟩ := bind_eq_ok_iff.mp h
    have hfirst := quiet_tickSizes _ h₁
    exact agrees_stored hs rfl ⟨hfirst.db, hfirst.pending, hfirst.packets⟩ h₂
  | tradingState m =>
    obtain ⟨om₁, h₁, h₂⟩ := bind_eq_ok_iff.mp h
    exact agrees_stored hs rfl (quiet_symbolHalt h₁) h₂
  | systemEvent m =>
    simp only [updateOrderNasdaq] at h
    split at h
    · have hq : Quiet om (om.updateVenueHaltStatus 1 (nasdaqEventHalted m.eventCode) 0) :=
        ⟨rfl, rfl, rfl⟩
      exact agrees_stored hs rfl hq h
    · cases h

end OrderManager

/-! ### FIX and OUCH -/

namespace OwnManager

open OrderManager

/-- The queues, the packets and the orders are as they were. -/
structure Still (om om' : OwnManager) : Prop where
  quiet : Quiet om.toOrderManager om'.toOrderManager
  orderPool : om'.orderPool = om.orderPool

theorem Still.trans {om₁ om₂ om₃ : OwnManager} (h : Still om₁ om₂) (h' : Still om₂ om₃) :
    Still om₁ om₃ :=
  ⟨h.quiet.trans h'.quiet, h'.orderPool.trans h.orderPool⟩

variable {hash : List UInt8 → UInt64} {om om' : OwnManager} {slot : OrderSlot} {d : DbData}

theorem still_sweep (h : om.sweep = .ok om') : Still om om' := by
  obtain ⟨-, rfl⟩ | ⟨-, next, hnext, histories, -, rfl⟩ := sweep_cases h
  · exact ⟨.refl _, rfl⟩
  · exact ⟨⟨rfl, rfl, rfl⟩, rfl⟩

theorem still_addOurOrder {k : OrderKey} (h : om.addOurOrder slot k = .ok om') : Still om om' := by
  obtain ⟨om₁, histories, hsweep, rfl⟩ := addOurOrder_cases h
  exact (still_sweep hsweep).trans ⟨⟨rfl, rfl, rfl⟩, rfl⟩

/-- A FIX message about an order that was found. -/
def existingFix (om : OwnManager) (slot : OrderSlot) (m : FIXMessage) : Disposition :=
  if (om.orderPool slot).canModify = 0 then .deferred slot
  else if m.msgType = 56 ∧ ¬allowedExecType m.execType then .ignored slot
  else .applied slot

/-- A message about an order that waits for its first acknowledgement. -/
def awaited (om : OwnManager) (clientOrderId : UInt64) : Disposition :=
  match om.getOrderFromAwaitingAckOrders clientOrderId with
  | none => .dropped
  | some slot => .applied slot

def dispositionFix (hash : List UInt8 → UInt64) (om : OwnManager) (m : FIXMessage) :
    Disposition :=
  match om.sympackSymid.lookup (symbolPack m.symbol) with
  | none => .dropped
  | some orderBookId =>
    match om.getOrderFromOurMap (fixKey hash orderBookId m) with
    | some slot => om.existingFix slot m
    | none =>
      match om.getOrderFromAwaitingAckOrders (hash (cString m.clOrdId)) with
      | none => .dropped
      | some slot => if m.ordStatus = 56 then .dropped else om.existingFix slot m

/-- A message about an order that was looked up, or else waits for its first
acknowledgement. -/
def knownOrAwaited (om : OwnManager) (o : Option OrderSlot) (clientOrderId : UInt64) :
    Disposition :=
  match o with
  | some slot => om.existing slot
  | none => om.awaited clientOrderId

/-- The key a BIST OUCH message names its order by. -/
def bistOuchKey (orderId : UInt64) (orderBookId : UInt32) (side : UInt8) : OrderKey :=
  ⟨orderId, orderBookId, Venue.bist.code, (sideOfChar side).code⟩

def dispositionBistOuch (hash : List UInt8 → UInt64) (om : OwnManager) :
    Bist.OuchMessage → Disposition
  | .accepted m => om.awaited (hash m.orderToken)
  | .replaced m =>
    om.knownOrAwaited (om.getOrderFromOurMap (bistOuchKey m.orderId m.orderBookId m.side))
      (hash m.orderToken)
  | .cancelled m =>
    om.knownOrAwaited (om.getOrderFromOurMap (bistOuchKey m.orderId m.orderBookId m.side))
      (hash m.orderToken)
  | .executed m =>
    om.knownOrAwaited (om.getOrderFromOurMapWtokenkey (hash m.orderToken)) (hash m.orderToken)
  | .rejected m =>
    om.knownOrAwaited (om.getOrderFromOurMapWtokenkey (hash m.orderToken)) (hash m.orderToken)

/-- The order a NASDAQ number leads to. -/
def userRefSlot (om : OwnManager) (userRefNum : UInt32) : Option OrderSlot :=
  (om.nqOuchRefnumOrdkey.lookup userRefNum).bind om.getOrderFromOurMap

def dispositionNasdaqOuch (hash : List UInt8 → UInt64) (om : OwnManager) :
    Nasdaq.OuchMessage → Disposition
  | .accepted m => om.awaited (hash m.clOrdId)
  | .replaced m =>
    match om.sympackSymid.lookup (symbolPack m.symbol) with
    | none => .dropped
    | some stockLocate =>
      om.knownOrAwaited (om.getOrderFromOurMap
        ⟨m.orderReferenceNumber, stockLocate, Venue.nasdaq.code, (sideOfChar m.side).code⟩)
        (hash m.clOrdId)
  | .rejected m => om.awaited (hash m.clOrdId)
  | .cancelled m => om.lookedUp (om.userRefSlot m.userRefNum)
  | .executed m => om.lookedUp (om.userRefSlot m.userRefNum)
  | .modified m => om.lookedUp (om.userRefSlot m.userRefNum)
  | .brokenTrade m => om.lookedUp (om.userRefSlot m.userRefNum)
  | .cancelPending m => om.lookedUp (om.userRefSlot m.userRefNum)
  | .cancelReject m => om.lookedUp (om.userRefSlot m.userRefNum)
  | .systemEvent => .stored
  | .accountQueryResponse => .stored

/-- What becomes of a message, whatever its type. -/
def disposition (hash : List UInt8 → UInt64) (om : OwnManager) : StoreMessage → Disposition
  | .fix m => dispositionFix hash om m
  | .fixSession _ => .stored
  | .bistItch m => om.dispositionBist m
  | .nasdaqItch m => om.dispositionNasdaq m
  | .bistOuch m => dispositionBistOuch hash om m
  | .nasdaqOuch m => dispositionNasdaqOuch hash om m

theorem agrees_unlessDeferred (hs : om.Silent) {handle : OwnManager → Except Fault OwnManager}
    {disp : Disposition} (hh : handle om = .ok om' → disp.Agrees om'.outputs)
    (h : om.unlessDeferred slot d handle = .ok om') :
    (if (om.orderPool slot).canModify = 0 then .deferred slot else disp).Agrees om'.outputs := by
  obtain ⟨hlocked, rfl⟩ | ⟨hopen, hhandled⟩ := unlessDeferred_cases h
  · rw [if_pos hlocked]
    exact outputs_deferMessage hs d slot
  · rw [if_neg hopen]
    exact hh hhandled

theorem agrees_finishFix (hs : om.Silent) (clientOrderId : UInt64) (m : FIXMessage) :
    (Disposition.applied slot).Agrees (om.finishFix slot clientOrderId m).outputs := by
  have hq : Quiet om.toOrderManager (om.eraseAwaitingAck clientOrderId).toOrderManager :=
    ⟨rfl, rfl, rfl⟩
  exact .inr (.inr (outputs_pushDb_publish (hq.silent hs) (d := .fix m) rfl slot))

theorem agrees_handleFix (hs : om.Silent) {clientOrderId : UInt64} {m : FIXMessage}
    (h : handleFix hash om slot clientOrderId m = .ok om') :
    (if m.msgType = 56 ∧ ¬allowedExecType m.execType then Disposition.ignored slot
      else .applied slot).Agrees om'.outputs := by
  obtain ⟨h8, hallowed, filled, -, rfl⟩ | ⟨h8, hallowed, rfl⟩ | ⟨h9, rfl⟩ | ⟨h8, -, rfl⟩ :=
    handleFix_cases h
  · rw [if_neg (fun hc => hc.2 hallowed)]
    have hq : Quiet om.toOrderManager (om.setOwn slot filled.1 filled.2).toOrderManager :=
      ⟨rfl, rfl, rfl⟩
    exact agrees_finishFix (hq.silent hs) clientOrderId m
  · rw [if_pos ⟨h8, hallowed⟩]
    exact outputs_silent hs
  · rw [if_neg (fun hc => by rw [h9] at hc; exact absurd hc.1 (by decide))]
    have hq : Quiet om.toOrderManager (om.setOrder slot
        (FillerFix.fillFixCancelReject (om.orderPool slot) m)).toOrderManager := ⟨rfl, rfl, rfl⟩
    exact .inr (.inr (outputs_pushDb_order (hq.silent hs) (d := .fix m) rfl slot))
  · rw [if_neg (fun hc => h8 hc.1)]
    exact agrees_finishFix hs clientOrderId m

theorem agrees_updateOrderFix (hs : om.Silent) {m : FIXMessage}
    (h : updateOrderFix hash om m = .ok om') : (dispositionFix hash om m).Agrees om'.outputs := by
  obtain ⟨id, hid, hcase⟩ := updateOrderFix_cases h
  unfold dispositionFix
  simp only [hid]
  obtain ⟨slot, hk, hhandled⟩ | ⟨hk, hawait, rfl⟩ | ⟨slot, hk, hawait, hreject, rfl⟩ |
    ⟨slot, om₁, hk, hawait, hreject, hadd, hhandled⟩ := hcase
  · simp only [hk]
    exact agrees_unlessDeferred hs (agrees_handleFix hs) hhandled
  · simp only [hk, hawait]
    exact outputs_silent hs
  · simp only [hk, hawait, if_pos hreject]
    have hpushed : (om.pushFreeSlot slot).Silent := hs
    exact outputs_silent hpushed
  · simp only [hk, hawait, if_neg hreject]
    have hstill := still_addOurOrder hadd
    have hs₁ := hstill.quiet.silent hs
    have hagree := agrees_unlessDeferred hs₁ (agrees_handleFix hs₁) hhandled
    rw [hstill.orderPool] at hagree
    exact hagree

/-- The pushes of a handler that fills an order, then publishes it with the
message. -/
theorem agrees_publishWith (hs : om.Silent) (hd : d.isMessage = true) (slot : OrderSlot) :
    (Disposition.applied slot).Agrees (om.publishWith slot d).outputs :=
  .inr (.inl (outputs_publish_pushDb hs hd slot))

theorem silent_setOrder (hs : om.Silent) (slot : OrderSlot) (ord : Order) :
    (om.setOrder slot ord).Silent := hs

theorem silent_setOwn (hs : om.Silent) (slot : OrderSlot) (ord : Order) (own : OwnFields) :
    (om.setOwn slot ord own).Silent := hs

/-- A filler of own orders writes the order and nothing else that matters here. -/
def Fills (fill : OwnManager → OrderSlot → OwnManager) : Prop :=
  ∀ om slot, Quiet om.toOrderManager (fill om slot).toOrderManager

theorem agrees_onBistOuchKey (hs : om.Silent) {acknowledges : Bool} {k : OrderKey}
    {token : List UInt8} (hd : d.isMessage = true) {fill : OwnManager → OrderSlot → OwnManager}
    (hfill : Fills fill) (h : onBistOuchKey hash om acknowledges k token d fill = .ok om') :
    (om.knownOrAwaited (if acknowledges then none else om.getOrderFromOurMap k)
      (hash token)).Agrees om'.outputs := by
  unfold knownOrAwaited awaited
  obtain ⟨slot, hk, hhandled⟩ | ⟨hk, hawait, rfl⟩ |
    ⟨slot, om₁, tokens, hk, hawait, hadd, -, rfl⟩ := onBistOuchKey_cases h
  · simp only [hk]
    refine agrees_unlessDeferred hs (fun hok => ?_) hhandled
    rw [← Except.ok.inj hok]
    exact agrees_publishWith ((hfill om slot).silent hs) hd slot
  · simp only [hk, hawait]
    exact outputs_silent hs
  · simp only [hk, hawait]
    refine agrees_publishWith ((hfill _ slot).silent ?_) hd slot
    exact (still_addOurOrder hadd).quiet.silent hs

theorem agrees_onBistOuchToken (hs : om.Silent) {token : List UInt8}
    {finish : OwnManager → OrderSlot → OwnManager}
    (hfinish : ∀ om slot, OrderManager.Silent om.toOrderManager →
      (Disposition.applied slot).Agrees ((finish om slot).pushDb d).outputs)
    (h : onBistOuchToken hash om token d finish = .ok om') :
    (om.knownOrAwaited (om.getOrderFromOurMapWtokenkey (hash token))
      (hash token)).Agrees om'.outputs := by
  unfold knownOrAwaited awaited
  obtain ⟨slot, hk, hhandled⟩ | ⟨hk, hawait, rfl⟩ | ⟨slot, hk, hawait, rfl⟩ :=
    onBistOuchToken_cases h
  · simp only [hk]
    refine agrees_unlessDeferred hs (fun hok => ?_) hhandled
    rw [← Except.ok.inj hok]
    exact hfinish om slot hs
  · simp only [hk, hawait]
    exact outputs_silent hs
  · simp only [hk, hawait]
    exact hfinish _ slot hs

theorem quiet_fillOuchRejected (om : OwnManager) (slot : OrderSlot) (timestamp : UInt64) :
    Quiet om.toOrderManager (om.fillOuchRejected slot timestamp).toOrderManager := by
  unfold fillOuchRejected
  simp only
  split
  · exact ⟨rfl, rfl, rfl⟩
  · exact ⟨rfl, rfl, rfl⟩

theorem agrees_updateOrderBistOuch (hs : om.Silent) {msg : Bist.OuchMessage}
    (h : updateOrderBistOuch hash om msg = .ok om') :
    (dispositionBistOuch hash om msg).Agrees om'.outputs := by
  cases msg with
  | accepted m =>
    simp only [updateOrderBistOuch] at h
    refine agrees_onBistOuchKey hs ?_ (fun om slot => ?_) h
    · rfl
    · exact ⟨rfl, rfl, rfl⟩
  | replaced m =>
    refine agrees_onBistOuchKey hs ?_ (fun om slot => ?_) h
    · rfl
    · exact ⟨rfl, rfl, rfl⟩
  | cancelled m =>
    refine agrees_onBistOuchKey hs ?_ (fun om slot => ?_) h
    · rfl
    · exact ⟨rfl, rfl, rfl⟩
  | executed m =>
    refine agrees_onBistOuchToken hs (fun om slot hs => ?_) h
    have hfilled : (om.setOrder slot
        (FillerOuchBist.fillOuchExecuted (om.orderPool slot) m)).Silent := hs
    exact agrees_publishWith hfilled rfl slot
  | rejected m =>
    refine agrees_onBistOuchToken hs (fun om slot hs => ?_) h
    exact .inl (outputs_pushDb ((quiet_fillOuchRejected om slot m.timestamp).silent hs) rfl)

theorem agrees_onNasdaqOuchAwaited (hs : om.Silent) {orderId : UInt64} {side : UInt8}
    {clOrdId : List UInt8} (hd : d.isMessage = true)
    {fill : OwnManager → OrderSlot → OwnManager} (hfill : Fills fill)
    (h : onNasdaqOuchAwaited hash om orderId side clOrdId d fill = .ok om') :
    (om.awaited (hash clOrdId)).Agrees om'.outputs := by
  unfold awaited
  obtain ⟨hawait, rfl⟩ | ⟨slot, om₁, k, refs, hawait, -, hadd, -, rfl⟩ :=
    onNasdaqOuchAwaited_cases h
  · simp only [hawait]
    exact outputs_silent hs
  · simp only [hawait]
    refine agrees_publishWith ((hfill _ slot).silent ?_) hd slot
    exact (still_addOurOrder hadd).quiet.silent hs

theorem agrees_onNasdaqOuchRef (hs : om.Silent) {userRefNum : UInt32}
    {finish : OwnManager → OrderSlot → OwnManager}
    (hfinish : ∀ slot, (Disposition.applied slot).Agrees ((finish om slot).pushDb d).outputs)
    (h : onNasdaqOuchRef om userRefNum d finish = .ok om') :
    (om.lookedUp (om.userRefSlot userRefNum)).Agrees om'.outputs := by
  obtain ⟨k, slot, href, hk, hhandled⟩ := onNasdaqOuchRef_cases h
  simp only [userRefSlot, href, Option.bind_some, hk]
  refine agrees_unlessDeferred hs (fun hok => ?_) hhandled
  rw [← Except.ok.inj hok]
  exact hfinish slot

theorem agrees_updateOrderNasdaqOuch (hs : om.Silent) {msg : Nasdaq.OuchMessage}
    (h : updateOrderNasdaqOuch hash om msg = .ok om') :
    (dispositionNasdaqOuch hash om msg).Agrees om'.outputs := by
  cases msg with
  | accepted m =>
    simp only [updateOrderNasdaqOuch] at h
    refine agrees_onNasdaqOuchAwaited hs ?_ (fun om slot => ?_) h
    · rfl
    · exact ⟨rfl, rfl, rfl⟩
  | replaced m =>
    -- the order is known, or waits for its acknowledgement
    obtain ⟨fill, rfl, locate, k, hid, rfl, hcase⟩ := ouchReplaced_cases h
    simp only [dispositionNasdaqOuch, hid, knownOrAwaited]
    obtain ⟨slot, hk, hhandled⟩ | ⟨hk, hawaited⟩ := hcase
    · simp only [hk]
      refine agrees_unlessDeferred hs (fun hok => ?_) hhandled
      rw [← Except.ok.inj hok]
      exact agrees_publishWith (silent_setOwn hs slot _ _) rfl slot
    · simp only [hk]
      refine agrees_onNasdaqOuchAwaited hs ?_ (fun om slot => ?_) hawaited
      · rfl
      · exact ⟨rfl, rfl, rfl⟩
  | rejected m =>
    simp only [dispositionNasdaqOuch, awaited]
    obtain ⟨hawait, rfl⟩ | ⟨slot, hawait, rfl⟩ := ouchRejected_cases h
    · simp only [hawait]
      exact outputs_silent hs
    · simp only [hawait]
      exact .inl (outputs_pushDb ((quiet_fillOuchRejected _ slot m.timestamp).silent hs) rfl)
  | cancelled m =>
    refine agrees_onNasdaqOuchRef hs (fun slot => ?_) h
    exact agrees_publishWith (silent_setOrder hs slot _) rfl slot
  | executed m =>
    refine agrees_onNasdaqOuchRef hs (fun slot => ?_) h
    exact agrees_publishWith (silent_setOrder hs slot _) rfl slot
  | modified m =>
    refine agrees_onNasdaqOuchRef hs (fun slot => ?_) h
    exact agrees_publishWith (silent_setOrder hs slot _) rfl slot
  -- the rest goes to the database only
  | brokenTrade m => exact agrees_onNasdaqOuchRef hs (fun _ => .inl (outputs_pushDb hs rfl)) h
  | cancelPending m => exact agrees_onNasdaqOuchRef hs (fun _ => .inl (outputs_pushDb hs rfl)) h
  | cancelReject m => exact agrees_onNasdaqOuchRef hs (fun _ => .inl (outputs_pushDb hs rfl)) h
  | systemEvent =>
    rw [← Except.ok.inj h]
    exact outputs_pushDb hs rfl
  | accountQueryResponse =>
    rw [← Except.ok.inj h]
    exact outputs_pushDb hs rfl

/-- **What a handler hands on.**  A handler that returns has pushed what the
disposition of its message says. -/
theorem update_agrees (hs : om.Silent) {msg : StoreMessage} (h : update hash om msg = .ok om') :
    (disposition hash om msg).Agrees om'.outputs := by
  cases msg with
  | fix m => exact agrees_updateOrderFix hs h
  | fixSession m =>
    rw [update, Except.ok.injEq] at h
    rw [← h]
    exact outputs_pushDb hs rfl
  | bistItch m =>
    obtain ⟨market, hmarket, hom⟩ := map_eq_ok_iff.mp h
    rw [← hom]
    exact agrees_updateOrderBist hs hmarket
  | nasdaqItch m =>
    obtain ⟨market, hmarket, hom⟩ := map_eq_ok_iff.mp h
    rw [← hom]
    exact agrees_updateOrderNasdaq hs hmarket
  | bistOuch m => exact agrees_updateOrderBistOuch hs h
  | nasdaqOuch m => exact agrees_updateOrderNasdaqOuch hs h

end OwnManager

end TradingEngine
