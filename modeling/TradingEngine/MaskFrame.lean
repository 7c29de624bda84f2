/-
What the market handlers do to orders and queues
(`OrderManager::update_order` for the ITCH messages of both venues).

Every handler is made of a few kinds of writes: an order is rewritten, but not the bits
that say who is done with it; an order is handed to risk and strategy; and the rest, maps,
book, directory and the other queues.  A relation between states that admits each of
these admits every ITCH message.

* `MarketSteps` — such a relation, and `MarketWrites`, one that may also speak of the
  ring of the orders that were sent;
* `MarketWrites.updateOrderBist`, `MarketWrites.updateOrderNasdaq` — every message of
  either venue stays in it.
-/
import TradingEngine.OwnFrame

namespace TradingEngine

open FallibleRun OrderManager

/-- A relation that admits the writes a market handler is made of. -/
structure MarketSteps (R : OrderManager → OrderManager → Prop) : Prop where
  trans : ∀ {om₁ om₂ om₃}, R om₁ om₂ → R om₂ om₃ → R om₁ om₃
  /-- neither the orders nor the two queues -/
  rest : ∀ {om om' : OrderManager}, om'.orderPool = om.orderPool →
    om'.storeToRisk = om.storeToRisk → om'.storeToStrategy = om.storeToStrategy → R om om'
  /-- an order, but not whose it is and who is done with it -/
  write : ∀ (om : OrderManager) (slot : OrderSlot) (order : Order),
    order.canModify = (om.orderPool slot).canModify →
    order.isOurOrder = (om.orderPool slot).isOurOrder → R om (om.setOrder slot order)
  /-- an order goes to risk and strategy -/
  queue : ∀ {om om' : OrderManager} (slot : OrderSlot), om'.orderPool = om.orderPool →
    om'.storeToRisk = om.storeToRisk.push slot →
    om'.storeToStrategy = om.storeToStrategy.push slot → R om om'

/-- The same for relations that also need the ring of the own orders to stay. -/
structure MarketWrites (R : OrderManager → OrderManager → Prop) : Prop where
  trans : ∀ {om₁ om₂ om₃}, R om₁ om₂ → R om₂ om₃ → R om₁ om₃
  rest : ∀ {om om' : OrderManager}, om'.pendingOrders = om.pendingOrders →
    om'.orderPool = om.orderPool → om'.storeToRisk = om.storeToRisk →
    om'.storeToStrategy = om.storeToStrategy → R om om'
  write : ∀ (om : OrderManager) (slot : OrderSlot) (order : Order),
    order.canModify = (om.orderPool slot).canModify →
    order.isOurOrder = (om.orderPool slot).isOurOrder → R om (om.setOrder slot order)
  queue : ∀ {om om' : OrderManager} (slot : OrderSlot), om'.pendingOrders = om.pendingOrders →
    om'.orderPool = om.orderPool → om'.storeToRisk = om.storeToRisk.push slot →
    om'.storeToStrategy = om.storeToStrategy.push slot → R om om'

namespace MarketWrites

variable {R : OrderManager → OrderManager → Prop} {om om' om₁ : OrderManager} {slot : OrderSlot}

theorem refl (hR : MarketWrites R) (om : OrderManager) : R om om := hR.rest rfl rfl rfl rfl

theorem publish (hR : MarketWrites R) (om : OrderManager) (slot : OrderSlot) :
    R om (om.publish slot) := hR.queue slot rfl rfl rfl rfl

theorem stored (hR : MarketWrites R) {d : DbData} (h : R om om₁)
    (hok : (Except.ok (om₁.pushDb d) : Except Fault OrderManager) = .ok om') : R om om' := by
  rw [← Except.ok.inj hok]
  exact hR.trans h (hR.rest rfl rfl rfl rfl)

theorem published (hR : MarketWrites R) {d : DbData} (h : R om om₁)
    (hok : (Except.ok ((om₁.publish slot).pushDb d) : Except Fault OrderManager) = .ok om') :
    R om om' :=
  hR.stored (hR.trans h (hR.publish om₁ slot)) hok

theorem onBook (hR : MarketWrites R) {f : MarketBook → Order → Except Fault MarketBook}
    (h : om.onBook slot f = .ok om') : R om om' := by
  obtain ⟨mb, -, hmb⟩ := bind_eq_ok_iff.mp h
  rw [← Except.ok.inj hmb]
  exact hR.rest rfl rfl rfl rfl

/-- A filler with a directory lookup. -/
theorem fillWithSymbol (hR : MarketWrites R) {v : VenueIndex} {order : Order}
    {finish : Order → Order} (hmask : order.canModify = (om.orderPool slot).canModify)
    (hown : order.isOurOrder = (om.orderPool slot).isOurOrder)
    (hfinish : ∀ o : Order, (finish o).canModify = o.canModify ∧
      (finish o).isOurOrder = o.isOurOrder) :
    R om (om.fillWithSymbol v slot order finish) := by
  unfold OrderManager.fillWithSymbol
  split
  · exact hR.write om slot _ ((hfinish _).1.trans hmask) ((hfinish _).2.trans hown)
  -- no symbol: the filler releases the order it has just written
  · exact hR.trans (hR.write om slot order hmask hown) (hR.rest rfl rfl rfl rfl)

theorem fillThenBook (hR : MarketWrites R) {fill : Order → Order}
    {f : MarketBook → Order → Except Fault MarketBook}
    (h : OrderManager.fillThenBook fill f slot om = .ok om')
    (hmask : ∀ o, (fill o).canModify = o.canModify)
    (hown : ∀ o, (fill o).isOurOrder = o.isOurOrder) : R om om' :=
  hR.trans (hR.write om slot _ (hmask _) (hown _)) (hR.onBook h)

theorem onExisting (hR : MarketWrites R) {msg : DbData}
    {process : OrderManager → Except Fault OrderManager}
    (hp : ∀ om₁, process om = .ok om₁ → R om om₁)
    (h : om.onExisting slot msg process = .ok om') : R om om' := by
  unfold OrderManager.onExisting at h
  split at h
  · rw [← Except.ok.inj h]
    exact hR.rest rfl rfl rfl rfl
  · obtain ⟨om₁, h₁, h₂⟩ := bind_eq_ok_iff.mp h
    exact hR.published (hp om₁ h₁) h₂

theorem onBistOrder (hR : MarketWrites R) {k : OrderKey} {msg : Bist.ItchMessage}
    {process : OrderSlot → OrderManager → Except Fault OrderManager}
    (hp : ∀ slot om₁, process slot om = .ok om₁ → R om om₁)
    (h : om.onBistOrder k msg process = .ok om') : R om om' := by
  unfold OrderManager.onBistOrder at h
  split at h
  · rw [← Except.ok.inj h]
    exact hR.refl om
  · exact hR.onExisting (hp _) h

theorem onNasdaqOrder (hR : MarketWrites R) {ref : UInt64} {msg : Nasdaq.ItchMessage}
    {process : OrderSlot → OrderManager → Except Fault OrderManager}
    (hp : ∀ slot om₁, process slot om = .ok om₁ → R om om₁)
    (h : om.onNasdaqOrder ref msg process = .ok om') : R om om' := by
  unfold OrderManager.onNasdaqOrder at h
  split at h
  · rw [← Except.ok.inj h]
    exact hR.refl om
  · exact hR.onExisting (hp _) h

/-! ### Adds, replacements and trades -/

theorem addBist (hR : MarketWrites R) {msg : Bist.AddOrder}
    (h : OrderManager.addBist msg slot om = .ok om') : R om om' := by
  have hfill : R om (FillerItchBist.fillItchAdd om slot msg) :=
    hR.fillWithSymbol rfl rfl fun _ => ⟨rfl, rfl⟩
  exact hR.trans hfill (hR.onBook h)

theorem updateBistAdd (hR : MarketWrites R) {m : Bist.AddOrder}
    (h : om.updateBistAdd m = .ok om') : R om om' := by
  unfold OrderManager.updateBistAdd at h
  simp only at h
  split at h
  · exact hR.onExisting (fun _ => hR.addBist) h
  -- an own order that waits for its acknowledgement: its echo is dropped
  · split at h
    · rw [← Except.ok.inj h]
      exact hR.refl om
    · obtain ⟨om₁, h₁, h₂⟩ := bind_eq_ok_iff.mp h
      have hadd : R om (om.addMarketOrder (bistKey m.orderId m.orderBookId m.side)).2 :=
        hR.rest rfl rfl rfl rfl
      exact hR.published (hR.trans hadd (hR.addBist h₁)) h₂

theorem updateNasdaqAdd (hR : MarketWrites R) {m : Nasdaq.AddOrder} {stored : Nasdaq.ItchMessage}
    {fill : OrderManager → OrderSlot → Nasdaq.AddOrder → OrderManager}
    (hfill : ∀ om slot, R om (fill om slot m))
    (h : om.updateNasdaqAdd m stored fill = .ok om') : R om om' := by
  unfold OrderManager.updateNasdaqAdd at h
  split at h
  · rw [← Except.ok.inj h]
    exact hR.refl om
  · obtain ⟨om₁, h₁, h₂⟩ := bind_eq_ok_iff.mp h
    have hadd : R om (om.addNasdaqOrder m) := hR.rest rfl rfl rfl rfl
    exact hR.published (hR.trans (hR.trans hadd (hfill _ _)) (hR.onBook h₁)) h₂

theorem replaceNasdaq (hR : MarketWrites R) {msg : Nasdaq.Replace}
    (h : OrderManager.replaceNasdaq msg slot om = .ok om') : R om om' := by
  -- the old version leaves the book, the order is written, the new version enters
  obtain ⟨om₁, h₁, h₂⟩ := bind_eq_ok_iff.mp h
  have hfill : R om₁ (FillerItchNasdaq.fillItchReplace om₁ slot msg) :=
    hR.fillWithSymbol rfl rfl fun _ => ⟨rfl, rfl⟩
  exact hR.trans (hR.onBook h₁) (hR.trans hfill (hR.onBook h₂))

theorem fillTradeBist (hR : MarketWrites R) (msg : Bist.Trade) :
    R om (FillerItchBist.fillItchTrade om slot msg) := by
  unfold FillerItchBist.fillItchTrade
  simp only
  split
  · exact hR.refl om
  · have hcount : R om { om with bistTradeId := om.bistTradeId + 1 } := hR.rest rfl rfl rfl rfl
    exact hR.trans hcount (hR.fillWithSymbol rfl rfl fun _ => ⟨rfl, rfl⟩)

theorem fillTradeNasdaq (hR : MarketWrites R) (msg : Nasdaq.Trade) :
    R om (FillerItchNasdaq.fillItchTrade om slot msg) := by
  unfold FillerItchNasdaq.fillItchTrade
  simp only
  split
  · exact hR.refl om
  · exact hR.fillWithSymbol rfl rfl fun _ => ⟨rfl, rfl⟩

/-! ### Directory, halts and flush -/

theorem enterTickSize (hR : MarketWrites R) (om : OrderManager) (orderBookId : UInt32)
    (m : SymbolMeta) (new : TickSlot) (entry : TickSizeEntry) (places : List (Fin 5)) :
    R om (om.enterTickSizeBist orderBookId m new entry places) := by
  induction places with
  | nil => exact hR.rest rfl rfl rfl rfl
  | cons i rest ih =>
    unfold enterTickSizeBist
    split
    · exact hR.rest rfl rfl rfl rfl
    · split
      · exact hR.rest rfl rfl rfl rfl
      · exact ih

theorem tickSizeBist (hR : MarketWrites R) {msg : Bist.TickSizeTableEntry}
    (h : om.handleTickSizeDefinitionBist msg = .ok om') : R om om' := by
  unfold handleTickSizeDefinitionBist at h
  split at h
  · cases h
  · rw [← Except.ok.inj h]
    refine hR.trans ?_ (hR.enterTickSize _ _ _ _ _ _)
    exact hR.rest rfl rfl rfl rfl

theorem tickSizeNasdaq (hR : MarketWrites R) {instrumentId : UInt32} {entry : TickSizeEntry}
    (h : om.handleTickSizeDefinitionNasdaq instrumentId entry = .ok om') : R om om' := by
  unfold handleTickSizeDefinitionNasdaq at h
  split at h
  · simp only at h
    split at h
    · cases h
    · split at h
      · rw [← Except.ok.inj h]
        exact hR.rest rfl rfl rfl rfl
      · rw [← Except.ok.inj h]
        exact hR.rest rfl rfl rfl rfl
  · cases h

theorem tickSizes (hR : MarketWrites R) {instrumentId : UInt32} (entries : List TickSizeEntry)
    (h : entries.foldlM (fun om entry => om.handleTickSizeDefinitionNasdaq instrumentId entry) om =
      .ok om') : R om om' := by
  induction entries generalizing om with
  | nil =>
    simp only [List.foldlM_nil, pure, Except.pure, Except.ok.injEq] at h
    exact h ▸ hR.refl _
  | cons entry rest ih =>
    rw [List.foldlM_cons] at h
    obtain ⟨om₁, h₁, h₂⟩ := bind_eq_ok_iff.mp h
    exact hR.trans (hR.tickSizeNasdaq h₁) (ih h₂)

theorem symbolHalt (hR : MarketWrites R) {v : VenueIndex} {instrumentId : UInt32} {halted : Bool}
    (h : om.updateSymbolHaltStatus v instrumentId halted = .ok om') : R om om' := by
  unfold updateSymbolHaltStatus at h
  split at h
  · cases h
  · rw [← Except.ok.inj h]
    exact hR.rest rfl rfl rfl rfl

theorem flushOrder (hR : MarketWrites R) (om : OrderManager) (slot : OrderSlot) :
    R om (om.flushOrder slot) := by
  unfold OrderManager.flushOrder
  simp only
  split
  · refine hR.trans (hR.write om slot { om.orderPool slot with
      status := .cancelled, cancelledCount := (om.orderPool slot).cancelledCount + 1
      remainingQuantity := (om.orderPool slot).quantity } rfl rfl) ?_
    exact hR.queue slot rfl rfl rfl rfl
  · split
    · refine hR.trans (hR.write om slot { om.orderPool slot with
        status := .cancelled, cancelledCount := (om.orderPool slot).cancelledCount + 1
        remainingQuantity := (om.orderPool slot).quantity - (om.orderPool slot).filledQuantity }
        rfl rfl) ?_
      exact hR.queue slot rfl rfl rfl rfl
    · exact hR.refl om

theorem flushOrders (hR : MarketWrites R) (orders : Fin 64 → Option OrderSlot)
    (is : List (Fin 64)) (om : OrderManager) :
    R om (is.foldl (fun om i => match orders i with
      | none => om
      | some slot => om.flushOrder slot) om) := by
  induction is generalizing om with
  | nil => exact hR.refl om
  | cons i is ih =>
    rw [List.foldl_cons]
    -- a place of the level that holds no order is passed over
    refine hR.trans ?_ (ih _)
    split
    · exact hR.refl om
    · exact hR.flushOrder om _

theorem flush (hR : MarketWrites R) {msg : Bist.OrderBookFlush}
    (h : om.updateBistFlush msg = .ok om') : R om om' := by
  unfold updateBistFlush at h
  split at h
  · cases h
  · obtain ⟨mb, -, h₂⟩ := bind_eq_ok_iff.mp h
    unfold handleFlushStatus at h₂
    split at h₂
    · cases h₂
    · rw [← Except.ok.inj h₂]
      have hbook : R om (om.setBook mb) := hR.rest rfl rfl rfl rfl
      exact hR.trans hbook (hR.flushOrders _ _ _)

/-! ### The messages -/

/-- **Every BIST message stays in the relation.** -/
theorem updateOrderBist (hR : MarketWrites R) {msg : Bist.ItchMessage}
    (h : om.updateOrderBist msg = .ok om') : R om om' := by
  cases msg with
  | addOrder m => exact hR.updateBistAdd h
  | orderExecuted m =>
    refine hR.onBistOrder (fun slot om₁ h₁ => ?_) h
    exact hR.fillThenBook h₁ (fun _ => rfl) fun _ => rfl
  | orderExecutedWithPrice m =>
    refine hR.onBistOrder (fun slot om₁ h₁ => ?_) h
    exact hR.fillThenBook h₁ (fun _ => rfl) fun _ => rfl
  | orderDelete m =>
    refine hR.onBistOrder (fun slot om₁ h₁ => ?_) h
    exact hR.fillThenBook h₁ (fun _ => rfl) fun _ => rfl
  | trade m =>
    refine hR.onBistOrder (fun slot om₁ h₁ => ?_) h
    rw [← Except.ok.inj h₁]
    exact hR.fillTradeBist m
  | orderBookState m =>
    obtain ⟨om₁, h₁, h₂⟩ := bind_eq_ok_iff.mp h
    exact hR.stored (hR.symbolHalt h₁) h₂
  | tickSizeTableEntry m =>
    obtain ⟨om₁, h₁, h₂⟩ := bind_eq_ok_iff.mp h
    exact hR.stored (hR.tickSizeBist h₁) h₂
  | orderBookFlush m =>
    obtain ⟨om₁, h₁, h₂⟩ := bind_eq_ok_iff.mp h
    exact hR.stored (hR.flush h₁) h₂
  | _ =>
    rw [← Except.ok.inj h]
    exact hR.rest rfl rfl rfl rfl

/-- **Every NASDAQ message stays in the relation.** -/
theorem updateOrderNasdaq (hR : MarketWrites R) {msg : Nasdaq.ItchMessage}
    (h : om.updateOrderNasdaq msg = .ok om') : R om om' := by
  cases msg with
  | addOrder m =>
    refine hR.updateNasdaqAdd (fun om slot => ?_) h
    have hfinish : ∀ o, (FillerItchNasdaq.finishAdd m o).canModify = o.canModify ∧
        (FillerItchNasdaq.finishAdd m o).isOurOrder = o.isOurOrder := fun _ => ⟨rfl, rfl⟩
    exact hR.fillWithSymbol rfl rfl hfinish
  | addOrderMpid m =>
    refine hR.updateNasdaqAdd (fun om slot => ?_) h
    have hfinish : ∀ o, (FillerItchNasdaq.finishAdd m o).canModify = o.canModify ∧
        (FillerItchNasdaq.finishAdd m o).isOurOrder = o.isOurOrder := fun _ => ⟨rfl, rfl⟩
    exact hR.fillWithSymbol rfl rfl hfinish
  | cancel m =>
    refine hR.onNasdaqOrder (fun slot om₁ h₁ => ?_) h
    exact hR.fillThenBook h₁ (fun _ => rfl) fun _ => rfl
  | executed m =>
    refine hR.onNasdaqOrder (fun slot om₁ h₁ => ?_) h
    exact hR.fillThenBook h₁ (fun _ => rfl) fun _ => rfl
  | executedWithPrice m =>
    refine hR.onNasdaqOrder (fun slot om₁ h₁ => ?_) h
    exact hR.fillThenBook h₁ (fun _ => rfl) fun _ => rfl
  | delete m =>
    refine hR.onNasdaqOrder (fun slot om₁ h₁ => ?_) h
    exact hR.fillThenBook h₁ (fun _ => rfl) fun _ => rfl
  | replace m => exact hR.onNasdaqOrder (fun _ _ => hR.replaceNasdaq) h
  | trade m =>
    refine hR.onNasdaqOrder (fun slot om₁ h₁ => ?_) h
    rw [← Except.ok.inj h₁]
    exact hR.fillTradeNasdaq m
  | stockDirectory m =>
    obtain ⟨om₁, h₁, h₂⟩ := bind_eq_ok_iff.mp h
    have hentries := hR.tickSizes _ h₁
    refine hR.stored (hR.trans ?_ hentries) h₂
    exact hR.rest rfl rfl rfl rfl
  | tradingState m =>
    obtain ⟨om₁, h₁, h₂⟩ := bind_eq_ok_iff.mp h
    exact hR.stored (hR.symbolHalt h₁) h₂
  | systemEvent m =>
    simp only [OrderManager.updateOrderNasdaq] at h
    split at h
    · rw [← Except.ok.inj h]
      exact hR.rest rfl rfl rfl rfl
    · cases h

end MarketWrites

namespace MarketSteps

variable {R : OrderManager → OrderManager → Prop} {om om' : OrderManager}

theorem writes (hR : MarketSteps R) : MarketWrites R where
  trans := hR.trans
  rest _ := hR.rest
  write := hR.write
  queue slot _ := hR.queue slot

theorem updateOrderBist (hR : MarketSteps R) {msg : Bist.ItchMessage}
    (h : om.updateOrderBist msg = .ok om') : R om om' := hR.writes.updateOrderBist h

theorem updateOrderNasdaq (hR : MarketSteps R) {msg : Nasdaq.ItchMessage}
    (h : om.updateOrderNasdaq msg = .ok om') : R om om' := hR.writes.updateOrderNasdaq h

end MarketSteps

end TradingEngine
