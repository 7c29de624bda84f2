/-
What the messages of the exchange change about own orders
(`order_management/OrderManager.cpp`).

The ITCH handlers leave the orders that await their acknowledgement alone, and
push to `store_to_strategy_free_slot_` only slots of market orders
(`ownFrame_updateOrderBist`, `ownFrame_updateOrderNasdaq`).  The FIX and OUCH
handlers erase at most one entry of `awaitingAck_orders_`: `erasedKey` reads the
key off their lookups, and `update_awaiting` says that nothing else becomes of
the map.
-/
import TradingEngine.StoreDisposition

namespace TradingEngine

open FallibleRun

namespace OrderManager

/-! ### ITCH -/

/-- A slot of the lower half, or of an order in the market map. -/
def MarketSlot (om : OrderManager) (slot : OrderSlot) : Prop :=
  slot.val < 32768 ∨ ∃ k, om.marketOrders.lookup k = some slot

/-- What the market handlers leave alone. -/
structure OwnFrame (om om' : OrderManager) : Prop where
  awaiting : om'.awaitingAckOrders = om.awaitingAckOrders
  market : ∀ slot, om'.MarketSlot slot → om.MarketSlot slot
  free : ∀ slot ∈ om'.storeToStrategyFreeSlot.items,
    slot ∈ om.storeToStrategyFreeSlot.items ∨ om.MarketSlot slot

variable {om om' om₁ om₂ om₃ : OrderManager} {slot : OrderSlot}

/-- A write that touches neither the maps nor the queue. -/
theorem OwnFrame.of_eq (hawait : om'.awaitingAckOrders = om.awaitingAckOrders)
    (hmarket : om'.marketOrders = om.marketOrders)
    (hfree : om'.storeToStrategyFreeSlot = om.storeToStrategyFreeSlot) : OwnFrame om om' := by
  refine ⟨hawait, fun slot h => ?_, fun slot h => ?_⟩
  · unfold MarketSlot at h ⊢
    rwa [hmarket] at h
  · rw [hfree] at h
    exact .inl h

theorem OwnFrame.refl (om : OrderManager) : OwnFrame om om := .of_eq rfl rfl rfl

theorem OwnFrame.trans (h : OwnFrame om₁ om₂) (h' : OwnFrame om₂ om₃) : OwnFrame om₁ om₃ := by
  refine ⟨h'.awaiting.trans h.awaiting, fun slot hm => h.market slot (h'.market slot hm), ?_⟩
  intro slot hslot
  rcases h'.free slot hslot with hold | hm
  · exact h.free slot hold
  · exact .inr (h.market slot hm)

theorem mem_of_mem_push {α : Type*} {n : ℕ} {q : BoundedQueue α n} {a b : α}
    (h : b ∈ (q.push a).items) : b ∈ q.items ∨ b = a := by
  by_cases hroom : q.items.length < n
  · rw [BoundedQueue.items_push hroom] at h
    simpa using h
  · rw [BoundedQueue.items_push_full hroom] at h
    exact .inl h

theorem ownFrame_releaseOrder (hslot : om.MarketSlot slot) : OwnFrame om (om.releaseOrder slot) := by
  refine ⟨rfl, ?_, ?_⟩
  · rintro t (hlow | ⟨k, hk⟩)
    · exact .inl hlow
    · exact .inr ⟨k, HashMap.lookup_of_lookup_erase hk⟩
  · intro t ht
    rcases mem_of_mem_push ht with hold | rfl
    · exact .inl hold
    · exact .inr hslot

theorem ownFrame_addMarketOrder (om : OrderManager) (k : OrderKey) :
    OwnFrame om (om.addMarketOrder k).2 := by
  refine ⟨rfl, ?_, fun slot h => .inl h⟩
  rintro t (hlow | ⟨k', hk'⟩)
  · exact .inl hlow
  · by_cases heq : k' = k
    · rw [heq, lookup_addMarketOrder_self, Option.some.injEq] at hk'
      exact .inl (hk' ▸ om.marketSlot_lt)
    · exact .inr ⟨k', lookup_of_lookup_addMarketOrder heq hk'⟩

theorem ownFrame_onBook {f : MarketBook → Order → Except Fault MarketBook}
    (h : om.onBook slot f = .ok om') : OwnFrame om om' := by
  obtain ⟨mb, -, hmb⟩ := bind_eq_ok_iff.mp h
  rw [Except.ok.injEq] at hmb
  rw [← hmb]
  exact .of_eq rfl rfl rfl

theorem ownFrame_fillWithSymbol (hslot : om.MarketSlot slot) (v : VenueIndex) (order : Order)
    (finish : Order → Order) : OwnFrame om (om.fillWithSymbol v slot order finish) := by
  unfold fillWithSymbol
  split
  · exact .of_eq rfl rfl rfl
  · have hset : OwnFrame om (om.setOrder slot order) := .of_eq rfl rfl rfl
    exact hset.trans (ownFrame_releaseOrder hslot)

theorem ownFrame_fillThenBook {fill : Order → Order}
    {f : MarketBook → Order → Except Fault MarketBook} (h : fillThenBook fill f slot om = .ok om') :
    OwnFrame om om' := by
  have hset : OwnFrame om (om.setOrder slot (fill (om.orderPool slot))) := .of_eq rfl rfl rfl
  exact hset.trans (ownFrame_onBook h)

theorem ownFrame_addBist {msg : Bist.AddOrder} (hslot : om.MarketSlot slot)
    (h : addBist msg slot om = .ok om') : OwnFrame om om' :=
  (ownFrame_fillWithSymbol hslot 0 _ _).trans (ownFrame_onBook h)

theorem ownFrame_fillTradeBist (hslot : om.MarketSlot slot) (msg : Bist.Trade) :
    OwnFrame om (FillerItchBist.fillItchTrade om slot msg) := by
  unfold FillerItchBist.fillItchTrade
  simp only
  split
  · exact .refl om
  · have hcount : OwnFrame om { om with bistTradeId := om.bistTradeId + 1 } := .of_eq rfl rfl rfl
    refine hcount.trans (ownFrame_fillWithSymbol ?_ _ _ _)
    exact hslot

theorem ownFrame_fillTradeNasdaq (hslot : om.MarketSlot slot) (msg : Nasdaq.Trade) :
    OwnFrame om (FillerItchNasdaq.fillItchTrade om slot msg) := by
  unfold FillerItchNasdaq.fillItchTrade
  simp only
  split
  · exact .refl om
  · exact ownFrame_fillWithSymbol hslot _ _ _

theorem marketSlot_onBook {f : MarketBook → Order → Except Fault MarketBook} {t : OrderSlot}
    (h : om.onBook t f = .ok om') (hslot : om.MarketSlot slot) : om'.MarketSlot slot := by
  obtain ⟨mb, -, hmb⟩ := bind_eq_ok_iff.mp h
  rw [Except.ok.injEq] at hmb
  rw [← hmb]
  exact hslot

theorem ownFrame_replaceNasdaq {msg : Nasdaq.Replace} (hslot : om.MarketSlot slot)
    (h : replaceNasdaq msg slot om = .ok om') : OwnFrame om om' := by
  obtain ⟨om₁, h₁, h₂⟩ := bind_eq_ok_iff.mp h
  have hfill := ownFrame_fillWithSymbol (marketSlot_onBook h₁ hslot) 1
  exact (ownFrame_onBook h₁).trans ((hfill _ _).trans (ownFrame_onBook h₂))

theorem ownFrame_enterTickSize (om : OrderManager) (orderBookId : UInt32) (m : SymbolMeta)
    (new : TickSlot) (entry : TickSizeEntry) (places : List (Fin 5)) :
    OwnFrame om (om.enterTickSizeBist orderBookId m new entry places) := by
  induction places with
  | nil => exact .of_eq rfl rfl rfl
  | cons i rest ih =>
    unfold enterTickSizeBist
    split
    · exact .of_eq rfl rfl rfl
    · split
      · exact .of_eq rfl rfl rfl
      · exact ih

theorem ownFrame_tickSizeBist {msg : Bist.TickSizeTableEntry}
    (h : om.handleTickSizeDefinitionBist msg = .ok om') : OwnFrame om om' := by
  unfold handleTickSizeDefinitionBist at h
  split at h
  · cases h
  · rw [Except.ok.injEq] at h
    rw [← h]
    refine OwnFrame.trans ?_ (ownFrame_enterTickSize _ _ _ _ _ _)
    exact .of_eq rfl rfl rfl

theorem ownFrame_tickSizeNasdaq {instrumentId : UInt32} {entry : TickSizeEntry}
    (h : om.handleTickSizeDefinitionNasdaq instrumentId entry = .ok om') : OwnFrame om om' := by
  unfold handleTickSizeDefinitionNasdaq at h
  split at h
  · simp only at h
    split at h
    · cases h
    · split at h
      · rw [Except.ok.injEq] at h
        rw [← h]
        exact .of_eq rfl rfl rfl
      · rw [Except.ok.injEq] at h
        rw [← h]
        exact .of_eq rfl rfl rfl
  · cases h

theorem ownFrame_tickSizes {instrumentId : UInt32} (entries : List TickSizeEntry)
    (h : entries.foldlM (fun om entry => om.handleTickSizeDefinitionNasdaq instrumentId entry) om =
      .ok om') : OwnFrame om om' := by
  induction entries generalizing om with
  | nil =>
    simp only [List.foldlM_nil, pure, Except.pure, Except.ok.injEq] at h
    exact h ▸ .refl _
  | cons entry rest ih =>
    rw [List.foldlM_cons] at h
    obtain ⟨om₁, h₁, h₂⟩ := bind_eq_ok_iff.mp h
    exact (ownFrame_tickSizeNasdaq h₁).trans (ih h₂)

theorem ownFrame_symbolHalt {v : VenueIndex} {instrumentId : UInt32} {halted : Bool}
    (h : om.updateSymbolHaltStatus v instrumentId halted = .ok om') : OwnFrame om om' := by
  unfold updateSymbolHaltStatus at h
  split at h
  · cases h
  · rw [Except.ok.injEq] at h
    rw [← h]
    exact .of_eq rfl rfl rfl

theorem ownFrame_flushOrder (om : OrderManager) (slot : OrderSlot) :
    OwnFrame om (om.flushOrder slot) := by
  unfold flushOrder
  simp only
  split
  · exact .of_eq rfl rfl rfl
  · split
    · exact .of_eq rfl rfl rfl
    · exact .refl om

theorem ownFrame_flushOrders (orders : Fin 64 → Option OrderSlot) (is : List (Fin 64))
    (om : OrderManager) :
    OwnFrame om (is.foldl (fun om i => match orders i with
      | none => om
      | some slot => om.flushOrder slot) om) := by
  induction is generalizing om with
  | nil => exact .refl om
  | cons i is ih =>
    rw [List.foldl_cons]
    refine OwnFrame.trans ?_ (ih _)
    split
    · exact .refl om
    · exact ownFrame_flushOrder om _

theorem ownFrame_flush {msg : Bist.OrderBookFlush} (h : om.updateBistFlush msg = .ok om') :
    OwnFrame om om' := by
  unfold updateBistFlush at h
  split at h
  · cases h
  · obtain ⟨mb, -, h₂⟩ := bind_eq_ok_iff.mp h
    unfold handleFlushStatus at h₂
    split at h₂
    · cases h₂
    · rw [Except.ok.injEq] at h₂
      rw [← h₂]
      have hbook : OwnFrame om (om.setBook mb) := .of_eq rfl rfl rfl
      exact hbook.trans (ownFrame_flushOrders _ _ _)

/-- The two ways a message about an existing order ends. -/
theorem ownFrame_onExisting {msg : DbData} {process : OrderManager → Except Fault OrderManager}
    (hp : ∀ om₁, process om = .ok om₁ → OwnFrame om om₁)
    (h : om.onExisting slot msg process = .ok om') : OwnFrame om om' := by
  unfold onExisting at h
  split at h
  · rw [Except.ok.injEq] at h
    rw [← h]
    exact .of_eq rfl rfl rfl
  · obtain ⟨om₁, h₁, h₂⟩ := bind_eq_ok_iff.mp h
    rw [Except.ok.injEq] at h₂
    rw [← h₂]
    exact (hp om₁ h₁).trans (.of_eq rfl rfl rfl)

theorem ownFrame_onBistOrder {k : OrderKey} {msg : Bist.ItchMessage}
    {process : OrderSlot → OrderManager → Except Fault OrderManager}
    (hp : ∀ slot om₁, om.MarketSlot slot → process slot om = .ok om₁ → OwnFrame om om₁)
    (h : om.onBistOrder k msg process = .ok om') : OwnFrame om om' := by
  unfold onBistOrder at h
  split at h
  · rw [Except.ok.injEq] at h
    rw [← h]
    exact .refl om
  · rename_i slot hk
    exact ownFrame_onExisting (fun om₁ => hp slot om₁ (.inr ⟨k, hk⟩)) h

theorem ownFrame_onNasdaqOrder {ref : UInt64} {msg : Nasdaq.ItchMessage}
    {process : OrderSlot → OrderManager → Except Fault OrderManager}
    (hp : ∀ slot om₁, om.MarketSlot slot → process slot om = .ok om₁ → OwnFrame om om₁)
    (h : om.onNasdaqOrder ref msg process = .ok om') : OwnFrame om om' := by
  unfold onNasdaqOrder at h
  split at h
  · rw [Except.ok.injEq] at h
    rw [← h]
    exact .refl om
  · rename_i slot hk
    have hslot : om.MarketSlot slot := by
      unfold nasdaqSlot at hk
      split at hk
      · cases hk
      · exact .inr ⟨_, hk⟩
    exact ownFrame_onExisting (fun om₁ => hp slot om₁ hslot) h

theorem ownFrame_updateBistAdd {m : Bist.AddOrder} (h : om.updateBistAdd m = .ok om') :
    OwnFrame om om' := by
  unfold updateBistAdd at h
  simp only at h
  split at h
  · rename_i slot hk
    exact ownFrame_onExisting (fun _ => ownFrame_addBist (.inr ⟨_, hk⟩)) h
  · split at h
    · rw [Except.ok.injEq] at h
      rw [← h]
      exact .refl om
    · obtain ⟨om₁, h₁, h₂⟩ := bind_eq_ok_iff.mp h
      rw [Except.ok.injEq] at h₂
      rw [← h₂]
      have hadd := ownFrame_addMarketOrder om (bistKey m.orderId m.orderBookId m.side)
      refine (hadd.trans (ownFrame_addBist ?_ h₁)).trans (.of_eq rfl rfl rfl)
      exact .inl om.marketSlot_lt

theorem ownFrame_updateNasdaqAdd {m : Nasdaq.AddOrder} {stored : Nasdaq.ItchMessage}
    {fill : OrderManager → OrderSlot → Nasdaq.AddOrder → OrderManager}
    (hfill : ∀ om slot, om.MarketSlot slot → OwnFrame om (fill om slot m))
    (h : om.updateNasdaqAdd m stored fill = .ok om') : OwnFrame om om' := by
  unfold updateNasdaqAdd at h
  split at h
  · rw [Except.ok.injEq] at h
    rw [← h]
    exact .refl om
  · obtain ⟨om₁, h₁, h₂⟩ := bind_eq_ok_iff.mp h
    rw [Except.ok.injEq] at h₂
    rw [← h₂]
    have hadd : OwnFrame om (om.addNasdaqOrder m) :=
      (ownFrame_addMarketOrder om (nasdaqKey m)).trans (.of_eq rfl rfl rfl)
    have hfilled := hfill (om.addNasdaqOrder m) om.marketOrderSlot (.inl om.marketSlot_lt)
    exact ((hadd.trans hfilled).trans (ownFrame_onBook h₁)).trans (.of_eq rfl rfl rfl)

/-- A handler that ends with the hand-over of its message. -/
theorem ownFrame_stored {d : DbData} (hframe : OwnFrame om om₁)
    (h : (Except.ok (om₁.pushDb d) : Except Fault OrderManager) = .ok om') : OwnFrame om om' := by
  rw [Except.ok.injEq] at h
  rw [← h]
  exact hframe.trans (.of_eq rfl rfl rfl)

/-- **BIST market messages leave own orders alone.** -/
theorem ownFrame_updateOrderBist {msg : Bist.ItchMessage} (h : om.updateOrderBist msg = .ok om') :
    OwnFrame om om' := by
  cases msg with
  | addOrder m => exact ownFrame_updateBistAdd h
  | orderExecuted m => exact ownFrame_onBistOrder (fun _ _ _ => ownFrame_fillThenBook) h
  | orderExecutedWithPrice m => exact ownFrame_onBistOrder (fun _ _ _ => ownFrame_fillThenBook) h
  | orderDelete m => exact ownFrame_onBistOrder (fun _ _ _ => ownFrame_fillThenBook) h
  | trade m =>
    refine ownFrame_onBistOrder (fun slot om₁ hslot h₁ => ?_) h
    rw [Except.ok.injEq] at h₁
    rw [← h₁]
    exact ownFrame_fillTradeBist hslot m
  | orderBookState m =>
    obtain ⟨om₁, h₁, h₂⟩ := bind_eq_ok_iff.mp h
    exact ownFrame_stored (ownFrame_symbolHalt h₁) h₂
  | tickSizeTableEntry m =>
    obtain ⟨om₁, h₁, h₂⟩ := bind_eq_ok_iff.mp h
    exact ownFrame_stored (ownFrame_tickSizeBist h₁) h₂
  | orderBookFlush m =>
    obtain ⟨om₁, h₁, h₂⟩ := bind_eq_ok_iff.mp h
    exact ownFrame_stored (ownFrame_flush h₁) h₂
  | _ =>
    rw [← Except.ok.inj h]
    exact .of_eq rfl rfl rfl

/-- **NASDAQ market messages leave own orders alone.** -/
theorem ownFrame_updateOrderNasdaq {msg : Nasdaq.ItchMessage}
    (h : om.updateOrderNasdaq msg = .ok om') : OwnFrame om om' := by
  cases msg with
  | addOrder m =>
    exact ownFrame_updateNasdaqAdd (fun _ _ hslot => ownFrame_fillWithSymbol hslot 1 _ _) h
  | addOrderMpid m =>
    exact ownFrame_updateNasdaqAdd (fun _ _ hslot => ownFrame_fillWithSymbol hslot 1 _ _) h
  | cancel m => exact ownFrame_onNasdaqOrder (fun _ _ _ => ownFrame_fillThenBook) h
  | executed m => exact ownFrame_onNasdaqOrder (fun _ _ _ => ownFrame_fillThenBook) h
  | executedWithPrice m => exact ownFrame_onNasdaqOrder (fun _ _ _ => ownFrame_fillThenBook) h
  | delete m => exact ownFrame_onNasdaqOrder (fun _ _ _ => ownFrame_fillThenBook) h
  | replace m => exact ownFrame_onNasdaqOrder (fun _ _ => ownFrame_replaceNasdaq) h
  | trade m =>
    refine ownFrame_onNasdaqOrder (fun slot om₁ hslot h₁ => ?_) h
    rw [Except.ok.injEq] at h₁
    rw [← h₁]
    exact ownFrame_fillTradeNasdaq hslot m
  | stockDirectory m =>
    obtain ⟨om₁, h₁, h₂⟩ := bind_eq_ok_iff.mp h
    have hentries := ownFrame_tickSizes _ h₁
    refine ownFrame_stored (OwnFrame.trans ?_ hentries) h₂
    exact .of_eq rfl rfl rfl
  | tradingState m =>
    obtain ⟨om₁, h₁, h₂⟩ := bind_eq_ok_iff.mp h
    exact ownFrame_stored (ownFrame_symbolHalt h₁) h₂
  | systemEvent m =>
    simp only [updateOrderNasdaq] at h
    split at h
    · rw [← Except.ok.inj h]
      exact .of_eq rfl rfl rfl
    · cases h

end OrderManager

/-! ### FIX and OUCH -/

namespace OwnManager

/-- The slot is in a map of the order manager or in its queue of free slots, or
belongs to the market. -/
def Known (om : OwnManager) (slot : OrderSlot) : Prop :=
  om.MarketSlot slot ∨ slot ∈ om.storeToStrategyFreeSlot.items ∨
    (∃ k, om.awaitingAckOrders.lookup k = some slot) ∨
    (∃ k, om.ourOrders.lookup k = some slot) ∨ ∃ k, om.ourOrdersWtokenkey.lookup k = some slot

/-- The map of own orders has grown to its threshold. -/
def Sweeps (om : OwnManager) : Prop := ourOrderMapThreshold ≤ om.ourOrders.keys.card

/-- The awaited orders without one. -/
def awaitingWithout (om : OwnManager) : Option UInt64 → HashMap UInt64 OrderSlot
  | none => om.awaitingAckOrders
  | some k => om.awaitingAckOrders.erase k

/-- A handler erases at most one awaited order, and enters no slot that was not
known, unless the sweep brings one. -/
structure Effect (erased : Option UInt64) (om om' : OwnManager) : Prop where
  awaiting : om'.awaitingAckOrders = om.awaitingWithout erased
  known : ¬om.Sweeps → ∀ slot, om'.Known slot → om.Known slot

variable {hash : List UInt8 → UInt64} {om om' om₁ om₂ : OwnManager} {slot : OrderSlot}
  {d : DbData} {erased : Option UInt64}

/-- Maps and queue are as they were. -/
structure Calm (om om' : OwnManager) : Prop where
  market : om'.marketOrders = om.marketOrders
  free : om'.storeToStrategyFreeSlot = om.storeToStrategyFreeSlot
  awaiting : om'.awaitingAckOrders = om.awaitingAckOrders
  ours : om'.ourOrders = om.ourOrders
  tokens : om'.ourOrdersWtokenkey = om.ourOrdersWtokenkey

theorem Calm.known (h : Calm om om') (hk : om'.Known slot) : om.Known slot := by
  unfold Known OrderManager.MarketSlot at hk ⊢
  rwa [h.market, h.free, h.awaiting, h.ours, h.tokens] at hk

theorem Calm.trans {om₃ : OwnManager} (h : Calm om₁ om₂) (h' : Calm om₂ om₃) : Calm om₁ om₃ :=
  ⟨h'.1.trans h.1, h'.2.trans h.2, h'.3.trans h.3, h'.4.trans h.4, h'.5.trans h.5⟩

theorem calm_setOrder (om : OwnManager) (slot : OrderSlot) (order : Order) :
    Calm om (om.setOrder slot order) := ⟨rfl, rfl, rfl, rfl, rfl⟩

theorem calm_setOwn (om : OwnManager) (slot : OrderSlot) (order : Order) (own : OwnFields) :
    Calm om (om.setOwn slot order own) := ⟨rfl, rfl, rfl, rfl, rfl⟩

theorem calm_publish (om : OwnManager) (slot : OrderSlot) : Calm om (om.publish slot) :=
  ⟨rfl, rfl, rfl, rfl, rfl⟩

theorem calm_pushDb (om : OwnManager) (d : DbData) : Calm om (om.pushDb d) :=
  ⟨rfl, rfl, rfl, rfl, rfl⟩

theorem calm_publishWith (om : OwnManager) (slot : OrderSlot) (d : DbData) :
    Calm om (om.publishWith slot d) := ⟨rfl, rfl, rfl, rfl, rfl⟩

theorem Calm.effect (h : Calm om om') : Effect none om om' :=
  ⟨h.awaiting, fun _ _ => h.known⟩

theorem Effect.calm (h : Effect erased om om₁) (h' : Calm om₁ om₂) : Effect erased om om₂ :=
  ⟨h'.awaiting.trans h.awaiting, fun hs slot hk => h.known hs slot (h'.known hk)⟩

theorem Effect.erase (h : Effect none om om₁) (k : UInt64) :
    Effect (some k) om (om₁.eraseAwaitingAck k) := by
  refine ⟨congrArg (Finmap.erase k) h.awaiting, fun hs slot hk => h.known hs slot ?_⟩
  rcases hk with hm | hf | ⟨k', hk'⟩ | ho | ht
  · exact .inl hm
  · exact .inr (.inl hf)
  · exact .inr (.inr (.inl ⟨k', HashMap.lookup_of_lookup_erase hk'⟩))
  · exact .inr (.inr (.inr (.inl ho)))
  · exact .inr (.inr (.inr (.inr ht)))

theorem known_pushFreeSlot (hslot : om.Known slot) {t : OrderSlot}
    (h : (om.pushFreeSlot slot).Known t) : om.Known t := by
  rcases h with hm | hf | ha | ho | ht
  · exact .inl hm
  · rcases OrderManager.mem_of_mem_push hf with hold | rfl
    · exact .inr (.inl hold)
    · exact hslot
  · exact .inr (.inr (.inl ha))
  · exact .inr (.inr (.inr (.inl ho)))
  · exact .inr (.inr (.inr (.inr ht)))

theorem effect_pushFreeSlot (hslot : om.Known slot) : Effect none om (om.pushFreeSlot slot) :=
  ⟨rfl, fun _ _ => known_pushFreeSlot hslot⟩

/-- Without the sweep, `add_our_order` enters the order under its key. -/
theorem known_insert_ours (hslot : om.Known slot) {k : OrderKey} {t : OrderSlot}
    (h : { om with ourOrders := om.ourOrders.insert k slot }.Known t) : om.Known t := by
  rcases h with hm | hf | ha | ⟨k', hk'⟩ | ht
  · exact .inl hm
  · exact .inr (.inl hf)
  · exact .inr (.inr (.inl ha))
  · rcases HashMap.lookup_of_lookup_insert hk' with hold | rfl
    · exact .inr (.inr (.inr (.inl ⟨k', hold⟩)))
    · exact hslot
  · exact .inr (.inr (.inr (.inr ht)))

theorem awaiting_sweep (h : om.sweep = .ok om') : om'.awaitingAckOrders = om.awaitingAckOrders := by
  obtain ⟨-, rfl⟩ | ⟨-, next, hnext, histories, -, rfl⟩ := sweep_cases h
  · rfl
  · rfl

theorem sweep_of_not (hs : ¬om.Sweeps) : om.sweep = .ok om := if_neg hs

theorem effect_addOurOrder (hslot : om.Known slot) {k : OrderKey}
    (h : om.addOurOrder slot k = .ok om') : Effect none om om' := by
  obtain ⟨om₁, histories, hsweep, rfl⟩ := addOurOrder_cases h
  have hawait : om₁.awaitingAckOrders = om.awaitingAckOrders := awaiting_sweep hsweep
  refine ⟨hawait, fun hs t ht => ?_⟩
  rw [sweep_of_not hs, Except.ok.injEq] at hsweep
  subst hsweep
  have hk : Known { om with ourOrders := om.ourOrders.insert k slot } t := ht
  exact known_insert_ours hslot hk

/-! #### The key that is erased -/

/-- A FIX message that is processed erases the order it names, except a cancel
reject. -/
def erasedByFix (clientOrderId : UInt64) (m : FIXMessage) : Option UInt64 :=
  if m.msgType = 56 then if allowedExecType m.execType then some clientOrderId else none
  else if m.msgType = 57 then none
  else some clientOrderId

def erasedKeyFix (hash : List UInt8 → UInt64) (om : OwnManager) (m : FIXMessage) : Option UInt64 :=
  let existing (slot : OrderSlot) : Option UInt64 :=
    if (om.orderPool slot).canModify = 0 then none else erasedByFix (hash (cString m.clOrdId)) m
  match om.sympackSymid.lookup (symbolPack m.symbol) with
  | none => none
  | some orderBookId =>
    match om.getOrderFromOurMap (fixKey hash orderBookId m) with
    | some slot => existing slot
    | none =>
      match om.getOrderFromAwaitingAckOrders (hash (cString m.clOrdId)) with
      | none => none
      | some slot => if m.ordStatus = 56 then none else existing slot

/-- The order is looked up among the awaited ones if it is not known, and erased
under the key it was found by. -/
def erasedIfAwaited (om : OwnManager) (known : Option OrderSlot) (clientOrderId : UInt64) :
    Option UInt64 :=
  match known with
  | some _ => none
  | none =>
    match om.getOrderFromAwaitingAckOrders clientOrderId with
    | none => none
    | some _ => some clientOrderId

/-- The same, but it is erased under its own `client_order_id`. -/
def erasedByOwnId (om : OwnManager) (known : Option OrderSlot) (clientOrderId : UInt64) :
    Option UInt64 :=
  match known with
  | some _ => none
  | none => (om.getOrderFromAwaitingAckOrders clientOrderId).map fun slot =>
      (om.orderPool slot).clientOrderId

def erasedKeyBistOuch (hash : List UInt8 → UInt64) (om : OwnManager) :
    Bist.OuchMessage → Option UInt64
  | .accepted m => om.erasedIfAwaited none (hash m.orderToken)
  | .replaced m =>
    om.erasedIfAwaited (om.getOrderFromOurMap
      ⟨m.orderId, m.orderBookId, Venue.bist.code, (sideOfChar m.side).code⟩) (hash m.orderToken)
  | .cancelled m =>
    om.erasedIfAwaited (om.getOrderFromOurMap
      ⟨m.orderId, m.orderBookId, Venue.bist.code, (sideOfChar m.side).code⟩) (hash m.orderToken)
  | .executed m =>
    om.erasedByOwnId (om.getOrderFromOurMapWtokenkey (hash m.orderToken)) (hash m.orderToken)
  | .rejected m =>
    om.erasedByOwnId (om.getOrderFromOurMapWtokenkey (hash m.orderToken)) (hash m.orderToken)

def erasedKeyNasdaqOuch (hash : List UInt8 → UInt64) (om : OwnManager) :
    Nasdaq.OuchMessage → Option UInt64
  | .accepted m => om.erasedIfAwaited none (hash m.clOrdId)
  | .replaced m =>
    match om.sympackSymid.lookup (symbolPack m.symbol) with
    | none => none
    | some stockLocate =>
      om.erasedIfAwaited (om.getOrderFromOurMap
        ⟨m.orderReferenceNumber, stockLocate, Venue.nasdaq.code, (sideOfChar m.side).code⟩)
        (hash m.clOrdId)
  | .rejected m => om.erasedByOwnId none (hash m.clOrdId)
  | _ => none

/-- The entry of `awaitingAck_orders_` that the handler of a message erases. -/
def erasedKey (hash : List UInt8 → UInt64) (om : OwnManager) : StoreMessage → Option UInt64
  | .fix m => erasedKeyFix hash om m
  | .bistOuch m => erasedKeyBistOuch hash om m
  | .nasdaqOuch m => erasedKeyNasdaqOuch hash om m
  | _ => none

/-! #### The handlers -/

theorem known_of_ours {k : OrderKey} (h : om.getOrderFromOurMap k = some slot) : om.Known slot :=
  .inr (.inr (.inr (.inl ⟨k, h⟩)))

theorem known_of_awaiting {k : UInt64} (h : om.getOrderFromAwaitingAckOrders k = some slot) :
    om.Known slot :=
  .inr (.inr (.inl ⟨k, h⟩))

theorem known_of_token {k : UInt64} (h : om.getOrderFromOurMapWtokenkey k = some slot) :
    om.Known slot :=
  .inr (.inr (.inr (.inr ⟨k, h⟩)))

theorem effect_unlessDeferred {base : OwnManager} (hbase : Effect none base om)
    {handle : OwnManager → Except Fault OwnManager}
    (hh : handle om = .ok om' → Effect erased base om')
    (h : om.unlessDeferred slot d handle = .ok om') :
    Effect (if (om.orderPool slot).canModify = 0 then none else erased) base om' := by
  obtain ⟨hlocked, rfl⟩ | ⟨hopen, hhandled⟩ := unlessDeferred_cases h
  · rw [if_pos hlocked]
    exact hbase.calm ⟨rfl, rfl, rfl, rfl, rfl⟩
  · rw [if_neg hopen]
    exact hh hhandled

theorem effect_unlessDeferred_none {handle : OwnManager → Except Fault OwnManager}
    (hh : handle om = .ok om' → Effect none om om')
    (h : om.unlessDeferred slot d handle = .ok om') : Effect none om om' := by
  have heffect := effect_unlessDeferred ⟨rfl, fun _ _ hk => hk⟩ hh h
  rwa [ite_self] at heffect

theorem effect_handleFix {base : OwnManager} (hbase : Effect none base om) {clientOrderId : UInt64}
    {m : FIXMessage} (h : handleFix hash om slot clientOrderId m = .ok om') :
    Effect (erasedByFix clientOrderId m) base om' := by
  have hfinish : ∀ om₁ : OwnManager, Effect none base om₁ →
      Effect (some clientOrderId) base (om₁.finishFix slot clientOrderId m) :=
    fun om₁ h₁ => (h₁.erase clientOrderId).calm ⟨rfl, rfl, rfl, rfl, rfl⟩
  unfold erasedByFix
  obtain ⟨h8, hallowed, filled, -, rfl⟩ | ⟨h8, hallowed, rfl⟩ | ⟨h9, rfl⟩ | ⟨h8, h9, rfl⟩ :=
    handleFix_cases h
  · rw [if_pos h8, if_pos hallowed]
    exact hfinish _ (hbase.calm ⟨rfl, rfl, rfl, rfl, rfl⟩)
  · rw [if_pos h8, if_neg hallowed]
    exact hbase
  · rw [if_neg (by rw [h9]; decide), if_pos h9]
    exact hbase.calm ⟨rfl, rfl, rfl, rfl, rfl⟩
  · rw [if_neg h8, if_neg h9]
    exact hfinish om hbase

theorem Effect.refl (om : OwnManager) : Effect none om om := ⟨rfl, fun _ _ hk => hk⟩

theorem effect_updateOrderFix {m : FIXMessage} (h : updateOrderFix hash om m = .ok om') :
    Effect (erasedKeyFix hash om m) om om' := by
  obtain ⟨id, hid, hcase⟩ := updateOrderFix_cases h
  unfold erasedKeyFix
  simp only [hid]
  obtain ⟨slot, hk, hhandled⟩ | ⟨hk, hawait, rfl⟩ | ⟨slot, hk, hawait, hreject, rfl⟩ |
    ⟨slot, om₁, hk, hawait, hreject, hadded, hhandled⟩ := hcase
  · simp only [hk]
    exact effect_unlessDeferred (.refl om) (effect_handleFix (.refl om)) hhandled
  · simp only [hk, hawait]
    exact .refl _
  · simp only [hk, hawait, if_pos hreject]
    exact effect_pushFreeSlot (known_of_awaiting hawait)
  · simp only [hk, hawait, if_neg hreject]
    have hadd := effect_addOurOrder (known_of_awaiting hawait) hadded
    have heffect := effect_unlessDeferred hadd (effect_handleFix hadd) hhandled
    rw [(still_addOurOrder hadded).orderPool] at heffect
    exact heffect

/-- The slot of an awaited order enters the token map. -/
theorem known_insert_token (hslot : om.Known slot) {k : UInt64} {t : OrderSlot}
    (h : { om with ourOrdersWtokenkey := om.ourOrdersWtokenkey.insert k slot }.Known t) :
    om.Known t := by
  rcases h with hm | hf | ha | ho | ⟨k', hk'⟩
  · exact .inl hm
  · exact .inr (.inl hf)
  · exact .inr (.inr (.inl ha))
  · exact .inr (.inr (.inr (.inl ho)))
  · rcases HashMap.lookup_of_lookup_insert hk' with hold | rfl
    · exact .inr (.inr (.inr (.inr ⟨k', hold⟩)))
    · exact hslot

/-- An awaited order stays known when it is added to the own orders. -/
theorem known_addOurOrder {k : OrderKey} (h : om.addOurOrder slot k = .ok om') :
    om'.Known slot := by
  obtain ⟨om₁, histories, -, rfl⟩ := addOurOrder_cases h
  exact known_of_ours (k := k) (Finmap.lookup_insert _)

theorem effect_onBistOuchKey {acknowledges : Bool} {k : OrderKey} {token : List UInt8}
    {fill : OwnManager → OrderSlot → OwnManager} (hfill : ∀ om slot, Calm om (fill om slot))
    (h : onBistOuchKey hash om acknowledges k token d fill = .ok om') :
    Effect (om.erasedIfAwaited (if acknowledges then none else om.getOrderFromOurMap k)
      (hash token)) om om' := by
  unfold erasedIfAwaited
  obtain ⟨slot, hk, hhandled⟩ | ⟨hk, hawait, rfl⟩ |
    ⟨slot, om₁, tokens, hk, hawait, hadded, rfl, rfl⟩ := onBistOuchKey_cases h
  · simp only [hk]
    refine effect_unlessDeferred_none (fun hok => ?_) hhandled
    rw [← Except.ok.inj hok]
    exact ((hfill om slot).trans (calm_publishWith _ slot d)).effect
  · simp only [hk, hawait]
    exact .refl _
  · simp only [hk, hawait]
    have hadd := effect_addOurOrder (known_of_awaiting hawait) hadded
    have htoken : Effect none om { om₁ with
        ourOrdersWtokenkey :=
          om₁.ourOrdersWtokenkey.insert (om₁.orderPool slot).clientOrderId slot } :=
      ⟨hadd.awaiting, fun hs t ht =>
        hadd.known hs t (known_insert_token (known_addOurOrder hadded) ht)⟩
    exact ((htoken.erase (hash token)).calm (hfill _ slot)).calm ⟨rfl, rfl, rfl, rfl, rfl⟩

theorem effect_onBistOuchToken {token : List UInt8} {finish : OwnManager → OrderSlot → OwnManager}
    (hfinish : ∀ (base om : OwnManager) slot erased, base.Known slot → Effect erased base om →
      Effect erased base (finish om slot))
    (h : onBistOuchToken hash om token d finish = .ok om') :
    Effect (om.erasedByOwnId (om.getOrderFromOurMapWtokenkey (hash token)) (hash token)) om om' := by
  unfold erasedByOwnId
  obtain ⟨slot, hk, hhandled⟩ | ⟨hk, hawait, rfl⟩ | ⟨slot, hk, hawait, rfl⟩ :=
    onBistOuchToken_cases h
  · simp only [hk]
    refine effect_unlessDeferred_none (fun hok => ?_) hhandled
    rw [← Except.ok.inj hok]
    exact (hfinish om om slot none (known_of_token hk) (.refl om)).calm
      ⟨rfl, rfl, rfl, rfl, rfl⟩
  · simp only [hk, hawait]
    exact .refl _
  · simp only [hk, hawait]
    refine (hfinish om _ slot _ (known_of_awaiting hawait) ?_).calm ⟨rfl, rfl, rfl, rfl, rfl⟩
    exact Effect.erase (.refl om) _

/-- A reject gives the slot of an order that was never acknowledged back. -/
theorem effect_fillOuchRejected {base : OwnManager} (hslot : base.Known slot)
    (h : Effect erased base om) (timestamp : UInt64) :
    Effect erased base (om.fillOuchRejected slot timestamp) := by
  unfold fillOuchRejected
  simp only
  split
  · refine ⟨h.awaiting, fun hs t ht => ?_⟩
    rcases ht with hm | hf | ha | ho | ht
    · exact h.known hs t (.inl hm)
    · rcases OrderManager.mem_of_mem_push hf with hold | rfl
      · exact h.known hs t (.inr (.inl hold))
      · exact hslot
    · exact h.known hs t (.inr (.inr (.inl ha)))
    · exact h.known hs t (.inr (.inr (.inr (.inl ho))))
    · exact h.known hs t (.inr (.inr (.inr (.inr ht))))
  · exact h.calm ⟨rfl, rfl, rfl, rfl, rfl⟩

theorem effect_updateOrderBistOuch {msg : Bist.OuchMessage}
    (h : updateOrderBistOuch hash om msg = .ok om') :
    Effect (erasedKeyBistOuch hash om msg) om om' := by
  cases msg with
  | accepted m =>
    simp only [updateOrderBistOuch] at h
    exact effect_onBistOuchKey (fun om slot => calm_setOrder om slot _) h
  | replaced m => exact effect_onBistOuchKey (fun om slot => calm_setOwn om slot _ _) h
  | cancelled m => exact effect_onBistOuchKey (fun om slot => calm_setOrder om slot _) h
  | executed m =>
    refine effect_onBistOuchToken (fun base om slot erased _ heffect => ?_) h
    exact heffect.calm ⟨rfl, rfl, rfl, rfl, rfl⟩
  | rejected m =>
    refine effect_onBistOuchToken (fun base om slot erased hslot heffect => ?_) h
    exact effect_fillOuchRejected hslot heffect m.timestamp

theorem effect_onNasdaqOuchAwaited {orderId : UInt64} {side : UInt8} {clOrdId : List UInt8}
    {fill : OwnManager → OrderSlot → OwnManager} (hfill : ∀ om slot, Calm om (fill om slot))
    (h : onNasdaqOuchAwaited hash om orderId side clOrdId d fill = .ok om') :
    Effect (om.erasedIfAwaited none (hash clOrdId)) om om' := by
  unfold erasedIfAwaited
  simp only
  obtain ⟨hawait, rfl⟩ | ⟨slot, om₁, k, refs, hawait, -, hadded, -, rfl⟩ :=
    onNasdaqOuchAwaited_cases h
  · simp only [hawait]
    exact .refl _
  · simp only [hawait]
    have hadd := effect_addOurOrder (known_of_awaiting hawait) hadded
    refine Effect.calm (Effect.calm ?_ (hfill _ slot)) ⟨rfl, rfl, rfl, rfl, rfl⟩
    refine Effect.erase ?_ _
    exact hadd.calm ⟨rfl, rfl, rfl, rfl, rfl⟩

theorem effect_onNasdaqOuchRef {userRefNum : UInt32} {finish : OwnManager → OrderSlot → OwnManager}
    (hfinish : ∀ om slot, Calm om (finish om slot))
    (h : onNasdaqOuchRef om userRefNum d finish = .ok om') : Effect none om om' := by
  obtain ⟨k, slot, -, -, hhandled⟩ := onNasdaqOuchRef_cases h
  refine effect_unlessDeferred_none (fun hok => ?_) hhandled
  rw [← Except.ok.inj hok]
  exact ((hfinish om slot).trans (calm_pushDb _ d)).effect

theorem effect_updateOrderNasdaqOuch {msg : Nasdaq.OuchMessage}
    (h : updateOrderNasdaqOuch hash om msg = .ok om') :
    Effect (erasedKeyNasdaqOuch hash om msg) om om' := by
  have hcalm : ∀ (om : OwnManager) (slot : OrderSlot) (order : Order),
      Calm om ((om.setOrder slot order).publish slot) :=
    fun om slot order => (calm_setOrder om slot order).trans (calm_publish _ slot)
  have hsame : ∀ om : OwnManager, Calm om om := fun _ => ⟨rfl, rfl, rfl, rfl, rfl⟩
  cases msg with
  | accepted m =>
    simp only [updateOrderNasdaqOuch] at h
    exact effect_onNasdaqOuchAwaited (fun om slot => calm_setOrder om slot _) h
  | replaced m =>
    obtain ⟨fill, rfl, locate, k, hid, rfl, hcase⟩ := ouchReplaced_cases h
    simp only [erasedKeyNasdaqOuch, hid]
    obtain ⟨slot, hk, hhandled⟩ | ⟨hk, hawaited⟩ := hcase
    · simp only [hk]
      refine effect_unlessDeferred_none (fun hok => ?_) hhandled
      rw [← Except.ok.inj hok]
      exact Calm.effect ⟨rfl, rfl, rfl, rfl, rfl⟩
    · simp only [hk]
      exact effect_onNasdaqOuchAwaited (fun om slot => calm_setOwn om slot _ _) hawaited
  | rejected m =>
    simp only [erasedKeyNasdaqOuch, erasedByOwnId]
    obtain ⟨hawait, rfl⟩ | ⟨slot, hawait, rfl⟩ := ouchRejected_cases h
    · simp only [hawait]
      exact .refl _
    · simp only [hawait]
      refine (effect_fillOuchRejected (known_of_awaiting hawait) ?_ m.timestamp).calm
        ⟨rfl, rfl, rfl, rfl, rfl⟩
      exact Effect.erase (.refl om) _
  | cancelled m => exact effect_onNasdaqOuchRef (fun _ _ => hcalm _ _ _) h
  | executed m => exact effect_onNasdaqOuchRef (fun _ _ => hcalm _ _ _) h
  | modified m => exact effect_onNasdaqOuchRef (fun _ _ => hcalm _ _ _) h
  | brokenTrade m => exact effect_onNasdaqOuchRef (fun om _ => hsame om) h
  | cancelPending m => exact effect_onNasdaqOuchRef (fun om _ => hsame om) h
  | cancelReject m => exact effect_onNasdaqOuchRef (fun om _ => hsame om) h
  | systemEvent =>
    rw [← Except.ok.inj h]
    exact Calm.effect ⟨rfl, rfl, rfl, rfl, rfl⟩
  | accountQueryResponse =>
    rw [← Except.ok.inj h]
    exact Calm.effect ⟨rfl, rfl, rfl, rfl, rfl⟩

/-- A market handler changes nothing that matters to own orders. -/
theorem effect_onMarket {f : OrderManager → Except Fault OrderManager}
    (hf : ∀ market, f om.toOrderManager = .ok market → om.toOrderManager.OwnFrame market)
    (h : om.onMarket f = .ok om') : Effect none om om' := by
  obtain ⟨market, hmarket, rfl⟩ := map_eq_ok_iff.mp h
  have hframe := hf market hmarket
  refine ⟨hframe.awaiting, fun _ slot hk => ?_⟩
  rcases hk with hm | hfree | ⟨k, hk⟩ | ho | ht
  · exact .inl (hframe.market slot hm)
  · rcases hframe.free slot hfree with hold | hm
    · exact .inr (.inl hold)
    · exact .inl hm
  · refine .inr (.inr (.inl ⟨k, ?_⟩))
    rw [← hframe.awaiting]
    exact hk
  · exact .inr (.inr (.inr (.inl ho)))
  · exact .inr (.inr (.inr (.inr ht)))

/-- **What a message changes about own orders.**  It erases the awaited order
`erasedKey` names, and no slot becomes known that was not, unless the sweep
runs. -/
theorem update_effect {msg : StoreMessage} (h : update hash om msg = .ok om') :
    Effect (erasedKey hash om msg) om om' := by
  cases msg with
  | fix m => exact effect_updateOrderFix h
  | fixSession m =>
    rw [← Except.ok.inj h]
    exact Calm.effect ⟨rfl, rfl, rfl, rfl, rfl⟩
  | bistItch m =>
    rw [update] at h
    exact effect_onMarket (fun _ => OrderManager.ownFrame_updateOrderBist) h
  | nasdaqItch m =>
    rw [update] at h
    exact effect_onMarket (fun _ => OrderManager.ownFrame_updateOrderNasdaq) h
  | bistOuch m => exact effect_updateOrderBistOuch h
  | nasdaqOuch m => exact effect_updateOrderNasdaqOuch h

end OwnManager

end TradingEngine
