/-
What the BIST messages leave alone.

No BIST message writes the reference numbers of NASDAQ, the histories of own
orders or the symbol tables (`bistFrame_updateOrderBist`).  The messages that
name no order leave orders, store and book as they are
(`Bist.sameMarket_housekeeping`), except that a flush empties the two trees of
its symbol and cancels the own orders of that symbol (`Bist.flush_spec`).
-/
import TradingEngine.DepthRuns
import TradingEngine.MarketStore

namespace TradingEngine

open FallibleRun OrderManager

/-! ### What no BIST message writes -/

/-- The parts of the order manager that no BIST message writes. -/
structure BistFrame (om om' : OrderManager) : Prop where
  refnums : om'.nqItchRefnumOrdkey = om.nqItchRefnumOrdkey
  histories : om'.ourOrdersAllVenue = om.ourOrdersAllVenue
  hashtables : om'.hashtables = om.hashtables

theorem BistFrame.refl (om : OrderManager) : BistFrame om om := ⟨rfl, rfl, rfl⟩

theorem BistFrame.trans {om₁ om₂ om₃ : OrderManager} (h : BistFrame om₁ om₂)
    (h' : BistFrame om₂ om₃) : BistFrame om₁ om₃ :=
  ⟨h'.1.trans h.1, h'.2.trans h.2, h'.3.trans h.3⟩

theorem bistFrame_onBook {om om' : OrderManager} {slot : OrderSlot}
    {f : MarketBook → Order → Except Fault MarketBook} (h : om.onBook slot f = .ok om') :
    BistFrame om om' := by
  obtain ⟨mb, -, hmb⟩ := bind_eq_ok_iff.mp h
  rw [Except.ok.injEq] at hmb
  rw [← hmb]
  exact ⟨rfl, rfl, rfl⟩

theorem bistFrame_fillWithSymbol (om : OrderManager) (v : VenueIndex) (slot : OrderSlot)
    (order : Order) (finish : Order → Order) :
    BistFrame om (om.fillWithSymbol v slot order finish) := by
  unfold OrderManager.fillWithSymbol
  split <;> exact ⟨rfl, rfl, rfl⟩

theorem bistFrame_onExisting {om om' : OrderManager} {slot : OrderSlot} {msg : DbData}
    {process : OrderManager → Except Fault OrderManager}
    (hp : ∀ om₁, process om = .ok om₁ → BistFrame om om₁)
    (h : om.onExisting slot msg process = .ok om') : BistFrame om om' := by
  unfold OrderManager.onExisting at h
  split at h
  · rw [Except.ok.injEq] at h
    rw [← h]
    exact ⟨rfl, rfl, rfl⟩
  · obtain ⟨om₁, h₁, h₂⟩ := bind_eq_ok_iff.mp h
    rw [Except.ok.injEq] at h₂
    rw [← h₂]
    exact (hp om₁ h₁).trans ⟨rfl, rfl, rfl⟩

theorem bistFrame_onBistOrder {om om' : OrderManager} {k : OrderKey} {msg : Bist.ItchMessage}
    {process : OrderSlot → OrderManager → Except Fault OrderManager}
    (hp : ∀ slot om₁, process slot om = .ok om₁ → BistFrame om om₁)
    (h : om.onBistOrder k msg process = .ok om') : BistFrame om om' := by
  unfold OrderManager.onBistOrder at h
  split at h
  · rw [Except.ok.injEq] at h
    rw [← h]
    exact .refl om
  · exact bistFrame_onExisting (hp _) h

theorem bistFrame_fillThenBook {om om' : OrderManager} {slot : OrderSlot} {fill : Order → Order}
    {f : MarketBook → Order → Except Fault MarketBook}
    (h : fillThenBook fill f slot om = .ok om') : BistFrame om om' := by
  have hset : BistFrame om (om.setOrder slot (fill (om.orderPool slot))) := ⟨rfl, rfl, rfl⟩
  exact hset.trans (bistFrame_onBook h)

theorem bistFrame_addBist {om om' : OrderManager} {msg : Bist.AddOrder} {slot : OrderSlot}
    (h : addBist msg slot om = .ok om') : BistFrame om om' :=
  (bistFrame_fillWithSymbol om 0 slot _ _).trans (bistFrame_onBook h)

theorem bistFrame_updateBistAdd {om om' : OrderManager} {msg : Bist.AddOrder}
    (h : om.updateBistAdd msg = .ok om') : BistFrame om om' := by
  unfold OrderManager.updateBistAdd at h
  simp only at h
  split at h
  · exact bistFrame_onExisting (fun _ => bistFrame_addBist) h
  · split at h
    · rw [Except.ok.injEq] at h
      rw [← h]
      exact .refl om
    · obtain ⟨om₁, h₁, h₂⟩ := bind_eq_ok_iff.mp h
      rw [Except.ok.injEq] at h₂
      rw [← h₂]
      have hadd : BistFrame om (om.addMarketOrder
          (bistKey msg.orderId msg.orderBookId msg.side)).2 := ⟨rfl, rfl, rfl⟩
      exact (hadd.trans (bistFrame_addBist h₁)).trans ⟨rfl, rfl, rfl⟩

/-! ### The flush -/

/-- What cancelling own orders leaves alone: everything but the status, the
cancel count and the remaining quantity of the orders, and orders whose slot is
not in `slots`. -/
structure FlushFrame (slots : Set OrderSlot) (om om' : OrderManager) : Prop where
  store : Nasdaq.SameStore om om'
  book : om'.marketbook = om.marketbook
  frame : BistFrame om om'
  identity : ∀ slot, SameIdentity (om.orderPool slot) (om'.orderPool slot)
  others : ∀ slot ∉ slots, om'.orderPool slot = om.orderPool slot

variable {slots : Set OrderSlot}

theorem FlushFrame.refl (om : OrderManager) : FlushFrame slots om om :=
  ⟨⟨rfl, rfl, rfl, rfl, rfl⟩, rfl, .refl om, fun _ => ⟨rfl, rfl, rfl, rfl⟩, fun _ _ => rfl⟩

theorem FlushFrame.trans {om₁ om₂ om₃ : OrderManager} (h : FlushFrame slots om₁ om₂)
    (h' : FlushFrame slots om₂ om₃) : FlushFrame slots om₁ om₃ := by
  refine ⟨h.store.trans h'.store, h'.book.trans h.book, h.frame.trans h'.frame, fun slot => ?_,
    fun slot hslot => (h'.others slot hslot).trans (h.others slot hslot)⟩
  have h₁ := h.identity slot
  have h₂ := h'.identity slot
  exact ⟨h₂.1.trans h₁.1, h₂.2.trans h₁.2, h₂.3.trans h₁.3, h₂.4.trans h₁.4⟩

theorem flushFrame_flushOrder (om : OrderManager) {slot : OrderSlot} (hslot : slot ∈ slots) :
    FlushFrame slots om (om.flushOrder slot) := by
  have hwrite : ∀ (status : Status) (count : UInt8) (remaining : UInt32) (t : OrderSlot),
      SameIdentity (om.orderPool t) (Function.update om.orderPool slot
        { om.orderPool slot with
          status := status, cancelledCount := count, remainingQuantity := remaining } t) := by
    intro status count remaining t
    by_cases ht : t = slot
    · rw [ht, Function.update_self]
      exact ⟨rfl, rfl, rfl, rfl⟩
    · rw [Function.update_of_ne ht]
      exact ⟨rfl, rfl, rfl, rfl⟩
  have hothers : ∀ (order : Order) (t : OrderSlot), t ∉ slots →
      Function.update om.orderPool slot order t = om.orderPool t := by
    intro order t ht
    have hne : t ≠ slot := fun heq => ht (by rwa [heq])
    rw [Function.update_of_ne hne]
  unfold OrderManager.flushOrder
  simp only
  split
  · exact ⟨⟨rfl, rfl, rfl, rfl, rfl⟩, rfl, ⟨rfl, rfl, rfl⟩, hwrite _ _ _, hothers _⟩
  · split
    · exact ⟨⟨rfl, rfl, rfl, rfl, rfl⟩, rfl, ⟨rfl, rfl, rfl⟩, hwrite _ _ _, hothers _⟩
    · exact .refl om

/-- The slots of the own orders of a venue. -/
def ownSlots (om : OrderManager) (v : VenueIndex) : Set OrderSlot :=
  {slot | ∃ history ∈ om.ourOrdersAllVenue v, ∃ i, history.orders i = some slot}

/-- The loop over the own orders of a symbol. -/
theorem flushFrame_foldl (history : OrderHistory)
    (hslots : ∀ i slot, history.orders i = some slot → slot ∈ slots) (places : List (Fin 64))
    (om : OrderManager) :
    FlushFrame slots om (places.foldl
      (fun om i => match history.orders i with
        | none => om
        | some slot => om.flushOrder slot) om) := by
  induction places generalizing om with
  | nil => exact .refl om
  | cons i places ih =>
    rw [List.foldl_cons]
    refine FlushFrame.trans ?_ (ih _)
    split
    · exact .refl om
    · exact flushFrame_flushOrder om (hslots i _ ‹_›)

theorem flushFrame_handleFlushStatus {om om' : OrderManager} {v : VenueIndex} {index : UInt32}
    (h : om.handleFlushStatus v index = .ok om') : FlushFrame (ownSlots om v) om om' := by
  unfold OrderManager.handleFlushStatus at h
  split at h
  · exact absurd h (by simp)
  · rename_i history hhistory
    rw [Except.ok.injEq] at h
    rw [← h]
    refine flushFrame_foldl history (fun i slot hslot => ?_) (List.finRange 64) om
    exact ⟨history, List.mem_of_getElem? hhistory, i, hslot⟩

/-- The store stays sound when no map, no counter and no identity changes. -/
theorem StoreRun.storeSound_identity {s : StoreRun} (hs : StoreSound s) {om : OrderManager}
    (hstore : Nasdaq.SameStore s.manager om)
    (hid : ∀ slot, SameIdentity (s.manager.orderPool slot) (om.orderPool slot)) :
    StoreSound ⟨om, s.filled⟩ := by
  refine ⟨?_, ?_, ?_, ?_⟩
  · show om.marketNextSlot ≤ 32768
    rw [hstore.next]
    exact hs.next
  · intro slot
    show slot ∈ s.filled ↔
      slot.val < om.marketNextSlot ∨ (om.marketMapFull ∧ slot.val < 32768)
    rw [hstore.next, hstore.full]
    exact hs.filled slot
  · show Indexes om.marketOrders s.filled fun slot => (om.orderPool slot).key
    rw [hstore.marketOrders]
    exact hs.index.congr fun slot _ => (hid slot).key
  · intro slot hslot
    exact (hid slot).bookable (hs.bookable slot hslot)

namespace Bist

/-- **The flush.**  The trees of the symbol are emptied and own orders are
cancelled; nothing else changes. -/
theorem flush_spec {om om' : OrderManager} {m : OrderBookFlush}
    (h : om.updateOrderBist (.orderBookFlush m) = .ok om') :
    ∃ sym i, om.getSymbolmeta 0 m.orderBookId = some sym ∧
      symbolSlot (om.hashtables.getIndex 0 sym.symbol) = .ok i ∧
      ∃ om₁, FlushFrame (ownSlots om 0)
          (om.setBook (om.marketbook.setSymBook 0 i (om.marketbook.symbolbooks 0 i).flush)) om₁ ∧
        om' = om₁.pushDb (.bistItch (.orderBookFlush m)) := by
  obtain ⟨om₁, h₁, h₂⟩ := bind_eq_ok_iff.mp h
  rw [Except.ok.injEq] at h₂
  unfold OrderManager.updateBistFlush at h₁
  split at h₁
  · exact absurd h₁ (by simp)
  · rename_i sym hsym
    obtain ⟨mb, hmb, hflush⟩ := bind_eq_ok_iff.mp h₁
    obtain ⟨i, hi, hset⟩ := bind_eq_ok_iff.mp hmb
    rw [Except.ok.injEq] at hset
    rw [← hset] at hflush
    exact ⟨sym, i, hsym, hi, om₁, flushFrame_handleFlushStatus hflush, h₂.symm⟩

/-! ### The messages that name no order -/

/-- The messages that change the directory, the tick sizes, the halt flags or
nothing. -/
def Housekeeping : ItchMessage → Prop
  | .addOrder _ | .orderExecuted _ | .orderExecutedWithPrice _ | .orderDelete _ | .trade _
  | .orderBookFlush _ => False
  | _ => True

theorem sameMarket_enterTickSize (om : OrderManager) (orderBookId : UInt32) (m : SymbolMeta)
    (new : TickSlot) (entry : TickSizeEntry) (places : List (Fin 5)) :
    Nasdaq.SameMarket om (om.enterTickSizeBist orderBookId m new entry places) ∧
      BistFrame om (om.enterTickSizeBist orderBookId m new entry places) := by
  induction places with
  | nil => exact ⟨⟨⟨rfl, rfl, rfl, rfl, rfl⟩, rfl, rfl⟩, ⟨rfl, rfl, rfl⟩⟩
  | cons i places ih =>
    unfold OrderManager.enterTickSizeBist
    split
    · exact ⟨⟨⟨rfl, rfl, rfl, rfl, rfl⟩, rfl, rfl⟩, ⟨rfl, rfl, rfl⟩⟩
    · split
      · exact ⟨⟨⟨rfl, rfl, rfl, rfl, rfl⟩, rfl, rfl⟩, ⟨rfl, rfl, rfl⟩⟩
      · exact ih

theorem sameMarket_tickSize {om om' : OrderManager} {m : TickSizeTableEntry}
    (h : om.handleTickSizeDefinitionBist m = .ok om') :
    Nasdaq.SameMarket om om' ∧ BistFrame om om' := by
  unfold OrderManager.handleTickSizeDefinitionBist at h
  split at h
  · exact absurd h (by simp)
  · rw [Except.ok.injEq] at h
    rw [← h]
    obtain ⟨hsame, hframe⟩ := sameMarket_enterTickSize _ _ _ _ _ _
    exact ⟨⟨⟨hsame.store.1, hsame.store.2, hsame.store.3, hsame.store.4, hsame.store.5⟩, hsame.2,
      hsame.3⟩, ⟨hframe.1, hframe.2, hframe.3⟩⟩

theorem sameMarket_housekeeping {om om' : OrderManager} {msg : ItchMessage}
    (hm : Housekeeping msg) (h : om.updateOrderBist msg = .ok om') :
    Nasdaq.SameMarket om om' ∧ BistFrame om om' := by
  have hsame : ∀ {om₁ : OrderManager}, om₁ = om' → Nasdaq.SameMarket om om₁ ∧ BistFrame om om₁ →
      Nasdaq.SameMarket om om' ∧ BistFrame om om' := fun heq hframe => heq ▸ hframe
  cases msg with
  | addOrder m => exact absurd hm (by simp [Housekeeping])
  | orderExecuted m => exact absurd hm (by simp [Housekeeping])
  | orderExecutedWithPrice m => exact absurd hm (by simp [Housekeeping])
  | orderDelete m => exact absurd hm (by simp [Housekeeping])
  | trade m => exact absurd hm (by simp [Housekeeping])
  | orderBookFlush m => exact absurd hm (by simp [Housekeeping])
  | tickSizeTableEntry m =>
    obtain ⟨om₁, h₁, h₂⟩ := bind_eq_ok_iff.mp h
    rw [Except.ok.injEq] at h₂
    obtain ⟨htick, hframe⟩ := sameMarket_tickSize h₁
    exact hsame h₂ ⟨⟨⟨htick.store.1, htick.store.2, htick.store.3, htick.store.4, htick.store.5⟩,
      htick.2, htick.3⟩, ⟨hframe.1, hframe.2, hframe.3⟩⟩
  | orderBookState m =>
    obtain ⟨om₁, h₁, h₂⟩ := bind_eq_ok_iff.mp h
    rw [Except.ok.injEq] at h₂
    unfold OrderManager.updateSymbolHaltStatus at h₁
    split at h₁
    · exact absurd h₁ (by simp)
    · rw [Except.ok.injEq] at h₁
      refine hsame h₂ ?_
      rw [← h₁]
      exact ⟨⟨⟨rfl, rfl, rfl, rfl, rfl⟩, rfl, rfl⟩, ⟨rfl, rfl, rfl⟩⟩
  | _ => exact hsame (Except.ok.inj h) ⟨⟨⟨rfl, rfl, rfl, rfl, rfl⟩, rfl, rfl⟩, ⟨rfl, rfl, rfl⟩⟩

end Bist

/-- **No BIST message writes the reference numbers of NASDAQ, the histories of
own orders or the symbol tables.** -/
theorem bistFrame_updateOrderBist {om om' : OrderManager} {msg : Bist.ItchMessage}
    (h : om.updateOrderBist msg = .ok om') : BistFrame om om' := by
  cases msg with
  | addOrder m => exact bistFrame_updateBistAdd h
  | orderExecuted m => exact bistFrame_onBistOrder (fun _ _ => bistFrame_fillThenBook) h
  | orderExecutedWithPrice m => exact bistFrame_onBistOrder (fun _ _ => bistFrame_fillThenBook) h
  | orderDelete m => exact bistFrame_onBistOrder (fun _ _ => bistFrame_fillThenBook) h
  | trade m =>
    refine bistFrame_onBistOrder (fun slot om₁ h₁ => ?_) h
    rw [Except.ok.injEq] at h₁
    rw [← h₁]
    unfold FillerItchBist.fillItchTrade
    simp only
    split
    · exact .refl om
    · have htrade : BistFrame om { om with bistTradeId := om.bistTradeId + 1 } := ⟨rfl, rfl, rfl⟩
      exact htrade.trans (bistFrame_fillWithSymbol _ 0 slot _ _)
  | orderBookFlush m =>
    obtain ⟨_, i, -, -, om₁, hflush, heq⟩ := Bist.flush_spec h
    have hbook : BistFrame om (om.setBook
        (om.marketbook.setSymBook 0 i (om.marketbook.symbolbooks 0 i).flush)) := ⟨rfl, rfl, rfl⟩
    rw [heq]
    exact (hbook.trans hflush.frame).trans ⟨rfl, rfl, rfl⟩
  | _ => exact (Bist.sameMarket_housekeeping (by simp [Bist.Housekeeping]) h).2

end TradingEngine
