/-
The symbol index of market orders (`order_management/fillers/FillerITCH_BIST.cpp`,
`FillerITCH_NASDAQ.cpp`, `core/HashTables.h`).

`update_symbol_risk` indexes `symbolrisks_` with the `symbol_index` of every order that
the store pushes to `store_to_risk_`, and dereferences the book `get_symBook` gives for
it, without a test.  The index is written by the fillers that look a symbol up: a symbol
that is not in the configured table gives `UINT32_MAX`, an instrument that is not in the
directory leaves the fields of the slot as they were, and both orders are published.

* `Resolved` — the index is that of the symbol, and below the size of the tables;
* `symbolWrite`, `Fillable` — what a message looks up, and when the lookup resolves it;
* `spec_updateOrderBist`, `spec_updateOrderNasdaq` — a message that looks nothing up leaves
  every order resolved that was; one that does publishes an order that is resolved iff the
  lookup is fillable.
-/
import TradingEngine.OwnFrame
import TradingEngine.PointedPool
import TradingEngine.RiskUpdate

namespace TradingEngine

open FallibleRun

/-! ### Resolved orders -/

/-- The order carries the index that the tables of its venue give its symbol, and it is
one of the tables of risk. -/
structure Resolved (ht : HashTables) (order : Order) : Prop where
  belongs : ∃ v, order.venue.index = .ok v ∧ ht.getIndex v order.symbol = order.symbolIndex
  lt : order.symbolIndex.toNat < 512

/-- The fields that decide it. -/
structure SameSymbol (order order' : Order) : Prop where
  symbol : order'.symbol = order.symbol
  symbolIndex : order'.symbolIndex = order.symbolIndex
  venue : order'.venue = order.venue

/-- The accesses of `update_symbol_risk` are in bounds, and the order has a book. -/
def ReadsTables (order : Order) : Prop :=
  ∃ v i, order.venue.index = .ok v ∧ symbolSlot order.symbolIndex = .ok i ∧
    MarketBook.getSymBook order = .ok (some (v, i))

variable {ht : HashTables} {order order' : Order}

theorem SameSymbol.resolved_iff (h : SameSymbol order order') :
    Resolved ht order' ↔ Resolved ht order := by
  have hiff : ∀ {a b : Order}, SameSymbol a b → Resolved ht a → Resolved ht b := by
    rintro a b ⟨hsymbol, hindex, hvenue⟩ ⟨hbelongs, hlt⟩
    refine ⟨?_, ?_⟩
    · rw [hvenue, hsymbol, hindex]
      exact hbelongs
    · rw [hindex]
      exact hlt
  exact ⟨hiff ⟨h.symbol.symm, h.symbolIndex.symm, h.venue.symm⟩, hiff h⟩

theorem Resolved.readsTables (h : Resolved ht order) : ReadsTables order := by
  obtain ⟨⟨v, hv, -⟩, hlt⟩ := h
  have hslot : symbolSlot order.symbolIndex = .ok ⟨order.symbolIndex.toNat, hlt⟩ := dif_pos hlt
  refine ⟨v, _, hv, hslot, ?_⟩
  -- the index that `getIndex` gives an unknown symbol is above the bound
  have hmax : order.symbolIndex ≠ uint32Max := by
    intro heq
    rw [heq] at hlt
    exact absurd hlt (by decide)
  simp only [MarketBook.getSymBook, if_neg hmax, hv, hslot, Bind.bind, Except.bind]

/-! ### What a message looks up -/

/-- A message that makes a filler look a symbol up: the venue, the instrument, and the
order as it is left when the directory does not know the instrument. -/
structure SymbolWrite where
  venue : VenueIndex
  instrumentId : UInt32
  left : Order

namespace OrderManager

variable {om om' om₀ om₁ : OrderManager} {slot : OrderSlot} {v : VenueIndex}

/-- The lookup ends in a resolved order: the symbol of the instrument is configured, or
the instrument is unknown and the order it is about was resolved before. -/
def Fillable (om : OrderManager) (w : SymbolWrite) : Prop :=
  match om.getSymbolmeta w.venue w.instrumentId with
  | some m => (om.hashtables.getIndex w.venue m.symbol).toNat < 512
  | none => Resolved om.hashtables w.left

/-- An order that is found and may be modified. -/
def modifiable (om : OrderManager) (o : Option OrderSlot) : Option OrderSlot :=
  o.filter fun slot => (om.orderPool slot).canModify ≠ 0

/-- The slot an add of BIST fills: that of the order it finds, or else the next one
unless the add looks like an own order. -/
def bistAddSlot (om : OrderManager) (m : Bist.AddOrder) : Option OrderSlot :=
  match om.getOrderFromMarketMap (bistKey m.orderId m.orderBookId m.side) with
  | some slot => om.modifiable (some slot)
  | none =>
    if om.awaitingAckOrders ≠ ∅ ∧ om.isMatchedPendingOrderBist m then none
    else some om.marketOrderSlot

def nasdaqAddSlot (om : OrderManager) (m : Nasdaq.AddOrder) : Option OrderSlot :=
  if om.awaitingAckOrders ≠ ∅ ∧ om.isMatchedPendingOrderNasdaq m then none
  else some om.marketOrderSlot

/-- The slot of a trade: own orders are left alone. -/
def tradeSlot (om : OrderManager) (o : Option OrderSlot) : Option OrderSlot :=
  (om.modifiable o).filter fun slot => !(om.orderPool slot).isOurOrder

def symbolWriteBist (om : OrderManager) : Bist.ItchMessage → Option SymbolWrite
  | .addOrder m => (om.bistAddSlot m).map fun slot => ⟨0, m.orderBookId, om.orderPool slot⟩
  | .trade m =>
    (om.tradeSlot (om.getOrderFromMarketMap
      (bistKey m.orderId.toUInt64 m.orderBookId m.side))).map fun slot =>
        ⟨0, m.orderBookId, om.orderPool slot⟩
  | _ => none

def symbolWriteNasdaq (om : OrderManager) : Nasdaq.ItchMessage → Option SymbolWrite
  | .addOrder m =>
    (om.nasdaqAddSlot m).map fun slot => ⟨1, m.stockLocate.toUInt32, om.orderPool slot⟩
  | .addOrderMpid m =>
    -- the symbol of the message is written before the lookup
    (om.nasdaqAddSlot m).map fun slot =>
      ⟨1, m.stockLocate.toUInt32, { om.orderPool slot with symbol := trimSymbol m.stock }⟩
  | .replace m =>
    (om.modifiable (om.nasdaqSlot m.orderRef)).map fun slot =>
      ⟨1, m.stockLocate.toUInt32, om.orderPool slot⟩
  | .trade m =>
    (om.tradeSlot (om.nasdaqSlot m.orderRef)).map fun slot =>
      ⟨1, m.stockLocate.toUInt32, om.orderPool slot⟩
  | _ => none

/-! ### What the store points to -/

/-- The slots the maps and histories of the store lead to, and those in the queue to
risk. -/
def pointed (om : OrderManager) : Set OrderSlot :=
  {slot | (∃ k, om.marketOrders.lookup k = some slot) ∨
    (∃ k, om.awaitingAckOrders.lookup k = some slot) ∨
    (∃ v, ∃ history ∈ om.ourOrdersAllVenue v, ∃ i, history.orders i = some slot) ∨
    slot ∈ om.storeToRisk.items}

def pool (om : OrderManager) : PointedPool OrderSlot Order := ⟨om.orderPool, om.pointed⟩

/-- The tables stay, and every order pointed to is resolved if it was. -/
structure KeepsSymbols (om om' : OrderManager) : Prop where
  tables : om'.hashtables = om.hashtables
  pool : PointedPool.Keeps (Resolved om.hashtables) om.pool om'.pool

theorem KeepsSymbols.refl (om : OrderManager) : KeepsSymbols om om := ⟨rfl, .refl _⟩

theorem KeepsSymbols.trans {om₂ : OrderManager} (h : KeepsSymbols om om₁)
    (h' : KeepsSymbols om₁ om₂) : KeepsSymbols om om₂ := by
  refine ⟨h'.tables.trans h.tables, h.pool.trans ?_⟩
  have hpool := h'.pool
  rwa [h.tables] at hpool

/-- A write to what nothing here depends on. -/
theorem KeepsSymbols.same (h : KeepsSymbols om om₁) (htables : om'.hashtables = om₁.hashtables)
    (hpool : om'.pool = om₁.pool) : KeepsSymbols om om' := by
  refine ⟨htables.trans h.tables, ?_⟩
  rw [hpool]
  exact h.pool

theorem KeepsSymbols.setOrder (h : KeepsSymbols om om₁) (slot : OrderSlot) {order : Order}
    (ho : SameSymbol (om₁.orderPool slot) order) : KeepsSymbols om (om₁.setOrder slot order) :=
  ⟨h.tables, h.pool.write slot ho.resolved_iff.mpr⟩

theorem mem_pointed_publish {t : OrderSlot} (ht : t ∈ (om.publish slot).pointed) :
    t ∈ om.pointed ∨ t = slot := by
  rcases ht with hmarket | hawait | hhist | hqueue
  · exact .inl (.inl hmarket)
  · exact .inl (.inr (.inl hawait))
  · exact .inl (.inr (.inr (.inl hhist)))
  · exact (mem_of_mem_push hqueue).imp_left fun hold => .inr (.inr (.inr hold))

theorem KeepsSymbols.publish (h : KeepsSymbols om om₁) (hslot : slot ∈ om.pointed) :
    KeepsSymbols om (om₁.publish slot) :=
  ⟨h.tables, h.pool.point hslot rfl fun _ => mem_pointed_publish⟩

theorem KeepsSymbols.onBook {f : MarketBook → Order → Except Fault MarketBook}
    (h : KeepsSymbols om om₁) (hf : om₁.onBook slot f = .ok om') : KeepsSymbols om om' := by
  obtain ⟨mb, -, hmb⟩ := bind_eq_ok_iff.mp hf
  rw [Except.ok.injEq] at hmb
  rw [← hmb]
  exact h.same rfl rfl

/-! ### The lookup of a filler -/

/-- What a filler writes after the lookup: not the symbol, and the venue it looked in. -/
structure Finishes (v : VenueIndex) (finish : Order → Order) : Prop where
  symbol : ∀ order, (finish order).symbol = order.symbol
  symbolIndex : ∀ order, (finish order).symbolIndex = order.symbolIndex
  venue : ∀ order, (finish order).venue.index = .ok v

/-- **When a lookup ends in a resolved order.** -/
theorem resolved_fillWithSymbol {order left : Order} {finish : Order → Order}
    (hfinish : Finishes v finish) (hleft : SameSymbol left order) :
    Resolved om.hashtables ((om.fillWithSymbol v slot order finish).orderPool slot) ↔
      om.Fillable ⟨v, order.instrumentId, left⟩ := by
  unfold fillWithSymbol Fillable
  simp only
  cases hmeta : om.getSymbolmeta v order.instrumentId with
  | none =>
    have hpool : ((om.setOrder slot order).releaseOrder slot).orderPool slot = order :=
      Function.update_self _ _ _
    simp only [hpool]
    exact hleft.resolved_iff
  | some m =>
    simp only [setOrder, Function.update_self]
    refine ⟨fun h => ?_, fun h => ⟨⟨v, hfinish.venue _, ?_⟩, ?_⟩⟩
    · have hlt := h.lt
      rwa [hfinish.symbolIndex] at hlt
    · rw [hfinish.symbol, hfinish.symbolIndex]
    · rw [hfinish.symbolIndex]
      exact h

/-- Nothing but one slot is written, and its key may go. -/
theorem fillWithSymbol_frame {order : Order} {finish : Order → Order}
    (h : om' = om.fillWithSymbol v slot order finish) :
    om'.hashtables = om.hashtables ∧ om'.storeToRisk = om.storeToRisk ∧
      (∀ t, t ≠ slot → om'.orderPool t = om.orderPool t) ∧ om'.pointed ⊆ om.pointed := by
  subst h
  unfold fillWithSymbol
  split
  · exact ⟨rfl, rfl, fun t ht => Function.update_of_ne ht _ _, subset_rfl⟩
  · refine ⟨rfl, rfl, fun t ht => Function.update_of_ne ht _ _, ?_⟩
    rintro t (⟨k, hk⟩ | hrest)
    · exact .inl ⟨k, HashMap.lookup_of_lookup_erase hk⟩
    · exact .inr hrest

/-- What a message does to the symbols: one that looks nothing up keeps them; one that
looks a symbol up publishes an order that is resolved iff the lookup is fillable, and then
keeps them too. -/
def Spec (om om' : OrderManager) : Option SymbolWrite → Prop
  | none => KeepsSymbols om om'
  | some w => om'.hashtables = om.hashtables ∧ ∃ slot ∈ om'.storeToRisk.items,
      (Resolved om.hashtables (om'.orderPool slot) ↔ om.Fillable w) ∧
        (om.Fillable w → KeepsSymbols om om')

/-- The order that is published after a lookup. -/
theorem spec_filled {om₂ : OrderManager} {order left : Order} {instrumentId : UInt32}
    {finish : Order → Order} {d : DbData}
    (hsame : om₂.hashtables = om₁.hashtables ∧ om₂.storeToRisk = om₁.storeToRisk ∧
      om₂.pool = om₁.pool)
    (hfill : om₁ = om₀.fillWithSymbol v slot order finish) (hfinish : Finishes v finish)
    (hleft : SameSymbol left order) (hinstrument : order.instrumentId = instrumentId)
    (htables : om₀.hashtables = om.hashtables) (hcache : om₀.instrumentCache = om.instrumentCache)
    (hcells : om₀.orderPool = om.orderPool) (hqueue : om₀.storeToRisk.items = [])
    (hpointed : ∀ t ∈ om₀.pointed, t ∈ om.pointed ∨ t = slot) :
    Spec om ((om₂.publish slot).pushDb d) (some ⟨v, instrumentId, left⟩) := by
  subst hinstrument
  obtain ⟨htables₁, hqueue₁, hother, hsub⟩ := fillWithSymbol_frame hfill
  obtain ⟨htables₂, hqueue₂, hpool₂⟩ := hsame
  have hcells₂ : om₂.orderPool = om₁.orderPool := congrArg PointedPool.cells hpool₂
  have hpointed₂ : om₂.pointed = om₁.pointed := congrArg PointedPool.pointed hpool₂
  have hresolved : Resolved om.hashtables (om₂.orderPool slot) ↔
      om.Fillable ⟨v, order.instrumentId, left⟩ := by
    have hiff : Resolved om₀.hashtables ((om₀.fillWithSymbol v slot order finish).orderPool slot) ↔
        om₀.Fillable ⟨v, order.instrumentId, left⟩ := resolved_fillWithSymbol hfinish hleft
    rw [← hfill, htables] at hiff
    rw [hcells₂, hiff]
    simp only [Fillable, getSymbolmeta, hcache, htables]
  -- the queue was empty, so nothing but this order is pushed
  have hpush : (om₂.storeToRisk.push slot).items = [slot] := by
    rw [BoundedQueue.items_push (by rw [hqueue₂, hqueue₁, hqueue]; decide), hqueue₂, hqueue₁,
      hqueue, List.nil_append]
  have htables' : om₂.hashtables = om.hashtables := htables₂.trans (htables₁.trans htables)
  refine ⟨htables', slot, ?_, hresolved, fun hw => ⟨htables', ?_⟩⟩
  · show slot ∈ (om₂.storeToRisk.push slot).items
    rw [hpush]
    exact List.mem_singleton_self slot
  · refine PointedPool.keeps_of_good slot (fun t ht => ?_) (fun t ht => ?_) (hresolved.mpr hw)
    · show om₂.orderPool t = om.orderPool t
      rw [hcells₂, hother t ht, hcells]
    · have hmem : t ∈ om₂.pointed ∨ t = slot := mem_pointed_publish ht
      rcases hmem with hold | rfl
      · rw [hpointed₂] at hold
        exact hpointed t (hsub hold)
      · exact .inr rfl

/-! ### ITCH: the messages that look nothing up -/

/-- A filler of an existing order: the symbol stays. -/
theorem KeepsSymbols.fillThenBook {fill : Order → Order}
    {f : MarketBook → Order → Except Fault MarketBook} (h : KeepsSymbols om om₁)
    (hfill : ∀ order, SameSymbol order (fill order))
    (hf : OrderManager.fillThenBook fill f slot om₁ = .ok om') : KeepsSymbols om om' :=
  (h.setOrder slot (hfill _)).onBook hf

theorem keepsSymbols_onExisting {msg : DbData} {process : OrderManager → Except Fault OrderManager}
    (hslot : slot ∈ om.pointed) (hp : ∀ om₁, process om = .ok om₁ → KeepsSymbols om om₁)
    (h : om.onExisting slot msg process = .ok om') : KeepsSymbols om om' := by
  unfold onExisting at h
  split at h
  · rw [Except.ok.injEq] at h
    rw [← h]
    exact (KeepsSymbols.refl om).same rfl rfl
  · obtain ⟨om₁, h₁, h₂⟩ := bind_eq_ok_iff.mp h
    rw [Except.ok.injEq] at h₂
    rw [← h₂]
    exact ((hp om₁ h₁).publish hslot).same rfl rfl

theorem pointed_of_market {k : OrderKey} (h : om.getOrderFromMarketMap k = some slot) :
    slot ∈ om.pointed := .inl ⟨k, h⟩

theorem pointed_of_nasdaq {ref : UInt64} (h : om.nasdaqSlot ref = some slot) :
    slot ∈ om.pointed := by
  unfold nasdaqSlot at h
  split at h
  · cases h
  · exact pointed_of_market h

theorem keepsSymbols_onBistOrder {k : OrderKey} {msg : Bist.ItchMessage}
    {process : OrderSlot → OrderManager → Except Fault OrderManager}
    (hp : ∀ slot om₁, process slot om = .ok om₁ → KeepsSymbols om om₁)
    (h : om.onBistOrder k msg process = .ok om') : KeepsSymbols om om' := by
  unfold onBistOrder at h
  split at h
  · rw [Except.ok.injEq] at h
    rw [← h]
    exact .refl om
  · rename_i slot hk
    exact keepsSymbols_onExisting (pointed_of_market hk) (hp slot) h

theorem keepsSymbols_onNasdaqOrder {ref : UInt64} {msg : Nasdaq.ItchMessage}
    {process : OrderSlot → OrderManager → Except Fault OrderManager}
    (hp : ∀ slot om₁, process slot om = .ok om₁ → KeepsSymbols om om₁)
    (h : om.onNasdaqOrder ref msg process = .ok om') : KeepsSymbols om om' := by
  unfold onNasdaqOrder at h
  split at h
  · rw [Except.ok.injEq] at h
    rw [← h]
    exact .refl om
  · rename_i slot hk
    exact keepsSymbols_onExisting (pointed_of_nasdaq hk) (hp slot) h

theorem keepsSymbols_filledBist {k : OrderKey} {msg : Bist.ItchMessage} {fill : Order → Order}
    {f : MarketBook → Order → Except Fault MarketBook}
    (h : om.onBistOrder k msg (OrderManager.fillThenBook fill f) = .ok om')
    (hfill : ∀ order, SameSymbol order (fill order)) : KeepsSymbols om om' :=
  keepsSymbols_onBistOrder (fun _ _ => (KeepsSymbols.refl om).fillThenBook hfill) h

theorem keepsSymbols_filledNasdaq {ref : UInt64} {msg : Nasdaq.ItchMessage} {fill : Order → Order}
    {f : MarketBook → Order → Except Fault MarketBook}
    (h : om.onNasdaqOrder ref msg (OrderManager.fillThenBook fill f) = .ok om')
    (hfill : ∀ order, SameSymbol order (fill order)) : KeepsSymbols om om' :=
  keepsSymbols_onNasdaqOrder (fun _ _ => (KeepsSymbols.refl om).fillThenBook hfill) h

theorem keepsSymbols_enterTickSize (om : OrderManager) (orderBookId : UInt32) (m : SymbolMeta)
    (new : TickSlot) (entry : TickSizeEntry) (is : List (Fin 5)) :
    KeepsSymbols om (om.enterTickSizeBist orderBookId m new entry is) := by
  induction is with
  | nil => exact (KeepsSymbols.refl om).same rfl rfl
  | cons i rest ih =>
    unfold enterTickSizeBist
    split
    · exact (KeepsSymbols.refl om).same rfl rfl
    · split
      · exact (KeepsSymbols.refl om).same rfl rfl
      · exact ih

theorem keepsSymbols_tickSizeBist {msg : Bist.TickSizeTableEntry}
    (h : om.handleTickSizeDefinitionBist msg = .ok om') : KeepsSymbols om om' := by
  unfold handleTickSizeDefinitionBist at h
  split at h
  · cases h
  · rw [Except.ok.injEq] at h
    rw [← h]
    refine KeepsSymbols.trans ?_ (keepsSymbols_enterTickSize _ _ _ _ _ _)
    exact (KeepsSymbols.refl om).same rfl rfl

theorem keepsSymbols_tickSizeNasdaq {instrumentId : UInt32} {entry : TickSizeEntry}
    (h : om.handleTickSizeDefinitionNasdaq instrumentId entry = .ok om') : KeepsSymbols om om' := by
  unfold handleTickSizeDefinitionNasdaq at h
  split at h
  · simp only at h
    split at h
    · cases h
    · split at h
      · rw [Except.ok.injEq] at h
        rw [← h]
        exact (KeepsSymbols.refl om).same rfl rfl
      · rw [Except.ok.injEq] at h
        rw [← h]
        exact (KeepsSymbols.refl om).same rfl rfl
  · cases h

theorem keepsSymbols_tickSizes {instrumentId : UInt32} (entries : List TickSizeEntry)
    (h : entries.foldlM (fun om entry => om.handleTickSizeDefinitionNasdaq instrumentId entry) om =
      .ok om') : KeepsSymbols om om' := by
  induction entries generalizing om with
  | nil =>
    simp only [List.foldlM_nil, pure, Except.pure, Except.ok.injEq] at h
    exact h ▸ .refl _
  | cons entry rest ih =>
    rw [List.foldlM_cons] at h
    obtain ⟨om₁, h₁, h₂⟩ := bind_eq_ok_iff.mp h
    exact (keepsSymbols_tickSizeNasdaq h₁).trans (ih h₂)

theorem keepsSymbols_symbolHalt {instrumentId : UInt32} {halted : Bool}
    (h : om.updateSymbolHaltStatus v instrumentId halted = .ok om') : KeepsSymbols om om' := by
  unfold updateSymbolHaltStatus at h
  split at h
  · cases h
  · rw [Except.ok.injEq] at h
    rw [← h]
    exact (KeepsSymbols.refl om).same rfl rfl

/-- A flush hands an own order of its symbol to risk again. -/
theorem KeepsSymbols.flushOrder (h : KeepsSymbols om om₁) (hslot : slot ∈ om.pointed) :
    KeepsSymbols om (om₁.flushOrder slot) := by
  have hwrite : ∀ {order : Order}, SameSymbol (om₁.orderPool slot) order →
      KeepsSymbols om { om₁.setOrder slot order with
        storeToRisk := om₁.storeToRisk.push slot
        storeToStrategy := om₁.storeToStrategy.push slot } := by
    intro order ho
    exact ((h.setOrder slot ho).publish hslot).same rfl rfl
  unfold OrderManager.flushOrder
  simp only
  split
  · exact hwrite ⟨rfl, rfl, rfl⟩
  · split
    · exact hwrite ⟨rfl, rfl, rfl⟩
    · exact h

theorem KeepsSymbols.flushOrders {orders : Fin 64 → Option OrderSlot} (is : List (Fin 64))
    (hslots : ∀ i slot, orders i = some slot → slot ∈ om.pointed) (h : KeepsSymbols om om₁) :
    KeepsSymbols om (is.foldl (fun om i => match orders i with
      | none => om
      | some slot => om.flushOrder slot) om₁) := by
  induction is generalizing om₁ with
  | nil => exact h
  | cons i is ih =>
    rw [List.foldl_cons]
    refine ih ?_
    split
    · exact h
    · rename_i slot hslot
      exact h.flushOrder (hslots i slot hslot)

theorem keepsSymbols_flush {msg : Bist.OrderBookFlush} (h : om.updateBistFlush msg = .ok om') :
    KeepsSymbols om om' := by
  unfold updateBistFlush at h
  split at h
  · cases h
  · obtain ⟨mb, -, h₂⟩ := bind_eq_ok_iff.mp h
    unfold handleFlushStatus at h₂
    split at h₂
    · cases h₂
    · rename_i history hhistory
      rw [Except.ok.injEq] at h₂
      rw [← h₂]
      refine KeepsSymbols.flushOrders _ (fun i slot hslot => ?_)
        ((KeepsSymbols.refl om).same rfl rfl)
      exact .inr (.inr (.inl ⟨0, history, List.mem_of_getElem? hhistory, i, hslot⟩))

/-! ### ITCH: the messages that look a symbol up -/

theorem onBook_frame {f : MarketBook → Order → Except Fault MarketBook}
    (h : om.onBook slot f = .ok om') :
    om'.hashtables = om.hashtables ∧ om'.storeToRisk = om.storeToRisk ∧ om'.pool = om.pool := by
  obtain ⟨mb, -, hmb⟩ := bind_eq_ok_iff.mp h
  rw [Except.ok.injEq] at hmb
  rw [← hmb]
  exact ⟨rfl, rfl, rfl⟩

/-- A new slot is the only one that comes to be pointed to. -/
theorem mem_pointed_addMarketOrder {k : OrderKey} {t : OrderSlot}
    (ht : t ∈ (om.addMarketOrder k).2.pointed) : t ∈ om.pointed ∨ t = om.marketOrderSlot := by
  rcases ht with ⟨k', hk'⟩ | hrest
  · by_cases heq : k' = k
    · rw [heq, lookup_addMarketOrder_self, Option.some.injEq] at hk'
      exact .inr hk'.symm
    · exact .inl (.inl ⟨k', lookup_of_lookup_addMarketOrder heq hk'⟩)
  · exact .inl (.inr hrest)

/-- A filler that looks a symbol up, on an order that exists. -/
theorem spec_onExisting {msg : DbData} {process : OrderManager → Except Fault OrderManager}
    {w : OrderSlot → SymbolWrite}
    (hp : ∀ om₂, process om = .ok om₂ → Spec om ((om₂.publish slot).pushDb msg) (some (w slot)))
    (h : om.onExisting slot msg process = .ok om') :
    Spec om om' ((om.modifiable (some slot)).map w) := by
  unfold onExisting at h
  split at h
  · rename_i hlock
    have hnone : om.modifiable (some slot) = none := by simp [modifiable, Option.filter, hlock]
    rw [Except.ok.injEq] at h
    rw [hnone, ← h]
    exact (KeepsSymbols.refl om).same rfl rfl
  · rename_i hlock
    have hsome : om.modifiable (some slot) = some slot := by simp [modifiable, Option.filter, hlock]
    obtain ⟨om₂, h₂, h'⟩ := bind_eq_ok_iff.mp h
    rw [Except.ok.injEq] at h'
    rw [hsome, ← h']
    exact hp om₂ h₂

theorem finishes_bistAdd (msg : Bist.AddOrder) : Finishes 0 fun order : Order =>
    { order with
      status := .new
      timestamp := msg.timestampNs.toUInt64
      lastUpdateTime := msg.timestampNs.toUInt64
      messageType := msg.messageType
      protocol := .itch
      venue := .bist
      orderType := orderTypeOfPrice order.price
      cancelledCount := 0 } := ⟨fun _ => rfl, fun _ => rfl, fun _ => rfl⟩

theorem spec_updateBistAdd {m : Bist.AddOrder} (hqueue : om.storeToRisk.items = [])
    (h : om.updateBistAdd m = .ok om') :
    Spec om om' ((om.bistAddSlot m).map fun slot => ⟨0, m.orderBookId, om.orderPool slot⟩) := by
  cases hk : om.getOrderFromMarketMap (bistKey m.orderId m.orderBookId m.side) with
  | some slot =>
    have hslot : om.bistAddSlot m = om.modifiable (some slot) := by simp only [bistAddSlot, hk]
    rw [updateBistAdd_of_found hk] at h
    rw [hslot]
    refine spec_onExisting (fun om₂ h₂ => ?_) h
    exact spec_filled (onBook_frame h₂) rfl (finishes_bistAdd m) ⟨rfl, rfl, rfl⟩ rfl rfl rfl rfl
      hqueue fun _ ht => .inl ht
  | none =>
    by_cases hecho : om.awaitingAckOrders ≠ ∅ ∧ om.isMatchedPendingOrderBist m
    · have hslot : om.bistAddSlot m = none := by simp only [bistAddSlot, hk, if_pos hecho]
      rw [updateBistAdd_of_pending hk hecho, Except.ok.injEq] at h
      rw [hslot, ← h]
      exact .refl om
    · have hslot : om.bistAddSlot m = some om.marketOrderSlot := by
        simp only [bistAddSlot, hk, if_neg hecho]
      simp only [updateBistAdd, hk, if_neg hecho] at h
      obtain ⟨om₂, h₂, h'⟩ := bind_eq_ok_iff.mp h
      rw [hslot, ← Except.ok.inj h']
      exact spec_filled (onBook_frame h₂) rfl (finishes_bistAdd m) ⟨rfl, rfl, rfl⟩ rfl rfl rfl rfl
        hqueue fun _ => mem_pointed_addMarketOrder

/-- A trade: an own order is published as it is, any other one after the lookup. -/
theorem spec_trade {msg : DbData} {process : OrderManager → Except Fault OrderManager}
    {w : OrderSlot → SymbolWrite} (hslot : slot ∈ om.pointed)
    (hown : (om.orderPool slot).isOurOrder = true → process om = .ok om)
    (hp : (om.orderPool slot).isOurOrder = false → ∀ om₂, process om = .ok om₂ →
      Spec om ((om₂.publish slot).pushDb msg) (some (w slot)))
    (h : om.onExisting slot msg process = .ok om') :
    Spec om om' ((om.tradeSlot (some slot)).map w) := by
  cases hflag : (om.orderPool slot).isOurOrder with
  | false =>
    have htrade : om.tradeSlot (some slot) = om.modifiable (some slot) := by
      by_cases hlock : (om.orderPool slot).canModify = 0
      · simp [tradeSlot, modifiable, Option.filter, hlock]
      · simp [tradeSlot, modifiable, Option.filter, hlock, hflag]
    rw [htrade]
    exact spec_onExisting (hp hflag) h
  | true =>
    have hnone : om.tradeSlot (some slot) = none := by
      by_cases hlock : (om.orderPool slot).canModify = 0
      · simp [tradeSlot, modifiable, Option.filter, hlock]
      · simp [tradeSlot, modifiable, Option.filter, hlock, hflag]
    rw [hnone]
    refine keepsSymbols_onExisting hslot (fun om₁ h₁ => ?_) h
    rw [hown hflag, Except.ok.injEq] at h₁
    exact h₁ ▸ .refl om

theorem spec_tradeBist {m : Bist.Trade} (hqueue : om.storeToRisk.items = [])
    (h : om.updateOrderBist (.trade m) = .ok om') :
    Spec om om' (om.symbolWriteBist (.trade m)) := by
  simp only [updateOrderBist, onBistOrder] at h
  unfold symbolWriteBist
  simp only
  split at h
  · rename_i hk
    rw [hk, ← Except.ok.inj h]
    exact .refl om
  · rename_i slot hk
    rw [hk]
    refine spec_trade (pointed_of_market hk) (fun hown => ?_) (fun hmarket om₂ h₂ => ?_) h
    · exact congrArg Except.ok (if_pos hown)
    · have hfill : om₂ = { om with bistTradeId := om.bistTradeId + 1 }.fillWithSymbol 0 slot _ _ :=
        (Except.ok.inj h₂).symm.trans (if_neg (by rw [hmarket]; exact Bool.false_ne_true))
      exact spec_filled ⟨rfl, rfl, rfl⟩ hfill ⟨fun _ => rfl, fun _ => rfl, fun _ => rfl⟩
        ⟨rfl, rfl, rfl⟩ rfl rfl rfl rfl hqueue fun _ ht => .inl ht

theorem spec_tradeNasdaq {m : Nasdaq.Trade} (hqueue : om.storeToRisk.items = [])
    (h : om.updateOrderNasdaq (.trade m) = .ok om') :
    Spec om om' (om.symbolWriteNasdaq (.trade m)) := by
  simp only [updateOrderNasdaq, onNasdaqOrder] at h
  unfold symbolWriteNasdaq
  simp only
  split at h
  · rename_i hk
    rw [hk, ← Except.ok.inj h]
    exact .refl om
  · rename_i slot hk
    rw [hk]
    refine spec_trade (pointed_of_nasdaq hk) (fun hown => ?_) (fun hmarket om₂ h₂ => ?_) h
    · exact congrArg Except.ok (if_pos hown)
    · have hfill : om₂ = om.fillWithSymbol 1 slot _ _ :=
        (Except.ok.inj h₂).symm.trans (if_neg (by rw [hmarket]; exact Bool.false_ne_true))
      exact spec_filled ⟨rfl, rfl, rfl⟩ hfill ⟨fun _ => rfl, fun _ => rfl, fun _ => rfl⟩
        ⟨rfl, rfl, rfl⟩ rfl rfl rfl rfl hqueue fun _ ht => .inl ht

theorem finishes_finishAdd (m : Nasdaq.AddOrder) : Finishes 1 (FillerItchNasdaq.finishAdd m) :=
  ⟨fun _ => rfl, fun _ => rfl, fun _ => rfl⟩

/-- The two adds of NASDAQ; what their fillers write before the lookup is `before`. -/
theorem spec_updateNasdaqAdd {m : Nasdaq.AddOrder} {stored : Nasdaq.ItchMessage}
    {fill : OrderManager → OrderSlot → Nasdaq.AddOrder → OrderManager} {left before : Order}
    {w : OrderSlot → SymbolWrite} (hqueue : om.storeToRisk.items = [])
    (h : om.updateNasdaqAdd m stored fill = .ok om')
    (hw : w om.marketOrderSlot = ⟨1, m.stockLocate.toUInt32, left⟩)
    (hfill : fill (om.addNasdaqOrder m) om.marketOrderSlot m =
      (om.addNasdaqOrder m).fillWithSymbol 1 om.marketOrderSlot before
        (FillerItchNasdaq.finishAdd m))
    (hleft : SameSymbol left before)
    (hinstrument : before.instrumentId = m.stockLocate.toUInt32) :
    Spec om om' ((om.nasdaqAddSlot m).map w) := by
  unfold updateNasdaqAdd at h
  unfold nasdaqAddSlot
  split at h
  · rename_i hecho
    rw [if_pos hecho, ← Except.ok.inj h]
    exact .refl om
  · rename_i hecho
    obtain ⟨om₂, h₂, h'⟩ := bind_eq_ok_iff.mp h
    rw [if_neg hecho, Option.map_some, hw, ← Except.ok.inj h']
    exact spec_filled (onBook_frame h₂) hfill (finishes_finishAdd m) hleft hinstrument rfl rfl rfl
      hqueue fun _ => mem_pointed_addMarketOrder

theorem spec_replaceNasdaq {m : Nasdaq.Replace} (hqueue : om.storeToRisk.items = [])
    (h : om.updateOrderNasdaq (.replace m) = .ok om') :
    Spec om om' (om.symbolWriteNasdaq (.replace m)) := by
  simp only [updateOrderNasdaq, onNasdaqOrder] at h
  unfold symbolWriteNasdaq
  simp only
  split at h
  · rename_i hk
    rw [hk, ← Except.ok.inj h]
    exact .refl om
  · rename_i slot hk
    rw [hk]
    refine spec_onExisting (fun om₂ h₂ => ?_) h
    -- the old quantity leaves the book first
    obtain ⟨om₀, h₀, h₁⟩ := bind_eq_ok_iff.mp h₂
    obtain ⟨mb, -, hmb⟩ := bind_eq_ok_iff.mp h₀
    rw [Except.ok.injEq] at hmb
    subst hmb
    exact spec_filled (onBook_frame h₁) rfl ⟨fun _ => rfl, fun _ => rfl, fun _ => rfl⟩
      ⟨rfl, rfl, rfl⟩ rfl rfl rfl rfl hqueue fun _ ht => .inl ht

/-! ### ITCH: all messages -/

/-- A handler that ends with the hand-over of its message. -/
theorem keepsSymbols_stored {d : DbData} (hkeeps : KeepsSymbols om om₁)
    (h : (Except.ok (om₁.pushDb d) : Except Fault OrderManager) = .ok om') :
    KeepsSymbols om om' := by
  rw [Except.ok.injEq] at h
  rw [← h]
  exact hkeeps.same rfl rfl

/-- **BIST market messages.** -/
theorem spec_updateOrderBist {msg : Bist.ItchMessage} (hqueue : om.storeToRisk.items = [])
    (h : om.updateOrderBist msg = .ok om') : Spec om om' (om.symbolWriteBist msg) := by
  cases msg with
  | addOrder m => exact spec_updateBistAdd hqueue h
  | trade m => exact spec_tradeBist hqueue h
  | orderExecuted m => exact keepsSymbols_filledBist h fun _ => ⟨rfl, rfl, rfl⟩
  | orderExecutedWithPrice m => exact keepsSymbols_filledBist h fun _ => ⟨rfl, rfl, rfl⟩
  | orderDelete m => exact keepsSymbols_filledBist h fun _ => ⟨rfl, rfl, rfl⟩
  | orderBookState m =>
    obtain ⟨om₁, h₁, h₂⟩ := bind_eq_ok_iff.mp h
    exact keepsSymbols_stored (keepsSymbols_symbolHalt h₁) h₂
  | tickSizeTableEntry m =>
    obtain ⟨om₁, h₁, h₂⟩ := bind_eq_ok_iff.mp h
    exact keepsSymbols_stored (keepsSymbols_tickSizeBist h₁) h₂
  | orderBookFlush m =>
    obtain ⟨om₁, h₁, h₂⟩ := bind_eq_ok_iff.mp h
    exact keepsSymbols_stored (keepsSymbols_flush h₁) h₂
  | _ =>
    rw [← Except.ok.inj h]
    exact (KeepsSymbols.refl om).same rfl rfl

/-- **NASDAQ market messages.** -/
theorem spec_updateOrderNasdaq {msg : Nasdaq.ItchMessage} (hqueue : om.storeToRisk.items = [])
    (h : om.updateOrderNasdaq msg = .ok om') : Spec om om' (om.symbolWriteNasdaq msg) := by
  cases msg with
  | addOrder m =>
    exact spec_updateNasdaqAdd hqueue h rfl rfl ⟨rfl, rfl, rfl⟩ rfl
  | addOrderMpid m =>
    exact spec_updateNasdaqAdd hqueue h rfl rfl ⟨rfl, rfl, rfl⟩ rfl
  | replace m => exact spec_replaceNasdaq hqueue h
  | trade m => exact spec_tradeNasdaq hqueue h
  | cancel m => exact keepsSymbols_filledNasdaq h fun _ => ⟨rfl, rfl, rfl⟩
  | executed m => exact keepsSymbols_filledNasdaq h fun _ => ⟨rfl, rfl, rfl⟩
  | executedWithPrice m => exact keepsSymbols_filledNasdaq h fun _ => ⟨rfl, rfl, rfl⟩
  | delete m => exact keepsSymbols_filledNasdaq h fun _ => ⟨rfl, rfl, rfl⟩
  | stockDirectory m =>
    obtain ⟨om₁, h₁, h₂⟩ := bind_eq_ok_iff.mp h
    refine keepsSymbols_stored (KeepsSymbols.trans ?_ (keepsSymbols_tickSizes _ h₁)) h₂
    exact (KeepsSymbols.refl om).same rfl rfl
  | tradingState m =>
    obtain ⟨om₁, h₁, h₂⟩ := bind_eq_ok_iff.mp h
    exact keepsSymbols_stored (keepsSymbols_symbolHalt h₁) h₂
  | systemEvent m =>
    simp only [updateOrderNasdaq] at h
    split at h
    · rw [← Except.ok.inj h]
      exact (KeepsSymbols.refl om).same rfl rfl
    · cases h

end OrderManager

end TradingEngine
