/-
The symbol index of the orders risk is given (`order_management/OrderManager.cpp`,
`risk/RiskEngine.cpp`).

The FIX and OUCH handlers never write a symbol: an own order has the index it was placed
with.  `RiskFeed` is the store with everything it has pushed to risk so far; risk may read
an order at any time after the push.

* `RiskFeed.Resolves` — the lookup of a message is fillable;
* `pushed_resolved_iff` — in a run in which own orders are placed with the index of their
  symbol, every order pushed to risk is resolved at all times iff every lookup is fillable;
* `unlisted_symbol_pushed` — the order of an instrument whose symbol is not configured.
-/
import TradingEngine.SymbolLookup

namespace TradingEngine

open FallibleRun

/-! ### Own orders -/

namespace OwnManager

variable {hash : List UInt8 → UInt64} {om om' om₁ : OwnManager} {slot : OrderSlot} {d : DbData}

/-- With the two maps of own orders. -/
def pointed (om : OwnManager) : Set OrderSlot :=
  {slot | slot ∈ om.toOrderManager.pointed ∨ (∃ k, om.ourOrders.lookup k = some slot) ∨
    ∃ k, om.ourOrdersWtokenkey.lookup k = some slot}

def pool (om : OwnManager) : PointedPool OrderSlot Order := ⟨om.orderPool, om.pointed⟩

structure KeepsSymbols (om om' : OwnManager) : Prop where
  tables : om'.hashtables = om.hashtables
  pool : PointedPool.Keeps (Resolved om.hashtables) om.pool om'.pool

theorem KeepsSymbols.refl (om : OwnManager) : KeepsSymbols om om := ⟨rfl, .refl _⟩

theorem KeepsSymbols.same (h : KeepsSymbols om om₁) (htables : om'.hashtables = om₁.hashtables)
    (hpool : om'.pool = om₁.pool) : KeepsSymbols om om' := by
  refine ⟨htables.trans h.tables, ?_⟩
  rw [hpool]
  exact h.pool

theorem KeepsSymbols.setOrder (h : KeepsSymbols om om₁) (slot : OrderSlot) {order : Order}
    (ho : SameSymbol (om₁.orderPool slot) order) : KeepsSymbols om (om₁.setOrder slot order) :=
  ⟨h.tables, h.pool.write slot ho.resolved_iff.mpr⟩

theorem KeepsSymbols.setOwn (h : KeepsSymbols om om₁) (slot : OrderSlot) {order : Order}
    {own : OwnFields} (ho : SameSymbol (om₁.orderPool slot) order) :
    KeepsSymbols om (om₁.setOwn slot order own) :=
  (h.setOrder slot ho).same rfl rfl

theorem KeepsSymbols.publish (h : KeepsSymbols om om₁) (hslot : slot ∈ om.pointed) :
    KeepsSymbols om (om₁.publish slot) := by
  refine ⟨h.tables, h.pool.point hslot rfl ?_⟩
  rintro t (hmarket | hown)
  · exact (OrderManager.mem_pointed_publish hmarket).imp_left .inl
  · exact .inl (.inr hown)

theorem KeepsSymbols.publishWith (h : KeepsSymbols om om₁) (hslot : slot ∈ om.pointed) :
    KeepsSymbols om (om₁.publishWith slot d) :=
  (h.publish hslot).same rfl rfl

theorem KeepsSymbols.eraseAwaitingAck (h : KeepsSymbols om om₁) (clientOrderId : UInt64) :
    KeepsSymbols om (om₁.eraseAwaitingAck clientOrderId) := by
  refine ⟨h.tables, h.pool.forget rfl ?_⟩
  rintro t ((hmarket | ⟨k, hk⟩ | hrest) | hown)
  · exact .inl (.inl hmarket)
  · exact .inl (.inr (.inl ⟨k, HashMap.lookup_of_lookup_erase hk⟩))
  · exact .inl (.inr (.inr hrest))
  · exact .inr hown

/-- A history that gets no entry but pointers from the start. -/
theorem KeepsSymbols.updateHistory {order : Order} {f : OrderHistory → OrderHistory}
    (h : KeepsSymbols om om₁)
    (hf : ∀ history i t, (f history).orders i = some t →
      (∃ j, history.orders j = some t) ∨ t ∈ om.pointed)
    (hs : om₁.updateHistory order f = .ok om') : KeepsSymbols om om' := by
  unfold OwnManager.updateHistory at hs
  split at hs
  · cases hs
  · rename_i v _
    split at hs
    · cases hs
    · rename_i history hhistory
      rw [Except.ok.injEq] at hs
      subst hs
      refine ⟨h.tables, h.pool.cells, ?_⟩
      rintro t ((hmarket | hawait | ⟨u, history', hmem, i, hi⟩ | hqueue) | hown)
      · exact h.pool.pointed t (.inl (.inl hmarket))
      · exact h.pool.pointed t (.inl (.inr (.inl hawait)))
      · have hold : ∀ {w : VenueIndex} {g : OrderHistory} {j : Fin 64},
            g ∈ om₁.ourOrdersAllVenue w → g.orders j = some t → t ∈ om₁.pool.pointed :=
          fun hg hj => .inl (.inr (.inr (.inl ⟨_, _, hg, _, hj⟩)))
        -- the one history that is rewritten is that of the symbol of the order
        by_cases huv : u = v
        · subst huv
          simp only [Function.update_self] at hmem
          rcases List.mem_or_eq_of_mem_set hmem with hg | rfl
          · exact h.pool.pointed t (hold hg hi)
          · rcases hf history i t hi with ⟨j, hj⟩ | hstart
            · exact h.pool.pointed t (hold (List.mem_of_getElem? hhistory) hj)
            · exact .inl hstart
        · simp only [Function.update_of_ne huv] at hmem
          exact h.pool.pointed t (hold hmem hi)
      · exact h.pool.pointed t (.inl (.inr (.inr (.inr hqueue))))
      · exact h.pool.pointed t (.inr hown)

theorem pop_orders {history : OrderHistory} {i : Fin 64} {t : OrderSlot}
    (h : (history.pop slot).orders i = some t) : ∃ j, history.orders j = some t := by
  unfold OrderHistory.pop at h
  split at h
  · exact ⟨i, h⟩
  · rename_i j _
    by_cases hij : i = j
    · subst hij
      simp at h
    · simp only [Function.update_of_ne hij] at h
      exact ⟨i, h⟩

theorem push_orders {history : OrderHistory} {i : Fin 64} {t : OrderSlot}
    (h : (history.push slot).orders i = some t) : (∃ j, history.orders j = some t) ∨ t = slot := by
  by_cases hi : i = ⟨history.writeIndex % 64, Nat.mod_lt _ (by omega)⟩
  · subst hi
    simp only [OrderHistory.push, Function.update_self, Option.some.injEq] at h
    exact .inr h.symm
  · simp only [OrderHistory.push, Function.update_of_ne hi] at h
    exact .inl ⟨i, h⟩

theorem KeepsSymbols.releaseOrder (h : KeepsSymbols om om₁)
    (hs : om₁.releaseOrder slot = .ok om') : KeepsSymbols om om' := by
  unfold OwnManager.releaseOrder at hs
  refine KeepsSymbols.updateHistory ?_ (fun history i t hi => .inl (pop_orders hi)) hs
  refine ⟨h.tables, h.pool.forget rfl ?_⟩
  rintro t (hmarket | ⟨k, hk⟩ | ⟨k, hk⟩)
  · exact .inl hmarket
  · exact .inr (.inl ⟨k, HashMap.lookup_of_lookup_erase hk⟩)
  · exact .inr (.inr ⟨k, HashMap.lookup_of_lookup_erase hk⟩)

theorem KeepsSymbols.sweep (h : KeepsSymbols om om₁) (hs : om₁.sweep = .ok om') :
    KeepsSymbols om om' := by
  unfold OwnManager.sweep at hs
  split at hs
  · simp only at hs
    generalize (if om₁.triggered % orderMapCapacity = 0 then 32768 else om₁.ourNextSlot) = next
      at hs
    split at hs
    · refine KeepsSymbols.releaseOrder ?_ hs
      exact h.same rfl rfl
    · cases hs
  · rw [Except.ok.injEq] at hs
    exact hs ▸ h

theorem KeepsSymbols.addOurOrder {k : OrderKey} (h : KeepsSymbols om om₁)
    (hslot : slot ∈ om.pointed) (hs : om₁.addOurOrder slot k = .ok om') : KeepsSymbols om om' := by
  unfold OwnManager.addOurOrder at hs
  split at hs
  · cases hs
  · rename_i om₂ h₂
    refine KeepsSymbols.updateHistory ?_ (fun history i t hi => ?_) hs
    · have hsweep := h.sweep h₂
      refine ⟨hsweep.tables, hsweep.pool.point hslot rfl ?_⟩
      rintro t (hmarket | ⟨k', hk'⟩ | htoken)
      · exact .inl (.inl hmarket)
      · exact (HashMap.lookup_of_lookup_insert hk').imp_left fun hold => .inr (.inl ⟨k', hold⟩)
      · exact .inl (.inr (.inr htoken))
    · rcases push_orders hi with hold | rfl
      · exact .inl hold
      · exact .inr hslot

theorem KeepsSymbols.insertToken (h : KeepsSymbols om om₁) (hslot : slot ∈ om.pointed)
    (id : UInt64) :
    KeepsSymbols om { om₁ with ourOrdersWtokenkey := om₁.ourOrdersWtokenkey.insert id slot } := by
  refine ⟨h.tables, h.pool.point hslot rfl ?_⟩
  rintro t (hmarket | hours | ⟨k, hk⟩)
  · exact .inl (.inl hmarket)
  · exact .inl (.inr (.inl hours))
  · exact (HashMap.lookup_of_lookup_insert hk).imp_left fun hold => .inr (.inr ⟨k, hold⟩)

theorem pointed_of_ours {k : OrderKey} (h : om.getOrderFromOurMap k = some slot) :
    slot ∈ om.pointed := .inr (.inl ⟨k, h⟩)

theorem pointed_of_token {k : UInt64} (h : om.getOrderFromOurMapWtokenkey k = some slot) :
    slot ∈ om.pointed := .inr (.inr ⟨k, h⟩)

theorem pointed_of_awaiting {k : UInt64} (h : om.getOrderFromAwaitingAckOrders k = some slot) :
    slot ∈ om.pointed := .inl (.inr (.inl ⟨k, h⟩))

theorem KeepsSymbols.unlessDeferred {handle : OwnManager → Except Fault OwnManager}
    (h : KeepsSymbols om om₁) (hh : handle om₁ = .ok om' → KeepsSymbols om om')
    (hs : om₁.unlessDeferred slot d handle = .ok om') : KeepsSymbols om om' := by
  obtain ⟨-, rfl⟩ | ⟨-, hhandled⟩ := OwnManager.unlessDeferred_cases hs
  · exact h.same rfl rfl
  · exact hh hhandled

/-! #### FIX -/

/-- No FIX message writes a symbol. -/
theorem sameSymbol_fillFixExecReport (order : Order) (own : OwnFields) (msg : FIXMessage) :
    SameSymbol order (FillerFix.fillFixExecReport hash order own msg).1 := by
  have hfilled : ∀ status,
      SameSymbol order (FillerFix.fillFixExecution order own msg status).1 :=
    fun _ => ⟨rfl, rfl, rfl⟩
  unfold FillerFix.fillFixExecReport
  split
  · exact ⟨rfl, rfl, rfl⟩
  · split
    · exact hfilled .partialFill
    · split
      · exact hfilled .filled
      · split
        · exact ⟨rfl, rfl, rfl⟩
        · split
          · exact ⟨rfl, rfl, rfl⟩
          · split
            · exact ⟨rfl, rfl, rfl⟩
            · exact ⟨rfl, rfl, rfl⟩

theorem KeepsSymbols.handleFix {clientOrderId : UInt64} {m : FIXMessage}
    (h : KeepsSymbols om om₁) (hslot : slot ∈ om.pointed)
    (hs : OwnManager.handleFix hash om₁ slot clientOrderId m = .ok om') : KeepsSymbols om om' := by
  have hfinish : ∀ om₂ : OwnManager, KeepsSymbols om om₂ →
      KeepsSymbols om (om₂.finishFix slot clientOrderId m) := by
    intro om₂ h₂
    have herased := h₂.eraseAwaitingAck clientOrderId
    exact KeepsSymbols.publish (herased.same rfl rfl) hslot
  obtain ⟨-, -, filled, rfl, rfl⟩ | ⟨-, -, rfl⟩ | ⟨-, rfl⟩ | ⟨-, -, rfl⟩ :=
    OwnManager.handleFix_cases hs
  · exact hfinish _ (h.setOwn slot (sameSymbol_fillFixExecReport _ _ m))
  · exact h
  · have hreject : SameSymbol (om₁.orderPool slot)
        (FillerFix.fillFixCancelReject (om₁.orderPool slot) m) := ⟨rfl, rfl, rfl⟩
    exact (h.setOrder slot hreject).same rfl rfl
  · exact hfinish om₁ h

theorem keepsSymbols_updateOrderFix {m : FIXMessage} (h : updateOrderFix hash om m = .ok om') :
    KeepsSymbols om om' := by
  obtain ⟨id, -, hcase⟩ := updateOrderFix_cases h
  obtain ⟨slot, hk, hhandled⟩ | ⟨-, -, rfl⟩ | ⟨slot, -, -, -, rfl⟩ |
    ⟨slot, om₁, -, hawait, -, hadded, hhandled⟩ := hcase
  · exact (KeepsSymbols.refl om).unlessDeferred
      ((KeepsSymbols.refl om).handleFix (pointed_of_ours hk)) hhandled
  · exact .refl _
  · exact (KeepsSymbols.refl om).same rfl rfl
  · have hslot := pointed_of_awaiting hawait
    have hadd := (KeepsSymbols.refl om).addOurOrder hslot hadded
    exact hadd.unlessDeferred (hadd.handleFix hslot) hhandled

/-! #### OUCH -/

/-- A filler of an own order: no symbol is written. -/
def FillsOwn (fill : OwnManager → OrderSlot → OwnManager) : Prop :=
  ∀ (om om₁ : OwnManager) slot, slot ∈ om.pointed → KeepsSymbols om om₁ →
    KeepsSymbols om (fill om₁ slot)

theorem keepsSymbols_onBistOuchKey {acknowledges : Bool} {k : OrderKey} {token : List UInt8}
    {fill : OwnManager → OrderSlot → OwnManager}
    (h : onBistOuchKey hash om acknowledges k token d fill = .ok om') (hfill : FillsOwn fill) :
    KeepsSymbols om om' := by
  obtain ⟨slot, hfound, hhandled⟩ | ⟨-, -, rfl⟩ |
    ⟨slot, om₁, tokens, -, hawait, hadded, rfl, rfl⟩ := onBistOuchKey_cases h
  · have hslot : slot ∈ om.pointed := by
      split at hfound
      · cases hfound
      · exact pointed_of_ours hfound
    refine (KeepsSymbols.refl om).unlessDeferred (fun hok => ?_) hhandled
    rw [← Except.ok.inj hok]
    exact (hfill om om slot hslot (.refl om)).publishWith hslot
  · exact .refl _
  · have hslot := pointed_of_awaiting hawait
    have hadd := (KeepsSymbols.refl om).addOurOrder hslot hadded
    have htoken := hadd.insertToken hslot (om₁.orderPool slot).clientOrderId
    exact (hfill om _ slot hslot (htoken.eraseAwaitingAck (hash token))).publishWith hslot

theorem keepsSymbols_onBistOuchToken {token : List UInt8}
    {finish : OwnManager → OrderSlot → OwnManager}
    (h : onBistOuchToken hash om token d finish = .ok om') (hfinish : FillsOwn finish) :
    KeepsSymbols om om' := by
  obtain ⟨slot, hk, hhandled⟩ | ⟨-, -, rfl⟩ | ⟨slot, -, hawait, rfl⟩ := onBistOuchToken_cases h
  · refine (KeepsSymbols.refl om).unlessDeferred (fun hok => ?_) hhandled
    rw [← Except.ok.inj hok]
    exact (hfinish om om slot (pointed_of_token hk) (.refl om)).same rfl rfl
  · exact .refl _
  · have herased := (KeepsSymbols.refl om).eraseAwaitingAck (om.orderPool slot).clientOrderId
    exact (hfinish om _ slot (pointed_of_awaiting hawait) herased).same rfl rfl

theorem fillsOwn_rejected (timestamp : UInt64) :
    FillsOwn fun om slot => om.fillOuchRejected slot timestamp := by
  intro om om₁ slot _ h
  unfold fillOuchRejected
  simp only
  split
  · exact h.same rfl rfl
  · exact h.setOrder slot ⟨rfl, rfl, rfl⟩

theorem fillsOwn_none : FillsOwn fun om _ => om := fun _ _ _ _ h => h

theorem sameSymbol_ouchReplaced (order : Order) (own : OwnFields) (m : Bist.OuchReplaced) :
    SameSymbol order (FillerOuchBist.fillOuchReplaced order own m).1 := by
  unfold FillerOuchBist.fillOuchReplaced
  split
  · exact ⟨rfl, rfl, rfl⟩
  · exact ⟨rfl, rfl, rfl⟩

theorem keepsSymbols_updateOrderBistOuch {msg : Bist.OuchMessage}
    (h : updateOrderBistOuch hash om msg = .ok om') : KeepsSymbols om om' := by
  cases msg with
  | accepted m =>
    simp only [updateOrderBistOuch] at h
    exact keepsSymbols_onBistOuchKey h fun _ _ slot _ hk => hk.setOrder slot ⟨rfl, rfl, rfl⟩
  | replaced m =>
    simp only [updateOrderBistOuch] at h
    exact keepsSymbols_onBistOuchKey h fun _ _ slot _ hk =>
      hk.setOwn slot (sameSymbol_ouchReplaced _ _ m)
  | cancelled m =>
    simp only [updateOrderBistOuch] at h
    exact keepsSymbols_onBistOuchKey h fun _ _ slot _ hk => hk.setOrder slot ⟨rfl, rfl, rfl⟩
  | executed m =>
    simp only [updateOrderBistOuch] at h
    refine keepsSymbols_onBistOuchToken h fun _ _ slot hslot hk => KeepsSymbols.publish ?_ hslot
    exact hk.setOrder slot ⟨rfl, rfl, rfl⟩
  | rejected m =>
    simp only [updateOrderBistOuch] at h
    exact keepsSymbols_onBistOuchToken h (fillsOwn_rejected m.timestamp)

theorem keepsSymbols_onNasdaqOuchAwaited {orderId : UInt64} {side : UInt8} {clOrdId : List UInt8}
    {fill : OwnManager → OrderSlot → OwnManager}
    (h : onNasdaqOuchAwaited hash om orderId side clOrdId d fill = .ok om')
    (hfill : FillsOwn fill) : KeepsSymbols om om' := by
  obtain ⟨-, rfl⟩ | ⟨slot, om₁, k, refs, hawait, -, hadded, -, rfl⟩ := onNasdaqOuchAwaited_cases h
  · exact .refl _
  · have hslot := pointed_of_awaiting hawait
    have hadd := (KeepsSymbols.refl om).addOurOrder hslot hadded
    refine KeepsSymbols.publishWith (hfill om _ slot hslot ?_) hslot
    refine KeepsSymbols.eraseAwaitingAck ?_ _
    exact hadd.same rfl rfl

theorem keepsSymbols_onNasdaqOuchRef {userRefNum : UInt32}
    {finish : OwnManager → OrderSlot → OwnManager}
    (h : onNasdaqOuchRef om userRefNum d finish = .ok om') (hfinish : FillsOwn finish) :
    KeepsSymbols om om' := by
  obtain ⟨k, slot, -, hk, hhandled⟩ := onNasdaqOuchRef_cases h
  refine (KeepsSymbols.refl om).unlessDeferred (fun hok => ?_) hhandled
  rw [← Except.ok.inj hok]
  exact (hfinish om om slot (pointed_of_ours hk) (.refl om)).same rfl rfl

theorem keepsSymbols_updateOrderNasdaqOuch {msg : Nasdaq.OuchMessage}
    (h : updateOrderNasdaqOuch hash om msg = .ok om') : KeepsSymbols om om' := by
  cases msg with
  | accepted m =>
    simp only [updateOrderNasdaqOuch] at h
    exact keepsSymbols_onNasdaqOuchAwaited h fun _ _ slot _ hk => hk.setOrder slot ⟨rfl, rfl, rfl⟩
  | replaced m =>
    obtain ⟨fill, rfl, locate, k, -, -, hcase⟩ := ouchReplaced_cases h
    obtain ⟨slot, hk, hhandled⟩ | ⟨-, hawaited⟩ := hcase
    · have hslot := pointed_of_ours hk
      refine (KeepsSymbols.refl om).unlessDeferred (fun hok => ?_) hhandled
      rw [← Except.ok.inj hok]
      refine KeepsSymbols.publishWith ?_ hslot
      exact (KeepsSymbols.refl om).setOwn slot ⟨rfl, rfl, rfl⟩
    · exact keepsSymbols_onNasdaqOuchAwaited hawaited fun _ _ slot _ hk =>
        hk.setOwn slot ⟨rfl, rfl, rfl⟩
  | rejected m =>
    obtain ⟨-, rfl⟩ | ⟨slot, hawait, rfl⟩ := ouchRejected_cases h
    · exact .refl _
    · have herased := (KeepsSymbols.refl om).eraseAwaitingAck (om.orderPool slot).clientOrderId
      exact (fillsOwn_rejected m.timestamp om _ slot (pointed_of_awaiting hawait) herased).same
        rfl rfl
  | cancelled m =>
    simp only [updateOrderNasdaqOuch] at h
    refine keepsSymbols_onNasdaqOuchRef h fun _ _ slot hslot hk => KeepsSymbols.publish ?_ hslot
    exact hk.setOrder slot ⟨rfl, rfl, rfl⟩
  | executed m =>
    simp only [updateOrderNasdaqOuch] at h
    refine keepsSymbols_onNasdaqOuchRef h fun _ _ slot hslot hk => KeepsSymbols.publish ?_ hslot
    exact hk.setOrder slot ⟨rfl, rfl, rfl⟩
  | modified m =>
    simp only [updateOrderNasdaqOuch] at h
    refine keepsSymbols_onNasdaqOuchRef h fun _ _ slot hslot hk => KeepsSymbols.publish ?_ hslot
    exact hk.setOrder slot ⟨rfl, rfl, rfl⟩
  | brokenTrade m => exact keepsSymbols_onNasdaqOuchRef h fillsOwn_none
  | cancelPending m => exact keepsSymbols_onNasdaqOuchRef h fillsOwn_none
  | cancelReject m => exact keepsSymbols_onNasdaqOuchRef h fillsOwn_none
  | systemEvent =>
    rw [← Except.ok.inj h]
    exact (KeepsSymbols.refl om).same rfl rfl
  | accountQueryResponse =>
    rw [← Except.ok.inj h]
    exact (KeepsSymbols.refl om).same rfl rfl

/-- `OrderManager.Spec` with the two maps of own orders. -/
def Spec (om om' : OwnManager) : Option SymbolWrite → Prop
  | none => KeepsSymbols om om'
  | some w => om'.hashtables = om.hashtables ∧ ∃ slot ∈ om'.storeToRisk.items,
      (Resolved om.hashtables (om'.orderPool slot) ↔ om.Fillable w) ∧
        (om.Fillable w → KeepsSymbols om om')

/-- What a market message keeps, the two maps of own orders keep too. -/
theorem keepsSymbols_onMarket {market : OrderManager}
    (h : OrderManager.KeepsSymbols om.toOrderManager market) :
    KeepsSymbols om { om with toOrderManager := market } := by
  refine ⟨h.tables, h.pool.cells, ?_⟩
  rintro t (hmarket | hown)
  · exact (h.pool.pointed t hmarket).imp_left .inl
  · exact .inl (.inr hown)

end OwnManager

/-! ### The run -/

/-- The store, and every order it has pushed to risk.  `pendingNextSlot` is the counter of
`add_awaitingAck_order`. -/
structure RiskFeed where
  om : OwnManager := {}
  pendingNextSlot : ℕ := 0
  toRisk : List OrderSlot := []

inductive RiskFeedEvent
  /-- the store handles a message -/
  | store (msg : StoreMessage)
  /-- an own order is built and sent: `add_awaitingAck_order` -/
  | place (slot : OrderSlot) (order : Order)
  /-- another thread changes an order, but not its symbol -/
  | change (slot : OrderSlot) (order : Order)

namespace RiskFeed

/-- The queue to risk emptied: its contents are in `toRisk`. -/
def drained (om : OwnManager) : OwnManager := { om with storeToRisk := .empty }

def store (hash : List UInt8 → UInt64) (s : RiskFeed) (msg : StoreMessage) :
    Except Fault RiskFeed :=
  (OwnManager.update hash (drained s.om) msg).map fun om =>
    { s with om := om, toRisk := s.toRisk ++ om.storeToRisk.items }

/-- The order is written, awaits its acknowledgement and is pending. -/
def place (s : RiskFeed) (slot : OrderSlot) (order : Order) : Except Fault RiskFeed :=
  match order.venue.index with
  | .error e => .error e
  | .ok v =>
    .ok { s with
      pendingNextSlot := s.pendingNextSlot + 1
      om := { s.om.setOrder slot order with
        awaitingAckOrders := s.om.awaitingAckOrders.insert order.clientOrderId slot
        pendingOrders := Function.update s.om.pendingOrders v (Function.update
          (s.om.pendingOrders v) ⟨s.pendingNextSlot % 64, Nat.mod_lt _ (Nat.succ_pos 63)⟩
          (some slot)) } }

def change (s : RiskFeed) (slot : OrderSlot) (order : Order) : RiskFeed :=
  let old := s.om.orderPool slot
  { s with om := s.om.setOrder slot { order with
      symbol := old.symbol, symbolIndex := old.symbolIndex, venue := old.venue } }

def step (hash : List UInt8 → UInt64) (s : RiskFeed) : RiskFeedEvent → Except Fault RiskFeed
  | .store msg => s.store hash msg
  | .place slot order => s.place slot order
  | .change slot order => .ok (s.change slot order)

/-- What a message looks up. -/
def symbolWrite (om : OrderManager) : StoreMessage → Option SymbolWrite
  | .bistItch msg => om.symbolWriteBist msg
  | .nasdaqItch msg => om.symbolWriteNasdaq msg
  | _ => none

/-- The lookup of a message, if it makes one, ends in a resolved order. -/
def Resolves (s : RiskFeed) : RiskFeedEvent → Prop
  | .store msg => ∀ w, symbolWrite s.om.toOrderManager msg = some w → s.om.Fillable w
  | _ => True

/-- Every order pushed to risk has the index of its symbol, and risk reads its tables and
the book of the order in bounds. -/
def InBounds (s : RiskFeed) : Prop :=
  ∀ slot ∈ s.toRisk, Resolved s.om.hashtables (s.om.orderPool slot) ∧
    ReadsTables (s.om.orderPool slot)

end RiskFeed

/-- An own order is placed with the index of its symbol. -/
def RiskFeedEvent.Placed (ht : HashTables) : RiskFeedEvent → Prop
  | .place _ order => Resolved ht order
  | _ => True

namespace RiskFeed

variable {hash : List UInt8 → UInt64} {s s' : RiskFeed} {ht : HashTables}

/-- Whatever leads to an order, the queue to risk included. -/
def pool (s : RiskFeed) : PointedPool OrderSlot Order :=
  ⟨s.om.orderPool, {slot | slot ∈ (drained s.om).pointed ∨ slot ∈ s.toRisk}⟩

structure Sound (ht : HashTables) (s : RiskFeed) : Prop where
  tables : s.om.hashtables = ht
  pool : s.pool.Sound (Resolved ht)

theorem Sound.inBounds (h : Sound ht s) : s.InBounds := by
  intro slot hslot
  have hresolved := h.pool slot (.inr hslot)
  rw [h.tables]
  exact ⟨hresolved, hresolved.readsTables⟩

theorem pointed_drained (om : OwnManager) : (drained om).pointed ⊆ om.pointed := by
  rintro slot ((hmarket | hawait | hhist | hqueue) | hown)
  · exact .inl (.inl hmarket)
  · exact .inl (.inr (.inl hawait))
  · exact .inl (.inr (.inr (.inl hhist)))
  · cases hqueue
  · exact .inr hown

/-- A step that keeps the symbols of the drained store, and hands over what it pushed. -/
theorem Sound.keeps (h : Sound ht s) {om : OwnManager}
    (hkeeps : OwnManager.KeepsSymbols (drained s.om) om) :
    Sound ht { s with om := om, toRisk := s.toRisk ++ om.storeToRisk.items } := by
  have htables : s.om.hashtables = ht := h.tables
  have hpool : PointedPool.Keeps (Resolved ht) (drained s.om).pool om.pool := by
    have hkept := hkeeps.pool
    rwa [show (drained s.om).hashtables = ht from htables] at hkept
  have hnew : ∀ slot ∈ om.pointed, Resolved ht (om.orderPool slot) := by
    refine hpool.sound fun slot hslot => ?_
    exact h.pool slot (.inl hslot)
  refine ⟨hkeeps.tables.trans htables, ?_⟩
  rintro slot (hslot | hslot)
  · exact hnew slot (pointed_drained om hslot)
  · rcases List.mem_append.mp hslot with hold | hpushed
    · exact hpool.cells slot (h.pool slot (.inr hold))
    · exact hnew slot (.inl (.inr (.inr (.inr hpushed))))

theorem spec_onMarket {om om' : OwnManager} {f : OrderManager → Except Fault OrderManager}
    {w : Option SymbolWrite}
    (hspec : ∀ market, f om.toOrderManager = .ok market → om.toOrderManager.Spec market w)
    (h : om.onMarket f = .ok om') : OwnManager.Spec om om' w := by
  obtain ⟨market, hrun, rfl⟩ := map_eq_ok_iff.mp h
  have hw := hspec market hrun
  cases w with
  | none => exact OwnManager.keepsSymbols_onMarket hw
  | some w =>
    obtain ⟨htables, slot, hslot, hiff, hkeeps⟩ := hw
    exact ⟨htables, slot, hslot, hiff, fun hfill => OwnManager.keepsSymbols_onMarket (hkeeps hfill)⟩

/-- **What a message of any type does to the symbols.** -/
theorem spec_update {om om' : OwnManager} {msg : StoreMessage} (hqueue : om.storeToRisk.items = [])
    (h : OwnManager.update hash om msg = .ok om') :
    OwnManager.Spec om om' (symbolWrite om.toOrderManager msg) := by
  cases msg with
  | fix m => exact OwnManager.keepsSymbols_updateOrderFix h
  | fixSession m =>
    rw [← Except.ok.inj h]
    exact (OwnManager.KeepsSymbols.refl om).same rfl rfl
  | bistItch m =>
    rw [OwnManager.update] at h
    exact spec_onMarket (fun _ => OrderManager.spec_updateOrderBist hqueue) h
  | nasdaqItch m =>
    rw [OwnManager.update] at h
    exact spec_onMarket (fun _ => OrderManager.spec_updateOrderNasdaq hqueue) h
  | bistOuch m => exact OwnManager.keepsSymbols_updateOrderBistOuch h
  | nasdaqOuch m => exact OwnManager.keepsSymbols_updateOrderNasdaqOuch h

/-- The queue to risk decides no lookup. -/
theorem symbolWrite_drained (om : OwnManager) (msg : StoreMessage) :
    symbolWrite (drained om).toOrderManager msg = symbolWrite om.toOrderManager msg := by
  cases msg with
  | bistItch m => cases m <;> rfl
  | nasdaqItch m => cases m <;> rfl
  | _ => rfl

/-- **A step that resolves its lookup keeps what is pushed to risk in bounds.** -/
theorem sound_step {e : RiskFeedEvent} (hplaced : e.Placed ht) (h : Sound ht s)
    (hresolves : s.Resolves e) (hs : s.step hash e = .ok s') : Sound ht s' := by
  cases e with
  | store msg =>
    obtain ⟨om, hom, rfl⟩ := map_eq_ok_iff.mp hs
    have hspec := spec_update rfl hom
    rw [symbolWrite_drained] at hspec
    refine h.keeps ?_
    cases hw : symbolWrite s.om.toOrderManager msg with
    | none =>
      rw [hw] at hspec
      exact hspec
    | some w =>
      rw [hw] at hspec
      obtain ⟨-, _, -, -, hkeeps⟩ := hspec
      exact hkeeps (hresolves w hw)
  | place slot order =>
    simp only [step, place] at hs
    split at hs
    · cases hs
    · rw [← Except.ok.inj hs]
      -- the slot is pointed to anew, and holds an order with the index of its symbol
      refine ⟨h.tables, PointedPool.Keeps.sound (PointedPool.keeps_of_good slot ?_ ?_ ?_) h.pool⟩
      · exact fun t ht => Function.update_of_ne ht _ _
      · rintro t (((hmarket | ⟨k, hk⟩ | hrest) | hown) | hsent)
        · exact .inl (.inl (.inl (.inl hmarket)))
        · refine (HashMap.lookup_of_lookup_insert hk).imp_left fun hold => ?_
          exact .inl (.inl (.inr (.inl ⟨k, hold⟩)))
        · exact .inl (.inl (.inl (.inr (.inr hrest))))
        · exact .inl (.inl (.inr hown))
        · exact .inl (.inr hsent)
      · show Resolved ht (Function.update s.om.orderPool slot order slot)
        rw [Function.update_self]
        exact hplaced
  | change slot order =>
    rw [← Except.ok.inj hs]
    have hsame : SameSymbol (s.om.orderPool slot) { order with
        symbol := (s.om.orderPool slot).symbol, symbolIndex := (s.om.orderPool slot).symbolIndex,
        venue := (s.om.orderPool slot).venue } := ⟨rfl, rfl, rfl⟩
    have hresolved : Resolved ht (s.om.orderPool slot) → Resolved ht _ := hsame.resolved_iff.mpr
    exact ⟨h.tables, ((PointedPool.Keeps.refl s.pool).write slot hresolved).sound h.pool⟩

/-- A step after which everything risk may read is in bounds has resolved its lookup. -/
theorem resolves_of_inBounds {e : RiskFeedEvent} (hs : s.step hash e = .ok s')
    (hbounds : s'.InBounds) : s.Resolves e := by
  cases e with
  | store msg =>
    obtain ⟨om, hom, rfl⟩ := map_eq_ok_iff.mp hs
    have hspec := spec_update rfl hom
    rw [symbolWrite_drained] at hspec
    intro w hw
    rw [hw] at hspec
    obtain ⟨htables, slot, hslot, hiff, -⟩ := hspec
    have hresolved := (hbounds slot (List.mem_append_right _ hslot)).1
    rw [htables] at hresolved
    exact hiff.mp hresolved
  | place slot order => trivial
  | change slot order => trivial

end RiskFeed

open RiskFeed

/-- **When risk indexes its tables in bounds.**  From a store that points to no order, in
a run of messages of every type in which own orders are placed with the index of their
symbol: every order pushed to risk has, from then on, the index of its symbol, below the
size of the tables, iff every lookup that a message makes is fillable. -/
theorem pushed_resolved_iff (hash : List UInt8 → UInt64) (om : OwnManager)
    (hfresh : om.pointed = ∅) (es : List RiskFeedEvent)
    (hplaced : ∀ e ∈ es, e.Placed om.hashtables) (t : RiskFeed)
    (h : exec (RiskFeed.step hash) { om := om } es = .ok t) :
    (∀ es₁ u, es₁ <+: es → exec (RiskFeed.step hash) { om := om } es₁ = .ok u → u.InBounds) ↔
      Along (RiskFeed.step hash) Resolves { om := om } es := by
  -- at the start nothing is pushed and nothing is pointed to
  have hstart : Sound om.hashtables { om := om } := by
    refine ⟨rfl, ?_⟩
    rintro slot (hslot | hslot)
    · have hold : slot ∈ om.pointed := pointed_drained om hslot
      rw [hfresh] at hold
      exact absurd hold (Set.notMem_empty slot)
    · cases hslot
  have hkeeps : ∀ (past : List RiskFeedEvent) (s : RiskFeed) (e : RiskFeedEvent) (s' : RiskFeed),
      e.Placed om.hashtables → Sound om.hashtables s → s.Resolves e → s.step hash e = .ok s' →
        Sound om.hashtables s' := by
    intro _ s e s' hp hs hc hstep
    exact sound_step hp hs hc hstep
  have hexact : ∀ (past : List RiskFeedEvent) (s : RiskFeed) (e : RiskFeedEvent) (s' : RiskFeed),
      e.Placed om.hashtables → Sound om.hashtables s → s.step hash e = .ok s' → s'.InBounds →
        s.Resolves e := by
    intro _ s e s' _ _ hstep hgood
    exact resolves_of_inBounds hstep hgood
  exact forall_prefix_iff_along_history (fun _ _ => Sound.inBounds) hkeeps hexact [] hstart
    hplaced h

/-- A store whose tables list one symbol, "A", for both venues. -/
def oneListed : OwnManager :=
  { hashtables := ⟨fun _ => Finmap.insert [65] 0 ∅⟩, ourOrdersAllVenue := fun _ => [{}] }

theorem pointed_oneListed : oneListed.pointed = ∅ := by
  have hnone : ∀ {κ : Type} [DecidableEq κ] {k : κ} {slot : OrderSlot},
      (∅ : HashMap κ OrderSlot).lookup k ≠ some slot := by
    intro κ _ k slot h
    rw [Finmap.lookup_empty] at h
    cases h
  refine Set.eq_empty_of_forall_notMem ?_
  rintro slot ((⟨k, hk⟩ | ⟨k, hk⟩ | ⟨v, history, hmem, i, hi⟩ | hqueue) | ⟨k, hk⟩ | ⟨k, hk⟩)
  · exact hnone hk
  · exact hnone hk
  · rw [List.mem_singleton.mp hmem] at hi
    cases hi
  · cases hqueue
  · exact hnone hk
  · exact hnone hk

/-- The directory entry of an instrument. -/
def directoryEntry (orderBookId : UInt32) (symbol : List UInt8) : StoreMessage :=
  .bistItch (.orderBookDirectory { orderBookId, roundLotSize := 1, symbol })

/-- A bid of 5 at 100 for instrument 7. -/
def bidForSeven : StoreMessage :=
  .bistItch (.addOrder { orderId := 1, quantity := 5, orderBookId := 7, price := 100, side := charB })

/-- The listed instrument is traded, and an own order for it is accepted. -/
def listedOnly : List RiskFeedEvent :=
  [.store (directoryEntry 7 [65]), .store bidForSeven,
    .place 32768 { symbol := [65], venue := .bist, isOurOrder := true, side := .buy },
    .store (.bistOuch (.accepted
      { orderId := 2, quantity := 5, orderBookId := 7, price := 100, orderToken := [], side := charB }))]

theorem pushed_resolved_iff_listedOnly :
    ∃ t, exec (RiskFeed.step fun _ => 0) { om := oneListed } listedOnly = .ok t ∧
      t.toRisk = [0, 32768] ∧ t.InBounds := by
  have hplaced : ∀ e ∈ listedOnly, e.Placed oneListed.hashtables := by
    intro e he
    simp only [listedOnly, List.mem_cons, List.not_mem_nil, or_false] at he
    rcases he with rfl | rfl | rfl | rfl
    · trivial
    · trivial
    · exact ⟨⟨0, rfl, by decide⟩, by decide⟩
    · trivial
  have hresolves : Along (RiskFeed.step fun _ => 0) Resolves { om := oneListed } listedOnly := by
    refine along_cons _ (fun w hw => by cases hw) rfl ?_
    refine along_cons _ (fun w hw => ?_) rfl ?_
    · have hwrite : ⟨0, 7, {}⟩ = w := Option.some.inj hw
      rw [← hwrite]
      exact show (0 : UInt32).toNat < 512 by decide
    · refine along_cons _ trivial rfl (along_cons _ (fun w hw => by cases hw) rfl trivial)
  have hall := (pushed_resolved_iff (fun _ => 0) oneListed pointed_oneListed listedOnly hplaced _
    rfl).mpr hresolves
  exact ⟨_, rfl, rfl, hall listedOnly _ (List.prefix_refl _) rfl⟩

/-- **An instrument whose symbol is not in the tables.**  Its order is pushed to risk with
the index `UINT32_MAX`, which is outside `symbolrisks_` and has no book. -/
theorem unlisted_symbol_pushed :
    oneListed.pointed = ∅ ∧ ∃ t,
      exec (RiskFeed.step fun _ => 0) { om := oneListed }
        [.store (directoryEntry 7 [66]), .store bidForSeven] = .ok t ∧
      t.toRisk = [0] ∧ (t.om.orderPool 0).symbolIndex = uint32Max ∧ ¬t.InBounds ∧
      MarketBook.getSymBook (t.om.orderPool 0) = .ok none ∧
      ∀ (re : RiskEngine) (mb : MarketBook) (m : OrderMetrics) (v : VenueIndex),
        re.updateSymbolRisk mb (t.om.orderPool 0) m v = .error .outOfBounds := by
  refine ⟨pointed_oneListed, _, rfl, rfl, rfl, fun hbounds => ?_, rfl, fun re mb m v => rfl⟩
  exact absurd (hbounds 0 (List.mem_singleton_self 0)).1.lt (by decide)

end TradingEngine
