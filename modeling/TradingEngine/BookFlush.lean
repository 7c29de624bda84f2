/-
What an order book flush does to our own orders.

`handle_flush_status` cancels the New and Partial orders among the last 64 of the
symbol and queues them for the risk engine.  It leaves the unfilled quantity in
`remaining_quantity` and does not touch `replaced_quantity`; the risk engine takes
an order off its counts when a cancel leaves nothing, and releases the margin by
`replaced_quantity`.  So a flushed order stays counted and its margin stays in use,
and a Replaced order, or one that is no longer among the last 64, stays live.

* `foldl_flushOrder_of_idle` — a flush that finds no New or Partial order changes
  no order and queues none;
* `stillCounted_foldl_flushOrder` — what it queues otherwise is cancelled with a
  quantity left;
* `openOrders_riskTurns` — which the risk engine does not take off the count;
* `flush_closes` — a flush of a symbol without live orders does what it should, and
  of ordinary orders it does so in no other case.
-/
import TradingEngine.ItchUpdate
import TradingEngine.OpenOrders
import TradingEngine.RiskRuns

namespace TradingEngine

open FallibleRun RiskEngine

/-! ### Live orders -/

/-- An own BIST order of the symbol in a live status. -/
structure LiveOn (i : SymbolSlot) (o : Order) : Prop where
  own : o.isOurOrder = true
  bist : o.venue = .bist
  symbol : symbolSlot o.symbolIndex = .ok i
  status : o.status = .new ∨ o.status = .partialFill ∨
    (o.status = .replaced ∧ o.remainingQuantity ≠ 0)

open Classical in
/-- The slots that hold a live order of the symbol. -/
noncomputable def liveSlots (om : OrderManager) (i : SymbolSlot) : Finset OrderSlot :=
  Finset.univ.filter fun slot => LiveOn i (om.orderPool slot)

/-- Price times remaining quantity. -/
def Order.openNotional (o : Order) : ℤ := o.price.toInt * o.remainingQuantity.toNat

/-- The slots of the history, in the order of the array. -/
def OrderHistory.slots (history : OrderHistory) : List OrderSlot :=
  (List.finRange 64).filterMap history.orders

/-- The book is in the directory, its symbol has the index `i`, and `history` are our last
orders on it. -/
structure KnownBook (om : OrderManager) (m : Bist.OrderBookFlush) (i : SymbolSlot)
    (history : OrderHistory) : Prop where
  listed : ∃ sym, om.getSymbolmeta 0 m.orderBookId = some sym ∧
    symbolSlot (om.hashtables.getIndex 0 sym.symbol) = .ok i
  history : (om.ourOrdersAllVenue 0)[i.val]? = some history

/-- What the flush has queued for the risk engine. -/
def queuedBy (om om₁ : OrderManager) : List OrderSlot :=
  om₁.storeToRisk.items.drop om.storeToRisk.items.length

/-- The loop body of `update_risk` for one slot after the other. -/
def riskTurns (s : RiskEngine × OrderManager) (slots : List OrderSlot) :
    Except Fault (RiskEngine × OrderManager) :=
  exec (fun s slot => (s.1.updateRiskTurn s.2 slot).map Prod.snd) s slots

/-- The flush and the `update_risk` steps that result from it close the live orders of the
symbol: none is left, and the counts and the margin have dropped by them. -/
def FlushCloses (om : OrderManager) (re : RiskEngine) (m : Bist.OrderBookFlush)
    (i : SymbolSlot) : Prop :=
  ∃ om₁ re' om', om.updateOrderBist (.orderBookFlush m) = .ok om₁ ∧
    riskTurns (re, om₁) (queuedBy om om₁) = .ok (re', om') ∧
    (∀ slot, ¬ LiveOn i (om'.orderPool slot)) ∧
    (re'.accountrisks 0).openOrdersCount =
      (re.accountrisks 0).openOrdersCount - UInt32.ofNat (liveSlots om i).card ∧
    (re'.symbolrisks 0 i).openOrdersCount =
      (re.symbolrisks 0 i).openOrdersCount - Int32.ofNat (liveSlots om i).card ∧
    (re'.accountrisks 0).usedMargin = (re.accountrisks 0).usedMargin -
      Int64.ofInt (∑ slot ∈ liveSlots om i, (om.orderPool slot).openNotional)

/-- No own order of the symbol is live, and the history points to no order that the flush
would cancel. -/
structure NothingLive (om : OrderManager) (i : SymbolSlot) (history : OrderHistory) : Prop where
  none : ∀ slot, ¬ LiveOn i (om.orderPool slot)
  idle : ∀ slot ∈ history.slots, (om.orderPool slot).status ≠ .new ∧
    (om.orderPool slot).status ≠ .partialFill

/-! ### The flush of the history -/

/-- The quantity that the flush leaves in an order. -/
def Order.unfilled (o : Order) : UInt32 :=
  if o.status = .new then o.quantity else o.quantity - o.filledQuantity

/-- The order as the flush leaves it. -/
def Order.flushed (o : Order) : Order :=
  { o with
    status := .cancelled
    cancelledCount := o.cancelledCount + 1
    remainingQuantity := o.unfilled }

namespace OrderManager

variable {om : OrderManager} {slot : OrderSlot}

theorem flushOrder_of_idle (hnew : (om.orderPool slot).status ≠ .new)
    (hpart : (om.orderPool slot).status ≠ .partialFill) : om.flushOrder slot = om := by
  rw [flushOrder, if_neg hnew, if_neg hpart]

theorem flushOrder_of_open
    (h : (om.orderPool slot).status = .new ∨ (om.orderPool slot).status = .partialFill) :
    om.flushOrder slot = { om.setOrder slot (om.orderPool slot).flushed with
      storeToRisk := om.storeToRisk.push slot
      storeToStrategy := om.storeToStrategy.push slot } := by
  rcases h with h | h
  · rw [flushOrder, if_pos h, Order.flushed, Order.unfilled, if_pos h]
  · have hne : (om.orderPool slot).status ≠ .new := by
      rw [h]
      decide
    rw [flushOrder, if_neg hne, if_pos h, Order.flushed, Order.unfilled, if_neg hne]

theorem handleFlushStatus_eq {v : VenueIndex} {index : UInt32} {history : OrderHistory}
    (h : (om.ourOrdersAllVenue v)[index.toNat]? = some history) :
    om.handleFlushStatus v index = .ok (history.slots.foldl flushOrder om) := by
  rw [handleFlushStatus, h, OrderHistory.slots, List.foldl_filterMap]
  refine congrArg Except.ok (congrArg (fun f => List.foldl f om (List.finRange 64)) ?_)
  funext om' i
  cases history.orders i with
  | none => rfl
  | some slot => rfl

/-- The flush of a known book is the flush of its history. -/
theorem updateOrderBist_flush {m : Bist.OrderBookFlush} {i : SymbolSlot} {history : OrderHistory}
    (h : KnownBook om m i history) :
    ∃ mb, om.updateOrderBist (.orderBookFlush m) =
      .ok ((history.slots.foldl flushOrder (om.setBook mb)).pushDb
        (.bistItch (.orderBookFlush m))) := by
  obtain ⟨sym, hsym, hi⟩ := h.listed
  have hindex : (om.hashtables.getIndex 0 sym.symbol).toNat = i.val := by
    rw [symbolSlot] at hi
    split at hi
    · rw [← Except.ok.inj hi]
    · cases hi
  refine ⟨om.marketbook.setSymBook 0 i (om.marketbook.symbolbooks 0 i).flush, ?_⟩
  have hflush : om.marketbook.flush 0 (om.hashtables.getIndex 0 sym.symbol) =
      .ok (om.marketbook.setSymBook 0 i (om.marketbook.symbolbooks 0 i).flush) := by
    rw [MarketBook.flush, hi]
    rfl
  have hhistory : ((om.setBook (om.marketbook.setSymBook 0 i
      (om.marketbook.symbolbooks 0 i).flush)).ourOrdersAllVenue 0)[
        (om.hashtables.getIndex 0 sym.symbol).toNat]? = some history := by
    rw [hindex]
    exact h.history
  have hbook : om.updateBistFlush m = .ok (history.slots.foldl flushOrder
      (om.setBook (om.marketbook.setSymBook 0 i (om.marketbook.symbolbooks 0 i).flush))) := by
    rw [updateBistFlush, hsym]
    show (om.marketbook.flush 0 (om.hashtables.getIndex 0 sym.symbol) >>= _) = _
    rw [hflush]
    exact handleFlushStatus_eq hhistory
  rw [updateOrderBist, hbook]
  rfl

/-- A flush that finds no New or Partial order changes nothing. -/
theorem foldl_flushOrder_of_idle {slots : List OrderSlot}
    (h : ∀ slot ∈ slots, (om.orderPool slot).status ≠ .new ∧
      (om.orderPool slot).status ≠ .partialFill) : slots.foldl flushOrder om = om := by
  induction slots with
  | nil => rfl
  | cons slot slots ih =>
    obtain ⟨hnew, hpart⟩ := h slot List.mem_cons_self
    rw [List.foldl_cons, flushOrder_of_idle hnew hpart]
    exact ih fun t ht => h t (List.mem_cons_of_mem _ ht)

end OrderManager

/-! ### Ordinary orders -/

/-- An own BIST order of the symbol that has something left when it is New or Partial.
`fill_fix_new` clears the statuses from before New. -/
structure Ordinary (i : SymbolSlot) (o : Order) : Prop where
  own : o.isOurOrder = true
  bist : o.venue = .bist
  symbol : symbolSlot o.symbolIndex = .ok i
  unfilled : o.status = .new ∨ o.status = .partialFill → o.unfilled ≠ 0
  preNew : o.syncState = .newSeen → o.statusesPreNew = (.unknown, .unknown)

/-- An own order that the risk engine takes off no count. -/
structure StillCounted (o : Order) : Prop where
  own : o.isOurOrder = true
  status : o.status = .cancelled ∨ o.status = .unknown
  left : o.remainingQuantity ≠ 0
  preNew : o.syncState = .newSeen → o.statusesPreNew = (.unknown, .unknown)

theorem Ordinary.flushed {i : SymbolSlot} {o : Order} (h : Ordinary i o) :
    Ordinary i o.flushed := by
  refine ⟨h.own, h.bist, h.symbol, fun hopen => ?_, h.preNew⟩
  rcases hopen with hopen | hopen
  · cases hopen
  · cases hopen

theorem Ordinary.stillCounted_flushed {i : SymbolSlot} {o : Order} (h : Ordinary i o)
    (hopen : o.status = .new ∨ o.status = .partialFill) : StillCounted o.flushed :=
  ⟨h.own, .inl rfl, h.unfilled hopen, h.preNew⟩

/-- The flush queues orders that are cancelled with a quantity left. -/
theorem stillCounted_foldl_flushOrder {i : SymbolSlot} {k : ℕ} {slots : List OrderSlot}
    {om : OrderManager} (hord : ∀ slot ∈ slots, Ordinary i (om.orderPool slot))
    (hk : k ≤ om.storeToRisk.items.length)
    (hold : ∀ slot ∈ om.storeToRisk.items.drop k, StillCounted (om.orderPool slot)) :
    ∀ slot ∈ (slots.foldl OrderManager.flushOrder om).storeToRisk.items.drop k,
      StillCounted ((slots.foldl OrderManager.flushOrder om).orderPool slot) := by
  induction slots generalizing om with
  | nil => exact hold
  | cons slot slots ih =>
    rw [List.foldl_cons]
    have hfirst := hord slot List.mem_cons_self
    by_cases hopen : (om.orderPool slot).status = .new ∨ (om.orderPool slot).status = .partialFill
    · rw [OrderManager.flushOrder_of_open hopen]
      refine ih ?_ ?_ ?_
      · intro t ht
        show Ordinary i (Function.update om.orderPool slot _ t)
        by_cases hts : t = slot
        · rw [hts, Function.update_self]
          exact hfirst.flushed
        · rw [Function.update_of_ne hts]
          exact hord t (List.mem_cons_of_mem _ ht)
      · exact le_trans hk (BoundedQueue.length_le_length_push _ _)
      · intro t ht
        show StillCounted (Function.update om.orderPool slot _ t)
        by_cases hts : t = slot
        · rw [hts, Function.update_self]
          exact hfirst.stillCounted_flushed hopen
        · rw [Function.update_of_ne hts]
          exact hold t ((BoundedQueue.mem_drop_push hk ht).resolve_right hts)
    · obtain ⟨hnew, hpart⟩ := not_or.mp hopen
      rw [OrderManager.flushOrder_of_idle hnew hpart]
      exact ih (fun t ht => hord t (List.mem_cons_of_mem _ ht)) hk hold

/-! ### The risk engine -/

/-- A cancel that leaves something is not counted by the account. -/
theorem openOrders_riskStep {re re' : RiskEngine} {e : RiskEvent} (hown : e.order.isOurOrder = true)
    (hstatus : e.order.status = .cancelled ∨ e.order.status = .unknown)
    (hleft : e.order.remainingQuantity ≠ 0) (h : riskStep re e = .ok re') (v : VenueIndex) :
    (re'.accountrisks v).openOrdersCount = (re.accountrisks v).openOrdersCount := by
  obtain ⟨w, j, acc, sym, acc', -, -, hrisk, hacc, haccs, -, -⟩ := riskStep_eq_ok h
  rw [if_pos (.inr hown)] at hacc
  rw [symbolRisk, if_pos hown] at hrisk
  -- the symbol's switch leaves the account alone in both cases
  have hsame : acc = re.accountrisks w := by
    rcases hstatus with hs | hs
    · rw [ownSymbolRisk, hs] at hrisk
      dsimp only at hrisk
      split at hrisk
      · exact (Prod.mk.inj (Except.ok.inj hrisk)).1.symm
      · exact (Prod.mk.inj (Except.ok.inj hrisk)).1.symm
    · rw [ownSymbolRisk, hs] at hrisk
      exact (Prod.mk.inj (Except.ok.inj hrisk)).1.symm
  have hcounted : Counted e.order := by
    refine ⟨?_, fun _ hzero => absurd hzero hleft⟩
    rcases hstatus with hs | hs
    · rw [hs]
      decide
    · rw [hs]
      decide
  have hmoved : acc'.openOrdersCount = (re.accountrisks w).openOrdersCount := by
    rw [openOrdersCount_updateAccountRisk hcounted hacc, hsame]
    rcases hstatus with hs | hs
    · simp [movedCount, Order.terminal, hs, hleft]
    · simp [movedCount, Order.terminal, hs]
  rw [haccs]
  by_cases hv : v = w
  · rw [hv, Function.update_self, hmoved]
  · rw [Function.update_of_ne hv]

/-- The reports of such an order are such orders. -/
theorem StillCounted.of_mem_reports {o o' : Order} (h : StillCounted o) (ho' : o' ∈ reports o) :
    StillCounted o' := by
  rw [reports] at ho'
  split at ho'
  · split at ho'
    · exact absurd ho' List.not_mem_nil
    · -- nothing but the order itself is left of the list
      rename_i hnew
      have hseen := newSeen_of_ne_waitingNew hnew
      obtain ⟨hmem, hknown⟩ := List.mem_filter.mp ho'
      rw [h.preNew hseen] at hmem
      simp only [List.mem_cons, List.not_mem_nil, or_false] at hmem
      rcases hmem with rfl | rfl | rfl
      · exact h
      · exact absurd rfl (of_decide_eq_true hknown)
      · exact absurd rfl (of_decide_eq_true hknown)
  · exact List.mem_singleton.mp ho' ▸ h

theorem StillCounted.settled {o : Order} (h : StillCounted o) : StillCounted (settled o) := by
  rw [RiskEngine.settled]
  split
  · split
    · exact h
    · rename_i hnew
      have hseen := newSeen_of_ne_waitingNew hnew
      exact ⟨h.own, .inr (by rw [h.preNew hseen]), h.left, h.preNew⟩
  · exact ⟨h.own, h.status, h.left, h.preNew⟩

theorem openOrders_applications {re re' : RiskEngine} {o : Order} {mb : MarketBook}
    (ho : StillCounted o) (h : exec riskStep re (applications ⟨o, mb⟩) = .ok re') (v : VenueIndex) :
    (re'.accountrisks v).openOrdersCount = (re.accountrisks v).openOrdersCount := by
  let Same : RiskEngine → Prop := fun t =>
    (t.accountrisks v).openOrdersCount = (re.accountrisks v).openOrdersCount
  have hevents : ∀ e ∈ applications ⟨o, mb⟩, StillCounted e.order := by
    intro e he
    obtain ⟨o', ho', rfl⟩ := List.mem_map.mp he
    exact ho.of_mem_reports ho'
  suffices hsame : Same re' from hsame
  refine exec_inv_along ?_ (show Same re from rfl) (along_of_forall hevents re) h
  intro s e s' hs he hstep
  exact (openOrders_riskStep he.own he.status he.left hstep v).trans hs

/-- Such orders leave the counts of the accounts as they are. -/
theorem openOrders_riskTurns {slots : List OrderSlot} {re re' : RiskEngine}
    {om om' : OrderManager} (hslots : ∀ slot ∈ slots, StillCounted (om.orderPool slot))
    (h : riskTurns (re, om) slots = .ok (re', om')) (v : VenueIndex) :
    (re'.accountrisks v).openOrdersCount = (re.accountrisks v).openOrdersCount := by
  induction slots generalizing re om with
  | nil =>
    cases h
    rfl
  | cons slot slots ih =>
    obtain ⟨⟨re₁, om₁⟩, hone, hrest⟩ := exec_cons_eq_ok_iff.mp h
    obtain ⟨⟨done, re₂, om₂⟩, hturn, heq⟩ := map_eq_ok_iff.mp hone
    obtain ⟨⟨done', re₃, order'⟩, hbody, hset⟩ := bind_eq_ok_iff.mp hturn
    cases heq
    cases hset
    obtain ⟨-, rfl⟩ := order_of_updateRiskOrder hbody
    have hfirst := hslots slot List.mem_cons_self
    have hcount : (re₁.accountrisks v).openOrdersCount = (re.accountrisks v).openOrdersCount :=
      openOrders_applications hfirst (exec_applications_of_updateRiskOrder hbody) v
    rw [ih ?_ hrest, hcount]
    intro t ht
    show StillCounted (Function.update om.orderPool slot _ t)
    by_cases hts : t = slot
    · rw [hts, Function.update_self]
      exact hfirst.settled
    · rw [Function.update_of_ne hts]
      exact hslots t (List.mem_cons_of_mem _ ht)

/-! ### The flush of a book -/

theorem mem_liveSlots {om : OrderManager} {i : SymbolSlot} {slot : OrderSlot} :
    slot ∈ liveSlots om i ↔ LiveOn i (om.orderPool slot) := by
  simp [liveSlots]

theorem liveSlots_eq_empty {om : OrderManager} {i : SymbolSlot}
    (h : ∀ slot, ¬ LiveOn i (om.orderPool slot)) : liveSlots om i = ∅ := by
  refine Finset.eq_empty_of_forall_notMem fun slot hslot => ?_
  exact h slot (mem_liveSlots.mp hslot)

/-- With nothing live there is nothing to close. -/
theorem flushCloses_of_nothingLive {om : OrderManager} (re : RiskEngine)
    {m : Bist.OrderBookFlush} {i : SymbolSlot} {history : OrderHistory}
    (hbook : KnownBook om m i history) (h : NothingLive om i history) :
    FlushCloses om re m i := by
  obtain ⟨mb, hflush⟩ := OrderManager.updateOrderBist_flush hbook
  have hidle : history.slots.foldl OrderManager.flushOrder (om.setBook mb) = om.setBook mb :=
    OrderManager.foldl_flushOrder_of_idle h.idle
  rw [hidle] at hflush
  set om₁ := (om.setBook mb).pushDb (.bistItch (.orderBookFlush m))
  have hqueued : queuedBy om om₁ = [] := List.drop_length
  refine ⟨om₁, re, om₁, hflush, ?_, h.none, ?_, ?_, ?_⟩
  · rw [hqueued]
    rfl
  · rw [liveSlots_eq_empty h.none, Finset.card_empty]
    exact (UInt32.sub_zero _).symm
  · rw [liveSlots_eq_empty h.none, Finset.card_empty]
    exact (Int32.sub_zero _).symm
  · rw [liveSlots_eq_empty h.none, Finset.sum_empty]
    exact (Int64.sub_zero _).symm

/-- Ordinary orders are closed only when there are none. -/
theorem nothingLive_of_flushCloses {om : OrderManager} {re : RiskEngine}
    {m : Bist.OrderBookFlush} {i : SymbolSlot} {history : OrderHistory}
    (hbook : KnownBook om m i history)
    (hord : ∀ slot ∈ history.slots, Ordinary i (om.orderPool slot))
    (h : FlushCloses om re m i) : NothingLive om i history := by
  obtain ⟨om₁, re', om', hflush, hturns, -, hcount, -, -⟩ := h
  obtain ⟨mb, hflush'⟩ := OrderManager.updateOrderBist_flush hbook
  rw [hflush', Except.ok.injEq] at hflush
  have hcounted : ∀ slot ∈ queuedBy om om₁, StillCounted (om₁.orderPool slot) := by
    have hnew : ∀ slot ∈ (om.setBook mb).storeToRisk.items.drop om.storeToRisk.items.length,
        StillCounted ((om.setBook mb).orderPool slot) := by
      intro slot hslot
      have hnil : (om.setBook mb).storeToRisk.items.drop om.storeToRisk.items.length = [] :=
        List.drop_length
      rw [hnil] at hslot
      exact absurd hslot List.not_mem_nil
    rw [← hflush]
    exact stillCounted_foldl_flushOrder hord (le_refl _) hnew
  rw [openOrders_riskTurns hcounted hturns 0] at hcount
  -- the count wraps around at 2^32, and there are 65536 slots
  have hcard : (liveSlots om i).card = 0 := by
    have hle : (liveSlots om i).card ≤ 65536 := le_trans (Finset.card_le_univ _) (by simp)
    have hzero : UInt32.ofNat (liveSlots om i).card = 0 := by grind
    have hnat := congrArg UInt32.toNat hzero
    rw [UInt32.toNat_ofNat'] at hnat
    exact (Nat.mod_eq_of_lt (by omega)).symm.trans hnat
  have hnone : ∀ slot, ¬ LiveOn i (om.orderPool slot) := by
    intro slot hlive
    have hmem := mem_liveSlots.mpr hlive
    rw [Finset.card_eq_zero.mp hcard] at hmem
    exact absurd hmem (Finset.notMem_empty _)
  refine ⟨hnone, fun slot hslot => ⟨fun hs => ?_, fun hs => ?_⟩⟩
  · have ho := hord slot hslot
    exact hnone slot ⟨ho.own, ho.bist, ho.symbol, .inl hs⟩
  · have ho := hord slot hslot
    exact hnone slot ⟨ho.own, ho.bist, ho.symbol, .inr (.inl hs)⟩

/-- A flush does what it should when nothing is live on the symbol; when the orders of the
history are ordinary, in no other case. -/
theorem flush_closes (om : OrderManager) (re : RiskEngine) (m : Bist.OrderBookFlush)
    (i : SymbolSlot) (history : OrderHistory) (hbook : KnownBook om m i history) :
    (NothingLive om i history → FlushCloses om re m i) ∧
    ((∀ slot ∈ history.slots, Ordinary i (om.orderPool slot)) → FlushCloses om re m i →
      NothingLive om i history) :=
  ⟨flushCloses_of_nothingLive re hbook, nothingLive_of_flushCloses hbook⟩

/-- Our last orders on a symbol are the one in slot 40000. -/
def oneOrder : OrderHistory where
  orders := fun k => if k = 0 then some 40000 else none
  writeIndex := 1

/-- The table of a venue with one symbol. -/
def firstSymbol : HashMap (List UInt8) UInt32 := Finmap.singleton [71] 0

/-- The book 70 of the first symbol, with `o` as our only order on it. -/
def bookWith (o : Order) : OrderManager where
  orderPool := Function.update (fun _ => {}) 40000 o
  instrumentCache := fun _ => Finmap.singleton 70 { instrumentId := 70, symbol := [71] }
  hashtables := { hashtables := fun _ => firstSymbol }
  ourOrdersAllVenue := fun _ => [oneOrder]

/-- An own bid for 10 at 100. -/
def bidOf (status : Status) (filled : UInt32) : Order :=
  { price := 100
    quantity := 10
    filledQuantity := filled
    remainingQuantity := 10 - filled
    lastExecQuantity := filled
    side := .buy
    status := status
    venue := .bist
    isOurOrder := true
    protocol := .ouch }

theorem knownBook_bookWith (o : Order) : KnownBook (bookWith o) ⟨70⟩ 0 oneOrder := by
  have hindex : (bookWith o).hashtables.getIndex 0 [71] = 0 := by
    show (firstSymbol.lookup [71]).getD uint32Max = 0
    rw [firstSymbol, Finmap.lookup_singleton_eq]
    rfl
  refine ⟨⟨{ instrumentId := 70, symbol := [71] }, Finmap.lookup_singleton_eq, ?_⟩, rfl⟩
  rw [hindex]
  rfl

theorem slots_oneOrder : oneOrder.slots = [40000] := by decide

theorem orderPool_bookWith (o : Order) :
    (bookWith o).orderPool = Function.update (fun _ => {}) 40000 o := rfl

theorem orderPool_bookWith_own (o : Order) : (bookWith o).orderPool 40000 = o := by
  rw [orderPool_bookWith, Function.update_self]

theorem ordinary_bookWith {o : Order} (h : Ordinary 0 o) :
    ∀ slot ∈ oneOrder.slots, Ordinary 0 ((bookWith o).orderPool slot) := by
  intro slot hslot
  rw [slots_oneOrder, List.mem_singleton] at hslot
  rw [hslot, orderPool_bookWith_own]
  exact h

theorem ordinary_newBid : Ordinary 0 (bidOf .new 0) :=
  ⟨rfl, rfl, rfl, fun _ => by decide, fun _ => rfl⟩

theorem nothingLive_filled : NothingLive (bookWith (bidOf .filled 10)) 0 oneOrder := by
  refine ⟨?_, ?_⟩
  · intro slot hlive
    by_cases hslot : slot = 40000
    · rw [hslot, orderPool_bookWith_own] at hlive
      exact absurd hlive.status (by decide)
    · rw [orderPool_bookWith, Function.update_of_ne hslot] at hlive
      exact absurd hlive.own (by decide)
  · intro slot hslot
    rw [slots_oneOrder, List.mem_singleton] at hslot
    rw [hslot, orderPool_bookWith_own]
    exact ⟨by decide, by decide⟩

theorem flush_closes_filled :
    KnownBook (bookWith (bidOf .filled 10)) ⟨70⟩ 0 oneOrder ∧
    NothingLive (bookWith (bidOf .filled 10)) 0 oneOrder ∧
    FlushCloses (bookWith (bidOf .filled 10)) {} ⟨70⟩ 0 :=
  ⟨knownBook_bookWith _, nothingLive_filled,
    (flush_closes _ _ _ _ _ (knownBook_bookWith _)).1 nothingLive_filled⟩

/-- The engine that has seen the bid. -/
def oneBid : RiskEngine := (exec riskStep {} [⟨bidOf .new 0, {}⟩]).toOption.getD default

/-- The engine that has seen the flushed bid as well. -/
def flushedBid : RiskEngine :=
  (exec riskStep oneBid [⟨(bidOf .new 0).flushed, {}⟩]).toOption.getD default

/-- The flush leaves the bid with 10 remaining, and the counts and the margin of 1000 stay as
they were. -/
theorem flushed_bid_still_counted :
    exec riskStep {} [⟨bidOf .new 0, {}⟩] = .ok oneBid ∧
    KnownBook (bookWith (bidOf .new 0)) ⟨70⟩ 0 oneOrder ∧
    LiveOn 0 ((bookWith (bidOf .new 0)).orderPool 40000) ∧
    (∃ om₁, (bookWith (bidOf .new 0)).updateOrderBist (.orderBookFlush ⟨70⟩) = .ok om₁ ∧
      om₁.orderPool 40000 = (bidOf .new 0).flushed ∧ om₁.storeToRisk.items = [40000]) ∧
    exec riskStep oneBid [⟨(bidOf .new 0).flushed, {}⟩] = .ok flushedBid ∧
    (oneBid.accountrisks 0).openOrdersCount = 1 ∧ (flushedBid.accountrisks 0).openOrdersCount = 1 ∧
    (flushedBid.symbolrisks 0 0).openOrdersCount = 1 ∧
    (oneBid.accountrisks 0).usedMargin = 1000 ∧ (flushedBid.accountrisks 0).usedMargin = 1000 ∧
    ¬ FlushCloses (bookWith (bidOf .new 0)) oneBid ⟨70⟩ 0 := by
  have hlive : LiveOn 0 ((bookWith (bidOf .new 0)).orderPool 40000) :=
    ⟨rfl, rfl, rfl, .inl rfl⟩
  refine ⟨rfl, knownBook_bookWith _, hlive, ?_, rfl, rfl, rfl, rfl, rfl, rfl, ?_⟩
  · obtain ⟨mb, hflush⟩ := OrderManager.updateOrderBist_flush (knownBook_bookWith (bidOf .new 0))
    rw [slots_oneOrder, List.foldl_cons, List.foldl_nil,
      OrderManager.flushOrder_of_open (.inl rfl)] at hflush
    refine ⟨_, hflush, ?_, rfl⟩
    show Function.update (bookWith (bidOf .new 0)).orderPool 40000
      ((bookWith (bidOf .new 0)).orderPool 40000).flushed 40000 = _
    rw [Function.update_self, orderPool_bookWith_own]
  · intro h
    exact (nothingLive_of_flushCloses (knownBook_bookWith _) (ordinary_bookWith ordinary_newBid)
      h).none 40000 hlive

end TradingEngine
