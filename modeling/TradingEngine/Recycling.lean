/-
Market depth when slots are taken again.

Market slots are handed out by age, not by whether their order still rests at
the exchange.  An add that takes the slot of a resting order evicts it: the book
keeps its quantity, but its later messages no longer find it (on BIST its key is
erased, on NASDAQ its reference leads to the order that took the slot).  The
runs below move the references of evicted orders into the set of those that are
no longer reached, next to the references a replace has introduced.

* `recycled_trees_empty` — in every exchange-consistent run of either venue, of
  any length, in which no message names an order that is no longer reached, the
  trees of a symbol are empty once nothing is left of its orders;
* `evicted_order_stays` — 32768 adds after a bid of another instrument, the
  delete of the bid is dropped and its level stays.
-/
import TradingEngine.MarketFrame

namespace TradingEngine

open FallibleRun OrderManager

/-! ### Orders that are no longer reached -/

section Forget

variable {ι : Type} [DecidableEq ι] {v : VenueIndex}
  {resolve : OrderManager → ι → Option OrderSlot} {f : Feed ι} {id : ι}

/-- The references of `ids` no longer lead to their orders. -/
def Feed.forget (f : Feed ι) (ids : Finset ι) : Feed ι := { f with renamed := ids ∪ f.renamed }

/-- The references whose order lies in the slot the next add takes. -/
def Feed.evicted (f : Feed ι) (resolve : OrderManager → ι → Option OrderSlot) : Finset ι :=
  f.exchange.used.filter fun id => resolve f.manager id = some f.manager.marketOrderSlot

theorem Feed.Addressed.of_forget {ids : Finset ι} (h : (f.forget ids).Addressed id) :
    f.Addressed id ∧ id ∉ ids :=
  ⟨⟨h.1, fun hin => h.2 (Finset.mem_union_right _ hin)⟩,
    fun hin => h.2 (Finset.mem_union_left _ hin)⟩

theorem tracks_forget (h : Tracks v resolve f) (ids : Finset ι) :
    Tracks v resolve (f.forget ids) := by
  refine ⟨h.depth, fun id hid => h.reached id hid.of_forget.1, ?_, h.slots⟩
  intro id id' slot hid hid'
  exact h.distinct id id' slot hid.of_forget.1 hid'.of_forget.1

/-- Once the evicted references are forgotten, the slot is free. -/
theorem slot_free_of_forget (h : (f.forget (f.evicted resolve)).Addressed id) :
    resolve f.manager id ≠ some f.manager.marketOrderSlot := by
  intro hslot
  obtain ⟨haddr, hnot⟩ := h.of_forget
  exact hnot (Finset.mem_filter.mpr ⟨haddr.1.1, hslot⟩)

/-- Nothing is left of the orders of a symbol only if its trees are empty. -/
def Feed.ClearsTrees (f : Feed ι) (v : VenueIndex) : Prop :=
  ∀ i, (∀ id ∈ f.exchange.used, (f.exchange.level id).1 = i → f.exchange.rem id = 0) →
    ∀ s, (f.manager.marketbook.symbolbooks v i).bidAskTrees s = ∅

omit [DecidableEq ι] in
theorem clearsTrees_of_tracks (h : Tracks v resolve f) : f.ClearsTrees v := by
  intro i hnone s
  refine SortedMap.eq_empty_iff.mpr fun p => ?_
  have hdepth : f.exchange.depth (i, s, p) = 0 := by
    refine RestingOrders.depth_eq_zero_iff.mpr fun id hid hl => hnone id hid ?_
    rw [hl]
  have hshows := (h.depth (i, s, p)).1
  rw [hdepth] at hshows
  rw [← Option.not_isSome_iff_eq_none]
  exact fun hsome => absurd (hshows.mp hsome) (lt_irrefl 0)

end Forget

/-! ### NASDAQ -/

namespace Nasdaq

variable {f : Feed UInt64}

/-- The references that an add evicts. -/
def evictedBy (f : Feed UInt64) : ItchMessage → Finset UInt64
  | .addOrder _ | .addOrderMpid _ => f.evicted nasdaqSlot
  | _ => ∅

/-- One message; the references an add evicts are no longer reached. -/
def recycleStep (f : Feed UInt64) (msg : ItchMessage) : Except Fault (Feed UInt64) :=
  step (f.forget (evictedBy f msg)) msg

/-- The order a message names is reached: it was not evicted, and the reference
was not introduced by a replace. -/
def NamesReached (f : Feed UInt64) : ItchMessage → Prop
  | .cancel m => m.orderRef ∉ f.renamed
  | .executed m => m.orderRef ∉ f.renamed
  | .executedWithPrice m => m.orderRef ∉ f.renamed
  | .delete m => m.orderRef ∉ f.renamed
  | .replace m => m.orderRef ∉ f.renamed
  | _ => True

theorem sound_forget (hf : Sound f) (ids : Finset UInt64) : Sound (f.forget ids) :=
  ⟨tracks_forget hf.tracks ids, hf.refs, hf.next, hf.venue, hf.stored, hf.count, hf.countFull⟩

/-- What the exchange may send does not depend on what is reached. -/
theorem consistent_forget (ids : Finset UInt64) {msg : ItchMessage} (h : Consistent f msg) :
    Consistent (f.forget ids) msg := by
  cases msg with
  | addOrder m => exact ⟨h.new, h.positive, h.fits, h.market⟩
  | addOrderMpid m => exact ⟨h.new, h.positive, h.fits, h.market⟩
  | replace m => exact ⟨h.live, h.new, h.positive, h.fits⟩
  | _ => exact h

/-- One message keeps the invariant. -/
theorem recycle_step {msg : ItchMessage} (hf : Sound f)
    (hok : Consistent f msg ∧ NamesReached f msg) :
    ∃ f', recycleStep f msg = .ok f' ∧ Sound f' := by
  refine sound_step (sound_forget hf _) ⟨consistent_forget _ hok.1, ?_⟩
  have hempty : ∀ ref, ref ∉ f.renamed → ref ∉ (∅ : Finset UInt64) ∪ f.renamed := by
    intro ref href
    rw [Finset.empty_union]
    exact href
  cases msg with
  | addOrder m => exact fun _ => slot_free_of_forget
  | addOrderMpid m => exact fun _ => slot_free_of_forget
  | cancel m => exact hempty _ hok.2
  | executed m => exact hempty _ hok.2
  | executedWithPrice m => exact hempty _ hok.2
  | delete m => exact hempty _ hok.2
  | replace m => exact hempty _ hok.2
  | _ => trivial

end Nasdaq

/-! ### BIST -/

namespace Bist

variable {f : Feed OrderKey}

/-- What a message does to the orders of the exchange: an execution with price
takes its quantity like one without, a flush removes every order of its
symbol. -/
def exchangeUpdate (om : OrderManager) (x : RestingOrders OrderKey Level) (msg : ItchMessage) :
    RestingOrders OrderKey Level :=
  match msg with
  | .orderExecutedWithPrice m =>
    x.reduce (bistKey m.orderId m.orderBookId m.side) m.executedQuantity.toNat
  | .orderBookFlush m =>
    match om.symbolOf 0 m.orderBookId with
    | some i => x.clear fun l => l.1 = i
    | none => x
  | msg => exchangeStep om x msg

theorem exchangeUpdate_add {om : OrderManager} {m : AddOrder} {i : SymbolSlot}
    (hi : om.symbolOf 0 m.orderBookId = some i) (x : RestingOrders OrderKey Level) :
    exchangeUpdate om x (.addOrder m) = x.place m.key (m.level i) m.quantity.toNat := by
  simp only [exchangeUpdate, exchangeStep, hi]

/-- The keys that an add evicts. -/
def evictedBy (f : Feed OrderKey) : ItchMessage → Finset OrderKey
  | .addOrder _ => f.evicted getOrderFromMarketMap
  | _ => ∅

/-- One message at the order manager and at the exchange; the keys an add evicts
are no longer reached. -/
def recycleStep (f : Feed OrderKey) (msg : ItchMessage) : Except Fault (Feed OrderKey) := do
  let om ← f.manager.updateOrderBist msg
  .ok ⟨om, exchangeUpdate f.manager f.exchange msg, evictedBy f msg ∪ f.renamed⟩

theorem recycleStep_of_ok {msg : ItchMessage} {om : OrderManager}
    (h : f.manager.updateOrderBist msg = .ok om) : recycleStep f msg =
      .ok ⟨om, exchangeUpdate f.manager f.exchange msg, evictedBy f msg ∪ f.renamed⟩ := by
  simp only [recycleStep, h, Bind.bind, Except.bind]

/-- A positive quantity, at most what is left of a live order. -/
def TakesOk (f : Feed OrderKey) (k : OrderKey) (n : ℕ) : Prop :=
  f.exchange.Live k ∧ 0 < n ∧ n ≤ f.exchange.rem k

/-- What the exchange may send, with any number of adds: an execution with price
trades at the price of the order; a trade names no displayed order; the handlers
of the remaining messages return. -/
def ConsistentRun (f : Feed OrderKey) (msg : ItchMessage) : Prop :=
  match msg with
  | .addOrder m => m.key ∉ f.exchange.used ∧ 0 < m.quantity.toNat ∧
      ¬(f.manager.awaitingAckOrders ≠ ∅ ∧ f.manager.isMatchedPendingOrderBist m = true) ∧
      ∃ i, f.manager.symbolOf 0 m.orderBookId = some i ∧
        f.exchange.depth (m.level i) + m.quantity.toNat < 2 ^ 32
  | .orderExecuted m =>
    TakesOk f (bistKey m.orderId m.orderBookId m.side) m.executedQuantity.toNat
  | .orderExecutedWithPrice m =>
    TakesOk f (bistKey m.orderId m.orderBookId m.side) m.executedQuantity.toNat ∧
      m.tradePrice.toInt64 = (f.exchange.level (bistKey m.orderId m.orderBookId m.side)).2.2
  | .orderDelete m => f.exchange.Live (bistKey m.orderId m.orderBookId m.side)
  | .trade m => bistKey m.orderId.toUInt64 m.orderBookId m.side ∉ f.exchange.used
  | msg => ∃ om, f.manager.updateOrderBist msg = .ok om

/-- The order a message names was not evicted. -/
def NamesReached (f : Feed OrderKey) : ItchMessage → Prop
  | .orderExecuted m => bistKey m.orderId m.orderBookId m.side ∉ f.renamed
  | .orderExecutedWithPrice m => bistKey m.orderId m.orderBookId m.side ∉ f.renamed
  | .orderDelete m => bistKey m.orderId m.orderBookId m.side ∉ f.renamed
  | _ => True

/-- The invariant of a BIST run of any length.  Own orders lie in the upper half
of the pool. -/
structure RecycleSound (f : Feed OrderKey) : Prop where
  tracks : Tracks 0 getOrderFromMarketMap f
  store : ∃ filled, StoreRun.StoreSound ⟨f.manager, filled⟩
  known : ∀ k slot, f.manager.marketOrders.lookup k = some slot → k ∈ f.exchange.used
  own : ∀ slot ∈ ownSlots f.manager 0, 32768 ≤ slot.val

/-- An instrument with a symbol slot is known. -/
theorem known_of_symbolOf {om : OrderManager} {v : VenueIndex} {instrumentId : UInt32}
    {i : SymbolSlot} (h : om.symbolOf v instrumentId = some i) :
    StoreRun.KnownInstrument om v instrumentId := by
  unfold OrderManager.symbolOf at h
  cases hm : om.getSymbolmeta v instrumentId with
  | none =>
    rw [hm] at h
    exact absurd h (by simp)
  | some m =>
    rw [hm] at h
    refine ⟨m, hm, Or.inr ?_⟩
    cases hs : symbolSlot (om.hashtables.getIndex v m.symbol) with
    | error e =>
      simp only [hs] at h
      exact absurd h (by simp [Except.toOption])
    | ok j => exact ⟨j, rfl⟩

theorem own_of_frame {om om' : OrderManager} (hown : ∀ slot ∈ ownSlots om 0, 32768 ≤ slot.val)
    (h : BistFrame om om') : ∀ slot ∈ ownSlots om' 0, 32768 ≤ slot.val := by
  unfold ownSlots at hown ⊢
  rw [h.histories]
  exact hown

/-! #### Executions and deletes -/

/-- An execution or a delete of a live order that was not evicted. -/
theorem recycle_fill (hf : RecycleSound f) {k : OrderKey} (haddr : f.Addressed k)
    (msg : ItchMessage) (fill : Order → Order) (qty : Order → UInt32) {n : ℕ}
    (hn : n ≤ f.exchange.rem k) (hid : ∀ order, SameIdentity order (fill order))
    (hsits : ∀ order, SitsAt 0 order (f.exchange.level k) →
      SitsAt 0 (fill order) (f.exchange.level k))
    (hqty : ∀ order, order.remainingQuantity.toNat = f.exchange.rem k →
      (qty (fill order)).toNat = n ∧
        (n < f.exchange.rem k → (fill order).remainingQuantity.toNat = f.exchange.rem k - n)) :
    ∃ om, f.manager.onBistOrder k msg (fillThenBook fill fun mb order =>
        mb.onSymBook order fun b => b.reduceLevel order (qty order)) = .ok om ∧
      RecycleSound ⟨om, f.exchange.reduce k n, f.renamed⟩ := by
  obtain ⟨slot, mb, hom, htracks⟩ := tracks_fill hf.tracks haddr msg fill qty hn hsits hqty
  obtain ⟨filled, hstore⟩ := hf.store
  refine ⟨_, hom, htracks, ⟨filled, ?_⟩, hf.known, hf.own⟩
  exact StoreRun.storeSound_rewrite hstore slot _ rfl (hid _).key
    (fun hslot => (hid _).bookable (hstore.bookable slot hslot)) rfl rfl rfl

/-! #### Adds -/

/-- The key of another order stays unless its order lies in the slot taken. -/
theorem lookup_addMarketOrder_of_kept {om : OrderManager} {filled : Finset OrderSlot}
    (hs : StoreRun.StoreSound ⟨om, filled⟩) {k k' : OrderKey} (hne : k' ≠ k)
    (hslot : om.marketOrders.lookup k' ≠ some om.marketOrderSlot) :
    (om.addMarketOrder k).2.marketOrders.lookup k' = om.marketOrders.lookup k' := by
  obtain ⟨-, -, hadd⟩ | ⟨hwrap, hadd⟩ := addMarketOrder_cases om k
  · rw [hadd]
    exact Finmap.lookup_insert_of_ne _ hne
  · -- the slot is in use, so its key is the one that is erased
    have hlt := om.marketSlot_lt
    have hmem : om.marketOrderSlot ∈ filled := by
      rw [hs.filled]
      rcases hwrap with h | h
      · exact Or.inr ⟨h, hlt⟩
      · exact Or.inl (lt_of_lt_of_le hlt h)
    have hold := (hs.index _ om.marketOrderSlot).mpr ⟨hmem, rfl⟩
    have herase : k' ≠ (om.orderPool om.marketOrderSlot).key := by
      intro heq
      rw [heq] at hslot
      exact hslot hold
    rw [hadd]
    show ((om.marketOrders.erase _).insert k _).lookup k' = _
    rw [Finmap.lookup_insert_of_ne _ hne, Finmap.lookup_erase_ne herase]

/-- After an add every stored key was used. -/
theorem known_add {om : OrderManager} {x : RestingOrders OrderKey Level} (k : OrderKey)
    (hknown : ∀ k' slot, om.marketOrders.lookup k' = some slot → k' ∈ x.used) {k' : OrderKey}
    {slot : OrderSlot} (hk : (om.addMarketOrder k).2.marketOrders.lookup k' = some slot) :
    k' ∈ insert k x.used := by
  by_cases hkey : k' = k
  · rw [hkey]
    exact Finset.mem_insert_self _ _
  · refine Finset.mem_insert_of_mem ?_
    exact hknown k' slot (lookup_of_lookup_addMarketOrder hkey hk)

/-- An add under a new key; the order in the slot it takes is evicted. -/
theorem recycle_add (hf : RecycleSound f) {m : AddOrder}
    (hok : ConsistentRun f (.addOrder m)) :
    ∃ order mb, recycleStep f (.addOrder m) = .ok ⟨afterAdd f.manager m order mb,
        exchangeUpdate f.manager f.exchange (.addOrder m),
        f.evicted getOrderFromMarketMap ∪ f.renamed⟩ ∧
      RecycleSound ⟨afterAdd f.manager m order mb,
        exchangeUpdate f.manager f.exchange (.addOrder m),
        f.evicted getOrderFromMarketMap ∪ f.renamed⟩ := by
  obtain ⟨hnew, hpos, hpending, i, hi, hfit⟩ := hok
  obtain ⟨filled, hstore⟩ := hf.store
  have hnone := lookup_eq_none hf.known hnew
  -- first the evicted key is given up, then the slot is free
  obtain ⟨order, mb, hom, htracks⟩ := tracks_add (tracks_forget hf.tracks
      (f.evicted getOrderFromMarketMap)) hnew hpos hpending hi hfit hnone
    (fun _ => slot_free_of_forget) fun k hk => by
      refine lookup_addMarketOrder_of_kept hstore ?_ (slot_free_of_forget hk)
      intro hkey
      exact hnew (hkey ▸ hk.1.1)
  have hom : f.manager.updateOrderBist (.addOrder m) = .ok (afterAdd f.manager m order mb) := hom
  refine ⟨order, mb, recycleStep_of_ok hom, ?_⟩
  rw [exchangeUpdate_add hi]
  refine ⟨htracks, ?_, fun k slot hk => known_add m.key hf.known hk,
    own_of_frame hf.own (bistFrame_updateOrderBist hom)⟩
  obtain ⟨om, hom', hsound⟩ := StoreRun.updateBistAdd_sound hstore (known_of_symbolOf hi)
  have hom' : f.manager.updateOrderBist (.addOrder m) = .ok om := hom'
  rw [hom, Except.ok.injEq] at hom'
  rw [hom']
  exact ⟨_, hsound⟩

/-! #### Messages that name no order -/

/-- Every stored key leads to a market slot. -/
theorem slot_lt_of_stored (hf : RecycleSound f) {k : OrderKey} {slot : OrderSlot}
    (hk : f.manager.getOrderFromMarketMap k = some slot) : slot.val < 32768 := by
  obtain ⟨filled, hstore⟩ := hf.store
  have hmem : slot ∈ filled := ((hstore.index k slot).mp hk).1
  rcases (hstore.filled slot).mp hmem with hlt | ⟨-, hlt⟩
  · exact lt_of_lt_of_le hlt hstore.next
  · exact hlt

theorem recycle_same (hf : RecycleSound f) {om : OrderManager}
    (hsame : Nasdaq.SameMarket f.manager om) (hframe : BistFrame f.manager om) :
    RecycleSound ⟨om, f.exchange, f.renamed⟩ := by
  have hlookup : ∀ k, om.getOrderFromMarketMap k = f.manager.getOrderFromMarketMap k := by
    intro k
    rw [getOrderFromMarketMap, getOrderFromMarketMap, hsame.store.marketOrders]
  obtain ⟨filled, hstore⟩ := hf.store
  refine ⟨tracks_same hf.tracks hsame.orderPool hsame.marketbook hlookup, ⟨filled, ?_⟩, ?_,
    own_of_frame hf.own hframe⟩
  · exact StoreRun.storeSound_same hstore hsame.orderPool hsame.store.marketOrders hsame.store.next
      hsame.store.full
  · intro k slot hk
    exact hf.known k slot ((hlookup k).symm.trans hk)

/-- A flush empties the trees of its symbol and writes own orders only. -/
theorem recycle_flush (hf : RecycleSound f) {m : OrderBookFlush} {om : OrderManager}
    (hom : f.manager.updateOrderBist (.orderBookFlush m) = .ok om) :
    RecycleSound ⟨om, exchangeUpdate f.manager f.exchange (.orderBookFlush m), f.renamed⟩ := by
  obtain ⟨sym, i, hsym, hi, om₁, hflush, heq⟩ := flush_spec hom
  have hstore₁ : Nasdaq.SameStore f.manager om := by
    rw [heq]
    exact ⟨hflush.store.1, hflush.store.2, hflush.store.3, hflush.store.4, hflush.store.5⟩
  have hlookup : ∀ k, om.getOrderFromMarketMap k = f.manager.getOrderFromMarketMap k := by
    intro k
    rw [getOrderFromMarketMap, getOrderFromMarketMap, hstore₁.marketOrders]
  have hclear : exchangeUpdate f.manager f.exchange (.orderBookFlush m) =
      f.exchange.clear fun l => l.1 = i := by
    have hsymbol : f.manager.symbolOf 0 m.orderBookId = some i := by
      simp only [OrderManager.symbolOf, hsym, hi, Except.toOption]
    simp only [exchangeUpdate, hsymbol]
  have hbook : om.marketbook = f.manager.marketbook.setSymBook 0 i
      (f.manager.marketbook.symbolbooks 0 i).flush := by
    rw [heq]
    exact hflush.book
  obtain ⟨filled, hstore⟩ := hf.store
  rw [hclear]
  refine ⟨?_, ⟨filled, ?_⟩, ?_, own_of_frame hf.own (bistFrame_updateOrderBist hom)⟩
  · refine tracks_clear hf.tracks _ (fun l => ?_) (fun slot hslot => ?_)
      (fun k slot hk => slot_lt_of_stored hf hk) hlookup
    · rw [hbook, MarketBook.level_setSymBook]
      by_cases hl : l.1 = i
      · rw [if_pos ⟨rfl, hl⟩, if_pos hl]
        rfl
      · rw [if_neg fun h => hl h.2, if_neg hl]
    · -- the own orders lie above the market slots
      rw [heq]
      refine hflush.others slot fun hin => ?_
      have := hf.own slot hin
      omega
  · refine StoreRun.storeSound_identity hstore hstore₁ fun slot => ?_
    rw [heq]
    exact hflush.identity slot
  · intro k slot hk
    exact hf.known k slot ((hlookup k).symm.trans hk)

/-! #### Whole runs -/

/-- One message keeps the invariant. -/
theorem recycle_step {msg : ItchMessage} (hf : RecycleSound f)
    (hok : ConsistentRun f msg ∧ NamesReached f msg) :
    ∃ f', recycleStep f msg = .ok f' ∧ RecycleSound f' := by
  obtain ⟨hcons, hnames⟩ := hok
  -- only an add evicts
  have hlift : ∀ {om : OrderManager} {x : RestingOrders OrderKey Level},
      f.manager.updateOrderBist msg = .ok om → evictedBy f msg = ∅ →
      exchangeUpdate f.manager f.exchange msg = x → RecycleSound ⟨om, x, f.renamed⟩ →
        ∃ f', recycleStep f msg = .ok f' ∧ RecycleSound f' := by
    rintro om x hom hevicts rfl hsound
    refine ⟨_, recycleStep_of_ok hom, ?_⟩
    rw [hevicts, Finset.empty_union]
    exact hsound
  cases msg with
  | addOrder m =>
    obtain ⟨order, mb, hstep, hsound⟩ := recycle_add hf hcons
    exact ⟨_, hstep, hsound⟩
  | orderExecuted m =>
    obtain ⟨hlive, -, hle⟩ := hcons
    have hnat := toNat_toUInt32_of_le_rem hf.tracks ⟨hlive, hnames⟩ hle
    obtain ⟨om, hom, hsound⟩ := recycle_fill hf ⟨hlive, hnames⟩ (.orderExecuted m)
      (FillerItchBist.fillItchExecReport · m) Order.lastExecQuantity hle
      (fun _ => ⟨rfl, rfl, rfl, rfl⟩)
      (fun _ h => ⟨⟨h.located.1, h.located.2, h.located.3⟩, h.price, h.market, h.modifiable⟩)
      (fun order hrem => ⟨hnat, fun _ => by
        show (order.remainingQuantity - m.executedQuantity.toUInt32).toNat = _
        rw [UInt32.toNat_sub_of_le _ _ (UInt32.le_iff_toNat_le.mpr (by omega)), hnat, hrem]⟩)
    exact hlift hom rfl rfl hsound
  | orderExecutedWithPrice m =>
    obtain ⟨⟨hlive, -, hle⟩, hprice⟩ := hcons
    have hnat := toNat_toUInt32_of_le_rem hf.tracks ⟨hlive, hnames⟩ hle
    obtain ⟨om, hom, hsound⟩ := recycle_fill hf ⟨hlive, hnames⟩ (.orderExecutedWithPrice m)
      (FillerItchBist.fillItchExecReportWithPrice · m) Order.lastExecQuantity hle
      (fun _ => ⟨rfl, rfl, rfl, rfl⟩)
      (fun _ h => ⟨⟨h.located.1, h.located.2, h.located.3⟩, hprice, h.market, h.modifiable⟩)
      (fun order hrem => ⟨hnat, fun _ => by
        show (order.remainingQuantity - m.executedQuantity.toUInt32).toNat = _
        rw [UInt32.toNat_sub_of_le _ _ (UInt32.le_iff_toNat_le.mpr (by omega)), hnat, hrem]⟩)
    exact hlift hom rfl rfl hsound
  | orderDelete m =>
    obtain ⟨om, hom, hsound⟩ := recycle_fill hf ⟨hcons, hnames⟩ (.orderDelete m)
      (FillerItchBist.fillItchDelete · m) Order.remainingQuantity le_rfl
      (fun _ => ⟨rfl, rfl, rfl, rfl⟩)
      (fun _ h => ⟨⟨h.located.1, h.located.2, h.located.3⟩, h.price, h.market, h.modifiable⟩)
      (fun order hrem => ⟨hrem, fun hlt => absurd hlt (lt_irrefl _)⟩)
    exact hlift hom rfl rfl hsound
  | trade m =>
    have hom : f.manager.updateOrderBist (.trade m) = .ok f.manager := by
      simp only [updateOrderBist, onBistOrder, lookup_eq_none hf.known hcons]
    exact hlift hom rfl rfl hf
  | orderBookFlush m =>
    obtain ⟨om, hom⟩ := hcons
    exact hlift hom rfl rfl (recycle_flush hf hom)
  | _ =>
    obtain ⟨om, hom⟩ := hcons
    obtain ⟨hsame, hframe⟩ := sameMarket_housekeeping (by simp [Housekeeping]) hom
    exact hlift hom rfl rfl (recycle_same hf hsame hframe)

theorem recycleSound_start {om : OrderManager} (h : FreshMarket om 0)
    (hown : ∀ slot ∈ ownSlots om 0, 32768 ≤ slot.val) : RecycleSound (Feed.start om) := by
  refine ⟨tracks_start _ h, ⟨∅, StoreRun.storeSound_fresh ⟨h.marketOrders, h.next, h.notFull⟩⟩, ?_,
    hown⟩
  intro k slot hk
  have hk : om.marketOrders.lookup k = some slot := hk
  rw [h.marketOrders] at hk
  exact absurd hk (by simp)

end Bist

/-- **Recycling and the trees.**  In every exchange-consistent run from a fresh
market, of any length and with any number of adds, in which no message names an
order that was evicted or renamed, each state has this: once nothing is left of
the orders of a symbol, its bid and ask trees are empty. -/
theorem recycled_trees_empty (om : OrderManager) :
    (FreshMarket om 0 → (∀ slot ∈ ownSlots om 0, 32768 ≤ slot.val) →
      ∀ msgs : List Bist.ItchMessage, Along Bist.recycleStep
        (fun f msg => Bist.ConsistentRun f msg ∧ Bist.NamesReached f msg) (Feed.start om) msgs →
        ∀ n, ∃ f, exec Bist.recycleStep (Feed.start om) (msgs.take n) = .ok f ∧
          f.ClearsTrees 0) ∧
    (FreshMarket om 1 → ∀ msgs : List Nasdaq.ItchMessage, Along Nasdaq.recycleStep
        (fun f msg => Nasdaq.Consistent f msg ∧ Nasdaq.NamesReached f msg) (Feed.start om) msgs →
        ∀ n, ∃ f, exec Nasdaq.recycleStep (Feed.start om) (msgs.take n) = .ok f ∧
          f.ClearsTrees 1) := by
  refine ⟨fun hfresh hown msgs h n => ?_, fun hfresh msgs h n => ?_⟩
  · rw [← List.take_append_drop n msgs] at h
    obtain ⟨f, hf, hsound⟩ := exec_of_along (fun _ _ => Bist.recycle_step)
      (Bist.recycleSound_start hfresh hown) (along_append h)
    exact ⟨f, hf, clearsTrees_of_tracks hsound.tracks⟩
  · rw [← List.take_append_drop n msgs] at h
    obtain ⟨f, hf, hsound⟩ := exec_of_along (fun _ _ => Nasdaq.recycle_step)
      (Nasdaq.sound_start hfresh) (along_append h)
    exact ⟨f, hf, clearsTrees_of_tracks hsound.tracks⟩

/-! ### Short runs -/

/-- The feed after the BIST bid has been added. -/
def bistAfterBid : Feed OrderKey :=
  (Bist.recycleStep (Feed.start oneStock) (.addOrder bistBid)).toOption.getD (Feed.start oneStock)

/-- The feed after the NASDAQ bid has been added. -/
def nasdaqAfterBid : Feed UInt64 :=
  (Nasdaq.recycleStep (Feed.start oneStock) (.addOrder nasdaqBid)).toOption.getD
    (Feed.start oneStock)

theorem ownSlots_empty {om : OrderManager} {v : VenueIndex} (h : om.ourOrdersAllVenue v = []) :
    ∀ slot ∈ ownSlots om v, 32768 ≤ slot.val := by
  rintro slot ⟨history, hmem, -⟩
  rw [h] at hmem
  exact absurd hmem (by simp)

/-- A bid that is added and deleted, on each venue. -/
theorem recycled_trees_empty_oneStock :
    (∃ f, exec Bist.recycleStep (Feed.start oneStock)
        ([.addOrder bistBid, .orderDelete { orderId := 1, orderBookId := 7, side := charB }].take 2)
          = .ok f ∧ f.ClearsTrees 0) ∧
    ∃ f, exec Nasdaq.recycleStep (Feed.start oneStock)
        ([.addOrder nasdaqBid, .delete { orderRef := 1 }].take 2) = .ok f ∧ f.ClearsTrees 1 := by
  refine ⟨(recycled_trees_empty oneStock).1 (oneStock_fresh 0) (ownSlots_empty rfl)
      [.addOrder bistBid, .orderDelete { orderId := 1, orderBookId := 7, side := charB }] ?_ 2,
    (recycled_trees_empty oneStock).2 (oneStock_fresh 1)
      [.addOrder nasdaqBid, .delete { orderRef := 1 }] ?_ 2⟩
  · refine along_cons bistAfterBid ⟨?_, trivial⟩ rfl ⟨⟨?_, ?_⟩, fun _ _ => trivial⟩
    · exact ⟨by decide, by decide, fun h => h.1 rfl, 0, by decide, by decide⟩
    · show bistAfterBid.exchange.Live bistBid.key
      decide
    · show bistBid.key ∉ bistAfterBid.renamed
      decide
  · refine along_cons nasdaqAfterBid ⟨nasdaqBid_ok, trivial⟩ rfl ⟨⟨?_, ?_⟩, fun _ _ => trivial⟩
    · show nasdaqAfterBid.exchange.Live 1
      decide
    · show (1 : UInt64) ∉ nasdaqAfterBid.renamed
      decide

/-! ### One lap of the pool -/

/-- A fresh manager that knows two instruments. -/
def twoStocks : OrderManager :=
  { instrumentCache := fun _ => ((∅ : HashMap UInt32 SymbolMeta).insert 7
      { instrumentId := 7, symbol := [65] }).insert 8 { instrumentId := 8, symbol := [66] }
    hashtables := { hashtables := fun _ =>
      ((∅ : HashMap (List UInt8) UInt32).insert [65] 0).insert [66] 1 } }

/-- The later bids are of the other instrument. -/
def laterBid (n : ℕ) : Bist.AddOrder :=
  { orderId := UInt64.ofNat n, quantity := 1, orderBookId := 8, price := 100, side := charB }

/-- The first `n` of the later bids. -/
def laterBids (n : ℕ) : List Bist.ItchMessage :=
  (List.range n).map fun k => .addOrder (laterBid k)

/-- The delete of the first bid. -/
def bidDelete : Bist.OrderDelete := { orderId := 1, orderBookId := 7, side := charB }

theorem laterBid_key_ne (n : ℕ) : (laterBid n).key ≠ bistBid.key := by
  intro h
  have hbook : (8 : UInt32) = 7 := congrArg OrderKey.instrumentId h
  exact absurd hbook (by decide)

theorem laterBid_key_inj {j n : ℕ} (hj : j < 2 ^ 64) (hn : n < 2 ^ 64)
    (h : (laterBid j).key = (laterBid n).key) : j = n := by
  have hid : UInt64.ofNat j = UInt64.ofNat n := congrArg OrderKey.orderId h
  have hnat := congrArg UInt64.toNat hid
  rwa [UInt64.toNat_ofNat_of_lt' hj, UInt64.toNat_ofNat_of_lt' hn] at hnat

/-- The bid of 5 rests, and `n` later bids rest at one level of the other
symbol. -/
structure BidsRest (n : ℕ) (f : Feed OrderKey) : Prop where
  sound : Bist.RecycleSound f
  awaiting : f.manager.awaitingAckOrders = ∅
  symbol : f.manager.symbolOf 0 8 = some 1
  bid : bistBid.key ∈ f.exchange.used ∧ f.exchange.level bistBid.key = (0, 0, 100) ∧
    f.exchange.rem bistBid.key = 5
  used : ∀ k ∈ f.exchange.used, k = bistBid.key ∨
    ((∃ j < n, k = (laterBid j).key) ∧ (f.exchange.level k).1 = 1)
  depth : f.exchange.depth (1, 0, 100) = n

variable {n : ℕ} {f : Feed OrderKey}

theorem laterBid_consistent (h : BidsRest n f) (hn : n < 2 ^ 31) :
    Bist.ConsistentRun f (.addOrder (laterBid n)) := by
  have hpos : 0 < (1 : UInt64).toNat := by decide
  refine ⟨fun hused => ?_, hpos, fun hecho => hecho.1 h.awaiting, 1, h.symbol, ?_⟩
  · rcases h.used _ hused with hkey | ⟨⟨j, hj, hkey⟩, -⟩
    · exact laterBid_key_ne n hkey
    · have := laterBid_key_inj (by omega) (by omega) hkey
      omega
  · show f.exchange.depth (1, 0, 100) + 1 < 2 ^ 32
    rw [h.depth]
    omega

/-- One more later bid. -/
theorem bidsRest_step (h : BidsRest n f) (hn : n < 2 ^ 31) :
    ∃ order mb renamed x, Bist.recycleStep f (.addOrder (laterBid n)) =
        .ok ⟨Bist.afterAdd f.manager (laterBid n) order mb, x, renamed⟩ ∧
      BidsRest (n + 1) ⟨Bist.afterAdd f.manager (laterBid n) order mb, x, renamed⟩ := by
  have hcons := laterBid_consistent h hn
  obtain ⟨order, mb, hstep, hsound⟩ := Bist.recycle_add h.sound hcons
  have hplace : Bist.exchangeUpdate f.manager f.exchange (.addOrder (laterBid n)) =
      f.exchange.place (laterBid n).key (1, 0, 100) 1 := Bist.exchangeUpdate_add h.symbol f.exchange
  rw [hplace] at hstep hsound
  have hne := laterBid_key_ne n
  refine ⟨order, mb, _, _, hstep, hsound, h.awaiting, h.symbol, ⟨?_, ?_, ?_⟩, ?_, ?_⟩
  · exact Finset.mem_insert_of_mem h.bid.1
  · exact (Function.update_of_ne hne.symm _ _).trans h.bid.2.1
  · exact (Function.update_of_ne hne.symm _ _).trans h.bid.2.2
  · intro k hk
    show k = bistBid.key ∨ ((∃ j < n + 1, k = (laterBid j).key) ∧
      (Function.update f.exchange.level (laterBid n).key (1, 0, 100) k).1 = 1)
    by_cases hkey : k = (laterBid n).key
    · rw [hkey, Function.update_self]
      exact Or.inr ⟨⟨n, Nat.lt_succ_self n, rfl⟩, rfl⟩
    · rw [Function.update_of_ne hkey]
      refine (h.used k (Finset.mem_of_mem_insert_of_ne hk hkey)).imp_right ?_
      rintro ⟨⟨j, hj, hj'⟩, hl⟩
      exact ⟨⟨j, Nat.lt_succ_of_lt hj, hj'⟩, hl⟩
  · show (f.exchange.place (laterBid n).key (1, 0, 100) 1).depth (1, 0, 100) = n + 1
    rw [RestingOrders.depth_place hcons.1, h.depth, if_pos rfl]

/-- No market slot has been taken twice, and the bid is in the first. -/
structure FirstLap (n : ℕ) (om : OrderManager) : Prop where
  next : om.marketNextSlot = n + 1
  notFull : om.marketMapFull = false
  first : om.marketOrders.lookup bistBid.key = some 0

theorem firstLap_step {om : OrderManager} (h : FirstLap n om) (hn : n < 32767) (order : Order)
    (mb : MarketBook) : FirstLap (n + 1) (Bist.afterAdd om (laterBid n) order mb) := by
  have hadd := addMarketOrder_of_room (laterBid n).key h.notFull (by rw [h.next]; omega)
  refine ⟨?_, ?_, ?_⟩
  · show (om.addMarketOrder (laterBid n).key).2.marketNextSlot = n + 1 + 1
    rw [hadd, h.next]
  · show (om.addMarketOrder (laterBid n).key).2.marketMapFull = false
    rw [hadd]
    exact h.notFull
  · show (om.addMarketOrder (laterBid n).key).2.marketOrders.lookup bistBid.key = some 0
    rw [hadd]
    exact (Finmap.lookup_insert_of_ne _ (laterBid_key_ne n).symm).trans h.first

theorem laterBids_succ (n : ℕ) : laterBids (n + 1) = laterBids n ++ [.addOrder (laterBid n)] := by
  rw [laterBids, List.range_succ, List.map_append]
  rfl

/-- The later bids of the first lap. -/
theorem exec_laterBids (hf : BidsRest 0 f) (hlap : FirstLap 0 f.manager) (hn : n ≤ 32767) :
    Along Bist.recycleStep Bist.ConsistentRun f (laterBids n) ∧
      ∃ f', exec Bist.recycleStep f (laterBids n) = .ok f' ∧ BidsRest n f' ∧
        FirstLap n f'.manager := by
  induction n with
  | zero => exact ⟨trivial, f, rfl, hf, hlap⟩
  | succ n ih =>
    obtain ⟨halong, f', hexec, hrest, hfirst⟩ := ih (by omega)
    obtain ⟨order, mb, renamed, x, hstep, hrest'⟩ := bidsRest_step hrest (by omega)
    rw [laterBids_succ]
    refine ⟨along_append_of halong fun t ht => ?_, _, ?_, hrest',
      firstLap_step hfirst (by omega) order mb⟩
    · rw [hexec, Except.ok.injEq] at ht
      rw [← ht]
      exact ⟨laterBid_consistent hrest (by omega), fun _ _ => trivial⟩
    · exact exec_append_eq_ok_iff.mpr ⟨f', hexec, exec_cons_eq_ok_iff.mpr ⟨_, hstep, rfl⟩⟩

/-- The bid that begins the second lap takes the first slot, and the key of the
order in it is erased. -/
theorem lookup_evicted {om : OrderManager} {filled : Finset OrderSlot}
    (hs : StoreRun.StoreSound ⟨om, filled⟩) (hn : n = 32767) (h : FirstLap n om) (order : Order)
    (mb : MarketBook) :
    (Bist.afterAdd om (laterBid n) order mb).getOrderFromMarketMap bistBid.key = none := by
  have hnext : om.marketNextSlot ≥ 32768 := by
    rw [h.next]
    omega
  have hslot : om.marketOrderSlot = 0 := Fin.ext (if_pos hnext)
  have hkey : (om.orderPool om.marketOrderSlot).key = bistBid.key := by
    rw [hslot]
    exact ((hs.index _ 0).mp h.first).2
  have hadd := addMarketOrder_of_full (laterBid n).key (Or.inr hnext : om.marketMapFull = true ∨ _)
  show (om.addMarketOrder (laterBid n).key).2.marketOrders.lookup bistBid.key = none
  rw [hadd]
  show ((om.marketOrders.erase (om.orderPool om.marketOrderSlot).key).insert _ _).lookup _ = none
  rw [Finmap.lookup_insert_of_ne _ (laterBid_key_ne n).symm, hkey, Finmap.lookup_erase]

/-- A whole lap of later bids: the first bid still rests, but is not found. -/
theorem exec_lap (hf : BidsRest 0 f) (hlap : FirstLap 0 f.manager) (hn : n = 32767) :
    Along Bist.recycleStep Bist.ConsistentRun f (laterBids (n + 1)) ∧
      ∃ f', exec Bist.recycleStep f (laterBids (n + 1)) = .ok f' ∧ BidsRest (n + 1) f' ∧
        f'.manager.getOrderFromMarketMap bistBid.key = none := by
  obtain ⟨halong, f', hexec, hrest, hfirst⟩ := exec_laterBids hf hlap (le_of_eq hn)
  obtain ⟨order, mb, renamed, x, hstep, hrest'⟩ := bidsRest_step hrest (by omega)
  obtain ⟨filled, hstore⟩ := hrest.sound.store
  rw [laterBids_succ]
  refine ⟨along_append_of halong fun t ht => ?_, _, ?_, hrest',
    lookup_evicted hstore hn hfirst order mb⟩
  · rw [hexec, Except.ok.injEq] at ht
    rw [← ht]
    exact ⟨laterBid_consistent hrest (by omega), fun _ _ => trivial⟩
  · exact exec_append_eq_ok_iff.mpr ⟨f', hexec, exec_cons_eq_ok_iff.mpr ⟨_, hstep, rfl⟩⟩

/-- The first bid is consistent. -/
theorem firstBid_consistent : Bist.ConsistentRun (Feed.start twoStocks) (.addOrder bistBid) :=
  ⟨by decide, by decide, fun h => h.1 rfl, 0, by decide, by decide⟩

/-- The first bid is added to a fresh manager. -/
theorem exec_firstBid :
    ∃ f, Bist.recycleStep (Feed.start twoStocks) (.addOrder bistBid) = .ok f ∧
      BidsRest 0 f ∧ FirstLap 0 f.manager := by
  have hfresh : FreshMarket twoStocks 0 := by
    refine ⟨rfl, rfl, rfl, rfl, fun _ _ _ => rfl, fun _ _ => ⟨rfl, ?_⟩⟩
    show strategyDone ||| riskDone ||| builderDone ≠ 0
    decide
  obtain ⟨order, mb, hstep, hsound⟩ := Bist.recycle_add
    (Bist.recycleSound_start hfresh (ownSlots_empty rfl)) firstBid_consistent
  have hsymbol : (Feed.start twoStocks : Feed OrderKey).manager.symbolOf 0 bistBid.orderBookId =
      some 0 := by decide
  rw [Bist.exchangeUpdate_add hsymbol] at hstep hsound
  have hlevel : ((Feed.start twoStocks).exchange.place bistBid.key (bistBid.level 0)
      bistBid.quantity.toNat).level bistBid.key = (0, 0, 100) := by
    rw [RestingOrders.level_place_self]
    rfl
  have hadd : (twoStocks.addMarketOrder bistBid.key).2 = _ :=
    addMarketOrder_of_room bistBid.key rfl (by decide)
  refine ⟨_, hstep, ⟨hsound, rfl, ?_, ?_, ?_, ?_⟩, ⟨?_, ?_, ?_⟩⟩
  · show twoStocks.symbolOf 0 8 = some 1
    decide
  · exact ⟨Finset.mem_insert_self _ _, hlevel, RestingOrders.rem_place_self _ _ _ _⟩
  · intro k hk
    rcases Finset.mem_insert.mp hk with hkey | hnone
    · exact Or.inl hkey
    · exact absurd hnone (Finset.notMem_empty k)
  · refine RestingOrders.depth_eq_zero_iff.mpr fun k hk hl => ?_
    rcases Finset.mem_insert.mp hk with hkey | hnone
    · rw [hkey] at hl
      exact absurd (hlevel.symm.trans hl) (by decide)
    · exact absurd hnone (Finset.notMem_empty k)
  · show (twoStocks.addMarketOrder bistBid.key).2.marketNextSlot = 0 + 1
    rw [hadd]
    rfl
  · show (twoStocks.addMarketOrder bistBid.key).2.marketMapFull = false
    rw [hadd]
    rfl
  · exact Finmap.lookup_insert _

/-- While the first bid rests its level is in the tree. -/
theorem bidTree_ne_empty (h : BidsRest n f) :
    (f.manager.marketbook.symbolbooks 0 0).bidAskTrees 0 ≠ ∅ := by
  intro hempty
  obtain ⟨hmem, hlevel, hrem⟩ := h.bid
  have hnone : f.manager.marketbook.level 0 0 0 100 = none := SortedMap.eq_empty_iff.mp hempty 100
  have hle := RestingOrders.rem_le_depth hmem
  rw [hlevel, hrem] at hle
  have hsome := (h.sound.tracks.depth (0, 0, 100)).1.mpr (by omega)
  rw [show f.manager.marketbook.level 0 0 0 100 = none from hnone] at hsome
  exact absurd hsome (by simp)

/-- The delete of the first bid is consistent but finds no order: the exchange
forgets the bid, the book does not. -/
theorem bidDelete_dropped (h : BidsRest n f)
    (hgone : f.manager.getOrderFromMarketMap bistBid.key = none) :
    Bist.ConsistentRun f (.orderDelete bidDelete) ∧
      ∃ f', Bist.recycleStep f (.orderDelete bidDelete) = .ok f' ∧
        (∀ k ∈ f'.exchange.used, (f'.exchange.level k).1 = 0 → f'.exchange.rem k = 0) ∧
        (f'.manager.marketbook.symbolbooks 0 0).bidAskTrees 0 ≠ ∅ := by
  have hdelete : f.manager.updateOrderBist (.orderDelete bidDelete) = .ok f.manager := by
    have hgone' : f.manager.getOrderFromMarketMap
        (bistKey bidDelete.orderId bidDelete.orderBookId bidDelete.side) = none := hgone
    simp only [updateOrderBist, onBistOrder, hgone']
  obtain ⟨hmem, -, hrem⟩ := h.bid
  refine ⟨⟨hmem, ?_⟩, _, Bist.recycleStep_of_ok hdelete, ?_, fun hempty => ?_⟩
  · show 0 < f.exchange.rem bistBid.key
    omega
  · intro k hk hl
    show Function.update f.exchange.rem bistBid.key
      (f.exchange.rem bistBid.key - f.exchange.rem bistBid.key) k = 0
    rcases h.used k hk with hkey | ⟨-, hother⟩
    · rw [hkey, Function.update_self]
      omega
    · exact absurd (hl.symm.trans hother) (by decide)
  · exact bidTree_ne_empty h hempty

/-- **An evicted order stays in the book.**  A bid of 5 at 100, 32768 bids of
another instrument, and the delete of the first bid make up an exchange-consistent
run.  At its end nothing is left of the orders of the first symbol, but its bid
tree is not empty. -/
theorem evicted_order_stays :
    Along Bist.recycleStep Bist.ConsistentRun (Feed.start twoStocks)
        (.addOrder bistBid :: (laterBids 32768 ++ [.orderDelete bidDelete])) ∧
      ∃ f, exec Bist.recycleStep (Feed.start twoStocks)
          (.addOrder bistBid :: (laterBids 32768 ++ [.orderDelete bidDelete])) = .ok f ∧
        (∀ k ∈ f.exchange.used, (f.exchange.level k).1 = 0 → f.exchange.rem k = 0) ∧
        (f.manager.marketbook.symbolbooks 0 0).bidAskTrees 0 ≠ ∅ := by
  obtain ⟨f₀, hstep₀, hrest₀, hlap₀⟩ := exec_firstBid
  obtain ⟨n, hn⟩ : ∃ n, n = 32767 := ⟨_, rfl⟩
  obtain ⟨halong, f₁, hexec, hrest, hgone⟩ := exec_lap hrest₀ hlap₀ hn
  obtain ⟨hcons, f₂, hstep, hnothing, htree⟩ := bidDelete_dropped hrest hgone
  rw [show 32768 = n + 1 by omega]
  refine ⟨along_cons f₀ firstBid_consistent hstep₀ (along_append_of halong fun t ht => ?_), f₂,
    ?_, hnothing, htree⟩
  · rw [hexec, Except.ok.injEq] at ht
    rw [← ht]
    exact ⟨hcons, fun _ _ => trivial⟩
  · exact exec_cons_eq_ok_iff.mpr ⟨f₀, hstep₀, exec_append_eq_ok_iff.mpr
      ⟨f₁, hexec, exec_cons_eq_ok_iff.mpr ⟨f₂, hstep, rfl⟩⟩⟩

end TradingEngine
