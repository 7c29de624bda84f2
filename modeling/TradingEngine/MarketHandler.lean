/-
The market data handlers of the two venues, with what the path from the parser to the book
needs to know of them.

* `SameSymbols` — no message about an order changes the directory or the symbol tables;
* `LeavesMarket` — what the strategy, risk and builder threads do between two messages: they
  set bits of `canModify`, and market orders, index and book are otherwise as they were;
* `MarketHandler` — a handler with the exchange it follows: messages that the exchange may
  send keep the book in step, are never deferred, and the other threads do not get in the way;
* `Bist.marketHandler`, `Nasdaq.marketHandler` — both venues have one.
-/
import TradingEngine.DepthRuns
import TradingEngine.OwnFrame
import TradingEngine.StoreFront

namespace TradingEngine

open FallibleRun OrderManager

/-! ### The directory -/

/-- The directory and the symbol tables are the same. -/
structure SameSymbols (om om' : OrderManager) : Prop where
  instrumentCache : om'.instrumentCache = om.instrumentCache
  hashtables : om'.hashtables = om.hashtables

namespace SameSymbols

variable {om om' om₁ om₂ om₃ : OrderManager}

theorem refl (om : OrderManager) : SameSymbols om om := ⟨rfl, rfl⟩

theorem trans (h : SameSymbols om₁ om₂) (h' : SameSymbols om₂ om₃) : SameSymbols om₁ om₃ :=
  ⟨h'.1.trans h.1, h'.2.trans h.2⟩

theorem symbolOf_eq (h : SameSymbols om om') (v : VenueIndex) (instrumentId : UInt32) :
    om'.symbolOf v instrumentId = om.symbolOf v instrumentId := by
  unfold OrderManager.symbolOf OrderManager.getSymbolmeta
  rw [h.instrumentCache, h.hashtables]

theorem onBook {slot : OrderSlot} {f : MarketBook → Order → Except Fault MarketBook}
    (h : om.onBook slot f = .ok om') : SameSymbols om om' := by
  obtain ⟨mb, -, hmb⟩ := bind_eq_ok_iff.mp h
  rw [Except.ok.injEq] at hmb
  rw [← hmb]
  exact ⟨rfl, rfl⟩

theorem fillThenBook {slot : OrderSlot} {fill : Order → Order}
    {f : MarketBook → Order → Except Fault MarketBook}
    (h : TradingEngine.OrderManager.fillThenBook fill f slot om = .ok om') :
    SameSymbols om om' := by
  have hset : SameSymbols om (om.setOrder slot (fill (om.orderPool slot))) := ⟨rfl, rfl⟩
  exact hset.trans (onBook h)

theorem fillWithSymbol (om : OrderManager) (v : VenueIndex) (slot : OrderSlot) (order : Order)
    (finish : Order → Order) : SameSymbols om (om.fillWithSymbol v slot order finish) := by
  unfold OrderManager.fillWithSymbol
  split <;> exact ⟨rfl, rfl⟩

theorem onExisting {slot : OrderSlot} {d : DbData}
    {process : OrderManager → Except Fault OrderManager}
    (hp : ∀ om₁, process om = .ok om₁ → SameSymbols om om₁)
    (h : om.onExisting slot d process = .ok om') : SameSymbols om om' := by
  unfold OrderManager.onExisting at h
  split at h
  · rw [Except.ok.injEq] at h
    rw [← h]
    exact ⟨rfl, rfl⟩
  · obtain ⟨om₁, h₁, h₂⟩ := bind_eq_ok_iff.mp h
    rw [Except.ok.injEq] at h₂
    rw [← h₂]
    exact (hp om₁ h₁).trans ⟨rfl, rfl⟩

/-- A message about an order that was looked up. -/
theorem onBistOrder {k : OrderKey} {msg : Bist.ItchMessage} {fill : Order → Order}
    {f : MarketBook → Order → Except Fault MarketBook}
    (h : om.onBistOrder k msg (TradingEngine.OrderManager.fillThenBook fill f) = .ok om') :
    SameSymbols om om' := by
  unfold OrderManager.onBistOrder at h
  split at h
  · rw [Except.ok.injEq] at h
    exact h ▸ refl om
  · exact onExisting (fun _ => fillThenBook) h

theorem onNasdaqOrder {ref : UInt64} {msg : Nasdaq.ItchMessage} {fill : Order → Order}
    {f : MarketBook → Order → Except Fault MarketBook}
    (h : om.onNasdaqOrder ref msg (TradingEngine.OrderManager.fillThenBook fill f) = .ok om') :
    SameSymbols om om' := by
  unfold OrderManager.onNasdaqOrder at h
  split at h
  · rw [Except.ok.injEq] at h
    exact h ▸ refl om
  · exact onExisting (fun _ => fillThenBook) h

theorem addBist {msg : Bist.AddOrder} {slot : OrderSlot}
    (h : OrderManager.addBist msg slot om = .ok om') : SameSymbols om om' :=
  (fillWithSymbol om 0 slot _ _).trans (onBook h)

theorem updateBistAdd {msg : Bist.AddOrder} (h : om.updateBistAdd msg = .ok om') :
    SameSymbols om om' := by
  simp only [OrderManager.updateBistAdd] at h
  split at h
  · exact onExisting (fun _ => addBist) h
  · split at h
    · rw [Except.ok.injEq] at h
      exact h ▸ refl om
    · obtain ⟨om₁, h₁, h₂⟩ := bind_eq_ok_iff.mp h
      rw [Except.ok.injEq] at h₂
      rw [← h₂]
      have hadd : SameSymbols om (om.addMarketOrder
          (bistKey msg.orderId msg.orderBookId msg.side)).2 := ⟨rfl, rfl⟩
      exact (hadd.trans (addBist h₁)).trans ⟨rfl, rfl⟩

theorem updateNasdaqAdd {msg : Nasdaq.AddOrder} {stored : Nasdaq.ItchMessage}
    {fill : OrderManager → OrderSlot → Nasdaq.AddOrder → OrderManager}
    (hfill : ∀ (om : OrderManager) slot, SameSymbols om (fill om slot msg))
    (h : om.updateNasdaqAdd msg stored fill = .ok om') : SameSymbols om om' := by
  simp only [OrderManager.updateNasdaqAdd] at h
  split at h
  · rw [Except.ok.injEq] at h
    exact h ▸ refl om
  · obtain ⟨om₁, h₁, h₂⟩ := bind_eq_ok_iff.mp h
    rw [Except.ok.injEq] at h₂
    rw [← h₂]
    have hadd : SameSymbols om (om.addNasdaqOrder msg) := ⟨rfl, rfl⟩
    exact ((hadd.trans (hfill _ _)).trans (onBook h₁)).trans ⟨rfl, rfl⟩

end SameSymbols

/-! ### The other threads -/

/-- What the strategy, risk and builder threads leave as it is.  They set bits of `canModify`
in market orders too; what they do to own orders is not restricted. -/
structure LeavesMarket (om om' : OrderManager) : Prop extends SameSymbols om om' where
  marketOrders : om'.marketOrders = om.marketOrders
  refnums : om'.nqItchRefnumOrdkey = om.nqItchRefnumOrdkey
  next : om'.marketNextSlot = om.marketNextSlot
  full : om'.marketMapFull = om.marketMapFull
  marketbook : om'.marketbook = om.marketbook
  orders : ∀ slot, om.MarketSlot slot → ∃ bits : UInt8,
    om'.orderPool slot =
      { om.orderPool slot with canModify := (om.orderPool slot).canModify ||| bits }

theorem leavesMarket_drained (om : OwnManager) :
    LeavesMarket om.toOrderManager om.drained.toOrderManager := by
  refine ⟨⟨rfl, rfl⟩, rfl, rfl, rfl, rfl, rfl, fun slot _ => ⟨0, ?_⟩⟩
  rw [UInt8.or_zero]
  rfl

namespace LeavesMarket

variable {om om' : OrderManager}

theorem canModify_ne_zero (h : LeavesMarket om om') {slot : OrderSlot} (hslot : om.MarketSlot slot)
    (hmodify : (om.orderPool slot).canModify ≠ 0) : (om'.orderPool slot).canModify ≠ 0 := by
  obtain ⟨bits, hbits⟩ := h.orders slot hslot
  rw [hbits]
  exact fun hzero => hmodify (UInt8.or_eq_zero_iff.mp hzero).1

theorem sitsAt (h : LeavesMarket om om') {slot : OrderSlot} (hslot : om.MarketSlot slot)
    {v : VenueIndex} {l : Level} (hsits : SitsAt v (om.orderPool slot) l) :
    SitsAt v (om'.orderPool slot) l := by
  have hmodify := h.canModify_ne_zero hslot hsits.modifiable
  obtain ⟨bits, hbits⟩ := h.orders slot hslot
  rw [hbits] at hmodify ⊢
  exact ⟨⟨hsits.located.venue, hsits.located.symbol, hsits.located.side⟩, hsits.price,
    hsits.market, hmodify⟩

/-- The other threads keep what the book and the store know about the exchange. -/
theorem tracks (h : LeavesMarket om om') {ι : Type} [DecidableEq ι] {v : VenueIndex}
    {resolve : OrderManager → ι → Option OrderSlot} {x : RestingOrders ι Level}
    {renamed : Finset ι} (htracks : Tracks v resolve ⟨om, x, renamed⟩)
    (hres : ∀ id, resolve om' id = resolve om id)
    (hslot : ∀ id slot, resolve om id = some slot → om.MarketSlot slot) :
    Tracks v resolve ⟨om', x, renamed⟩ := by
  refine ⟨fun l => ?_, fun id hid => ?_, fun id id' slot hid hid' hs hs' => ?_,
    fun slot hlow => ?_⟩
  · show ShowsDepth (om'.marketbook.level v l.1 l.2.1 l.2.2) _
    rw [h.marketbook]
    exact htracks.depth l
  · obtain ⟨slot, hs, hsits, hrem⟩ := htracks.reached id hid
    have hmarket := hslot id slot hs
    refine ⟨slot, (hres id).trans hs, h.sitsAt hmarket hsits, ?_⟩
    obtain ⟨bits, hbits⟩ := h.orders slot hmarket
    show (om'.orderPool slot).remainingQuantity.toNat = _
    rw [hbits]
    exact hrem
  · exact htracks.distinct id id' slot hid hid' ((hres id).symm.trans hs)
      ((hres id').symm.trans hs')
  · have hmarket : om.MarketSlot slot := .inl hlow
    obtain ⟨hown, hmodify⟩ := htracks.slots slot hlow
    refine ⟨?_, h.canModify_ne_zero hmarket hmodify⟩
    obtain ⟨bits, hbits⟩ := h.orders slot hmarket
    show (om'.orderPool slot).isOurOrder = false
    rw [hbits]
    exact hown

end LeavesMarket

/-! ### Handlers that follow an exchange -/

/-- The handler of a market data feed with the exchange it follows.  `Consistent` says what the
exchange may send, `Sound` that store and book know its orders, and `Echo` that an add is taken
for an own order. -/
structure MarketHandler (α κ : Type) where
  venue : VenueIndex
  wrap : α → StoreMessage
  update : OrderManager → α → Except Fault OrderManager
  exchangeStep : OrderManager → RestingOrders κ Level → α → RestingOrders κ Level
  Consistent : OrderManager → RestingOrders κ Level → α → Prop
  Sound : OrderManager → RestingOrders κ Level → Prop
  Echo : OrderManager → α → Prop
  update_wrap : ∀ hash om msg, OwnManager.update hash om (wrap msg) = om.onMarket (update · msg)
  /-- What the exchange does depends on the directory only. -/
  exchangeStep_congr : ∀ {om om'} x msg, SameSymbols om om' →
    exchangeStep om' x msg = exchangeStep om x msg
  consistent_congr : ∀ {om om' x msg}, SameSymbols om om' → ¬Echo om' msg →
    Consistent om x msg → Consistent om' x msg
  sound_start : ∀ {om}, FreshMarket om venue → Sound om (.empty (0, 0, 0))
  sound_step : ∀ {om x msg}, Sound om x → Consistent om x msg →
    ∃ om', update om msg = .ok om' ∧ Sound om' (exchangeStep om x msg) ∧ SameSymbols om om'
  sound_leaves : ∀ {om om' x}, Sound om x → LeavesMarket om om' → Sound om' x
  /-- The message is not deferred. -/
  not_deferred : ∀ {hash om x msg}, Sound om.toOrderManager x →
    Consistent om.toOrderManager x msg →
      ∀ slot, OwnManager.disposition hash om (wrap msg) ≠ .deferred slot
  depth : ∀ {om x}, Sound om x →
    ∀ i s p, ShowsDepth (om.marketbook.level venue i s p) (x.depth (i, s, p))

/-- A message about an order that may be modified is not deferred. -/
theorem lookedUp_ne_deferred {om : OrderManager} {found : Option OrderSlot}
    (h : ∀ slot, found = some slot → (om.orderPool slot).canModify ≠ 0) (slot : OrderSlot) :
    om.lookedUp found ≠ .deferred slot := by
  cases found with
  | none => exact nofun
  | some t =>
    show om.existing t ≠ _
    rw [OrderManager.existing, if_neg (h t rfl)]
    exact nofun

/-! ### BIST -/

namespace Bist

variable {om om' : OrderManager} {x : RestingOrders OrderKey Level} {msg : ItchMessage}

/-- The add is taken for an own order that awaits its acknowledgement. -/
def Echo (om : OrderManager) : ItchMessage → Prop
  | .addOrder m => om.awaitingAckOrders ≠ ∅ ∧ om.isMatchedPendingOrderBist m = true
  | _ => False

theorem exchangeStep_congr (h : SameSymbols om om') (x : RestingOrders OrderKey Level)
    (msg : ItchMessage) : exchangeStep om' x msg = exchangeStep om x msg := by
  cases msg with
  | addOrder m => simp only [exchangeStep, h.symbolOf_eq]
  | _ => rfl

theorem consistent_congr (h : SameSymbols om om') (hecho : ¬Echo om' msg)
    (hok : Consistent ⟨om, x, ∅⟩ msg) : Consistent ⟨om', x, ∅⟩ msg := by
  cases msg with
  | addOrder m =>
    obtain ⟨hnew, hpos, hroom, -, i, hi, hfit⟩ := hok
    exact ⟨hnew, hpos, hroom, hecho, i, (h.symbolOf_eq 0 m.orderBookId).trans hi, hfit⟩
  | orderExecuted m => exact hok
  | orderDelete m => exact hok
  | _ => exact absurd hok (by simp [Consistent])

theorem sameSymbols_of_consistent (hok : Consistent ⟨om, x, ∅⟩ msg)
    (h : om.updateOrderBist msg = .ok om') : SameSymbols om om' := by
  cases msg with
  | addOrder m => exact .updateBistAdd h
  | orderExecuted m => exact .onBistOrder h
  | orderDelete m => exact .onBistOrder h
  | _ => exact absurd hok (by simp [Consistent])

theorem sound_leaves (hf : Sound ⟨om, x, ∅⟩) (h : LeavesMarket om om') : Sound ⟨om', x, ∅⟩ := by
  have hlookup : ∀ k, om'.getOrderFromMarketMap k = om.getOrderFromMarketMap k := by
    intro k
    rw [getOrderFromMarketMap, getOrderFromMarketMap, h.marketOrders]
  refine ⟨h.tracks hf.tracks hlookup fun k slot hk => .inr ⟨k, hk⟩, fun k slot hk => ?_, ?_, ?_,
    rfl⟩
  · have hold := hf.known k slot ((hlookup k).symm.trans hk)
    exact ⟨hold.1, h.next ▸ hold.2⟩
  · exact h.next.trans hf.next
  · exact h.full.trans hf.notFull

/-- Orders that are found may be modified. -/
theorem not_deferred (hf : Sound ⟨om, x, ∅⟩) (hok : Consistent ⟨om, x, ∅⟩ msg) (slot : OrderSlot) :
    om.dispositionBist msg ≠ .deferred slot := by
  have hlive : ∀ k, x.Live k → ∀ t, om.getOrderFromMarketMap k = some t →
      (om.orderPool t).canModify ≠ 0 := by
    intro k hk t ht
    obtain ⟨t', ht', hsits, -⟩ := hf.tracks.reached k ⟨hk, Finset.notMem_empty k⟩
    have hsame : t = t' := Option.some.inj (ht.symm.trans ht')
    exact hsame ▸ hsits.modifiable
  cases msg with
  | addOrder m =>
    have hnone := lookup_eq_none (fun k slot hk => (hf.known k slot hk).1) hok.1
    have hkey : om.getOrderFromMarketMap (bistKey m.orderId m.orderBookId m.side) = none := hnone
    simp only [OrderManager.dispositionBist, hkey]
    split <;> exact nofun
  | orderExecuted m => exact lookedUp_ne_deferred (hlive _ hok.1) slot
  | orderDelete m => exact lookedUp_ne_deferred (hlive _ hok) slot
  | _ => exact absurd hok (by simp [Consistent])

def marketHandler : MarketHandler ItchMessage OrderKey where
  venue := 0
  wrap := .bistItch
  update := OrderManager.updateOrderBist
  exchangeStep := exchangeStep
  Consistent om x msg := Consistent ⟨om, x, ∅⟩ msg
  Sound om x := Sound ⟨om, x, ∅⟩
  Echo := Echo
  update_wrap _ _ _ := rfl
  exchangeStep_congr x msg h := exchangeStep_congr h x msg
  consistent_congr := consistent_congr
  sound_start := sound_start
  sound_step hf hok := by
    obtain ⟨f', hstep, hsound⟩ := sound_step hf hok
    obtain ⟨om', hom, hf'⟩ := bind_eq_ok_iff.mp hstep
    rw [Except.ok.injEq] at hf'
    exact ⟨om', hom, hf' ▸ hsound, sameSymbols_of_consistent hok hom⟩
  sound_leaves := sound_leaves
  not_deferred := not_deferred
  depth hf i s p := hf.tracks.depth (i, s, p)

end Bist

/-! ### NASDAQ -/

namespace Nasdaq

variable {om om' : OrderManager} {x : RestingOrders UInt64 Level} {msg : ItchMessage}

/-- The add is taken for an own order that awaits its acknowledgement. -/
def Echo (om : OrderManager) : ItchMessage → Prop
  | .addOrder m | .addOrderMpid m =>
    om.awaitingAckOrders ≠ ∅ ∧ om.isMatchedPendingOrderNasdaq m = true
  | _ => False

theorem exchangeStep_congr (h : SameSymbols om om') (x : RestingOrders UInt64 Level)
    (msg : ItchMessage) : exchangeStep om' x msg = exchangeStep om x msg := by
  cases msg <;> simp only [exchangeStep, h.symbolOf_eq]

theorem addOk_congr {m : AddOrder} (h : SameSymbols om om')
    (hecho : ¬(om'.awaitingAckOrders ≠ ∅ ∧ om'.isMatchedPendingOrderNasdaq m = true))
    (hok : AddOk ⟨om, x, ∅⟩ m) : AddOk ⟨om', x, ∅⟩ m := by
  refine ⟨hok.new, hok.positive, ?_, hecho⟩
  obtain ⟨i, hi, hfit⟩ := hok.fits
  exact ⟨i, (h.symbolOf_eq 1 m.stockLocate.toUInt32).trans hi, hfit⟩

theorem consistent_congr (h : SameSymbols om om') (hecho : ¬Echo om' msg)
    (hok : PlainConsistent ⟨om, x, ∅⟩ msg) : PlainConsistent ⟨om', x, ∅⟩ msg := by
  cases msg with
  | addOrder m => exact ⟨addOk_congr h hecho hok.1, hok.2⟩
  | addOrderMpid m => exact ⟨addOk_congr h hecho hok.1, hok.2⟩
  | cancel m => exact hok
  | executed m => exact hok
  | delete m => exact hok
  | _ => exact absurd hok (by simp [PlainConsistent])

theorem sameSymbols_of_consistent (hok : PlainConsistent ⟨om, x, ∅⟩ msg)
    (h : om.updateOrderNasdaq msg = .ok om') : SameSymbols om om' := by
  cases msg with
  | addOrder m => exact .updateNasdaqAdd (fun _ _ => .fillWithSymbol _ 1 _ _ _) h
  | addOrderMpid m => exact .updateNasdaqAdd (fun _ _ => .fillWithSymbol _ 1 _ _ _) h
  | cancel m => exact .onNasdaqOrder h
  | executed m => exact .onNasdaqOrder h
  | delete m => exact .onNasdaqOrder h
  | _ => exact absurd hok (by simp [PlainConsistent])

theorem marketSlot_of_nasdaqSlot {ref : UInt64} {slot : OrderSlot}
    (h : om.nasdaqSlot ref = some slot) : om.MarketSlot slot := by
  unfold OrderManager.nasdaqSlot at h
  split at h
  · cases h
  · exact .inr ⟨_, h⟩

theorem sound_leaves (hf : Sound ⟨om, x, ∅⟩) (h : LeavesMarket om om') : Sound ⟨om', x, ∅⟩ := by
  have hres : ∀ ref, om'.nasdaqSlot ref = om.nasdaqSlot ref := by
    intro ref
    unfold OrderManager.nasdaqSlot getOrderFromMarketMap
    rw [h.refnums, h.marketOrders]
  refine ⟨h.tracks hf.tracks hres fun ref slot hr => marketSlot_of_nasdaqSlot hr,
    fun ref k hk => hf.refs ref k (h.refnums ▸ hk), h.next.trans_le hf.next, fun slot hslot => ?_,
    fun k slot hk => ?_, ?_, fun hfull => hf.countFull (h.full.symm.trans hfull)⟩
  · have hold : slot.val < om.marketNextSlot ∨ (om.marketMapFull = true ∧ slot.val < 32768) := by
      rw [← h.next, ← h.full]
      exact hslot
    have hlow : slot.val < 32768 := hold.elim (fun hlt => hlt.trans_le hf.next) And.right
    obtain ⟨bits, hbits⟩ := h.orders slot (.inl hlow)
    show (om'.orderPool slot).venue = .nasdaq
    rw [hbits]
    exact hf.venue slot hold
  · show slot.val < om'.marketNextSlot ∨ om'.marketMapFull = true
    rw [h.next, h.full]
    exact hf.stored k slot (h.marketOrders ▸ hk)
  · show om'.marketNextSlot ≤ _ ∨ om'.marketMapFull = true
    rw [h.next, h.full]
    exact hf.count

/-- Orders that are found may be modified. -/
theorem not_deferred (hf : Sound ⟨om, x, ∅⟩) (hok : PlainConsistent ⟨om, x, ∅⟩ msg)
    (slot : OrderSlot) : om.dispositionNasdaq msg ≠ .deferred slot := by
  have hlive : ∀ ref, x.Live ref → ∀ t, om.nasdaqSlot ref = some t →
      (om.orderPool t).canModify ≠ 0 := by
    intro ref href t ht
    obtain ⟨t', ht', hsits, -⟩ := hf.tracks.reached ref ⟨href, Finset.notMem_empty ref⟩
    have hsame : t = t' := Option.some.inj (ht.symm.trans ht')
    exact hsame ▸ hsits.modifiable
  have hadd : ∀ m, om.dispositionNasdaqAdd m ≠ .deferred slot := by
    intro m
    unfold OrderManager.dispositionNasdaqAdd
    split <;> exact nofun
  cases msg with
  | addOrder m => exact hadd m
  | addOrderMpid m => exact hadd m
  | cancel m => exact lookedUp_ne_deferred (hlive _ hok.1) slot
  | executed m => exact lookedUp_ne_deferred (hlive _ hok.1) slot
  | delete m => exact lookedUp_ne_deferred (hlive _ hok) slot
  | _ => exact absurd hok (by simp [PlainConsistent])

def marketHandler : MarketHandler ItchMessage UInt64 where
  venue := 1
  wrap := .nasdaqItch
  update := OrderManager.updateOrderNasdaq
  exchangeStep := exchangeStep
  Consistent om x msg := PlainConsistent ⟨om, x, ∅⟩ msg
  Sound om x := Sound ⟨om, x, ∅⟩
  Echo := Echo
  update_wrap _ _ _ := rfl
  exchangeStep_congr x msg h := exchangeStep_congr h x msg
  consistent_congr := consistent_congr
  sound_start := sound_start
  sound_step hf hok := by
    obtain ⟨f', hstep, hsound, hren⟩ := plain_step ⟨hf, rfl⟩ hok
    obtain ⟨om', hom, hf'⟩ := bind_eq_ok_iff.mp hstep
    rw [Except.ok.injEq] at hf'
    subst hf'
    refine ⟨om', hom, ?_, sameSymbols_of_consistent hok hom⟩
    rw [show renamedBy _ ∪ (∅ : Finset UInt64) = ∅ from hren] at hsound
    exact hsound
  sound_leaves := sound_leaves
  not_deferred := not_deferred
  depth hf i s p := hf.tracks.depth (i, s, p)

end Nasdaq

end TradingEngine
