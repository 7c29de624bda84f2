/-
Market depth against the orders that rest at the exchange.

The book only ever sees differences: a filler changes the order first, and the
book operation then reads one of its quantities.  A `Feed` carries, next to the
order manager, what the exchange knows: the orders it has accepted, the level of
each and what is left of it.  `Tracks` is the invariant that connects the two:

* every level of the book shows the sum of what rests there;
* every order that rests under the reference it was added with is found by that
  reference, in a slot of its own, at its level and with its remaining quantity.

`tracks_reduce`, `tracks_place` and `tracks_clear` say once what an execution, a
cancellation, a delete, an add and a flush do to the invariant, `tracks_same`
that a message which leaves the market alone keeps it; the steps of the two
venues use nothing else.
-/
import TradingEngine.ItchUpdate
import TradingEngine.RestingOrders

namespace TradingEngine

open FallibleRun

/-! ### Levels and the depth they show -/

/-- A symbol, a side and a price. -/
abbrev Level := SymbolSlot × TreeIndex × Int64

/-- The entry of a level exists iff there is depth, and then it is the depth. -/
def ShowsDepth (entry : Option UInt32) (d : ℕ) : Prop :=
  (entry.isSome ↔ 0 < d) ∧ ∀ q, entry = some q → q.toNat = d

theorem showsDepth_add {entry : Option UInt32} {d : ℕ} {q : UInt32} (h : ShowsDepth entry d)
    (hq : 0 < q.toNat) (hfit : d + q.toNat < 2 ^ 32) :
    ShowsDepth (some (entry.getD 0 + q)) (d + q.toNat) := by
  have hentry : (entry.getD 0).toNat = d := by
    cases entry with
    | none =>
      have hzero : ¬0 < d := fun hd => absurd (h.1.mpr hd) (by simp)
      show (0 : UInt32).toNat = d
      simp
      omega
    | some r => exact h.2 r rfl
  refine ⟨by simp; omega, ?_⟩
  intro r hr
  rw [Option.some.injEq] at hr
  rw [← hr, UInt32.toNat_add, hentry]
  omega

theorem showsDepth_reduced {entry : Option UInt32} {d : ℕ} {qty : UInt32} (h : ShowsDepth entry d)
    (hn : qty.toNat ≤ d) : ShowsDepth (MarketBook.reduced entry qty) (d - qty.toNat) := by
  cases entry with
  | none =>
    have hzero : ¬0 < d := fun hd => absurd (h.1.mpr hd) (by simp)
    refine ⟨?_, ?_⟩
    · simp [MarketBook.reduced]
      omega
    · intro q hq
      exact absurd hq (by simp [MarketBook.reduced])
  | some q =>
    have hd : q.toNat = d := h.2 q rfl
    by_cases hle : q ≤ qty
    · have hle' : q.toNat ≤ qty.toNat := UInt32.le_iff_toNat_le.mp hle
      refine ⟨?_, ?_⟩
      · simp [MarketBook.reduced, hle]
        omega
      · intro r hr
        exact absurd hr (by simp [MarketBook.reduced, hle])
    · have hlt : qty.toNat < q.toNat := by
        rw [UInt32.le_iff_toNat_le] at hle
        omega
      refine ⟨?_, ?_⟩
      · simp [MarketBook.reduced, hle]
        omega
      · intro r hr
        simp only [MarketBook.reduced, if_neg hle, Option.some.injEq] at hr
        rw [← hr, UInt32.toNat_sub_of_le _ _ (UInt32.le_iff_toNat_le.mpr (by omega)), hd]

/-! ### The feed and its invariant -/

/-- The order manager, the orders of the exchange, and the references that were
given to an order after it had been added. -/
structure Feed (ι : Type) where
  manager : OrderManager
  exchange : RestingOrders ι Level
  renamed : Finset ι

/-- A market order at a level, open to modification. -/
structure SitsAt (v : VenueIndex) (order : Order) (l : Level) : Prop where
  located : MarketBook.LocatedAt order v l.1 l.2.1
  price : order.price = l.2.2
  market : order.isOurOrder = false
  modifiable : order.canModify ≠ 0

variable {ι : Type} [DecidableEq ι]

/-- A live order that still has the reference it was added with. -/
def Feed.Addressed (f : Feed ι) (id : ι) : Prop := f.exchange.Live id ∧ id ∉ f.renamed

/-- What the book and the store know about the exchange. -/
structure Tracks (v : VenueIndex) (resolve : OrderManager → ι → Option OrderSlot) (f : Feed ι) :
    Prop where
  depth : ∀ l, ShowsDepth (f.manager.marketbook.level v l.1 l.2.1 l.2.2) (f.exchange.depth l)
  reached : ∀ id, f.Addressed id → ∃ slot, resolve f.manager id = some slot ∧
    SitsAt v (f.manager.orderPool slot) (f.exchange.level id) ∧
    (f.manager.orderPool slot).remainingQuantity.toNat = f.exchange.rem id
  distinct : ∀ id id' slot, f.Addressed id → f.Addressed id' →
    resolve f.manager id = some slot → resolve f.manager id' = some slot → id = id'
  slots : ∀ slot : OrderSlot, slot.val < 32768 →
    (f.manager.orderPool slot).isOurOrder = false ∧ (f.manager.orderPool slot).canModify ≠ 0

variable {v : VenueIndex} {resolve : OrderManager → ι → Option OrderSlot} {f : Feed ι} {id : ι}
  {slot : OrderSlot} {order : Order} {l : Level}

omit [DecidableEq ι] in
/-- A pool in which one slot was rewritten by an order that is a market order
open to modification. -/
theorem slots_update (h : Tracks v resolve f) (hsits : SitsAt v order l) (t : OrderSlot)
    (ht : t.val < 32768) :
    (Function.update f.manager.orderPool slot order t).isOurOrder = false ∧
      (Function.update f.manager.orderPool slot order t).canModify ≠ 0 := by
  by_cases hts : t = slot
  · rw [hts, Function.update_self]
    exact ⟨hsits.market, hsits.modifiable⟩
  · rw [Function.update_of_ne hts]
    exact h.slots t ht

/-- **Taking quantity off an order.**  The order's slot now holds `order`, still
at its level, and `qty` is taken off the book at that level. -/
theorem tracks_reduce (h : Tracks v resolve f) (hid : f.Addressed id)
    (hslot : resolve f.manager id = some slot) (hsits : SitsAt v order (f.exchange.level id))
    {qty : UInt32} (hn : qty.toNat ≤ f.exchange.rem id)
    (hrem : qty.toNat < f.exchange.rem id →
      order.remainingQuantity.toNat = f.exchange.rem id - qty.toNat) :
    ∃ mb, f.manager.marketbook.onSymBook order (fun b => b.reduceLevel order qty) = .ok mb ∧
      ∀ om : OrderManager, om.orderPool = Function.update f.manager.orderPool slot order →
        om.marketbook = mb → (∀ j, resolve om j = resolve f.manager j) →
          Tracks v resolve ⟨om, f.exchange.reduce id qty.toNat, f.renamed⟩ := by
  obtain ⟨mb, hmb, hlevel⟩ := MarketBook.level_reduceLevel f.manager.marketbook
    hsits.located hsits.market qty
  refine ⟨mb, hmb, fun om hpool hbook hres => ?_⟩
  have hold : ∀ j, Feed.Addressed ⟨om, f.exchange.reduce id qty.toNat, f.renamed⟩ j →
      f.Addressed j := fun j hj => ⟨RestingOrders.live_of_live_reduce hj.1, hj.2⟩
  refine ⟨?_, ?_, ?_, ?_⟩
  · intro l
    show ShowsDepth (om.marketbook.level v l.1 l.2.1 l.2.2)
      ((f.exchange.reduce id qty.toNat).depth l)
    have hdepth := RestingOrders.depth_reduce l hid.1.1 hn
    rw [hbook, hlevel]
    by_cases hl : f.exchange.level id = l
    · have hle := RestingOrders.rem_le_depth hid.1.1
      rw [hl] at hsits hle
      rw [if_pos hl] at hdepth
      rw [if_pos ⟨rfl, by rw [hl], by rw [hl], hsits.price.symm⟩, hl, hsits.price,
        show (f.exchange.reduce id qty.toNat).depth l = f.exchange.depth l - qty.toNat by omega]
      exact showsDepth_reduced (h.depth l) (by omega)
    · rw [if_neg hl, Nat.add_zero] at hdepth
      have hother : ¬(v = v ∧ l.1 = (f.exchange.level id).1 ∧ l.2.1 = (f.exchange.level id).2.1 ∧
          l.2.2 = order.price) := by
        rintro ⟨-, h1, h2, h3⟩
        rw [hsits.price] at h3
        exact hl (Prod.ext h1.symm (Prod.ext h2.symm h3.symm))
      rw [if_neg hother, hdepth]
      exact h.depth l
  · intro j hj
    obtain ⟨t, ht, hsitsj, hremj⟩ := h.reached j (hold j hj)
    refine ⟨t, (hres j).trans ht, ?_⟩
    show SitsAt v (om.orderPool t) (f.exchange.level j) ∧
      (om.orderPool t).remainingQuantity.toNat =
        Function.update f.exchange.rem id (f.exchange.rem id - qty.toNat) j
    rw [hpool]
    by_cases hji : j = id
    · subst hji
      rw [hslot, Option.some.injEq] at ht
      -- it is still addressed, so something is left of it
      have hpos : 0 < Function.update f.exchange.rem j (f.exchange.rem j - qty.toNat) j := hj.1.2
      rw [Function.update_self] at hpos
      rw [← ht, Function.update_self, Function.update_self]
      exact ⟨hsits, hrem (by omega)⟩
    · have hts : t ≠ slot := by
        intro hts
        rw [hts] at ht
        exact hji (h.distinct j id slot (hold j hj) hid ht hslot)
      rw [Function.update_of_ne hts, Function.update_of_ne hji]
      exact ⟨hsitsj, hremj⟩
  · intro j j' t hj hj' ht ht'
    have ht : resolve om j = some t := ht
    have ht' : resolve om j' = some t := ht'
    rw [hres] at ht ht'
    exact h.distinct j j' t (hold j hj) (hold j' hj') ht ht'
  · intro t ht
    show (om.orderPool t).isOurOrder = false ∧ (om.orderPool t).canModify ≠ 0
    rw [hpool]
    exact slots_update h hsits t ht

/-- **Placing an order.**  The order goes into a slot no addressed order is in;
it is found under its reference unless that reference is a renamed one. -/
theorem tracks_place (h : Tracks v resolve f) (hnew : id ∉ f.exchange.used)
    (hfree : ∀ j, f.Addressed j → resolve f.manager j ≠ some slot) (hsits : SitsAt v order l)
    {q : ℕ} (hq : 0 < q) (hqty : order.quantity.toNat = q)
    (hrem : order.remainingQuantity.toNat = q) (hfit : f.exchange.depth l + q < 2 ^ 32) :
    ∃ mb, f.manager.marketbook.addOrder order = .ok mb ∧
      ∀ (om : OrderManager) (renamed : Finset ι),
        om.orderPool = Function.update f.manager.orderPool slot order → om.marketbook = mb →
        f.renamed ⊆ renamed → (id ∈ renamed ∨ resolve om id = some slot) →
        (∀ j, f.Addressed j → resolve om j = resolve f.manager j) →
          Tracks v resolve ⟨om, f.exchange.place id l q, renamed⟩ := by
  obtain ⟨mb, hmb, hlevel⟩ := MarketBook.level_addOrder f.manager.marketbook
    hsits.located hsits.market
  refine ⟨mb, hmb, fun om renamed hpool hbook hsub hself hres => ?_⟩
  have hold : ∀ j, Feed.Addressed ⟨om, f.exchange.place id l q, renamed⟩ j → j ≠ id →
      f.Addressed j := fun j hj hji =>
    ⟨RestingOrders.live_of_live_place hj.1 hji, fun hin => hj.2 (hsub hin)⟩
  have hresolve : ∀ j, Feed.Addressed ⟨om, f.exchange.place id l q, renamed⟩ j →
      (j = id ∧ resolve om j = some slot) ∨
        (j ≠ id ∧ f.Addressed j ∧ resolve om j = resolve f.manager j) := by
    intro j hj
    by_cases hji : j = id
    · rw [hji] at hj
      exact Or.inl ⟨hji, by rw [hji]; exact hself.resolve_left hj.2⟩
    · exact Or.inr ⟨hji, hold j hj hji, hres j (hold j hj hji)⟩
  refine ⟨?_, ?_, ?_, ?_⟩
  · intro l'
    show ShowsDepth (om.marketbook.level v l'.1 l'.2.1 l'.2.2) ((f.exchange.place id l q).depth l')
    rw [hbook, hlevel, RestingOrders.depth_place hnew]
    by_cases hl : l = l'
    · rw [if_pos hl, ← hl, if_pos ⟨rfl, rfl, rfl, hsits.price.symm⟩, hsits.price, ← hqty]
      rw [← hqty] at hq hfit
      exact showsDepth_add (h.depth l) hq hfit
    · have hother : ¬(v = v ∧ l'.1 = l.1 ∧ l'.2.1 = l.2.1 ∧ l'.2.2 = order.price) := by
        rintro ⟨-, h1, h2, h3⟩
        rw [hsits.price] at h3
        exact hl (Prod.ext h1.symm (Prod.ext h2.symm h3.symm))
      rw [if_neg hl, Nat.add_zero, if_neg hother]
      exact h.depth l'
  · intro j hj
    show ∃ t, resolve om j = some t ∧
      SitsAt v (om.orderPool t) (Function.update f.exchange.level id l j) ∧
        (om.orderPool t).remainingQuantity.toNat = Function.update f.exchange.rem id q j
    rcases hresolve j hj with ⟨rfl, hj'⟩ | ⟨hji, hjold, hj'⟩
    · refine ⟨slot, hj', ?_⟩
      rw [hpool, Function.update_self, Function.update_self, Function.update_self]
      exact ⟨hsits, hrem⟩
    · obtain ⟨t, ht, hsitsj, hremj⟩ := h.reached j hjold
      -- another addressed order is in another slot
      have hts : t ≠ slot := by
        intro hts
        rw [hts] at ht
        exact hfree j hjold ht
      refine ⟨t, hj'.trans ht, ?_⟩
      rw [hpool, Function.update_of_ne hts, Function.update_of_ne hji, Function.update_of_ne hji]
      exact ⟨hsitsj, hremj⟩
  · intro j j' t hj hj' ht ht'
    have ht : resolve om j = some t := ht
    have ht' : resolve om j' = some t := ht'
    -- the slot taken is the new order's alone
    rcases hresolve j hj with ⟨hji, hjs⟩ | ⟨_, hjold, hjs⟩ <;>
      rcases hresolve j' hj' with ⟨hji', hjs'⟩ | ⟨_, hjold', hjs'⟩
    · rw [hji, hji']
    · rw [hjs] at ht
      rw [hjs', ← ht] at ht'
      exact absurd ht' (hfree j' hjold')
    · rw [hjs'] at ht'
      rw [hjs, ← ht'] at ht
      exact absurd ht (hfree j hjold)
    · rw [hjs] at ht
      rw [hjs'] at ht'
      exact h.distinct j j' t hjold hjold' ht ht'
  · intro t ht
    show (om.orderPool t).isOurOrder = false ∧ (om.orderPool t).canModify ≠ 0
    rw [hpool]
    exact slots_update h hsits t ht

omit [DecidableEq ι] in
/-- A message that leaves orders, references and book alone. -/
theorem tracks_same (h : Tracks v resolve f) {om : OrderManager}
    (hpool : om.orderPool = f.manager.orderPool) (hbook : om.marketbook = f.manager.marketbook)
    (hres : ∀ j, resolve om j = resolve f.manager j) :
    Tracks v resolve ⟨om, f.exchange, f.renamed⟩ := by
  refine ⟨?_, ?_, ?_, ?_⟩
  · intro l
    show ShowsDepth (om.marketbook.level v l.1 l.2.1 l.2.2) (f.exchange.depth l)
    rw [hbook]
    exact h.depth l
  · intro j hj
    obtain ⟨slot, hslot, hrest⟩ := h.reached j hj
    refine ⟨slot, (hres j).trans hslot, ?_⟩
    show SitsAt v (om.orderPool slot) _ ∧ (om.orderPool slot).remainingQuantity.toNat = _
    rw [hpool]
    exact hrest
  · intro j j' slot hj hj' hto hto'
    exact h.distinct j j' slot hj hj' ((hres j).symm.trans hto) ((hres j').symm.trans hto')
  · intro slot hslot
    show (om.orderPool slot).isOurOrder = false ∧ (om.orderPool slot).canModify ≠ 0
    rw [hpool]
    exact h.slots slot hslot

omit [DecidableEq ι] in
/-- **Clearing levels.**  The levels of `P` are emptied, their orders removed, and
no market slot is written. -/
theorem tracks_clear (h : Tracks v resolve f) {om : OrderManager} (P : Level → Prop)
    [DecidablePred P]
    (hlevel : ∀ l, om.marketbook.level v l.1 l.2.1 l.2.2 =
      if P l then none else f.manager.marketbook.level v l.1 l.2.1 l.2.2)
    (hpool : ∀ slot : OrderSlot, slot.val < 32768 → om.orderPool slot = f.manager.orderPool slot)
    (hstored : ∀ j slot, resolve f.manager j = some slot → slot.val < 32768)
    (hres : ∀ j, resolve om j = resolve f.manager j) :
    Tracks v resolve ⟨om, f.exchange.clear P, f.renamed⟩ := by
  -- what is still live was live before, outside the cleared levels
  have hold : ∀ j, Feed.Addressed ⟨om, f.exchange.clear P, f.renamed⟩ j →
      f.Addressed j ∧ ¬P (f.exchange.level j) := by
    intro j hj
    obtain ⟨hlive, hP⟩ := RestingOrders.live_of_live_clear hj.1
    exact ⟨⟨hlive, hj.2⟩, hP⟩
  refine ⟨?_, ?_, ?_, ?_⟩
  · intro l
    show ShowsDepth (om.marketbook.level v l.1 l.2.1 l.2.2) ((f.exchange.clear P).depth l)
    rw [hlevel, RestingOrders.depth_clear]
    split
    · exact ⟨by simp, fun q hq => absurd hq (by simp)⟩
    · exact h.depth l
  · intro j hj
    obtain ⟨hjold, hP⟩ := hold j hj
    obtain ⟨slot, hslot, hsits, hrem⟩ := h.reached j hjold
    refine ⟨slot, (hres j).trans hslot, ?_⟩
    show SitsAt v (om.orderPool slot) (f.exchange.level j) ∧
      (om.orderPool slot).remainingQuantity.toNat =
        if P (f.exchange.level j) then 0 else f.exchange.rem j
    rw [hpool slot (hstored j slot hslot), if_neg hP]
    exact ⟨hsits, hrem⟩
  · intro j j' slot hj hj' hto hto'
    exact h.distinct j j' slot (hold j hj).1 (hold j' hj').1 ((hres j).symm.trans hto)
      ((hres j').symm.trans hto')
  · intro slot hslot
    show (om.orderPool slot).isOurOrder = false ∧ (om.orderPool slot).canModify ≠ 0
    rw [hpool slot hslot]
    exact h.slots slot hslot

end TradingEngine
