/-
Executions at a price of their own.

An execution with price trades a resting order at a price that need not be the
one it rests at.  Both fillers view the message as a plain execution and then
write the execution price into the order, before the book takes the executed
quantity off the level at the order's price.

* `execWithPrice_iff` — on both venues, the level the order rests at loses
  exactly the executed quantity, no other level changes and the order stays at
  its level iff the execution price is the resting price;
* `execWithPrice_other_level` — an execution of 2 at 101 of a bid of 5 resting at
  100 takes nothing off the level at 100, and leaves the order at 101.
-/
import TradingEngine.DepthRuns

namespace TradingEngine

open OrderManager

/-- The quantity of a level, 0 for one that is not there. -/
def levelQty (entry : Option UInt32) : ℕ := (entry.map UInt32.toNat).getD 0

theorem levelQty_reduced {entry : Option UInt32} {qty : UInt32} (h : qty.toNat ≤ levelQty entry) :
    levelQty (MarketBook.reduced entry qty) + qty.toNat = levelQty entry := by
  cases entry with
  | none =>
    have h : qty.toNat ≤ 0 := h
    show 0 + qty.toNat = 0
    omega
  | some q =>
    have h : qty.toNat ≤ q.toNat := h
    by_cases hle : q ≤ qty
    · have hle' := UInt32.le_iff_toNat_le.mp hle
      simp only [MarketBook.reduced, if_pos hle]
      show 0 + qty.toNat = q.toNat
      omega
    · simp only [MarketBook.reduced, if_neg hle]
      show (q - qty).toNat + qty.toNat = q.toNat
      rw [UInt32.toNat_sub_of_le _ _ (UInt32.le_iff_toNat_le.mpr h)]
      omega

/-- The order in `slot` rests at the level `l` of a venue with `r` left, and is
part of what the book shows there. -/
structure RestingAt (om : OrderManager) (v : VenueIndex) (slot : OrderSlot) (l : Level) (r : ℕ) :
    Prop where
  sits : SitsAt v (om.orderPool slot) l
  remaining : (om.orderPool slot).remainingQuantity.toNat = r
  shown : r ≤ levelQty (om.marketbook.level v l.1 l.2.1 l.2.2)

/-- The level `l` loses exactly `x`, no other level changes, and the order stays
at `l` with `x` less, found as before. -/
structure ExecutesAt (om : OrderManager) (v : VenueIndex) (slot : OrderSlot) (l : Level) (x : ℕ)
    (om' : OrderManager) : Prop where
  level : levelQty (om'.marketbook.level v l.1 l.2.1 l.2.2) + x =
    levelQty (om.marketbook.level v l.1 l.2.1 l.2.2)
  others : ∀ v' i s p, ¬(v' = v ∧ i = l.1 ∧ s = l.2.1 ∧ p = l.2.2) →
    om'.marketbook.level v' i s p = om.marketbook.level v' i s p
  sits : SitsAt v (om'.orderPool slot) l
  remaining : (om'.orderPool slot).remainingQuantity.toNat + x =
    (om.orderPool slot).remainingQuantity.toNat
  bist : ∀ k, om'.getOrderFromMarketMap k = om.getOrderFromMarketMap k
  nasdaq : ∀ ref, om'.nasdaqSlot ref = om.nasdaqSlot ref

/-- What a filler of an execution with price leaves: everything but quantities,
status and price. -/
structure FillsExecution (order order' : Order) (x : ℕ) (e : Int64) : Prop where
  side : order'.side = order.side
  venue : order'.venue = order.venue
  symbolIndex : order'.symbolIndex = order.symbolIndex
  market : order'.isOurOrder = order.isOurOrder
  modifiable : order'.canModify = order.canModify
  price : order'.price = e
  lastExec : order'.lastExecQuantity.toNat = x
  remaining : order'.remainingQuantity.toNat + x = order.remainingQuantity.toNat

variable {om : OrderManager} {v : VenueIndex} {slot : OrderSlot} {l : Level} {r x : ℕ} {e : Int64}

/-- The filler followed by `exec_order`. -/
theorem fillThenExec (fill : Order → Order) (hrest : RestingAt om v slot l r) (hx : x ≤ r)
    (hfill : FillsExecution (om.orderPool slot) (fill (om.orderPool slot)) x e) (d : DbData) :
    ∃ om', fillThenBook fill MarketBook.execOrder slot om = .ok om' ∧
      (ExecutesAt om v slot l x ((om'.publish slot).pushDb d) ↔ e = l.2.2) := by
  have hloc := hrest.sits.located
  have hloc' : MarketBook.LocatedAt (fill (om.orderPool slot)) v l.1 l.2.1 := by
    refine ⟨?_, ?_, ?_⟩
    · rw [hfill.venue]
      exact hloc.venue
    · rw [hfill.symbolIndex]
      exact hloc.symbol
    · rw [hfill.side]
      exact hloc.side
  have hmarket : (fill (om.orderPool slot)).isOurOrder = false :=
    hfill.market.trans hrest.sits.market
  have hmodify : (fill (om.orderPool slot)).canModify ≠ 0 := by
    rw [hfill.modifiable]
    exact hrest.sits.modifiable
  obtain ⟨mb, hmb, hlevel⟩ := MarketBook.level_reduceLevel om.marketbook hloc' hmarket
    (fill (om.orderPool slot)).lastExecQuantity
  refine ⟨_, fillThenBook_of_ok hmb, ?_⟩
  have hpool : (((om.setOrder slot (fill (om.orderPool slot))).setBook mb).publish slot |>.pushDb
      d).orderPool slot = fill (om.orderPool slot) := Function.update_self _ _ _
  constructor
  · intro h
    -- the order is left at the execution price, wherever the book was changed
    have hprice := h.sits.price
    rw [hpool, hfill.price] at hprice
    exact hprice
  · intro he
    -- at the resting price the book is reduced where the order rests
    have hat : (fill (om.orderPool slot)).price = l.2.2 := hfill.price.trans he
    refine ⟨?_, ?_, ?_, ?_, fun _ => rfl, fun _ => rfl⟩
    · show levelQty (mb.level v l.1 l.2.1 l.2.2) + x = _
      rw [hlevel, if_pos ⟨rfl, rfl, rfl, hat.symm⟩, hat, ← hfill.lastExec]
      refine levelQty_reduced ?_
      rw [hfill.lastExec]
      exact hx.trans hrest.shown
    · intro v' i s p hne
      show mb.level v' i s p = _
      rw [hlevel, hat, if_neg hne]
    · rw [hpool]
      exact ⟨hloc', hat, hmarket, hmodify⟩
    · rw [hpool]
      exact hfill.remaining

/-- **When an execution at a price of its own decrements the resting level.**
On both venues, for every live market order resting at the level `l` with `r`
left and every execution with price of at most `r`: processing the message takes
exactly the executed quantity off that level, changes no other level and leaves
the order at its level iff the execution price is the resting price. -/
theorem execWithPrice_iff (om : OrderManager) (slot : OrderSlot) (l : Level) (r : ℕ) :
    (∀ m : Bist.OrderExecutedWithPrice,
      om.getOrderFromMarketMap (bistKey m.orderId m.orderBookId m.side) = some slot →
      RestingAt om 0 slot l r → m.executedQuantity.toNat ≤ r →
        ((∃ om', om.updateOrderBist (.orderExecutedWithPrice m) = .ok om' ∧
          ExecutesAt om 0 slot l m.executedQuantity.toNat om') ↔
            m.tradePrice.toInt64 = l.2.2)) ∧
    ∀ m : Nasdaq.ExecutedWithPrice, om.nasdaqSlot m.orderRef = some slot →
      RestingAt om 1 slot l r → m.executedShares.toNat ≤ r →
        ((∃ om', om.updateOrderNasdaq (.executedWithPrice m) = .ok om' ∧
          ExecutesAt om 1 slot l m.executedShares.toNat om') ↔
            m.executionPrice.toInt64 = l.2.2) := by
  refine ⟨fun m hslot hrest hx => ?_, fun m hslot hrest hx => ?_⟩
  · have hnat : m.executedQuantity.toUInt32.toNat = m.executedQuantity.toNat := by
      -- the quantity is 64 bits wide in the message, but what is left fits 32
      have hlt := (om.orderPool slot).remainingQuantity.toNat_lt
      rw [hrest.remaining] at hlt
      rw [UInt64.toNat_toUInt32]
      omega
    have hfill : FillsExecution (om.orderPool slot)
        (FillerItchBist.fillItchExecReportWithPrice (om.orderPool slot) m)
        m.executedQuantity.toNat m.tradePrice.toInt64 := by
      refine ⟨rfl, rfl, rfl, rfl, rfl, rfl, hnat, ?_⟩
      show ((om.orderPool slot).remainingQuantity - m.executedQuantity.toUInt32).toNat + _ = _
      rw [UInt32.toNat_sub_of_le _ _ (UInt32.le_iff_toNat_le.mpr
        (by rw [hnat, hrest.remaining]; exact hx)), hnat]
      have := hrest.remaining
      omega
    obtain ⟨om', hom, hiff⟩ := fillThenExec
      (FillerItchBist.fillItchExecReportWithPrice · m) hrest hx hfill
      (.bistItch (.orderExecutedWithPrice m))
    have hrun : om.updateOrderBist (.orderExecutedWithPrice m) = _ :=
      onBistOrder_of_found hslot hrest.sits.modifiable hom
    rw [← hiff, hrun]
    simp only [Except.ok.injEq, exists_eq_left']
  · have hfill : FillsExecution (om.orderPool slot)
        (FillerItchNasdaq.fillItchExecReportWithPrice (om.orderPool slot) m)
        m.executedShares.toNat m.executionPrice.toInt64 := by
      refine ⟨rfl, rfl, rfl, rfl, rfl, rfl, rfl, ?_⟩
      show ((om.orderPool slot).remainingQuantity - m.executedShares).toNat + _ = _
      rw [UInt32.toNat_sub_of_le _ _ (UInt32.le_iff_toNat_le.mpr
        (by rw [hrest.remaining]; exact hx))]
      have := hrest.remaining
      omega
    obtain ⟨om', hom, hiff⟩ := fillThenExec
      (FillerItchNasdaq.fillItchExecReportWithPrice · m) hrest hx hfill
      (.nasdaqItch (.executedWithPrice m))
    have hrun : om.updateOrderNasdaq (.executedWithPrice m) = _ :=
      onNasdaqOrder_of_found hslot hrest.sits.modifiable hom
    rw [← hiff, hrun]
    simp only [Except.ok.injEq, exists_eq_left']

/-- The manager after the BIST bid of 5 at 100 has been added. -/
def bistBidder : OrderManager := (oneStock.updateOrderBist (.addOrder bistBid)).toOption.getD {}

/-- The manager after the NASDAQ bid of 5 at 100 has been added. -/
def nasdaqBidder : OrderManager :=
  (oneStock.updateOrderNasdaq (.addOrder nasdaqBid)).toOption.getD {}

theorem bistBidder_resting : RestingAt bistBidder 0 0 (0, 0, 100) 5 :=
  ⟨⟨⟨rfl, rfl, rfl⟩, rfl, rfl, by decide⟩, by decide, by decide⟩

theorem nasdaqBidder_resting : RestingAt nasdaqBidder 1 0 (0, 0, 100) 5 :=
  ⟨⟨⟨rfl, rfl, rfl⟩, rfl, rfl, by decide⟩, by decide, by decide⟩

/-- Executions of 2 at the resting price of the two bids. -/
theorem execWithPrice_iff_bids :
    (∃ om', bistBidder.updateOrderBist (.orderExecutedWithPrice
        { orderId := 1, executedQuantity := 2, orderBookId := 7, tradePrice := 100,
          side := charB }) = .ok om' ∧ ExecutesAt bistBidder 0 0 (0, 0, 100) 2 om') ∧
    ∃ om', nasdaqBidder.updateOrderNasdaq (.executedWithPrice
        { orderRef := 1, executedShares := 2, executionPrice := 100 }) = .ok om' ∧
      ExecutesAt nasdaqBidder 1 0 (0, 0, 100) 2 om' := by
  refine ⟨?_, ?_⟩
  · exact ((execWithPrice_iff bistBidder 0 (0, 0, 100) 5).1 _ (by decide) bistBidder_resting
      (by decide)).mpr (by decide)
  · exact ((execWithPrice_iff nasdaqBidder 0 (0, 0, 100) 5).2 _ (by decide) nasdaqBidder_resting
      (by decide)).mpr (by decide)

/-- An execution of 2 at 101 of the bid resting at 100: nothing is taken off the
level at 100, and the order is left at 101, on both venues. -/
theorem execWithPrice_other_level :
    (RestingAt bistBidder 0 0 (0, 0, 100) 5 ∧
      ∃ om', bistBidder.updateOrderBist (.orderExecutedWithPrice
          { orderId := 1, executedQuantity := 2, orderBookId := 7, tradePrice := 101,
            side := charB }) = .ok om' ∧
        om'.marketbook.level 0 0 0 100 = some 5 ∧ (om'.orderPool 0).price = 101) ∧
    RestingAt nasdaqBidder 1 0 (0, 0, 100) 5 ∧
      ∃ om', nasdaqBidder.updateOrderNasdaq (.executedWithPrice
          { orderRef := 1, executedShares := 2, executionPrice := 101 }) = .ok om' ∧
        om'.marketbook.level 1 0 0 100 = some 5 ∧ (om'.orderPool 0).price = 101 := by
  refine ⟨⟨bistBidder_resting, ?_⟩, nasdaqBidder_resting, ?_⟩
  · exact ⟨_, rfl, by decide, by decide⟩
  · exact ⟨_, rfl, by decide, by decide⟩

end TradingEngine
