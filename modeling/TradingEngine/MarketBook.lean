/-
The aggregated market depth (`market/MarketBook.h`, `market/MarketBook.cpp`).

A `SymbolBook` holds two price trees, bids at index 0 and asks at index 1,
and a cached top of book.  The five order operations share one prologue
(own orders are ignored, an order without a symbol index has no book) and then
touch the level at `order.price`; afterwards they refresh the cached top,
either price and quantity (`updateBestBidAsk`) or the quantity only
(`updateOnlyBestQty`).  Which refresh follows which change is kept exactly as
in the source, because that choice is what decides whether the cache is right.

Machine arithmetic: level quantities are `uint32_t` and wrap.  In
`cancel_order` the signed `replaced_quantity` is converted to `uint32_t` before
it is compared; in `modify_order` the sum is computed in `int64_t` and
truncated, and the test `it->second <= 0` is on the truncated unsigned value.
-/
import TradingEngine.FallibleRun
import TradingEngine.SortedMap
import TradingEngine.Order

namespace TradingEngine

/-- `absl::btree_map<int64_t, uint32_t>`: price to aggregated quantity. -/
abbrev PriceTree := SortedMap Int64 UInt32

structure SymbolBook where
  bidAskTrees : TreeIndex → PriceTree := fun _ => ∅
  bestBid : Int64 := 0
  bestAsk : Int64 := 0
  bestBidQty : UInt32 := 0
  bestAskQty : UInt32 := 0

namespace SymbolBook

/-- The tree of one side replaced. -/
def setTree (b : SymbolBook) (i : TreeIndex) (t : PriceTree) : SymbolBook :=
  { b with bidAskTrees := Function.update b.bidAskTrees i t }

/-! ### Refreshing the cached top -/

/-- `empty() ? 0 : rbegin()->first` and its three siblings are the two
projections of an optional end entry, 0 when there is none. -/
def endPrice (e : Option (Int64 × UInt32)) : Int64 := (e.map Prod.fst).getD 0

def endQty (e : Option (Int64 × UInt32)) : UInt32 := (e.map Prod.snd).getD 0

def updateBestBid (b : SymbolBook) : SymbolBook :=
  { b with bestBid := endPrice (b.bidAskTrees 0).last? }

def updateBestAsk (b : SymbolBook) : SymbolBook :=
  { b with bestAsk := endPrice (b.bidAskTrees 1).first? }

def updateBestBidQty (b : SymbolBook) : SymbolBook :=
  { b with bestBidQty := endQty (b.bidAskTrees 0).last? }

def updateBestAskQty (b : SymbolBook) : SymbolBook :=
  { b with bestAskQty := endQty (b.bidAskTrees 1).first? }

def updateBestBidAsk (b : SymbolBook) (side : Side) : SymbolBook :=
  if side = .buy then b.updateBestBid.updateBestBidQty else b.updateBestAsk.updateBestAskQty

def updateOnlyBestQty (b : SymbolBook) (side : Side) : SymbolBook :=
  if side = .buy then b.updateBestBidQty else b.updateBestAskQty

@[simp] theorem bidAskTrees_setTree (b : SymbolBook) (s : TreeIndex) (t : PriceTree) :
    (b.setTree s t).bidAskTrees = Function.update b.bidAskTrees s t := rfl

@[simp] theorem bidAskTrees_updateBestBidAsk (b : SymbolBook) (side : Side) :
    (b.updateBestBidAsk side).bidAskTrees = b.bidAskTrees := by
  unfold updateBestBidAsk
  split <;> rfl

@[simp] theorem bidAskTrees_updateOnlyBestQty (b : SymbolBook) (side : Side) :
    (b.updateOnlyBestQty side).bidAskTrees = b.bidAskTrees := by
  unfold updateOnlyBestQty
  split <;> rfl

/-! ### One level at a time -/

/-- The body of `add_order` behind the prologue. -/
def addOrder (b : SymbolBook) (order : Order) : Except Fault SymbolBook := do
  let i ← order.side.index
  let tree := b.bidAskTrees i
  match tree.find? order.price with
  | none => .ok ((b.setTree i (tree.insert order.price order.quantity)).updateBestBidAsk order.side)
  | some q =>
    .ok ((b.setTree i (tree.insert order.price (q + order.quantity))).updateOnlyBestQty order.side)

/-- `order.quantity` and the new quantity as the signed difference
`modify_order` applies. -/
def modifyDiff (order : Order) (newQuantity : UInt32) : Int64 :=
  newQuantity.toInt64 - order.quantity.toInt64

/-- The body of `modify_order` behind the prologue. -/
def modifyOrder (b : SymbolBook) (order : Order) (newQuantity : UInt32) :
    Except Fault SymbolBook := do
  let i ← order.side.index
  let tree := b.bidAskTrees i
  let diff := modifyDiff order newQuantity
  match tree.find? order.price with
  | some q =>
    -- the sum is 64-bit, the level it is stored in 32-bit
    let q' := (q.toInt64 + diff).toUInt64.toUInt32
    let tree' := if q' = 0 then tree.erase order.price else tree.insert order.price q'
    .ok ((b.setTree i tree').updateBestBidAsk order.side)
  | none =>
    -- a new level, but only the quantity of the cached top is refreshed
    let tree' := if 0 < diff then tree.insert order.price diff.toUInt64.toUInt32 else tree
    .ok ((b.setTree i tree').updateOnlyBestQty order.side)

/-- The common body of `cancel_order`, `delete_order` and `exec_order`: take
`qty` from the level at `order.price`, dropping the level when nothing is
left. -/
def reduceLevel (b : SymbolBook) (order : Order) (qty : UInt32) : Except Fault SymbolBook := do
  let i ← order.side.index
  let tree := b.bidAskTrees i
  match tree.find? order.price with
  | none => .ok b
  | some q =>
    if q ≤ qty then
      .ok ((b.setTree i (tree.erase order.price)).updateBestBidAsk order.side)
    else
      .ok ((b.setTree i (tree.insert order.price (q - qty))).updateOnlyBestQty order.side)

/-! What the two bodies come to, once the level is known. -/

theorem addOrder_of_none {b : SymbolBook} {order : Order} {s : TreeIndex}
    (hs : order.side.index = .ok s) (hfind : (b.bidAskTrees s).find? order.price = none) :
    b.addOrder order = .ok ((b.setTree s ((b.bidAskTrees s).insert order.price
      order.quantity)).updateBestBidAsk order.side) := by
  simp only [addOrder, hs, hfind, Bind.bind, Except.bind]

theorem addOrder_of_some {b : SymbolBook} {order : Order} {s : TreeIndex} {q : UInt32}
    (hs : order.side.index = .ok s) (hfind : (b.bidAskTrees s).find? order.price = some q) :
    b.addOrder order = .ok ((b.setTree s ((b.bidAskTrees s).insert order.price
      (q + order.quantity))).updateOnlyBestQty order.side) := by
  simp only [addOrder, hs, hfind, Bind.bind, Except.bind]

theorem reduceLevel_of_none {b : SymbolBook} {order : Order} {s : TreeIndex} {qty : UInt32}
    (hs : order.side.index = .ok s) (hfind : (b.bidAskTrees s).find? order.price = none) :
    b.reduceLevel order qty = .ok b := by
  simp only [reduceLevel, hs, hfind, Bind.bind, Except.bind]

theorem reduceLevel_of_le {b : SymbolBook} {order : Order} {s : TreeIndex} {q qty : UInt32}
    (hs : order.side.index = .ok s) (hfind : (b.bidAskTrees s).find? order.price = some q)
    (hle : q ≤ qty) :
    b.reduceLevel order qty = .ok ((b.setTree s
      ((b.bidAskTrees s).erase order.price)).updateBestBidAsk order.side) := by
  simp only [reduceLevel, hs, hfind, if_pos hle, Bind.bind, Except.bind]

theorem reduceLevel_of_lt {b : SymbolBook} {order : Order} {s : TreeIndex} {q qty : UInt32}
    (hs : order.side.index = .ok s) (hfind : (b.bidAskTrees s).find? order.price = some q)
    (hlt : qty < q) :
    b.reduceLevel order qty = .ok ((b.setTree s
      ((b.bidAskTrees s).insert order.price (q - qty))).updateOnlyBestQty order.side) := by
  have hle : ¬q ≤ qty := UInt32.not_le.mpr hlt
  simp only [reduceLevel, hs, hfind, if_neg hle, Bind.bind, Except.bind]

/-- `MarketBook::flush` on the book of one symbol: the trees are cleared, the
cached top is left as it was. -/
def flush (b : SymbolBook) : SymbolBook := { b with bidAskTrees := fun _ => ∅ }

end SymbolBook

structure MarketBook where
  symbolbooks : VenueIndex → SymbolSlot → SymbolBook := fun _ _ => {}

namespace MarketBook

/-- The book of one symbol replaced. -/
def setSymBook (mb : MarketBook) (v : VenueIndex) (i : SymbolSlot) (b : SymbolBook) : MarketBook :=
  { symbolbooks := Function.update mb.symbolbooks v (Function.update (mb.symbolbooks v) i b) }

/-- `get_symBook`: `none` is the null pointer of an order without a symbol
index, an index past the table is out of bounds. -/
def getSymBook (order : Order) : Except Fault (Option (VenueIndex × SymbolSlot)) :=
  if order.symbolIndex = uint32Max then .ok none
  else do
    let v ← order.venue.index
    let i ← symbolSlot order.symbolIndex
    .ok (some (v, i))

/-- The prologue the five order operations share. -/
def onSymBook (mb : MarketBook) (order : Order) (f : SymbolBook → Except Fault SymbolBook) :
    Except Fault MarketBook :=
  if order.isOurOrder then .ok mb
  else do
    match ← getSymBook order with
    | none => .ok mb
    | some (v, i) =>
      let b ← f (mb.symbolbooks v i)
      .ok (mb.setSymBook v i b)

def addOrder (mb : MarketBook) (order : Order) : Except Fault MarketBook :=
  mb.onSymBook order fun b => b.addOrder order

def modifyOrder (mb : MarketBook) (order : Order) (newQuantity : UInt32) :
    Except Fault MarketBook :=
  mb.onSymBook order fun b => b.modifyOrder order newQuantity

def cancelOrder (mb : MarketBook) (order : Order) : Except Fault MarketBook :=
  mb.onSymBook order fun b => b.reduceLevel order order.replacedQuantity.toUInt32

def deleteOrder (mb : MarketBook) (order : Order) : Except Fault MarketBook :=
  mb.onSymBook order fun b => b.reduceLevel order order.remainingQuantity

def execOrder (mb : MarketBook) (order : Order) : Except Fault MarketBook :=
  mb.onSymBook order fun b => b.reduceLevel order order.lastExecQuantity

def flush (mb : MarketBook) (venueIndex : VenueIndex) (symbolIndex : UInt32) :
    Except Fault MarketBook := do
  let i ← symbolSlot symbolIndex
  .ok (mb.setSymBook venueIndex i (mb.symbolbooks venueIndex i).flush)

/-! ### Where an order lies -/

variable {mb : MarketBook} {order : Order} {v : VenueIndex} {i : SymbolSlot} {s : TreeIndex}

/-- The quantity stored at one price level. -/
def level (mb : MarketBook) (v : VenueIndex) (i : SymbolSlot) (s : TreeIndex) (p : Int64) :
    Option UInt32 :=
  ((mb.symbolbooks v i).bidAskTrees s).find? p

/-- The venue, symbol slot and side an order's level lies at. -/
structure LocatedAt (order : Order) (v : VenueIndex) (i : SymbolSlot) (s : TreeIndex) : Prop where
  venue : order.venue.index = .ok v
  symbol : symbolSlot order.symbolIndex = .ok i
  side : order.side.index = .ok s

/-- The index of an unknown symbol is no slot of the tables. -/
theorem LocatedAt.symbolIndex_ne (h : LocatedAt order v i s) : order.symbolIndex ≠ uint32Max := by
  intro hmax
  have hslot := h.symbol
  rw [hmax] at hslot
  exact absurd hslot (by simp [symbolSlot, uint32Max])

theorem getSymBook_of_locatedAt (h : LocatedAt order v i s) :
    getSymBook order = .ok (some (v, i)) := by
  simp only [getSymBook, if_neg h.symbolIndex_ne, h.venue, h.symbol, Bind.bind, Except.bind]

/-- A market order with a book: the operation is applied to that book. -/
theorem onSymBook_of_locatedAt (h : LocatedAt order v i s) (hmarket : order.isOurOrder = false)
    {f : SymbolBook → Except Fault SymbolBook} {b' : SymbolBook}
    (hf : f (mb.symbolbooks v i) = .ok b') : mb.onSymBook order f = .ok (mb.setSymBook v i b') := by
  simp only [onSymBook, hmarket, getSymBook_of_locatedAt h, hf, Bind.bind, Except.bind,
    Bool.false_eq_true, if_false]

theorem symbolbooks_setSymBook (mb : MarketBook) (v v' : VenueIndex) (i i' : SymbolSlot)
    (b : SymbolBook) : (mb.setSymBook v i b).symbolbooks v' i' =
      if v' = v ∧ i' = i then b else mb.symbolbooks v' i' := by
  unfold setSymBook
  by_cases hv : v' = v
  · subst hv
    by_cases hi : i' = i
    · subst hi
      simp
    · simp [hi]
  · simp [hv]

theorem locatedAt_unique {v' : VenueIndex} {i' : SymbolSlot} {s' : TreeIndex}
    (h : LocatedAt order v i s) (h' : LocatedAt order v' i' s') : v' = v ∧ i' = i ∧ s' = s := by
  refine ⟨?_, ?_, ?_⟩
  · exact Except.ok.inj (h'.venue.symm.trans h.venue)
  · exact Except.ok.inj (h'.symbol.symm.trans h.symbol)
  · exact Except.ok.inj (h'.side.symm.trans h.side)

theorem level_setSymBook_self (mb : MarketBook) (v : VenueIndex) (i : SymbolSlot) (b : SymbolBook)
    (s : TreeIndex) (p : Int64) :
    (mb.setSymBook v i b).level v i s p = (b.bidAskTrees s).find? p := by
  rw [level, symbolbooks_setSymBook, if_pos ⟨rfl, rfl⟩]

/-! ### What the operations do to the levels -/

theorem level_setSymBook (mb : MarketBook) (v v' : VenueIndex) (i i' : SymbolSlot) (b : SymbolBook)
    (s : TreeIndex) (p : Int64) : (mb.setSymBook v i b).level v' i' s p =
      if v' = v ∧ i' = i then (b.bidAskTrees s).find? p else mb.level v' i' s p := by
  unfold level
  rw [symbolbooks_setSymBook]
  split <;> rfl

/-- A book operation that replaces the tree of the order's side, and changes
that tree at the order's price only. -/
theorem level_onSymBook (h : LocatedAt order v i s) (hmarket : order.isOurOrder = false)
    {f : SymbolBook → Except Fault SymbolBook} {b' : SymbolBook} {t : PriceTree}
    {entry : Option UInt32} (hf : f (mb.symbolbooks v i) = .ok b')
    (htrees : b'.bidAskTrees = Function.update (mb.symbolbooks v i).bidAskTrees s t)
    (ht : ∀ p, t.find? p = if p = order.price then entry else mb.level v i s p) :
    ∃ mb', mb.onSymBook order f = .ok mb' ∧ ∀ v' i' s' p, mb'.level v' i' s' p =
      if v' = v ∧ i' = i ∧ s' = s ∧ p = order.price then entry else mb.level v' i' s' p := by
  refine ⟨_, onSymBook_of_locatedAt h hmarket hf, fun v' i' s' p => ?_⟩
  rw [level_setSymBook, htrees]
  by_cases hbook : v' = v ∧ i' = i
  · obtain ⟨rfl, rfl⟩ := hbook
    -- the other tree of the same book is not touched
    by_cases hs : s' = s
    · subst hs
      rw [if_pos ⟨rfl, rfl⟩, Function.update_self, ht]
      simp
    · rw [if_pos ⟨rfl, rfl⟩, Function.update_of_ne hs]
      simp [hs, level]
  · rw [if_neg hbook, if_neg fun hall => hbook ⟨hall.1, hall.2.1⟩]

/-- `add_order` adds the order's quantity to the level at its price. -/
theorem level_addOrder (mb : MarketBook) (h : LocatedAt order v i s)
    (hmarket : order.isOurOrder = false) :
    ∃ mb', mb.addOrder order = .ok mb' ∧ ∀ v' i' s' p, mb'.level v' i' s' p =
      if v' = v ∧ i' = i ∧ s' = s ∧ p = order.price then
        some ((mb.level v i s order.price).getD 0 + order.quantity)
      else mb.level v' i' s' p := by
  have hins : ∀ q p, (((mb.symbolbooks v i).bidAskTrees s).insert order.price q).find? p =
      if p = order.price then some q else mb.level v i s p := by
    intro q p
    rw [SortedMap.find?_insert]
    rfl
  cases hl : mb.level v i s order.price with
  | none =>
    have hfind : ((mb.symbolbooks v i).bidAskTrees s).find? order.price = none := hl
    have hrun := SymbolBook.addOrder_of_none h.side hfind
    have hzero : (none : Option UInt32).getD 0 + order.quantity = order.quantity := by simp
    rw [hzero]
    exact level_onSymBook h hmarket
      (t := ((mb.symbolbooks v i).bidAskTrees s).insert order.price order.quantity)
      hrun (by simp) (hins _)
  | some q =>
    have hfind : ((mb.symbolbooks v i).bidAskTrees s).find? order.price = some q := hl
    have hrun := SymbolBook.addOrder_of_some h.side hfind
    exact level_onSymBook h hmarket
      (t := ((mb.symbolbooks v i).bidAskTrees s).insert order.price (q + order.quantity))
      hrun (by simp) (hins _)

/-- What is left of a level after `qty` has been taken off. -/
def reduced (entry : Option UInt32) (qty : UInt32) : Option UInt32 :=
  match entry with
  | none => none
  | some q => if q ≤ qty then none else some (q - qty)

/-- `cancel_order`, `delete_order` and `exec_order` take a quantity off the level
at the order's price. -/
theorem level_reduceLevel (mb : MarketBook) (h : LocatedAt order v i s)
    (hmarket : order.isOurOrder = false) (qty : UInt32) :
    ∃ mb', mb.onSymBook order (fun b => b.reduceLevel order qty) = .ok mb' ∧
      ∀ v' i' s' p, mb'.level v' i' s' p =
        if v' = v ∧ i' = i ∧ s' = s ∧ p = order.price then
          reduced (mb.level v i s order.price) qty
        else mb.level v' i' s' p := by
  cases hl : mb.level v i s order.price with
  | none =>
    have hfind : ((mb.symbolbooks v i).bidAskTrees s).find? order.price = none := hl
    -- no level: the tree is replaced by itself
    refine level_onSymBook h hmarket (SymbolBook.reduceLevel_of_none h.side hfind)
      (Function.update_eq_self _ _).symm fun p => ?_
    by_cases hp : p = order.price
    · rw [if_pos hp, hp, hfind]
      rfl
    · rw [if_neg hp]
      rfl
  | some q =>
    have hfind : ((mb.symbolbooks v i).bidAskTrees s).find? order.price = some q := hl
    by_cases hq : q ≤ qty
    · have hrun := SymbolBook.reduceLevel_of_le h.side hfind hq
      refine level_onSymBook h hmarket (t := ((mb.symbolbooks v i).bidAskTrees s).erase order.price)
        hrun (by simp) fun p => ?_
      rw [SortedMap.find?_erase, reduced, if_pos hq]
      rfl
    · have hrun := SymbolBook.reduceLevel_of_lt h.side hfind (UInt32.not_le.mp hq)
      refine level_onSymBook h hmarket
        (t := ((mb.symbolbooks v i).bidAskTrees s).insert order.price (q - qty))
        hrun (by simp) fun p => ?_
      rw [SortedMap.find?_insert, reduced, if_neg hq]
      rfl

end MarketBook

end TradingEngine
