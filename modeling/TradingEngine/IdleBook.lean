/-
When a book operation leaves the book as it was (`add_order`, and the `delete_order` and
`add_order` of a replace, `market/MarketBook.cpp`).

An order that is our own or has no symbol index is not put into the book.  Any other either
has no place in it, which is an access out of bounds, or it changes a level; so that nothing
is left to see, the level must get back what it had and the cached top must have been right.

* `addOrder_eq_self_iff` — an add leaves the book when it adds nothing to a level that is
  there;
* `replaceOrder_eq_self_iff` — a replace leaves it when the new order puts back what the old
  one took, or the old one took and the new one added nothing.
-/
import TradingEngine.MarketBook

namespace TradingEngine

namespace SymbolBook

variable {b : SymbolBook} {order new : Order} {s : TreeIndex}

/-- The cached quantity of a side is the one of its best level. -/
def QtyFresh (b : SymbolBook) (side : Side) : Prop := b.updateOnlyBestQty side = b

/-- The cached top of a side is its best level. -/
def TopFresh (b : SymbolBook) (side : Side) : Prop := b.updateBestBidAsk side = b

/-- An order without quantity at a level that is there. -/
structure AddsNothing (b : SymbolBook) (s : TreeIndex) (order : Order) : Prop where
  level : ((b.bidAskTrees s).find? order.price).isSome
  quantity : order.quantity = 0
  fresh : b.QtyFresh order.side

/-- The new order adds to the level of the old one what that had on it. -/
structure PutsBack (b : SymbolBook) (s : TreeIndex) (order new : Order) : Prop where
  price : new.price = order.price
  level : ∃ q, (b.bidAskTrees s).find? order.price = some q ∧
    ((q ≤ order.remainingQuantity ∧ new.quantity = q ∧ b.TopFresh order.side) ∨
      (order.remainingQuantity < q ∧ new.quantity = order.remainingQuantity ∧
        b.QtyFresh order.side))

/-- The new order adds nothing to a level, and the old one took nothing off another. -/
structure MovesNothing (b : SymbolBook) (s : TreeIndex) (order new : Order) : Prop where
  price : new.price ≠ order.price
  taken : (b.bidAskTrees s).find? order.price = none ∨
    (order.remainingQuantity = 0 ∧ (b.bidAskTrees s).find? order.price ≠ some 0)
  added : b.AddsNothing s new

/-! ### One symbol -/

theorem setTree_setTree (b : SymbolBook) (s : TreeIndex) (t t' : PriceTree) :
    (b.setTree s t).setTree s t' = b.setTree s t' := by
  rw [setTree, setTree, setTree, Function.update_idem]

theorem setTree_self (b : SymbolBook) (s : TreeIndex) : b.setTree s (b.bidAskTrees s) = b := by
  rw [setTree, Function.update_eq_self]

/-- A refresh of the quantity is lost in a later one, of whatever tree. -/
theorem updateOnlyBestQty_setTree (b : SymbolBook) (s : TreeIndex) (t : PriceTree)
    (side : Side) :
    ((b.updateOnlyBestQty side).setTree s t).updateOnlyBestQty side =
      (b.setTree s t).updateOnlyBestQty side := by
  cases side <;> rfl

theorem updateBestBidAsk_setTree (b : SymbolBook) (s : TreeIndex) (t : PriceTree)
    (side : Side) :
    ((b.updateBestBidAsk side).setTree s t).updateBestBidAsk side =
      (b.setTree s t).updateBestBidAsk side := by
  cases side <;> rfl

/-- A book with a tree replaced and refreshed: it is the book before when the tree is and the
cached values were right. -/
theorem refreshed_eq_self_iff {refresh : SymbolBook → SymbolBook}
    (htrees : ∀ b : SymbolBook, (refresh b).bidAskTrees = b.bidAskTrees) {t : PriceTree} :
    refresh (b.setTree s t) = b ↔ t = b.bidAskTrees s ∧ refresh b = b := by
  constructor
  · intro h
    have ht : t = b.bidAskTrees s := by
      rw [← h, htrees, bidAskTrees_setTree, Function.update_self]
    rw [ht, setTree_self] at h
    exact ⟨ht, h⟩
  · rintro ⟨ht, h⟩
    rw [ht, setTree_self]
    exact h

theorem updateOnlyBestQty_eq_self_iff {t : PriceTree} {side : Side} :
    (b.setTree s t).updateOnlyBestQty side = b ↔ t = b.bidAskTrees s ∧ b.QtyFresh side :=
  refreshed_eq_self_iff fun b => bidAskTrees_updateOnlyBestQty b side

theorem updateBestBidAsk_eq_self_iff {t : PriceTree} {side : Side} :
    (b.setTree s t).updateBestBidAsk side = b ↔ t = b.bidAskTrees s ∧ b.TopFresh side :=
  refreshed_eq_self_iff fun b => bidAskTrees_updateBestBidAsk b side

theorem addOrder_eq_self_iff (hs : order.side.index = .ok s) :
    b.addOrder order = .ok b ↔ b.AddsNothing s order := by
  cases hfind : (b.bidAskTrees s).find? order.price with
  | none =>
    -- a new level is seen
    rw [addOrder_of_none hs hfind, Except.ok.injEq, updateBestBidAsk_eq_self_iff,
      SortedMap.insert_eq_self_iff, hfind]
    constructor
    · rintro ⟨h, -⟩
      cases h
    · intro h
      have hlevel := h.level
      rw [hfind] at hlevel
      cases hlevel
  | some q =>
    rw [addOrder_of_some hs hfind, Except.ok.injEq, updateOnlyBestQty_eq_self_iff,
      SortedMap.insert_eq_self_iff, hfind, Option.some.injEq]
    constructor
    · rintro ⟨hq, hfresh⟩
      exact ⟨by rw [hfind]; rfl, by grind, hfresh⟩
    · intro h
      refine ⟨?_, h.fresh⟩
      rw [h.quantity, UInt32.add_zero]

/-- An add leaves the other levels. -/
theorem find?_addOrder_of_ne {b' : SymbolBook} {p : Int64} (hs : order.side.index = .ok s)
    (h : b.addOrder order = .ok b') (hne : p ≠ order.price) :
    (b'.bidAskTrees s).find? p = (b.bidAskTrees s).find? p := by
  cases hfind : (b.bidAskTrees s).find? order.price with
  | none =>
    rw [addOrder_of_none hs hfind, Except.ok.injEq] at h
    rw [← h, bidAskTrees_updateBestBidAsk, bidAskTrees_setTree, Function.update_self,
      SortedMap.find?_insert, if_neg hne]
  | some q =>
    rw [addOrder_of_some hs hfind, Except.ok.injEq] at h
    rw [← h, bidAskTrees_updateOnlyBestQty, bidAskTrees_setTree, Function.update_self,
      SortedMap.find?_insert, if_neg hne]

/-- Where the old order took all of its level, the new one puts it back. -/
theorem addOrder_erased_eq_self_iff {q : UInt32} (hside : new.side = order.side)
    (hs : order.side.index = .ok s) (hfind : (b.bidAskTrees s).find? order.price = some q) :
    ((b.setTree s ((b.bidAskTrees s).erase order.price)).updateBestBidAsk order.side).addOrder
        new = .ok b ↔
      new.price = order.price ∧ new.quantity = q ∧ b.TopFresh order.side := by
  have hs' : new.side.index = .ok s := by rw [hside, hs]
  have htree : ((b.setTree s ((b.bidAskTrees s).erase order.price)).updateBestBidAsk
      order.side).bidAskTrees s = (b.bidAskTrees s).erase order.price := by
    rw [bidAskTrees_updateBestBidAsk, bidAskTrees_setTree, Function.update_self]
  by_cases hprice : new.price = order.price
  · rw [addOrder_of_none hs' (by rw [htree, SortedMap.find?_erase, if_pos hprice]), htree,
      Except.ok.injEq, hside, updateBestBidAsk_setTree, setTree_setTree,
      updateBestBidAsk_eq_self_iff, hprice, SortedMap.insert_erase, SortedMap.insert_eq_self_iff,
      hfind, Option.some.injEq]
    exact ⟨fun h => ⟨rfl, h.1.symm, h.2⟩, fun h => ⟨h.2.1.symm, h.2.2⟩⟩
  · -- the level is gone, and the add leaves it so
    refine ⟨fun h => ?_, fun h => absurd h.1 hprice⟩
    have hgone := find?_addOrder_of_ne hs' h (Ne.symm hprice)
    rw [htree, SortedMap.find?_erase, if_pos rfl, hfind] at hgone
    cases hgone

/-- An add refreshes the quantity itself. -/
theorem addOrder_updateOnlyBestQty (b : SymbolBook) (hs : order.side.index = .ok s) :
    (b.updateOnlyBestQty order.side).addOrder order = b.addOrder order := by
  have htrees := bidAskTrees_updateOnlyBestQty b order.side
  cases hfind : (b.bidAskTrees s).find? order.price with
  | none =>
    rw [addOrder_of_none hs (by rw [htrees, hfind]), addOrder_of_none hs hfind, htrees]
    cases order.side <;> rfl
  | some q =>
    rw [addOrder_of_some hs (by rw [htrees, hfind]), addOrder_of_some hs hfind, htrees,
      updateOnlyBestQty_setTree]

/-- Where it left a part, the new one puts the rest back, or nothing was taken. -/
theorem addOrder_reduced_eq_self_iff {q qty : UInt32} (hside : new.side = order.side)
    (hs : order.side.index = .ok s) (hfind : (b.bidAskTrees s).find? order.price = some q) :
    ((b.setTree s ((b.bidAskTrees s).insert order.price (q - qty))).updateOnlyBestQty
        order.side).addOrder new = .ok b ↔
      (new.price = order.price ∧ new.quantity = qty ∧ b.QtyFresh order.side) ∨
        (new.price ≠ order.price ∧ qty = 0 ∧ b.AddsNothing s new) := by
  have hs' : new.side.index = .ok s := by rw [hside, hs]
  have htree : ((b.setTree s ((b.bidAskTrees s).insert order.price (q - qty))).updateOnlyBestQty
      order.side).bidAskTrees s = (b.bidAskTrees s).insert order.price (q - qty) := by
    rw [bidAskTrees_updateOnlyBestQty, bidAskTrees_setTree, Function.update_self]
  by_cases hprice : new.price = order.price
  · rw [addOrder_of_some hs' (by rw [htree, SortedMap.find?_insert, if_pos hprice]), htree,
      Except.ok.injEq, hside, updateOnlyBestQty_setTree, setTree_setTree,
      updateOnlyBestQty_eq_self_iff, hprice, SortedMap.insert_insert, SortedMap.insert_eq_self_iff,
      hfind, Option.some.injEq]
    constructor
    · rintro ⟨hq, hfresh⟩
      exact .inl ⟨rfl, by grind, hfresh⟩
    · rintro (⟨-, hq, hfresh⟩ | ⟨hne, -⟩)
      · exact ⟨by grind, hfresh⟩
      · exact absurd rfl hne
  · have hnothing : qty = 0 → (((b.setTree s ((b.bidAskTrees s).insert order.price
        (q - qty))).updateOnlyBestQty order.side).addOrder new = .ok b ↔ b.AddsNothing s new) := by
      intro hzero
      have hsame : (b.bidAskTrees s).insert order.price (q - qty) = b.bidAskTrees s := by
        rw [hzero, UInt32.sub_zero, SortedMap.insert_eq_self_iff, hfind]
      rw [hsame, setTree_self, ← hside, addOrder_updateOnlyBestQty b hs', addOrder_eq_self_iff hs']
    constructor
    · intro h
      -- what was taken off the level is not put back on another
      have hkept := find?_addOrder_of_ne hs' h (Ne.symm hprice)
      rw [htree, SortedMap.find?_insert, if_pos rfl, hfind, Option.some.injEq] at hkept
      have hzero : qty = 0 := by grind
      exact .inr ⟨hprice, hzero, (hnothing hzero).mp h⟩
    · rintro (⟨heq, -⟩ | ⟨-, hzero, hadds⟩)
      · exact absurd heq hprice
      · exact (hnothing hzero).mpr hadds

theorem replaceOrder_eq_self_iff (hside : new.side = order.side)
    (hs : order.side.index = .ok s) :
    (b.reduceLevel order order.remainingQuantity >>= fun b' => b'.addOrder new) = .ok b ↔
      b.PutsBack s order new ∨ b.MovesNothing s order new := by
  have hs' : new.side.index = .ok s := by rw [hside, hs]
  cases hfind : (b.bidAskTrees s).find? order.price with
  | none =>
    -- the old order has no level: nothing is taken off
    rw [reduceLevel_of_none hs hfind]
    refine (addOrder_eq_self_iff hs').trans ⟨fun h => .inr ⟨?_, .inl hfind, h⟩, ?_⟩
    · intro hprice
      have hlevel := h.level
      rw [hprice, hfind] at hlevel
      cases hlevel
    · rintro (h | h)
      · obtain ⟨q, hq, -⟩ := h.level
        rw [hfind] at hq
        cases hq
      · exact h.added
  | some q =>
    by_cases hle : q ≤ order.remainingQuantity
    · rw [reduceLevel_of_le hs hfind hle]
      refine (addOrder_erased_eq_self_iff hside hs hfind).trans ⟨fun h => ?_, ?_⟩
      · exact .inl ⟨h.1, q, hfind, .inl ⟨hle, h.2⟩⟩
      · rintro (h | h)
        · obtain ⟨q', hq', hback⟩ := h.level
          rw [hfind, Option.some.injEq] at hq'
          subst hq'
          rcases hback with ⟨-, hback⟩ | ⟨hlt, -⟩
          · exact ⟨h.price, hback⟩
          · exact absurd hle (UInt32.not_le.mpr hlt)
        · -- a level without quantity is dropped
          rcases h.taken with hnone | ⟨hzero, hne⟩
          · rw [hfind] at hnone
            cases hnone
          · rw [hzero, UInt32.le_zero_iff] at hle
            rw [hfind, hle] at hne
            exact absurd rfl hne
    · have hlt : order.remainingQuantity < q := UInt32.not_le.mp hle
      rw [reduceLevel_of_lt hs hfind hlt]
      refine (addOrder_reduced_eq_self_iff hside hs hfind).trans ⟨?_, ?_⟩
      · rintro (⟨hprice, hback⟩ | ⟨hprice, hzero, hadds⟩)
        · exact .inl ⟨hprice, q, hfind, .inr ⟨hlt, hback⟩⟩
        · refine .inr ⟨hprice, .inr ⟨hzero, ?_⟩, hadds⟩
          rw [hfind]
          intro hq
          rw [Option.some.injEq] at hq
          rw [hq, hzero] at hlt
          exact absurd hlt (UInt32.lt_irrefl 0)
      · rintro (h | h)
        · obtain ⟨q', hq', hback⟩ := h.level
          rw [hfind, Option.some.injEq] at hq'
          subst hq'
          rcases hback with ⟨hle', -⟩ | ⟨-, hback⟩
          · exact absurd hle' hle
          · exact .inl ⟨h.price, hback⟩
        · rcases h.taken with hnone | ⟨hzero, -⟩
          · rw [hfind] at hnone
            cases hnone
          · exact .inr ⟨h.price, hzero, h.added⟩

end SymbolBook

/-! ### The book of all symbols -/

namespace MarketBook

variable {mb : MarketBook} {order new : Order} {v : VenueIndex} {i : SymbolSlot}

/-- An order that the book operations pass over. -/
def Unbooked (order : Order) : Prop :=
  order.isOurOrder = true ∨ order.symbolIndex = uint32Max

theorem onSymBook_of_unbooked (h : Unbooked order) (f : SymbolBook → Except Fault SymbolBook) :
    mb.onSymBook order f = .ok mb := by
  unfold onSymBook
  rcases h with hown | hmax
  · rw [if_pos hown]
  · split
    · rfl
    · simp only [getSymBook, if_pos hmax, Bind.bind, Except.bind]

theorem onSymBook_of_getSymBook {f : SymbolBook → Except Fault SymbolBook}
    (h : ¬Unbooked order) (hbook : getSymBook order = .ok (some (v, i))) :
    mb.onSymBook order f = (f (mb.symbolbooks v i)).map (mb.setSymBook v i) := by
  rw [Unbooked, not_or] at h
  unfold onSymBook
  rw [if_neg h.1, hbook]
  cases hf : f (mb.symbolbooks v i) with
  | error e => simp only [Bind.bind, Except.bind, hf, Except.map]
  | ok b => simp only [Bind.bind, Except.bind, hf, Except.map]

/-- The book of an order is looked up by its venue and its symbol. -/
theorem getSymBook_eq_some_iff (h : ¬Unbooked order) :
    getSymBook order = .ok (some (v, i)) ↔
      order.venue.index = .ok v ∧ symbolSlot order.symbolIndex = .ok i := by
  rw [Unbooked, not_or] at h
  unfold getSymBook
  rw [if_neg h.2]
  cases hv : order.venue.index with
  | error e => simp [Bind.bind, Except.bind]
  | ok v' =>
    cases hi : symbolSlot order.symbolIndex with
    | error e => simp [Bind.bind, Except.bind]
    | ok i' => simp [Bind.bind, Except.bind]

theorem getSymBook_ne_none (h : ¬Unbooked order) : getSymBook order ≠ .ok none := by
  rw [Unbooked, not_or] at h
  unfold getSymBook
  rw [if_neg h.2]
  cases order.venue.index with
  | error e => simp [Bind.bind, Except.bind]
  | ok v' =>
    cases symbolSlot order.symbolIndex with
    | error e => simp [Bind.bind, Except.bind]
    | ok i' => simp [Bind.bind, Except.bind]

theorem setSymBook_setSymBook (mb : MarketBook) (v : VenueIndex) (i : SymbolSlot)
    (b b' : SymbolBook) : (mb.setSymBook v i b).setSymBook v i b' = mb.setSymBook v i b' := by
  simp only [setSymBook, Function.update_self, Function.update_idem]

theorem setSymBook_eq_self_iff {b : SymbolBook} :
    mb.setSymBook v i b = mb ↔ b = mb.symbolbooks v i := by
  constructor
  · intro h
    rw [← h, symbolbooks_setSymBook, if_pos ⟨rfl, rfl⟩]
  · intro h
    rw [h, setSymBook, Function.update_eq_self, Function.update_eq_self]

/-- An operation on the book of an order leaves all books as they were when it leaves that
one, which must be there. -/
theorem onSymBook_eq_self_iff {f : SymbolBook → Except Fault SymbolBook}
    {P : SymbolBook → TreeIndex → Prop}
    (hside : ∀ b e, order.side.index = .error e → f b = .error e)
    (hf : ∀ b s, order.side.index = .ok s → (f b = .ok b ↔ P b s)) :
    mb.onSymBook order f = .ok mb ↔
      Unbooked order ∨ ∃ v i s, LocatedAt order v i s ∧ P (mb.symbolbooks v i) s := by
  by_cases h : Unbooked order
  · exact ⟨fun _ => .inl h, fun _ => onSymBook_of_unbooked h f⟩
  · rw [or_iff_right h]
    cases hbook : getSymBook order with
    | error e =>
      -- no place in the tables
      have hfault : mb.onSymBook order f = .error e := by
        rw [Unbooked, not_or] at h
        simp only [onSymBook, if_neg h.1, hbook, Bind.bind, Except.bind]
      rw [hfault]
      constructor
      · intro heq
        cases heq
      · rintro ⟨v, i, s, hloc, -⟩
        rw [getSymBook_of_locatedAt hloc] at hbook
        cases hbook
    | ok place =>
      cases place with
      | none => exact absurd hbook (getSymBook_ne_none h)
      | some place =>
        obtain ⟨v, i⟩ := place
        obtain ⟨hv, hi⟩ := (getSymBook_eq_some_iff h).mp hbook
        rw [onSymBook_of_getSymBook h hbook]
        cases hs : order.side.index with
        | error e =>
          rw [hside _ e hs]
          constructor
          · intro heq
            cases heq
          · rintro ⟨v', i', s, hloc, -⟩
            rw [hloc.side] at hs
            cases hs
        | ok s =>
          have hself : (f (mb.symbolbooks v i)).map (mb.setSymBook v i) = .ok mb ↔
              f (mb.symbolbooks v i) = .ok (mb.symbolbooks v i) := by
            cases f (mb.symbolbooks v i) with
            | error e =>
              refine iff_of_false (fun heq => ?_) fun heq => ?_
              · cases heq
              · cases heq
            | ok b => rw [Except.map, Except.ok.injEq, Except.ok.injEq, setSymBook_eq_self_iff]
          rw [hself, hf _ s hs]
          refine ⟨fun hP => ⟨v, i, s, ⟨hv, hi, hs⟩, hP⟩, ?_⟩
          rintro ⟨v', i', s', hloc, hP⟩
          obtain ⟨rfl, rfl, rfl⟩ := locatedAt_unique ⟨hv, hi, hs⟩ hloc
          exact hP

/-- **An add that leaves the book.** -/
theorem addOrder_eq_self_iff : mb.addOrder order = .ok mb ↔
    Unbooked order ∨
      ∃ v i s, LocatedAt order v i s ∧ (mb.symbolbooks v i).AddsNothing s order := by
  refine onSymBook_eq_self_iff (fun b e hs => ?_) fun b s hs => SymbolBook.addOrder_eq_self_iff hs
  simp only [SymbolBook.addOrder, hs, Bind.bind, Except.bind]

/-- The new order lies in the book of the old one, on its side. -/
structure SamePlace (order new : Order) : Prop where
  isOurOrder : new.isOurOrder = order.isOurOrder
  venue : new.venue = order.venue
  symbolIndex : new.symbolIndex = order.symbolIndex
  side : new.side = order.side

theorem SamePlace.unbooked_iff (h : SamePlace order new) : Unbooked new ↔ Unbooked order := by
  rw [Unbooked, Unbooked, h.isOurOrder, h.symbolIndex]

/-- The two operations of a replace are one on the book of the order. -/
theorem replaceOrder_eq_onSymBook (h : SamePlace order new) :
    (mb.deleteOrder order >>= fun mb' => mb'.addOrder new) =
      mb.onSymBook order fun b =>
        b.reduceLevel order order.remainingQuantity >>= fun b' => b'.addOrder new := by
  by_cases hun : Unbooked order
  · rw [deleteOrder, onSymBook_of_unbooked hun, onSymBook_of_unbooked hun]
    have hadd : mb.addOrder new = .ok mb := onSymBook_of_unbooked (h.unbooked_iff.mpr hun) _
    simp only [Bind.bind, Except.bind, hadd]
  · have hun' : ¬Unbooked new := fun hn => hun (h.unbooked_iff.mp hn)
    -- the second operation finds the book that the first has written
    have hplace : getSymBook new = getSymBook order := by
      unfold getSymBook
      rw [h.symbolIndex, h.venue]
    cases hbook : getSymBook order with
    | error e =>
      rw [Unbooked, not_or] at hun
      simp only [deleteOrder, onSymBook, if_neg hun.1, hbook, Bind.bind, Except.bind]
    | ok place =>
      cases place with
      | none => exact absurd hbook (getSymBook_ne_none hun)
      | some place =>
        obtain ⟨v, i⟩ := place
        rw [deleteOrder, onSymBook_of_getSymBook hun hbook, onSymBook_of_getSymBook hun hbook]
        cases (mb.symbolbooks v i).reduceLevel order order.remainingQuantity with
        | error e => rfl
        | ok b =>
          have hadd : (mb.setSymBook v i b).addOrder new =
              (b.addOrder new).map ((mb.setSymBook v i b).setSymBook v i) := by
            rw [addOrder, onSymBook_of_getSymBook hun' (hplace.trans hbook),
              symbolbooks_setSymBook, if_pos ⟨rfl, rfl⟩]
          refine hadd.trans ?_
          cases hnew : b.addOrder new with
          | error e => simp only [Bind.bind, Except.bind, hnew, Except.map]
          | ok b' =>
            simp only [Bind.bind, Except.bind, hnew, Except.map, setSymBook_setSymBook]

/-- **A replace that leaves the book.** -/
theorem replaceOrder_eq_self_iff (h : SamePlace order new) :
    (mb.deleteOrder order >>= fun mb' => mb'.addOrder new) = .ok mb ↔
      Unbooked order ∨ ∃ v i s, LocatedAt order v i s ∧
        ((mb.symbolbooks v i).PutsBack s order new ∨
          (mb.symbolbooks v i).MovesNothing s order new) := by
  -- both operations are on the book of one symbol
  rw [replaceOrder_eq_onSymBook h]
  refine onSymBook_eq_self_iff (fun b e hs => ?_) fun b s hs =>
    SymbolBook.replaceOrder_eq_self_iff h.side hs
  simp only [SymbolBook.reduceLevel, hs, Bind.bind, Except.bind]

end MarketBook

end TradingEngine
