/-
The cached top of book.

`SymbolBook.Exact b` says that the cached best prices and quantities are the
extremes of the two price trees: the largest bid level and the smallest ask
level with their quantities, and 0 for both when a tree is empty.  The
statement is about the trees only; `exact_iff` turns it into the equations the
refresh functions establish.

* `topOfBook_exact` — every sequence of add, cancel, delete and exec calls from
  the empty book keeps the top exact, and no level of quantity 0 is ever left;
* `modify_flush_exact_iff` — `modify_order` and `flush` keep it exact only
  sometimes: `modify_order` refreshes the quantity alone after inserting a
  level and tests an unsigned value against 0, `flush` refreshes nothing.
-/
import TradingEngine.MarketBook

open FallibleRun

namespace TradingEngine

namespace SymbolBook

/-! ### The specification -/

/-- `best` and `qty` are the extreme level of `t` in the order `better`, or 0
and 0 when `t` is empty. -/
def IsBest (better : Int64 → Int64 → Prop) (t : PriceTree) (best : Int64) (qty : UInt32) : Prop :=
  ((∀ p, t.find? p = none) ∧ best = 0 ∧ qty = 0) ∨
    (t.find? best = some qty ∧ ∀ p q, t.find? p = some q → better p best)

/-- The cached top is the extreme of the trees. -/
def Exact (b : SymbolBook) : Prop :=
  IsBest (fun p best => p ≤ best) (b.bidAskTrees 0) b.bestBid b.bestBidQty ∧
    IsBest (fun p best => best ≤ p) (b.bidAskTrees 1) b.bestAsk b.bestAskQty

/-- No price level of quantity 0 is stored. -/
def NoEmptyLevel (b : SymbolBook) : Prop :=
  ∀ s p, (b.bidAskTrees s).find? p ≠ some 0

/-! ### The two sides treated alike -/

/-- `p` does not lie beyond `p'` towards the top of side `s`. -/
def NotBeyond (s : TreeIndex) (p p' : Int64) : Prop := if s = 0 then p ≤ p' else p' ≤ p

/-- The entry at the top of side `s`. -/
def endEntry (s : TreeIndex) (t : PriceTree) : Option (Int64 × UInt32) :=
  if s = 0 then t.last? else t.first?

/-- The cached best price of side `s`. -/
def best (b : SymbolBook) (s : TreeIndex) : Int64 := if s = 0 then b.bestBid else b.bestAsk

/-- The cached best quantity of side `s`. -/
def bestQty (b : SymbolBook) (s : TreeIndex) : UInt32 :=
  if s = 0 then b.bestBidQty else b.bestAskQty

theorem endEntry_eq_some_iff {s : TreeIndex} {t : PriceTree} {p : Int64} {q : UInt32} :
    endEntry s t = some (p, q) ↔
      t.find? p = some q ∧ ∀ p' q', t.find? p' = some q' → NotBeyond s p' p := by
  by_cases hs : s = 0
  · simp only [endEntry, NotBeyond, if_pos hs]
    exact SortedMap.last?_eq_some_iff
  · simp only [endEntry, NotBeyond, if_neg hs]
    exact SortedMap.first?_eq_some_iff

theorem endEntry_eq_none_iff {s : TreeIndex} {t : PriceTree} :
    endEntry s t = none ↔ ∀ p, t.find? p = none := by
  by_cases hs : s = 0
  · rw [endEntry, if_pos hs]
    exact SortedMap.last?_eq_none_iff
  · rw [endEntry, if_neg hs]
    exact SortedMap.first?_eq_none_iff

theorem NotBeyond.refl (s : TreeIndex) (p : Int64) : NotBeyond s p p := by
  unfold NotBeyond
  split <;> exact le_rfl

theorem NotBeyond.trans {s : TreeIndex} {p q r : Int64} (h : NotBeyond s p q)
    (h' : NotBeyond s q r) : NotBeyond s p r := by
  by_cases hs : s = 0
  · simp only [NotBeyond, if_pos hs] at *
    exact h.trans h'
  · simp only [NotBeyond, if_neg hs] at *
    exact h'.trans h

theorem NotBeyond.total (s : TreeIndex) (p q : Int64) : NotBeyond s p q ∨ NotBeyond s q p := by
  unfold NotBeyond
  split
  · exact le_total p q
  · exact le_total q p

/-- An extreme level is the end entry of its tree. -/
theorem isBest_iff {s : TreeIndex} {t : PriceTree} {best : Int64} {qty : UInt32} :
    IsBest (NotBeyond s) t best qty ↔
      best = endPrice (endEntry s t) ∧ qty = endQty (endEntry s t) := by
  constructor
  · rintro (⟨hempty, hb, hq⟩ | hsome)
    · rw [endEntry_eq_none_iff.mpr hempty]
      exact ⟨hb, hq⟩
    · rw [endEntry_eq_some_iff.mpr hsome]
      exact ⟨rfl, rfl⟩
  · rintro ⟨hb, hq⟩
    cases he : endEntry s t with
    | none =>
      rw [he] at hb hq
      exact Or.inl ⟨endEntry_eq_none_iff.mp he, hb, hq⟩
    | some e =>
      rw [he] at hb hq
      have hb' : best = e.1 := hb
      have hq' : qty = e.2 := hq
      subst hb' hq'
      exact Or.inr (endEntry_eq_some_iff.mp he)

/-- The cached top is exact iff on both sides it equals the end entry. -/
theorem exact_iff {b : SymbolBook} :
    b.Exact ↔ ∀ s, b.best s = endPrice (endEntry s (b.bidAskTrees s)) ∧
      b.bestQty s = endQty (endEntry s (b.bidAskTrees s)) := by
  rw [Fin.forall_fin_two, ← isBest_iff, ← isBest_iff]
  rfl

/-! ### What the refresh functions leave -/

variable {b : SymbolBook} {side : Side} {s : TreeIndex} {t : PriceTree} {order : Order}

/-- Refreshing price and quantity of a side sets both from its tree and leaves
the other side's cache alone. -/
theorem best_updateBestBidAsk (hs : side.index = .ok s) (r : TreeIndex) :
    ((b.updateBestBidAsk side).best r =
        if r = s then endPrice (endEntry s (b.bidAskTrees s)) else b.best r) ∧
      (b.updateBestBidAsk side).bestQty r =
        if r = s then endQty (endEntry s (b.bidAskTrees s)) else b.bestQty r := by
  cases side with
  | buy =>
    cases hs
    fin_cases r <;> exact ⟨rfl, rfl⟩
  | sell =>
    cases hs
    fin_cases r <;> exact ⟨rfl, rfl⟩
  | unknown => cases hs

theorem best_updateOnlyBestQty (hs : side.index = .ok s) (r : TreeIndex) :
    (b.updateOnlyBestQty side).best r = b.best r ∧
      (b.updateOnlyBestQty side).bestQty r =
        if r = s then endQty (endEntry s (b.bidAskTrees s)) else b.bestQty r := by
  cases side with
  | buy =>
    cases hs
    fin_cases r <;> exact ⟨rfl, rfl⟩
  | sell =>
    cases hs
    fin_cases r <;> exact ⟨rfl, rfl⟩
  | unknown => cases hs

/-- Replacing a tree and refreshing price and quantity keeps the top exact. -/
theorem exact_updateBestBidAsk (hb : b.Exact) (hs : side.index = .ok s) (t : PriceTree) :
    ((b.setTree s t).updateBestBidAsk side).Exact := by
  rw [exact_iff] at hb ⊢
  intro r
  obtain ⟨h1, h2⟩ := best_updateBestBidAsk (b := b.setTree s t) hs r
  rw [h1, h2, bidAskTrees_updateBestBidAsk, bidAskTrees_setTree]
  by_cases hr : r = s
  · subst hr
    simp
  · rw [if_neg hr, if_neg hr, Function.update_of_ne hr]
    exact hb r

/-- Replacing a tree and refreshing the quantity alone keeps the top exact
exactly when the end price of the tree has not moved. -/
theorem exact_updateOnlyBestQty_iff (hb : b.Exact) (hs : side.index = .ok s) (t : PriceTree) :
    ((b.setTree s t).updateOnlyBestQty side).Exact ↔
      endPrice (endEntry s t) = endPrice (endEntry s (b.bidAskTrees s)) := by
  rw [exact_iff] at hb ⊢
  constructor
  · intro h
    have hprice := (h s).1
    rw [(best_updateOnlyBestQty hs s).1, bidAskTrees_updateOnlyBestQty, bidAskTrees_setTree,
      Function.update_self] at hprice
    rw [← hprice, ← (hb s).1]
    rfl
  · intro hend r
    obtain ⟨h1, h2⟩ := best_updateOnlyBestQty (b := b.setTree s t) hs r
    rw [h1, h2, bidAskTrees_updateOnlyBestQty, bidAskTrees_setTree]
    by_cases hr : r = s
    · subst hr
      rw [if_pos rfl, Function.update_self, hend]
      exact ⟨(hb r).1, rfl⟩
    · rw [if_neg hr, Function.update_of_ne hr]
      exact hb r

/-- Overwriting a stored level does not move the end price. -/
theorem endPrice_insert_of_find? {p : Int64} {q q' : UInt32} (hp : t.find? p = some q) :
    endPrice (endEntry s (t.insert p q')) = endPrice (endEntry s t) := by
  cases he : endEntry s t with
  | none => exact absurd (endEntry_eq_none_iff.mp he p) (by simp [hp])
  | some e =>
    obtain ⟨pe, qe⟩ := e
    obtain ⟨hfind, hmax⟩ := endEntry_eq_some_iff.mp he
    -- the end entry keeps its price; its quantity changes if it is the one rewritten
    have hend : endEntry s (t.insert p q') = some (pe, if pe = p then q' else qe) := by
      refine endEntry_eq_some_iff.mpr ⟨?_, fun p' w hp' => ?_⟩
      · rw [SortedMap.find?_insert]
        split
        · rfl
        · exact hfind
      · by_cases hpp : p' = p
        · exact hpp ▸ hmax p q hp
        · rw [SortedMap.find?_insert, if_neg hpp] at hp'
          exact hmax p' w hp'
    rw [hend]
    rfl

/-- Inserting a new level leaves the end price where it was exactly when the
new price does not become the top: it lies behind the old one, or the tree was
empty and the new price is the 0 that stood for "none". -/
theorem endPrice_insert_iff {p : Int64} {q : UInt32} (hp : t.find? p = none) :
    endPrice (endEntry s (t.insert p q)) = endPrice (endEntry s t) ↔
      match endEntry s t with
      | none => p = 0
      | some e => NotBeyond s p e.1 := by
  cases he : endEntry s t with
  | none =>
    have hempty := endEntry_eq_none_iff.mp he
    have hend : endEntry s (t.insert p q) = some (p, q) := by
      refine endEntry_eq_some_iff.mpr ⟨by simp, fun p' w hp' => ?_⟩
      by_cases hpp : p' = p
      · exact hpp ▸ NotBeyond.refl s p
      · rw [SortedMap.find?_insert, if_neg hpp, hempty p'] at hp'
        exact absurd hp' (by simp)
    rw [hend]
    exact Iff.rfl
  | some e =>
    obtain ⟨pe, qe⟩ := e
    obtain ⟨hfind, hmax⟩ := endEntry_eq_some_iff.mp he
    -- the end price is stored, the inserted one was not
    have hne : pe ≠ p := by
      rintro rfl
      rw [hp] at hfind
      exact absurd hfind (by simp)
    constructor
    · intro h
      rcases NotBeyond.total s p pe with hle | hge
      · exact hle
      · -- the new price would be the top, so the prices agree after all
        have hend : endEntry s (t.insert p q) = some (p, q) := by
          refine endEntry_eq_some_iff.mpr ⟨by simp, fun p' w hp' => ?_⟩
          by_cases hpp : p' = p
          · exact hpp ▸ NotBeyond.refl s p
          · rw [SortedMap.find?_insert, if_neg hpp] at hp'
            exact (hmax p' w hp').trans hge
        rw [hend] at h
        have hpe : p = pe := h
        exact hpe ▸ NotBeyond.refl s p
    · intro hle
      have hend : endEntry s (t.insert p q) = some (pe, qe) := by
        refine endEntry_eq_some_iff.mpr ⟨?_, fun p' w hp' => ?_⟩
        · rw [SortedMap.find?_insert, if_neg hne]
          exact hfind
        · by_cases hpp : p' = p
          · exact hpp ▸ hle
          · rw [SortedMap.find?_insert, if_neg hpp] at hp'
            exact hmax p' w hp'
      rw [hend]

/-! ### The four mutators that keep the top exact -/

/-- The top is exact and no level is empty. -/
structure Sound (b : SymbolBook) : Prop where
  exact : b.Exact
  noEmptyLevel : b.NoEmptyLevel

theorem sound_empty : ({} : SymbolBook).Sound where
  exact := ⟨Or.inl ⟨fun _ => rfl, rfl, rfl⟩, Or.inl ⟨fun _ => rfl, rfl, rfl⟩⟩
  noEmptyLevel := fun s p => by simp

/-- Storing a positive quantity at one level creates no empty level. -/
theorem noEmptyLevel_insert (hb : b.NoEmptyLevel) (s : TreeIndex) (p : Int64) {q : UInt32}
    (hq : q ≠ 0) : (b.setTree s ((b.bidAskTrees s).insert p q)).NoEmptyLevel := by
  intro r p'
  rw [bidAskTrees_setTree]
  by_cases hr : r = s
  · subst hr
    rw [Function.update_self, SortedMap.find?_insert]
    split
    · simpa using hq
    · exact hb r p'
  · rw [Function.update_of_ne hr]
    exact hb r p'

theorem noEmptyLevel_erase (hb : b.NoEmptyLevel) (s : TreeIndex) (p : Int64) :
    (b.setTree s ((b.bidAskTrees s).erase p)).NoEmptyLevel := by
  intro r p'
  rw [bidAskTrees_setTree]
  by_cases hr : r = s
  · subst hr
    rw [Function.update_self, SortedMap.find?_erase]
    split
    · simp
    · exact hb r p'
  · rw [Function.update_of_ne hr]
    exact hb r p'

theorem noEmptyLevel_updateBestBidAsk (hb : b.NoEmptyLevel) (side : Side) :
    (b.updateBestBidAsk side).NoEmptyLevel := by
  intro r p
  rw [bidAskTrees_updateBestBidAsk]
  exact hb r p

theorem noEmptyLevel_updateOnlyBestQty (hb : b.NoEmptyLevel) (side : Side) :
    (b.updateOnlyBestQty side).NoEmptyLevel := by
  intro r p
  rw [bidAskTrees_updateOnlyBestQty]
  exact hb r p

/-- `add_order` keeps the book sound when the quantity is positive and the
level total does not wrap. -/
theorem sound_addOrder (hb : b.Sound) (hs : order.side.index = .ok s) (hq : 0 < order.quantity)
    (hfit : ∀ q, (b.bidAskTrees s).find? order.price = some q →
      q.toNat + order.quantity.toNat < 2 ^ 32) :
    ∃ b', b.addOrder order = .ok b' ∧ b'.Sound := by
  have hqpos : 0 < order.quantity.toNat := by simpa [UInt32.lt_iff_toNat_lt] using hq
  cases hf : (b.bidAskTrees s).find? order.price with
  | none =>
    refine ⟨_, addOrder_of_none hs hf, exact_updateBestBidAsk hb.exact hs _, ?_⟩
    refine noEmptyLevel_updateBestBidAsk (noEmptyLevel_insert hb.noEmptyLevel s _ ?_) _
    intro h0
    rw [h0] at hqpos
    simp at hqpos
  | some q =>
    -- the level total fits, so the stored sum is positive
    have hsum : (q + order.quantity).toNat = q.toNat + order.quantity.toNat := by
      rw [UInt32.toNat_add]
      exact Nat.mod_eq_of_lt (hfit q hf)
    refine ⟨_, addOrder_of_some hs hf, ?_, ?_⟩
    · exact (exact_updateOnlyBestQty_iff hb.exact hs _).mpr (endPrice_insert_of_find? hf)
    · refine noEmptyLevel_updateOnlyBestQty (noEmptyLevel_insert hb.noEmptyLevel s _ ?_) _
      intro h0
      rw [h0] at hsum
      have : (0 : UInt32).toNat = 0 := rfl
      omega

/-- `cancel_order`, `delete_order` and `exec_order` keep the book sound, for
any quantity they take off. -/
theorem sound_reduceLevel (hb : b.Sound) (hs : order.side.index = .ok s) (qty : UInt32) :
    ∃ b', b.reduceLevel order qty = .ok b' ∧ b'.Sound := by
  cases hf : (b.bidAskTrees s).find? order.price with
  -- nothing at that price: the book is left as it is
  | none => exact ⟨b, reduceLevel_of_none hs hf, hb⟩
  | some q =>
    by_cases hle : q ≤ qty
    · refine ⟨_, reduceLevel_of_le hs hf hle, exact_updateBestBidAsk hb.exact hs _, ?_⟩
      exact noEmptyLevel_updateBestBidAsk (noEmptyLevel_erase hb.noEmptyLevel s _) _
    · refine ⟨_, reduceLevel_of_lt hs hf (UInt32.not_le.mp hle), ?_, ?_⟩
      · exact (exact_updateOnlyBestQty_iff hb.exact hs _).mpr (endPrice_insert_of_find? hf)
      · refine noEmptyLevel_updateOnlyBestQty (noEmptyLevel_insert hb.noEmptyLevel s _ ?_) _
        intro h0
        -- a difference of 0 is the case `q ≤ qty`, where the level is dropped
        rw [UInt32.sub_eq_iff_eq_add, UInt32.zero_add] at h0
        exact hle (h0 ▸ UInt32.le_refl q)

/-! ### Modify and flush -/

/-- Price `p` is not the new top of side `s` of `t`: some stored level lies at
or beyond it, or `t` is empty and `p` is the 0 that stands for "none". -/
def Behind (t : PriceTree) (s : TreeIndex) (p : Int64) : Prop :=
  (∃ p' q, t.find? p' = some q ∧ NotBeyond s p p') ∨ ((∀ p', t.find? p' = none) ∧ p = 0)

theorem endPrice_insert_eq_iff_behind {p : Int64} {q : UInt32} (hp : t.find? p = none) :
    endPrice (endEntry s (t.insert p q)) = endPrice (endEntry s t) ↔ Behind t s p := by
  rw [endPrice_insert_iff hp]
  cases he : endEntry s t with
  | none =>
    have hempty := endEntry_eq_none_iff.mp he
    constructor
    · exact fun h => Or.inr ⟨hempty, h⟩
    · rintro (⟨p', w, hp', -⟩ | ⟨-, h⟩)
      · rw [hempty p'] at hp'
        exact absurd hp' (by simp)
      · exact h
  | some e =>
    obtain ⟨hfind, hmax⟩ := endEntry_eq_some_iff.mp he
    constructor
    · exact fun h => Or.inl ⟨e.1, e.2, hfind, h⟩
    · rintro (⟨p', w, hp', hle⟩ | ⟨hempty, -⟩)
      · exact hle.trans (hmax p' w hp')
      · rw [hempty e.1] at hfind
        exact absurd hfind (by simp)

/-- `modify_order` on a stored level: the top stays exact, and the level then
holds the wrapped sum, or is gone when that is 0. -/
theorem modifyOrder_of_find? (hb : b.Exact) (hs : order.side.index = .ok s) (n : UInt32)
    {q : UInt32} (hf : (b.bidAskTrees s).find? order.price = some q) :
    ∃ b', b.modifyOrder order n = .ok b' ∧ b'.Exact ∧
      (b'.bidAskTrees s).find? order.price =
        if q + (n - order.quantity) = 0 then none else some (q + (n - order.quantity)) := by
  have hq : (q.toInt64 + modifyDiff order n).toUInt64.toUInt32 = q + (n - order.quantity) := by
    simp only [modifyDiff, Int64.toUInt64_add, Int64.toUInt64_sub, UInt64.toUInt32_add,
      UInt64.toUInt32_sub, UInt32.toUInt32_toInt64]
  simp only [modifyOrder, hs, hf, hq, Bind.bind, Except.bind]
  refine ⟨_, rfl, exact_updateBestBidAsk hb hs _, ?_⟩
  rw [bidAskTrees_updateBestBidAsk, bidAskTrees_setTree, Function.update_self]
  split <;> simp

/-- `modify_order` on an absent level: the top stays exact exactly when nothing
is inserted or the inserted price is not the new top. -/
theorem modifyOrder_of_absent (hb : b.Exact) (hs : order.side.index = .ok s) (n : UInt32)
    (hf : (b.bidAskTrees s).find? order.price = none) :
    ∃ b', b.modifyOrder order n = .ok b' ∧
      (b'.Exact ↔ (order.quantity.toNat < n.toNat → Behind (b.bidAskTrees s) s order.price)) ∧
      (n.toNat ≤ order.quantity.toNat → (b'.bidAskTrees s).find? order.price = none) := by
  simp only [modifyOrder, hs, hf, Bind.bind, Except.bind]
  refine ⟨_, rfl, ?_⟩
  rw [exact_updateOnlyBestQty_iff hb hs, bidAskTrees_updateOnlyBestQty, bidAskTrees_setTree,
    Function.update_self]
  have hpos : 0 < modifyDiff order n ↔ order.quantity.toNat < n.toNat :=
    UInt32.toInt64_sub_pos_iff n order.quantity
  by_cases hlt : order.quantity.toNat < n.toNat
  · rw [if_pos (hpos.mpr hlt), endPrice_insert_eq_iff_behind hf]
    exact ⟨⟨fun h _ => h, fun h => h hlt⟩, fun h => by omega⟩
  · rw [if_neg (fun h => hlt (hpos.mp h))]
    exact ⟨⟨fun _ h => absurd h hlt, fun _ => rfl⟩, fun _ => hf⟩

theorem exact_flush_iff {b : SymbolBook} :
    b.flush.Exact ↔ ∀ s, b.best s = 0 ∧ b.bestQty s = 0 := by
  rw [exact_iff]
  refine forall_congr' fun s => ?_
  have he : endEntry s (b.flush.bidAskTrees s) = none := endEntry_eq_none_iff.mpr fun p => rfl
  rw [he]
  exact Iff.rfl

end SymbolBook

/-! ### The whole market book -/

namespace MarketBook

variable {mb : MarketBook} {order : Order} {v : VenueIndex} {i : SymbolSlot} {s : TreeIndex}

/-- The mutators the exchange feed drives. -/
inductive Op
  | add
  | cancel
  | delete
  | exec
  deriving DecidableEq, Repr

/-- One call of a mutator. -/
def call (mb : MarketBook) (c : Op × Order) : Except Fault MarketBook :=
  match c.1 with
  | .add => mb.addOrder c.2
  | .cancel => mb.cancelOrder c.2
  | .delete => mb.deleteOrder c.2
  | .exec => mb.execOrder c.2

/-- What a call may be: its order names a venue, a symbol of the tables and a
side, and an added quantity is positive and fits its level. -/
structure CallOk (mb : MarketBook) (c : Op × Order) : Prop where
  located : ∃ v i s, LocatedAt c.2 v i s
  added : c.1 = .add → 0 < c.2.quantity
  fits : c.1 = .add → ∀ v i s q, LocatedAt c.2 v i s → mb.level v i s c.2.price = some q →
    q.toNat + c.2.quantity.toNat < 2 ^ 32

/-- Every book is sound. -/
def Sound (mb : MarketBook) : Prop := ∀ v i, (mb.symbolbooks v i).Sound

theorem sound_setSymBook (hmb : mb.Sound) {b : SymbolBook} (hb : b.Sound) :
    (mb.setSymBook v i b).Sound := by
  intro v' i'
  rw [symbolbooks_setSymBook]
  split
  · exact hb
  · exact hmb v' i'

theorem sound_onSymBook (hmb : mb.Sound) (hloc : LocatedAt order v i s)
    (f : SymbolBook → Except Fault SymbolBook)
    (hf : ∃ b', f (mb.symbolbooks v i) = .ok b' ∧ b'.Sound) :
    ∃ mb', mb.onSymBook order f = .ok mb' ∧ mb'.Sound := by
  cases hown : order.isOurOrder with
  | true => exact ⟨mb, by simp [onSymBook, hown], hmb⟩
  | false =>
    obtain ⟨b', hb', hsound⟩ := hf
    exact ⟨_, onSymBook_of_locatedAt hloc hown hb', sound_setSymBook hmb hsound⟩

/-- One call keeps every book sound. -/
theorem sound_call {c : Op × Order} (hmb : mb.Sound) (hc : CallOk mb c) :
    ∃ mb', mb.call c = .ok mb' ∧ mb'.Sound := by
  obtain ⟨op, order⟩ := c
  obtain ⟨v, i, s, hloc⟩ := hc.located
  have hbook := hmb v i
  -- cancel, delete and exec differ only in the quantity they take off
  have hreduce : ∀ qty, ∃ mb', mb.onSymBook order (fun b => b.reduceLevel order qty) = .ok mb' ∧
      mb'.Sound := fun qty =>
    sound_onSymBook hmb hloc _ (SymbolBook.sound_reduceLevel hbook hloc.side qty)
  cases op with
  | add =>
    refine sound_onSymBook hmb hloc (fun b => b.addOrder order) ?_
    exact SymbolBook.sound_addOrder hbook hloc.side (hc.added rfl)
      fun q hq => hc.fits rfl v i s q hloc hq
  | cancel => exact hreduce _
  | delete => exact hreduce _
  | exec => exact hreduce _

/-- **The top of book is exact.**  From the empty market book, after every call
of any sequence of add, cancel, delete and exec calls, the cached best prices
and quantities of every symbol are the extremes of its trees, and no level has
quantity 0. -/
theorem topOfBook_exact (calls : List (Op × Order)) (h : Along call CallOk {} calls) (n : ℕ) :
    ∃ mb, exec call {} (calls.take n) = .ok mb ∧
      ∀ v i, (mb.symbolbooks v i).Exact ∧ (mb.symbolbooks v i).NoEmptyLevel := by
  have hinit : Sound {} := fun _ _ => SymbolBook.sound_empty
  -- a prefix of the run is a run
  have halong : Along call CallOk {} (calls.take n) := by
    rw [← List.take_append_drop n calls] at h
    exact along_append h
  obtain ⟨mb, hmb, hsound⟩ := exec_of_along (fun _ _ => sound_call) hinit halong
  exact ⟨mb, hmb, fun v i => ⟨(hsound v i).exact, (hsound v i).noEmptyLevel⟩⟩

/-- A bid of the first BIST symbol that is added and then executed in full. -/
def shortLivedBid : Order :=
  { side := .buy, price := 100, quantity := 5, lastExecQuantity := 5 }

/-- An add followed by an execution is such a sequence. -/
theorem topOfBook_exact_shortLivedBid :
    ∃ mb, exec call {} ([(Op.add, shortLivedBid), (Op.exec, shortLivedBid)].take 2) = .ok mb ∧
      ∀ v i, (mb.symbolbooks v i).Exact ∧ (mb.symbolbooks v i).NoEmptyLevel := by
  have hloc : ∃ v i s, LocatedAt shortLivedBid v i s := ⟨0, 0, 0, rfl, rfl, rfl⟩
  refine topOfBook_exact [(Op.add, shortLivedBid), (Op.exec, shortLivedBid)] ⟨?_, fun mb _ => ?_⟩ 2
  · refine ⟨hloc, fun _ => by decide, fun _ v i s q _ hq => ?_⟩
    simp [level] at hq
  · exact ⟨⟨hloc, fun h => by simp at h, fun h => by simp at h⟩, fun _ _ => trivial⟩

/-! ### Modify and flush on the whole book -/

/-- The amount `modify_order` means to leave at the order's level. -/
def modifiedAmount (old : Option UInt32) (order : Order) (n : UInt32) : ℤ :=
  (old.elim 0 UInt32.toNat : ℕ) + n.toNat - order.quantity.toNat

/-- `modify_order` returns, leaves every top exact, and leaves no level holding
the wrapped value of a negative amount. -/
def ModifyKeepsTop (mb : MarketBook) (order : Order) (n : UInt32) : Prop :=
  ∃ mb', mb.modifyOrder order n = .ok mb' ∧ (∀ v i, (mb'.symbolbooks v i).Exact) ∧
    ∀ v i s, LocatedAt order v i s → order.isOurOrder = false →
      ¬(modifiedAmount (mb.level v i s order.price) order n < 0 ∧
        mb'.level v i s order.price =
          some (UInt32.ofInt (modifiedAmount (mb.level v i s order.price) order n)))

/-- The amount taken off a stored level does not exceed it, and a level that is
inserted is not the new top. -/
def ModifyFits (mb : MarketBook) (order : Order) (n : UInt32) : Prop :=
  ∀ v i s, LocatedAt order v i s → order.isOurOrder = false →
    match mb.level v i s order.price with
    | some q => order.quantity.toNat ≤ q.toNat + n.toNat
    | none => order.quantity.toNat < n.toNat →
        SymbolBook.Behind ((mb.symbolbooks v i).bidAskTrees s) s order.price

/-- `flush` returns and leaves every top exact. -/
def FlushKeepsTop (mb : MarketBook) (v : VenueIndex) (k : UInt32) : Prop :=
  ∃ mb', mb.flush v k = .ok mb' ∧ ∀ v i, (mb'.symbolbooks v i).Exact

theorem exact_setSymBook_iff (hmb : ∀ v i, (mb.symbolbooks v i).Exact) {b : SymbolBook} :
    (∀ v' i', ((mb.setSymBook v i b).symbolbooks v' i').Exact) ↔ b.Exact := by
  constructor
  · intro h
    have := h v i
    rwa [symbolbooks_setSymBook, if_pos ⟨rfl, rfl⟩] at this
  · intro hb v' i'
    rw [symbolbooks_setSymBook]
    split
    · exact hb
    · exact hmb v' i'

/-- An order the book ignores leaves everything as it was. -/
theorem modifyKeepsTop_of_ignored (hmb : ∀ v i, (mb.symbolbooks v i).Exact) (n : UInt32)
    (h : order.isOurOrder = true ∨ order.symbolIndex = uint32Max) : ModifyKeepsTop mb order n := by
  refine ⟨mb, ?_, hmb, fun v i s hloc hmarket => ?_⟩
  · rcases h with h | h
    · simp [modifyOrder, onSymBook, h]
    · cases hown : order.isOurOrder <;>
        simp [modifyOrder, onSymBook, hown, getSymBook, h, Bind.bind, Except.bind]
  · rcases h with h | h
    · rw [h] at hmarket
      exact absurd hmarket (by simp)
    · exact absurd h hloc.symbolIndex_ne

theorem modifyKeepsTop_iff (hmb : ∀ v i, (mb.symbolbooks v i).Exact) (hloc : LocatedAt order v i s)
    (hmarket : order.isOurOrder = false) (n : UInt32) :
    ModifyKeepsTop mb order n ↔
      match mb.level v i s order.price with
      | some q => order.quantity.toNat ≤ q.toNat + n.toNat
      | none => order.quantity.toNat < n.toNat →
          SymbolBook.Behind ((mb.symbolbooks v i).bidAskTrees s) s order.price := by
  cases hf : mb.level v i s order.price with
  | some q =>
    obtain ⟨b', hb', hexact, hlevel⟩ :=
      SymbolBook.modifyOrder_of_find? (hmb v i) hloc.side n hf
    have hrun : mb.modifyOrder order n = .ok (mb.setSymBook v i b') :=
      onSymBook_of_locatedAt hloc hmarket hb'
    have hamount : modifiedAmount (some q) order n = q.toNat + n.toNat - order.quantity.toNat := rfl
    have hwrap := UInt32.ofInt_toNat_add_sub q n order.quantity
    constructor
    · rintro ⟨mb', hmb', -, hnowrap⟩
      by_contra hneg
      rw [hrun, Except.ok.injEq] at hmb'
      subst hmb'
      -- the wrapped sum of a negative amount is never 0, so the level is kept
      have hne : q + (n - order.quantity) ≠ 0 := by
        intro h0
        have hnat := congrArg UInt32.toNat h0
        rw [UInt32.toNat_add, UInt32.toNat_sub] at hnat
        have hm := order.quantity.toNat_lt
        simp at hnat
        omega
      refine hnowrap v i s hloc hmarket ⟨?_, ?_⟩
      · rw [hf, hamount]
        omega
      · rw [hf, hamount, hwrap, level_setSymBook_self, hlevel, if_neg hne]
    · intro hle
      refine ⟨_, hrun, (exact_setSymBook_iff hmb).mpr hexact, fun v' i' s' hloc' _ => ?_⟩
      obtain ⟨rfl, rfl, rfl⟩ := locatedAt_unique hloc hloc'
      rintro ⟨hneg, -⟩
      rw [hf, hamount] at hneg
      omega
  | none =>
    obtain ⟨b', hb', hexact, hnone⟩ :=
      SymbolBook.modifyOrder_of_absent (hmb v i) hloc.side n hf
    have hrun : mb.modifyOrder order n = .ok (mb.setSymBook v i b') :=
      onSymBook_of_locatedAt hloc hmarket hb'
    constructor
    · rintro ⟨mb', hmb', hex, -⟩
      rw [hrun, Except.ok.injEq] at hmb'
      subst hmb'
      exact hexact.mp ((exact_setSymBook_iff hmb).mp hex)
    · intro hbehind
      refine ⟨_, hrun, (exact_setSymBook_iff hmb).mpr (hexact.mpr hbehind), ?_⟩
      intro v' i' s' hloc' _
      obtain ⟨rfl, rfl, rfl⟩ := locatedAt_unique hloc hloc'
      rintro ⟨hneg, hstored⟩
      -- a negative amount at an absent level inserts nothing
      have hle : n.toNat ≤ order.quantity.toNat := by
        rw [hf] at hneg
        simp only [modifiedAmount, Option.elim] at hneg
        omega
      rw [level_setSymBook_self, hnone hle] at hstored
      exact absurd hstored (by simp)

/-- **When modify and flush keep the top of book exact.**  Over a market book
whose tops are all exact: `modify_order` keeps them exact and leaves no wrapped
negative quantity iff the quantity it takes off a stored level does not exceed
that level and a level it inserts is not the new top; `flush` keeps them exact
iff the cached top of the symbol is already all zero. -/
theorem modify_flush_exact_iff (mb : MarketBook) (hmb : ∀ v i, (mb.symbolbooks v i).Exact) :
    (∀ (order : Order) (n : UInt32),
      (order.symbolIndex = uint32Max ∨ ∃ v i s, LocatedAt order v i s) →
        (ModifyKeepsTop mb order n ↔ ModifyFits mb order n)) ∧
      ∀ (v : VenueIndex) (k : UInt32) (i : SymbolSlot), symbolSlot k = .ok i →
        (FlushKeepsTop mb v k ↔
          ∀ s, (mb.symbolbooks v i).best s = 0 ∧ (mb.symbolbooks v i).bestQty s = 0) := by
  refine ⟨fun order n hord => ?_, fun v k i hk => ?_⟩
  · -- own orders and orders without a symbol never reach a book
    by_cases hignored : order.isOurOrder = true ∨ order.symbolIndex = uint32Max
    · refine ⟨fun _ v i s hloc hmarket => ?_, fun _ => modifyKeepsTop_of_ignored hmb n hignored⟩
      rcases hignored with h | h
      · rw [h] at hmarket
        exact absurd hmarket (by simp)
      · exact absurd h hloc.symbolIndex_ne
    · rw [not_or, Bool.not_eq_true] at hignored
      obtain ⟨v, i, s, hloc⟩ := hord.resolve_left hignored.2
      rw [modifyKeepsTop_iff hmb hloc hignored.1]
      constructor
      · intro h v' i' s' hloc' _
        obtain ⟨rfl, rfl, rfl⟩ := locatedAt_unique hloc hloc'
        exact h
      · exact fun h => h v i s hloc hignored.1
  · -- a flush empties the trees and leaves the cached tops
    have hrun : mb.flush v k = .ok (mb.setSymBook v i (mb.symbolbooks v i).flush) := by
      simp only [flush, hk, Bind.bind, Except.bind]
    rw [← SymbolBook.exact_flush_iff, ← exact_setSymBook_iff hmb]
    constructor
    · rintro ⟨mb', hmb', hex⟩
      rw [hrun, Except.ok.injEq] at hmb'
      subst hmb'
      exact hex
    · exact fun hex => ⟨_, hrun, hex⟩

/-- One resting bid of 5 at 100 on the first BIST symbol, its top cached. -/
def restingBid : MarketBook :=
  ({} : MarketBook).setSymBook 0 0
    { bidAskTrees := Function.update (fun _ => ∅) 0 ((∅ : PriceTree).insert 100 5),
      bestBid := 100, bestBidQty := 5 }

theorem restingBid_exact : ∀ v i, (restingBid.symbolbooks v i).Exact := by
  refine (exact_setSymBook_iff fun _ _ => SymbolBook.sound_empty.exact).mpr ?_
  rw [SymbolBook.exact_iff]
  decide

/-- Over that book, the bid can be reduced to 2, and the second BIST symbol,
whose cached top is zero, can be flushed. -/
theorem modify_flush_exact_restingBid :
    ModifyKeepsTop restingBid { side := .buy, price := 100, quantity := 5 } 2 ∧
      FlushKeepsTop restingBid 0 1 := by
  obtain ⟨hmodify, hflush⟩ := modify_flush_exact_iff restingBid restingBid_exact
  have hloc : LocatedAt { side := .buy, price := 100, quantity := 5 } 0 0 0 := ⟨rfl, rfl, rfl⟩
  refine ⟨(hmodify _ _ (Or.inr ⟨0, 0, 0, hloc⟩)).mpr ?_, (hflush 0 1 1 rfl).mpr (by decide)⟩
  intro v i s hloc' _
  obtain ⟨rfl, rfl, rfl⟩ := locatedAt_unique hloc hloc'
  exact show 5 ≤ 5 + 2 by decide

/-- From an exact book, `flush` leaves the bid of an empty tree cached,
`modify_order` inserts a better bid without caching its price, and it leaves
`5 + 1 - 9` wrapped at the stored level. -/
theorem modify_flush_not_exact :
    (∀ v i, (restingBid.symbolbooks v i).Exact) ∧ ¬FlushKeepsTop restingBid 0 0 ∧
      ¬ModifyKeepsTop restingBid { side := .buy, price := 101, quantity := 2 } 7 ∧
      ¬ModifyKeepsTop restingBid { side := .buy, price := 100, quantity := 9 } 1 := by
  refine ⟨restingBid_exact, ?_, ?_, ?_⟩
  · rintro ⟨mb', hmb', hex⟩
    have hflush : restingBid.flush 0 0 =
        .ok (restingBid.setSymBook 0 0 (restingBid.symbolbooks 0 0).flush) := rfl
    rw [hflush, Except.ok.injEq] at hmb'
    subst hmb'
    have hzero := SymbolBook.exact_flush_iff.mp ((exact_setSymBook_iff restingBid_exact).mp hex)
    exact absurd (hzero 0).1 (by decide)
  · rw [modifyKeepsTop_iff restingBid_exact (v := 0) (i := 0) (s := 0) ⟨rfl, rfl, rfl⟩ rfl]
    intro h
    rcases h (by decide) with ⟨p, q, hp, hle⟩ | ⟨hempty, -⟩
    · have hp' : ((∅ : PriceTree).insert 100 5).find? p = some q := hp
      rw [SortedMap.find?_insert, SortedMap.find?_empty] at hp'
      split at hp'
      · subst p
        exact absurd (show (101 : Int64) ≤ 100 from hle) (by decide)
      · exact absurd hp' (by simp)
    · exact absurd (hempty 100) (by decide)
  · rw [modifyKeepsTop_iff restingBid_exact (v := 0) (i := 0) (s := 0) ⟨rfl, rfl, rfl⟩ rfl]
    exact fun h => absurd (show 9 ≤ 5 + 1 from h) (by decide)

end MarketBook

end TradingEngine
