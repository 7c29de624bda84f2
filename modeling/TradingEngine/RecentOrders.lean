/-
The last orders of a symbol (`order_management/OrderManager.h`, `OrderHistory`).

`push` writes the 64 entries in turn, `pop` empties the entry of an order, and `get_recent` goes
back from the last written entry and counts the orders that it meets.  The indices are words of
64 bits that are masked; `writeIndex` counts the pushes, and the word `write_index` is that
number modulo 2^64.

* `toNat_mask_eq` — masks and wraps do not change which entry a push goes to;
* `searchBack_eq` — the loop of `get_recent` as a list of candidates;
* `orderHistory_refines` — after every sequence of pushes and pops, the orders that are found are
  those of the last 64 pushes that have not been popped.
-/
import TradingEngine.OwnOrders
import TradingEngine.Refinement
import TradingEngine.WindowRing

namespace TradingEngine

open Refinement WindowRing

/-! ### `get_recent` -/

/-- `index & (ORDERHISTORY_SIZE - 1)`. -/
theorem toNat_mask_eq (index : UInt64) : (index &&& 63).toNat = index.toNat % 64 := by
  rw [UInt64.toNat_and]
  exact Nat.and_two_pow_sub_one_eq_mod index.toNat 6

namespace OrderHistory

/-- The entry with a masked index. -/
def entry (index : UInt64) : Fin 64 :=
  ⟨(index &&& 63).toNat, toNat_mask_eq index ▸ Nat.mod_lt _ (by decide)⟩

/-- `rounds` rounds of the loop of `get_recent`. -/
def searchBack (orders : Fin 64 → Option OrderSlot) (offset : UInt64) :
    ℕ → UInt64 → UInt64 → Option OrderSlot
  | 0, _, _ => none
  | rounds + 1, index, found =>
    let index := (index - 1) &&& 63
    match orders (entry index) with
    | some candidate =>
      if found = offset then some candidate
      else searchBack orders offset rounds index (found + 1)
    | none => searchBack orders offset rounds index found

/-- `write_index`, a `size_t`. -/
def writeWord (h : OrderHistory) : UInt64 := UInt64.ofNat h.writeIndex

/-- `get_recent`. -/
def getRecent (h : OrderHistory) (offset : UInt64) : Option OrderSlot :=
  searchBack h.orders offset 64 h.writeWord 0

/-- A push goes to the entry that the word names, and increments the word. -/
theorem push_word (h : OrderHistory) (slot : OrderSlot) :
    (h.push slot).orders = Function.update h.orders (entry h.writeWord) (some slot) ∧
      (h.push slot).writeWord = h.writeWord + 1 := by
  have hentry : entry h.writeWord = Fin.ofNat 64 h.writeIndex := by
    apply Fin.ext
    show (h.writeWord &&& 63).toNat = h.writeIndex % 64
    rw [toNat_mask_eq, writeWord, UInt64.toNat_ofNat']
    omega
  exact ⟨by rw [hentry]; rfl, UInt64.ofNat_add _ _⟩

/-! ### The loop -/

theorem entry_back (index : UInt64) : entry ((index - 1) &&& 63) = place 64 index.toNat 0 := by
  have hone : (1 : UInt64).toNat = 1 := rfl
  apply Fin.ext
  show ((index - 1) &&& 63 &&& 63).toNat = (index.toNat + 63) % 64
  rw [toNat_mask_eq, toNat_mask_eq, UInt64.toNat_sub]
  omega

theorem place_back (index : UInt64) {i : ℕ} (hi : i < 63) :
    place 64 ((index - 1) &&& 63).toNat i = place 64 index.toNat (i + 1) := by
  have hone : (1 : UInt64).toNat = 1 := rfl
  apply Fin.ext
  show (((index - 1) &&& 63).toNat + (64 - 1 - i)) % 64 = (index.toNat + (64 - 1 - (i + 1))) % 64
  rw [toNat_mask_eq, UInt64.toNat_sub]
  omega

/-- The loop finds the order behind those that it still has to count. -/
theorem searchBack_eq (orders : Fin 64 → Option OrderSlot) {offset found : UInt64} {rounds : ℕ}
    (index : UInt64) (hrounds : rounds ≤ 64) (hfound : found ≤ offset) :
    searchBack orders offset rounds index found =
      ((List.range rounds).filterMap fun i => orders (place 64 index.toNat i))[
        offset.toNat - found.toNat]? := by
  induction rounds generalizing index found with
  | zero => rfl
  | succ rounds ih =>
    have hrest : ((List.range rounds).filterMap fun i =>
          orders (place 64 ((index - 1) &&& 63).toNat i)) =
        (List.range rounds).filterMap ((fun i => orders (place 64 index.toNat i)) ∘ Nat.succ) := by
      refine List.filterMap_congr fun i hi => ?_
      have hlt := List.mem_range.mp hi
      exact congrArg orders (place_back index (by omega))
    have hle := UInt64.le_iff_toNat_le.mp hfound
    rw [searchBack, List.range_succ_eq_map, List.filterMap_cons, List.filterMap_map, entry_back,
      ← hrest]
    cases orders (place 64 index.toNat 0) with
    -- a hole costs a round and counts nothing
    | none => exact ih _ (Nat.le_of_succ_le hrounds) hfound
    | some candidate =>
      dsimp only
      by_cases heq : found = offset
      · rw [if_pos heq, heq, Nat.sub_self]
        rfl
      · have hne : found.toNat ≠ offset.toNat := fun h => heq (UInt64.toNat_inj.mp h)
        have hlt := offset.toNat_lt
        have hnext : (found + 1).toNat = found.toNat + 1 := by
          rw [UInt64.toNat_add]
          show (found.toNat + 1) % 2 ^ 64 = _
          omega
        have hsub : offset.toNat - found.toNat = offset.toNat - (found + 1).toNat + 1 := by omega
        rw [if_neg heq, ih _ (Nat.le_of_succ_le hrounds)
          (UInt64.le_iff_toNat_le.mpr (by omega)), hsub, List.getElem?_cons_succ]

/-! ### What the history holds -/

/-- The entries hold the last 64 of these pushes, none of them twice. -/
structure Keeps (h : OrderHistory) (pushes : List (Option OrderSlot)) : Prop where
  holds : Holds h.orders h.writeIndex pushes
  distinct : Distinct h.orders

/-- An order that stands once is emptied by emptying the first entry that holds it. -/
theorem pop_orders_eq {h : OrderHistory} (hdistinct : Distinct h.orders) (slot : OrderSlot) :
    h.pop slot = { h with orders := fun j => erase slot (h.orders j) } := by
  rw [pop]
  cases hfind : (List.finRange 64).find? fun i => h.orders i = some slot with
  | none =>
    have hnone : ∀ j, h.orders j ≠ some slot := by
      intro j hj
      exact absurd (decide_eq_true hj) (List.find?_eq_none.mp hfind j (List.mem_finRange j))
    have horders : (fun j => erase slot (h.orders j)) = h.orders := by
      funext j
      exact if_neg (hnone j)
    rw [horders]
  | some i =>
    have hi : h.orders i = some slot := by
      have hholds := List.find?_some hfind
      exact of_decide_eq_true hholds
    have horders : Function.update h.orders i none = fun j => erase slot (h.orders j) := by
      funext j
      by_cases hj : j = i
      · rw [hj, Function.update_self, erase, if_pos hi]
      · rw [Function.update_of_ne hj, erase, if_neg fun heq => hj (hdistinct j i slot heq hi)]
    dsimp only
    rw [horders]

theorem Keeps.push {h : OrderHistory} {pushes : List (Option OrderSlot)} (hk : h.Keeps pushes)
    {slot : OrderSlot} (hnew : some slot ∉ pushes.take 64) :
    (h.push slot).Keeps (some slot :: pushes) where
  holds := hk.holds.write slot
  distinct := hk.distinct.write (fun _ hj => hnew (hk.holds.mem_take hj)) _

theorem Keeps.pop {h : OrderHistory} {pushes : List (Option OrderSlot)} (hk : h.Keeps pushes)
    (slot : OrderSlot) : (h.pop slot).Keeps (pushes.map (erase slot)) := by
  rw [pop_orders_eq hk.distinct]
  exact ⟨hk.holds.erase slot, hk.distinct.erase slot⟩

/-- **`get_recent` finds the orders of the window.** -/
theorem Keeps.getRecent_eq {h : OrderHistory} {pushes : List (Option OrderSlot)}
    (hk : h.Keeps pushes) (offset : UInt64) :
    h.getRecent offset = (window 64 pushes)[offset.toNat]? := by
  have hword : ∀ i, place 64 h.writeWord.toNat i = place 64 h.writeIndex i := by
    intro i
    apply Fin.ext
    show (h.writeWord.toNat + (64 - 1 - i)) % 64 = (h.writeIndex + (64 - 1 - i)) % 64
    rw [writeWord, UInt64.toNat_ofNat']
    omega
  rw [getRecent, searchBack_eq h.orders h.writeWord (le_refl 64) UInt64.zero_le,
    ← hk.holds.readBack]
  simp only [hword]
  rfl

end OrderHistory

/-! ### The interface -/

/-- A call of the history. -/
inductive HistoryOp
  | push (order : OrderSlot)
  | pop (order : OrderSlot)
  | getRecent (offset : UInt64)

/-- The calls on the entries; `none` is the null pointer. -/
def OrderHistory.call (h : OrderHistory) : HistoryOp → OrderHistory × Option OrderSlot
  | .push order => (h.push order, none)
  | .pop order => (h.pop order, none)
  | .getRecent offset => (h, h.getRecent offset)

/-- The calls on the list of all pushes, the newest first, without the orders that have been
popped since. -/
def pushesCall (pushes : List (Option OrderSlot)) :
    HistoryOp → List (Option OrderSlot) × Option OrderSlot
  | .push order => (some order :: pushes, none)
  | .pop order => (pushes.map (erase order), none)
  | .getRecent offset => (pushes, (window 64 pushes)[offset.toNat]?)

/-- An order is pushed only while it is not in the history. -/
def NotTwice (pushes : List (Option OrderSlot)) : HistoryOp → Prop
  | .push order => some order ∉ pushes.take 64
  | _ => True

instance (pushes : List (Option OrderSlot)) : (op : HistoryOp) → Decidable (NotTwice pushes op)
  | .push order => inferInstanceAs (Decidable (some order ∉ pushes.take 64))
  | .pop _ => inferInstanceAs (Decidable True)
  | .getRecent _ => inferInstanceAs (Decidable True)

theorem history_simulates :
    Simulates OrderHistory.Keeps NotTwice OrderHistory.call pushesCall where
  result {h pushes op} hk hop := by
    cases op with
    | push order => rfl
    | pop order => rfl
    | getRecent offset => exact hk.getRecent_eq offset
  next {h pushes op} hk hop := by
    cases op with
    | push order => exact hk.push hop
    | pop order => exact hk.pop order
    | getRecent offset => exact hk

/-- **The history is the list of the last pushes.**  From an empty history, with any
`write_index`, every sequence of calls that pushes no order twice returns what the list of the
pushes returns, and at its end `get_recent(k)` is the order behind the `k` newest of those that
the last 64 pushes brought and that have not been popped. -/
theorem orderHistory_refines (writeIndex : ℕ) (ops : List HistoryOp)
    (hops : Legal pushesCall NotTwice [] ops) :
    results OrderHistory.call { writeIndex := writeIndex } ops = results pushesCall [] ops ∧
      ∀ k, (final OrderHistory.call { writeIndex := writeIndex } ops).getRecent k =
        (window 64 (final pushesCall [] ops))[k.toNat]? := by
  have hstart : OrderHistory.Keeps { writeIndex := writeIndex } [] :=
    ⟨holds_empty writeIndex, fun _ _ _ h _ => by cases h⟩
  exact ⟨history_simulates.results_eq hstart hops,
    (history_simulates.final_rel hstart hops).getRecent_eq⟩

/-- Three orders across the wrap of `write_index`, the second popped. -/
theorem orderHistory_refines_wrap :
    results OrderHistory.call { writeIndex := 2 ^ 64 - 2 }
        [.push 5, .push 6, .push 7, .pop 6, .getRecent 0, .getRecent 1, .getRecent 2] =
      [none, none, none, none, some 7, some 5, none] :=
  (orderHistory_refines (2 ^ 64 - 2)
    [.push 5, .push 6, .push 7, .pop 6, .getRecent 0, .getRecent 1, .getRecent 2]
    ⟨by decide, by decide, by decide, trivial, trivial, trivial, trivial, trivial⟩).1

end TradingEngine
