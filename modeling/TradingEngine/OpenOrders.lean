/-
Open-order counting (`open_orders_count` of `AccountRisk` and `SymbolRisk`).

An own order lives from its New report to its terminal report: `Filled`,
`Expired`, or a cancel or delete that leaves nothing.  A `Desk` carries, beside
the engine, the record `live` of which slots of the order pool hold a live order
and for which venue and symbol.  `FollowsLife` is the discipline of the
exchange: New for an order that is not live, every other report for a live one.

The account's switch and the symbol's switch treat the statuses alike except
for `Expired`, which only the account knows, and both leave a repeated cancel
(`cancelled_count > 1`) uncounted even when it is the one that closes the order.
`Counted` excludes exactly these two reports.

* `openOrders_counted` — in every run whose reports are `Counted`, the account's
  count, the sum of the symbols' counts and the number of live orders agree, and
  neither counter wraps or goes negative;
* `expired_order_still_counted` — an order that expires stays counted on its
  symbol.
-/
import TradingEngine.Census
import TradingEngine.RiskUpdate

namespace TradingEngine

open FallibleRun RiskEngine Census

/-! ### Lives of orders -/

/-- The live own orders: the slot of the pool to venue and symbol. -/
abbrev LiveOrders := OrderSlot → Option (VenueIndex × SymbolSlot)

/-- A report after which the order is no longer open. -/
def Order.terminal (o : Order) : Bool :=
  match o.status with
  | .filled | .expired => true
  | .cancelled | .deleted => o.remainingQuantity == 0
  | _ => false

/-- A record of live orders after one report for the order in `slot`. -/
def noteReport {β : Type} (slot : OrderSlot) (place : β) (live : OrderSlot → Option β) (o : Order) :
    OrderSlot → Option β :=
  if o.status = .new then Function.update live slot (some place)
  else if o.terminal then Function.update live slot none
  else live

/-- New comes first, and only a live order of this venue and symbol gets other
reports. -/
def FollowsLife (slot : OrderSlot) (place : VenueIndex × SymbolSlot) :
    LiveOrders → List Order → Prop
  | _, [] => True
  | live, o :: os =>
    (if o.status = .new then live slot = none else live slot = some place) ∧
      FollowsLife slot place (noteReport slot place live o) os

/-- The reports both switches count. -/
def Counted (o : Order) : Prop :=
  o.status ≠ .expired ∧
    (o.status = .cancelled ∨ o.status = .deleted → o.remainingQuantity = 0 → o.cancelledCount ≤ 1)

/-- Every report the event stands for is counted. -/
def OwnEvent.Counted (e : OwnEvent) : Prop := ∀ o ∈ reports e.order, TradingEngine.Counted o

/-- The engine and the record of the live orders. -/
structure Desk where
  re : RiskEngine
  live : LiveOrders

namespace Desk

/-- One order through `update_risk`. -/
def step (d : Desk) (e : OwnEvent) : Except Fault Desk := do
  let v ← e.order.venue.index
  let i ← symbolSlot e.order.symbolIndex
  let (_, re, _) ← d.re.updateRiskOrder e.book e.order
  .ok ⟨re, (reports e.order).foldl (noteReport e.slot (v, i)) d.live⟩

/-- The event is for an own order and keeps to the order's life. -/
def InLife (d : Desk) (e : OwnEvent) : Prop :=
  e.order.isOurOrder = true ∧ ∀ v i, e.order.venue.index = .ok v →
    symbolSlot e.order.symbolIndex = .ok i → FollowsLife e.slot (v, i) d.live (reports e.order)

/-- The number of live orders of a symbol. -/
def liveOrders (d : Desk) (v : VenueIndex) (i : SymbolSlot) : ℕ := count d.live (v, i)

/-- The number of live orders of a venue. -/
def liveOrdersOf (d : Desk) (v : VenueIndex) : ℕ := count (fun slot => (d.live slot).map Prod.fst) v

end Desk

/-! ### What one report does to the two counters -/

variable {acc acc' : AccountRisk} {sym sym' : SymbolRisk} {o : Order} {m : OrderMetrics}

/-- A counter after a report that is counted. -/
def movedCount {κ : Type} [Add κ] [Sub κ] [OfNat κ 1] (o : Order) (c : κ) : κ :=
  if o.status = .new then c + 1 else if o.terminal then c - 1 else c

theorem openOrdersCount_addReplaced (sym : SymbolRisk) (o : Order) (m : OrderMetrics) :
    (sym.addReplaced o m).openOrdersCount = sym.openOrdersCount := by
  rw [SymbolRisk.addReplaced]
  split <;> rfl

/-- The symbol's case for cancel and delete.  A repeated cancel returns early,
which is harmless as long as it does not close the order. -/
theorem openOrdersCount_cancel (hstatus : o.status = .cancelled ∨ o.status = .deleted)
    (hfirst : o.remainingQuantity = 0 → o.cancelledCount ≤ 1) (hpos : ¬sym.openOrdersCount < 0)
    (h : (if 1 < o.cancelledCount then .ok (acc, sym)
      else
        let sym := { sym with openOrdersCount :=
          if o.remainingQuantity = 0 then sym.openOrdersCount - 1 else sym.openOrdersCount }
        .ok (acc, (sym.addReplaced o m).clamp)) =
      (.ok (acc', sym') : Except Fault (AccountRisk × SymbolRisk))) :
    acc'.openOrdersCount = acc.openOrdersCount ∧
      sym'.openOrdersCount =
        if movedCount o sym.openOrdersCount < 0 then 0 else movedCount o sym.openOrdersCount := by
  by_cases hcc : 1 < o.cancelledCount
  · rw [if_pos hcc] at h
    obtain ⟨rfl, rfl⟩ := Prod.mk.inj (Except.ok.inj h)
    -- so this cancel is not the one that closes the order
    have hleft : o.remainingQuantity ≠ 0 := fun h0 => absurd (hfirst h0) (UInt8.not_le.mpr hcc)
    have hmoved : movedCount o sym.openOrdersCount = sym.openOrdersCount := by
      obtain hs | hs := hstatus <;> simp [movedCount, Order.terminal, hs, hleft]
    rw [hmoved, if_neg hpos]
    exact ⟨rfl, rfl⟩
  · rw [if_neg hcc] at h
    obtain ⟨rfl, rfl⟩ := Prod.mk.inj (Except.ok.inj h)
    obtain hs | hs := hstatus <;>
      simp [movedCount, Order.terminal, hs, SymbolRisk.clamp, openOrdersCount_addReplaced]

/-- The count of a symbol after a counted report, clamped at zero. -/
theorem openOrdersCount_ownSymbolRisk (hcounted : Counted o) (hpos : ¬sym.openOrdersCount < 0)
    (h : ownSymbolRisk acc sym o m = .ok (acc', sym')) :
    acc'.openOrdersCount = acc.openOrdersCount ∧
      sym'.openOrdersCount =
        if movedCount o sym.openOrdersCount < 0 then 0 else movedCount o sym.openOrdersCount := by
  obtain ⟨hexp, hcancel⟩ := hcounted
  rw [ownSymbolRisk] at h
  cases hs : o.status with
  | new =>
    rw [hs] at h
    obtain ⟨rfl, rfl⟩ := Prod.mk.inj (Except.ok.inj h)
    simp [movedCount, hs, SymbolRisk.clamp]
  | partialFill =>
    rw [hs] at h
    obtain ⟨⟨acc₁, sym₁⟩, hfill, h⟩ := bind_eq_ok_iff.mp h
    obtain ⟨rfl, rfl⟩ := Prod.mk.inj (Except.ok.inj h)
    obtain ⟨_, _, _, _, _, _, rfl, rfl⟩ := applyFill_eq_ok hfill
    simp [movedCount, hs, Order.terminal, SymbolRisk.clamp]
  | filled =>
    rw [hs] at h
    obtain ⟨⟨acc₁, sym₁⟩, hfill, h⟩ := bind_eq_ok_iff.mp h
    obtain ⟨rfl, rfl⟩ := Prod.mk.inj (Except.ok.inj h)
    obtain ⟨_, _, _, _, _, _, rfl, rfl⟩ := applyFill_eq_ok hfill
    simp [movedCount, hs, Order.terminal, SymbolRisk.clamp]
  | cancelled =>
    rw [hs] at h
    exact openOrdersCount_cancel (.inl hs) (hcancel (.inl hs)) hpos h
  | deleted =>
    rw [hs] at h
    exact openOrdersCount_cancel (.inr hs) (hcancel (.inr hs)) hpos h
  | replaced =>
    rw [hs] at h
    obtain ⟨rfl, rfl⟩ := Prod.mk.inj (Except.ok.inj h)
    simp [movedCount, hs, Order.terminal, SymbolRisk.clamp, openOrdersCount_addReplaced]
  -- the symbol's switch has no case for it
  | expired => exact absurd hs hexp
  | unknown =>
    rw [hs] at h
    obtain ⟨rfl, rfl⟩ := Prod.mk.inj (Except.ok.inj h)
    simp [movedCount, hs, Order.terminal, SymbolRisk.clamp]
  | cancelRequest =>
    rw [hs] at h
    obtain ⟨rfl, rfl⟩ := Prod.mk.inj (Except.ok.inj h)
    simp [movedCount, hs, Order.terminal, SymbolRisk.clamp]

theorem openOrdersCount_updateLeverage (h : acc.updateLeverage = .ok acc') :
    acc'.openOrdersCount = acc.openOrdersCount := by
  rw [AccountRisk.updateLeverage] at h
  split at h
  · rw [← Except.ok.inj h]
  · split at h
    · exact absurd h (by simp)
    · rw [← Except.ok.inj h]

/-- The account's case for cancel, delete and expiry. -/
theorem openOrdersCount_accountCancel
    (hstatus : o.status = .cancelled ∨ o.status = .deleted)
    (hfirst : o.remainingQuantity = 0 → o.cancelledCount ≤ 1)
    (h : (if 1 < o.cancelledCount then .ok acc
      else
        { acc.addReplaced o m with openOrdersCount :=
          if o.remainingQuantity = 0 then (acc.addReplaced o m).openOrdersCount - 1
          else (acc.addReplaced o m).openOrdersCount }.updateLeverage) = .ok acc') :
    acc'.openOrdersCount = movedCount o acc.openOrdersCount := by
  have hreplaced : (acc.addReplaced o m).openOrdersCount = acc.openOrdersCount := by
    rw [AccountRisk.addReplaced]
    split <;> rfl
  by_cases hcc : 1 < o.cancelledCount
  · rw [if_pos hcc] at h
    have hleft : o.remainingQuantity ≠ 0 := fun h0 => absurd (hfirst h0) (UInt8.not_le.mpr hcc)
    rw [← Except.ok.inj h]
    obtain hs | hs := hstatus <;> simp [movedCount, Order.terminal, hs, hleft]
  · rw [if_neg hcc] at h
    rw [openOrdersCount_updateLeverage h]
    obtain hs | hs := hstatus <;> simp [movedCount, Order.terminal, hs, hreplaced]

/-- The count of the account after a counted report. -/
theorem openOrdersCount_updateAccountRisk {lim : AccountLimit} (hcounted : Counted o)
    (h : updateAccountRisk acc lim o m = .ok acc') :
    acc'.openOrdersCount = movedCount o acc.openOrdersCount := by
  obtain ⟨hexp, hcancel⟩ := hcounted
  rw [updateAccountRisk] at h
  dsimp only at h
  cases hs : o.status with
  | new =>
    rw [hs] at h
    rw [openOrdersCount_updateLeverage h]
    dsimp only
    split <;> simp [movedCount, hs]
  | partialFill =>
    rw [hs] at h
    rw [openOrdersCount_updateLeverage h]
    simp [movedCount, hs, Order.terminal, AccountRisk.applyFill]
  | filled =>
    rw [hs] at h
    rw [openOrdersCount_updateLeverage h]
    simp [movedCount, hs, Order.terminal, AccountRisk.applyFill]
  | cancelled =>
    rw [hs] at h
    exact openOrdersCount_accountCancel (.inl hs) (hcancel (.inl hs)) h
  | deleted =>
    rw [hs] at h
    exact openOrdersCount_accountCancel (.inr hs) (hcancel (.inr hs)) h
  | replaced =>
    rw [hs] at h
    rw [openOrdersCount_updateLeverage h, AccountRisk.addReplaced]
    split <;> simp [movedCount, hs, Order.terminal]
  -- no counted report is an expiry
  | expired => exact absurd hs hexp
  | unknown =>
    rw [hs] at h
    rw [openOrdersCount_updateLeverage h]
    simp [movedCount, hs, Order.terminal]
  | cancelRequest =>
    rw [hs] at h
    rw [openOrdersCount_updateLeverage h]
    simp [movedCount, hs, Order.terminal]

/-! ### Counters and census -/

section Record

variable {β : Type} {slot : OrderSlot} {place : β} {live : OrderSlot → Option β}

/-- Forgetting part of the place commutes with noting a report. -/
theorem map_noteReport {γ : Type} (f : β → γ) (slot : OrderSlot) (place : β)
    (live : OrderSlot → Option β) (o : Order) :
    (fun s => (noteReport slot place live o s).map f) =
      noteReport slot (f place) (fun s => (live s).map f) o := by
  rw [noteReport, noteReport]
  split
  · exact map_update f live slot (some place)
  · split
    · exact map_update f live slot none
    · rfl

variable [DecidableEq β]

/-- The place of the order gains or loses it. -/
theorem count_noteReport_self {κ : Type} [Add κ] [Sub κ] [OfNat κ 1] (c : ℕ → κ)
    (hsucc : ∀ n, c (n + 1) = c n + 1) (hpred : ∀ n, c (n + 1) - 1 = c n)
    (hlife : if o.status = .new then live slot = none else live slot = some place) :
    c (count (noteReport slot place live o) place) = movedCount o (c (count live place)) := by
  rw [noteReport, movedCount]
  split
  · rename_i hnew
    rw [if_pos hnew] at hlife
    rw [count_enter live hlife, if_pos rfl, hsucc]
  · rename_i hold
    rw [if_neg hold] at hlife
    split
    · have hleave := count_leave live hlife place
      rw [if_pos rfl] at hleave
      rw [← hleave, hpred]
    · rfl

/-- Other places do not notice. -/
theorem count_noteReport_of_ne {place' : β} (hne : place ≠ place')
    (hlife : if o.status = .new then live slot = none else live slot = some place) :
    count (noteReport slot place live o) place' = count live place' := by
  rw [noteReport]
  split
  · rename_i hnew
    rw [if_pos hnew] at hlife
    rw [count_enter live hlife, if_neg hne, Nat.add_zero]
  · rename_i hold
    rw [if_neg hold] at hlife
    split
    · have hleave := count_leave live hlife place'
      rwa [if_neg hne, Nat.add_zero] at hleave
    · rfl

end Record

/-- Every counter holds the number of live orders it is to count. -/
structure CountsAgree (re : RiskEngine) (live : LiveOrders) : Prop where
  symbol : ∀ v i, (re.symbolrisks v i).openOrdersCount = Int32.ofNat (count live (v, i))
  account : ∀ v, (re.accountrisks v).openOrdersCount =
    UInt32.ofNat (count (fun slot => (live slot).map Prod.fst) v)

/-- The pool is small enough for a 32-bit signed counter. -/
theorem not_ofNat_count_neg {β : Type} [DecidableEq β] (live : OrderSlot → Option β) (b : β) :
    ¬Int32.ofNat (count live b) < 0 := by
  have hle := count_le_card live b
  rw [Fintype.card_fin] at hle
  rw [Int32.lt_iff_toInt_lt, Int32.toInt_ofNat_of_lt (by omega)]
  show ¬(_ : ℤ) < 0
  omega

variable {re re' : RiskEngine} {mb : MarketBook} {v : VenueIndex} {i : SymbolSlot}
  {slot : OrderSlot} {live : LiveOrders}

theorem countsAgree_report (hown : o.isOurOrder = true) (hsym : symbolSlot o.symbolIndex = .ok i)
    (hcounted : Counted o)
    (hlife : if o.status = .new then live slot = none else live slot = some (v, i))
    (hagree : CountsAgree re live) (hstep : reportStep mb v re o = .ok re') :
    CountsAgree re' (noteReport slot (v, i) live o) := by
  rw [reportStep, applyReport] at hstep
  obtain ⟨re₁, h₁, h₂⟩ := bind_eq_ok_iff.mp hstep
  obtain ⟨j, acc₁, sym₁, hj, hrisk, rfl⟩ := updateSymbolRisk_eq_ok_iff.mp h₁
  obtain rfl : i = j := Except.ok.inj (hsym.symm.trans hj)
  obtain ⟨re₂, acc₂, hindex, hacc, rfl⟩ := updateOwnRisk_eq_ok_iff.mp h₂
  obtain ⟨haccs, hsyms⟩ := updateOrderRisk_risks hindex
  rw [symbolRisk, if_pos hown] at hrisk
  -- the two counters of this venue and symbol after the report
  have hneg := not_ofNat_count_neg live (v, i)
  rw [← hagree.symbol v i] at hneg
  obtain ⟨hsame, hsymCount⟩ := openOrdersCount_ownSymbolRisk hcounted hneg hrisk
  have haccCount := openOrdersCount_updateAccountRisk hcounted hacc
  rw [haccs] at haccCount
  simp only [accountrisks_setSymbol, accountrisks_setAccount, Function.update_self] at haccCount
  rw [hsame] at haccCount
  constructor
  · intro w j
    simp only [symbolrisks_setAccount, hsyms, symbolrisks_setSymbol]
    by_cases hplace : (v, i) = (w, j)
    · obtain ⟨rfl, rfl⟩ := Prod.mk.inj hplace
      rw [Function.update_self, Function.update_self, hsymCount, hagree.symbol,
        ← count_noteReport_self Int32.ofNat (fun n => Int32.ofNat_add n 1)
          (fun n => by rw [Int32.ofNat_add]; exact Int32.add_sub_cancel _ _) hlife,
        if_neg (not_ofNat_count_neg _ _)]
    · rw [count_noteReport_of_ne hplace hlife, ← hagree.symbol w j]
      by_cases hw : w = v
      · subst hw
        have hji : j ≠ i := fun h => hplace (by rw [h])
        rw [Function.update_self, Function.update_of_ne hji]
      · rw [Function.update_of_ne hw]
  · intro w
    -- the same life, seen with the symbols forgotten
    have hrow : if o.status = .new then (live slot).map Prod.fst = none
        else (live slot).map Prod.fst = some v := by
      by_cases hnew : o.status = .new
      · rw [if_pos hnew] at hlife ⊢
        rw [hlife]
        rfl
      · rw [if_neg hnew] at hlife ⊢
        rw [hlife]
        rfl
    rw [map_noteReport Prod.fst]
    simp only [accountrisks_setAccount, haccs, accountrisks_setSymbol]
    by_cases hw : v = w
    · subst hw
      rw [Function.update_self, haccCount, hagree.account,
        ← count_noteReport_self UInt32.ofNat (fun n => UInt32.ofNat_add n 1)
          (fun n => by rw [UInt32.ofNat_add]; exact UInt32.add_sub_cancel _ _) hrow]
    · rw [Function.update_of_ne (Ne.symm hw), Function.update_of_ne (Ne.symm hw),
        count_noteReport_of_ne hw hrow]
      exact hagree.account w

/-- The reports of one order, one after another. -/
theorem countsAgree_reports {os : List Order}
    (hown : ∀ o ∈ os, o.isOurOrder = true ∧ symbolSlot o.symbolIndex = .ok i ∧ Counted o)
    (hlife : FollowsLife slot (v, i) live os) (hagree : CountsAgree re live)
    (hrun : exec (reportStep mb v) re os = .ok re') :
    CountsAgree re' (os.foldl (noteReport slot (v, i)) live) := by
  induction os generalizing re live with
  | nil =>
    rw [exec_nil, Except.ok.injEq] at hrun
    exact hrun ▸ hagree
  | cons o os ih =>
    obtain ⟨re₁, h₁, hrest⟩ := exec_cons_eq_ok_iff.mp hrun
    obtain ⟨ho, hsym, hcounted⟩ := hown o (List.mem_cons_self)
    exact ih (fun x hx => hown x (List.mem_cons_of_mem o hx)) hlife.2
      (countsAgree_report ho hsym hcounted hlife.1 hagree h₁) hrest

/-- One own order through `update_risk`. -/
theorem countsAgree_step {d d' : Desk} {e : OwnEvent} (hagree : CountsAgree d.re d.live)
    (hlife : d.InLife e ∧ e.Counted) (hstep : d.step e = .ok d') :
    CountsAgree d'.re d'.live := by
  obtain ⟨⟨hown, hlife⟩, hcounted⟩ := hlife
  rw [Desk.step] at hstep
  obtain ⟨v, hv, hstep⟩ := bind_eq_ok_iff.mp hstep
  obtain ⟨i, hi, hstep⟩ := bind_eq_ok_iff.mp hstep
  obtain ⟨⟨done, re', order'⟩, hbody, hstep⟩ := bind_eq_ok_iff.mp hstep
  rw [← Except.ok.inj hstep]
  refine countsAgree_reports ?_ (hlife v i hv hi) hagree
    (exec_reports_of_updateRiskOrder hown hv hbody)
  intro o ho
  obtain ⟨s, rfl⟩ := eq_of_mem_reports ho
  exact ⟨hown, hi, hcounted _ ho⟩

theorem countsAgree_fresh (hfresh : re.Fresh) : CountsAgree re fun _ => none := by
  constructor
  · intro v i
    obtain ⟨o, c, hsym⟩ := hfresh.symbols v i
    rw [hsym, count_nowhere]
    rfl
  · intro v
    obtain ⟨o, c, hacc⟩ := hfresh.accounts v
    rw [hacc]
    show (0 : UInt32) = UInt32.ofNat (count (fun _ => none) v)
    rw [count_nowhere]
    rfl

/-! ### Runs -/

/-- **Open orders are counted exactly** in every run whose reports are
`Counted`: the account's count is the sum of the symbols' counts and the number
of live orders of the venue, each symbol counts its own, nothing wraps. -/
theorem openOrders_counted (hfresh : re.Fresh) {es : List OwnEvent} {d : Desk}
    (hlife : Along Desk.step (fun d e => d.InLife e ∧ e.Counted) ⟨re, fun _ => none⟩ es)
    (hrun : exec Desk.step ⟨re, fun _ => none⟩ es = .ok d) (v : VenueIndex) :
    ((d.re.accountrisks v).openOrdersCount.toNat : ℤ) =
        ∑ i, (d.re.symbolrisks v i).openOrdersCount.toInt ∧
      (d.re.accountrisks v).openOrdersCount.toNat = d.liveOrdersOf v ∧
      ∀ i, (d.re.symbolrisks v i).openOrdersCount.toInt = d.liveOrders v i := by
  let Inv : Desk → Prop := fun d => CountsAgree d.re d.live
  have hagree : Inv d := exec_inv_along (fun d e d' hagree => countsAgree_step hagree)
    (show Inv ⟨re, fun _ => none⟩ from countsAgree_fresh hfresh) hlife hrun
  have hsym : ∀ i, (d.re.symbolrisks v i).openOrdersCount.toInt = d.liveOrders v i := by
    intro i
    have hle := count_le_card d.live (v, i)
    rw [Fintype.card_fin] at hle
    rw [hagree.symbol, Int32.toInt_ofNat_of_lt (by omega), Desk.liveOrders]
  have hacc : (d.re.accountrisks v).openOrdersCount.toNat = d.liveOrdersOf v := by
    have hle := count_le_card (fun slot => (d.live slot).map Prod.fst) v
    rw [Fintype.card_fin] at hle
    rw [hagree.account, UInt32.toNat_ofNat_of_lt' (by rw [UInt32.size]; omega), Desk.liveOrdersOf]
  refine ⟨?_, hacc, hsym⟩
  rw [hacc, Finset.sum_congr rfl fun i _ => hsym i, Desk.liveOrdersOf, ← sum_count, Nat.cast_sum]
  rfl

instance : Inhabited Desk := ⟨⟨{}, fun _ => none⟩⟩

/-- The desk that a run from the start reaches. -/
def Desk.after (es : List OwnEvent) : Desk :=
  (exec Desk.step ⟨{}, fun _ => none⟩ es).toOption.getD default

/-- An own buy order for ten at 100 of the first BIST symbol. -/
def ownBid (status : Status) (remaining : UInt32) : Order :=
  { price := 100, quantity := 10, remainingQuantity := remaining, side := .buy, status := status
    isOurOrder := true, protocol := .ouch, orderType := .limit }

/-- To check a report of a BIST order of the first symbol against its life. -/
theorem Desk.inLife_of_bist {d : Desk} {e : OwnEvent} (hown : e.order.isOurOrder = true)
    (hv : e.order.venue = .bist) (hi : e.order.symbolIndex = 0)
    (h : FollowsLife e.slot (0, 0) d.live (reports e.order)) : d.InLife e := by
  refine ⟨hown, fun v i hv' hi' => ?_⟩
  rw [hv] at hv'
  rw [hi] at hi'
  obtain rfl : 0 = v := Except.ok.inj hv'
  obtain rfl : 0 = i := Except.ok.inj hi'
  exact h

/-- Two orders accepted, the first traded in part and then cancelled. -/
def twoBids : List OwnEvent :=
  [⟨7, ownBid .new 10, {}⟩, ⟨8, ownBid .new 10, {}⟩,
    ⟨7, { ownBid .partialFill 6 with lastExecQuantity := 4 }, {}⟩,
    ⟨7, { ownBid .cancelled 0 with replacedQuantity := -6, cancelledCount := 1 }, {}⟩]

theorem openOrders_counted_twoBids :
    ((Desk.after twoBids).re.accountrisks 0).openOrdersCount = 1 ∧
      (Desk.after twoBids).liveOrdersOf 0 = 1 ∧
      ∑ i, ((Desk.after twoBids).re.symbolrisks 0 i).openOrdersCount.toInt = 1 := by
  have hrun : exec Desk.step ⟨{}, fun _ => none⟩ twoBids = .ok (Desk.after twoBids) := rfl
  have hlife : Along Desk.step (fun d e => d.InLife e ∧ e.Counted) ⟨{}, fun _ => none⟩ twoBids := by
    have hcounted : ∀ e ∈ twoBids, e.Counted := by
      intro e he o ho
      simp only [twoBids, List.mem_cons, List.not_mem_nil, or_false] at he
      obtain rfl | rfl | rfl | rfl := he <;> obtain rfl := List.mem_singleton.mp ho <;>
        exact ⟨by decide, by decide⟩
    refine along_cons (Desk.after (twoBids.take 1)) ⟨?_, hcounted _ (by simp [twoBids])⟩ rfl ?_
    · exact Desk.inLife_of_bist rfl rfl rfl ⟨rfl, trivial⟩
    refine along_cons (Desk.after (twoBids.take 2)) ⟨?_, hcounted _ (by simp [twoBids])⟩ rfl ?_
    · exact Desk.inLife_of_bist rfl rfl rfl ⟨rfl, trivial⟩
    refine along_cons (Desk.after (twoBids.take 3)) ⟨?_, hcounted _ (by simp [twoBids])⟩ rfl ?_
    · exact Desk.inLife_of_bist rfl rfl rfl ⟨rfl, trivial⟩
    refine along_cons (Desk.after (twoBids.take 4)) ⟨?_, hcounted _ (by simp [twoBids])⟩ rfl ?_
    · exact Desk.inLife_of_bist rfl rfl rfl ⟨rfl, trivial⟩
    trivial
  have hone : ((Desk.after twoBids).re.accountrisks 0).openOrdersCount = 1 := rfl
  obtain ⟨hsum, hlive, -⟩ := openOrders_counted fresh_default hlife hrun 0
  rw [hone] at hsum hlive
  exact ⟨hone, hlive.symm, hsum.symm⟩

/-- A FIX order accepted and expired. -/
def expiredBid : List OwnEvent :=
  [⟨7, { ownBid .new 10 with protocol := .fix, syncState := .newSeen }, {}⟩,
    ⟨7, { ownBid .expired 0 with
      protocol := .fix, syncState := .newSeen, replacedQuantity := -10 }, {}⟩]

/-- An order accepted and cancelled in two parts. -/
def twiceCancelledBid : List OwnEvent :=
  [⟨7, ownBid .new 10, {}⟩,
    ⟨7, { ownBid .cancelled 4 with replacedQuantity := -6, cancelledCount := 1 }, {}⟩,
    ⟨7, { ownBid .cancelled 0 with replacedQuantity := -4, cancelledCount := 2 }, {}⟩]

/-- **Two ways to lose count.**  The order that expired is live nowhere and still
counted on its symbol though not on the account; the order whose second cancel
closed it is still counted on both. -/
theorem expired_order_still_counted :
    (Along Desk.step Desk.InLife ⟨{}, fun _ => none⟩ expiredBid ∧
      exec Desk.step ⟨{}, fun _ => none⟩ expiredBid = .ok (Desk.after expiredBid) ∧
      (Desk.after expiredBid).liveOrdersOf 0 = 0 ∧
      ((Desk.after expiredBid).re.accountrisks 0).openOrdersCount = 0 ∧
      ((Desk.after expiredBid).re.symbolrisks 0 0).openOrdersCount = 1 ∧
      (((Desk.after expiredBid).re.accountrisks 0).openOrdersCount.toNat : ℤ) ≠
        ∑ i, ((Desk.after expiredBid).re.symbolrisks 0 i).openOrdersCount.toInt) ∧
    (Along Desk.step Desk.InLife ⟨{}, fun _ => none⟩ twiceCancelledBid ∧
      exec Desk.step ⟨{}, fun _ => none⟩ twiceCancelledBid = .ok (Desk.after twiceCancelledBid) ∧
      (Desk.after twiceCancelledBid).liveOrdersOf 0 = 0 ∧
      ((Desk.after twiceCancelledBid).re.accountrisks 0).openOrdersCount = 1 ∧
      ((Desk.after twiceCancelledBid).re.symbolrisks 0 0).openOrdersCount = 1) := by
  have hnone : ∀ live : LiveOrders, (live = fun _ => none) →
      count (fun slot => (live slot).map Prod.fst) (0 : VenueIndex) = 0 := by
    intro live h
    rw [h]
    exact count_nowhere 0
  have hclosed : Function.update (Function.update (fun _ => none : LiveOrders) 7 (some (0, 0))) 7
      none = fun _ => none := by
    rw [Function.update_idem]
    exact Function.update_eq_self 7 _
  refine ⟨⟨?_, rfl, hnone _ hclosed, rfl, rfl, ?_⟩, ?_, rfl, hnone _ hclosed, rfl, rfl⟩
  · refine along_cons (Desk.after (expiredBid.take 1)) ?_ rfl ?_
    · exact Desk.inLife_of_bist rfl rfl rfl ⟨rfl, trivial⟩
    refine along_cons (Desk.after (expiredBid.take 2)) ?_ rfl trivial
    exact Desk.inLife_of_bist rfl rfl rfl ⟨rfl, trivial⟩
  · -- only the first symbol has ever been touched
    have hothers : ∃ s₁ s₂, (Desk.after expiredBid).re.symbolrisks 0 =
        Function.update (Function.update (fun _ => {}) 0 s₁) 0 s₂ := ⟨_, _, rfl⟩
    obtain ⟨s₁, s₂, hothers⟩ := hothers
    have hsum : ∑ i, ((Desk.after expiredBid).re.symbolrisks 0 i).openOrdersCount.toInt = 1 := by
      rw [Finset.sum_eq_single (0 : SymbolSlot)]
      · rfl
      · intro i _ hi
        rw [hothers, Function.update_of_ne hi, Function.update_of_ne hi]
        rfl
      · intro h
        exact absurd (Finset.mem_univ _) h
    rw [hsum]
    decide
  · refine along_cons (Desk.after (twiceCancelledBid.take 1)) ?_ rfl ?_
    · exact Desk.inLife_of_bist rfl rfl rfl ⟨rfl, trivial⟩
    refine along_cons (Desk.after (twiceCancelledBid.take 2)) ?_ rfl ?_
    · exact Desk.inLife_of_bist rfl rfl rfl ⟨rfl, trivial⟩
    refine along_cons (Desk.after (twiceCancelledBid.take 3)) ?_ rfl trivial
    exact Desk.inLife_of_bist rfl rfl rfl ⟨rfl, trivial⟩

end TradingEngine
