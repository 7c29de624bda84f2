/-
The self-trade index (`orderrisks_` and `orderrisk_pool_`).

`lease re` reads the two maps of the engine as one: a venue and a key to the
pool entry filed there.  `Levels re` is the set of the filed keys, which is all
that `check_self_trade_order` depends on as long as filed entries are active.

* `updateOrderRisk_cases` — the four things `update_order_risk` can do;
* `kept_poolSound` — entries are never shared between keys, across venues too, and
  the active entries are the filed ones;
* `orderRisk_pool_discipline` — so over every run of the function, and as long as the
  pool is not full the scan for a free entry ends;
* `levels_updateOrderRisk` — on the set of keys the function is `indexStep`: a
  repeated cancel does nothing, an update that leaves a quantity files its key,
  and an update that leaves none *toggles* it;
* `levels_updateRiskOrder` — so one own order applies `indexStep` as often as it
  has reports.
-/
import Mathlib.Algebra.Group.Even
import Mathlib.Logic.Function.Iterate
import TradingEngine.RiskCheck
import TradingEngine.RiskUpdate
import TradingEngine.SlotLease

namespace TradingEngine

open FallibleRun

/-- A key of the index together with the venue whose map holds it. -/
abbrev LevelKey := VenueIndex × OrderRiskKey

namespace RiskEngine

/-- The pool entry filed under a key. -/
def lease (re : RiskEngine) (x : LevelKey) : Option OrderRiskSlot := (re.orderrisks x.1).lookup x.2

def poolActive (re : RiskEngine) (p : OrderRiskSlot) : Bool := (re.orderriskPool p).active

/-- The filed keys. -/
def Levels (re : RiskEngine) : Set LevelKey := {x | (re.lease x).isSome = true}

theorem mem_levels {re : RiskEngine} {x : LevelKey} : x ∈ re.Levels ↔ (re.lease x).isSome = true :=
  Iff.rfl

/-- The key an own order is filed under. -/
def levelKey (order : Order) (v : VenueIndex) : LevelKey := (v, orderKey order v)

variable {re re' : RiskEngine} {order : Order} {v : VenueIndex} {mb : MarketBook} {x : LevelKey}

/-- The scan ends at an entry that is not active. -/
theorem active_of_scanFree {pool : OrderRiskSlot → OrderRisk} {fuel n m : ℕ}
    (h : scanFree pool fuel n = some m) : (pool (Fin.ofNat 65536 m)).active = false := by
  induction fuel generalizing n with
  | zero => exact absurd h (by simp [scanFree])
  | succ fuel ih =>
    rw [scanFree] at h
    split at h
    · exact ih h
    · rename_i hfree
      rw [← Option.some.inj h]
      exact Bool.not_eq_true _ |>.mp hfree

/-- Rewriting one key of one map is rewriting one lease. -/
theorem lease_update {maps : VenueIndex → HashMap OrderRiskKey OrderRiskSlot} {k : OrderRiskKey}
    {m' : HashMap OrderRiskKey OrderRiskSlot} {o : Option OrderRiskSlot}
    (hmaps : maps = re.orderrisks) (hre : re'.orderrisks = Function.update maps v m')
    (hself : m'.lookup k = o) (hother : ∀ k', k' ≠ k → m'.lookup k' = (maps v).lookup k') :
    re'.lease = Function.update re.lease (v, k) o := by
  subst hmaps
  funext ⟨w, k'⟩
  show (re'.orderrisks w).lookup k' = _
  rw [hre]
  by_cases hw : w = v
  · subst hw
    rw [Function.update_self]
    by_cases hk : k' = k
    · rw [hk, Function.update_self, hself]
    · have hne : (w, k') ≠ (w, k) := fun h => hk (Prod.mk.inj h).2
      rw [Function.update_of_ne hne, hother k' hk]
      rfl
  · have hne : (w, k') ≠ (v, k) := fun h => hw (Prod.mk.inj h).1
    rw [Function.update_of_ne hw, Function.update_of_ne hne]
    rfl

/-- Rewriting one entry of the pool changes at most its own mark. -/
theorem poolActive_of_update {p : OrderRiskSlot} {oR : OrderRisk} {b : Bool}
    (hpool : re'.orderriskPool = Function.update re.orderriskPool p oR) (hb : oR.active = b) :
    re'.poolActive = Function.update re.poolActive p b := by
  funext q
  show (re'.orderriskPool q).active = _
  rw [hpool]
  by_cases hq : q = p
  · rw [hq, Function.update_self, Function.update_self, hb]
  · rw [Function.update_of_ne hq, Function.update_of_ne hq]
    rfl

/-- The scan ends when an entry within its reach is not active. -/
theorem scanFree_eq_some {pool : OrderRiskSlot → OrderRisk} {fuel n i : ℕ} (hi : i < fuel)
    (hfree : (pool (Fin.ofNat 65536 (n + i))).active = false) :
    ∃ m, scanFree pool fuel n = some m := by
  induction fuel generalizing n i with
  | zero => exact absurd hi (Nat.not_lt_zero i)
  | succ fuel ih =>
    rw [scanFree]
    split
    · rename_i hactive
      -- the free entry is further on
      have hpos : i ≠ 0 := by
        rintro rfl
        rw [Nat.add_zero] at hfree
        exact absurd (hactive.symm.trans hfree) (by simp)
      obtain ⟨j, rfl⟩ := Nat.exists_eq_succ_of_ne_zero hpos
      refine ih (i := j) (by omega) ?_
      rw [Nat.add_assoc, Nat.add_comm 1 j]
      exact hfree
    · exact ⟨n, rfl⟩

/-- From any index a full turn passes every entry. -/
theorem scanFree_terminates {pool : OrderRiskSlot → OrderRisk}
    (hroom : (Finset.univ.filter fun p => (pool p).active = true).card < 65536) (next : ℕ) :
    ∃ m, scanFree pool 65536 next = some m := by
  obtain ⟨p, hp⟩ : ∃ p, ¬(pool p).active = true := by
    by_contra hall
    rw [not_exists_not] at hall
    rw [Finset.filter_true_of_mem fun p _ => hall p, Finset.card_univ, Fintype.card_fin] at hroom
    exact absurd hroom (lt_irrefl _)
  have hreach : Fin.ofNat 65536 (next + (p.val + 65536 - next % 65536) % 65536) = p := by
    apply Fin.ext
    show (next + (p.val + 65536 - next % 65536) % 65536) % 65536 = p.val
    have := p.isLt
    omega
  have hfree : (pool (Fin.ofNat 65536
      (next + (p.val + 65536 - next % 65536) % 65536))).active = false := by
    rw [hreach]
    exact Bool.not_eq_true _ |>.mp hp
  exact scanFree_eq_some (Nat.mod_lt _ (by omega)) hfree

/-- **What `update_order_risk` can do.**  Nothing on a repeated cancel; close a
filed key when nothing is left; refresh a filed key; file a key that is not
there, whether or not anything is left. -/
theorem updateOrderRisk_cases (h : re.updateOrderRisk order v = .ok re') :
    (1 < order.cancelledCount ∧ re' = re) ∨
    (¬1 < order.cancelledCount ∧ order.remainingQuantity = 0 ∧
      ∃ p, re.lease (levelKey order v) = some p ∧
        re'.lease = Function.update re.lease (levelKey order v) none ∧
        re'.poolActive = Function.update re.poolActive p false) ∨
    (¬1 < order.cancelledCount ∧ order.remainingQuantity ≠ 0 ∧
      (∃ p, re.lease (levelKey order v) = some p) ∧ re'.lease = re.lease ∧
      re'.poolActive = re.poolActive) ∨
    (¬1 < order.cancelledCount ∧ re.lease (levelKey order v) = none ∧
      ∃ p, re.poolActive p = false ∧
        re'.lease = Function.update re.lease (levelKey order v) (some p) ∧
        re'.poolActive = Function.update re.poolActive p true) := by
  rw [updateOrderRisk] at h
  by_cases hcc : 1 < order.cancelledCount
  · rw [if_pos hcc] at h
    exact .inl ⟨hcc, (Except.ok.inj h).symm⟩
  · rw [if_neg hcc] at h
    dsimp only at h
    split at h
    · rename_i p hp
      split at h
      · rename_i hzero
        rw [← Except.ok.inj h]
        refine .inr (.inl ⟨hcc, hzero, p, hp, ?_, ?_⟩)
        · exact lease_update rfl rfl (Finmap.lookup_erase _ _)
            fun k' hk => Finmap.lookup_erase_ne hk
        · exact poolActive_of_update rfl rfl
      · rename_i hleft
        rw [← Except.ok.inj h]
        refine .inr (.inr (.inl ⟨hcc, hleft, ⟨p, hp⟩, rfl, ?_⟩))
        -- a refresh leaves the mark of the entry
        have hsame : (re.setOrderRisk p (refresh (re.orderriskPool p) order)).poolActive =
            Function.update re.poolActive p (re.poolActive p) := poolActive_of_update rfl rfl
        rw [hsame, Function.update_eq_self]
    · rename_i hnone
      split at h
      · -- a full pool: the scan does not return
        exact absurd h (by simp)
      · rename_i n hscan
        rw [← Except.ok.inj h]
        refine .inr (.inr (.inr ⟨hcc, hnone, _, active_of_scanFree hscan, ?_, ?_⟩))
        · exact lease_update rfl rfl (HashMap.lookup_emplace_self _ hnone)
            fun k' hk => HashMap.lookup_emplace_of_ne _ _ hk
        · exact poolActive_of_update rfl rfl

/-! ### Entries and their marks -/

/-- No pool entry is filed twice, and the active entries are the filed ones. -/
def PoolSound (re : RiskEngine) : Prop := Leased re.lease re.poolActive

theorem kept_poolSound : Kept PoolSound where
  symbol := by
    intro re re' mb order v h hok
    obtain ⟨i, acc, sym, -, -, rfl⟩ := updateSymbolRisk_eq_ok_iff.mp hok
    exact h
  index := by
    intro re re' order v h hok
    obtain ⟨-, rfl⟩ | ⟨-, -, p, hp, hlease, hactive⟩ | ⟨-, -, -, hlease, hactive⟩ |
      ⟨-, hnone, p, hp, hlease, hactive⟩ := updateOrderRisk_cases hok
    · exact h
    · rw [PoolSound, hlease, hactive]
      exact h.revoke hp
    · rw [PoolSound, hlease, hactive]
      exact h
    · rw [PoolSound, hlease, hactive]
      exact h.grant hnone hp
  account := by
    intro re order v acc h hok
    exact h

theorem poolSound_fresh (hfresh : re.Fresh) : PoolSound re := by
  have hlease : re.lease = fun _ => none := by
    funext x
    rw [lease, hfresh.orderrisks]
    rfl
  rw [PoolSound, hlease]
  refine Leased.none fun p => ?_
  rw [poolActive, hfresh.pool]

/-- `update_order_risk` on an order of a venue. -/
def orderRiskStep (re : RiskEngine) (e : Order × VenueIndex) : Except Fault RiskEngine :=
  re.updateOrderRisk e.1 e.2

/-- **The discipline of the pool.**  After every run of `update_order_risk`, whatever the
orders, no two entries of the maps point to the same slot, the active slots are those an
entry points to, and unless all are active the scan finds one that no entry points to from
wherever it starts. -/
theorem orderRisk_pool_discipline (hfresh : re.Fresh) {es : List (Order × VenueIndex)}
    (hrun : exec orderRiskStep re es = .ok re') :
    (∀ v k v' k' p, (re'.orderrisks v).lookup k = some p →
      (re'.orderrisks v').lookup k' = some p → v = v' ∧ k = k') ∧
    (∀ p, (re'.orderriskPool p).active = true ↔ ∃ v k, (re'.orderrisks v).lookup k = some p) ∧
    ((Finset.univ.filter fun p => (re'.orderriskPool p).active = true).card < 65536 →
      ∀ next, ∃ n, scanFree re'.orderriskPool 65536 next = some n ∧
        ∀ v k, (re'.orderrisks v).lookup k ≠ some (Fin.ofNat 65536 n)) := by
  have hsound : PoolSound re' :=
    exec_inv (fun _ _ _ h hok => kept_poolSound.index h hok) (poolSound_fresh hfresh) hrun
  have hfiled : ∀ p, (re'.orderriskPool p).active = true ↔
      ∃ v k, (re'.orderrisks v).lookup k = some p :=
    fun p => (hsound.active_iff p).trans Prod.exists
  refine ⟨fun v k v' k' p h h' => ?_, hfiled, fun hroom next => ?_⟩
  · have hkeys : (v, k) = (v', k') := hsound.unique h h'
    exact Prod.mk.inj hkeys
  · obtain ⟨n, hscan⟩ := scanFree_terminates hroom next
    refine ⟨n, hscan, fun v k h => ?_⟩
    have hactive := (hfiled _).mpr ⟨v, k, h⟩
    rw [active_of_scanFree hscan] at hactive
    exact absurd hactive (by simp)

/-- A bid is filed and closed again, an ask on the other venue is filed. -/
def filedAndClosed : List (Order × VenueIndex) :=
  [({ price := 100, remainingQuantity := 5, side := .buy }, 0),
    ({ price := 100, side := .buy }, 0), ({ price := 7, remainingQuantity := 1, side := .sell }, 1)]

def afterFiling : RiskEngine := (exec orderRiskStep {} filedAndClosed).toOption.getD default

theorem orderRisk_pool_discipline_filed :
    exec orderRiskStep {} filedAndClosed = .ok afterFiling ∧
      ((afterFiling.orderriskPool 1).active = true ↔
        ∃ v k, (afterFiling.orderrisks v).lookup k = some 1) := by
  have hrun : exec orderRiskStep {} filedAndClosed = .ok afterFiling := rfl
  exact ⟨hrun, (orderRisk_pool_discipline fresh_default hrun).2.1 1⟩

theorem levels_fresh (hfresh : re.Fresh) : re.Levels = ∅ := by
  refine Set.eq_empty_iff_forall_notMem.mpr fun x hx => ?_
  rw [mem_levels, lease, hfresh.orderrisks] at hx
  exact absurd hx (by simp)

/-! ### The set of filed keys -/

/-- `update_order_risk` on the set of filed keys. -/
def indexStep (order : Order) (v : VenueIndex) (keys : Set LevelKey) : Set LevelKey :=
  if 1 < order.cancelledCount then keys
  else if order.remainingQuantity = 0 then symmDiff keys {levelKey order v}
  else insert (levelKey order v) keys

theorem levels_updateOrderRisk (h : re.updateOrderRisk order v = .ok re') :
    re'.Levels = indexStep order v re.Levels := by
  have hupdate : ∀ o : Option OrderRiskSlot,
      re'.lease = Function.update re.lease (levelKey order v) o →
      ∀ y, y ∈ re'.Levels ↔ if y = levelKey order v then o.isSome = true else y ∈ re.Levels := by
    intro o hlease y
    rw [mem_levels, hlease]
    split
    · rename_i hy
      rw [hy, Function.update_self]
    · rename_i hy
      rw [Function.update_of_ne hy]
      rfl
  rw [indexStep]
  obtain ⟨hcc, rfl⟩ | ⟨hcc, hzero, p, hp, hlease, -⟩ | ⟨hcc, hleft, ⟨p, hp⟩, hlease, -⟩ |
    ⟨hcc, hnone, p, -, hlease, -⟩ := updateOrderRisk_cases h
  · -- a repeated cancel
    rw [if_pos hcc]
  · -- the key was filed and goes
    have hmem : levelKey order v ∈ re.Levels := by
      rw [mem_levels, hp]
      rfl
    rw [if_neg hcc, if_pos hzero]
    ext y
    rw [hupdate none hlease y, Set.mem_symmDiff, Set.mem_singleton_iff]
    split
    · rename_i hy
      simp [hy, hmem]
    · rename_i hy
      simp [hy]
  · -- the key was filed and stays
    have hmem : levelKey order v ∈ re.Levels := by
      rw [mem_levels, hp]
      rfl
    rw [if_neg hcc, if_neg hleft, Set.insert_eq_of_mem hmem, Levels, hlease, Levels]
  · -- the key was not filed and comes, whatever is left
    have hmem : levelKey order v ∉ re.Levels := by
      rw [mem_levels, hnone]
      simp
    rw [if_neg hcc]
    ext y
    rw [hupdate (some p) hlease y]
    split
    · rename_i hy
      split <;> simp [hy, hmem, Set.mem_symmDiff]
    · rename_i hy
      split <;> simp [hy, Set.mem_symmDiff]

theorem levels_reportStep (h : reportStep mb v re order = .ok re') :
    re'.Levels = indexStep order v re.Levels := by
  rw [reportStep, applyReport] at h
  obtain ⟨re₁, h₁, h₂⟩ := bind_eq_ok_iff.mp h
  obtain ⟨i, acc, sym, -, -, rfl⟩ := updateSymbolRisk_eq_ok_iff.mp h₁
  obtain ⟨re₂, acc₂, hindex, -, rfl⟩ := updateOwnRisk_eq_ok_iff.mp h₂
  have hlevels := levels_updateOrderRisk hindex
  exact hlevels

/-- The index does not read the status, so all reports of an order move it the
same way. -/
theorem levels_of_exec_reports {os : List Order}
    (hos : ∀ o ∈ os, ∃ s, o = { order with status := s })
    (hrun : exec (reportStep mb v) re os = .ok re') :
    re'.Levels = (indexStep order v)^[os.length] re.Levels := by
  induction os generalizing re with
  | nil =>
    rw [exec_nil, Except.ok.injEq] at hrun
    rw [hrun]
    rfl
  | cons o os ih =>
    obtain ⟨re₁, h₁, hrest⟩ := exec_cons_eq_ok_iff.mp hrun
    obtain ⟨s, rfl⟩ := hos o List.mem_cons_self
    rw [ih (fun x hx => hos x (List.mem_cons_of_mem _ hx)) hrest, levels_reportStep h₁,
      List.length_cons, Function.iterate_succ_apply]
    rfl

/-- **One own order on the set of filed keys.** -/
theorem levels_updateRiskOrder {done : Bool} {order' : Order} (hown : order.isOurOrder = true)
    (hv : order.venue.index = .ok v) (h : re.updateRiskOrder mb order = .ok (done, re', order')) :
    re'.Levels = (indexStep order v)^[(reports order).length] re.Levels :=
  levels_of_exec_reports (fun _ ho => eq_of_mem_reports ho)
    (exec_reports_of_updateRiskOrder hown hv h)

/-- An order has at most three reports. -/
theorem length_reports_le (order : Order) : (reports order).length ≤ 3 := by
  rw [reports]
  split
  · split
    · simp
    · exact List.length_filter_le _ _
  · simp

/-! ### The query -/

/-- The key `check_self_trade_order` looks up. -/
def oppositeKey (order : Order) (v : VenueIndex) : LevelKey :=
  (v, OrderRiskKey.make order.symbolIndex order.price (notSide order.side) (venueCode v))

/-- The check flags exactly the orders whose opposite key is filed. -/
theorem checkSelfTradeOrder_eq_flag_iff (hsound : PoolSound re) :
    re.checkSelfTradeOrder order v = RiskRejectReason.selfTradeDetected.flag ↔
      oppositeKey order v ∈ re.Levels := by
  have hflag : (0 : RiskFlags) ≠ RiskRejectReason.selfTradeDetected.flag := by decide
  rw [checkSelfTradeOrder, mem_levels, lease, oppositeKey]
  dsimp only
  cases hp : (re.orderrisks v).lookup (OrderRiskKey.make order.symbolIndex order.price
      (notSide order.side) (venueCode v)) with
  | none => simp [hflag]
  | some p =>
    -- a filed entry is active, so the test of the mark never fails
    have hactive : re.poolActive p = true := (hsound.active_iff p).mpr ⟨oppositeKey order v, hp⟩
    rw [poolActive] at hactive
    simp [reasonIf, hactive]

end RiskEngine

end TradingEngine
