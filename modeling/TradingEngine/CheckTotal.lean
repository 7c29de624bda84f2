/-
Orders whose instrument or lot size `check_risk` cannot use.

The directory takes the lot size of a message as it comes, and `get_symbolmeta`
returns a null pointer for an instrument that no message has defined.  `check_risk`
looks at neither: it dereferences the pointer, and `check_quantity_bounds` takes
the remainder by the lot size.

* `checkRiskOrder_handles_iff` — the loop body survives an order, and rejects it if
  its data cannot be used, exactly when the order is `Covered`: its instrument is
  known, and a lot size of 0 is not reached;
* `checkRisk_total_iff` — the same of a call of `check_risk`.
-/
import TradingEngine.LimitExact

namespace TradingEngine

open FallibleRun RiskEngine

/-! ### One order -/

/-- The risk engine has tables for the venue and the symbol of the order. -/
structure Tabled (re : RiskEngine) (om : OrderManager) (slot : OrderSlot) (v : VenueIndex)
    (i : SymbolSlot) (lim : SymbolLimit) : Prop where
  venue : (om.orderPool slot).venue.index = .ok v
  symbol : symbolSlot (om.orderPool slot).symbolIndex = .ok i
  limit : re.limits.getSymbolLimit v (om.orderPool slot).symbolIndex = .ok lim

/-- The instrument is not in the directory, or is there with lots of 0. -/
def Unusable (om : OrderManager) (v : VenueIndex) (o : Order) : Prop :=
  ∀ m, om.getSymbolmeta v o.instrumentId = some m → m.roundLotSize = 0

/-- The order goes back to the strategy with a reason, and the loop goes on. -/
def RejectsIt (re : RiskEngine) (om : OrderManager) (slot : OrderSlot) (now : UInt64) : Prop :=
  ∃ reason, reason ≠ 0 ∧
    re.checkRiskOrder om slot now = .ok (false, re.pushReject slot reason, om)

/-- An order of a venue whose data cannot be used is rejected. -/
def RejectsUnusable (re : RiskEngine) (om : OrderManager) (slot : OrderSlot) (now : UInt64) :
    Prop :=
  ∀ v, (om.orderPool slot).venue.index = .ok v → Unusable om v (om.orderPool slot) →
    RejectsIt re om slot now

/-- A check before the remainder rejects the order. -/
def RejectedEarly (re : RiskEngine) (om : OrderManager) (slot : OrderSlot) (v : VenueIndex)
    (i : SymbolSlot) (lim : SymbolLimit) (m : SymbolMeta) : Prop :=
  haltReason om v m ≠ none ∨
    (om.orderPool slot).status ≠ .cancelRequest ∧
      ((om.orderPool slot).orderType = .limit ∧
          limitChecks (om.orderPool slot) (re.symbolrisks v i) lim m om.tickSizeEntryPool ≠ 0 ∨
        (om.orderPool slot).quantity < lim.minQty ∨ lim.maxQty < (om.orderPool slot).quantity)

/-- The instrument is known, and its lot size is not 0 or is not looked at. -/
def Covered (re : RiskEngine) (om : OrderManager) (slot : OrderSlot) : Prop :=
  ∀ v i lim, Tabled re om slot v i lim →
    ∃ m, om.getSymbolmeta v (om.orderPool slot).instrumentId = some m ∧
      (m.roundLotSize ≠ 0 ∨ RejectedEarly re om slot v i lim m)

variable {re re' : RiskEngine} {om om' : OrderManager} {slot : OrderSlot} {v : VenueIndex}
  {i : SymbolSlot} {lim : SymbolLimit} {m : SymbolMeta} {now : UInt64}

theorem Tabled.placed (h : Tabled re om slot v i lim)
    (hm : om.getSymbolmeta v (om.orderPool slot).instrumentId = some m) :
    Placed re om slot v i lim m := ⟨h.venue, h.symbol, h.limit, hm⟩

theorem Tabled.checkRiskOrder_unknown (h : Tabled re om slot v i lim)
    (hm : om.getSymbolmeta v (om.orderPool slot).instrumentId = none) :
    re.checkRiskOrder om slot now = .error .nullDereference := by
  simp only [checkRiskOrder, h.venue, h.symbol, h.limit, hm, bind, Except.bind]

/-- A quantity outside its bounds is a reason to reject. -/
theorem mainChecks_of_quantity {o : Order} {sym : SymbolRisk}
    (h : o.quantity < lim.minQty ∨ lim.maxQty < o.quantity) :
    ∃ flags, flags ≠ 0 ∧ re.mainChecks o v sym lim m = .ok flags := by
  obtain ⟨bounds, hbounds, hne⟩ : ∃ bounds,
      checkQuantityBounds o.quantity lim.minQty lim.maxQty m.roundLotSize = .ok bounds ∧
        bounds ≠ 0 := by
    rw [checkQuantityBounds]
    by_cases hmin : o.quantity < lim.minQty
    · rw [if_pos hmin]
      exact ⟨_, rfl, by decide⟩
    · rw [if_neg hmin, if_pos (h.resolve_left hmin)]
      exact ⟨_, rfl, by decide⟩
  rw [mainChecks, hbounds]
  refine ⟨_, ?_, rfl⟩
  simp only [ne_eq, UInt32.or_eq_zero_iff, hne, false_and, not_false_eq_true]

/-- A lot size of 0 that is reached traps. -/
theorem mainChecks_of_zero_lot {o : Order} {sym : SymbolRisk} (hmin : ¬o.quantity < lim.minQty)
    (hmax : ¬lim.maxQty < o.quantity) (hlot : m.roundLotSize = 0) :
    re.mainChecks o v sym lim m = .error .arithmeticTrap := by
  have htrap : checkQuantityBounds o.quantity lim.minQty lim.maxQty m.roundLotSize =
      .error .arithmeticTrap := by
    rw [checkQuantityBounds, if_neg hmin, if_neg hmax, if_pos hlot]
  rw [mainChecks, htrap]
  rfl

theorem rejectsIt_of_rejectedEarly (h : Placed re om slot v i lim m)
    (hearly : RejectedEarly re om slot v i lim m) : RejectsIt re om slot now := by
  cases hr : haltReason om v m with
  | some r => exact ⟨r.flag, haltReason_flag_ne_zero hr, h.checkRiskOrder_halted hr⟩
  | none =>
    obtain ⟨hcancel, hchecks⟩ := hearly.resolve_left (not_not.mpr hr)
    by_cases hlimit : (om.orderPool slot).orderType = .limit →
        limitChecks (om.orderPool slot) (re.symbolrisks v i) lim m om.tickSizeEntryPool = 0
    · have hquantity := hchecks.resolve_left fun hfail => hfail.2 (hlimit hfail.1)
      obtain ⟨flags, hne, hmain⟩ : ∃ flags, flags ≠ 0 ∧
          re.mainChecks (om.orderPool slot) v (re.symbolrisks v i) lim m = .ok flags :=
        mainChecks_of_quantity hquantity
      refine ⟨flags, hne, ?_⟩
      rw [h.checkRiskOrder_other hr hcancel (limitReason_eq_zero hlimit),
        if_neg (not_not.mpr rfl), checkMain, hmain]
      exact if_pos hne
    · obtain ⟨htype, hreason⟩ := not_forall.mp hlimit
      refine ⟨_, hreason, ?_⟩
      rw [h.checkRiskOrder_other hr hcancel (if_pos htype).symm, if_pos hreason]

/-- Within its limits the cancel limiter takes no packet. -/
theorem checkCancelRateLimit_frame (slot : OrderSlot) (h : windowExceeded re v i now = false) :
    (re.checkCancelRateLimit v i slot now).2.rejectOrderPool = re.rejectOrderPool ∧
      (re.checkCancelRateLimit v i slot now).2.limits = re.limits := by
  obtain ⟨hacc, hsym⟩ := Bool.or_eq_false_iff.mp h
  rw [checkCancelRateLimit]
  simp only [hacc, hsym, reasonIf, Bool.false_eq_true, if_false]
  exact ⟨rfl, rfl⟩

/-- A cancel request that passes the halt check is not rejected alone. -/
theorem not_rejectsIt_of_cancel (h : Placed re om slot v i lim m)
    (hr : haltReason om v m = none) (hcancel : (om.orderPool slot).status = .cancelRequest) :
    ¬RejectsIt re om slot now := by
  rintro ⟨reason, -, hok⟩
  rw [h.checkRiskOrder_cancel hr hcancel] at hok
  split at hok
  · exact absurd (congrArg Prod.fst (Except.ok.inj hok)) (by simp)
  · rename_i hwithin
    obtain ⟨hpool, -⟩ := checkCancelRateLimit_frame slot (eq_false_of_ne_true hwithin)
    have hsame : (re.checkCancelRateLimit v i slot now).2 = re.pushReject slot reason :=
      congrArg (fun s => s.2.1) (Except.ok.inj hok)
    rw [hsame] at hpool
    -- a reject takes a packet, the limiter took none
    have hnext : re.rejectOrderPool.next + 1 = re.rejectOrderPool.next :=
      congrArg RingPool.next hpool
    omega

/-- With lots that are not 0 nothing can fault. -/
theorem checkRiskOrder_returns (h : Placed re om slot v i lim m) (hlot : m.roundLotSize ≠ 0) :
    ∃ r, re.checkRiskOrder om slot now = .ok r := by
  cases hr : haltReason om v m with
  | some r => exact ⟨_, h.checkRiskOrder_halted hr⟩
  | none =>
    by_cases hcancel : (om.orderPool slot).status = .cancelRequest
    · rw [h.checkRiskOrder_cancel hr hcancel]
      split
      · exact ⟨_, rfl⟩
      · exact ⟨_, rfl⟩
    · rw [h.checkRiskOrder_other hr hcancel rfl]
      obtain ⟨bounds, hbounds⟩ := checkQuantityBounds_ok (om.orderPool slot).quantity lim.minQty
        lim.maxQty m.roundLotSize fun _ _ => hlot
      obtain ⟨flags, hmain⟩ : ∃ flags,
          re.mainChecks (om.orderPool slot) v (re.symbolrisks v i) lim m = .ok flags := by
        rw [mainChecks, hbounds]
        exact ⟨_, rfl⟩
      rw [checkMain, hmain]
      generalize (if (om.orderPool slot).orderType = .limit then
        limitChecks (om.orderPool slot) (re.symbolrisks v i) lim m om.tickSizeEntryPool
        else 0) = reason
      by_cases hreason : reason = 0
      · rw [if_neg (not_not.mpr hreason)]
        by_cases hflags : flags = 0
        · exact ⟨_, if_neg (not_not.mpr hflags)⟩
        · exact ⟨_, if_pos hflags⟩
      · exact ⟨_, if_pos hreason⟩

/-- **One order.**  The loop body returns, and rejects an order whose data cannot be used,
exactly for a covered one. -/
theorem checkRiskOrder_handles_iff (h : Tabled re om slot v i lim) :
    (∃ r, re.checkRiskOrder om slot now = .ok r) ∧ RejectsUnusable re om slot now ↔
      Covered re om slot := by
  constructor
  · -- of an order that is handled: the instrument is known, and lots of 0 are rejected early
    rintro ⟨⟨r, hok⟩, hreject⟩ v' i' lim' h'
    obtain rfl : v = v' := Except.ok.inj (h.venue.symm.trans h'.venue)
    obtain rfl : i = i' := Except.ok.inj (h.symbol.symm.trans h'.symbol)
    obtain rfl : lim = lim' := Except.ok.inj (h.limit.symm.trans h'.limit)
    cases hm : om.getSymbolmeta v (om.orderPool slot).instrumentId with
    | none =>
      rw [h.checkRiskOrder_unknown hm] at hok
      exact absurd hok (by simp)
    | some m =>
      refine ⟨m, rfl, ?_⟩
      by_cases hlot : m.roundLotSize = 0
      · right
        have hunusable : Unusable om v (om.orderPool slot) := by
          intro m' hm'
          rw [Option.some.inj (hm'.symm.trans hm)]
          exact hlot
        have hrejected := hreject v h.venue hunusable
        have hplaced := h.placed hm
        by_contra hlate
        obtain ⟨hnone, hchecks⟩ := not_or.mp hlate
        have hr : haltReason om v m = none := not_not.mp hnone
        by_cases hcancel : (om.orderPool slot).status = .cancelRequest
        · exact not_rejectsIt_of_cancel hplaced hr hcancel hrejected
        · -- every check before the remainder passes, and the remainder traps
          obtain ⟨hlimit, hquantity⟩ := not_or.mp fun hfail => hchecks ⟨hcancel, hfail⟩
          obtain ⟨hmin, hmax⟩ := not_or.mp hquantity
          have hpass : (om.orderPool slot).orderType = .limit →
              limitChecks (om.orderPool slot) (re.symbolrisks v i) lim m
                om.tickSizeEntryPool = 0 := by
            intro htype
            exact not_not.mp fun hne => hlimit ⟨htype, hne⟩
          rw [hplaced.checkRiskOrder_other hr hcancel (limitReason_eq_zero hpass),
            if_neg (not_not.mpr rfl), checkMain, mainChecks_of_zero_lot hmin hmax hlot] at hok
          cases hok
      · exact .inl hlot
  · -- a covered order is rejected early or passes the remainder
    intro hcovered
    obtain ⟨m, hm, huse⟩ := hcovered v i lim h
    have hplaced := h.placed hm
    by_cases hearly : RejectedEarly re om slot v i lim m
    · have hrejected : RejectsIt re om slot now := rejectsIt_of_rejectedEarly hplaced hearly
      obtain ⟨reason, -, hok⟩ := id hrejected
      exact ⟨⟨_, hok⟩, fun _ _ _ => hrejected⟩
    · have hlot := huse.resolve_right hearly
      refine ⟨?_, fun v' hv' hunusable => ?_⟩
      · exact checkRiskOrder_returns hplaced hlot
      · obtain rfl : v = v' := Except.ok.inj (h.venue.symm.trans hv')
        exact absurd (hunusable m hm) hlot

/-! ### A call -/

/-- The loop goes on with the same store and the same limits. -/
theorem checkRiskOrder_continues (h : Tabled re om slot v i lim)
    (hok : re.checkRiskOrder om slot now = .ok (false, re', om')) :
    om' = om ∧ re'.limits = re.limits := by
  cases hm : om.getSymbolmeta v (om.orderPool slot).instrumentId with
  | none =>
    rw [h.checkRiskOrder_unknown hm] at hok
    cases hok
  | some m =>
    have hplaced := h.placed hm
    cases hr : haltReason om v m with
    | some r =>
      -- halted: the reject is queued
      rw [hplaced.checkRiskOrder_halted hr] at hok
      obtain ⟨-, rfl, rfl⟩ : false = false ∧ re.pushReject slot r.flag = re' ∧ om = om' := by
        simpa using hok
      exact ⟨rfl, rfl⟩
    | none =>
      by_cases hcancel : (om.orderPool slot).status = .cancelRequest
      · -- a cancel request moves its rate limiter
        rw [hplaced.checkRiskOrder_cancel hr hcancel] at hok
        split at hok
        · exact absurd (congrArg Prod.fst (Except.ok.inj hok)) (by simp)
        · rename_i hwithin
          obtain ⟨rfl, rfl⟩ : (re.checkCancelRateLimit v i slot now).2 = re' ∧ om = om' := by
            simpa using hok
          exact ⟨rfl, (checkCancelRateLimit_frame slot (eq_false_of_ne_true hwithin)).2⟩
      · obtain ⟨reason, hreason⟩ : ∃ reason, reason =
            if (om.orderPool slot).orderType = .limit then
              limitChecks (om.orderPool slot) (re.symbolrisks v i) lim m om.tickSizeEntryPool
            else 0 := ⟨_, rfl⟩
        rw [hplaced.checkRiskOrder_other hr hcancel hreason] at hok
        by_cases hzero : reason = 0
        · rw [if_neg (not_not.mpr hzero)] at hok
          obtain ⟨flags, -, hrest⟩ := bind_eq_ok_iff.mp hok
          split at hrest
          · obtain ⟨rfl, rfl⟩ : re.pushReject slot flags = re' ∧ om = om' := by
              simpa using hrest
            exact ⟨rfl, rfl⟩
          · exact absurd (congrArg Prod.fst (Except.ok.inj hrest)) (by simp)
        · rw [if_pos hzero] at hok
          obtain ⟨rfl, rfl⟩ : re.pushReject slot reason = re' ∧ om = om' := by simpa using hok
          exact ⟨rfl, rfl⟩

/-- **A call of `check_risk`.**  It returns and rejects every order it pops whose data
cannot be used, exactly when every order it pops is covered. -/
theorem checkRiskLoop_total_iff {now : ℕ → UInt64} {n : ℕ} {slots : List OrderSlot}
    (htabled : ∀ s ∈ slots, ∃ v i lim, Tabled re om s v i lim) :
    (∃ r, checkRiskLoop now n re om slots = .ok r) ∧
        EveryPopped RejectsUnusable now n re om slots ↔
      EveryPopped (fun re om slot _ => Covered re om slot) now n re om slots := by
  induction slots generalizing n re with
  | nil => exact ⟨fun _ => trivial, fun _ => ⟨⟨_, rfl⟩, trivial⟩⟩
  | cons slot rest ih =>
    obtain ⟨v, i, lim, h⟩ := htabled slot List.mem_cons_self
    let popped : RiskEngine := { re with strategyToRisk := re.strategyToRisk.tail }
    have hpopped : Tabled popped om slot v i lim := ⟨h.venue, h.symbol, h.limit⟩
    have hone : (∃ r, popped.checkRiskOrder om slot (now n) = .ok r) ∧
        RejectsUnusable popped om slot (now n) ↔ Covered popped om slot :=
      checkRiskOrder_handles_iff hpopped
    -- what is behind the order is checked on the same tables
    have hrest : ∀ re' om', popped.checkRiskOrder om slot (now n) = .ok (false, re', om') →
        om' = om ∧ ∀ s ∈ rest, ∃ v i lim, Tabled re' om s v i lim := by
      intro re' om' hok
      obtain ⟨rfl, hlimits⟩ := checkRiskOrder_continues hpopped hok
      refine ⟨rfl, fun s hs => ?_⟩
      obtain ⟨v', i', lim', h'⟩ := htabled s (List.mem_cons_of_mem slot hs)
      exact ⟨v', i', lim', h'.venue, h'.symbol, hlimits ▸ h'.limit⟩
    constructor
    · rintro ⟨⟨r, hloop⟩, hreject, hbehind⟩
      obtain ⟨⟨done, re', om'⟩, hok, hgo⟩ := bind_eq_ok_iff.mp hloop
      refine ⟨hone.mp ⟨⟨_, hok⟩, hreject⟩, fun re₁ om₁ hok₁ => ?_⟩
      obtain ⟨rfl, rfl, rfl⟩ : done = false ∧ re' = re₁ ∧ om' = om₁ := by
        simpa using hok.symm.trans hok₁
      obtain ⟨rfl, hknown⟩ := hrest _ _ hok
      exact (ih hknown).mp ⟨⟨r, hgo⟩, hbehind _ _ hok⟩
    · rintro ⟨hcovered, hbehind⟩
      obtain ⟨⟨⟨done, re', om'⟩, hok⟩, hreject⟩ := hone.mpr hcovered
      have hlater : ∀ re₁ om₁, popped.checkRiskOrder om slot (now n) = .ok (false, re₁, om₁) →
          (∃ r, checkRiskLoop now (n + 1) re₁ om₁ rest = .ok r) ∧
            EveryPopped RejectsUnusable now (n + 1) re₁ om₁ rest := by
        intro re₁ om₁ hok₁
        obtain ⟨rfl, hknown⟩ := hrest _ _ hok₁
        exact (ih hknown).mpr (hbehind _ _ hok₁)
      refine ⟨?_, hreject, fun re₁ om₁ hok₁ => (hlater re₁ om₁ hok₁).2⟩
      cases done with
      | true => exact ⟨_, bind_eq_ok_iff.mpr ⟨_, hok, rfl⟩⟩
      | false =>
        obtain ⟨r, hr⟩ := (hlater re' om' hok).1
        exact ⟨r, bind_eq_ok_iff.mpr ⟨_, hok, hr⟩⟩

theorem checkRisk_total_iff {now : ℕ → UInt64}
    (htabled : ∀ slot ∈ re.strategyToRisk.items, ∃ v i lim, Tabled re om slot v i lim) :
    (∃ r, re.checkRisk om now = .ok r) ∧
        EveryPopped RejectsUnusable now 0 re om re.strategyToRisk.items ↔
      EveryPopped (fun re om slot _ => Covered re om slot) now 0 re om
        re.strategyToRisk.items :=
  checkRiskLoop_total_iff htabled

/-- The instrument 70 is defined by a message; the orders are for `instrument`. -/
def definedStore (roundLotSize instrument : UInt32) : OrderManager :=
  { ({} : OrderManager).handleInstrumentDefinitionBist
      { orderBookId := 70, roundLotSize := roundLotSize, symbol := [65] } with
    orderPool := fun _ =>
      { price := 100, quantity := 10, side := .buy, orderType := .limit
        instrumentId := instrument } }

/-- The engine of `quotedEngine` with one order to check. -/
def oneQueued : RiskEngine := { quotedEngine with strategyToRisk := BoundedQueue.empty.push 7 }

theorem tabled_oneQueued (om : OrderManager) (horder : (om.orderPool 7).venue = .bist)
    (hindex : (om.orderPool 7).symbolIndex = 0) :
    ∀ slot ∈ oneQueued.strategyToRisk.items, ∃ v i lim, Tabled oneQueued om slot v i lim := by
  intro slot hslot
  obtain rfl : slot = 7 := List.mem_singleton.mp hslot
  exact ⟨0, 0, _, by rw [horder]; rfl, by rw [hindex]; rfl, by rw [hindex]; rfl⟩

theorem checkRisk_total_iff_defined :
    (∃ r, oneQueued.checkRisk (definedStore 1 70) (fun _ => 0) = .ok r) ∧
      EveryPopped RejectsUnusable (fun _ => 0) 0 oneQueued (definedStore 1 70)
        oneQueued.strategyToRisk.items := by
  refine (checkRisk_total_iff (tabled_oneQueued _ rfl rfl)).mpr ⟨?_, fun _ _ _ => trivial⟩
  intro v i lim h
  obtain rfl : 0 = v := Except.ok.inj h.venue
  exact ⟨_, rfl, .inl (by decide)⟩

/-- A message with a lot size of 0, or none for the instrument, and a good order brings
`check_risk` down. -/
theorem checkRisk_not_total :
    oneQueued.checkRisk (definedStore 0 70) (fun _ => 0) = .error .arithmeticTrap ∧
      oneQueued.checkRisk (definedStore 1 71) (fun _ => 0) = .error .nullDereference :=
  ⟨rfl, rfl⟩

end TradingEngine
