/-
What becomes of an order that `check_risk` pops.

An order should end in exactly one of `risk_to_builder_` and
`risk_to_strategy_`, there with a reason, and a cancel request that passes the
halt check should be forwarded exactly when neither cancel window is exceeded.
`DisposedOf` says so of one popped order and `Disposes` of every order a call
pops, with the reject packets read at the end of the call.

`check_cancel_rate_limit` returns true when a limit *is* exceeded, and has then
pushed the reject already; `check_risk` takes true for a pass.  So a cancel
request within its limits is dropped and one over them is both rejected and
forwarded.  The other way to lose an order is the remainder by a lot size of 0.

* `checkRisk_disposes_iff` — a call disposes of its orders exactly when none that
  it reaches is such a cancel request or meets a lot size of 0 (`Harmless`);
* `cancel_lost_and_doubled` — both outcomes of the cancel branch.
-/
import TradingEngine.FallibleRun
import TradingEngine.RiskCheck

namespace TradingEngine

open FallibleRun RiskEngine

/-! ### One popped order -/

/-- The builder gets the order and the strategy nothing. -/
def Forwarded (re re' : RiskEngine) (slot : OrderSlot) : Prop :=
  re'.riskToBuilder.items = re.riskToBuilder.items ++ [slot] ∧
    re'.riskToStrategy.items = re.riskToStrategy.items

/-- The strategy gets a packet for the order and the builder nothing; at the end
of the call, in `final`, the packet names the order and a reason. -/
def Rejected (final re re' : RiskEngine) (slot : OrderSlot) : Prop :=
  re'.riskToBuilder.items = re.riskToBuilder.items ∧
    ∃ p reason, re'.riskToStrategy.items = re.riskToStrategy.items ++ [p] ∧
      final.rejectOrderPool.slots p = ⟨some slot, reason⟩ ∧ reason ≠ 0

/-- What the tables have for an order. -/
structure Placed (re : RiskEngine) (om : OrderManager) (slot : OrderSlot) (v : VenueIndex)
    (i : SymbolSlot) (lim : SymbolLimit) (m : SymbolMeta) : Prop where
  venue : (om.orderPool slot).venue.index = .ok v
  symbol : symbolSlot (om.orderPool slot).symbolIndex = .ok i
  limit : re.limits.getSymbolLimit v (om.orderPool slot).symbolIndex = .ok lim
  symbolmeta : om.getSymbolmeta v (om.orderPool slot).instrumentId = some m

/-- One of the two cancel windows is exceeded once the cancel at `now` is
counted. -/
def windowExceeded (re : RiskEngine) (v : VenueIndex) (i : SymbolSlot) (now : UInt64) : Bool :=
  ((re.accountrisks v).cancelratelimit.note now).exceeded ||
    ((re.symbolrisks v i).cancelratelimit.note now).exceeded

/-- The order ends in exactly one of the two queues, and a cancel request that
passes the halt check in the one its windows call for. -/
def DisposedOf (final re : RiskEngine) (om : OrderManager) (slot : OrderSlot) (now : UInt64) :
    Prop :=
  ∃ done re' om', re.checkRiskOrder om slot now = .ok (done, re', om') ∧
    (Forwarded re re' slot ∨ Rejected final re re' slot) ∧
    ∀ v i lim m, Placed re om slot v i lim m → haltReason om v m = none →
      (om.orderPool slot).status = .cancelRequest →
      (Forwarded re re' slot ↔ windowExceeded re v i now = false)

/-- No cancel request that passes the halt check, and no lot size of 0 for an
order that gets as far as the test for it. -/
def Harmless (re : RiskEngine) (om : OrderManager) (slot : OrderSlot) : Prop :=
  ∀ v i lim m, Placed re om slot v i lim m → haltReason om v m = none →
    (om.orderPool slot).status ≠ .cancelRequest ∧
    (((om.orderPool slot).orderType = .limit →
        limitChecks (om.orderPool slot) (re.symbolrisks v i) lim m om.tickSizeEntryPool = 0) →
      lim.minQty ≤ (om.orderPool slot).quantity → (om.orderPool slot).quantity ≤ lim.maxQty →
      m.roundLotSize ≠ 0)

/-- The order passes the halt check, is no cancel request and passes every other
check. -/
def Accepted (re : RiskEngine) (om : OrderManager) (slot : OrderSlot) : Prop :=
  ∃ v i lim m, Placed re om slot v i lim m ∧ haltReason om v m = none ∧
    (om.orderPool slot).status ≠ .cancelRequest ∧
    ((om.orderPool slot).orderType = .limit →
      limitChecks (om.orderPool slot) (re.symbolrisks v i) lim m om.tickSizeEntryPool = 0) ∧
    re.mainChecks (om.orderPool slot) v (re.symbolrisks v i) lim m = .ok 0

variable {re re' final : RiskEngine} {om om' : OrderManager} {slot : OrderSlot} {v : VenueIndex}
  {i : SymbolSlot} {lim : SymbolLimit} {m : SymbolMeta} {now : UInt64}

theorem haltReason_flag_ne_zero {r : RiskRejectReason} (h : haltReason om v m = some r) :
    r.flag ≠ 0 := by
  rw [haltReason] at h
  split at h
  · rw [← Option.some.inj h]
    decide
  · split at h
    · rw [← Option.some.inj h]
      decide
    · split at h
      · rw [← Option.some.inj h]
        decide
      · exact absurd h (by simp)

theorem Placed.checkRiskOrder_halted (h : Placed re om slot v i lim m) {r : RiskRejectReason}
    (hr : haltReason om v m = some r) :
    re.checkRiskOrder om slot now = .ok (false, re.pushReject slot r.flag, om) := by
  simp only [checkRiskOrder, h.venue, h.symbol, h.limit, h.symbolmeta, hr, bind, Except.bind]

theorem Placed.checkRiskOrder_cancel (h : Placed re om slot v i lim m)
    (hr : haltReason om v m = none) (hc : (om.orderPool slot).status = .cancelRequest) :
    re.checkRiskOrder om slot now =
      if windowExceeded re v i now then
        .ok (true, (re.checkCancelRateLimit v i slot now).2.forward om slot)
      else .ok (false, (re.checkCancelRateLimit v i slot now).2, om) := by
  simp only [checkRiskOrder, h.venue, h.symbol, h.limit, h.symbolmeta, hr, hc, bind, Except.bind,
    if_true]
  rfl

theorem Placed.checkRiskOrder_other (h : Placed re om slot v i lim m)
    (hr : haltReason om v m = none) (hc : (om.orderPool slot).status ≠ .cancelRequest)
    {reason : RiskFlags} (hreason : reason = if (om.orderPool slot).orderType = .limit then
      limitChecks (om.orderPool slot) (re.symbolrisks v i) lim m om.tickSizeEntryPool else 0) :
    re.checkRiskOrder om slot now =
      if reason ≠ 0 then .ok (false, re.pushReject slot reason, om)
      else re.checkMain om slot v (re.symbolrisks v i) lim m := by
  simp only [checkRiskOrder, h.venue, h.symbol, h.limit, h.symbolmeta, hr, bind, Except.bind,
    if_neg hc, hreason]

/-- The quantity test faults exactly on a lot size of 0 that it gets to. -/
theorem checkQuantityBounds_ok (qty minQty maxQty roundLotSize : UInt32)
    (h : minQty ≤ qty → qty ≤ maxQty → roundLotSize ≠ 0) :
    ∃ reason, checkQuantityBounds qty minQty maxQty roundLotSize = .ok reason := by
  rw [checkQuantityBounds]
  split
  · exact ⟨_, rfl⟩
  · split
    · exact ⟨_, rfl⟩
    · rename_i hmin hmax
      rw [if_neg (h (UInt32.not_lt.mp hmin) (UInt32.not_lt.mp hmax))]
      exact ⟨_, rfl⟩

/-- The reason the limit-order stage comes to is 0 for an order that passes it. -/
theorem limitReason_eq_zero (hlimit : (om.orderPool slot).orderType = .limit →
      limitChecks (om.orderPool slot) (re.symbolrisks v i) lim m om.tickSizeEntryPool = 0) :
    (0 : RiskFlags) = if (om.orderPool slot).orderType = .limit then
      limitChecks (om.orderPool slot) (re.symbolrisks v i) lim m om.tickSizeEntryPool else 0 := by
  split
  · rename_i htype
    exact (hlimit htype).symm
  · rfl

/-- **A harmless order is rejected with a reason, or accepted and forwarded.** -/
theorem checkRiskOrder_of_harmless (now : UInt64) (h : Placed re om slot v i lim m)
    (hharm : Harmless re om slot) :
    (∃ reason, reason ≠ 0 ∧
      re.checkRiskOrder om slot now = .ok (false, re.pushReject slot reason, om)) ∨
    (re.checkRiskOrder om slot now = .ok (true, re.forward om slot) ∧ Accepted re om slot) := by
  cases hr : haltReason om v m with
  | some r => exact .inl ⟨r.flag, haltReason_flag_ne_zero hr, h.checkRiskOrder_halted hr⟩
  | none =>
    obtain ⟨hc, hlot⟩ := hharm v i lim m h hr
    by_cases hlimit : (om.orderPool slot).orderType = .limit →
        limitChecks (om.orderPool slot) (re.symbolrisks v i) lim m om.tickSizeEntryPool = 0
    · rw [h.checkRiskOrder_other hr hc (limitReason_eq_zero hlimit), if_neg (not_not.mpr rfl)]
      obtain ⟨bounds, hbounds⟩ := checkQuantityBounds_ok (om.orderPool slot).quantity lim.minQty
        lim.maxQty m.roundLotSize (hlot hlimit)
      obtain ⟨flags, hmain⟩ : ∃ flags,
          re.mainChecks (om.orderPool slot) v (re.symbolrisks v i) lim m = .ok flags := by
        rw [mainChecks, hbounds]
        exact ⟨_, rfl⟩
      rw [checkMain, hmain]
      by_cases hflags : flags = 0
      · rw [hflags] at hmain
        exact .inr ⟨if_neg (not_not.mpr hflags), v, i, lim, m, h, hr, hc, hlimit, hmain⟩
      · exact .inl ⟨flags, hflags, if_pos hflags⟩
    · obtain ⟨htype, hreason⟩ := not_forall.mp hlimit
      rw [h.checkRiskOrder_other hr hc (if_pos htype).symm, if_pos hreason]
      exact .inl ⟨_, hreason, rfl⟩

/-- An accepted order is forwarded. -/
theorem checkRiskOrder_of_accepted (now : UInt64) (h : Accepted re om slot) :
    re.checkRiskOrder om slot now = .ok (true, re.forward om slot) := by
  obtain ⟨v, i, lim, m, hplaced, hr, hc, hlimit, hmain⟩ := h
  rw [hplaced.checkRiskOrder_other hr hc (limitReason_eq_zero hlimit), if_neg (not_not.mpr rfl),
    checkMain, hmain]
  rfl

/-! ### What goes wrong -/

/-- The two output queues take what the next `n` orders may need. -/
structure Room (re : RiskEngine) (n : ℕ) : Prop where
  builder : re.riskToBuilder.items.length < 1024
  strategy : re.riskToStrategy.items.length + n ≤ 1024

theorem items_pushReject (re : RiskEngine) (slot : OrderSlot) (reason : RiskFlags)
    (hroom : re.riskToStrategy.items.length < 1024) :
    (re.pushReject slot reason).riskToStrategy.items =
      re.riskToStrategy.items ++ [re.rejectOrderPool.slot] :=
  BoundedQueue.items_push hroom

theorem slots_pushReject (re : RiskEngine) (slot : OrderSlot) (reason : RiskFlags) :
    (re.pushReject slot reason).rejectOrderPool.slots re.rejectOrderPool.slot =
      ⟨some slot, reason⟩ :=
  Function.update_self _ _ _

theorem items_forward (hroom : re.riskToBuilder.items.length < 1024) (om : OrderManager)
    (slot : OrderSlot) :
    (re.forward om slot).1.riskToBuilder.items = re.riskToBuilder.items ++ [slot] :=
  BoundedQueue.items_push hroom

/-- A queue that got an element is not what it was. -/
theorem append_singleton_ne {α : Type} (l : List α) (a : α) : l ++ [a] ≠ l := by
  intro h
  have hlen := congrArg List.length h
  rw [List.length_append, List.length_singleton] at hlen
  omega

/-- Within the limits the cancel limiter pushes nothing. -/
theorem checkCancelRateLimit_within (slot : OrderSlot) (h : windowExceeded re v i now = false) :
    (re.checkCancelRateLimit v i slot now).2.riskToBuilder = re.riskToBuilder ∧
      (re.checkCancelRateLimit v i slot now).2.riskToStrategy = re.riskToStrategy := by
  obtain ⟨hacc, hsym⟩ := Bool.or_eq_false_iff.mp h
  rw [checkCancelRateLimit]
  simp only [hacc, hsym, reasonIf, Bool.false_eq_true, if_false]
  exact ⟨rfl, rfl⟩

/-- Over a limit it pushes a reject. -/
theorem checkCancelRateLimit_over (slot : OrderSlot) (h : windowExceeded re v i now = true)
    (hroom : re.riskToStrategy.items.length < 1024) :
    (re.checkCancelRateLimit v i slot now).2.riskToBuilder = re.riskToBuilder ∧
      (re.checkCancelRateLimit v i slot now).2.riskToStrategy.items ≠
        re.riskToStrategy.items := by
  have hreason : ∀ a b : Bool, (a || b) = true →
      reasonIf (a = true) .maxCancelRateLimitExceededAccount |||
        reasonIf (b = true) .maxCancelRateLimitExceededSymbol ≠ 0 := by decide
  rw [checkCancelRateLimit]
  dsimp only
  rw [if_pos (hreason _ _ h)]
  refine ⟨rfl, ?_⟩
  rw [items_pushReject ((re.setAccount v _).setSymbol v i _) slot _ hroom]
  exact append_singleton_ne _ _

/-- **A cancel request that passes the halt check is never disposed of**: within
the limits it is in neither queue, over them in both. -/
theorem not_disposedOf_cancel (h : Placed re om slot v i lim m) (hroom : Room re 1)
    (hr : haltReason om v m = none) (hc : (om.orderPool slot).status = .cancelRequest) :
    ¬DisposedOf final re om slot now := by
  rintro ⟨done, re', om', hok, hwhere, -⟩
  rw [h.checkRiskOrder_cancel hr hc] at hok
  have hstrategy : re.riskToStrategy.items.length < 1024 := hroom.strategy
  cases hwin : windowExceeded re v i now with
  | true =>
    rw [hwin, if_pos rfl] at hok
    obtain ⟨hbuilder, hpushed⟩ := checkCancelRateLimit_over slot hwin hstrategy
    have hre : re' = ((re.checkCancelRateLimit v i slot now).2.forward om slot).1 :=
      congrArg (fun x => x.2.1) (Except.ok.inj hok).symm
    obtain ⟨-, hsame⟩ | ⟨hsame, -⟩ := hwhere
    · rw [hre] at hsame
      exact hpushed hsame
    · rw [hre, items_forward (by rw [hbuilder]; exact hroom.builder), hbuilder] at hsame
      exact append_singleton_ne _ _ hsame
  | false =>
    rw [hwin] at hok
    obtain ⟨hbuilder, hpushed⟩ := checkCancelRateLimit_within slot hwin
    have hre : re' = (re.checkCancelRateLimit v i slot now).2 :=
      congrArg (fun x => x.2.1) (Except.ok.inj hok).symm
    obtain ⟨hgot, -⟩ | ⟨-, p, reason, hgot, -⟩ := hwhere
    · rw [hre, hbuilder] at hgot
      exact append_singleton_ne _ _ hgot.symm
    · rw [hre, hpushed] at hgot
      exact append_singleton_ne _ _ hgot.symm

/-- An order that is disposed of is harmless. -/
theorem harmless_of_disposedOf (hroom : Room re 1) (hd : DisposedOf final re om slot now) :
    Harmless re om slot := by
  intro v i lim m h hr
  have hc : (om.orderPool slot).status ≠ .cancelRequest := by
    intro hc
    exact not_disposedOf_cancel h hroom hr hc hd
  refine ⟨hc, fun hlimit hmin hmax hlot => ?_⟩
  obtain ⟨done, re', om', hok, -⟩ := hd
  have htrap : checkQuantityBounds (om.orderPool slot).quantity lim.minQty lim.maxQty
      m.roundLotSize = .error .arithmeticTrap := by
    rw [checkQuantityBounds, if_neg (UInt32.not_lt.mpr hmin), if_neg (UInt32.not_lt.mpr hmax),
      if_pos hlot]
  rw [h.checkRiskOrder_other hr hc (limitReason_eq_zero hlimit), if_neg (not_not.mpr rfl),
    checkMain, mainChecks, htrap] at hok
  exact absurd hok (by simp [bind, Except.bind])

/-! ### Calls -/

/-- `P` holds of every order the loop pops, in the state in which it is popped. -/
def EveryPopped (P : RiskEngine → OrderManager → OrderSlot → UInt64 → Prop) (now : ℕ → UInt64) :
    ℕ → RiskEngine → OrderManager → List OrderSlot → Prop
  | _, _, _, [] => True
  | n, re, om, slot :: rest =>
    let popped := { re with strategyToRisk := re.strategyToRisk.tail }
    P popped om slot (now n) ∧ ∀ re' om',
      popped.checkRiskOrder om slot (now n) = .ok (false, re', om') →
      EveryPopped P now (n + 1) re' om' rest

/-- The call returns and every order it pops is disposed of. -/
def Disposes (re : RiskEngine) (om : OrderManager) (now : ℕ → UInt64) : Prop :=
  ∃ done final om', re.checkRisk om now = .ok (done, final, om') ∧
    EveryPopped (DisposedOf final) now 0 re om re.strategyToRisk.items

/-- The tables have what the checks of the order read. -/
def Known (re : RiskEngine) (om : OrderManager) (slot : OrderSlot) : Prop :=
  ∃ v i lim m, Placed re om slot v i lim m

/-- The packets a loop over `k` orders cannot overwrite. -/
def Untouched (re : RiskEngine) (k : ℕ) (p : RejectSlot) : Prop :=
  ∀ j < k, p ≠ Fin.ofNat 1024 (re.rejectOrderPool.next + j)

/-- The slot just written is not among the next 1023. -/
theorem untouched_pushReject (slot : OrderSlot) (reason : RiskFlags) {k : ℕ} (hk : k < 1024) :
    Untouched (re.pushReject slot reason) k re.rejectOrderPool.slot := by
  intro j hj heq
  have hval : re.rejectOrderPool.next % 1024 = (re.rejectOrderPool.next + 1 + j) % 1024 :=
    congrArg Fin.val heq
  omega

theorem slots_pushReject_of_ne (re : RiskEngine) (slot : OrderSlot) (reason : RiskFlags)
    {p : RejectSlot} {k : ℕ} (hp : Untouched re (k + 1) p) :
    (re.pushReject slot reason).rejectOrderPool.slots p = re.rejectOrderPool.slots p ∧
      Untouched (re.pushReject slot reason) k p := by
  constructor
  · exact Function.update_of_ne (hp 0 (by omega)) _ _
  · intro j hj heq
    refine hp (j + 1) (by omega) ?_
    have hnext : (re.pushReject slot reason).rejectOrderPool.next + j =
        re.rejectOrderPool.next + (j + 1) := by
      show re.rejectOrderPool.next + 1 + j = _
      omega
    rw [heq, hnext]

/-- A reject changes nothing in the tables. -/
theorem known_pushReject (h : Known re om slot) (popped : RiskEngine)
    (hlimits : popped.limits = re.limits) (slot' : OrderSlot) (reason : RiskFlags) :
    Known (popped.pushReject slot' reason) om slot := by
  obtain ⟨v, i, lim, m, hplaced⟩ := h
  refine ⟨v, i, lim, m, hplaced.venue, hplaced.symbol, ?_, hplaced.symbolmeta⟩
  show popped.limits.getSymbolLimit v _ = _
  rw [hlimits]
  exact hplaced.limit

/-- A reject takes one place of the room. -/
theorem Room.pushReject {n : ℕ} (h : Room re (n + 1)) (slot : OrderSlot) (reason : RiskFlags) :
    Room (re.pushReject slot reason) n := by
  have hstrategy := h.strategy
  refine ⟨h.builder, ?_⟩
  rw [items_pushReject re slot reason (by omega), List.length_append, List.length_singleton]
  omega

/-- **Harmless orders are disposed of.**  By induction on the queue: a reject
leaves the tables as they are and its packet out of reach of the later ones, a
forwarded order ends the call. -/
theorem everyPopped_of_harmless {now : ℕ → UInt64} {n : ℕ} {slots : List OrderSlot}
    (hknown : ∀ s ∈ slots, Known re om s) (hroom : Room re slots.length)
    (hlen : slots.length ≤ 1024)
    (hharm : EveryPopped (fun re om slot _ => Harmless re om slot) now n re om slots) :
    ∃ done final om', checkRiskLoop now n re om slots = .ok (done, final, om') ∧
      EveryPopped (DisposedOf final) now n re om slots ∧
      ∀ p, Untouched re slots.length p →
        final.rejectOrderPool.slots p = re.rejectOrderPool.slots p := by
  induction slots generalizing n re with
  | nil => exact ⟨false, re, om, rfl, trivial, fun _ _ => rfl⟩
  | cons slot rest ih =>
    obtain ⟨hhead, htail⟩ := hharm
    obtain ⟨v, i, lim, m, hplaced⟩ := hknown slot List.mem_cons_self
    rw [List.length_cons] at hlen hroom
    let popped : RiskEngine := { re with strategyToRisk := re.strategyToRisk.tail }
    have hpoppedRoom : Room popped (rest.length + 1) := ⟨hroom.builder, hroom.strategy⟩
    have hpopped : Placed popped om slot v i lim m := ⟨hplaced.1, hplaced.2, hplaced.3, hplaced.4⟩
    obtain ⟨reason, hreason, hok⟩ | ⟨hok, -, -, -, -, -, -, hnoCancel, -⟩ :=
      checkRiskOrder_of_harmless (now n) hpopped hhead
    · -- rejected: the loop goes on
      -- the queue has room for this reject and one for each order behind it
      have hfree : popped.riskToStrategy.items.length < 1024 := by
        have hstrategy := hpoppedRoom.strategy
        omega
      have hknown' : ∀ s ∈ rest, Known (popped.pushReject slot reason) om s := by
        intro s hs
        exact known_pushReject (hknown s (List.mem_cons_of_mem slot hs)) popped rfl slot reason
      obtain ⟨done, final, om', hloop, hevery, hkept⟩ :=
        ih hknown' (hpoppedRoom.pushReject slot reason) (by omega) (htail _ _ hok)
      refine ⟨done, final, om', ?_, ⟨?_, ?_⟩, ?_⟩
      · rw [checkRiskLoop, hok]
        exact hloop
      · refine ⟨false, popped.pushReject slot reason, om, hok, .inr ⟨rfl, ?_⟩, ?_⟩
        · refine ⟨popped.rejectOrderPool.slot, reason, ?_, ?_, hreason⟩
          · exact items_pushReject popped slot reason hfree
          · rw [hkept _ (untouched_pushReject slot reason (by omega)), slots_pushReject]
        · intro v' i' lim' m' hp' hr' hc'
          exact absurd hc' (hhead v' i' lim' m' hp' hr').1
      · intro re' om'' hok'
        rw [hok] at hok'
        obtain ⟨rfl, rfl⟩ := Prod.mk.inj (Prod.mk.inj (Except.ok.inj hok')).2
        exact hevery
      · intro p hp
        obtain ⟨hsame, hp'⟩ := slots_pushReject_of_ne popped slot reason hp
        rw [hkept p hp', hsame]
    · -- forwarded: the call returns
      refine ⟨true, (popped.forward om slot).1, (popped.forward om slot).2, ?_, ⟨?_, ?_⟩, ?_⟩
      · rw [checkRiskLoop, hok]
        rfl
      · refine ⟨true, _, _, hok, .inl ⟨items_forward hroom.builder om slot, rfl⟩, ?_⟩
        intro v' i' lim' m' hp' hr' hc'
        exact absurd hc' hnoCancel
      · intro re' om'' hok'
        rw [hok] at hok'
        exact absurd (Prod.mk.inj (Except.ok.inj hok')).1 (by simp)
      · intro p _
        rfl

/-- Orders that are disposed of are harmless. -/
theorem harmless_of_everyPopped {now : ℕ → UInt64} {n : ℕ} {slots : List OrderSlot}
    (hknown : ∀ s ∈ slots, Known re om s) (hroom : Room re slots.length)
    (hevery : EveryPopped (DisposedOf final) now n re om slots) :
    EveryPopped (fun re om slot _ => Harmless re om slot) now n re om slots := by
  induction slots generalizing n re with
  | nil => trivial
  | cons slot rest ih =>
    obtain ⟨hhead, htail⟩ := hevery
    rw [List.length_cons] at hroom
    let popped : RiskEngine := { re with strategyToRisk := re.strategyToRisk.tail }
    have hpoppedRoom : Room popped (rest.length + 1) := ⟨hroom.builder, hroom.strategy⟩
    have hroom₁ : Room popped 1 := by
      have hstrategy := hpoppedRoom.strategy
      exact ⟨hroom.builder, by omega⟩
    have hharm : Harmless popped om slot := harmless_of_disposedOf hroom₁ hhead
    refine ⟨hharm, fun re' om' hok => ?_⟩
    obtain ⟨v, i, lim, m, hplaced⟩ := hknown slot List.mem_cons_self
    have hpopped : Placed popped om slot v i lim m := ⟨hplaced.1, hplaced.2, hplaced.3, hplaced.4⟩
    -- the loop goes on only after a reject
    obtain ⟨reason, -, hok'⟩ | ⟨hok', -⟩ := checkRiskOrder_of_harmless (now n) hpopped hharm
    · have hboth := hok'.symm.trans hok
      obtain ⟨rfl, rfl⟩ := Prod.mk.inj (Prod.mk.inj (Except.ok.inj hboth)).2
      have hknown' : ∀ s ∈ rest, Known (popped.pushReject slot reason) om s := by
        intro s hs
        exact known_pushReject (hknown s (List.mem_cons_of_mem slot hs)) popped rfl slot reason
      exact ih hknown' (hpoppedRoom.pushReject slot reason) (htail _ _ hok)
    · have hboth := hok'.symm.trans hok
      exact absurd (Prod.mk.inj (Except.ok.inj hboth)).1 (by simp)

/-- What the static conditions read: the limits, the accounts and symbols and the
self-trade index. -/
structure SameChecks (re re' : RiskEngine) : Prop where
  limits : re'.limits = re.limits
  symbolrisks : re'.symbolrisks = re.symbolrisks
  mainChecks : re'.mainChecks = re.mainChecks

theorem SameChecks.placed_iff (h : SameChecks re re') :
    Placed re' om slot v i lim m ↔ Placed re om slot v i lim m := by
  constructor
  · rintro ⟨h₁, h₂, h₃, h₄⟩
    exact ⟨h₁, h₂, h.limits ▸ h₃, h₄⟩
  · rintro ⟨h₁, h₂, h₃, h₄⟩
    exact ⟨h₁, h₂, h.limits ▸ h₃, h₄⟩

theorem SameChecks.harmless_iff (h : SameChecks re re') :
    Harmless re' om slot ↔ Harmless re om slot := by
  simp only [Harmless, h.placed_iff, h.symbolrisks]

theorem SameChecks.accepted_iff (h : SameChecks re re') :
    Accepted re' om slot ↔ Accepted re om slot := by
  simp only [Accepted, h.placed_iff, h.symbolrisks, h.mainChecks]

/-- An order is reached when no order before it is accepted. -/
def EveryReachedHarmless (re : RiskEngine) (om : OrderManager) (slots : List OrderSlot) : Prop :=
  ∀ before slot behind, slots = before ++ slot :: behind → (∀ s ∈ before, ¬Accepted re om s) →
    Harmless re om slot

/-- Rejects leave what the checks read, so the orders the loop pops are those the
state at the start of the call lets it reach. -/
theorem everyPopped_harmless_iff {now : ℕ → UInt64} {n : ℕ} {slots : List OrderSlot}
    (hknown : ∀ s ∈ slots, Known re om s) :
    EveryPopped (fun re om slot _ => Harmless re om slot) now n re om slots ↔
      EveryReachedHarmless re om slots := by
  induction slots generalizing n re with
  | nil =>
    refine ⟨fun _ before slot behind h => ?_, fun _ => trivial⟩
    exact absurd h (by simp)
  | cons slot rest ih =>
    let popped : RiskEngine := { re with strategyToRisk := re.strategyToRisk.tail }
    have hpopped : SameChecks re popped := ⟨rfl, rfl, rfl⟩
    have hknown' : ∀ reason, ∀ s ∈ rest, Known (popped.pushReject slot reason) om s :=
      fun reason s hs =>
        known_pushReject (hknown s (List.mem_cons_of_mem slot hs)) popped rfl slot reason
    -- popping and rejecting change only the queues and the packet pool
    have hreject : ∀ reason, SameChecks re (popped.pushReject slot reason) :=
      fun reason => ⟨rfl, rfl, rfl⟩
    obtain ⟨v, i, lim, m, hplaced⟩ := hknown slot List.mem_cons_self
    have hplaced' := hpopped.placed_iff.mpr hplaced
    constructor
    · rintro ⟨hhead, htail⟩ before s behind hsplit hbefore
      cases before with
      | nil =>
        obtain ⟨rfl, -⟩ := List.cons.inj hsplit
        exact hpopped.harmless_iff.mp hhead
      | cons b before =>
        obtain ⟨rfl, hrest⟩ := List.cons.inj hsplit
        obtain ⟨reason, -, hok⟩ | ⟨-, hacc⟩ := checkRiskOrder_of_harmless (now n) hplaced' hhead
        · rw [← (hreject reason).harmless_iff]
          refine (ih (hknown' reason)).mp (htail _ _ hok) before s behind hrest fun t ht => ?_
          rw [(hreject reason).accepted_iff]
          exact hbefore t (List.mem_cons_of_mem _ ht)
        · exact absurd (hpopped.accepted_iff.mp hacc) (hbefore slot List.mem_cons_self)
    · intro h
      have hhead : Harmless popped om slot :=
        hpopped.harmless_iff.mpr (h [] slot rest rfl fun _ ht => absurd ht (by simp))
      refine ⟨hhead, fun re' om' hok => ?_⟩
      obtain ⟨reason, -, hok'⟩ | ⟨hok', -⟩ := checkRiskOrder_of_harmless (now n) hplaced' hhead
      · -- had it been accepted, the loop would not have gone on
        have hrejected : ¬Accepted re om slot := by
          intro hacc
          have hforward := checkRiskOrder_of_accepted (now n) (hpopped.accepted_iff.mpr hacc)
          have hboth := hforward.symm.trans hok
          exact absurd (Prod.mk.inj (Except.ok.inj hboth)).1 (by simp)
        have hboth := hok'.symm.trans hok
        obtain ⟨rfl, rfl⟩ := Prod.mk.inj (Prod.mk.inj (Except.ok.inj hboth)).2
        refine (ih (hknown' reason)).mpr fun before s behind hsplit hbefore => ?_
        rw [(hreject reason).harmless_iff]
        refine h (slot :: before) s behind (by rw [hsplit, List.cons_append]) fun t ht => ?_
        obtain rfl | ht := List.mem_cons.mp ht
        · exact hrejected
        · rw [← (hreject reason).accepted_iff]
          exact hbefore t ht
      · have hboth := hok'.symm.trans hok
        exact absurd (Prod.mk.inj (Except.ok.inj hboth)).1 (by simp)

/-- **Disposition of the orders of a call.**  For every queue of orders the tables
know, every state and every clock, with room in the output queues: each popped
order ends in exactly one of them as it should iff every order that is reached is
harmless. -/
theorem checkRisk_disposes_iff (re : RiskEngine) (om : OrderManager) (now : ℕ → UInt64)
    (hknown : ∀ slot ∈ re.strategyToRisk.items, Known re om slot)
    (hroom : Room re re.strategyToRisk.items.length) :
    Disposes re om now ↔ EveryReachedHarmless re om re.strategyToRisk.items := by
  rw [← everyPopped_harmless_iff (n := 0) hknown]
  constructor
  · rintro ⟨done, final, om', -, hevery⟩
    exact harmless_of_everyPopped hknown hroom hevery
  · intro hharm
    obtain ⟨done, final, om', hok, hevery, -⟩ :=
      everyPopped_of_harmless hknown hroom re.strategyToRisk.bounded hharm
    exact ⟨done, final, om', hok, hevery⟩

/-- A store that knows one instrument and holds two orders for it: a limit order
in slot 7 and a market order in slot 8. -/
def twoOrders : OrderManager :=
  { instrumentCache := fun _ =>
      (∅ : HashMap UInt32 SymbolMeta).insert 0 { instrumentId := 0, roundLotSize := 1 }
    orderPool := fun s =>
      if s = 7 then { price := 100, quantity := 10, side := .buy, orderType := .limit }
      else { quantity := 10, side := .buy, orderType := .market } }

/-- The store of `twoOrders` when both slots hold cancel requests. -/
def twoCancels : OrderManager :=
  { twoOrders with
    orderPool := fun _ => { quantity := 10, side := .buy, status := .cancelRequest } }

/-- An engine with one symbol, `maxCancels` cancels a second and the given
queue. -/
def oneSymbol (maxCancels : UInt32) (queue : SpscQueue OrderSlot) : RiskEngine :=
  { strategyToRisk := queue
    accountrisks := fun _ => { cancelratelimit := { maxCancelsPerSec := maxCancels } }
    symbolrisks := fun _ _ => { cancelratelimit := { maxCancelsPerSec := maxCancels } }
    limits :=
      { symbolLimits := fun _ =>
          [{ minQty := 1, maxQty := 100, maxOpenOrders := 5, maxPositionScaled := 1000
             maxExposureScaled := 100000, maxOrderNotionalScaled := 100000 }]
        accountLimits := fun _ =>
          { maxNotional := 100000, maxDailyLoss := 100000, maxUnrealizedLoss := 100000
            maxLeverage := 100000, maxOpenOrders := 5 } } }

theorem harmless_twoOrders (re : RiskEngine) {slot : OrderSlot} (h : slot = 7 ∨ slot = 8) :
    Harmless re twoOrders slot := by
  intro v i lim m hplaced hr
  have hm : some { instrumentId := 0, roundLotSize := 1 } = some m := by
    have hmeta := hplaced.symbolmeta
    obtain rfl | rfl := h
    · exact hmeta
    · exact hmeta
  rw [← Option.some.inj hm]
  obtain rfl | rfl := h
  · exact ⟨by decide, fun _ _ _ => by decide⟩
  · exact ⟨by decide, fun _ _ _ => by decide⟩

/-- The limit order has no market data and is rejected, the market order is
forwarded. -/
theorem checkRisk_disposes_iff_twoOrders :
    Disposes (oneSymbol 5 ((BoundedQueue.empty.push 7).push 8)) twoOrders fun _ => 0 := by
  have hmem : ∀ slot ∈ (oneSymbol 5 ((BoundedQueue.empty.push 7).push 8)).strategyToRisk.items,
      slot = 7 ∨ slot = 8 := by
    intro slot hslot
    have hpair : slot ∈ [7, 8] := hslot
    exact List.mem_pair.mp hpair
  refine (checkRisk_disposes_iff _ _ _ ?_ ⟨by decide, by decide⟩).mpr ?_
  · intro slot hslot
    obtain rfl | rfl := hmem slot hslot
    · exact ⟨0, 0, _, _, rfl, rfl, rfl, rfl⟩
    · exact ⟨0, 0, _, _, rfl, rfl, rfl, rfl⟩
  · intro before slot behind hsplit _
    refine harmless_twoOrders _ (hmem slot ?_)
    rw [hsplit]
    exact List.mem_append_right before List.mem_cons_self

/-- The outcome of a call on a queue with the cancel request in slot 7. -/
def afterCancel (maxCancels : UInt32) : RiskEngine :=
  (((oneSymbol maxCancels (BoundedQueue.empty.push 7)).checkRisk twoCancels fun _ => 0).map
    fun s => s.2.1).toOption.getD default

/-- The tables know the cancel request and the output queues are empty. -/
theorem twoCancels_known_room (maxCancels : UInt32) (queue : SpscQueue OrderSlot) :
    Known (oneSymbol maxCancels queue) twoCancels 7 ∧ Room (oneSymbol maxCancels queue) 1 := by
  refine ⟨⟨0, 0, _, _, rfl, rfl, rfl, rfl⟩, ?_, ?_⟩
  · show 0 < 1024
    omega
  · show 0 + 1 ≤ 1024
    omega

/-- **The cancel branch is the wrong way round.**  With five cancels a second
allowed, the first one is dropped; with none allowed, it is rejected and sent to
the exchange as well. -/
theorem cancel_lost_and_doubled :
    (Known (oneSymbol 5 (BoundedQueue.empty.push 7)) twoCancels 7 ∧
      Room (oneSymbol 5 (BoundedQueue.empty.push 7)) 1 ∧
      ¬Disposes (oneSymbol 5 (BoundedQueue.empty.push 7)) twoCancels (fun _ => 0) ∧
      windowExceeded (oneSymbol 5 (BoundedQueue.empty.push 7)) 0 0 0 = false ∧
      (afterCancel 5).riskToBuilder.items = [] ∧ (afterCancel 5).riskToStrategy.items = []) ∧
    (Known (oneSymbol 0 (BoundedQueue.empty.push 7)) twoCancels 7 ∧
      Room (oneSymbol 0 (BoundedQueue.empty.push 7)) 1 ∧
      ¬Disposes (oneSymbol 0 (BoundedQueue.empty.push 7)) twoCancels (fun _ => 0) ∧
      windowExceeded (oneSymbol 0 (BoundedQueue.empty.push 7)) 0 0 0 = true ∧
      (afterCancel 0).riskToBuilder.items = [7] ∧ (afterCancel 0).riskToStrategy.items = [0]) := by
  have hnot : ∀ maxCancels, ¬Disposes (oneSymbol maxCancels (BoundedQueue.empty.push 7)) twoCancels
      fun _ => 0 := by
    rintro maxCancels ⟨done, final, om', -, hdisposed, -⟩
    obtain ⟨-, hroom⟩ := twoCancels_known_room maxCancels .empty
    have hplaced : Placed (oneSymbol maxCancels .empty) twoCancels 7 0 0 _ _ :=
      ⟨rfl, rfl, rfl, rfl⟩
    exact not_disposedOf_cancel hplaced hroom rfl rfl hdisposed
  obtain ⟨hknown₅, hroom₅⟩ := twoCancels_known_room 5 (BoundedQueue.empty.push 7)
  obtain ⟨hknown₀, hroom₀⟩ := twoCancels_known_room 0 (BoundedQueue.empty.push 7)
  exact ⟨⟨hknown₅, hroom₅, hnot 5, rfl, rfl, rfl⟩, hknown₀, hroom₀, hnot 0, rfl, rfl, rfl⟩

end TradingEngine
