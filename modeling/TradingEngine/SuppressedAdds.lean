/-
Market adds that look like own orders (`OrderManager::is_matched_pending_order`,
`OrderManager::add_awaitingAck_order`).

An order that is sent enters `awaitingAck_orders_` and the ring of its venue, both rings
sharing one counter.  An answer takes it out of the map; the ring keeps it until a later
order of the venue falls on its place.  `update_order` drops an add when the map is not
empty and an order of the ring matches: it does not ask whether that order is still
awaited.

* `pendingOrders_update` — no message writes a ring;
* `PendingRun.recorded` — in every state of a run each place of a ring holds the last
  order entered there;
* `onlyAwaitedHidden_iff` — when an add is hidden by an awaited order only.
-/
import TradingEngine.AwaitingAck
import TradingEngine.MaskFrame
import TradingEngine.RingLog

namespace TradingEngine

open FallibleRun OrderManager RingLog

/-! ### No message writes a ring -/

/-- The market handlers leave the rings alone. -/
theorem marketWrites_pendingOrders :
    MarketWrites fun om om' => om'.pendingOrders = om.pendingOrders where
  trans h h' := h'.trans h
  rest h _ _ _ := h
  write _ _ _ _ _ := rfl
  queue _ h _ _ _ := h

namespace OwnManager

variable {hash : List UInt8 → UInt64} {om om' : OwnManager} {slot : OrderSlot} {d : DbData}

theorem pendingOrders_addOurOrder {k : OrderKey} (h : om.addOurOrder slot k = .ok om') :
    om'.pendingOrders = om.pendingOrders := by
  obtain ⟨om₁, histories, hsweep, rfl⟩ := addOurOrder_cases h
  obtain ⟨-, rfl⟩ | ⟨-, next, hnext, histories, -, rfl⟩ := sweep_cases hsweep
  · rfl
  · rfl

theorem pendingOrders_unlessDeferred {handle : OwnManager → Except Fault OwnManager}
    (hhandle : handle om = .ok om' → om'.pendingOrders = om.pendingOrders)
    (h : om.unlessDeferred slot d handle = .ok om') : om'.pendingOrders = om.pendingOrders := by
  obtain ⟨-, rfl⟩ | ⟨-, hhandled⟩ := unlessDeferred_cases h
  · rfl
  · exact hhandle hhandled

theorem pendingOrders_handleFix {id : UInt64} {m : FIXMessage}
    (h : handleFix hash om slot id m = .ok om') : om'.pendingOrders = om.pendingOrders := by
  obtain ⟨-, -, filled, -, rfl⟩ | ⟨-, -, rfl⟩ | ⟨-, rfl⟩ | ⟨-, -, rfl⟩ := handleFix_cases h
  · rfl
  · rfl
  · rfl
  · rfl

theorem pendingOrders_updateOrderFix {m : FIXMessage} (h : updateOrderFix hash om m = .ok om') :
    om'.pendingOrders = om.pendingOrders := by
  obtain ⟨id, -, hcase⟩ := updateOrderFix_cases h
  obtain ⟨slot, -, hhandled⟩ | ⟨-, -, rfl⟩ | ⟨slot, -, -, -, rfl⟩ |
    ⟨slot, om₁, -, -, -, hadd, hhandled⟩ := hcase
  · exact pendingOrders_unlessDeferred pendingOrders_handleFix hhandled
  · rfl
  · rfl
  · have hhandler := pendingOrders_unlessDeferred pendingOrders_handleFix hhandled
    exact hhandler.trans (pendingOrders_addOurOrder hadd)

theorem pendingOrders_onBistOuchKey {acknowledges : Bool} {k : OrderKey} {token : List UInt8}
    {fill : OwnManager → OrderSlot → OwnManager}
    (h : onBistOuchKey hash om acknowledges k token d fill = .ok om')
    (hfill : ∀ (om : OwnManager) slot, (fill om slot).pendingOrders = om.pendingOrders) :
    om'.pendingOrders = om.pendingOrders := by
  obtain ⟨slot, -, hhandled⟩ | ⟨-, -, rfl⟩ | ⟨slot, om₁, tokens, -, -, hadd, -, rfl⟩ :=
    onBistOuchKey_cases h
  · refine pendingOrders_unlessDeferred (fun hok => ?_) hhandled
    rw [← Except.ok.inj hok]
    exact hfill om slot
  · rfl
  · have hadded := pendingOrders_addOurOrder hadd
    exact (hfill _ slot).trans hadded

theorem pendingOrders_onBistOuchToken {token : List UInt8}
    {finish : OwnManager → OrderSlot → OwnManager}
    (h : onBistOuchToken hash om token d finish = .ok om')
    (hfinish : ∀ (om : OwnManager) slot, (finish om slot).pendingOrders = om.pendingOrders) :
    om'.pendingOrders = om.pendingOrders := by
  obtain ⟨slot, -, hhandled⟩ | ⟨-, -, rfl⟩ | ⟨slot, -, -, rfl⟩ := onBistOuchToken_cases h
  · refine pendingOrders_unlessDeferred (fun hok => ?_) hhandled
    rw [← Except.ok.inj hok]
    exact hfinish om slot
  · rfl
  · exact hfinish _ slot

theorem pendingOrders_onNasdaqOuchAwaited {orderId : UInt64} {side : UInt8}
    {clOrdId : List UInt8} {fill : OwnManager → OrderSlot → OwnManager}
    (h : onNasdaqOuchAwaited hash om orderId side clOrdId d fill = .ok om')
    (hfill : ∀ (om : OwnManager) slot, (fill om slot).pendingOrders = om.pendingOrders) :
    om'.pendingOrders = om.pendingOrders := by
  obtain ⟨-, rfl⟩ | ⟨slot, om₁, k, refs, -, -, hadd, -, rfl⟩ := onNasdaqOuchAwaited_cases h
  · rfl
  · have hadded := pendingOrders_addOurOrder hadd
    exact (hfill _ slot).trans hadded

theorem pendingOrders_onNasdaqOuchRef {userRefNum : UInt32}
    {finish : OwnManager → OrderSlot → OwnManager}
    (h : onNasdaqOuchRef om userRefNum d finish = .ok om')
    (hfinish : ∀ (om : OwnManager) slot, (finish om slot).pendingOrders = om.pendingOrders) :
    om'.pendingOrders = om.pendingOrders := by
  obtain ⟨k, slot, -, -, hhandled⟩ := onNasdaqOuchRef_cases h
  refine pendingOrders_unlessDeferred (fun hok => ?_) hhandled
  rw [← Except.ok.inj hok]
  exact hfinish om slot

theorem pendingOrders_fillOuchRejected (om : OwnManager) (slot : OrderSlot) (timestamp : UInt64) :
    (om.fillOuchRejected slot timestamp).pendingOrders = om.pendingOrders := by
  unfold fillOuchRejected
  simp only
  split
  · rfl
  · rfl

theorem pendingOrders_updateOrderBistOuch {msg : Bist.OuchMessage}
    (h : updateOrderBistOuch hash om msg = .ok om') : om'.pendingOrders = om.pendingOrders := by
  cases msg with
  | accepted m =>
    simp only [updateOrderBistOuch] at h
    exact pendingOrders_onBistOuchKey h fun _ _ => rfl
  | replaced m => exact pendingOrders_onBistOuchKey h fun _ _ => rfl
  | cancelled m => exact pendingOrders_onBistOuchKey h fun _ _ => rfl
  | executed m => exact pendingOrders_onBistOuchToken h fun _ _ => rfl
  | rejected m =>
    exact pendingOrders_onBistOuchToken h fun om slot =>
      pendingOrders_fillOuchRejected om slot m.timestamp

theorem pendingOrders_updateOrderNasdaqOuch {msg : Nasdaq.OuchMessage}
    (h : updateOrderNasdaqOuch hash om msg = .ok om') : om'.pendingOrders = om.pendingOrders := by
  cases msg with
  | accepted m =>
    simp only [updateOrderNasdaqOuch] at h
    exact pendingOrders_onNasdaqOuchAwaited h fun _ _ => rfl
  | replaced m =>
    obtain ⟨fill, rfl, locate, k, -, -, hcase⟩ := ouchReplaced_cases h
    obtain ⟨slot, -, hhandled⟩ | ⟨-, hawaited⟩ := hcase
    · refine pendingOrders_unlessDeferred (fun hok => ?_) hhandled
      rw [← Except.ok.inj hok]
      rfl
    · exact pendingOrders_onNasdaqOuchAwaited hawaited fun _ _ => rfl
  | rejected m =>
    obtain ⟨-, rfl⟩ | ⟨slot, -, rfl⟩ := ouchRejected_cases h
    · rfl
    · exact pendingOrders_fillOuchRejected _ slot m.timestamp
  | cancelled m => exact pendingOrders_onNasdaqOuchRef h fun _ _ => rfl
  | executed m => exact pendingOrders_onNasdaqOuchRef h fun _ _ => rfl
  | modified m => exact pendingOrders_onNasdaqOuchRef h fun _ _ => rfl
  | brokenTrade m => exact pendingOrders_onNasdaqOuchRef h fun _ _ => rfl
  | cancelPending m => exact pendingOrders_onNasdaqOuchRef h fun _ _ => rfl
  | cancelReject m => exact pendingOrders_onNasdaqOuchRef h fun _ _ => rfl
  | systemEvent =>
    rw [← Except.ok.inj h]
    rfl
  | accountQueryResponse =>
    rw [← Except.ok.inj h]
    rfl

/-- **No message writes a ring.** -/
theorem pendingOrders_update {msg : StoreMessage} (h : update hash om msg = .ok om') :
    om'.pendingOrders = om.pendingOrders := by
  cases msg with
  | fix m => exact pendingOrders_updateOrderFix h
  | fixSession m =>
    rw [← Except.ok.inj h]
    rfl
  | bistItch m =>
    obtain ⟨market, hmarket, rfl⟩ := map_eq_ok_iff.mp h
    exact marketWrites_pendingOrders.updateOrderBist hmarket
  | nasdaqItch m =>
    obtain ⟨market, hmarket, rfl⟩ := map_eq_ok_iff.mp h
    exact marketWrites_pendingOrders.updateOrderNasdaq hmarket
  | bistOuch m => exact pendingOrders_updateOrderBistOuch h
  | nasdaqOuch m => exact pendingOrders_updateOrderNasdaqOuch h

end OwnManager

/-! ### The rings over a run -/

/-- `calls` only records the calls of `add_awaitingAck_order`: ring and order. -/
structure PendingRun where
  system : AwaitingSystem := {}
  calls : List (VenueIndex × OrderSlot) := []

namespace PendingRun

/-- The call of `add_awaitingAck_order` that an event makes. -/
def entered (s : AwaitingSystem) : AwaitingEvent → Option (VenueIndex × OrderSlot)
  | .dispatch slot =>
    if (s.om.orderPool slot).orderId = 0 then
      match (s.om.orderPool slot).venue.index with
      | .ok v => some (v, slot)
      | .error _ => none
    else none
  | _ => none

/-- The other threads write orders, but no ring. -/
def keepingRings (s : AwaitingSystem) : AwaitingEvent → AwaitingEvent
  | .others om => .others { om with pendingOrders := s.om.pendingOrders }
  | e => e

def step (hash : List UInt8 → UInt64) (start : UInt64 → ℕ) (r : PendingRun) (e : AwaitingEvent) :
    Except Fault PendingRun :=
  (AwaitingSystem.step hash start r.system (keepingRings r.system e)).map fun s =>
    { system := s, calls := r.calls ++ (entered r.system e).toList }

/-- The order manager of the run. -/
def om (r : PendingRun) : OrderManager := r.system.om.toOrderManager

/-- The rings hold what the calls have written, and the counter is their number. -/
structure Recorded (r : PendingRun) : Prop where
  next : r.system.pendingNextSlot = r.calls.length
  rings : Records r.om.pendingOrders r.calls

variable {hash : List UInt8 → UInt64} {start : UInt64 → ℕ} {r r' : PendingRun}

theorem recorded_start {om : OwnManager} (hom : ∀ v j, om.pendingOrders v j = none) :
    Recorded { system := { om := om } } := by
  refine ⟨rfl, ?_⟩
  have hempty : om.pendingOrders = fun _ _ => none := funext fun v => funext fun j => hom v j
  show Records om.pendingOrders []
  rw [hempty]
  exact records_empty

theorem recorded_dispatch (h : r.Recorded) {slot : OrderSlot} {s : AwaitingSystem}
    (hs : r.system.dispatch start slot = .ok s) :
    Recorded { system := s, calls := r.calls ++ (entered r.system (.dispatch slot)).toList } := by
  obtain ⟨v, built, hv, rfl, ⟨hzero, rfl⟩ | ⟨hacked, rfl⟩⟩ := AwaitingSystem.dispatch_cases hs
  · have hcall : entered r.system (.dispatch slot) = some (v, slot) := by
      simp only [entered, if_pos hzero, hv]
    rw [hcall]
    refine ⟨?_, ?_⟩
    · show r.system.pendingNextSlot + 1 = (r.calls ++ [(v, slot)]).length
      rw [h.next, List.length_append, List.length_singleton]
    · refine h.rings.write v slot ?_
      show r.system.pendingNextSlot % 64 = r.calls.length % 64
      rw [h.next]
  -- an order with an exchange id is entered nowhere
  · have hcall : entered r.system (.dispatch slot) = none := if_neg hacked
    rw [hcall, Option.toList_none, List.append_nil]
    exact ⟨h.next, h.rings⟩

/-- **One step keeps the record.** -/
theorem recorded_step (h : r.Recorded) {e : AwaitingEvent} (hs : r.step hash start e = .ok r') :
    r'.Recorded := by
  obtain ⟨s, hstep, rfl⟩ := map_eq_ok_iff.mp hs
  cases e with
  | dispatch slot => exact recorded_dispatch h hstep
  | store msg =>
    obtain ⟨om, hom, rfl⟩ := map_eq_ok_iff.mp hstep
    -- an answer changes the map, not the rings
    have hrings := OwnManager.pendingOrders_update hom
    refine ⟨?_, ?_⟩
    · exact h.next.trans (congrArg List.length (List.append_nil r.calls).symm)
    · show Records om.pendingOrders (r.calls ++ [])
      rw [hrings, List.append_nil]
      exact h.rings
  | others om =>
    rw [← Except.ok.inj hstep]
    refine ⟨?_, ?_⟩
    · exact h.next.trans (congrArg List.length (List.append_nil r.calls).symm)
    · show Records r.system.om.pendingOrders (r.calls ++ [])
      rw [List.append_nil]
      exact h.rings

/-- **The rings hold the last order entered at each place**, in every state of a run. -/
theorem recorded {om : OwnManager} (hom : ∀ v j, om.pendingOrders v j = none)
    {es : List AwaitingEvent}
    (hrun : exec (step hash start) { system := { om := om } } es = .ok r) : r.Recorded :=
  exec_inv (fun _ _ _ h hs => recorded_step h hs) (recorded_start hom) hrun

end PendingRun

/-! ### The adds -/

/-- The adds that `update_order` compares with the own orders. -/
inductive ItchAdd
  | bist (m : Bist.AddOrder)
  | nasdaq (m : Nasdaq.AddOrder)
  | nasdaqMpid (m : Nasdaq.AddOrder)

namespace ItchAdd

/-- The ring that is scanned. -/
def venue : ItchAdd → VenueIndex
  | .bist _ => 0
  | .nasdaq _ => 1
  | .nasdaqMpid _ => 1

/-- Quantity, price, instrument, side and time agree. -/
def Matches (add : ItchAdd) (order : Order) : Prop :=
  match add with
  | .bist m => matchesPending order m.quantity m.price.toInt64 m.orderBookId (sideOfChar m.side)
      m.timestampNs.toUInt64 = true
  | .nasdaq m | .nasdaqMpid m => matchesPending order m.shares.toUInt64 m.price.toInt64
      m.stockLocate.toUInt32 (sideOfChar m.side) m.timestamp = true

instance (add : ItchAdd) (order : Order) : Decidable (add.Matches order) :=
  match add with
  | .bist _ => inferInstanceAs (Decidable (_ = true))
  | .nasdaq _ => inferInstanceAs (Decidable (_ = true))
  | .nasdaqMpid _ => inferInstanceAs (Decidable (_ = true))

/-- The handler does not look at the ring: no order is awaited, or, on BIST, the order of
the add is known. -/
def Unscanned (om : OrderManager) : ItchAdd → Prop
  | .bist m => om.awaitingAckOrders = ∅ ∨
      om.getOrderFromMarketMap (bistKey m.orderId m.orderBookId m.side) ≠ none
  | .nasdaq _ | .nasdaqMpid _ => om.awaitingAckOrders = ∅

/-- The add is taken for an own order. -/
def Dropped (om : OrderManager) : ItchAdd → Prop
  | .bist m => om.getOrderFromMarketMap (bistKey m.orderId m.orderBookId m.side) = none ∧
      om.awaitingAckOrders ≠ ∅ ∧ om.isMatchedPendingOrderBist m = true
  | .nasdaq m | .nasdaqMpid m =>
      om.awaitingAckOrders ≠ ∅ ∧ om.isMatchedPendingOrderNasdaq m = true

instance (om : OrderManager) (add : ItchAdd) : Decidable (add.Dropped om) :=
  match add with
  | .bist _ => inferInstanceAs (Decidable (_ ∧ _ ∧ _))
  | .nasdaq _ => inferInstanceAs (Decidable (_ ∧ _))
  | .nasdaqMpid _ => inferInstanceAs (Decidable (_ ∧ _))

/-- `update_order`. -/
def handle (om : OrderManager) : ItchAdd → Except Fault OrderManager
  | .bist m => om.updateOrderBist (.addOrder m)
  | .nasdaq m => om.updateOrderNasdaq (.addOrder m)
  | .nasdaqMpid m => om.updateOrderNasdaq (.addOrderMpid m)

/-- The add of NASDAQ without the comparison. -/
def enterNasdaq (om : OrderManager) (m : Nasdaq.AddOrder) (stored : Nasdaq.ItchMessage)
    (fill : OrderManager → OrderSlot → Nasdaq.AddOrder → OrderManager) :
    Except Fault OrderManager := do
  let slot := om.marketOrderSlot
  let om ← (fill (om.addNasdaqOrder m) slot m).onBook slot MarketBook.addOrder
  .ok ((om.publish slot).pushDb (.nasdaqItch stored))

/-- `update_order` without the comparison: the order is written and added to the book. -/
def enter (om : OrderManager) : ItchAdd → Except Fault OrderManager
  | .bist m =>
    let k := bistKey m.orderId m.orderBookId m.side
    match om.getOrderFromMarketMap k with
    | some slot => om.onExisting slot (.bistItch (.addOrder m)) (addBist m slot)
    | none => do
      let slot := om.marketOrderSlot
      let om ← addBist m slot (om.addMarketOrder k).2
      .ok ((om.publish slot).pushDb (.bistItch (.addOrder m)))
  | .nasdaq m => enterNasdaq om m (.addOrder m) FillerItchNasdaq.fillItchAdd
  | .nasdaqMpid m => enterNasdaq om m (.addOrderMpid m) FillerItchNasdaq.fillItchAddMpid

variable {om : OrderManager} {add : ItchAdd}

/-- A dropped add changes nothing. -/
theorem handle_of_dropped (h : add.Dropped om) : add.handle om = .ok om := by
  cases add with
  | bist m => exact updateBistAdd_of_pending h.1 h.2
  | nasdaq m => exact if_pos h
  | nasdaqMpid m => exact if_pos h

/-- Any other add is entered. -/
theorem handle_of_not_dropped (h : ¬add.Dropped om) : add.handle om = add.enter om := by
  cases add with
  | bist m =>
    show om.updateBistAdd m = _
    cases hk : om.getOrderFromMarketMap (bistKey m.orderId m.orderBookId m.side) with
    | some slot => simp only [updateBistAdd, enter, hk]
    | none =>
      have hp : ¬(om.awaitingAckOrders ≠ ∅ ∧ om.isMatchedPendingOrderBist m = true) :=
        fun hp => h ⟨hk, hp⟩
      simp only [updateBistAdd, enter, hk, if_neg hp]
      rfl
  | nasdaq m => exact if_neg h
  | nasdaqMpid m => exact if_neg h

theorem isMatchedPending_iff {v : VenueIndex} {quantity : UInt64} {price : Int64}
    {instrumentId : UInt32} {side : Side} {timestamp : UInt64} :
    om.isMatchedPending v quantity price instrumentId side timestamp = true ↔
      ∃ j slot, om.pendingOrders v j = some slot ∧ matchesPending (om.orderPool slot) quantity
        price instrumentId side timestamp = true := by
  unfold isMatchedPending
  rw [List.any_eq_true]
  constructor
  · rintro ⟨j, -, hj⟩
    cases hslot : om.pendingOrders v j with
    | none =>
      rw [hslot] at hj
      cases hj
    | some slot =>
      rw [hslot] at hj
      exact ⟨j, slot, hslot, hj⟩
  · rintro ⟨j, slot, hslot, hmatch⟩
    refine ⟨j, List.mem_finRange j, ?_⟩
    rw [hslot]
    exact hmatch

/-- An add is dropped when its ring is scanned and an order of it matches. -/
theorem dropped_iff : add.Dropped om ↔ ¬add.Unscanned om ∧
    ∃ j slot, om.pendingOrders add.venue j = some slot ∧ add.Matches (om.orderPool slot) := by
  cases add with
  | bist m =>
    constructor
    · rintro ⟨hk, hawait, hmatch⟩
      refine ⟨?_, isMatchedPending_iff.mp hmatch⟩
      rintro (hempty | hknown)
      · exact hawait hempty
      · exact hknown hk
    · rintro ⟨hscan, hmatch⟩
      have hk : om.getOrderFromMarketMap (bistKey m.orderId m.orderBookId m.side) = none :=
        by_contra fun hknown => hscan (.inr hknown)
      exact ⟨hk, fun hempty => hscan (.inl hempty), isMatchedPending_iff.mpr hmatch⟩
  | nasdaq m => exact and_congr_right fun _ => isMatchedPending_iff
  | nasdaqMpid m => exact and_congr_right fun _ => isMatchedPending_iff

end ItchAdd

/-! ### What an awaited order hides -/

/-- The order of the slot is in `awaitingAck_orders_`. -/
def OrderManager.Awaited (om : OrderManager) (slot : OrderSlot) : Prop :=
  ∃ id, om.awaitingAckOrders.lookup id = some slot

/-- An awaited order that the add looks like. -/
def OrderManager.AwaitedMatch (om : OrderManager) (add : ItchAdd) : Prop :=
  ∃ slot, om.Awaited slot ∧ add.Matches (om.orderPool slot)

/-- The add is dropped only for an awaited order; else it is added to the book. -/
structure OnlyAwaitedHidden (om : OrderManager) (add : ItchAdd) : Prop where
  hidden : add.Dropped om → om.AwaitedMatch add
  added : ¬om.AwaitedMatch add → add.handle om = add.enter om

/-- An order that was entered, stands in the ring of the add, is no longer awaited and
matches does no harm: the ring is not scanned, or an awaited order matches as well. -/
def PendingRun.StaleHarmless (r : PendingRun) (add : ItchAdd) : Prop :=
  ∀ slot, Stands 64 r.calls add.venue slot → ¬r.om.Awaited slot →
    add.Matches (r.om.orderPool slot) → add.Unscanned r.om ∨ r.om.AwaitedMatch add

theorem onlyAwaitedHidden_of_hidden {om : OrderManager} {add : ItchAdd}
    (h : add.Dropped om → om.AwaitedMatch add) : OnlyAwaitedHidden om add :=
  ⟨h, fun hnone => ItchAdd.handle_of_not_dropped fun hdropped => hnone (h hdropped)⟩

/-- **When an add is hidden by an awaited order only.**  In every state of every run and
for every add: exactly when no order that an answer took out of the map, or that never got
into it, still stands in the ring and matches the add, unless it does no harm. -/
theorem onlyAwaitedHidden_iff (hash : List UInt8 → UInt64) (start : UInt64 → ℕ) (om : OwnManager)
    (hom : ∀ v j, om.pendingOrders v j = none) (es : List AwaitingEvent) (r : PendingRun)
    (hrun : exec (PendingRun.step hash start) { system := { om := om } } es = .ok r)
    (add : ItchAdd) : OnlyAwaitedHidden r.om add ↔ r.StaleHarmless add := by
  have hrings := (PendingRun.recorded hom hrun).rings
  constructor
  · intro h slot hstands _ hmatch
    by_cases hscan : add.Unscanned r.om
    · exact .inl hscan
    · obtain ⟨j, hj⟩ := (hrings.stands_iff (by omega)).mp hstands
      exact .inr (h.hidden (ItchAdd.dropped_iff.mpr ⟨hscan, j, slot, hj, hmatch⟩))
  · intro h
    refine onlyAwaitedHidden_of_hidden fun hdropped => ?_
    obtain ⟨hscan, j, slot, hj, hmatch⟩ := ItchAdd.dropped_iff.mp hdropped
    -- the order that matched is awaited itself, or it is a stale one
    by_cases hawait : r.om.Awaited slot
    · exact ⟨slot, hawait, hmatch⟩
    · have hstands := (hrings.stands_iff (by omega)).mpr ⟨j, hj⟩
      exact (h slot hstands hawait hmatch).resolve_left hscan

/-! #### An order that was rejected -/

/-- Own orders without an exchange id, each at a price of its own. -/
def pricedOrders : OwnManager :=
  { orderPool := fun slot =>
      { price := Int64.ofNat slot.val, quantity := 100, instrumentId := 7, side := .buy
        clientOrderId := slot.val.toUInt64, protocol := .ouch, venue := .bist } }

/-- An add of someone else at the given price. -/
def addAt (price : Int32) : ItchAdd :=
  .bist { orderId := 1, quantity := 100, timestampNs := 1000, orderBookId := 7, price := price
          side := 66 }

theorem onlyAwaitedHidden_iff_awaited :
    ∃ r, exec (PendingRun.step (fun _ => 32768) UInt64.toNat) { system := { om := pricedOrders } }
        oneRejected = .ok r ∧ OnlyAwaitedHidden r.om (addAt 32769) := by
  refine ⟨_, rfl, ?_⟩
  refine (onlyAwaitedHidden_iff (fun _ => 32768) UInt64.toNat pricedOrders (fun _ _ => rfl)
    oneRejected _ rfl _).mpr fun _ _ _ _ => .inr ⟨32769, ⟨32769, ?_⟩, ?_⟩
  · decide +kernel
  · decide +kernel

/-- **A rejected order hides the add of someone else.**  The order at 32768 has been
rejected, the one at 32769 is awaited; an add at 32768 is dropped. -/
theorem rejected_order_hides_add :
    ∃ r, exec (PendingRun.step (fun _ => 32768) UInt64.toNat) { system := { om := pricedOrders } }
        oneRejected = .ok r ∧ (addAt 32768).handle r.om = .ok r.om ∧
      ¬OnlyAwaitedHidden r.om (addAt 32768) := by
  have hrun : ∃ r, exec (PendingRun.step (fun _ => 32768) UInt64.toNat)
      { system := { om := pricedOrders } } oneRejected = .ok r ∧
      r.om.awaitingAckOrders = Finmap.singleton 32769 32769 ∧
      (addAt 32768).Dropped r.om ∧ ¬(addAt 32768).Matches (r.om.orderPool 32769) := by
    refine ⟨_, rfl, ?_, ?_, ?_⟩
    · decide +kernel
    · decide +kernel
    · decide +kernel
  obtain ⟨r, hr, hawait, hdropped, hother⟩ := hrun
  refine ⟨r, hr, ItchAdd.handle_of_dropped hdropped, fun h => ?_⟩
  obtain ⟨slot, ⟨id, hid⟩, hmatch⟩ := h.hidden hdropped
  rw [hawait] at hid
  have hkey : id = 32769 := (Finmap.mem_singleton _ _ _).mp (Finmap.mem_of_lookup_eq_some hid)
  rw [hkey, Finmap.lookup_singleton_eq] at hid
  rw [← Option.some.inj hid] at hmatch
  exact hother hmatch

end TradingEngine
