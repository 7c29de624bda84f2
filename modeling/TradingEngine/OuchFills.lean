/-
What an OUCH message does to the orders
(`OrderManager::update_order` for the OUCH messages of both venues).

`dispositionBistOuch` and `dispositionNasdaqOuch` say which order a message is
applied to.  The handlers do more than that: they move the order between the maps,
release the slots of other orders and push to the queues.  None of it writes an
order: the one the message is applied to is filled, every other stays as it is.

* `orderPool_updateOrderBistOuch`, `orderPool_updateOrderNasdaqOuch` — the order a
  message is applied to is filled by the filler of the message, and no other order is
  written.
-/
import TradingEngine.StoreDisposition

namespace TradingEngine

/-- `fill_ouch_rejected` on the order: one that was never acknowledged stays as it is,
any other is locked. -/
def rejectedOrder (order : Order) (timestamp : UInt64) : Order :=
  if order.status = .unknown then order
  else { order with lastUpdateTime := timestamp, canModify := 0 }

theorem rejectedOrder_frame (order : Order) (timestamp : UInt64) :
    rejectedOrder order timestamp = { order with
      lastUpdateTime := (rejectedOrder order timestamp).lastUpdateTime
      canModify := (rejectedOrder order timestamp).canModify } := by
  unfold rejectedOrder
  split
  · rfl
  · rfl

/-- `FillerOUCH_BIST` on a message. -/
def Bist.OuchMessage.fill (order : Order) : Bist.OuchMessage → Order
  | .accepted m => FillerOuchBist.fillOuchAccepted order m
  | .rejected m => rejectedOrder order m.timestamp
  | .replaced m => (FillerOuchBist.fillOuchReplaced order {} m).1
  | .cancelled m => FillerOuchBist.fillOuchCancelled order m
  | .executed m => FillerOuchBist.fillOuchExecuted order m

/-- `FillerOUCH_NASDAQ` on a message. -/
def Nasdaq.OuchMessage.fill (order : Order) : Nasdaq.OuchMessage → Order
  | .accepted m => FillerOuchNasdaq.fillOuchAccepted order m
  | .replaced m => (FillerOuchNasdaq.fillOuchReplaced order {} m).1
  | .cancelled m => FillerOuchNasdaq.fillOuchCancelled order m
  | .executed m => FillerOuchNasdaq.fillOuchExecuted order m
  | .rejected m => rejectedOrder order m.timestamp
  | .modified m => FillerOuchNasdaq.fillOuchModified order m
  | _ => order

/-- The order of a filler that also writes the own-order fields does not depend on
them. -/
theorem fst_fillOuchReplaced (order : Order) (own : OwnFields) (m : Bist.OuchReplaced) :
    (FillerOuchBist.fillOuchReplaced order own m).1 =
      (FillerOuchBist.fillOuchReplaced order {} m).1 := by
  unfold FillerOuchBist.fillOuchReplaced
  split
  · rfl
  · rfl

/-- The order a message is applied to is filled, the others stay. -/
def FillsAt (d : Disposition) (fill : Order → Order) (om om' : OwnManager) : Prop :=
  ∀ t, om'.orderPool t = if d = .applied t then fill (om.orderPool t) else om.orderPool t

namespace OwnManager

variable {hash : List UInt8 → UInt64} {om om' : OwnManager} {slot : OrderSlot} {msg : DbData}
  {fillOrder : Order → Order}

/-- Nothing is written. -/
theorem fillsAt_of_eq {d : Disposition} (hd : ∀ t, d ≠ .applied t)
    (hpool : om'.orderPool = om.orderPool) : FillsAt d fillOrder om om' := by
  intro t
  rw [if_neg (hd t), hpool]

/-- One slot is written. -/
theorem fillsAt_of_update {om₁ : OwnManager} (hpool : om₁.orderPool = om.orderPool)
    (hwrite : om'.orderPool =
      Function.update om₁.orderPool slot (fillOrder (om₁.orderPool slot))) :
    FillsAt (.applied slot) fillOrder om om' := by
  intro t
  rw [hwrite, hpool]
  by_cases ht : t = slot
  · subst ht
    rw [Function.update_self, if_pos rfl]
  · rw [Function.update_of_ne ht, if_neg (fun h => ht (Disposition.applied.inj h).symm)]

/-- A message about an order that was found. -/
theorem fillsAt_unlessDeferred {handle : OwnManager → Except Fault OwnManager}
    (hhandle : ∀ om', handle om = .ok om' →
      om'.orderPool = Function.update om.orderPool slot (fillOrder (om.orderPool slot)))
    (h : om.unlessDeferred slot msg handle = .ok om') :
    FillsAt (om.existing slot) fillOrder om om' := by
  unfold OrderManager.existing
  obtain ⟨hlocked, rfl⟩ | ⟨hopen, hhandled⟩ := unlessDeferred_cases h
  · rw [if_pos hlocked]
    exact fillsAt_of_eq (fun t ht => by cases ht) rfl
  · rw [if_neg hopen]
    exact fillsAt_of_update rfl (hhandle om' hhandled)

theorem fillsAt_dropped : FillsAt .dropped fillOrder om om :=
  fillsAt_of_eq (fun t ht => by cases ht) rfl

/-! ### BIST -/

/-- The filler of a message that names its order by key writes one slot. -/
theorem fillsAt_onBistOuchKey {acknowledges : Bool} {k : OrderKey} {token : List UInt8}
    {fill : OwnManager → OrderSlot → OwnManager}
    (hfill : ∀ (om : OwnManager) slot, (fill om slot).orderPool =
      Function.update om.orderPool slot (fillOrder (om.orderPool slot)))
    (h : onBistOuchKey hash om acknowledges k token msg fill = .ok om') :
    FillsAt (om.knownOrAwaited (if acknowledges then none else om.getOrderFromOurMap k)
      (hash token)) fillOrder om om' := by
  unfold knownOrAwaited awaited
  obtain ⟨slot, hk, hhandled⟩ | ⟨hk, hawait, rfl⟩ |
    ⟨slot, om₁, tokens, hk, hawait, hadd, -, rfl⟩ := onBistOuchKey_cases h
  · simp only [hk]
    refine fillsAt_unlessDeferred (fun om₁ hok => ?_) hhandled
    rw [← Except.ok.inj hok]
    exact hfill om slot
  · simp only [hk, hawait]
    exact fillsAt_dropped
  · simp only [hk, hawait]
    exact fillsAt_of_update (still_addOurOrder hadd).orderPool (hfill _ slot)

/-- A message that names its order by token. -/
theorem fillsAt_onBistOuchToken {token : List UInt8}
    {finish : OwnManager → OrderSlot → OwnManager}
    (hfinish : ∀ (om : OwnManager) slot, (finish om slot).orderPool =
      Function.update om.orderPool slot (fillOrder (om.orderPool slot)))
    (h : onBistOuchToken hash om token msg finish = .ok om') :
    FillsAt (om.knownOrAwaited (om.getOrderFromOurMapWtokenkey (hash token)) (hash token))
      fillOrder om om' := by
  unfold knownOrAwaited awaited
  obtain ⟨slot, hk, hhandled⟩ | ⟨hk, hawait, rfl⟩ | ⟨slot, hk, hawait, rfl⟩ :=
    onBistOuchToken_cases h
  · simp only [hk]
    refine fillsAt_unlessDeferred (fun om₁ hok => ?_) hhandled
    rw [← Except.ok.inj hok]
    exact hfinish om slot
  · simp only [hk, hawait]
    exact fillsAt_dropped
  · simp only [hk, hawait]
    exact fillsAt_of_update rfl (hfinish _ slot)

theorem orderPool_fillOuchRejected (om : OwnManager) (slot : OrderSlot) (timestamp : UInt64) :
    (om.fillOuchRejected slot timestamp).orderPool =
      Function.update om.orderPool slot (rejectedOrder (om.orderPool slot) timestamp) := by
  unfold fillOuchRejected rejectedOrder
  simp only
  by_cases hnew : (om.orderPool slot).status = .unknown
  · rw [if_pos hnew, if_pos hnew, Function.update_eq_self]
    rfl
  · rw [if_neg hnew, if_neg hnew]
    rfl

/-- **A BIST OUCH message fills the order it is applied to and writes no other.** -/
theorem orderPool_updateOrderBistOuch {m : Bist.OuchMessage}
    (h : updateOrderBistOuch hash om m = .ok om') :
    FillsAt (dispositionBistOuch hash om m) (Bist.OuchMessage.fill · m) om om' := by
  cases m with
  | accepted m =>
    simp only [updateOrderBistOuch] at h
    exact fillsAt_onBistOuchKey (fun _ _ => rfl) h
  | replaced m =>
    refine fillsAt_onBistOuchKey (fun om slot => ?_) h
    exact congrArg (Function.update om.orderPool slot) (fst_fillOuchReplaced _ _ m)
  | cancelled m => exact fillsAt_onBistOuchKey (fun _ _ => rfl) h
  | executed m => exact fillsAt_onBistOuchToken (fun _ _ => rfl) h
  | rejected m =>
    exact fillsAt_onBistOuchToken (fun om slot => orderPool_fillOuchRejected om slot _) h

/-! ### NASDAQ -/

/-- The acknowledgement of an awaited order. -/
theorem fillsAt_onNasdaqOuchAwaited {orderId : UInt64} {side : UInt8} {clOrdId : List UInt8}
    {fill : OwnManager → OrderSlot → OwnManager}
    (hfill : ∀ (om : OwnManager) slot, (fill om slot).orderPool =
      Function.update om.orderPool slot (fillOrder (om.orderPool slot)))
    (h : onNasdaqOuchAwaited hash om orderId side clOrdId msg fill = .ok om') :
    FillsAt (om.awaited (hash clOrdId)) fillOrder om om' := by
  unfold awaited
  obtain ⟨hawait, rfl⟩ | ⟨slot, om₁, k, refs, hawait, -, hadd, -, rfl⟩ :=
    onNasdaqOuchAwaited_cases h
  · simp only [hawait]
    exact fillsAt_dropped
  · simp only [hawait]
    exact fillsAt_of_update (still_addOurOrder hadd).orderPool (hfill _ slot)

/-- A message that names its order by its number. -/
theorem fillsAt_onNasdaqOuchRef {userRefNum : UInt32}
    {finish : OwnManager → OrderSlot → OwnManager}
    (hfinish : ∀ (om : OwnManager) slot, (finish om slot).orderPool =
      Function.update om.orderPool slot (fillOrder (om.orderPool slot)))
    (h : onNasdaqOuchRef om userRefNum msg finish = .ok om') :
    FillsAt (om.lookedUp (om.userRefSlot userRefNum)) fillOrder om om' := by
  obtain ⟨k, slot, href, hk, hhandled⟩ := onNasdaqOuchRef_cases h
  simp only [userRefSlot, href, Option.bind_some, hk]
  refine fillsAt_unlessDeferred (fun om₁ hok => ?_) hhandled
  rw [← Except.ok.inj hok]
  exact hfinish om slot

/-- **A NASDAQ OUCH message fills the order it is applied to and writes no other.** -/
theorem orderPool_updateOrderNasdaqOuch {m : Nasdaq.OuchMessage}
    (h : updateOrderNasdaqOuch hash om m = .ok om') :
    FillsAt (dispositionNasdaqOuch hash om m) (Nasdaq.OuchMessage.fill · m) om om' := by
  -- the messages that only look the order up
  have hnone : ∀ {n : UInt32} {d : DbData},
      onNasdaqOuchRef om n d (fun om _ => om) = .ok om' →
        FillsAt (om.lookedUp (om.userRefSlot n)) (fun order => order) om om' := fun h =>
    fillsAt_onNasdaqOuchRef (fun om slot => (Function.update_eq_self slot om.orderPool).symm) h
  cases m with
  | accepted m =>
    simp only [updateOrderNasdaqOuch] at h
    exact fillsAt_onNasdaqOuchAwaited (fun _ _ => rfl) h
  | replaced m =>
    obtain ⟨fill, rfl, locate, k, hid, rfl, hcase⟩ := ouchReplaced_cases h
    simp only [dispositionNasdaqOuch, hid, knownOrAwaited]
    obtain ⟨slot, hk, hhandled⟩ | ⟨hk, hawaited⟩ := hcase
    · simp only [hk]
      refine fillsAt_unlessDeferred (fun om₁ hok => ?_) hhandled
      rw [← Except.ok.inj hok]
      rfl
    · simp only [hk]
      exact fillsAt_onNasdaqOuchAwaited (fun _ _ => rfl) hawaited
  | rejected m =>
    simp only [dispositionNasdaqOuch, awaited]
    obtain ⟨hawait, rfl⟩ | ⟨slot, hawait, rfl⟩ := ouchRejected_cases h
    · simp only [hawait]
      exact fillsAt_dropped
    · simp only [hawait]
      exact fillsAt_of_update rfl (orderPool_fillOuchRejected _ slot _)
  | cancelled m => exact fillsAt_onNasdaqOuchRef (fun _ _ => rfl) h
  | executed m => exact fillsAt_onNasdaqOuchRef (fun _ _ => rfl) h
  | modified m => exact fillsAt_onNasdaqOuchRef (fun _ _ => rfl) h
  | brokenTrade m => exact hnone h
  | cancelPending m => exact hnone h
  | cancelReject m => exact hnone h
  | systemEvent =>
    rw [← Except.ok.inj h]
    exact fillsAt_of_eq (fun t ht => by cases ht) rfl
  | accountQueryResponse =>
    rw [← Except.ok.inj h]
    exact fillsAt_of_eq (fun t ht => by cases ht) rfl

end OwnManager

/-- One own OUCH order of a venue that has been sent. -/
def sentOrder (venue : Venue) : OwnManager :=
  { orderPool := fun _ => { venue := venue, protocol := .ouch, isOurOrder := true }
    ourOrdersAllVenue := fun _ => [{}]
    awaitingAckOrders := Finmap.singleton 0 32768 }

end TradingEngine
