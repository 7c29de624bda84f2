/-
Own orders: `OrderManager::update_order` for FIX and for the OUCH messages of
both venues, with their fillers (`order_management/OrderManager.cpp`,
`order_management/fillers/FillerFIX.cpp`, `FillerOUCH_BIST.cpp`,
`FillerOUCH_NASDAQ.cpp`).

An own order lives in the upper half of the order pool.  It is found by its key
in `our_orders_`, by the hash of its token in `our_orders_wtokenkey_`, by its
NASDAQ reference number through `nq_ouch_refnum_ordkey_`, and until its first
acknowledgement by the hash of its token in `awaitingAck_orders_`.

`OwnManager` adds these maps to `OrderManager`, and for each slot the fields of
an order that only own orders use.  `absl::Hash<std::string_view>` is the
parameter `hash`.

`update` is `update_order` on a message of any type; what the source
dereferences or indexes without a test is a `Fault`.
-/
import Mathlib.Data.List.TakeWhile
import TradingEngine.FallibleRun
import TradingEngine.ItchUpdate

namespace TradingEngine

/-! ### State -/

/-- The fields of an order slot that only own orders use; `timeInForce` is the
code of the enumeration, `99` for `Unknown`. -/
structure OwnFields where
  userRefNum : UInt32 := 0
  preUserRefNum : UInt32 := 0
  execType : UInt8 := 0
  timeInForce : UInt8 := 99
  accountIndex : UInt8 := 0
  realSymbolLen : UInt8 := 0
  realClOrdTokenLen : UInt8 := 0
  fixOrgOrderId : List UInt8 := []
  clientOrderToken : List UInt8 := []
  deriving DecidableEq, Repr

/-- The order manager with what it keeps about own orders. -/
structure OwnManager extends OrderManager where
  ourNextSlot : ℕ := 32768
  /-- the `static` counter of `add_our_order` -/
  triggered : ℕ := 0
  ownFields : OrderSlot → OwnFields := fun _ => {}
  ourOrders : HashMap OrderKey OrderSlot := ∅
  ourOrdersWtokenkey : HashMap UInt64 OrderSlot := ∅
  nqOuchRefnumOrdkey : HashMap UInt32 OrderKey := ∅

/-- `OUR_ORDER_MAP_THRESHOLD`. -/
def ourOrderMapThreshold : ℕ := 16384

/-- `ORDER_MAP_CAPACITY`. -/
def orderMapCapacity : ℕ := 32768

/-! ### The last own orders of a symbol -/

namespace OrderHistory

def push (h : OrderHistory) (slot : OrderSlot) : OrderHistory :=
  { orders := Function.update h.orders ⟨h.writeIndex % 64, Nat.mod_lt _ (by omega)⟩ (some slot)
    writeIndex := h.writeIndex + 1 }

/-- The first entry of an order is emptied. -/
def pop (h : OrderHistory) (slot : OrderSlot) : OrderHistory :=
  match (List.finRange 64).find? fun i => h.orders i = some slot with
  | none => h
  | some i => { h with orders := Function.update h.orders i none }

end OrderHistory

namespace OwnManager

/-- Rewrite an order slot and its own-order fields. -/
def setOwn (om : OwnManager) (slot : OrderSlot) (order : Order) (own : OwnFields) : OwnManager :=
  { om with
    toOrderManager := om.toOrderManager.setOrder slot order
    ownFields := Function.update om.ownFields slot own }

/-- Rewrite an order slot. -/
def setOrder (om : OwnManager) (slot : OrderSlot) (order : Order) : OwnManager :=
  { om with toOrderManager := om.toOrderManager.setOrder slot order }

/-- `canModify.fetch_or`. -/
def orMask (om : OwnManager) (slot : OrderSlot) (bits : UInt8) : OwnManager :=
  om.setOrder slot
    { om.orderPool slot with canModify := (om.orderPool slot).canModify ||| bits }

def pushDb (om : OwnManager) (d : DbData) : OwnManager :=
  { om with toOrderManager := om.toOrderManager.pushDb d }

def publish (om : OwnManager) (slot : OrderSlot) : OwnManager :=
  { om with toOrderManager := om.toOrderManager.publish slot }

def deferMessage (om : OwnManager) (msg : DbData) (slot : OrderSlot) : OwnManager :=
  { om with toOrderManager := om.toOrderManager.deferMessage msg slot }

/-- `store_to_strategy_free_slot_.push(order)`. -/
def pushFreeSlot (om : OwnManager) (slot : OrderSlot) : OwnManager :=
  { om with storeToStrategyFreeSlot := om.storeToStrategyFreeSlot.push slot }

def eraseAwaitingAck (om : OwnManager) (clientOrderId : UInt64) : OwnManager :=
  { om with awaitingAckOrders := om.awaitingAckOrders.erase clientOrderId }

def getOrderFromOurMap (om : OwnManager) (k : OrderKey) : Option OrderSlot := om.ourOrders.lookup k

def getOrderFromAwaitingAckOrders (om : OwnManager) (clientOrderId : UInt64) : Option OrderSlot :=
  om.awaitingAckOrders.lookup clientOrderId

def getOrderFromOurMapWtokenkey (om : OwnManager) (clientOrderId : UInt64) : Option OrderSlot :=
  om.ourOrdersWtokenkey.lookup clientOrderId

/-- Change the history of one symbol of one venue. -/
def updateHistory (om : OwnManager) (order : Order) (f : OrderHistory → OrderHistory) :
    Except Fault OwnManager :=
  match order.venue.index with
  | .error e => .error e
  | .ok v =>
    match (om.ourOrdersAllVenue v)[order.symbolIndex.toNat]? with
    | none => .error .outOfBounds
    | some history =>
      let histories := (om.ourOrdersAllVenue v).set order.symbolIndex.toNat (f history)
      .ok { om with ourOrdersAllVenue := Function.update om.ourOrdersAllVenue v histories }

/-- `release_order` on an own order. -/
def releaseOrder (om : OwnManager) (slot : OrderSlot) : Except Fault OwnManager :=
  let order := om.orderPool slot
  { om.pushFreeSlot slot with
    ourOrders := om.ourOrders.erase order.key
    ourOrdersWtokenkey := om.ourOrdersWtokenkey.erase order.clientOrderId }
    |>.updateHistory order (·.pop slot)

/-- The head of `add_our_order`: once the map has grown to its threshold, the
slots of own orders are released one after another, in the order of the pool
and whatever they hold. -/
def sweep (om : OwnManager) : Except Fault OwnManager :=
  if ourOrderMapThreshold ≤ om.ourOrders.keys.card then
    let next := if om.triggered % orderMapCapacity = 0 then 32768 else om.ourNextSlot
    if h : next < 65536 then
      { om with triggered := om.triggered + 1, ourNextSlot := next + 1 }.releaseOrder ⟨next, h⟩
    else .error .outOfBounds
  else .ok om

def addOurOrder (om : OwnManager) (slot : OrderSlot) (k : OrderKey) : Except Fault OwnManager :=
  match om.sweep with
  | .error e => .error e
  | .ok om =>
    { om with ourOrders := om.ourOrders.insert k slot }.updateHistory (om.orderPool slot)
      (·.push slot)

/-- Only the histories change. -/
theorem updateHistory_cases {om om' : OwnManager} {order : Order} {f : OrderHistory → OrderHistory}
    (h : om.updateHistory order f = .ok om') :
    ∃ histories, om' = { om with ourOrdersAllVenue := histories } := by
  unfold updateHistory at h
  split at h
  · cases h
  · split at h
    · cases h
    · exact ⟨_, (Except.ok.inj h).symm⟩

/-- Below the threshold nothing is released, above it the slot whose turn it is. -/
theorem sweep_cases {om om' : OwnManager} (h : om.sweep = .ok om') :
    (¬ourOrderMapThreshold ≤ om.ourOrders.keys.card ∧ om' = om) ∨
    (ourOrderMapThreshold ≤ om.ourOrders.keys.card ∧
      ∃ next, ∃ hnext : next < 65536, ∃ histories,
        next = (if om.triggered % orderMapCapacity = 0 then 32768 else om.ourNextSlot) ∧
        om' = { om.pushFreeSlot ⟨next, hnext⟩ with
          triggered := om.triggered + 1
          ourNextSlot := next + 1
          ourOrders := om.ourOrders.erase (om.orderPool ⟨next, hnext⟩).key
          ourOrdersWtokenkey :=
            om.ourOrdersWtokenkey.erase (om.orderPool ⟨next, hnext⟩).clientOrderId
          ourOrdersAllVenue := histories }) := by
  unfold sweep at h
  split at h
  · rename_i hfull
    simp only at h
    generalize hturn : (if om.triggered % orderMapCapacity = 0 then 32768 else om.ourNextSlot) =
      next at h
    split at h
    · rename_i hnext
      obtain ⟨histories, hom⟩ := updateHistory_cases h
      exact .inr ⟨hfull, next, hnext, histories, rfl, hom⟩
    · cases h
  · rename_i hfew
    exact .inl ⟨hfew, (Except.ok.inj h).symm⟩

theorem addOurOrder_cases {om om' : OwnManager} {slot : OrderSlot} {k : OrderKey}
    (h : om.addOurOrder slot k = .ok om') :
    ∃ om₁ histories, om.sweep = .ok om₁ ∧
      om' = { om₁ with
        ourOrders := om₁.ourOrders.insert k slot
        ourOrdersAllVenue := histories } := by
  unfold addOurOrder at h
  split at h
  · cases h
  · rename_i om₁ hsweep
    obtain ⟨histories, hom⟩ := updateHistory_cases h
    exact ⟨om₁, histories, hsweep, hom⟩

end OwnManager

/-! ### Fillers -/

/-- A `char` array as a string: what stands before the first NUL. -/
def cString (bytes : List UInt8) : List UInt8 := bytes.takeWhile (· ≠ 0)

theorem cString_of_notMem {bytes : List UInt8} (h : 0 ∉ bytes) : cString bytes = bytes := by
  refine List.takeWhile_eq_self_iff.mpr fun c hc => decide_eq_true fun hzero => ?_
  rw [hzero] at hc
  exact h hc

/-- The first eight bytes of a symbol, filled up with NULs. -/
def symbolPack (symbol : List UInt8) : List UInt8 := (symbol ++ List.replicate 8 0).take 8

/-- `static_cast<OrderType>`; the other codes name no enumerator. -/
def orderTypeOfCode (c : UInt8) : OrderType :=
  if c = 1 then .market else if c = 2 then .limit else .unknown

namespace FillerFix

/-- `msg.side == 1 ? Side::Buy : Side::Sell`. -/
def sideOfCode (side : UInt8) : Side := if side = 1 then .buy else .sell

section

variable (hash : List UInt8 → UInt64) (order : Order) (own : OwnFields) (msg : FIXMessage)

def fillFixNew : Order × OwnFields :=
  ({ order with
      price := msg.price
      quantity := msg.quantity
      remainingQuantity := msg.quantity
      orderId := hash (cString msg.orderId)
      timestamp := msg.transactTime.toUInt64
      lastUpdateTime := msg.transactTime.toUInt64
      orderType := orderTypeOfCode (msg.ordType - 48)
      status := .new
      syncState := .newSeen
      statusesPreNew := (.unknown, .unknown)
      side := sideOfCode msg.side },
    { own with fixOrgOrderId := msg.orderId, execType := msg.execType })

/-- What `fill_fix_partial` and `fill_fix_filled` share; the status is theirs. -/
def fillFixExecution (status : Status) : Order × OwnFields :=
  ({ order with
      status := status
      price := msg.lastPrice
      filledQuantity := msg.filledQty
      lastExecQuantity := msg.lastQty
      remainingQuantity := msg.leavesQty
      lastUpdateTime := msg.transactTime.toUInt64
      statusesPreNew := if order.syncState = .waitingNew then (status, order.statusesPreNew.2)
        else order.statusesPreNew },
    { own with execType := msg.execType })

def fillFixPartial : Order × OwnFields := fillFixExecution order own msg .partialFill

def fillFixFilled : Order × OwnFields := fillFixExecution order own msg .filled

/-- The second entry of `StatusesPreNew`, written while the order waits for its
`New`. -/
def notePreNew (status : Status) : Status × Status :=
  if order.syncState = .waitingNew then (order.statusesPreNew.1, status) else order.statusesPreNew

def fillFixCancel : Order × OwnFields :=
  ({ order with
      status := .deleted
      filledQuantity := msg.filledQty
      replacedQuantity := (0 - order.remainingQuantity).toInt32
      remainingQuantity := 0
      lastUpdateTime := msg.transactTime.toUInt64
      statusesPreNew := notePreNew order .deleted
      cancelledCount := order.cancelledCount + 1 },
    { own with execType := msg.execType })

def fillFixReplaced : Order × OwnFields :=
  ({ order with
      price := msg.price
      quantity := msg.quantity
      replacedQuantity := (msg.leavesQty - order.remainingQuantity).toInt32
      remainingQuantity := msg.leavesQty
      orderId := hash (cString msg.orderId)
      lastUpdateTime := msg.transactTime.toUInt64
      status := .replaced
      statusesPreNew := notePreNew order .replaced
      side := sideOfCode msg.side },
    { own with clientOrderToken := msg.clOrdId, execType := msg.execType })

def fillFixExpired : Order × OwnFields :=
  ({ order with
      status := .expired
      filledQuantity := msg.filledQty
      lastExecQuantity := msg.lastQty
      replacedQuantity := (0 - order.remainingQuantity).toInt32
      remainingQuantity := 0
      lastUpdateTime := msg.transactTime.toUInt64
      statusesPreNew := notePreNew order .expired },
    { own with execType := msg.execType })

def fillFixCancelReject : Order := { order with lastUpdateTime := msg.transactTime.toUInt64 }

/-- The switch on `ord_status`; the other codes leave the order as it is. -/
def fillFixExecReport : Order × OwnFields :=
  if msg.ordStatus = 48 then fillFixNew hash order own msg
  else if msg.ordStatus = 49 then fillFixPartial order own msg
  else if msg.ordStatus = 50 then fillFixFilled order own msg
  else if msg.ordStatus = 52 then fillFixCancel order own msg
  else if msg.ordStatus = 53 then fillFixReplaced hash order own msg
  else if msg.ordStatus = 67 then fillFixExpired order own msg
  else (order, own)

end

end FillerFix

/-- `filled_quantity < quantity ? Status::Partial : Status::Filled`. -/
def statusOfFilled (filled quantity : UInt32) : Status :=
  if filled < quantity then .partialFill else .filled

namespace FillerOuchBist

def fillOuchAccepted (order : Order) (msg : Bist.OuchAccepted) : Order :=
  { order with
    price := msg.price.toInt64
    quantity := msg.quantity.toUInt32
    remainingQuantity := msg.quantity.toUInt32
    status := .new
    orderId := msg.orderId
    timestamp := msg.timestamp
    lastUpdateTime := msg.timestamp }

/-- An order that is not on the book is left as it is. -/
def fillOuchReplaced (order : Order) (own : OwnFields) (msg : Bist.OuchReplaced) :
    Order × OwnFields :=
  if msg.orderState = 2 then (order, own)
  else
    let replaced := (msg.quantity - order.remainingQuantity.toUInt64).toUInt32
    ({ order with
        price := msg.price.toInt64
        replacedQuantity := replaced.toInt32
        remainingQuantity := msg.quantity.toUInt32
        quantity := order.quantity + replaced
        status := .replaced
        orderId := msg.orderId
        timestamp := msg.timestamp
        lastUpdateTime := msg.timestamp
        side := sideOfChar msg.side },
      { own with timeInForce := msg.timeInForce })

def fillOuchCancelled (order : Order) (msg : Bist.OuchCancelled) : Order :=
  { order with
    lastUpdateTime := msg.timestamp
    replacedQuantity := (0 - order.remainingQuantity).toInt32
    remainingQuantity := 0
    status := .deleted
    cancelledCount := order.cancelledCount + 1 }

def fillOuchExecuted (order : Order) (msg : Bist.OuchExecuted) : Order :=
  let filled := order.filledQuantity + msg.tradedQuantity.toUInt32
  { order with
    price := msg.tradePrice.toInt64
    filledQuantity := filled
    lastExecQuantity := msg.tradedQuantity.toUInt32
    lastUpdateTime := msg.timestamp
    remainingQuantity := order.remainingQuantity - msg.tradedQuantity.toUInt32
    status := statusOfFilled filled order.quantity }

end FillerOuchBist

namespace FillerOuchNasdaq

def fillOuchAccepted (order : Order) (msg : Nasdaq.OuchAccepted) : Order :=
  { order with
    price := msg.price.toInt64
    quantity := msg.quantity
    remainingQuantity := msg.quantity
    filledQuantity := 0
    status := .new
    orderId := msg.orderReferenceNumber
    timestamp := msg.timestamp
    lastUpdateTime := msg.timestamp }

def fillOuchReplaced (order : Order) (own : OwnFields) (msg : Nasdaq.OuchReplaced) :
    Order × OwnFields :=
  let replaced := msg.quantity - order.remainingQuantity
  ({ order with
      price := msg.price.toInt64
      replacedQuantity := replaced.toInt32
      remainingQuantity := msg.quantity
      quantity := order.quantity + replaced
      status := .replaced
      orderId := msg.orderReferenceNumber
      timestamp := msg.timestamp
      lastUpdateTime := msg.timestamp
      side := sideOfChar msg.side },
    { own with timeInForce := msg.timeInForce, userRefNum := msg.userRefNum })

/-- The difference is unsigned: it is positive unless the two are equal. -/
def fillOuchCancelled (order : Order) (msg : Nasdaq.OuchCancelled) : Order :=
  { order with
    lastUpdateTime := order.timestamp
    remainingQuantity :=
      if 0 < order.remainingQuantity - msg.quantity then order.remainingQuantity - msg.quantity
      else 0
    replacedQuantity := (0 - msg.quantity).toInt32
    status := .cancelled
    cancelledCount := order.cancelledCount + 1 }

def fillOuchExecuted (order : Order) (msg : Nasdaq.OuchExecuted) : Order :=
  let filled := order.filledQuantity + msg.quantity
  { order with
    price := msg.price.toInt64
    filledQuantity := filled
    lastExecQuantity := msg.quantity
    lastUpdateTime := msg.timestamp
    remainingQuantity := order.remainingQuantity - msg.quantity
    status := statusOfFilled filled order.quantity }

def fillOuchModified (order : Order) (msg : Nasdaq.OuchModified) : Order :=
  let replaced := msg.quantity - order.remainingQuantity
  { order with
    replacedQuantity := replaced.toInt32
    remainingQuantity := msg.quantity
    quantity := order.quantity + replaced
    status := .replaced
    side := sideOfChar msg.side
    lastUpdateTime := order.timestamp }

end FillerOuchNasdaq

/-- `fill_ouch_rejected` of both venues: the slot of an order that was never
acknowledged is free again, any other order may not be modified. -/
def OwnManager.fillOuchRejected (om : OwnManager) (slot : OrderSlot) (timestamp : UInt64) :
    OwnManager :=
  let order := om.orderPool slot
  if order.status = .unknown then om.pushFreeSlot slot
  else om.setOrder slot { order with lastUpdateTime := timestamp, canModify := 0 }

/-! ### `update_order` -/

namespace OwnManager

/-- The wrapper of a message is deferred with its order, or the rest of the
handler runs. -/
def unlessDeferred (om : OwnManager) (slot : OrderSlot) (msg : DbData)
    (handle : OwnManager → Except Fault OwnManager) : Except Fault OwnManager :=
  if (om.orderPool slot).canModify = 0 then .ok (om.deferMessage msg slot) else handle om

theorem unlessDeferred_cases {om om' : OwnManager} {slot : OrderSlot} {d : DbData}
    {handle : OwnManager → Except Fault OwnManager}
    (h : om.unlessDeferred slot d handle = .ok om') :
    ((om.orderPool slot).canModify = 0 ∧ om' = om.deferMessage d slot) ∨
      ((om.orderPool slot).canModify ≠ 0 ∧ handle om = .ok om') := by
  unfold unlessDeferred at h
  by_cases hlocked : (om.orderPool slot).canModify = 0
  · rw [if_pos hlocked] at h
    exact .inl ⟨hlocked, (Except.ok.inj h).symm⟩
  · rw [if_neg hlocked] at h
    exact .inr ⟨hlocked, h⟩

/-- Hand over the order, then the message. -/
def publishWith (om : OwnManager) (slot : OrderSlot) (msg : DbData) : OwnManager :=
  (om.publish slot).pushDb msg

/-! #### FIX -/

/-- `allowed_exec_type`: `0`, `4`, `5`, `C`, `F` and `L`. -/
def allowedExecType (c : UInt8) : Bool := c ∈ [48, 52, 53, 67, 70, 76]

/-- The tail of the FIX handler: the message goes to the database before the
order. -/
def finishFix (om : OwnManager) (slot : OrderSlot) (clientOrderId : UInt64) (msg : FIXMessage) :
    OwnManager :=
  ((om.eraseAwaitingAck clientOrderId).pushDb (.fix msg)).publish slot

/-- The switch of the FIX handler on `msg_type`. -/
def handleFix (hash : List UInt8 → UInt64) (om : OwnManager) (slot : OrderSlot)
    (clientOrderId : UInt64) (msg : FIXMessage) : Except Fault OwnManager :=
  if msg.msgType = 56 then
    -- the table has 128 entries
    if 128 ≤ msg.execType then .error .outOfBounds
    else if allowedExecType msg.execType then
      let filled := FillerFix.fillFixExecReport hash (om.orderPool slot) (om.ownFields slot) msg
      .ok ((om.setOwn slot filled.1 filled.2).finishFix slot clientOrderId msg)
    else .ok om
  else if msg.msgType = 57 then
    let om := om.setOrder slot (FillerFix.fillFixCancelReject (om.orderPool slot) msg)
    .ok ((om.pushDb (.fix msg)).pushDb (.order slot))
  else .ok (om.finishFix slot clientOrderId msg)

theorem handleFix_cases {hash : List UInt8 → UInt64} {om om' : OwnManager} {slot : OrderSlot}
    {clientOrderId : UInt64} {msg : FIXMessage}
    (h : handleFix hash om slot clientOrderId msg = .ok om') :
    (msg.msgType = 56 ∧ allowedExecType msg.execType = true ∧
      ∃ filled, filled =
          FillerFix.fillFixExecReport hash (om.orderPool slot) (om.ownFields slot) msg ∧
        om' = (om.setOwn slot filled.1 filled.2).finishFix slot clientOrderId msg) ∨
    (msg.msgType = 56 ∧ ¬allowedExecType msg.execType = true ∧ om' = om) ∨
    (msg.msgType = 57 ∧ om' = (((om.setOrder slot
      (FillerFix.fillFixCancelReject (om.orderPool slot) msg)).pushDb (.fix msg)).pushDb
        (.order slot))) ∨
    (msg.msgType ≠ 56 ∧ msg.msgType ≠ 57 ∧ om' = om.finishFix slot clientOrderId msg) := by
  unfold handleFix at h
  by_cases hreport : msg.msgType = 56
  · rw [if_pos hreport] at h
    split at h
    · cases h
    · by_cases hallowed : allowedExecType msg.execType = true
      · rw [if_pos hallowed] at h
        exact .inl ⟨hreport, hallowed, _, rfl, (Except.ok.inj h).symm⟩
      · rw [if_neg hallowed] at h
        exact .inr (.inl ⟨hreport, hallowed, (Except.ok.inj h).symm⟩)
  · rw [if_neg hreport] at h
    by_cases hcancel : msg.msgType = 57
    · rw [if_pos hcancel] at h
      exact .inr (.inr (.inl ⟨hcancel, (Except.ok.inj h).symm⟩))
    · rw [if_neg hcancel] at h
      exact .inr (.inr (.inr ⟨hreport, hcancel, (Except.ok.inj h).symm⟩))

/-- The key a FIX message names its order by. -/
def fixKey (hash : List UInt8 → UInt64) (orderBookId : UInt32) (msg : FIXMessage) : OrderKey :=
  ⟨hash (cString msg.orderId), orderBookId, Venue.bist.code, msg.side - 1⟩

/-- `update_order` for a FIX application message. -/
def updateOrderFix (hash : List UInt8 → UInt64) (om : OwnManager) (msg : FIXMessage) :
    Except Fault OwnManager :=
  let clientOrderId := hash (cString msg.clOrdId)
  match om.sympackSymid.lookup (symbolPack msg.symbol) with
  | none => .error .nullDereference
  | some orderBookId =>
    match om.getOrderFromOurMap (fixKey hash orderBookId msg) with
    | some slot =>
      om.unlessDeferred slot (.fix msg) fun om => handleFix hash om slot clientOrderId msg
    | none =>
      match om.getOrderFromAwaitingAckOrders clientOrderId with
      | none => .ok om
      | some slot =>
        -- a rejected order: its slot is free, its entry in the map stays
        if msg.ordStatus = 56 then .ok (om.pushFreeSlot slot)
        else
          match om.addOurOrder slot (fixKey hash orderBookId msg) with
          | .error e => .error e
          | .ok om =>
            om.unlessDeferred slot (.fix msg) fun om => handleFix hash om slot clientOrderId msg

/-- What a FIX message does: it is put off or handled, dropped, or a reject of an order that
waits for its acknowledgement, or such an order is entered and handled. -/
theorem updateOrderFix_cases {hash : List UInt8 → UInt64} {om om' : OwnManager}
    {msg : FIXMessage} (h : updateOrderFix hash om msg = .ok om') :
    ∃ id, om.sympackSymid.lookup (symbolPack msg.symbol) = some id ∧
      ((∃ slot, om.getOrderFromOurMap (fixKey hash id msg) = some slot ∧
          om.unlessDeferred slot (.fix msg) (fun om =>
            handleFix hash om slot (hash (cString msg.clOrdId)) msg) = .ok om') ∨
        (om.getOrderFromOurMap (fixKey hash id msg) = none ∧
          om.getOrderFromAwaitingAckOrders (hash (cString msg.clOrdId)) = none ∧ om' = om) ∨
        (∃ slot, om.getOrderFromOurMap (fixKey hash id msg) = none ∧
          om.getOrderFromAwaitingAckOrders (hash (cString msg.clOrdId)) = some slot ∧
          msg.ordStatus = 56 ∧ om' = om.pushFreeSlot slot) ∨
        ∃ slot om₁, om.getOrderFromOurMap (fixKey hash id msg) = none ∧
          om.getOrderFromAwaitingAckOrders (hash (cString msg.clOrdId)) = some slot ∧
          msg.ordStatus ≠ 56 ∧ om.addOurOrder slot (fixKey hash id msg) = .ok om₁ ∧
          om₁.unlessDeferred slot (.fix msg) (fun om =>
            handleFix hash om slot (hash (cString msg.clOrdId)) msg) = .ok om') := by
  unfold updateOrderFix at h
  simp only at h
  cases hid : om.sympackSymid.lookup (symbolPack msg.symbol) with
  | none =>
    rw [hid] at h
    cases h
  | some id =>
    rw [hid] at h
    simp only at h
    refine ⟨id, rfl, ?_⟩
    cases hk : om.getOrderFromOurMap (fixKey hash id msg) with
    | some slot =>
      -- the order is known
      rw [hk] at h
      exact .inl ⟨slot, rfl, h⟩
    | none =>
      rw [hk] at h
      simp only at h
      refine .inr ?_
      cases hawait : om.getOrderFromAwaitingAckOrders (hash (cString msg.clOrdId)) with
      | none =>
        rw [hawait] at h
        exact .inl ⟨rfl, rfl, (Except.ok.inj h).symm⟩
      | some slot =>
        -- the order waits for its acknowledgement
        rw [hawait] at h
        simp only at h
        refine .inr ?_
        by_cases hreject : msg.ordStatus = 56
        · rw [if_pos hreject] at h
          exact .inl ⟨slot, rfl, rfl, hreject, (Except.ok.inj h).symm⟩
        · rw [if_neg hreject] at h
          refine .inr ?_
          cases hadd : om.addOurOrder slot (fixKey hash id msg) with
          | error e =>
            rw [hadd] at h
            cases h
          | ok om₁ =>
            rw [hadd] at h
            exact ⟨slot, om₁, rfl, rfl, hreject, hadd, h⟩

/-! #### BIST OUCH -/

/-- A message that names its order by key; an acknowledgement does not look the
key up. -/
def onBistOuchKey (hash : List UInt8 → UInt64) (om : OwnManager) (acknowledges : Bool)
    (k : OrderKey) (token : List UInt8) (msg : DbData)
    (fill : OwnManager → OrderSlot → OwnManager) : Except Fault OwnManager :=
  match if acknowledges then none else om.getOrderFromOurMap k with
  | some slot =>
    om.unlessDeferred slot msg fun om => .ok ((fill om slot).publishWith slot msg)
  | none =>
    match om.getOrderFromAwaitingAckOrders (hash token) with
    | none => .ok om
    | some slot =>
      match om.addOurOrder slot k with
      | .error e => .error e
      | .ok om =>
        let om := { om with
          ourOrdersWtokenkey := om.ourOrdersWtokenkey.insert (om.orderPool slot).clientOrderId slot }
        .ok ((fill (om.eraseAwaitingAck (hash token)) slot).publishWith slot msg)

/-- A message that names its order by token. -/
def onBistOuchToken (hash : List UInt8 → UInt64) (om : OwnManager) (token : List UInt8)
    (msg : DbData) (finish : OwnManager → OrderSlot → OwnManager) : Except Fault OwnManager :=
  match om.getOrderFromOurMapWtokenkey (hash token) with
  | some slot => om.unlessDeferred slot msg fun om => .ok ((finish om slot).pushDb msg)
  | none =>
    match om.getOrderFromAwaitingAckOrders (hash token) with
    | none => .ok om
    | some slot =>
      .ok ((finish (om.eraseAwaitingAck (om.orderPool slot).clientOrderId) slot).pushDb msg)

theorem onBistOuchKey_cases {hash : List UInt8 → UInt64} {om om' : OwnManager}
    {acknowledges : Bool} {k : OrderKey} {token : List UInt8} {d : DbData}
    {fill : OwnManager → OrderSlot → OwnManager}
    (h : onBistOuchKey hash om acknowledges k token d fill = .ok om') :
    (∃ slot, (if acknowledges then none else om.getOrderFromOurMap k) = some slot ∧
      om.unlessDeferred slot d (fun om => .ok ((fill om slot).publishWith slot d)) = .ok om') ∨
    ((if acknowledges then none else om.getOrderFromOurMap k) = none ∧
      om.getOrderFromAwaitingAckOrders (hash token) = none ∧ om' = om) ∨
    ∃ slot om₁ tokens, (if acknowledges then none else om.getOrderFromOurMap k) = none ∧
      om.getOrderFromAwaitingAckOrders (hash token) = some slot ∧
      om.addOurOrder slot k = .ok om₁ ∧
      tokens = om₁.ourOrdersWtokenkey.insert (om₁.orderPool slot).clientOrderId slot ∧
      om' = (fill (eraseAwaitingAck { om₁ with ourOrdersWtokenkey := tokens } (hash token))
        slot).publishWith slot d := by
  unfold onBistOuchKey at h
  cases hk : (if acknowledges then none else om.getOrderFromOurMap k) with
  | some slot =>
    rw [hk] at h
    exact .inl ⟨slot, rfl, h⟩
  | none =>
    rw [hk] at h
    simp only at h
    refine .inr ?_
    cases hawait : om.getOrderFromAwaitingAckOrders (hash token) with
    | none =>
      rw [hawait] at h
      exact .inl ⟨rfl, rfl, (Except.ok.inj h).symm⟩
    | some slot =>
      rw [hawait] at h
      simp only at h
      refine .inr ?_
      cases hadd : om.addOurOrder slot k with
      | error e =>
        rw [hadd] at h
        cases h
      | ok om₁ =>
        rw [hadd] at h
        exact ⟨slot, om₁, _, rfl, rfl, hadd, rfl, (Except.ok.inj h).symm⟩

theorem onBistOuchToken_cases {hash : List UInt8 → UInt64} {om om' : OwnManager}
    {token : List UInt8} {d : DbData} {finish : OwnManager → OrderSlot → OwnManager}
    (h : onBistOuchToken hash om token d finish = .ok om') :
    (∃ slot, om.getOrderFromOurMapWtokenkey (hash token) = some slot ∧
      om.unlessDeferred slot d (fun om => .ok ((finish om slot).pushDb d)) = .ok om') ∨
    (om.getOrderFromOurMapWtokenkey (hash token) = none ∧
      om.getOrderFromAwaitingAckOrders (hash token) = none ∧ om' = om) ∨
    ∃ slot, om.getOrderFromOurMapWtokenkey (hash token) = none ∧
      om.getOrderFromAwaitingAckOrders (hash token) = some slot ∧
      om' = (finish (om.eraseAwaitingAck (om.orderPool slot).clientOrderId) slot).pushDb d := by
  unfold onBistOuchToken at h
  cases hk : om.getOrderFromOurMapWtokenkey (hash token) with
  | some slot =>
    rw [hk] at h
    exact .inl ⟨slot, rfl, h⟩
  | none =>
    rw [hk] at h
    simp only at h
    refine .inr ?_
    cases hawait : om.getOrderFromAwaitingAckOrders (hash token) with
    | none =>
      rw [hawait] at h
      exact .inl ⟨rfl, rfl, (Except.ok.inj h).symm⟩
    | some slot =>
      rw [hawait] at h
      exact .inr ⟨slot, rfl, rfl, (Except.ok.inj h).symm⟩

/-- `update_order` for a BIST OUCH message. -/
def updateOrderBistOuch (hash : List UInt8 → UInt64) (om : OwnManager) (msg : Bist.OuchMessage) :
    Except Fault OwnManager :=
  let key (orderId : UInt64) (orderBookId : UInt32) (side : UInt8) : OrderKey :=
    ⟨orderId, orderBookId, Venue.bist.code, (sideOfChar side).code⟩
  match msg with
  | .accepted m =>
    onBistOuchKey hash om true (key m.orderId m.orderBookId m.side) m.orderToken (.bistOuch msg)
      fun om slot => om.setOrder slot (FillerOuchBist.fillOuchAccepted (om.orderPool slot) m)
  | .replaced m =>
    onBistOuchKey hash om false (key m.orderId m.orderBookId m.side) m.orderToken (.bistOuch msg)
      fun om slot =>
        let filled := FillerOuchBist.fillOuchReplaced (om.orderPool slot) (om.ownFields slot) m
        om.setOwn slot filled.1 filled.2
  | .cancelled m =>
    onBistOuchKey hash om false (key m.orderId m.orderBookId m.side) m.orderToken (.bistOuch msg)
      fun om slot => om.setOrder slot (FillerOuchBist.fillOuchCancelled (om.orderPool slot) m)
  | .executed m =>
    onBistOuchToken hash om m.orderToken (.bistOuch msg) fun om slot =>
      (om.setOrder slot (FillerOuchBist.fillOuchExecuted (om.orderPool slot) m)).publish slot
  | .rejected m =>
    onBistOuchToken hash om m.orderToken (.bistOuch msg) fun om slot =>
      om.fillOuchRejected slot m.timestamp

/-! #### NASDAQ OUCH -/

/-- The acknowledgement of an awaited order: it gets its key and its reference
number. -/
def onNasdaqOuchAwaited (hash : List UInt8 → UInt64) (om : OwnManager) (orderId : UInt64)
    (side : UInt8) (clOrdId : List UInt8) (msg : DbData)
    (fill : OwnManager → OrderSlot → OwnManager) : Except Fault OwnManager :=
  match om.getOrderFromAwaitingAckOrders (hash clOrdId) with
  | none => .ok om
  | some slot =>
    let k : OrderKey :=
      ⟨orderId, (om.orderPool slot).instrumentId, Venue.nasdaq.code, (sideOfChar side).code⟩
    match om.addOurOrder slot k with
    | .error e => .error e
    | .ok om =>
      let own := om.ownFields slot
      let refs :=
        if own.preUserRefNum ≠ 0 then om.nqOuchRefnumOrdkey.erase own.preUserRefNum
        else om.nqOuchRefnumOrdkey
      let om := { om with nqOuchRefnumOrdkey := refs.insert own.userRefNum k }
      .ok ((fill (om.eraseAwaitingAck (hash clOrdId)) slot).publishWith slot msg)

/-- A message that names its order by the number it was sent with.  Neither the
number nor the key found under it is tested. -/
def onNasdaqOuchRef (om : OwnManager) (userRefNum : UInt32) (msg : DbData)
    (finish : OwnManager → OrderSlot → OwnManager) : Except Fault OwnManager :=
  match om.nqOuchRefnumOrdkey.lookup userRefNum with
  | none => .error .nullDereference
  | some k =>
    match om.getOrderFromOurMap k with
    | none => .error .nullDereference
    | some slot => om.unlessDeferred slot msg fun om => .ok ((finish om slot).pushDb msg)

theorem onNasdaqOuchAwaited_cases {hash : List UInt8 → UInt64} {om om' : OwnManager}
    {orderId : UInt64} {side : UInt8} {clOrdId : List UInt8} {d : DbData}
    {fill : OwnManager → OrderSlot → OwnManager}
    (h : onNasdaqOuchAwaited hash om orderId side clOrdId d fill = .ok om') :
    (om.getOrderFromAwaitingAckOrders (hash clOrdId) = none ∧ om' = om) ∨
    ∃ slot om₁ k refs, om.getOrderFromAwaitingAckOrders (hash clOrdId) = some slot ∧
      k = ⟨orderId, (om.orderPool slot).instrumentId, Venue.nasdaq.code,
        (sideOfChar side).code⟩ ∧
      om.addOurOrder slot k = .ok om₁ ∧
      refs = (if (om₁.ownFields slot).preUserRefNum ≠ 0 then
        om₁.nqOuchRefnumOrdkey.erase (om₁.ownFields slot).preUserRefNum
        else om₁.nqOuchRefnumOrdkey).insert (om₁.ownFields slot).userRefNum k ∧
      om' = (fill (eraseAwaitingAck { om₁ with nqOuchRefnumOrdkey := refs } (hash clOrdId))
        slot).publishWith slot d := by
  unfold onNasdaqOuchAwaited at h
  cases hawait : om.getOrderFromAwaitingAckOrders (hash clOrdId) with
  | none =>
    rw [hawait] at h
    exact .inl ⟨rfl, (Except.ok.inj h).symm⟩
  | some slot =>
    rw [hawait] at h
    simp only at h
    refine .inr ?_
    cases hadd : om.addOurOrder slot ⟨orderId, (om.orderPool slot).instrumentId,
        Venue.nasdaq.code, (sideOfChar side).code⟩ with
    | error e =>
      rw [hadd] at h
      cases h
    | ok om₁ =>
      rw [hadd] at h
      exact ⟨slot, om₁, _, _, rfl, rfl, hadd, rfl, (Except.ok.inj h).symm⟩

theorem onNasdaqOuchRef_cases {om om' : OwnManager} {userRefNum : UInt32} {d : DbData}
    {finish : OwnManager → OrderSlot → OwnManager}
    (h : onNasdaqOuchRef om userRefNum d finish = .ok om') :
    ∃ k slot, om.nqOuchRefnumOrdkey.lookup userRefNum = some k ∧
      om.getOrderFromOurMap k = some slot ∧
      om.unlessDeferred slot d (fun om => .ok ((finish om slot).pushDb d)) = .ok om' := by
  unfold onNasdaqOuchRef at h
  cases href : om.nqOuchRefnumOrdkey.lookup userRefNum with
  | none =>
    rw [href] at h
    cases h
  | some k =>
    rw [href] at h
    simp only at h
    cases hk : om.getOrderFromOurMap k with
    | none =>
      rw [hk] at h
      cases h
    | some slot =>
      rw [hk] at h
      exact ⟨k, slot, rfl, hk, h⟩

/-- `update_order` for a NASDAQ OUCH message. -/
def updateOrderNasdaqOuch (hash : List UInt8 → UInt64) (om : OwnManager)
    (msg : Nasdaq.OuchMessage) : Except Fault OwnManager :=
  match msg with
  | .accepted m =>
    onNasdaqOuchAwaited hash om m.orderReferenceNumber m.side m.clOrdId (.nasdaqOuch msg)
      fun om slot => om.setOrder slot (FillerOuchNasdaq.fillOuchAccepted (om.orderPool slot) m)
  | .replaced m =>
    let fill (om : OwnManager) (slot : OrderSlot) : OwnManager :=
      let filled := FillerOuchNasdaq.fillOuchReplaced (om.orderPool slot) (om.ownFields slot) m
      om.setOwn slot filled.1 filled.2
    match om.sympackSymid.lookup (symbolPack m.symbol) with
    | none => .error .nullDereference
    | some stockLocate =>
      let k : OrderKey :=
        ⟨m.orderReferenceNumber, stockLocate, Venue.nasdaq.code, (sideOfChar m.side).code⟩
      match om.getOrderFromOurMap k with
      | some slot =>
        om.unlessDeferred slot (.nasdaqOuch msg) fun om =>
          .ok ((fill om slot).publishWith slot (.nasdaqOuch msg))
      | none =>
        onNasdaqOuchAwaited hash om m.orderReferenceNumber m.side m.clOrdId (.nasdaqOuch msg) fill
  | .rejected m =>
    match om.getOrderFromAwaitingAckOrders (hash m.clOrdId) with
    | none => .ok om
    | some slot =>
      let om := om.eraseAwaitingAck (om.orderPool slot).clientOrderId
      .ok ((om.fillOuchRejected slot m.timestamp).pushDb (.nasdaqOuch msg))
  | .cancelled m =>
    onNasdaqOuchRef om m.userRefNum (.nasdaqOuch msg) fun om slot =>
      (om.setOrder slot (FillerOuchNasdaq.fillOuchCancelled (om.orderPool slot) m)).publish slot
  | .executed m =>
    onNasdaqOuchRef om m.userRefNum (.nasdaqOuch msg) fun om slot =>
      (om.setOrder slot (FillerOuchNasdaq.fillOuchExecuted (om.orderPool slot) m)).publish slot
  | .modified m =>
    onNasdaqOuchRef om m.userRefNum (.nasdaqOuch msg) fun om slot =>
      (om.setOrder slot (FillerOuchNasdaq.fillOuchModified (om.orderPool slot) m)).publish slot
  | .brokenTrade m => onNasdaqOuchRef om m.userRefNum (.nasdaqOuch msg) fun om _ => om
  | .cancelPending m => onNasdaqOuchRef om m.userRefNum (.nasdaqOuch msg) fun om _ => om
  | .cancelReject m => onNasdaqOuchRef om m.userRefNum (.nasdaqOuch msg) fun om _ => om
  | .systemEvent => .ok (om.pushDb (.nasdaqOuch msg))
  | .accountQueryResponse => .ok (om.pushDb (.nasdaqOuch msg))

/-- A replacement that is known by its key is written, any other one is an acknowledgement. -/
theorem ouchReplaced_cases {hash : List UInt8 → UInt64} {om om' : OwnManager}
    {m : Nasdaq.OuchReplaced} (h : updateOrderNasdaqOuch hash om (.replaced m) = .ok om') :
    ∃ fill : OwnManager → OrderSlot → OwnManager,
      (fill = fun om slot => om.setOwn slot
        (FillerOuchNasdaq.fillOuchReplaced (om.orderPool slot) (om.ownFields slot) m).1
        (FillerOuchNasdaq.fillOuchReplaced (om.orderPool slot) (om.ownFields slot) m).2) ∧
      ∃ locate k, om.sympackSymid.lookup (symbolPack m.symbol) = some locate ∧
        k = ⟨m.orderReferenceNumber, locate, Venue.nasdaq.code, (sideOfChar m.side).code⟩ ∧
        ((∃ slot, om.getOrderFromOurMap k = some slot ∧
          om.unlessDeferred slot (.nasdaqOuch (.replaced m)) (fun om =>
            .ok ((fill om slot).publishWith slot (.nasdaqOuch (.replaced m)))) = .ok om') ∨
        (om.getOrderFromOurMap k = none ∧
          onNasdaqOuchAwaited hash om m.orderReferenceNumber m.side m.clOrdId
            (.nasdaqOuch (.replaced m)) fill = .ok om')) := by
  simp only [updateOrderNasdaqOuch] at h
  cases hid : om.sympackSymid.lookup (symbolPack m.symbol) with
  | none =>
    rw [hid] at h
    cases h
  | some locate =>
    rw [hid] at h
    simp only at h
    refine ⟨_, rfl, locate, _, rfl, rfl, ?_⟩
    cases hk : om.getOrderFromOurMap ⟨m.orderReferenceNumber, locate, Venue.nasdaq.code,
        (sideOfChar m.side).code⟩ with
    | some slot =>
      rw [hk] at h
      exact .inl ⟨slot, rfl, h⟩
    | none =>
      rw [hk] at h
      exact .inr ⟨rfl, h⟩

theorem ouchRejected_cases {hash : List UInt8 → UInt64} {om om' : OwnManager}
    {m : Nasdaq.OuchRejected} (h : updateOrderNasdaqOuch hash om (.rejected m) = .ok om') :
    (om.getOrderFromAwaitingAckOrders (hash m.clOrdId) = none ∧ om' = om) ∨
    ∃ slot, om.getOrderFromAwaitingAckOrders (hash m.clOrdId) = some slot ∧
      om' = (((om.eraseAwaitingAck (om.orderPool slot).clientOrderId).fillOuchRejected slot
        m.timestamp).pushDb (.nasdaqOuch (.rejected m))) := by
  simp only [updateOrderNasdaqOuch] at h
  cases hawait : om.getOrderFromAwaitingAckOrders (hash m.clOrdId) with
  | none =>
    rw [hawait] at h
    exact .inl ⟨rfl, (Except.ok.inj h).symm⟩
  | some slot =>
    rw [hawait] at h
    exact .inr ⟨slot, rfl, (Except.ok.inj h).symm⟩

end OwnManager

/-! ### All message types -/

/-- `MessageTypes_t`. -/
inductive StoreMessage
  | fix (msg : FIXMessage)
  | fixSession (msg : FIXSessionMessage)
  | bistItch (msg : Bist.ItchMessage)
  | nasdaqItch (msg : Nasdaq.ItchMessage)
  | bistOuch (msg : Bist.OuchMessage)
  | nasdaqOuch (msg : Nasdaq.OuchMessage)

namespace StoreMessage

/-- The message as an item for the database. -/
def toDb : StoreMessage → DbData
  | fix m => .fix m
  | fixSession m => .fixSession m
  | bistItch m => .bistItch m
  | nasdaqItch m => .nasdaqItch m
  | bistOuch m => .bistOuch m
  | nasdaqOuch m => .nasdaqOuch m

end StoreMessage

/-- An item for the database is a message, not an order. -/
def DbData.isMessage : DbData → Bool
  | .order _ => false
  | _ => true

@[simp] theorem StoreMessage.isMessage_toDb (msg : StoreMessage) : msg.toDb.isMessage = true := by
  cases msg <;> rfl

namespace OwnManager

/-- Run an ITCH handler on the part of the state it knows. -/
def onMarket (om : OwnManager) (f : OrderManager → Except Fault OrderManager) :
    Except Fault OwnManager :=
  (f om.toOrderManager).map fun market => { om with toOrderManager := market }

/-- What `store` does with a message: the handler of its type, and for a session
message only the hand-over to the database. -/
def update (hash : List UInt8 → UInt64) (om : OwnManager) : StoreMessage → Except Fault OwnManager
  | .fix m => updateOrderFix hash om m
  | .fixSession m => .ok (om.pushDb (.fixSession m))
  | .bistItch m => om.onMarket (·.updateOrderBist m)
  | .nasdaqItch m => om.onMarket (·.updateOrderNasdaq m)
  | .bistOuch m => updateOrderBistOuch hash om m
  | .nasdaqOuch m => updateOrderNasdaqOuch hash om m

end OwnManager

end TradingEngine
