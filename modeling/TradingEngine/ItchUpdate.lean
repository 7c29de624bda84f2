/-
`OrderManager::update_order` for the ITCH messages of both venues
(`order_management/OrderManager.cpp`).

BIST orders are looked up by the key of the message; NASDAQ orders by the
reference number, which gives the key they were added under, which gives the
slot.  A message whose order is not found is dropped, except that an add takes a
new slot unless it looks like an own order that still waits for its
acknowledgement.  A message whose order may not be modified now is deferred.
Both early exits also skip the hand-over of the message to the database.
-/
import TradingEngine.ItchFillers

namespace TradingEngine

namespace OrderManager

/-- Apply a book operation to the order in a slot. -/
def onBook (om : OrderManager) (slot : OrderSlot)
    (f : MarketBook → Order → Except Fault MarketBook) : Except Fault OrderManager := do
  let mb ← f om.marketbook (om.orderPool slot)
  .ok (om.setBook mb)

/-- An existing order: defer the message if the order may not be modified,
otherwise process it and hand order and message on. -/
def onExisting (om : OrderManager) (slot : OrderSlot) (msg : DbData)
    (process : OrderManager → Except Fault OrderManager) : Except Fault OrderManager :=
  if (om.orderPool slot).canModify = 0 then .ok (om.deferMessage msg slot)
  else do
    let om ← process om
    .ok ((om.publish slot).pushDb msg)

theorem onExisting_of_ok {om om' : OrderManager} {slot : OrderSlot} {msg : DbData}
    {process : OrderManager → Except Fault OrderManager}
    (hmodify : (om.orderPool slot).canModify ≠ 0) (hp : process om = .ok om') :
    om.onExisting slot msg process = .ok ((om'.publish slot).pushDb msg) := by
  simp only [onExisting, if_neg hmodify, hp, Bind.bind, Except.bind]

/-- Fill the order in a slot from a message, then change the book. -/
def fillThenBook (fill : Order → Order) (f : MarketBook → Order → Except Fault MarketBook)
    (slot : OrderSlot) (om : OrderManager) : Except Fault OrderManager :=
  (om.setOrder slot (fill (om.orderPool slot))).onBook slot f

/-- A filler that rewrites the slot, and the book operation on what it left
there. -/
theorem onBook_setOrder {om : OrderManager} {slot : OrderSlot} {order : Order}
    {f : MarketBook → Order → Except Fault MarketBook} {mb : MarketBook}
    (hmb : f om.marketbook order = .ok mb) :
    (om.setOrder slot order).onBook slot f = .ok ((om.setOrder slot order).setBook mb) := by
  simp only [onBook, setOrder, Function.update_self, hmb, Bind.bind, Except.bind]

theorem fillThenBook_of_ok {om : OrderManager} {slot : OrderSlot} {fill : Order → Order}
    {f : MarketBook → Order → Except Fault MarketBook} {mb : MarketBook}
    (hmb : f om.marketbook (fill (om.orderPool slot)) = .ok mb) :
    fillThenBook fill f slot om = .ok ((om.setOrder slot (fill (om.orderPool slot))).setBook mb) :=
  onBook_setOrder hmb

/-! ### BIST -/

/-- The key `update_order` looks a BIST order up by. -/
def bistKey (orderId : UInt64) (orderBookId : UInt32) (side : UInt8) : OrderKey :=
  ⟨orderId, orderBookId, Venue.bist.code, (sideOfChar side).code⟩

/-- A message about an order that must exist. -/
def onBistOrder (om : OrderManager) (k : OrderKey) (msg : Bist.ItchMessage)
    (process : OrderSlot → OrderManager → Except Fault OrderManager) : Except Fault OrderManager :=
  match om.getOrderFromMarketMap k with
  | none => .ok om
  | some slot => om.onExisting slot (.bistItch msg) (process slot)

theorem onBistOrder_of_found {om om' : OrderManager} {k : OrderKey} {slot : OrderSlot}
    {msg : Bist.ItchMessage} {process : OrderSlot → OrderManager → Except Fault OrderManager}
    (hk : om.getOrderFromMarketMap k = some slot) (hmodify : (om.orderPool slot).canModify ≠ 0)
    (hp : process slot om = .ok om') :
    om.onBistOrder k msg process = .ok ((om'.publish slot).pushDb (.bistItch msg)) := by
  simp only [onBistOrder, hk]
  exact onExisting_of_ok hmodify hp

/-- The filler and the book operation of an add. -/
def addBist (msg : Bist.AddOrder) (slot : OrderSlot) (om : OrderManager) :
    Except Fault OrderManager :=
  (FillerItchBist.fillItchAdd om slot msg).onBook slot MarketBook.addOrder

/-- The branch of an add. -/
def updateBistAdd (om : OrderManager) (msg : Bist.AddOrder) : Except Fault OrderManager :=
  let k := bistKey msg.orderId msg.orderBookId msg.side
  match om.getOrderFromMarketMap k with
  | some slot => om.onExisting slot (.bistItch (.addOrder msg)) (addBist msg slot)
  | none =>
    -- the echo of an own order: it gets no slot and nothing is published
    if om.awaitingAckOrders ≠ ∅ ∧ om.isMatchedPendingOrderBist msg then .ok om
    else do
      let (slot, om) := om.addMarketOrder k
      let om ← addBist msg slot om
      .ok ((om.publish slot).pushDb (.bistItch (.addOrder msg)))

theorem updateBistAdd_of_found {om : OrderManager} {msg : Bist.AddOrder} {slot : OrderSlot}
    (hk : om.getOrderFromMarketMap (bistKey msg.orderId msg.orderBookId msg.side) = some slot) :
    om.updateBistAdd msg = om.onExisting slot (.bistItch (.addOrder msg)) (addBist msg slot) := by
  simp only [updateBistAdd, hk]

theorem updateBistAdd_of_pending {om : OrderManager} {msg : Bist.AddOrder}
    (hk : om.getOrderFromMarketMap (bistKey msg.orderId msg.orderBookId msg.side) = none)
    (hp : om.awaitingAckOrders ≠ ∅ ∧ om.isMatchedPendingOrderBist msg) :
    om.updateBistAdd msg = .ok om := by
  simp only [updateBistAdd, hk, if_pos hp]

/-- An add that takes a new slot. -/
theorem updateBistAdd_of_new {om om' : OrderManager} {msg : Bist.AddOrder}
    (hk : om.getOrderFromMarketMap (bistKey msg.orderId msg.orderBookId msg.side) = none)
    (hp : ¬(om.awaitingAckOrders ≠ ∅ ∧ om.isMatchedPendingOrderBist msg))
    (hadd : addBist msg om.marketOrderSlot
      (om.addMarketOrder (bistKey msg.orderId msg.orderBookId msg.side)).2 = .ok om') :
    om.updateBistAdd msg =
      .ok ((om'.publish om.marketOrderSlot).pushDb (.bistItch (.addOrder msg))) := by
  have hslot : (om.addMarketOrder (bistKey msg.orderId msg.orderBookId msg.side)).1 =
      om.marketOrderSlot := rfl
  simp only [updateBistAdd, hk, if_neg hp, hslot, hadd, Bind.bind, Except.bind]

/-- The branch of an order book flush. -/
def updateBistFlush (om : OrderManager) (msg : Bist.OrderBookFlush) : Except Fault OrderManager :=
  match om.getSymbolmeta 0 msg.orderBookId with
  | none => .error .nullDereference
  | some m => do
    let symbolIndex := om.hashtables.getIndex 0 m.symbol
    let mb ← om.marketbook.flush 0 symbolIndex
    (om.setBook mb).handleFlushStatus 0 symbolIndex

/-- `"ACTIVE"`, the state name of a book that is not halted. -/
def activeState : List UInt8 := [65, 67, 84, 73, 86, 69]

/-- `update_order` for a BIST ITCH message. -/
def updateOrderBist (om : OrderManager) (msg : Bist.ItchMessage) : Except Fault OrderManager :=
  match msg with
  | .addOrder m => om.updateBistAdd m
  | .orderExecuted m =>
    om.onBistOrder (bistKey m.orderId m.orderBookId m.side) msg
      (fillThenBook (FillerItchBist.fillItchExecReport · m) MarketBook.execOrder)
  | .orderExecutedWithPrice m =>
    om.onBistOrder (bistKey m.orderId m.orderBookId m.side) msg
      (fillThenBook (FillerItchBist.fillItchExecReportWithPrice · m) MarketBook.execOrder)
  | .orderDelete m =>
    om.onBistOrder (bistKey m.orderId m.orderBookId m.side) msg
      (fillThenBook (FillerItchBist.fillItchDelete · m) MarketBook.deleteOrder)
  | .trade m =>
    om.onBistOrder (bistKey m.orderId.toUInt64 m.orderBookId m.side) msg
      fun slot om => .ok (FillerItchBist.fillItchTrade om slot m)
  | .orderBookDirectory m => .ok ((om.handleInstrumentDefinitionBist m).pushDb (.bistItch msg))
  | .orderBookState m => do
    let om ← om.updateSymbolHaltStatus 0 m.orderBookId (decide (m.stateName.take 6 ≠ activeState))
    .ok (om.pushDb (.bistItch msg))
  | .systemEvent m =>
    .ok ((om.updateVenueHaltStatus 0 (if m.eventCode = 79 then 0 else 1) 0).pushDb (.bistItch msg))
  | .tickSizeTableEntry m => do
    let om ← om.handleTickSizeDefinitionBist m
    .ok (om.pushDb (.bistItch msg))
  | .orderBookFlush m => do
    let om ← om.updateBistFlush m
    .ok (om.pushDb (.bistItch msg))
  | .seconds => .ok (om.pushDb (.bistItch msg))
  | .combinationOrderBookLeg => .ok (om.pushDb (.bistItch msg))
  | .shortSellStatus => .ok (om.pushDb (.bistItch msg))
  | .equilibriumPriceUpdate => .ok (om.pushDb (.bistItch msg))

/-! ### NASDAQ -/

/-- The slot of a NASDAQ order: reference number to key, key to slot. -/
def nasdaqSlot (om : OrderManager) (orderRef : UInt64) : Option OrderSlot :=
  match om.nqItchRefnumOrdkey.lookup orderRef with
  | none => none
  | some k => om.getOrderFromMarketMap k

/-- A message about an order that must exist. -/
def onNasdaqOrder (om : OrderManager) (orderRef : UInt64) (msg : Nasdaq.ItchMessage)
    (process : OrderSlot → OrderManager → Except Fault OrderManager) : Except Fault OrderManager :=
  match om.nasdaqSlot orderRef with
  | none => .ok om
  | some slot => om.onExisting slot (.nasdaqItch msg) (process slot)

theorem onNasdaqOrder_of_found {om om' : OrderManager} {ref : UInt64} {slot : OrderSlot}
    {msg : Nasdaq.ItchMessage} {process : OrderSlot → OrderManager → Except Fault OrderManager}
    (hk : om.nasdaqSlot ref = some slot) (hmodify : (om.orderPool slot).canModify ≠ 0)
    (hp : process slot om = .ok om') :
    om.onNasdaqOrder ref msg process = .ok ((om'.publish slot).pushDb (.nasdaqItch msg)) := by
  simp only [onNasdaqOrder, hk]
  exact onExisting_of_ok hmodify hp

/-- The key a NASDAQ order is added under; its venue is that of BIST. -/
def nasdaqKey (msg : Nasdaq.AddOrder) : OrderKey :=
  ⟨msg.orderRef, msg.stockLocate.toUInt32, Venue.bist.code, (sideOfChar msg.side).code⟩

/-- A new market order whose reference number is entered. -/
def addNasdaqOrder (om : OrderManager) (msg : Nasdaq.AddOrder) : OrderManager :=
  { (om.addMarketOrder (nasdaqKey msg)).2 with
    nqItchRefnumOrdkey := HashMap.emplace om.nqItchRefnumOrdkey msg.orderRef (nasdaqKey msg) }

/-- The branch of the two adds; `fill` is the filler of the message type. -/
def updateNasdaqAdd (om : OrderManager) (msg : Nasdaq.AddOrder) (stored : Nasdaq.ItchMessage)
    (fill : OrderManager → OrderSlot → Nasdaq.AddOrder → OrderManager) :
    Except Fault OrderManager :=
  if om.awaitingAckOrders ≠ ∅ ∧ om.isMatchedPendingOrderNasdaq msg then .ok om
  else do
    let slot := (om.addMarketOrder (nasdaqKey msg)).1
    let om ← (fill (om.addNasdaqOrder msg) slot msg).onBook slot MarketBook.addOrder
    .ok ((om.publish slot).pushDb (.nasdaqItch stored))

theorem updateNasdaqAdd_of_new {om om' : OrderManager} {msg : Nasdaq.AddOrder}
    {stored : Nasdaq.ItchMessage}
    {fill : OrderManager → OrderSlot → Nasdaq.AddOrder → OrderManager}
    (hp : ¬(om.awaitingAckOrders ≠ ∅ ∧ om.isMatchedPendingOrderNasdaq msg))
    (hadd : (fill (om.addNasdaqOrder msg) om.marketOrderSlot msg).onBook om.marketOrderSlot
      MarketBook.addOrder = .ok om') :
    om.updateNasdaqAdd msg stored fill =
      .ok ((om'.publish om.marketOrderSlot).pushDb (.nasdaqItch stored)) := by
  have hslot : (om.addMarketOrder (nasdaqKey msg)).1 = om.marketOrderSlot := rfl
  simp only [updateNasdaqAdd, if_neg hp, hslot, hadd, Bind.bind, Except.bind]

/-- A replace takes the old quantity off the book, fills the order and adds
it. -/
def replaceNasdaq (msg : Nasdaq.Replace) (slot : OrderSlot) (om : OrderManager) :
    Except Fault OrderManager := do
  -- the map from references to keys is not touched, so the new reference is
  -- never entered
  let om ← om.onBook slot MarketBook.deleteOrder
  (FillerItchNasdaq.fillItchReplace om slot msg).onBook slot MarketBook.addOrder

/-- The halt flag of `event_map`; the codes are `O`, `M`, `E` and `C`. -/
def nasdaqEventHalted (code : UInt8) : UInt8 :=
  if code = 79 ∨ code = 77 ∨ code = 69 ∨ code = 67 then 1 else 0

/-- `update_order` for a NASDAQ ITCH message. -/
def updateOrderNasdaq (om : OrderManager) (msg : Nasdaq.ItchMessage) : Except Fault OrderManager :=
  match msg with
  | .addOrder m => om.updateNasdaqAdd m msg FillerItchNasdaq.fillItchAdd
  | .addOrderMpid m => om.updateNasdaqAdd m msg FillerItchNasdaq.fillItchAddMpid
  | .cancel m =>
    om.onNasdaqOrder m.orderRef msg
      (fillThenBook (FillerItchNasdaq.fillItchCancel · m) MarketBook.cancelOrder)
  | .executed m =>
    om.onNasdaqOrder m.orderRef msg
      (fillThenBook (FillerItchNasdaq.fillItchExecReport · m) MarketBook.execOrder)
  | .executedWithPrice m =>
    om.onNasdaqOrder m.orderRef msg
      -- the filler has put the execution price into the order, so the book is
      -- reduced at that price
      (fillThenBook (FillerItchNasdaq.fillItchExecReportWithPrice · m) MarketBook.execOrder)
  | .delete m =>
    om.onNasdaqOrder m.orderRef msg
      (fillThenBook (FillerItchNasdaq.fillItchDelete · m) MarketBook.deleteOrder)
  | .replace m => om.onNasdaqOrder m.orderRef msg (replaceNasdaq m)
  | .trade m =>
    om.onNasdaqOrder m.orderRef msg fun slot om => .ok (FillerItchNasdaq.fillItchTrade om slot m)
  | .stockDirectory m => do
    let om ← om.handleInstrumentDefinitionNasdaq m
    .ok (om.pushDb (.nasdaqItch msg))
  | .tradingState m => do
    let om ← om.updateSymbolHaltStatus 1 m.stockLocate.toUInt32 (decide (m.tradingState ≠ 84))
    .ok (om.pushDb (.nasdaqItch msg))
  | .systemEvent m =>
    -- `event_map` has 128 entries and the code is not checked
    if m.eventCode < 128 then
      .ok ((om.updateVenueHaltStatus 1 (nasdaqEventHalted m.eventCode) 0).pushDb (.nasdaqItch msg))
    else .error .outOfBounds

end OrderManager

end TradingEngine
