/-
Messages that refer to what is not there (`update_order` of all types,
`handle_tick_size_definition`, `update_symbol_halt_status`).

The reference of a message is what `update_order` looks it up by: the symbol, the number the
order was sent with, the key, token or reference number of the order, the instrument of the
directory.  Some of the lookups are followed by a test, some are not, and the fillers that
find no instrument have changed the order by then.

* `UnknownReference` — one of these lookups fails;
* `PassedOver` — it is one with a test behind it, or a filler's that leaves nothing;
* `ignores_iff` — the message leaves orders, maps, book, venue and symbol state exactly
  then.
-/
import TradingEngine.StoreDisposition
import TradingEngine.UnknownAdds

namespace TradingEngine

open OrderManager EntryMessage

/-! ### The state that must stay -/

/-- Venue and symbol state, and the maps that only the handlers of own orders write. -/
structure SameDirectory (om om' : OrderManager) : Prop where
  awaitingAckOrders : om'.awaitingAckOrders = om.awaitingAckOrders
  sympackSymid : om'.sympackSymid = om.sympackSymid
  venueFlags : om'.venueFlags = om.venueFlags
  instrumentCache : om'.instrumentCache = om.instrumentCache
  tickSizeEntryPool : om'.tickSizeEntryPool = om.tickSizeEntryPool
  ourOrdersAllVenue : om'.ourOrdersAllVenue = om.ourOrdersAllVenue

theorem SameDirectory.refl (om : OrderManager) : SameDirectory om om :=
  ⟨rfl, rfl, rfl, rfl, rfl, rfl⟩

theorem SameDirectory.trans {om₁ om₂ om₃ : OrderManager} (h : SameDirectory om₁ om₂)
    (h' : SameDirectory om₂ om₃) : SameDirectory om₁ om₃ :=
  ⟨h'.awaitingAckOrders.trans h.awaitingAckOrders, h'.sympackSymid.trans h.sympackSymid,
    h'.venueFlags.trans h.venueFlags, h'.instrumentCache.trans h.instrumentCache,
    h'.tickSizeEntryPool.trans h.tickSizeEntryPool,
    h'.ourOrdersAllVenue.trans h.ourOrdersAllVenue⟩

/-- Orders, maps, book, venue and symbol state, as far as ITCH changes them. -/
structure SameMarketState (om om' : OrderManager) : Prop extends SameDirectory om om' where
  orderPool : om'.orderPool = om.orderPool
  marketOrders : om'.marketOrders = om.marketOrders
  nqItchRefnumOrdkey : om'.nqItchRefnumOrdkey = om.nqItchRefnumOrdkey
  marketbook : om'.marketbook = om.marketbook

theorem SameMarketState.refl (om : OrderManager) : SameMarketState om om :=
  ⟨SameDirectory.refl om, rfl, rfl, rfl, rfl⟩

/-- The queues are no part of it. -/
theorem sameMarketState_deferMessage (om : OrderManager) (d : DbData) (slot : OrderSlot) :
    SameMarketState om (om.deferMessage d slot) :=
  ⟨⟨rfl, rfl, rfl, rfl, rfl, rfl⟩, rfl, rfl, rfl, rfl⟩

theorem sameMarketState_handOn (om : OrderManager) (slot : OrderSlot) (d : DbData) :
    SameMarketState om ((om.publish slot).pushDb d) :=
  ⟨⟨rfl, rfl, rfl, rfl, rfl, rfl⟩, rfl, rfl, rfl, rfl⟩

theorem sameMarketState_handOn_iff {om om₁ : OrderManager} (slot : OrderSlot) (d : DbData) :
    SameMarketState om ((om₁.publish slot).pushDb d) ↔ SameMarketState om om₁ := by
  have h := sameMarketState_handOn om₁ slot d
  constructor
  · rintro ⟨hdir, hpool, horders, hrefs, hbook⟩
    refine ⟨?_, h.orderPool.symm.trans hpool, h.marketOrders.symm.trans horders,
      h.nqItchRefnumOrdkey.symm.trans hrefs, h.marketbook.symm.trans hbook⟩
    exact ⟨h.awaitingAckOrders.symm.trans hdir.awaitingAckOrders,
      h.sympackSymid.symm.trans hdir.sympackSymid, h.venueFlags.symm.trans hdir.venueFlags,
      h.instrumentCache.symm.trans hdir.instrumentCache,
      h.tickSizeEntryPool.symm.trans hdir.tickSizeEntryPool,
      h.ourOrdersAllVenue.symm.trans hdir.ourOrdersAllVenue⟩
  · rintro ⟨hdir, hpool, horders, hrefs, hbook⟩
    exact ⟨hdir.trans h.toSameDirectory, h.orderPool.trans hpool, h.marketOrders.trans horders,
      h.nqItchRefnumOrdkey.trans hrefs, h.marketbook.trans hbook⟩

/-- The same with what is kept about own orders. -/
structure SameState (om om' : OwnManager) : Prop
    extends SameMarketState om.toOrderManager om'.toOrderManager where
  ownFields : om'.ownFields = om.ownFields
  ourOrders : om'.ourOrders = om.ourOrders
  ourOrdersWtokenkey : om'.ourOrdersWtokenkey = om.ourOrdersWtokenkey
  nqOuchRefnumOrdkey : om'.nqOuchRefnumOrdkey = om.nqOuchRefnumOrdkey

/-- `update_order` returns, and nothing of it has changed. -/
def Ignores (hash : List UInt8 → UInt64) (om : OwnManager) (msg : StoreMessage) : Prop :=
  ∃ om', om.update hash msg = .ok om' ∧ SameState om om'

/-! ### Failed lookups -/

/-- Neither found nor waiting for its first acknowledgement. -/
def Unresolved (om : OwnManager) (found : Option OrderSlot) (clientOrderId : UInt64) : Prop :=
  found = none ∧ om.getOrderFromAwaitingAckOrders clientOrderId = none

/-- A symbol that is not known, or the order of a known symbol that is not found. -/
def UnknownOrder (om : OwnManager) (symbol : List UInt8) (key : UInt32 → OrderKey)
    (clientOrderId : UInt64) : Prop :=
  ∀ id, om.sympackSymid.lookup (symbolPack symbol) = some id →
    Unresolved om (om.getOrderFromOurMap (key id)) clientOrderId

/-- The instrument is not in the directory. -/
def Unlisted (om : OrderManager) (v : VenueIndex) (instrumentId : UInt32) : Prop :=
  om.getSymbolmeta v instrumentId = none

def UnknownBistItch (om : OrderManager) : Bist.ItchMessage → Prop
  | .addOrder m => Unlisted om 0 m.orderBookId
  | .orderExecuted m => om.getOrderFromMarketMap (bistKey m.orderId m.orderBookId m.side) = none
  | .orderExecutedWithPrice m =>
    om.getOrderFromMarketMap (bistKey m.orderId m.orderBookId m.side) = none
  | .orderDelete m => om.getOrderFromMarketMap (bistKey m.orderId m.orderBookId m.side) = none
  | .trade m =>
    om.getOrderFromMarketMap (bistKey m.orderId.toUInt64 m.orderBookId m.side) = none ∨
      Unlisted om 0 m.orderBookId
  | .orderBookState m => Unlisted om 0 m.orderBookId
  | .tickSizeTableEntry m => Unlisted om 0 m.orderBookId
  | .orderBookFlush m => Unlisted om 0 m.orderBookId
  | _ => False

def UnknownNasdaqItch (om : OrderManager) : Nasdaq.ItchMessage → Prop
  | .addOrder m => Unlisted om 1 m.stockLocate.toUInt32
  | .addOrderMpid m => Unlisted om 1 m.stockLocate.toUInt32
  | .cancel m => om.nasdaqSlot m.orderRef = none
  | .executed m => om.nasdaqSlot m.orderRef = none
  | .executedWithPrice m => om.nasdaqSlot m.orderRef = none
  | .delete m => om.nasdaqSlot m.orderRef = none
  | .replace m => om.nasdaqSlot m.orderRef = none ∨ Unlisted om 1 m.stockLocate.toUInt32
  | .trade m => om.nasdaqSlot m.orderRef = none ∨ Unlisted om 1 m.stockLocate.toUInt32
  | .tradingState m => Unlisted om 1 m.stockLocate.toUInt32
  | _ => False

def UnknownBistOuch (hash : List UInt8 → UInt64) (om : OwnManager) : Bist.OuchMessage → Prop
  | .accepted m => Unresolved om none (hash m.orderToken)
  | .replaced m =>
    Unresolved om (om.getOrderFromOurMap (OwnManager.bistOuchKey m.orderId m.orderBookId m.side))
      (hash m.orderToken)
  | .cancelled m =>
    Unresolved om (om.getOrderFromOurMap (OwnManager.bistOuchKey m.orderId m.orderBookId m.side))
      (hash m.orderToken)
  | .executed m =>
    Unresolved om (om.getOrderFromOurMapWtokenkey (hash m.orderToken)) (hash m.orderToken)
  | .rejected m =>
    Unresolved om (om.getOrderFromOurMapWtokenkey (hash m.orderToken)) (hash m.orderToken)

def UnknownNasdaqOuch (hash : List UInt8 → UInt64) (om : OwnManager) :
    Nasdaq.OuchMessage → Prop
  | .accepted m => Unresolved om none (hash m.clOrdId)
  | .replaced m => UnknownOrder om m.symbol
      (fun id => ⟨m.orderReferenceNumber, id, Venue.nasdaq.code, (sideOfChar m.side).code⟩)
      (hash m.clOrdId)
  | .rejected m => Unresolved om none (hash m.clOrdId)
  | .cancelled m => om.userRefSlot m.userRefNum = none
  | .executed m => om.userRefSlot m.userRefNum = none
  | .modified m => om.userRefSlot m.userRefNum = none
  | .brokenTrade m => om.userRefSlot m.userRefNum = none
  | .cancelPending m => om.userRefSlot m.userRefNum = none
  | .cancelReject m => om.userRefSlot m.userRefNum = none
  | .systemEvent => False
  | .accountQueryResponse => False

/-- The message refers to a symbol, a number, an instrument or an order that is not there. -/
def UnknownReference (hash : List UInt8 → UInt64) (om : OwnManager) : StoreMessage → Prop
  | .fix m => UnknownOrder om m.symbol (OwnManager.fixKey hash · m) (hash (cString m.clOrdId))
  | .fixSession _ => False
  | .bistItch m => UnknownBistItch om.toOrderManager m
  | .nasdaqItch m => UnknownNasdaqItch om.toOrderManager m
  | .bistOuch m => UnknownBistOuch hash om m
  | .nasdaqOuch m => UnknownNasdaqOuch hash om m

/-! ### Failed lookups that are passed over -/

/-- The slot that the message gets, if it gets one, holds the order that is written to it,
and neither the maps nor the book change. -/
structure EntryMessage.Rewrites (om : OrderManager) (msg : EntryMessage) (t : EntryTarget) :
    Prop where
  written : msg.written (om.orderPool (t.slot om)) = om.orderPool (t.slot om)
  keys : KeepsKeys om (om.orderPool (t.slot om)).key t
  book : msg.KeepsBook om.marketbook (om.orderPool (t.slot om))

def EntryMessage.PassedOver (om : OrderManager) (msg : EntryMessage) : Prop :=
  ∀ t, msg.target om = some t → msg.Rewrites om t

/-- The same for a trade of the order in a slot, which may be an own order. -/
def TradePassedOver (om : OrderManager) (found : Option OrderSlot) (written : Order → Order) :
    Prop :=
  ∀ slot, found = some slot →
    (om.orderPool slot).canModify = 0 ∨ (om.orderPool slot).isOurOrder = true ∨
      (written (om.orderPool slot) = om.orderPool slot ∧
        om.marketOrders.lookup (om.orderPool slot).key = none)

/-- What a trade has written when its filler looks the symbol up. -/
def writtenTradeBist (om : OrderManager) (m : Bist.Trade) (order : Order) : Order :=
  { order with
    orderId := om.bistTradeId + 1
    filledQuantity := order.filledQuantity + m.quantity.toUInt32
    lastExecQuantity := m.quantity.toUInt32
    lastUpdateTime := m.timestampNs.toUInt64
    remainingQuantity := 0
    instrumentId := m.orderBookId }

def writtenTradeNasdaq (m : Nasdaq.Trade) (order : Order) : Order :=
  { order with
    orderId := m.orderRef
    filledQuantity := order.filledQuantity + m.shares
    lastExecQuantity := m.shares
    lastUpdateTime := m.timestamp
    remainingQuantity := 0
    instrumentId := m.stockLocate.toUInt32 }

/-- The handlers of BIST metadata dereference what they look up. -/
def PassedOverBist (om : OrderManager) : Bist.ItchMessage → Prop
  | .addOrder m => (EntryMessage.add (.bist m)).PassedOver om
  | .trade m => TradePassedOver om
      (om.getOrderFromMarketMap (bistKey m.orderId.toUInt64 m.orderBookId m.side))
      (writtenTradeBist om m)
  | .orderBookState _ => False
  | .tickSizeTableEntry _ => False
  | .orderBookFlush _ => False
  | _ => True

def PassedOverNasdaq (om : OrderManager) : Nasdaq.ItchMessage → Prop
  | .addOrder m => (EntryMessage.add (.nasdaq m)).PassedOver om
  | .addOrderMpid m => (EntryMessage.add (.nasdaqMpid m)).PassedOver om
  | .replace m => (EntryMessage.replace m).PassedOver om
  | .trade m => TradePassedOver om (om.nasdaqSlot m.orderRef) (writtenTradeNasdaq m)
  | .tradingState _ => False
  | _ => True

/-- An order named by the number it was sent with is not tested. -/
def PassedOverNasdaqOuch (om : OwnManager) : Nasdaq.OuchMessage → Prop
  | .accepted _ => True
  | .rejected _ => True
  | .replaced m => symbolPack m.symbol ∈ om.sympackSymid
  | _ => False

/-- The lookup that fails has a test behind it, or it is a filler's and leaves nothing. -/
def PassedOver (om : OwnManager) : StoreMessage → Prop
  | .fix m => symbolPack m.symbol ∈ om.sympackSymid
  | .fixSession _ => True
  | .bistItch m => PassedOverBist om.toOrderManager m
  | .nasdaqItch m => PassedOverNasdaq om.toOrderManager m
  | .bistOuch _ => True
  | .nasdaqOuch m => PassedOverNasdaqOuch om m

/-! ### The messages of the market -/

section

variable {om : OrderManager} {slot : OrderSlot}

/-- Dropped or put off: only a queue has changed. -/
theorem ignored_update_of_no_target {msg : EntryMessage} (h : msg.target om = none) :
    ∃ om', msg.update om = .ok om' ∧ SameMarketState om om' := by
  obtain hsame | ⟨slot, hdeferred⟩ := EntryMessage.update_of_no_target h
  · exact ⟨om, hsame, SameMarketState.refl om⟩
  · exact ⟨_, hdeferred, sameMarketState_deferMessage om _ slot⟩

/-- A filler that releases the order writes none of the directory. -/
theorem sameDirectory_releaseOrder (om : OrderManager) (slot : OrderSlot) (order : Order) :
    SameDirectory om ((om.setOrder slot order).releaseOrder slot) :=
  ⟨rfl, rfl, rfl, rfl, rfl, rfl⟩

theorem sameDirectory_enter (om : OrderManager) (t : EntryTarget) :
    SameDirectory om (t.enter om) := by
  match t with
  | .stored slot => exact SameDirectory.refl om
  | .fresh k none => exact ⟨rfl, rfl, rfl, rfl, rfl, rfl⟩
  | .fresh k (some ref) => exact ⟨rfl, rfl, rfl, rfl, rfl, rfl⟩

theorem sameDirectory_released (om : OrderManager) (slot : OrderSlot) (msg : EntryMessage)
    (mb : MarketBook) : SameDirectory om (released om slot msg mb) := by
  have hrelease := sameDirectory_releaseOrder om slot (msg.written (om.orderPool slot))
  have hbook : SameDirectory ((om.setOrder slot (msg.written (om.orderPool slot))).releaseOrder
      slot) (((om.setOrder slot (msg.written (om.orderPool slot))).releaseOrder slot).setBook mb) :=
    ⟨rfl, rfl, rfl, rfl, rfl, rfl⟩
  exact (hrelease.trans hbook).trans (sameMarketState_handOn _ slot msg.stored).toSameDirectory

theorem sameMarketState_released_iff {msg : EntryMessage} {t : EntryTarget} {mb : MarketBook} :
    SameMarketState om (released (t.enter om) (t.slot om) msg mb) ↔
      mb = om.marketbook ∧ msg.written (om.orderPool (t.slot om)) = om.orderPool (t.slot om) ∧
        KeepsKeys om (msg.written (om.orderPool (t.slot om))).key t := by
  constructor
  · rintro ⟨-, hpool, horders, hrefs, hbook⟩
    rw [released_marketbook] at hbook
    rw [released_marketOrders, orderPool_enter] at horders
    rw [released_nqItchRefnumOrdkey] at hrefs
    rw [released_orderPool, orderPool_enter] at hpool
    refine ⟨hbook, ?_, keepsKeys_iff.mp ⟨horders, hrefs⟩⟩
    -- the slot holds what was written to it
    have hheld := congrFun hpool (t.slot om)
    rwa [Function.update_self] at hheld
  · rintro ⟨hbook, hwritten, hkeys⟩
    obtain ⟨horders, hrefs⟩ := keepsKeys_iff.mpr hkeys
    have hdir := (sameDirectory_enter om t).trans
      (sameDirectory_released (t.enter om) (t.slot om) msg mb)
    refine ⟨hdir, ?_, ?_, ?_, ?_⟩
    · rw [released_orderPool, orderPool_enter, hwritten, Function.update_eq_self]
    · rw [released_marketOrders, orderPool_enter, horders]
    · rw [released_nqItchRefnumOrdkey, hrefs]
    · rw [released_marketbook, hbook]

theorem ignored_update_iff (msg : EntryMessage)
    (hunknown : Unlisted om msg.venue msg.instrumentId) :
    (∃ om', msg.update om = .ok om' ∧ SameMarketState om om') ↔ msg.PassedOver om := by
  cases ht : msg.target om with
  | none =>
    refine iff_of_true (ignored_update_of_no_target ht) fun t h => ?_
    rw [ht] at h
    cases h
  | some t =>
    rw [EntryMessage.update_of_target hunknown ht]
    constructor
    · rintro ⟨om', h, hsame⟩ t' ht'
      rw [ht, Option.some.injEq] at ht'
      subst ht'
      cases hbook : msg.onBook om.marketbook (om.orderPool (t.slot om)) with
      | error e =>
        rw [hbook] at h
        cases h
      | ok mb =>
        rw [hbook, Except.map, Except.ok.injEq] at h
        subst h
        obtain ⟨rfl, hwritten, hkeys⟩ := sameMarketState_released_iff.mp hsame
        rw [hwritten] at hkeys
        exact ⟨hwritten, hkeys, EntryMessage.onBook_eq_self_iff.mp hbook⟩
    · intro hall
      obtain ⟨hwritten, hkeys, hbook⟩ := hall t ht
      refine ⟨_, by rw [EntryMessage.onBook_eq_self_iff.mpr hbook, Except.map], ?_⟩
      refine sameMarketState_released_iff.mpr ⟨rfl, hwritten, ?_⟩
      rw [hwritten]
      exact hkeys

/-! #### Trades -/

/-- A trade of an order that is there: own orders are left alone, others released for want of
a symbol. -/
theorem ignored_trade_iff {d : DbData} {fill : OrderManager → OrderManager}
    {written : Order → Order} {om₁ : OrderManager} (hsame : SameMarketState om om₁)
    (hown : (om.orderPool slot).isOurOrder = true → fill om = om)
    (hmarket : (om.orderPool slot).isOurOrder = false →
      fill om = (om₁.setOrder slot (written (om.orderPool slot))).releaseOrder slot) :
    (∃ om', om.onExisting slot d (fun om => .ok (fill om)) = .ok om' ∧ SameMarketState om om') ↔
      (om.orderPool slot).canModify = 0 ∨ (om.orderPool slot).isOurOrder = true ∨
        (written (om.orderPool slot) = om.orderPool slot ∧
          om.marketOrders.lookup (om.orderPool slot).key = none) := by
  -- a locked order defers the message
  by_cases hmodify : (om.orderPool slot).canModify = 0
  · exact iff_of_true ⟨_, if_pos hmodify, sameMarketState_deferMessage om d slot⟩ (.inl hmodify)
  · have hrun : om.onExisting slot d (fun om => .ok (fill om)) =
        .ok (((fill om).publish slot).pushDb d) := if_neg hmodify
    have hleft : (∃ om', om.onExisting slot d (fun om => .ok (fill om)) = .ok om' ∧
        SameMarketState om om') ↔ SameMarketState om (fill om) := by
      rw [hrun, ← sameMarketState_handOn_iff slot d]
      constructor
      · rintro ⟨om', h, hsame'⟩
        rw [Except.ok.injEq] at h
        rwa [h]
      · intro h
        exact ⟨_, rfl, h⟩
    rw [hleft, or_iff_right hmodify]
    cases hour : (om.orderPool slot).isOurOrder with
    | true =>
      rw [hown hour]
      exact iff_of_true (SameMarketState.refl om) (.inl rfl)
    | false =>
      -- releasing erases the key, so it changes nothing only where none is there
      rw [hmarket hour, or_iff_right Bool.false_ne_true]
      have hheld : (om₁.setOrder slot (written (om.orderPool slot))).orderPool slot =
          written (om.orderPool slot) := Function.update_self ..
      constructor
      · rintro ⟨-, hpool, horders, -, -⟩
        have hwritten : written (om.orderPool slot) = om.orderPool slot :=
          hheld.symm.trans (congrFun hpool slot)
        have herased : om₁.marketOrders.erase ((om₁.setOrder slot
          (written (om.orderPool slot))).orderPool slot).key = om.marketOrders := horders
        rw [hheld, hwritten, hsame.marketOrders] at herased
        exact ⟨hwritten, HashMap.erase_eq_self_iff.mp herased⟩
      · rintro ⟨hwritten, hkey⟩
        have hpool : (om₁.setOrder slot (written (om.orderPool slot))).orderPool =
            om.orderPool := by
          rw [OrderManager.setOrder, hwritten, hsame.orderPool, Function.update_eq_self]
        have horders : om₁.marketOrders.erase ((om₁.setOrder slot
            (written (om.orderPool slot))).orderPool slot).key = om.marketOrders := by
          rw [hpool, hsame.marketOrders]
          exact HashMap.erase_eq_self_iff.mpr hkey
        exact ⟨hsame.toSameDirectory.trans (sameDirectory_releaseOrder om₁ slot _), hpool, horders,
          hsame.nqItchRefnumOrdkey, hsame.marketbook⟩

theorem ignored_tradeBist_iff {m : Bist.Trade} (hunknown : Unlisted om 0 m.orderBookId)
    {d : DbData} :
    (∃ om', om.onExisting slot d (fun om => .ok (FillerItchBist.fillItchTrade om slot m)) =
        .ok om' ∧ SameMarketState om om') ↔
      (om.orderPool slot).canModify = 0 ∨ (om.orderPool slot).isOurOrder = true ∨
        (writtenTradeBist om m (om.orderPool slot) = om.orderPool slot ∧
          om.marketOrders.lookup (om.orderPool slot).key = none) := by
  have hsame : SameMarketState om { om with bistTradeId := om.bistTradeId + 1 } :=
    ⟨⟨rfl, rfl, rfl, rfl, rfl, rfl⟩, rfl, rfl, rfl, rfl⟩
  refine ignored_trade_iff hsame (fun hour => if_pos hour) fun hour => ?_
  have hnone : ({ om with bistTradeId := om.bistTradeId + 1 } : OrderManager).getSymbolmeta 0
      (writtenTradeBist om m (om.orderPool slot)).instrumentId = none := hunknown
  have hmarket : ¬(om.orderPool slot).isOurOrder = true := by
    rw [hour]
    exact Bool.false_ne_true
  exact (if_neg hmarket).trans (fillWithSymbol_of_unknown hnone)

theorem ignored_tradeNasdaq_iff {m : Nasdaq.Trade}
    (hunknown : Unlisted om 1 m.stockLocate.toUInt32) {d : DbData} :
    (∃ om', om.onExisting slot d (fun om => .ok (FillerItchNasdaq.fillItchTrade om slot m)) =
        .ok om' ∧ SameMarketState om om') ↔
      (om.orderPool slot).canModify = 0 ∨ (om.orderPool slot).isOurOrder = true ∨
        (writtenTradeNasdaq m (om.orderPool slot) = om.orderPool slot ∧
          om.marketOrders.lookup (om.orderPool slot).key = none) := by
  refine ignored_trade_iff (SameMarketState.refl om) (fun hour => if_pos hour) fun hour => ?_
  have hnone : om.getSymbolmeta 1 (writtenTradeNasdaq m (om.orderPool slot)).instrumentId = none :=
    hunknown
  have hmarket : ¬(om.orderPool slot).isOurOrder = true := by
    rw [hour]
    exact Bool.false_ne_true
  exact (if_neg hmarket).trans (fillWithSymbol_of_unknown hnone)

/-! #### All messages of a venue -/

/-- A fault is not ignored. -/
theorem ignored_of_fault_iff {α : Type} {x : Except Fault α} {P : α → Prop} {e : Fault}
    (hx : x = .error e) : (∃ a, x = .ok a ∧ P a) ↔ False := by
  refine iff_of_false ?_ id
  rintro ⟨a, h, -⟩
  rw [hx] at h
  cases h

theorem ignored_bist_iff {msg : Bist.ItchMessage} (hunknown : UnknownBistItch om msg) :
    (∃ om', om.updateOrderBist msg = .ok om' ∧ SameMarketState om om') ↔
      PassedOverBist om msg := by
  have hdropped : ∀ {k d process}, om.getOrderFromMarketMap k = none →
      ∃ om', om.onBistOrder k d process = .ok om' ∧ SameMarketState om om' := by
    intro k d process hk
    refine ⟨om, ?_, SameMarketState.refl om⟩
    rw [onBistOrder, hk]
  cases msg with
  | addOrder m => exact ignored_update_iff (.add (.bist m)) hunknown
  | orderExecuted m => exact iff_of_true (hdropped hunknown) trivial
  | orderExecutedWithPrice m => exact iff_of_true (hdropped hunknown) trivial
  | orderDelete m => exact iff_of_true (hdropped hunknown) trivial
  | trade m =>
    cases hk : om.getOrderFromMarketMap
        (bistKey m.orderId.toUInt64 m.orderBookId m.side) with
    | none =>
      refine iff_of_true (hdropped hk) fun slot h => ?_
      rw [hk] at h
      cases h
    | some slot =>
      have hunlisted : Unlisted om 0 m.orderBookId := by
        rcases hunknown with hnone | hunlisted
        · rw [hk] at hnone
          cases hnone
        · exact hunlisted
      simp only [updateOrderBist, onBistOrder, hk, PassedOverBist, TradePassedOver,
        Option.some.injEq, forall_eq']
      exact ignored_tradeBist_iff hunlisted
  | orderBookState m =>
    -- the metadata handlers of BIST read through the entry that is not there
    have hnone : om.updateSymbolHaltStatus 0 m.orderBookId
        (decide (m.stateName.take 6 ≠ activeState)) = .error .nullDereference := by
      rw [updateSymbolHaltStatus, show om.getSymbolmeta 0 m.orderBookId = none from hunknown]
    refine ignored_of_fault_iff (e := .nullDereference) ?_
    rw [updateOrderBist, hnone]
    rfl
  | tickSizeTableEntry m =>
    have hnone : om.handleTickSizeDefinitionBist m = .error .nullDereference := by
      rw [handleTickSizeDefinitionBist, show om.getSymbolmeta 0 m.orderBookId = none from hunknown]
    refine ignored_of_fault_iff (e := .nullDereference) ?_
    rw [updateOrderBist, hnone]
    rfl
  | orderBookFlush m =>
    have hnone : om.updateBistFlush m = .error .nullDereference := by
      rw [updateBistFlush, show om.getSymbolmeta 0 m.orderBookId = none from hunknown]
    refine ignored_of_fault_iff (e := .nullDereference) ?_
    rw [updateOrderBist, hnone]
    rfl
  | _ => exact absurd hunknown id

theorem ignored_nasdaq_iff {msg : Nasdaq.ItchMessage} (hunknown : UnknownNasdaqItch om msg) :
    (∃ om', om.updateOrderNasdaq msg = .ok om' ∧ SameMarketState om om') ↔
      PassedOverNasdaq om msg := by
  have hdropped : ∀ {ref d process}, om.nasdaqSlot ref = none →
      ∃ om', om.onNasdaqOrder ref d process = .ok om' ∧ SameMarketState om om' := by
    intro ref d process hslot
    refine ⟨om, ?_, SameMarketState.refl om⟩
    rw [onNasdaqOrder, hslot]
  cases msg with
  | addOrder m => exact ignored_update_iff (.add (.nasdaq m)) hunknown
  | addOrderMpid m => exact ignored_update_iff (.add (.nasdaqMpid m)) hunknown
  | cancel m => exact iff_of_true (hdropped hunknown) trivial
  | executed m => exact iff_of_true (hdropped hunknown) trivial
  | executedWithPrice m => exact iff_of_true (hdropped hunknown) trivial
  | delete m => exact iff_of_true (hdropped hunknown) trivial
  | replace m =>
    rcases hunknown with hnone | hunlisted
    · refine iff_of_true (hdropped hnone) fun t h => ?_
      rw [target, hnone] at h
      cases h
    · exact ignored_update_iff (.replace m) hunlisted
  | trade m =>
    -- a trade may find its order without finding its symbol
    cases hk : om.nasdaqSlot m.orderRef with
    | none =>
      refine iff_of_true (hdropped hk) fun slot h => ?_
      rw [hk] at h
      cases h
    | some slot =>
      have hunlisted : Unlisted om 1 m.stockLocate.toUInt32 := by
        rcases hunknown with hnone | hunlisted
        · rw [hk] at hnone
          cases hnone
        · exact hunlisted
      simp only [updateOrderNasdaq, onNasdaqOrder, hk, PassedOverNasdaq, TradePassedOver,
        Option.some.injEq, forall_eq']
      exact ignored_tradeNasdaq_iff hunlisted
  | tradingState m =>
    -- the symbol is read without a check
    have hnone : om.updateSymbolHaltStatus 1 m.stockLocate.toUInt32
        (decide (m.tradingState ≠ 84)) = .error .nullDereference := by
      rw [updateSymbolHaltStatus,
        show om.getSymbolmeta 1 m.stockLocate.toUInt32 = none from hunknown]
    refine ignored_of_fault_iff (e := .nullDereference) ?_
    rw [updateOrderNasdaq, hnone]
    rfl
  | _ => exact absurd hunknown id

end

/-! ### The messages about own orders -/

section

variable {hash : List UInt8 → UInt64} {om : OwnManager}

theorem SameState.refl (om : OwnManager) : SameState om om :=
  ⟨SameMarketState.refl om.toOrderManager, rfl, rfl, rfl, rfl⟩

/-- What ITCH changes is the market state. -/
theorem ignored_onMarket_iff (om : OwnManager) (f : OrderManager → Except Fault OrderManager) :
    (∃ om', om.onMarket f = .ok om' ∧ SameState om om') ↔
      ∃ market, f om.toOrderManager = .ok market ∧
        SameMarketState om.toOrderManager market := by
  unfold OwnManager.onMarket
  constructor
  · rintro ⟨om', h, hsame⟩
    cases hf : f om.toOrderManager with
    | error e =>
      rw [hf] at h
      cases h
    | ok market =>
      rw [hf, Except.map, Except.ok.injEq] at h
      subst h
      exact ⟨market, rfl, hsame.toSameMarketState⟩
  · rintro ⟨market, hf, hsame⟩
    refine ⟨{ om with toOrderManager := market }, ?_, hsame, rfl, rfl, rfl, rfl⟩
    rw [hf, Except.map]

theorem ignored_fix_iff {m : FIXMessage}
    (hunknown : UnknownReference hash om (.fix m)) :
    Ignores hash om (.fix m) ↔ symbolPack m.symbol ∈ om.sympackSymid := by
  unfold Ignores
  cases hid : om.sympackSymid.lookup (symbolPack m.symbol) with
  | none =>
    -- `sympack_symid_.find` is dereferenced untested
    have hfault : om.update hash (.fix m) = .error .nullDereference := by
      rw [OwnManager.update, OwnManager.updateOrderFix, hid]
    exact (ignored_of_fault_iff hfault).trans
      (iff_of_false id (Finmap.lookup_eq_none.mp hid))
  | some id =>
    refine iff_of_true ?_ (Finmap.mem_of_lookup_eq_some hid)
    obtain ⟨hkey, hawaited⟩ := hunknown id hid
    refine ⟨om, ?_, SameState.refl om⟩
    simp only [OwnManager.update, OwnManager.updateOrderFix, hid, hkey, hawaited]

/-- A key that is not found, of an order that does not wait. -/
theorem onBistOuchKey_of_unresolved {acknowledges : Bool} {k : OrderKey} {token : List UInt8}
    {d : DbData} {fill : OwnManager → OrderSlot → OwnManager}
    (h : Unresolved om (if acknowledges then none else om.getOrderFromOurMap k) (hash token)) :
    OwnManager.onBistOuchKey hash om acknowledges k token d fill = .ok om := by
  simp only [OwnManager.onBistOuchKey, h.1, h.2]

theorem onBistOuchToken_of_unresolved {token : List UInt8} {d : DbData}
    {finish : OwnManager → OrderSlot → OwnManager}
    (h : Unresolved om (om.getOrderFromOurMapWtokenkey (hash token)) (hash token)) :
    OwnManager.onBistOuchToken hash om token d finish = .ok om := by
  simp only [OwnManager.onBistOuchToken, h.1, h.2]

theorem update_bistOuch_of_unknown {m : Bist.OuchMessage} (hunknown : UnknownBistOuch hash om m) :
    OwnManager.updateOrderBistOuch hash om m = .ok om := by
  unfold OwnManager.updateOrderBistOuch
  cases m with
  | accepted m =>
    refine onBistOuchKey_of_unresolved ?_
    exact hunknown
  | replaced m =>
    refine onBistOuchKey_of_unresolved ?_
    exact hunknown
  | cancelled m =>
    refine onBistOuchKey_of_unresolved ?_
    exact hunknown
  | executed m =>
    refine onBistOuchToken_of_unresolved ?_
    exact hunknown
  | rejected m =>
    refine onBistOuchToken_of_unresolved ?_
    exact hunknown

/-- A number that is not known, or whose order is gone: neither is tested. -/
theorem onNasdaqOuchRef_of_none {userRefNum : UInt32} {d : DbData}
    {finish : OwnManager → OrderSlot → OwnManager} (h : om.userRefSlot userRefNum = none) :
    OwnManager.onNasdaqOuchRef om userRefNum d finish = .error .nullDereference := by
  unfold OwnManager.onNasdaqOuchRef
  rw [OwnManager.userRefSlot] at h
  cases hk : om.nqOuchRefnumOrdkey.lookup userRefNum with
  | none => rfl
  | some k =>
    rw [hk, Option.bind_some] at h
    simp only [h]

theorem ignored_nasdaqOuch_iff {m : Nasdaq.OuchMessage}
    (hunknown : UnknownNasdaqOuch hash om m) :
    Ignores hash om (.nasdaqOuch m) ↔ PassedOverNasdaqOuch om m := by
  have hawaited : ∀ {orderId side clOrdId d fill},
      om.getOrderFromAwaitingAckOrders (hash clOrdId) = none →
      OwnManager.onNasdaqOuchAwaited hash om orderId side clOrdId d fill = .ok om := by
    intro orderId side clOrdId d fill h
    simp only [OwnManager.onNasdaqOuchAwaited, h]
  cases m with
  | accepted m =>
    refine iff_of_true ⟨om, ?_, SameState.refl om⟩ trivial
    rw [OwnManager.update, OwnManager.updateOrderNasdaqOuch]
    exact hawaited hunknown.2
  | rejected m =>
    refine iff_of_true ⟨om, ?_, SameState.refl om⟩ trivial
    simp only [OwnManager.update, OwnManager.updateOrderNasdaqOuch, hunknown.2]
  | replaced m =>
    cases hid : om.sympackSymid.lookup (symbolPack m.symbol) with
    | none =>
      have hfault : om.update hash (.nasdaqOuch (.replaced m)) = .error .nullDereference := by
        simp only [OwnManager.update, OwnManager.updateOrderNasdaqOuch, hid]
      exact (ignored_of_fault_iff hfault).trans
        (iff_of_false id (Finmap.lookup_eq_none.mp hid))
    | some id =>
      refine iff_of_true ?_ (Finmap.mem_of_lookup_eq_some hid)
      obtain ⟨hkey, hawait⟩ := hunknown id hid
      refine ⟨om, ?_, SameState.refl om⟩
      simp only [OwnManager.update, OwnManager.updateOrderNasdaqOuch, hid, hkey]
      exact hawaited hawait
  -- the messages that name their order by number dereference what they find
  | cancelled m => exact ignored_of_fault_iff (onNasdaqOuchRef_of_none hunknown)
  | executed m => exact ignored_of_fault_iff (onNasdaqOuchRef_of_none hunknown)
  | modified m => exact ignored_of_fault_iff (onNasdaqOuchRef_of_none hunknown)
  | brokenTrade m => exact ignored_of_fault_iff (onNasdaqOuchRef_of_none hunknown)
  | cancelPending m => exact ignored_of_fault_iff (onNasdaqOuchRef_of_none hunknown)
  | cancelReject m => exact ignored_of_fault_iff (onNasdaqOuchRef_of_none hunknown)
  | systemEvent => exact absurd hunknown id
  | accountQueryResponse => exact absurd hunknown id

/-- **Which unknown references are ignored.**  For every state and every message with a
reference to what is not there, `update_order` returns with orders, maps, book, venue and
symbol state as they were exactly when the lookup that fails is one that is passed over. -/
theorem ignores_iff {msg : StoreMessage} (hunknown : UnknownReference hash om msg) :
    Ignores hash om msg ↔ PassedOver om msg := by
  cases msg with
  | fix m => exact ignored_fix_iff hunknown
  | fixSession m => exact absurd hunknown id
  | bistItch m =>
    exact (ignored_onMarket_iff om (·.updateOrderBist m)).trans (ignored_bist_iff hunknown)
  | nasdaqItch m =>
    exact (ignored_onMarket_iff om (·.updateOrderNasdaq m)).trans (ignored_nasdaq_iff hunknown)
  | bistOuch m =>
    exact iff_of_true ⟨om, update_bistOuch_of_unknown hunknown, SameState.refl om⟩ trivial
  | nasdaqOuch m => exact ignored_nasdaqOuch_iff hunknown

/-- The execution of an order of another store is passed over. -/
theorem ignores_iff_unknownExecution :
    Ignores (fun _ => 0) {} (.bistItch (.orderExecuted
      { orderId := 1, orderBookId := 5, executedQuantity := 10, side := 66 })) := by
  have hunknown : UnknownReference (fun _ => 0) {} (.bistItch (.orderExecuted
      { orderId := 1, orderBookId := 5, executedQuantity := 10, side := 66 })) := rfl
  exact (ignores_iff hunknown).mpr trivial

/-- The acknowledgement of an order to buy GARAN. -/
def acknowledgeGaran : FIXMessage :=
  { msgType := 56, execType := 48, ordStatus := 48, side := 1, quantity := 10, price := 100
    symbol := [71, 65, 82, 65, 78], orderId := [49], clOrdId := [50] }

/-- **Unknown references are dereferenced**: a symbol that no directory message has named
yet, the number of an order that is gone, the tick size of an instrument that is not
listed. -/
theorem unknownReferences_dereferenced :
    (UnknownReference (fun _ => 0) {} (.fix acknowledgeGaran) ∧
      OwnManager.update (fun _ => 0) {} (.fix acknowledgeGaran) = .error .nullDereference) ∧
    (UnknownReference (fun _ => 0) {} (.nasdaqOuch (.brokenTrade { userRefNum := 1 })) ∧
      OwnManager.update (fun _ => 0) {} (.nasdaqOuch (.brokenTrade { userRefNum := 1 })) =
        .error .nullDereference) ∧
    (UnknownReference (fun _ => 0) {} (.bistItch (.tickSizeTableEntry
        { orderBookId := 5, tickSize := 1, priceFrom := 0, priceTo := 100 })) ∧
      OwnManager.update (fun _ => 0) {} (.bistItch (.tickSizeTableEntry
        { orderBookId := 5, tickSize := 1, priceFrom := 0, priceTo := 100 })) =
          .error .nullDereference) ∧
    ¬Ignores (fun _ => 0) {} (.fix acknowledgeGaran) := by
  have hfix : OwnManager.update (fun _ => 0) {} (.fix acknowledgeGaran) =
      .error .nullDereference := rfl
  refine ⟨⟨fun id h => ?_, hfix⟩, ⟨rfl, rfl⟩, ⟨rfl, rfl⟩, fun h => ?_⟩
  · cases h
  · obtain ⟨om', hok, -⟩ := h
    rw [hfix] at hok
    cases hok

end

end TradingEngine
