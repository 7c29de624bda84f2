/-
Rejected orders and their slots (the reject branches of `OrderManager::update_order`,
`fill_ouch_rejected`).

A reject of an order that was never acknowledged takes the order out of
`awaitingAck_orders_` and gives its slot back to the strategy.  The two OUCH handlers
erase the order before they push the slot.  The FIX handler pushes it and returns: the
order goes on waiting, and the next reject pushes its slot again.

* `outstanding_step` — rejects that release their orders, acceptances and the strategy's
  reuse of slots keep what holds between the maps and the free slots;
* `released_once_iff` — over every run each reject releases its order, and nothing is
  found by a rejected id any more, exactly when no FIX reject names an order that waits
  and the queue has room for the slots that come back.
-/
import TradingEngine.OuchFills
import TradingEngine.OwnSlots

namespace TradingEngine

open FallibleRun OwnManager

/-! ### Rejects -/

/-- The client id a reject names: an execution report with `OrdStatus` 8, or the reject of
either OUCH. -/
def StoreMessage.rejectedId (hash : List UInt8 → UInt64) : StoreMessage → Option UInt64
  | .fix m => if m.msgType = 56 ∧ m.ordStatus = 56 then some (hash (cString m.clOrdId)) else none
  | .bistOuch (.rejected m) => some (hash m.orderToken)
  | .nasdaqOuch (.rejected m) => some (hash m.clOrdId)
  | _ => none

/-- The acceptance of an order: an execution report with `OrdStatus` 0 and a type that the
handler knows, or that of either OUCH. -/
def StoreMessage.Accepts : StoreMessage → Prop
  | .fix m => m.msgType = 56 ∧ m.ordStatus = 48 ∧ allowedExecType m.execType
  | .bistOuch (.accepted _) => True
  | .nasdaqOuch (.accepted _) => True
  | _ => False

namespace OwnManager

/-- The order that a reject takes out of those that wait, and its slot. -/
def rejects (hash : List UInt8 → UInt64) (om : OwnManager) (msg : StoreMessage) :
    Option (UInt64 × OrderSlot) :=
  (msg.rejectedId hash).bind fun id => (om.awaitingAckOrders.lookup id).map (id, ·)

/-- Neither of the maps by client id has the id. -/
def Unreachable (om : OwnManager) (id : UInt64) : Prop :=
  om.awaitingAckOrders.lookup id = none ∧ om.ourOrdersWtokenkey.lookup id = none

theorem rejects_eq_some {hash : List UInt8 → UInt64} {om : OwnManager} {msg : StoreMessage}
    {id : UInt64} {slot : OrderSlot} (h : om.rejects hash msg = some (id, slot)) :
    msg.rejectedId hash = some id ∧ om.awaitingAckOrders.lookup id = some slot := by
  obtain ⟨id', hid, h⟩ := Option.bind_eq_some_iff.mp h
  obtain ⟨slot', hslot, h⟩ := Option.map_eq_some_iff.mp h
  obtain ⟨rfl, rfl⟩ := Prod.mk.inj h
  exact ⟨hid, hslot⟩

theorem rejects_of_id {hash : List UInt8 → UInt64} {om : OwnManager} {msg : StoreMessage}
    {id : UInt64} (hid : msg.rejectedId hash = some id) :
    om.rejects hash msg = (om.awaitingAckOrders.lookup id).map (id, ·) := by
  rw [rejects, hid, Option.bind_some]

theorem rejects_of_none {hash : List UInt8 → UInt64} {om : OwnManager} {msg : StoreMessage}
    (hid : msg.rejectedId hash = none) : om.rejects hash msg = none := by
  rw [rejects, hid, Option.bind_none]

end OwnManager

/-- The store and the strategy, and the orders that were rejected. -/
structure RejectDesk where
  slots : SlotSystem
  rejected : List UInt64 := []

namespace RejectDesk

variable {hash : List UInt8 → UInt64} {s s' : RejectDesk}

def free (s : RejectDesk) : List OrderSlot := s.slots.om.storeToStrategyFreeSlot.items

/-- A reject of an order that waits is noted. -/
def step (hash : List UInt8 → UInt64) (s : RejectDesk) (e : SlotEvent) :
    Except Fault RejectDesk :=
  (s.slots.step hash e).map fun slots =>
    { slots := slots
      rejected := match e with
        | .store msg => ((s.slots.om.rejects hash msg).map Prod.fst).toList ++ s.rejected
        | _ => s.rejected }

/-- The messages are rejects, and acceptances while the map of own orders is below its
threshold.  A new order has an id of its own and is not locked. -/
def Expected (hash : List UInt8 → UInt64) (s : RejectDesk) : SlotEvent → Prop
  | .takeSlot => True
  | .send slot order => slot ∈ s.slots.strategy →
      order.status = .unknown ∧ order.canModify ≠ 0 ∧ s.slots.om.Unreachable order.clientOrderId ∧
        order.clientOrderId ∉ s.rejected
  | .store msg => (msg.rejectedId hash).isSome ∨ msg.Accepts ∧ ¬s.slots.om.Sweeps

/-- A message gives back the slot of the order it rejects, once, and no other, and no
order is found by a rejected id. -/
def ReleasedOnce (hash : List UInt8 → UInt64) (s : RejectDesk) (e : SlotEvent) : Prop :=
  ∀ s', s.step hash e = .ok s' →
    (∀ msg, e = .store msg →
      s'.free = s.free ++ ((s.slots.om.rejects hash msg).map Prod.snd).toList) ∧
    ∀ id ∈ s'.rejected, s'.slots.om.Unreachable id

/-- A FIX reject names no order that waits; for the order of another reject the queue has
room. -/
def Releasable (hash : List UInt8 → UInt64) (s : RejectDesk) : SlotEvent → Prop
  | .store (.fix m) => s.slots.om.rejects hash (.fix m) = none
  | .store msg => ∀ id slot, s.slots.om.rejects hash msg = some (id, slot) → s.free.length < 1024
  | _ => True

/-! ### The maps and the free slots -/

/-- What holds between messages: an order that waits waits under its own id, is new, open
to changes and known by nothing else; one that is known by its token is not new; a slot
that is free or with the strategy holds no order. -/
structure Outstanding (s : RejectDesk) : Prop where
  id : ∀ id slot, s.slots.om.awaitingAckOrders.lookup id = some slot →
    (s.slots.om.orderPool slot).clientOrderId = id
  new : ∀ id slot, s.slots.om.awaitingAckOrders.lookup id = some slot →
    (s.slots.om.orderPool slot).status = .unknown ∧ (s.slots.om.orderPool slot).canModify ≠ 0
  token : ∀ id slot, s.slots.om.awaitingAckOrders.lookup id = some slot →
    s.slots.om.ourOrdersWtokenkey.lookup id = none
  ours : ∀ k slot, s.slots.om.ourOrders.lookup k = some slot →
    ∀ id, s.slots.om.awaitingAckOrders.lookup id ≠ some slot
  known : ∀ id slot, s.slots.om.ourOrdersWtokenkey.lookup id = some slot →
    (s.slots.om.orderPool slot).status ≠ .unknown
  unused : ∀ slot ∈ s.free ++ s.slots.strategy,
    (∀ id, s.slots.om.awaitingAckOrders.lookup id ≠ some slot) ∧
    (∀ k, s.slots.om.ourOrders.lookup k ≠ some slot) ∧
    ∀ id, s.slots.om.ourOrdersWtokenkey.lookup id ≠ some slot
  once : (s.free ++ s.slots.strategy).Nodup
  rejected : ∀ id ∈ s.rejected, s.slots.om.Unreachable id

/-- An order waits under one id. -/
theorem Outstanding.id_eq (h : s.Outstanding) {id id' : UInt64} {slot : OrderSlot}
    (hid : s.slots.om.awaitingAckOrders.lookup id = some slot)
    (hid' : s.slots.om.awaitingAckOrders.lookup id' = some slot) : id = id' :=
  (h.id id slot hid).symm.trans (h.id id' slot hid')

/-- An order that is known by its token does not wait. -/
theorem Outstanding.not_awaiting_of_token (h : s.Outstanding) {id : UInt64} {slot : OrderSlot}
    (hid : s.slots.om.ourOrdersWtokenkey.lookup id = some slot) (id' : UInt64) :
    s.slots.om.awaitingAckOrders.lookup id' ≠ some slot :=
  fun hwait => h.known id slot hid (h.new id' slot hwait).1

/-! ### What a message does -/

/-- No slot comes back.  What waits has waited before; an order that is entered in one of
the other maps waits no longer, and one that is written is acknowledged. -/
structure Keeps (om om' : OwnManager) : Prop where
  free : om'.storeToStrategyFreeSlot = om.storeToStrategyFreeSlot
  awaiting : ∀ id slot, om'.awaitingAckOrders.lookup id = some slot →
    om.awaitingAckOrders.lookup id = some slot
  tokens : ∀ id slot, om'.ourOrdersWtokenkey.lookup id = some slot →
    om.ourOrdersWtokenkey.lookup id = some slot ∨
      om.awaitingAckOrders.lookup id = some slot ∧ om'.awaitingAckOrders.lookup id = none ∧
        (om'.orderPool slot).status ≠ .unknown
  ours : ∀ k slot, om'.ourOrders.lookup k = some slot → om.ourOrders.lookup k = some slot ∨
    ∃ id, om.awaitingAckOrders.lookup id = some slot ∧ om'.awaitingAckOrders.lookup id = none
  pool : ∀ slot, om'.orderPool slot = om.orderPool slot ∨
    (∀ id, om'.awaitingAckOrders.lookup id ≠ some slot) ∧ (om'.orderPool slot).status ≠ .unknown

/-- The order that waits under an id is erased and its slot pushed. -/
structure Releases (id : UInt64) (slot : OrderSlot) (om om' : OwnManager) : Prop where
  free : om'.storeToStrategyFreeSlot = om.storeToStrategyFreeSlot.push slot
  awaiting : om'.awaitingAckOrders = om.awaitingAckOrders.erase id
  tokens : om'.ourOrdersWtokenkey = om.ourOrdersWtokenkey
  ours : om'.ourOrders = om.ourOrders
  pool : om'.orderPool = om.orderPool

/-- The maps stay and at most one order is written, which is acknowledged. -/
theorem keeps_of_calm {om om' : OwnManager} (h : Calm om om')
    (hpool : ∀ slot, om'.orderPool slot = om.orderPool slot ∨
      (∀ id, om.awaitingAckOrders.lookup id ≠ some slot) ∧
        (om'.orderPool slot).status ≠ .unknown) : Keeps om om' := by
  refine ⟨h.free, fun id slot hid => ?_, fun id slot hid => .inl ?_, fun k slot hk => .inl ?_,
    fun slot => ?_⟩
  · rwa [h.awaiting] at hid
  · rwa [h.tokens] at hid
  · rwa [h.ours] at hk
  · rw [h.awaiting]
    exact hpool slot

/-- At most an awaited order is erased on top of that. -/
theorem Keeps.erase {om om' : OwnManager} (h : Keeps om om') (id : UInt64) :
    Keeps om (om'.eraseAwaitingAck id) := by
  have hless : ∀ id' slot, (om'.awaitingAckOrders.erase id).lookup id' = some slot →
      om'.awaitingAckOrders.lookup id' = some slot :=
    fun id' slot h' => HashMap.lookup_of_lookup_erase h'
  have hgone : ∀ id', om'.awaitingAckOrders.lookup id' = none →
      (om'.awaitingAckOrders.erase id).lookup id' = none := by
    intro id' hnone
    by_contra hne
    obtain ⟨slot, hslot⟩ := Option.ne_none_iff_exists'.mp hne
    rw [hless id' slot hslot] at hnone
    cases hnone
  refine ⟨h.free, fun id' slot h' => h.awaiting id' slot (hless id' slot h'),
    fun id' slot h' => ?_, fun k slot h' => ?_, fun slot => ?_⟩
  · rcases h.tokens id' slot h' with hold | ⟨hwait, hnone, hstatus⟩
    · exact .inl hold
    · exact .inr ⟨hwait, hgone id' hnone, hstatus⟩
  · rcases h.ours k slot h' with hold | ⟨id', hwait, hnone⟩
    · exact .inl hold
    · exact .inr ⟨id', hwait, hgone id' hnone⟩
  · rcases h.pool slot with hsame | ⟨hwait, hstatus⟩
    · exact .inl hsame
    · exact .inr ⟨fun id' h' => hwait id' (hless id' slot h'), hstatus⟩

/-- What follows changes neither the maps nor the orders. -/
theorem Keeps.calm {om om₁ om' : OwnManager} (h : Keeps om om₁) (hcalm : Calm om₁ om')
    (hpool : om'.orderPool = om₁.orderPool) : Keeps om om' := by
  obtain ⟨-, hfree, hawait, hours, htokens⟩ := hcalm
  refine ⟨hfree.trans h.free, ?_, ?_, ?_, ?_⟩
  · rw [hawait]
    exact h.awaiting
  · rw [htokens, hawait, hpool]
    exact h.tokens
  · rw [hours, hawait]
    exact h.ours
  · rw [hawait, hpool]
    exact h.pool

theorem Keeps.refl (om : OwnManager) : Keeps om om :=
  keeps_of_calm ⟨rfl, rfl, rfl, rfl, rfl⟩ fun _ => .inl rfl

/-! ### The handlers -/

theorem keeps_unlessDeferred {om om' : OwnManager} {slot : OrderSlot} {d : DbData}
    {handle : OwnManager → Except Fault OwnManager}
    (hhandle : ∀ om', handle om = .ok om' → Keeps om om')
    (h : om.unlessDeferred slot d handle = .ok om') : Keeps om om' := by
  obtain ⟨-, rfl⟩ | ⟨-, hhandled⟩ := unlessDeferred_cases h
  · exact keeps_of_calm ⟨rfl, rfl, rfl, rfl, rfl⟩ fun _ => .inl rfl
  · exact hhandle om' hhandled

/-- `add_our_order` below the threshold. -/
theorem entered_addOurOrder {om om' : OwnManager} {slot : OrderSlot} {k : OrderKey}
    (hsweeps : ¬om.Sweeps) (h : om.addOurOrder slot k = .ok om') :
    Calm { om with ourOrders := om.ourOrders.insert k slot } om' ∧
      om'.orderPool = om.orderPool := by
  obtain ⟨om₁, histories, hsweep, rfl⟩ := addOurOrder_cases h
  rw [sweep_of_not hsweeps, Except.ok.injEq] at hsweep
  subst hsweep
  exact ⟨⟨rfl, rfl, rfl, rfl, rfl⟩, rfl⟩

/-- The order that waits is entered under its key and written, and waits no longer. -/
theorem Outstanding.keeps_entered (hs : s.Outstanding) {om₁ om' : OwnManager} {id : UInt64}
    {slot : OrderSlot} {k : OrderKey} {order : Order} (hsweeps : ¬s.slots.om.Sweeps)
    (hwait : s.slots.om.awaitingAckOrders.lookup id = some slot)
    (h₁ : s.slots.om.addOurOrder slot k = .ok om₁)
    (hfree : om'.storeToStrategyFreeSlot = om₁.storeToStrategyFreeSlot)
    (hawait : om'.awaitingAckOrders = om₁.awaitingAckOrders.erase id)
    (hours : om'.ourOrders = om₁.ourOrders)
    (htokens : ∀ id' t, om'.ourOrdersWtokenkey.lookup id' = some t →
      om₁.ourOrdersWtokenkey.lookup id' = some t ∨ id' = id ∧ t = slot)
    (hpool : om'.orderPool = Function.update om₁.orderPool slot order)
    (hstatus : order.status ≠ .unknown) : Keeps s.slots.om om' := by
  obtain ⟨hcalm, hsame⟩ := entered_addOurOrder hsweeps h₁
  have hawait' : om'.awaitingAckOrders = s.slots.om.awaitingAckOrders.erase id :=
    hawait.trans (congrArg (Finmap.erase _) hcalm.awaiting)
  have hnone : om'.awaitingAckOrders.lookup id = none := by
    rw [hawait', Finmap.lookup_erase]
  have hwritten : (om'.orderPool slot).status ≠ .unknown := by
    rw [hpool, Function.update_self]
    exact hstatus
  -- the order that waited goes from the awaited ones to the own ones, the rest stays
  refine ⟨hfree.trans hcalm.free, fun id' t h' => ?_, fun id' t h' => ?_, fun k' t h' => ?_,
    fun t => ?_⟩
  · rw [hawait'] at h'
    exact HashMap.lookup_of_lookup_erase h'
  · rcases htokens id' t h' with hold | ⟨rfl, rfl⟩
    · exact .inl (hcalm.tokens ▸ hold)
    · exact .inr ⟨hwait, hnone, hwritten⟩
  · rw [hours, hcalm.ours] at h'
    rcases HashMap.lookup_of_lookup_insert h' with hold | rfl
    · exact .inl hold
    · exact .inr ⟨id, hwait, hnone⟩
  · by_cases ht : t = slot
    · subst ht
      refine .inr ⟨fun id' h' => ?_, hwritten⟩
      -- it waited under no other id
      rw [hawait'] at h'
      rw [hs.id_eq (HashMap.lookup_of_lookup_erase h') hwait, Finmap.lookup_erase] at h'
      cases h'
    · refine .inl ?_
      rw [hpool, Function.update_of_ne ht, hsame]

/-! #### FIX -/

/-- The switch of the FIX handler, for an execution report: the order is left as it is or
acknowledged. -/
theorem keeps_handleFix {om om₁ om' : OwnManager} {slot : OrderSlot} {id : UInt64}
    {m : FIXMessage} (hreport : m.msgType = 56) (h : handleFix hash om₁ slot id m = .ok om')
    (hkeeps : ¬allowedExecType m.execType → Keeps om om₁)
    (hfilled : ∀ own, Keeps om (((om₁.setOwn slot
      (FillerFix.fillFixExecReport hash (om₁.orderPool slot) (om₁.ownFields slot) m).1
        own).eraseAwaitingAck id))) : Keeps om om' := by
  obtain ⟨-, -, filled, rfl, rfl⟩ | ⟨-, hnot, rfl⟩ | ⟨hcancel, -⟩ | ⟨hnot, -⟩ :=
    handleFix_cases h
  · exact (hfilled _).calm ⟨rfl, rfl, rfl, rfl, rfl⟩ rfl
  · exact hkeeps hnot
  · rw [hreport] at hcancel
    exact absurd hcancel (by decide)
  · exact absurd hreport hnot

/-- **A FIX reject that names no order that waits** changes nothing that matters. -/
theorem Outstanding.keeps_rejectFix {om om' : OwnManager} {m : FIXMessage}
    (hreport : m.msgType = 56) (hstatus : m.ordStatus = 56)
    (hwait : om.awaitingAckOrders.lookup (hash (cString m.clOrdId)) = none)
    (h : updateOrderFix hash om m = .ok om') : Keeps om om' := by
  obtain ⟨id, -, hcase⟩ := updateOrderFix_cases h
  rw [getOrderFromAwaitingAckOrders, hwait] at hcase
  obtain ⟨slot, -, hhandled⟩ | ⟨-, -, rfl⟩ | ⟨slot, -, hnone, -⟩ | ⟨slot, om₁, -, hnone, -⟩ := hcase
  · refine keeps_unlessDeferred (fun om₁ h₁ => ?_) hhandled
    refine keeps_handleFix hreport h₁ (fun _ => .refl om) fun own => Keeps.erase ?_ _
    -- the report of a reject fills nothing
    have hfill : (FillerFix.fillFixExecReport hash (om.orderPool slot) (om.ownFields slot) m).1 =
        om.orderPool slot := by
      unfold FillerFix.fillFixExecReport
      simp [hstatus]
    rw [hfill]
    refine keeps_of_calm (calm_setOwn om slot _ own) fun t => .inl ?_
    exact congrFun (Function.update_eq_self slot om.orderPool) t
  · exact .refl _
  · cases hnone
  · cases hnone

theorem status_fillFixExecReport_new {m : FIXMessage} (hstatus : m.ordStatus = 48)
    (order : Order) (own : OwnFields) :
    (FillerFix.fillFixExecReport hash order own m).1.status = .new := by
  unfold FillerFix.fillFixExecReport
  rw [if_pos hstatus]
  rfl

/-- A FIX acceptance. -/
theorem Outstanding.keeps_acceptFix (hs : s.Outstanding) {om' : OwnManager} {m : FIXMessage}
    (haccepts : StoreMessage.Accepts (.fix m)) (hsweeps : ¬s.slots.om.Sweeps)
    (h : updateOrderFix hash s.slots.om m = .ok om') : Keeps s.slots.om om' := by
  obtain ⟨hreport, hstatus, hallowed⟩ := haccepts
  have hnew : ∀ (order : Order) (own : OwnFields),
      (FillerFix.fillFixExecReport hash order own m).1.status ≠ .unknown := by
    intro order own
    rw [status_fillFixExecReport_new hstatus]
    exact fun h => by cases h
  obtain ⟨id, -, hcase⟩ := updateOrderFix_cases h
  obtain ⟨slot, hslot, hhandled⟩ | ⟨-, -, rfl⟩ | ⟨slot, -, -, hreject, -⟩ |
    ⟨slot, om₁, -, hwait, -, h₁, hhandled⟩ := hcase
  · refine keeps_unlessDeferred (fun om₁ h₁ => ?_) hhandled
    refine keeps_handleFix hreport h₁ (fun hnot => absurd hallowed hnot) fun own =>
      Keeps.erase (keeps_of_calm (calm_setOwn _ slot _ own) fun t => ?_) _
    by_cases ht : t = slot
    · subst ht
      refine .inr ⟨hs.ours _ t hslot, ?_⟩
      show (Function.update s.slots.om.orderPool t _ t).status ≠ _
      rw [Function.update_self]
      exact hnew _ _
    · exact .inl (Function.update_of_ne ht _ _)
  · exact .refl _
  · rw [hstatus] at hreject
    exact absurd hreject (by decide)
  · have hopen : (om₁.orderPool slot).canModify ≠ 0 := by
      rw [(entered_addOurOrder hsweeps h₁).2]
      exact (hs.new _ slot hwait).2
    rw [unlessDeferred, if_neg hopen] at hhandled
    refine keeps_handleFix hreport hhandled (fun hnot => absurd hallowed hnot) fun own => ?_
    exact hs.keeps_entered hsweeps hwait h₁ rfl rfl rfl (fun id t h' => .inl h') rfl (hnew _ _)

/-! #### OUCH -/

/-- `fill_ouch_rejected` on an order that is acknowledged. -/
theorem keeps_fillOuchRejected {om : OwnManager} {slot : OrderSlot}
    (hstatus : (om.orderPool slot).status ≠ .unknown)
    (hwait : ∀ id, om.awaitingAckOrders.lookup id ≠ some slot) (timestamp : UInt64) :
    Keeps om (om.fillOuchRejected slot timestamp) := by
  unfold fillOuchRejected
  simp only [if_neg hstatus]
  refine keeps_of_calm (calm_setOrder om slot _) fun t => ?_
  by_cases ht : t = slot
  · subst ht
    refine .inr ⟨hwait, ?_⟩
    show (Function.update om.orderPool t _ t).status ≠ _
    rw [Function.update_self]
    exact hstatus
  · exact .inl (Function.update_of_ne ht _ _)

/-- `fill_ouch_rejected` on an order that was never acknowledged, after it has been
erased. -/
theorem Outstanding.releases_fillOuchRejected (hs : s.Outstanding) {id : UInt64}
    {slot : OrderSlot} (hwait : s.slots.om.awaitingAckOrders.lookup id = some slot)
    (timestamp : UInt64) (d : DbData) :
    Releases id slot s.slots.om (((s.slots.om.eraseAwaitingAck
      (s.slots.om.orderPool slot).clientOrderId).fillOuchRejected slot timestamp).pushDb d) := by
  unfold fillOuchRejected
  have hnew : ((s.slots.om.eraseAwaitingAck
      (s.slots.om.orderPool slot).clientOrderId).orderPool slot).status = .unknown :=
    (hs.new id slot hwait).1
  simp only [if_pos hnew]
  exact ⟨rfl, congrArg (fun i => s.slots.om.awaitingAckOrders.erase i) (hs.id id slot hwait),
    rfl, rfl, rfl⟩

/-- What an OUCH reject does, by whether it names an order that waits. -/
def Rejected (om om' : OwnManager) : Option (UInt64 × OrderSlot) → Prop
  | none => Keeps om om'
  | some (id, slot) => Releases id slot om om'

/-- **A reject of BIST OUCH.** -/
theorem Outstanding.rejectBistOuch (hs : s.Outstanding) {om' : OwnManager}
    {m : Bist.OuchRejected} (h : updateOrderBistOuch hash s.slots.om (.rejected m) = .ok om') :
    Rejected s.slots.om om' (s.slots.om.rejects hash (.bistOuch (.rejected m))) := by
  rw [rejects_of_id rfl]
  obtain ⟨slot, hslot, hhandled⟩ | ⟨-, hwait, rfl⟩ | ⟨slot, -, hwait, rfl⟩ :=
    onBistOuchToken_cases h
  · -- known by its token: the order does not wait, under this id or another
    have hnone : s.slots.om.awaitingAckOrders.lookup (hash m.orderToken) = none := by
      by_contra hne
      obtain ⟨t, ht⟩ := Option.ne_none_iff_exists'.mp hne
      exact absurd (hs.token _ t ht) (by
        rw [← getOrderFromOurMapWtokenkey, hslot]
        exact fun h => by cases h)
    rw [hnone]
    refine keeps_unlessDeferred (fun om₁ hok => ?_) hhandled
    rw [← Except.ok.inj hok]
    exact (keeps_fillOuchRejected (hs.known _ slot hslot) (hs.not_awaiting_of_token hslot) _).calm
      ⟨rfl, rfl, rfl, rfl, rfl⟩ rfl
  · rw [← getOrderFromAwaitingAckOrders, hwait]
    exact Keeps.refl _
  · rw [← getOrderFromAwaitingAckOrders, hwait]
    exact hs.releases_fillOuchRejected hwait _ _

/-- **A reject of NASDAQ OUCH.** -/
theorem Outstanding.rejectNasdaqOuch (hs : s.Outstanding) {om' : OwnManager}
    {m : Nasdaq.OuchRejected} (h : updateOrderNasdaqOuch hash s.slots.om (.rejected m) = .ok om') :
    Rejected s.slots.om om' (s.slots.om.rejects hash (.nasdaqOuch (.rejected m))) := by
  rw [rejects_of_id rfl]
  obtain ⟨hwait, rfl⟩ | ⟨slot, hwait, rfl⟩ := ouchRejected_cases h
  · rw [← getOrderFromAwaitingAckOrders, hwait]
    exact Keeps.refl _
  · rw [← getOrderFromAwaitingAckOrders, hwait]
    exact hs.releases_fillOuchRejected hwait _ _

/-- A BIST OUCH acceptance. -/
theorem Outstanding.keeps_acceptBistOuch (hs : s.Outstanding) {om' : OwnManager}
    {m : Bist.OuchAccepted} (hsweeps : ¬s.slots.om.Sweeps)
    (h : updateOrderBistOuch hash s.slots.om (.accepted m) = .ok om') : Keeps s.slots.om om' := by
  simp only [updateOrderBistOuch] at h
  obtain ⟨slot, hnone, -⟩ | ⟨-, -, rfl⟩ | ⟨slot, om₁, tokens, -, hwait, h₁, rfl, rfl⟩ :=
    onBistOuchKey_cases h
  · cases hnone
  · exact .refl _
  · have hid : (om₁.orderPool slot).clientOrderId = hash m.orderToken := by
      rw [(entered_addOurOrder hsweeps h₁).2]
      exact hs.id _ slot hwait
    refine hs.keeps_entered hsweeps hwait h₁ rfl rfl rfl (fun id t h' => ?_) rfl
      (fun h => by cases h)
    -- the order is entered under its own token
    have h' : (om₁.ourOrdersWtokenkey.insert (om₁.orderPool slot).clientOrderId
        slot).lookup id = some t := h'
    rw [hid] at h'
    by_cases heq : id = hash m.orderToken
    · rw [heq, Finmap.lookup_insert] at h'
      exact .inr ⟨heq, (Option.some.inj h').symm⟩
    · rw [Finmap.lookup_insert_of_ne _ heq] at h'
      exact .inl h'

/-- A NASDAQ OUCH acceptance. -/
theorem Outstanding.keeps_acceptNasdaqOuch (hs : s.Outstanding) {om' : OwnManager}
    {m : Nasdaq.OuchAccepted} (hsweeps : ¬s.slots.om.Sweeps)
    (h : updateOrderNasdaqOuch hash s.slots.om (.accepted m) = .ok om') :
    Keeps s.slots.om om' := by
  simp only [updateOrderNasdaqOuch] at h
  obtain ⟨-, rfl⟩ | ⟨slot, om₁, k, refs, hwait, -, h₁, -, rfl⟩ := onNasdaqOuchAwaited_cases h
  · exact .refl _
  · exact hs.keeps_entered hsweeps hwait h₁ rfl rfl rfl (fun id t h' => .inl h') rfl
      (fun h => by cases h)

/-- A FIX reject of an order that waits pushes no slot or leaves the order waiting. -/
theorem rejectFix_not_released {om om' : OwnManager} {m : FIXMessage}
    (hstatus : m.ordStatus = 56) (h : updateOrderFix hash om m = .ok om') :
    om'.storeToStrategyFreeSlot = om.storeToStrategyFreeSlot ∨
      om'.awaitingAckOrders = om.awaitingAckOrders := by
  obtain ⟨id, -, hcase⟩ := updateOrderFix_cases h
  obtain ⟨slot, -, hhandled⟩ | ⟨-, -, rfl⟩ | ⟨slot, -, -, -, rfl⟩ | ⟨slot, om₁, -, -, hnot, -⟩ :=
    hcase
  · refine .inl ?_
    obtain ⟨-, rfl⟩ | ⟨-, hfilled⟩ := unlessDeferred_cases hhandled
    · rfl
    · obtain ⟨-, -, filled, -, rfl⟩ | ⟨-, -, rfl⟩ | ⟨-, rfl⟩ | ⟨-, -, rfl⟩ :=
        handleFix_cases hfilled
      all_goals rfl
  · exact .inr rfl
  · exact .inr rfl
  · exact absurd hstatus hnot

/-- **A message of a run.**  It keeps what is free, releases the order it rejects, or is a
FIX reject of an order that waits. -/
theorem Outstanding.store_cases (hs : s.Outstanding) {msg : StoreMessage} {om' : OwnManager}
    (hexpected : s.Expected hash (.store msg)) (h : update hash s.slots.om msg = .ok om') :
    (s.slots.om.rejects hash msg = none ∧ Keeps s.slots.om om') ∨
    (∃ id slot, s.slots.om.rejects hash msg = some (id, slot) ∧
      Releases id slot s.slots.om om' ∧ ∀ m, msg ≠ .fix m) ∨
    ∃ m id slot, msg = .fix m ∧ s.slots.om.rejects hash msg = some (id, slot) ∧
      (om'.storeToStrategyFreeSlot = s.slots.om.storeToStrategyFreeSlot ∨
        om'.awaitingAckOrders = s.slots.om.awaitingAckOrders) := by
  have houch : Rejected s.slots.om om' (s.slots.om.rejects hash msg) → (∀ m, msg ≠ .fix m) →
      (s.slots.om.rejects hash msg = none ∧ Keeps s.slots.om om') ∨
      (∃ id slot, s.slots.om.rejects hash msg = some (id, slot) ∧
        Releases id slot s.slots.om om' ∧ ∀ m, msg ≠ .fix m) := by
    intro hrejected hnot
    cases hnamed : s.slots.om.rejects hash msg with
    | none =>
      rw [hnamed] at hrejected
      exact .inl ⟨rfl, hrejected⟩
    | some named =>
      rw [hnamed] at hrejected
      exact .inr ⟨named.1, named.2, rfl, hrejected, hnot⟩
  -- a message of a run rejects or accepts; only a FIX reject forgets to erase
  rcases hexpected with hreject | ⟨haccepts, hsweeps⟩
  · cases msg with
    | fix m =>
      have hid := hreject
      rw [StoreMessage.rejectedId] at hid
      by_cases hboth : m.msgType = 56 ∧ m.ordStatus = 56
      · have hnamed : StoreMessage.rejectedId hash (.fix m) = some (hash (cString m.clOrdId)) :=
          if_pos hboth
        cases hwait : s.slots.om.awaitingAckOrders.lookup (hash (cString m.clOrdId)) with
        | none =>
          refine .inl ⟨?_, keeps_rejectFix hboth.1 hboth.2 hwait h⟩
          rw [rejects_of_id hnamed, hwait, Option.map_none]
        | some slot =>
          refine .inr (.inr ⟨m, hash (cString m.clOrdId), slot, rfl, ?_,
            rejectFix_not_released hboth.2 h⟩)
          rw [rejects_of_id hnamed, hwait, Option.map_some]
      · rw [if_neg hboth] at hid
        cases hid
    | bistOuch m =>
      cases m with
      | rejected m =>
        exact (houch (hs.rejectBistOuch h) fun _ h => by cases h).imp_right .inl
      | accepted m => cases hreject
      | replaced m => cases hreject
      | cancelled m => cases hreject
      | executed m => cases hreject
    | nasdaqOuch m =>
      cases m with
      | rejected m =>
        exact (houch (hs.rejectNasdaqOuch h) fun _ h => by cases h).imp_right .inl
      | _ => cases hreject
    | fixSession m => cases hreject
    | bistItch m => cases hreject
    | nasdaqItch m => cases hreject
  · left
    cases msg with
    | fix m =>
      refine ⟨rejects_of_none (if_neg fun hboth => ?_), hs.keeps_acceptFix haccepts hsweeps h⟩
      rw [haccepts.2.1] at hboth
      exact absurd hboth.2 (by decide)
    | bistOuch m =>
      cases m with
      | accepted m => exact ⟨rejects_of_none rfl, hs.keeps_acceptBistOuch hsweeps h⟩
      | _ => cases haccepts
    | nasdaqOuch m =>
      cases m with
      | accepted m => exact ⟨rejects_of_none rfl, hs.keeps_acceptNasdaqOuch hsweeps h⟩
      | _ => cases haccepts
    | fixSession m => cases haccepts
    | bistItch m => cases haccepts
    | nasdaqItch m => cases haccepts

/-! ### Runs -/

theorem Outstanding.keeps (hs : s.Outstanding) {om' : OwnManager} (h : Keeps s.slots.om om') :
    Outstanding { s with slots := { s.slots with om := om' } } := by
  have hfree : om'.storeToStrategyFreeSlot.items ++ s.slots.strategy =
      s.free ++ s.slots.strategy := by
    rw [h.free]
    rfl
  -- an order that still waits has not been written
  have hpool : ∀ id slot, om'.awaitingAckOrders.lookup id = some slot →
      om'.orderPool slot = s.slots.om.orderPool slot := by
    intro id slot hid
    rcases h.pool slot with hsame | ⟨hwait, -⟩
    · exact hsame
    · exact absurd hid (hwait id)
  refine ⟨fun id slot hid => ?_, fun id slot hid => ?_, fun id slot hid => ?_,
    fun k slot hk id hid => ?_, fun id slot hid => ?_, fun slot hslot => ?_, ?_, fun id hid => ?_⟩
  · rw [hpool id slot hid]
    exact hs.id id slot (h.awaiting id slot hid)
  · rw [hpool id slot hid]
    exact hs.new id slot (h.awaiting id slot hid)
  · by_contra hne
    obtain ⟨t, ht⟩ := Option.ne_none_iff_exists'.mp hne
    rcases h.tokens id t ht with hold | ⟨-, hnone, -⟩
    · rw [hs.token id slot (h.awaiting id slot hid)] at hold
      cases hold
    · exact absurd (hid.symm.trans hnone) fun h => by cases h
  · have hwait := h.awaiting id slot hid
    rcases h.ours k slot hk with hold | ⟨id', hwait', hnone⟩
    · exact hs.ours k slot hold id hwait
    · rw [hs.id_eq hwait hwait'] at hid
      exact absurd (hid.symm.trans hnone) fun h => by cases h
  · rcases h.tokens id slot hid with hold | ⟨-, -, hstatus⟩
    · rcases h.pool slot with hsame | ⟨-, hstatus⟩
      · show (om'.orderPool slot).status ≠ .unknown
        rw [hsame]
        exact hs.known id slot hold
      · exact hstatus
    · exact hstatus
  · obtain ⟨hwait, hours, htoken⟩ := hs.unused slot (hfree ▸ hslot)
    refine ⟨fun id hid => hwait id (h.awaiting id slot hid), fun k hk => ?_, fun id hid => ?_⟩
    · rcases h.ours k slot hk with hold | ⟨id, hid, -⟩
      · exact hours k hold
      · exact hwait id hid
    · rcases h.tokens id slot hid with hold | ⟨hid, -, -⟩
      · exact htoken id hold
      · exact hwait id hid
  · exact hfree ▸ hs.once
  · obtain ⟨hwait, htoken⟩ := hs.rejected id hid
    constructor
    · by_contra hne
      obtain ⟨t, ht⟩ := Option.ne_none_iff_exists'.mp hne
      exact absurd (hwait.symm.trans (h.awaiting id t ht)) fun h => by cases h
    · by_contra hne
      obtain ⟨t, ht⟩ := Option.ne_none_iff_exists'.mp hne
      rcases h.tokens id t ht with hold | ⟨hid, -, -⟩
      · exact absurd (htoken.symm.trans hold) fun h => by cases h
      · exact absurd (hwait.symm.trans hid) fun h => by cases h

theorem Outstanding.releases (hs : s.Outstanding) {om' : OwnManager} {id : UInt64}
    {slot : OrderSlot} (hwait : s.slots.om.awaitingAckOrders.lookup id = some slot)
    (h : Releases id slot s.slots.om om') (hroom : s.free.length < 1024) :
    Outstanding { slots := { s.slots with om := om' }, rejected := id :: s.rejected } := by
  have hfree : om'.storeToStrategyFreeSlot.items = s.free ++ [slot] := by
    rw [h.free]
    exact BoundedQueue.items_push hroom
  have hless : ∀ {id' t}, om'.awaitingAckOrders.lookup id' = some t →
      s.slots.om.awaitingAckOrders.lookup id' = some t := by
    intro id' t h'
    rw [h.awaiting] at h'
    exact HashMap.lookup_of_lookup_erase h'
  have hnone : om'.awaitingAckOrders.lookup id = none := by
    rw [h.awaiting, Finmap.lookup_erase]
  have hother : slot ∉ s.free ++ s.slots.strategy :=
    fun hslot => (hs.unused slot hslot).1 id hwait
  -- the slot that comes back is one more, and was in neither place
  have hperm : (om'.storeToStrategyFreeSlot.items ++ s.slots.strategy).Perm
      (slot :: (s.free ++ s.slots.strategy)) := by
    rw [hfree, List.append_assoc]
    exact List.perm_middle
  refine ⟨fun id' t h' => ?_, fun id' t h' => ?_, fun id' t h' => ?_, fun k t hk id' h' => ?_,
    fun id' t h' => ?_, fun t ht => ?_, ?_, fun id' h' => ?_⟩
  · show (om'.orderPool t).clientOrderId = id'
    rw [h.pool]
    exact hs.id id' t (hless h')
  · show (om'.orderPool t).status = .unknown ∧ (om'.orderPool t).canModify ≠ 0
    rw [h.pool]
    exact hs.new id' t (hless h')
  · show om'.ourOrdersWtokenkey.lookup id' = none
    rw [h.tokens]
    exact hs.token id' t (hless h')
  · exact hs.ours k t (h.ours ▸ hk) id' (hless h')
  · show (om'.orderPool t).status ≠ .unknown
    rw [h.pool]
    exact hs.known id' t (h.tokens ▸ h')
  · have hcases := List.mem_cons.mp (hperm.mem_iff.mp ht)
    rcases hcases with rfl | hold
    · refine ⟨fun id' h' => ?_, fun k hk => hs.ours k t (h.ours ▸ hk) id hwait, fun id' h' => ?_⟩
      · rw [hs.id_eq (hless h') hwait] at h'
        exact absurd (h'.symm.trans hnone) fun h => by cases h
      · exact hs.known id' t (h.tokens ▸ h') (hs.new id t hwait).1
    · obtain ⟨hawait, hours, htoken⟩ := hs.unused t hold
      exact ⟨fun id' h' => hawait id' (hless h'), fun k hk => hours k (h.ours ▸ hk),
        fun id' h' => htoken id' (h.tokens ▸ h')⟩
  · exact hperm.nodup_iff.mpr (List.nodup_cons.mpr ⟨hother, hs.once⟩)
  · rcases List.mem_cons.mp h' with rfl | hold
    · exact ⟨hnone, (congrArg _ h.tokens).trans (hs.token _ slot hwait)⟩
    · obtain ⟨hawait, htoken⟩ := hs.rejected id' hold
      refine ⟨?_, (congrArg _ h.tokens).trans htoken⟩
      by_contra hne
      obtain ⟨t, ht⟩ := Option.ne_none_iff_exists'.mp hne
      exact absurd (hawait.symm.trans (hless ht)) fun h => by cases h

/-- The strategy takes a slot. -/
theorem Outstanding.takeSlot (hs : s.Outstanding) :
    Outstanding { s with slots := s.slots.takeSlot } := by
  unfold SlotSystem.takeSlot
  split
  · exact hs
  · rename_i slot rest hitems
    -- the slot moves from the queue to the strategy
    have hperm : (rest ++ (s.slots.strategy ++ [slot])).Perm (s.free ++ s.slots.strategy) := by
      rw [free, hitems, ← List.append_assoc]
      exact List.perm_append_comm
    have hrest : s.slots.om.storeToStrategyFreeSlot.tail.items = rest := by
      rw [BoundedQueue.items_tail, hitems, List.tail_cons]
    refine ⟨hs.id, hs.new, hs.token, hs.ours, hs.known, fun t ht => ?_, ?_, hs.rejected⟩
    · refine hs.unused t (hperm.mem_iff.mp ?_)
      rw [← hrest]
      exact ht
    · show (s.slots.om.storeToStrategyFreeSlot.tail.items ++ (s.slots.strategy ++ [slot])).Nodup
      rw [hrest]
      exact hperm.nodup_iff.mpr hs.once

/-- The strategy sends a new order. -/
theorem Outstanding.send (hs : s.Outstanding) {slot : OrderSlot} {order : Order}
    (hexpected : s.Expected hash (.send slot order)) :
    Outstanding { s with slots := s.slots.send slot order } := by
  unfold SlotSystem.send
  split
  · rename_i hslot
    obtain ⟨hstatus, hopen, hfresh, hnew⟩ := hexpected hslot
    obtain ⟨hwait, hours, htoken⟩ := hs.unused slot (List.mem_append_right _ hslot)
    have hown : (Function.update s.slots.om.orderPool slot order) slot = order :=
      Function.update_self ..
    have hother : ∀ t, t ≠ slot → (Function.update s.slots.om.orderPool slot order) t =
        s.slots.om.orderPool t := fun t ht => Function.update_of_ne ht _ _
    -- what waits now is the new order or has waited before
    have hcases : ∀ id t,
        (s.slots.om.awaitingAckOrders.insert order.clientOrderId slot).lookup id = some t →
        id = order.clientOrderId ∧ t = slot ∨
          id ≠ order.clientOrderId ∧ t ≠ slot ∧
            s.slots.om.awaitingAckOrders.lookup id = some t := by
      intro id t h
      by_cases hid : id = order.clientOrderId
      · rw [hid, Finmap.lookup_insert] at h
        exact .inl ⟨hid, (Option.some.inj h).symm⟩
      · rw [Finmap.lookup_insert_of_ne _ hid] at h
        refine .inr ⟨hid, fun ht => ?_, h⟩
        exact hwait id (ht ▸ h)
    refine ⟨fun id t h => ?_, fun id t h => ?_, fun id t h => ?_, fun k t hk id h => ?_,
      fun id t h => ?_, fun t ht => ?_, ?_, fun id hid => ?_⟩
    · rcases hcases id t h with ⟨rfl, rfl⟩ | ⟨-, ht, hold⟩
      · exact congrArg Order.clientOrderId hown
      · exact (congrArg Order.clientOrderId (hother t ht)).trans (hs.id id t hold)
    · rcases hcases id t h with ⟨rfl, rfl⟩ | ⟨-, ht, hold⟩
      · exact ⟨(congrArg Order.status hown).trans hstatus,
          fun h => hopen ((congrArg Order.canModify hown).symm.trans h)⟩
      · obtain ⟨hstatus, hopen⟩ := hs.new id t hold
        exact ⟨(congrArg Order.status (hother t ht)).trans hstatus,
          fun h => hopen ((congrArg Order.canModify (hother t ht)).symm.trans h)⟩
    · rcases hcases id t h with ⟨rfl, rfl⟩ | ⟨-, ht, hold⟩
      · exact hfresh.2
      · exact hs.token id t hold
    · rcases hcases id t h with ⟨rfl, rfl⟩ | ⟨-, ht, hold⟩
      · exact hours k hk
      · exact hs.ours k t hk id hold
    · have ht : t ≠ slot := fun ht => htoken id (ht ▸ h)
      exact fun h' => hs.known id t h ((congrArg Order.status (hother t ht)).symm.trans h')
    · have hmem : t ∈ s.free ++ s.slots.strategy ∧ t ≠ slot := by
        rcases List.mem_append.mp ht with hfree | hheld
        · refine ⟨List.mem_append_left _ hfree, fun heq => ?_⟩
          exact List.disjoint_of_nodup_append hs.once (heq ▸ hfree) hslot
        · refine ⟨List.mem_append_right _ (List.mem_of_mem_erase hheld), fun heq => ?_⟩
          exact (hs.once.of_append_right.mem_erase_iff.mp hheld).1 heq
      obtain ⟨hwait', hours', htoken'⟩ := hs.unused t hmem.1
      refine ⟨fun id h => ?_, hours', htoken'⟩
      rcases hcases id t h with ⟨-, heq⟩ | ⟨-, -, hold⟩
      · exact hmem.2 heq
      · exact hwait' id hold
    · exact hs.once.sublist ((List.erase_sublist).append_left s.free)
    · obtain ⟨hwait, htoken⟩ := hs.rejected id hid
      have hne : id ≠ order.clientOrderId := fun heq => hnew (heq ▸ hid)
      exact ⟨(Finmap.lookup_insert_of_ne _ hne).trans hwait, htoken⟩
  · exact hs

/-- **One event.**  Rejects that release their orders keep what holds between maps and
slots. -/
theorem outstanding_step {e : SlotEvent} (hs : s.Outstanding) (hexpected : s.Expected hash e)
    (hreleasable : s.Releasable hash e) (h : s.step hash e = .ok s') : s'.Outstanding := by
  obtain ⟨slots, hslots, rfl⟩ := map_eq_ok_iff.mp h
  cases e with
  | takeSlot =>
    rw [← Except.ok.inj hslots]
    exact hs.takeSlot
  | send slot order =>
    rw [← Except.ok.inj hslots]
    exact hs.send hexpected
  | store msg =>
    obtain ⟨om', hom, rfl⟩ := map_eq_ok_iff.mp hslots
    rcases hs.store_cases hexpected hom with ⟨hnone, hkeeps⟩ | ⟨id, slot, hsome, hreleases, hnot⟩ |
      ⟨m, id, slot, rfl, hsome, -⟩
    · simp only [hnone, Option.map_none, Option.toList_none, List.nil_append]
      exact hs.keeps hkeeps
    · have hroom : s.free.length < 1024 := by
        cases msg with
        | fix m => exact absurd rfl (hnot m)
        | _ => exact hreleasable id slot hsome
      simp only [hsome, Option.map_some, Option.toList_some, List.singleton_append]
      exact hs.releases (rejects_eq_some hsome).2 hreleases hroom
    · exact absurd (hsome.symm.trans hreleasable) fun h => by cases h

/-- **One event.**  What it rejects is released once exactly under the condition. -/
theorem releasedOnce_iff {e : SlotEvent} (hs : s.Outstanding) (hexpected : s.Expected hash e)
    (h : s.step hash e = .ok s') : s.ReleasedOnce hash e ↔ s.Releasable hash e := by
  have hstep := h
  obtain ⟨slots, hslots, rfl⟩ := map_eq_ok_iff.mp h
  constructor
  · intro hlaw
    obtain ⟨hitems, hrejected⟩ := hlaw _ hstep
    cases e with
    | takeSlot => trivial
    | send slot order => trivial
    | store msg =>
      obtain ⟨om', hom, rfl⟩ := map_eq_ok_iff.mp hslots
      have hitems := hitems msg rfl
      rcases hs.store_cases hexpected hom with ⟨hnone, -⟩ | ⟨id, slot, hsome, hreleases, hnot⟩ |
        ⟨m, id, slot, rfl, hsome, hout⟩
      · cases msg with
        | fix m => exact hnone
        | _ => exact fun id slot hsome => absurd (hnone.symm.trans hsome) fun h => by cases h
      · -- a full queue would have refused the slot
        have hroom : s.free.length < 1024 := by
          by_contra hfull
          have hsame : om'.storeToStrategyFreeSlot.items = s.free := by
            rw [hreleases.free, BoundedQueue.items_push_full hfull]
            rfl
          rw [free, hsome, hsame] at hitems
          have hlen := congrArg List.length hitems
          simp at hlen
        cases msg with
        | fix m => exact absurd rfl (hnot m)
        | _ => exact fun _ _ _ => hroom
      · exfalso
        -- a FIX reject that released its order would have pushed the slot and erased the id
        rcases hout with hfree | hwait
        · rw [free, hsome, hfree] at hitems
          have hlen := congrArg List.length hitems
          simp [free] at hlen
        · have hgone := (hrejected id (by simp [hsome])).1
          change om'.awaitingAckOrders.lookup id = none at hgone
          rw [hwait, (rejects_eq_some hsome).2] at hgone
          cases hgone
  · intro hreleasable s₁ h₁
    rw [hstep, Except.ok.injEq] at h₁
    subst h₁
    refine ⟨fun msg hmsg => ?_, (outstanding_step hs hexpected hreleasable hstep).rejected⟩
    subst hmsg
    obtain ⟨om', hom, rfl⟩ := map_eq_ok_iff.mp hslots
    rcases hs.store_cases hexpected hom with ⟨hnone, hkeeps⟩ | ⟨id, slot, hsome, hreleases, hnot⟩ |
      ⟨m, id, slot, rfl, hsome, -⟩
    · rw [hnone]
      simp only [Option.map_none, Option.toList_none, List.append_nil]
      exact congrArg BoundedQueue.items hkeeps.free
    · have hroom : s.free.length < 1024 := by
        cases msg with
        | fix m => exact absurd rfl (hnot m)
        | _ => exact hreleasable id slot hsome
      rw [hsome]
      exact (congrArg BoundedQueue.items hreleases.free).trans (BoundedQueue.items_push hroom)
    · exact absurd (hsome.symm.trans hreleasable) fun h => by cases h

/-- One order that has been sent under the id 0; every other slot is somewhere else. -/
def oneSent : RejectDesk :=
  ⟨{ om := { sentOrder .bist with sympackSymid := Finmap.singleton (symbolPack []) 7 } }, []⟩

theorem outstanding_oneSent : oneSent.Outstanding := by
  have hwait : ∀ id slot, oneSent.slots.om.awaitingAckOrders.lookup id = some slot → id = 0 := by
    intro id slot h
    have hmem : id ∈ (sentOrder .bist).awaitingAckOrders := Finmap.mem_of_lookup_eq_some h
    exact (Finmap.mem_singleton id 0 32768).mp hmem
  refine ⟨fun id slot h => (hwait id slot h).symm, fun _ _ _ => ⟨rfl, ?_⟩, fun _ _ _ => rfl,
    fun k slot h => ?_, fun id slot h => ?_, fun slot h => ?_, List.nodup_nil, fun id h => ?_⟩
  · exact fun h => by cases h
  · cases h
  · cases h
  · cases h
  · cases h

/-- Tokens are told apart by their length. -/
def lengthHash (bytes : List UInt8) : UInt64 := bytes.length.toUInt64

def rejectBist : SlotEvent := .store (.bistOuch (.rejected { orderToken := [] }))

/-- The order is rejected, its slot used for another, which is accepted; the reject comes
three times. -/
def rejectedAndReused : List SlotEvent :=
  [rejectBist, rejectBist, .takeSlot, .send 32768 { clientOrderId := 1 },
    .store (.bistOuch (.accepted { quantity := 1, orderId := 1, orderBookId := 5, price := 100
                                   side := 66, orderToken := [0] })), rejectBist]

end RejectDesk

end TradingEngine
