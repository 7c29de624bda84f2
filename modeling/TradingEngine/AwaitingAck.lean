/-
The orders that await their acknowledgement (`protocol/Builder_Dispatch.cpp`,
`order_management/OrderManager.cpp`,
`utils/CustomMap/ConcurrentFixedFlatMap.h`).

`Builder_Dispatch::dispatch` builds an order and, if it has no exchange id yet,
enters it into `awaitingAck_orders_`, a table of 64 slots that takes 63 entries
and drops the rest without a word.  The handlers look an order up by the token
of their message and erase it again.

The table is kept beside the map of the order manager; `Sound.represents` says
that the two agree in every state.

* `AwaitingSystem.Kept` — the table has room for an order that is sent, and the
  entry a handler erases is the one its message names;
* `awaiting_orders_found` — in a run of such steps every order that was sent and
  not answered is found.
-/
import TradingEngine.FlatMap
import TradingEngine.OwnFrame

namespace TradingEngine

open FallibleRun

/-- `sent` and `outstanding` only record: the ids of all orders sent without an
exchange id, and the orders among them that no message has answered. -/
structure AwaitingSystem where
  om : OwnManager := {}
  table : FlatMap UInt64 OrderSlot 64 := .empty
  pendingNextSlot : ℕ := 0
  sent : List UInt64 := []
  outstanding : List (UInt64 × OrderSlot) := []

inductive AwaitingEvent
  /-- an order from `risk_to_builder_` is built and sent -/
  | dispatch (slot : OrderSlot)
  /-- a message of the exchange is handled -/
  | store (msg : StoreMessage)
  /-- the other threads change whatever they like except the awaited orders -/
  | others (om : OwnManager)

/-- `makeBuilderLookUpTable`: the three entries that are not null. -/
def hasBuilder : Protocol → Venue → Bool
  | .fix, .bist => true
  | .ouch, .bist => true
  | .ouch, .nasdaq => true
  | _, _ => false

/-- The id a message names its order by: `cl_ord_id` or `order_token`. -/
def StoreMessage.named (hash : List UInt8 → UInt64) : StoreMessage → Option UInt64
  | .fix m => some (hash (cString m.clOrdId))
  | .bistOuch (.accepted m) => some (hash m.orderToken)
  | .bistOuch (.rejected m) => some (hash m.orderToken)
  | .bistOuch (.replaced m) => some (hash m.orderToken)
  | .bistOuch (.cancelled m) => some (hash m.orderToken)
  | .bistOuch (.executed m) => some (hash m.orderToken)
  | .nasdaqOuch (.accepted m) => some (hash m.clOrdId)
  | .nasdaqOuch (.replaced m) => some (hash m.clOrdId)
  | .nasdaqOuch (.rejected m) => some (hash m.clOrdId)
  | _ => none

namespace AwaitingSystem

/-- `add_awaitingAck_order`; `start` is the hash of the table. -/
def addAwaitingAckOrder (start : UInt64 → ℕ) (s : AwaitingSystem) (v : VenueIndex)
    (slot : OrderSlot) : AwaitingSystem :=
  let id := (s.om.orderPool slot).clientOrderId
  let inserted := s.table.insert (start id) id slot
  { s with
    table := inserted.1
    pendingNextSlot := s.pendingNextSlot + 1
    om := { s.om with
      awaitingAckOrders :=
        if inserted.2 then s.om.awaitingAckOrders.insert id slot else s.om.awaitingAckOrders
      pendingOrders := Function.update s.om.pendingOrders v (Function.update (s.om.pendingOrders v)
        ⟨s.pendingNextSlot % 64, Nat.mod_lt _ (Nat.succ_pos 63)⟩ (some slot)) }
    sent := s.sent ++ [id]
    outstanding := s.outstanding ++ [(id, slot)] }

/-- `Builder_Dispatch::dispatch`. -/
def dispatch (start : UInt64 → ℕ) (s : AwaitingSystem) (slot : OrderSlot) :
    Except Fault AwaitingSystem :=
  let order := s.om.orderPool slot
  if hasBuilder order.protocol order.venue then
    match order.venue.index with
    | .error e => .error e
    | .ok v =>
      let built := { s with om := s.om.orMask slot builderDone }
      .ok (if order.orderId = 0 then built.addAwaitingAckOrder start v slot else built)
  else .error .nullDereference

/-- The table without one entry. -/
def tableWithout (start : UInt64 → ℕ) (s : AwaitingSystem) :
    Option UInt64 → FlatMap UInt64 OrderSlot 64
  | none => s.table
  | some k => s.table.erase (start k) k

def store (hash : List UInt8 → UInt64) (start : UInt64 → ℕ) (s : AwaitingSystem)
    (msg : StoreMessage) : Except Fault AwaitingSystem :=
  (OwnManager.update hash s.om msg).map fun om =>
    { s with
      om := om
      table := s.tableWithout start (OwnManager.erasedKey hash s.om msg)
      outstanding := s.outstanding.filter fun p => some p.1 ≠ msg.named hash }

def step (hash : List UInt8 → UInt64) (start : UInt64 → ℕ) (s : AwaitingSystem) :
    AwaitingEvent → Except Fault AwaitingSystem
  | .dispatch slot => s.dispatch start slot
  | .store msg => s.store hash start msg
  | .others om => .ok { s with om := { om with awaitingAckOrders := s.om.awaitingAckOrders } }

/-- `get_order_from_awaitingAck_orders`. -/
def getOrderFromAwaitingAckOrders (start : UInt64 → ℕ) (s : AwaitingSystem) (id : UInt64) :
    Option OrderSlot :=
  s.table.find (start id) id

/-- No client order id is sent twice. -/
def DistinctIds (s : AwaitingSystem) : AwaitingEvent → Prop
  | .dispatch slot => (s.om.orderPool slot).orderId = 0 →
      (s.om.orderPool slot).clientOrderId ∉ s.sent
  | _ => True

/-- The table has room for the order that is sent; the entry that is erased is
the one the message names. -/
def Kept (hash : List UInt8 → UInt64) (s : AwaitingSystem) : AwaitingEvent → Prop
  | .dispatch slot => (s.om.orderPool slot).orderId = 0 → s.table.size < 63
  | .store msg => ∀ k, OwnManager.erasedKey hash s.om msg = some k → msg.named hash = some k
  | .others _ => True

/-- The table is the map of the order manager, and holds every order that was
not answered. -/
structure Sound (start : UInt64 → ℕ) (s : AwaitingSystem) : Prop where
  wellFormed : s.table.WellFormed
  represents : ∀ k, s.getOrderFromAwaitingAckOrders start k = s.om.awaitingAckOrders.lookup k
  wasSent : ∀ k slot, s.om.awaitingAckOrders.lookup k = some slot → k ∈ s.sent
  outstandingSent : ∀ p ∈ s.outstanding, p.1 ∈ s.sent
  found : ∀ p ∈ s.outstanding, s.om.awaitingAckOrders.lookup p.1 = some p.2

variable {hash : List UInt8 → UInt64} {start : UInt64 → ℕ} {s s' : AwaitingSystem}

theorem sound_start (om : OwnManager) (hom : om.awaitingAckOrders = ∅) :
    Sound start { om := om } := by
  have hlookup : ∀ k, om.awaitingAckOrders.lookup k = none := by
    intro k
    rw [hom, Finmap.lookup_empty]
  refine ⟨FlatMap.wellFormed_empty, fun k => ?_, fun k slot hk => ?_, ?_, ?_⟩
  · show FlatMap.find .empty (start k) k = om.awaitingAckOrders.lookup k
    rw [hlookup, FlatMap.find_eq_none_iff FlatMap.wellFormed_empty]
    intro i v h
    cases h
  · rw [hlookup] at hk
    cases hk
  · intro p hp
    cases hp
  · intro p hp
    cases hp

/-- A key that was never sent stands in no slot of the table. -/
theorem Sound.fresh (h : s.Sound start) {id : UInt64} (hid : id ∉ s.sent) (i : Fin 64)
    (slot : OrderSlot) : s.table.slots i ≠ some (id, slot) := by
  intro hi
  have hfind : s.table.find (start id) id = some slot :=
    (FlatMap.find_eq_some_iff h.wellFormed).mpr ⟨i, hi⟩
  exact hid (h.wasSent id slot ((h.represents id).symm.trans hfind))

theorem sound_addAwaitingAckOrder (h : s.Sound start) {slot : OrderSlot}
    (hid : (s.om.orderPool slot).clientOrderId ∉ s.sent) (hroom : s.table.size < 63)
    (v : VenueIndex) : (s.addAwaitingAckOrder start v slot).Sound start := by
  generalize hgen : (s.om.orderPool slot).clientOrderId = id at hid
  have hnew := h.fresh hid
  obtain ⟨i, -, hinsert⟩ := FlatMap.insert_cases h.wellFormed hroom (start id) id slot
  have hmap : (s.addAwaitingAckOrder start v slot).om.awaitingAckOrders =
      s.om.awaitingAckOrders.insert id slot := by
    simp only [addAwaitingAckOrder, hgen, hinsert, if_true]
  have htable : (s.addAwaitingAckOrder start v slot).table =
      (s.table.insert (start id) id slot).1 := by
    simp only [addAwaitingAckOrder, hgen]
  have hsent : (s.addAwaitingAckOrder start v slot).sent = s.sent ++ [id] := by
    simp only [addAwaitingAckOrder, hgen]
  have hout : (s.addAwaitingAckOrder start v slot).outstanding =
      s.outstanding ++ [(id, slot)] := by
    simp only [addAwaitingAckOrder, hgen]
  have hself : (s.om.awaitingAckOrders.insert id slot).lookup id = some slot :=
    Finmap.lookup_insert _
  -- the goals are the fields of `Sound`; in each the new token is set apart
  refine ⟨?_, fun k => ?_, fun k t hk => ?_, fun p hp => ?_, fun p hp => ?_⟩
  · rw [htable]
    exact FlatMap.wellFormed_insert h.wellFormed hnew _ _
  · rw [getOrderFromAwaitingAckOrders, htable, hmap,
      FlatMap.find_insert h.wellFormed hroom hnew]
    by_cases hk : k = id
    · rw [if_pos hk, hk, hself]
    · rw [if_neg hk, Finmap.lookup_insert_of_ne _ hk]
      exact h.represents k
  · rw [hmap] at hk
    rw [hsent, List.mem_append]
    by_cases hki : k = id
    · exact .inr (by simp [hki])
    · rw [Finmap.lookup_insert_of_ne _ hki] at hk
      exact .inl (h.wasSent k t hk)
  · rw [hout, List.mem_append] at hp
    rw [hsent, List.mem_append]
    rcases hp with hp | hp
    · exact .inl (h.outstandingSent p hp)
    · exact .inr (by simp [List.mem_singleton.mp hp])
  · rw [hout, List.mem_append] at hp
    rw [hmap]
    rcases hp with hp | hp
    · have hne : p.1 ≠ id := by
        rintro rfl
        exact hid (h.outstandingSent p hp)
      rw [Finmap.lookup_insert_of_ne _ hne]
      exact h.found p hp
    · rw [List.mem_singleton.mp hp]
      exact hself

/-- What `dispatch` does with an order that a builder takes. -/
theorem dispatch_cases {slot : OrderSlot} (hs : s.dispatch start slot = .ok s') :
    ∃ v built, (s.om.orderPool slot).venue.index = .ok v ∧
      built = { s with om := s.om.orMask slot builderDone } ∧
      (((s.om.orderPool slot).orderId = 0 ∧ s' = built.addAwaitingAckOrder start v slot) ∨
        ((s.om.orderPool slot).orderId ≠ 0 ∧ s' = built)) := by
  unfold dispatch at hs
  simp only at hs
  split at hs
  · split at hs
    · cases hs
    · rename_i v hv
      rw [Except.ok.injEq] at hs
      refine ⟨v, _, hv, rfl, ?_⟩
      rw [← hs]
      by_cases hzero : (s.om.orderPool slot).orderId = 0
      · rw [if_pos hzero]
        exact .inl ⟨hzero, rfl⟩
      · rw [if_neg hzero]
        exact .inr ⟨hzero, rfl⟩
  · cases hs

theorem sound_dispatch (h : s.Sound start) {slot : OrderSlot} (hid : s.DistinctIds (.dispatch slot))
    (hkept : s.Kept hash (.dispatch slot)) (hs : s.dispatch start slot = .ok s') :
    s'.Sound start := by
  obtain ⟨v, built, -, hbuilt, ⟨hzero, rfl⟩ | ⟨-, rfl⟩⟩ := dispatch_cases hs
  · have hsound : built.Sound start := by
      rw [hbuilt]
      exact ⟨h.wellFormed, h.represents, h.wasSent, h.outstandingSent, h.found⟩
    -- the bit that says the builder is done leaves the id alone
    have hsame : (built.om.orderPool slot).clientOrderId =
        (s.om.orderPool slot).clientOrderId := by
      rw [hbuilt]
      show (Function.update s.om.orderPool slot _ slot).clientOrderId = _
      rw [Function.update_self]
    refine sound_addAwaitingAckOrder hsound ?_ ?_ v
    · rw [hsame, hbuilt]
      exact hid hzero
    · rw [hbuilt]
      exact hkept hzero
  · rw [hbuilt]
    exact ⟨h.wellFormed, h.represents, h.wasSent, h.outstandingSent, h.found⟩

theorem sound_store (h : s.Sound start) {msg : StoreMessage} (hkept : s.Kept hash (.store msg))
    (hs : s.store hash start msg = .ok s') : s'.Sound start := by
  obtain ⟨om, hom, rfl⟩ := map_eq_ok_iff.mp hs
  have hawait := (OwnManager.update_effect hom).awaiting
  -- the same entry goes from the table and from the map
  cases herased : OwnManager.erasedKey hash s.om msg with
  | none =>
    rw [herased] at hawait
    have hsame : om.awaitingAckOrders = s.om.awaitingAckOrders := hawait
    refine ⟨h.wellFormed, fun k => ?_, fun k t hk => ?_, fun p hp => ?_, fun p hp => ?_⟩
    · show s.table.find (start k) k = om.awaitingAckOrders.lookup k
      rw [hsame]
      exact h.represents k
    · simp only [hsame] at hk
      exact h.wasSent k t hk
    · exact h.outstandingSent p (List.mem_filter.mp hp).1
    · simp only [hsame]
      exact h.found p (List.mem_filter.mp hp).1
  | some key =>
    rw [herased] at hawait
    have herase : om.awaitingAckOrders = s.om.awaitingAckOrders.erase key := hawait
    refine ⟨FlatMap.wellFormed_erase h.wellFormed _ _, fun k => ?_, fun k t hk => ?_,
      fun p hp => ?_, fun p hp => ?_⟩
    · show (s.table.erase (start key) key).find (start k) k = om.awaitingAckOrders.lookup k
      rw [FlatMap.find_erase h.wellFormed, herase]
      by_cases hk : k = key
      · rw [if_pos hk, hk, Finmap.lookup_erase]
      · rw [if_neg hk, Finmap.lookup_erase_ne hk]
        exact h.represents k
    · simp only [herase] at hk
      exact h.wasSent k t (HashMap.lookup_of_lookup_erase hk)
    · exact h.outstandingSent p (List.mem_filter.mp hp).1
    · -- what is still outstanding is not what the message names
      obtain ⟨hmem, hnamed⟩ := List.mem_filter.mp hp
      have hne : p.1 ≠ key := by
        rintro rfl
        rw [hkept p.1 herased] at hnamed
        simp at hnamed
      simp only [herase]
      rw [Finmap.lookup_erase_ne hne]
      exact h.found p hmem

/-- **One step keeps every order that was not answered.** -/
theorem sound_step (h : s.Sound start) {e : AwaitingEvent} (hid : s.DistinctIds e)
    (hkept : s.Kept hash e) (hs : s.step hash start e = .ok s') : s'.Sound start := by
  cases e with
  | dispatch slot => exact sound_dispatch h hid hkept hs
  | store msg => exact sound_store h hkept hs
  | others om =>
    rw [step, Except.ok.injEq] at hs
    rw [← hs]
    exact ⟨h.wellFormed, h.represents, h.wasSent, h.outstandingSent, h.found⟩

end AwaitingSystem

open AwaitingSystem

/-- **Every order sent without an exchange id is found until it is answered.**
In every run that sends no client order id twice, in which the table has room
for each order that is sent and each entry erased is the one the message names,
the orders sent and not answered are found under their ids. -/
theorem awaiting_orders_found (hash : List UInt8 → UInt64) (start : UInt64 → ℕ) (om : OwnManager)
    (hom : om.awaitingAckOrders = ∅) (es : List AwaitingEvent) (t : AwaitingSystem)
    (hrun : exec (AwaitingSystem.step hash start) { om := om } es = .ok t)
    (hids : Along (AwaitingSystem.step hash start) DistinctIds { om := om } es)
    (hkept : Along (AwaitingSystem.step hash start) (Kept hash) { om := om } es) :
    ∀ p ∈ t.outstanding, t.getOrderFromAwaitingAckOrders start p.1 = some p.2 := by
  have hsound : t.Sound start := by
    refine exec_inv_along (fun s e s' hi hc hs => ?_) (sound_start om hom)
      (along_and hids hkept) hrun
    exact sound_step hi hc.1 hc.2 hs
  intro p hp
  rw [hsound.represents]
  exact hsound.found p hp

/-! ### Two orders, and sixty-four -/

/-- Own orders without an exchange id; the client id of each is its slot. -/
def unsentOrders : OwnManager :=
  { orderPool := fun slot =>
      { clientOrderId := slot.val.toUInt64, protocol := .ouch, venue := .bist } }

/-- Two orders are sent and the first one is rejected. -/
def oneRejected : List AwaitingEvent :=
  [.dispatch 32768, .dispatch 32769, .store (.bistOuch (.rejected { orderToken := [] }))]

theorem awaiting_orders_found_oneRejected :
    ∃ t, exec (AwaitingSystem.step (fun _ => 32768) UInt64.toNat) { om := unsentOrders }
        oneRejected = .ok t ∧ t.outstanding = [(32769, 32769)] ∧
      t.getOrderFromAwaitingAckOrders UInt64.toNat 32769 = some 32769 := by
  have hids : Along (AwaitingSystem.step (fun _ => 32768) UInt64.toNat) DistinctIds
      { om := unsentOrders } oneRejected := by
    refine along_cons _ (fun _ => List.not_mem_nil) rfl ?_
    refine along_cons _ ?_ rfl (along_cons _ trivial rfl trivial)
    intro _ hmem
    have hne : (32769 : UInt64) ≠ 32768 := by decide
    exact hne (List.mem_singleton.mp hmem)
  have hkept : Along (AwaitingSystem.step (fun _ => 32768) UInt64.toNat) (Kept fun _ => 32768)
      { om := unsentOrders } oneRejected := by
    refine along_cons _ (fun _ => by decide) rfl ?_
    refine along_cons _ (fun _ => by decide) rfl ?_
    refine along_cons _ ?_ rfl trivial
    intro k hk
    exact hk
  refine ⟨_, rfl, rfl, ?_⟩
  have hfound := awaiting_orders_found (fun _ => 32768) UInt64.toNat unsentOrders rfl oneRejected
    _ rfl hids hkept
  exact hfound (32769, 32769) (List.mem_singleton_self _)

/-- Sixty-four orders are sent before the first answer. -/
def sixtyFour : List AwaitingEvent :=
  (List.finRange 64).map fun i => .dispatch ⟨32768 + i.val, by omega⟩

/-- **The last of sixty-four orders is not found.**  All ids are distinct, and
nothing has been answered. -/
theorem last_order_not_found :
    ∃ t, exec (AwaitingSystem.step (fun _ => 0) UInt64.toNat) { om := unsentOrders }
        sixtyFour = .ok t ∧ t.sent.Nodup ∧ (32831, 32831) ∈ t.outstanding ∧
      t.getOrderFromAwaitingAckOrders UInt64.toNat 32831 = none := by
  refine ⟨_, rfl, ?_, ?_, ?_⟩
  · decide +kernel
  · decide +kernel
  · decide +kernel

end TradingEngine
