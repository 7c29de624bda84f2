/-
How a replaced BIST order is found again (`OrderManager::update_order` for the OUCH
messages of BIST).

Executions and rejects name an order by the token of its last request, replacements and
cancels by its exchange id.  `our_orders_` and `our_orders_wtokenkey_` are written when
an order that waits for its acknowledgement is found, and by the sweep of
`add_our_order`; a replacement of an acknowledged order writes neither.

* `indexStep_updateOrderBistOuch` — what one message does to the two maps;
* `addressable_iff` — an acknowledged order is found by both names exactly when both
  maps lead to it;
* `replace_addressable_iff` — over every run the order stays addressable exactly when each
  replacement names it by an id and a token under which it already stands, and no
  acknowledgement of another order displaces its entries.
-/
import TradingEngine.OuchFills
import TradingEngine.OwnFrame

namespace TradingEngine

open FallibleRun

namespace OwnManager

variable {hash : List UInt8 → UInt64} {om om' : OwnManager} {slot : OrderSlot} {d : DbData}

/-! ### The sweep -/

/-- The slot `add_our_order` releases, once the map has grown to its threshold. -/
def sweptSlot (om : OwnManager) : Option OrderSlot :=
  if ourOrderMapThreshold ≤ om.ourOrders.keys.card then
    let next := if om.triggered % orderMapCapacity = 0 then 32768 else om.ourNextSlot
    if h : next < 65536 then some ⟨next, h⟩ else none
  else none

/-- The own orders by key without the one that is released. -/
def sweptOurs (om : OwnManager) : HashMap OrderKey OrderSlot :=
  match om.sweptSlot with
  | none => om.ourOrders
  | some u => om.ourOrders.erase (om.orderPool u).key

/-- The own orders by token without the one that is released. -/
def sweptTokens (om : OwnManager) : HashMap UInt64 OrderSlot :=
  match om.sweptSlot with
  | none => om.ourOrdersWtokenkey
  | some u => om.ourOrdersWtokenkey.erase (om.orderPool u).clientOrderId

theorem index_sweep (h : om.sweep = .ok om') :
    om'.ourOrders = om.sweptOurs ∧ om'.ourOrdersWtokenkey = om.sweptTokens := by
  unfold sweptOurs sweptTokens sweptSlot
  obtain ⟨hfew, rfl⟩ | ⟨hfull, next, hnext, histories, hturn, rfl⟩ := sweep_cases h
  · simp only [if_neg hfew, and_self]
  · simp only [if_pos hfull, ← hturn, dif_pos hnext, and_self]

theorem index_addOurOrder {k : OrderKey} (h : om.addOurOrder slot k = .ok om') :
    om'.ourOrders = om.sweptOurs.insert k slot ∧ om'.ourOrdersWtokenkey = om.sweptTokens := by
  obtain ⟨om₁, histories, hsweep, rfl⟩ := addOurOrder_cases h
  obtain ⟨hours, htokens⟩ := index_sweep hsweep
  exact ⟨congrArg (Finmap.insert k slot) hours, htokens⟩

/-- An entry survives the sweep unless it is that of the slot released. -/
theorem lookup_sweptOurs {k : OrderKey} {t : OrderSlot} :
    om.sweptOurs.lookup k = some t ↔
      om.ourOrders.lookup k = some t ∧ ∀ u, om.sweptSlot = some u → (om.orderPool u).key ≠ k := by
  unfold sweptOurs
  cases om.sweptSlot with
  | none => simp
  | some u =>
    simp only [Option.some.injEq, forall_eq']
    by_cases hk : k = (om.orderPool u).key
    · subst hk
      simp [Finmap.lookup_erase]
    · rw [Finmap.lookup_erase_ne hk]
      exact ⟨fun h => ⟨h, Ne.symm hk⟩, And.left⟩

theorem lookup_sweptTokens {id : UInt64} {t : OrderSlot} :
    om.sweptTokens.lookup id = some t ↔ om.ourOrdersWtokenkey.lookup id = some t ∧
      ∀ u, om.sweptSlot = some u → (om.orderPool u).clientOrderId ≠ id := by
  unfold sweptTokens
  cases om.sweptSlot with
  | none => simp
  | some u =>
    simp only [Option.some.injEq, forall_eq']
    by_cases hid : id = (om.orderPool u).clientOrderId
    · subst hid
      simp [Finmap.lookup_erase]
    · rw [Finmap.lookup_erase_ne hid]
      exact ⟨fun h => ⟨h, Ne.symm hid⟩, And.left⟩

/-! ### What a message does to the maps -/

/-- The order that a message enters, and the key it enters it under: it was not found by
its key and waits for its acknowledgement. -/
def enteredAs (om : OwnManager) (known : Option OrderSlot) (clientOrderId : UInt64)
    (k : OrderKey) : Option (OrderSlot × OrderKey) :=
  match known with
  | some _ => none
  | none => (om.getOrderFromAwaitingAckOrders clientOrderId).map fun t => (t, k)

def enteredBistOuch (hash : List UInt8 → UInt64) (om : OwnManager) :
    Bist.OuchMessage → Option (OrderSlot × OrderKey)
  | .accepted m =>
    om.enteredAs none (hash m.orderToken) (bistOuchKey m.orderId m.orderBookId m.side)
  | .replaced m =>
    let k := bistOuchKey m.orderId m.orderBookId m.side
    om.enteredAs (om.getOrderFromOurMap k) (hash m.orderToken) k
  | .cancelled m =>
    let k := bistOuchKey m.orderId m.orderBookId m.side
    om.enteredAs (om.getOrderFromOurMap k) (hash m.orderToken) k
  | .executed _ => none
  | .rejected _ => none

/-- The two maps are as they were. -/
structure SameIndex (om om' : OwnManager) : Prop where
  ours : om'.ourOrders = om.ourOrders
  tokens : om'.ourOrdersWtokenkey = om.ourOrdersWtokenkey

theorem SameIndex.refl (om : OwnManager) : SameIndex om om := ⟨rfl, rfl⟩

theorem Calm.sameIndex (h : Calm om om') : SameIndex om om' := ⟨h.ours, h.tokens⟩

/-- The order that is entered is added to both maps, after the sweep. -/
def IndexStep (om om' : OwnManager) : Option (OrderSlot × OrderKey) → Prop
  | none => SameIndex om om'
  | some (t, k) => om'.ourOrders = om.sweptOurs.insert k t ∧
      om'.ourOrdersWtokenkey = om.sweptTokens.insert (om.orderPool t).clientOrderId t

theorem sameIndex_unlessDeferred {handle : OwnManager → Except Fault OwnManager}
    (hhandle : ∀ om', handle om = .ok om' → SameIndex om om')
    (h : om.unlessDeferred slot d handle = .ok om') : SameIndex om om' := by
  obtain ⟨-, rfl⟩ | ⟨-, hhandled⟩ := unlessDeferred_cases h
  · exact ⟨rfl, rfl⟩
  · exact hhandle om' hhandled

theorem indexStep_onBistOuchKey {acknowledges : Bool} {k : OrderKey} {token : List UInt8}
    {fill : OwnManager → OrderSlot → OwnManager}
    (hfill : ∀ (om : OwnManager) slot, SameIndex om (fill om slot))
    (h : onBistOuchKey hash om acknowledges k token d fill = .ok om') :
    IndexStep om om' (om.enteredAs (if acknowledges then none else om.getOrderFromOurMap k)
      (hash token) k) := by
  unfold enteredAs
  obtain ⟨slot, hk, hhandled⟩ | ⟨hk, hawait, rfl⟩ |
    ⟨t, om₁, tokens, hk, hawait, hadd, rfl, rfl⟩ := onBistOuchKey_cases h
  · rw [hk]
    refine sameIndex_unlessDeferred (fun om₁ hok => ?_) hhandled
    rw [← Except.ok.inj hok]
    have hsame := hfill om slot
    exact ⟨hsame.ours, hsame.tokens⟩
  · simp only [hk, hawait]
    exact .refl _
  · simp only [hk, hawait]
    obtain ⟨hours, htokens⟩ := index_addOurOrder hadd
    have hpool := (still_addOurOrder hadd).orderPool
    constructor
    · exact (hfill _ t).ours.trans hours
    · refine (hfill _ t).tokens.trans ?_
      show om₁.ourOrdersWtokenkey.insert (om₁.orderPool t).clientOrderId t = _
      rw [htokens, hpool]

theorem sameIndex_onBistOuchToken {token : List UInt8}
    {finish : OwnManager → OrderSlot → OwnManager}
    (hfinish : ∀ (om : OwnManager) slot, SameIndex om (finish om slot))
    (h : onBistOuchToken hash om token d finish = .ok om') : SameIndex om om' := by
  obtain ⟨slot, -, hhandled⟩ | ⟨-, -, rfl⟩ | ⟨slot, -, -, rfl⟩ := onBistOuchToken_cases h
  · refine sameIndex_unlessDeferred (fun om₁ hok => ?_) hhandled
    rw [← Except.ok.inj hok]
    have hsame := hfinish om slot
    exact ⟨hsame.ours, hsame.tokens⟩
  · exact .refl _
  · have hsame := hfinish (om.eraseAwaitingAck (om.orderPool slot).clientOrderId) slot
    exact ⟨hsame.ours, hsame.tokens⟩

theorem sameIndex_fillOuchRejected (om : OwnManager) (slot : OrderSlot) (timestamp : UInt64) :
    SameIndex om (om.fillOuchRejected slot timestamp) := by
  unfold fillOuchRejected
  simp only
  split
  · exact ⟨rfl, rfl⟩
  · exact ⟨rfl, rfl⟩

/-- **One message.**  The maps change only by the order that is entered. -/
theorem indexStep_updateOrderBistOuch {m : Bist.OuchMessage}
    (h : updateOrderBistOuch hash om m = .ok om') :
    IndexStep om om' (enteredBistOuch hash om m) := by
  cases m with
  | accepted m =>
    simp only [updateOrderBistOuch] at h
    exact indexStep_onBistOuchKey (fun om slot => (calm_setOrder om slot _).sameIndex) h
  | replaced m =>
    exact indexStep_onBistOuchKey (fun om slot => (calm_setOwn om slot _ _).sameIndex) h
  | cancelled m =>
    exact indexStep_onBistOuchKey (fun om slot => (calm_setOrder om slot _).sameIndex) h
  | executed m =>
    refine sameIndex_onBistOuchToken (fun om slot => ?_) h
    exact ((calm_setOrder om slot _).trans (calm_publish _ slot)).sameIndex
  | rejected m =>
    exact sameIndex_onBistOuchToken (fun om slot => sameIndex_fillOuchRejected om slot _) h

/-- An order that waits after a message waited before it. -/
theorem awaiting_updateOrderBistOuch {m : Bist.OuchMessage}
    (h : updateOrderBistOuch hash om m = .ok om') {id : UInt64} {t : OrderSlot}
    (ht : om'.awaitingAckOrders.lookup id = some t) : om.awaitingAckOrders.lookup id = some t := by
  have heffect := (effect_updateOrderBistOuch h).awaiting
  rw [heffect] at ht
  unfold awaitingWithout at ht
  split at ht
  · exact ht
  · exact HashMap.lookup_of_lookup_erase ht

/-! ### Addressable orders -/

theorem existing_inj {om : OrderManager} {t t' : OrderSlot} (h : om.existing t = om.existing t') :
    t = t' := by
  unfold OrderManager.existing at h
  split at h
  · split at h
    · exact Disposition.deferred.inj h
    · cases h
  · split at h
    · cases h
    · exact Disposition.applied.inj h

/-- A message reaches an order that does not wait for its acknowledgement only when the
lookup finds it. -/
theorem knownOrAwaited_eq_existing_iff (hwait : ∀ id, om.awaitingAckOrders.lookup id ≠ some slot)
    {o : Option OrderSlot} {id : UInt64} :
    om.knownOrAwaited o id = om.existing slot ↔ o = some slot := by
  unfold knownOrAwaited
  cases o with
  | some t => exact ⟨fun h => congrArg some (existing_inj h), fun h => by rw [Option.some.inj h]⟩
  | none =>
    refine ⟨fun h => ?_, fun h => by cases h⟩
    simp only [awaited] at h
    unfold OrderManager.existing at h
    split at h
    · split at h <;> cases h
    · rename_i t ht
      split at h
      · cases h
      · rw [Disposition.applied.inj h] at ht
        exact absurd ht (hwait id)

end OwnManager

open OwnManager

/-- What the exchange calls an order by: the token of its last request, its id, its book
and its side. -/
structure BistAddress where
  token : List UInt8
  orderId : UInt64
  orderBookId : UInt32
  side : UInt8

namespace BistAddress

def key (a : BistAddress) : OrderKey := bistOuchKey a.orderId a.orderBookId a.side

end BistAddress

/-- The address a replacement gives its order. -/
def Bist.OuchReplaced.address (m : Bist.OuchReplaced) : BistAddress :=
  ⟨m.orderToken, m.orderId, m.orderBookId, m.side⟩

/-- The store with the address of one of its orders. -/
structure AddressedStore where
  om : OwnManager
  address : BistAddress

/-- The exchange replaces the order, or sends any other message. -/
inductive AddressEvent
  | replace (msg : Bist.OuchReplaced)
  | other (msg : Bist.OuchMessage)

namespace AddressedStore

variable {hash : List UInt8 → UInt64} {slot : OrderSlot} {s s' : AddressedStore}

def step (hash : List UInt8 → UInt64) (s : AddressedStore) :
    AddressEvent → Except Fault AddressedStore
  | .replace m => (updateOrderBistOuch hash s.om (.replaced m)).map (⟨·, m.address⟩)
  | .other m => (updateOrderBistOuch hash s.om m).map (⟨·, s.address⟩)

/-- The order has been acknowledged: it waits under no id. -/
def Acknowledged (slot : OrderSlot) (s : AddressedStore) : Prop :=
  ∀ id, s.om.awaitingAckOrders.lookup id ≠ some slot

/-- Messages with the token, and messages with the id, are applied to the order in
`slot`, or deferred with it while it is locked. -/
structure Addressable (hash : List UInt8 → UInt64) (slot : OrderSlot) (s : AddressedStore) :
    Prop where
  executed : ∀ m : Bist.OuchExecuted, m.orderToken = s.address.token →
    dispositionBistOuch hash s.om (.executed m) = s.om.existing slot
  rejected : ∀ m : Bist.OuchRejected, m.orderToken = s.address.token →
    dispositionBistOuch hash s.om (.rejected m) = s.om.existing slot
  replaced : ∀ m : Bist.OuchReplaced, m.address.key = s.address.key →
    dispositionBistOuch hash s.om (.replaced m) = s.om.existing slot
  cancelled : ∀ m : Bist.OuchCancelled,
    bistOuchKey m.orderId m.orderBookId m.side = s.address.key →
    dispositionBistOuch hash s.om (.cancelled m) = s.om.existing slot

/-- Both maps lead to the order. -/
structure Entered (hash : List UInt8 → UInt64) (slot : OrderSlot) (om : OwnManager)
    (a : BistAddress) : Prop where
  ours : om.ourOrders.lookup a.key = some slot
  tokens : om.ourOrdersWtokenkey.lookup (hash a.token) = some slot

/-- **An acknowledged order is addressable exactly when both maps lead to it.** -/
theorem addressable_iff (hack : s.Acknowledged slot) :
    s.Addressable hash slot ↔ Entered hash slot s.om s.address := by
  constructor
  · intro h
    -- one message with the token and one with the id tell what both maps have
    have hexecuted := h.executed ⟨0, 0, 0, s.address.token⟩ rfl
    have hreplaced := h.replaced
      ⟨0, s.address.orderId, 0, s.address.orderBookId, 0, s.address.side, 0, 0, []⟩ rfl
    exact ⟨(knownOrAwaited_eq_existing_iff hack).mp hreplaced,
      (knownOrAwaited_eq_existing_iff hack).mp hexecuted⟩
  · rintro ⟨hours, htokens⟩
    refine ⟨fun m hm => ?_, fun m hm => ?_, fun m hm => ?_, fun m hm => ?_⟩
    · exact (knownOrAwaited_eq_existing_iff hack).mpr (hm ▸ htokens)
    · exact (knownOrAwaited_eq_existing_iff hack).mpr (hm ▸ htokens)
    · exact (knownOrAwaited_eq_existing_iff hack).mpr
        ((congrArg s.om.ourOrders.lookup hm).trans hours)
    · exact (knownOrAwaited_eq_existing_iff hack).mpr
        ((congrArg s.om.ourOrders.lookup hm).trans hours)

/-- A replacement names the order by an id and a token under which it already stands; a
message that enters another order leaves both entries. -/
def KeepsAddress (hash : List UInt8 → UInt64) (slot : OrderSlot) (s : AddressedStore) :
    AddressEvent → Prop
  | .replace m => Entered hash slot s.om m.address
  | .other m => ∀ t k, enteredBistOuch hash s.om m = some (t, k) →
      (k ≠ s.address.key ∧ (s.om.orderPool t).clientOrderId ≠ hash s.address.token) ∧
        ∀ u, s.om.sweptSlot = some u → (s.om.orderPool u).key ≠ s.address.key ∧
          (s.om.orderPool u).clientOrderId ≠ hash s.address.token

theorem acknowledged_step {e : AddressEvent} (hack : s.Acknowledged slot)
    (h : step hash s e = .ok s') : s'.Acknowledged slot := by
  intro id hid
  cases e with
  | replace m =>
    obtain ⟨om, hom, rfl⟩ := map_eq_ok_iff.mp h
    exact hack id (awaiting_updateOrderBistOuch hom hid)
  | other m =>
    obtain ⟨om, hom, rfl⟩ := map_eq_ok_iff.mp h
    exact hack id (awaiting_updateOrderBistOuch hom hid)

/-- An order that is entered is not the acknowledged one. -/
theorem ne_of_entered {om : OwnManager} (hack : ∀ id, om.awaitingAckOrders.lookup id ≠ some slot)
    {m : Bist.OuchMessage} {t : OrderSlot} {k : OrderKey}
    (h : enteredBistOuch hash om m = some (t, k)) : t ≠ slot := by
  have hentered : ∀ (known : Option OrderSlot) {id : UInt64} {k' : OrderKey},
      om.enteredAs known id k' = some (t, k) → t ≠ slot := by
    intro known id k' h' ht
    unfold enteredAs at h'
    split at h'
    · cases h'
    · obtain ⟨u, hu, heq⟩ := Option.map_eq_some_iff.mp h'
      have hut : u = t := congrArg Prod.fst heq
      exact hack id (by rw [← ht, ← hut]; exact hu)
  cases m with
  | accepted m => exact hentered none h
  | replaced m => exact hentered _ h
  | cancelled m => exact hentered _ h
  | executed m => cases h
  | rejected m => cases h

/-- A replacement enters an order only under its own key, where none stands. -/
theorem key_of_entered_replaced {om : OwnManager} {m : Bist.OuchReplaced} {t : OrderSlot}
    {k : OrderKey} (h : enteredBistOuch hash om (.replaced m) = some (t, k)) :
    k = m.address.key ∧ om.ourOrders.lookup m.address.key = none := by
  change om.enteredAs (om.ourOrders.lookup m.address.key) (hash m.orderToken) m.address.key = _ at h
  unfold enteredAs at h
  split at h
  · cases h
  · rename_i hknown
    obtain ⟨u, -, heq⟩ := Option.map_eq_some_iff.mp h
    exact ⟨(congrArg Prod.snd heq).symm, hknown⟩

/-- The entries of an order after a message that enters another one. -/
theorem entered_iff_of_entered {om om' : OwnManager} {a : BistAddress} {t : OrderSlot}
    {k : OrderKey} (hne : t ≠ slot) (hstep : IndexStep om om' (some (t, k))) :
    Entered hash slot om' a ↔ Entered hash slot om a ∧
      (k ≠ a.key ∧ (om.orderPool t).clientOrderId ≠ hash a.token) ∧
        ∀ u, om.sweptSlot = some u →
          (om.orderPool u).key ≠ a.key ∧ (om.orderPool u).clientOrderId ≠ hash a.token := by
  obtain ⟨hours, htokens⟩ := hstep
  -- an entry is lost to the order that enters under it, or to the order that is swept
  have hkey : om'.ourOrders.lookup a.key = some slot ↔
      k ≠ a.key ∧ om.sweptOurs.lookup a.key = some slot := by
    rw [hours]
    by_cases hk : a.key = k
    · rw [hk, Finmap.lookup_insert]
      simp [hne]
    · rw [Finmap.lookup_insert_of_ne _ hk]
      exact ⟨fun h => ⟨Ne.symm hk, h⟩, And.right⟩
  have htoken : om'.ourOrdersWtokenkey.lookup (hash a.token) = some slot ↔
      (om.orderPool t).clientOrderId ≠ hash a.token ∧
        om.sweptTokens.lookup (hash a.token) = some slot := by
    rw [htokens]
    by_cases hid : hash a.token = (om.orderPool t).clientOrderId
    · rw [hid, Finmap.lookup_insert]
      simp [hne]
    · rw [Finmap.lookup_insert_of_ne _ hid]
      exact ⟨fun h => ⟨Ne.symm hid, h⟩, And.right⟩
  rw [lookup_sweptOurs] at hkey
  rw [lookup_sweptTokens] at htoken
  constructor
  · rintro ⟨h₁, h₂⟩
    obtain ⟨hk, hold, hswept⟩ := hkey.mp h₁
    obtain ⟨hid, hold', hswept'⟩ := htoken.mp h₂
    exact ⟨⟨hold, hold'⟩, ⟨hk, hid⟩, fun u hu => ⟨hswept u hu, hswept' u hu⟩⟩
  · rintro ⟨⟨hold, hold'⟩, ⟨hk, hid⟩, hswept⟩
    exact ⟨hkey.mpr ⟨hk, hold, fun u hu => (hswept u hu).1⟩,
      htoken.mpr ⟨hid, hold', fun u hu => (hswept u hu).2⟩⟩

/-- **One event.**  The entries lead to the order afterwards exactly under the
condition. -/
theorem entered_step_iff {e : AddressEvent} (hack : s.Acknowledged slot)
    (hs : Entered hash slot s.om s.address) (h : step hash s e = .ok s') :
    Entered hash slot s'.om s'.address ↔ KeepsAddress hash slot s e := by
  cases e with
  | replace m =>
    obtain ⟨om, hom, rfl⟩ := map_eq_ok_iff.mp h
    have hstep := indexStep_updateOrderBistOuch hom
    -- the address becomes that of the replacement
    show Entered hash slot om m.address ↔ Entered hash slot s.om m.address
    cases hent : enteredBistOuch hash s.om (.replaced m) with
    | none =>
      rw [hent] at hstep
      exact ⟨fun h => ⟨hstep.ours ▸ h.ours, hstep.tokens ▸ h.tokens⟩,
        fun h => ⟨hstep.ours.symm ▸ h.ours, hstep.tokens.symm ▸ h.tokens⟩⟩
    | some p =>
      obtain ⟨t, k⟩ := p
      rw [hent] at hstep
      -- another order takes the new key, under which none stood
      obtain ⟨hkey, hnone⟩ := key_of_entered_replaced hent
      refine iff_of_false (fun hafter => ?_) fun hbefore => ?_
      · have hiff := (entered_iff_of_entered (ne_of_entered hack hent) hstep).mp hafter
        exact hiff.2.1.1 hkey
      · rw [hbefore.ours] at hnone
        cases hnone
  | other m =>
    obtain ⟨om, hom, rfl⟩ := map_eq_ok_iff.mp h
    have hstep := indexStep_updateOrderBistOuch hom
    show Entered hash slot om s.address ↔ _
    cases hent : enteredBistOuch hash s.om m with
    | none =>
      rw [hent] at hstep
      refine iff_of_true ⟨hstep.ours.symm ▸ hs.ours, hstep.tokens.symm ▸ hs.tokens⟩ ?_
      intro t k ht
      rw [hent] at ht
      cases ht
    | some p =>
      obtain ⟨t, k⟩ := p
      rw [hent] at hstep
      rw [entered_iff_of_entered (ne_of_entered hack hent) hstep, and_iff_right hs]
      constructor
      · intro hkeeps t' k' ht
        rw [hent] at ht
        cases ht
        exact hkeeps
      · intro hkeeps
        exact hkeeps t k hent

/-- **When a replaced order stays addressable.**  Over every run of messages after an
order has been acknowledged and entered, it is addressable by its latest token and id in
every state reached exactly when each replacement names it by an id and a token under
which it stands already, and no other order displaces its entries. -/
theorem replace_addressable_iff {es : List AddressEvent} {t : AddressedStore}
    (hack : s.Acknowledged slot) (hs : s.Addressable hash slot)
    (hrun : exec (step hash) s es = .ok t) :
    (∀ es₁ u, es₁ <+: es → exec (step hash) s es₁ = .ok u → u.Addressable hash slot) ↔
      Along (step hash) (KeepsAddress hash slot) s es := by
  have hgood : ∀ s : AddressedStore,
      s.Acknowledged slot ∧ Entered hash slot s.om s.address → s.Addressable hash slot :=
    fun s hinv => (addressable_iff hinv.1).mpr hinv.2
  -- the invariant: acknowledged, and both maps lead to the order
  refine forall_prefix_iff_along hgood (fun s e s' hinv hkeeps h => ?_)
    (fun s e s' hinv h haddr => ?_) ⟨hack, (addressable_iff hack).mp hs⟩ hrun
  · exact ⟨acknowledged_step hinv.1 h, (entered_step_iff hinv.1 hinv.2 h).mpr hkeeps⟩
  · have hentered := (addressable_iff (acknowledged_step hinv.1 h)).mp haddr
    exact (entered_step_iff hinv.1 hinv.2 h).mp hentered

/-- **The first acknowledgement makes an order addressable**, when it waits under the
token it was sent with and nowhere else. -/
theorem addressable_of_accepted {om om' : OwnManager} {m : Bist.OuchAccepted}
    (hwait : om.awaitingAckOrders.lookup (hash m.orderToken) = some slot)
    (honly : ∀ id, om.awaitingAckOrders.lookup id = some slot → id = hash m.orderToken)
    (hid : (om.orderPool slot).clientOrderId = hash m.orderToken)
    (h : updateOrderBistOuch hash om (.accepted m) = .ok om') :
    Acknowledged slot ⟨om', ⟨m.orderToken, m.orderId, m.orderBookId, m.side⟩⟩ ∧
      Addressable hash slot ⟨om', ⟨m.orderToken, m.orderId, m.orderBookId, m.side⟩⟩ := by
  have hack : Acknowledged slot ⟨om', ⟨m.orderToken, m.orderId, m.orderBookId, m.side⟩⟩ := by
    intro id hafter
    have heq : id = hash m.orderToken := honly id (awaiting_updateOrderBistOuch h hafter)
    have herased : erasedKeyBistOuch hash om (.accepted m) = some (hash m.orderToken) := by
      simp only [erasedKeyBistOuch, erasedIfAwaited, getOrderFromAwaitingAckOrders, hwait]
    -- the acknowledgement erases the one id under which the order waited
    have heffect := (effect_updateOrderBistOuch h).awaiting
    rw [herased] at heffect
    change om'.awaitingAckOrders.lookup id = some slot at hafter
    rw [heffect, heq, awaitingWithout, Finmap.lookup_erase] at hafter
    cases hafter
  have hentered : enteredBistOuch hash om (.accepted m) =
      some (slot, bistOuchKey m.orderId m.orderBookId m.side) := by
    simp only [enteredBistOuch, enteredAs, getOrderFromAwaitingAckOrders, hwait, Option.map_some]
  have hstep := indexStep_updateOrderBistOuch h
  rw [hentered] at hstep
  refine ⟨hack, (addressable_iff hack).mpr ⟨?_, ?_⟩⟩
  · show om'.ourOrders.lookup (bistOuchKey m.orderId m.orderBookId m.side) = some slot
    rw [hstep.1, Finmap.lookup_insert]
  · show om'.ourOrdersWtokenkey.lookup (hash m.orderToken) = some slot
    rw [hstep.2, hid, Finmap.lookup_insert]

/-! ### A token kept, and a token replaced -/

/-- A hash that tells tokens apart by their first byte. -/
def firstByte (token : List UInt8) : UInt64 := (token.headD 0).toUInt64

def acceptOne : Bist.OuchAccepted :=
  { orderId := 1, quantity := 10, orderBookId := 5, price := 100, orderToken := [0]
    side := charB }

/-- The store after the order has been accepted. -/
def acceptedOne : AddressedStore :=
  ⟨(updateOrderBistOuch firstByte (sentOrder .bist) (.accepted acceptOne)).toOption.getD {},
    ⟨[0], 1, 5, charB⟩⟩

theorem acknowledged_acceptedOne :
    acceptedOne.Acknowledged 32768 ∧ acceptedOne.Addressable firstByte 32768 := by
  refine addressable_of_accepted (Finmap.lookup_singleton_eq) (fun id hid => ?_) rfl
    (show updateOrderBistOuch firstByte (sentOrder .bist) (.accepted acceptOne) = .ok _ from rfl)
  have hmem : id ∈ (sentOrder .bist).awaitingAckOrders := Finmap.mem_of_lookup_eq_some hid
  exact (Finmap.mem_singleton id 0 32768).mp hmem

/-- The order is replaced, with a token, and five of it trade. -/
def replacedAs (token : List UInt8) : List AddressEvent :=
  [.replace { orderId := 1, quantity := 8, orderBookId := 5, price := 101, side := charB
              orderToken := token },
    .other (.executed { tradedQuantity := 5, tradePrice := 101, orderToken := token })]

theorem replace_addressable_iff_sameToken : ∃ t,
    exec (step firstByte) acceptedOne (replacedAs [0]) = .ok t ∧
      (t.om.orderPool 32768).filledQuantity = 5 ∧ t.Addressable firstByte 32768 := by
  have hiff := replace_addressable_iff acknowledged_acceptedOne.1 acknowledged_acceptedOne.2
    (show exec (step firstByte) acceptedOne (replacedAs [0]) = .ok _ from rfl)
  have hkeeps : Along (step firstByte) (KeepsAddress firstByte 32768) acceptedOne
      (replacedAs [0]) := by
    refine along_cons _ ?_ rfl (along_cons _ ?_ rfl trivial)
    · exact (addressable_iff acknowledged_acceptedOne.1).mp acknowledged_acceptedOne.2
    · intro t k ht
      cases ht
  exact ⟨_, rfl, rfl, hiff.mpr hkeeps _ _ (List.prefix_refl _) rfl⟩

/-- **A replaced order is lost.**  The replacement is applied, the execution under its
token is dropped. -/
theorem replaced_token_dropped : ∃ t,
    exec (step firstByte) acceptedOne (replacedAs [1]) = .ok t ∧
      acceptedOne.Acknowledged 32768 ∧ acceptedOne.Addressable firstByte 32768 ∧
      (t.om.orderPool 32768).status = .replaced ∧
      (t.om.orderPool 32768).filledQuantity = 0 ∧ ¬t.Addressable firstByte 32768 := by
  refine ⟨_, rfl, acknowledged_acceptedOne.1, acknowledged_acceptedOne.2, rfl, rfl, fun h => ?_⟩
  have hdropped := h.executed { tradedQuantity := 5, tradePrice := 101, orderToken := [1] } rfl
  have hne : Disposition.dropped ≠ .applied 32768 := by decide
  exact hne hdropped

end AddressedStore

end TradingEngine
