/-
The reference numbers in the requests to NASDAQ
(`protocol/builders/OUCH/Builder_OUCH_NASDAQ.h`, `Builder_Dispatch::dispatch`).

The builder gives each Enter and each Replace the next of its own numbers and keeps the
last two of an order in `user_ref_num` and `pre_user_ref_num`.  The exchange knows an
order by the number of its last Enter or Replace.  A Replace however names the order by
`pre_user_ref_num`, which is one number behind, and a Cancel or a Modify by the number
the builder has not given out yet.

* `preUserRefNum_updateOrderNasdaqOuch` — the answers of the exchange leave
  `pre_user_ref_num` alone;
* `Numbered` — the numbers issued so far are `1` up to the counter;
* `requests_named_iff` — over every run all requests name their orders by the right
  number, and no number is issued twice, exactly when the orders are only entered.
-/
import TradingEngine.OwnOrders

namespace TradingEngine

open FallibleRun

/-! ### The builder -/

/-- `memcpy` of some bytes of a `char` array that is filled up with NULs. -/
def copyField (bytes : List UInt8) (len : UInt8) : List UInt8 :=
  (bytes ++ List.replicate len.toNat 0).take len.toNat

/-- `order.side == Side::Buy ? 'B' : 'S'`. -/
def charOfSide (side : Side) : UInt8 := if side = .buy then charB else 83

/-- `O`; `flags` are the bytes after the time in force. -/
structure EnterRequest where
  userRefNum : UInt32
  side : UInt8
  quantity : UInt32
  symbol : List UInt8
  price : UInt64
  timeInForce : UInt8
  flags : List UInt8 := [89, 65, 78, 78]
  clOrdId : List UInt8
  appendageLength : UInt16 := 0

/-- `U`. -/
structure ReplaceRequest where
  origUserRefNum : UInt32
  userRefNum : UInt32
  quantity : UInt32
  price : UInt64
  timeInForce : UInt8
  flags : List UInt8 := [89, 78]
  clOrdId : List UInt8
  appendageLength : UInt16 := 0

/-- `X`. -/
structure CancelRequest where
  userRefNum : UInt32
  quantity : UInt32
  appendageLength : UInt16 := 0

/-- `M`. -/
structure ModifyRequest where
  userRefNum : UInt32
  side : UInt8
  quantity : UInt32
  appendageLength : UInt16 := 0

/-- `Builder_OUCH_NASDAQ`; the buffers it writes to are the values it returns. -/
structure BuilderOuchNasdaq where
  userRefNum : UInt32 := 1

namespace BuilderOuchNasdaq

variable (b : BuilderOuchNasdaq) (order : Order) (own : OwnFields)

/-- The next number is given out. -/
def next : BuilderOuchNasdaq := { b with userRefNum := b.userRefNum + 1 }

def buildEnterOrder : EnterRequest × BuilderOuchNasdaq × OwnFields :=
  ({ userRefNum := b.userRefNum
     side := charOfSide order.side
     quantity := order.quantity
     symbol := copyField order.symbol own.realSymbolLen
     price := order.price.toUInt64
     timeInForce := own.timeInForce
     clOrdId := copyField own.clientOrderToken own.realClOrdTokenLen },
    b.next, { own with userRefNum := b.userRefNum })

def buildReplaceOrder : ReplaceRequest × BuilderOuchNasdaq × OwnFields :=
  ({ origUserRefNum := own.preUserRefNum
     userRefNum := b.userRefNum
     quantity := order.quantity
     price := order.price.toUInt64
     timeInForce := own.timeInForce
     clOrdId := copyField own.clientOrderToken own.realClOrdTokenLen },
    -- the number of the order moves up after it has been written
    b.next, { own with preUserRefNum := own.userRefNum, userRefNum := b.userRefNum })

def buildCancelOrder : CancelRequest := { userRefNum := b.userRefNum, quantity := order.quantity }

def buildModifyOrder : ModifyRequest :=
  { userRefNum := b.userRefNum, side := charOfSide order.side, quantity := order.quantity }

end BuilderOuchNasdaq

/-! ### Builder, store and exchange -/

/-- The store and the builder; which number the exchange knows an order by, and the
numbers issued so far. -/
structure RefNumSystem where
  om : OwnManager
  builder : BuilderOuchNasdaq := {}
  known : OrderSlot → Option UInt32 := fun _ => none
  issued : List UInt32 := []

/-- The strategy has written an order into a slot and it is sent with a request, or the
exchange answers. -/
inductive RefNumEvent
  | enter (slot : OrderSlot) (order : Order)
  | replace (slot : OrderSlot) (order : Order)
  | cancel (slot : OrderSlot) (order : Order)
  | modify (slot : OrderSlot) (order : Order)
  | accepted (msg : Nasdaq.OuchAccepted)
  | replaced (msg : Nasdaq.OuchReplaced)

namespace RefNumSystem

open OwnManager

/-- `dispatch` on the order in a slot: the fields that the builder has changed, and an
order without exchange id waits for its acknowledgement. -/
def dispatched (om : OwnManager) (slot : OrderSlot) (order : Order) (own : OwnFields) :
    OwnManager :=
  let om := om.setOwn slot { order with canModify := order.canModify ||| builderDone } own
  if order.orderId = 0 then
    { om with awaitingAckOrders := om.awaitingAckOrders.insert order.clientOrderId slot }
  else om

def step (hash : List UInt8 → UInt64) (s : RefNumSystem) :
    RefNumEvent → Except Fault RefNumSystem
  | .enter slot order =>
    let (request, builder, own) := s.builder.buildEnterOrder order (s.om.ownFields slot)
    .ok { om := dispatched s.om slot order own
          builder := builder
          known := Function.update s.known slot (some request.userRefNum)
          issued := request.userRefNum :: s.issued }
  | .replace slot order =>
    let (request, builder, own) := s.builder.buildReplaceOrder order (s.om.ownFields slot)
    .ok { om := dispatched s.om slot order own
          builder := builder
          known := Function.update s.known slot (some request.userRefNum)
          issued := request.userRefNum :: s.issued }
  | .cancel slot order =>
    .ok { s with om := dispatched s.om slot order (s.om.ownFields slot) }
  | .modify slot order =>
    .ok { s with om := dispatched s.om slot order (s.om.ownFields slot) }
  | .accepted msg =>
    (updateOrderNasdaqOuch hash s.om (.accepted msg)).map fun om => { s with om := om }
  | .replaced msg =>
    (updateOrderNasdaqOuch hash s.om (.replaced msg)).map fun om => { s with om := om }

/-- A request names its order by the number the exchange knows it by, and the number it
gives it has not been issued before. -/
def Named (s : RefNumSystem) : RefNumEvent → Prop
  | .enter slot order =>
    (s.builder.buildEnterOrder order (s.om.ownFields slot)).1.userRefNum ∉ s.issued
  | .replace slot order =>
    let request := (s.builder.buildReplaceOrder order (s.om.ownFields slot)).1
    s.known slot = some request.origUserRefNum ∧ request.userRefNum ∉ s.issued
  | .cancel slot order => s.known slot = some (s.builder.buildCancelOrder order).userRefNum
  | .modify slot order => s.known slot = some (s.builder.buildModifyOrder order).userRefNum
  | .accepted _ => True
  | .replaced _ => True

/-- Orders are only entered, while there are numbers left; once all have been issued the
counter stands at `1` again, which may be the number of the order that is cancelled or
modified. -/
def OnlyEnters (s : RefNumSystem) : RefNumEvent → Prop
  | .enter _ _ => s.issued.length < 2 ^ 32
  | .replace _ _ => False
  | .cancel slot _ => s.issued.length = 2 ^ 32 ∧ s.known slot = some 1
  | .modify slot _ => s.issued.length = 2 ^ 32 ∧ s.known slot = some 1
  | .accepted _ => True
  | .replaced _ => True

end RefNumSystem

/-! ### The answers of the exchange -/

namespace OwnManager

variable {hash : List UInt8 → UInt64} {om om' om₁ : OwnManager} {slot : OrderSlot} {d : DbData}

/-- The previous number of every order is as it was. -/
def KeepsPre (om om' : OwnManager) : Prop :=
  ∀ t, (om'.ownFields t).preUserRefNum = (om.ownFields t).preUserRefNum

theorem keepsPre_of_eq (h : om'.ownFields = om.ownFields) : KeepsPre om om' := fun t => by rw [h]

theorem KeepsPre.trans (h : KeepsPre om om₁) (h' : KeepsPre om₁ om') : KeepsPre om om' :=
  fun t => (h' t).trans (h t)

theorem keepsPre_setOwn {order : Order} {own : OwnFields}
    (hown : own.preUserRefNum = (om.ownFields slot).preUserRefNum) :
    KeepsPre om (om.setOwn slot order own) := by
  intro t
  show (Function.update om.ownFields slot own t).preUserRefNum = _
  by_cases ht : t = slot
  · rw [ht, Function.update_self, hown]
  · rw [Function.update_of_ne ht]

theorem ownFields_addOurOrder {k : OrderKey} (h : om.addOurOrder slot k = .ok om') :
    om'.ownFields = om.ownFields := by
  obtain ⟨om₁, histories, hsweep, rfl⟩ := addOurOrder_cases h
  obtain ⟨-, rfl⟩ | ⟨-, next, hnext, histories, -, rfl⟩ := sweep_cases hsweep
  · rfl
  · rfl

theorem keepsPre_onNasdaqOuchAwaited {orderId : UInt64} {side : UInt8} {clOrdId : List UInt8}
    {fill : OwnManager → OrderSlot → OwnManager}
    (hfill : ∀ (om : OwnManager) slot, KeepsPre om (fill om slot))
    (h : onNasdaqOuchAwaited hash om orderId side clOrdId d fill = .ok om') : KeepsPre om om' := by
  obtain ⟨-, rfl⟩ | ⟨slot, om₁, k, refs, -, -, hadd, -, rfl⟩ := onNasdaqOuchAwaited_cases h
  · exact keepsPre_of_eq rfl
  · exact (keepsPre_of_eq (ownFields_addOurOrder hadd)).trans (hfill _ _)

theorem keepsPre_fillOuchReplaced (om : OwnManager) (slot : OrderSlot) (m : Nasdaq.OuchReplaced) :
    KeepsPre om (om.setOwn slot
      (FillerOuchNasdaq.fillOuchReplaced (om.orderPool slot) (om.ownFields slot) m).1
      (FillerOuchNasdaq.fillOuchReplaced (om.orderPool slot) (om.ownFields slot) m).2) :=
  keepsPre_setOwn rfl

/-- **No answer writes the previous number of an order.** -/
theorem preUserRefNum_updateOrderNasdaqOuch {m : Nasdaq.OuchMessage}
    (hm : (∃ x, m = .accepted x) ∨ ∃ x, m = .replaced x)
    (h : updateOrderNasdaqOuch hash om m = .ok om') : KeepsPre om om' := by
  rcases hm with ⟨x, rfl⟩ | ⟨x, rfl⟩
  · simp only [updateOrderNasdaqOuch] at h
    refine keepsPre_onNasdaqOuchAwaited (fun om slot => ?_) h
    exact keepsPre_of_eq rfl
  · obtain ⟨fill, rfl, locate, k, -, -, hcase⟩ := ouchReplaced_cases h
    obtain ⟨slot, -, hhandled⟩ | ⟨-, hawaited⟩ := hcase
    · obtain ⟨-, rfl⟩ | ⟨-, hok⟩ := unlessDeferred_cases hhandled
      · exact keepsPre_of_eq rfl
      · rw [← Except.ok.inj hok]
        exact keepsPre_fillOuchReplaced om slot x
    · exact keepsPre_onNasdaqOuchAwaited (fun om slot => keepsPre_fillOuchReplaced om slot x)
        hawaited

end OwnManager

/-! ### The numbers of a run -/

namespace RefNumSystem

open OwnManager

variable {hash : List UInt8 → UInt64} {s s' : RefNumSystem}

/-- The numbers issued are `1` up to the counter, the orders are known by some of them,
and no order has a previous number. -/
structure Numbered (s : RefNumSystem) : Prop where
  count : s.issued.length ≤ 2 ^ 32
  counter : s.builder.userRefNum = UInt32.ofNat (s.issued.length + 1)
  issued : ∀ n, n ∈ s.issued ↔ ∃ i < s.issued.length, n = UInt32.ofNat (i + 1)
  known : ∀ slot n, s.known slot = some n → n ∈ s.issued
  pre : ∀ slot, (s.om.ownFields slot).preUserRefNum = 0

theorem numbered_start {om : OwnManager} (hpre : ∀ slot, (om.ownFields slot).preUserRefNum = 0) :
    Numbered { om := om } := by
  refine ⟨Nat.zero_le _, rfl, fun n => ⟨fun h => ?_, ?_⟩, fun slot n h => ?_, hpre⟩
  · cases h
  · rintro ⟨i, hi, -⟩
    exact absurd hi (Nat.not_lt_zero i)
  · cases h

theorem ofNat_eq_iff {m n : ℕ} : UInt32.ofNat m = UInt32.ofNat n ↔ m % 2 ^ 32 = n % 2 ^ 32 := by
  rw [← UInt32.toNat_inj, UInt32.toNat_ofNat', UInt32.toNat_ofNat']

/-- The number that comes next has been issued only when all of them have. -/
theorem Numbered.counter_mem_iff (h : s.Numbered) :
    s.builder.userRefNum ∈ s.issued ↔ s.issued.length = 2 ^ 32 := by
  have hcount := h.count
  rw [h.issued, h.counter]
  constructor
  · rintro ⟨i, hi, heq⟩
    rw [ofNat_eq_iff] at heq
    omega
  · intro hall
    refine ⟨0, by omega, ofNat_eq_iff.mpr ?_⟩
    omega

/-- An order is known by the counter only when that has come round to `1`. -/
theorem Numbered.known_counter_iff (h : s.Numbered) {slot : OrderSlot} :
    s.known slot = some s.builder.userRefNum ↔
      s.issued.length = 2 ^ 32 ∧ s.known slot = some 1 := by
  have hone : s.issued.length = 2 ^ 32 → s.builder.userRefNum = 1 := by
    intro hall
    rw [h.counter, hall]
    rfl
  constructor
  · intro hknown
    -- a known number has been issued, the next one only after a wrap
    have hall := h.counter_mem_iff.mp (h.known slot _ hknown)
    exact ⟨hall, hone hall ▸ hknown⟩
  · rintro ⟨hall, hknown⟩
    rw [hone hall]
    exact hknown

/-- `0` is the last number issued. -/
theorem Numbered.length_of_known_zero (h : s.Numbered) {slot : OrderSlot}
    (hknown : s.known slot = some 0) : s.issued.length = 2 ^ 32 := by
  have hcount := h.count
  obtain ⟨i, hi, heq⟩ := (h.issued 0).mp (h.known slot 0 hknown)
  have heq : UInt32.ofNat 0 = UInt32.ofNat (i + 1) := heq
  rw [ofNat_eq_iff] at heq
  omega

/-- **One request.**  It names its order rightly exactly under the condition. -/
theorem named_iff (h : s.Numbered) (e : RefNumEvent) : s.Named e ↔ s.OnlyEnters e := by
  have hcount := h.count
  cases e with
  | enter slot order =>
    show s.builder.userRefNum ∉ s.issued ↔ _
    rw [h.counter_mem_iff]
    exact ⟨fun hne => lt_of_le_of_ne hcount hne, ne_of_lt⟩
  | replace slot order =>
    refine iff_of_false ?_ id
    -- the order would be known by 0, and no number would be left
    rintro ⟨hknown, hfresh⟩
    change s.known slot = some (s.om.ownFields slot).preUserRefNum at hknown
    rw [h.pre slot] at hknown
    exact hfresh (h.counter_mem_iff.mpr (h.length_of_known_zero hknown))
  | cancel slot order => exact h.known_counter_iff
  | modify slot order => exact h.known_counter_iff
  | accepted msg => exact Iff.rfl
  | replaced msg => exact Iff.rfl

theorem ownFields_dispatched (om : OwnManager) (slot : OrderSlot) (order : Order)
    (own : OwnFields) :
    (dispatched om slot order own).ownFields = Function.update om.ownFields slot own := by
  unfold dispatched
  simp only
  split
  · rfl
  · rfl

/-- The previous number is not changed by a request that is no Replace. -/
theorem pre_dispatched {om : OwnManager} {slot : OrderSlot} {order : Order} {own : OwnFields}
    (hpre : ∀ t, (om.ownFields t).preUserRefNum = 0) (hown : own.preUserRefNum = 0)
    (t : OrderSlot) : ((dispatched om slot order own).ownFields t).preUserRefNum = 0 := by
  rw [ownFields_dispatched]
  by_cases ht : t = slot
  · rw [ht, Function.update_self, hown]
  · rw [Function.update_of_ne ht, hpre]

theorem Numbered.enter (h : s.Numbered) {slot : OrderSlot} {order : Order}
    (hroom : s.issued.length < 2 ^ 32) (hs : step hash s (.enter slot order) = .ok s') :
    s'.Numbered := by
  rw [← Except.ok.inj hs]
  -- the numbers issued go on by one
  have hmem : ∀ n, n ∈ s.builder.userRefNum :: s.issued ↔
      ∃ i < s.issued.length + 1, n = UInt32.ofNat (i + 1) := by
    intro n
    rw [List.mem_cons, h.issued, h.counter]
    constructor
    · rintro (rfl | ⟨i, hi, rfl⟩)
      · exact ⟨s.issued.length, Nat.lt_succ_self _, rfl⟩
      · exact ⟨i, Nat.lt_succ_of_lt hi, rfl⟩
    · rintro ⟨i, hi, rfl⟩
      rcases Nat.lt_succ_iff_lt_or_eq.mp hi with hi | rfl
      · exact .inr ⟨i, hi, rfl⟩
      · exact .inl rfl
  refine ⟨hroom, ?_, hmem, fun t n ht => ?_, pre_dispatched h.pre (h.pre slot)⟩
  · show s.builder.userRefNum + 1 = UInt32.ofNat (s.issued.length + 1 + 1)
    rw [h.counter, UInt32.ofNat_add (s.issued.length + 1) 1]
    rfl
  · by_cases heq : t = slot
    · subst heq
      simp only [Function.update_self, Option.some.injEq] at ht
      exact List.mem_cons.mpr (.inl ht.symm)
    · simp only [Function.update_of_ne heq] at ht
      exact List.mem_cons_of_mem _ (h.known t n ht)

/-- **One event of a run of Enters.** -/
theorem numbered_step {e : RefNumEvent} (h : s.Numbered) (he : s.OnlyEnters e)
    (hs : step hash s e = .ok s') : s'.Numbered := by
  cases e with
  | enter slot order => exact h.enter he hs
  | replace slot order => exact absurd he id
  | cancel slot order =>
    rw [← Except.ok.inj hs]
    exact ⟨h.count, h.counter, h.issued, h.known, pre_dispatched h.pre (h.pre slot)⟩
  | modify slot order =>
    rw [← Except.ok.inj hs]
    exact ⟨h.count, h.counter, h.issued, h.known, pre_dispatched h.pre (h.pre slot)⟩
  | accepted msg =>
    obtain ⟨om, hom, rfl⟩ := map_eq_ok_iff.mp hs
    have hkeeps := preUserRefNum_updateOrderNasdaqOuch (.inl ⟨msg, rfl⟩) hom
    exact ⟨h.count, h.counter, h.issued, h.known, fun t => (hkeeps t).trans (h.pre t)⟩
  | replaced msg =>
    obtain ⟨om, hom, rfl⟩ := map_eq_ok_iff.mp hs
    -- an answer changes neither the numbers nor who is known by them
    have hkeeps := preUserRefNum_updateOrderNasdaqOuch (.inr ⟨msg, rfl⟩) hom
    exact ⟨h.count, h.counter, h.issued, h.known, fun t => (hkeeps t).trans (h.pre t)⟩

/-- **When the requests name the right orders.**  Over every run of requests and answers
from a new builder and orders without a previous number, they all do, and no number is
issued twice, exactly when orders are only entered while there are numbers. -/
theorem requests_named_iff {om : OwnManager} {es : List RefNumEvent}
    (hpre : ∀ slot, (om.ownFields slot).preUserRefNum = 0) :
    Along (step hash) Named { om := om } es ↔ Along (step hash) OnlyEnters { om := om } es := by
  have htrue : Along (step hash) (fun _ _ => True) { om := om } es := along_true _ es
  have hiff : ∀ s e, Numbered s → True → (Named s e ↔ OnlyEnters s e) :=
    fun s e hs _ => named_iff hs e
  exact along_iff_along hiff (fun s e s' hs _ he h => numbered_step hs he h)
    (numbered_start hpre) htrue

/-! ### One order -/

def smallOrder : Order :=
  { price := 100, quantity := 10, side := .buy, venue := .nasdaq, protocol := .ouch }

/-- Two orders are entered. -/
theorem requests_named_iff_twoEnters :
    Along (step fun _ => 0) Named { om := {} }
      [.enter 32768 smallOrder, .enter 32769 smallOrder] := by
  refine (requests_named_iff fun _ => rfl).mpr ?_
  refine along_cons _ ?_ rfl (along_cons _ ?_ rfl trivial)
  · show (0 : ℕ) < 2 ^ 32
    omega
  · show (1 : ℕ) < 2 ^ 32
    omega

/-- **The requests for an entered order.**  It is known by the number 1; a Replace names
it by 0, a Cancel and a Modify by 2. -/
theorem entered_order_misnamed : ∃ s,
    step (fun _ => 0) { om := {} } (.enter 32768 smallOrder) = .ok s ∧
      s.known 32768 = some 1 ∧
      (s.builder.buildReplaceOrder smallOrder (s.om.ownFields 32768)).1.origUserRefNum = 0 ∧
      (s.builder.buildCancelOrder smallOrder).userRefNum = 2 ∧
      (s.builder.buildModifyOrder smallOrder).userRefNum = 2 ∧
      ¬Along (step fun _ => 0) Named { om := {} }
        [.enter 32768 smallOrder, .cancel 32768 smallOrder] := by
  refine ⟨_, rfl, rfl, rfl, rfl, rfl, fun h => ?_⟩
  have hcancel := (h.2 _ rfl).1
  have hnumber : (1 : UInt32) = 2 := Option.some.inj hcancel
  exact absurd hnumber (by decide)

end RefNumSystem

end TradingEngine
