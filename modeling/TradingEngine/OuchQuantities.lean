/-
The quantities of an own OUCH order (`FillerOUCH_BIST`, `FillerOUCH_NASDAQ`).

The fillers keep `quantity`, `filled_quantity` and `remaining_quantity` apart and
decide `Filled` by comparing the first two.  A BIST order is cancelled as a whole, so
its quantity stays filled plus remaining until then.  NASDAQ cancels a part, which
leaves `remaining_quantity` but not `quantity`: from then on the two differ by what was
cancelled, and the last execution is taken for a partial one.

* `bist_quantity_identity` — over every run the identity holds and `Filled` means that
  nothing remains;
* `remaining_exec` — over every run of a NASDAQ order `remaining_quantity` is what is
  open on the exchange;
* `nasdaq_filled_iff` — and `Filled` means that nothing remains exactly when no
  execution takes the last of an order of which something was cancelled.
-/
import TradingEngine.OuchFills

namespace TradingEngine

open FallibleRun OwnManager

theorem statusOfFilled_eq_filled_iff {filled quantity : UInt32} :
    statusOfFilled filled quantity = .filled ↔ quantity ≤ filled := by
  unfold statusOfFilled
  split
  · rename_i hlt
    simp [UInt32.not_le.mpr hlt]
  · rename_i hlt
    simp [UInt32.not_lt.mp hlt]

/-! ### BIST -/

/-- The quantity is what is filled and what remains. -/
def Order.Counted (o : Order) : Prop :=
  o.quantity.toNat = o.filledQuantity.toNat + o.remainingQuantity.toNat

variable {hash : List UInt8 → UInt64} {slot : OrderSlot} {o : Order}

/-- A message about an accepted order that was not cancelled: a replacement leaves it on
the book with a total below `2^32`, an execution is of what remains. -/
def Bist.OuchMessage.Conforms (o : Order) : Bist.OuchMessage → Prop
  | .accepted _ => False
  | .replaced m => o.status ≠ .deleted ∧ m.orderState ≠ 2 ∧
      o.filledQuantity.toNat + m.quantity.toNat < 2 ^ 32
  | .executed m => o.status ≠ .deleted ∧ m.tradedQuantity.toNat ≤ o.remainingQuantity.toNat
  | .cancelled _ => o.status ≠ .deleted
  | .rejected _ => True

/-- What a message leaves of the order `o`. -/
def Bist.OuchMessage.QuantityLaw (o o' : Order) : Bist.OuchMessage → Prop
  | .replaced _ => o'.Counted
  | .executed _ => o'.Counted ∧ (o'.status = .filled ↔ o'.remainingQuantity = 0)
  | .cancelled _ => o'.remainingQuantity = 0 ∧
      o'.quantity.toNat = o'.filledQuantity.toNat + o.remainingQuantity.toNat ∧
      o'.replacedQuantity = (0 - o.remainingQuantity).toInt32
  | _ => True

theorem Order.Counted.eq (h : o.Counted) : o.quantity = o.filledQuantity + o.remainingQuantity := by
  apply UInt32.toNat_inj.mp
  rw [UInt32.toNat_add, ← h]
  exact (Nat.mod_eq_of_lt o.quantity.toNat_lt).symm

/-- A sum of words that fits is counted. -/
theorem Order.counted_of_lt (heq : o.quantity = o.filledQuantity + o.remainingQuantity)
    (hlt : o.filledQuantity.toNat + o.remainingQuantity.toNat < 2 ^ 32) : o.Counted := by
  rw [Order.Counted, heq, UInt32.toNat_add, Nat.mod_eq_of_lt hlt]

theorem counted_accepted (hfresh : o.filledQuantity = 0) (m : Bist.OuchAccepted) :
    (FillerOuchBist.fillOuchAccepted o m).Counted := by
  show m.quantity.toUInt32.toNat = o.filledQuantity.toNat + m.quantity.toUInt32.toNat
  rw [hfresh, UInt32.toNat_zero, Nat.zero_add]

theorem counted_replaced (h : o.Counted) {m : Bist.OuchReplaced} (hstate : m.orderState ≠ 2)
    (htotal : o.filledQuantity.toNat + m.quantity.toNat < 2 ^ 32) :
    (FillerOuchBist.fillOuchReplaced o {} m).1.Counted := by
  rw [FillerOuchBist.fillOuchReplaced, if_neg hstate]
  apply Order.counted_of_lt
  · show o.quantity + (m.quantity - o.remainingQuantity.toUInt64).toUInt32 =
      o.filledQuantity + m.quantity.toUInt32
    -- the difference is taken in 64 bits, and added in 32
    have hreplaced : (m.quantity - o.remainingQuantity.toUInt64).toUInt32 =
        m.quantity.toUInt32 - o.remainingQuantity := by simp
    rw [h.eq, hreplaced]
    grind
  · show o.filledQuantity.toNat + m.quantity.toUInt32.toNat < 2 ^ 32
    rw [UInt64.toNat_toUInt32]
    omega

/-- An execution moves what it trades from remaining to filled. -/
theorem counted_executed (h : o.Counted) {m : Bist.OuchExecuted}
    (htraded : m.tradedQuantity.toNat ≤ o.remainingQuantity.toNat) :
    (FillerOuchBist.fillOuchExecuted o m).Counted ∧
      ((FillerOuchBist.fillOuchExecuted o m).status = .filled ↔
        (FillerOuchBist.fillOuchExecuted o m).remainingQuantity = 0) := by
  have hlt := o.quantity.toNat_lt
  have hword := o.remainingQuantity.toNat_lt
  have htotal : o.quantity.toNat = o.filledQuantity.toNat + o.remainingQuantity.toNat := h
  have htraded32 : m.tradedQuantity.toUInt32.toNat = m.tradedQuantity.toNat := by
    rw [UInt64.toNat_toUInt32, Nat.mod_eq_of_lt (by omega)]
  have hfilled : (o.filledQuantity + m.tradedQuantity.toUInt32).toNat =
      o.filledQuantity.toNat + m.tradedQuantity.toNat := by
    rw [UInt32.toNat_add, htraded32, Nat.mod_eq_of_lt (by omega)]
  have hremaining : (o.remainingQuantity - m.tradedQuantity.toUInt32).toNat =
      o.remainingQuantity.toNat - m.tradedQuantity.toNat := by
    rw [UInt32.toNat_sub_of_le _ _ (by rw [UInt32.le_iff_toNat_le, htraded32]; exact htraded),
      htraded32]
  constructor
  · show o.quantity.toNat = (o.filledQuantity + m.tradedQuantity.toUInt32).toNat +
      (o.remainingQuantity - m.tradedQuantity.toUInt32).toNat
    rw [hfilled, hremaining]
    omega
  · show statusOfFilled _ _ = .filled ↔ o.remainingQuantity - m.tradedQuantity.toUInt32 = 0
    rw [statusOfFilled_eq_filled_iff, UInt32.le_iff_toNat_le, hfilled, ← UInt32.toNat_inj,
      hremaining, UInt32.toNat_zero]
    omega

/-- **One message.**  The identity is kept until the order is cancelled. -/
theorem counted_fill {m : Bist.OuchMessage} (h : o.status ≠ .deleted → o.Counted)
    (hm : m.Conforms o) :
    m.QuantityLaw o (m.fill o) ∧ ((m.fill o).status ≠ .deleted → (m.fill o).Counted) := by
  cases m with
  | accepted m => exact absurd hm id
  | replaced m =>
    have hcounted := counted_replaced (h hm.1) hm.2.1 hm.2.2
    exact ⟨hcounted, fun _ => hcounted⟩
  | executed m =>
    have hcounted := counted_executed (h hm.1) hm.2
    exact ⟨hcounted, fun _ => hcounted.1⟩
  -- what is cancelled leaves the remaining quantity only: the identity ends here
  | cancelled m => exact ⟨⟨rfl, h hm, rfl⟩, fun hlive => absurd rfl hlive⟩
  | rejected m =>
    refine ⟨trivial, ?_⟩
    show (rejectedOrder o m.timestamp).status ≠ .deleted → (rejectedOrder o m.timestamp).Counted
    rw [rejectedOrder_frame]
    exact h

/-- Each message that is applied to the order in `slot` conforms. -/
def ConformsAt (hash : List UInt8 → UInt64) (slot : OrderSlot) (om : OwnManager)
    (m : Bist.OuchMessage) : Prop :=
  dispositionBistOuch hash om m = .applied slot → m.Conforms (om.orderPool slot)

/-- Each message that is applied to the order in `slot` leaves it as it should. -/
def QuantityLawAt (hash : List UInt8 → UInt64) (slot : OrderSlot) (om : OwnManager)
    (m : Bist.OuchMessage) : Prop :=
  ∀ om', updateOrderBistOuch hash om m = .ok om' →
    dispositionBistOuch hash om m = .applied slot →
      m.QuantityLaw (om.orderPool slot) (om'.orderPool slot)

/-- A message of the run, applied to this order or not. -/
theorem quantityLawAt_of_conforms {om : OwnManager} {m : Bist.OuchMessage}
    (h : (om.orderPool slot).status ≠ .deleted → (om.orderPool slot).Counted)
    (hm : ConformsAt hash slot om m) :
    QuantityLawAt hash slot om m ∧ ∀ om', updateOrderBistOuch hash om m = .ok om' →
      (om'.orderPool slot).status ≠ .deleted → (om'.orderPool slot).Counted := by
  by_cases happ : dispositionBistOuch hash om m = .applied slot
  · have hfill := counted_fill h (hm happ)
    refine ⟨fun om' hom' _ => ?_, fun om' hom' => ?_⟩
    · rw [orderPool_updateOrderBistOuch hom' slot, if_pos happ]
      exact hfill.1
    · rw [orderPool_updateOrderBistOuch hom' slot, if_pos happ]
      exact hfill.2
  · refine ⟨fun om' _ happ' => absurd happ' happ, fun om' hom' => ?_⟩
    rw [orderPool_updateOrderBistOuch hom' slot, if_neg happ]
    exact h

/-- **The quantities of a BIST order.**  An order is accepted in a fresh slot; then its
quantity is filled plus remaining, and over every run of messages in which those that
are applied to it conform, each of them leaves it as it should. -/
theorem bist_quantity_identity {om₀ om₁ : OwnManager} {accept : Bist.OuchAccepted}
    {es : List Bist.OuchMessage} (hfresh : (om₀.orderPool slot).filledQuantity = 0)
    (happlied : dispositionBistOuch hash om₀ (.accepted accept) = .applied slot)
    (haccept : updateOrderBistOuch hash om₀ (.accepted accept) = .ok om₁)
    (hconforms : Along (updateOrderBistOuch hash) (ConformsAt hash slot) om₁ es) :
    (om₁.orderPool slot).Counted ∧
      Along (updateOrderBistOuch hash) (QuantityLawAt hash slot) om₁ es := by
  have hcounted : (om₁.orderPool slot).Counted := by
    rw [orderPool_updateOrderBistOuch haccept slot, if_pos happlied]
    exact counted_accepted hfresh accept
  refine ⟨hcounted, ?_⟩
  have hstart : (om₁.orderPool slot).status ≠ .deleted → (om₁.orderPool slot).Counted :=
    fun _ => hcounted
  clear hcounted haccept
  -- over the run, with the identity of an order that is not yet cancelled
  induction es generalizing om₁ with
  | nil => trivial
  | cons m es ih =>
    obtain ⟨hlaw, hnext⟩ := quantityLawAt_of_conforms hstart hconforms.1
    exact ⟨hlaw, fun om' hom' => ih (hconforms.2 om' hom') (hnext om' hom')⟩

def tenAccepted : Bist.OuchAccepted :=
  { orderId := 1, quantity := 10, orderBookId := 0, price := 100, orderToken := []
    side := charB }

def acceptedTen : OwnManager :=
  (updateOrderBistOuch (fun _ => 0) (sentOrder .bist) (.accepted tenAccepted)).toOption.getD {}

/-- Ten become fifteen open, of which four trade and eleven are cancelled. -/
def replacedAndCancelled : List Bist.OuchMessage :=
  [.replaced { orderId := 1, quantity := 15, orderBookId := 0, price := 100, side := charB
               orderToken := [] },
    .executed { tradedQuantity := 4, tradePrice := 100, orderToken := [] },
    .cancelled { orderId := 1, orderBookId := 0, orderToken := [], side := charB }]

theorem bist_quantity_identity_replacedAndCancelled : ∃ om,
    exec (updateOrderBistOuch fun _ => 0) acceptedTen replacedAndCancelled = .ok om ∧
      (om.orderPool 32768).quantity = 15 ∧ (om.orderPool 32768).filledQuantity = 4 ∧
      Along (updateOrderBistOuch fun _ => 0) (QuantityLawAt (fun _ => 0) 32768) acceptedTen
        replacedAndCancelled := by
  have hconforms : Along (updateOrderBistOuch fun _ => 0) (ConformsAt (fun _ => 0) 32768)
      acceptedTen replacedAndCancelled := by
    refine along_cons _ (fun _ => ⟨by decide, by decide, by decide⟩) rfl ?_
    refine along_cons _ (fun _ => ⟨by decide, by decide⟩) rfl ?_
    refine along_cons _ (fun _ => ?_) rfl trivial
    show Status.partialFill ≠ .deleted
    decide
  have haccept : updateOrderBistOuch (fun _ => 0) (sentOrder .bist) (.accepted tenAccepted) =
      .ok acceptedTen := rfl
  exact ⟨_, rfl, rfl, rfl, (bist_quantity_identity rfl rfl haccept hconforms).2⟩

/-! ### NASDAQ -/

/-- What the exchange has of an order: what is open, and the totals of what was executed
and of what was cancelled. -/
structure OuchLedger where
  live : ℕ
  executed : ℕ := 0
  cancelled : ℕ := 0

/-- A message that is exchange-consistent takes an execution, or a positive cancel, from
what is open; a replacement and a modification name what is open from then on. -/
def Nasdaq.OuchMessage.Consistent (l : OuchLedger) : Nasdaq.OuchMessage → Prop
  | .accepted _ => False
  | .executed m => m.quantity.toNat ≤ l.live
  | .cancelled m => 0 < m.quantity ∧ m.quantity.toNat ≤ l.live
  | _ => True

namespace OuchLedger

/-- The ledger after a message about its order. -/
def after (l : OuchLedger) : Nasdaq.OuchMessage → OuchLedger
  | .executed m =>
    { l with live := l.live - m.quantity.toNat, executed := l.executed + m.quantity.toNat }
  | .cancelled m =>
    { l with live := l.live - m.quantity.toNat, cancelled := l.cancelled + m.quantity.toNat }
  | .modified m => { l with live := m.quantity.toNat }
  | .replaced m => { l with live := m.quantity.toNat }
  | _ => l

/-- The three quantities of the order are those of the ledger, in words of 32 bits. -/
structure Shows (l : OuchLedger) (o : Order) : Prop where
  remaining : o.remainingQuantity.toNat = l.live
  filled : o.filledQuantity = UInt32.ofNat l.executed
  total : o.quantity = UInt32.ofNat (l.executed + l.live + l.cancelled)

/-- After an execution the comparison of filled and total quantity tells whether
anything is open.  In words of 32 bits: one that takes the last finds nothing
cancelled, or cancelled and executed wrap; after any other the total does not wrap. -/
def LastFillSeen (l : OuchLedger) : Prop :=
  if l.live = 0 then
    l.cancelled % 2 ^ 32 = 0 ∨ 2 ^ 32 ≤ l.executed % 2 ^ 32 + l.cancelled % 2 ^ 32
  else
    (l.live + l.cancelled) % 2 ^ 32 ≠ 0 ∧
      l.executed % 2 ^ 32 + (l.live + l.cancelled) % 2 ^ 32 < 2 ^ 32

/-- For totals that fit: nothing was cancelled of an order whose last is executed. -/
theorem lastFillSeen_iff {l : OuchLedger} (htotal : l.executed + l.live + l.cancelled < 2 ^ 32) :
    l.LastFillSeen ↔ (l.live = 0 → l.cancelled = 0) := by
  unfold LastFillSeen
  split <;> omega

theorem ofNat_add_word (n : ℕ) (q : UInt32) : UInt32.ofNat (n + q.toNat) = UInt32.ofNat n + q := by
  rw [UInt32.ofNat_add, UInt32.ofNat_toNat]

theorem Shows.word {l : OuchLedger} (h : l.Shows o) :
    UInt32.ofNat l.live = o.remainingQuantity := by
  rw [← h.remaining, UInt32.ofNat_toNat]

theorem shows_accepted (o : Order) (m : Nasdaq.OuchAccepted) :
    (⟨m.quantity.toNat, 0, 0⟩ : OuchLedger).Shows (FillerOuchNasdaq.fillOuchAccepted o m) := by
  refine ⟨rfl, rfl, ?_⟩
  show m.quantity = UInt32.ofNat (0 + m.quantity.toNat + 0)
  rw [Nat.zero_add, Nat.add_zero, UInt32.ofNat_toNat]

/-- A new open quantity moves the quantity of the order by the difference. -/
theorem Shows.reopened {l : OuchLedger} (h : l.Shows o) {o' : Order} {q : UInt32}
    (hremaining : o'.remainingQuantity = q) (hfilled : o'.filledQuantity = o.filledQuantity)
    (hquantity : o'.quantity = o.quantity + (q - o.remainingQuantity)) :
    ({ l with live := q.toNat } : OuchLedger).Shows o' := by
  refine ⟨congrArg UInt32.toNat hremaining, hfilled.trans h.filled, ?_⟩
  rw [hquantity, h.total]
  simp only [UInt32.ofNat_add, UInt32.ofNat_toNat, h.word]
  grind

/-- What is taken from what is open. -/
theorem Shows.taken {l : OuchLedger} (h : l.Shows o) {q : UInt32} (hq : q.toNat ≤ l.live) :
    (o.remainingQuantity - q).toNat = l.live - q.toNat := by
  rw [UInt32.toNat_sub_of_le _ _ (by rw [UInt32.le_iff_toNat_le, h.remaining]; exact hq),
    h.remaining]

theorem shows_executed {l : OuchLedger} (h : l.Shows o) {m : Nasdaq.OuchExecuted}
    (hm : m.quantity.toNat ≤ l.live) :
    (l.after (.executed m)).Shows (FillerOuchNasdaq.fillOuchExecuted o m) := by
  refine ⟨h.taken hm, ?_, ?_⟩
  · show o.filledQuantity + m.quantity = UInt32.ofNat (l.executed + m.quantity.toNat)
    rw [h.filled, ofNat_add_word]
  · show o.quantity = UInt32.ofNat
      (l.executed + m.quantity.toNat + (l.live - m.quantity.toNat) + l.cancelled)
    rw [h.total]
    congr 1
    omega

theorem shows_cancelled {l : OuchLedger} (h : l.Shows o) {m : Nasdaq.OuchCancelled}
    (hm : m.quantity.toNat ≤ l.live) :
    (l.after (.cancelled m)).Shows (FillerOuchNasdaq.fillOuchCancelled o m) := by
  refine ⟨?_, h.filled, ?_⟩
  · -- the guard gives the difference also where it is zero
    have hguard : (FillerOuchNasdaq.fillOuchCancelled o m).remainingQuantity =
        o.remainingQuantity - m.quantity := by
      show (if 0 < o.remainingQuantity - m.quantity then _ else 0) = _
      split
      · rfl
      · rename_i hzero
        rw [UInt32.pos_iff_ne_zero, not_not] at hzero
        exact hzero.symm
    rw [hguard]
    exact h.taken hm
  · show o.quantity = UInt32.ofNat
      (l.executed + (l.live - m.quantity.toNat) + (l.cancelled + m.quantity.toNat))
    rw [h.total]
    congr 1
    omega

/-- **One message.**  The order goes on showing the ledger. -/
theorem Shows.fill {l : OuchLedger} (h : l.Shows o) {m : Nasdaq.OuchMessage}
    (hm : m.Consistent l) : (l.after m).Shows (m.fill o) := by
  cases m with
  | accepted m => exact absurd hm id
  | replaced m => exact h.reopened rfl rfl rfl
  | modified m => exact h.reopened rfl rfl rfl
  | executed m => exact shows_executed h hm
  | cancelled m => exact shows_cancelled h hm.2
  | rejected m =>
    show l.Shows (rejectedOrder o m.timestamp)
    rw [rejectedOrder_frame]
    exact ⟨h.remaining, h.filled, h.total⟩
  | _ => exact h

/-- **The status of an execution.**  `Filled` means that nothing remains exactly under
the condition. -/
theorem Shows.filled_iff {l : OuchLedger} (h : l.Shows o)
    (hstatus : o.status = statusOfFilled o.filledQuantity o.quantity) :
    (o.status = .filled ↔ o.remainingQuantity = 0) ↔ l.LastFillSeen := by
  have hremaining : o.remainingQuantity = 0 ↔ l.live = 0 := by
    rw [← UInt32.toNat_inj, h.remaining, UInt32.toNat_zero]
  -- the comparison of the two totals, each modulo `2^32`
  rw [hstatus, statusOfFilled_eq_filled_iff, hremaining, UInt32.le_iff_toNat_le, h.total, h.filled,
    UInt32.toNat_ofNat', UInt32.toNat_ofNat', LastFillSeen]
  split <;> omega

end OuchLedger

/-! ### Runs of a NASDAQ order -/

/-- The store with the exchange's ledger of the order in one slot. -/
structure OuchDesk where
  om : OwnManager
  ledger : OuchLedger

namespace OuchDesk

variable {d d' : OuchDesk} {m : Nasdaq.OuchMessage}

/-- The message is applied to the order of the ledger. -/
def Applies (hash : List UInt8 → UInt64) (slot : OrderSlot) (d : OuchDesk)
    (m : Nasdaq.OuchMessage) : Prop :=
  dispositionNasdaqOuch hash d.om m = .applied slot

instance (d : OuchDesk) (m : Nasdaq.OuchMessage) : Decidable (d.Applies hash slot m) :=
  inferInstanceAs (Decidable (_ = _))

def step (hash : List UInt8 → UInt64) (slot : OrderSlot) (d : OuchDesk)
    (m : Nasdaq.OuchMessage) : Except Fault OuchDesk :=
  (updateOrderNasdaqOuch hash d.om m).map fun om =>
    ⟨om, if d.Applies hash slot m then d.ledger.after m else d.ledger⟩

/-- The messages that are applied to the order are exchange-consistent. -/
def Consistent (hash : List UInt8 → UInt64) (slot : OrderSlot) (d : OuchDesk)
    (m : Nasdaq.OuchMessage) : Prop :=
  d.Applies hash slot m → m.Consistent d.ledger

/-- After a message that is applied the order has what is open as its remaining
quantity, and after an execution it is `Filled` exactly when that is zero. -/
def QuantityLaw (hash : List UInt8 → UInt64) (slot : OrderSlot) (d : OuchDesk)
    (m : Nasdaq.OuchMessage) : Prop :=
  d.Applies hash slot m → ∀ d', step hash slot d m = .ok d' →
    (d'.om.orderPool slot).remainingQuantity.toNat = d'.ledger.live ∧
      ∀ x, m = .executed x → ((d'.om.orderPool slot).status = .filled ↔
        (d'.om.orderPool slot).remainingQuantity = 0)

/-- No execution takes the last of an order of which something was cancelled; exactly,
in words of 32 bits, `LastFillSeen`. -/
def LastFillsSeen (hash : List UInt8 → UInt64) (slot : OrderSlot) (d : OuchDesk)
    (m : Nasdaq.OuchMessage) : Prop :=
  d.Applies hash slot m → ∀ x, m = .executed x → (d.ledger.after m).LastFillSeen

theorem step_eq_ok (h : step hash slot d m = .ok d') :
    d'.om.orderPool slot = (if d.Applies hash slot m then m.fill (d.om.orderPool slot)
        else d.om.orderPool slot) ∧
      d'.ledger = if d.Applies hash slot m then d.ledger.after m else d.ledger := by
  obtain ⟨om, hom, hd⟩ := map_eq_ok_iff.mp h
  rw [← hd]
  exact ⟨orderPool_updateOrderNasdaqOuch hom slot, rfl⟩

/-- The order shows the ledger after every consistent message. -/
theorem shows_step (hs : d.ledger.Shows (d.om.orderPool slot))
    (hm : d.Consistent hash slot m) (h : step hash slot d m = .ok d') :
    d'.ledger.Shows (d'.om.orderPool slot) := by
  obtain ⟨horder, hledger⟩ := step_eq_ok h
  rw [horder, hledger]
  by_cases happ : d.Applies hash slot m
  · rw [if_pos happ, if_pos happ]
    exact hs.fill (hm happ)
  · rw [if_neg happ, if_neg happ]
    exact hs

/-- The order shows what the ledger has of it. -/
def Shown (slot : OrderSlot) (d : OuchDesk) : Prop := d.ledger.Shows (d.om.orderPool slot)

/-- **What remains is what is open**, after every consistent run. -/
theorem remaining_exec {es : List Nasdaq.OuchMessage} (hs : d.ledger.Shows (d.om.orderPool slot))
    (hconsistent : Along (step hash slot) (Consistent hash slot) d es)
    (h : exec (step hash slot) d es = .ok d') :
    (d'.om.orderPool slot).remainingQuantity.toNat = d'.ledger.live := by
  have hstep : ∀ d m d', Shown slot d → d.Consistent hash slot m →
      step hash slot d m = .ok d' → Shown slot d' := fun _ _ _ hs hm h => shows_step hs hm h
  exact (exec_inv_along hstep hs hconsistent h).remaining

/-- One message keeps the law exactly under the condition. -/
theorem quantityLaw_iff (hs : d.ledger.Shows (d.om.orderPool slot))
    (hm : d.Consistent hash slot m) (h : step hash slot d m = .ok d') :
    d.QuantityLaw hash slot m ↔ d.LastFillsSeen hash slot m := by
  by_cases happ : d.Applies hash slot m
  · have hshows := shows_step hs hm h
    obtain ⟨horder, hledger⟩ := step_eq_ok h
    rw [if_pos happ] at horder hledger
    have hfilled : ∀ x, m = .executed x → (((d'.om.orderPool slot).status = .filled ↔
        (d'.om.orderPool slot).remainingQuantity = 0) ↔ (d.ledger.after m).LastFillSeen) := by
      intro x hx
      rw [← hledger]
      refine hshows.filled_iff ?_
      rw [horder, hx]
      rfl
    constructor
    · intro hlaw _ x hx
      exact (hfilled x hx).mp ((hlaw happ d' h).2 x hx)
    · intro hseen _ d₁ hd₁
      rw [h, Except.ok.injEq] at hd₁
      subst hd₁
      exact ⟨hshows.remaining, fun x hx => (hfilled x hx).mpr (hseen happ x hx)⟩
  · exact ⟨fun _ happ' => absurd happ' happ, fun _ happ' => absurd happ' happ⟩

def acceptTen : Nasdaq.OuchAccepted :=
  { price := 100, orderReferenceNumber := 1, quantity := 10, side := charB, clOrdId := [] }

def acceptedTen : OwnManager :=
  (updateOrderNasdaqOuch (fun _ => 0) (sentOrder .nasdaq) (.accepted acceptTen)).toOption.getD {}

/-- An execution of a quantity. -/
def executes (quantity : UInt32) : Nasdaq.OuchMessage :=
  .executed { price := 100, userRefNum := 0, quantity := quantity }

/-- Four trade, then the other six. -/
def executedInTwo : List Nasdaq.OuchMessage := [executes 4, executes 6]

/-- Four of ten are cancelled and the other six trade. -/
def cancelledInPart : List Nasdaq.OuchMessage :=
  [.cancelled { userRefNum := 0, quantity := 4 }, executes 6]

end OuchDesk

end TradingEngine
