/-
Self-trade prevention (`update_order_risk`, `check_self_trade_order`).

A `QuoteDesk` carries, beside the engine, the record `rest` of the own orders
that are open and of the level each rests at: an update with nothing left takes
an order out, New and Replaced set its level, any other update leaves it where
it is.  The index should hold exactly the levels of `rest`.

It is keyed by level and not by order, and it drops a key when *any* order there
is done, so the record and the index part ways unless every update
`KeepsIndex`:

* an update that closes an order finds the order alone on the level its record
  names;
* an update that leaves a quantity vacates no level, and an open order rests at
  the level its record names;
* a repeated cancel and a FIX order that is applied twice, which leave the index
  as it was, do not change the set of levels.

* `selfTrade_flagged_iff` — in every run of such updates the check flags exactly
  the orders that would trade against an own open order, up to prices that agree
  in the 32 bits the key keeps;
* `selfTrade_missed` — two orders on a level, one filled: the other is no longer
  seen; a replaced order is still seen where it was.
-/
import TradingEngine.OrderRiskIndex

namespace TradingEngine

open FallibleRun RiskEngine

/-! ### Open orders and their levels -/

/-- Where an open order rests. -/
structure Quote where
  venue : VenueIndex
  symbolIndex : UInt32
  price : Int64
  side : Side
  deriving DecidableEq

namespace Quote

/-- The level an order's record names. -/
def ofOrder (order : Order) (v : VenueIndex) : Quote :=
  ⟨v, order.symbolIndex, order.price, order.side⟩

/-- The key the index files the level under. -/
def key (l : Quote) : LevelKey :=
  (l.venue, OrderRiskKey.make l.symbolIndex l.price l.side.code (venueCode l.venue))

end Quote

/-- The open own orders: the slot of the pool to the level. -/
abbrev Quotes := OrderSlot → Option Quote

/-- An open order rests under the key. -/
def RestsAt (rest : Quotes) (x : LevelKey) : Prop := ∃ s l, rest s = some l ∧ l.key = x

/-- An open order other than that in `slot` rests under the key. -/
def RestsElsewhere (rest : Quotes) (slot : OrderSlot) (x : LevelKey) : Prop :=
  ∃ s, s ≠ slot ∧ ∃ l, rest s = some l ∧ l.key = x

variable {rest : Quotes} {slot : OrderSlot} {order : Order} {v : VenueIndex} {x : LevelKey}

/-- The slot's own level and those of the others. -/
theorem restsAt_update (rest : Quotes) (slot : OrderSlot) (o : Option Quote) (x : LevelKey) :
    RestsAt (Function.update rest slot o) x ↔
      RestsElsewhere rest slot x ∨ ∃ l, o = some l ∧ l.key = x := by
  constructor
  · rintro ⟨s, l, hs, hx⟩
    by_cases hslot : s = slot
    · rw [hslot, Function.update_self] at hs
      exact .inr ⟨l, hs, hx⟩
    · rw [Function.update_of_ne hslot] at hs
      exact .inl ⟨s, hslot, l, hs, hx⟩
  · rintro (⟨s, hslot, l, hs, hx⟩ | ⟨l, ho, hx⟩)
    · exact ⟨s, l, by rw [Function.update_of_ne hslot, hs], hx⟩
    · exact ⟨slot, l, by rw [Function.update_self, ho], hx⟩

theorem restsAt_iff (rest : Quotes) (slot : OrderSlot) (x : LevelKey) :
    RestsAt rest x ↔ RestsElsewhere rest slot x ∨ ∃ l, rest slot = some l ∧ l.key = x := by
  have h := restsAt_update rest slot (rest slot) x
  rwa [Function.update_eq_self] at h

/-- Some report of the order sets its price. -/
def repriced (order : Order) : Bool :=
  (reports order).any fun o => o.status = .new ∨ o.status = .replaced

/-- Where the order rests after an update: nowhere with nothing left, where its
record says after New or Replaced, and else where it was. -/
def restingAfter (rest : Quotes) (slot : OrderSlot) (order : Order) (v : VenueIndex) :
    Option Quote :=
  if order.remainingQuantity = 0 then none
  else if repriced order then some (Quote.ofOrder order v)
  else some ((rest slot).getD (Quote.ofOrder order v))

/-- The record after an update.  An order without a report (a FIX order that
waits for its New) is not acknowledged yet. -/
def noteQuote (rest : Quotes) (slot : OrderSlot) (order : Order) (v : VenueIndex) : Quotes :=
  if reports order = [] then rest
  else Function.update rest slot (restingAfter rest slot order v)

/-- The updates after which the index still holds exactly the levels of the open
orders. -/
def KeepsIndex (rest : Quotes) (slot : OrderSlot) (order : Order) (v : VenueIndex) : Prop :=
  let rest' := noteQuote rest slot order v
  if order.remainingQuantity = 0 then
    if 1 < order.cancelledCount ∨ (reports order).length = 2 then
      -- the index is left as it was
      ∀ l, rest slot = some l → RestsElsewhere rest slot l.key
    else
      (∃ l, rest slot = some l ∧ l.key = levelKey order v) ∧
        ¬RestsElsewhere rest slot (levelKey order v)
  else
    (∀ l, rest slot = some l → RestsAt rest' l.key) ∧
      if 1 < order.cancelledCount then ∀ l, rest' slot = some l → RestsAt rest l.key
      else RestsAt rest' (levelKey order v)

/-! ### The index over one order -/

theorem indexStep_iterate_of_repeat (hcc : 1 < order.cancelledCount) (n : ℕ)
    (keys : Set LevelKey) : (indexStep order v)^[n] keys = keys := by
  induction n with
  | zero => rfl
  | succ n ih =>
    rw [Function.iterate_succ_apply, indexStep, if_pos hcc]
    exact ih

theorem indexStep_iterate_of_left (hcc : ¬1 < order.cancelledCount)
    (hleft : order.remainingQuantity ≠ 0) {n : ℕ} (hn : n ≠ 0) (keys : Set LevelKey) :
    (indexStep order v)^[n] keys = insert (levelKey order v) keys := by
  have hstep : ∀ s, indexStep order v s = insert (levelKey order v) s := by
    intro s
    rw [indexStep, if_neg hcc, if_neg hleft]
  obtain ⟨k, rfl⟩ := Nat.exists_eq_succ_of_ne_zero hn
  clear hn
  induction k generalizing keys with
  | zero => exact hstep keys
  | succ k ih =>
    rw [Function.iterate_succ_apply, ih, hstep, Set.insert_idem]

/-- Closing twice is opening again. -/
theorem indexStep_iterate_of_closed (hcc : ¬1 < order.cancelledCount)
    (hzero : order.remainingQuantity = 0) (n : ℕ) (keys : Set LevelKey) :
    (indexStep order v)^[n] keys =
      if Even n then keys else symmDiff keys {levelKey order v} := by
  have hstep : ∀ s, indexStep order v s = symmDiff s {levelKey order v} := by
    intro s
    rw [indexStep, if_neg hcc, if_pos hzero]
  -- an update with nothing left files a key that is not there, so two of them
  -- undo each other
  have hinv : Function.Involutive (indexStep order v) := by
    intro s
    rw [hstep, hstep, symmDiff_symmDiff_cancel_right]
  split
  · rename_i heven
    rw [hinv.iterate_even heven]
    rfl
  · rename_i hodd
    rw [hinv.iterate_odd (Nat.not_even_iff_odd.mp hodd), hstep]

/-- The open levels after an order is gone. -/
theorem restsAt_noteQuote_closed (hreports : reports order ≠ [])
    (hzero : order.remainingQuantity = 0) :
    RestsAt (noteQuote rest slot order v) x ↔ RestsElsewhere rest slot x := by
  rw [noteQuote, if_neg hreports, restsAt_update, restingAfter, if_pos hzero]
  simp

/-- An order that stays open rests where its record says or where it was. -/
theorem restingAfter_of_left (rest : Quotes) (slot : OrderSlot) (v : VenueIndex)
    (hleft : order.remainingQuantity ≠ 0) :
    ∃ l, restingAfter rest slot order v = some l ∧
      (l.key = levelKey order v ∨ rest slot = some l) := by
  rw [restingAfter, if_neg hleft]
  split
  · exact ⟨_, rfl, .inl rfl⟩
  · cases hs : rest slot with
    | none => exact ⟨_, rfl, .inl rfl⟩
    | some l => exact ⟨l, rfl, .inr rfl⟩

/-- **An update that keeps the index.**  If the filed keys are the levels of the
open orders before, they are afterwards. -/
theorem iterate_indexStep_eq_levels {keys : Set LevelKey} (hkeys : ∀ x, x ∈ keys ↔ RestsAt rest x)
    (hreports : reports order ≠ []) (hkeep : KeepsIndex rest slot order v) (x : LevelKey) :
    x ∈ (indexStep order v)^[(reports order).length] keys ↔
      RestsAt (noteQuote rest slot order v) x := by
  have hsplit := restsAt_iff rest slot
  have hlength : (reports order).length ≠ 0 := by
    intro h
    exact hreports (List.length_eq_zero_iff.mp h)
  have hmax := length_reports_le order
  rw [KeepsIndex] at hkeep
  by_cases hzero : order.remainingQuantity = 0
  · rw [if_pos hzero] at hkeep
    rw [restsAt_noteQuote_closed hreports hzero]
    split at hkeep
    · -- the index is untouched, so the order must not have been alone
      rename_i hquiet
      have hsame : (indexStep order v)^[(reports order).length] keys = keys := by
        by_cases hcc : 1 < order.cancelledCount
        · exact indexStep_iterate_of_repeat hcc _ _
        · have htwo := hquiet.resolve_left hcc
          rw [indexStep_iterate_of_closed hcc hzero, htwo, if_pos even_two]
      rw [hsame, hkeys, hsplit]
      constructor
      · rintro (helse | ⟨l, hl, rfl⟩)
        · exact helse
        · exact hkeep l hl
      · exact .inl
    · -- the index drops the key, and the order was alone there
      rename_i hloud
      rw [not_or] at hloud
      obtain ⟨hcc, htwo⟩ := hloud
      obtain ⟨⟨l, hl, hlkey⟩, halone⟩ := hkeep
      -- one report or three
      have hodd : ¬Even (reports order).length := by
        rintro ⟨k, hk⟩
        omega
      rw [indexStep_iterate_of_closed hcc hzero, if_neg hodd, Set.mem_symmDiff,
        Set.mem_singleton_iff, hkeys, hsplit]
      have hown : ∀ y, (∃ l', rest slot = some l' ∧ l'.key = y) ↔ y = levelKey order v := by
        intro y
        rw [hl]
        constructor
        · rintro ⟨l', hl', rfl⟩
          rw [← Option.some.inj hl', hlkey]
        · rintro rfl
          exact ⟨l, rfl, hlkey⟩
      rw [hown]
      by_cases hx : x = levelKey order v
      · subst hx
        simp [halone]
      · simp [hx]
  · rw [if_neg hzero] at hkeep
    obtain ⟨hvacates, hnames⟩ := hkeep
    obtain ⟨l', hl', hwhere⟩ := restingAfter_of_left rest slot v hzero
    have hafter : ∀ y, RestsAt (noteQuote rest slot order v) y ↔
        RestsElsewhere rest slot y ∨ l'.key = y := by
      intro y
      rw [noteQuote, if_neg hreports, restsAt_update, hl']
      simp
    -- no level is vacated
    have hkept : RestsAt rest x → RestsAt (noteQuote rest slot order v) x := by
      rw [hsplit, hafter]
      rintro (helse | ⟨l, hl, rfl⟩)
      · exact .inl helse
      · exact (hafter _).mp (hvacates l hl)
    by_cases hcc : 1 < order.cancelledCount
    · rw [if_pos hcc] at hnames
      rw [indexStep_iterate_of_repeat hcc, hkeys]
      refine ⟨hkept, fun h => ?_⟩
      obtain helse | rfl := (hafter x).mp h
      · exact (hsplit x).mpr (.inl helse)
      · refine hnames l' ?_
        rw [noteQuote, if_neg hreports, Function.update_self, hl']
    · rw [if_neg hcc] at hnames
      rw [indexStep_iterate_of_left hcc hzero hlength, Set.mem_insert_iff, hkeys]
      constructor
      · rintro (rfl | h)
        · exact hnames
        · exact hkept h
      · intro h
        obtain helse | rfl := (hafter x).mp h
        · exact .inr ((hsplit x).mpr (.inl helse))
        · obtain hkey | hold := hwhere
          · exact .inl hkey
          · exact .inr ⟨slot, l', hold, rfl⟩

/-! ### Runs -/

/-- The engine and the record of the open orders. -/
structure QuoteDesk where
  re : RiskEngine
  rest : Quotes

namespace QuoteDesk

/-- One own order through `update_risk`. -/
def step (d : QuoteDesk) (e : OwnEvent) : Except Fault QuoteDesk := do
  let v ← e.order.venue.index
  let (_, re, _) ← d.re.updateRiskOrder e.book e.order
  .ok ⟨re, noteQuote d.rest e.slot e.order v⟩

/-- The event is for an own order and keeps the index. -/
def Follows (d : QuoteDesk) (e : OwnEvent) : Prop :=
  e.order.isOurOrder = true ∧ ∀ v, e.order.venue.index = .ok v → reports e.order ≠ [] →
    KeepsIndex d.rest e.slot e.order v

/-- An own open order of the venue with the symbol and the price of the new order
rests on the other side. -/
def WouldTrade (d : QuoteDesk) (order : Order) (v : VenueIndex) : Prop :=
  ∃ s l, d.rest s = some l ∧ l.venue = v ∧ l.symbolIndex = order.symbolIndex ∧
    l.price = order.price ∧ l.side = order.side.opposite

/-- No open order on the other side has a price that only agrees in the low 32
bits, unless one has the price itself. -/
def Unaliased (d : QuoteDesk) (order : Order) (v : VenueIndex) : Prop :=
  ∀ s l, d.rest s = some l → l.venue = v → l.symbolIndex = order.symbolIndex →
    l.side = order.side.opposite → l.price.toUInt64.toUInt32 = order.price.toUInt64.toUInt32 →
    d.WouldTrade order v

/-- The index is sound and holds exactly the levels of the open orders. -/
structure IndexExact (d : QuoteDesk) : Prop where
  sound : PoolSound d.re
  levels : ∀ x, x ∈ d.re.Levels ↔ RestsAt d.rest x

theorem indexExact_step {d d' : QuoteDesk} {e : OwnEvent} (hexact : d.IndexExact)
    (hfollows : d.Follows e) (hstep : d.step e = .ok d') : d'.IndexExact := by
  obtain ⟨hown, hkeep⟩ := hfollows
  rw [step] at hstep
  obtain ⟨v, hv, hstep⟩ := bind_eq_ok_iff.mp hstep
  obtain ⟨⟨done, re', order'⟩, hbody, hstep⟩ := bind_eq_ok_iff.mp hstep
  rw [← Except.ok.inj hstep]
  refine ⟨kept_poolSound.popped hexact.sound hbody, fun x => ?_⟩
  dsimp only
  rw [levels_updateRiskOrder hown hv hbody]
  by_cases hreports : reports e.order = []
  · -- no report: neither the index nor the record moves
    rw [noteQuote, if_pos hreports, hreports]
    exact hexact.levels x
  · exact iterate_indexStep_eq_levels hexact.levels hreports (hkeep v hv hreports) x

theorem indexExact_fresh {re : RiskEngine} (hfresh : re.Fresh) :
    IndexExact ⟨re, fun _ => none⟩ := by
  refine ⟨poolSound_fresh hfresh, fun x => ?_⟩
  dsimp only
  rw [levels_fresh hfresh]
  constructor
  · intro h
    exact absurd h (Set.notMem_empty x)
  · rintro ⟨s, l, hs, -⟩
    exact absurd hs (by simp)

end QuoteDesk

/-- The key of a level is the one looked up for an order exactly when the level
is on the other side and the prices agree in the low 32 bits. -/
theorem Quote.key_eq_oppositeKey_iff {l : Quote} (hside : order.side ≠ .unknown) :
    l.key = oppositeKey order v ↔
      l.venue = v ∧ l.symbolIndex = order.symbolIndex ∧ l.side = order.side.opposite ∧
        l.price.toUInt64.toUInt32 = order.price.toUInt64.toUInt32 := by
  have hcode : l.side.code = notSide order.side ↔ l.side = order.side.opposite := by
    cases hs : order.side with
    | unknown => exact absurd hs hside
    | buy => cases l.side <;> decide
    | sell => cases l.side <;> decide
  rw [Quote.key, oppositeKey, Prod.mk.injEq, OrderRiskKey.make_eq_iff, hcode]
  constructor
  · rintro ⟨hv, hsym, hprice, hs, -⟩
    exact ⟨hv, hsym, hs, hprice⟩
  · rintro ⟨hv, hsym, hs, hprice⟩
    exact ⟨hv, hsym, hprice, hs, by rw [hv]⟩

/-- **Self-trade prevention.**  In every run of updates that keep the index, the
check flags an order exactly when an own open order would trade against it. -/
theorem selfTrade_flagged_iff {re : RiskEngine} (hfresh : re.Fresh) {es : List OwnEvent}
    {d : QuoteDesk} (hfollows : Along QuoteDesk.step QuoteDesk.Follows ⟨re, fun _ => none⟩ es)
    (hrun : exec QuoteDesk.step ⟨re, fun _ => none⟩ es = .ok d) (order : Order)
    (hside : order.side ≠ .unknown) (v : VenueIndex) (hprice : d.Unaliased order v) :
    d.re.checkSelfTradeOrder order v = RiskRejectReason.selfTradeDetected.flag ↔
      d.WouldTrade order v := by
  have hexact : d.IndexExact := exec_inv_along (fun d e d' => QuoteDesk.indexExact_step)
    (QuoteDesk.indexExact_fresh hfresh) hfollows hrun
  rw [checkSelfTradeOrder_eq_flag_iff hexact.sound, hexact.levels]
  constructor
  · -- what the index finds may differ from the price in its high bits
    rintro ⟨s, l, hs, hkey⟩
    obtain ⟨hv, hsym, hopp, hlow⟩ := (Quote.key_eq_oppositeKey_iff hside).mp hkey
    exact hprice s l hs hv hsym hopp hlow
  · rintro ⟨s, l, hs, hv, hsym, hpr, hopp⟩
    exact ⟨s, l, hs, (Quote.key_eq_oppositeKey_iff hside).mpr ⟨hv, hsym, hopp, by rw [hpr]⟩⟩

instance : Inhabited QuoteDesk := ⟨⟨{}, fun _ => none⟩⟩

/-- The desk that a run from the start reaches. -/
def QuoteDesk.after (es : List OwnEvent) : QuoteDesk :=
  (exec QuoteDesk.step ⟨{}, fun _ => none⟩ es).toOption.getD default

/-- An own sell order for ten of the first BIST symbol. -/
def ownAsk (status : Status) (price : Int64) (remaining : UInt32) : Order :=
  { price := price, quantity := 10, remainingQuantity := remaining, side := .sell
    status := status, isOurOrder := true, protocol := .ouch, orderType := .limit }

/-- A new buy order for the same symbol. -/
def newBid (price : Int64) : Order :=
  { price := price, quantity := 10, side := .buy, orderType := .limit }

/-- Two orders accepted on two levels, the first filled. -/
def twoAsks : List OwnEvent :=
  [⟨7, ownAsk .new 100 10, {}⟩, ⟨8, ownAsk .new 101 10, {}⟩,
    ⟨7, { ownAsk .filled 100 0 with lastExecQuantity := 10, filledQuantity := 10 }, {}⟩]

theorem selfTrade_flagged_iff_twoAsks :
    (QuoteDesk.after twoAsks).WouldTrade (newBid 101) 0 ∧
      (QuoteDesk.after twoAsks).re.checkSelfTradeOrder (newBid 101) 0 =
        RiskRejectReason.selfTradeDetected.flag := by
  have hrun : exec QuoteDesk.step ⟨{}, fun _ => none⟩ twoAsks = .ok (QuoteDesk.after twoAsks) := rfl
  have hwould : (QuoteDesk.after twoAsks).WouldTrade (newBid 101) 0 :=
    ⟨8, ⟨0, 0, 101, .sell⟩, rfl, rfl, rfl, rfl, rfl⟩
  have hbist : ∀ {v}, Venue.bist.index = .ok v → v = 0 := fun h => (Except.ok.inj h).symm
  have hfollows : Along QuoteDesk.step QuoteDesk.Follows ⟨{}, fun _ => none⟩ twoAsks := by
    refine along_cons (QuoteDesk.after (twoAsks.take 1)) ⟨rfl, fun v hv _ => ?_⟩ rfl ?_
    · obtain rfl := hbist hv
      exact ⟨fun l hl => absurd hl (by simp), ⟨7, _, rfl, rfl⟩⟩
    refine along_cons (QuoteDesk.after (twoAsks.take 2)) ⟨rfl, fun v hv _ => ?_⟩ rfl ?_
    · obtain rfl := hbist hv
      have hnone : (QuoteDesk.after (twoAsks.take 1)).rest 8 = none := rfl
      exact ⟨fun l hl => absurd (hnone.symm.trans hl) (by simp), ⟨8, _, rfl, rfl⟩⟩
    refine along_cons (QuoteDesk.after (twoAsks.take 3)) ⟨rfl, fun v hv _ => ?_⟩ rfl trivial
    obtain rfl := hbist hv
    refine ⟨⟨_, rfl, rfl⟩, ?_⟩
    -- the other open order has another price
    rintro ⟨s, hs, l, hl, hkey⟩
    have hrest : (QuoteDesk.after (twoAsks.take 2)).rest = Function.update (Function.update
        (fun _ => none) 7 (some ⟨0, 0, 100, .sell⟩)) 8 (some ⟨0, 0, 101, .sell⟩) := rfl
    rw [hrest] at hl
    by_cases h8 : s = 8
    · rw [h8, Function.update_self] at hl
      rw [← Option.some.inj hl] at hkey
      exact absurd hkey (by decide)
    · rw [Function.update_of_ne h8, Function.update_of_ne hs] at hl
      exact absurd hl (by simp)
  exact ⟨hwould, (selfTrade_flagged_iff fresh_default hfollows hrun (newBid 101) (by decide) 0
    fun _ _ _ _ _ _ _ => hwould).mpr hwould⟩

/-- Two orders accepted on one level, the first filled. -/
def sharedLevel : List OwnEvent :=
  [⟨7, ownAsk .new 100 10, {}⟩, ⟨8, ownAsk .new 100 10, {}⟩,
    ⟨7, { ownAsk .filled 100 0 with lastExecQuantity := 10, filledQuantity := 10 }, {}⟩]

/-- An order accepted and replaced to another price. -/
def movedAsk : List OwnEvent := [⟨7, ownAsk .new 100 10, {}⟩, ⟨7, ownAsk .replaced 102 10, {}⟩]

/-- **The index is kept per level, not per order.**  The order that is left of two
on a level is not seen, and the one that moved away is still seen. -/
theorem selfTrade_missed :
    (exec QuoteDesk.step ⟨{}, fun _ => none⟩ sharedLevel = .ok (QuoteDesk.after sharedLevel) ∧
      (QuoteDesk.after sharedLevel).WouldTrade (newBid 100) 0 ∧
      (QuoteDesk.after sharedLevel).re.checkSelfTradeOrder (newBid 100) 0 = 0) ∧
    (exec QuoteDesk.step ⟨{}, fun _ => none⟩ movedAsk = .ok (QuoteDesk.after movedAsk) ∧
      ¬(QuoteDesk.after movedAsk).WouldTrade (newBid 100) 0 ∧
      (QuoteDesk.after movedAsk).re.checkSelfTradeOrder (newBid 100) 0 =
        RiskRejectReason.selfTradeDetected.flag) := by
  refine ⟨⟨rfl, ⟨8, ⟨0, 0, 100, .sell⟩, rfl, rfl, rfl, rfl, rfl⟩, rfl⟩, rfl, ?_, rfl⟩
  rintro ⟨s, l, hl, -, -, hprice, -⟩
  have hrest : (QuoteDesk.after movedAsk).rest = Function.update (Function.update
      (fun _ => none) 7 (some ⟨0, 0, 100, .sell⟩)) 7 (some ⟨0, 0, 102, .sell⟩) := rfl
  rw [hrest] at hl
  by_cases h7 : s = 7
  · rw [h7, Function.update_self] at hl
    rw [← Option.some.inj hl] at hprice
    exact absurd hprice (by decide)
  · rw [Function.update_of_ne h7, Function.update_of_ne h7] at hl
    exact absurd hl (by simp)

end TradingEngine
