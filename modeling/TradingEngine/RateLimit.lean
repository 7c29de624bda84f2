/-
The order and cancel limiters of an account and its symbols.

`check_order_rate_limit` is the sibling of `check_cancel_rate_limit`; `check_risk` has
the call commented out.  Both ask the limiter of the account and that of the symbol,
each with a refill time of its own, and a call that one of them turns down takes from
the other all the same.

* `rateLimits_bound` — over every run of the two functions for symbols of one venue,
  with times that do not decrease, each of the limiters passes at most its capacity
  per refill and at most twice that in a window of its interval; what is admitted
  both limiters let pass.
-/
import TradingEngine.RateWindow
import TradingEngine.RiskCheck

namespace TradingEngine

open RateWindow

/-! ### The order limiter -/

namespace OrderRateLimit

/-- A refill at time `now`, if the last one is longer ago than the interval. -/
def refill (l : OrderRateLimit) (now : UInt64) : OrderRateLimit :=
  if l.refillIntervalNs < now - l.lastRefillNs then
    { l with tokens := l.capacity, lastRefillNs := now } else l

/-- One order at time `now`; the result says whether there was a token for it. -/
def take (l : OrderRateLimit) (now : UInt64) : OrderRateLimit × Bool :=
  let l := l.refill now
  if 0 < l.tokens then ({ l with tokens := l.tokens - 1 }, true) else (l, false)

/-- The call as the limiter sees it. -/
def tick (l : OrderRateLimit) (now : UInt64) : Tick ℕ :=
  ⟨now.toNat, l.refillIntervalNs < now - l.lastRefillNs, (l.take now).2⟩

end OrderRateLimit

/-- The call as a cancel limiter sees it. -/
def CancelRateLimit.tick (c : CancelRateLimit) (now : UInt64) : Tick ℕ :=
  ⟨now.toNat, 1000000000 < now - c.lastCancelTimestampNs, !(c.note now).exceeded⟩

namespace RiskEngine

/-- `check_order_rate_limit`: whether a limit is reached; the reject is already pushed
then. -/
def checkOrderRateLimit (re : RiskEngine) (v : VenueIndex) (i : SymbolSlot) (slot : OrderSlot)
    (now : UInt64) : Bool × RiskEngine :=
  let acc := re.accountrisks v
  let (accLimiter, accPass) := acc.orderratelimit.take now
  let sym := re.symbolrisks v i
  let (symLimiter, symPass) := sym.orderratelimit.take now
  let reason := reasonIf (accPass = false) .maxOrderRateLimitExceededAccount |||
    reasonIf (symPass = false) .maxOrderRateLimitExceededSymbol
  let re := (re.setAccount v { acc with orderratelimit := accLimiter }).setSymbol v i
    { sym with orderratelimit := symLimiter }
  (!accPass || !symPass, if reason ≠ 0 then re.pushReject slot reason else re)

/-! ### Runs of the two functions -/

/-- A call of one of the two functions, for an order of `symbol`. -/
structure RateCall where
  cancel : Bool
  symbol : SymbolSlot
  slot : OrderSlot
  now : UInt64

def rateCall (re : RiskEngine) (v : VenueIndex) (c : RateCall) : Bool × RiskEngine :=
  if c.cancel then re.checkCancelRateLimit v c.symbol c.slot c.now
  else re.checkOrderRateLimit v c.symbol c.slot c.now

/-- The order limiter of the account, or that of a symbol. -/
def orderLimiter (re : RiskEngine) (v : VenueIndex) : Option SymbolSlot → OrderRateLimit
  | none => (re.accountrisks v).orderratelimit
  | some i => (re.symbolrisks v i).orderratelimit

def cancelLimiter (re : RiskEngine) (v : VenueIndex) : Option SymbolSlot → CancelRateLimit
  | none => (re.accountrisks v).cancelratelimit
  | some i => (re.symbolrisks v i).cancelratelimit

/-- The call asks the limiter of the account and that of its symbol. -/
def RateCall.asks (c : RateCall) (place : Option SymbolSlot) : Prop :=
  place = none ∨ place = some c.symbol

instance (c : RateCall) (place : Option SymbolSlot) : Decidable (c.asks place) :=
  inferInstanceAs (Decidable (_ ∨ _))

/-- What a limiter sees of a run: the calls that ask it, each in the state it comes in. -/
def ticks (v : VenueIndex) (asked : RateCall → Bool) (tick : RiskEngine → RateCall → Tick ℕ) :
    RiskEngine → List RateCall → List (Tick ℕ)
  | _, [] => []
  | re, c :: cs =>
    let rest := ticks v asked tick (re.rateCall v c).2 cs
    if asked c then tick re c :: rest else rest

def orderTicks (v : VenueIndex) (place : Option SymbolSlot) :
    RiskEngine → List RateCall → List (Tick ℕ) :=
  ticks v (fun c => !c.cancel && decide (c.asks place))
    fun re c => (re.orderLimiter v place).tick c.now

def cancelTicks (v : VenueIndex) (place : Option SymbolSlot) :
    RiskEngine → List RateCall → List (Tick ℕ) :=
  ticks v (fun c => c.cancel && decide (c.asks place))
    fun re c => (re.cancelLimiter v place).tick c.now

/-- What a call leaves of the accounts and symbols, whether it rejects or not. -/
theorem risks_rateCall (re : RiskEngine) (v : VenueIndex) (c : RateCall) :
    (re.rateCall v c).2.accountrisks = Function.update re.accountrisks v
      (if c.cancel then { re.accountrisks v with
          cancelratelimit := (re.accountrisks v).cancelratelimit.note c.now }
        else { re.accountrisks v with
          orderratelimit := ((re.accountrisks v).orderratelimit.take c.now).1 }) ∧
    (re.rateCall v c).2.symbolrisks = Function.update re.symbolrisks v
      (Function.update (re.symbolrisks v) c.symbol
        (if c.cancel then { re.symbolrisks v c.symbol with
            cancelratelimit := (re.symbolrisks v c.symbol).cancelratelimit.note c.now }
          else { re.symbolrisks v c.symbol with
            orderratelimit := ((re.symbolrisks v c.symbol).orderratelimit.take c.now).1 })) := by
  rw [rateCall]
  by_cases hcancel : c.cancel = true
  · simp only [if_pos hcancel, checkCancelRateLimit]
    split
    · exact ⟨rfl, rfl⟩
    · exact ⟨rfl, rfl⟩
  · simp only [if_neg hcancel, checkOrderRateLimit]
    split
    · exact ⟨rfl, rfl⟩
    · exact ⟨rfl, rfl⟩

/-- An order call moves the two order limiters it asks, and no other. -/
theorem orderLimiter_rateCall (re : RiskEngine) (v : VenueIndex) (c : RateCall)
    (place : Option SymbolSlot) : (re.rateCall v c).2.orderLimiter v place =
      if !c.cancel && decide (c.asks place) then ((re.orderLimiter v place).take c.now).1
      else re.orderLimiter v place := by
  obtain ⟨haccounts, hsymbols⟩ := risks_rateCall re v c
  have hasks : c.asks none := .inl rfl
  cases place with
  | none =>
    rw [orderLimiter, orderLimiter, haccounts, Function.update_self]
    by_cases hcancel : c.cancel = true
    · simp [hcancel]
    · simp [hcancel, hasks]
  | some i =>
    rw [orderLimiter, orderLimiter, hsymbols, Function.update_self]
    by_cases hi : i = c.symbol
    · subst hi
      have hasks : c.asks (some c.symbol) := .inr rfl
      rw [Function.update_self]
      by_cases hcancel : c.cancel = true
      · simp [hcancel]
      · simp [hcancel, hasks]
    · have hasks : ¬c.asks (some i) := by simp [RateCall.asks, hi]
      simp [Function.update_of_ne hi, hasks]

theorem cancelLimiter_rateCall (re : RiskEngine) (v : VenueIndex) (c : RateCall)
    (place : Option SymbolSlot) : (re.rateCall v c).2.cancelLimiter v place =
      if c.cancel && decide (c.asks place) then (re.cancelLimiter v place).note c.now
      else re.cancelLimiter v place := by
  obtain ⟨haccounts, hsymbols⟩ := risks_rateCall re v c
  have hasks : c.asks none := .inl rfl
  cases place with
  | none =>
    rw [cancelLimiter, cancelLimiter, haccounts, Function.update_self]
    by_cases hcancel : c.cancel = true
    · simp [hcancel, hasks]
    · simp [hcancel]
  | some i =>
    rw [cancelLimiter, cancelLimiter, hsymbols, Function.update_self]
    by_cases hi : i = c.symbol
    · subst hi
      have hasks : c.asks (some c.symbol) := .inr rfl
      rw [Function.update_self]
      by_cases hcancel : c.cancel = true
      · simp [hcancel, hasks]
      · simp [hcancel]
    · have hasks : ¬c.asks (some i) := by simp [RateCall.asks, hi]
      simp [Function.update_of_ne hi, hasks]

end RiskEngine

/-! ### One call of a limiter -/

section

variable {l : OrderRateLimit} {c : CancelRateLimit} {now : UInt64}

/-- The configuration of a limiter stays. -/
theorem OrderRateLimit.config_take (l : OrderRateLimit) (now : UInt64) :
    (l.take now).1.capacity = l.capacity ∧
      (l.take now).1.refillIntervalNs = l.refillIntervalNs := by
  have hrefill : (l.refill now).capacity = l.capacity ∧
      (l.refill now).refillIntervalNs = l.refillIntervalNs := by
    rw [refill]
    split
    · exact ⟨rfl, rfl⟩
    · exact ⟨rfl, rfl⟩
  rw [take]
  split
  · exact hrefill
  · exact hrefill

/-- What the limiter has to give for a call, and what it has left after it. -/
theorem OrderRateLimit.tokens_take (l : OrderRateLimit) (now : UInt64) :
    let avail := if (l.tick now).refill then l.capacity.toNat else l.tokens.toNat
    ((l.tick now).pass = true → 0 < avail) ∧
      (l.take now).1.tokens.toNat = if (l.tick now).pass then avail - 1 else avail := by
  have havail : (if (l.tick now).refill then l.capacity.toNat else l.tokens.toNat) =
      (l.refill now).tokens.toNat := by
    rw [tick, refill]
    by_cases hdue : l.refillIntervalNs < now - l.lastRefillNs
    · simp [hdue]
    · simp [hdue]
  have hpass : (l.tick now).pass = (l.take now).2 := rfl
  dsimp only
  rw [havail, hpass, take]
  by_cases hleft : 0 < (l.refill now).tokens
  · have hpos : 0 < (l.refill now).tokens.toNat := UInt64.lt_iff_toNat_lt.mp hleft
    simp only [if_pos hleft, if_true]
    refine ⟨fun _ => hpos, ?_⟩
    rw [UInt64.toNat_sub_of_le _ _ (by rw [UInt64.le_iff_toNat_le]; exact hpos)]
    rfl
  · simp [if_neg hleft]

/-- The time of the last refill. -/
theorem OrderRateLimit.lastRefill_take (l : OrderRateLimit) (now : UInt64) :
    (l.take now).1.lastRefillNs = if (l.tick now).refill then now else l.lastRefillNs := by
  have hrefill : (l.refill now).lastRefillNs =
      if (l.tick now).refill then now else l.lastRefillNs := by
    rw [tick, refill]
    by_cases hdue : l.refillIntervalNs < now - l.lastRefillNs
    · simp [hdue]
    · simp [hdue]
  rw [take]
  split
  · exact hrefill
  · exact hrefill

/-- A difference that exceeds an interval, with the times in order. -/
theorem add_lt_of_lt_sub {a b d : UInt64} (hab : a.toNat ≤ b.toNat) (h : d < b - a) :
    a.toNat + d.toNat < b.toNat := by
  have hlt := UInt64.lt_iff_toNat_lt.mp h
  rw [UInt64.toNat_sub_of_le _ _ (UInt64.le_iff_toNat_le.mpr hab)] at hlt
  omega

end

/-! ### Runs -/

namespace RiskEngine

variable {re : RiskEngine} {v : VenueIndex} {calls : List RateCall} {place : Option SymbolSlot}

/-- Calls in the order of their times. -/
def InOrder (calls : List RateCall) : Prop := calls.Pairwise fun a b => a.now ≤ b.now

/-- The ticks of a limiter have the times of its calls. -/
theorem timed_ticks {asked : RateCall → Bool} {tick : RiskEngine → RateCall → Tick ℕ}
    (htime : ∀ re c, (tick re c).time = c.now.toNat) (horder : InOrder calls) :
    Timed (ticks v asked tick re calls) := by
  -- every tick is that of a call
  have hmem : ∀ (calls : List RateCall) re, ∀ e ∈ ticks v asked tick re calls,
      ∃ c ∈ calls, e.time = c.now.toNat := by
    intro calls
    induction calls with
    | nil => exact fun re e he => absurd he (by simp [ticks])
    | cons c cs ih =>
      intro re e he
      have hlater : e ∈ ticks v asked tick (re.rateCall v c).2 cs →
          ∃ c' ∈ c :: cs, e.time = c'.now.toNat := by
        intro he'
        obtain ⟨c', hc', hsame⟩ := ih _ e he'
        exact ⟨c', List.mem_cons_of_mem c hc', hsame⟩
      rw [ticks] at he
      split at he
      · obtain rfl | he := List.mem_cons.mp he
        · exact ⟨c, List.mem_cons_self, htime re c⟩
        · exact hlater he
      · exact hlater he
  induction calls generalizing re with
  | nil => exact List.Pairwise.nil
  | cons c cs ih =>
    obtain ⟨hfirst, hrest⟩ := List.pairwise_cons.mp horder
    rw [ticks]
    split
    · refine List.pairwise_cons.mpr ⟨fun e he => ?_, ih hrest⟩
      obtain ⟨c', hc', hsame⟩ := hmem cs _ e he
      rw [htime, hsame]
      exact UInt64.le_iff_toNat_le.mp (hfirst c' hc')
    · exact ih hrest

theorem length_ticks_le {asked : RateCall → Bool} {tick : RiskEngine → RateCall → Tick ℕ} :
    (ticks v asked tick re calls).length ≤ calls.length := by
  induction calls generalizing re with
  | nil => exact Nat.le_refl 0
  | cons c cs ih =>
    rw [ticks]
    split
    · exact Nat.succ_le_succ ih
    · exact ih.trans (Nat.le_succ _)

/-- **An order limiter gives what it has.** -/
theorem governed_orderTicks : Governed (re.orderLimiter v place).capacity.toNat
    (re.orderLimiter v place).tokens.toNat (orderTicks v place re calls) := by
  induction calls generalizing re with
  | nil => trivial
  | cons c cs ih =>
    have hnext := orderLimiter_rateCall re v c place
    have hrest := @ih (re.rateCall v c).2
    rw [hnext] at hrest
    rw [orderTicks, ticks]
    by_cases hasked : (!c.cancel && decide (c.asks place)) = true
    · rw [if_pos hasked] at hrest ⊢
      obtain ⟨hpass, htokens⟩ := (re.orderLimiter v place).tokens_take c.now
      rw [(OrderRateLimit.config_take _ _).1, htokens] at hrest
      exact ⟨hpass, hrest⟩
    · rw [if_neg hasked] at hrest ⊢
      exact hrest

/-- A limiter that is refilled only when its interval is over. -/
theorem paced_ticks {asked : RateCall → Bool} {tick : RiskEngine → RateCall → Tick ℕ}
    (lastRefill interval : RiskEngine → UInt64) (htime : ∀ re c, (tick re c).time = c.now.toNat)
    (hdue : ∀ re c, (tick re c).refill = true → interval re < c.now - lastRefill re)
    (hconst : ∀ re c, interval (re.rateCall v c).2 = interval re)
    (hnext : ∀ re c, lastRefill (re.rateCall v c).2 =
      if asked c && (tick re c).refill then c.now else lastRefill re)
    {last : Option ℕ} (horder : InOrder calls)
    (hlast : ∀ r ∈ last, r = (lastRefill re).toNat ∧ ∀ c ∈ calls, r ≤ c.now.toNat) :
    Paced (interval re).toNat last (ticks v asked tick re calls) := by
  induction calls generalizing re last with
  | nil => trivial
  | cons c cs ih =>
    obtain ⟨hfirst, htail⟩ := List.pairwise_cons.mp horder
    have hrest := fun last hl => @ih (re.rateCall v c).2 last htail hl
    rw [hnext, hconst] at hrest
    rw [ticks]
    have hkeep : ∀ r ∈ last, r = (lastRefill re).toNat ∧ ∀ c' ∈ cs, r ≤ c'.now.toNat :=
      fun r hr => ⟨(hlast r hr).1, fun c' hc' => (hlast r hr).2 c' (List.mem_cons_of_mem c hc')⟩
    by_cases hasked : asked c = true
    · rw [if_pos hasked]
      -- the call itself, and the time of the last refill as the next call finds it
      refine ⟨fun hfilled r hr => ?_, hrest _ fun r hr => ?_⟩
      · obtain ⟨hsame, hbefore⟩ := hlast r hr
        have hnow := hbefore c List.mem_cons_self
        rw [hsame] at hnow ⊢
        rw [htime]
        exact add_lt_of_lt_sub hnow (hdue re c hfilled)
      · by_cases hfilled : (tick re c).refill = true
        · rw [if_pos hfilled, htime] at hr
          obtain rfl : c.now.toNat = r := Option.some.inj hr
          rw [if_pos (by rw [hasked, hfilled]; rfl)]
          exact ⟨rfl, fun c' hc' => UInt64.le_iff_toNat_le.mp (hfirst c' hc')⟩
        · rw [if_neg hfilled] at hr
          rw [if_neg (by simp [hfilled])]
          exact hkeep r hr
    · rw [if_neg hasked]
      rw [if_neg (by simp [hasked])] at hrest
      exact hrest last hkeep

theorem paced_orderTicks (horder : InOrder calls) :
    Paced (re.orderLimiter v place).refillIntervalNs.toNat none (orderTicks v place re calls) := by
  refine paced_ticks (fun re => (re.orderLimiter v place).lastRefillNs)
    (fun re => (re.orderLimiter v place).refillIntervalNs) (fun _ _ => rfl)
    (fun re c hfilled => of_decide_eq_true hfilled) (fun re c => ?_) (fun re c => ?_) horder nofun
  · rw [orderLimiter_rateCall]
    split
    · exact (OrderRateLimit.config_take _ _).2
    · rfl
  · rw [orderLimiter_rateCall]
    by_cases hasked : (!c.cancel && decide (c.asks place)) = true
    · rw [if_pos hasked, OrderRateLimit.lastRefill_take, hasked, Bool.true_and]
    · rw [if_neg hasked, if_neg (by simp [hasked])]

/-! ### The cancel limiters -/

/-- What a cancel does to its limiter. -/
theorem note_eq (c : CancelRateLimit) (now : UInt64) :
    (c.note now).maxCancelsPerSec = c.maxCancelsPerSec ∧
      (c.note now).cancelCountWindow =
        (if (c.tick now).refill then 0 else c.cancelCountWindow) + 1 ∧
      (c.note now).lastCancelTimestampNs =
        if (c.tick now).refill then now else c.lastCancelTimestampNs := by
  rw [CancelRateLimit.note, CancelRateLimit.tick]
  by_cases hdue : 1000000000 < now - c.lastCancelTimestampNs
  · simp [hdue]
  · simp [hdue]

theorem paced_cancelTicks (horder : InOrder calls) :
    Paced 1000000000 none (cancelTicks v place re calls) := by
  refine paced_ticks (fun re => (re.cancelLimiter v place).lastCancelTimestampNs)
    (fun _ => 1000000000) (fun _ _ => rfl)
    (fun re c hfilled => of_decide_eq_true hfilled) (fun re c => rfl) (fun re c => ?_) horder nofun
  rw [cancelLimiter_rateCall]
  by_cases hasked : (c.cancel && decide (c.asks place)) = true
  · rw [if_pos hasked, (note_eq _ _).2.2, hasked, Bool.true_and]
  · rw [if_neg hasked, if_neg (by simp [hasked])]

/-- **A cancel limiter gives what it has**, as long as its count does not wrap: `since` are
its calls since the last refill. -/
theorem governed_cancelTicks {since : List (Tick ℕ)} (hstretch : Stretch since)
    (hcount : (re.cancelLimiter v place).cancelCountWindow.toNat = since.length)
    (hfew : ∀ part, part <:+: since ++ cancelTicks v place re calls → Stretch part →
      part.length < 2 ^ 32) :
    Governed (re.cancelLimiter v place).maxCancelsPerSec.toNat
      ((re.cancelLimiter v place).maxCancelsPerSec.toNat -
        (re.cancelLimiter v place).cancelCountWindow.toNat)
      (cancelTicks v place re calls) := by
  induction calls generalizing re since with
  | nil => trivial
  | cons c cs ih =>
    have hnext := cancelLimiter_rateCall re v c place
    rw [cancelTicks, ticks] at hfew ⊢
    by_cases hasked : (c.cancel && decide (c.asks place)) = true
    · rw [if_pos hasked] at hnext hfew ⊢
      generalize hl : re.cancelLimiter v place = l at hnext hcount hfew ⊢
      obtain ⟨hmax, hwindow, -⟩ := note_eq l c.now
      -- the calls since the refill, this one included
      obtain ⟨now, hnow, hlen, hinfix⟩ : ∃ now : List (Tick ℕ), Stretch now ∧
          now.length = (if (l.tick c.now).refill then 0 else l.cancelCountWindow.toNat) + 1 ∧
          now ++ cancelTicks v place (re.rateCall v c).2 cs <:+:
            since ++ l.tick c.now :: cancelTicks v place (re.rateCall v c).2 cs := by
        by_cases hfilled : (l.tick c.now).refill = true
        · refine ⟨[l.tick c.now], fun e he => absurd he (by simp), ?_,
            (List.suffix_append _ _).isInfix⟩
          rw [if_pos hfilled]
          rfl
        · refine ⟨since ++ [l.tick c.now], hstretch.concat (by simpa using hfilled), ?_, ?_⟩
          · rw [if_neg hfilled, List.length_append, hcount]
            rfl
          · rw [List.append_assoc]
            exact List.infix_refl _
      have hsmall := hfew now ((List.prefix_append _ _).isInfix.trans hinfix) hnow
      -- there are fewer than 2^32 of them, so the count does not wrap
      have hcount' : (l.note c.now).cancelCountWindow.toNat = now.length := by
        rw [hwindow, hlen, UInt32.toNat_add]
        rw [hlen] at hsmall
        split at hsmall
        · rename_i hfilled
          rw [if_pos hfilled, if_pos hfilled]
          rfl
        · rename_i hfilled
          rw [if_neg hfilled, if_neg hfilled]
          exact Nat.mod_eq_of_lt hsmall
      have hrest := @ih (re.rateCall v c).2 now hnow (by rw [hnext, hcount'])
        fun part hpart => hfew part (hpart.trans hinfix)
      rw [hnext, hmax, hcount'] at hrest
      have hpass : (l.tick c.now).pass = true ↔ now.length ≤ l.maxCancelsPerSec.toNat := by
        rw [← hcount']
        show (!decide ((l.note c.now).maxCancelsPerSec < _)) = true ↔ _
        rw [hmax, Bool.not_eq_true', decide_eq_false_iff_not, UInt32.not_lt,
          UInt32.le_iff_toNat_le]
      have havail : (if (l.tick c.now).refill = true then l.maxCancelsPerSec.toNat
          else l.maxCancelsPerSec.toNat - l.cancelCountWindow.toNat) =
          l.maxCancelsPerSec.toNat - (now.length - 1) := by
        rw [hlen]
        split
        · rfl
        · rfl
      refine ⟨fun hp => ?_, ?_⟩
      · have hle := hpass.mp hp
        rw [havail]
        omega
      · have hleft : (if (l.tick c.now).pass = true then
            l.maxCancelsPerSec.toNat - (now.length - 1) - 1
            else l.maxCancelsPerSec.toNat - (now.length - 1)) =
            l.maxCancelsPerSec.toNat - now.length := by
          split
          · omega
          · rename_i hp
            have hover : ¬now.length ≤ l.maxCancelsPerSec.toNat := fun h => hp (hpass.mpr h)
            omega
        rw [havail, hleft]
        exact hrest
    · rw [if_neg hasked] at hnext hfew ⊢
      have hrest := @ih (re.rateCall v c).2 since hstretch (by rw [hnext]; exact hcount) hfew
      rw [hnext] at hrest
      exact hrest

/-! ### Admission -/

/-- The limiter lets the call pass. -/
def letsPass (re : RiskEngine) (v : VenueIndex) (place : Option SymbolSlot) (c : RateCall) :
    Bool :=
  if c.cancel then ((re.cancelLimiter v place).tick c.now).pass
  else ((re.orderLimiter v place).tick c.now).pass

/-- A call is admitted exactly if both limiters let it pass. -/
theorem rateCall_eq_false_iff (re : RiskEngine) (v : VenueIndex) (c : RateCall) :
    (re.rateCall v c).1 = false ↔
      re.letsPass v none c = true ∧ re.letsPass v (some c.symbol) c = true := by
  rw [rateCall, letsPass, letsPass]
  by_cases hcancel : c.cancel = true
  · simp [if_pos hcancel, checkCancelRateLimit, CancelRateLimit.tick, cancelLimiter]
  · simp [if_neg hcancel, checkOrderRateLimit, OrderRateLimit.tick, orderLimiter]

/-- The limiters as the engine sets them up. -/
structure FreshLimiters (re : RiskEngine) (v : VenueIndex) : Prop where
  orders : ∀ place, (re.orderLimiter v place).tokens = (re.orderLimiter v place).capacity
  cancels : ∀ place, (re.cancelLimiter v place).cancelCountWindow = 0

/-- **The limiters bound what they let pass.** -/
theorem rateLimits_bound (horder : InOrder calls) (hfresh : FreshLimiters re v)
    (hfew : ∀ place part, part <:+: cancelTicks v place re calls → Stretch part →
      part.length < 2 ^ 32) :
    (∀ place,
      BoundedPerRefill (re.orderLimiter v place).capacity.toNat (orderTicks v place re calls) ∧
      BoundedPerWindow (2 * (re.orderLimiter v place).capacity.toNat)
        (re.orderLimiter v place).refillIntervalNs.toNat (orderTicks v place re calls)) ∧
    (∀ place,
      BoundedPerRefill (re.cancelLimiter v place).maxCancelsPerSec.toNat
        (cancelTicks v place re calls) ∧
      BoundedPerWindow (2 * (re.cancelLimiter v place).maxCancelsPerSec.toNat) 1000000000
        (cancelTicks v place re calls)) ∧
    ∀ (s : RiskEngine) c, (s.rateCall v c).1 = false →
      s.letsPass v none c = true ∧ s.letsPass v (some c.symbol) c = true := by
  refine ⟨fun place => ?_, fun place => ?_, fun s c => (rateCall_eq_false_iff s v c).mp⟩
  · have htimed : Timed (orderTicks v place re calls) := timed_ticks (fun _ _ => rfl) horder
    have hgoverned : Governed (re.orderLimiter v place).capacity.toNat
        (re.orderLimiter v place).tokens.toNat (orderTicks v place re calls) :=
      governed_orderTicks
    have hbound := hgoverned.boundedPerRefill (by rw [hfresh.orders])
    exact ⟨hbound, boundedPerWindow htimed ((paced_orderTicks horder).spaced htimed) hbound⟩
  · have htimed : Timed (cancelTicks v place re calls) := timed_ticks (fun _ _ => rfl) horder
    have hgoverned := @governed_cancelTicks re v calls place [] (fun e he => absurd he (by simp))
      (by rw [hfresh.cancels]; rfl) (hfew place)
    have hbound := hgoverned.boundedPerRefill (Nat.sub_le _ _)
    exact ⟨hbound, boundedPerWindow htimed ((paced_cancelTicks horder).spaced htimed) hbound⟩

/-- One order per 100 ns and one cancel per second, for the account and every symbol. -/
def limitedEngine : RiskEngine :=
  { accountrisks := fun _ =>
      { orderratelimit := { tokens := 1, capacity := 1, refillIntervalNs := 100 }
        cancelratelimit := { maxCancelsPerSec := 1 } }
    symbolrisks := fun _ _ =>
      { orderratelimit := { tokens := 1, capacity := 1, refillIntervalNs := 100 }
        cancelratelimit := { maxCancelsPerSec := 1 } } }

/-- Orders for two symbols and a cancel. -/
def threeCalls : List RateCall := [⟨false, 0, 7, 200⟩, ⟨false, 1, 8, 250⟩, ⟨true, 0, 7, 250⟩]

/-- The second order finds the account without a token, and takes that of its symbol. -/
theorem rateLimits_bound_threeCalls :
    BoundedPerRefill 1 (orderTicks 0 none limitedEngine threeCalls) ∧
      (orderTicks 0 none limitedEngine threeCalls).map (·.pass) = [true, false] ∧
      (orderTicks 0 (some 1) limitedEngine threeCalls).map (·.pass) = [true] := by
  have hfew : ∀ place part, part <:+: cancelTicks 0 place limitedEngine threeCalls →
      Stretch part → part.length < 2 ^ 32 := by
    intro place part hpart _
    have hlen := hpart.length_le.trans length_ticks_le
    have hthree : threeCalls.length = 3 := rfl
    omega
  have hfresh : FreshLimiters limitedEngine 0 := by
    constructor
    · rintro (_ | _)
      · rfl
      · rfl
    · rintro (_ | _)
      · rfl
      · rfl
  have horder : InOrder threeCalls := by simp [InOrder, threeCalls]
  exact ⟨((rateLimits_bound horder hfresh hfew).1 none).1, rfl, rfl⟩

end RiskEngine

end TradingEngine
