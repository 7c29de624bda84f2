/-
The halt flags of a venue over the system events of a day
(`update_venue_halt_status`, the system event branches of `update_order`,
`check_venue_halt_and_circuit`).

An event is translated to an open or a closed market by the table of its venue,
and the translation is or-ed into the flags that the risk thread compares with
`HALTED`.  Nothing clears them.

* `latched_iff_latest` — a flag that is only ever set agrees with the latest event
  after every event exactly when no event that clears comes after one that sets;
* `venueFlags_exec` — the flags after a run say whether any event has closed the
  venue;
* `halt_follows_latest_iff` — so the halt check follows the latest event exactly on
  the days on which the venue never opens after it was closed.
-/
import TradingEngine.OwnOrders
import TradingEngine.RiskCheck

namespace TradingEngine

open FallibleRun
open RiskRejectReason hiding none

/-! ### A flag that is only ever set -/

section Latch

variable {ε : Type*} (verdict : ε → Option Bool)

/-- What the latest event with a verdict says. -/
def latestVerdict (es : List ε) : Option Bool := (es.filterMap verdict).getLast?

/-- Some event has set the flag. -/
def Latched (es : List ε) : Prop := ∃ e ∈ es, verdict e = some true

theorem latched_concat (es : List ε) (e : ε) :
    Latched verdict (es ++ [e]) ↔ Latched verdict es ∨ verdict e = some true := by
  simp only [Latched, List.mem_append, List.mem_singleton, or_and_right, exists_or, exists_eq_left]

theorem latestVerdict_concat_none {es : List ε} {e : ε} (he : verdict e = none) :
    latestVerdict verdict (es ++ [e]) = latestVerdict verdict es := by
  rw [latestVerdict, List.filterMap_append, List.filterMap_cons_none he, List.filterMap_nil,
    List.append_nil, latestVerdict]

theorem latestVerdict_concat_some {es : List ε} {e : ε} {b : Bool} (he : verdict e = some b) :
    latestVerdict verdict (es ++ [e]) = some b := by
  rw [latestVerdict, List.filterMap_append, List.filterMap_cons_some he, List.filterMap_nil,
    List.getLast?_concat]

/-- The last event decides whether the flag agrees with the latest verdict. -/
theorem latched_iff_latest_concat {es : List ε} {e : ε}
    (ih : Latched verdict es ↔ latestVerdict verdict es = some true) :
    (Latched verdict (es ++ [e]) ↔ latestVerdict verdict (es ++ [e]) = some true) ↔
      (Latched verdict es → verdict e ≠ some false) := by
  rw [latched_concat]
  cases he : verdict e with
  | none =>
    rw [latestVerdict_concat_none verdict he]
    simp [ih]
  | some b =>
    rw [latestVerdict_concat_some verdict he]
    cases b with
    | true => simp
    | false => simp

/-- **A latch against the latest event.**  The two agree after every event exactly
when no event that clears comes after one that sets. -/
theorem latched_iff_latest (es : List ε) :
    (∀ es₁, es₁ <+: es → (Latched verdict es₁ ↔ latestVerdict verdict es₁ = some true)) ↔
      es.Pairwise fun e e' => verdict e = some true → verdict e' ≠ some false := by
  induction es using List.reverseRecOn with
  | nil =>
    refine ⟨fun _ => List.Pairwise.nil, fun _ es₁ hpre => ?_⟩
    rw [List.prefix_nil.mp hpre]
    simp [Latched, latestVerdict]
  | append_singleton es e ih =>
    -- the initial segments of the longer list: those of the shorter one, and all of it
    rw [List.pairwise_append, ← ih]
    constructor
    · intro hall
      have hshort := fun es₁ hpre => hall es₁ (List.prefix_concat_iff.mpr (.inr hpre))
      have hlast := (latched_iff_latest_concat verdict (hshort es (List.prefix_refl es))).mp
        (hall (es ++ [e]) (List.prefix_refl _))
      refine ⟨hshort, List.pairwise_singleton _ e, fun a ha b hb hset => ?_⟩
      rw [List.mem_singleton.mp hb]
      exact hlast ⟨a, ha, hset⟩
    · rintro ⟨hshort, -, hcross⟩ es₁ hpre
      rcases List.prefix_concat_iff.mp hpre with rfl | hpre
      · refine (latched_iff_latest_concat verdict (hshort es (List.prefix_refl es))).mpr ?_
        rintro ⟨a, ha, hset⟩
        exact hcross a ha e (List.mem_singleton_self e) hset
      · exact hshort es₁ hpre

end Latch

/-! ### System events -/

/-- A system event of either venue. -/
inductive VenueEvent
  | bist (msg : Bist.SystemEvent)
  | nasdaq (msg : Nasdaq.SystemEvent)

namespace VenueEvent

def message : VenueEvent → StoreMessage
  | bist msg => .bistItch (.systemEvent msg)
  | nasdaq msg => .nasdaqItch (.systemEvent msg)

/-- Whether an event closes the venue, by the table of its venue; an event of the
other venue says nothing. -/
def closes (v : VenueIndex) : VenueEvent → Option Bool
  | bist msg => if v = 0 then some (decide (msg.eventCode ≠ 79)) else none
  | nasdaq msg =>
    if v = 1 then some (decide (OrderManager.nasdaqEventHalted msg.eventCode = 1)) else none

end VenueEvent

namespace OwnManager

variable {hash : List UInt8 → UInt64} {om om' : OwnManager} {v : VenueIndex}

/-- `update_order` on a system event. -/
def onSystemEvent (hash : List UInt8 → UInt64) (om : OwnManager) (e : VenueEvent) :
    Except Fault OwnManager :=
  update hash om e.message

/-- The flag an event or-s in. -/
def haltFlag (v : VenueIndex) (e : VenueEvent) : UInt8 := if e.closes v = some true then 1 else 0

theorem nasdaqEventHalted_eq (code : UInt8) :
    OrderManager.nasdaqEventHalted code = 0 ∨ OrderManager.nasdaqEventHalted code = 1 := by
  unfold OrderManager.nasdaqEventHalted
  split
  · exact .inr rfl
  · exact .inl rfl

theorem flags_updateVenueHaltStatus (om : OrderManager) (w v : VenueIndex) (halted : UInt8) :
    (om.updateVenueHaltStatus w halted 0).venueFlags v =
      om.venueFlags v ||| if v = w then halted else 0 := by
  rw [OrderManager.updateVenueHaltStatus]
  by_cases hv : v = w
  · subst hv
    simp only [Function.update_self, if_true, UInt8.or_zero]
  · simp only [Function.update_of_ne hv, if_neg hv, UInt8.or_zero]

/-- **One event.**  Nothing of the flags is cleared. -/
theorem flags_onSystemEvent {e : VenueEvent} (h : om.onSystemEvent hash e = .ok om') :
    om'.venueFlags v = om.venueFlags v ||| haltFlag v e := by
  cases e with
  | bist msg =>
    -- every event other than `O` closes, and none is dropped
    have hflags := flags_updateVenueHaltStatus om.toOrderManager 0 v
      (if msg.eventCode = 79 then 0 else 1)
    have heq := Except.ok.inj h
    rw [← heq]
    refine hflags.trans (congrArg _ ?_)
    unfold haltFlag VenueEvent.closes
    by_cases hv : v = 0
    · by_cases hcode : msg.eventCode = 79
      · simp [hv, hcode]
      · simp [hv, hcode]
    · simp [hv]
  | nasdaq msg =>
    obtain ⟨market, hmarket, heq⟩ := map_eq_ok_iff.mp h
    have hflags := flags_updateVenueHaltStatus om.toOrderManager 1 v
      (OrderManager.nasdaqEventHalted msg.eventCode)
    rw [← heq]
    -- the table has 128 entries: the handler returns only for a code inside it
    change (if msg.eventCode < 128 then Except.ok _ else Except.error _) = Except.ok _ at hmarket
    split at hmarket
    · rw [Except.ok.injEq] at hmarket
      rw [← hmarket]
      refine hflags.trans (congrArg _ ?_)
      unfold haltFlag VenueEvent.closes
      by_cases hv : v = 1
      · rcases nasdaqEventHalted_eq msg.eventCode with hcode | hcode
        · simp [hv, hcode]
        · simp [hv, hcode]
      · simp [hv]
    · cases hmarket

/-- **A run of events.**  The flags say whether any event has closed the venue. -/
theorem venueFlags_exec {es : List VenueEvent} (hopen : om.venueFlags v = 0)
    (h : exec (onSystemEvent hash) om es = .ok om') :
    (om'.venueFlags v = 1 ∧ Latched (VenueEvent.closes v) es) ∨
      (om'.venueFlags v = 0 ∧ ¬Latched (VenueEvent.closes v) es) := by
  induction es using List.reverseRecOn generalizing om' with
  | nil =>
    rw [exec_nil, Except.ok.injEq] at h
    exact .inr ⟨h ▸ hopen, fun ⟨e, he, _⟩ => absurd he List.not_mem_nil⟩
  | append_singleton es e ih =>
    obtain ⟨om₁, h₁, h₂⟩ := exec_append_eq_ok_iff.mp h
    obtain ⟨om₂, hstep, hnil⟩ := exec_cons_eq_ok_iff.mp h₂
    rw [exec_nil, Except.ok.injEq] at hnil
    have hflags := flags_onSystemEvent (v := v) (hnil ▸ hstep)
    rw [latched_concat]
    -- only an event that closes can change the flag
    by_cases he : e.closes v = some true
    · rw [haltFlag, if_pos he] at hflags
      refine .inl ⟨?_, .inr he⟩
      rcases ih h₁ with ⟨hset, -⟩ | ⟨hclear, -⟩
      · rw [hflags, hset]
        rfl
      · rw [hflags, hclear]
        rfl
    · rw [haltFlag, if_neg he, UInt8.or_zero] at hflags
      rw [hflags, or_iff_left he]
      exact ih h₁

end OwnManager

/-! ### The halt check -/

/-- `check_venue_halt_and_circuit` rejects every order of the venue as halted exactly
when the latest event has closed the venue. -/
def FollowsLatest (om : OwnManager) (v : VenueIndex) (es : List VenueEvent) : Prop :=
  ∀ symbolmeta, RiskEngine.haltReason om.toOrderManager v symbolmeta = some venueTradingHalted ↔
    latestVerdict (VenueEvent.closes v) es = some true

theorem haltReason_eq_venueTradingHalted {om : OrderManager} {v : VenueIndex} {m : SymbolMeta} :
    RiskEngine.haltReason om v m = some venueTradingHalted ↔ om.venueFlags v = 1 := by
  unfold RiskEngine.haltReason
  split
  · simp [*]
  · rename_i hflag
    split
    · simp [hflag]
    · split
      · simp [hflag]
      · simp [hflag]

/-- **When the halt check follows the latest event.**  Over every run of system events
from open venues it does so after each event exactly when no event opens the venue
after another has closed it. -/
theorem halt_follows_latest_iff (hash : List UInt8 → UInt64) (om om' : OwnManager)
    (v : VenueIndex) (es : List VenueEvent) (hopen : om.venueFlags v = 0)
    (h : exec (OwnManager.onSystemEvent hash) om es = .ok om') :
    (∀ es₁ u, es₁ <+: es → exec (OwnManager.onSystemEvent hash) om es₁ = .ok u →
        FollowsLatest u v es₁) ↔
      es.Pairwise fun e e' => e.closes v = some true → e'.closes v ≠ some false := by
  have hstate : ∀ es₁ u, exec (OwnManager.onSystemEvent hash) om es₁ = .ok u →
      (FollowsLatest u v es₁ ↔ (Latched (VenueEvent.closes v) es₁ ↔
        latestVerdict (VenueEvent.closes v) es₁ = some true)) := by
    intro es₁ u hu
    -- the check reads the venue's flag before the symbol: one symbol speaks for all
    have hsome : Nonempty SymbolMeta := ⟨{ instrumentId := 0 }⟩
    unfold FollowsLatest
    simp only [haltReason_eq_venueTradingHalted, forall_const]
    rcases OwnManager.venueFlags_exec hopen hu with ⟨hset, hlatched⟩ | ⟨hclear, hlatched⟩
    · simp [hset, hlatched]
    · simp [hclear, hlatched]
  rw [← latched_iff_latest]
  constructor
  · intro hall es₁ hpre
    -- an initial segment of a run that returns returns
    obtain ⟨rest, hrest⟩ := hpre
    obtain ⟨u, hu, -⟩ := exec_append_eq_ok_iff.mp (hrest ▸ h)
    exact (hstate es₁ u hu).mp (hall es₁ u ⟨rest, hrest⟩ hu)
  · intro hall es₁ u hpre hu
    exact (hstate es₁ u hu).mpr (hall es₁ hpre)

/-! ### A day that ends closed, and a day that starts -/

/-- BIST opens at `O` and closes at `C`. -/
def openThenClosed : List VenueEvent := [.bist ⟨79⟩, .bist ⟨67⟩]

theorem halt_follows_latest_iff_openThenClosed : ∃ om',
    exec (OwnManager.onSystemEvent fun _ => 0) {} openThenClosed = .ok om' ∧
      ∀ es₁ u, es₁ <+: openThenClosed →
        exec (OwnManager.onSystemEvent fun _ => 0) {} es₁ = .ok u → FollowsLatest u 0 es₁ := by
  refine ⟨_, rfl, ?_⟩
  have hiff := halt_follows_latest_iff (fun _ => 0) {} _ 0 openThenClosed rfl rfl
  refine hiff.mpr ?_
  unfold openThenClosed
  decide

/-- The first three events of a NASDAQ day: start of messages, start of system hours,
start of market hours. -/
def nasdaqMorning : List VenueEvent := [.nasdaq ⟨79⟩, .nasdaq ⟨83⟩, .nasdaq ⟨81⟩]

/-- **NASDAQ never opens.**  The first message of the day closes the venue, and the
two that open it leave the flag set: every order is rejected as halted. -/
theorem opened_venue_halted : ∃ om',
    exec (OwnManager.onSystemEvent fun _ => 0) {} nasdaqMorning = .ok om' ∧
      latestVerdict (VenueEvent.closes 1) nasdaqMorning = some false ∧
      (∀ m, RiskEngine.haltReason om'.toOrderManager 1 m = some venueTradingHalted) ∧
      ¬FollowsLatest om' 1 nasdaqMorning := by
  have hlast : latestVerdict (VenueEvent.closes 1) nasdaqMorning = some false := by decide
  refine ⟨_, rfl, hlast, fun m => ?_, fun hfollows => ?_⟩
  · exact haltReason_eq_venueTradingHalted.mpr rfl
  · have hiff := hfollows { instrumentId := 0 }
    rw [hlast] at hiff
    exact absurd (hiff.mp (haltReason_eq_venueTradingHalted.mpr rfl)) (by decide)

end TradingEngine
