/-
The pool of tick sizes over runs of directory and tick size messages.

Both venues take the cells of one pool, BIST by a counter that goes round in the
lower half, NASDAQ by a counter that starts at the upper half and has no bound.  The
counters advance for every definition, also when an entry of the table is rewritten
or the definition is ignored.

The most recent definitions are recorded in a `TickBook`.  `TicksKept` connects it to
the tables: each table, read through the pool, is the record of its symbol, and no
two tables share a cell.

* `step_kept` — a message keeps this when it takes a cell that no other entry uses and
  its range is known or finds an empty place, and when the five cells of a NASDAQ
  message are inside the pool;
* `ticksHold_of_along` — so over every run of such messages;
* `nasdaq_overrun`, `sixth_range_lost` — runs that leave these conditions.
-/
import TradingEngine.PooledTable
import TradingEngine.TickTable

namespace TradingEngine

open FallibleRun OrderManager PooledTable

/-! ### Messages and their record -/

/-- The messages that define instruments and their tick sizes. -/
inductive TickEvent
  | bistDirectory (msg : Bist.OrderBookDirectory)
  | bistTick (msg : Bist.TickSizeTableEntry)
  | nasdaqDirectory (msg : Nasdaq.StockDirectory)

/-- A symbol: its venue and its number there. -/
abbrev SymbolRef := VenueIndex × UInt32

abbrev TickRange := Int64 × Int64

namespace TickEvent

def step (om : OrderManager) : TickEvent → Except Fault OrderManager
  | .bistDirectory msg => .ok (om.handleInstrumentDefinitionBist msg)
  | .bistTick msg => om.handleTickSizeDefinitionBist msg
  | .nasdaqDirectory msg => om.handleInstrumentDefinitionNasdaq msg

/-- The symbol the message is about. -/
def symbol : TickEvent → SymbolRef
  | .bistDirectory msg => (0, msg.orderBookId)
  | .bistTick msg => (0, msg.orderBookId)
  | .nasdaqDirectory msg => (1, msg.stockLocate.toUInt32)

end TickEvent

/-- The range of an entry and its tick. -/
def TickSizeEntry.row (e : TickSizeEntry) : TickRange × UInt64 :=
  ((e.priceFrom, e.priceTo), e.tickSize)

/-- The most recent definition of each range, for every announced symbol. -/
abbrev TickBook := SymbolRef → Option (TickRange → Option UInt64)

namespace TickBook

def announce (T : TickBook) (s : SymbolRef) : TickBook :=
  Function.update T s (some ((T s).getD fun _ => none))

/-- The definition of one range. -/
def withRange (ticks : TickRange → Option UInt64) (e : TickSizeEntry) : TickRange → Option UInt64 :=
  Function.update ticks e.row.1 (some e.row.2)

def define (s : SymbolRef) (T : TickBook) (e : TickSizeEntry) : TickBook :=
  Function.update T s ((T s).map (withRange · e))

def record (T : TickBook) : TickEvent → TickBook
  | .bistDirectory msg => T.announce (0, msg.orderBookId)
  | .bistTick msg => define (0, msg.orderBookId) T (entryOf msg)
  | .nasdaqDirectory msg => nasdaqTickSizeRanges.foldl (define (1, msg.stockLocate.toUInt32))
      (T.announce (1, msg.stockLocate.toUInt32))

/-- The record of a run. -/
def after (es : List TickEvent) : TickBook := es.foldl record fun _ => none

end TickBook

namespace OrderManager

/-- The table of a symbol, if it is announced. -/
def tableOf (om : OrderManager) (s : SymbolRef) : Option (Fin 5 → Option TickSlot) :=
  (om.getSymbolmeta s.1 s.2).map SymbolMeta.tickSizeTable

/-- The pool, as ranges with ticks. -/
def rows (om : OrderManager) (t : TickSlot) : TickRange × UInt64 := (om.tickSizeEntryPool t).row

/-- A range and its tick are seen through the table of the symbol. -/
def SeesTick (om : OrderManager) (s : SymbolRef) (r : TickRange) (tick : UInt64) : Prop :=
  ∃ table, om.tableOf s = some table ∧ Shows om.rows table r tick

end OrderManager

/-- Every announced symbol is seen with its most recent definitions, and no other is. -/
def Reflects (om : OrderManager) (T : TickBook) : Prop :=
  ∀ s, (om.tableOf s).isSome = (T s).isSome ∧
    ∀ r tick, om.SeesTick s r tick ↔ ∃ ticks, T s = some ticks ∧ ticks r = some tick

/-- The tick tables over a run: the pool is indexed inside its bounds, every symbol is
seen with its most recent definitions, and a message changes nothing that is seen
through the table of another symbol. -/
structure TicksHold (es : List TickEvent) : Prop where
  inBounds : ∀ pre, pre <+: es → exec TickEvent.step {} pre ≠ .error .outOfBounds
  reflects : ∀ pre om, pre <+: es → exec TickEvent.step {} pre = .ok om →
    Reflects om (TickBook.after pre)
  isolated : ∀ pre e om om', pre ++ [e] <+: es → exec TickEvent.step {} pre = .ok om →
    e.step om = .ok om' → ∀ s, s ≠ e.symbol → ∀ r tick,
      om'.SeesTick s r tick ↔ om.SeesTick s r tick

/-- The cell that the next BIST message takes is in use at most for the range of the
message itself, whose table has the range or an empty place. -/
def BistFits (om : OrderManager) (msg : Bist.TickSizeTableEntry) : Prop :=
  ∀ table, om.tableOf (0, msg.orderBookId) = some table →
    (∀ s table' i, om.tableOf s = some table' →
      table' i = some (tickSlot om.tickSizeBistNextSlot) →
      s = (0, msg.orderBookId) ∧
        (om.rows (tickSlot om.tickSizeBistNextSlot)).1 = (entryOf msg).row.1) ∧
    ((∃ i, table i = none) ∨ ∃ i t, table i = some t ∧ (om.rows t).1 = (entryOf msg).row.1)

/-- The condition on a message, in the state before it. -/
def TickFits (om : OrderManager) : TickEvent → Prop
  | .bistDirectory _ => True
  | .bistTick msg => BistFits om msg
  | .nasdaqDirectory _ => om.tickSizeNasdaqNextSlot + nasdaqTickSizeRanges.length ≤ 65536

/-! ### The invariant -/

/-- The half of the pool that the venue takes its cells from, as far as it is taken. -/
def InHalf (next : ℕ) (s : SymbolRef) (t : TickSlot) : Prop :=
  if s.1 = 0 then t.val < 32768 else 32768 ≤ t.val ∧ t.val < next

/-- Every table is the record of its symbol, in cells of its own. -/
structure TicksKept (om : OrderManager) (T : TickBook) : Prop where
  known : ∀ s, (om.tableOf s).isSome = (T s).isSome
  fits : ∀ s table ticks, om.tableOf s = some table → T s = some ticks →
    Fits om.rows table ticks
  apart : ∀ s s' table table' i i' t, om.tableOf s = some table → om.tableOf s' = some table' →
    table i = some t → table' i' = some t → s = s'
  half : ∀ s table i t, om.tableOf s = some table → table i = some t →
    InHalf om.tickSizeNasdaqNextSlot s t
  above : 32768 ≤ om.tickSizeNasdaqNextSlot

/-- NASDAQ symbols have their five ranges. -/
def NasdaqFull (om : OrderManager) (T : TickBook) : Prop :=
  ∀ id table, om.tableOf (1, id) = some table → (∀ i, table i ≠ none) ∧
    ∃ ticks, T (1, id) = some ticks ∧ ∀ e ∈ nasdaqTickSizeRanges, ticks e.row.1 = some e.row.2

variable {om om' : OrderManager} {T : TickBook} {s : SymbolRef}

theorem TicksKept.reflects (h : TicksKept om T) : Reflects om T := by
  intro s
  refine ⟨h.known s, fun r tick => ?_⟩
  constructor
  · rintro ⟨table, htable, hshows⟩
    have hsome : (T s).isSome := by rw [← h.known s, htable]; rfl
    obtain ⟨ticks, hticks⟩ := Option.isSome_iff_exists.mp hsome
    exact ⟨ticks, hticks, ((h.fits s table ticks htable hticks).shows r tick).mpr hshows⟩
  · rintro ⟨ticks, hticks, hr⟩
    have hsome : (om.tableOf s).isSome := by rw [h.known s, hticks]; rfl
    obtain ⟨table, htable⟩ := Option.isSome_iff_exists.mp hsome
    exact ⟨table, htable, ((h.fits s table ticks htable hticks).shows r tick).mp hr⟩

theorem InHalf.mono {next next' : ℕ} {t : TickSlot} (h : InHalf next s t) (hle : next ≤ next') :
    InHalf next' s t := by
  unfold InHalf at h ⊢
  by_cases hs : s.1 = 0
  · rw [if_pos hs] at h ⊢
    exact h
  · rw [if_neg hs] at h ⊢
    exact ⟨h.1, by omega⟩

/-- The table and the record of one symbol change; the others keep their cells. -/
theorem TicksKept.change (h : TicksKept om T) {table' : Fin 5 → Option TickSlot}
    {ticks' : TickRange → Option UInt64}
    (htables : om'.tableOf = Function.update om.tableOf s (some table'))
    (hnext : om.tickSizeNasdaqNextSlot ≤ om'.tickSizeNasdaqNextSlot)
    (hother : ∀ s' table i t, s' ≠ s → om.tableOf s' = some table → table i = some t →
      om'.rows t = om.rows t ∧ ∀ j, table' j ≠ some t)
    (hfits : Fits om'.rows table' ticks')
    (hhalf : ∀ i t, table' i = some t → InHalf om'.tickSizeNasdaqNextSlot s t) :
    TicksKept om' (Function.update T s (some ticks')) := by
  have hself : ∀ table, om'.tableOf s = some table → table = table' := by
    intro table ht
    rw [htables, Function.update_self] at ht
    exact (Option.some.inj ht).symm
  have hne : ∀ s' table, s' ≠ s → om'.tableOf s' = some table → om.tableOf s' = some table := by
    intro s' table hs ht
    rwa [htables, Function.update_of_ne hs] at ht
  -- in each field the symbol is the changed one or keeps its table
  refine ⟨fun s' => ?_, fun s' table ticks ht hT => ?_, fun s₁ s₂ t₁ t₂ i j t h₁ h₂ hi hj => ?_,
    fun s' table i t ht hi => ?_, h.above.trans hnext⟩
  · by_cases hs : s' = s
    · subst hs
      rw [htables, Function.update_self, Function.update_self]
      rfl
    · rw [htables, Function.update_of_ne hs, Function.update_of_ne hs]
      exact h.known s'
  · by_cases hs : s' = s
    · subst hs
      rw [Function.update_self] at hT
      rw [hself table ht, ← Option.some.inj hT]
      exact hfits
    · rw [Function.update_of_ne hs] at hT
      exact (h.fits s' table ticks (hne s' table hs ht) hT).congr fun i t hi =>
        (hother s' table i t hs (hne s' table hs ht) hi).1
  · by_cases hs₁ : s₁ = s
    · by_cases hs₂ : s₂ = s
      · rw [hs₁, hs₂]
      · subst hs₁
        rw [hself t₁ h₁] at hi
        exact absurd hi ((hother s₂ t₂ j t hs₂ (hne s₂ t₂ hs₂ h₂) hj).2 i)
    · by_cases hs₂ : s₂ = s
      · subst hs₂
        rw [hself t₂ h₂] at hj
        exact absurd hj ((hother s₁ t₁ i t hs₁ (hne s₁ t₁ hs₁ h₁) hi).2 j)
      · exact h.apart s₁ s₂ t₁ t₂ i j t (hne s₁ t₁ hs₁ h₁) (hne s₂ t₂ hs₂ h₂) hi hj
  · by_cases hs : s' = s
    · subst hs
      rw [hself table ht] at hi
      exact hhalf i t hi
    · exact (h.half s' table i t (hne s' table hs ht) hi).mono hnext

/-! ### What the messages do to tables and pool -/

theorem tableOf_setSymbolmeta (om : OrderManager) (v : VenueIndex) (id : UInt32) (m : SymbolMeta) :
    (om.setSymbolmeta v id m).tableOf = Function.update om.tableOf (v, id) (some m.tickSizeTable) := by
  funext ⟨v', id'⟩
  by_cases hs : (v', id') = (v, id)
  · obtain ⟨rfl, rfl⟩ := Prod.mk.inj hs
    rw [Function.update_self, tableOf, getSymbolmeta_setSymbolmeta_self]
    rfl
  · rw [Function.update_of_ne hs, tableOf, tableOf]
    by_cases hv : v' = v
    · subst hv
      have hid : id' ≠ id := fun hc => hs (by rw [hc])
      rw [getSymbolmeta_setSymbolmeta_of_ne om v' m hid]
    · show Option.map _ ((Function.update om.instrumentCache v _ v').lookup id') = _
      rw [Function.update_of_ne hv]
      rfl

theorem tableOf_emplaceSymbolmeta (om : OrderManager) (v : VenueIndex) (m : SymbolMeta) :
    (om.emplaceSymbolmeta v m).tableOf = Function.update om.tableOf (v, m.instrumentId)
      (some ((om.tableOf (v, m.instrumentId)).getD m.tickSizeTable)) := by
  by_cases hmem : m.instrumentId ∈ om.instrumentCache v
  · obtain ⟨m₀, hm₀⟩ := Finmap.mem_iff.mp hmem
    have hsame : om.emplaceSymbolmeta v m = om := by
      rw [emplaceSymbolmeta, HashMap.emplace, if_pos hmem, Function.update_eq_self]
    have hlook : om.tableOf (v, m.instrumentId) = some m₀.tickSizeTable := by
      show Option.map _ ((om.instrumentCache v).lookup m.instrumentId) = _
      rw [hm₀]
      rfl
    rw [hsame, hlook]
    show _ = Function.update om.tableOf _ (some m₀.tickSizeTable)
    rw [← hlook, Function.update_eq_self]
  · have hset : om.emplaceSymbolmeta v m = om.setSymbolmeta v m.instrumentId m := by
      rw [emplaceSymbolmeta, HashMap.emplace, if_neg hmem]
      rfl
    have hlook : om.tableOf (v, m.instrumentId) = none := by
      show Option.map _ ((om.instrumentCache v).lookup m.instrumentId) = _
      rw [Finmap.lookup_eq_none.mpr hmem]
      rfl
    rw [hset, tableOf_setSymbolmeta, hlook]
    rfl

theorem rows_setTickSizeEntry (om : OrderManager) (t : TickSlot) (e : TickSizeEntry) :
    (om.setTickSizeEntry t e).rows = Function.update om.rows t e.row := by
  funext u
  show (Function.update om.tickSizeEntryPool t e u).row = _
  by_cases hu : u = t
  · rw [hu, Function.update_self, Function.update_self]
  · rw [Function.update_of_ne hu, Function.update_of_ne hu]
    rfl

/-- An instrument is entered with an empty table, unless it is known. -/
theorem TicksKept.announce (h : TicksKept om T)
    (htables : om'.tableOf = Function.update om.tableOf s
      (some ((om.tableOf s).getD fun _ => none)))
    (hrows : om'.rows = om.rows)
    (hnext : om'.tickSizeNasdaqNextSlot = om.tickSizeNasdaqNextSlot) :
    TicksKept om' (T.announce s) := by
  refine h.change htables hnext.ge (fun s' table i t hs ht hi => ?_) ?_ fun i t hi => ?_
  · refine ⟨by rw [hrows], fun j hj => ?_⟩
    -- an empty table has no cells, a known one keeps them
    cases hown : om.tableOf s with
    | none =>
      rw [hown] at hj
      cases hj
    | some own =>
      rw [hown] at hj
      exact hs (h.apart s' s table own i j t ht hown hi hj)
  · rw [hrows]
    have hknown := h.known s
    cases hown : om.tableOf s with
    | none =>
      have hnone : T s = none := by
        rw [hown] at hknown
        exact Option.not_isSome_iff_eq_none.mp (by rw [← hknown]; exact Bool.false_ne_true)
      rw [hnone]
      exact fits_empty _
    | some own =>
      rw [hown] at hknown
      obtain ⟨ticks, hticks⟩ := Option.isSome_iff_exists.mp hknown.symm
      rw [hticks]
      exact h.fits s own ticks hown hticks
  · rw [hnext]
    cases hown : om.tableOf s with
    | none =>
      rw [hown] at hi
      cases hi
    | some own =>
      rw [hown] at hi
      exact h.half s own i t hown hi

/-- An entry of the same range is rewritten, behind entries of other ranges. -/
theorem enterTickSizeBist_same {id : UInt32} {m : SymbolMeta} {new old : TickSlot}
    {entry : TickSizeEntry} {before rest : List (Fin 5)} {i : Fin 5}
    (hbefore : ∀ j ∈ before, ∃ u, m.tickSizeTable j = some u ∧ (om.rows u).1 ≠ entry.row.1)
    (hold : m.tickSizeTable i = some old) (hsame : (om.rows old).1 = entry.row.1) :
    om.enterTickSizeBist id m new entry (before ++ i :: rest) = om.setTickSizeEntry old entry := by
  induction before with
  | nil =>
    rw [List.nil_append, enterTickSizeBist, hold]
    exact if_pos (Prod.mk.inj hsame)
  | cons j before ih =>
    obtain ⟨u, hu, hother⟩ := hbefore j List.mem_cons_self
    rw [List.cons_append, enterTickSizeBist, hu]
    refine (if_neg fun hc => hother ?_).trans
      (ih fun j' hj' => hbefore j' (List.mem_cons_of_mem j hj'))
    exact Prod.mk.injEq _ _ _ _ ▸ hc

theorem mem_take_finRange {i j : Fin 5} (h : j ∈ (List.finRange 5).take i.val) : j < i := by
  obtain ⟨k, hk, hkj⟩ := List.mem_take_iff_getElem.mp h
  rw [List.getElem_finRange] at hkj
  have hval : k = j.val := congrArg Fin.val hkj
  exact Fin.lt_def.mpr (by omega)

/-- The first empty place of a table that has one. -/
theorem exists_first_empty {table : Fin 5 → Option TickSlot} (h : ∃ i, table i = none) :
    ∃ i, table i = none ∧ ∀ j < i, table j ≠ none := by
  obtain ⟨i, hi, hmin⟩ := WellFounded.has_min (wellFounded_lt (α := Fin 5)) {i | table i = none} h
  exact ⟨i, hi, fun j hj hc => hmin j hc hj⟩

/-- The range is known: its entry is rewritten, whichever cell was written before. -/
theorem TicksKept.rewritten {id : UInt32} {m : SymbolMeta} {e : TickSizeEntry} {new : TickSlot}
    {ticks : TickRange → Option UInt64} {tick : UInt64} {om₁ : OrderManager}
    (h : TicksKept om T) (htable : om.tableOf (0, id) = some m.tickSizeTable)
    (hticks : T (0, id) = some ticks) (hrange : ticks e.row.1 = some tick)
    (hfree : ∀ s table i, om.tableOf s = some table → table i = some new →
      s = (0, id) ∧ (om.rows new).1 = e.row.1)
    (htables : om₁.tableOf = om.tableOf) (hrows : om₁.rows = Function.update om.rows new e.row)
    (hnext : om₁.tickSizeNasdaqNextSlot = om.tickSizeNasdaqNextSlot) :
    TicksKept (om₁.enterTickSizeBist id m new e (List.finRange 5))
      (Function.update T (0, id) (some (Function.update ticks e.row.1 (some e.row.2)))) := by
  have hown := h.fits _ _ ticks htable hticks
  obtain ⟨i, old, hold, hrow, hbefore⟩ := hown.find hrange
  -- in this table only the entry of the range can use the new cell
  have hnew : ∀ j u, m.tickSizeTable j = some u → j ≠ i → u ≠ new := by
    rintro j u hu hj rfl
    exact hj (hown.one j i u old hu hold (by rw [(hfree _ _ j htable hu).2, hrow]))
  have hkept : ∀ j u, m.tickSizeTable j = some u → j ≠ i → om₁.rows u = om.rows u := by
    intro j u hu hj
    rw [hrows, Function.update_of_ne (hnew j u hu hj)]
  have hkey : (om₁.rows old).1 = e.row.1 := by
    rw [hrows]
    by_cases hc : old = new
    · rw [hc, Function.update_self]
    · rw [Function.update_of_ne hc, hrow]
  have hscan : om₁.enterTickSizeBist id m new e (List.finRange 5) = om₁.setTickSizeEntry old e := by
    rw [finRange_split i.isLt]
    refine enterTickSizeBist_same (fun j hj => ?_) hold hkey
    obtain ⟨u, hu, hne⟩ := hbefore j (mem_take_finRange hj)
    exact ⟨u, hu, by rw [hkept j u hu (mem_take_finRange hj).ne]; exact hne⟩
  have hpool : (om₁.setTickSizeEntry old e).rows
      = Function.update (Function.update om.rows new e.row) old e.row := by
    rw [rows_setTickSizeEntry, hrows]
  rw [hscan]
  have hsame : (om₁.setTickSizeEntry old e).tableOf
      = Function.update om.tableOf (0, id) (some m.tickSizeTable) := by
    rw [← htable, Function.update_eq_self]
    exact htables
  refine h.change hsame hnext.ge (fun s table j t hs ht hj => ?_) ?_ fun j t hj => ?_
  · have hapart : ∀ k, m.tickSizeTable k ≠ some t := fun k hk =>
      hs (h.apart _ _ _ _ j k t ht htable hj hk)
    refine ⟨?_, hapart⟩
    rw [hpool, Function.update_of_ne, Function.update_of_ne]
    · rintro rfl
      exact hs (hfree s table j ht hj).1
    · rintro rfl
      exact hapart i hold
  · have hone : ∀ j u, m.tickSizeTable j = some u → j ≠ i → u ≠ old := by
      rintro j u hu hj rfl
      exact hj (hown.one j i u u hu hold rfl)
    have hnewrow : ((om.rows old).1, e.row.2) = e.row := by rw [hrow]
    have hfits := hown.rewrite hold hone e.row.2
    rw [hnewrow, hrow] at hfits
    refine hfits.congr fun j u hu => ?_
    rw [hpool]
    by_cases hc : u = old
    · rw [hc, Function.update_self, Function.update_self]
    · have hj : j ≠ i := by
        rintro rfl
        exact hc (Option.some.inj (hu.symm.trans hold))
      rw [Function.update_of_ne hc, Function.update_of_ne hc,
        Function.update_of_ne (hnew j u hu hj)]
  · exact (h.half _ _ j t htable hj).mono hnext.ge

/-- A range of its own takes the first empty place and a cell that is not in use. -/
theorem TicksKept.placed {v : VenueIndex} {id : UInt32} {m : SymbolMeta} {e : TickSizeEntry}
    {new : TickSlot} {i : Fin 5} {ticks : TickRange → Option UInt64} (h : TicksKept om T)
    (htable : om.tableOf (v, id) = some m.tickSizeTable) (hticks : T (v, id) = some ticks)
    (hrange : ticks e.row.1 = none) (hempty : m.tickSizeTable i = none)
    (hbefore : ∀ j < i, m.tickSizeTable j ≠ none)
    (hfree : ∀ s table i, om.tableOf s = some table → table i ≠ some new)
    (htables : om'.tableOf = Function.update om.tableOf (v, id)
      (some (Function.update m.tickSizeTable i (some new))))
    (hrows : om'.rows = Function.update om.rows new e.row)
    (hnext : om.tickSizeNasdaqNextSlot ≤ om'.tickSizeNasdaqNextSlot)
    (hhalf : InHalf om'.tickSizeNasdaqNextSlot (v, id) new) :
    TicksKept om'
      (Function.update T (v, id) (some (Function.update ticks e.row.1 (some e.row.2)))) := by
  have hown := h.fits _ _ ticks htable hticks
  refine h.change htables hnext (fun s table j t hs ht hj => ⟨?_, fun k hk => ?_⟩) ?_
    fun j t hj => ?_
  · rw [hrows, Function.update_of_ne]
    rintro rfl
    exact hfree s table j ht hj
  · by_cases hki : k = i
    · rw [hki, Function.update_self] at hk
      exact hfree s table j ht (hj.trans hk.symm)
    · rw [Function.update_of_ne hki] at hk
      exact hs (h.apart _ _ _ _ j k t ht htable hj hk)
  · rw [hrows]
    exact hown.place hempty hbefore (fun j => hfree _ _ j htable) hrange e.row.2
  · by_cases hji : j = i
    · rw [hji, Function.update_self] at hj
      exact Option.some.inj hj ▸ hhalf
    · rw [Function.update_of_ne hji] at hj
      exact (h.half _ _ j t htable hj).mono hnext

theorem TicksKept.bistTick {msg : Bist.TickSizeTableEntry} (h : TicksKept om T)
    (hfits : BistFits om msg) (hstep : om.handleTickSizeDefinitionBist msg = .ok om') :
    TicksKept om' (T.record (.bistTick msg)) := by
  obtain ⟨m, hm, rfl⟩ := handleTickSizeDefinitionBist_eq_ok hstep
  have htable : om.tableOf (0, msg.orderBookId) = some m.tickSizeTable := by
    rw [tableOf, hm]
    rfl
  have hknown := h.known (0, msg.orderBookId)
  rw [htable] at hknown
  obtain ⟨ticks, hticks⟩ := Option.isSome_iff_exists.mp hknown.symm
  have hown := h.fits _ _ ticks htable hticks
  obtain ⟨hfree, hroom⟩ := hfits _ htable
  have hrows : (written om (entryOf msg)).rows
      = Function.update om.rows (tickSlot om.tickSizeBistNextSlot) (entryOf msg).row :=
    rows_setTickSizeEntry om _ _
  have hrecord : T.record (.bistTick msg) = Function.update T (0, msg.orderBookId)
      (some (Function.update ticks (entryOf msg).row.1 (some (entryOf msg).row.2))) := by
    show TickBook.define (0, msg.orderBookId) T (entryOf msg) = _
    rw [TickBook.define, hticks]
    rfl
  rw [hrecord]
  cases hrange : ticks (entryOf msg).row.1 with
  | some tick => exact h.rewritten htable hticks hrange hfree rfl hrows rfl
  | none =>
    have hunused : ∀ s table i, om.tableOf s = some table →
        table i ≠ some (tickSlot om.tickSizeBistNextSlot) := by
      intro s table i ht hi
      obtain ⟨rfl, hkey⟩ := hfree s table i ht hi
      rw [htable] at ht
      exact hown.key_ne hrange (Option.some.inj ht ▸ hi) hkey
    have hsome : ∃ i, m.tickSizeTable i = none := by
      obtain hsome | ⟨i, t, ht, hkey⟩ := hroom
      · exact hsome
      · exact absurd hkey (hown.key_ne hrange ht)
    obtain ⟨i, hempty, hbefore⟩ := exists_first_empty hsome
    have hscan : (written om (entryOf msg)).enterTickSizeBist msg.orderBookId m
        (tickSlot om.tickSizeBistNextSlot) (entryOf msg) (List.finRange 5)
          = (written om (entryOf msg)).setSymbolmeta 0 msg.orderBookId { m with
              tickSizeTable := Function.update m.tickSizeTable i
                (some (tickSlot om.tickSizeBistNextSlot)) } := by
      rw [finRange_split i.isLt]
      refine enterTickSizeBist_at (fun j hj => ?_) hempty
      obtain ⟨u, hu⟩ := Option.ne_none_iff_exists'.mp (hbefore j (mem_take_finRange hj))
      refine ⟨u, hu, fun hc => hown.key_ne hrange hu ?_⟩
      have hne : u ≠ tickSlot om.tickSizeBistNextSlot := by
        rintro rfl
        exact hunused _ _ j htable hu
      have hkept : (written om (entryOf msg)).rows u = om.rows u := by
        rw [hrows, Function.update_of_ne hne]
      rw [← hkept]
      exact Prod.ext hc.1 hc.2
    rw [hscan]
    refine h.placed htable hticks hrange hempty hbefore hunused ?_ hrows le_rfl ?_
    · exact tableOf_setSymbolmeta (written om (entryOf msg)) 0 msg.orderBookId _
    · exact (if_pos rfl).mpr (Nat.mod_lt _ (by decide))

/-! ### NASDAQ -/

/-- One definition of a NASDAQ symbol, by the first empty place of its table. -/
theorem handleTickSizeDefinitionNasdaq_empty {id : UInt32} {m : SymbolMeta} {e : TickSizeEntry}
    {i : Fin 5} (hroom : om.tickSizeNasdaqNextSlot < 65536) (hm : om.getSymbolmeta 1 id = some m)
    (hempty : m.tickSizeTable i = none) (hbefore : ∀ j < i, m.tickSizeTable j ≠ none) :
    ∃ om', om.handleTickSizeDefinitionNasdaq id e = .ok om' ∧
      om'.tableOf = Function.update om.tableOf (1, id) (some (Function.update m.tickSizeTable i
        (some ⟨om.tickSizeNasdaqNextSlot, hroom⟩))) ∧
      om'.rows = Function.update om.rows ⟨om.tickSizeNasdaqNextSlot, hroom⟩ e.row ∧
      om'.tickSizeNasdaqNextSlot = om.tickSizeNasdaqNextSlot + 1 := by
  have hfind : ((List.finRange 5).find? fun j => (m.tickSizeTable j).isNone) = some i := by
    rw [finRange_split i.isLt, List.find?_append, List.find?_eq_none.mpr, List.find?_cons_of_pos]
    · rfl
    · rw [hempty]
      rfl
    · intro j hj
      rw [Option.isNone_iff_eq_none]
      exact hbefore j (mem_take_finRange hj)
  refine ⟨_, ?_, tableOf_setSymbolmeta { om.setTickSizeEntry ⟨om.tickSizeNasdaqNextSlot, hroom⟩ e
    with tickSizeNasdaqNextSlot := om.tickSizeNasdaqNextSlot + 1 } 1 id { m with
      tickSizeTable := Function.update m.tickSizeTable i
        (some ⟨om.tickSizeNasdaqNextSlot, hroom⟩) }, rows_setTickSizeEntry om _ e, rfl⟩
  unfold handleTickSizeDefinitionNasdaq
  rw [dif_pos hroom]
  have hm' : ({ om.setTickSizeEntry ⟨om.tickSizeNasdaqNextSlot, hroom⟩ e with
      tickSizeNasdaqNextSlot := om.tickSizeNasdaqNextSlot + 1 } : OrderManager).getSymbolmeta 1 id
        = some m := hm
  dsimp only
  rw [hm']
  dsimp only
  rw [hfind]

theorem handleTickSizeDefinitionNasdaq_full {id : UInt32} {m : SymbolMeta} (e : TickSizeEntry)
    (hroom : om.tickSizeNasdaqNextSlot < 65536) (hm : om.getSymbolmeta 1 id = some m)
    (hfull : ∀ i, m.tickSizeTable i ≠ none) :
    om.handleTickSizeDefinitionNasdaq id e
      = .ok { om.setTickSizeEntry ⟨om.tickSizeNasdaqNextSlot, hroom⟩ e with
          tickSizeNasdaqNextSlot := om.tickSizeNasdaqNextSlot + 1 } := by
  have hfind : ((List.finRange 5).find? fun j => (m.tickSizeTable j).isNone) = none := by
    rw [List.find?_eq_none]
    intro j _
    rw [Option.isNone_iff_eq_none]
    exact hfull j
  unfold handleTickSizeDefinitionNasdaq
  rw [dif_pos hroom]
  have hm' : ({ om.setTickSizeEntry ⟨om.tickSizeNasdaqNextSlot, hroom⟩ e with
      tickSizeNasdaqNextSlot := om.tickSizeNasdaqNextSlot + 1 } : OrderManager).getSymbolmeta 1 id
        = some m := hm
  dsimp only
  rw [hm']
  dsimp only
  rw [hfind]

theorem exists_meta {v : VenueIndex} {id : UInt32} {table : Fin 5 → Option TickSlot}
    (h : om.tableOf (v, id) = some table) :
    ∃ m, om.getSymbolmeta v id = some m ∧ m.tickSizeTable = table :=
  Option.map_eq_some_iff.mp h

theorem tableOf_of_meta {v : VenueIndex} {id : UInt32} {m : SymbolMeta}
    (h : om.getSymbolmeta v id = some m) : om.tableOf (v, id) = some m.tickSizeTable := by
  rw [tableOf, h]
  rfl

/-- The cell behind the counter of NASDAQ is in no table. -/
theorem TicksKept.nasdaq_free (h : TicksKept om T) {t : TickSlot}
    (ht : t.val = om.tickSizeNasdaqNextSlot) (s : SymbolRef) (table : Fin 5 → Option TickSlot)
    (i : Fin 5) (htable : om.tableOf s = some table) : table i ≠ some t := by
  intro hi
  have hhalf := h.half s table i t htable hi
  have habove := h.above
  unfold InHalf at hhalf
  by_cases hs : s.1 = 0
  · rw [if_pos hs] at hhalf
    omega
  · rw [if_neg hs] at hhalf
    omega

namespace TickBook

theorem define_eq {ticks : TickRange → Option UInt64} (e : TickSizeEntry) (hT : T s = some ticks) :
    define s T e = Function.update T s (some (withRange ticks e)) := by
  rw [define, hT]
  rfl

/-- The definitions of one symbol, one after the other. -/
theorem foldl_define (entries : List TickSizeEntry) {ticks : TickRange → Option UInt64}
    (hT : T s = some ticks) :
    entries.foldl (define s) T = Function.update T s (some (entries.foldl withRange ticks)) := by
  induction entries generalizing T ticks with
  | nil =>
    rw [List.foldl_nil, List.foldl_nil, ← hT, Function.update_eq_self]
  | cons e entries ih =>
    rw [List.foldl_cons, List.foldl_cons, define_eq e hT, ih (Function.update_self _ _ _),
      Function.update_idem]

/-- Definitions that say nothing new. -/
theorem foldl_define_known (entries : List TickSizeEntry) {ticks : TickRange → Option UInt64}
    (hT : T s = some ticks) (h : ∀ e ∈ entries, ticks e.row.1 = some e.row.2) :
    entries.foldl (define s) T = T := by
  induction entries with
  | nil => rfl
  | cons e entries ih =>
    have hsame : define s T e = T := by
      rw [define_eq e hT, withRange, ← h e List.mem_cons_self, Function.update_eq_self, ← hT,
        Function.update_eq_self]
    rw [List.foldl_cons, hsame]
    exact ih fun e' he' => h e' (List.mem_cons_of_mem _ he')

/-- Other symbols have the same record before and after a message. -/
theorem record_of_ne {e : TickEvent} (hs : s ≠ e.symbol) : T.record e s = T s := by
  cases e with
  | bistDirectory msg =>
    have hne : s ≠ (0, msg.orderBookId) := hs
    rw [record, announce, Function.update_of_ne hne]
  | bistTick msg =>
    have hne : s ≠ (0, msg.orderBookId) := hs
    rw [record, define, Function.update_of_ne hne]
  | nasdaqDirectory msg =>
    have hne : s ≠ (1, msg.stockLocate.toUInt32) := hs
    have hsome : ∃ ticks, T.announce (1, msg.stockLocate.toUInt32) (1, msg.stockLocate.toUInt32)
        = some ticks := ⟨_, Function.update_self _ _ _⟩
    obtain ⟨ticks, hticks⟩ := hsome
    rw [record, foldl_define nasdaqTickSizeRanges hticks, Function.update_of_ne hne, announce,
      Function.update_of_ne hne]

end TickBook

/-- New ranges of a symbol whose first `k` places are filled. -/
theorem TicksKept.newRanges {id : UInt32} (rest : List TickSizeEntry) {k : ℕ} {m : SymbolMeta}
    {ticks : TickRange → Option UInt64} (h : TicksKept om T)
    (hm : om.getSymbolmeta 1 id = some m) (hfilled : ∀ j, m.tickSizeTable j = none ↔ k ≤ j.val)
    (hticks : T (1, id) = some ticks) (hnew : ∀ e ∈ rest, ticks e.row.1 = none)
    (hapart : rest.Pairwise fun a b => b.row.1 ≠ a.row.1) (hplaces : k + rest.length ≤ 5)
    (hroom : om.tickSizeNasdaqNextSlot + rest.length ≤ 65536) :
    ∃ om', rest.foldlM (fun om e => om.handleTickSizeDefinitionNasdaq id e) om = .ok om' ∧
      TicksKept om' (rest.foldl (TickBook.define (1, id)) T) ∧
      om'.tickSizeNasdaqNextSlot = om.tickSizeNasdaqNextSlot + rest.length ∧
      (∀ s ≠ (1, id), om'.tableOf s = om.tableOf s) ∧
      ∃ table, om'.tableOf (1, id) = some table ∧ ∀ j, table j = none ↔ k + rest.length ≤ j.val := by
  induction rest generalizing om T k m ticks with
  | nil => exact ⟨om, rfl, h, rfl, fun _ _ => rfl, _, tableOf_of_meta hm, hfilled⟩
  | cons e rest ih =>
    rw [List.length_cons] at hplaces hroom
    have hk : k < 5 := by omega
    have hcell : om.tickSizeNasdaqNextSlot < 65536 := by omega
    have hempty : m.tickSizeTable ⟨k, hk⟩ = none := (hfilled _).mpr (le_refl k)
    have hbefore : ∀ j < (⟨k, hk⟩ : Fin 5), m.tickSizeTable j ≠ none := fun j hj hc =>
      absurd ((hfilled j).mp hc) (Nat.not_le.mpr (Fin.lt_def.mp hj))
    obtain ⟨om₁, hstep, htables, hrows, hnext⟩ :=
      handleTickSizeDefinitionNasdaq_empty (e := e) hcell hm hempty hbefore
    have hkept : TicksKept om₁ (TickBook.define (1, id) T e) := by
      rw [TickBook.define_eq e hticks]
      refine h.placed (tableOf_of_meta hm) hticks (hnew e List.mem_cons_self) hempty hbefore
        (h.nasdaq_free rfl) htables hrows (by omega) ?_
      show InHalf _ _ _
      rw [InHalf, if_neg (show ¬ (1 : VenueIndex) = 0 by decide), hnext]
      exact ⟨h.above, Nat.lt_succ_self _⟩
    obtain ⟨m₁, hm₁, hmtable⟩ := exists_meta
      (htables ▸ Function.update_self (1, id) _ om.tableOf)
    have hfilled₁ : ∀ j, m₁.tickSizeTable j = none ↔ k + 1 ≤ j.val := by
      intro j
      rw [hmtable]
      by_cases hj : j = ⟨k, hk⟩
      · rw [hj, Function.update_self]
        exact iff_of_false (fun hc => by cases hc) (Nat.not_succ_le_self k)
      · rw [Function.update_of_ne hj, hfilled]
        have hval : j.val ≠ k := fun hc => hj (Fin.ext hc)
        omega
    have hticks₁ : TickBook.define (1, id) T e (1, id)
        = some (TickBook.withRange ticks e) := by
      rw [TickBook.define_eq e hticks, Function.update_self]
    obtain ⟨hfirst, hlater⟩ := List.pairwise_cons.mp hapart
    obtain ⟨om₂, hrun, hkept₂, hnext₂, hother₂, table, htable₂, hfilled₂⟩ := ih hkept hm₁ hfilled₁
      hticks₁ (fun e' he' => by
        rw [TickBook.withRange, Function.update_of_ne (hfirst e' he')]
        exact hnew e' (List.mem_cons_of_mem _ he')) hlater (by omega) (by omega)
    refine ⟨om₂, ?_, hkept₂, by rw [hnext₂, hnext, List.length_cons]; omega, fun s hs => ?_,
      table, htable₂, fun j => ?_⟩
    · rw [List.foldlM_cons, hstep]
      exact hrun
    · rw [hother₂ s hs, htables, Function.update_of_ne hs]
    · rw [hfilled₂, List.length_cons]
      omega

/-- Definitions of a symbol with a full table use cells and are ignored. -/
theorem TicksKept.ignored {id : UInt32} (rest : List TickSizeEntry) {m : SymbolMeta}
    (h : TicksKept om T) (hm : om.getSymbolmeta 1 id = some m)
    (hfull : ∀ i, m.tickSizeTable i ≠ none)
    (hroom : om.tickSizeNasdaqNextSlot + rest.length ≤ 65536) :
    ∃ om', rest.foldlM (fun om e => om.handleTickSizeDefinitionNasdaq id e) om = .ok om' ∧
      TicksKept om' T ∧ om'.tickSizeNasdaqNextSlot = om.tickSizeNasdaqNextSlot + rest.length ∧
      om'.tableOf = om.tableOf := by
  induction rest generalizing om with
  | nil => exact ⟨om, rfl, h, rfl, rfl⟩
  | cons e rest ih =>
    rw [List.length_cons] at hroom
    have hcell : om.tickSizeNasdaqNextSlot < 65536 := by omega
    have hstep := handleTickSizeDefinitionNasdaq_full e hcell hm hfull
    obtain ⟨ticks, hticks⟩ := Option.isSome_iff_exists.mp
      ((h.known (1, id)).symm.trans (congrArg Option.isSome (tableOf_of_meta hm)))
    have hkept : TicksKept { om.setTickSizeEntry ⟨om.tickSizeNasdaqNextSlot, hcell⟩ e with
        tickSizeNasdaqNextSlot := om.tickSizeNasdaqNextSlot + 1 } T := by
      -- the cell that is written belongs to no table
      have hpool : ∀ s table i t, om.tableOf s = some table → table i = some t →
          Function.update om.rows ⟨om.tickSizeNasdaqNextSlot, hcell⟩ e.row t = om.rows t := by
        intro s table i t htable hi
        refine Function.update_of_ne ?_ _ _
        rintro rfl
        exact h.nasdaq_free rfl s table i htable hi
      refine ⟨h.known, fun s table ticks ht hT => ?_, h.apart, fun s table i t ht hi => ?_,
        h.above.trans (Nat.le_succ _)⟩
      · refine (h.fits s table ticks ht hT).congr fun i t hi => ?_
        exact (congrFun (rows_setTickSizeEntry om _ e) t).trans (hpool s table i t ht hi)
      · exact (h.half s table i t ht hi).mono (Nat.le_succ _)
    obtain ⟨om₂, hrun, hkept₂, hnext₂, htables₂⟩ := ih hkept hm
      (show om.tickSizeNasdaqNextSlot + 1 + rest.length ≤ 65536 by omega)
    refine ⟨om₂, ?_, hkept₂, ?_, htables₂⟩
    · rw [List.foldlM_cons, hstep]
      exact hrun
    · rw [hnext₂, List.length_cons]
      show om.tickSizeNasdaqNextSlot + 1 + rest.length = _
      omega

/-! ### One message -/

/-- What is kept over a run. -/
def TickInv (om : OrderManager) (T : TickBook) : Prop := TicksKept om T ∧ NasdaqFull om T

theorem tableOf_bistDirectory (om : OrderManager) (msg : Bist.OrderBookDirectory) :
    (om.handleInstrumentDefinitionBist msg).tableOf = Function.update om.tableOf
      (0, msg.orderBookId) (some ((om.tableOf (0, msg.orderBookId)).getD fun _ => none)) :=
  tableOf_emplaceSymbolmeta _ 0 _

theorem tickInv_bistDirectory (h : TickInv om T) (msg : Bist.OrderBookDirectory) :
    TickInv (om.handleInstrumentDefinitionBist msg) (T.record (.bistDirectory msg)) := by
  have htables := tableOf_bistDirectory om msg
  refine ⟨h.1.announce htables rfl rfl, fun id table ht => ?_⟩
  have hne : ((1, id) : SymbolRef) ≠ (0, msg.orderBookId) := fun hc =>
    absurd (Prod.mk.inj hc).1 (by decide)
  rw [htables, Function.update_of_ne hne] at ht
  rw [TickBook.record_of_ne hne]
  exact h.2 id table ht

theorem tickInv_bistTick {msg : Bist.TickSizeTableEntry} (h : TickInv om T)
    (hfits : BistFits om msg) (hstep : om.handleTickSizeDefinitionBist msg = .ok om') :
    TickInv om' (T.record (.bistTick msg)) := by
  refine ⟨h.1.bistTick hfits hstep, fun id table ht => ?_⟩
  have hne : ((1, id) : SymbolRef) ≠ (0, msg.orderBookId) := fun hc =>
    absurd (Prod.mk.inj hc).1 (by decide)
  have hkept : om'.tableOf (1, id) = om.tableOf (1, id) := by
    obtain ⟨m, -, hentered⟩ := entered_of_handled hstep
    cases hentered with
    | place i => rw [tableOf_setSymbolmeta, Function.update_of_ne hne]; rfl
    | rewritten i old hold => rfl
  rw [hkept] at ht
  rw [TickBook.record_of_ne hne]
  exact h.2 id table ht

theorem pairwise_nasdaqTickSizeRanges :
    nasdaqTickSizeRanges.Pairwise fun a b => b.row.1 ≠ a.row.1 := by decide

/-- The five definitions make the five ranges. -/
theorem nasdaqTickSizeRanges_defined : ∀ e ∈ nasdaqTickSizeRanges,
    nasdaqTickSizeRanges.foldl TickBook.withRange (fun _ => none) e.row.1 = some e.row.2 := by
  decide

/-- The store once the stock is announced. -/
def announced (om : OrderManager) (msg : Nasdaq.StockDirectory) : OrderManager :=
  { om with
    sympackSymid := HashMap.emplace om.sympackSymid (msg.stock.take 8) msg.stockLocate.toUInt32 }
    |>.emplaceSymbolmeta 1
      { instrumentId := msg.stockLocate.toUInt32, roundLotSize := msg.roundLotSize,
        symbol := trimSymbol (msg.stock ++ msg.afterStock) }

theorem handleInstrumentDefinitionNasdaq_eq (om : OrderManager) (msg : Nasdaq.StockDirectory) :
    om.handleInstrumentDefinitionNasdaq msg = nasdaqTickSizeRanges.foldlM
      (fun om e => om.handleTickSizeDefinitionNasdaq msg.stockLocate.toUInt32 e)
      (announced om msg) := rfl

theorem tableOf_announced (om : OrderManager) (msg : Nasdaq.StockDirectory) :
    (announced om msg).tableOf = Function.update om.tableOf (1, msg.stockLocate.toUInt32)
      (some ((om.tableOf (1, msg.stockLocate.toUInt32)).getD fun _ => none)) :=
  tableOf_emplaceSymbolmeta _ 1 _

/-- A NASDAQ message, with its five cells inside the pool. -/
theorem tickInv_nasdaqDirectory (h : TickInv om T) (msg : Nasdaq.StockDirectory)
    (hroom : om.tickSizeNasdaqNextSlot + nasdaqTickSizeRanges.length ≤ 65536) :
    ∃ om', om.handleInstrumentDefinitionNasdaq msg = .ok om' ∧
      TickInv om' (T.record (.nasdaqDirectory msg)) ∧
      om'.tickSizeNasdaqNextSlot = om.tickSizeNasdaqNextSlot + nasdaqTickSizeRanges.length := by
  have htables := tableOf_announced om msg
  rw [handleInstrumentDefinitionNasdaq_eq]
  show ∃ om', _ ∧ TickInv om' (nasdaqTickSizeRanges.foldl
    (TickBook.define (1, msg.stockLocate.toUInt32)) (T.announce (1, msg.stockLocate.toUInt32))) ∧ _
  have hroom₁ : (announced om msg).tickSizeNasdaqNextSlot + nasdaqTickSizeRanges.length ≤ 65536 :=
    hroom
  have hkept : TicksKept (announced om msg) (T.announce (1, msg.stockLocate.toUInt32)) :=
    h.1.announce htables rfl rfl
  generalize msg.stockLocate.toUInt32 = id at htables hkept ⊢
  have hnext₁ : (announced om msg).tickSizeNasdaqNextSlot = om.tickSizeNasdaqNextSlot := rfl
  rw [← hnext₁]
  generalize announced om msg = om₁ at htables hroom₁ hkept ⊢
  obtain ⟨m, hm, hmtable⟩ := exists_meta (htables ▸ Function.update_self (1, id) _ om.tableOf)
  -- the message touches the table of one symbol
  have hother : ∀ om' : OrderManager, ∀ T' : TickBook, (∀ s ≠ (1, id), om'.tableOf s = om₁.tableOf s) →
      (∀ s ≠ (1, id), T' s = T s) →
      (∀ table, om'.tableOf (1, id) = some table → (∀ i, table i ≠ none) ∧
        ∃ ticks, T' (1, id) = some ticks ∧ ∀ e ∈ nasdaqTickSizeRanges, ticks e.row.1 = some e.row.2) →
      NasdaqFull om' T' := by
    intro om' T' htab hT hown id' table ht
    by_cases hid : ((1, id') : SymbolRef) = (1, id)
    · rw [hid] at ht ⊢
      exact hown table ht
    · rw [htab _ hid, htables, Function.update_of_ne hid] at ht
      rw [hT _ hid]
      exact h.2 id' table ht
  cases hown : om.tableOf (1, id) with
  | none =>
    -- a new symbol: its five places are filled
    have hTnone : T (1, id) = none := by
      have hknown := h.1.known (1, id)
      rw [hown] at hknown
      exact Option.not_isSome_iff_eq_none.mp (by rw [← hknown]; exact Bool.false_ne_true)
    have hTnew : T.announce (1, id) (1, id) = some fun _ => none := by
      rw [TickBook.announce, Function.update_self, hTnone]
      rfl
    rw [hown] at hmtable
    obtain ⟨om', hrun, hkept', hnext, htab, table, htable, hfull⟩ := hkept.newRanges
      nasdaqTickSizeRanges (k := 0) hm
      (fun j => by rw [hmtable]; exact iff_of_true rfl (Nat.zero_le _)) hTnew
      (fun _ _ => rfl) pairwise_nasdaqTickSizeRanges (by decide) hroom₁
    have hfold := TickBook.foldl_define nasdaqTickSizeRanges hTnew
    refine ⟨om', hrun, ⟨hkept', hother om' _ htab (fun s' hs' => ?_) fun table' ht' => ?_⟩, hnext⟩
    · rw [hfold, Function.update_of_ne hs', TickBook.announce, Function.update_of_ne hs']
    · obtain rfl := Option.some.inj (htable.symm.trans ht')
      refine ⟨fun i hi => ?_, _, ?_, nasdaqTickSizeRanges_defined⟩
      · have hle := (hfull i).mp hi
        have hlt := i.isLt
        have hlen : nasdaqTickSizeRanges.length = 5 := rfl
        omega
      · rw [hfold, Function.update_self]
  | some own =>
    -- the table is full: five cells are spent, and nothing changes
    obtain ⟨hfull, ticks, hticks, hranges⟩ := h.2 _ own hown
    have hTsame : T.announce (1, id) = T := by
      rw [TickBook.announce, hticks]
      exact (congrArg _ hticks.symm).trans (Function.update_eq_self (1, id) T)
    rw [hown] at hmtable
    have hmown : m.tickSizeTable = own := hmtable
    rw [hTsame] at hkept ⊢
    obtain ⟨om', hrun, hkept', hnext, htab⟩ := hkept.ignored nasdaqTickSizeRanges hm
      (by rw [hmown]; exact hfull) hroom₁
    rw [TickBook.foldl_define_known nasdaqTickSizeRanges hticks hranges]
    refine ⟨om', hrun, ⟨hkept', hother om' T (fun s' _ => congrFun htab s') (fun _ _ => rfl)
      fun table' ht' => ?_⟩, hnext⟩
    rw [htab, tableOf_of_meta hm, hmown] at ht'
    obtain rfl := Option.some.inj ht'
    exact ⟨hfull, ticks, hticks, hranges⟩

/-- **A message that fits keeps every table the record of its symbol.** -/
theorem step_kept {e : TickEvent} (h : TickInv om T) (hfits : TickFits om e)
    (hstep : e.step om = .ok om') : TickInv om' (T.record e) := by
  cases e with
  | bistDirectory msg =>
    cases hstep
    exact tickInv_bistDirectory h msg
  | bistTick msg => exact tickInv_bistTick h hfits hstep
  | nasdaqDirectory msg =>
    obtain ⟨om₁, hrun, hinv, -⟩ := tickInv_nasdaqDirectory h msg hfits
    obtain rfl := Except.ok.inj (hrun.symm.trans hstep)
    exact hinv

theorem step_inBounds {e : TickEvent} (h : TickInv om T) (hfits : TickFits om e) :
    e.step om ≠ .error .outOfBounds := by
  intro hc
  cases e with
  | bistDirectory msg => cases hc
  | bistTick msg =>
    unfold TickEvent.step handleTickSizeDefinitionBist at hc
    dsimp only at hc
    cases hm : om.getSymbolmeta 0 msg.orderBookId with
    | none =>
      rw [hm] at hc
      cases hc
    | some m =>
      rw [hm] at hc
      cases hc
  | nasdaqDirectory msg =>
    obtain ⟨om₁, hrun, -⟩ := tickInv_nasdaqDirectory h msg hfits
    rw [show TickEvent.step om (.nasdaqDirectory msg) = _ from hrun] at hc
    cases hc

/-! ### Runs -/

theorem run_kept {es : List TickEvent} (h : TickInv om T) (hfits : Along TickEvent.step TickFits om es)
    (hrun : exec TickEvent.step om es = .ok om') : TickInv om' (es.foldl TickBook.record T) := by
  induction es generalizing om T with
  | nil =>
    obtain rfl := Except.ok.inj hrun
    exact h
  | cons e es ih =>
    obtain ⟨om₁, hstep, hrest⟩ := exec_cons_eq_ok_iff.mp hrun
    exact ih (step_kept h hfits.1 hstep) (hfits.2 om₁ hstep) hrest

theorem run_inBounds {es : List TickEvent} (h : TickInv om T)
    (hfits : Along TickEvent.step TickFits om es) :
    exec TickEvent.step om es ≠ .error .outOfBounds := by
  induction es generalizing om T with
  | nil => exact fun hc => by cases hc
  | cons e es ih =>
    have hhead := step_inBounds h hfits.1
    rw [exec]
    cases hstep : e.step om with
    | error x =>
      rw [hstep] at hhead
      exact hhead
    | ok om₁ => exact ih (step_kept h hfits.1 hstep) (hfits.2 om₁ hstep)

theorem tickInv_start : TickInv {} fun _ => none := by
  have hnone : ∀ s, OrderManager.tableOf {} s = none := fun s => rfl
  refine ⟨⟨fun s => by rw [hnone]; rfl, fun s table ticks ht => ?_, fun s s' table _ _ _ _ ht => ?_,
    fun s table i t ht => ?_, le_refl _⟩, fun id table ht => ?_⟩
  all_goals
    rw [hnone] at ht
    cases ht

/-- **Tick tables over runs.**  As long as every message fits, the pool is indexed
inside its bounds, every symbol is seen with its most recent definitions, and a message
changes nothing that is seen through the table of another symbol. -/
theorem ticksHold_of_along {es : List TickEvent} (h : Along TickEvent.step TickFits {} es) :
    TicksHold es := by
  have hreflects : ∀ pre om, pre <+: es → exec TickEvent.step {} pre = .ok om →
      Reflects om (TickBook.after pre) := fun pre om hpre hrun =>
    (run_kept tickInv_start (along_of_initial hpre h) hrun).1.reflects
  refine ⟨fun pre hpre => run_inBounds tickInv_start (along_of_initial hpre h), hreflects, ?_⟩
  intro pre e om om' hpre hrun hstep s hs r tick
  have hbefore := hreflects pre om ((List.prefix_append pre [e]).trans hpre) hrun
  have hafter := hreflects (pre ++ [e]) om' hpre
    (exec_append_eq_ok_iff.mpr ⟨om, hrun, exec_cons_ok [] hstep⟩)
  rw [(hbefore s).2, (hafter s).2, TickBook.after, List.foldl_append]
  show (∃ ticks, TickBook.record _ e s = some ticks ∧ _) ↔ _
  rw [TickBook.record_of_ne hs]
  rfl

/-! ### Messages that do not fit -/

/-- A definition takes a cell, whatever the table of the symbol is. -/
theorem handleTickSizeDefinitionNasdaq_ok {id : UInt32} {m : SymbolMeta} (e : TickSizeEntry)
    (hroom : om.tickSizeNasdaqNextSlot < 65536) (hm : om.getSymbolmeta 1 id = some m) :
    ∃ om', om.handleTickSizeDefinitionNasdaq id e = .ok om' ∧
      om'.tickSizeNasdaqNextSlot = om.tickSizeNasdaqNextSlot + 1 ∧
      ∃ m', om'.getSymbolmeta 1 id = some m' := by
  by_cases hfull : ∀ i, m.tickSizeTable i ≠ none
  · exact ⟨_, handleTickSizeDefinitionNasdaq_full e hroom hm hfull, rfl, m, hm⟩
  · obtain ⟨i, hempty, hbefore⟩ := exists_first_empty (not_forall_not.mp hfull)
    obtain ⟨om', hstep, htables, -, hnext⟩ :=
      handleTickSizeDefinitionNasdaq_empty (e := e) hroom hm hempty hbefore
    obtain ⟨m', hm', -⟩ := exists_meta (htables ▸ Function.update_self (1, id) _ om.tableOf)
    exact ⟨om', hstep, hnext, m', hm'⟩

/-- Definitions for which the pool has no cells left index it behind its end. -/
theorem nasdaq_definitions_overrun {id : UInt32} (rest : List TickSizeEntry) {m : SymbolMeta}
    (hm : om.getSymbolmeta 1 id = some m) (hroom : om.tickSizeNasdaqNextSlot ≤ 65536)
    (hmany : 65536 < om.tickSizeNasdaqNextSlot + rest.length) :
    rest.foldlM (fun om e => om.handleTickSizeDefinitionNasdaq id e) om
      = .error .outOfBounds := by
  induction rest generalizing om m with
  | nil => exact absurd hmany (Nat.not_lt.mpr hroom)
  | cons e rest ih =>
    rw [List.foldlM_cons]
    by_cases hcell : om.tickSizeNasdaqNextSlot < 65536
    · obtain ⟨om₁, hstep, hnext, m₁, hm₁⟩ := handleTickSizeDefinitionNasdaq_ok e hcell hm
      rw [hstep]
      rw [List.length_cons] at hmany
      exact ih hm₁ (by omega) (by omega)
    · have hfault : om.handleTickSizeDefinitionNasdaq id e = .error .outOfBounds := dif_neg hcell
      rw [hfault]
      rfl

/-- **The pool overrun**: NASDAQ messages for which the pool has no cells left, about
whatever stocks. -/
theorem run_nasdaq_overrun {msgs : List Nasdaq.StockDirectory} (h : TickInv om T)
    (hroom : om.tickSizeNasdaqNextSlot ≤ 65536)
    (hmany : 65536 < om.tickSizeNasdaqNextSlot + 5 * msgs.length) :
    exec TickEvent.step om (msgs.map .nasdaqDirectory) = .error .outOfBounds := by
  have hlen : nasdaqTickSizeRanges.length = 5 := rfl
  induction msgs generalizing om T with
  | nil => exact absurd hmany (Nat.not_lt.mpr hroom)
  | cons msg msgs ih =>
    rw [List.length_cons] at hmany
    rw [List.map_cons, exec]
    by_cases hfits : om.tickSizeNasdaqNextSlot + nasdaqTickSizeRanges.length ≤ 65536
    · obtain ⟨om₁, hstep, hinv, hnext⟩ := tickInv_nasdaqDirectory h msg hfits
      have hstep' : TickEvent.step om (.nasdaqDirectory msg) = .ok om₁ := hstep
      rw [hstep']
      exact ih hinv (by omega) (by omega)
    · obtain ⟨m, hm, -⟩ := exists_meta
        ((tableOf_announced om msg).symm ▸ Function.update_self (1, msg.stockLocate.toUInt32) _ _)
      have hfault : TickEvent.step om (.nasdaqDirectory msg) = .error .outOfBounds := by
        refine (handleInstrumentDefinitionNasdaq_eq om msg).trans ?_
        exact nasdaq_definitions_overrun nasdaqTickSizeRanges hm hroom
          (show 65536 < om.tickSizeNasdaqNextSlot + _ by omega)
      rw [hfault]

/-- From the start 6554 messages are enough. -/
theorem nasdaq_overrun {msgs : List Nasdaq.StockDirectory} (h : 6554 ≤ msgs.length) :
    ¬ TicksHold (msgs.map .nasdaqDirectory) := by
  intro hold
  refine hold.inBounds _ (List.prefix_refl _) (run_nasdaq_overrun tickInv_start (by decide) ?_)
  show 65536 < 32768 + 5 * msgs.length
  omega

/-- A directory message for instrument 70 and six ranges of it. -/
def sixRanges : List TickEvent :=
  [.bistDirectory ⟨70, 1, []⟩, .bistTick ⟨1, 70, 0, 99⟩, .bistTick ⟨2, 70, 100, 199⟩,
    .bistTick ⟨5, 70, 200, 299⟩, .bistTick ⟨10, 70, 300, 399⟩, .bistTick ⟨20, 70, 400, 499⟩,
    .bistTick ⟨50, 70, 500, 599⟩]

def sixRangesStore : OrderManager := (exec TickEvent.step {} sixRanges).toOption.getD {}

/-- The sixth range of a symbol takes the place of the first. -/
theorem sixth_range_lost : ¬ TicksHold sixRanges := by
  intro hold
  have hrun : exec TickEvent.step {} sixRanges = .ok sixRangesStore := rfl
  have hdefined : ∃ ticks, TickBook.after sixRanges (0, 70) = some ticks ∧ ticks (0, 99) = some 1 :=
    ⟨_, rfl, by decide⟩
  obtain ⟨table, htable, i, t, ht, hrow⟩ :=
    ((hold.reflects sixRanges _ (List.prefix_refl _) hrun (0, 70)).2 (0, 99) 1).mpr hdefined
  have hmissing : ∀ i, ((sixRangesStore.tableOf (0, 70)).bind fun table =>
      (table i).map sixRangesStore.rows) ≠ some ((0, 99), 1) := by decide
  apply hmissing i
  rw [htable]
  show (table i).map _ = _
  rw [ht, ← hrow]
  rfl

/-- The stock directory announced stock 5 for the 6554th time, and a sixth range. -/
theorem tick_tables_fail :
    ¬ TicksHold ((List.replicate 6554 ⟨1, 5, [], []⟩).map .nasdaqDirectory) ∧
    ¬ TicksHold sixRanges :=
  ⟨nasdaq_overrun (le_of_eq List.length_replicate.symm), sixth_range_lost⟩

/-- An instrument with one range, and a stock. -/
def fittingMessages : List TickEvent :=
  [.bistDirectory ⟨70, 1, []⟩, .bistTick ⟨1, 70, 0, 99⟩, .nasdaqDirectory ⟨1, 5, [], []⟩]

theorem ticksHold_fittingMessages : TicksHold fittingMessages := by
  have hcells : 32768 + 5 ≤ 65536 := by decide
  refine ticksHold_of_along (along_cons _ trivial rfl (along_cons _ ?_ rfl
    (along_cons _ hcells rfl trivial)))
  -- the one table is empty
  have hempty : ∀ s table i, (OrderManager.handleInstrumentDefinitionBist {}
      ⟨70, 1, []⟩).tableOf s = some table → table i = none := by
    intro s table i ht
    rw [tableOf_bistDirectory] at ht
    by_cases hs : s = (0, 70)
    · subst hs
      rw [Function.update_self] at ht
      rw [← Option.some.inj ht]
      rfl
    · rw [Function.update_of_ne hs] at ht
      cases ht
  intro table htable
  refine ⟨fun s table' i ht hi => ?_, Or.inl ⟨0, hempty _ _ 0 htable⟩⟩
  rw [hempty s table' i ht] at hi
  cases hi

end TradingEngine
