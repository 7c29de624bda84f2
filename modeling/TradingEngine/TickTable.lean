/-
Tick tables and what `check_price_tick_valid` makes of them.

`handle_tick_size_definition` takes a slot of a ring for every message and enters
it in the table of the symbol.  Over every run of at most 32768 messages, for any
symbols, the table of a symbol that was sent at most five ranges, no two of which
overlap, holds these ranges in the order of their arrival (`holdsTable_run`).

`check_price_tick_valid` takes an open-ended range to apply to every price, below
its start as well, and lets a price pass that no range applies to:
`tickCheck_agrees_iff` says for which tables and prices this makes no difference.
-/
import TradingEngine.RiskCheck
import TradingEngine.FallibleRun

namespace TradingEngine

open FallibleRun OrderManager

/-! ### The check -/

namespace TickSizeEntry

/-- The entry is made to count for the price. -/
def Applies (e : TickSizeEntry) (price : Int64) : Prop :=
  e.priceTo = 0 ∨ e.priceFrom ≤ price ∧ price ≤ e.priceTo

/-- The price is on the tick, taken as an `int64_t`. -/
def Fits (e : TickSizeEntry) (price : Int64) : Prop :=
  0 < e.tickSize.toInt64 ∧ price % e.tickSize.toInt64 = 0

end TickSizeEntry

variable {price : Int64} {symbolmeta : SymbolMeta} {pool : TickSlot → TickSizeEntry}

/-- The scan passes exactly if every entry that applies fits. -/
theorem checkTickEntries_eq_zero_iff (places : List (Fin 5)) :
    checkTickEntries price symbolmeta pool places = 0 ↔ ∀ i ∈ places, ∀ t,
      symbolmeta.tickSizeTable i = some t → (pool t).Applies price → (pool t).Fits price := by
  induction places with
  | nil => simp [checkTickEntries]
  | cons i rest ih =>
    rw [checkTickEntries, List.forall_mem_cons, ← ih]
    cases hplace : symbolmeta.tickSizeTable i with
    | none => simp
    | some t =>
      dsimp only
      by_cases happlies : (pool t).Applies price
      · unfold TickSizeEntry.Applies at happlies
        rw [if_pos happlies]
        -- an entry that applies is compared as a signed number
        by_cases htick : (pool t).tickSize.toInt64 ≤ 0
        · rw [if_pos htick]
          refine iff_of_false (by decide) fun h => ?_
          exact Int64.not_lt.mpr htick (h.1 t rfl happlies).1
        · rw [if_neg htick]
          by_cases hrem : price % (pool t).tickSize.toInt64 = 0
          · rw [if_neg (not_not.mpr hrem)]
            constructor
            · intro h
              refine ⟨fun t' ht' _ => ?_, h⟩
              rw [← Option.some.inj ht']
              exact ⟨Int64.not_le.mp htick, hrem⟩
            · exact fun h => h.2
          · rw [if_pos hrem]
            refine iff_of_false (by decide) fun h => ?_
            exact hrem (h.1 t rfl happlies).2
      · unfold TickSizeEntry.Applies at happlies
        rw [if_neg happlies]
        constructor
        · intro h
          refine ⟨fun t' ht' ha => ?_, h⟩
          rw [← Option.some.inj ht'] at ha
          exact absurd ha happlies
        · exact fun h => h.2

/-! ### One message -/

/-- What a message enters. -/
def entryOf (msg : Bist.TickSizeTableEntry) : TickSizeEntry :=
  ⟨msg.priceFrom.toInt64, msg.priceTo.toInt64, msg.tickSize⟩

variable {om om' : OrderManager} {id : UInt32} {m : SymbolMeta} {msg : Bist.TickSizeTableEntry}

theorem getSymbolmeta_setSymbolmeta_self (om : OrderManager) (v : VenueIndex) (id : UInt32)
    (m : SymbolMeta) : (om.setSymbolmeta v id m).getSymbolmeta v id = some m := by
  rw [getSymbolmeta, setSymbolmeta]
  dsimp only
  rw [Function.update_self, Finmap.lookup_insert]

theorem getSymbolmeta_setSymbolmeta_of_ne (om : OrderManager) (v : VenueIndex) {id id' : UInt32}
    (m : SymbolMeta) (hne : id' ≠ id) :
    (om.setSymbolmeta v id m).getSymbolmeta v id' = om.getSymbolmeta v id' := by
  rw [getSymbolmeta, setSymbolmeta]
  dsimp only
  rw [Function.update_self, Finmap.lookup_insert_of_ne _ hne]
  rfl

/-- The two things the scan can do: enter the new slot in one place of the table, or
rewrite an entry of the same range. -/
inductive Entered (om : OrderManager) (id : UInt32) (m : SymbolMeta) (new : TickSlot)
    (entry : TickSizeEntry) : OrderManager → Prop
  | place (i : Fin 5) : Entered om id m new entry (om.setSymbolmeta 0 id
      { m with tickSizeTable := Function.update m.tickSizeTable i (some new) })
  | rewritten (i : Fin 5) (old : TickSlot) (hold : m.tickSizeTable i = some old) :
      Entered om id m new entry (om.setTickSizeEntry old entry)

theorem entered_enterTickSizeBist (new : TickSlot) (entry : TickSizeEntry)
    (places : List (Fin 5)) :
    Entered om id m new entry (om.enterTickSizeBist id m new entry places) := by
  induction places with
  | nil =>
    -- a full table gives up its first place
    exact .place 0
  | cons i rest ih =>
    rw [enterTickSizeBist]
    cases hplace : m.tickSizeTable i with
    | none => exact .place i
    | some old =>
      dsimp only
      split
      · exact .rewritten i old hplace
      · exact ih

/-- Behind entries of other ranges the first empty place takes the new slot. -/
theorem enterTickSizeBist_at {new : TickSlot} {entry : TickSizeEntry} {before rest : List (Fin 5)}
    {i : Fin 5} (hbefore : ∀ j ∈ before, ∃ old, m.tickSizeTable j = some old ∧
      ¬((om.tickSizeEntryPool old).priceFrom = entry.priceFrom ∧
        (om.tickSizeEntryPool old).priceTo = entry.priceTo))
    (hempty : m.tickSizeTable i = none) :
    om.enterTickSizeBist id m new entry (before ++ i :: rest) = om.setSymbolmeta 0 id
      { m with tickSizeTable := Function.update m.tickSizeTable i (some new) } := by
  induction before with
  | nil =>
    rw [List.nil_append, enterTickSizeBist, hempty]
  | cons j before ih =>
    obtain ⟨old, hold, hother⟩ := hbefore j List.mem_cons_self
    rw [List.cons_append, enterTickSizeBist, hold]
    dsimp only
    rw [if_neg hother]
    exact ih fun j' hj' => hbefore j' (List.mem_cons_of_mem j hj')

/-- The slot of the ring that a message takes. -/
def tickSlot (n : ℕ) : TickSlot := ⟨n % 32768, by omega⟩

/-- Fewer messages than the ring has slots take different ones. -/
theorem tickSlot_injective {base k k' : ℕ} (hk : k < 32768) (hk' : k' < 32768)
    (h : tickSlot (base + k) = tickSlot (base + k')) : k = k' := by
  have hval : (base + k) % 32768 = (base + k') % 32768 := congrArg Fin.val h
  omega

/-- The store once the slot is written. -/
def written (om : OrderManager) (entry : TickSizeEntry) : OrderManager :=
  { om.setTickSizeEntry (tickSlot om.tickSizeBistNextSlot) entry with
    tickSizeBistNextSlot := om.tickSizeBistNextSlot + 1 }

theorem handleTickSizeDefinitionBist_eq_ok
    (h : om.handleTickSizeDefinitionBist msg = .ok om') :
    ∃ m, om.getSymbolmeta 0 msg.orderBookId = some m ∧
      om' = (written om (entryOf msg)).enterTickSizeBist msg.orderBookId m
        (tickSlot om.tickSizeBistNextSlot) (entryOf msg) (List.finRange 5) := by
  rw [handleTickSizeDefinitionBist] at h
  cases hm : om.getSymbolmeta 0 msg.orderBookId with
  | none =>
    rw [hm] at h
    cases h
  | some m =>
    rw [hm] at h
    exact ⟨m, rfl, (Except.ok.inj h).symm⟩

/-- One message, by what the scan can do. -/
theorem entered_of_handled (h : om.handleTickSizeDefinitionBist msg = .ok om') :
    ∃ m, om.getSymbolmeta 0 msg.orderBookId = some m ∧
      Entered (written om (entryOf msg)) msg.orderBookId m (tickSlot om.tickSizeBistNextSlot)
        (entryOf msg) om' := by
  obtain ⟨m, hm, rfl⟩ := handleTickSizeDefinitionBist_eq_ok h
  exact ⟨m, hm, entered_enterTickSizeBist _ _ _⟩

/-! ### Runs -/

/-- Every slot in the table of a symbol was taken by a message for that symbol. -/
structure TickOwners (om : OrderManager) (base : ℕ) (seen : List Bist.TickSizeTableEntry) :
    Prop where
  next : om.tickSizeBistNextSlot = base + seen.length
  owner : ∀ id m i t, om.getSymbolmeta 0 id = some m → m.tickSizeTable i = some t →
    ∃ k msg, seen[k]? = some msg ∧ msg.orderBookId = id ∧ t = tickSlot (base + k)

/-- The table of the symbol holds these entries, in this order. -/
def HoldsTable (om : OrderManager) (id : UInt32) (table : List TickSizeEntry) : Prop :=
  ∃ m, om.getSymbolmeta 0 id = some m ∧
    ∀ i : Fin 5, (m.tickSizeTable i).map om.tickSizeEntryPool = table[i.val]?

variable {base : ℕ} {seen : List Bist.TickSizeTableEntry}

theorem getElem?_append_of_some {α : Type} {l : List α} {k : ℕ} {a : α} (x : α)
    (h : l[k]? = some a) : (l ++ [x])[k]? = some a := by
  rw [List.getElem?_append_left (List.getElem?_eq_some_iff.mp h).1]
  exact h

/-- **One message keeps the owners.** -/
theorem TickOwners.step (h : TickOwners om base seen)
    (hstep : om.handleTickSizeDefinitionBist msg = .ok om') :
    TickOwners om' base (seen ++ [msg]) := by
  obtain ⟨m, hm, hentered⟩ := entered_of_handled hstep
  have hold : ∀ id m i t, om.getSymbolmeta 0 id = some m → m.tickSizeTable i = some t →
      ∃ k msg', (seen ++ [msg])[k]? = some msg' ∧ msg'.orderBookId = id ∧
        t = tickSlot (base + k) := by
    intro id m i t hid ht
    obtain ⟨k, msg', hk, hmsg, hslot⟩ := h.owner id m i t hid ht
    exact ⟨k, msg', getElem?_append_of_some msg hk, hmsg, hslot⟩
  have hnext : om.tickSizeBistNextSlot + 1 = base + (seen ++ [msg]).length := by
    rw [h.next, List.length_append, List.length_singleton, Nat.add_assoc]
  cases hentered with
  | place i =>
    refine ⟨hnext, fun id m' j t hid ht => ?_⟩
    by_cases hsame : id = msg.orderBookId
    · rw [hsame, getSymbolmeta_setSymbolmeta_self] at hid
      rw [← Option.some.inj hid] at ht
      dsimp only at ht
      by_cases hj : j = i
      · rw [hj, Function.update_self] at ht
        refine ⟨seen.length, msg, List.getElem?_concat_length, hsame.symm, ?_⟩
        rw [← Option.some.inj ht, h.next]
      · rw [Function.update_of_ne hj] at ht
        exact hsame ▸ hold msg.orderBookId m j t hm ht
    · rw [getSymbolmeta_setSymbolmeta_of_ne _ _ _ hsame] at hid
      exact hold id m' j t hid ht
  | rewritten i old _ => exact ⟨hnext, hold⟩

/-- The slot of the message is not in use. -/
theorem TickOwners.ne_slot (h : TickOwners om base seen) (hroom : seen.length < 32768)
    {i : Fin 5} {t : TickSlot} (hid : om.getSymbolmeta 0 id = some m)
    (ht : m.tickSizeTable i = some t) : t ≠ tickSlot om.tickSizeBistNextSlot := by
  obtain ⟨k, msg', hk, -, rfl⟩ := h.owner id m i t hid ht
  have hlt := (List.getElem?_eq_some_iff.mp hk).1
  intro heq
  rw [h.next] at heq
  have hsame := tickSlot_injective (by omega) hroom heq
  omega

/-- Writing the slot of the message leaves the entries of every table. -/
theorem TickOwners.pool_written (h : TickOwners om base seen) (hroom : seen.length < 32768)
    (hid : om.getSymbolmeta 0 id = some m) (entry : TickSizeEntry) {i : Fin 5} {t : TickSlot}
    (ht : m.tickSizeTable i = some t) :
    (written om entry).tickSizeEntryPool t = om.tickSizeEntryPool t :=
  Function.update_of_ne (h.ne_slot hroom hid ht) _ _

/-- A message for another symbol leaves the table and its entries. -/
theorem HoldsTable.step_other {table : List TickSizeEntry} (h : HoldsTable om id table)
    (hown : TickOwners om base seen) (hroom : seen.length < 32768) (hne : id ≠ msg.orderBookId)
    (hstep : om.handleTickSizeDefinitionBist msg = .ok om') : HoldsTable om' id table := by
  obtain ⟨m, hm, htable⟩ := h
  obtain ⟨m₁, hm₁, hentered⟩ := entered_of_handled hstep
  have hwritten : ∀ i t, m.tickSizeTable i = some t →
      (written om (entryOf msg)).tickSizeEntryPool t = om.tickSizeEntryPool t := by
    intro i t ht
    exact hown.pool_written hroom hm (entryOf msg) ht
  have hkept : ∀ om₂ : OrderManager, om₂.getSymbolmeta 0 id = some m →
      (∀ i t, m.tickSizeTable i = some t →
        om₂.tickSizeEntryPool t = om.tickSizeEntryPool t) → HoldsTable om₂ id table := by
    intro om₂ hm₂ hpool
    refine ⟨m, hm₂, fun i => ?_⟩
    rw [← htable i]
    cases ht : m.tickSizeTable i with
    | none => rfl
    | some t => exact congrArg some (hpool i t ht)
  cases hentered with
  | place i =>
    refine hkept _ ?_ hwritten
    rw [getSymbolmeta_setSymbolmeta_of_ne _ _ _ hne]
    exact hm
  | rewritten j old hold =>
    refine hkept _ hm fun i t ht => ?_
    -- the two slots were taken by messages for different symbols
    have hdiff : t ≠ old := by
      rintro rfl
      obtain ⟨k, msg₁, hk, hmsg₁, hslot₁⟩ := hown.owner id m i t hm ht
      obtain ⟨k', msg₂, hk', hmsg₂, hslot₂⟩ := hown.owner _ m₁ j t hm₁ hold
      have hlt := (List.getElem?_eq_some_iff.mp hk).1
      have hlt' := (List.getElem?_eq_some_iff.mp hk').1
      obtain rfl := tickSlot_injective (by omega) (by omega) (hslot₁.symm.trans hslot₂)
      obtain rfl := Option.some.inj (hk.symm.trans hk')
      exact hne (hmsg₁.symm.trans hmsg₂)
    exact (Function.update_of_ne hdiff _ _).trans (hwritten i t ht)

/-- The places of the table before the `c`-th and behind it. -/
theorem finRange_split {c : ℕ} (hc : c < 5) :
    List.finRange 5 = (List.finRange 5).take c ++ ⟨c, hc⟩ :: (List.finRange 5).drop (c + 1) := by
  have hlen : c < (List.finRange 5).length := by
    rw [List.length_finRange]
    exact hc
  have hdrop := List.drop_eq_getElem_cons hlen
  rw [List.getElem_finRange] at hdrop
  calc List.finRange 5 = (List.finRange 5).take c ++ (List.finRange 5).drop c :=
        (List.take_append_drop c _).symm
    _ = _ := by rw [hdrop]; rfl

/-- A message with a range of its own is entered behind the others. -/
theorem HoldsTable.step_own {table : List TickSizeEntry} (h : HoldsTable om id table)
    (hown : TickOwners om base seen) (hroom : seen.length < 32768) (hfree : table.length < 5)
    (hother : ∀ e ∈ table, ¬(e.priceFrom = (entryOf msg).priceFrom ∧
      e.priceTo = (entryOf msg).priceTo)) (hid : msg.orderBookId = id)
    (hstep : om.handleTickSizeDefinitionBist msg = .ok om') :
    HoldsTable om' id (table ++ [entryOf msg]) := by
  obtain ⟨m, hm, htable⟩ := h
  subst hid
  obtain ⟨m₁, hm₁, rfl⟩ := handleTickSizeDefinitionBist_eq_ok hstep
  obtain rfl := Option.some.inj (hm.symm.trans hm₁)
  have hwritten : ∀ i t, m.tickSizeTable i = some t →
      (written om (entryOf msg)).tickSizeEntryPool t = om.tickSizeEntryPool t := by
    intro i t ht
    exact hown.pool_written hroom hm (entryOf msg) ht
  -- the places before the first empty one hold the other ranges
  have hempty : m.tickSizeTable ⟨table.length, hfree⟩ = none := by
    have hplace := htable ⟨table.length, hfree⟩
    rw [List.getElem?_eq_none (Nat.le_refl _)] at hplace
    exact Option.map_eq_none_iff.mp hplace
  have hbefore : ∀ j ∈ (List.finRange 5).take table.length, ∃ old,
      m.tickSizeTable j = some old ∧
        ¬(((written om (entryOf msg)).tickSizeEntryPool old).priceFrom =
            (entryOf msg).priceFrom ∧
          ((written om (entryOf msg)).tickSizeEntryPool old).priceTo =
            (entryOf msg).priceTo) := by
    intro j hj
    obtain ⟨k, hk, hkj⟩ := List.mem_take_iff_getElem.mp hj
    rw [List.getElem_finRange] at hkj
    have hjlt : j.val < table.length := by
      have hval : k = j.val := congrArg Fin.val hkj
      omega
    have hplace := htable j
    rw [List.getElem?_eq_getElem hjlt] at hplace
    obtain ⟨old, hold, hentry⟩ := Option.map_eq_some_iff.mp hplace
    refine ⟨old, hold, ?_⟩
    rw [hwritten j old hold, hentry]
    exact hother _ (List.getElem_mem hjlt)
  rw [finRange_split hfree, enterTickSizeBist_at hbefore hempty]
  refine ⟨_, getSymbolmeta_setSymbolmeta_self _ _ _ _, fun i => ?_⟩
  dsimp only
  by_cases hi : i = ⟨table.length, hfree⟩
  · rw [hi, Function.update_self, List.getElem?_concat_length]
    exact congrArg some (Function.update_self _ _ _)
  · rw [Function.update_of_ne hi]
    have hval : i.val ≠ table.length := fun heq => hi (Fin.ext heq)
    have hsame : (table ++ [entryOf msg])[i.val]? = table[i.val]? := by
      by_cases hlt : i.val < table.length
      · rw [List.getElem?_append_left hlt]
      · rw [List.getElem?_eq_none (by rw [List.length_append, List.length_singleton]; omega),
          List.getElem?_eq_none (by omega)]
    rw [hsame, ← htable i]
    cases ht : m.tickSizeTable i with
    | none => rfl
    | some t => exact congrArg some (hwritten i t ht)

/-! ### Tick tables -/

namespace TickSizeEntry

/-- The price is in the range, which is open-ended if `priceTo` is 0. -/
def Contains (e : TickSizeEntry) (price : Int64) : Prop :=
  e.priceFrom ≤ price ∧ (e.priceTo = 0 ∨ price ≤ e.priceTo)

def IsRange (e : TickSizeEntry) : Prop := e.priceTo = 0 ∨ e.priceFrom ≤ e.priceTo

/-- The price is a multiple of the tick. -/
def OnTick (e : TickSizeEntry) (price : Int64) : Prop := e.tickSize.toNat ∣ price.toInt.toNat

/-- The open-ended range begins above the price. -/
def OpensAbove (e : TickSizeEntry) (price : Int64) : Prop := e.priceTo = 0 ∧ price < e.priceFrom

theorem IsRange.contains {e : TickSizeEntry} (h : e.IsRange) : e.Contains e.priceFrom :=
  ⟨Int64.le_refl _, h⟩

/-- An entry applies to the prices in its range, and below it if it is open-ended. -/
theorem applies_iff {e : TickSizeEntry} {price : Int64} :
    e.Applies price ↔ e.Contains price ∨ e.OpensAbove price := by
  rw [Applies, Contains, OpensAbove]
  by_cases hopen : e.priceTo = 0
  · simp only [hopen, true_or, and_true, true_and, true_iff]
    by_cases hfrom : e.priceFrom ≤ price
    · exact .inl hfrom
    · exact .inr (Int64.not_le.mp hfrom)
  · simp only [hopen, false_or, false_and, or_false]

/-- A tick that is an `int64_t`: a price that is not negative fits if it is a multiple. -/
theorem fits_iff {e : TickSizeEntry} {price : Int64} (htick : 0 < e.tickSize)
    (hprice : 0 ≤ price) : e.Fits price ↔ e.tickSize.toNat < 2 ^ 63 ∧ e.OnTick price := by
  have hpos : 0 < e.tickSize.toNat := UInt64.lt_iff_toNat_lt.mp htick
  have hnonneg : 0 ≤ price.toInt := Int64.le_iff_toInt_le.mp hprice
  rw [Fits, OnTick, Int64.lt_iff_toInt_lt]
  by_cases hsmall : e.tickSize.toNat < 2 ^ 63
  · have hint := UInt64.toInt_toInt64_of_lt hsmall
    have hrem : price % e.tickSize.toInt64 = 0 ↔ e.tickSize.toNat ∣ price.toInt.toNat := by
      rw [← Int64.toInt_inj, Int64.toInt_mod, hint]
      show price.toInt.tmod _ = 0 ↔ _
      rw [← Int.dvd_iff_tmod_eq_zero, ← Int.natCast_dvd_natCast, Int.toNat_of_nonneg hnonneg]
    rw [hrem, hint]
    exact and_congr_left fun _ => iff_of_true (Int.natCast_pos.mpr hpos) hsmall
  · refine iff_of_false (fun h => ?_) fun h => hsmall h.1
    have hneg := UInt64.toInt_toInt64_neg (Nat.not_lt.mp hsmall)
    exact absurd h.1 (not_lt_of_gt hneg)

end TickSizeEntry

/-- At most five ranges with positive ticks, and no price in two of them.  So at most one is
open-ended, and it is the last. -/
structure IsTickTable (table : List TickSizeEntry) : Prop where
  five : table.length ≤ 5
  range : ∀ e ∈ table, e.IsRange
  tick : ∀ e ∈ table, 0 < e.tickSize
  apart : table.Pairwise fun a b => ∀ p, ¬(a.Contains p ∧ b.Contains p)

/-- What the messages have for the symbol, in the order of their arrival. -/
def sent (id : UInt32) (msgs : List Bist.TickSizeTableEntry) : List TickSizeEntry :=
  (msgs.filter fun msg => msg.orderBookId = id).map entryOf

theorem sent_append (id : UInt32) (msgs rest : List Bist.TickSizeTableEntry) :
    sent id (msgs ++ rest) = sent id msgs ++ sent id rest := by
  rw [sent, List.filter_append, List.map_append]
  rfl

theorem sent_cons_self (h : msg.orderBookId = id) (rest : List Bist.TickSizeTableEntry) :
    sent id (msg :: rest) = entryOf msg :: sent id rest := by
  rw [sent, List.filter_cons_of_pos (by simp [h])]
  rfl

theorem sent_cons_of_ne (h : msg.orderBookId ≠ id) (rest : List Bist.TickSizeTableEntry) :
    sent id (msg :: rest) = sent id rest := by
  rw [sent, List.filter_cons_of_neg (by simp [h])]
  rfl

/-- **The table after a run.**  Tick sizes arrive for any symbols, in any order; what was
sent for this one makes a tick table. -/
theorem holdsTable_run {msgs : List Bist.TickSizeTableEntry} (hown : TickOwners om base seen)
    (hholds : HoldsTable om id (sent id seen)) (hroom : seen.length + msgs.length ≤ 32768)
    (htable : IsTickTable (sent id (seen ++ msgs)))
    (hrun : exec handleTickSizeDefinitionBist om msgs = .ok om') :
    HoldsTable om' id (sent id (seen ++ msgs)) := by
  induction msgs generalizing om seen with
  | nil =>
    obtain rfl : om = om' := by simpa using hrun
    rw [List.append_nil]
    exact hholds
  | cons msg rest ih =>
    obtain ⟨om₁, hstep, hrest⟩ := exec_cons_eq_ok_iff.mp hrun
    rw [List.length_cons] at hroom
    have hsplit : seen ++ msg :: rest = (seen ++ [msg]) ++ rest := by
      rw [List.append_assoc, List.singleton_append]
    rw [hsplit] at htable ⊢
    refine ih (hown.step hstep) ?_ (by rw [List.length_append, List.length_singleton]; omega)
      htable hrest
    by_cases hid : msg.orderBookId = id
    · -- the range is new: the message is entered behind the others
      have hall : sent id (seen ++ [msg] ++ rest) =
          sent id seen ++ entryOf msg :: sent id rest := by
        rw [← hsplit, sent_append, sent_cons_self hid]
      rw [hall] at htable
      have hlast : sent id (seen ++ [msg]) = sent id seen ++ [entryOf msg] := by
        rw [sent_append, sent_cons_self hid]
        rfl
      rw [hlast]
      have hfive := htable.five
      rw [List.length_append, List.length_cons] at hfive
      refine hholds.step_own hown (by omega) (by omega) (fun e he hsame => ?_) hid hstep
      have hmem : entryOf msg ∈ entryOf msg :: sent id rest := List.mem_cons_self
      have hcontains := (htable.range _ (List.mem_append_right _ hmem)).contains
      refine (List.pairwise_append.mp htable.apart).2.2 e he _ hmem _ ⟨?_, hcontains⟩
      rw [TickSizeEntry.Contains, hsame.1, hsame.2]
      exact hcontains
    · -- the message is about another symbol
      have hlast : sent id (seen ++ [msg]) = sent id seen := by
        rw [sent_append, sent_cons_of_ne hid]
        exact List.append_nil _
      rw [hlast]
      exact hholds.step_other hown (by omega) (Ne.symm hid) hstep

/-! ### The check against the table -/

/-- What the check decides on a table. -/
theorem checkPriceTickValid_eq_zero_iff {table : List TickSizeEntry}
    (hholds : HoldsTable om id table) (hfive : table.length ≤ 5)
    (hm : om.getSymbolmeta 0 id = some m) :
    checkPriceTickValid price m om.tickSizeEntryPool = 0 ↔
      ∀ e ∈ table, e.Applies price → e.Fits price := by
  obtain ⟨m', hm', hplaces⟩ := hholds
  obtain rfl := Option.some.inj (hm.symm.trans hm')
  rw [checkPriceTickValid, checkTickEntries_eq_zero_iff]
  constructor
  · intro h e he
    obtain ⟨k, hk, rfl⟩ := List.mem_iff_getElem.mp he
    have hplace := hplaces ⟨k, by omega⟩
    rw [List.getElem?_eq_getElem hk] at hplace
    obtain ⟨t, ht, hentry⟩ := Option.map_eq_some_iff.mp hplace
    rw [← hentry]
    exact h _ (List.mem_finRange _) t ht
  · intro h i _ t ht
    have hplace := hplaces i
    rw [ht] at hplace
    exact h _ (List.mem_of_getElem? hplace.symm)

/-- The price is in a range, and if it is a multiple of its tick then this tick and that of
an open-ended range above the price fit; or it is in no range, and there is an open-ended
range above it whose tick does not fit. -/
def TickAgrees (table : List TickSizeEntry) (price : Int64) : Prop :=
  (∃ e ∈ table, e.Contains price ∧ (e.OnTick price → e.tickSize.toNat < 2 ^ 63 ∧
    ∀ g ∈ table, g.OpensAbove price → g.tickSize.toNat < 2 ^ 63 ∧ g.OnTick price)) ∨
  (∀ e ∈ table, ¬e.Contains price) ∧
    ∃ g ∈ table, g.OpensAbove price ∧ ¬(g.tickSize.toNat < 2 ^ 63 ∧ g.OnTick price)

/-- No other range holds a price of this one. -/
theorem IsTickTable.eq_of_contains {table : List TickSizeEntry} (h : IsTickTable table)
    {a b : TickSizeEntry} (ha : a ∈ table) (hb : b ∈ table) (hca : a.Contains price)
    (hcb : b.Contains price) : a = b := by
  have hsymm : Std.Symm fun a b : TickSizeEntry => ∀ p, ¬(a.Contains p ∧ b.Contains p) :=
    ⟨fun _ _ hab p hp => hab p hp.symm⟩
  by_contra hne
  exact h.apart.forall ha hb hne price ⟨hca, hcb⟩

/-- **The check and the table.** -/
theorem tickCheck_agrees_iff {table : List TickSizeEntry} (htable : IsTickTable table)
    (hholds : HoldsTable om id table) (hm : om.getSymbolmeta 0 id = some m)
    (hprice : 0 ≤ price) :
    (checkPriceTickValid price m om.tickSizeEntryPool = 0 ↔
        ∃ e ∈ table, e.Contains price ∧ e.OnTick price) ↔ TickAgrees table price := by
  have hfits : ∀ e ∈ table, e.Fits price ↔ e.tickSize.toNat < 2 ^ 63 ∧ e.OnTick price :=
    fun e he => TickSizeEntry.fits_iff (htable.tick e he) hprice
  rw [checkPriceTickValid_eq_zero_iff hholds htable.five hm]
  by_cases hin : ∃ e ∈ table, e.Contains price
  · -- only this range and an open-ended one above the price apply
    obtain ⟨e, he, hcontains⟩ := hin
    have hspec : (∃ e ∈ table, e.Contains price ∧ e.OnTick price) ↔ e.OnTick price := by
      constructor
      · rintro ⟨e', he', hcontains', htick⟩
        rw [htable.eq_of_contains he he' hcontains hcontains']
        exact htick
      · exact fun htick => ⟨e, he, hcontains, htick⟩
    have hcheck : (∀ e ∈ table, e.Applies price → e.Fits price) ↔ e.Fits price ∧
        ∀ g ∈ table, g.OpensAbove price → g.tickSize.toNat < 2 ^ 63 ∧ g.OnTick price := by
      constructor
      · intro h
        refine ⟨h e he (TickSizeEntry.applies_iff.mpr (.inl hcontains)), fun g hg habove => ?_⟩
        exact (hfits g hg).mp (h g hg (TickSizeEntry.applies_iff.mpr (.inr habove)))
      · rintro ⟨hfit, habove⟩ g hg happlies
        obtain hg' | hg' := TickSizeEntry.applies_iff.mp happlies
        · rw [htable.eq_of_contains hg he hg' hcontains]
          exact hfit
        · exact (hfits g hg).mpr (habove g hg hg')
    have hagrees : TickAgrees table price ↔ (e.OnTick price → e.tickSize.toNat < 2 ^ 63 ∧
        ∀ g ∈ table, g.OpensAbove price → g.tickSize.toNat < 2 ^ 63 ∧ g.OnTick price) := by
      constructor
      · rintro (⟨e', he', hcontains', h⟩ | ⟨hout, -⟩)
        · rw [htable.eq_of_contains he he' hcontains hcontains']
          exact h
        · exact absurd hcontains (hout e he)
      · exact fun h => .inl ⟨e, he, hcontains, h⟩
    rw [hspec, hcheck, hagrees, hfits e he]
    constructor
    · intro h htick
      obtain ⟨⟨hsmall, -⟩, habove⟩ := h.mpr htick
      exact ⟨hsmall, habove⟩
    · intro h
      exact ⟨fun hboth => hboth.1.2, fun htick => ⟨⟨(h htick).1, htick⟩, (h htick).2⟩⟩
  · -- the check rejects only through an open-ended range above the price
    have hnone : ∀ e ∈ table, ¬e.Contains price := fun e he hc => hin ⟨e, he, hc⟩
    have hspec : ¬∃ e ∈ table, e.Contains price ∧ e.OnTick price := by
      rintro ⟨e, he, hc, -⟩
      exact hnone e he hc
    have hcheck : (∀ e ∈ table, e.Applies price → e.Fits price) ↔
        ∀ g ∈ table, g.OpensAbove price → g.tickSize.toNat < 2 ^ 63 ∧ g.OnTick price := by
      constructor
      · intro h g hg habove
        exact (hfits g hg).mp (h g hg (TickSizeEntry.applies_iff.mpr (.inr habove)))
      · intro h g hg happlies
        obtain hg' | hg' := TickSizeEntry.applies_iff.mp happlies
        · exact absurd hg' (hnone g hg)
        · exact (hfits g hg).mpr (h g hg hg')
    rw [iff_false_right hspec, hcheck]
    constructor
    · intro h
      refine .inr ⟨hnone, ?_⟩
      by_contra hall
      refine h fun g hg habove => ?_
      by_contra hbad
      exact hall ⟨g, hg, habove, hbad⟩
    · rintro (⟨e, he, hc, -⟩ | ⟨-, g, hg, habove, hbad⟩) hall
      · exact hnone e he hc
      · exact hbad (hall g hg habove)

/-- **Tick validation.**  From a directory without tick sizes, after any run of at most 32768
messages that sent a tick table for the symbol among others. -/
theorem tickCheck_follows_iff {msgs : List Bist.TickSizeTableEntry} {m₀ : SymbolMeta}
    (hempty : ∀ id m i, om.getSymbolmeta 0 id = some m → m.tickSizeTable i = none)
    (hknown : om.getSymbolmeta 0 id = some m₀) (hlen : msgs.length ≤ 32768)
    (htable : IsTickTable (sent id msgs))
    (hrun : exec handleTickSizeDefinitionBist om msgs = .ok om')
    (hm : om'.getSymbolmeta 0 id = some m) (hprice : 0 ≤ price) :
    (checkPriceTickValid price m om'.tickSizeEntryPool = 0 ↔
        ∃ e ∈ sent id msgs, e.Contains price ∧ e.OnTick price) ↔
      TickAgrees (sent id msgs) price := by
  have hown : TickOwners om om.tickSizeBistNextSlot [] := by
    refine ⟨rfl, fun id m i t hid ht => ?_⟩
    rw [hempty id m i hid] at ht
    cases ht
  have hholds : HoldsTable om id (sent id []) := by
    refine ⟨m₀, hknown, fun i => ?_⟩
    rw [hempty id m₀ i hknown]
    rfl
  have hfinal := holdsTable_run hown hholds (by rw [List.length_nil]; omega)
    (by rw [List.nil_append]; exact htable) hrun
  rw [List.nil_append] at hfinal
  exact tickCheck_agrees_iff htable hfinal hm hprice

/-- One instrument is in the directory. -/
def tickStore : OrderManager :=
  ({} : OrderManager).handleInstrumentDefinitionBist
    { orderBookId := 70, roundLotSize := 1, symbol := [65] }

/-- Ticks of 5 from 1 to 1000 and of 10 above, the upper range first. -/
def twoRanges : List Bist.TickSizeTableEntry :=
  [{ orderBookId := 70, tickSize := 10, priceFrom := 1001, priceTo := 0 },
    { orderBookId := 70, tickSize := 5, priceFrom := 1, priceTo := 1000 }]

def afterTicks (msgs : List Bist.TickSizeTableEntry) : OrderManager :=
  (exec handleTickSizeDefinitionBist tickStore msgs).toOption.getD {}

def tickMeta (msgs : List Bist.TickSizeTableEntry) : SymbolMeta :=
  ((afterTicks msgs).getSymbolmeta 0 70).getD { instrumentId := 70 }

theorem tickStore_empty (id : UInt32) (m : SymbolMeta) (i : Fin 5)
    (h : tickStore.getSymbolmeta 0 id = some m) : m.tickSizeTable i = none := by
  by_cases hid : id = 70
  · subst hid
    have hdefined : tickStore.getSymbolmeta 0 70 =
        some { instrumentId := 70, roundLotSize := 1, symbol := [65] } := rfl
    rw [← Option.some.inj (hdefined.symm.trans h)]
  · have hnone : tickStore.getSymbolmeta 0 id = none :=
      HashMap.lookup_emplace_of_ne ∅ _ hid
    rw [hnone] at h
    cases h

theorem isTickTable_twoRanges : IsTickTable (sent 70 twoRanges) := by
  have hsent : sent 70 twoRanges = [⟨1001, 0, 10⟩, ⟨1, 1000, 5⟩] := rfl
  rw [hsent]
  refine ⟨by decide, ?_, ?_, ?_⟩
  · simp only [List.forall_mem_cons, List.not_mem_nil, false_implies, implies_true, and_true]
    exact ⟨.inl rfl, .inr (by decide)⟩
  · simp only [List.forall_mem_cons, List.not_mem_nil, false_implies, implies_true, and_true]
    exact ⟨by decide, by decide⟩
  · refine List.pairwise_pair.mpr ?_
    rintro p ⟨⟨hfrom, -⟩, -, hto | hto⟩
    · exact absurd hto (by decide)
    · exact absurd (Int64.le_trans hfrom hto) (by decide)

theorem tickCheck_follows_iff_twoRanges :
    checkPriceTickValid 20 (tickMeta twoRanges) (afterTicks twoRanges).tickSizeEntryPool = 0 ↔
      ∃ e ∈ sent 70 twoRanges, e.Contains 20 ∧ e.OnTick 20 := by
  have hrun : exec handleTickSizeDefinitionBist tickStore twoRanges =
      .ok (afterTicks twoRanges) := rfl
  refine (tickCheck_follows_iff tickStore_empty rfl (by decide) isTickTable_twoRanges hrun rfl
    (by decide)).mpr ?_
  refine .inl ⟨⟨1, 1000, 5⟩, .tail _ (.head _), ⟨by decide, .inr (by decide)⟩, fun _ => ?_⟩
  refine ⟨by decide, fun g hg habove => ?_⟩
  obtain rfl | hg := List.mem_cons.mp hg
  · exact ⟨by decide, ⟨2, rfl⟩⟩
  · obtain rfl := List.mem_singleton.mp hg
    exact absurd habove.1 (by decide)

/-- The tick of the range above is asked of a price below it, and a price that is in no range
passes. -/
theorem tick_table_not_followed :
    (checkPriceTickValid 15 (tickMeta twoRanges) (afterTicks twoRanges).tickSizeEntryPool ≠ 0 ∧
      ∃ e ∈ sent 70 twoRanges, e.Contains 15 ∧ e.OnTick 15) ∧
    checkPriceTickValid 2003 (tickMeta twoRanges.tail)
        (afterTicks twoRanges.tail).tickSizeEntryPool = 0 ∧
      ¬∃ e ∈ sent 70 twoRanges.tail, e.Contains 2003 := by
  refine ⟨⟨by decide, ⟨1, 1000, 5⟩, .tail _ (.head _), ⟨by decide, .inr (by decide)⟩,
    ⟨3, rfl⟩⟩, by decide, ?_⟩
  rintro ⟨e, he, -, hto⟩
  obtain rfl := List.mem_singleton.mp he
  rcases hto with hto | hto
  · exact absurd hto (by decide)
  · exact absurd hto (by decide)

end TradingEngine
