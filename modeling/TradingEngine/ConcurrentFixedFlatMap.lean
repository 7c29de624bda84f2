/-
The fixed flat map over runs (`utils/CustomMap/ConcurrentFixedFlatMap.h`, `slot.h`).

A table of a power of two of slots, each with a key, a value and whether they count.  A key
is looked for from the slot its hash names, slot after slot with masked indices; `erase`
only marks its slot, so that the search passes over holes.

* `probe_eq_find` — the masked loop looks at every slot once, in the order of the ring;
* `table_insert`, `table_erase` — the calls are those of the table without what is left in
  unmarked slots;
* `iterate_eq` — the iterator stops at the marked slots, in their order;
* `concurrentFixedFlatMap_refines` — every sequence of calls returns what the finite map
  returns.
-/
import TradingEngine.FlatMap
import TradingEngine.Order
import TradingEngine.Refinement

namespace TradingEngine

open Refinement

/-- `Slot`: `valid` is the state `SlotState::Valid`. -/
structure Slot (κ ν : Type*) where
  key : κ
  value : ν
  valid : Bool
  deriving Inhabited

namespace Slot

variable {κ ν : Type*}

/-- `insert_slot`. -/
def insertSlot (_ : Slot κ ν) (k : κ) (v : ν) : Slot κ ν := ⟨k, v, true⟩

/-- `delete_slot`; the key and the value stay. -/
def deleteSlot (s : Slot κ ν) : Slot κ ν := { s with valid := false }

/-- What the slot stands for. -/
def entry (s : Slot κ ν) : Option (κ × ν) := if s.valid then some (s.key, s.value) else none

@[simp] theorem entry_insertSlot (s : Slot κ ν) (k : κ) (v : ν) :
    (s.insertSlot k v).entry = some (k, v) := rfl

@[simp] theorem entry_deleteSlot (s : Slot κ ν) : s.deleteSlot.entry = none := rfl

theorem isSome_entry (s : Slot κ ν) : s.entry.isSome = s.valid := by
  unfold entry
  cases s.valid with
  | true => rfl
  | false => rfl

theorem isNone_entry (s : Slot κ ν) : s.entry.isNone = !s.valid := by
  rw [← Option.not_isSome, isSome_entry]

theorem any_entry [DecidableEq κ] (s : Slot κ ν) (k : κ) :
    (s.entry.any fun e => e.1 = k) = (s.valid && decide (s.key = k)) := by
  unfold entry
  cases s.valid with
  | true => rfl
  | false => rfl

end Slot

/-- `ConcurrentFixedFlatMap`; the hash function is an argument of the calls. -/
structure ConcurrentFixedFlatMap (κ ν : Type*) (p : ℕ) where
  slots : Fin (2 ^ p) → Slot κ ν
  size : ℕ

namespace ConcurrentFixedFlatMap

variable {κ ν : Type*} {p : ℕ}

/-- `index_mask`. -/
def indexMask (p : ℕ) : ℕ := 2 ^ p - 1

/-- `max_load`. -/
def maxLoad (p : ℕ) : ℕ := 2 ^ p - 1

theorem and_indexMask_lt (i : ℕ) : i &&& indexMask p < 2 ^ p := by
  rw [indexMask, Nat.and_two_pow_sub_one_eq_mod]
  exact Nat.mod_lt i (Nat.two_pow_pos p)

/-- `i & index_mask`. -/
def slotAt (p i : ℕ) : Fin (2 ^ p) := ⟨i &&& indexMask p, and_indexMask_lt i⟩

theorem slotAt_eq (i : ℕ) : slotAt p i = Fin.ofNat (2 ^ p) i :=
  Fin.ext (Nat.and_two_pow_sub_one_eq_mod i p)

/-! ### The probing loop -/

/-- The loop of `insert`, `find` and `erase`: the first of the next `left` slots that
`wanted` accepts. -/
def probe (wanted : Fin (2 ^ p) → Bool) : (left : ℕ) → (probeIdx : Fin (2 ^ p)) →
    Option (Fin (2 ^ p))
  | 0, _ => none
  | left + 1, probeIdx =>
    if wanted probeIdx then some probeIdx else probe wanted left (slotAt p (probeIdx + 1))

theorem probe_eq (wanted : Fin (2 ^ p) → Bool) (left start : ℕ) :
    probe wanted left (slotAt p start) =
      ((List.range left).map fun i => Fin.ofNat (2 ^ p) (start + i)).find? wanted := by
  induction left generalizing start with
  | zero => rfl
  | succ left ih =>
    have hnext : slotAt p ((slotAt p start).val + 1) = slotAt p (start + 1) := by
      rw [slotAt_eq, slotAt_eq, slotAt_eq]
      exact Fin.ext (Nat.mod_add_mod start (2 ^ p) 1)
    have hrest : (List.range left).map (fun i => Fin.ofNat (2 ^ p) (start + (i + 1))) =
        (List.range left).map fun i => Fin.ofNat (2 ^ p) (start + 1 + i) :=
      List.map_congr_left fun i _ => by rw [Nat.add_comm i 1, ← Nat.add_assoc]
    rw [probe, hnext, ih, List.range_succ_eq_map, List.map_cons, List.map_map, List.find?_cons,
      Nat.add_zero, ← slotAt_eq]
    simp only [Function.comp_def, Nat.succ_eq_add_one, hrest]
    cases wanted (slotAt p start) with
    | true => rfl
    | false => rfl

/-- **The masked loop visits the ring once.** -/
theorem probe_eq_find (wanted : Fin (2 ^ p) → Bool) (start : ℕ) :
    probe wanted (2 ^ p) (slotAt p start) = (FlatMap.probes (2 ^ p) start).find? wanted :=
  probe_eq wanted (2 ^ p) start

/-! ### The calls -/

/-- `end()`. -/
def ending (_ : ConcurrentFixedFlatMap κ ν p) : ℕ := 2 ^ p

/-- `operator*` of an iterator; there is nothing behind the last slot. -/
def deref (m : ConcurrentFixedFlatMap κ ν p) (it : ℕ) : Option (κ × ν) :=
  if h : it < 2 ^ p then some ((m.slots ⟨it, h⟩).key, (m.slots ⟨it, h⟩).value) else none

/-- `insert`: the table, the iterator and whether there was room. -/
def insert (hash : κ → ℕ) (m : ConcurrentFixedFlatMap κ ν p) (k : κ) (v : ν) :
    ConcurrentFixedFlatMap κ ν p × ℕ × Bool :=
  if maxLoad p ≤ m.size then (m, m.ending, false)
  else
    match probe (fun i => !(m.slots i).valid) (2 ^ p) (slotAt p (hash k)) with
    | none => (m, m.ending, false)
    | some i =>
      ({ slots := Function.update m.slots i ((m.slots i).insertSlot k v), size := m.size + 1 },
        i, true)

variable [DecidableEq κ]

/-- The slot of a key on its way, in `find` and `erase`. -/
def slotOf (hash : κ → ℕ) (m : ConcurrentFixedFlatMap κ ν p) (k : κ) : Option (Fin (2 ^ p)) :=
  probe (fun i => (m.slots i).valid && decide ((m.slots i).key = k)) (2 ^ p) (slotAt p (hash k))

/-- `find`. -/
def find (hash : κ → ℕ) (m : ConcurrentFixedFlatMap κ ν p) (k : κ) : ℕ :=
  match m.slotOf hash k with
  | none => m.ending
  | some i => i

/-- `erase`: the table and whether the key was there. -/
def erase (hash : κ → ℕ) (m : ConcurrentFixedFlatMap κ ν p) (k : κ) :
    ConcurrentFixedFlatMap κ ν p × Bool :=
  match m.slotOf hash k with
  | none => (m, false)
  | some i =>
    ({ slots := Function.update m.slots i (m.slots i).deleteSlot, size := m.size - 1 }, true)

omit [DecidableEq κ]

/-- `clear`. -/
def clear (m : ConcurrentFixedFlatMap κ ν p) : ConcurrentFixedFlatMap κ ν p where
  slots i := (m.slots i).deleteSlot
  size := 0

/-! ### The iterator -/

/-- `advance_to_valid`. -/
def advanceToValid (m : ConcurrentFixedFlatMap κ ν p) (ptr : ℕ) : ℕ :=
  if h : ptr < 2 ^ p then
    if (m.slots ⟨ptr, h⟩).valid then ptr else m.advanceToValid (ptr + 1)
  else ptr
termination_by 2 ^ p - ptr

theorem le_advanceToValid (m : ConcurrentFixedFlatMap κ ν p) (ptr : ℕ) :
    ptr ≤ m.advanceToValid ptr := by
  fun_induction advanceToValid m ptr with
  | case1 => exact le_rfl
  | case2 ptr h hvalid ih => omega
  | case3 => exact le_rfl

/-- `begin()`. -/
def beginning (m : ConcurrentFixedFlatMap κ ν p) : ℕ := m.advanceToValid 0

/-- `operator++`. -/
def next (m : ConcurrentFixedFlatMap κ ν p) (it : ℕ) : ℕ := m.advanceToValid (it + 1)

/-- What a loop sees that starts at an iterator and stops at `end()`. -/
def visit (m : ConcurrentFixedFlatMap κ ν p) (it : ℕ) : List (κ × ν) :=
  if h : it < 2 ^ p then
    ((m.slots ⟨it, h⟩).key, (m.slots ⟨it, h⟩).value) :: m.visit (m.next it)
  else []
termination_by 2 ^ p - it
decreasing_by
  have hle := m.le_advanceToValid (it + 1)
  show 2 ^ p - m.advanceToValid (it + 1) < 2 ^ p - it
  omega

/-- A loop from `begin()` to `end()`. -/
def iterate (m : ConcurrentFixedFlatMap κ ν p) : List (κ × ν) := m.visit m.beginning

/-- The loop sees the valid slots from where it is on. -/
theorem visit_advanceToValid (m : ConcurrentFixedFlatMap κ ν p) {it : ℕ} (hit : it ≤ 2 ^ p) :
    m.visit (m.advanceToValid it) =
      ((List.finRange (2 ^ p)).drop it).filterMap fun i => (m.slots i).entry := by
  induction hleft : 2 ^ p - it generalizing it with
  | zero =>
    have hend : it = 2 ^ p := by omega
    rw [List.drop_of_length_le (by rw [List.length_finRange]; omega), List.filterMap_nil,
      advanceToValid, dif_neg (by omega), visit, dif_neg (by omega)]
  | succ left ih =>
    have hlt : it < 2 ^ p := by omega
    have hrest := @ih (it + 1) (by omega) (by omega)
    have hdrop : (List.finRange (2 ^ p)).drop it =
        ⟨it, hlt⟩ :: (List.finRange (2 ^ p)).drop (it + 1) := by
      rw [List.drop_eq_getElem_cons (by rw [List.length_finRange]; exact hlt),
        List.getElem_finRange]
      rfl
    rw [hdrop, advanceToValid, dif_pos hlt]
    cases hvalid : (m.slots ⟨it, hlt⟩).valid with
    | true =>
      have hentry : (m.slots ⟨it, hlt⟩).entry =
          some ((m.slots ⟨it, hlt⟩).key, (m.slots ⟨it, hlt⟩).value) := if_pos hvalid
      rw [if_pos rfl, visit, dif_pos hlt, next, hrest, List.filterMap_cons, hentry]
    | false =>
      have hentry : (m.slots ⟨it, hlt⟩).entry = none := by
        rw [Slot.entry, hvalid]
        rfl
      rw [if_neg (by simp), hrest, List.filterMap_cons, hentry]

/-! ### The table without the holes -/

/-- The entries of the valid slots. -/
def table (m : ConcurrentFixedFlatMap κ ν p) : FlatMap κ ν (2 ^ p) where
  slots i := (m.slots i).entry
  size := m.size

/-- **The iterator sees every valid slot once.** -/
theorem iterate_eq (m : ConcurrentFixedFlatMap κ ν p) : m.iterate = m.table.entries :=
  m.visit_advanceToValid (Nat.zero_le _)

theorem entry_update (slots : Fin (2 ^ p) → Slot κ ν) (i : Fin (2 ^ p)) (s : Slot κ ν) :
    (fun j => (Function.update slots i s j).entry) =
      Function.update (fun j => (slots j).entry) i s.entry := by
  funext j
  by_cases hj : j = i
  · rw [hj, Function.update_self, Function.update_self]
  · rw [Function.update_of_ne hj, Function.update_of_ne hj]

variable (hash : κ → ℕ) (m : ConcurrentFixedFlatMap κ ν p) (k : κ) (v : ν)

theorem table_insert :
    ((m.insert hash k v).1.table, (m.insert hash k v).2.2) = m.table.insert (hash k) k v := by
  have hempty : (fun i => (m.table.slots i).isNone) = fun i => !(m.slots i).valid := by
    funext i
    exact (m.slots i).isNone_entry
  unfold insert FlatMap.insert
  rw [probe_eq_find, hempty]
  by_cases hfull : maxLoad p ≤ m.size
  · rw [if_pos hfull, if_pos (show 2 ^ p - 1 ≤ m.table.size from hfull)]
  · rw [if_neg hfull, if_neg (show ¬2 ^ p - 1 ≤ m.table.size from hfull)]
    cases (FlatMap.probes (2 ^ p) (hash k)).find? fun i => !(m.slots i).valid with
    | none => rfl
    | some i =>
      simp only [table, entry_update, Slot.entry_insertSlot]

variable [DecidableEq κ]

theorem slotOf_eq : m.slotOf hash k = m.table.index (hash k) k := by
  rw [slotOf, probe_eq_find, FlatMap.index]
  congr 1
  funext i
  exact ((m.slots i).any_entry k).symm

theorem table_erase : (m.erase hash k).1.table = m.table.erase (hash k) k := by
  unfold erase FlatMap.erase
  rw [slotOf_eq]
  cases m.table.index (hash k) k with
  | none => rfl
  | some i => simp only [table, entry_update, Slot.entry_deleteSlot]

omit [DecidableEq κ] in
theorem deref_ending : m.deref m.ending = none := dif_neg (lt_irrefl _)

omit [DecidableEq κ] in
theorem deref_slot (i : Fin (2 ^ p)) : m.deref i = some ((m.slots i).key, (m.slots i).value) :=
  dif_pos i.isLt

omit [DecidableEq κ] in
/-- The iterator of an insertion stands at the new entry. -/
theorem deref_insert :
    (m.insert hash k v).1.deref (m.insert hash k v).2.1 =
      if (m.insert hash k v).2.2 then some (k, v) else none := by
  unfold insert
  split
  · exact m.deref_ending
  · split
    · exact m.deref_ending
    · rw [if_pos rfl, deref_slot]
      simp only [Function.update_self, Slot.insertSlot]

/-- The iterator of a search stands at the entry that was found. -/
theorem deref_find : m.deref (m.find hash k) = (m.table.find (hash k) k).map fun w => (k, w) := by
  unfold find FlatMap.find
  rw [slotOf_eq]
  cases hindex : m.table.index (hash k) k with
  | none => exact m.deref_ending
  | some i =>
    obtain ⟨w, hw⟩ := FlatMap.index_eq_some hindex
    rw [Option.bind_some, hw]
    show m.deref i = some (k, w)
    have hentry : (m.slots i).entry = some (k, w) := hw
    unfold Slot.entry at hentry
    split at hentry
    · rw [deref_slot, hentry]
    · cases hentry

theorem erase_snd : (m.erase hash k).2 = (m.table.find (hash k) k).isSome := by
  unfold erase FlatMap.find
  rw [slotOf_eq]
  cases hindex : m.table.index (hash k) k with
  | none => rfl
  | some i =>
    obtain ⟨w, hw⟩ := FlatMap.index_eq_some hindex
    rw [Option.bind_some, hw]
    rfl

end ConcurrentFixedFlatMap

/-! ### The interface -/

/-- A call of the map, or a loop over it. -/
inductive FlatMapOp (κ ν : Type*)
  | insert (k : κ) (v : ν)
  | find (k : κ)
  | erase (k : κ)
  | clear
  | size
  | iterate

/-- What a call returns: iterators by the entry they stand at, a loop by what it saw. -/
inductive FlatMapResult (κ ν : Type*)
  | inserted (e : Option (κ × ν)) (ok : Bool)
  | found (e : Option (κ × ν))
  | erased (ok : Bool)
  | count (k : ℕ)
  | visited (seen : Multiset (κ × ν))
  | done

section Interface

variable {κ ν : Type*} [DecidableEq κ] {p : ℕ}

/-- The calls on the table. -/
def ConcurrentFixedFlatMap.call (hash : κ → ℕ) (m : ConcurrentFixedFlatMap κ ν p) :
    FlatMapOp κ ν → ConcurrentFixedFlatMap κ ν p × FlatMapResult κ ν
  | .insert k v =>
    ((m.insert hash k v).1,
      .inserted ((m.insert hash k v).1.deref (m.insert hash k v).2.1) (m.insert hash k v).2.2)
  | .find k => (m, .found (m.deref (m.find hash k)))
  | .erase k => ((m.erase hash k).1, .erased (m.erase hash k).2)
  | .clear => (m.clear, .done)
  | .size => (m, .count m.size)
  | .iterate => (m, .visited m.iterate)

/-- The calls on a finite map of at most `capacity` keys. -/
def finmapCall (capacity : ℕ) (t : Finmap fun _ : κ => ν) :
    FlatMapOp κ ν → (Finmap fun _ : κ => ν) × FlatMapResult κ ν
  | .insert k v =>
    if t.keys.card < capacity then (t.insert k v, .inserted (some (k, v)) true)
    else (t, .inserted none false)
  | .find k => (t, .found ((t.lookup k).map fun v => (k, v)))
  | .erase k => (t.erase k, .erased (k ∈ t))
  | .clear => (∅, .done)
  | .size => (t, .count t.keys.card)
  | .iterate => (t, .visited (t.entries.map fun e => (e.1, e.2)))

/-- Only keys that are not in the map are inserted. -/
def insertsNew (t : Finmap fun _ : κ => ν) : FlatMapOp κ ν → Prop
  | .insert k _ => k ∉ t
  | _ => True

/-- An insertion of a new key. -/
theorem call_insert {m : ConcurrentFixedFlatMap κ ν p} {t : Finmap fun _ : κ => ν} {k : κ}
    (h : m.table.Represents t) (hnew : k ∉ t) (hash : κ → ℕ) (v : ν) :
    (m.call hash (.insert k v)).2 = (finmapCall (2 ^ p - 1) t (.insert k v)).2 ∧
      (m.call hash (.insert k v)).1.table.Represents
        (finmapCall (2 ^ p - 1) t (.insert k v)).1 := by
  obtain ⟨htable, hok⟩ := Prod.ext_iff.mp (ConcurrentFixedFlatMap.table_insert hash m k v)
  have hsize := h.size_eq
  simp only [ConcurrentFixedFlatMap.call, finmapCall, ConcurrentFixedFlatMap.deref_insert]
  dsimp only at htable hok
  by_cases hroom : t.keys.card < 2 ^ p - 1
  · obtain ⟨i, -, hcase⟩ := FlatMap.insert_cases h.wellFormed (by omega) (hash k) k v
    have hrep := h.insert (by omega) hnew (hash k) v
    rw [hok, htable, if_pos hroom]
    rw [hcase] at hrep ⊢
    exact ⟨rfl, hrep⟩
  · rw [hok, htable, FlatMap.insert_refused (by omega), if_neg hroom]
    exact ⟨rfl, h⟩

/-- One call on the table is the call on the finite map. -/
theorem call_simulates_finmap (hash : κ → ℕ) :
    Simulates (fun (m : ConcurrentFixedFlatMap κ ν p) t => m.table.Represents t) insertsNew
      (ConcurrentFixedFlatMap.call hash) (finmapCall (2 ^ p - 1)) := by
  constructor
  · intro m t op h hpre
    cases op with
    | insert k v => exact (call_insert h hpre hash v).1
    | find k =>
      show FlatMapResult.found _ = .found _
      rw [m.deref_find, h.find_eq]
    | erase k =>
      have hmem : (t.lookup k).isSome = decide (k ∈ t) := by
        rw [Bool.eq_iff_iff, Finmap.lookup_isSome, decide_eq_true_eq]
      show FlatMapResult.erased _ = .erased _
      rw [m.erase_snd, h.find_eq, hmem]
    | clear => rfl
    | size => exact congrArg FlatMapResult.count h.size_eq
    | iterate =>
      show FlatMapResult.visited _ = .visited _
      rw [m.iterate_eq, h.entries_eq]
  · intro m t op h hpre
    cases op with
    | insert k v => exact (call_insert h hpre hash v).2
    | find k => exact h
    | erase k =>
      show (m.erase hash k).1.table.Represents (t.erase k)
      rw [m.table_erase]
      exact h.erase _ _
    | clear => exact .empty
    | size => exact h
    | iterate => exact h

end Interface

/-- The map as it is constructed. -/
def ConcurrentFixedFlatMap.new {κ ν : Type*} [Inhabited κ] [Inhabited ν] (p : ℕ) :
    ConcurrentFixedFlatMap κ ν p where
  slots _ := ⟨default, default, false⟩
  size := 0

/-- **The table is a finite map.**  For every power of two of slots and every hash function,
a sequence of calls that inserts no key twice returns what the finite map of one key less
than there are slots returns, and leaves its entries. -/
theorem concurrentFixedFlatMap_refines {κ ν : Type*} [DecidableEq κ] [Inhabited κ] [Inhabited ν]
    (p : ℕ) (hash : κ → ℕ) (ops : List (FlatMapOp κ ν))
    (hops : Legal (finmapCall (2 ^ p - 1)) insertsNew ∅ ops) :
    results (ConcurrentFixedFlatMap.call hash) (ConcurrentFixedFlatMap.new p) ops =
        results (finmapCall (2 ^ p - 1)) ∅ ops ∧
      (final (ConcurrentFixedFlatMap.call hash) (ConcurrentFixedFlatMap.new p) ops).table.Represents
        (final (finmapCall (2 ^ p - 1)) ∅ ops) := by
  have hnew : (ConcurrentFixedFlatMap.new p : ConcurrentFixedFlatMap κ ν p).table.Represents ∅ :=
    .empty
  exact ⟨(call_simulates_finmap hash).results_eq hnew hops,
    (call_simulates_finmap hash).final_rel hnew hops⟩

/-- Two keys of one hash in four slots: the second is found behind the hole of the first. -/
theorem concurrentFixedFlatMap_refines_collision :
    Legal (finmapCall 3) insertsNew (∅ : Finmap fun _ : ℕ => ℕ)
        [.insert 1 10, .insert 5 50, .erase 1, .find 5, .insert 1 11, .iterate] ∧
      results (ConcurrentFixedFlatMap.call fun k => k % 4) (ConcurrentFixedFlatMap.new 2)
          [.insert 1 10, .insert 5 50, .erase 1, .find 5, .insert 1 11, .iterate] =
        [.inserted (some (1, 10)) true, .inserted (some (5, 50)) true, .erased true,
          .found (some (5, 50)), .inserted (some (1, 11)) true, .visited {(1, 11), (5, 50)}] := by
  have hops : Legal (finmapCall 3) insertsNew (∅ : Finmap fun _ : ℕ => ℕ)
      [.insert 1 10, .insert 5 50, .erase 1, .find 5, .insert 1 11, .iterate] := by
    simp only [Legal, insertsNew, finmapCall]
    decide
  exact ⟨hops, (concurrentFixedFlatMap_refines 2 (fun k => k % 4) _ hops).1⟩

end TradingEngine
