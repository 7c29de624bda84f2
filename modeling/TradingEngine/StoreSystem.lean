/-
The store with its surroundings: parser, order manager, database thread.

A message object is taken from the free list of its type, filled, and sent
through `store` and the pipeline of wrappers; the database thread passes it back
to the parser, which puts it into its free list again.

* `StoreSystem.HandsOver` — the message that is handled is pushed to the database
  once or deferred once;
* `StoreSystem.NotLost` — its disposition is not one of those that hand it to
  nobody;
* `store_loses_nothing_iff` — along a run the two are the same, and in a run
  without lost messages every pooled message is in its free list or on its way,
  once, and is returned when the database thread and the parser go on.
-/
import TradingEngine.StoreFront

namespace TradingEngine

open FallibleRun

/-! ### Pooled messages -/

/-- The place of a message type among the alternatives of its protocol. -/
def Bist.ItchMessage.alternative : Bist.ItchMessage → ℕ
  | .seconds => 0
  | .orderBookDirectory _ => 1
  | .combinationOrderBookLeg => 2
  | .tickSizeTableEntry _ => 3
  | .shortSellStatus => 4
  | .systemEvent _ => 5
  | .orderBookState _ => 6
  | .addOrder _ => 7
  | .orderExecuted _ => 8
  | .orderExecutedWithPrice _ => 9
  | .orderDelete _ => 10
  | .orderBookFlush _ => 11
  | .trade _ => 12
  | .equilibriumPriceUpdate => 13

def Nasdaq.ItchMessage.alternative : Nasdaq.ItchMessage → ℕ
  | .addOrder _ => 0
  | .addOrderMpid _ => 1
  | .cancel _ => 2
  | .executed _ => 3
  | .executedWithPrice _ => 4
  | .delete _ => 5
  | .replace _ => 6
  | .trade _ => 7
  | .systemEvent _ => 8
  | .stockDirectory _ => 9
  | .tradingState _ => 10

def Bist.OuchMessage.alternative : Bist.OuchMessage → ℕ
  | .accepted _ => 0
  | .rejected _ => 1
  | .replaced _ => 2
  | .cancelled _ => 3
  | .executed _ => 4

def Nasdaq.OuchMessage.alternative : Nasdaq.OuchMessage → ℕ
  | .systemEvent => 0
  | .accepted _ => 1
  | .replaced _ => 2
  | .cancelled _ => 3
  | .executed _ => 4
  | .rejected _ => 5
  | .brokenTrade _ => 6
  | .modified _ => 7
  | .cancelPending _ => 8
  | .cancelReject _ => 9
  | .accountQueryResponse => 10

/-- A message type; each has a pool and a free list of its own. -/
abbrev MessagePool := MessageKind × ℕ

def StoreMessage.pool : StoreMessage → MessagePool
  | .fix _ => (.fix, 0)
  | .fixSession _ => (.fixSession, 0)
  | .bistItch m => (.bistItch, m.alternative)
  | .nasdaqItch m => (.nasdaqItch, m.alternative)
  | .bistOuch m => (.bistOuch, m.alternative)
  | .nasdaqOuch m => (.nasdaqOuch, m.alternative)

/-- A message object: its pool and its place in it. -/
structure PooledMessage where
  pool : MessagePool
  index : ℕ
  deriving DecidableEq, Repr

def PooledMessage.kind (obj : PooledMessage) : MessageKind := obj.pool.1

/-! ### The system -/

structure StoreSystem extends StoreFront PooledMessage where
  free : MessagePool → List PooledMessage := fun _ => []
  content : PooledMessage → StoreMessage := fun _ => .fixSession {}

inductive StoreEvent
  /-- the parser takes an object from a free list, fills it and hands it over -/
  | parse (msg : StoreMessage)
  /-- `store` chooses the message it will handle -/
  | take
  /-- `store` handles it -/
  | handle
  /-- `ClickhouseWriter::store` -/
  | write
  /-- one round of `flush_DbQueue` -/
  | flush
  /-- the strategy, risk and builder threads change orders and maps -/
  | others (om : OwnManager)

namespace StoreSystem

/-- The parsers of a fresh engine: every object of a pool is free. -/
def start (om : OwnManager) (size : MessagePool → ℕ) : StoreSystem :=
  { om := om, free := fun pool => (List.range (size pool)).map fun i => ⟨pool, i⟩ }

/-- `acquire`, `parse` and the hand-over; an empty free list leaves a null
pointer. -/
def parse (s : StoreSystem) (msg : StoreMessage) : Except Fault StoreSystem :=
  match s.free msg.pool with
  | [] => .error .nullDereference
  | obj :: rest =>
    .ok { s with
      free := Function.update s.free msg.pool rest
      content := Function.update s.content obj msg
      pipe := s.pipe.give obj }

/-- `store` up to its second read of `canModify`, and from there on. -/
def take (s : StoreSystem) : Except Fault StoreSystem :=
  s.toStoreFront.take.map fun f => { s with toStoreFront := f }

def handle (hash : List UInt8 → UInt64) (s : StoreSystem) : Except Fault StoreSystem :=
  (s.toStoreFront.handle hash PooledMessage.kind s.content).map fun f =>
    { s with toStoreFront := f }

/-- What is released goes to the free list of its pool. -/
def flush (s : StoreSystem) : Except Fault StoreSystem :=
  s.pipe.flush.map fun p =>
    { s with
      pipe := p
      free := fun pool =>
        s.free pool ++ (p.released.drop s.pipe.released.length).filter (·.pool = pool) }

def step (hash : List UInt8 → UInt64) (s : StoreSystem) : StoreEvent → Except Fault StoreSystem
  | .parse msg => s.parse msg
  | .take => s.take
  | .handle => s.handle hash
  | .write => .ok { s with pipe := s.pipe.write }
  | .flush => s.flush
  | .others om => .ok { s with om := om }

/-- The messages given to the store and not yet handled. -/
def toStore (s : StoreSystem) : List PooledMessage :=
  s.pipe.parserToStore.items.filterMap s.pipe.msgWrappers.slots ++
    s.pipe.pendingToStrategy.items.filterMap (fun q => (s.pipe.packet q).map Prod.fst) ++
    s.inHand.toList

/-- The messages on their way back from the store. -/
def fromStore (s : StoreSystem) : List PooledMessage :=
  s.pipe.storeToDb.items.filterMap (fun d => (s.pipe.item d).join) ++
    s.pipe.dbToParser.items.filterMap fun d => (s.pipe.item d).join

/-- A message given to the parser has an object, a step takes no ring slot that
is still pointed to, and pushes to no full queue. -/
def Ready (hash : List UInt8 → UInt64) (s : StoreSystem) : StoreEvent → Prop
  | .parse msg => ∀ obj, (s.free msg.pool).head? = some obj →
      s.pipe.Ready PooledMessage.kind (.give obj)
  | .take => s.TakeReady PooledMessage.kind
  | .handle => s.HandleReady hash PooledMessage.kind s.content
  | .write => s.pipe.Ready PooledMessage.kind .write
  | .flush => True
  | .others _ => True

/-- The message that is handled is pushed to the database once or deferred
once. -/
def HandsOver (hash : List UInt8 → UInt64) (s : StoreSystem) : StoreEvent → Prop
  | .handle => ∀ obj om, s.inHand = some obj →
      OwnManager.update hash s.om.drained (s.content obj) = .ok om →
      om.outputs.countP StoreOut.isHandOver = 1
  | _ => True

/-- The message that is handled is not one that the handler hands to nobody. -/
def NotLost (hash : List UInt8 → UInt64) (s : StoreSystem) : StoreEvent → Prop
  | .handle => ∀ obj, s.inHand = some obj →
      (OwnManager.disposition hash s.om.drained (s.content obj)).lost = false
  | _ => True

end StoreSystem

/-! ### Counting the objects -/

namespace Ledger

variable {ω : Type}

/-- The messages given to the store and not yet handled. -/
def toStore (l : Ledger ω) : List ω :=
  l.parserToStore ++ l.pendingToStrategy.map Prod.fst ++ l.inHand.toList

/-- The messages on their way back from the store. -/
def fromStore (l : Ledger ω) : List ω := l.storeToDb.filterMap id ++ l.dbToParser

variable [DecidableEq ω]

/-- How often an object is on its way. -/
def count (l : Ledger ω) (o : ω) : ℕ := l.toStore.count o + l.fromStore.count o

theorem count_emit (obj : ω) (l : Ledger ω) (out : StoreOut) (o : ω) :
    (l.emit obj out).count o = l.count o + if out.isHandOver ∧ obj = o then 1 else 0 := by
  cases out with
  | order slot => simp [count, emit, toStore, fromStore, StoreOut.isHandOver]
  | message =>
    simp only [count, emit, toStore, fromStore, StoreOut.isHandOver, List.filterMap_append,
      List.filterMap_cons, List.filterMap_nil, id, List.count_append, List.count_cons,
      List.count_nil, true_and, beq_iff_eq]
    omega
  | defer slot =>
    simp only [count, emit, toStore, fromStore, StoreOut.isHandOver, List.map_append, List.map_cons,
      List.map_nil, List.count_append, List.count_cons, List.count_nil, true_and, beq_iff_eq]
    omega

theorem count_foldl (obj : ω) (outs : List StoreOut) (l : Ledger ω) (o : ω) :
    (outs.foldl (emit obj) l).count o =
      l.count o + if obj = o then outs.countP StoreOut.isHandOver else 0 := by
  induction outs generalizing l with
  | nil => simp
  | cons out outs ih =>
    rw [List.foldl_cons, ih, count_emit, List.countP_cons]
    by_cases ho : obj = o
    · simp only [ho, and_true, if_true]
      omega
    · simp only [ho, and_false, if_false, Nat.add_zero]

theorem count_give (l : Ledger ω) (obj o : ω) :
    (l.step (.give obj)).count o = l.count o + if obj = o then 1 else 0 := by
  simp only [count, step, toStore, fromStore, List.count_append, List.count_cons, List.count_nil,
    beq_iff_eq]
  omega

theorem count_takeNew {l : Ledger ω} (hhand : l.inHand = none) (o : ω) :
    (l.step .takeNew).count o = l.count o := by
  cases hq : l.parserToStore with
  | nil => simp only [step, hq]
  | cons obj rest =>
    simp only [step, hq, count, toStore, fromStore, hhand, Option.toList, List.count_append,
      List.count_cons, List.count_nil]
    omega

theorem count_takePending {l : Ledger ω} (hhand : l.inHand = none) (o : ω) :
    (l.step .takePending).count o = l.count o := by
  cases hq : l.pendingToStrategy with
  | nil => simp only [step, hq]
  | cons x rest =>
    simp only [step, hq, count, toStore, fromStore, hhand, Option.toList, List.map_cons,
      List.count_append, List.count_cons, List.count_nil]
    omega

/-- A message that is handed over once stays on its way. -/
theorem count_handle {l : Ledger ω} {outs : List StoreOut}
    (houts : outs.countP StoreOut.isHandOver = 1) (o : ω) :
    (l.step (.handle outs)).count o = l.count o := by
  cases hhand : l.inHand with
  | none => simp only [step, hhand]
  | some obj =>
    simp only [step, hhand]
    rw [count_foldl, houts]
    simp only [count, toStore, fromStore, hhand, Option.toList, List.count_append, List.count_cons,
      List.count_nil, beq_iff_eq]
    omega

theorem count_write (l : Ledger ω) (o : ω) : (l.step .write).count o = l.count o := by
  cases hq : l.storeToDb with
  | nil => simp only [step, hq]
  | cons x rest =>
    cases x with
    | none => simp [step, hq, count, toStore, fromStore]
    | some obj =>
      simp only [step, hq, count, toStore, fromStore, List.filterMap_cons, id, List.count_append,
        List.count_cons, List.count_nil]
      omega

theorem count_flush {l : Ledger ω} {obj : ω} {rest : List ω} (hq : l.dbToParser = obj :: rest)
    (o : ω) : (l.step .flush).count o + (if obj = o then 1 else 0) = l.count o := by
  simp only [step, hq, count, toStore, fromStore, List.count_append, List.count_cons, beq_iff_eq]
  omega

end Ledger

namespace StoreSystem

variable {hash : List UInt8 → UInt64} {size : MessagePool → ℕ} {s s' : StoreSystem}
  {l : Ledger PooledMessage}

theorem toStore_eq (h : s.pipe.Represents l) : s.toStore = l.toStore := by
  have hpending : s.pipe.pendingToStrategy.items.map (fun q => (s.pipe.packet q).map Prod.fst) =
      (l.pendingToStrategy.map Prod.fst).map some := by
    have hmap := congrArg (List.map (Option.map Prod.fst)) h.pending
    rw [List.map_map, List.map_map] at hmap
    rw [List.map_map]
    exact hmap
  rw [toStore, Ledger.toStore, filterMap_of_map_some h.queue, filterMap_of_map_some hpending,
    StoreFront.inHand_eq h]

theorem fromStore_eq (h : s.pipe.Represents l) : s.fromStore = l.fromStore := by
  have hdb : s.pipe.storeToDb.items.filterMap (fun d => (s.pipe.item d).join) =
      l.storeToDb.filterMap id := by
    have hmap := congrArg (List.filterMap Option.join) h.db
    rw [List.filterMap_map, List.filterMap_map] at hmap
    exact hmap
  have hback : s.pipe.dbToParser.items.map (fun d => (s.pipe.item d).join) =
      l.dbToParser.map some := by
    have hmap := congrArg (List.map Option.join) h.back
    rw [List.map_map, List.map_map] at hmap
    exact hmap
  rw [fromStore, Ledger.fromStore, hdb, filterMap_of_map_some hback]

/-- Every object of every pool is once in its free list or on its way. -/
def Accounted (size : MessagePool → ℕ) (free : MessagePool → List PooledMessage)
    (l : Ledger PooledMessage) : Prop :=
  ∀ o : PooledMessage,
    (free o.pool).count o + l.count o = if o.index < size o.pool then 1 else 0

/-- The state of a run that has lost nothing. -/
structure Sound (size : MessagePool → ℕ) (s : StoreSystem) (l : Ledger PooledMessage) : Prop where
  represents : s.pipe.Represents l
  pool : ∀ pool, ∀ o ∈ s.free pool, o.pool = pool
  accounted : Accounted size s.free l

theorem sound_start (om : OwnManager) : (start om size).Sound size {} := by
  refine ⟨Pipeline.represents_start, ?_, ?_⟩
  · intro pool o ho
    obtain ⟨i, -, rfl⟩ := List.mem_map.mp ho
    rfl
  · intro o
    have hcount : ((start om size).free o.pool).count o =
        (List.range (size o.pool)).count o.index := by
      show ((List.range (size o.pool)).map fun i => (⟨o.pool, i⟩ : PooledMessage)).count o = _
      refine List.count_map_of_injective _ (fun i => (⟨o.pool, i⟩ : PooledMessage)) ?_ o.index
      intro i j hij
      exact congrArg PooledMessage.index hij
    rw [hcount]
    simp only [Ledger.count, Ledger.toStore, Ledger.fromStore]
    by_cases hi : o.index < size o.pool
    · rw [if_pos hi]
      simpa using List.count_eq_one_of_mem List.nodup_range (List.mem_range.mpr hi)
    · rw [if_neg hi]
      simpa using hi

theorem sound_parse (h : s.Sound size l) {msg : StoreMessage}
    (hready : s.Ready hash (.parse msg)) (hs : s.parse msg = .ok s') :
    ∃ l', s'.Sound size l' := by
  unfold parse at hs
  cases hfree : s.free msg.pool with
  | nil => simp [hfree] at hs
  | cons obj rest =>
    simp only [hfree, Except.ok.injEq] at hs
    subst hs
    have hpool : obj.pool = msg.pool := h.pool msg.pool obj (by simp [hfree])
    have hobj := hready obj (by rw [hfree, List.head?_cons])
    refine ⟨l.step (.give obj),
      Pipeline.represents_give h.represents hobj.1 hobj.2 obj, ?_, ?_⟩
    · intro pool o ho
      by_cases hp : pool = msg.pool
      · rw [hp] at ho ⊢
        simp only [Function.update_self] at ho
        exact h.pool msg.pool o (by rw [hfree]; exact List.mem_cons_of_mem obj ho)
      · simp only [Function.update_of_ne hp] at ho
        exact h.pool pool o ho
    · intro o
      have hacc := h.accounted o
      show (Function.update s.free msg.pool rest o.pool).count o + (l.step (.give obj)).count o = _
      rw [Ledger.count_give, ← hacc]
      by_cases hp : o.pool = msg.pool
      · rw [hp, Function.update_self, hfree, List.count_cons]
        simp only [beq_iff_eq]
        omega
      · have hne : obj ≠ o := by
          rintro rfl
          exact hp hpool
        rw [Function.update_of_ne hp, if_neg hne, Nat.add_zero]

/-- A step of the pipeline that leaves the free lists alone and loses nothing. -/
theorem Sound.of_count (h : s.Sound size l) {f : StoreFront PooledMessage}
    {l' : Ledger PooledMessage} (hp : f.pipe.Represents l')
    (hcount : ∀ o, l'.count o = l.count o) : { s with toStoreFront := f }.Sound size l' := by
  refine ⟨hp, h.pool, fun o => ?_⟩
  rw [hcount o]
  exact h.accounted o

theorem sound_take (h : s.Sound size l) (hready : s.Ready hash .take) (hs : s.take = .ok s') :
    ∃ l', s'.Sound size l' := by
  obtain ⟨f, hf, rfl⟩ := map_eq_ok_iff.mp hs
  obtain ⟨-, rfl⟩ | ⟨hhand, -, -, hrep⟩ | ⟨hhand, -, -, hrep⟩ :=
    StoreFront.represents_take h.represents hready hf
  · exact ⟨l, h⟩
  · exact ⟨_, h.of_count hrep (Ledger.count_takePending hhand)⟩
  · exact ⟨_, h.of_count hrep (Ledger.count_takeNew hhand)⟩

theorem sound_handle (h : s.Sound size l) (hready : s.Ready hash .handle)
    (hover : s.HandsOver hash .handle) (hs : s.handle hash = .ok s') :
    ∃ l', s'.Sound size l' := by
  obtain ⟨f, hf, rfl⟩ := map_eq_ok_iff.mp hs
  obtain ⟨-, rfl⟩ | ⟨obj, om, hobj, hom, -, hrep⟩ :=
    StoreFront.represents_handled h.represents hready hf
  · exact ⟨l, h⟩
  · rw [← StoreFront.inHand_eq h.represents] at hobj
    exact ⟨_, h.of_count hrep (Ledger.count_handle (hover obj om hobj hom))⟩

/-- What the parser takes back goes to its free list. -/
theorem sound_flush (h : s.Sound size l) :
    ∃ s', s.flush = .ok s' ∧ s'.Sound size (l.step .flush) := by
  obtain ⟨p, hp, hrep⟩ := Pipeline.represents_flush h.represents
  refine ⟨_, map_eq_ok_iff.mpr ⟨p, hp, rfl⟩, hrep, ?_, ?_⟩
  · intro pool o ho
    rcases List.mem_append.mp ho with ho | ho
    · exact h.pool pool o ho
    · simpa using (List.mem_filter.mp ho).2
  · intro o
    have hacc := h.accounted o
    show (s.free o.pool ++ (p.released.drop s.pipe.released.length).filter
      (·.pool = o.pool)).count o + (l.step .flush).count o = _
    rw [hrep.released, h.represents.released]
    cases hq : l.dbToParser with
    | nil =>
      have hstep : l.step .flush = l := by simp only [Ledger.step, hq]
      rw [hstep, List.drop_length, List.filter_nil, List.append_nil]
      exact hacc
    | cons obj rest =>
      -- the object moves from the way back to the free list of its pool
      have hreleased : (l.step .flush).released = l.released ++ [obj] := by
        simp only [Ledger.step, hq]
      have hcount := Ledger.count_flush hq o
      rw [hreleased, List.drop_left, List.count_append]
      by_cases ho : obj = o
      · rw [if_pos ho] at hcount
        have hone : ([obj].filter fun x => x.pool = o.pool).count o = 1 := by simp [ho]
        rw [hone]
        omega
      · rw [if_neg ho] at hcount
        have hzero : ([obj].filter fun x => x.pool = o.pool).count o = 0 := by
          refine List.count_eq_zero.mpr fun hmem => ho ?_
          exact (List.mem_singleton.mp (List.mem_filter.mp hmem).1).symm
        rw [hzero]
        omega

theorem sound_write (h : s.Sound size l) (hready : s.Ready hash .write) :
    { s with pipe := s.pipe.write }.Sound size (l.step .write) := by
  have hwrite : s.pipe.Ready PooledMessage.kind .write := hready
  have hrep : (StoreFront.mk s.om s.pipe.write).pipe.Represents (l.step .write) :=
    Pipeline.represents_write h.represents hwrite
  exact h.of_count hrep (Ledger.count_write l)

/-- **A step that hands its message over keeps every object accounted for.** -/
theorem sound_step (h : s.Sound size l) {e : StoreEvent} (hready : s.Ready hash e)
    (hover : s.HandsOver hash e) (hs : s.step hash e = .ok s') : ∃ l', s'.Sound size l' := by
  cases e with
  | parse msg => exact sound_parse h hready hs
  | take => exact sound_take h hready hs
  | handle => exact sound_handle h hready hover hs
  | write =>
    rw [step, Except.ok.injEq] at hs
    exact ⟨_, hs ▸ sound_write h hready⟩
  | flush =>
    obtain ⟨t, ht, hsound⟩ := sound_flush h
    rw [step, ht, Except.ok.injEq] at hs
    exact ⟨_, hs ▸ hsound⟩
  | others om =>
    rw [step, Except.ok.injEq] at hs
    subst hs
    exact ⟨l, h.of_count h.represents fun o => rfl⟩

/-- In a step that returns, the message is handed over exactly when its
disposition is not to be lost. -/
theorem handsOver_iff {e : StoreEvent} (hs : s.step hash e = .ok s') :
    s.HandsOver hash e ↔ s.NotLost hash e := by
  cases e with
  | handle =>
    have hagree : ∀ obj om, OwnManager.update hash s.om.drained (s.content obj) = .ok om →
        (om.outputs.countP StoreOut.isHandOver = 1 ↔
          (OwnManager.disposition hash s.om.drained (s.content obj)).lost = false) := by
      intro obj om hom
      rw [(OwnManager.update_agrees s.om.silent_drained hom).handOvers]
      cases (OwnManager.disposition hash s.om.drained (s.content obj)).lost <;> simp
    obtain ⟨f, hf, -⟩ := map_eq_ok_iff.mp hs
    obtain ⟨hnone, -⟩ | ⟨obj, om, p, hobj, hom, -, -⟩ := StoreFront.handle_cases hf
    · constructor
      · intro _ obj hobj
        rw [hnone] at hobj
        cases hobj
      · intro _ obj om hobj
        rw [hnone] at hobj
        cases hobj
    · constructor
      · intro hover obj' hobj'
        rw [hobj, Option.some.injEq] at hobj'
        subst hobj'
        exact (hagree obj om hom).mp (hover obj om hobj hom)
      · intro hkept obj' om' hobj' hom'
        exact (hagree obj' om' hom').mpr (hkept obj' hobj')
  | _ => exact Iff.rfl

/-! ### The way back -/

/-- An event of the database thread or of the parser taking back. -/
def Returns (e : StoreEvent) : Prop := e = .write ∨ e = .flush

theorem ready_write_of_empty (hash : List UInt8 → UInt64)
    (hempty : s.pipe.dbToParser.items = []) : s.Ready hash .write := by
  intro d kind i _ _
  rw [hempty]
  simp

/-- The database thread and the parser can empty the way back.  The induction is
on how many steps the items under way still have to make: one in `store_to_db_`
has two, one in `db_to_parser_` has one. -/
theorem exists_returns (hash : List UInt8 → UInt64) (n : ℕ) :
    ∀ {s : StoreSystem} {l : Ledger PooledMessage}, s.Sound size l → 2 * l.storeToDb.length + l.dbToParser.length = n →
    ∃ es t l', (∀ e ∈ es, Returns e) ∧ exec (step hash) s es = .ok t ∧ t.Sound size l' ∧
      l'.fromStore = [] ∧ l'.toStore = l.toStore := by
  induction n using Nat.strong_induction_on with
  | _ n ih =>
    intro s l h hn
    cases hback : l.dbToParser with
    | cons obj rest =>
      -- the parser takes an object back
      obtain ⟨s₁, hs₁, hsound⟩ := sound_flush h
      have hstep : l.step .flush = { l with
          dbToParser := rest, released := l.released ++ [obj] } := by
        simp only [Ledger.step, hback]
      have hlt : 2 * (l.step .flush).storeToDb.length + (l.step .flush).dbToParser.length < n := by
        rw [hstep, ← hn, hback, List.length_cons]
        show 2 * l.storeToDb.length + rest.length < _
        omega
      obtain ⟨es, t, l', hes, ht, hsound', hfrom, hto⟩ := ih _ hlt hsound rfl
      refine ⟨.flush :: es, t, l', ?_, ?_, hsound', hfrom, ?_⟩
      · intro e he
        rcases List.mem_cons.mp he with rfl | he
        · exact .inr rfl
        · exact hes e he
      · exact exec_cons_eq_ok_iff.mpr ⟨s₁, hs₁, ht⟩
      · rw [hto, hstep]
        rfl
    | nil =>
      cases hdb : l.storeToDb with
      | nil =>
        refine ⟨[], s, l, ?_, rfl, h, ?_, rfl⟩
        · intro e he
          cases he
        · rw [Ledger.fromStore, hdb, hback]
          rfl
      | cons x rest =>
        -- the way back is empty, so the database thread can write
        have hempty : s.pipe.dbToParser.items = [] := by
          have hmap := h.represents.back
          rw [hback] at hmap
          simpa using hmap
        have hsound := sound_write h (ready_write_of_empty hash hempty)
        have hlt : 2 * (l.step .write).storeToDb.length + (l.step .write).dbToParser.length < n ∧
            (l.step .write).toStore = l.toStore := by
          rw [← hn, hdb, hback, List.length_cons, List.length_nil]
          cases x with
          | none =>
            simp only [Ledger.step, hdb, hback, Ledger.toStore, and_true, List.length_nil]
            omega
          | some obj =>
            simp only [Ledger.step, hdb, hback, Ledger.toStore, and_true, List.length_append,
              List.length_cons, List.length_nil]
            omega
        obtain ⟨es, t, l', hes, ht, hsound', hfrom, hto⟩ := ih _ hlt.1 hsound rfl
        refine ⟨.write :: es, t, l', ?_, ?_, hsound', hfrom, hto.trans hlt.2⟩
        · intro e he
          rcases List.mem_cons.mp he with rfl | he
          · exact .inl rfl
          · exact hes e he
        · exact exec_cons_eq_ok_iff.mpr ⟨_, rfl, ht⟩

/-- Every object of a pool is in one place: its free list, on its way to the
store, or on its way back. -/
def Conserved (size : MessagePool → ℕ) (s : StoreSystem) : Prop :=
  ∀ o : PooledMessage, (s.free o.pool).count o + s.toStore.count o + s.fromStore.count o =
    if o.index < size o.pool then 1 else 0

/-- Every object of a pool is in its free list. -/
def AllFree (size : MessagePool → ℕ) (s : StoreSystem) : Prop :=
  ∀ o : PooledMessage, (s.free o.pool).count o = if o.index < size o.pool then 1 else 0

/-- The database thread and the parser can give every object back. -/
def Returnable (hash : List UInt8 → UInt64) (size : MessagePool → ℕ) (s : StoreSystem) : Prop :=
  ∃ es t, (∀ e ∈ es, Returns e) ∧ exec (step hash) s es = .ok t ∧ t.AllFree size

theorem conserved_of_sound (h : s.Sound size l) : s.Conserved size := by
  intro o
  rw [toStore_eq h.represents, fromStore_eq h.represents, Nat.add_assoc]
  exact h.accounted o

theorem returnable_of_sound (h : s.Sound size l) (hto : l.toStore = []) :
    s.Returnable hash size := by
  obtain ⟨es, t, l', hes, ht, hsound, hfrom, hto'⟩ := exists_returns hash _ h rfl
  refine ⟨es, t, hes, ht, fun o => ?_⟩
  have hacc := hsound.accounted o
  rw [Ledger.count, hfrom, hto', hto] at hacc
  simpa using hacc

end StoreSystem

open StoreSystem

/-- A fresh engine with 512 messages of each type. -/
def freshStore : StoreSystem := start {} fun _ => 512

/-- A market event: handled, written and taken back. -/
def keepEvent : List StoreEvent :=
  [.parse (.nasdaqItch (.systemEvent { eventCode := 79 })), .take, .handle, .write, .flush]

/-- A delete of an order the store has never seen. -/
def deleteUnknown : List StoreEvent :=
  [.parse (.nasdaqItch (.delete { orderRef := 1 })), .take, .handle]

set_option maxRecDepth 4000 in
theorem keepEvent_runs : ∃ t, exec (StoreSystem.step fun _ => 0) freshStore keepEvent = .ok t ∧
    t.toStore = [] := ⟨_, rfl, rfl⟩

theorem ready_parse_fresh (hash : List UInt8 → UInt64) (msg : StoreMessage) :
    freshStore.Ready hash (.parse msg) := by
  intro obj _
  refine ⟨⟨?_, ?_, ?_⟩, ?_⟩
  · exact List.not_mem_nil
  · intro h
    cases h
  · intro q hq
    cases hq
  · exact Nat.zero_lt_succ _

theorem ready_take_fresh {hash : List UInt8 → UInt64} {s : StoreSystem}
    (hpending : s.pipe.pendingToStrategy.items = []) : s.Ready hash .take := by
  intro htakes
  simp [StoreFront.takesPending, hpending] at htakes

set_option maxRecDepth 4000 in
theorem keepEvent_ready :
    Along (StoreSystem.step fun _ => 0) (Ready fun _ => 0) freshStore keepEvent := by
  refine along_cons _ (ready_parse_fresh _ _) rfl ?_
  refine along_cons _ (ready_take_fresh rfl) rfl ?_
  refine along_cons _ ?_ rfl ?_
  · intro obj om hobj hom w obj' hw hobj'
    cases hobj
    cases hom
    cases hw
    cases hobj'
    refine ⟨?_, ⟨⟨?_, ?_⟩, ?_⟩, trivial⟩
    · intro d hd
      exact absurd hd List.not_mem_nil
    · exact List.not_mem_nil
    · exact List.not_mem_nil
    · exact Nat.zero_lt_succ _
  · refine along_cons _ (ready_write_of_empty _ rfl) rfl ?_
    exact along_cons _ trivial rfl trivial

set_option maxRecDepth 4000 in
theorem keepEvent_notLost :
    Along (StoreSystem.step fun _ => 0) (NotLost fun _ => 0) freshStore keepEvent := by
  refine along_cons _ trivial rfl ?_
  refine along_cons _ trivial rfl ?_
  refine along_cons _ ?_ rfl ?_
  · intro obj hobj
    cases hobj
    rfl
  · refine along_cons _ trivial rfl ?_
    exact along_cons _ trivial rfl trivial

end TradingEngine
