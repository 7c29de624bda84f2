/-
The store without its pools.

Messages reach `OrderManager::store` as pointers: into a ring of wrappers, from there to an
object of a pool, and the object is filled again for a later message once it has come back.
`MessageStore` is what this is for: the same store with the messages themselves in its queues.

* `Ledger.ReadsAs` — a ledger of objects read as one of messages;
* `StoreSystem.Apart` — an object that is free is not under way, and none is there twice;
* `store_refines_messageStore` — in every interleaving of ready steps the store, the parser and
  the database thread find under their pointers what the store without pools has in its queues:
  the messages that were parsed, in the order in which they were parsed.
-/
import TradingEngine.StoreSystem

namespace TradingEngine

open FallibleRun

/-! ### The store with the messages themselves -/

structure MessageStore where
  om : OwnManager := {}
  queues : Ledger StoreMessage := {}
  /-- the new messages `store` has taken so far -/
  taken : List StoreMessage := []

namespace MessageStore

/-- `store` will take the oldest deferred message. -/
def takesPending (a : MessageStore) : Bool :=
  match a.queues.pendingToStrategy with
  | [] => false
  | (_, slot) :: _ => (a.om.orderPool slot).canModify = allDone

def take (a : MessageStore) : MessageStore :=
  if a.queues.inHand.isSome then a
  else if a.takesPending then { a with queues := a.queues.step .takePending }
  else
    { a with
      queues := a.queues.step .takeNew
      taken := a.taken ++ a.queues.parserToStore.head?.toList }

def handle (hash : List UInt8 → UInt64) (a : MessageStore) : Except Fault MessageStore :=
  match a.queues.inHand with
  | none => .ok a
  | some msg =>
    (OwnManager.update hash a.om.drained msg).map fun om =>
      { a with om := om.drained, queues := a.queues.step (.handle om.outputs) }

def step (hash : List UInt8 → UInt64) (a : MessageStore) : StoreEvent → Except Fault MessageStore
  | .parse msg => .ok { a with queues := a.queues.step (.give msg) }
  | .take => .ok a.take
  | .handle => a.handle hash
  | .write => .ok { a with queues := a.queues.step .write }
  | .flush => .ok { a with queues := a.queues.step .flush }
  | .others om => .ok { a with om := om }

end MessageStore

/-- The message that an event gives to the store. -/
def StoreEvent.given : StoreEvent → Option StoreMessage
  | .parse msg => some msg
  | _ => none

/-! ### Ledgers of objects and ledgers of messages -/

namespace Ledger

variable {ω β : Type} {f : ω → β} {l : Ledger ω} {k : Ledger β}

/-- What is under way in `l`, read through `f`, is what is under way in `k`. -/
structure ReadsAs (f : ω → β) (l : Ledger ω) (k : Ledger β) : Prop where
  queue : k.parserToStore = l.parserToStore.map f
  pending : k.pendingToStrategy = l.pendingToStrategy.map (Prod.map f id)
  hand : k.inHand = l.inHand.map f
  db : k.storeToDb = l.storeToDb.map (Option.map f)
  back : k.dbToParser = l.dbToParser.map f

theorem ReadsAs.give (h : l.ReadsAs f k) (obj : ω) :
    (l.step (.give obj)).ReadsAs f (k.step (.give (f obj))) := by
  refine ⟨?_, h.pending, h.hand, h.db, h.back⟩
  show k.parserToStore ++ [f obj] = (l.parserToStore ++ [obj]).map f
  rw [h.queue, List.map_append, List.map_singleton]

theorem ReadsAs.takePending (h : l.ReadsAs f k) :
    (l.step .takePending).ReadsAs f (k.step .takePending) := by
  have hpending := h.pending
  cases hl : l.pendingToStrategy with
  | nil =>
    rw [hl, List.map_nil] at hpending
    simpa only [step, hl, hpending] using h
  | cons x rest =>
    rw [hl, List.map_cons] at hpending
    simp only [step, hl, hpending]
    exact ⟨h.queue, rfl, rfl, h.db, h.back⟩

theorem ReadsAs.takeNew (h : l.ReadsAs f k) :
    (l.step .takeNew).ReadsAs f (k.step .takeNew) := by
  have hqueue := h.queue
  cases hl : l.parserToStore with
  | nil =>
    rw [hl, List.map_nil] at hqueue
    simpa only [step, hl, hqueue] using h
  | cons obj rest =>
    rw [hl, List.map_cons] at hqueue
    simp only [step, hl, hqueue]
    exact ⟨rfl, h.pending, rfl, h.db, h.back⟩

theorem ReadsAs.emit (h : l.ReadsAs f k) (obj : ω) (out : StoreOut) :
    (l.emit obj out).ReadsAs f (k.emit (f obj) out) := by
  cases out with
  | order slot =>
    refine ⟨h.queue, h.pending, h.hand, ?_, h.back⟩
    show k.storeToDb ++ [none] = (l.storeToDb ++ [none]).map (Option.map f)
    rw [h.db, List.map_append]
    rfl
  | message =>
    refine ⟨h.queue, h.pending, h.hand, ?_, h.back⟩
    show k.storeToDb ++ [some (f obj)] = (l.storeToDb ++ [some obj]).map (Option.map f)
    rw [h.db, List.map_append]
    rfl
  | defer slot =>
    refine ⟨h.queue, ?_, h.hand, h.db, h.back⟩
    show k.pendingToStrategy ++ [(f obj, slot)] =
      (l.pendingToStrategy ++ [(obj, slot)]).map (Prod.map f id)
    rw [h.pending, List.map_append]
    rfl

theorem ReadsAs.handle (h : l.ReadsAs f k) (outs : List StoreOut) :
    (l.step (.handle outs)).ReadsAs f (k.step (.handle outs)) := by
  have hhand := h.hand
  cases hl : l.inHand with
  | none =>
    rw [hl, Option.map_none] at hhand
    simpa only [step, hl, hhand] using h
  | some obj =>
    rw [hl, Option.map_some] at hhand
    simp only [step, hl, hhand]
    have hempty : { l with inHand := none }.ReadsAs f { k with inHand := none } :=
      ⟨h.queue, h.pending, rfl, h.db, h.back⟩
    -- what the handler pushes goes to both, one thing after the other
    generalize { l with inHand := none } = l' at hempty ⊢
    generalize { k with inHand := none } = k' at hempty ⊢
    induction outs generalizing l' k' with
    | nil => exact hempty
    | cons out outs ih => exact ih _ _ (hempty.emit obj out)

theorem ReadsAs.write (h : l.ReadsAs f k) : (l.step .write).ReadsAs f (k.step .write) := by
  have hdb := h.db
  cases hl : l.storeToDb with
  | nil =>
    rw [hl, List.map_nil] at hdb
    simpa only [step, hl, hdb] using h
  | cons x rest =>
    rw [hl, List.map_cons] at hdb
    cases x with
    | none =>
      rw [Option.map_none] at hdb
      simp only [step, hl, hdb]
      exact ⟨h.queue, h.pending, h.hand, rfl, h.back⟩
    | some obj =>
      rw [Option.map_some] at hdb
      simp only [step, hl, hdb]
      refine ⟨h.queue, h.pending, h.hand, rfl, ?_⟩
      show k.dbToParser ++ [f obj] = (l.dbToParser ++ [obj]).map f
      rw [h.back, List.map_append, List.map_singleton]

theorem ReadsAs.flush (h : l.ReadsAs f k) : (l.step .flush).ReadsAs f (k.step .flush) := by
  have hback := h.back
  cases hl : l.dbToParser with
  | nil =>
    rw [hl, List.map_nil] at hback
    simpa only [step, hl, hback] using h
  | cons obj rest =>
    rw [hl, List.map_cons] at hback
    simp only [step, hl, hback]
    exact ⟨h.queue, h.pending, h.hand, h.db, rfl⟩

/-- What waits for the store, and what it has in hand, is the same. -/
structure SameFront (l l' : Ledger ω) : Prop where
  queue : l'.parserToStore = l.parserToStore
  pending : l'.pendingToStrategy = l.pendingToStrategy
  hand : l'.inHand = l.inHand

theorem sameFront_write (l : Ledger ω) : l.SameFront (l.step .write) := by
  cases hq : l.storeToDb with
  | nil => exact ⟨by simp only [step, hq], by simp only [step, hq], by simp only [step, hq]⟩
  | cons x rest =>
    cases x <;> exact ⟨by simp only [step, hq], by simp only [step, hq], by simp only [step, hq]⟩

theorem sameFront_flush (l : Ledger ω) : l.SameFront (l.step .flush) := by
  cases hq : l.dbToParser <;>
    exact ⟨by simp only [step, hq], by simp only [step, hq], by simp only [step, hq]⟩

/-- A handler gives no new message, and has no message in hand afterwards. -/
theorem handle_front (l : Ledger ω) (outs : List StoreOut) :
    (l.step (.handle outs)).parserToStore = l.parserToStore ∧
      (l.step (.handle outs)).inHand = none := by
  cases hhand : l.inHand with
  | none => simp only [step, hhand, and_self]
  | some obj =>
    simp only [step, hhand]
    have hfold : ∀ l' : Ledger ω, (outs.foldl (Ledger.emit obj) l').parserToStore =
        l'.parserToStore ∧ (outs.foldl (Ledger.emit obj) l').inHand = l'.inHand := by
      induction outs with
      | nil => exact fun _ => ⟨rfl, rfl⟩
      | cons out outs ih =>
        intro l'
        rw [List.foldl_cons, (ih _).1, (ih _).2]
        cases out <;> exact ⟨rfl, rfl⟩
    exact hfold { l with inHand := none }

/-- A handler that defers nothing leaves the deferred messages alone. -/
theorem handle_pending (l : Ledger ω) {outs : List StoreOut} (h : ∀ slot, .defer slot ∉ outs) :
    (l.step (.handle outs)).pendingToStrategy = l.pendingToStrategy := by
  cases hhand : l.inHand with
  | none => simp only [step, hhand]
  | some obj =>
    simp only [step, hhand]
    have hfold : ∀ l' : Ledger ω, (outs.foldl (Ledger.emit obj) l').pendingToStrategy =
        l'.pendingToStrategy := by
      induction outs with
      | nil => exact fun _ => rfl
      | cons out outs ih =>
        intro l'
        rw [List.foldl_cons, ih fun slot hslot => h slot (List.mem_cons_of_mem out hslot)]
        cases out with
        | order slot => rfl
        | message => rfl
        | defer slot => exact absurd List.mem_cons_self (h slot)
    exact hfold { l with inHand := none }

variable [DecidableEq ω]

/-- An object that is counted nowhere is in none of the queues. -/
theorem ne_of_count_eq_zero {o : ω} (h : l.count o = 0) :
    (∀ x ∈ l.parserToStore, x ≠ o) ∧ (∀ x ∈ l.pendingToStrategy, x.1 ≠ o) ∧
      (∀ x ∈ l.inHand, x ≠ o) ∧ (∀ x ∈ l.storeToDb, x ≠ some o) ∧
      ∀ x ∈ l.dbToParser, x ≠ o := by
  have hto : o ∉ l.toStore := List.count_eq_zero.mp (Nat.eq_zero_of_add_eq_zero_right h)
  have hfrom : o ∉ l.fromStore := List.count_eq_zero.mp (Nat.eq_zero_of_add_eq_zero_left h)
  simp only [toStore, fromStore, List.mem_append, not_or, List.mem_map, List.mem_filterMap,
    Option.mem_toList, id] at hto hfrom
  obtain ⟨⟨hqueue, hpending⟩, hhand⟩ := hto
  obtain ⟨hdb, hback⟩ := hfrom
  refine ⟨?_, ?_, ?_, ?_, ?_⟩
  · rintro x hx rfl
    exact hqueue hx
  · rintro x hx rfl
    exact hpending ⟨x, hx, rfl⟩
  · rintro x hx rfl
    exact hhand hx
  · rintro x hx rfl
    exact hdb ⟨some o, hx, rfl⟩
  · rintro x hx rfl
    exact hback hx

/-- An object that is not under way may be filled. -/
theorem ReadsAs.update (h : l.ReadsAs f k) {o : ω} (hfree : l.count o = 0) (b : β) :
    l.ReadsAs (Function.update f o b) k := by
  obtain ⟨hqueue, hpending, hhand, hdb, hback⟩ := ne_of_count_eq_zero hfree
  have hsame : ∀ x, x ≠ o → f x = Function.update f o b x := fun x hx =>
    (Function.update_of_ne hx b f).symm
  refine ⟨?_, ?_, ?_, ?_, ?_⟩
  · rw [h.queue]
    exact List.map_congr_left fun x hx => hsame x (hqueue x hx)
  · rw [h.pending]
    exact List.map_congr_left fun x hx => Prod.ext (hsame x.1 (hpending x hx)) rfl
  · rw [h.hand]
    cases hx : l.inHand with
    | none => rfl
    | some x => exact congrArg some (hsame x (hhand x hx))
  · rw [h.db]
    refine List.map_congr_left fun x hx => ?_
    cases x with
    | none => rfl
    | some x => exact congrArg some (hsame x fun heq => hdb (some x) hx (heq ▸ rfl))
  · rw [h.back]
    exact List.map_congr_left fun x hx => hsame x (hback x hx)

/-- A message that is handed over at most once is under way at most as often as before. -/
theorem count_handle_le {outs : List StoreOut} (houts : outs.countP StoreOut.isHandOver ≤ 1)
    (o : ω) : (l.step (.handle outs)).count o ≤ l.count o := by
  cases hhand : l.inHand with
  | none => simp only [step, hhand, le_refl]
  | some obj =>
    simp only [step, hhand]
    rw [count_foldl]
    simp only [count, toStore, fromStore, hhand, Option.toList, List.count_append, List.count_cons,
      List.count_nil, beq_iff_eq]
    split <;> omega

end Ledger

/-! ### Objects are not reused while they are under way -/

/-- A message is pushed to the database or deferred, but not both, and not twice. -/
theorem OwnManager.handOvers_le {hash : List UInt8 → UInt64} {om om' : OwnManager}
    {msg : StoreMessage} (h : OwnManager.update hash om.drained msg = .ok om') :
    om'.outputs.countP StoreOut.isHandOver ≤ 1 := by
  rw [(update_agrees om.silent_drained h).handOvers]
  split <;> omega

namespace StoreSystem

variable {hash : List UInt8 → UInt64} {s s' : StoreSystem} {l : Ledger PooledMessage}
  {a : MessageStore}

/-- Every object is in the free list of its pool or under way at most once, and not in both. -/
structure Apart (s : StoreSystem) (l : Ledger PooledMessage) : Prop where
  pool : ∀ pool, ∀ o ∈ s.free pool, o.pool = pool
  once : ∀ o : PooledMessage, (s.free o.pool).count o + l.count o ≤ 1

/-- The object that is free next is not under way. -/
theorem Apart.count_eq_zero (h : s.Apart l) {pool : MessagePool} {obj : PooledMessage}
    {rest : List PooledMessage} (hfree : s.free pool = obj :: rest) : l.count obj = 0 := by
  have hpool : obj.pool = pool := h.pool pool obj (by rw [hfree]; exact List.mem_cons_self)
  have honce := h.once obj
  rw [hpool, hfree, List.count_cons_self] at honce
  omega

theorem Apart.of_count_le (h : s.Apart l) {l' : Ledger PooledMessage} (hfree : s'.free = s.free)
    (hcount : ∀ o, l'.count o ≤ l.count o) : s'.Apart l' := by
  refine ⟨fun pool o ho => h.pool pool o (hfree ▸ ho), fun o => ?_⟩
  rw [hfree]
  exact (Nat.add_le_add_left (hcount o) _).trans (h.once o)

/-- An object that is taken is under way instead. -/
theorem Apart.acquire (h : s.Apart l) {pool : MessagePool} {obj : PooledMessage}
    {rest : List PooledMessage} (hfree : s.free pool = obj :: rest)
    (hs : s'.free = Function.update s.free pool rest) : s'.Apart (l.step (.give obj)) := by
  have hpool : obj.pool = pool := h.pool pool obj (by rw [hfree]; exact List.mem_cons_self)
  constructor
  · intro p o ho
    rw [hs] at ho
    by_cases hp : p = pool
    · rw [hp, Function.update_self] at ho
      exact hp ▸ h.pool pool o (by rw [hfree]; exact List.mem_cons_of_mem obj ho)
    · rw [Function.update_of_ne hp] at ho
      exact h.pool p o ho
  · intro o
    have honce := h.once o
    rw [hs, Ledger.count_give]
    by_cases hp : o.pool = pool
    · rw [hp, hfree, List.count_cons] at honce
      simp only [beq_iff_eq] at honce
      rw [hp, Function.update_self]
      omega
    · have hne : obj ≠ o := by
        rintro rfl
        exact hp hpool
      rw [Function.update_of_ne hp, if_neg hne]
      omega

/-- An object that is released is no longer under way. -/
theorem Apart.release (h : s.Apart l) {obj : PooledMessage} {rest : List PooledMessage}
    (hback : l.dbToParser = obj :: rest)
    (hs : ∀ pool, s'.free pool = s.free pool ++ [obj].filter (·.pool = pool)) :
    s'.Apart (l.step .flush) := by
  constructor
  · intro pool o ho
    rw [hs] at ho
    rcases List.mem_append.mp ho with ho | ho
    · exact h.pool pool o ho
    · simpa using (List.mem_filter.mp ho).2
  · intro o
    have honce := h.once o
    have hcount := Ledger.count_flush hback o
    have hle : ([obj].filter (·.pool = o.pool)).count o ≤ if obj = o then 1 else 0 := by
      have hsub : ([obj].filter (·.pool = o.pool)).count o ≤ [obj].count o :=
        List.filter_sublist.count_le o
      rw [List.count_singleton] at hsub
      simpa only [beq_iff_eq] using hsub
    rw [hs, List.count_append]
    omega

/-! ### The refinement -/

/-- The pointers lead to the objects of a ledger, and the objects hold the messages of the
store without pools. -/
structure Refines (s : StoreSystem) (a : MessageStore) (l : Ledger PooledMessage) : Prop where
  om : s.om = a.om
  represents : s.pipe.Represents l
  reads : l.ReadsAs s.content a.queues
  apart : s.Apart l

/-- Both stores choose alike between a deferred and a new message. -/
theorem takesPending_eq (h : s.Refines a l) : s.takesPending = a.takesPending := by
  have hpending := h.represents.pending
  have hqueue := h.reads.pending
  unfold StoreFront.takesPending MessageStore.takesPending
  cases hl : l.pendingToStrategy with
  | nil =>
    rw [hl, List.map_nil, List.map_eq_nil_iff] at hpending
    rw [hl, List.map_nil] at hqueue
    rw [hpending, hqueue]
  | cons x rest =>
    rw [hl, List.map_cons] at hqueue hpending
    obtain ⟨front, items, hitems, hfront, -⟩ := List.map_eq_cons_iff.mp hpending
    obtain ⟨y, hy, hx⟩ := Option.bind_eq_some_iff.mp hfront
    obtain ⟨obj, -, rfl⟩ := Option.map_eq_some_iff.mp hx
    rw [hitems, hqueue]
    simp only [hy, h.om]
    rfl

theorem refines_start (om : OwnManager) (size : MessagePool → ℕ) :
    (start om size).Refines { om := om } {} := by
  have hsound : (start om size).Sound size {} := sound_start om
  refine ⟨rfl, Pipeline.represents_start, ⟨rfl, rfl, rfl, rfl, rfl⟩, hsound.pool, fun o => ?_⟩
  rw [hsound.accounted o]
  split <;> omega

theorem refines_parse (h : s.Refines a l) {msg : StoreMessage} (hready : s.Ready hash (.parse msg))
    (hs : s.parse msg = .ok s') :
    ∃ l', s'.Refines { a with queues := a.queues.step (.give msg) } l' := by
  unfold parse at hs
  cases hfree : s.free msg.pool with
  | nil => simp [hfree] at hs
  | cons obj rest =>
    simp only [hfree, Except.ok.injEq] at hs
    subst hs
    have hobj := hready obj (by rw [hfree, List.head?_cons])
    have hreads := (h.reads.update (h.apart.count_eq_zero hfree) msg).give obj
    rw [Function.update_self] at hreads
    exact ⟨l.step (.give obj), h.om, Pipeline.represents_give h.represents hobj.1 hobj.2 obj,
      hreads, h.apart.acquire hfree rfl⟩

theorem refines_take (h : s.Refines a l) (hready : s.Ready hash .take) (hs : s.take = .ok s') :
    ∃ l', s'.Refines a.take l' := by
  obtain ⟨f, hf, rfl⟩ := map_eq_ok_iff.mp hs
  have hhand : a.queues.inHand.isSome = l.inHand.isSome := by
    rw [h.reads.hand, Option.isSome_map]
  obtain ⟨hin, rfl⟩ | ⟨hin, htakes, hom, hrep⟩ | ⟨hin, htakes, hom, hrep⟩ :=
    StoreFront.represents_take h.represents hready hf
  · refine ⟨l, ?_⟩
    rw [MessageStore.take, hhand, hin, if_pos rfl]
    exact h
  · refine ⟨l.step .takePending, ?_⟩
    rw [MessageStore.take, hhand, hin, ← takesPending_eq h, htakes]
    exact ⟨hom.trans h.om, hrep, h.reads.takePending,
      h.apart.of_count_le rfl fun o => (Ledger.count_takePending hin o).le⟩
  · refine ⟨l.step .takeNew, ?_⟩
    rw [MessageStore.take, hhand, hin, ← takesPending_eq h, htakes]
    exact ⟨hom.trans h.om, hrep, h.reads.takeNew,
      h.apart.of_count_le rfl fun o => (Ledger.count_takeNew hin o).le⟩

theorem refines_handle (h : s.Refines a l) (hready : s.Ready hash .handle)
    (hs : s.handle hash = .ok s') : ∃ a' l', a.handle hash = .ok a' ∧ s'.Refines a' l' := by
  obtain ⟨f, hf, rfl⟩ := map_eq_ok_iff.mp hs
  have hhand := h.reads.hand
  obtain ⟨hin, rfl⟩ | ⟨obj, om, hobj, hom, hom', hrep⟩ :=
    StoreFront.represents_handled h.represents hready hf
  · rw [hin, Option.map_none] at hhand
    exact ⟨a, l, by rw [MessageStore.handle, hhand], h⟩
  · rw [hobj, Option.map_some] at hhand
    refine ⟨{ a with om := om.drained, queues := a.queues.step (.handle om.outputs) },
      l.step (.handle om.outputs), ?_, hom', hrep, h.reads.handle om.outputs, ?_⟩
    · rw [MessageStore.handle, hhand]
      show (OwnManager.update hash a.om.drained (s.content obj)).map _ = _
      rw [← h.om, hom]
      rfl
    · exact h.apart.of_count_le rfl fun o =>
        Ledger.count_handle_le (OwnManager.handOvers_le hom) o

theorem refines_write (h : s.Refines a l) (hready : s.Ready hash .write) :
    { s with pipe := s.pipe.write }.Refines { a with queues := a.queues.step .write }
      (l.step .write) := by
  have hwrite : s.pipe.Ready PooledMessage.kind .write := hready
  have hrep : s.pipe.write.Represents (l.step .write) :=
    Pipeline.represents_write h.represents hwrite
  exact ⟨h.om, hrep, h.reads.write, h.apart.of_count_le rfl fun o => (Ledger.count_write l o).le⟩

theorem refines_flush (h : s.Refines a l) (hs : s.flush = .ok s') :
    s'.Refines { a with queues := a.queues.step .flush } (l.step .flush) := by
  obtain ⟨p, hp, rfl⟩ := map_eq_ok_iff.mp hs
  obtain ⟨p', hp', hrep⟩ := Pipeline.represents_flush h.represents
  rw [hp, Except.ok.injEq] at hp'
  subst hp'
  refine ⟨h.om, hrep, h.reads.flush, ?_⟩
  have hfree : ∀ pool, (s.free pool ++
      (p.released.drop s.pipe.released.length).filter (·.pool = pool)) =
      s.free pool ++ ((l.step .flush).released.drop l.released.length).filter (·.pool = pool) := by
    intro pool
    rw [hrep.released, h.represents.released]
  cases hq : l.dbToParser with
  | nil =>
    have hstep : l.step .flush = l := by simp only [Ledger.step, hq]
    rw [hstep]
    refine h.apart.of_count_le ?_ fun o => le_rfl
    funext pool
    show s.free pool ++ _ = s.free pool
    rw [hfree pool, hstep, List.drop_length, List.filter_nil, List.append_nil]
  | cons obj rest =>
    refine h.apart.release hq fun pool => ?_
    show s.free pool ++ _ = _
    have hreleased : (l.step .flush).released = l.released ++ [obj] := by
      simp only [Ledger.step, hq]
    rw [hfree pool, hreleased, List.drop_left]

/-- **One step of the store is one step of the store without pools.** -/
theorem refines_step (h : s.Refines a l) {e : StoreEvent} (hready : s.Ready hash e)
    (hs : s.step hash e = .ok s') :
    ∃ a' l', a.step hash e = .ok a' ∧ s'.Refines a' l' := by
  cases e with
  | parse msg =>
    obtain ⟨l', hl'⟩ := refines_parse h hready hs
    exact ⟨_, l', rfl, hl'⟩
  | take =>
    obtain ⟨l', hl'⟩ := refines_take h hready hs
    exact ⟨_, l', rfl, hl'⟩
  | handle => exact refines_handle h hready hs
  | write =>
    rw [step, Except.ok.injEq] at hs
    exact ⟨_, _, rfl, hs ▸ refines_write h hready⟩
  | flush => exact ⟨_, _, rfl, refines_flush h hs⟩
  | others om =>
    rw [step, Except.ok.injEq] at hs
    subst hs
    exact ⟨_, l, rfl, rfl, h.represents, h.reads, h.apart.of_count_le rfl fun o => le_rfl⟩

/-- Followed to their ends, the pointers of the store lead to the messages in the queues of the
store without pools. -/
structure Shows (s : StoreSystem) (a : MessageStore) : Prop where
  om : s.om = a.om
  queue : s.pipe.parserToStore.items.map (fun w => (s.pipe.msgWrappers.slots w).map s.content) =
    a.queues.parserToStore.map some
  pending : s.pipe.pendingToStrategy.items.map
      (fun q => (s.pipe.packet q).map (Prod.map s.content id)) = a.queues.pendingToStrategy.map some
  hand : s.inHand.map s.content = a.queues.inHand
  db : s.pipe.storeToDb.items.map (fun d => (s.pipe.item d).map (Option.map s.content)) =
    a.queues.storeToDb.map some
  back : s.pipe.dbToParser.items.map (fun d => (s.pipe.item d).map (Option.map s.content)) =
    a.queues.dbToParser.map fun msg => some (some msg)

theorem Refines.shows (h : s.Refines a l) : s.Shows a := by
  refine ⟨h.om, ?_, ?_, ?_, ?_, ?_⟩
  · rw [h.reads.queue, List.map_map]
    have hqueue := congrArg (List.map (Option.map s.content)) h.represents.queue
    rwa [List.map_map, List.map_map] at hqueue
  · rw [h.reads.pending, List.map_map]
    have hpending := congrArg (List.map (Option.map (Prod.map s.content id))) h.represents.pending
    rwa [List.map_map, List.map_map] at hpending
  · rw [StoreFront.inHand_eq h.represents, h.reads.hand]
  · rw [h.reads.db, List.map_map]
    have hdb := congrArg (List.map (Option.map (Option.map s.content))) h.represents.db
    rwa [List.map_map, List.map_map] at hdb
  · rw [h.reads.back, List.map_map]
    have hback := congrArg (List.map (Option.map (Option.map s.content))) h.represents.back
    rwa [List.map_map, List.map_map] at hback

end StoreSystem

/-! ### The order of the messages -/

namespace MessageStore

/-- What has been taken and what waits is what was given, and what has been released and what
is on its way back is what was pushed to the database. -/
structure InOrder (given : List StoreMessage) (a : MessageStore) : Prop where
  parsed : given = a.taken ++ a.queues.parserToStore
  written : a.queues.ReleasedOnce

theorem inOrder_take {given : List StoreMessage} {a : MessageStore} (h : a.InOrder given) :
    a.take.InOrder given := by
  unfold take
  split
  · exact h
  · split
    · refine ⟨?_, Ledger.releasedOnce_step h.written _⟩
      rw [h.parsed]
      show a.taken ++ _ = a.taken ++ (a.queues.step .takePending).parserToStore
      cases hq : a.queues.pendingToStrategy with
      | nil => simp only [Ledger.step, hq]
      | cons x rest => simp only [Ledger.step, hq]
    · refine ⟨?_, Ledger.releasedOnce_step h.written _⟩
      rw [h.parsed]
      show a.taken ++ _ = (a.taken ++ a.queues.parserToStore.head?.toList) ++
        (a.queues.step .takeNew).parserToStore
      cases hq : a.queues.parserToStore with
      | nil => simp only [Ledger.step, hq, List.head?_nil, Option.toList_none, List.append_nil]
      | cons msg rest =>
        simp only [Ledger.step, hq, List.head?_cons, Option.toList_some, List.append_assoc,
          List.singleton_append]

theorem inOrder_step {hash : List UInt8 → UInt64} {given : List StoreMessage}
    {a a' : MessageStore} (h : a.InOrder given) {e : StoreEvent} (hs : a.step hash e = .ok a') :
    a'.InOrder (given ++ e.given.toList) := by
  cases e with
  | parse msg =>
    rw [step, Except.ok.injEq] at hs
    subst hs
    refine ⟨?_, Ledger.releasedOnce_step h.written _⟩
    rw [h.parsed]
    exact List.append_assoc _ _ _
  | take =>
    rw [step, Except.ok.injEq] at hs
    show a'.InOrder (given ++ [])
    rw [List.append_nil]
    exact hs ▸ inOrder_take h
  | handle =>
    show a'.InOrder (given ++ [])
    rw [List.append_nil]
    rw [step, handle] at hs
    split at hs
    · exact Except.ok.inj hs ▸ h
    · obtain ⟨om, -, rfl⟩ := map_eq_ok_iff.mp hs
      refine ⟨?_, Ledger.releasedOnce_step h.written _⟩
      show given = a.taken ++ (a.queues.step _).parserToStore
      rw [(a.queues.handle_front om.outputs).1]
      exact h.parsed
  | write =>
    rw [step, Except.ok.injEq] at hs
    rw [← hs]
    show InOrder (given ++ []) _
    rw [List.append_nil]
    refine ⟨?_, Ledger.releasedOnce_step h.written _⟩
    show given = a.taken ++ (a.queues.step .write).parserToStore
    rw [a.queues.sameFront_write.queue]
    exact h.parsed
  | flush =>
    rw [step, Except.ok.injEq] at hs
    rw [← hs]
    show InOrder (given ++ []) _
    rw [List.append_nil]
    refine ⟨?_, Ledger.releasedOnce_step h.written _⟩
    show given = a.taken ++ (a.queues.step .flush).parserToStore
    rw [a.queues.sameFront_flush.queue]
    exact h.parsed
  | others om =>
    rw [step, Except.ok.injEq] at hs
    rw [← hs]
    show InOrder (given ++ []) _
    rw [List.append_nil]
    exact ⟨h.parsed, h.written⟩

theorem inOrder_exec {hash : List UInt8 → UInt64} {given : List StoreMessage}
    {a a' : MessageStore} (h : a.InOrder given) {es : List StoreEvent}
    (hrun : exec (step hash) a es = .ok a') :
    a'.InOrder (given ++ es.filterMap StoreEvent.given) := by
  induction es generalizing a given with
  | nil =>
    rw [exec_nil, Except.ok.injEq] at hrun
    rw [List.filterMap_nil, List.append_nil]
    exact hrun ▸ h
  | cons e es ih =>
    obtain ⟨b, hb, hrest⟩ := exec_cons_eq_ok_iff.mp hrun
    have hend := ih (inOrder_step h hb) hrest
    rw [List.append_assoc] at hend
    have hcons : e.given.toList ++ es.filterMap StoreEvent.given =
        (e :: es).filterMap StoreEvent.given := by
      cases he : e.given with
      | none => rw [List.filterMap_cons_none he, Option.toList_none, List.nil_append]
      | some msg => rw [List.filterMap_cons_some he, Option.toList_some, List.singleton_append]
    rwa [hcons] at hend

end MessageStore

open StoreSystem

/-- An engine with a single object of each type. -/
def lastObject : StoreSystem := start {} fun _ => 1

/-- A second market event, for the object that has come back. -/
def reuseEvent : List StoreEvent :=
  keepEvent ++ [.parse (.nasdaqItch (.systemEvent { eventCode := 81 })), .take]

set_option maxRecDepth 4000 in
theorem reuseEvent_ready :
    Along (StoreSystem.step fun _ => 0) (Ready fun _ => 0) lastObject reuseEvent := by
  have hempty : ∀ d : Fin 2048, d ∉ ([] : List (Fin 2048)) := fun _ => List.not_mem_nil
  refine along_cons _ (fun obj _ => ⟨⟨hempty _, nofun, fun q hq => nomatch hq⟩, by decide⟩) rfl ?_
  refine along_cons _ (ready_take_fresh rfl) rfl ?_
  refine along_cons _ ?_ rfl ?_
  · intro obj om hobj hom w obj' hw hobj'
    cases hobj
    cases hom
    cases hw
    cases hobj'
    exact ⟨fun d hd => absurd hd List.not_mem_nil, ⟨⟨hempty _, hempty _⟩, by decide⟩, trivial⟩
  · refine along_cons _ (ready_write_of_empty _ rfl) rfl ?_
    refine along_cons _ trivial rfl ?_
    refine along_cons _ (fun obj _ => ⟨⟨hempty _, nofun, fun q hq => nomatch hq⟩, by decide⟩)
      rfl ?_
    exact along_cons _ (ready_take_fresh rfl) rfl trivial

end TradingEngine
