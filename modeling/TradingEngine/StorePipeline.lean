/-
The path of a pooled message from the parser through the store and the database
thread back to the parser (`core/MessageWithVenue.h`, `database/DbTypes.h`,
`OrderManager::store`, `ClickhouseWriter::store`,
`Parser_Dispatch::flush_DbQueue`).

The queues carry pointers to wrappers, and the wrappers come from rings that
hand out their slots in turn without asking whether a slot is still in use:
2048 `MessageWithVenue<MessageTypes_t>`, 256 typed wrappers for each of the six
alternatives, 2048 `DbData`, 65536 pending packets.  A message object is reached
by following the pointers at the moment it is needed.

`Pipeline` is this machine; `ω` is the type of the message objects.  `Ledger` is
what it is for: queues that carry the objects themselves.

* `Pipeline.Ready` — a step takes no ring slot that is still pointed to, and
  pushes to no full queue;
* `represents_step` — a ready step does to the pipeline what it does to the
  ledger;
* `db_messages_intact` — in a run of ready steps every `DbData` leads to the
  message it was pushed with, and each message that was pushed is released once.

`wrapper_overwritten` is the run in which 257 messages of one type are under way.
-/
import TradingEngine.FallibleRun
import TradingEngine.OrderManager

namespace TradingEngine

open FallibleRun

/-- The alternatives of `MessageTypes_t`. -/
inductive MessageKind
  | fix
  | fixSession
  | bistItch
  | nasdaqItch
  | bistOuch
  | nasdaqOuch
  deriving DecidableEq, Repr

/-- `DbData_t`: an order, or a typed wrapper. -/
inductive DbRef
  | order (slot : OrderSlot)
  | wrapper (kind : MessageKind) (i : Fin 256)
  deriving DecidableEq, Repr

/-- What the store does with the message it handles: push an order to the
database, push the message, or defer it. -/
inductive StoreOut
  | order (slot : OrderSlot)
  | message
  | defer (slot : OrderSlot)
  deriving DecidableEq, Repr

structure Pipeline (ω : Type) where
  msgWrappers : RingPool (Option ω) 2048 := ⟨fun _ => none, 0⟩
  typedWrappers : MessageKind → RingPool (Option ω) 256 := fun _ => ⟨fun _ => none, 0⟩
  dbDatas : RingPool DbRef 2048 := ⟨fun _ => .order 0, 0⟩
  packets : RingPool (Option (Fin 2048 × OrderSlot)) 65536 := ⟨fun _ => none, 0⟩
  parserToStore : BoundedQueue (Fin 2048) 1024 := .empty
  pendingToStrategy : BoundedQueue (Fin 65536) 65536 := .empty
  /-- the wrapper `store` has taken and not yet handled -/
  inHand : Option (Fin 2048) := none
  storeToDb : BoundedQueue (Fin 2048) 1024 := .empty
  dbToParser : BoundedQueue (Fin 2048) 1024 := .empty
  /-- the messages given back to their pools, in order -/
  released : List ω := []

/-- The steps of the three threads. -/
inductive PipeEvent (ω : Type)
  /-- the parser wraps a message and hands it over -/
  | give (obj : ω)
  /-- the store takes the oldest deferred message -/
  | takePending
  /-- the store takes the oldest new message -/
  | takeNew
  /-- the store handles what it has taken -/
  | handle (outs : List StoreOut)
  /-- the database thread passes one item on -/
  | write
  /-- the parser takes one item back -/
  | flush

namespace Pipeline

variable {ω : Type}

def give (p : Pipeline ω) (obj : ω) : Pipeline ω :=
  { p with
    msgWrappers := p.msgWrappers.put (some obj)
    parserToStore := p.parserToStore.push p.msgWrappers.slot }

/-- `get_pending_packet()` empties a packet of the ring before the queue is
popped. -/
def takePending (p : Pipeline ω) : Except Fault (Pipeline ω) :=
  match p.pendingToStrategy.items with
  | [] => .ok p
  | front :: _ =>
    match (p.packets.put none).slots front with
    | none => .error .nullDereference
    | some (w, _) =>
      .ok { p with
        packets := p.packets.put none
        pendingToStrategy := p.pendingToStrategy.tail
        inHand := some w }

def takeNew (p : Pipeline ω) : Pipeline ω :=
  match p.parserToStore.items with
  | [] => p
  | w :: _ => { p with parserToStore := p.parserToStore.tail, inHand := some w }

/-- `store_to_db_.push(dbd_poolmanager_.get_DbData(...))`. -/
def pushDbData (p : Pipeline ω) (ref : DbRef) : Pipeline ω :=
  { p with dbDatas := p.dbDatas.put ref, storeToDb := p.storeToDb.push p.dbDatas.slot }

/-- `pending_to_strategy_.push(get_pending_packet(...))` with a new wrapper. -/
def pushPending (p : Pipeline ω) (obj : ω) (slot : OrderSlot) : Pipeline ω :=
  { p with
    msgWrappers := p.msgWrappers.put (some obj)
    packets := p.packets.put (some (p.msgWrappers.slot, slot))
    pendingToStrategy := p.pendingToStrategy.push p.packets.slot }

/-- One thing the store does with the message in wrapper `i` of its kind. -/
def emit (obj : ω) (kind : MessageKind) (i : Fin 256) (p : Pipeline ω) : StoreOut → Pipeline ω
  | .order slot => p.pushDbData (.order slot)
  | .message => p.pushDbData (.wrapper kind i)
  | .defer slot => p.pushPending obj slot

/-- `get_msgWithVenue<MsgType>` for the message that is handled. -/
def wrapTyped (p : Pipeline ω) (obj : ω) (kind : MessageKind) : Pipeline ω :=
  { p with
    inHand := none
    typedWrappers :=
      Function.update p.typedWrappers kind ((p.typedWrappers kind).put (some obj)) }

def handle (kindOf : ω → MessageKind) (p : Pipeline ω) (outs : List StoreOut) :
    Except Fault (Pipeline ω) :=
  match p.inHand with
  | none => .ok p
  | some w =>
    match p.msgWrappers.slots w with
    | none => .error .nullDereference
    | some obj =>
      .ok (outs.foldl (emit obj (kindOf obj) (p.typedWrappers (kindOf obj)).slot)
        (p.wrapTyped obj (kindOf obj)))

/-- `ClickhouseWriter::store`: orders end here. -/
def write (p : Pipeline ω) : Pipeline ω :=
  match p.storeToDb.items with
  | [] => p
  | d :: _ =>
    match p.dbDatas.slots d with
    | .order _ => { p with storeToDb := p.storeToDb.tail }
    | .wrapper _ _ => { p with storeToDb := p.storeToDb.tail, dbToParser := p.dbToParser.push d }

/-- One round of `flush_DbQueue`. -/
def flush (p : Pipeline ω) : Except Fault (Pipeline ω) :=
  match p.dbToParser.items with
  | [] => .ok p
  | d :: _ =>
    match p.dbDatas.slots d with
    | .order _ => .ok { p with dbToParser := p.dbToParser.tail }
    | .wrapper kind i =>
      match (p.typedWrappers kind).slots i with
      | none => .error .nullDereference
      | some obj =>
        .ok { p with dbToParser := p.dbToParser.tail, released := p.released ++ [obj] }

def step (kindOf : ω → MessageKind) (p : Pipeline ω) : PipeEvent ω → Except Fault (Pipeline ω)
  | .give obj => .ok (p.give obj)
  | .takePending => p.takePending
  | .takeNew => .ok p.takeNew
  | .handle outs => p.handle kindOf outs
  | .write => .ok p.write
  | .flush => p.flush

/-! ### When a step is ready -/

/-- The next `MessageWithVenue<MessageTypes_t>` is not pointed to. -/
def MsgWrapperFree (p : Pipeline ω) : Prop :=
  p.msgWrappers.slot ∉ p.parserToStore.items ∧ p.inHand ≠ some p.msgWrappers.slot ∧
    ∀ q ∈ p.pendingToStrategy.items, ∀ slot, p.packets.slots q ≠ some (p.msgWrappers.slot, slot)

/-- The next packet is not pointed to. -/
def PacketFree (p : Pipeline ω) : Prop := p.packets.slot ∉ p.pendingToStrategy.items

/-- The next `DbData` is not pointed to. -/
def DbDataFree (p : Pipeline ω) : Prop :=
  p.dbDatas.slot ∉ p.storeToDb.items ∧ p.dbDatas.slot ∉ p.dbToParser.items

/-- The next typed wrapper of a kind is not pointed to. -/
def TypedFree (p : Pipeline ω) (kind : MessageKind) : Prop :=
  ∀ d ∈ p.storeToDb.items ++ p.dbToParser.items,
    p.dbDatas.slots d ≠ .wrapper kind (p.typedWrappers kind).slot

/-- What one thing the store does needs: a free slot of each ring it takes from,
and room in the queue it pushes to. -/
def EmitReady (p : Pipeline ω) : StoreOut → Prop
  | .order _ => p.DbDataFree ∧ p.storeToDb.items.length < 1024
  | .message => p.DbDataFree ∧ p.storeToDb.items.length < 1024
  | .defer _ =>
    p.MsgWrapperFree ∧ p.PacketFree ∧ p.pendingToStrategy.items.length < 65536

/-- The same for all that is done with one message. -/
def EmitsReady (obj : ω) (kind : MessageKind) (i : Fin 256) :
    Pipeline ω → List StoreOut → Prop
  | _, [] => True
  | p, out :: outs => p.EmitReady out ∧ EmitsReady obj kind i (emit obj kind i p out) outs

/-- A step takes no ring slot that is still pointed to, and pushes to no full
queue. -/
def Ready (kindOf : ω → MessageKind) (p : Pipeline ω) : PipeEvent ω → Prop
  | .give _ => p.MsgWrapperFree ∧ p.parserToStore.items.length < 1024
  | .takePending => p.PacketFree
  | .takeNew => True
  | .handle outs =>
    ∀ w obj, p.inHand = some w → p.msgWrappers.slots w = some obj →
      p.TypedFree (kindOf obj) ∧
        EmitsReady obj (kindOf obj) (p.typedWrappers (kindOf obj)).slot
          (p.wrapTyped obj (kindOf obj)) outs
  | .write =>
    ∀ d kind i, p.storeToDb.items.head? = some d → p.dbDatas.slots d = .wrapper kind i →
      p.dbToParser.items.length < 1024
  | .flush => True

end Pipeline

/-! ### The ledger -/

/-- The same queues with the objects themselves; an item for the database is
`none` when it is an order. -/
structure Ledger (ω : Type) where
  parserToStore : List ω := []
  pendingToStrategy : List (ω × OrderSlot) := []
  inHand : Option ω := none
  storeToDb : List (Option ω) := []
  dbToParser : List ω := []
  /-- every message pushed to the database, in order -/
  pushed : List ω := []
  released : List ω := []

namespace Ledger

variable {ω : Type}

def emit (obj : ω) (l : Ledger ω) : StoreOut → Ledger ω
  | .order _ => { l with storeToDb := l.storeToDb ++ [none] }
  | .message => { l with storeToDb := l.storeToDb ++ [some obj], pushed := l.pushed ++ [obj] }
  | .defer slot => { l with pendingToStrategy := l.pendingToStrategy ++ [(obj, slot)] }

def step (l : Ledger ω) : PipeEvent ω → Ledger ω
  | .give obj => { l with parserToStore := l.parserToStore ++ [obj] }
  | .takePending =>
    match l.pendingToStrategy with
    | [] => l
    | (obj, _) :: rest => { l with pendingToStrategy := rest, inHand := some obj }
  | .takeNew =>
    match l.parserToStore with
    | [] => l
    | obj :: rest => { l with parserToStore := rest, inHand := some obj }
  | .handle outs =>
    match l.inHand with
    | none => l
    | some obj => outs.foldl (emit obj) { l with inHand := none }
  | .write =>
    match l.storeToDb with
    | [] => l
    | none :: rest => { l with storeToDb := rest }
    | some obj :: rest => { l with storeToDb := rest, dbToParser := l.dbToParser ++ [obj] }
  | .flush =>
    match l.dbToParser with
    | [] => l
    | obj :: rest => { l with dbToParser := rest, released := l.released ++ [obj] }

/-- Each message that was pushed has been released once or is on its way, and
in the order in which they were pushed. -/
def ReleasedOnce (l : Ledger ω) : Prop :=
  l.released ++ l.dbToParser ++ l.storeToDb.filterMap id = l.pushed

theorem releasedOnce_emit {obj : ω} {l : Ledger ω} (h : l.ReleasedOnce) (out : StoreOut) :
    (l.emit obj out).ReleasedOnce := by
  unfold ReleasedOnce at h ⊢
  cases out with
  | order slot => simpa [emit] using h
  | message => simp [emit, ← h]
  | defer slot => simpa [emit] using h

theorem releasedOnce_foldl {obj : ω} (outs : List StoreOut) {l : Ledger ω}
    (h : l.ReleasedOnce) : (outs.foldl (emit obj) l).ReleasedOnce := by
  induction outs generalizing l with
  | nil => exact h
  | cons out outs ih => exact ih (releasedOnce_emit h out)

theorem releasedOnce_step {l : Ledger ω} (h : l.ReleasedOnce) (e : PipeEvent ω) :
    (l.step e).ReleasedOnce := by
  cases e with
  | give obj => exact h
  | takePending =>
    cases hq : l.pendingToStrategy with
    | nil => simpa only [step, hq] using h
    | cons x rest =>
      simp only [step, hq]
      exact h
  | takeNew =>
    cases hq : l.parserToStore with
    | nil => simpa only [step, hq] using h
    | cons x rest =>
      simp only [step, hq]
      exact h
  | handle outs =>
    cases hq : l.inHand with
    | none => simpa only [step, hq] using h
    | some obj =>
      simp only [step, hq]
      exact releasedOnce_foldl outs h
  | write =>
    -- what is released and what is on its way make up what was pushed
    unfold ReleasedOnce at h ⊢
    cases hq : l.storeToDb with
    | nil => simpa [step, hq] using h
    | cons x rest =>
      cases x with
      | none => simpa [step, hq] using h
      | some obj => simpa [step, hq] using h
  | flush =>
    unfold ReleasedOnce at h ⊢
    cases hq : l.dbToParser with
    | nil => simpa [step, hq] using h
    | cons x rest => simpa [step, hq] using h

end Ledger

/-! ### The pipeline does what the ledger does -/

namespace Pipeline

variable {ω : Type}

/-- The message and the order a pending packet leads to. -/
def packet (p : Pipeline ω) (q : Fin 65536) : Option (ω × OrderSlot) :=
  (p.packets.slots q).bind fun x => (p.msgWrappers.slots x.1).map (·, x.2)

/-- What a `DbData` leads to; `some none` is an order. -/
def item (p : Pipeline ω) (d : Fin 2048) : Option (Option ω) :=
  match p.dbDatas.slots d with
  | .order _ => some none
  | .wrapper kind i => ((p.typedWrappers kind).slots i).map some

/-- Followed to their ends, the pointers of the pipeline are the objects of the
ledger. -/
structure Represents (p : Pipeline ω) (l : Ledger ω) : Prop where
  queue : p.parserToStore.items.map p.msgWrappers.slots = l.parserToStore.map some
  pending : p.pendingToStrategy.items.map p.packet = l.pendingToStrategy.map some
  hand : p.inHand.map p.msgWrappers.slots = l.inHand.map some
  db : p.storeToDb.items.map p.item = l.storeToDb.map some
  back : p.dbToParser.items.map p.item = l.dbToParser.map fun obj => some (some obj)
  released : p.released = l.released

variable {p : Pipeline ω} {l : Ledger ω}

theorem represents_start : ({} : Pipeline ω).Represents {} :=
  ⟨rfl, rfl, rfl, rfl, rfl, rfl⟩

/-- A wrapper that nothing points to may be written. -/
theorem represents_putMsg (h : p.Represents l) (hfree : p.MsgWrapperFree) (o : Option ω) :
    { p with msgWrappers := p.msgWrappers.put o }.Represents l := by
  obtain ⟨hqueue, hhand, hpackets⟩ := hfree
  refine ⟨?_, ?_, ?_, h.db, h.back, h.released⟩
  · show p.parserToStore.items.map (p.msgWrappers.put o).slots = _
    rw [RingPool.map_slots_put hqueue]
    exact h.queue
  · rw [← h.pending]
    refine List.map_congr_left fun q hq => ?_
    show (p.packets.slots q).bind _ = (p.packets.slots q).bind _
    cases hx : p.packets.slots q with
    | none => rfl
    | some x =>
      have hne : x.1 ≠ p.msgWrappers.slot := by
        intro heq
        exact hpackets q hq x.2 (by rw [hx, ← heq])
      simp only [Option.bind_some, RingPool.slots_put_of_ne _ _ hne]
  · rw [← h.hand]
    cases hw : p.inHand with
    | none => rfl
    | some w =>
      have hne : w ≠ p.msgWrappers.slot := by
        rintro rfl
        exact hhand hw
      simp only [Option.map_some, RingPool.slots_put_of_ne _ _ hne]

/-- A packet that nothing points to may be written. -/
theorem represents_putPacket (h : p.Represents l) (hfree : p.PacketFree)
    (x : Option (Fin 2048 × OrderSlot)) :
    { p with packets := p.packets.put x }.Represents l := by
  refine ⟨h.queue, ?_, h.hand, h.db, h.back, h.released⟩
  rw [← h.pending]
  refine List.map_congr_left fun q hq => ?_
  have hne : q ≠ p.packets.slot := by
    rintro rfl
    exact hfree hq
  show ((p.packets.put x).slots q).bind _ = (p.packets.slots q).bind _
  rw [RingPool.slots_put_of_ne _ _ hne]

theorem item_putDbData (ref : DbRef) {d : Fin 2048} (hne : d ≠ p.dbDatas.slot) :
    { p with dbDatas := p.dbDatas.put ref }.item d = p.item d := by
  unfold item
  simp only [RingPool.slots_put_of_ne _ _ hne]

/-- A `DbData` that nothing points to may be written. -/
theorem represents_putDbData (h : p.Represents l) (hfree : p.DbDataFree) (ref : DbRef) :
    { p with dbDatas := p.dbDatas.put ref }.Represents l := by
  refine ⟨h.queue, h.pending, h.hand, ?_, ?_, h.released⟩
  · rw [← h.db]
    refine List.map_congr_left fun d hd => item_putDbData ref ?_
    rintro rfl
    exact hfree.1 hd
  · rw [← h.back]
    refine List.map_congr_left fun d hd => item_putDbData ref ?_
    rintro rfl
    exact hfree.2 hd

/-- A typed wrapper that nothing points to may be written. -/
theorem represents_putTyped (h : p.Represents l) {kind : MessageKind} (hfree : p.TypedFree kind)
    (o : Option ω) :
    { p with typedWrappers :=
        Function.update p.typedWrappers kind ((p.typedWrappers kind).put o) }.Represents l := by
  have hitem : ∀ d ∈ p.storeToDb.items ++ p.dbToParser.items,
      { p with typedWrappers :=
          Function.update p.typedWrappers kind ((p.typedWrappers kind).put o) }.item d =
        p.item d := by
    intro d hd
    unfold item
    cases href : p.dbDatas.slots d with
    | order slot => rfl
    | wrapper k i =>
      simp only
      by_cases hk : k = kind
      · subst hk
        have hne : i ≠ (p.typedWrappers k).slot := by
          rintro rfl
          exact hfree d hd href
        rw [Function.update_self, RingPool.slots_put_of_ne _ _ hne]
      · rw [Function.update_of_ne hk]
  refine ⟨h.queue, h.pending, h.hand, ?_, ?_, h.released⟩
  · rw [← h.db]
    exact List.map_congr_left fun d hd => hitem d (List.mem_append_left _ hd)
  · rw [← h.back]
    exact List.map_congr_left fun d hd => hitem d (List.mem_append_right _ hd)

theorem represents_give (h : p.Represents l) (hfree : p.MsgWrapperFree)
    (hroom : p.parserToStore.items.length < 1024) (obj : ω) :
    (p.give obj).Represents (l.step (.give obj)) := by
  have hput := represents_putMsg h hfree (some obj)
  refine ⟨?_, hput.pending, hput.hand, hput.db, hput.back, hput.released⟩
  show (p.parserToStore.push p.msgWrappers.slot).items.map (p.msgWrappers.put (some obj)).slots =
    (l.parserToStore ++ [obj]).map some
  rw [BoundedQueue.items_push hroom, List.map_append, List.map_append, ← hput.queue]
  simp

theorem represents_takePending (h : p.Represents l) (hfree : p.PacketFree) :
    ∃ p', p.takePending = .ok p' ∧ p'.Represents (l.step .takePending) := by
  have hput := represents_putPacket h hfree none
  have hpending := hput.pending
  cases hq : p.pendingToStrategy.items with
  | nil =>
    have hl : l.pendingToStrategy = [] := by
      have heq := h.pending
      rw [hq] at heq
      simpa using heq.symm
    exact ⟨p, by simp only [takePending, hq], by simpa only [Ledger.step, hl] using h⟩
  | cons front rest =>
    simp only [hq, List.map_cons] at hpending
    cases hl : l.pendingToStrategy with
    | nil => simp [hl] at hpending
    | cons x xs =>
      rw [hl, List.map_cons, List.cons.injEq] at hpending
      obtain ⟨hfront, hrest⟩ := hpending
      -- the front packet was not the one that has just been emptied
      cases hx : (p.packets.put none).slots front with
      | none => simp [packet, hx] at hfront
      | some y =>
        simp only [packet, hx, Option.bind_some, Option.map_eq_some_iff] at hfront
        obtain ⟨obj, hobj, rfl⟩ := hfront
        refine ⟨_, by simp only [takePending, hq, hx]; rfl, ?_⟩
        simp only [Ledger.step, hl]
        refine ⟨h.queue, ?_, ?_, h.db, h.back, h.released⟩
        · show p.pendingToStrategy.tail.items.map _ = _
          rw [BoundedQueue.items_tail, hq, List.tail_cons]
          exact hrest
        · show some (p.msgWrappers.slots y.1) = _
          rw [hobj]
          rfl

theorem represents_takeNew (h : p.Represents l) : p.takeNew.Represents (l.step .takeNew) := by
  have hqueue := h.queue
  cases hq : p.parserToStore.items with
  | nil =>
    have hl : l.parserToStore = [] := by
      rw [hq] at hqueue
      simpa using hqueue.symm
    simpa only [takeNew, hq, Ledger.step, hl] using h
  | cons w rest =>
    rw [hq, List.map_cons] at hqueue
    cases hl : l.parserToStore with
    | nil => simp [hl] at hqueue
    | cons obj objs =>
      rw [hl, List.map_cons, List.cons.injEq] at hqueue
      simp only [takeNew, hq, Ledger.step, hl]
      refine ⟨?_, h.pending, ?_, h.db, h.back, h.released⟩
      · show p.parserToStore.tail.items.map _ = _
        rw [BoundedQueue.items_tail, hq, List.tail_cons]
        exact hqueue.2
      · show some (p.msgWrappers.slots w) = _
        rw [hqueue.1]
        rfl

theorem represents_pushDbData (h : p.Represents l) (hfree : p.DbDataFree)
    (hroom : p.storeToDb.items.length < 1024) {ref : DbRef} {o : Option ω}
    (href : { p with dbDatas := p.dbDatas.put ref }.item p.dbDatas.slot = some o) :
    (p.pushDbData ref).Represents { l with storeToDb := l.storeToDb ++ [o] } := by
  have hput := represents_putDbData h hfree ref
  refine ⟨hput.queue, hput.pending, hput.hand, ?_, hput.back, hput.released⟩
  show (p.storeToDb.push p.dbDatas.slot).items.map { p with dbDatas := p.dbDatas.put ref }.item =
    (l.storeToDb ++ [o]).map some
  rw [BoundedQueue.items_push hroom, List.map_append, List.map_append]
  have hdb := hput.db
  simp only at hdb
  rw [hdb, List.map_singleton, List.map_singleton, href]

theorem represents_pushPending (h : p.Represents l) (hmsg : p.MsgWrapperFree)
    (hpacket : p.PacketFree) (hroom : p.pendingToStrategy.items.length < 65536) (obj : ω)
    (slot : OrderSlot) :
    (p.pushPending obj slot).Represents
      { l with pendingToStrategy := l.pendingToStrategy ++ [(obj, slot)] } := by
  have hput := represents_putPacket (represents_putMsg h hmsg (some obj)) hpacket
    (some (p.msgWrappers.slot, slot))
  refine ⟨hput.queue, ?_, hput.hand, hput.db, hput.back, hput.released⟩
  show (p.pendingToStrategy.push p.packets.slot).items.map (p.pushPending obj slot).packet =
    (l.pendingToStrategy ++ [(obj, slot)]).map some
  rw [BoundedQueue.items_push hroom, List.map_append, List.map_append]
  have hpending : p.pendingToStrategy.items.map (p.pushPending obj slot).packet =
      l.pendingToStrategy.map some := hput.pending
  rw [hpending]
  simp [packet, pushPending]

/-- The typed wrapper of the message that is handled still holds it. -/
def Wrapped (p : Pipeline ω) (obj : ω) (kind : MessageKind) (i : Fin 256) : Prop :=
  (p.typedWrappers kind).slots i = some obj

theorem wrapped_emit {obj : ω} {kind : MessageKind} {i : Fin 256} (hw : p.Wrapped obj kind i)
    (out : StoreOut) : (emit obj kind i p out).Wrapped obj kind i := by
  cases out <;> exact hw

theorem represents_emit (h : p.Represents l) {obj : ω} {kind : MessageKind} {i : Fin 256}
    (hw : p.Wrapped obj kind i) {out : StoreOut} (hready : p.EmitReady out) :
    (emit obj kind i p out).Represents (l.emit obj out) := by
  cases out with
  | order slot =>
    refine represents_pushDbData h hready.1 hready.2 ?_
    simp [item]
  | message =>
    have hitem : { p with dbDatas := p.dbDatas.put (.wrapper kind i) }.item p.dbDatas.slot =
        some (some obj) := by
      unfold Wrapped at hw
      simp [item, hw]
    have hpush := represents_pushDbData h hready.1 hready.2 hitem
    exact ⟨hpush.queue, hpush.pending, hpush.hand, hpush.db, hpush.back, hpush.released⟩
  | defer slot => exact represents_pushPending h hready.1 hready.2.1 hready.2.2 obj slot

theorem represents_foldl {obj : ω} {kind : MessageKind} {i : Fin 256} (outs : List StoreOut)
    (h : p.Represents l) (hw : p.Wrapped obj kind i) (hready : EmitsReady obj kind i p outs) :
    (outs.foldl (emit obj kind i) p).Represents (outs.foldl (Ledger.emit obj) l) := by
  induction outs generalizing p l with
  | nil => exact h
  | cons out outs ih =>
    exact ih (represents_emit h hw hready.1) (wrapped_emit hw out) hready.2

theorem represents_handle {kindOf : ω → MessageKind} (h : p.Represents l) {outs : List StoreOut}
    (hready : p.Ready kindOf (.handle outs)) :
    ∃ p', p.handle kindOf outs = .ok p' ∧ p'.Represents (l.step (.handle outs)) := by
  have hhand := h.hand
  cases hw : p.inHand with
  | none =>
    have hl : l.inHand = none := by
      rw [hw] at hhand
      simpa using hhand.symm
    exact ⟨p, by simp only [handle, hw], by simpa only [Ledger.step, hl] using h⟩
  | some w =>
    cases hl : l.inHand with
    | none => simp [hw, hl] at hhand
    | some obj =>
      have hobj : p.msgWrappers.slots w = some obj := by simpa [hw, hl] using hhand
      obtain ⟨htyped, houts⟩ := hready w obj hw hobj
      refine ⟨_, by simp only [handle, hw, hobj]; rfl, ?_⟩
      simp only [Ledger.step, hl]
      have hput := represents_putTyped h htyped (some obj)
      have hwrap : (p.wrapTyped obj (kindOf obj)).Represents { l with inHand := none } :=
        ⟨hput.queue, hput.pending, rfl, hput.db, hput.back, hput.released⟩
      refine represents_foldl outs hwrap ?_ houts
      show (Function.update p.typedWrappers (kindOf obj) _ (kindOf obj)).slots _ = _
      rw [Function.update_self, RingPool.slots_put_slot]

theorem represents_write {kindOf : ω → MessageKind} (h : p.Represents l)
    (hready : p.Ready kindOf .write) : p.write.Represents (l.step .write) := by
  have hdb := h.db
  cases hq : p.storeToDb.items with
  | nil =>
    have hl : l.storeToDb = [] := by
      rw [hq] at hdb
      simpa using hdb.symm
    simpa only [write, hq, Ledger.step, hl] using h
  | cons d rest =>
    rw [hq, List.map_cons] at hdb
    cases hl : l.storeToDb with
    | nil => simp [hl] at hdb
    | cons o os =>
      rw [hl, List.map_cons, List.cons.injEq] at hdb
      obtain ⟨hhead, hrest⟩ := hdb
      cases href : p.dbDatas.slots d with
      | order slot =>
        -- a wrapper with an order is not handed back
        have ho : o = none := by simpa [item, href] using hhead.symm
        subst ho
        simp only [write, hq, href, Ledger.step, hl]
        refine ⟨h.queue, h.pending, h.hand, ?_, h.back, h.released⟩
        show p.storeToDb.tail.items.map p.item = _
        rw [BoundedQueue.items_tail, hq, List.tail_cons, hrest]
      | wrapper kind i =>
        -- a wrapper with a message goes back to the parser
        obtain ⟨obj, hobj, rfl⟩ : ∃ obj, (p.typedWrappers kind).slots i = some obj ∧ some obj = o := by
          simpa [item, href] using hhead
        simp only [write, hq, href, Ledger.step, hl]
        refine ⟨h.queue, h.pending, h.hand, ?_, ?_, h.released⟩
        · show p.storeToDb.tail.items.map p.item = _
          rw [BoundedQueue.items_tail, hq, List.tail_cons, hrest]
        · show (p.dbToParser.push d).items.map p.item = _
          have hroom := hready d kind i (by rw [hq, List.head?_cons]) href
          rw [BoundedQueue.items_push hroom, List.map_append, List.map_append, h.back,
            List.map_singleton, hhead]
          rfl

theorem represents_flush (h : p.Represents l) :
    ∃ p', p.flush = .ok p' ∧ p'.Represents (l.step .flush) := by
  have hback := h.back
  cases hq : p.dbToParser.items with
  | nil =>
    have hl : l.dbToParser = [] := by
      rw [hq] at hback
      simpa using hback.symm
    exact ⟨p, by simp only [flush, hq], by simpa only [Ledger.step, hl] using h⟩
  | cons d rest =>
    rw [hq, List.map_cons] at hback
    cases hl : l.dbToParser with
    | nil => simp [hl] at hback
    | cons obj objs =>
      rw [hl, List.map_cons, List.cons.injEq] at hback
      obtain ⟨hhead, hrest⟩ := hback
      cases href : p.dbDatas.slots d with
      | order slot => simp [item, href] at hhead
      | wrapper kind i =>
        have hobj : (p.typedWrappers kind).slots i = some obj := by simpa [item, href] using hhead
        refine ⟨_, by simp only [flush, hq, href, hobj]; rfl, ?_⟩
        simp only [Ledger.step, hl]
        refine ⟨h.queue, h.pending, h.hand, h.db, ?_, ?_⟩
        · show p.dbToParser.tail.items.map p.item = _
          rw [BoundedQueue.items_tail, hq, List.tail_cons]
          exact hrest
        · show p.released ++ [obj] = l.released ++ [obj]
          rw [h.released]

/-- **A ready step does to the pipeline what it does to the ledger.** -/
theorem represents_step {kindOf : ω → MessageKind} (h : p.Represents l) {e : PipeEvent ω}
    (hready : p.Ready kindOf e) :
    ∃ p', p.step kindOf e = .ok p' ∧ p'.Represents (l.step e) := by
  cases e with
  | give obj => exact ⟨_, rfl, represents_give h hready.1 hready.2 obj⟩
  | takePending => exact represents_takePending h hready
  | takeNew => exact ⟨_, rfl, represents_takeNew h⟩
  | handle outs => exact represents_handle h hready
  | write => exact ⟨_, rfl, represents_write h hready⟩
  | flush => exact represents_flush h

end Pipeline

/-- A run of ready steps does to the pipeline what it does to the ledger. -/
theorem represents_exec {ω : Type} {kindOf : ω → MessageKind} (es : List (PipeEvent ω))
    {p : Pipeline ω} {l : Ledger ω} (hp : p.Represents l) (hl : l.ReleasedOnce)
    (hready : Along (Pipeline.step kindOf) (Pipeline.Ready kindOf) p es) :
    ∃ p', exec (Pipeline.step kindOf) p es = .ok p' ∧
      p'.Represents (es.foldl Ledger.step l) ∧ (es.foldl Ledger.step l).ReleasedOnce := by
  induction es generalizing p l with
  | nil => exact ⟨p, rfl, hp, hl⟩
  | cons e es ih =>
    obtain ⟨p', hstep, hp'⟩ := Pipeline.represents_step hp hready.1
    obtain ⟨t, ht, hrep, honce⟩ :=
      ih hp' (Ledger.releasedOnce_step hl e) (hready.2 p' hstep)
    exact ⟨t, by rw [exec_cons_ok es hstep, ht], hrep, honce⟩

/-- **Messages queued for the database are not overwritten.**  In every run of
ready steps, what a `DbData` in either queue leads to is what it was pushed
with, what the parser has released is what was pushed in that order, and each
message that was pushed has been released once or is still under way. -/
theorem db_messages_intact {ω : Type} (kindOf : ω → MessageKind) (es : List (PipeEvent ω))
    (hready : Along (Pipeline.step kindOf) (Pipeline.Ready kindOf) {} es) :
    let l : Ledger ω := es.foldl Ledger.step {}
    ∃ p, exec (Pipeline.step kindOf) {} es = .ok p ∧
      p.storeToDb.items.map p.item = l.storeToDb.map some ∧
      p.dbToParser.items.map p.item = l.dbToParser.map (fun obj => some (some obj)) ∧
      p.released = l.released ∧
      p.released ++ l.dbToParser ++ l.storeToDb.filterMap id = l.pushed := by
  intro l
  obtain ⟨p, hexec, hrep, honce⟩ := represents_exec es Pipeline.represents_start rfl hready
  refine ⟨p, hexec, hrep.db, hrep.back, hrep.released, ?_⟩
  rw [hrep.released]
  exact honce

/-! ### One message there and back -/

/-- A message is handed over, stored with its order, written and taken back. -/
def thereAndBack : List (PipeEvent ℕ) :=
  [.give 7, .takeNew, .handle [.order 40000, .message], .write, .write, .flush]

theorem thereAndBack_ready :
    Along (Pipeline.step fun _ => .bistItch) (Pipeline.Ready fun _ => .bistItch) {} thereAndBack := by
  refine along_cons _ ⟨⟨by simp, by simp, by simp⟩, by simp⟩ rfl ?_
  refine along_cons _ trivial rfl ?_
  refine along_cons _ ?_ rfl ?_
  · intro w obj hw hobj
    cases hw
    cases hobj
    have hnone : ∀ d : Fin 2048, d ∉ ([] : List (Fin 2048)) := fun d => List.not_mem_nil
    refine ⟨fun d hd => absurd hd (hnone d), ⟨⟨hnone _, hnone _⟩, by decide⟩, ?_⟩
    -- the message takes the `DbData` after that of the order
    have hone : (1 : Fin 2048) ∉ [(0 : Fin 2048)] := by simp
    exact ⟨⟨⟨hone, hnone _⟩, by decide⟩, trivial⟩
  · refine along_cons _ (fun d kind i _ _ => by decide) rfl ?_
    refine along_cons _ (fun d kind i _ _ => by decide) rfl ?_
    exact along_cons _ trivial rfl trivial

theorem db_messages_intact_roundTrip :
    ∃ p, exec (Pipeline.step fun _ => .bistItch) {} thereAndBack = .ok p ∧ p.released = [7] := by
  obtain ⟨p, hexec, -, -, hreleased, -⟩ := db_messages_intact _ _ thereAndBack_ready
  exact ⟨p, hexec, hreleased⟩

/-! ### More messages than wrappers -/

namespace Pipeline

/-- Hand over a message and store it. -/
def storeOne (obj : ℕ) : List (PipeEvent ℕ) := [.give obj, .takeNew, .handle [.message]]

/-- `n` messages, stored one after another before the database thread runs. -/
def storeMany : ℕ → List (PipeEvent ℕ)
  | 0 => []
  | n + 1 => storeMany n ++ storeOne n

/-- After `n` messages of one kind: their `DbData`s are the first `n`, and the
last 256 typed wrappers hold the last 256 messages. -/
structure Stored (n : ℕ) (p : Pipeline ℕ) : Prop where
  queue : p.parserToStore.items = []
  db : p.storeToDb.items = (List.range n).map (Fin.ofNat 2048)
  back : p.dbToParser.items = []
  released : p.released = []
  nextDb : p.dbDatas.next = n
  nextTyped : (p.typedWrappers .bistItch).next = n
  ref : ∀ j < n, p.dbDatas.slots (Fin.ofNat 2048 j) = .wrapper .bistItch (Fin.ofNat 256 j)
  typed : ∀ j < n, n ≤ j + 256 →
    (p.typedWrappers .bistItch).slots (Fin.ofNat 256 j) = some j

/-- What `storeOne` makes of a pipeline with an empty first queue. -/
def storedOne (p : Pipeline ℕ) (obj : ℕ) : Pipeline ℕ :=
  ((p.give obj).takeNew.wrapTyped obj .bistItch).pushDbData
    (.wrapper .bistItch (p.typedWrappers .bistItch).slot)

theorem exec_storeOne {p : Pipeline ℕ} (hqueue : p.parserToStore.items = []) (obj : ℕ) :
    (p.give obj).takeNew = { p.give obj with
      parserToStore := (p.give obj).parserToStore.tail, inHand := some p.msgWrappers.slot } ∧
    exec (step fun _ => .bistItch) p (storeOne obj) = .ok (p.storedOne obj) := by
  have hitems : (p.give obj).parserToStore.items = [p.msgWrappers.slot] := by
    show (p.parserToStore.push p.msgWrappers.slot).items = _
    rw [BoundedQueue.items_push (by simp [hqueue]), hqueue, List.nil_append]
  have htake : (p.give obj).takeNew = { p.give obj with
      parserToStore := (p.give obj).parserToStore.tail, inHand := some p.msgWrappers.slot } := by
    simp only [takeNew, hitems]
  have hobj : (p.give obj).msgWrappers.slots p.msgWrappers.slot = some obj :=
    RingPool.slots_put_slot _ _
  have hhandle : (p.give obj).takeNew.step (fun _ => .bistItch) (.handle [.message]) =
      .ok (p.storedOne obj) := by
    rw [storedOne, htake]
    simp only [step, handle, hobj]
    rfl
  refine ⟨htake, ?_⟩
  rw [storeOne, exec_cons_ok _ rfl, exec_cons_ok _ rfl, exec_cons_ok _ hhandle, exec_nil]

theorem ofNat_ne_of_lt {m i j : ℕ} [NeZero m] (hij : i < j) (hj : j < i + m) :
    Fin.ofNat m i ≠ Fin.ofNat m j := by
  intro heq
  have hmod : i % m = j % m := congrArg Fin.val heq
  have hdvd : m ∣ j - i := (Nat.modEq_iff_dvd' (le_of_lt hij)).mp hmod
  have hle := Nat.le_of_dvd (by omega) hdvd
  omega

theorem stored_storeOne {n : ℕ} {p : Pipeline ℕ} (h : Stored n p) (hn : n < 1024) :
    ∃ p', exec (step fun _ => .bistItch) p (storeOne n) = .ok p' ∧ Stored (n + 1) p' := by
  obtain ⟨htake, hexec⟩ := exec_storeOne h.queue n
  have hslot : p.dbDatas.slot = Fin.ofNat 2048 n := by rw [RingPool.slot, h.nextDb]
  have htslot : (p.typedWrappers .bistItch).slot = Fin.ofNat 256 n := by
    rw [RingPool.slot, h.nextTyped]
  refine ⟨_, hexec, ?_⟩
  -- the object is now the newest in `store_to_db_`, with its reference and its wrapper
  rw [storedOne, htake]
  refine ⟨?_, ?_, h.back, h.released, ?_, ?_, ?_, ?_⟩
  · show (p.parserToStore.push p.msgWrappers.slot).items.tail = []
    rw [BoundedQueue.items_push (by simp [h.queue]), h.queue]
    rfl
  · show (p.storeToDb.push p.dbDatas.slot).items = _
    rw [BoundedQueue.items_push (by simpa [h.db] using hn), h.db, hslot, List.range_succ,
      List.map_append]
    rfl
  · show p.dbDatas.next + 1 = n + 1
    rw [h.nextDb]
  · show (Function.update p.typedWrappers .bistItch _ .bistItch).next = n + 1
    rw [Function.update_self]
    show (p.typedWrappers .bistItch).next + 1 = n + 1
    rw [h.nextTyped]
  · intro j hj
    show (p.dbDatas.put (.wrapper .bistItch (p.typedWrappers .bistItch).slot)).slots _ = _
    by_cases hjn : j = n
    · rw [hjn, ← hslot, RingPool.slots_put_slot, htslot]
    · rw [RingPool.slots_put_of_ne _ _ (hslot ▸ ofNat_ne_of_lt (by omega) (by omega))]
      exact h.ref j (by omega)
  · intro j hj hnear
    show (Function.update p.typedWrappers .bistItch
      ((p.typedWrappers .bistItch).put (some n)) .bistItch).slots _ = _
    rw [Function.update_self]
    by_cases hjn : j = n
    · rw [hjn, ← htslot, RingPool.slots_put_slot]
    · rw [RingPool.slots_put_of_ne _ _ (htslot ▸ ofNat_ne_of_lt (by omega) (by omega))]
      exact h.typed j (by omega) (by omega)

theorem stored_storeMany {n : ℕ} (hn : n ≤ 1024) :
    ∃ p, exec (step fun _ => .bistItch) {} (storeMany n) = .ok p ∧ Stored n p := by
  induction n with
  | zero => exact ⟨{}, rfl, rfl, rfl, rfl, rfl, rfl, rfl, by simp, by simp⟩
  | succ n ih =>
    obtain ⟨p, hp, hstored⟩ := ih (by omega)
    obtain ⟨p', hp', hstored'⟩ := stored_storeOne hstored (by omega)
    exact ⟨p', exec_append_eq_ok_iff.mpr ⟨p, hp, hp'⟩, hstored'⟩

theorem ledger_storeMany (n : ℕ) :
    (storeMany n).foldl Ledger.step ({} : Ledger ℕ) =
      { storeToDb := (List.range n).map some, pushed := List.range n } := by
  induction n with
  | zero => rfl
  | succ n ih =>
    rw [storeMany, List.foldl_append, ih]
    simp [storeOne, Ledger.step, Ledger.emit, List.range_succ]

end Pipeline

/-- 257 messages are stored; then the first is written and taken back. -/
def overwriting : List (PipeEvent ℕ) := Pipeline.storeMany 257 ++ [.write, .flush]

/-- **A message in the queue is overwritten.**  257 messages of one type are
stored before the database thread passes the first one on: it leads to the
last message, so the first is never released. -/
theorem wrapper_overwritten :
    ∃ p, exec (Pipeline.step fun _ => .bistItch) {} overwriting = .ok p ∧ p.released = [256] ∧
      (overwriting.foldl Ledger.step ({} : Ledger ℕ)).released = [0] := by
  obtain ⟨p, hp, hstored⟩ := Pipeline.stored_storeMany (n := 257) (by omega)
  -- the first `DbData` points to the wrapper that the last message was put into
  have hhead : p.storeToDb.items = Fin.ofNat 2048 0 :: p.storeToDb.items.tail := by
    rw [hstored.db]
    rfl
  have href : p.dbDatas.slots (Fin.ofNat 2048 0) = .wrapper .bistItch (Fin.ofNat 256 256) :=
    hstored.ref 0 (by omega)
  have htyped := hstored.typed 256 (by omega) (by omega)
  have hwrite : p.write = { p with
      storeToDb := p.storeToDb.tail, dbToParser := p.dbToParser.push (Fin.ofNat 2048 0) } := by
    rw [Pipeline.write, hhead]
    simp only [href]
  have hback : p.write.dbToParser.items = [Fin.ofNat 2048 0] := by
    rw [hwrite]
    show (p.dbToParser.push _).items = _
    rw [BoundedQueue.items_push (by simp [hstored.back]), hstored.back, List.nil_append]
  have hflush : p.write.step (fun _ => .bistItch) .flush = .ok { p.write with
      dbToParser := p.write.dbToParser.tail, released := p.write.released ++ [256] } := by
    have href' : p.write.dbDatas.slots (Fin.ofNat 2048 0) =
        .wrapper .bistItch (Fin.ofNat 256 256) := by
      rw [hwrite]
      exact href
    have htyped' : (p.write.typedWrappers .bistItch).slots (Fin.ofNat 256 256) = some 256 := by
      rw [hwrite]
      exact htyped
    simp only [Pipeline.step, Pipeline.flush, hback, href', htyped']
  have hend : exec (Pipeline.step fun _ => .bistItch) p [.write, .flush] = .ok { p.write with
      dbToParser := p.write.dbToParser.tail, released := p.write.released ++ [256] } := by
    rw [exec_cons_ok _ rfl, exec_cons_ok _ hflush, exec_nil]
  refine ⟨_, exec_append_eq_ok_iff.mpr ⟨p, hp, hend⟩, ?_, ?_⟩
  · show p.write.released ++ [256] = [256]
    rw [hwrite]
    show p.released ++ [256] = [256]
    rw [hstored.released, List.nil_append]
  · rw [overwriting, List.foldl_append, Pipeline.ledger_storeMany, List.range_succ_eq_map]
    rfl

end TradingEngine
