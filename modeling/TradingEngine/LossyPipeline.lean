/-
The store pipeline when its queues may be full.

A push to a full queue is refused and the caller does not look: the object is
then no longer on the store path.  As long as no ring slot is taken that is still
pointed to (`RingFree`), nothing else happens: every object that is on the path
after a step was there before it or was given by it.

* `carried` — the objects between the parser and `flush_DbQueue`; `Carries` says
  the same of the pointers;
* `lossy_give`, `lossy_handle`, `lossy_write` — the steps that push, with what
  they can lose;
* `carried_flush` — the parser takes back one of the carried objects.
-/
import TradingEngine.StorePipeline

namespace TradingEngine

/-! ### What is on the way -/

namespace Ledger

variable {ω : Type}

/-- The objects between the parser and `flush_DbQueue`. -/
def carried (l : Ledger ω) : Multiset ω :=
  (l.parserToStore : Multiset ω) + (l.pendingToStrategy.map Prod.fst : List ω) +
  (l.inHand.toList : Multiset ω) + (l.storeToDb.filterMap id : List ω) + (l.dbToParser : Multiset ω)

/-- The copies of `obj` that one thing the store does with it makes. -/
def copies (obj : ω) : StoreOut → Multiset ω
  | .order _ => 0
  | .message => {obj}
  | .defer _ => {obj}

theorem carried_give (l : Ledger ω) (obj : ω) :
    (l.step (.give obj)).carried = obj ::ₘ l.carried := by
  show ((l.parserToStore ++ [obj] : List ω) : Multiset ω) + _ + _ + _ + _ = _
  rw [← Multiset.coe_add, Multiset.coe_singleton, ← Multiset.singleton_add, carried]
  abel

theorem carried_takePending_le (l : Ledger ω) : (l.step .takePending).carried ≤ l.carried := by
  cases hq : l.pendingToStrategy with
  | nil => simp only [step, hq, le_refl]
  | cons x rest =>
    obtain ⟨obj, slot⟩ := x
    refine Multiset.le_iff_exists_add.mpr ⟨(l.inHand.toList : Multiset ω), ?_⟩
    simp only [step, hq, carried, List.map_cons, Option.toList_some, ← Multiset.cons_coe,
      ← Multiset.singleton_add]
    abel

theorem carried_takeNew_le (l : Ledger ω) : (l.step .takeNew).carried ≤ l.carried := by
  cases hq : l.parserToStore with
  | nil => simp only [step, hq, le_refl]
  | cons obj rest =>
    refine Multiset.le_iff_exists_add.mpr ⟨(l.inHand.toList : Multiset ω), ?_⟩
    simp only [step, hq, carried, Option.toList_some, ← Multiset.cons_coe,
      ← Multiset.singleton_add]
    abel

theorem carried_write_le (l : Ledger ω) : (l.step .write).carried ≤ l.carried := by
  cases hq : l.storeToDb with
  | nil => simp only [step, hq, le_refl]
  | cons o rest =>
    cases o with
    | none => simp only [step, hq, carried, List.filterMap_cons_none, id_eq, le_refl]
    | some obj =>
      refine le_of_eq ?_
      have hhead : ((some obj :: rest).filterMap id : Multiset ω)
          = {obj} + (rest.filterMap id : List ω) := rfl
      simp only [step, hq, carried, ← Multiset.coe_add, hhead]
      show _ + (_ + ({obj} : Multiset ω)) = _
      abel

/-- An item that leaves `store_to_db_` and finds no room. -/
theorem carried_dropDb_le {l : Ledger ω} {o : Option ω} {rest : List (Option ω)}
    (h : l.storeToDb = o :: rest) : { l with storeToDb := rest }.carried ≤ l.carried := by
  have hsub : (rest.filterMap id : Multiset ω) ≤ (l.storeToDb.filterMap id : List ω) := by
    rw [h]
    exact Multiset.coe_le.mpr ((List.sublist_cons_self o rest).filterMap id).subperm
  unfold carried
  gcongr

theorem carried_emit (obj : ω) (l : Ledger ω) (out : StoreOut) :
    (l.emit obj out).carried = l.carried + copies obj out := by
  cases out with
  | order slot => simp [emit, carried, copies]
  | message =>
    simp only [emit, carried, copies, List.filterMap_append, ← Multiset.coe_add]
    show _ + (_ + ({obj} : Multiset ω)) + _ = _
    abel
  | defer slot =>
    simp only [emit, carried, copies, List.map_append, ← Multiset.coe_add]
    show _ + (_ + ({obj} : Multiset ω)) + _ + _ + _ = _
    abel

/-- The message in hand is one of the carried ones. -/
theorem carried_inHand {l : Ledger ω} {obj : ω} (h : l.inHand = some obj) :
    l.carried = obj ::ₘ { l with inHand := none }.carried := by
  simp only [carried, h, Option.toList_some, Option.toList_none, Multiset.coe_singleton,
    Multiset.coe_nil, ← Multiset.singleton_add]
  abel

/-- The item that `flush_DbQueue` takes is one of the carried ones. -/
theorem carried_flush {l : Ledger ω} {obj : ω} (h : l.dbToParser.head? = some obj) :
    l.carried = obj ::ₘ (l.step .flush).carried := by
  cases hq : l.dbToParser with
  | nil =>
    rw [hq] at h
    cases h
  | cons x rest =>
    rw [hq] at h
    cases h
    simp only [step, hq, carried, ← Multiset.cons_coe, ← Multiset.singleton_add]
    abel

end Ledger

/-! ### Steps that take free ring slots -/

namespace Pipeline

variable {ω : Type}

/-- One thing the store does takes no ring slot that is still pointed to. -/
def EmitFree (p : Pipeline ω) : StoreOut → Prop
  | .order _ => p.DbDataFree
  | .message => p.DbDataFree
  | .defer _ => p.MsgWrapperFree ∧ p.PacketFree

/-- The same for all that is done with one message. -/
def EmitsFree (obj : ω) (kind : MessageKind) (i : Fin 256) : Pipeline ω → List StoreOut → Prop
  | _, [] => True
  | p, out :: outs => p.EmitFree out ∧ EmitsFree obj kind i (emit obj kind i p out) outs

/-- A step takes no ring slot that is still pointed to. -/
def RingFree (kindOf : ω → MessageKind) (p : Pipeline ω) : PipeEvent ω → Prop
  | .give _ => p.MsgWrapperFree
  | .takePending => p.PacketFree
  | .handle outs =>
    ∀ w obj, p.inHand = some w → p.msgWrappers.slots w = some obj →
      p.TypedFree (kindOf obj) ∧
        EmitsFree obj (kindOf obj) (p.typedWrappers (kindOf obj)).slot
          (p.wrapTyped obj (kindOf obj)) outs
  | _ => True

/-- The objects of `out` are given one after the other, each in a wrapper that
nothing points to. -/
def GivesFree : Pipeline ω → List ω → Prop
  | _, [] => True
  | p, obj :: out => p.MsgWrapperFree ∧ GivesFree (p.give obj) out

/-- An object can be reached from one of the queues or from the store's hand. -/
def Carries (p : Pipeline ω) (obj : ω) : Prop :=
  (∃ w ∈ p.parserToStore.items, p.msgWrappers.slots w = some obj) ∨
  (∃ q ∈ p.pendingToStrategy.items, ∃ slot, p.packet q = some (obj, slot)) ∨
  (∃ w, p.inHand = some w ∧ p.msgWrappers.slots w = some obj) ∨
  (∃ d ∈ p.storeToDb.items, p.item d = some (some obj)) ∨
  ∃ d ∈ p.dbToParser.items, p.item d = some (some obj)

variable {p p' : Pipeline ω} {l : Ledger ω} {obj : ω} {kind : MessageKind} {i : Fin 256}

/-- What the pointers lead to is what the ledger carries. -/
theorem carries_iff (h : p.Represents l) : p.Carries obj ↔ obj ∈ l.carried := by
  have hqueue : (∃ w ∈ p.parserToStore.items, p.msgWrappers.slots w = some obj) ↔
      obj ∈ l.parserToStore := by
    rw [← List.mem_map, h.queue]
    simp
  have hpending : (∃ q ∈ p.pendingToStrategy.items, ∃ slot, p.packet q = some (obj, slot)) ↔
      obj ∈ l.pendingToStrategy.map Prod.fst := by
    have hmem : ∀ slot, (∃ q ∈ p.pendingToStrategy.items, p.packet q = some (obj, slot)) ↔
        (obj, slot) ∈ l.pendingToStrategy := by
      intro slot
      rw [← List.mem_map, h.pending]
      simp
    constructor
    · rintro ⟨q, hq, slot, hobj⟩
      exact List.mem_map.mpr ⟨(obj, slot), (hmem slot).mp ⟨q, hq, hobj⟩, rfl⟩
    · intro hobj
      obtain ⟨⟨_, slot⟩, hin, rfl⟩ := List.mem_map.mp hobj
      obtain ⟨q, hq, hpacket⟩ := (hmem slot).mpr hin
      exact ⟨q, hq, slot, hpacket⟩
  have hhand : (∃ w, p.inHand = some w ∧ p.msgWrappers.slots w = some obj) ↔
      obj ∈ l.inHand.toList := by
    rw [← Option.map_eq_some_iff, h.hand]
    simp
  have hdb : (∃ d ∈ p.storeToDb.items, p.item d = some (some obj)) ↔
      obj ∈ l.storeToDb.filterMap id := by
    rw [← List.mem_map, h.db]
    simp
  have hback : (∃ d ∈ p.dbToParser.items, p.item d = some (some obj)) ↔
      obj ∈ l.dbToParser := by
    rw [← List.mem_map, h.back]
    simp
  unfold Carries Ledger.carried
  rw [hqueue, hpending, hhand, hdb, hback]
  simp only [Multiset.mem_add, Multiset.mem_coe, or_assoc]

theorem lossy_give (h : p.Represents l) (hfree : p.MsgWrapperFree) (obj : ω) :
    ∃ l', (p.give obj).Represents l' ∧ l'.carried ≤ obj ::ₘ l.carried := by
  by_cases hroom : p.parserToStore.items.length < 1024
  · exact ⟨_, represents_give h hfree hroom obj, le_of_eq (l.carried_give obj)⟩
  · -- the wrapper is written, but nobody will point to it
    have hput := represents_putMsg h hfree (some obj)
    have hfull : p.give obj = { p with msgWrappers := p.msgWrappers.put (some obj) } := by
      rw [give, BoundedQueue.items_push_full hroom]
    exact ⟨l, hfull ▸ hput, Multiset.le_cons_self _ _⟩

theorem lossy_gives (out : List ω) (h : p.Represents l) (hfree : p.GivesFree out) :
    ∃ l', (out.foldl give p).Represents l' ∧ l'.carried ≤ out + l.carried := by
  induction out generalizing p l with
  | nil => exact ⟨l, h, le_of_eq (zero_add _).symm⟩
  | cons obj out ih =>
    obtain ⟨l₁, h₁, hle₁⟩ := lossy_give h hfree.1 obj
    obtain ⟨l₂, h₂, hle₂⟩ := ih h₁ hfree.2
    refine ⟨l₂, h₂, hle₂.trans ?_⟩
    calc (out : Multiset ω) + l₁.carried
        ≤ out + obj ::ₘ l.carried := by gcongr
      _ = (obj :: out : List ω) + l.carried := by
        rw [← Multiset.cons_coe, Multiset.add_cons, Multiset.cons_add]

theorem lossy_emit (h : p.Represents l) (hw : p.Wrapped obj kind i) {out : StoreOut}
    (hfree : p.EmitFree out) :
    ∃ l', (emit obj kind i p out).Represents l' ∧
      l'.carried ≤ l.carried + Ledger.copies obj out := by
  have hstay : l.carried ≤ l.carried + Ledger.copies obj out := Multiset.le_add_right _ _
  have hdone : ∀ l', l' = l.emit obj out → l'.carried ≤ l.carried + Ledger.copies obj out := by
    rintro l' rfl
    exact le_of_eq (l.carried_emit obj out)
  cases out with
  -- a full queue drops what is pushed, but the slot is written all the same
  | order slot =>
    by_cases hroom : p.storeToDb.items.length < 1024
    · exact ⟨_, represents_emit h hw ⟨hfree, hroom⟩, hdone _ rfl⟩
    · have hput := represents_putDbData h hfree (.order slot)
      have hfull : emit obj kind i p (.order slot)
          = { p with dbDatas := p.dbDatas.put (.order slot) } := by
        rw [emit, pushDbData, BoundedQueue.items_push_full hroom]
      exact ⟨l, hfull ▸ hput, hstay⟩
  | message =>
    by_cases hroom : p.storeToDb.items.length < 1024
    · exact ⟨_, represents_emit h hw ⟨hfree, hroom⟩, hdone _ rfl⟩
    · have hput := represents_putDbData h hfree (.wrapper kind i)
      have hfull : emit obj kind i p .message
          = { p with dbDatas := p.dbDatas.put (.wrapper kind i) } := by
        rw [emit, pushDbData, BoundedQueue.items_push_full hroom]
      exact ⟨l, hfull ▸ hput, hstay⟩
  | defer slot =>
    by_cases hroom : p.pendingToStrategy.items.length < 65536
    · exact ⟨_, represents_emit h hw ⟨hfree.1, hfree.2, hroom⟩, hdone _ rfl⟩
    · have hput := represents_putPacket (represents_putMsg h hfree.1 (some obj)) hfree.2
        (some (p.msgWrappers.slot, slot))
      have hfull : emit obj kind i p (.defer slot) =
          { p with
            msgWrappers := p.msgWrappers.put (some obj)
            packets := p.packets.put (some (p.msgWrappers.slot, slot)) } := by
        rw [emit, pushPending, BoundedQueue.items_push_full hroom]
      exact ⟨l, hfull ▸ hput, hstay⟩

theorem lossy_foldl (outs : List StoreOut) (h : p.Represents l) (hw : p.Wrapped obj kind i)
    (hfree : EmitsFree obj kind i p outs) :
    ∃ l', (outs.foldl (emit obj kind i) p).Represents l' ∧
      l'.carried ≤ l.carried + (outs.map (Ledger.copies obj)).sum := by
  induction outs generalizing p l with
  | nil => exact ⟨l, h, by simp⟩
  | cons out outs ih =>
    obtain ⟨l₁, h₁, hle₁⟩ := lossy_emit h hw hfree.1
    obtain ⟨l₂, h₂, hle₂⟩ := ih h₁ (wrapped_emit hw out) hfree.2
    refine ⟨l₂, h₂, hle₂.trans ?_⟩
    rw [List.map_cons, List.sum_cons, ← add_assoc]
    gcongr

/-- The message in hand leaves, and the copies the store makes of it come in. -/
theorem lossy_handle {kindOf : ω → MessageKind} {outs : List StoreOut} (h : p.Represents l)
    (hfree : p.RingFree kindOf (.handle outs)) (hstep : p.handle kindOf outs = .ok p') :
    (l.inHand = none ∧ p' = p) ∨
    ∃ obj rest l', l.inHand = some obj ∧ l.carried = obj ::ₘ rest ∧ p'.Represents l' ∧
      l'.carried ≤ rest + (outs.map (Ledger.copies obj)).sum := by
  have hhand := h.hand
  cases hw : p.inHand with
  | none =>
    have hl : l.inHand = none := by
      rw [hw] at hhand
      simpa using hhand.symm
    simp only [handle, hw] at hstep
    cases hstep
    exact .inl ⟨hl, rfl⟩
  | some w =>
    cases hl : l.inHand with
    | none => simp [hw, hl] at hhand
    | some obj =>
      have hobj : p.msgWrappers.slots w = some obj := by simpa [hw, hl] using hhand
      obtain ⟨htyped, houts⟩ := hfree w obj hw hobj
      simp only [handle, hw, hobj] at hstep
      cases hstep
      have hput := represents_putTyped h htyped (some obj)
      have hwrap : (p.wrapTyped obj (kindOf obj)).Represents { l with inHand := none } :=
        ⟨hput.queue, hput.pending, rfl, hput.db, hput.back, hput.released⟩
      have hslot : (p.wrapTyped obj (kindOf obj)).Wrapped obj (kindOf obj)
          (p.typedWrappers (kindOf obj)).slot := by
        show (Function.update p.typedWrappers (kindOf obj) _ (kindOf obj)).slots _ = _
        rw [Function.update_self, RingPool.slots_put_slot]
      obtain ⟨l', hl', hle⟩ := lossy_foldl outs hwrap hslot houts
      exact .inr ⟨obj, _, l', rfl, Ledger.carried_inHand hl, hl', hle⟩

theorem lossy_write (h : p.Represents l) :
    ∃ l', p.write.Represents l' ∧ l'.carried ≤ l.carried := by
  by_cases hroom : p.dbToParser.items.length < 1024
  · have hready : p.Ready (fun _ => .fix) .write := fun _ _ _ _ _ => hroom
    exact ⟨_, represents_write h hready, l.carried_write_le⟩
  · have hdb := h.db
    cases hq : p.storeToDb.items with
    | nil => exact ⟨l, by simpa only [write, hq] using h, le_refl _⟩
    | cons d rest =>
      rw [hq, List.map_cons] at hdb
      cases hl : l.storeToDb with
      | nil => simp [hl] at hdb
      | cons o os =>
        rw [hl, List.map_cons, List.cons.injEq] at hdb
        -- the item is taken off `store_to_db_` and finds no room
        have hwrite : p.write = { p with storeToDb := p.storeToDb.tail } := by
          rw [write, hq]
          cases href : p.dbDatas.slots d with
          | order slot => simp only [href]
          | wrapper k j => simp only [href, BoundedQueue.items_push_full hroom]
        have hdrop : { p with storeToDb := p.storeToDb.tail }.Represents
            { l with storeToDb := os } := by
          refine ⟨h.queue, h.pending, h.hand, ?_, h.back, h.released⟩
          show p.storeToDb.tail.items.map p.item = os.map some
          rw [BoundedQueue.items_tail, hq, List.tail_cons, hdb.2]
        exact ⟨_, hwrite ▸ hdrop, Ledger.carried_dropDb_le hl⟩

/-- What the head of `db_to_parser_` leads to. -/
def flushed? (p : Pipeline ω) : Option ω := (p.dbToParser.items.head?.bind p.item).join

theorem flushed?_eq (h : p.Represents l) : p.flushed? = l.dbToParser.head? := by
  have hback := h.back
  unfold flushed?
  cases hq : p.dbToParser.items with
  | nil =>
    rw [hq, List.map_nil, eq_comm, List.map_eq_nil_iff] at hback
    rw [hback]
    rfl
  | cons d rest =>
    rw [hq, List.map_cons] at hback
    cases hl : l.dbToParser with
    | nil => simp [hl] at hback
    | cons obj objs =>
      rw [hl, List.map_cons, List.cons.injEq] at hback
      show (p.item d).join = some obj
      rw [hback.1]
      rfl

end Pipeline

end TradingEngine
