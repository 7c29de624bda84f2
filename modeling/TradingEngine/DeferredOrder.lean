/-
The order in which `store` applies the messages of one order
(`order_management/OrderManager.cpp`).

Messages are numbered as they arrive.  A message about an order whose
`canModify` is zero is deferred; the oldest deferred message is taken up again
when all three bits of its order are set; a new message is applied as soon as
one of them is.  Risk, strategy and builder set bits at any time, and the other
threads may change everything else.

* `OrderedStore.InOrder` — a new message is applied to no order that has
  deferred messages, and a deferred message still leads to its order;
* `applied_in_arrival_order` — in a run of such steps the messages of every
  order are applied in the order of their arrival;
* `applied_out_of_order` — a bit of three lets a new message pass a deferred
  one.
-/
import TradingEngine.StoreFront

namespace TradingEngine

open FallibleRun

/-- A message with its place among all that have arrived. -/
structure Arrival where
  number : ℕ
  msg : StoreMessage

def StoreMessage.kind : StoreMessage → MessageKind
  | .fix _ => .fix
  | .fixSession _ => .fixSession
  | .bistItch _ => .bistItch
  | .nasdaqItch _ => .nasdaqItch
  | .bistOuch _ => .bistOuch
  | .nasdaqOuch _ => .nasdaqOuch

def Arrival.kind (a : Arrival) : MessageKind := a.msg.kind

/-- What became of a message: its disposition, and what its handler pushed. -/
structure AppliedMessage where
  number : ℕ
  disposition : Disposition
  outs : List StoreOut

/-- `log` and `deferredFor` only record: what was handled, and for which order
the message in hand had been deferred. -/
structure OrderedStore extends StoreFront Arrival where
  arrived : ℕ := 0
  deferredFor : Option OrderSlot := none
  log : List AppliedMessage := []

inductive OrderedEvent
  | arrive (msg : StoreMessage)
  | take
  | handle
  /-- `canModify.fetch_or` by risk, strategy or builder -/
  | setDone (slot : OrderSlot) (bits : UInt8)
  /-- the other threads change whatever they like except `canModify` -/
  | others (om : OwnManager)
  | write
  | flush

namespace OwnManager

/-- `om` with the masks of `old`. -/
def withMasks (om old : OwnManager) : OwnManager :=
  { om with
    orderPool := fun slot =>
      { om.orderPool slot with canModify := (old.orderPool slot).canModify } }

end OwnManager

namespace OrderedStore

/-- The order of the packet at the front of the pending queue. -/
def frontOrder (s : OrderedStore) : Option OrderSlot :=
  s.pipe.pendingToStrategy.items.head?.bind fun q => (s.pipe.packets.slots q).map Prod.snd

/-- The orders that have deferred messages. -/
def pendingOrders (s : OrderedStore) : List OrderSlot :=
  s.pipe.pendingToStrategy.items.filterMap fun q => (s.pipe.packet q).map Prod.snd

def take (s : OrderedStore) : Except Fault OrderedStore :=
  s.toStoreFront.take.map fun f =>
    { s with
      toStoreFront := f
      deferredFor :=
        if s.pipe.inHand.isSome then s.deferredFor
        else if s.takesPending then s.frontOrder else none }

/-- The record of the message in hand. -/
def record (hash : List UInt8 → UInt64) (s : OrderedStore) : List AppliedMessage :=
  match s.inHand with
  | none => []
  | some a =>
    match OwnManager.update hash s.om.drained a.msg with
    | .error _ => []
    | .ok om => [⟨a.number, OwnManager.disposition hash s.om.drained a.msg, om.outputs⟩]

def handle (hash : List UInt8 → UInt64) (s : OrderedStore) : Except Fault OrderedStore :=
  (s.toStoreFront.handle hash Arrival.kind Arrival.msg).map fun f =>
    { s with toStoreFront := f, log := s.log ++ s.record hash }

def step (hash : List UInt8 → UInt64) (s : OrderedStore) :
    OrderedEvent → Except Fault OrderedStore
  | .arrive msg => .ok { s with arrived := s.arrived + 1, pipe := s.pipe.give ⟨s.arrived, msg⟩ }
  | .take => s.take
  | .handle => s.handle hash
  | .setDone slot bits => .ok { s with om := s.om.orMask slot bits }
  | .others om => .ok { s with om := om.withMasks s.om }
  | .write => .ok { s with pipe := s.pipe.write }
  | .flush => s.pipe.flush.map fun p => { s with pipe := p }

/-- The numbers of the messages applied to an order, first to last. -/
def appliedTo (s : OrderedStore) (slot : OrderSlot) : List ℕ :=
  s.log.filterMap fun h => if h.disposition = .applied slot then some h.number else none

/-- A step takes no ring slot that is still pointed to, and pushes to no full
queue. -/
def Ready (hash : List UInt8 → UInt64) (s : OrderedStore) : OrderedEvent → Prop
  | .arrive msg => s.pipe.Ready Arrival.kind (.give ⟨s.arrived, msg⟩)
  | .take => s.TakeReady Arrival.kind
  | .handle => s.HandleReady hash Arrival.kind Arrival.msg
  | .write => s.pipe.Ready Arrival.kind .write
  | _ => True

/-- A new message is applied to no order that has deferred messages; one that
was deferred concerns, if any, the order it was deferred for. -/
def InOrder (hash : List UInt8 → UInt64) (s : OrderedStore) : OrderedEvent → Prop
  | .handle => ∀ a, s.inHand = some a → ∀ slot,
      match s.deferredFor with
      | none => OwnManager.disposition hash s.om.drained a.msg = .applied slot →
          slot ∉ s.pendingOrders
      | some order =>
          OwnManager.disposition hash s.om.drained a.msg = .applied slot ∨
            OwnManager.disposition hash s.om.drained a.msg = .deferred slot → slot = order
  | _ => True

end OrderedStore

/-! ### What is deferred -/

/-- The order a message is deferred for. -/
def StoreOut.deferredTo : StoreOut → Option OrderSlot
  | .defer slot => some slot
  | _ => none

def Disposition.deferredTo : Disposition → Option OrderSlot
  | .deferred slot => some slot
  | _ => none

theorem Disposition.Agrees.deferredTo {d : Disposition} {outs : List StoreOut} (h : d.Agrees outs) :
    outs.filterMap StoreOut.deferredTo = d.deferredTo.toList := by
  cases d with
  | dropped =>
    subst h
    rfl
  | ignored slot =>
    subst h
    rfl
  | deferred slot =>
    subst h
    rfl
  | applied slot =>
    obtain rfl | rfl | rfl := h
    · rfl
    · rfl
    · rfl
  | stored =>
    subst h
    rfl

/-- What the pushes of a handler change of the front half of the ledger. -/
theorem Ledger.foldl_emit {ω : Type} (obj : ω) (outs : List StoreOut) (l : Ledger ω) :
    (outs.foldl (Ledger.emit obj) l).parserToStore = l.parserToStore ∧
    (outs.foldl (Ledger.emit obj) l).inHand = l.inHand ∧
    (outs.foldl (Ledger.emit obj) l).pendingToStrategy =
      l.pendingToStrategy ++ (outs.filterMap StoreOut.deferredTo).map (obj, ·) := by
  induction outs generalizing l with
  | nil => simp
  | cons out outs ih =>
    obtain ⟨hq, hh, hp⟩ := ih (l.emit obj out)
    rw [List.foldl_cons, hq, hh, hp]
    cases out with
    | order slot => simp [Ledger.emit, StoreOut.deferredTo, List.filterMap_cons]
    | message => simp [Ledger.emit, StoreOut.deferredTo, List.filterMap_cons]
    | defer slot => simp [Ledger.emit, StoreOut.deferredTo]

namespace OrderManager

variable {om : OrderManager} {slot order : OrderSlot}

theorem existing_deferred (h : om.existing order = .deferred slot) :
    (om.orderPool slot).canModify = 0 := by
  unfold existing at h
  split at h
  · rename_i hmask
    cases h
    exact hmask
  · cases h

theorem lookedUp_deferred {o : Option OrderSlot} (h : om.lookedUp o = .deferred slot) :
    (om.orderPool slot).canModify = 0 := by
  cases o with
  | none => cases h
  | some order => exact existing_deferred h

theorem dispositionBist_deferred {msg : Bist.ItchMessage}
    (h : om.dispositionBist msg = .deferred slot) : (om.orderPool slot).canModify = 0 := by
  cases msg with
  | addOrder m =>
    simp only [dispositionBist] at h
    split at h
    · exact existing_deferred h
    · split at h
      · cases h
      · cases h
  | orderExecuted m => exact lookedUp_deferred h
  | orderExecutedWithPrice m => exact lookedUp_deferred h
  | orderDelete m => exact lookedUp_deferred h
  | trade m => exact lookedUp_deferred h
  | _ => cases h

theorem dispositionNasdaqAdd_ne {m : Nasdaq.AddOrder} :
    om.dispositionNasdaqAdd m ≠ .deferred slot := by
  unfold dispositionNasdaqAdd
  split
  · simp
  · simp

theorem dispositionNasdaq_deferred {msg : Nasdaq.ItchMessage}
    (h : om.dispositionNasdaq msg = .deferred slot) : (om.orderPool slot).canModify = 0 := by
  cases msg with
  | addOrder m => exact absurd h dispositionNasdaqAdd_ne
  | addOrderMpid m => exact absurd h dispositionNasdaqAdd_ne
  | cancel m => exact lookedUp_deferred h
  | executed m => exact lookedUp_deferred h
  | executedWithPrice m => exact lookedUp_deferred h
  | delete m => exact lookedUp_deferred h
  | replace m => exact lookedUp_deferred h
  | trade m => exact lookedUp_deferred h
  | _ => cases h

end OrderManager

namespace OwnManager

variable {om : OwnManager} {hash : List UInt8 → UInt64} {slot order : OrderSlot}

theorem existingFix_deferred {m : FIXMessage} (h : om.existingFix order m = .deferred slot) :
    (om.orderPool slot).canModify = 0 := by
  unfold existingFix at h
  split at h
  · rename_i hmask
    cases h
    exact hmask
  · split at h
    · cases h
    · cases h

theorem awaited_ne {clientOrderId : UInt64} : om.awaited clientOrderId ≠ .deferred slot := by
  unfold awaited
  split
  · simp
  · simp

theorem knownOrAwaited_deferred {o : Option OrderSlot} {clientOrderId : UInt64}
    (h : om.knownOrAwaited o clientOrderId = .deferred slot) :
    (om.orderPool slot).canModify = 0 := by
  cases o with
  | none => exact absurd h awaited_ne
  | some order => exact OrderManager.existing_deferred h

theorem dispositionFix_deferred {m : FIXMessage} (h : dispositionFix hash om m = .deferred slot) :
    (om.orderPool slot).canModify = 0 := by
  unfold dispositionFix at h
  split at h
  · cases h
  · split at h
    · exact existingFix_deferred h
    · split at h
      · cases h
      · split at h
        · cases h
        · exact existingFix_deferred h

theorem dispositionBistOuch_deferred {msg : Bist.OuchMessage}
    (h : dispositionBistOuch hash om msg = .deferred slot) :
    (om.orderPool slot).canModify = 0 := by
  cases msg with
  | accepted m => exact absurd h awaited_ne
  | replaced m => exact knownOrAwaited_deferred h
  | cancelled m => exact knownOrAwaited_deferred h
  | executed m => exact knownOrAwaited_deferred h
  | rejected m => exact knownOrAwaited_deferred h

theorem dispositionNasdaqOuch_deferred {msg : Nasdaq.OuchMessage}
    (h : dispositionNasdaqOuch hash om msg = .deferred slot) :
    (om.orderPool slot).canModify = 0 := by
  cases msg with
  | accepted m => exact absurd h awaited_ne
  | replaced m =>
    simp only [dispositionNasdaqOuch] at h
    split at h
    · cases h
    · exact knownOrAwaited_deferred h
  | rejected m => exact absurd h awaited_ne
  | cancelled m => exact OrderManager.lookedUp_deferred h
  | executed m => exact OrderManager.lookedUp_deferred h
  | modified m => exact OrderManager.lookedUp_deferred h
  | brokenTrade m => exact OrderManager.lookedUp_deferred h
  | cancelPending m => exact OrderManager.lookedUp_deferred h
  | cancelReject m => exact OrderManager.lookedUp_deferred h
  | _ => cases h

/-- A message is deferred only when nobody may modify its order. -/
theorem disposition_deferred {msg : StoreMessage}
    (h : disposition hash om msg = .deferred slot) : (om.orderPool slot).canModify = 0 := by
  cases msg with
  | fix m => exact dispositionFix_deferred h
  | fixSession m => cases h
  | bistItch m => exact OrderManager.dispositionBist_deferred h
  | nasdaqItch m => exact OrderManager.dispositionNasdaq_deferred h
  | bistOuch m => exact dispositionBistOuch_deferred h
  | nasdaqOuch m => exact dispositionNasdaqOuch_deferred h

end OwnManager

/-! ### The numbers of an order -/

namespace OrderedStore

variable {hash : List UInt8 → UInt64} {s s' : OrderedStore} {l l' : Ledger Arrival}

/-- The numbers of the messages deferred for an order, with that of the message
in hand if it was. -/
def queued (l : Ledger Arrival) (deferredFor : Option OrderSlot) (slot : OrderSlot) : List ℕ :=
  (if deferredFor = some slot then l.inHand.toList.map Arrival.number else []) ++
    (l.pendingToStrategy.filter (·.2 = slot)).map (·.1.number)

/-- The numbers of the messages that are still new. -/
def fresh (l : Ledger Arrival) (deferredFor : Option OrderSlot) : List ℕ :=
  (if deferredFor = none then l.inHand.toList.map Arrival.number else []) ++
    l.parserToStore.map Arrival.number

/-- First the numbers applied to the order, then those deferred for it, then the
new ones, then the next. -/
def numbers (s : OrderedStore) (l : Ledger Arrival) (slot : OrderSlot) : List ℕ :=
  s.appliedTo slot ++ queued l s.deferredFor slot ++ fresh l s.deferredFor ++ [s.arrived]

structure Ordered (s : OrderedStore) (l : Ledger Arrival) : Prop where
  represents : s.pipe.Represents l
  increasing : ∀ slot, (s.numbers l slot).Pairwise (· < ·)
  /-- a message that was taken up again will not be deferred once more -/
  mask : ∀ slot, l.inHand.isSome = true → s.deferredFor = some slot →
    (s.om.orderPool slot).canModify ≠ 0
  agrees : ∀ h ∈ s.log, h.disposition.Agrees h.outs

theorem ordered_start (om : OwnManager) : Ordered { om := om } {} := by
  refine ⟨Pipeline.represents_start, ?_, ?_, ?_⟩
  · intro slot
    exact List.pairwise_singleton _ _
  · intro slot h
    cases h
  · intro h hh
    cases hh

/-- A step that leaves log, numbers and masks alone. -/
theorem Ordered.of_numbers (h : s.Ordered l) {p : Pipeline Arrival} (hp : p.Represents l')
    (hqueue : l'.parserToStore = l.parserToStore) (hhand : l'.inHand = l.inHand)
    (hpending : l'.pendingToStrategy = l.pendingToStrategy) :
    { s with pipe := p }.Ordered l' := by
  refine ⟨hp, fun slot => ?_, fun slot hsome => ?_, h.agrees⟩
  · have hnum := h.increasing slot
    unfold numbers queued fresh at hnum ⊢
    rw [hqueue, hhand, hpending]
    exact hnum
  · rw [hhand] at hsome
    exact h.mask slot hsome

theorem ordered_arrive (h : s.Ordered l) (msg : StoreMessage)
    (hready : s.Ready hash (.arrive msg)) :
    { s with arrived := s.arrived + 1, pipe := s.pipe.give ⟨s.arrived, msg⟩ }.Ordered
      (l.step (.give ⟨s.arrived, msg⟩)) := by
  refine ⟨Pipeline.represents_give h.represents hready.1 hready.2 _, fun slot => ?_, h.mask,
    h.agrees⟩
  have hnum := h.increasing slot
  have heq : numbers { s with arrived := s.arrived + 1, pipe := s.pipe.give ⟨s.arrived, msg⟩ }
      (l.step (.give ⟨s.arrived, msg⟩)) slot = s.numbers l slot ++ [s.arrived + 1] := by
    simp [numbers, queued, fresh, Ledger.step, appliedTo]
  rw [heq, List.pairwise_append]
  refine ⟨hnum, List.pairwise_singleton _ _, ?_⟩
  intro n hn m hm
  rw [List.mem_singleton.mp hm]
  unfold numbers at hn hnum
  rcases List.mem_append.mp hn with hn | hn
  · have hlt := (List.pairwise_append.mp hnum).2.2 n hn s.arrived (List.mem_singleton_self _)
    omega
  · rw [List.mem_singleton.mp hn]
    omega

/-- The order of the front packet is that of the front of the ledger. -/
theorem frontOrder_eq (h : s.pipe.Represents l) :
    s.frontOrder = l.pendingToStrategy.head?.map Prod.snd := by
  have hpending := congrArg List.head? h.pending
  rw [List.head?_map, List.head?_map] at hpending
  unfold frontOrder
  cases hq : s.pipe.pendingToStrategy.items.head? with
  | none =>
    rw [hq] at hpending
    cases hl : l.pendingToStrategy.head? with
    | none => rfl
    | some x => simp [hl] at hpending
  | some q =>
    rw [hq] at hpending
    cases hl : l.pendingToStrategy.head? with
    | none => simp [hl] at hpending
    | some x =>
      rw [hl, Option.map_some, Option.map_some, Option.some.injEq] at hpending
      obtain ⟨y, hy, hx⟩ := Option.bind_eq_some_iff.mp hpending
      obtain ⟨o, -, rfl⟩ := Option.map_eq_some_iff.mp hx
      simp [hy]

theorem ordered_take (h : s.Ordered l) (hready : s.Ready hash .take) (hs : s.take = .ok s') :
    ∃ l', s'.Ordered l' := by
  obtain ⟨f, hf, rfl⟩ := map_eq_ok_iff.mp hs
  have hsome := StoreFront.isSome_inHand h.represents
  obtain ⟨hhand, rfl⟩ | ⟨hhand, htakes, hom, hrep⟩ | ⟨hhand, htakes, hom, hrep⟩ :=
    StoreFront.represents_take h.represents hready hf
  · -- the store is busy
    refine ⟨l, ?_⟩
    rw [hhand] at hsome
    simp only [hsome, if_true]
    exact h
  · -- the oldest deferred message stays first among those of its order
    obtain ⟨a, order, rest, hl, hmask⟩ := StoreFront.takesPending_front h.represents htakes
    have hfront : s.frontOrder = some order := by
      rw [frontOrder_eq h.represents, hl]
      rfl
    rw [hhand] at hsome
    have hstep : l.step .takePending =
        { l with pendingToStrategy := rest, inHand := some a } := by
      simp only [Ledger.step, hl]
    rw [hstep] at hrep
    refine ⟨{ l with pendingToStrategy := rest, inHand := some a }, ?_⟩
    simp only [hsome, htakes, hfront, if_true, Option.isSome_none, Bool.false_eq_true, if_false]
    refine ⟨hrep, fun slot => ?_, fun slot _ hslot => ?_, h.agrees⟩
    · have hnum := h.increasing slot
      simp only [numbers, queued, fresh, hl, hhand, appliedTo] at hnum ⊢
      by_cases ho : order = slot
      · simpa [ho] using hnum
      · simpa [ho] using hnum
    · rw [Option.some.injEq] at hslot
      show (f.om.orderPool slot).canModify ≠ 0
      rw [hom, ← hslot, hmask]
      decide
  · -- the next message of the parser
    rw [hhand] at hsome
    refine ⟨l.step .takeNew, ?_⟩
    simp only [hsome, htakes, Option.isSome_none, Bool.false_eq_true, if_false]
    refine ⟨hrep, fun slot => ?_, fun slot _ hslot => (by cases hslot), h.agrees⟩
    have hnum := h.increasing slot
    cases hq : l.parserToStore with
    | nil =>
      simp only [numbers, queued, fresh, Ledger.step, hq, hhand, appliedTo] at hnum ⊢
      simpa using hnum
    | cons a rest =>
      simp only [numbers, queued, fresh, Ledger.step, hq, hhand, appliedTo] at hnum ⊢
      simpa using hnum

theorem pendingOrders_eq (h : s.pipe.Represents l) :
    s.pendingOrders = l.pendingToStrategy.map Prod.snd := by
  unfold pendingOrders
  refine filterMap_of_map_some ?_
  have hmap := congrArg (List.map (Option.map Prod.snd)) h.pending
  rw [List.map_map, List.map_map] at hmap
  rw [List.map_map]
  exact hmap

/-- The pushes of a handler add no more than the message to the numbers: it is
applied, or deferred, or gone. -/
theorem numbers_handled {a : Arrival} {d : Disposition} {outs : List StoreOut}
    (hagree : d.Agrees outs) (f : StoreFront Arrival) (slot : OrderSlot) :
    numbers { s with toStoreFront := f, log := s.log ++ [⟨a.number, d, outs⟩] }
      (outs.foldl (Ledger.emit a) { l with inHand := none }) slot =
    s.appliedTo slot ++ (if d = .applied slot then [a.number] else []) ++
      ((l.pendingToStrategy.filter (·.2 = slot)).map (·.1.number) ++
        if d = .deferred slot then [a.number] else []) ++
      l.parserToStore.map Arrival.number ++ [s.arrived] := by
  obtain ⟨hqueue, hhand, hpending⟩ := Ledger.foldl_emit a outs { l with inHand := none }
  have happlied : appliedTo { s with
        toStoreFront := f, log := s.log ++ [⟨a.number, d, outs⟩] } slot =
      s.appliedTo slot ++ if d = .applied slot then [a.number] else [] := by
    unfold appliedTo
    rw [List.filterMap_append]
    by_cases hd : d = .applied slot
    · simp [hd]
    · simp [hd]
  have hdeferred : ((d.deferredTo.toList.map (a, ·)).filter (·.2 = slot)).map (·.1.number) =
      if d = .deferred slot then [a.number] else [] := by
    cases d with
    | deferred order =>
      by_cases ho : order = slot
      · simp [Disposition.deferredTo, ho]
      · simp [Disposition.deferredTo, ho]
    | _ => simp [Disposition.deferredTo]
  rw [hagree.deferredTo] at hpending
  unfold numbers queued fresh
  rw [happlied, hqueue, hhand, hpending, List.filter_append, List.map_append, hdeferred]
  simp

theorem ordered_handle (h : s.Ordered l) (hready : s.Ready hash .handle)
    (horder : s.InOrder hash .handle) (hs : s.handle hash = .ok s') : ∃ l', s'.Ordered l' := by
  obtain ⟨f, hf, rfl⟩ := map_eq_ok_iff.mp hs
  have hhand := StoreFront.inHand_eq h.represents
  obtain ⟨hnone, rfl⟩ | ⟨a, om, ha, hom, -, hrep⟩ :=
    StoreFront.represents_handled h.represents hready hf
  · -- nothing is in hand
    have hrecord : s.record hash = [] := by
      rw [record, hhand, hnone]
    rw [hrecord, List.append_nil]
    exact ⟨l, h⟩
  · -- the report in hand is applied, deferred or dropped
    have hagree := OwnManager.update_agrees s.om.silent_drained hom
    rw [ha] at hhand
    have hcond := horder a hhand
    generalize hd : OwnManager.disposition hash s.om.drained a.msg = d at hagree hcond
    have hrecord : s.record hash = [⟨a.number, d, om.outputs⟩] := by
      rw [record, hhand]
      simp only [hom, hd]
    have hstep : l.step (.handle om.outputs) =
        om.outputs.foldl (Ledger.emit a) { l with inHand := none } := by
      simp only [Ledger.step, ha]
    rw [hstep] at hrep
    rw [hrecord]
    refine ⟨_, hrep, fun slot => ?_, fun slot hsome => ?_, ?_⟩
    · rw [numbers_handled hagree]
      refine List.Pairwise.sublist ?_ (h.increasing slot)
      have hslot := hcond slot
      unfold numbers queued fresh
      rw [ha]
      cases hfor : s.deferredFor with
      | none =>
        rw [hfor] at hslot
        by_cases happlied : d = .applied slot
        · -- nothing is deferred for the order
          have hempty : l.pendingToStrategy.filter (·.2 = slot) = [] := by
            rw [List.filter_eq_nil_iff]
            intro x hx hslot'
            refine hslot happlied ?_
            rw [pendingOrders_eq h.represents]
            exact List.mem_map.mpr ⟨x, hx, by simpa using hslot'⟩
          simp [happlied, hempty]
        · by_cases hdeferred : d = .deferred slot
          · simp [hdeferred]
          · simp [happlied, hdeferred]
      | some order =>
        -- a report that waits for `order` is behind the one in hand
        rw [hfor] at hslot
        have hdeferred : d ≠ .deferred slot := by
          intro hdef
          have ho := hslot (.inr hdef)
          rw [hdef] at hd
          exact h.mask slot (by rw [ha]; rfl) (by rw [hfor, ho]) (OwnManager.disposition_deferred hd)
        by_cases happlied : d = .applied slot
        · have ho := hslot (.inl happlied)
          simp [happlied, ho]
        · by_cases ho : order = slot
          · simp [happlied, hdeferred, ho]
          · simp [happlied, hdeferred, ho]
    · rw [(Ledger.foldl_emit a om.outputs { l with inHand := none }).2.1] at hsome
      cases hsome
    · intro r hr
      rcases List.mem_append.mp hr with hr | hr
      · exact h.agrees r hr
      · rw [List.mem_singleton.mp hr]
        exact hagree

theorem or_ne_zero {x y : UInt8} (h : x ≠ 0) : x ||| y ≠ 0 := by
  intro hor
  exact h (by simpa using (UInt8.or_eq_zero_iff.mp hor).1)

/-- **One step keeps the numbers of every order increasing.** -/
theorem ordered_step (h : s.Ordered l) {e : OrderedEvent} (hready : s.Ready hash e)
    (horder : s.InOrder hash e) (hs : s.step hash e = .ok s') : ∃ l', s'.Ordered l' := by
  cases e with
  | arrive msg =>
    rw [step, Except.ok.injEq] at hs
    exact ⟨_, hs ▸ ordered_arrive h msg hready⟩
  | take => exact ordered_take h hready hs
  | handle => exact ordered_handle h hready horder hs
  | setDone order bits =>
    -- the mask only gains bits
    rw [step, Except.ok.injEq] at hs
    subst hs
    refine ⟨l, h.represents, h.increasing, fun slot hsome hfor => ?_, h.agrees⟩
    have hmask := h.mask slot hsome hfor
    show (Function.update s.om.orderPool order _ slot).canModify ≠ 0
    by_cases ho : slot = order
    · subst ho
      rw [Function.update_self]
      exact or_ne_zero hmask
    · rw [Function.update_of_ne ho]
      exact hmask
  | others om =>
    rw [step, Except.ok.injEq] at hs
    subst hs
    exact ⟨l, h.represents, h.increasing, h.mask, h.agrees⟩
  -- the moves of the pipeline touch no number
  | write =>
    rw [step, Except.ok.injEq] at hs
    subst hs
    have hwrite : s.pipe.Ready Arrival.kind .write := hready
    refine ⟨_, h.of_numbers (Pipeline.represents_write h.represents hwrite) ?_ ?_ ?_⟩
    all_goals
      simp only [Ledger.step]
      split <;> rfl
  | flush =>
    obtain ⟨p, hp, rfl⟩ := map_eq_ok_iff.mp hs
    obtain ⟨p', hp', hrep⟩ := Pipeline.represents_flush h.represents
    rw [hp, Except.ok.injEq] at hp'
    subst hp'
    refine ⟨_, h.of_numbers hrep ?_ ?_ ?_⟩
    all_goals
      simp only [Ledger.step]
      split <;> rfl

end OrderedStore

open OrderedStore

/-- **The messages of an order are applied in the order of their arrival.**  In
every run in which no new message is applied to an order with deferred messages
and no deferred message leads to another order than before, the numbers of the
messages applied to each order increase; and what the record calls applied,
deferred or dropped is what the handler has pushed. -/
theorem applied_in_arrival_order (hash : List UInt8 → UInt64) (om : OwnManager)
    (es : List OrderedEvent) (t : OrderedStore)
    (hrun : exec (OrderedStore.step hash) { om := om } es = .ok t)
    (hready : Along (OrderedStore.step hash) (Ready hash) { om := om } es)
    (horder : Along (OrderedStore.step hash) (OrderedStore.InOrder hash) { om := om } es) :
    (∀ slot, (t.appliedTo slot).Pairwise (· < ·)) ∧
    ∀ h ∈ t.log, h.disposition.Agrees h.outs := by
  have hstep : ∀ s e s', (∃ l, Ordered s l) → Ready hash s e ∧ OrderedStore.InOrder hash s e →
      OrderedStore.step hash s e = .ok s' → ∃ l, Ordered s' l := by
    rintro s e s' ⟨l, hl⟩ ⟨hr, ho⟩ hs
    exact ordered_step hl hr ho hs
  obtain ⟨l, hl⟩ := exec_inv_along hstep ⟨{}, ordered_start om⟩ (along_and hready horder) hrun
  refine ⟨fun slot => ?_, hl.agrees⟩
  have hnum := hl.increasing slot
  unfold numbers at hnum
  rw [List.append_assoc, List.append_assoc] at hnum
  exact (List.pairwise_append.mp hnum).1

/-! ### One deferred message, and one that is overtaken -/

/-- An own order that the exchange has acknowledged. -/
def liveOrder (mask : UInt8) : OwnManager :=
  { orderPool := Function.update (fun _ => {}) 32768
      { status := .new, quantity := 100, remainingQuantity := 100, isOurOrder := true
        canModify := mask }
    ourOrdersWtokenkey := Finmap.singleton 0 32768 }

def execution (quantity : UInt64) : StoreMessage :=
  .bistOuch (.executed { tradedQuantity := quantity, tradePrice := 10, orderToken := [] })

/-- An execution is deferred and applied when all three bits are set. -/
def deferredOnce : List OrderedEvent :=
  [.arrive (execution 5), .take, .handle, .setDone 32768 allDone, .take, .handle]

theorem deferredOnce_runs :
    ∃ t, exec (OrderedStore.step fun _ => 0) { om := liveOrder 0 } deferredOnce = .ok t ∧
      t.appliedTo 32768 = [0] := ⟨_, rfl, rfl⟩

theorem deferredOnce_ready :
    Along (OrderedStore.step fun _ => 0) (Ready fun _ => 0) { om := liveOrder 0 } deferredOnce := by
  refine along_cons _ ⟨⟨?_, ?_, ?_⟩, ?_⟩ rfl ?_
  · exact List.not_mem_nil
  · intro h
    cases h
  · intro q hq
    cases hq
  · exact Nat.zero_lt_succ _
  refine along_cons _ ?_ rfl ?_
  · intro htakes
    cases htakes
  refine along_cons _ ?_ rfl ?_
  · intro a om ha hom w a' hw ha'
    cases ha
    cases hom
    cases hw
    cases ha'
    refine ⟨?_, ⟨⟨?_, ?_, ?_⟩, ?_, ?_⟩, trivial⟩
    · intro d hd
      cases hd
    · exact List.not_mem_nil
    · intro h
      cases h
    · intro q hq
      cases hq
    · exact List.not_mem_nil
    · exact Nat.zero_lt_succ _
  refine along_cons _ trivial rfl ?_
  refine along_cons _ ?_ rfl ?_
  · intro htakes hmem
    have hne : (1 : Fin 65536) ≠ 0 := by decide
    exact hne (List.mem_singleton.mp hmem)
  refine along_cons _ ?_ rfl trivial
  intro a om ha hom w a' hw ha'
  cases ha
  cases hom
  cases hw
  cases ha'
  refine ⟨?_, ⟨⟨?_, ?_⟩, ?_⟩, ⟨⟨?_, ?_⟩, ?_⟩, trivial⟩
  · intro d hd
    cases hd
  · exact List.not_mem_nil
  · exact List.not_mem_nil
  · exact Nat.zero_lt_succ _
  · intro hmem
    have hne : (1 : Fin 2048) ≠ 0 := by decide
    exact hne (List.mem_singleton.mp hmem)
  · exact List.not_mem_nil
  · exact Nat.succ_lt_succ (Nat.zero_lt_succ _)

theorem deferredOnce_inOrder :
    Along (OrderedStore.step fun _ => 0) (OrderedStore.InOrder fun _ => 0) { om := liveOrder 0 }
      deferredOnce := by
  refine along_cons _ trivial rfl ?_
  refine along_cons _ trivial rfl ?_
  refine along_cons _ ?_ rfl ?_
  · intro a ha slot happlied
    cases ha
    cases happlied
  refine along_cons _ trivial rfl ?_
  refine along_cons _ trivial rfl ?_
  refine along_cons _ ?_ rfl trivial
  intro a ha slot hd
  cases ha
  rcases hd with hd | hd
  · cases hd
    rfl
  · cases hd

theorem applied_in_arrival_order_deferredOnce :
    ∃ t, exec (OrderedStore.step fun _ => 0) { om := liveOrder 0 } deferredOnce = .ok t ∧
      t.appliedTo 32768 = [0] ∧ ∀ slot, (t.appliedTo slot).Pairwise (· < ·) := by
  obtain ⟨t, ht, happlied⟩ := deferredOnce_runs
  exact ⟨t, ht, happlied,
    (applied_in_arrival_order _ _ _ t ht deferredOnce_ready deferredOnce_inOrder).1⟩

/-- The order is rejected, so that its first execution is deferred; risk sets its
bit, and the second execution is applied at once; with the other two bits the
first one follows. -/
def overtaking : List OrderedEvent :=
  [.arrive (.bistOuch (.rejected { orderToken := [] })), .take, .handle,
    .arrive (execution 5), .take, .handle, .setDone 32768 riskDone,
    .arrive (execution 7), .take, .handle, .setDone 32768 (strategyDone ||| builderDone),
    .take, .handle]

/-- **A new message passes a deferred one.**  The third message of the order is
applied before the second. -/
theorem applied_out_of_order :
    ∃ t, exec (OrderedStore.step fun _ => 0) { om := liveOrder allDone } overtaking = .ok t ∧
      t.appliedTo 32768 = [0, 2, 1] ∧ ¬(t.appliedTo 32768).Pairwise (· < ·) := by
  refine ⟨_, rfl, rfl, fun hsorted => ?_⟩
  have hlt : ([0, 2, 1] : List ℕ).Pairwise (· < ·) := hsorted
  revert hlt
  decide

end TradingEngine
