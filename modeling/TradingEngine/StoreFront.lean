/-
`OrderManager::store` (`order_management/OrderManager.cpp`), split at its two
reads of `canModify`, so that the other threads can move in between.

`take` chooses the message, the oldest deferred one if its order may be modified
by everyone, else the oldest new one; `handle` gives it to `update_order`, whose
pushes (`OwnManager.outputs`) are replayed on the rings and queues of the
pipeline.  The messages are values of an arbitrary type `ω` that `update_order`
reads through `read`.

* `take_cases`, `handle_cases` — what the two steps do;
* `represents_take`, `represents_handled` — what they do to the ledger.
-/
import TradingEngine.StoreDisposition

namespace TradingEngine

open FallibleRun

/-- The order manager with the two queues emptied that `store` pushes its
message to: their contents are in the pipeline. -/
def OwnManager.drained (om : OwnManager) : OwnManager :=
  { om with storeToDb := .empty, pendingToStrategy := .empty }

theorem OwnManager.silent_drained (om : OwnManager) : om.drained.Silent := ⟨rfl, rfl⟩

/-- All three bits of `canModify`. -/
def allDone : UInt8 := strategyDone ||| riskDone ||| builderDone

theorem filterMap_of_map_some {α β : Type*} {f : α → Option β} {xs : List α} {ys : List β}
    (h : xs.map f = ys.map some) : xs.filterMap f = ys := by
  have hid : xs.filterMap f = (xs.map f).filterMap id := by
    rw [List.filterMap_map]
    rfl
  rw [hid, h, List.filterMap_map]
  simp

structure StoreFront (ω : Type) where
  om : OwnManager := {}
  pipe : Pipeline ω := {}

namespace StoreFront

variable {ω : Type}

/-- `store` will take the oldest deferred message: its order may be modified by
everyone. -/
def takesPending (f : StoreFront ω) : Bool :=
  match f.pipe.pendingToStrategy.items with
  | [] => false
  | front :: _ =>
    match f.pipe.packets.slots front with
    | none => false
    | some (_, slot) => (f.om.orderPool slot).canModify = allDone

/-- The packet at the front of the pending queue holds nothing. -/
def frontEmpty (f : StoreFront ω) : Bool :=
  match f.pipe.pendingToStrategy.items with
  | [] => false
  | front :: _ => (f.pipe.packets.slots front).isNone

/-- The head of `store`: the oldest deferred message or the oldest new one.  A
message that is in hand is handled first. -/
def take (f : StoreFront ω) : Except Fault (StoreFront ω) :=
  if f.pipe.inHand.isSome then .ok f
  else if f.frontEmpty then .error .nullDereference
  else if f.takesPending then f.pipe.takePending.map fun p => { f with pipe := p }
  else .ok { f with pipe := f.pipe.takeNew }

/-- The message `store` has in hand. -/
def inHand (f : StoreFront ω) : Option ω := f.pipe.inHand.bind f.pipe.msgWrappers.slots

/-- The rest of `store`. -/
def handle (hash : List UInt8 → UInt64) (kindOf : ω → MessageKind) (read : ω → StoreMessage)
    (f : StoreFront ω) : Except Fault (StoreFront ω) :=
  match f.pipe.inHand with
  | none => .ok f
  | some w =>
    match f.pipe.msgWrappers.slots w with
    | none => .error .nullDereference
    | some obj =>
      match OwnManager.update hash f.om.drained (read obj) with
      | .error e => .error e
      | .ok om =>
        (f.pipe.handle kindOf om.outputs).map fun p => { f with om := om.drained, pipe := p }

/-- `take` empties no packet that is still pointed to. -/
def TakeReady (kindOf : ω → MessageKind) (f : StoreFront ω) : Prop :=
  f.takesPending = true → f.pipe.Ready kindOf .takePending

/-- The pushes of the handler take no ring slot that is still pointed to, and
meet no full queue. -/
def HandleReady (hash : List UInt8 → UInt64) (kindOf : ω → MessageKind)
    (read : ω → StoreMessage) (f : StoreFront ω) : Prop :=
  ∀ obj om, f.inHand = some obj → OwnManager.update hash f.om.drained (read obj) = .ok om →
    f.pipe.Ready kindOf (.handle om.outputs)

variable {hash : List UInt8 → UInt64} {kindOf : ω → MessageKind} {read : ω → StoreMessage}
  {f f' : StoreFront ω} {l : Ledger ω}

/-- Following the pointers finds what the ledger says. -/
theorem inHand_eq (h : f.pipe.Represents l) : f.inHand = l.inHand := by
  have hhand := h.hand
  unfold inHand
  cases hw : f.pipe.inHand with
  | none =>
    rw [hw, Option.map_none, eq_comm, Option.map_eq_none_iff] at hhand
    rw [hhand]
    rfl
  | some w =>
    rw [hw, Option.map_some] at hhand
    cases hl : l.inHand with
    | none => simp [hl] at hhand
    | some obj =>
      rw [hl, Option.map_some, Option.some.injEq] at hhand
      exact hhand

theorem isSome_inHand (h : f.pipe.Represents l) : f.pipe.inHand.isSome = l.inHand.isSome := by
  have hhand := congrArg Option.isSome h.hand
  rwa [Option.isSome_map, Option.isSome_map] at hhand

/-- When `store` takes the oldest deferred message, all three bits of its order
are set. -/
theorem takesPending_front (h : f.pipe.Represents l) (htakes : f.takesPending = true) :
    ∃ obj slot rest, l.pendingToStrategy = (obj, slot) :: rest ∧
      (f.om.orderPool slot).canModify = allDone := by
  have hpending := h.pending
  unfold takesPending at htakes
  split at htakes
  · cases htakes
  · rename_i front items hitems
    rw [hitems, List.map_cons] at hpending
    split at htakes
    · cases htakes
    · rename_i w slot hslot
      cases hl : l.pendingToStrategy with
      | nil => simp [hl] at hpending
      | cons x rest =>
        rw [hl, List.map_cons, List.cons.injEq] at hpending
        obtain ⟨obj, slot'⟩ := x
        obtain ⟨o, -, ho⟩ : ∃ o, f.pipe.msgWrappers.slots w = some o ∧ (o, slot) = (obj, slot') := by
          simpa [Pipeline.packet, hslot] using hpending.1
        obtain ⟨rfl, rfl⟩ := Prod.mk.inj ho
        exact ⟨o, slot, rest, rfl, of_decide_eq_true htakes⟩

/-- What `take` does. -/
theorem take_cases (hs : f.take = .ok f') :
    (f.pipe.inHand.isSome = true ∧ f' = f) ∨
    (f.pipe.inHand.isSome = false ∧ f.takesPending = true ∧
      ∃ p, f.pipe.takePending = .ok p ∧ f' = { f with pipe := p }) ∨
    (f.pipe.inHand.isSome = false ∧ f.takesPending = false ∧
      f' = { f with pipe := f.pipe.takeNew }) := by
  unfold take at hs
  split at hs
  · rename_i hhand
    rw [Except.ok.injEq] at hs
    exact .inl ⟨hhand, hs.symm⟩
  · rename_i hhand
    rw [Bool.not_eq_true] at hhand
    split at hs
    · cases hs
    · split at hs
      · rename_i htakes
        obtain ⟨p, hp, rfl⟩ := map_eq_ok_iff.mp hs
        exact .inr (.inl ⟨hhand, htakes, p, hp, rfl⟩)
      · rename_i htakes
        rw [Except.ok.injEq] at hs
        exact .inr (.inr ⟨hhand, by simpa using htakes, hs.symm⟩)

/-- What `handle` does. -/
theorem handle_cases (hs : f.handle hash kindOf read = .ok f') :
    (f.inHand = none ∧ f' = f) ∨
    ∃ obj om p, f.inHand = some obj ∧
      OwnManager.update hash f.om.drained (read obj) = .ok om ∧
      f.pipe.handle kindOf om.outputs = .ok p ∧ f' = { f with om := om.drained, pipe := p } := by
  unfold handle at hs
  cases hw : f.pipe.inHand with
  | none =>
    simp only [hw, Except.ok.injEq] at hs
    exact .inl ⟨by rw [inHand, hw]; rfl, hs.symm⟩
  | some w =>
    simp only [hw] at hs
    cases hobj : f.pipe.msgWrappers.slots w with
    | none => simp [hobj] at hs
    | some obj =>
      simp only [hobj] at hs
      split at hs
      · cases hs
      · rename_i om hom
        obtain ⟨p, hp, rfl⟩ := map_eq_ok_iff.mp hs
        exact .inr ⟨obj, om, p, by rw [inHand, hw]; exact hobj, hom, hp, rfl⟩

/-- `take` on the ledger. -/
theorem represents_take (h : f.pipe.Represents l) (hready : f.TakeReady kindOf)
    (hs : f.take = .ok f') :
    (l.inHand.isSome = true ∧ f' = f) ∨
    (l.inHand = none ∧ f.takesPending = true ∧ f'.om = f.om ∧
      f'.pipe.Represents (l.step .takePending)) ∨
    (l.inHand = none ∧ f.takesPending = false ∧ f'.om = f.om ∧
      f'.pipe.Represents (l.step .takeNew)) := by
  have hnone : f.pipe.inHand.isSome = false → l.inHand = none := by
    intro hhand
    rw [isSome_inHand h] at hhand
    simpa using hhand
  obtain ⟨hhand, rfl⟩ | ⟨hhand, htakes, p, hp, rfl⟩ | ⟨hhand, htakes, rfl⟩ := take_cases hs
  · exact .inl ⟨(isSome_inHand h).symm.trans hhand, rfl⟩
  · obtain ⟨p', hp', hrep⟩ := Pipeline.represents_takePending h (hready htakes)
    rw [hp, Except.ok.injEq] at hp'
    subst hp'
    exact .inr (.inl ⟨hnone hhand, htakes, rfl, hrep⟩)
  · exact .inr (.inr ⟨hnone hhand, htakes, rfl, Pipeline.represents_takeNew h⟩)

/-- `handle` on the ledger. -/
theorem represents_handled (h : f.pipe.Represents l) (hready : f.HandleReady hash kindOf read)
    (hs : f.handle hash kindOf read = .ok f') :
    (l.inHand = none ∧ f' = f) ∨
    ∃ obj om, l.inHand = some obj ∧
      OwnManager.update hash f.om.drained (read obj) = .ok om ∧
      f'.om = om.drained ∧ f'.pipe.Represents (l.step (.handle om.outputs)) := by
  obtain ⟨hhand, rfl⟩ | ⟨obj, om, p, hobj, hom, hp, rfl⟩ := handle_cases hs
  · exact .inl ⟨(inHand_eq h).symm.trans hhand, rfl⟩
  · obtain ⟨p', hp', hrep⟩ := Pipeline.represents_handle h (hready obj om hobj hom)
    rw [hp, Except.ok.injEq] at hp'
    subst hp'
    exact .inr ⟨obj, om, (inHand_eq h).symm.trans hobj, hom, rfl, hrep⟩

end StoreFront

end TradingEngine
