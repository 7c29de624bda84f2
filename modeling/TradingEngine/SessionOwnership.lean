/-
Who may release a FIX session message.

`parseFIX` pushes every session message to `parser_to_store_`, and the object
comes back to the free list through `flush_DbQueue`.  A message that the builder
has to answer is pushed to `parser_to_fixbuilder_rx_` as well, and one that is
ahead of the sequence waits in `pending_to_store_map_` at the same time; the
builder and the logon path with a reset release on their own account.

`Owned` is what single ownership asks of a state.  It holds throughout every run
in which the owners do not get in each other's way (`session_messages_owned`): no
logon with a reset arrives ahead of the sequence, the builder answers no message
that is still on the store path, and none comes back from the database that still
waits in the map or in `rx_`.  Nothing in the code sees to that:
`testRequest_released_twice` is the run of one test request.

* `Parts` — free list, `tx_` and store path hold different objects, and what
  waits is in neither of the first two;
* `parts_parseFIXMsg`, `Parts.release` — what the parser and a release do to them.
-/
import TradingEngine.SessionPool

namespace TradingEngine

open FallibleRun

/-! ### Ownership -/

namespace SesParser

/-- The objects in `pending_to_store_map_`. -/
def pendingSlots (p : SesParser) : List SesSlot := p.pending.entries.filterMap fun e => e.2.ses?

/-- The objects that wait in the map or for the builder's answer. -/
def waiting (p : SesParser) : List SesSlot := p.pendingSlots ++ p.rx.items

end SesParser

/-- Every object is released at most once before it is taken again, and is not in
the free list while a queue or the map holds it. -/
structure Owned (s : SesSystem) : Prop where
  once : ∀ slot, s.parser.releases slot ≤ 1
  pending : ∀ slot ∈ s.parser.freeList.items, slot ∉ s.parser.pendingSlots
  builder : ∀ slot ∈ s.parser.freeList.items,
    slot ∉ s.parser.rx.items ∧ slot ∉ s.parser.tx.items
  store : ∀ slot ∈ s.parser.freeList.items, ∀ w ∈ s.pipe.parserToStore.items,
    s.pipe.msgWrappers.slots w ≠ some (.ses slot)
  db : ∀ slot ∈ s.parser.freeList.items, ∀ d ∈ s.pipe.storeToDb.items,
    s.pipe.item d ≠ some (some (.ses slot))

namespace SesSystem

/-- A logon with a reset that is ahead of the sequence. -/
def ResetAhead (s : SesSystem) (t : FIXText) : Prop :=
  t.isApplication = false ∧ t.fixSesMsg.msgType = FIXTypes.logon.code ∧
  t.fixSesMsg.resetSeqnumFlag = 0x59 ∧ s.parser.expected < t.fixSesMsg.seqnum

/-- No message is released that another component still holds, and no wrapper is
reused that is still pointed to. -/
def Calm (s : SesSystem) : SesEvent → Prop
  | .arrive t now =>
    ¬ s.ResetAhead t ∧
    ∀ q, s.parser.parseFIXMsg t now = .ok q → s.pipe.GivesFree q.out
  | .give _ => s.pipe.MsgWrapperFree
  | .takePending => s.pipe.PacketFree
  | .handle outs => s.pipe.RingFree StoreObj.kind (.handle (s.storeOuts outs))
  | .flush => ∀ slot, s.pipe.flushed? = some (.ses slot) → slot ∉ s.parser.waiting
  | .buildOut => ∀ slot rest, s.parser.rx.items = slot :: rest →
    slot ∉ rest ∧ slot ∉ s.parser.pendingSlots ∧ ¬ s.pipe.Carries (.ses slot)
  | _ => True

end SesSystem

/-! ### The parts of the pool -/

/-- Free list, `tx_` and the store path hold different objects; what waits is in
neither of the first two. -/
structure Parts (p : SesParser) (S : Multiset SesSlot) : Prop where
  nodup : ((p.freeList.items : Multiset SesSlot) + (p.tx.items : Multiset SesSlot) + S).Nodup
  waiting : ∀ x ∈ p.waiting, x ∉ p.freeList.items ∧ x ∉ p.tx.items
  once : ∀ x, p.releases x ≤ 1
  held : ∀ x, x ∉ p.freeList.items → p.releases x = 0

namespace Parts

variable {p q : SesParser} {S S' : Multiset SesSlot} {slot : SesSlot}

theorem mono (h : Parts p S) (hle : S' ≤ S) : Parts p S' where
  nodup := Multiset.nodup_of_le (by gcongr) h.nodup
  waiting := h.waiting
  once := h.once
  held := h.held

/-- What is on the store path is in none of the other parts. -/
theorem carried_apart (h : Parts p S) (hx : slot ∈ S) :
    slot ∉ p.freeList.items ∧ slot ∉ p.tx.items := by
  have hdisj := (Multiset.nodup_add.mp h.nodup).2.2
  rw [Multiset.disjoint_left] at hdisj
  constructor
  · intro hfree
    exact hdisj (Multiset.mem_add.mpr (.inl (Multiset.mem_coe.mpr hfree))) hx
  · intro htx
    exact hdisj (Multiset.mem_add.mpr (.inr (Multiset.mem_coe.mpr htx))) hx

/-- Free list and `tx_` are apart. -/
theorem tx_notMem_free (h : Parts p S) (hx : slot ∈ p.tx.items) : slot ∉ p.freeList.items := by
  have hnodup := (Multiset.nodup_add.mp h.nodup).1
  have hdisj := (Multiset.nodup_add.mp hnodup).2.2
  rw [Multiset.disjoint_left] at hdisj
  exact fun hfree => hdisj (Multiset.mem_coe.mpr hfree) (Multiset.mem_coe.mpr hx)

/-- A change that leaves free list and `tx_` alone, where only objects of the
store path begin to wait. -/
theorem of_same (h : Parts p S) (hfree : q.freeList = p.freeList) (htx : q.tx = p.tx)
    (hrel : q.releases = p.releases) (hwait : ∀ x ∈ q.waiting, x ∈ p.waiting ∨ x ∈ S) :
    Parts q S where
  nodup := by
    rw [hfree, htx]
    exact h.nodup
  waiting := by
    intro x hx
    rw [hfree, htx]
    rcases hwait x hx with hold | hnew
    · exact h.waiting x hold
    · exact h.carried_apart hnew
  once := by
    rw [hrel]
    exact h.once
  held := by
    rw [hfree, hrel]
    exact h.held

/-- An object that is nowhere else can be given back. -/
theorem release (h : Parts p (slot ::ₘ S)) (hwait : slot ∉ p.waiting) :
    Parts (p.releaseFIX slot) S := by
  have hfree : slot ∉ p.freeList.items := (h.carried_apart (Multiset.mem_cons_self _ _)).1
  have hlist : p.freeList.items.Nodup :=
    Multiset.coe_nodup.mp (Multiset.nodup_add.mp (Multiset.nodup_add.mp h.nodup).1).1
  -- the free list is a queue of as many places as there are objects
  have hroom : p.freeList.items.length < 1024 := by
    have hcard := (List.nodup_cons.mpr ⟨hfree, hlist⟩).length_le_card
    rw [List.length_cons, Fintype.card_fin] at hcard
    exact hcard
  have hitems : (p.releaseFIX slot).freeList.items = p.freeList.items ++ [slot] :=
    BoundedQueue.items_push hroom
  constructor
  · have hperm : ((p.releaseFIX slot).freeList.items : Multiset SesSlot) + p.tx.items + S
        = p.freeList.items + p.tx.items + slot ::ₘ S := by
      rw [hitems, ← Multiset.coe_add, Multiset.coe_singleton, ← Multiset.singleton_add]
      abel
    show ((p.releaseFIX slot).freeList.items + (p.tx.items : Multiset SesSlot) + S).Nodup
    rw [hperm]
    exact h.nodup
  · intro x hx
    have hold := h.waiting x hx
    rw [hitems, List.mem_append, List.mem_singleton, not_or]
    refine ⟨⟨hold.1, ?_⟩, hold.2⟩
    rintro rfl
    exact hwait hx
  · intro x
    show Function.update p.releases slot _ x ≤ 1
    by_cases hx : x = slot
    · rw [hx, Function.update_self, h.held slot hfree]
    · rw [Function.update_of_ne hx]
      exact h.once x
  · intro x hx
    rw [hitems, List.mem_append, List.mem_singleton, not_or] at hx
    show Function.update p.releases slot _ x = 0
    rw [Function.update_of_ne hx.2]
    exact h.held x hx.1

/-- An object that waits and is not on the store path may be counted there. -/
theorem adopt (h : Parts p S) (hwait : slot ∈ p.waiting) (hS : slot ∉ S) :
    Parts p (slot ::ₘ S) where
  nodup := by
    have hout := h.waiting slot hwait
    rw [Multiset.add_cons, Multiset.nodup_cons]
    refine ⟨?_, h.nodup⟩
    simp only [Multiset.mem_add, Multiset.mem_coe, not_or]
    exact ⟨hout, hS⟩
  waiting := h.waiting
  once := h.once
  held := h.held

end Parts

namespace SesParser

variable {p q : SesParser} {S : Multiset SesSlot} {slot : SesSlot}

theorem takeSes_ok (h : p.takeSes = .ok (slot, q)) :
    ∃ rest, p.freeList.items = slot :: rest ∧
      q = { p with
        freeList := p.freeList.tail
        releases := Function.update p.releases slot 0 } := by
  unfold takeSes at h
  split at h
  · cases h
  · rename_i slot' rest hitems
    cases h
    exact ⟨rest, hitems, rfl⟩

/-- An object that is taken counts as one of the store path from then on. -/
theorem parts_takeSes (h : Parts p S) (ht : p.takeSes = .ok (slot, q)) :
    Parts q (slot ::ₘ S) ∧ slot ∉ p.waiting := by
  obtain ⟨rest, hitems, rfl⟩ := takeSes_ok ht
  have hfresh : slot ∉ p.waiting := fun hx =>
    (h.waiting slot hx).1 (hitems ▸ List.mem_cons_self)
  have htail : p.freeList.tail.items = rest := by
    rw [BoundedQueue.items_tail, hitems, List.tail_cons]
  refine ⟨⟨?_, ?_, ?_, ?_⟩, hfresh⟩
  · have hperm : (p.freeList.tail.items : Multiset SesSlot) + p.tx.items + slot ::ₘ S
        = p.freeList.items + p.tx.items + S := by
      rw [htail, hitems, ← Multiset.cons_coe, ← Multiset.singleton_add, ← Multiset.singleton_add]
      abel
    show ((p.freeList.tail.items : Multiset SesSlot) + p.tx.items + slot ::ₘ S).Nodup
    rw [hperm]
    exact h.nodup
  · intro x hx
    have hold := h.waiting x hx
    refine ⟨fun hmem => hold.1 ?_, hold.2⟩
    rw [htail] at hmem
    rw [hitems]
    exact List.mem_cons_of_mem _ hmem
  · intro x
    show Function.update p.releases slot 0 x ≤ 1
    by_cases hx : x = slot
    · rw [hx, Function.update_self]
      exact Nat.zero_le 1
    · rw [Function.update_of_ne hx]
      exact h.once x
  · intro x hx
    show Function.update p.releases slot 0 x = 0
    by_cases hslot : x = slot
    · rw [hslot, Function.update_self]
    · rw [Function.update_of_ne hslot]
      refine h.held x ?_
      rw [hitems, List.mem_cons, not_or]
      exact ⟨hslot, htail ▸ hx⟩

/-- What does not touch the objects a component holds. -/
structure SameHeld (p q : SesParser) : Prop where
  pending : q.pending = p.pending
  rx : q.rx = p.rx
  out : q.out = p.out

/-- A request of the resend logic moves an object from the free list to `tx_`. -/
theorem parts_sendSes {f : FIXSessionMessage → FIXSessionMessage} (h : Parts p S)
    (hs : p.sendSes f = .ok q) : Parts q S ∧ SameHeld p q := by
  obtain ⟨⟨slot, r⟩, ht, hq⟩ := bind_eq_ok_iff.mp hs
  cases hq
  obtain ⟨hparts, hfresh⟩ := parts_takeSes h ht
  obtain ⟨rest, hitems, rfl⟩ := takeSes_ok ht
  refine ⟨?_, rfl, rfl, rfl⟩
  by_cases hroom : p.tx.items.length < 1024
  · have htx := BoundedQueue.items_push (a := slot) hroom
    refine ⟨?_, ?_, hparts.once, hparts.held⟩
    · have hperm : (p.freeList.tail.items : Multiset SesSlot) + (p.tx.push slot).items + S
          = p.freeList.tail.items + p.tx.items + slot ::ₘ S := by
        rw [htx, ← Multiset.coe_add, Multiset.coe_singleton, ← Multiset.singleton_add]
        abel
      show ((p.freeList.tail.items : Multiset SesSlot) + (p.tx.push slot).items + S).Nodup
      rw [hperm]
      exact hparts.nodup
    · intro x hx
      have hold := hparts.waiting x hx
      refine ⟨hold.1, ?_⟩
      show x ∉ (p.tx.push slot).items
      rw [htx, List.mem_append, List.mem_singleton, not_or]
      refine ⟨hold.2, ?_⟩
      rintro rfl
      exact hfresh hx
  · have hfull := BoundedQueue.items_push_full (a := slot) hroom
    exact (hparts.mono (Multiset.le_cons_self S slot)).of_same rfl hfull rfl
      fun x hx => .inl hx

/-! ### The waiting objects -/

theorem mem_pendingSlots {x : SesSlot} :
    x ∈ p.pendingSlots ↔ ∃ k, (k, PendingFix.ses x) ∈ p.pending.entries := by
  unfold pendingSlots
  rw [List.mem_filterMap]
  constructor
  · rintro ⟨⟨k, v⟩, hmem, hv⟩
    cases v with
    | app msg => cases hv
    | ses slot =>
      cases hv
      exact ⟨k, hmem⟩
  · rintro ⟨k, hmem⟩
    exact ⟨(k, .ses x), hmem, rfl⟩

theorem mem_waiting {x : SesSlot} : x ∈ p.waiting ↔ x ∈ p.pendingSlots ∨ x ∈ p.rx.items :=
  List.mem_append

theorem mem_entries_emplace {m : SortedMap UInt32 PendingFix} {k : UInt32} {v : PendingFix}
    {e : UInt32 × PendingFix} (h : e ∈ (m.emplace k v).entries) : e = (k, v) ∨ e ∈ m.entries := by
  unfold SortedMap.emplace at h
  split at h
  · rcases List.mem_append.mp h with hlow | hrest
    · exact .inr (List.mem_of_mem_filter hlow)
    · rcases List.mem_cons.mp hrest with heq | hhigh
      · exact .inl heq
      · exact .inr (List.mem_of_mem_filter hhigh)
  · exact .inr h

theorem waiting_pushPending {k : UInt32} {v : PendingFix} {x : SesSlot}
    (hx : x ∈ (p.pushPending k v).waiting) : x ∈ p.waiting ∨ v = .ses x := by
  rcases mem_waiting.mp hx with hpend | hrx
  · obtain ⟨j, hmem⟩ := mem_pendingSlots.mp hpend
    rcases mem_entries_emplace hmem with heq | hold
    · exact .inr (congrArg Prod.snd heq).symm
    · exact .inl (mem_waiting.mpr (.inl (mem_pendingSlots.mpr ⟨j, hold⟩)))
  · exact .inl (mem_waiting.mpr (.inr hrx))

theorem waiting_popPending {k : UInt32} {x : SesSlot} (hx : x ∈ (p.popPending k).waiting) :
    x ∈ p.waiting := by
  rcases mem_waiting.mp hx with hpend | hrx
  · obtain ⟨j, hmem⟩ := mem_pendingSlots.mp hpend
    have hold : (j, PendingFix.ses x) ∈ p.pending.entries := List.mem_of_mem_filter hmem
    exact mem_waiting.mpr (.inl (mem_pendingSlots.mpr ⟨j, hold⟩))
  · exact mem_waiting.mpr (.inr hrx)

theorem mem_push {n : ℕ} {queue : BoundedQueue SesSlot n} {a x : SesSlot}
    (h : x ∈ (queue.push a).items) : x ∈ queue.items ∨ x = a := by
  by_cases hroom : queue.items.length < n
  · rw [BoundedQueue.items_push hroom, List.mem_append, List.mem_singleton] at h
    exact h
  · rw [BoundedQueue.items_push_full hroom] at h
    exact .inl h

/-- A step of the parser that takes nothing, releases nothing and lets nothing
else wait. -/
structure Keeps (p q : SesParser) : Prop where
  freeList : q.freeList = p.freeList
  tx : q.tx = p.tx
  releases : q.releases = p.releases
  waiting : ∀ x ∈ q.waiting, x ∈ p.waiting
  out : q.out.filterMap StoreObj.ses? = p.out.filterMap StoreObj.ses?

theorem Keeps.refl (p : SesParser) : Keeps p p := ⟨rfl, rfl, rfl, fun _ h => h, rfl⟩

theorem Keeps.trans {r : SesParser} (h₁ : Keeps p q) (h₂ : Keeps q r) : Keeps p r where
  freeList := h₂.freeList.trans h₁.freeList
  tx := h₂.tx.trans h₁.tx
  releases := h₂.releases.trans h₁.releases
  waiting := fun x hx => h₁.waiting x (h₂.waiting x hx)
  out := h₂.out.trans h₁.out

theorem Keeps.parts (h : Keeps p q) (hparts : Parts p S) : Parts q S :=
  hparts.of_same h.freeList h.tx h.releases fun x hx => .inl (h.waiting x hx)

theorem keeps_increaseExpectedSeq (p : SesParser) : Keeps p p.increaseExpectedSeq :=
  ⟨rfl, rfl, rfl, fun _ h => h, rfl⟩

theorem keeps_toStore_other (p : SesParser) (kind : MessageKind) :
    Keeps p (p.toStore (.other kind)) where
  freeList := rfl
  tx := rfl
  releases := rfl
  waiting := fun _ h => h
  out := by
    show (p.out ++ [StoreObj.other kind]).filterMap StoreObj.ses? = _
    rw [List.filterMap_append]
    exact List.append_nil _

theorem keeps_popPending (p : SesParser) (k : UInt32) : Keeps p (p.popPending k) :=
  ⟨rfl, rfl, rfl, fun _ => waiting_popPending, rfl⟩

/-- What `handle_sesMsg` and the push to `rx_` change. -/
theorem handleSes_same (p : SesParser) (slot : SesSlot) :
    (p.handleSes slot).freeList = p.freeList ∧ (p.handleSes slot).tx = p.tx ∧
    (p.handleSes slot).releases = p.releases ∧ (p.handleSes slot).out = p.out ∧
    ∀ x ∈ (p.handleSes slot).waiting, x ∈ p.waiting ∨ x = slot := by
  unfold handleSes
  by_cases hr : (handleSesMsg (p.pool slot) p.state).1 = true
  · simp only [if_pos hr]
    exact ⟨trivial, trivial, trivial, trivial, fun x hx => .inl hx⟩
  · simp only [if_neg hr]
    refine ⟨trivial, trivial, trivial, trivial, fun x hx => ?_⟩
    rcases mem_waiting.mp hx with hpend | hrx
    · exact .inl (mem_waiting.mpr (.inl hpend))
    · rcases mem_push hrx with hold | heq
      · exact .inl (mem_waiting.mpr (.inr hold))
      · exact .inr heq

/-- A message that waits already may be handled. -/
theorem keeps_handleSes (hslot : slot ∈ p.waiting) : Keeps p (p.handleSes slot) := by
  obtain ⟨hfree, htx, hrel, hout, hwait⟩ := handleSes_same p slot
  refine ⟨hfree, htx, hrel, fun x hx => ?_, by rw [hout]⟩
  rcases hwait x hx with hold | rfl
  · exact hold
  · exact hslot

theorem keeps_proceedPendingFIX {k : UInt32} {v : PendingFix}
    (hfind : p.pending.find? k = some v) : Keeps p (p.proceedPendingFIX v) := by
  cases v with
  | app msg => exact (keeps_toStore_other p .fix).trans (keeps_popPending _ _)
  | ses slot =>
    have hslot : slot ∈ p.waiting :=
      mem_waiting.mpr (.inl (mem_pendingSlots.mpr ⟨k, SortedMap.find?_eq_some_iff.mp hfind⟩))
    unfold proceedPendingFIX
    by_cases hlogon : (p.pool slot).msgType ≠ FIXTypes.logon.code
    · simp only [if_pos hlogon]
      exact (keeps_handleSes hslot).trans (keeps_popPending _ _)
    · simp only [if_neg hlogon]
      exact keeps_popPending _ _

/-- The draining loop moves objects from the map to `rx_` only. -/
theorem keeps_drainPending {fuel : ℕ} (h : drainPending fuel p = .ok q) : Keeps p q := by
  induction fuel generalizing p with
  | zero => cases h
  | succ fuel ih =>
    unfold drainPending at h
    split at h
    · cases h
      exact Keeps.refl _
    · rename_i v hfind
      exact ((keeps_proceedPendingFIX hfind).trans (keeps_increaseExpectedSeq _)).trans (ih h)

/-! ### What the parser does -/

theorem parts_resendLogic {seqnum : UInt32} {now : ℕ} (h : Parts p S)
    (hs : p.resendLogic seqnum now = .ok q) : Parts q S ∧ q.out = p.out := by
  unfold resendLogic at hs
  split at hs
  · obtain ⟨r, hr, hq⟩ := bind_eq_ok_iff.mp hs
    cases hq
    obtain ⟨hparts, hsame⟩ := parts_sendSes h hr
    exact ⟨hparts.of_same rfl rfl rfl fun x hx => .inl hx, hsame.out⟩
  · obtain ⟨r₁, hr₁, hrest⟩ := bind_eq_ok_iff.mp hs
    obtain ⟨r₂, hr₂, hq⟩ := bind_eq_ok_iff.mp hrest
    cases hq
    obtain ⟨hparts₁, hsame₁⟩ := parts_sendSes h hr₁
    obtain ⟨hparts₂, hsame₂⟩ := parts_sendSes hparts₁ hr₂
    exact ⟨hparts₂.of_same rfl rfl rfl fun x hx => .inl hx, hsame₂.out.trans hsame₁.out⟩

/-- An object of the store path may also wait in the map. -/
theorem parts_pushPending (h : Parts p S) (hslot : slot ∈ S) (k : UInt32) :
    Parts (p.pushPending k (.ses slot)) S := by
  refine h.of_same rfl rfl rfl fun x hx => ?_
  rcases waiting_pushPending hx with hold | heq
  · exact .inl hold
  · cases heq
    exact .inr hslot

theorem parts_onSesMsg {now : ℕ} (h : Parts p S) (hslot : slot ∈ S)
    (hcalm : ¬ ((p.pool slot).msgType = FIXTypes.logon.code ∧
      (p.pool slot).resetSeqnumFlag = 0x59 ∧ p.expected < (p.pool slot).seqnum))
    (hs : p.onSesMsg slot now = .ok q) :
    Parts q S ∧ q.out.filterMap StoreObj.ses? = p.out.filterMap StoreObj.ses? := by
  unfold onSesMsg at hs
  split at hs
  · -- in sequence: handled or left to the builder
    obtain ⟨hfree, htx, hrel, hout, hwait⟩ := handleSes_same p slot
    have hhandled : Parts (p.handleSes slot) S := by
      refine h.of_same hfree htx hrel fun x hx => ?_
      rcases hwait x hx with hold | rfl
      · exact .inl hold
      · exact .inr hslot
    have hkeeps := (keeps_increaseExpectedSeq (p.handleSes slot)).trans (keeps_drainPending hs)
    exact ⟨hkeeps.parts hhandled, by rw [hkeeps.out, hout]⟩
  split at hs
  · rename_i hahead
    split at hs
    · obtain ⟨r, hr, hq⟩ := bind_eq_ok_iff.mp hs
      cases hq
      obtain ⟨hparts, hout⟩ := parts_resendLogic h hr
      exact ⟨parts_pushPending hparts hslot _, congrArg _ hout⟩
    · rename_i hlogon
      unfold resendLogicLogon at hs
      split at hs
      · rename_i hreset
        exact absurd ⟨not_not.mp hlogon, hreset, hahead⟩ hcalm
      · obtain ⟨r, hr, hq⟩ := bind_eq_ok_iff.mp hs
        cases hq
        obtain ⟨hparts, hsame⟩ := parts_sendSes h hr
        exact ⟨parts_pushPending hparts hslot _, congrArg _ hsame.out⟩
  · cases hs
    exact ⟨h, rfl⟩

theorem parts_onAppMsg {msg : FIXMessage} (h : Parts p S) (hs : p.onAppMsg msg = .ok q) :
    Parts q S ∧ q.out.filterMap StoreObj.ses? = p.out.filterMap StoreObj.ses? := by
  unfold onAppMsg at hs
  split at hs
  · have hkeeps := ((keeps_toStore_other p .fix).trans (keeps_increaseExpectedSeq _)).trans
      (keeps_drainPending hs)
    exact ⟨hkeeps.parts h, hkeeps.out⟩
  split at hs
  · cases hs
    refine ⟨h.of_same rfl rfl rfl fun x hx => ?_, rfl⟩
    rcases waiting_pushPending hx with hold | heq
    · exact .inl hold
    · cases heq
  · cases hs
    exact ⟨h, rfl⟩

/-- The session messages that the parser hands over join the store path. -/
theorem parts_parseFIXMsg {t : FIXText} {now : ℕ} (h : Parts p S) (hout : p.out = [])
    (hcalm : ¬ (t.isApplication = false ∧ t.fixSesMsg.msgType = FIXTypes.logon.code ∧
      t.fixSesMsg.resetSeqnumFlag = 0x59 ∧ p.expected < t.fixSesMsg.seqnum))
    (hs : p.parseFIXMsg t now = .ok q) :
    Parts q ((q.out.filterMap StoreObj.ses? : List SesSlot) + S) := by
  unfold parseFIXMsg at hs
  split at hs
  · obtain ⟨hparts, hses⟩ := parts_onAppMsg h hs
    rw [hses, hout]
    exact hparts.mono (le_of_eq (zero_add S))
  · -- a session message: taken from the pool, filled, handled, given to the store
    rename_i happ
    obtain ⟨⟨slot, r⟩, htake, hrest⟩ := bind_eq_ok_iff.mp hs
    obtain ⟨r', hr', hq⟩ := bind_eq_ok_iff.mp hrest
    cases hq
    obtain ⟨htaken, -⟩ := parts_takeSes h htake
    obtain ⟨rest, -, rfl⟩ := takeSes_ok htake
    set start := ({ p with
      freeList := p.freeList.tail
      releases := Function.update p.releases slot 0 } : SesParser).fill slot t.fixSesMsg with hstart
    have hpool : start.pool slot = t.fixSesMsg := Function.update_self _ _ _
    have hfilled : Parts start (slot ::ₘ S) := htaken.of_same rfl rfl rfl fun x hx => .inl hx
    obtain ⟨hparts, hses⟩ := parts_onSesMsg hfilled (Multiset.mem_cons_self slot S)
      (by
        rw [hpool]
        rintro ⟨hlogon, hreset, hahead⟩
        exact hcalm ⟨Bool.eq_false_iff.mpr happ, hlogon, hreset, hahead⟩) hr'
    have hgiven : (r'.toStore (.ses slot)).out.filterMap StoreObj.ses? = [slot] := by
      show (r'.out ++ [StoreObj.ses slot]).filterMap StoreObj.ses? = [slot]
      rw [List.filterMap_append, hses]
      show p.out.filterMap StoreObj.ses? ++ [slot] = [slot]
      rw [hout]
      rfl
    rw [hgiven]
    exact hparts.of_same rfl rfl rfl fun x hx => .inl hx

end SesParser

/-! ### Steps of the system -/

namespace SesSystem

/-- The session messages on the store path. -/
def sesOf (l : Ledger StoreObj) : Multiset SesSlot := l.carried.filterMap StoreObj.ses?

theorem sesOf_mono {l l' : Ledger StoreObj} (h : l'.carried ≤ l.carried) : sesOf l' ≤ sesOf l :=
  Multiset.filterMap_le_filterMap _ h

/-- Between two steps everything the parser pushed is on the store path, and the
parts of the pool are apart. -/
structure Apart (s : SesSystem) : Prop where
  out : s.parser.out = []
  parts : ∃ l, s.pipe.Represents l ∧ Parts s.parser (sesOf l)

variable {s s' : SesSystem}

theorem apart_start : Apart {} := by
  refine ⟨rfl, {}, Pipeline.represents_start, ?_, ?_, fun _ => Nat.zero_le 1, fun _ _ => rfl⟩
  · have hparts : ((allSesSlots.items : Multiset SesSlot) + 0 + 0).Nodup := by
      rw [add_zero, add_zero]
      exact Multiset.coe_nodup.mpr (BoundedQueue.nodup_indices 1024)
    exact hparts
  · intro x hx
    exact absurd hx List.not_mem_nil

/-- A step of the store or of the database thread that gives nothing new. -/
theorem Apart.pipe {pipe : Pipeline StoreObj} (h : s.Apart)
    (hpipe : ∀ l, s.pipe.Represents l → ∃ l', pipe.Represents l' ∧ sesOf l' ≤ sesOf l) :
    Apart { s with pipe := pipe } := by
  obtain ⟨l, hl, hparts⟩ := h.parts
  obtain ⟨l', hl', hle⟩ := hpipe l hl
  exact ⟨h.out, l', hl', hparts.mono hle⟩

theorem apart_arrive {t : FIXText} {now : ℕ} (h : s.Apart) (hcalm : s.Calm (.arrive t now))
    (hs : s.step (.arrive t now) = .ok s') : s'.Apart := by
  obtain ⟨q, hq, hs'⟩ := bind_eq_ok_iff.mp hs
  cases hs'
  obtain ⟨l, hl, hparts⟩ := h.parts
  have hjoined := SesParser.parts_parseFIXMsg hparts h.out hcalm.1 hq
  obtain ⟨l', hl', hle⟩ := Pipeline.lossy_gives q.out hl (hcalm.2 q hq)
  have hses : sesOf l' ≤ (q.out.filterMap StoreObj.ses? : List SesSlot) + sesOf l := by
    have hmap := Multiset.filterMap_le_filterMap StoreObj.ses? hle
    rw [Multiset.filterMap_add, Multiset.filterMap_coe] at hmap
    exact hmap
  exact ⟨rfl, l', hl', (hjoined.mono hses).of_same rfl rfl rfl fun x hx => .inl hx⟩

/-- Messages of other protocols are not in the pool. -/
theorem filterMap_copies_other (kind : MessageKind) (outs : List StoreOut) :
    (outs.map (Ledger.copies (StoreObj.other kind))).sum.filterMap StoreObj.ses? = 0 := by
  induction outs with
  | nil => rfl
  | cons out outs ih =>
    rw [List.map_cons, List.sum_cons, Multiset.filterMap_add, ih, add_zero]
    cases out <;> rfl

theorem apart_handle {outs : List StoreOut} (h : s.Apart) (hcalm : s.Calm (.handle outs))
    (hs : s.step (.handle outs) = .ok s') : s'.Apart := by
  obtain ⟨pipe, hpipe, hs'⟩ := bind_eq_ok_iff.mp hs
  cases hs'
  refine h.pipe fun l hl => ?_
  rcases Pipeline.lossy_handle hl hcalm hpipe with
    ⟨-, rfl⟩ | ⟨obj, rest, l', hhand, hcarried, hl', hle⟩
  · exact ⟨l, hl, le_refl _⟩
  refine ⟨l', hl', ?_⟩
  cases obj with
  | ses slot =>
    -- a session message goes to the database and nowhere else
    have hobj : s.pipe.inHand.bind s.pipe.msgWrappers.slots = some (.ses slot) := by
      have hmap := hl.hand
      rw [hhand] at hmap
      obtain ⟨w, hw, hslots⟩ := Option.map_eq_some_iff.mp hmap
      rw [hw]
      exact hslots
    have houts : s.storeOuts outs = [.message] := by
      unfold storeOuts
      rw [hobj]
    refine sesOf_mono (hle.trans (le_of_eq ?_))
    rw [hcarried, houts, ← Multiset.singleton_add, add_comm]
    rfl
  | other kind =>
    have hmap := Multiset.filterMap_le_filterMap StoreObj.ses? hle
    rw [Multiset.filterMap_add, filterMap_copies_other, add_zero] at hmap
    refine hmap.trans (Multiset.filterMap_le_filterMap _ ?_)
    rw [hcarried]
    exact Multiset.le_cons_self _ _

theorem apart_flush (h : s.Apart) (hcalm : s.Calm .flush) (hs : s.step .flush = .ok s') :
    s'.Apart := by
  obtain ⟨pipe, hpipe, hs'⟩ := bind_eq_ok_iff.mp hs
  cases hs'
  obtain ⟨l, hl, hparts⟩ := h.parts
  obtain ⟨pipe', hpipe', hl'⟩ := Pipeline.represents_flush hl
  rw [hpipe, Except.ok.injEq] at hpipe'
  subst hpipe'
  have hhead := Pipeline.flushed?_eq hl
  unfold takeBack
  cases hback : s.pipe.flushed? with
  | none =>
    have hempty : l.dbToParser = [] := List.head?_eq_none_iff.mp (hhead ▸ hback)
    have hsame : l.step .flush = l := by simp only [Ledger.step, hempty]
    rw [hsame] at hl'
    exact ⟨h.out, l, hl', hparts⟩
  | some obj =>
    have hcarried := Ledger.carried_flush (hhead ▸ hback : l.dbToParser.head? = some obj)
    cases obj with
    | ses slot =>
      have hses : sesOf l = slot ::ₘ sesOf (l.step .flush) := by
        unfold sesOf
        rw [hcarried]
        exact Multiset.filterMap_cons_some _ _ _ rfl
      rw [hses] at hparts
      exact ⟨h.out, _, hl', hparts.release (hcalm slot hback)⟩
    | other kind =>
      have hle : (l.step .flush).carried ≤ l.carried := by
        rw [hcarried]
        exact Multiset.le_cons_self _ _
      exact ⟨h.out, _, hl', hparts.mono (sesOf_mono hle)⟩

/-- The builder may release what nobody else holds. -/
theorem apart_buildOut (h : s.Apart) (hcalm : s.Calm .buildOut) : s.buildOut.Apart := by
  unfold buildOut
  split
  · exact h
  · rename_i slot rest hrx
    obtain ⟨hrest, hpending, hpipe⟩ := hcalm slot rest hrx
    obtain ⟨l, hl, hparts⟩ := h.parts
    have hwait : slot ∈ s.parser.waiting :=
      SesParser.mem_waiting.mpr (.inr (hrx ▸ List.mem_cons_self))
    have hS : slot ∉ sesOf l := by
      intro hmem
      obtain ⟨obj, hobj, hslot⟩ := (Multiset.mem_filterMap _ _).mp hmem
      cases obj with
      | other kind => cases hslot
      | ses slot' =>
        cases hslot
        exact hpipe ((Pipeline.carries_iff hl).mpr hobj)
    have htail : s.parser.rx.tail.items = rest := by
      rw [BoundedQueue.items_tail, hrx, List.tail_cons]
    have hpopped : Parts { s.parser with rx := s.parser.rx.tail } (slot ::ₘ sesOf l) := by
      refine (hparts.adopt hwait hS).of_same rfl rfl rfl fun x hx => .inl ?_
      rcases SesParser.mem_waiting.mp hx with hold | hnew
      · exact SesParser.mem_waiting.mpr (.inl hold)
      · exact SesParser.mem_waiting.mpr (.inr (List.mem_of_mem_tail hnew))
    refine ⟨h.out, l, hl, hpopped.release fun hx => ?_⟩
    rcases SesParser.mem_waiting.mp hx with hold | hnew
    · exact hpending hold
    · exact hrest (htail ▸ hnew)

/-- What the resend logic has asked for belongs to the builder alone. -/
theorem apart_buildIn (h : s.Apart) : s.buildIn.Apart := by
  unfold buildIn
  split
  · exact h
  · rename_i slot rest htx
    obtain ⟨l, hl, hparts⟩ := h.parts
    have htail : s.parser.tx.tail.items = rest := by
      rw [BoundedQueue.items_tail, htx, List.tail_cons]
    have hpopped : Parts { s.parser with tx := s.parser.tx.tail } (slot ::ₘ sesOf l) := by
      refine ⟨?_, fun x hx => ?_, hparts.once, hparts.held⟩
      · have hperm : (s.parser.freeList.items : Multiset SesSlot) + s.parser.tx.tail.items
            + slot ::ₘ sesOf l = s.parser.freeList.items + s.parser.tx.items + sesOf l := by
          rw [htail, htx, ← Multiset.cons_coe, ← Multiset.singleton_add, ← Multiset.singleton_add]
          abel
        show ((s.parser.freeList.items : Multiset SesSlot) + s.parser.tx.tail.items
          + slot ::ₘ sesOf l).Nodup
        rw [hperm]
        exact hparts.nodup
      · have hold := hparts.waiting x hx
        exact ⟨hold.1, fun hmem => hold.2 (List.mem_of_mem_tail hmem)⟩
    refine ⟨h.out, l, hl, hpopped.release fun hx => ?_⟩
    exact (hparts.waiting slot hx).2 (htx ▸ List.mem_cons_self)

/-- **A calm step keeps the parts of the pool apart.** -/
theorem apart_step {e : SesEvent} (h : s.Apart) (hcalm : s.Calm e) (hs : s.step e = .ok s') :
    s'.Apart := by
  cases e with
  | arrive t now => exact apart_arrive h hcalm hs
  | give kind =>
    cases hs
    refine h.pipe fun l hl => ?_
    obtain ⟨l', hl', hle⟩ := Pipeline.lossy_give hl hcalm (StoreObj.other kind)
    have hmap := Multiset.filterMap_le_filterMap StoreObj.ses? hle
    rw [Multiset.filterMap_cons_none _ _ rfl] at hmap
    exact ⟨l', hl', hmap⟩
  | takePending =>
    obtain ⟨pipe, hpipe, hs'⟩ := bind_eq_ok_iff.mp hs
    cases hs'
    refine h.pipe fun l hl => ?_
    obtain ⟨pipe', hpipe', hl'⟩ := Pipeline.represents_takePending hl hcalm
    rw [hpipe, Except.ok.injEq] at hpipe'
    subst hpipe'
    exact ⟨_, hl', sesOf_mono l.carried_takePending_le⟩
  | takeNew =>
    cases hs
    exact h.pipe fun l hl =>
      ⟨_, Pipeline.represents_takeNew hl, sesOf_mono l.carried_takeNew_le⟩
  | handle outs => exact apart_handle h hcalm hs
  | write =>
    cases hs
    refine h.pipe fun l hl => ?_
    obtain ⟨l', hl', hle⟩ := Pipeline.lossy_write hl
    exact ⟨l', hl', sesOf_mono hle⟩
  | flush => exact apart_flush h hcalm hs
  | buildOut =>
    cases hs
    exact apart_buildOut h hcalm
  | buildIn =>
    cases hs
    exact apart_buildIn h

theorem Apart.owned (h : s.Apart) : Owned s := by
  obtain ⟨l, hl, hparts⟩ := h.parts
  have hstore : ∀ slot ∈ s.parser.freeList.items, ¬ s.pipe.Carries (.ses slot) := by
    intro slot hfree hcarries
    have hmem : slot ∈ sesOf l :=
      (Multiset.mem_filterMap _ _).mpr ⟨.ses slot, (Pipeline.carries_iff hl).mp hcarries, rfl⟩
    exact (hparts.carried_apart hmem).1 hfree
  refine ⟨hparts.once, fun slot hfree hpend => ?_, fun slot hfree => ⟨fun hrx => ?_, fun htx => ?_⟩,
    fun slot hfree w hw hslot => ?_, fun slot hfree d hd hitem => ?_⟩
  · exact (hparts.waiting slot (SesParser.mem_waiting.mpr (.inl hpend))).1 hfree
  · exact (hparts.waiting slot (SesParser.mem_waiting.mpr (.inr hrx))).1 hfree
  · exact hparts.tx_notMem_free htx hfree
  · exact hstore slot hfree (.inl ⟨w, hw, hslot⟩)
  · exact hstore slot hfree (.inr (.inr (.inr (.inl ⟨d, hd, hitem⟩))))

end SesSystem

/-- **Session messages have one owner.**  In every state that a calm run reaches,
each object has been released at most once since it was taken, and nothing in the
free list is held by the map, a builder queue, the store or the database queue. -/
theorem session_messages_owned (es : List SesEvent) (s : SesSystem)
    (hcalm : Along SesSystem.step SesSystem.Calm {} es)
    (hrun : exec SesSystem.step {} es = .ok s) : Owned s :=
  (exec_inv_along (fun _ _ _ h hc hs => SesSystem.apart_step h hc hs) SesSystem.apart_start
    hcalm hrun).owned

/-! ### One message and its owners -/

namespace SesParser

/-- The first object is taken and filled. -/
def firstTaken (msg : FIXSessionMessage) : SesParser where
  freeList := allSesSlots.tail
  pool := Function.update (fun _ => {}) 0 msg
  releases := Function.update (fun _ => 0) 0 0

theorem takeSes_of_cons {p : SesParser} {slot : SesSlot} {rest : List SesSlot}
    (h : p.freeList.items = slot :: rest) :
    p.takeSes = .ok (slot,
      { p with
        freeList := p.freeList.tail
        releases := Function.update p.releases slot 0 }) := by
  unfold takeSes
  split
  · rename_i hnil
    rw [h] at hnil
    cases hnil
  · rename_i hcons
    rw [h, List.cons.injEq] at hcons
    rw [hcons.1]

theorem handleSes_pending (p : SesParser) (slot : SesSlot) :
    (p.handleSes slot).pending = p.pending := by
  unfold handleSes
  by_cases hr : (handleSesMsg (p.pool slot) p.state).1 = true
  · simp only [if_pos hr]
  · simp only [if_neg hr]

/-- A first message that is in sequence. -/
theorem parseFIXMsg_start {t : FIXText} (happ : t.isApplication = false)
    (hseq : t.fixSesMsg.seqnum = 1) (now : ℕ) :
    ({} : SesParser).parseFIXMsg t now =
      .ok (((firstTaken t.fixSesMsg).handleSes 0).increaseExpectedSeq.toStore (.ses 0)) := by
  have hpool : (firstTaken t.fixSesMsg).pool 0 = t.fixSesMsg := by
    simp only [firstTaken, Function.update_self]
  have hpending : ((firstTaken t.fixSesMsg).handleSes 0).pending = ∅ := handleSes_pending _ 0
  have hdrain : ((firstTaken t.fixSesMsg).handleSes 0).increaseExpectedSeq.drain
      = .ok ((firstTaken t.fixSesMsg).handleSes 0).increaseExpectedSeq := by
    have hfind : ∀ k, ((firstTaken t.fixSesMsg).handleSes 0).increaseExpectedSeq.pending.find? k
        = none := by
      intro k
      show ((firstTaken t.fixSesMsg).handleSes 0).pending.find? k = none
      rw [hpending]
      rfl
    simp only [drain, drainPending, hfind]
  have hses : (firstTaken t.fixSesMsg).onSesMsg 0 now
      = .ok ((firstTaken t.fixSesMsg).handleSes 0).increaseExpectedSeq := by
    unfold onSesMsg
    rw [if_pos (by rw [hpool, hseq]; rfl)]
    exact hdrain
  unfold parseFIXMsg
  have hitems : ({} : SesParser).freeList.items = 0 :: allSesSlots.items.tail :=
    BoundedQueue.items_indices_eq_cons (n := 1024)
  rw [happ, takeSes_of_cons hitems]
  show ((firstTaken t.fixSesMsg).onSesMsg 0 now >>= fun r => .ok (r.toStore (.ses 0))) = _
  rw [hses]
  rfl

end SesParser

/-- The system after a first message that is in sequence. -/
def SesSystem.afterFirst (msg : FIXSessionMessage) : SesSystem where
  parser := { (SesParser.handleSes (.firstTaken msg) 0).increaseExpectedSeq with out := [] }
  pipe := ({} : Pipeline StoreObj).give (.ses 0)

theorem SesSystem.step_arrive_start {t : FIXText} (happ : t.isApplication = false)
    (hseq : t.fixSesMsg.seqnum = 1) (now : ℕ) :
    ({} : SesSystem).step (.arrive t now) = .ok (afterFirst t.fixSesMsg) := by
  have hout : ((SesParser.firstTaken t.fixSesMsg).handleSes 0).out = [] :=
    (SesParser.handleSes_same _ 0).2.2.2.1
  show (({} : SesParser).parseFIXMsg t now >>= _) = _
  rw [SesParser.parseFIXMsg_start happ hseq now]
  show Except.ok _ = _
  have hgiven : (((SesParser.firstTaken t.fixSesMsg).handleSes 0).increaseExpectedSeq.toStore
      (.ses 0)).out = [.ses 0] := by
    show ((SesParser.firstTaken t.fixSesMsg).handleSes 0).out ++ [StoreObj.ses 0] = _
    rw [hout]
    rfl
  rw [hgiven]
  rfl

/-- A heartbeat in sequence. -/
def heartbeatInSequence : FIXText :=
  { type := FIXTypes.heartbeat.code, fixMsg := {},
    fixSesMsg := { seqnum := 1, msgType := FIXTypes.heartbeat.code } }

/-- A test request in sequence. -/
def testRequestText : FIXText :=
  { type := FIXTypes.testRequest.code, fixMsg := {},
    fixSesMsg := { seqnum := 1, msgType := FIXTypes.testRequest.code, testReqId := 7 } }

/-- A heartbeat arrives, is stored and written, and its object is taken back. -/
def heartbeatRun : List SesEvent :=
  [.arrive heartbeatInSequence 0, .takeNew, .handle [], .write, .buildOut, .flush]

theorem heartbeatRun_calm : Along SesSystem.step SesSystem.Calm {} heartbeatRun := by
  refine along_cons _ ⟨?_, fun q hq => ?_⟩ (SesSystem.step_arrive_start rfl rfl 0) ?_
  · rintro ⟨-, hlogon, -⟩
    cases hlogon
  · rw [SesParser.parseFIXMsg_start rfl rfl, Except.ok.injEq] at hq
    subst hq
    exact ⟨⟨List.not_mem_nil, nofun, nofun⟩, trivial⟩
  refine along_cons _ trivial rfl ?_
  refine along_cons _ ?_ rfl ?_
  · intro w obj hw hobj
    cases hw
    cases hobj
    exact ⟨fun d hd => absurd hd List.not_mem_nil,
      ⟨List.not_mem_nil, List.not_mem_nil⟩, trivial⟩
  refine along_cons _ trivial rfl ?_
  refine along_cons _ nofun rfl ?_
  refine along_cons _ ?_ rfl trivial
  intro slot _ hwait
  cases hwait

theorem session_messages_owned_heartbeatRun :
    ∃ s, exec SesSystem.step {} heartbeatRun = .ok s ∧ s.parser.releases 0 = 1 ∧ Owned s := by
  have hrun : ∃ s, exec SesSystem.step {} heartbeatRun = .ok s ∧ s.parser.releases 0 = 1 :=
    ⟨_, (exec_cons_ok _ (SesSystem.step_arrive_start rfl rfl 0)).trans rfl, rfl⟩
  obtain ⟨s, hs, hone⟩ := hrun
  exact ⟨s, hs, hone, session_messages_owned heartbeatRun s heartbeatRun_calm hs⟩

/-- The builder answers a test request; then its object comes back from the
database. -/
def testRequestRun : List SesEvent :=
  [.arrive testRequestText 0, .buildOut, .takeNew, .handle [], .write, .flush]

/-- **A test request is released twice.**  The parser pushes it to the builder and
to the store; the builder gives the object back when it has answered, and
`flush_DbQueue` gives it back again. -/
theorem testRequest_released_twice :
    ∃ s, exec SesSystem.step {} testRequestRun = .ok s ∧ s.parser.releases 0 = 2 ∧ ¬ Owned s := by
  have hrun : ∃ s, exec SesSystem.step {} testRequestRun = .ok s ∧ s.parser.releases 0 = 2 :=
    ⟨_, (exec_cons_ok _ (SesSystem.step_arrive_start rfl rfl 0)).trans rfl, rfl⟩
  obtain ⟨s, hs, htwo⟩ := hrun
  refine ⟨s, hs, htwo, fun howned => ?_⟩
  have hone := howned.once 0
  omega

end TradingEngine
