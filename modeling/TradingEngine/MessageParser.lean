/-
The binary parsers (`protocol/parsers/ITCH`, `protocol/parsers/OUCH`).

All four have the same shape.  The first byte of a message gives the number of its type; a
table has a handler for each number, and the handler copies the fields of the message, each
from its fixed place, into an object of the type.

A `WireMessage` is a type byte with a value for every field of its type.

* `parse_eq_some_iff` — a parser returns a message exactly when the bytes begin with those
  of a wire message, and it is that message;
* `WireMessage.eq_of_prefix` — the wire message is the only one the bytes begin with;
* `parse_eq_none_iff`, `parse_eq_error_iff` — it returns nothing exactly on a byte that is
  no type, and leaves the bytes exactly when they end before their message does.
-/
import TradingEngine.BigEndian
import TradingEngine.FallibleRun
import TradingEngine.Order

namespace TradingEngine

open RecordLayout

/-! ### Parsers -/

/-- An entry of `MessageHandlers`: what it reads, in its order, and what it makes of it. -/
structure MessageHandler (α : Type) where
  size : ℕ
  layout : Layout UInt8 size
  build : Curried layout.fields α

/-- A parser: the numbers of its types, and its handlers by these numbers. -/
structure MessageParser (α : Type) where
  messageIndex : UInt8 → ℕ
  messageHandlers : List (MessageHandler α)

namespace MessageHandler

variable {α : Type} (h : MessageHandler α)

def message (r : Row h.layout.fields) : α := Curried.apply h.layout.fields h.build r

/-- Reading past the end of the bytes is left open by the language. -/
def run (data : List UInt8) : Except Fault α :=
  match readRow h.layout.fields data with
  | none => .error .outOfBounds
  | some r => .ok (h.message r)

end MessageHandler

namespace MessageParser

variable {α : Type}

/-- `parse`: the default message, which points to nothing, where the type is unknown. -/
def parse (p : MessageParser α) (data : List UInt8) : Except Fault (Option α) :=
  match data.head? with
  | none => .error .outOfBounds
  | some type =>
    if p.messageIndex type ≠ 99 then
      match p.messageHandlers[p.messageIndex type]? with
      | none => .error .outOfBounds
      | some h => (h.run data).map some
    else .ok none

/-- The table has a handler for every number but that of the unknown types, and every message
has a type byte. -/
structure Complete (p : MessageParser α) : Prop where
  unknown : ∀ type, p.messageHandlers[p.messageIndex type]? = none ↔ p.messageIndex type = 99
  sized : ∀ h ∈ p.messageHandlers, 0 < h.size

end MessageParser

/-! ### Messages on the wire -/

/-- A message on the wire: a type, and a value for each of its fields; the first byte of the
message is its type. -/
structure WireMessage {α : Type} (p : MessageParser α) where
  type : UInt8
  handler : MessageHandler α
  row : Row handler.layout.fields
  known : p.messageHandlers[p.messageIndex type]? = some handler
  typed : (handler.layout.bytes row).head? = some type

namespace WireMessage

variable {α : Type} {p : MessageParser α}

def bytes (w : WireMessage p) : List UInt8 := w.handler.layout.bytes w.row

/-- What the parser makes of it. -/
def message (w : WireMessage p) : α := w.handler.message w.row

@[simp] theorem length_bytes (w : WireMessage p) : w.bytes.length = w.handler.size :=
  w.handler.layout.length_bytes w.row

theorem head?_of_prefix {w : WireMessage p} {data : List UInt8} (h : w.bytes <+: data) :
    data.head? = some w.type := by
  obtain ⟨rest, rfl⟩ := h
  rw [List.head?_append, bytes, w.typed]
  rfl

/-- **Bytes begin with at most one message.** -/
theorem eq_of_prefix {w w' : WireMessage p} {data : List UInt8} (h : w.bytes <+: data)
    (h' : w'.bytes <+: data) : w = w' := by
  have htype : some w.type = some w'.type := by
    rw [← head?_of_prefix h, ← head?_of_prefix h']
  obtain ⟨type, handler, row, known, typed⟩ := w
  obtain ⟨type', handler', row', known', typed'⟩ := w'
  obtain rfl : type = type' := Option.some.inj htype
  obtain rfl : handler = handler' := Option.some.inj (known.symm.trans known')
  have hrow : some row = some row' := by
    rw [← (handler.layout.read_eq_some_iff data row).mpr h,
      ← (handler.layout.read_eq_some_iff data row').mpr h']
  obtain rfl : row = row' := Option.some.inj hrow
  rfl

theorem bytes_injective : Function.Injective (bytes (p := p)) := fun w w' h =>
  eq_of_prefix (List.prefix_refl w.bytes) (h ▸ List.prefix_refl w'.bytes)

end WireMessage

/-! ### What a parser returns -/

section Parse

variable {α : Type} {p : MessageParser α} {data : List UInt8}

/-- Bytes that are long enough for their type begin with a message. -/
theorem WireMessage.exists_of_length {type : UInt8} {handler : MessageHandler α}
    (hp : p.Complete) (hhead : data.head? = some type)
    (known : p.messageHandlers[p.messageIndex type]? = some handler)
    (hlen : handler.size ≤ data.length) :
    ∃ w : WireMessage p, w.bytes <+: data ∧ w.handler = handler := by
  have hpos := hp.sized handler (List.mem_of_getElem? known)
  obtain ⟨r, hr⟩ := (handler.layout.exists_bytes_prefix_iff data).mpr hlen
  have htyped : (handler.layout.bytes r).head? = some type := by
    obtain ⟨rest, rfl⟩ := hr
    obtain ⟨b, bs, hcons⟩ := List.exists_cons_of_length_pos
      ((handler.layout.length_bytes r).symm ▸ hpos)
    rw [hcons] at hhead ⊢
    exact hhead
  exact ⟨⟨type, handler, r, known, htyped⟩, hr, rfl⟩

theorem MessageHandler.run_eq_ok_iff (h : MessageHandler α) (m : α) :
    h.run data = .ok m ↔ ∃ r, h.layout.bytes r <+: data ∧ h.message r = m := by
  rw [run]
  constructor
  · intro hrun
    cases hr : readRow h.layout.fields data with
    | none => simp [hr] at hrun
    | some r =>
      rw [hr] at hrun
      exact ⟨r, (h.layout.read_eq_some_iff data r).mp hr, Except.ok.inj hrun⟩
  · rintro ⟨r, hr, rfl⟩
    rw [(h.layout.read_eq_some_iff data r).mpr hr]

theorem MessageHandler.run_eq_error_iff (h : MessageHandler α) (f : Fault) :
    h.run data = .error f ↔ data.length < h.size ∧ f = .outOfBounds := by
  rw [run, ← not_le, ← h.layout.exists_read_iff data]
  cases hr : readRow h.layout.fields data with
  | none =>
    constructor
    · rintro ⟨⟩
      refine ⟨?_, rfl⟩
      rintro ⟨r, ⟨⟩⟩
    · rintro ⟨-, rfl⟩
      rfl
  | some r => exact iff_of_false (fun h => nomatch h) fun h => h.1 ⟨r, rfl⟩

theorem map_eq_error_iff {β γ : Type} {x : Except Fault β} {g : β → γ} {f : Fault} :
    x.map g = .error f ↔ x = .error f := by
  cases x with
  | error e =>
    constructor
    · rintro ⟨⟩
      rfl
    · rintro ⟨⟩
      rfl
  | ok b => exact iff_of_false (fun h => nomatch h) (fun h => nomatch h)

theorem MessageParser.parse_of_known {type : UInt8} {handler : MessageHandler α}
    (hp : p.Complete) (hhead : data.head? = some type)
    (known : p.messageHandlers[p.messageIndex type]? = some handler) :
    p.parse data = (handler.run data).map some := by
  have hindex : p.messageIndex type ≠ 99 := by
    intro h99
    rw [(hp.unknown type).mpr h99] at known
    cases known
  rw [parse, hhead]
  show (if p.messageIndex type ≠ 99 then _ else _) = _
  rw [if_pos hindex, known]

theorem MessageParser.parse_of_unknown {type : UInt8} (hhead : data.head? = some type)
    (h99 : p.messageIndex type = 99) : p.parse data = .ok none := by
  rw [parse, hhead]
  show (if p.messageIndex type ≠ 99 then _ else _) = _
  rw [if_neg (not_not.mpr h99)]

/-- The three kinds of bytes: none at all, a byte that is no type, and a type with its
handler. -/
theorem MessageParser.Complete.bytes_cases (hp : p.Complete) (data : List UInt8) :
    data = [] ∨ (∃ type, data.head? = some type ∧ p.messageIndex type = 99) ∨
      ∃ type handler, data.head? = some type ∧
        p.messageHandlers[p.messageIndex type]? = some handler := by
  cases data with
  | nil => exact .inl rfl
  | cons type rest =>
    right
    cases hget : p.messageHandlers[p.messageIndex type]? with
    | none => exact .inl ⟨type, rfl, (hp.unknown type).mp hget⟩
    | some handler => exact .inr ⟨type, handler, rfl, hget⟩

/-- **A parser undoes what wrote the message.** -/
theorem MessageParser.parse_eq_some_iff (hp : p.Complete) (m : α) :
    p.parse data = .ok (some m) ↔ ∃ w : WireMessage p, w.bytes <+: data ∧ w.message = m := by
  constructor
  · intro hparse
    obtain rfl | ⟨type, hhead, h99⟩ | ⟨type, handler, hhead, known⟩ := hp.bytes_cases data
    · cases hparse
    · rw [parse_of_unknown hhead h99] at hparse
      cases hparse
    · rw [parse_of_known hp hhead known] at hparse
      obtain ⟨m', hrun, hm⟩ := FallibleRun.map_eq_ok_iff.mp hparse
      obtain rfl : m' = m := Option.some.inj hm
      obtain ⟨r, hr, rfl⟩ := (handler.run_eq_ok_iff _).mp hrun
      have hlen := hr.length_le
      rw [handler.layout.length_bytes] at hlen
      obtain ⟨w, hw, rfl⟩ := WireMessage.exists_of_length hp hhead known hlen
      have hrow : some w.row = some r := by
        rw [← (w.handler.layout.read_eq_some_iff data w.row).mpr hw,
          ← (w.handler.layout.read_eq_some_iff data r).mpr hr]
      exact ⟨w, hw, congrArg w.handler.message (Option.some.inj hrow)⟩
  · rintro ⟨w, hw, rfl⟩
    rw [parse_of_known hp (WireMessage.head?_of_prefix hw) w.known,
      (w.handler.run_eq_ok_iff _).mpr ⟨w.row, hw, rfl⟩]
    rfl

/-- Nothing is returned exactly for a byte that is no type. -/
theorem MessageParser.parse_eq_none_iff (hp : p.Complete) :
    p.parse data = .ok none ↔ ∃ type, data.head? = some type ∧ p.messageIndex type = 99 := by
  constructor
  · intro hparse
    obtain rfl | hunknown | ⟨type, handler, hhead, known⟩ := hp.bytes_cases data
    · cases hparse
    · exact hunknown
    · rw [parse_of_known hp hhead known] at hparse
      obtain ⟨m', -, hm⟩ := FallibleRun.map_eq_ok_iff.mp hparse
      cases hm
  · rintro ⟨type, hhead, h99⟩
    exact parse_of_unknown hhead h99

/-- The parser leaves the bytes exactly where they end before their message does. -/
theorem MessageParser.parse_eq_error_iff (hp : p.Complete) (f : Fault) :
    p.parse data = .error f ↔ f = .outOfBounds ∧
      (data = [] ∨ ∃ type handler, data.head? = some type ∧
        p.messageHandlers[p.messageIndex type]? = some handler ∧ data.length < handler.size) := by
  obtain rfl | ⟨type, hhead, h99⟩ | ⟨type, handler, hhead, known⟩ := hp.bytes_cases data
  · constructor
    · rintro ⟨⟩
      exact ⟨rfl, .inl rfl⟩
    · rintro ⟨rfl, -⟩
      rfl
  · rw [parse_of_unknown hhead h99]
    refine iff_of_false (fun h => nomatch h) ?_
    rintro ⟨-, rfl | ⟨type', handler, hhead', known, -⟩⟩
    · cases hhead
    · rw [hhead] at hhead'
      cases hhead'
      rw [(hp.unknown type).mpr h99] at known
      cases known
  · rw [parse_of_known hp hhead known, map_eq_error_iff, handler.run_eq_error_iff]
    constructor
    · rintro ⟨hlen, rfl⟩
      exact ⟨rfl, .inr ⟨type, handler, hhead, known, hlen⟩⟩
    · rintro ⟨rfl, rfl | ⟨type', handler', hhead', known', hlen⟩⟩
      · cases hhead
      · rw [hhead] at hhead'
        cases hhead'
        rw [known] at known'
        cases known'
        exact ⟨hlen, rfl⟩

end Parse

end TradingEngine
