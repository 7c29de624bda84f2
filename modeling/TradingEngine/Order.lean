/-
The order record shared by every component (`core/Order.h`,
`core/Protocol-Venue.h`).

An `Order` is one slot of the order pool.  Fixed-width fields keep their
widths: prices are `Int64`, quantities `UInt32`, `replacedQuantity` is the
signed 32-bit field of the source.  The enumerations carry the numbering of
the source through their index functions, which is what the array accesses
`symbolbooks_[venue]`, `bid_ask_trees_[side]` and the key casts use.

Fields that only the request builders and the FIX session read (order tokens,
time in force, account index, padding) are left out.

Undefined behaviour is not silently repaired: an access outside an array, a
dereference of a failed lookup, a trapping division and a loop that never
ends are the four values of `Fault`, and the modelled functions return them.
-/
import Mathlib.Tactic
import TradingEngine.MachineInt

namespace TradingEngine

/-- What can go wrong in an execution of the source. -/
inductive Fault
  | outOfBounds
  | nullDereference
  | arithmeticTrap
  | nonTermination
  deriving DecidableEq, Repr

inductive SyncState
  | waitingNew
  | newSeen
  deriving DecidableEq, Repr

inductive Side
  | buy
  | sell
  | unknown
  deriving DecidableEq, Repr

inductive OrderType
  | unknown
  | market
  | limit
  deriving DecidableEq, Repr

inductive Status
  | unknown
  | new
  | partialFill
  | filled
  | cancelled
  | replaced
  | deleted
  | expired
  | cancelRequest
  deriving DecidableEq, Repr

inductive Protocol
  | fix
  | itch
  | ouch
  | unknown
  deriving DecidableEq, Repr

inductive Venue
  | bist
  | nasdaq
  | unknown
  deriving DecidableEq, Repr

/-! The sizes of the tables and pools: venues and sides, pending orders and packets,
symbols, queue entries, orders. -/

instance neZero_two : NeZero 2 := ⟨by decide⟩

instance neZero_64 : NeZero 64 := ⟨by decide⟩

instance neZero_256 : NeZero 256 := ⟨by decide⟩

instance neZero_512 : NeZero 512 := ⟨by decide⟩

instance neZero_1024 : NeZero 1024 := ⟨by decide⟩

instance neZero_2048 : NeZero 2048 := ⟨by decide⟩

instance neZero_65536 : NeZero 65536 := ⟨by decide⟩

/-- `VENUE_COUNT`; the index type of the per-venue arrays. -/
abbrev VenueIndex := Fin 2

/-- `MAX_SYMBOL_COUNT`; the index type of the per-symbol arrays. -/
abbrev SymbolSlot := Fin 512

/-- The index of the two trees of a book. -/
abbrev TreeIndex := Fin 2

/-- `to_underlying(Venue)` narrowed to `uint8_t`, as in the order keys. -/
def Venue.code : Venue → UInt8
  | .bist => 0
  | .nasdaq => 1
  | .unknown => 2

/-- `to_underlying(Side)` narrowed to `uint8_t`, as in the order keys. -/
def Side.code : Side → UInt8
  | .buy => 0
  | .sell => 1
  | .unknown => 2

/-- `to_underlying(venue)` used as an index into an array of `VENUE_COUNT`. -/
def Venue.index : Venue → Except Fault VenueIndex
  | .bist => .ok 0
  | .nasdaq => .ok 1
  | .unknown => .error .outOfBounds

/-- `to_underlying(side)` used as an index into `bid_ask_trees_`. -/
def Side.index : Side → Except Fault TreeIndex
  | .buy => .ok 0
  | .sell => .ok 1
  | .unknown => .error .outOfBounds

/-- A `symbol_index` used as an index into an array of `MAX_SYMBOL_COUNT`. -/
def symbolSlot (i : UInt32) : Except Fault SymbolSlot :=
  if h : i.toNat < 512 then .ok ⟨i.toNat, h⟩ else .error .outOfBounds

/-- `UINT32_MAX`, the index `HashTables::getIndex` gives to an unknown symbol. -/
def uint32Max : UInt32 := 0xFFFFFFFF

def strategyDone : UInt8 := 1
def riskDone : UInt8 := 2
def builderDone : UInt8 := 4

/-- One slot of the order pool. -/
structure Order where
  price : Int64 := 0
  quantity : UInt32 := 0
  filledQuantity : UInt32 := 0
  remainingQuantity : UInt32 := 0
  lastExecQuantity : UInt32 := 0
  replacedQuantity : Int32 := 0
  symbolIndex : UInt32 := 0
  instrumentId : UInt32 := 0
  side : Side := .unknown
  status : Status := .unknown
  venue : Venue := .bist
  isOurOrder : Bool := false
  canModify : UInt8 := strategyDone ||| riskDone ||| builderDone
  protocol : Protocol := .unknown
  orderType : OrderType := .unknown
  orderId : UInt64 := 0
  clientOrderId : UInt64 := 0
  timestamp : UInt64 := 0
  lastUpdateTime : UInt64 := 0
  cancelledCount : UInt8 := 0
  syncState : SyncState := .waitingNew
  statusesPreNew : Status × Status := (.unknown, .unknown)
  messageType : UInt8 := 0
  symbol : List UInt8 := []
  deriving DecidableEq, Repr

instance : Inhabited Order := ⟨{}⟩

/-- The side an own order would trade against. -/
def Side.opposite : Side → Side
  | .buy => .sell
  | .sell => .buy
  | .unknown => .unknown

theorem Side.index_eq_ok {side : Side} (h : side ≠ .unknown) : ∃ i, side.index = .ok i := by
  cases side with
  | buy => exact ⟨0, rfl⟩
  | sell => exact ⟨1, rfl⟩
  | unknown => exact absurd rfl h

end TradingEngine
