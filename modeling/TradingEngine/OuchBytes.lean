/-
The bytes of OUCH requests (`protocol/builders/OUCH/Builder_OUCH_BIST.{h,cpp}`,
`protocol/builders/OUCH/Builder_OUCH_NASDAQ.{h,cpp}`, `utils/Endian.h`).

Both builders write into buffers that they use in turn.  BIST has two for each kind of
request, filled in advance with what never changes; NASDAQ has two for all kinds, filled
with spaces.  A request patches its buffer field by field; token and symbol are copied at
their real lengths.

The requests to NASDAQ are those of `BuilderOuchNasdaq`, put to their places.
-/
import TradingEngine.BytePatches
import TradingEngine.OuchRequests

namespace TradingEngine

open BytePatches

/-! ### Big-endian numbers -/

namespace Endian

/-- `write_u16_be`. -/
def writeU16be (v : UInt16) : List UInt8 := [(v >>> 8).toUInt8, v.toUInt8]

/-- `write_u32_be`. -/
def writeU32be (v : UInt32) : List UInt8 :=
  [(v >>> 24).toUInt8, (v >>> 16).toUInt8, (v >>> 8).toUInt8, v.toUInt8]

/-- `write_u64_be`. -/
def writeU64be (v : UInt64) : List UInt8 :=
  [(v >>> 56).toUInt8, (v >>> 48).toUInt8, (v >>> 40).toUInt8, (v >>> 32).toUInt8,
    (v >>> 24).toUInt8, (v >>> 16).toUInt8, (v >>> 8).toUInt8, v.toUInt8]

/-- `write_i32_be`. -/
def writeI32be (v : Int32) : List UInt8 := writeU32be v.toUInt32

@[simp] theorem length_writeU16be (v : UInt16) : (writeU16be v).length = 2 := rfl

@[simp] theorem length_writeU32be (v : UInt32) : (writeU32be v).length = 4 := rfl

@[simp] theorem length_writeU64be (v : UInt64) : (writeU64be v).length = 8 := rfl

@[simp] theorem length_writeI32be (v : Int32) : (writeI32be v).length = 4 := rfl

end Endian

open Endian

/-! ### What the builders share -/

/-- An order slot, as the builders read it. -/
structure OuchSlot where
  order : Order
  own : OwnFields

/-- `ORDER_TOKEN_SIZE`, `SYMBOL_SIZE` and `FIX_ORDER_ID_SIZE`. -/
abbrev charArraySize : ℕ := 32

/-- `memcpy` of the first `len` bytes of a `char` array of the order. -/
def readArray (bytes : List UInt8) (len : UInt8) : Except Fault (List UInt8) :=
  if len.toNat ≤ charArraySize then .ok (copyField bytes len) else .error .outOfBounds

@[simp] theorem length_copyField (bytes : List UInt8) (len : UInt8) :
    (copyField bytes len).length = len.toNat := by
  rw [copyField, List.length_take, List.length_append, List.length_replicate]
  omega

/-- `WriteSBTHeaderForDataPacket`. -/
def sbtHeader (ouchPktLen : UInt16) : Patch UInt8 := ⟨0, writeU16be (ouchPktLen - 2) ++ [85]⟩

/-- The buffer whose turn it is gets the message; the first `len` bytes of it are sent. -/
def storeMessage {n : ℕ} (r : Ring 2 n UInt8) (len : UInt16) (ps : List (Patch UInt8)) :
    Except Fault (Ring 2 n UInt8 × List UInt8) :=
  let ps := sbtHeader len :: ps
  if ∀ p ∈ ps, p.pos + p.cells.length ≤ n then
    .ok (r.write ps, message (r.written ps) len.toNat)
  else .error .outOfBounds

/-! ### BIST -/

namespace Bist

/-- `ExchangeClientInfo_local`. -/
structure ExchangeClientInfo where
  clientAccount : Vector UInt8 16
  exchangeInfo : Vector UInt8 32

/-- The constructor, from the strings of the configuration. -/
def ExchangeClientInfo.ofStrings (clAcc excInfo : List UInt8) : ExchangeClientInfo where
  clientAccount := ⟨((clAcc ++ List.replicate 16 32).take 16).toArray, by simp⟩
  exchangeInfo := ⟨((excInfo ++ List.replicate 32 32).take 32).toArray, by simp⟩

/-- A buffer of spaces with some constant fields. -/
def prefilled (n : ℕ) (fields : List (Patch UInt8)) : Fin n → UInt8 := patches (fun _ => 32) fields

/-- `Buffer_OBT_Enter`. -/
def enterBuffer : Fin 117 → UInt8 :=
  prefilled 117 [⟨3, [79]⟩, ⟨36, [0]⟩, ⟨100, writeU64be 0⟩, ⟨108, [1]⟩, ⟨109, [0, 0, 0]⟩,
    ⟨115, [0, 0]⟩]

/-- `Buffer_OBT_Replace`. -/
def replaceBuffer : Fin 125 → UInt8 :=
  prefilled 125 [⟨3, [85]⟩, ⟨44, [0]⟩, ⟨108, writeU64be 0⟩, ⟨116, [1]⟩,
    ⟨117, [0, 0, 0, 0, 0, 0, 0, 0]⟩]

/-- `Buffer_OBT_Cancel`. -/
def cancelBuffer : Fin 18 → UInt8 := prefilled 18 [⟨3, [88]⟩]

/-- `Buffer_OBT_CancelID`. -/
def cancelidBuffer : Fin 17 → UInt8 := prefilled 17 [⟨3, [89]⟩]

/-- `eci_local_[order.account_index]`. -/
def accountInfo (eci : List ExchangeClientInfo) (o : OuchSlot) :
    Except Fault ExchangeClientInfo :=
  match eci[o.own.accountIndex.toNat]? with
  | none => .error .outOfBounds
  | some e => .ok e

/-- The fields of an Enter, behind the three bytes of the header. -/
def enterFields (token : List UInt8) (e : ExchangeClientInfo) (o : OuchSlot) :
    List (Patch UInt8) :=
  [⟨4, token⟩, ⟨18, writeU32be o.order.instrumentId⟩, ⟨22, [charOfSide o.order.side]⟩,
    ⟨23, writeU64be o.order.quantity.toUInt64⟩, ⟨31, writeI32be o.order.price.toInt32⟩,
    ⟨35, [o.own.timeInForce]⟩, ⟨37, e.clientAccount.toList⟩, ⟨68, e.exchangeInfo.toList⟩]

/-- `buildEnterOrder`. -/
def buildEnterOrder (eci : List ExchangeClientInfo) (o : OuchSlot) :
    Except Fault (List (Patch UInt8)) := do
  let token ← readArray o.own.clientOrderToken o.own.realClOrdTokenLen
  let e ← accountInfo eci o
  .ok (enterFields token e o)

/-- The fields of a Replace. -/
def replaceFields (token : List UInt8) (e : ExchangeClientInfo) (o : OuchSlot) :
    List (Patch UInt8) :=
  [⟨4, copyField o.own.fixOrgOrderId 14⟩, ⟨18, token⟩,
    ⟨32, writeU64be o.order.quantity.toUInt64⟩, ⟨40, writeI32be o.order.price.toInt32⟩,
    ⟨45, e.clientAccount.toList⟩, ⟨76, e.exchangeInfo.toList⟩, ⟨108, writeU64be 0⟩, ⟨116, [1]⟩]

/-- `buildReplaceOrder`. -/
def buildReplaceOrder (eci : List ExchangeClientInfo) (o : OuchSlot) :
    Except Fault (List (Patch UInt8)) := do
  let token ← readArray o.own.clientOrderToken o.own.realClOrdTokenLen
  let e ← accountInfo eci o
  .ok (replaceFields token e o)

/-- `buildCancelOrder`. -/
def buildCancelOrder (o : OuchSlot) : List (Patch UInt8) :=
  [⟨4, copyField o.own.clientOrderToken 14⟩]

/-- `buildCancelByOrderID`. -/
def buildCancelByOrderID (o : OuchSlot) : List (Patch UInt8) :=
  [⟨4, writeU32be o.order.instrumentId⟩, ⟨8, [charOfSide o.order.side]⟩,
    ⟨9, writeU64be o.order.orderId⟩]

/-- `Builder_OUCH_BIST`. -/
structure OuchBuilder where
  enterMessages : Ring 2 117 UInt8 := ⟨fun _ => enterBuffer, 0⟩
  replaceMessages : Ring 2 125 UInt8 := ⟨fun _ => replaceBuffer, 0⟩
  cancelMessages : Ring 2 18 UInt8 := ⟨fun _ => cancelBuffer, 0⟩
  cancelidMessages : Ring 2 17 UInt8 := ⟨fun _ => cancelidBuffer, 0⟩
  eciLocal : List ExchangeClientInfo

/-- `Builder_OUCH_BIST::build`; for other message types `buffer` stays the null pointer. -/
def OuchBuilder.build (b : OuchBuilder) (o : OuchSlot) : Except Fault (OuchBuilder × List UInt8) :=
  match o.order.messageType.toNat with
  | 0 => do
    let ps ← buildEnterOrder b.eciLocal o
    let (r, msg) ← storeMessage b.enterMessages 117 ps
    .ok ({ b with enterMessages := r }, msg)
  | 1 => do
    let ps ← buildReplaceOrder b.eciLocal o
    let (r, msg) ← storeMessage b.replaceMessages 125 ps
    .ok ({ b with replaceMessages := r }, msg)
  | 2 => do
    let (r, msg) ← storeMessage b.cancelMessages 18 (buildCancelOrder o)
    .ok ({ b with cancelMessages := r }, msg)
  | 3 => do
    let (r, msg) ← storeMessage b.cancelidMessages 17 (buildCancelByOrderID o)
    .ok ({ b with cancelidMessages := r }, msg)
  | _ => .error .nullDereference

end Bist

/-! ### NASDAQ -/

/-- The places of the fields of `O`. -/
def EnterRequest.patches (r : EnterRequest) : List (Patch UInt8) :=
  [⟨3, [79]⟩, ⟨4, writeU32be r.userRefNum⟩, ⟨8, [r.side]⟩, ⟨9, writeU32be r.quantity⟩,
    ⟨13, r.symbol⟩, ⟨21, writeU64be r.price⟩, ⟨29, [r.timeInForce]⟩, ⟨30, r.flags⟩,
    ⟨34, r.clOrdId⟩, ⟨48, writeU16be r.appendageLength⟩]

/-- The places of the fields of `U`. -/
def ReplaceRequest.patches (r : ReplaceRequest) : List (Patch UInt8) :=
  [⟨3, [85]⟩, ⟨4, writeU32be r.origUserRefNum⟩, ⟨8, writeU32be r.userRefNum⟩,
    ⟨12, writeU32be r.quantity⟩, ⟨16, writeU64be r.price⟩, ⟨24, [r.timeInForce]⟩, ⟨25, r.flags⟩,
    ⟨27, r.clOrdId⟩, ⟨41, writeU16be r.appendageLength⟩]

/-- The places of the fields of `X`. -/
def CancelRequest.patches (r : CancelRequest) : List (Patch UInt8) :=
  [⟨3, [88]⟩, ⟨4, writeU32be r.userRefNum⟩, ⟨8, writeU32be r.quantity⟩,
    ⟨12, writeU16be r.appendageLength⟩]

/-- The places of the fields of `M`. -/
def ModifyRequest.patches (r : ModifyRequest) : List (Patch UInt8) :=
  [⟨3, [77]⟩, ⟨4, writeU32be r.userRefNum⟩, ⟨8, [r.side]⟩, ⟨9, writeU32be r.quantity⟩,
    ⟨13, writeU16be r.appendageLength⟩]

namespace Nasdaq

/-- `Builder_OUCH_NASDAQ`: its counter and its buffers. -/
structure OuchBuilder where
  refNums : BuilderOuchNasdaq := {}
  messages : Ring 2 126 UInt8 := ⟨fun _ _ => 32, 0⟩

/-- `buildAccountQueryRequest`. -/
def buildAccountQueryRequest : List (Patch UInt8) := [⟨3, [81]⟩, ⟨4, writeU16be 0⟩]

/-- What `OuchMessageBuilders[order.message_type]` writes, with `msg_sizes` of the type; and
the counter and the numbers of the order after it. -/
def request (b : BuilderOuchNasdaq) (o : OuchSlot) :
    Except Fault (UInt16 × List (Patch UInt8) × BuilderOuchNasdaq × OwnFields) :=
  match o.order.messageType.toNat with
  | 0 => do
    let _ ← readArray o.order.symbol o.own.realSymbolLen
    let _ ← readArray o.own.clientOrderToken o.own.realClOrdTokenLen
    let (r, b, own) := b.buildEnterOrder o.order o.own
    .ok (50, r.patches, b, own)
  | 1 => do
    let _ ← readArray o.own.clientOrderToken o.own.realClOrdTokenLen
    let (r, b, own) := b.buildReplaceOrder o.order o.own
    .ok (43, r.patches, b, own)
  | 2 => .ok (14, (b.buildCancelOrder o.order).patches, b, o.own)
  | 3 => .ok (15, (b.buildModifyOrder o.order).patches, b, o.own)
  | 4 => .ok (6, buildAccountQueryRequest, b, o.own)
  | _ => .error .outOfBounds

/-- `Builder_OUCH_NASDAQ::build`. -/
def OuchBuilder.build (b : OuchBuilder) (o : OuchSlot) :
    Except Fault (OuchBuilder × OwnFields × List UInt8) := do
  let (len, ps, refNums, own) ← request b.refNums o
  let (r, msg) ← storeMessage b.messages len ps
  .ok ({ refNums := refNums, messages := r }, own, msg)

end Nasdaq

end TradingEngine
