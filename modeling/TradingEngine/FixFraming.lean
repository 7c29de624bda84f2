/-
Finding FIX messages in received packets: `Parser_FIX::nextFixMsg` and the loop
around it in `Parser_Dispatch::parseFIX`.

A call looks at the packet from `data_offset` on.  With no partial message
pending it scans for the body length; a whole message is returned, an
incomplete one is copied into `partial_fix_msg_` and the packet is consumed.
With a partial message pending, the missing bytes are copied from the head of
the packet, and when the body length itself is still missing, the header is
resumed in the state the last packet left it in.

`size_t` quantities that are computed from the digits of a message wrap modulo
`2 ^ 64`; positions inside a packet do not.  A read past the packet's buffer and
a copy past the 1024 bytes of the partial buffer are faults.

The loop counts its rounds: every round but the last moves the offset on, so
one more than the packet has bytes is enough for the runs below.
-/
import TradingEngine.NetworkPackets

namespace TradingEngine

/-- `PartialFIXBuffer::DATA_SIZE`. -/
abbrev partialFixSize : ℕ := 1024

/-- `enum class BodyLenState`. -/
inductive BodyLenState
  | expectSoh
  | expect9
  | expectEq
  | readValue
  | done
  | none
  deriving DecidableEq, Repr

/-- `struct PartialFIXBuffer`. -/
structure PartialFIXBuffer where
  data : Vector UInt8 partialFixSize := Vector.replicate partialFixSize 0
  existingLen : ℕ := 0
  remainingLen : ℕ := 0
  bodyLen : ℕ := 0
  active : Bool := false
  bodylenState : BodyLenState := .none

/-! ### Characters and numbers -/

/-- `'\x01'`. -/
def soh : UInt8 := 0x01

/-- `'9'`. -/
def nine : UInt8 := 0x39

/-- `'='`. -/
def equals : UInt8 := 0x3D

/-- `c >= '0' && c <= '9'`. -/
def isDigit (c : UInt8) : Bool := 0x30 ≤ c && c ≤ 0x39

/-- The value of an exact computation in `size_t`. -/
def sizeT (n : ℤ) : ℕ := (n % 2 ^ 64).toNat

/-- `n * 10 + (c - '0')` in `size_t`, for a signed `char`. -/
def appendDigit (n : ℕ) (c : UInt8) : ℕ := sizeT (n * 10 + (c.toInt8.toInt - 0x30))

/-! ### The body length -/

/-- `while (pos < pkt->len && digit) ...`: the body length, what is saved of it in
the partial buffer when the packet ends here, the position and the bytes left. -/
def readDigits : ℕ → ℕ → ℕ → List UInt8 → ℕ × ℕ × ℕ × List UInt8
  | bodyLen, saved, pos, [] => (bodyLen, saved, pos, [])
  | bodyLen, saved, pos, c :: rest =>
    if isDigit c then
      let bodyLen' := appendDigit bodyLen c
      readDigits bodyLen' (if rest = [] then bodyLen' else saved) (pos + 1) rest
    else (bodyLen, saved, pos, c :: rest)

/-- The variables of the scan for the body length. -/
structure BodyLenScan where
  state : BodyLenState
  bodyLen : ℕ
  saved : ℕ
  bodyLenEnd : ℕ
  deriving DecidableEq, Repr

/-- The `for` loop over the bytes of the packet from position `pos` on. -/
def scanBodyLen : ℕ → List UInt8 → BodyLenScan → BodyLenScan
  | _, [], s => s
  | pos, c :: rest, s =>
    if c = soh then scanBodyLen (pos + 1) rest { s with state := .expect9 }
    else if c = nine then scanBodyLen (pos + 1) rest { s with state := .expectEq }
    else if c = equals then
      let (bodyLen, saved, pos', left) := readDigits s.bodyLen s.saved (pos + 1) rest
      let s' := { s with state := .readValue, bodyLen := bodyLen, saved := saved }
      if left.head? = some soh then { s' with state := .done, bodyLenEnd := pos' + 1 }
      else scanBodyLen (pos + 1) rest s'
    else if s.state = .done then s
    else scanBodyLen (pos + 1) rest s

/-! ### `nextFixMsg` -/

/-- What a call of `nextFixMsg` works on. -/
structure FixCursor where
  buf : PartialFIXBuffer
  pkt : RxPacket
  offset : ℕ

/-- The result of `nextFixMsg`: the bytes of a message, or a null pointer. -/
abbrev FixResult := Except Fault (Option (List UInt8) × FixCursor)

namespace FixCursor

/-- The bytes of the packet from the offset on. -/
def rest (c : FixCursor) : List UInt8 := c.pkt.received.drop c.offset

/-- `while (pos < pkt->len && pkt->data[pos] != b) ++pos`. -/
def seek (c : FixCursor) (b : UInt8) (pos : ℕ) : ℕ :=
  pos + ((c.pkt.received.drop pos).takeWhile (· ≠ b)).length

/-- Where the resumed header is read on, by the state it was left in. -/
def resumePos (c : FixCursor) : ℕ :=
  match c.buf.bodylenState with
  | .expectSoh => c.seek soh c.offset + 3
  | .expect9 => c.seek nine c.offset + 2
  | .expectEq => c.seek equals c.offset + 1
  | _ => c.offset

/-- The characters that are added to the body length at `pos`. -/
def resumeValue (c : FixCursor) (pos : ℕ) : List UInt8 :=
  if (c.pkt.received[pos]?).any isDigit then
    (c.pkt.received.drop pos).takeWhile (· ≠ soh)
  else []

/-- The state of the resumed header once it has been read up to `pos`.  Where the
packet ends first, the source looks at the byte behind it. -/
def resumedState (c : FixCursor) (pos : ℕ) : Except Fault BodyLenState :=
  if c.pkt.len ≤ pos then
    match c.pkt.data.toList[pos]? with
    | none => .error .outOfBounds
    | some b => .ok (if b = soh then .done else .readValue)
  else .ok c.buf.bodylenState

/-- The copying half of the partial handler. -/
def copyPartial (c : FixCursor) : FixResult := do
  let copyLen := min c.buf.remainingLen c.pkt.len
  let src ← slice c.pkt.data c.offset copyLen
  let data ← writeAt c.buf.data c.buf.existingLen src
  let existingLen := c.buf.existingLen + copyLen
  let remainingLen := c.buf.remainingLen - copyLen
  let pkt := { c.pkt with consumed := ¬ copyLen < c.pkt.len }
  let offset := if copyLen < c.pkt.len then c.offset + copyLen else c.offset
  if remainingLen = 0 then
    .ok (some (data.toList.take existingLen),
      { buf :=
          { data := data
            existingLen := 0
            remainingLen := 0
            bodyLen := 0
            active := false
            bodylenState := .none }
        pkt := pkt
        offset := offset })
  else
    .ok (none,
      { buf :=
          { c.buf with data := data, existingLen := existingLen, remainingLen := remainingLen }
        pkt := pkt
        offset := offset })

/-- The partial handler: the header is resumed if the body length is not known
yet, then the missing bytes are copied. -/
def continuePartial (c : FixCursor) : FixResult :=
  if c.buf.remainingLen = 0 ∧ c.buf.bodylenState ≠ .done then do
    let value := c.resumeValue c.resumePos
    let pos := c.resumePos + value.length
    let bodyLen := value.foldl appendDigit c.buf.bodyLen
    let state ← c.resumedState pos
    if state = .done then
      copyPartial
        { c with
          buf :=
            { c.buf with
              bodyLen := bodyLen
              bodylenState := .done
              remainingLen := sizeT (pos + 1 + bodyLen + 7) } }
    else do
      let src ← slice c.pkt.data c.offset (pos - c.offset)
      let data ← writeAt c.buf.data c.buf.existingLen src
      .ok (none,
        { c with
          buf := { c.buf with data := data, bodyLen := bodyLen, bodylenState := .readValue }
          pkt := { c.pkt with consumed := true } })
  else c.copyPartial

/-- The scan for a message that begins at the offset. -/
def frameMsg (c : FixCursor) : FixResult := do
  let s := scanBodyLen c.offset c.rest
    { state := c.buf.bodylenState, bodyLen := 0, saved := c.buf.bodyLen, bodyLenEnd := 0 }
  let buf := { c.buf with bodylenState := s.state, bodyLen := s.saved }
  let existingLen := c.pkt.len - c.offset
  -- the header is not complete: the bytes are kept
  if s.bodyLenEnd = 0 then do
    let src ← slice c.pkt.data c.offset existingLen
    let data ← writeAt buf.data 0 src
    .ok (none,
      { buf :=
          { buf with
            data := data
            existingLen := existingLen
            active := true
            bodylenState := if s.bodyLen = 0 then .expectSoh else s.state }
        pkt := { c.pkt with consumed := true }
        offset := c.offset })
  else
    let msgLen := sizeT (s.bodyLenEnd + s.bodyLen + 7 - c.offset)
    -- the message goes on in the next packet
    if existingLen < msgLen then do
      let src ← slice c.pkt.data c.offset existingLen
      let data ← writeAt buf.data 0 src
      .ok (none,
        { buf :=
            { buf with
              data := data
              existingLen := existingLen
              remainingLen := msgLen - existingLen
              active := true
              bodylenState := .done }
          pkt := { c.pkt with consumed := true }
          offset := c.offset + existingLen })
    else if msgLen < existingLen then do
      -- another message follows: this one is returned out of `data`
      let src ← slice c.pkt.data c.offset msgLen
      let data ← writeAt buf.data 0 src
      .ok (some src,
        { buf :=
            { data := data
              existingLen := existingLen - msgLen
              remainingLen := 0
              bodyLen := 0
              active := false
              bodylenState := .none }
          pkt := { c.pkt with consumed := false }
          offset := c.offset + msgLen })
    else do
      let src ← slice c.pkt.data c.offset msgLen
      .ok (some src,
        { buf := { buf with active := false, bodyLen := 0, bodylenState := .none }
          pkt := { c.pkt with consumed := true }
          offset := c.offset })

/-- `Parser_FIX::nextFixMsg`. -/
def nextFixMsg (c : FixCursor) : FixResult :=
  if c.pkt.len ≤ c.offset then .ok (none, c)
  else if c.buf.active = true ∧ c.pkt.consumed = false then c.continuePartial
  else c.frameMsg

end FixCursor

/-! ### The loop of `parseFIX` -/

/-- The messages the loop hands out from a cursor on, and the partial buffer it
leaves. -/
def fixLoop : ℕ → FixCursor → Except Fault (List (List UInt8) × PartialFIXBuffer)
  | 0, _ => .error .nonTermination
  | fuel + 1, c => do
    let (msg, c') ← c.nextFixMsg
    if c'.pkt.consumed = false then do
      let (msgs, buf) ← fixLoop fuel c'
      .ok (msg.toList ++ msgs, buf)
    else .ok (msg.toList, c'.buf)

/-- `Parser_Dispatch::parseFIX`, as far as finding the messages goes. -/
def parseFIX (buf : PartialFIXBuffer) (pkt : RxPacket) :
    Except Fault (List (List UInt8) × PartialFIXBuffer) :=
  fixLoop (pkt.len + 1) { buf := buf, pkt := pkt, offset := 0 }

/-- The packets of a session, one after the other. -/
def parsePackets : PartialFIXBuffer → List RxPacket →
    Except Fault (List (List UInt8) × PartialFIXBuffer)
  | buf, [] => .ok ([], buf)
  | buf, pkt :: pkts => do
    let (msgs, buf') ← parseFIX buf pkt
    let (more, buf'') ← parsePackets buf' pkts
    .ok (msgs ++ more, buf'')

end TradingEngine
