/-
Answering a session message: `Builder_Dispatch::buildFIX_ses_out` with
`Builder_FIX::build_resend`.

A resend takes the history entry of each requested sequence number, finds four of
its fields with `findValue`, writes a new header and copies the bytes at
`hotdata_start` behind it.  `findValue` reads the message 32 bytes at a time with
AVX2 and the rest byte by byte.  Offsets into a chunk stand for the bits of the
comparison masks; the mask of the bits behind `=` is shifted by the offset plus
one, and the processor takes the shift modulo 32, so behind the last byte of a
chunk it keeps every bit.

The loop counter is a `uint32_t`.  `get_buffer` does not check its argument: an
index outside of the history is a fault, as are null pointers and copies that
leave a buffer.  What follows a message in its entry is zero.

The network thread takes packets off `builder_to_sender_` while the loop runs:
`drain n` of them before the packet of sequence number `n` is pushed.  A packet in
the queue is what it held when it was pushed, and a full queue refuses a packet.
The release of the session message is left to `SessionPool`.
-/
import TradingEngine.FixFields
import TradingEngine.TxPool

namespace TradingEngine

open FallibleRun

/-! ### `findValue` -/

/-- A pointer into a message and the length that goes with it; `none` is the null
pointer. -/
abbrev TextRef := Option (ℕ × ℕ)

/-- The loop `while (q < len && data[q] != c) ++q`. -/
def scanTo (c : UInt8) (data : List UInt8) (len q : ℕ) : ℕ :=
  q + (((data.take len).drop q).takeWhile (· ≠ c)).length

/-- The set bits of `_mm256_movemask_epi8(_mm256_cmpeq_epi8(chunk, c))`, the lowest first. -/
def offsetsOf (c : UInt8) (chunk : List UInt8) : List ℕ :=
  (List.range 32).filter fun k => chunk[k]? = some c

/-- `soh_pos` for the `=` at the offset `eq` of the chunk at `pos`. -/
def sohBehind (data : List UInt8) (len pos : ℕ) (sohs : List ℕ) (eq : ℕ) : ℕ :=
  match if eq = 31 then sohs else sohs.filter (eq < ·) with
  | k :: _ => pos + k
  | [] => scanTo soh data len (pos + eq + 1)

/-- `tag_len == wantTag.size() && memcmp(...) == 0`; `tag_len` wraps around when the tag
would start behind `=`. -/
def isTagAt (data wantTag : List UInt8) (tagStart eqPos : ℕ) : Bool :=
  tagStart ≤ eqPos && (data.drop tagStart).take (eqPos - tagStart) == wantTag

/-- The value between `=` and `soh_pos`; its length is a `size_t`. -/
def valueRef (eqPos sohPos : ℕ) : ℕ × ℕ :=
  (eqPos + 1, (sohPos + 2 ^ 64 - (eqPos + 1)) % 2 ^ 64)

/-- The loop `while (eq_bits != 0)`: the value, or `tag_start` at its end. -/
def scanChunk (data : List UInt8) (len : ℕ) (wantTag : List UInt8) (pos : ℕ) (sohs : List ℕ) :
    List ℕ → ℕ → (ℕ × ℕ) ⊕ ℕ
  | [], tagStart => .inr tagStart
  | eq :: eqs, tagStart =>
    let sohPos := sohBehind data len pos sohs eq
    if isTagAt data wantTag tagStart (pos + eq) then .inl (valueRef (pos + eq) sohPos)
    else scanChunk data len wantTag pos sohs eqs (sohPos + 1)

/-- The loop `while (pos + 32 <= len)`, over the positions of the chunks. -/
def scanChunks (data : List UInt8) (len : ℕ) (wantTag : List UInt8) :
    List ℕ → ℕ → (ℕ × ℕ) ⊕ ℕ
  | [], tagStart => .inr tagStart
  | pos :: rest, tagStart =>
    let chunk := (data.drop pos).take 32
    match scanChunk data len wantTag pos (offsetsOf soh chunk) (offsetsOf equals chunk)
        tagStart with
    | .inl val => .inl val
    | .inr tagStart => scanChunks data len wantTag rest tagStart

/-- The loop `while (pos < len)`. -/
def scanRest (data : List UInt8) (len : ℕ) (wantTag : List UInt8) (pos tagStart : ℕ) : TextRef :=
  if pos < len then
    let eqPos := scanTo equals data len pos
    if len ≤ eqPos then none
    else
      let sohPos := scanTo soh data len (eqPos + 1)
      if isTagAt data wantTag tagStart eqPos then some (valueRef eqPos sohPos)
      else scanRest data len wantTag (sohPos + 1) (sohPos + 1)
  else none
termination_by len - pos
decreasing_by
  have hpos : pos ≤ scanTo equals data len pos := Nat.le_add_right _ _
  have hsoh : scanTo equals data len pos + 1 ≤
    scanTo soh data len (scanTo equals data len pos + 1) := Nat.le_add_right _ _
  omega

/-- `findValue`. -/
def findValue (data : List UInt8) (len : ℕ) (wantTag : List UInt8) : TextRef :=
  match scanChunks data len wantTag ((List.range (len / 32)).map (32 * ·)) 0 with
  | .inl val => some val
  | .inr tagStart => scanRest data len wantTag (32 * (len / 32)) tagStart

/-! ### `build_resend` -/

/-- `strnum_to_int`. -/
def strnumToInt (strnum : List UInt8) : Int32 :=
  strnum.foldl (fun result c => result * 10 + (c.toUInt32.toInt32 - 0x30)) 0

namespace BufferFIX

/-- The bytes of `data`. -/
def array (m : BufferFIX) : List UInt8 := charArray maxMsgSize m.data

/-- The value of a field of the message. -/
def value (m : BufferFIX) (wantTag : List Char) : TextRef :=
  findValue m.array m.len.toNat (ascii wantTag)

/-- `memcpy` from a pointer into the message. -/
def copyRef (m : BufferFIX) (val : TextRef) (vallen : ℕ) : Except Fault (List UInt8) :=
  match val with
  | none => if vallen = 0 then .ok [] else .error .nullDereference
  | some (pos, _) => copyBytes (m.array.drop pos) vallen

/-- `strnum_to_int(body_len_str)`.  The pointer becomes a string that ends with the next
NUL, not with the field. -/
def bodyLenInt (m : BufferFIX) : Except Fault Int32 :=
  match m.value ['9'] with
  | none => .error .nullDereference
  | some (pos, _) =>
    if 0 ∈ m.array.drop pos then .ok (strnumToInt (cString (m.array.drop pos)))
    else .error .outOfBounds

end BufferFIX

/-- The length behind a pointer. -/
def TextRef.len : TextRef → ℕ
  | none => 0
  | some (_, n) => n

/-- `addTag` for a value that is copied from the message. -/
def addTagRef (m : BufferFIX) (tag : List Char) (taglen : ℕ) (val : TextRef) (vallen : ℕ) :
    Except Fault (List UInt8) := do
  let v ← m.copyRef val vallen
  addTag tag taglen v vallen

namespace BuilderFIX

/-- `body_len` in the header of a resend, as it is printed. -/
def resendLen (orgLen : Int32) (tsLen : ℕ) : UInt32 := orgLen.toUInt32 + UInt32.ofNat (10 + tsLen)

/-- `buildHeader` for a message that is sent again. -/
def buildHeaderFrom (b : BuilderFIX) (org : BufferFIX) (now : ℕ) : Except Fault (List UInt8) := do
  let seq := org.value ['3', '4']
  let sendTime := org.value ['5', '2']
  let ts := b.day.transactTime now
  let orgLen ← org.bodyLenInt
  writeFields [
    addTag ['8', '='] 2 (ascii ['F', 'I', 'X', '.', '5', '.', '0', ' ']) 7,
    addTagInt ['9', '='] 2 (resendLen orgLen ts.length),
    addTagRef org ['3', '5', '='] 3 (org.value ['3', '5']) 1,
    addTag ['4', '9', '='] 3 b.auth.myId b.auth.myId.length,
    addTag ['5', '6', '='] 3 b.auth.venueId b.auth.venueId.length,
    addTagRef org ['3', '4', '='] 3 seq seq.len,
    addTag ['4', '3', '='] 3 (ascii ['Y']) 1,
    addTagRef org ['1', '2', '2', '='] 4 sendTime sendTime.len,
    addTag ['5', '2', '='] 3 ts ts.length]

/-- The bytes that `build_resend` writes into a temporary buffer. -/
def resendText (b : BuilderFIX) (org : BufferFIX) (now : ℕ) : Except Fault (List UInt8) := do
  let header ← b.buildHeaderFrom org now
  let hotdata ← copyBytes (org.array.drop org.hotdataStart) org.hotdataLen.toNat
  let text := header ++ hotdata
  let data := text ++ finalizeChecksum text
  if maxMsgSize < data.length then .error .outOfBounds else .ok data

end BuilderFIX

/-- `TEMP_BUFFER_SIZE`. -/
abbrev tempBufferSize : ℕ := 64

/-! ### `buildFIX_ses_out` -/

/-- What `buildFIX_ses_out` works on: the builder with its temporary buffers, the packets,
the queue to the sender and the login of the session.  `taken` are the packets that the
network thread has taken off the queue, `reads` the history entries read so far. -/
structure OutboundFIX where
  builder : BuilderFIX
  tempBufs : RingPool BufferFIX tempBufferSize := ⟨fun _ => {}, 0⟩
  pool : PacketPool := fun _ => {}
  nextTxPkt : ℕ := 0
  builderToSender : BoundedQueue TxPacket packetQueueCapacity := .empty
  taken : List TxPacket := []
  reads : List ℕ := []
  isConnected : Bool := true
  isLoggedIn : Bool := true
  loggedBefore : Bool := false
  loginRetryCount : ℕ := 0

namespace OutboundFIX

/-- The packets that went through the queue or are still in it. -/
def handed (s : OutboundFIX) : List TxPacket := s.taken ++ s.builderToSender.items

/-- `LoginDecider`; the wait for the next attempt is left out. -/
def loginDecider (s : OutboundFIX) : LoginDecision :=
  if !s.isConnected then .disconnect
  else if s.isLoggedIn then .alreadyLoggedIn
  else if allowedLoginAttempt ≤ s.loginRetryCount then .disconnect
  else .tryAgain

/-- The network thread takes `n` packets. -/
def drained (s : OutboundFIX) (n : ℕ) : OutboundFIX :=
  { s with
    taken := s.taken ++ s.builderToSender.items.take n
    builderToSender := s.builderToSender.drop n }

/-- `get_txPkt`, `fillPacket` and `push` for the bytes of a message. -/
def sendBytes (s : OutboundFIX) (bytes : List UInt8) (sessionIndex : UInt8) (loginMsg : Bool) :
    Except Fault OutboundFIX := do
  let slot := poolSlot s.nextTxPkt
  let pkt ← (s.pool slot).fillPacket bytes sessionIndex loginMsg
  .ok { s with
    pool := Function.update s.pool slot pkt
    nextTxPkt := s.nextTxPkt + 1
    builderToSender := s.builderToSender.push pkt }

/-- `build_resend` of the history entry `i`, with the clock at `now`: the bytes and the
state with the temporary buffer filled. -/
def buildResend (s : OutboundFIX) (i now : ℕ) : Except Fault (List UInt8 × OutboundFIX) := do
  let data ← s.builder.resendText (s.builder.sent.messages i) now
  let temp := { s.tempBufs.slots s.tempBufs.slot with
    data := data, len := UInt16.ofNat (data.length - 7) + 7 }
  .ok (data.take temp.len.toNat, { s with
    tempBufs := s.tempBufs.put temp
    reads := s.reads ++ [i] })

/-- One round of the resend loop, for an index inside of the history. -/
def resendOne (now drain : ℕ → ℕ) (sessionIndex : UInt8) (s : OutboundFIX) (i : ℕ) :
    Except Fault OutboundFIX := do
  let (bytes, s) ← s.buildResend i (now i)
  (s.drained (drain i)).sendBytes bytes sessionIndex false

/-- The loop `for (auto i = begin; i <= end; i++)`. -/
def resendLoop (now drain : ℕ → ℕ) (sessionIndex : UInt8) (i e : UInt32) (s : OutboundFIX) :
    Except Fault OutboundFIX :=
  if i ≤ e then
    if i.toNat < dailyFixMsgCount then do
      let s ← s.resendOne now drain sessionIndex i.toNat
      resendLoop now drain sessionIndex (i + 1) e s
    else .error .outOfBounds
  else .ok s
termination_by dailyFixMsgCount - i.toNat
decreasing_by
  have hcount : dailyFixMsgCount = 1300000 := rfl
  have hnext : (i + 1).toNat = i.toNat + 1 := by
    rw [UInt32.toNat_add]
    exact Nat.mod_eq_of_lt (by
      have hone : (1 : UInt32).toNat = 1 := rfl
      omega)
  omega

/-- `build<T>` and the three lines behind the `switch`. -/
def sendBuilt (now drain : ℕ → ℕ) (sessionIndex : UInt8) (s : OutboundFIX) (r : FIXRequest)
    (loginMsg : Bool) : Except Fault OutboundFIX := do
  let seq := s.builder.sent.myNextSeqnum.toNat
  let (buffer, builder) ← s.builder.build r (now seq)
  ({ s with builder := builder }.drained (drain seq)).sendBytes
    (buffer.data.take buffer.len.toNat) sessionIndex loginMsg

/-- `buildFIX_ses_out`. -/
def buildFIXSesOut (now drain : ℕ → ℕ) (s : OutboundFIX) (fixSesMsg : FIXSessionMessage)
    (sessionIndex : UInt8) : Except Fault OutboundFIX :=
  if fixSesMsg.msgType = FIXTypes.testRequest.code then
    s.sendBuilt now drain sessionIndex .heartbeat false
  else if fixSesMsg.msgType = FIXTypes.resendRequest.code then
    s.resendLoop now drain sessionIndex fixSesMsg.beginSeqnum fixSesMsg.endSeqnum
  else if fixSesMsg.msgType = FIXTypes.reject.code then
    s.sendBuilt now drain sessionIndex .logout false
  else if fixSesMsg.msgType = FIXTypes.logout.code then
    match s.loginDecider with
    | .tryAgain => do
      let s ← s.sendBuilt now drain sessionIndex (.logon (!s.loggedBefore)) true
      .ok { s with loginRetryCount := s.loginRetryCount + 1 }
    | _ => .ok s
  else .ok s

end OutboundFIX

end TradingEngine
