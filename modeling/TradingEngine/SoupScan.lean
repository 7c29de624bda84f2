/-
SoupBinTCP packets in a received segment.

A `SoupFrame` is a packet of the stream: two length bytes, a type and a payload.
`restOf rx offset` is what a segment still holds from `offset` on, and
`RxPacket.messages` are the messages the OUCH parser finds through the offsets.

* `fillPending_completes` — a pending packet that holds the first bytes of a frame
  becomes that frame when the segment brings the others;
* `sbtScan_sequenced`, `sbtScan_other`, `sbtScan_fragment` — what the loop over the
  segment does when the segment holds sequenced packets only, when it begins with
  another packet, and when it holds the beginning of one packet only.
-/
import TradingEngine.NetworkReceive
import TradingEngine.FallibleRun
import TradingEngine.StreamFraming

namespace TradingEngine

open FallibleRun StreamFraming

/-! ### Frames -/

/-- The packets a stream can hold. -/
inductive SoupKind
  | sequenced
  | heartbeat
  | unsequenced
  | debug
  deriving DecidableEq, Repr

/-- The type byte: `S`, `H`, `U` or `+`. -/
def SoupKind.code : SoupKind → UInt8
  | .sequenced => 0x53
  | .heartbeat => 0x48
  | .unsequenced => 0x55
  | .debug => 0x2B

/-- A packet of the stream, of at most 2048 bytes. -/
structure SoupFrame where
  kind : SoupKind
  payload : List UInt8
  fits : payload.length + 3 ≤ packetSize

namespace SoupFrame

variable (f : SoupFrame)

/-- The high byte of the length. -/
def hi : UInt8 := UInt8.ofNat ((f.payload.length + 1) / 256)

/-- The low byte of the length. -/
def lo : UInt8 := UInt8.ofNat ((f.payload.length + 1) % 256)

def bytes : List UInt8 := f.hi :: f.lo :: f.kind.code :: f.payload

@[simp] theorem length_bytes : f.bytes.length = f.payload.length + 3 := by
  simp [bytes]

theorem length_bytes_le : f.bytes.length ≤ packetSize := by
  rw [length_bytes]
  exact f.fits

theorem length_bytes_pos : 0 < f.bytes.length := by
  rw [length_bytes]
  omega

theorem toNat_hi : f.hi.toNat = (f.payload.length + 1) / 256 := by
  have h : f.payload.length + 3 ≤ 2048 := f.fits
  rw [hi, UInt8.toNat_ofNat']
  omega

theorem toNat_lo : f.lo.toNat = (f.payload.length + 1) % 256 := by
  rw [lo, UInt8.toNat_ofNat']
  omega

/-- The length bytes say how long the packet is. -/
theorem readU16be_length : readU16be f.hi f.lo + 2 = f.bytes.length := by
  have h₁ := f.toNat_hi
  have h₂ := f.toNat_lo
  rw [readU16be, length_bytes]
  omega

end SoupFrame

/-- The sequenced packets among the frames. -/
def sequenced (frames : List SoupFrame) : List (List UInt8) :=
  (frames.filter fun f => f.kind = .sequenced).map SoupFrame.bytes

theorem sequenced_append (fs gs : List SoupFrame) :
    sequenced (fs ++ gs) = sequenced fs ++ sequenced gs := by
  simp [sequenced]

theorem sequenced_cons_of_eq {f : SoupFrame} (h : f.kind = .sequenced) (fs : List SoupFrame) :
    sequenced (f :: fs) = f.bytes :: sequenced fs := by
  simp [sequenced, h]

theorem sequenced_eq_nil {fs : List SoupFrame} (h : ∀ f ∈ fs, f.kind ≠ .sequenced) :
    sequenced fs = [] := by
  rw [sequenced, List.filter_eq_nil_iff.mpr (by simpa using h)]
  rfl

/-! ### Messages of a packet -/

namespace RxPacket

variable {pkt : RxPacket}

/-- The message that begins at `start`. -/
def message (pkt : RxPacket) (start : ℕ) : List UInt8 :=
  match pkt.data.toList[start]?, pkt.data.toList[start + 1]? with
  | some hi, some lo => (pkt.data.toList.drop start).take (readU16be hi lo + 2)
  | _, _ => []

/-- The messages the OUCH parser reads off a packet. -/
def messages (pkt : RxPacket) : List (List UInt8) :=
  (pkt.offsets.toList.take pkt.msgCount.toNat).map pkt.message

theorem messages_of_msgCount (h : pkt.msgCount = 0) : pkt.messages = [] := by
  simp [messages, h]

/-- A frame in the buffer is a message. -/
theorem message_of_prefix {f : SoupFrame} {start : ℕ}
    (h : f.bytes <+: pkt.data.toList.drop start) : pkt.message start = f.bytes := by
  obtain ⟨more, hmore⟩ := h
  have hget : ∀ i, pkt.data.toList[start + i]? = (f.bytes ++ more)[i]? := by
    intro i
    rw [hmore, List.getElem?_drop]
  have hhi := hget 0
  have hlo := hget 1
  rw [Nat.add_zero] at hhi
  rw [message, hhi, hlo]
  show (pkt.data.toList.drop start).take (readU16be f.hi f.lo + 2) = f.bytes
  rw [f.readU16be_length, ← hmore, List.take_left]

theorem messages_of_one (hcount : pkt.msgCount = 1) {start : ℕ} (h : pkt.offsets[0] = start) :
    pkt.messages = [pkt.message start] := by
  have htake : pkt.offsets.toList.take 1 = [pkt.offsets[0]] := by
    rw [List.take_one, List.head?_eq_getElem?, Vector.getElem?_toList, Vector.getElem?_eq_getElem]
    rfl
  rw [messages, hcount]
  show (pkt.offsets.toList.take 1).map pkt.message = _
  rw [htake, h, List.map_singleton]

/-- Recording an offset adds the message that begins there. -/
theorem messages_record {start : ℕ} (h : pkt.msgCount.toNat < maxAppMsg) :
    { pkt with
      offsets := pkt.offsets.set pkt.msgCount.toNat start h
      msgCount := pkt.msgCount + 1 : RxPacket }.messages = pkt.messages ++ [pkt.message start] := by
  have hcount : (pkt.msgCount + 1).toNat = pkt.msgCount.toNat + 1 := by
    have hmax : pkt.msgCount.toNat < 32 := h
    rw [UInt8.toNat_add]
    show (pkt.msgCount.toNat + 1) % 2 ^ 8 = _
    omega
  show ((pkt.offsets.set pkt.msgCount.toNat start h).toList.take (pkt.msgCount + 1).toNat).map
    pkt.message = _
  have hlt : pkt.msgCount.toNat < (pkt.offsets.toList.set pkt.msgCount.toNat start).length := by
    simpa using h
  rw [hcount, Vector.toList_set, List.take_succ_eq_append_getElem hlt, List.map_append,
    List.take_set_of_le (le_refl _), List.map_singleton, List.getElem_set_self]
  rfl

end RxPacket

/-! ### Lengths in signed bytes -/

/-- A byte below `0x80` keeps its value. -/
theorem signExtend_of_lt {b : UInt8} (h : b.toNat < 0x80) : signExtend b = b.toNat := by
  have hint : b.toInt8.toInt = Int.bmod b.toNat (2 ^ 8) := BitVec.toInt_eq_toNat_bmod _
  have hsmall : Int.bmod b.toNat (2 ^ 8) = b.toNat := by
    rw [Int.bmod_eq_of_le] <;> omega
  have hwide : b.toInt8.toInt32.toInt = b.toNat := by
    rw [Int8.toInt_toInt32, hint, hsmall]
  have hcast : b.toInt8.toInt32.toInt =
      Int.bmod b.toInt8.toInt32.toUInt32.toNat (2 ^ 32) := BitVec.toInt_eq_toNat_bmod _
  have hmod : Int.bmod b.toInt8.toInt32.toUInt32.toNat (2 ^ 32) % 2 ^ 32 =
      b.toInt8.toInt32.toUInt32.toNat % 2 ^ 32 := Int.bmod_emod
  have hlt := b.toInt8.toInt32.toUInt32.toNat_lt
  rw [hwide] at hcast
  rw [← hcast] at hmod
  rw [signExtend]
  omega

theorem toInt_ofInt_of_le {n : ℤ} (h₀ : 0 ≤ n) (h : n ≤ packetSize) :
    (Int16.ofInt n).toInt = n ∧ ((Int16.ofInt n).toUInt16.toNat : ℤ) = n := by
  have hn : n ≤ 2048 := h
  have hint : (Int16.ofInt n).toInt = Int.bmod n (2 ^ 16) := Int16.toInt_ofInt
  have hsmall : Int.bmod n (2 ^ 16) = n := by
    rw [Int.bmod_eq_of_le] <;> omega
  have hcast : (Int16.ofInt n).toInt = Int.bmod (Int16.ofInt n).toUInt16.toNat (2 ^ 16) :=
    BitVec.toInt_eq_toNat_bmod _
  have hmod : Int.bmod (Int16.ofInt n).toUInt16.toNat (2 ^ 16) % 2 ^ 16 =
      (Int16.ofInt n).toUInt16.toNat % 2 ^ 16 := Int.bmod_emod
  have hlt := (Int16.ofInt n).toUInt16.toNat_lt
  rw [hint, hsmall] at hcast
  rw [← hcast] at hmod
  exact ⟨hint.trans hsmall, by omega⟩

namespace SoupFrame

variable (f : SoupFrame)

theorem toNat_hi_lt : f.hi.toNat < 0x80 := by
  have h : f.payload.length + 3 ≤ 2048 := f.fits
  rw [toNat_hi]
  omega

theorem charToU16_hi : charToU16 f.hi = f.hi.toNat := by
  have h := f.toNat_hi_lt
  rw [charToU16, signExtend_of_lt h]
  omega

/-- The two bytes joined give the length when the low one is below `0x80`. -/
theorem joinLen_eq (h : f.lo.toNat < 0x80) : joinLen f.hi.toNat f.lo = f.bytes.length := by
  have hlen := f.readU16be_length
  have hfits : f.bytes.length ≤ 2048 := f.length_bytes_le
  rw [readU16be] at hlen
  rw [joinLen, signExtend_of_lt h, ← Nat.shiftLeft_add_eq_or_of_lt (by omega), Nat.shiftLeft_eq]
  omega

end SoupFrame

/-! ### The pending packet -/

/-- The packet holds the first `k` bytes of the frame. -/
structure Part (pkt : RxPacket) (f : SoupFrame) (k : ℕ) : Prop where
  isPartial : pkt.isPartial = true
  held : pkt.data.toList.take k = f.bytes.take k
  one : k = 1 → pkt.isLenReceived = false ∧ pkt.len = f.hi.toNat
  more : k ≠ 1 → pkt.isLenReceived = true ∧ pkt.len = f.bytes.length ∧
    pkt.lastPktRemainingLen = Int16.ofInt (f.bytes.length - k)

/-- From `offset` on the segment holds the bytes `l`. -/
structure Holding (pkt : RxPacket) (offset : ℕ) (l : List UInt8) : Prop where
  fits : pkt.len ≤ packetSize
  inside : offset ≤ pkt.len
  rest : pkt.received.drop offset = l

namespace Holding

variable {pkt : RxPacket} {offset : ℕ} {l l' : List UInt8}

theorem length_eq (h : Holding pkt offset l) : l.length = pkt.len - offset := by
  have hlen : pkt.received.length = pkt.len := by
    have := h.fits
    rw [RxPacket.received, List.length_take, Vector.length_toList]
    omega
  rw [← h.rest, List.length_drop, hlen]

theorem isPrefix (h : Holding pkt offset l) : l <+: pkt.data.toList.drop offset := by
  rw [← h.rest, RxPacket.received, List.drop_take]
  exact List.take_prefix _ _

theorem getElem? (h : Holding pkt offset l) {i : ℕ} (hi : i < l.length) :
    pkt.data.toList[offset + i]? = l[i]? := by
  obtain ⟨more, hmore⟩ := h.isPrefix
  rw [← List.getElem?_drop, ← hmore, List.getElem?_append_left hi]

theorem slice_eq (h : Holding pkt offset (l ++ l')) : slice pkt.data offset l.length = .ok l := by
  have hlen := h.length_eq
  have hfits := h.fits
  have hin := h.inside
  rw [List.length_append] at hlen
  obtain ⟨more, hmore⟩ := h.isPrefix
  rw [slice_of_le _ (by omega), ← hmore, List.append_assoc, List.take_left]

/-- What stands behind the offset can be copied as a whole. -/
theorem slice_rest (h : Holding pkt offset l) :
    slice pkt.data offset (pkt.len - offset) = .ok l := by
  have hall : Holding pkt offset (l ++ []) := (List.append_nil l).symm ▸ h
  rw [← h.length_eq]
  exact hall.slice_eq

/-- The bytes behind the first of them. -/
theorem advance (h : Holding pkt offset (l ++ l')) : Holding pkt (offset + l.length) l' := by
  have hlen := h.length_eq
  have hin := h.inside
  rw [List.length_append] at hlen
  refine ⟨h.fits, by omega, ?_⟩
  rw [← List.drop_drop, h.rest, List.drop_left]

end Holding

section fill

variable {f : SoupFrame} {k : ℕ} {e rx : RxEntry} {more : List UInt8}

/-- With the next byte of the frame the pending packet knows its length. -/
theorem fillLen_of_part (hpart : Part e.pkt f k) {b : UInt8}
    (hb : k = 1 → b = f.lo ∧ f.lo.toNat < 0x80) :
    (fillLen e.pkt b).len = f.bytes.length ∧
      (fillLen e.pkt b).lastPktRemainingLen = Int16.ofInt (f.bytes.length - k) ∧
      (fillLen e.pkt b).data = e.pkt.data := by
  rw [fillLen]
  by_cases hk : k = 1
  · obtain ⟨hrecv, hlen⟩ := hpart.one hk
    obtain ⟨rfl, hlow⟩ := hb hk
    have hjoin : joinLen e.pkt.len f.lo = f.bytes.length := by
      rw [hlen]
      exact f.joinLen_eq hlow
    rw [if_neg (by rw [hrecv]; simp)]
    refine ⟨hjoin, ?_, rfl⟩
    show Int16.ofInt (joinLen e.pkt.len f.lo - 1) = _
    rw [hjoin, hk]
    rfl
  · obtain ⟨hrecv, hlen, hrem⟩ := hpart.more hk
    rw [if_pos hrecv]
    exact ⟨hlen, hrem, rfl⟩

/-- A segment that begins with the rest of `w`, behind the `k` bytes that are pending: the rest is
copied behind them. -/
theorem fillPending_rest {w : List UInt8} (hin : k < w.length) (hsize : w.length ≤ packetSize)
    (hfill : ∀ b, w[k]? = some b → (fillLen e.pkt b).len = w.length ∧
      (fillLen e.pkt b).lastPktRemainingLen = Int16.ofInt (w.length - k))
    (hrx : Holding rx.pkt 0 (w.drop k ++ more)) :
    ∃ b data, w[k]? = some b ∧
      fillPending e rx 0 = .ok (true, { e with
        pkt :=
          { fillLen e.pkt b with
            data := data
            isPartial := false
            msgCount := 1
            offsets := (fillLen e.pkt b).offsets.set 0 0 }
        last := rx.last }) ∧
      data.toList.take w.length = (fillLen e.pkt b).data.toList.take k ++ w.drop k ∧
      takeCount (fillLen e.pkt (rx.pkt.data.toList.getD 0 0)) rx.pkt.len = w.length - k := by
  have hlen := hrx.length_eq
  have hmax : w.length ≤ 2048 := hsize
  rw [List.length_append, List.length_drop] at hlen
  -- the first byte of the segment is byte `k` of `w`
  obtain ⟨b, hb⟩ : ∃ b, w[k]? = some b := ⟨w[k], List.getElem?_eq_getElem hin⟩
  have hhead : rx.pkt.data.toList[0]? = some b := by
    have hget := hrx.getElem? (i := 0) (by rw [List.length_append, List.length_drop]; omega)
    rw [Nat.zero_add] at hget
    rw [hget, List.getElem?_append_left (by rw [List.length_drop]; omega), List.getElem?_drop,
      Nat.add_zero, hb]
  obtain ⟨hl, hr⟩ := hfill b hb
  obtain ⟨hint, hnat⟩ := toInt_ofInt_of_le (n := w.length - k) (by omega) (by omega)
  have htake : takeCount (fillLen e.pkt b) rx.pkt.len = w.length - k := by
    rw [takeCount, hr]
    omega
  have hgetD : rx.pkt.data.toList.getD 0 0 = b := by
    rw [List.getD_eq_getElem?_getD, hhead, Option.getD_some]
  have hslice : slice rx.pkt.data 0 (w.length - k) = .ok (w.drop k) := by
    rw [← List.length_drop]
    exact hrx.slice_eq
  obtain ⟨data, hdata, hread⟩ := writeAt_of_le (fillLen e.pkt b).data k (w.drop k)
    (by rw [List.length_drop]; omega)
  rw [List.length_drop, Nat.add_sub_cancel' hin.le] at hread
  have hstart : ((fillLen e.pkt b).len : ℤ) - (fillLen e.pkt b).lastPktRemainingLen.toInt = k := by
    rw [hl, hr, hint]
    omega
  refine ⟨b, data, hb, ?_, hread, by rw [hgetD, htake]⟩
  rw [fillPending, hhead]
  dsimp only
  rw [hstart, htake, if_neg (by omega), hslice]
  show (writeAt (fillLen e.pkt b).data k (w.drop k) >>= _) = _
  rw [hdata]
  show (if _ then _ else _) = _
  rw [if_pos (by rw [hr, hint]; omega)]

/-- A segment that brings the rest of the frame completes the pending packet, and what
the parser then reads is the frame. -/
theorem fillPending_completes (hpart : Part e.pkt f k) (hin : k < f.bytes.length)
    (hlow : k = 1 → f.lo.toNat < 0x80) (hrx : Holding rx.pkt 0 (f.bytes.drop k ++ more)) :
    ∃ e', fillPending e rx 0 = .ok (true, e') ∧ e'.pkt.messages = [f.bytes] ∧
      takeCount (fillLen e.pkt (rx.pkt.data.toList.getD 0 0)) rx.pkt.len = f.bytes.length - k := by
  have hlo : ∀ b, f.bytes[k]? = some b → k = 1 → b = f.lo ∧ f.lo.toNat < 0x80 := by
    intro b hb hone
    rw [hone] at hb
    exact ⟨(Option.some.inj hb).symm, hlow hone⟩
  obtain ⟨b, data, hb, hfill, hread, htake⟩ := fillPending_rest (e := e) hin f.length_bytes_le
    (fun b hb => ⟨(fillLen_of_part hpart (hlo b hb)).1, (fillLen_of_part hpart (hlo b hb)).2.1⟩) hrx
  refine ⟨_, hfill, ?_, htake⟩
  rw [(fillLen_of_part hpart (hlo b hb)).2.2, hpart.held, List.take_append_drop] at hread
  have hwhole : f.bytes <+: data.toList := by
    rw [← hread]
    exact List.take_prefix _ _
  rw [RxPacket.messages_of_one rfl (Vector.getElem_set_self _), RxPacket.message_of_prefix]
  exact hwhole

end fill

/-! ### The loop over a segment -/

section scan

variable {f : SoupFrame} {k offset fuel : ℕ} {rx : RxEntry} {more l : List UInt8}
  {spare : Option FreePacket}

/-- Two bytes of a packet are there. -/
theorem packetLen_two {hi lo : UInt8} (hrx : Holding rx.pkt offset (hi :: lo :: l)) :
    packetLen rx offset = .ok ((readU16be hi lo + 2) % 2 ^ 16, false) := by
  have hlen := hrx.length_eq
  rw [List.length_cons, List.length_cons] at hlen
  have hhi := hrx.getElem? (i := 0) (by simp)
  have hlo := hrx.getElem? (i := 1) (by simp)
  rw [Nat.add_zero] at hhi
  rw [packetLen, hhi, hlo]
  show (if rx.pkt.len - offset = 1 then _ else _) = _
  rw [if_neg (by omega)]

/-- Only its first byte is there. -/
theorem packetLen_one {hi : UInt8} (hrx : Holding rx.pkt offset [hi]) :
    packetLen rx offset = .ok (charToU16 hi, true) := by
  have hlen := hrx.length_eq
  rw [List.length_singleton] at hlen
  have hhi := hrx.getElem? (i := 0) (by simp)
  rw [Nat.add_zero] at hhi
  rw [packetLen, hhi]
  cases rx.pkt.data.toList[offset + 1]? with
  | none => exact if_pos hlen.symm
  | some lo => exact if_pos hlen.symm

theorem packetLen_of_two (hrx : Holding rx.pkt offset (f.hi :: f.lo :: l)) :
    packetLen rx offset = .ok (f.bytes.length, false) := by
  have hfits : f.bytes.length ≤ 2048 := f.length_bytes_le
  rw [packetLen_two hrx, f.readU16be_length, Nat.mod_eq_of_lt (by omega)]

theorem packetLen_of_one (hrx : Holding rx.pkt offset [f.hi]) :
    packetLen rx offset = .ok (f.hi.toNat, true) := by
  rw [packetLen_one hrx, f.charToU16_hi]

/-- The type byte decides. -/
theorem pktHandler_frame (hrx : Holding rx.pkt offset (f.bytes ++ more)) :
    pktHandler rx.pkt.data offset =
      .ok (match f.kind with
        | .sequenced => .toParser
        | .heartbeat => .ignore
        | .unsequenced => .notToParser
        | .debug => .ignore) := by
  have htype := hrx.getElem? (i := 2) (by rw [List.length_append, f.length_bytes]; omega)
  have hcode : (f.bytes ++ more)[2]? = some f.kind.code := rfl
  rw [pktHandler, htype, hcode]
  cases f.kind <;> rfl

/-- A sequenced packet that lies in the segment as a whole is recorded. -/
theorem sbtScan_record (hkind : f.kind = .sequenced)
    (hcount : rx.pkt.msgCount.toNat < maxAppMsg)
    (hrx : Holding rx.pkt offset (f.bytes ++ more)) :
    sbtScan (fuel + 1) rx offset spare =
      sbtScan fuel
        { rx with
          pkt :=
            { rx.pkt with
              offsets := rx.pkt.offsets.set rx.pkt.msgCount.toNat offset hcount
              msgCount := rx.pkt.msgCount + 1 } }
        (offset + f.bytes.length) spare := by
  have hlen := hrx.length_eq
  have hpos := f.length_bytes_pos
  rw [List.length_append] at hlen
  rw [sbtScan, if_neg (by omega), packetLen_of_two hrx]
  show (if rx.pkt.len < f.bytes.length + offset ∨ false = true then _ else _) = _
  rw [if_neg (by rintro (h | h) <;> [omega; cases h]), pktHandler_frame hrx, hkind]
  show (if h : rx.pkt.msgCount.toNat < maxAppMsg then _ else _) = _
  rw [dif_pos hcount]

theorem toNat_succ_msgCount {n : UInt8} (h : n.toNat < maxAppMsg) :
    (n + 1).toNat = n.toNat + 1 := by
  have hmax : n.toNat < 32 := h
  rw [UInt8.toNat_add]
  show (n.toNat + 1) % 2 ^ 8 = _
  omega

/-- **A segment of sequenced packets** is delivered with an offset for each. -/
theorem sbtScan_sequenced (fuel : ℕ) (spare : Option FreePacket) (frames : List SoupFrame)
    (hseq : ∀ f ∈ frames, f.kind = .sequenced)
    (hfuel : frames.length < fuel) (hroom : rx.pkt.msgCount.toNat + frames.length ≤ maxAppMsg)
    (hrx : Holding rx.pkt offset (stream SoupFrame.bytes frames)) :
    ∃ rx', sbtScan fuel rx offset spare = .ok (.deliver rx') ∧
      rx'.pkt.messages = rx.pkt.messages ++ frames.map SoupFrame.bytes := by
  induction frames generalizing rx offset fuel with
  | nil =>
    obtain ⟨fuel, rfl⟩ : ∃ n, fuel = n + 1 := ⟨fuel - 1, by rw [List.length_nil] at hfuel; omega⟩
    have hlen := hrx.length_eq
    rw [stream_nil, List.length_nil] at hlen
    exact ⟨rx, by rw [sbtScan, if_pos (by omega)], by simp⟩
  | cons f fs ih =>
    rw [List.length_cons] at hfuel hroom
    obtain ⟨fuel, rfl⟩ : ∃ n, fuel = n + 1 := ⟨fuel - 1, by omega⟩
    rw [stream_cons] at hrx
    have hmsg : rx.pkt.message offset = f.bytes :=
      RxPacket.message_of_prefix ((List.prefix_append _ _).trans hrx.isPrefix)
    have hcount : rx.pkt.msgCount.toNat < maxAppMsg := by omega
    have hsucc := toNat_succ_msgCount hcount
    obtain ⟨rx', hscan, hmsgs⟩ := @ih _ { rx with
        pkt :=
          { rx.pkt with
            offsets := rx.pkt.offsets.set rx.pkt.msgCount.toNat offset hcount
            msgCount := rx.pkt.msgCount + 1 } } fuel
      (fun g hg => hseq g (List.mem_cons_of_mem _ hg)) (Nat.lt_of_succ_lt_succ hfuel)
      (by show (rx.pkt.msgCount + 1).toNat + _ ≤ _; omega)
      ⟨hrx.advance.fits, hrx.advance.inside, hrx.advance.rest⟩
    refine ⟨rx', ?_, ?_⟩
    · rw [sbtScan_record (hseq f List.mem_cons_self) hcount hrx]
      exact hscan
    · rw [hmsgs, RxPacket.messages_record hcount, hmsg, List.append_assoc]
      rfl

/-- **A segment that begins with another packet** is dropped. -/
theorem sbtScan_other (fuel : ℕ) (spare : Option FreePacket) (hkind : f.kind ≠ .sequenced)
    (hrx : Holding rx.pkt offset (f.bytes ++ more)) :
    sbtScan (fuel + 1) rx offset spare = .ok .drop := by
  have hlen := hrx.length_eq
  have hpos := f.length_bytes_pos
  rw [List.length_append] at hlen
  rw [sbtScan, if_neg (by omega), packetLen_of_two hrx]
  show (if rx.pkt.len < f.bytes.length + offset ∨ false = true then _ else _) = _
  rw [if_neg (by rintro (h | h) <;> [omega; cases h]), pktHandler_frame hrx]
  cases hf : f.kind with
  | sequenced => exact absurd hf hkind
  | heartbeat => rfl
  | unsequenced => rfl
  | debug => rfl

theorem stashRest_of_copy {free : FreePacket} {src : List UInt8} {data : Vector UInt8 packetSize}
    (hslice : slice rx.pkt.data offset (rx.pkt.len - offset) = .ok src)
    (hdata : writeAt free.pkt.data 0 src = .ok data) (pktLen : ℕ) (lenPartial : Bool) :
    stashRest rx offset pktLen lenPartial (some free) =
      .ok (.stash
        { pkt :=
            { free.pkt with
              data := data
              len := pktLen
              isPartial := true
              lastPktRemainingLen :=
                if lenPartial then 0 else Int16.ofInt (pktLen - (rx.pkt.len - offset : ℕ))
              isLenReceived := if lenPartial then false else free.pkt.isLenReceived
              venue := rx.pkt.venue
              protocol := rx.pkt.protocol }
          first := rx.first
          last := rx.last }) := by
  rw [stashRest, hslice]
  show (writeAt free.pkt.data 0 src >>= _) = _
  rw [hdata]
  rfl

/-- **A segment that holds the beginning of a packet** is stashed. -/
theorem sbtScan_fragment (fuel : ℕ) (free : FreePacket) (hk : 0 < k) (hin : k < f.bytes.length)
    (hrx : Holding rx.pkt offset (f.bytes.take k)) :
    ∃ e, sbtScan (fuel + 1) rx offset (some free) = .ok (.stash e) ∧ Part e.pkt f k := by
  have hlen := hrx.length_eq
  have hfits := hrx.fits
  have hoff := hrx.inside
  rw [List.length_take, Nat.min_eq_left (by omega)] at hlen
  have hslice := hrx.slice_rest
  obtain ⟨data, hdata, hread⟩ := writeAt_of_le free.pkt.data 0 (f.bytes.take k)
    (by rw [List.length_take]; omega)
  rw [List.length_take, Nat.min_eq_left (by omega), Nat.zero_add, List.take_zero,
    List.nil_append] at hread
  by_cases hone : k = 1
  · subst hone
    have htake : f.bytes.take 1 = [f.hi] := rfl
    have hscan : sbtScan (fuel + 1) rx offset (some free) =
        stashRest rx offset f.hi.toNat true (some free) := by
      rw [sbtScan, if_neg (by omega), packetLen_of_one (f := f) (htake ▸ hrx)]
      exact if_pos (.inr rfl)
    exact ⟨_, hscan.trans (stashRest_of_copy hslice hdata _ _), rfl, hread, fun _ => ⟨rfl, rfl⟩,
      fun h => absurd rfl h⟩
  · obtain ⟨k', rfl⟩ : ∃ n, k = n + 2 := ⟨k - 2, by omega⟩
    have htake : f.bytes.take (k' + 2) = f.hi :: f.lo :: (f.kind.code :: f.payload).take k' := rfl
    have hscan : sbtScan (fuel + 1) rx offset (some free) =
        stashRest rx offset f.bytes.length false (some free) := by
      rw [sbtScan, if_neg (by omega), packetLen_of_two (f := f) (htake ▸ hrx)]
      exact if_pos (.inl (by omega))
    refine ⟨_, hscan.trans (stashRest_of_copy hslice hdata _ _), rfl, hread,
      fun h => absurd h hone, fun _ => ⟨free.lenReceived, rfl, ?_⟩⟩
    show Int16.ofInt (f.bytes.length - (rx.pkt.len - offset : ℕ)) = _
    rw [← hlen]

end scan

end TradingEngine
