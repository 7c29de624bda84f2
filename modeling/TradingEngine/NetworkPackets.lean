/-
Received packets and packets to send (`network/NetworkPackets.h`).

An `RxPacket` owns a buffer of 2048 bytes, of which the first `len` are what
`recv` put there; the rest is whatever earlier packets left.  `received` is the
part that belongs to the packet.  Copies check both ends: `slice` fails where
the source would read past its buffer and `writeAt` where it would write past
the destination.

A `TxPacket` owns a buffer of the same size; `bytes` are the bytes to send and
`unsent` those behind the offset.

The word `partial` of the source is spelled `isPartial`.
-/
import TradingEngine.Order

namespace TradingEngine

/-- `RxPacket::DATA_SIZE` and `TxPacket::DATA_SIZE`. -/
abbrev packetSize : ℕ := 2048

/-- `RxPacket::MAX_APP_MSG_IN_ONE_DATA`. -/
abbrev maxAppMsg : ℕ := 32

/-- `PENDING_CAPACITY`. -/
abbrev pendingCapacity : ℕ := 256

/-- `PACKET_QUEUE_CAPACITY`. -/
abbrev packetQueueCapacity : ℕ := 1024

/-- `struct RxPacket`. -/
structure RxPacket where
  data : Vector UInt8 packetSize := Vector.replicate packetSize 0
  len : ℕ := 0
  offsets : Vector ℕ maxAppMsg := Vector.replicate maxAppMsg 0
  lastPktRemainingLen : Int16 := 0
  msgCount : UInt8 := 0
  isPartial : Bool := false
  isLenReceived : Bool := true
  releaseThisPkt : Bool := true
  consumed : Bool := false
  venue : Venue := .bist
  protocol : Protocol := .fix

/-- `memcpy` out of a buffer: `n` bytes from `pos` on. -/
def slice {n : ℕ} (data : Vector UInt8 n) (pos count : ℕ) : Except Fault (List UInt8) :=
  if pos + count ≤ n then .ok ((data.toList.drop pos).take count) else .error .outOfBounds

/-- `memcpy` into a buffer: the bytes `src` from `pos` on. -/
def writeAt {n : ℕ} (data : Vector UInt8 n) (pos : ℕ) (src : List UInt8) :
    Except Fault (Vector UInt8 n) :=
  if h : pos + src.length ≤ n then
    .ok ⟨(data.toList.take pos ++ src ++ data.toList.drop (pos + src.length)).toArray, by
      simp
      omega⟩
  else .error .outOfBounds

namespace RxPacket

/-- What `recv` put into the packet. -/
def received (pkt : RxPacket) : List UInt8 := pkt.data.toList.take pkt.len

end RxPacket

/-- `struct TxPacket`. -/
structure TxPacket where
  data : Vector UInt8 packetSize := Vector.replicate packetSize 0
  len : ℕ := 0
  offset : ℕ := 0
  sockIndex : UInt8 := 0
  isLoginMsg : Bool := false

namespace TxPacket

/-- `data[0..len)`. -/
def bytes (pkt : TxPacket) : List UInt8 := pkt.data.toList.take pkt.len

/-- The bytes behind the offset. -/
def unsent (pkt : TxPacket) : List UInt8 := pkt.bytes.drop pkt.offset

/-- `TxPacket::fillPacket`. -/
def fillPacket (pkt : TxPacket) (src : List UInt8) (sessionIndex : UInt8) (loginMsg : Bool) :
    Except Fault TxPacket := do
  let data ← writeAt pkt.data 0 src
  .ok { data := data, len := src.length, offset := 0, sockIndex := sessionIndex,
        isLoginMsg := loginMsg }

end TxPacket

theorem slice_of_le {n : ℕ} (data : Vector UInt8 n) {pos count : ℕ} (h : pos + count ≤ n) :
    slice data pos count = .ok ((data.toList.drop pos).take count) :=
  if_pos h

/-- What was written reads back, behind what was there before. -/
theorem writeAt_of_le {n : ℕ} (data : Vector UInt8 n) (pos : ℕ) (src : List UInt8)
    (h : pos + src.length ≤ n) :
    ∃ data', writeAt data pos src = .ok data' ∧
      data'.toList.take (pos + src.length) = data.toList.take pos ++ src := by
  refine ⟨_, dif_pos h, ?_⟩
  have hpos : (data.toList.take pos).length = pos := by
    simp
    omega
  show (data.toList.take pos ++ src ++ data.toList.drop (pos + src.length)).take _ = _
  rw [List.take_append_of_le_length (by rw [List.length_append, hpos]), List.take_of_length_le]
  rw [List.length_append, hpos]

theorem writeAt_of_lt {n : ℕ} (data : Vector UInt8 n) (pos : ℕ) (src : List UInt8)
    (h : n < pos + src.length) : writeAt data pos src = .error .outOfBounds :=
  dif_neg (Nat.not_le.mpr h)

/-- A copy that succeeded stayed inside the buffer, and reads back. -/
theorem take_of_writeAt {n pos : ℕ} {data data' : Vector UInt8 n} {src : List UInt8}
    (h : writeAt data pos src = .ok data') :
    pos + src.length ≤ n ∧ data'.toList.take (pos + src.length) = data.toList.take pos ++ src := by
  by_cases hle : pos + src.length ≤ n
  · obtain ⟨data'', heq, htake⟩ := writeAt_of_le data pos src hle
    rw [heq, Except.ok.injEq] at h
    exact ⟨hle, h ▸ htake⟩
  · rw [writeAt_of_lt data pos src (Nat.lt_of_not_le hle)] at h
    exact absurd h (by simp)

/-- A packet is filled with whatever fits. -/
theorem TxPacket.fillPacket_of_le (pkt : TxPacket) {src : List UInt8} (index : UInt8)
    (loginMsg : Bool) (h : src.length ≤ packetSize) :
    ∃ pkt', pkt.fillPacket src index loginMsg = .ok pkt' ∧ pkt'.bytes = src ∧
      pkt'.sockIndex = index ∧ pkt'.isLoginMsg = loginMsg := by
  obtain ⟨data, hdata, hread⟩ := writeAt_of_le pkt.data 0 src (by omega)
  rw [Nat.zero_add, List.take_zero, List.nil_append] at hread
  refine ⟨_, by rw [TxPacket.fillPacket, hdata]; rfl, ?_, rfl, rfl⟩
  exact hread

end TradingEngine
