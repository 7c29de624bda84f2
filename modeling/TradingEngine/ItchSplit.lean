/-
Splitting ITCH datagrams (`Parser_ITCH_BIST.h`, `Parser_ITCH_NASDAQ.h`,
`generated/GeneratedITCHMessages_*.h`).

`ItchPacketHandler` walks over a datagram by the sizes the types of its messages have, and
notes where each message begins.  There is room for 32 beginnings, and a byte that is no
type has the index 99 in a table of 14 or 11 sizes.

* `splitLoop_messages` — over well-formed messages the walk stays aligned and notes every
  beginning, as long as there is room;
* `splitLoop_fault` — it leaves an array at the message after the 32nd and at a byte that
  is no type;
* `itchPacketHandler_splits_iff` — so a datagram is split exactly if it has at most 32
  messages and nothing else.
-/
import TradingEngine.PacketReuse

namespace TradingEngine

/-! ### The tables -/

/-- The numbers of the message types of a venue, and the sizes by these numbers. -/
structure ItchTable where
  itchMessageIndex : UInt8 → ℕ
  itchSizeOfs : List ℕ

/-- `BIST::itchMessageIndex`, by the numbers of `ITCHTypes`. -/
def Bist.itchMessageIndex (type : UInt8) : ℕ :=
  match Char.ofNat type.toNat with
  | 'T' => 0
  | 'R' => 1
  | 'M' => 2
  | 'L' => 3
  | 'V' => 4
  | 'S' => 5
  | 'O' => 6
  | 'A' => 7
  | 'E' => 8
  | 'C' => 9
  | 'D' => 10
  | 'Y' => 11
  | 'P' => 12
  | 'Z' => 13
  | _ => 99

/-- `BIST::ITCHSizeOfs`. -/
def Bist.itchSizeOfs : List ℕ := [5, 130, 18, 25, 10, 6, 29, 45, 52, 58, 18, 9, 50, 53]

/-- `NASDAQ::itchMessageIndex`. -/
def Nasdaq.itchMessageIndex (type : UInt8) : ℕ :=
  match Char.ofNat type.toNat with
  | 'A' => 0
  | 'F' => 1
  | 'X' => 2
  | 'E' => 3
  | 'C' => 4
  | 'D' => 5
  | 'U' => 6
  | 'P' => 7
  | 'S' => 8
  | 'R' => 9
  | 'H' => 10
  | _ => 99

/-- `NASDAQ::ITCHSizeOfs`. -/
def Nasdaq.itchSizeOfs : List ℕ := [36, 40, 23, 31, 36, 19, 35, 37, 12, 39, 25]

def Bist.itchTable : ItchTable := ⟨Bist.itchMessageIndex, Bist.itchSizeOfs⟩

def Nasdaq.itchTable : ItchTable := ⟨Nasdaq.itchMessageIndex, Nasdaq.itchSizeOfs⟩

/-- The size of a message by its type; nothing where the index is outside the table. -/
def ItchTable.sizeOf (t : ItchTable) (type : UInt8) : Option ℕ :=
  t.itchSizeOfs[t.itchMessageIndex type]?

/-- At either venue exactly the index 99 is outside the table. -/
theorem sizeOf_eq_none_iff (type : UInt8) :
    (Bist.itchTable.sizeOf type = none ↔ Bist.itchMessageIndex type = 99) ∧
      (Nasdaq.itchTable.sizeOf type = none ↔ Nasdaq.itchMessageIndex type = 99) := by
  constructor
  · show Bist.itchSizeOfs[Bist.itchMessageIndex type]? = none ↔ _
    unfold Bist.itchMessageIndex
    split <;> simp [Bist.itchSizeOfs]
  · show Nasdaq.itchSizeOfs[Nasdaq.itchMessageIndex type]? = none ↔ _
    unfold Nasdaq.itchMessageIndex
    split <;> simp [Nasdaq.itchSizeOfs]

/-! ### The walk -/

namespace RxPacket

/-- `offsets[msg_count++] = offset`. -/
def note (pkt : RxPacket) (offset : ℕ) (h : pkt.msgCount.toNat < maxAppMsg) : RxPacket :=
  { pkt with
    offsets := pkt.offsets.set pkt.msgCount.toNat (offset % 2 ^ 16) h
    msgCount := pkt.msgCount + 1 }

end RxPacket

/-- The loop of `ItchPacketHandler` from `offset` on, for at most `fuel` rounds. -/
def splitLoop (t : ItchTable) : (fuel : ℕ) → (offset : ℕ) → RxPacket → Except Fault RxPacket
  | 0, _, _ => .error .nonTermination
  | fuel + 1, offset, pkt =>
    if offset < pkt.len then
      match pkt.data.toList[offset]? with
      | none => .error .outOfBounds
      | some type =>
        match t.sizeOf type with
        | none => .error .outOfBounds
        | some msgSize =>
          if h : pkt.msgCount.toNat < maxAppMsg then
            splitLoop t fuel (offset + msgSize) (pkt.note offset h)
          else .error .outOfBounds
    else .ok pkt

/-- `ItchPacketHandler` with the table of a venue. -/
def itchPacketHandler (t : ItchTable) (pkt : RxPacket) : Except Fault RxPacket :=
  splitLoop t (pkt.len + 1) 0 pkt

/-- `Parser_ITCH_BIST::ItchPacketHandler`. -/
def Bist.itchPacketHandler : RxPacket → Except Fault RxPacket :=
  TradingEngine.itchPacketHandler Bist.itchTable

/-- `Parser_ITCH_NASDAQ::ItchPacketHandler`. -/
def Nasdaq.itchPacketHandler : RxPacket → Except Fault RxPacket :=
  TradingEngine.itchPacketHandler Nasdaq.itchTable

/-! ### Messages and their beginnings -/

/-- A message of the size its type has. -/
def ItchWellFormed (t : ItchTable) (m : List UInt8) : Prop :=
  ∃ type fields, m = type :: fields ∧ t.sizeOf type = some m.length

/-- The bytes begin with one that is no type. -/
def StartsUnknown (t : ItchTable) (bytes : List UInt8) : Prop :=
  ∃ type rest, bytes = type :: rest ∧ t.sizeOf type = none

/-- Where messages begin that stand one after the other from `offset` on. -/
def beginnings : (offset : ℕ) → List (List UInt8) → List ℕ
  | _, [] => []
  | offset, m :: ms => offset :: beginnings (offset + m.length) ms

@[simp] theorem length_beginnings (offset : ℕ) (ms : List (List UInt8)) :
    (beginnings offset ms).length = ms.length := by
  induction ms generalizing offset with
  | nil => rfl
  | cons m ms ih => simp [beginnings, ih]

theorem ItchWellFormed.length_pos {t : ItchTable} {m : List UInt8} (h : ItchWellFormed t m) :
    0 < m.length := by
  obtain ⟨type, fields, rfl, -⟩ := h
  exact Nat.succ_pos _

theorem length_le_flatten {t : ItchTable} {ms : List (List UInt8)}
    (hms : ∀ m ∈ ms, ItchWellFormed t m) : ms.length ≤ ms.flatten.length := by
  induction ms with
  | nil => exact Nat.zero_le _
  | cons m ms ih =>
    have hm := (hms m List.mem_cons_self).length_pos
    have hrest := ih fun x hx => hms x (List.mem_cons_of_mem _ hx)
    rw [List.length_cons, List.flatten_cons, List.length_append]
    omega

/-! ### One message -/

section Walk

variable {t : ItchTable} {pkt : RxPacket} {offset : ℕ}

/-- The bytes that are still to be walked over. -/
theorem next_byte {type : UInt8} {rest : List UInt8}
    (hdata : pkt.received.drop offset = type :: rest) :
    offset < pkt.len ∧ pkt.data.toList[offset]? = some type := by
  have hget : pkt.received[offset]? = some type := by
    rw [← List.head?_drop, hdata]
    rfl
  rw [RxPacket.received, List.getElem?_take] at hget
  by_cases hlt : offset < pkt.len
  · rw [if_pos hlt] at hget
    exact ⟨hlt, hget⟩
  · rw [if_neg hlt] at hget
    cases hget

/-- Over a message the walk goes to the next one. -/
theorem splitLoop_message {m rest : List UInt8} (hm : ItchWellFormed t m)
    (hdata : pkt.received.drop offset = m ++ rest) (h : pkt.msgCount.toNat < maxAppMsg)
    (fuel : ℕ) :
    splitLoop t (fuel + 1) offset pkt =
      splitLoop t fuel (offset + m.length) (pkt.note offset h) := by
  obtain ⟨type, fields, hcons, hsize⟩ := hm
  rw [hcons] at hdata
  obtain ⟨hlt, hget⟩ := next_byte hdata
  rw [splitLoop, if_pos hlt, hget]
  simp only [hsize]
  rw [dif_pos h]

theorem drop_message {m rest : List UInt8} (hdata : pkt.received.drop offset = m ++ rest) :
    pkt.received.drop (offset + m.length) = rest := by
  rw [← List.drop_drop, hdata, List.drop_left]

theorem splitLoop_no_room {m rest : List UInt8} (hm : ItchWellFormed t m)
    (hdata : pkt.received.drop offset = m ++ rest) (h : ¬pkt.msgCount.toNat < maxAppMsg)
    (fuel : ℕ) :
    splitLoop t (fuel + 1) offset pkt = .error .outOfBounds := by
  obtain ⟨type, fields, hcons, hsize⟩ := hm
  rw [hcons] at hdata
  obtain ⟨hlt, hget⟩ := next_byte hdata
  rw [splitLoop, if_pos hlt, hget]
  simp only [hsize]
  rw [dif_neg h]

theorem splitLoop_unknown {rest : List UInt8} (hunknown : StartsUnknown t rest)
    (hdata : pkt.received.drop offset = rest) (fuel : ℕ) :
    splitLoop t (fuel + 1) offset pkt = .error .outOfBounds := by
  obtain ⟨type, tail, hcons, hsize⟩ := hunknown
  rw [hcons] at hdata
  obtain ⟨hlt, hget⟩ := next_byte hdata
  rw [splitLoop, if_pos hlt, hget]
  simp only [hsize]

theorem toNat_note (h : pkt.msgCount.toNat < maxAppMsg) (offset : ℕ) :
    (pkt.note offset h).msgCount.toNat = pkt.msgCount.toNat + 1 := by
  show (pkt.msgCount + 1).toNat = _
  have h32 : pkt.msgCount.toNat < 32 := h
  rw [UInt8.toNat_add]
  show (pkt.msgCount.toNat + 1) % 256 = _
  omega

/-- The beginning stands behind those noted before. -/
theorem offsets_note (h : pkt.msgCount.toNat < maxAppMsg) (hoffset : offset < 2 ^ 16) :
    (pkt.note offset h).offsets.toList.take (pkt.msgCount.toNat + 1) =
      pkt.offsets.toList.take pkt.msgCount.toNat ++ [offset] := by
  have hlen : pkt.msgCount.toNat < pkt.offsets.toList.length := by
    rw [Vector.length_toList]
    exact h
  show (pkt.offsets.set pkt.msgCount.toNat (offset % 2 ^ 16) h).toList.take _ = _
  rw [Nat.mod_eq_of_lt hoffset, Vector.toList_set, List.take_add_one, List.take_set_of_le le_rfl,
    List.getElem?_set_self hlen]
  rfl

/-! ### The whole walk -/

/-- **Over well-formed messages the walk stays aligned**, as long as there is room. -/
theorem splitLoop_messages {ms : List (List UInt8)} {rest : List UInt8}
    (hms : ∀ m ∈ ms, ItchWellFormed t m) (hdata : pkt.received.drop offset = ms.flatten ++ rest)
    (hroom : pkt.msgCount.toNat + ms.length ≤ maxAppMsg)
    (hend : offset + ms.flatten.length ≤ packetSize) (fuel : ℕ) :
    ∃ pkt', splitLoop t (ms.length + fuel) offset pkt =
        splitLoop t fuel (offset + ms.flatten.length) pkt' ∧
      pkt'.received = pkt.received ∧ pkt'.len = pkt.len ∧
      pkt'.msgCount.toNat = pkt.msgCount.toNat + ms.length ∧
      pkt'.offsets.toList.take pkt'.msgCount.toNat =
        pkt.offsets.toList.take pkt.msgCount.toNat ++ beginnings offset ms := by
  induction ms generalizing pkt offset with
  | nil =>
    refine ⟨pkt, ?_, rfl, rfl, rfl, ?_⟩
    · rw [List.length_nil, Nat.zero_add, List.flatten_nil, List.length_nil, Nat.add_zero]
    · rw [beginnings, List.append_nil]
  | cons m ms ih =>
    have hm := hms m List.mem_cons_self
    rw [List.length_cons] at hroom
    rw [List.flatten_cons, List.append_assoc] at hdata
    rw [List.flatten_cons, List.length_append] at hend
    have hpos := hm.length_pos
    have h : pkt.msgCount.toNat < maxAppMsg := by omega
    have hcount := toNat_note h offset
    have hoffset : offset < 2 ^ 16 := by
      have : packetSize = 2048 := rfl
      omega
    have hnext : (pkt.note offset h).received.drop (offset + m.length) = ms.flatten ++ rest :=
      drop_message hdata
    obtain ⟨pkt', hloop, hreceived, hlen, hcount', hoffsets⟩ :=
      ih (fun x hx => hms x (List.mem_cons_of_mem _ hx)) hnext (by omega) (by omega)
    refine ⟨pkt', ?_, hreceived, hlen, ?_, ?_⟩
    · rw [List.length_cons, Nat.add_right_comm, splitLoop_message hm hdata h, hloop,
        List.flatten_cons, List.length_append, Nat.add_assoc]
    · rw [hcount', hcount, List.length_cons]
      omega
    · rw [hoffsets, hcount, offsets_note h hoffset, List.append_assoc]
      rfl

/-- **The walk leaves an array**, at the latest behind the messages. -/
theorem splitLoop_fault {ms : List (List UInt8)} {rest : List UInt8}
    (hms : ∀ m ∈ ms, ItchWellFormed t m) (hdata : pkt.received.drop offset = ms.flatten ++ rest)
    (hcap : pkt.msgCount.toNat ≤ maxAppMsg)
    (hbad : maxAppMsg < pkt.msgCount.toNat + ms.length ∨ StartsUnknown t rest) (fuel : ℕ) :
    splitLoop t (ms.length + 1 + fuel) offset pkt = .error .outOfBounds := by
  induction ms generalizing pkt offset with
  | nil =>
    have hunknown := hbad.resolve_left (not_lt.mpr hcap)
    rw [List.length_nil, Nat.zero_add, Nat.add_comm]
    exact splitLoop_unknown hunknown hdata fuel
  | cons m ms ih =>
    have hm := hms m List.mem_cons_self
    rw [List.flatten_cons, List.append_assoc] at hdata
    rw [List.length_cons, show ms.length + 1 + 1 + fuel = ms.length + 1 + fuel + 1 by omega]
    by_cases h : pkt.msgCount.toNat < maxAppMsg
    · have hcount := toNat_note h offset
      rw [splitLoop_message hm hdata h]
      refine ih (fun x hx => hms x (List.mem_cons_of_mem _ hx)) (drop_message hdata)
        (by omega) ?_
      rcases hbad with hfull | hunknown
      · rw [List.length_cons] at hfull
        exact .inl (by omega)
      · exact .inr hunknown
    · exact splitLoop_no_room hm hdata h _

end Walk

/-- The packet says of each message where it begins. -/
def SplitInto (ms : List (List UInt8)) (pkt : RxPacket) : Prop :=
  pkt.msgCount.toNat = ms.length ∧ pkt.offsets.toList.take ms.length = beginnings 0 ms

/-- What is asked of the handler for a datagram of messages and a rest, received into the
packet `slot`: it stays inside its arrays and ends, and splits the messages where there is no
rest. -/
def SplitsExactly (t : ItchTable) (slot : RxPacket) (venue : Venue) (ms : List (List UInt8))
    (rest : List UInt8) : Prop :=
  ∃ pkt, itchPacketHandler t (slot.recv venue .itch (ms.flatten ++ rest)) = .ok pkt ∧
    (rest = [] → SplitInto ms pkt)

section Datagrams

variable {t : ItchTable} {slot : RxPacket} {ms : List (List UInt8)} {rest : List UInt8}

theorem handler_fault (hcount : slot.msgCount = 0) (hms : ∀ m ∈ ms, ItchWellFormed t m)
    (hlen : (ms.flatten ++ rest).length ≤ packetSize)
    (hbad : maxAppMsg < ms.length ∨ StartsUnknown t rest) (venue : Venue) :
    itchPacketHandler t (slot.recv venue .itch (ms.flatten ++ rest)) = .error .outOfBounds := by
  have hreceived := received_recv slot venue .itch hlen
  have hfuel := length_le_flatten hms
  obtain ⟨fuel, hsplit⟩ : ∃ fuel, (ms.flatten ++ rest).length + 1 = ms.length + 1 + fuel := by
    refine ⟨(ms.flatten ++ rest).length - ms.length, ?_⟩
    rw [List.length_append]
    omega
  show splitLoop t ((ms.flatten ++ rest).length + 1) 0 _ = _
  have hzero : (slot.recv venue .itch (ms.flatten ++ rest)).msgCount.toNat = 0 :=
    congrArg UInt8.toNat hcount
  rw [hsplit]
  refine splitLoop_fault hms (by rw [hreceived, List.drop_zero]) ?_ ?_ fuel
  · rw [hzero]
    exact Nat.zero_le _
  · rw [hzero, Nat.zero_add]
    exact hbad

theorem not_splits_of_fault (hcount : slot.msgCount = 0) (hms : ∀ m ∈ ms, ItchWellFormed t m)
    (hlen : (ms.flatten ++ rest).length ≤ packetSize)
    (hbad : maxAppMsg < ms.length ∨ StartsUnknown t rest) (venue : Venue) :
    ¬SplitsExactly t slot venue ms rest := by
  rintro ⟨pkt, hok, -⟩
  rw [handler_fault hcount hms hlen hbad] at hok
  cases hok

theorem handler_split (hcount : slot.msgCount = 0) (hms : ∀ m ∈ ms, ItchWellFormed t m)
    (hlen : ms.flatten.length ≤ packetSize) (hroom : ms.length ≤ maxAppMsg) (venue : Venue) :
    ∃ pkt, itchPacketHandler t (slot.recv venue .itch ms.flatten) = .ok pkt ∧ SplitInto ms pkt := by
  have hreceived := received_recv slot venue .itch hlen
  have hfuel := length_le_flatten hms
  obtain ⟨fuel, hsplit⟩ : ∃ fuel, ms.flatten.length + 1 = ms.length + (fuel + 1) :=
    ⟨ms.flatten.length - ms.length, by omega⟩
  have hzero : (slot.recv venue .itch ms.flatten).msgCount.toNat = 0 :=
    congrArg UInt8.toNat hcount
  have hstart : (slot.recv venue .itch ms.flatten).received.drop 0 = ms.flatten ++ [] := by
    rw [hreceived, List.drop_zero, List.append_nil]
  obtain ⟨pkt, hloop, hsame, hlen', hcount', hoffsets⟩ :=
    splitLoop_messages hms hstart (by omega) (by omega) (fuel + 1)
  rw [hzero, Nat.zero_add] at hcount'
  rw [hcount', hzero, List.take_zero, List.nil_append] at hoffsets
  refine ⟨pkt, ?_, hcount', hoffsets⟩
  -- behind the last message the walk is over
  show splitLoop t (ms.flatten.length + 1) 0 _ = _
  have hover : ¬0 + ms.flatten.length < pkt.len := by
    rw [hlen']
    show ¬0 + ms.flatten.length < ms.flatten.length
    omega
  rw [hsplit, hloop, splitLoop, if_neg hover]

end Datagrams

/-- **ITCH datagrams that are split exactly.**  Whatever packet a datagram is received into,
one that consists of messages is split exactly if and only if there are at most 32 of them;
behind messages a byte that is no type always leads out of an array.  The table is that of
BIST, that of NASDAQ, or any other. -/
theorem itchPacketHandler_splits_iff (t : ItchTable) (slot : RxPacket) (venue : Venue)
    (ms : List (List UInt8)) (rest : List UInt8) (hcount : slot.msgCount = 0)
    (hms : ∀ m ∈ ms, ItchWellFormed t m) (hrest : rest = [] ∨ StartsUnknown t rest)
    (hlen : (ms.flatten ++ rest).length ≤ packetSize) :
    SplitsExactly t slot venue ms rest ↔ rest = [] ∧ ms.length ≤ maxAppMsg := by
  constructor
  · intro hsplits
    by_contra hnot
    have hbad : maxAppMsg < ms.length ∨ StartsUnknown t rest := by
      rcases hrest with hnil | hunknown
      · left
        by_contra hle
        exact hnot ⟨hnil, not_lt.mp hle⟩
      · exact .inr hunknown
    exact not_splits_of_fault hcount hms hlen hbad venue hsplits
  · rintro ⟨rfl, hroom⟩
    rw [List.append_nil] at hlen
    obtain ⟨pkt, hok, hinto⟩ := handler_split hcount hms hlen hroom venue
    refine ⟨pkt, ?_, fun _ => hinto⟩
    rw [List.append_nil]
    exact hok

/-- Two messages of BIST, and a byte that is no type at NASDAQ. -/
theorem itchPacketHandler_splits_two :
    SplitsExactly Bist.itchTable {} .bist [[84, 0, 0, 0, 1], [83, 0, 0, 0, 1, 79]] [] ∧
      ¬SplitsExactly Nasdaq.itchTable {} .nasdaq [] [63] := by
  constructor
  · refine (itchPacketHandler_splits_iff Bist.itchTable {} .bist _ [] rfl ?_ (.inl rfl)
      (by decide)).mpr ⟨rfl, by decide⟩
    intro m hm
    rcases List.mem_pair.mp hm with rfl | rfl
    · exact ⟨84, [0, 0, 0, 1], rfl, rfl⟩
    · exact ⟨83, [0, 0, 0, 1, 79], rfl, rfl⟩
  · intro h
    have hrest := ((itchPacketHandler_splits_iff Nasdaq.itchTable {} .nasdaq [] [63] rfl
      (List.forall_mem_nil _) (.inr ⟨63, [], rfl, rfl⟩) (by decide)).mp h).1
    cases hrest

/-- 33 messages in 165 bytes, and a datagram of one byte: both leave an array. -/
theorem itchPacketHandler_leaves_arrays :
    (List.replicate 33 [(84 : UInt8), 0, 0, 0, 1]).flatten.length = 165 ∧
      (∀ m ∈ List.replicate 33 [84, 0, 0, 0, 1], ItchWellFormed Bist.itchTable m) ∧
      ¬SplitsExactly Bist.itchTable {} .bist (List.replicate 33 [84, 0, 0, 0, 1]) [] ∧
      ¬SplitsExactly Bist.itchTable {} .bist [] [63] ∧
      ¬SplitsExactly Nasdaq.itchTable {} .nasdaq [] [63] := by
  have hms : ∀ m ∈ List.replicate 33 [84, 0, 0, 0, 1], ItchWellFormed Bist.itchTable m := by
    intro m hm
    rw [List.eq_of_mem_replicate hm]
    exact ⟨84, [0, 0, 0, 1], rfl, rfl⟩
  have hlen : (List.replicate 33 [(84 : UInt8), 0, 0, 0, 1]).flatten.length = 165 := by
    rw [List.length_flatten, List.map_replicate, List.sum_replicate]
    rfl
  refine ⟨hlen, hms, ?_, ?_, ?_⟩
  · refine not_splits_of_fault rfl hms ?_ (.inl (by simp)) _
    rw [List.append_nil, hlen]
    decide
  · exact not_splits_of_fault rfl (List.forall_mem_nil _) (by decide)
      (.inr ⟨63, [], rfl, rfl⟩) _
  · exact not_splits_of_fault rfl (List.forall_mem_nil _) (by decide)
      (.inr ⟨63, [], rfl, rfl⟩) _

end TradingEngine
