/-
From packets to messages (`protocol/Parser_Dispatch.cpp`).

`parseITCH_*` splits a datagram and parses each message where it begins; `parseOUCH_*` parses
the messages where the receiver noted them.  Either way the parser is given a pointer into the
buffer of the packet, which ends behind the 2048 bytes, not behind the message.

* `parseItch_datagram` — a datagram of wire messages gives these messages, in their order,
  whatever the packet held before;
* `parseOuch_messages` — a packet of frames that carry wire messages gives these messages.
-/
import TradingEngine.ItchParser
import TradingEngine.OuchParser

namespace TradingEngine

/-! ### The loops over the messages of a packet -/

section Loop

variable {α : Type} (parse : List UInt8 → Except Fault (Option α)) (pkt : RxPacket)

/-- `for (; msg_index < pkt->msg_count; ++msg_index)`, with that many rounds to go: what is
pushed to the store. -/
def parseFrom : (rounds : ℕ) → (msgIndex : ℕ) → Except Fault (List (Option α))
  | 0, _ => .ok []
  | rounds + 1, msgIndex =>
    match pkt.offsets.toList[msgIndex]? with
    | none => .error .outOfBounds
    | some offset =>
      match parse (pkt.data.toList.drop offset) with
      | .error f => .error f
      | .ok msg => (parseFrom rounds (msgIndex + 1)).map (msg :: ·)

/-- The loop of `parseITCH_*` and `parseOUCH_*`. -/
def parseMessages : Except Fault (List (Option α)) := parseFrom parse pkt pkt.msgCount.toNat 0

end Loop

/-- `parseITCH_BIST` and `parseITCH_NASDAQ`. -/
def parseItch {α : Type} (t : ItchTable) (p : MessageParser α) (pkt : RxPacket) :
    Except Fault (List (Option α)) :=
  match itchPacketHandler t pkt with
  | .error f => .error f
  | .ok pkt => parseMessages p.parse pkt

/-- `Parser_OUCH_BIST::parse` and `Parser_OUCH_NASDAQ::parse`: the message stands behind its
header. -/
def MessageParser.parseOuch {α : Type} (p : MessageParser α) (data : List UInt8) :
    Except Fault (Option α) :=
  p.parse (data.drop 3)

/-- `parseOUCH_BIST` and `parseOUCH_NASDAQ`. -/
def parseOuch {α : Type} (p : MessageParser α) (pkt : RxPacket) : Except Fault (List (Option α)) :=
  parseMessages p.parseOuch pkt

section Loop

variable {α : Type} {parse : List UInt8 → Except Fault (Option α)} {pkt : RxPacket}

theorem parseFrom_of_forall₂ {offs : List ℕ} {msgs : List (Option α)} {msgIndex : ℕ}
    (h : List.Forall₂ (fun off msg => parse (pkt.data.toList.drop off) = .ok msg) offs msgs)
    (hoffs : offs <+: pkt.offsets.toList.drop msgIndex) :
    parseFrom parse pkt offs.length msgIndex = .ok msgs := by
  induction h generalizing msgIndex with
  | nil => rfl
  | @cons off msg offs msgs hmsg _ ih =>
    obtain ⟨rest, hrest⟩ := hoffs
    have hget : pkt.offsets.toList[msgIndex]? = some off := by
      rw [← List.head?_drop, ← hrest]
      rfl
    have hnext : offs <+: pkt.offsets.toList.drop (msgIndex + 1) := by
      rw [← List.tail_drop, ← hrest]
      exact ⟨rest, rfl⟩
    rw [List.length_cons, parseFrom, hget]
    show (match parse (pkt.data.toList.drop off) with
      | .error f => Except.error f
      | .ok msg => (parseFrom parse pkt offs.length (msgIndex + 1)).map (msg :: ·)) = _
    rw [hmsg, ih hnext]
    rfl

/-- The loop over the offsets that are set. -/
theorem parseMessages_of_forall₂ {offs : List ℕ} {msgs : List (Option α)}
    (hcount : pkt.msgCount.toNat = offs.length) (hoffs : offs <+: pkt.offsets.toList)
    (h : List.Forall₂ (fun off msg => parse (pkt.data.toList.drop off) = .ok msg) offs msgs) :
    parseMessages parse pkt = .ok msgs := by
  rw [parseMessages, hcount]
  exact parseFrom_of_forall₂ h hoffs

end Loop

/-! ### ITCH -/

/-- Each of the messages stands where it begins. -/
theorem prefix_beginnings {data rest : List UInt8} {offset : ℕ} (ms : List (List UInt8))
    (h : data.drop offset = ms.flatten ++ rest) :
    List.Forall₂ (fun off m => m <+: data.drop off) (beginnings offset ms) ms := by
  induction ms generalizing offset with
  | nil => exact .nil
  | cons m ms ih =>
    rw [List.flatten_cons, List.append_assoc] at h
    refine .cons ?_ (ih ?_)
    · rw [h]
      exact List.prefix_append _ _
    · rw [← List.drop_drop, h, List.drop_left]

section Itch

variable {α : Type} {p : MessageParser α} {t : ItchTable}

/-- What a wire message is parsed to. -/
def WireMessage.parsed (w : WireMessage p) : Option α := some w.message

/-- Splitting only notes beginnings. -/
theorem data_of_splitLoop {fuel offset : ℕ} {pkt pkt' : RxPacket}
    (h : splitLoop t fuel offset pkt = .ok pkt') : pkt'.data = pkt.data := by
  induction fuel generalizing offset pkt with
  | zero => cases h
  | succ fuel ih =>
    rw [splitLoop] at h
    split at h
    · split at h
      · cases h
      · split at h
        · cases h
        · split at h
          · have hnext := ih h
            exact hnext
          · cases h
    · rw [← Except.ok.inj h]

/-- **A datagram of messages is parsed to these messages.** -/
theorem parseItch_datagram (h : ParsesBy p t) {slot : RxPacket} (hcount : slot.msgCount = 0)
    (venue : Venue) (ws : List (WireMessage p)) (hroom : ws.length ≤ maxAppMsg)
    (hlen : (ws.flatMap WireMessage.bytes).length ≤ packetSize) :
    parseItch t p (slot.recv venue .itch (ws.flatMap WireMessage.bytes)) =
      .ok (ws.map WireMessage.parsed) := by
  have hms : ∀ m ∈ ws.map WireMessage.bytes, ItchWellFormed t m := by
    intro m hm
    obtain ⟨w, -, rfl⟩ := List.mem_map.mp hm
    exact h.wellFormed w
  have hflat : ws.flatMap WireMessage.bytes = (ws.map WireMessage.bytes).flatten :=
    List.flatMap_def
  rw [hflat] at hlen ⊢
  obtain ⟨pkt, hok, hnum, hoffs⟩ :=
    handler_split hcount hms hlen (by rwa [List.length_map]) venue
  have hdata := data_of_splitLoop hok
  have hreceived := received_recv slot venue .itch hlen
  obtain ⟨rest, hrest⟩ : (ws.map WireMessage.bytes).flatten <+: pkt.data.toList := by
    rw [← hreceived, hdata]
    exact List.take_prefix _ _
  have hstart : pkt.data.toList.drop 0 = (ws.map WireMessage.bytes).flatten ++ rest := by
    rw [List.drop_zero, hrest]
  have hat := prefix_beginnings (ws.map WireMessage.bytes) hstart
  rw [parseItch, hok]
  have hnum' : pkt.msgCount.toNat = (beginnings 0 (ws.map WireMessage.bytes)).length := by
    rw [hnum, length_beginnings]
  refine parseMessages_of_forall₂ hnum' ?_ ?_
  · rw [← hoffs]
    exact List.take_prefix _ _
  · rw [List.forall₂_map_right_iff] at hat ⊢
    refine hat.imp fun off w hw => ?_
    exact (p.parse_eq_some_iff h.complete _).mpr ⟨w, hw, rfl⟩

end Itch

/-! ### OUCH -/

section Ouch

variable {α : Type} {p : MessageParser α}

/-- The frame carries the message: its payload begins with it, and may go on with an
appendage. -/
def SoupFrame.CarriesMessage (f : SoupFrame) (w : WireMessage p) : Prop := w.bytes <+: f.payload

/-- A frame is parsed as the message it carries, whatever stands behind the frame. -/
theorem MessageParser.parseOuch_frame (hp : p.Complete) {f : SoupFrame} {w : WireMessage p}
    (h : f.CarriesMessage w) {data : List UInt8} (hdata : f.bytes <+: data) :
    p.parseOuch data = .ok (some w.message) := by
  obtain ⟨rest, rfl⟩ := hdata
  have hpayload : w.bytes <+: (f.bytes ++ rest).drop 3 :=
    h.trans (List.prefix_append f.payload rest)
  exact (p.parse_eq_some_iff hp _).mpr ⟨w, hpayload, rfl⟩

/-- A message is read where it begins. -/
theorem RxPacket.message_prefix (pkt : RxPacket) (start : ℕ) :
    pkt.message start <+: pkt.data.toList.drop start := by
  rw [RxPacket.message]
  split
  · exact List.take_prefix _ _
  · exact List.nil_prefix

/-- The messages at the places where the frames begin. -/
theorem parseOuch_places (hp : p.Complete) (pkt : RxPacket) {offs : List ℕ}
    {frames : List SoupFrame} {ws : List (WireMessage p)}
    (hcarry : List.Forall₂ SoupFrame.CarriesMessage frames ws)
    (hmsgs : offs.map pkt.message = frames.map SoupFrame.bytes) :
    List.Forall₂ (fun off msg => p.parseOuch (pkt.data.toList.drop off) = .ok msg) offs
      (ws.map WireMessage.parsed) := by
  induction hcarry generalizing offs with
  | nil =>
    rw [List.map_nil, List.map_eq_nil_iff] at hmsgs
    rw [hmsgs]
    exact .nil
  | @cons f w frames ws hfw _ ih =>
    obtain _ | ⟨off, offs⟩ := offs
    · cases hmsgs
    · rw [List.map_cons, List.map_cons, List.cons.injEq] at hmsgs
      have hstart : f.bytes <+: pkt.data.toList.drop off := by
        rw [← hmsgs.1]
        exact pkt.message_prefix off
      exact .cons (p.parseOuch_frame hp hfw hstart) (ih hmsgs.2)

/-- **A packet of frames is parsed to the messages they carry.** -/
theorem parseOuch_messages (hp : p.Complete) {pkt : RxPacket}
    (hcount : pkt.msgCount.toNat ≤ maxAppMsg) {frames : List SoupFrame} {ws : List (WireMessage p)}
    (hcarry : List.Forall₂ SoupFrame.CarriesMessage frames ws)
    (hmsgs : pkt.messages = frames.map SoupFrame.bytes) :
    parseOuch p pkt = .ok (ws.map WireMessage.parsed) := by
  have hlen : (pkt.offsets.toList.take pkt.msgCount.toNat).length = pkt.msgCount.toNat := by
    rw [List.length_take, Vector.length_toList]
    exact Nat.min_eq_left hcount
  exact parseMessages_of_forall₂ hlen.symm (List.take_prefix _ _)
    (parseOuch_places hp pkt hcarry hmsgs)

end Ouch

end TradingEngine
