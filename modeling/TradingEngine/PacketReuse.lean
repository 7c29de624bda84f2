/-
Received packets that have been used before.

The `RxPacket` objects go round: `recv` fills one from the front, a parser reads it
and `releasePacket` puts it back, resetting `msg_count` only.  Two things are left
from earlier lives: the bytes behind what was received, and the flag `consumed`, which
is always set once `parseFIX` has been through the packet.

* `consumed_of_parsed` — the flag after the loop;
* `parseFIX_eq_of_notNoticed`, `recycled_packets_alike` — the same messages come out of
  recycled and of new packets when the flag is clear wherever a message is to be
  continued, and no resumed header looks behind its packet;
* `recycled_packet_loses_message` — a packet with an earlier life that does not
  continue the message.
-/
import TradingEngine.FixBounds

namespace TradingEngine

open FixCursor FallibleRun

/-! ### The life of a packet -/

namespace RxPacket

/-- `recv` into the packet: the bytes go to the front of its buffer. -/
def recv (pkt : RxPacket) (venue : Venue) (protocol : Protocol) (segment : List UInt8) :
    RxPacket :=
  { pkt with
    data := ⟨((segment ++ pkt.data.toList.drop segment.length).take packetSize).toArray, by
      simp
      omega⟩
    len := segment.length
    venue := venue
    protocol := protocol }

/-- `NetworkIO::releasePacket`, as far as the packet goes. -/
def release (pkt : RxPacket) : RxPacket := { pkt with msgCount := 0 }

end RxPacket

/-- The loop of `parseFIX` has been through the packet and left it as `pkt'`. -/
def ParsedTo (buf : PartialFIXBuffer) (pkt pkt' : RxPacket) : Prop :=
  ∃ c msg c', Calls ⟨buf, pkt, 0⟩ c ∧ c.nextFixMsg = .ok (msg, c') ∧ c'.pkt.consumed = true ∧
    c'.pkt = pkt'

/-- A packet object as the free list holds it: constructed, where the members without
an initializer are whatever was in memory, and then used any number of times.  The other
protocols write what they like but the flag `consumed`. -/
inductive Recycled : RxPacket → Prop
  | constructed (data : Vector UInt8 packetSize) (len : ℕ) (offsets : Vector ℕ maxAppMsg)
      (venue : Venue) (protocol : Protocol) :
      Recycled
        { data := data, len := len, offsets := offsets, venue := venue, protocol := protocol }
  | fixLife {pkt pkt' : RxPacket} {buf : PartialFIXBuffer} {venue : Venue} {segment : List UInt8}
      (h : Recycled pkt) (hlen : segment.length ≤ packetSize)
      (hparsed : ParsedTo buf (pkt.recv venue .fix segment) pkt') : Recycled pkt'.release
  | otherLife {pkt pkt' : RxPacket} (h : Recycled pkt) (hflag : pkt'.consumed = pkt.consumed) :
      Recycled pkt'.release

/-- Packets that carry the segments, each in an object with some earlier lives. -/
def CarriedByRecycled (pkts : List RxPacket) (segments : List (List UInt8)) : Prop :=
  List.Forall₂ (fun pkt segment => ∃ slot venue, Recycled slot ∧
    pkt = slot.recv venue .fix segment) pkts segments

theorem received_recv (pkt : RxPacket) (venue : Venue) (protocol : Protocol)
    {segment : List UInt8} (hlen : segment.length ≤ packetSize) :
    (pkt.recv venue protocol segment).received = segment := by
  show ((segment ++ pkt.data.toList.drop segment.length).take packetSize).take segment.length = _
  rw [List.take_take, Nat.min_eq_left hlen, List.take_left]

/-! ### The flag after the loop -/

theorem pkt_of_calls {c c' : FixCursor} (h : Calls c c') :
    c'.pkt = { c.pkt with consumed := c'.pkt.consumed } := by
  induction h with
  | here c => rfl
  | next hround _ _ ih =>
    have hpkt := (nextFixMsg_frame hround).2
    rw [ih, hpkt]

/-- **A parsed packet** is as it was, with the flag set. -/
theorem consumed_of_parsed {buf : PartialFIXBuffer} {pkt pkt' : RxPacket}
    (h : ParsedTo buf pkt pkt') : pkt' = { pkt with consumed := true } := by
  obtain ⟨c, msg, c', hcalls, hround, hconsumed, rfl⟩ := h
  have hc := pkt_of_calls hcalls
  have hc' := (nextFixMsg_frame hround).2
  rw [hconsumed] at hc'
  rw [hc', hc]

/-! ### Two runs -/

/-- The call makes no difference between packets with the same received bytes. -/
structure Plain (c : FixCursor) : Prop where
  offset : c.offset < c.pkt.len
  reads : c.access.readEnd ≤ c.pkt.len

/-- **The reads of a packet** stay inside when no resumed header runs to its end. -/
theorem calls_plain {buf : PartialFIXBuffer} {pkt : RxPacket} (hpos : 0 < pkt.len)
    (hlen : pkt.len ≤ packetSize) (hstops : StopsInside buf pkt) {c : FixCursor}
    (hcalls : Calls ⟨buf, pkt, 0⟩ c) : Plain c := by
  have hplain : ∀ {c₀ c : FixCursor} {l : List UInt8}, AtMessages c₀ l → Calls c₀ c → Plain c := by
    intro c₀ c l hat hcalls
    obtain ⟨l', -, hat'⟩ := hat.leftOver_of_calls hcalls
    exact ⟨hat'.ready.offset, by rw [hat'.access_eq]⟩
  by_cases hfirst : Resumes buf pkt ∨ Skipped buf pkt
  · cases hcalls with
    | here => exact ⟨hpos, (access_first hpos hlen hfirst).2.mpr hstops⟩
    | next hround hcons hcalls =>
      have hfits : firstCopyEnd buf pkt ≤ partialFixSize := by
        by_contra h
        rw [nextFixMsg_first_overrun hpos hlen (Nat.lt_of_not_le h)] at hround
        exact absurd hround (by simp)
      cases hl : framedBytes buf pkt with
      | none =>
        obtain ⟨msg, c', hround', hlast⟩ := nextFixMsg_first_last hpos hlen hfits hl
        rw [hround, Except.ok.injEq, Prod.mk.injEq] at hround'
        rw [hround'.2, hlast] at hcons
        exact absurd hcons (by simp)
      | some l =>
        rcases nextFixMsg_first_next hpos hlen hfits hl with hat | ⟨msg, c', hround', -, hat, -⟩
        · exact hplain hat (.next hround hcons hcalls)
        · rw [hround, Except.ok.injEq, Prod.mk.injEq] at hround'
          exact hplain (hround'.2 ▸ hat) hcalls
  · exact hplain (AtMessages.of_packet hpos hlen (fun h => hfirst (.inl h))
      (fun h => hfirst (.inr h))) hcalls

/-- **The loop** makes the same of packets with the same received bytes. -/
theorem fixLoop_congr {fuel : ℕ} {buf : PartialFIXBuffer} {pkt pkt' : RxPacket} {offset : ℕ}
    (hplain : ∀ c, Calls ⟨buf, pkt, offset⟩ c → Plain c)
    (hsame : SameBelow pkt.len buf.active pkt pkt') :
    fixLoop fuel ⟨buf, pkt', offset⟩ = fixLoop fuel ⟨buf, pkt, offset⟩ := by
  induction fuel generalizing buf pkt pkt' offset with
  | zero => rfl
  | succ fuel ih =>
    -- one round reads below the received length, so it comes to the same
    have hfirst := hplain _ (.here _)
    have hout := nextFixMsg_congr hfirst.offset (hsame.mono hfirst.reads)
    cases hround : (FixCursor.mk buf pkt offset).nextFixMsg with
    | error e =>
      rw [hround] at hout
      rw [fixLoop_fault hround, fixLoop_fault (outcome_eq_error hout)]
    | ok out =>
      obtain ⟨msg, d⟩ := out
      rw [hround] at hout
      obtain ⟨d', hround', hbuf, hoff, hconsumed⟩ := outcome_eq_ok hout
      cases hcons : d.pkt.consumed with
      | true =>
        rw [fixLoop_last hround hcons, fixLoop_last hround' (hconsumed.trans hcons), hbuf]
      | false =>
        have hpkt := (nextFixMsg_frame hround).2
        have hpkt' := (nextFixMsg_frame hround').2
        have hsame' : SameBelow d.pkt.len d.buf.active d.pkt d'.pkt := by
          refine ⟨?_, ?_, fun _ => hconsumed⟩
          · rw [hpkt, hpkt']
            exact hsame.len
          · rw [hpkt, hpkt']
            exact hsame.bytes
        have hloop := ih (fun c hc => hplain c (.next hround hcons hc)) hsame'
        have hd' : d' = ⟨d.buf, d'.pkt, d.offset⟩ := by
          rw [← hbuf, ← hoff]
        rw [fixLoop_more hround hcons, fixLoop_more hround' (hconsumed.trans hcons), hd', hloop]

/-! ### Recycled and new packets -/

/-- The buffer does not notice that the packet was used before: a packet that continues
a message has a clear flag, and no resumed header runs to its end. -/
def NotNoticed (buf : PartialFIXBuffer) (pkt : RxPacket) : Prop :=
  (buf.active = true → pkt.consumed = false) ∧ StopsInside buf pkt

/-- So it is for every packet and the buffer that the earlier ones leave. -/
def NeverNoticed : PartialFIXBuffer → List RxPacket → Prop
  | _, [] => True
  | buf, pkt :: pkts =>
    NotNoticed buf pkt ∧
      ∀ msgs buf', parseFIX buf pkt = .ok (msgs, buf') → NeverNoticed buf' pkts

variable {buf : PartialFIXBuffer} {pkt new : RxPacket} {segment : List UInt8}

/-- **One packet**, used before and new. -/
theorem parseFIX_eq_of_notNoticed (hpos : 0 < pkt.len) (hlen : pkt.len ≤ packetSize)
    (hnot : NotNoticed buf pkt) (hreceived : pkt.received = segment)
    (hnew : Carries new segment) : parseFIX buf new = parseFIX buf pkt := by
  have hseg := length_received hlen
  rw [hreceived] at hseg
  have hnewlen : new.len = pkt.len := by rw [hnew.len, hseg]
  rw [parseFIX, parseFIX, hnewlen]
  refine fixLoop_congr (fun c hc => calls_plain hpos hlen hnot.2 hc)
    ⟨hnewlen, ?_, fun hactive => ?_⟩
  · have h := hnew.received.trans hreceived.symm
    rwa [RxPacket.received, RxPacket.received, hnewlen] at h
  · rw [hnew.fresh, hnot.1 hactive]

/-- **Every run of packets.** -/
theorem parsePackets_eq_of_neverNoticed {pkts news : List RxPacket} {segments : List (List UInt8)}
    (hpkts : CarriedByRecycled pkts segments) (hnews : List.Forall₂ Carries news segments)
    (hne : ∀ segment ∈ segments, segment ≠ [])
    (hlen : ∀ segment ∈ segments, segment.length ≤ packetSize) (buf : PartialFIXBuffer)
    (hnot : NeverNoticed buf pkts) : parsePackets buf pkts = parsePackets buf news := by
  induction hpkts generalizing news buf with
  | nil =>
    cases hnews
    rfl
  | @cons pkt segment pkts segments hpkt hpkts ih =>
    cases hnews with
    | @cons new _ news _ hnew hnews =>
      obtain ⟨slot, venue, -, rfl⟩ := hpkt
      have hle := hlen segment (by simp)
      have hparse := parseFIX_eq_of_notNoticed (List.length_pos_iff.mpr (hne segment (by simp))) hle
        hnot.1 (received_recv slot venue .fix hle) hnew
      rw [parsePackets, parsePackets, hparse]
      cases hround : parseFIX buf (slot.recv venue .fix segment) with
      | error e => rfl
      | ok out =>
        obtain ⟨msgs, buf'⟩ := out
        simp only [bind, Except.bind]
        rw [ih hnews (fun s hs => hne s (by simp [hs])) (fun s hs => hlen s (by simp [hs])) buf'
          (hnot.2 msgs buf' hround)]

/-! ### One message in two packets, the second used before -/

/-- A packet through which a whole message was received before. -/
def usedSlot : RxPacket :=
  { RxPacket.recv {} .bist .fix shortFrame.bytes with consumed := true }.release

theorem recv_carries {slot : RxPacket} (hfresh : slot.consumed = false) (venue : Venue)
    (hlen : segment.length ≤ packetSize) : Carries (slot.recv venue .fix segment) segment where
  received := received_recv slot venue .fix hlen
  len := rfl
  fresh := hfresh

theorem recycled_new : Recycled {} := .constructed _ _ _ _ _

theorem recycled_usedSlot : Recycled usedSlot := by
  have hcarry : Carries (({} : RxPacket).recv .bist .fix shortFrame.bytes) shortFrame.bytes :=
    recv_carries rfl .bist (by decide)
  have hready := hcarry.ready (by decide) {}
  obtain ⟨c', hround, hconsumed, -⟩ := frameMsg_last (f := shortFrame) hready ⟨rfl, rfl, rfl⟩
    (hcarry.rest {})
  have hparsed : ParsedTo {} (RxPacket.recv {} .bist .fix shortFrame.bytes) c'.pkt :=
    ⟨_, _, c', .here _, (nextFixMsg_idle hready ⟨rfl, rfl, rfl⟩).trans hround, hconsumed, rfl⟩
  have h := Recycled.fixLife recycled_new (by decide) hparsed
  rwa [consumed_of_parsed hparsed] at h

/-- **A recycled packet.**  The message is received in two packets; in new ones it is
handed out, and when the second was used before, it is not. -/
theorem recycled_packet_loses_message :
    CarriedByRecycled [RxPacket.recv {} .bist .fix (shortFrame.bytes.take 9),
      usedSlot.recv .bist .fix (shortFrame.bytes.drop 9)] (shortCut 9) ∧
    (∃ buf, parsePackets {} [RxPacket.recv {} .bist .fix (shortFrame.bytes.take 9),
      usedSlot.recv .bist .fix (shortFrame.bytes.drop 9)] = .ok ([], buf)) ∧
    List.Forall₂ Carries ((shortCut 9).map (RxPacket.recv {} .bist .fix)) (shortCut 9) ∧
    ∃ buf, parsePackets {} ((shortCut 9).map (RxPacket.recv {} .bist .fix)) =
      .ok ([shortFrame.bytes], buf) := by
  refine ⟨?_, ⟨_, rfl⟩, ?_, ⟨_, rfl⟩⟩
  · exact .cons ⟨{}, .bist, recycled_new, rfl⟩
      (.cons ⟨usedSlot, .bist, recycled_usedSlot, rfl⟩ .nil)
  · exact .cons (recv_carries rfl .bist (by decide))
      (.cons (recv_carries rfl .bist (by decide)) .nil)

/-- A whole message is handed out of a used packet as of a new one. -/
theorem parsePackets_eq_of_neverNoticed_short :
    parsePackets {} [usedSlot.recv .bist .fix shortFrame.bytes] =
      parsePackets {} [RxPacket.recv {} .bist .fix shortFrame.bytes] :=
  parsePackets_eq_of_neverNoticed
    (.cons ⟨usedSlot, .bist, recycled_usedSlot, rfl⟩ .nil)
    (.cons (recv_carries rfl .bist (by decide)) .nil) (by decide) (by decide) {}
    ⟨⟨fun h => absurd h Bool.false_ne_true, fun h => absurd h.1 Bool.false_ne_true⟩,
      fun _ _ _ => trivial⟩

end TradingEngine
