/-
Reassembly of a SoupBinTCP stream.

A `SoupFeed` is an OUCH session together with its place in the stream of packets
the exchange sends.  `handed` are the messages the OUCH parser finds in the
packets the session has pushed so far.

`SBTPacketHandler` copes with a segment (`Handled`) when it brings what the
pending packet misses and the remainder of the segment is of one kind: sequenced
packets only, other packets only, or the beginning of one packet only.  The
pending packet must be a sequenced one, since a completed packet is pushed
whatever its type, and where only one length byte is pending the second must be
below `0x80`, since the bytes are signed.

* `soup_reassembly` — in every run over such segments the messages handed to the
  parser are the sequenced packets of the stream, in order and byte for byte;
* `heartbeat_hides_message` — a sequenced packet and a heartbeat in one segment:
  the message is never handed over.
-/
import TradingEngine.SoupScan

namespace TradingEngine

open FallibleRun StreamFraming

/-- An OUCH session and its place in the stream. -/
structure SoupFeed where
  reader : Reader
  place : ℕ := 0
  frames : List SoupFrame

/-- The messages in the packets pushed so far. -/
def Reader.handed (r : Reader) : List (List UInt8) := r.state.pushed.flatMap (·.pkt.messages)

/-- The bytes of a segment are of one kind: sequenced packets, other packets, or the
beginning of one packet. -/
def OneKind (frames : List SoupFrame) (n : ℕ) : Prop :=
  (advance SoupFrame.bytes 0 frames n).1 = [] ∨
    (advance SoupFrame.bytes 0 frames n).2.1 = 0 ∧
      ((∀ f ∈ (advance SoupFrame.bytes 0 frames n).1, f.kind = .sequenced) ∨
        ∀ f ∈ (advance SoupFrame.bytes 0 frames n).1, f.kind ≠ .sequenced)

/-- A segment of `n` bytes that the handler copes with, `k` bytes into the first frame. -/
def Handled : ℕ → List SoupFrame → ℕ → Prop
  | 0, frames, n => OneKind frames n
  | _ + 1, [], _ => True
  | k + 1, f :: fs, n =>
    f.bytes.length ≤ k + 1 + n ∧ f.kind = .sequenced ∧ (k = 0 → f.lo.toNat < 0x80) ∧
      OneKind fs (k + 1 + n - f.bytes.length)

namespace SoupFeed

/-- A move of the session; a received segment leads on in the stream. -/
def step (s : SoupFeed) (m : ReadMove) : Except Fault SoupFeed := do
  let r ← s.reader.step m
  match m, s.reader.pc with
  | .recv segment _ _, .recv =>
    let a := advance SoupFrame.bytes s.place s.frames segment.length
    .ok { reader := r, place := a.2.1, frames := a.2.2 }
  | _, _ => .ok { s with reader := r }

/-- What is received is the stream, in segments of 1 to 2048 bytes with at most 32
packets, and neither the queue to the parser nor the free list is exhausted. -/
def Offered (s : SoupFeed) : ReadMove → Prop
  | .recv segment _ spare =>
    s.reader.pc = .recv →
      segment ≠ [] ∧ segment.length ≤ packetSize ∧
        segment <+: (stream SoupFrame.bytes s.frames).drop s.place ∧
        (advance SoupFrame.bytes s.place s.frames segment.length).1.length ≤ maxAppMsg ∧
        spare.isSome
  | .run => s.reader.state.queued < packetQueueCapacity
  | _ => True

/-- The handler copes with the segment. -/
def Copes (s : SoupFeed) : ReadMove → Prop
  | .recv segment _ _ => s.reader.pc = .recv → Handled s.place s.frames segment.length
  | _ => True

/-- A fresh OUCH session at the beginning of the stream. -/
def start (frames : List SoupFrame) (pend : CustomQueue RxEntry pendingCapacity) : SoupFeed :=
  { reader := { protocol := .ouch, state := { pend := pend } }, frames := frames }

end SoupFeed

/-! ### The segment in hand -/

/-- The pending queue holds the bytes received of the first frame. -/
def Waiting (s : ReadState) (k : ℕ) (frames : List SoupFrame) : Prop :=
  (k = 0 ∧ s.pend.items = []) ∨
    ∃ f fs e, frames = f :: fs ∧ 0 < k ∧ k < f.bytes.length ∧ s.pend.items = [e] ∧ Part e.pkt f k

/-- The bytes `l` of the stream of `fs` are of one kind and lead to a place. -/
structure Leads (l : List UInt8) (fs : List SoupFrame) (place : ℕ) (frames : List SoupFrame) :
    Prop where
  isPrefix : l <+: stream SoupFrame.bytes fs
  oneKind : OneKind fs l.length
  leads : (advance SoupFrame.bytes 0 fs l.length).2 = (place, frames)
  count : (advance SoupFrame.bytes 0 fs l.length).1.length ≤ maxAppMsg

/-- What a segment can hold: nothing, the beginning of a frame, sequenced frames or
other frames. -/
theorem leads_cases {l : List UInt8} {fs frames : List SoupFrame} {place : ℕ}
    (h : Leads l fs place frames) :
    (l = [] ∧ place = 0 ∧ frames = fs) ∨
    (∃ f fs', fs = f :: fs' ∧ frames = fs ∧ 0 < place ∧ place < f.bytes.length ∧
      l = f.bytes.take place) ∨
    (∃ done, fs = done ++ frames ∧ place = 0 ∧ l = stream SoupFrame.bytes done ∧
      done.length ≤ maxAppMsg ∧ l ≠ [] ∧ done ≠ [] ∧
      ((∀ f ∈ done, f.kind = .sequenced) ∨ ∀ f ∈ done, f.kind ≠ .sequenced)) := by
  have hleads := h.leads
  by_cases hl : l = []
  · subst hl
    rw [List.length_nil, advance_zero (inside_zero SoupFrame.length_bytes_pos fs),
      Prod.mk.injEq] at hleads
    exact .inl ⟨rfl, hleads.1.symm, hleads.2.symm⟩
  right
  have htake : l = (stream SoupFrame.bytes fs).take l.length := by
    obtain ⟨more, hmore⟩ := h.isPrefix
    rw [← hmore, List.take_left]
  have hpos : 0 < l.length := List.length_pos_iff.mpr hl
  -- no frame is complete: there is one at most, and it has begun
  by_cases hnil : (advance SoupFrame.bytes 0 fs l.length).1 = []
  · left
    cases fs with
    | nil =>
      rw [stream_nil, List.take_nil] at htake
      exact absurd htake hl
    | cons f fs' =>
      by_cases hlt : 0 + l.length < f.bytes.length
      · rw [advance_of_lt hlt, Nat.zero_add, Prod.mk.injEq] at hleads
        obtain ⟨rfl, rfl⟩ := hleads
        refine ⟨f, fs', rfl, rfl, hpos, by omega, ?_⟩
        rw [stream_cons, List.take_append_of_le_length (by omega)] at htake
        exact htake
      · rw [advance_of_le (by omega)] at hnil
        exact absurd hnil (by simp)
  · right
    rcases h.oneKind with hk | ⟨hzero, hkind⟩
    · exact absurd hk hnil
    · have happ : (advance SoupFrame.bytes 0 fs l.length).1 ++
          (advance SoupFrame.bytes 0 fs l.length).2.2 = fs := advance_append 0 fs l.length
      have hdrop : (stream SoupFrame.bytes (advance SoupFrame.bytes 0 fs l.length).2.2).drop
          (advance SoupFrame.bytes 0 fs l.length).2.1 =
            ((stream SoupFrame.bytes fs).drop 0).drop l.length := drop_advance 0 fs l.length
      rw [hleads] at hzero happ hdrop
      dsimp only at hzero happ hdrop
      subst hzero
      refine ⟨_, happ.symm, rfl, ?_, h.count, hl, hnil, hkind⟩
      · -- what is left of the stream cancels
        rw [List.drop_zero, List.drop_zero] at hdrop
        have hsplit := List.take_append_drop l.length (stream SoupFrame.bytes fs)
        rw [← htake, ← hdrop] at hsplit
        conv at hsplit => rhs; rw [← happ, stream_append]
        exact List.append_cancel_right hsplit

/-! ### The steps of the receiving thread -/

namespace Reader

variable {r : Reader} {st : ReadState} {rx : RxEntry} {offset : ℕ} {spare : Option FreePacket}

theorem run_drain {again : Bool} (hpc : r.pc = .drain) (h : r.state.drainRound = (again, st)) :
    r.run = .ok { r with state := st, pc := if again then .drain else .recv } := by
  rw [run, hpc]
  dsimp only
  rw [h]

theorem run_pending {again : Bool} {offset' : ℕ} (hpc : r.pc = .pending rx offset spare)
    (h : r.state.pendingRound rx offset = .ok (again, st, offset')) :
    r.run = .ok { r with
      state := st
      pc := if again then .pending rx offset' spare else .scan rx offset' spare } := by
  rw [run, hpc]
  dsimp only
  rw [h]
  rfl

theorem run_scan {out : Option RxEntry} (hpc : r.pc = .scan rx offset spare)
    (h : r.state.finishSbt rx offset spare = .ok (out, st)) :
    r.run = .ok { r with state := st, pc := out.elim .idle .deliver } := by
  rw [run, hpc]
  dsimp only
  rw [h]
  cases out <;> rfl

theorem run_deliver (hpc : r.pc = .deliver rx) (h : r.state.deliver rx = .ok st) :
    r.run = .ok { r with state := st, pc := .idle } := by
  rw [run, hpc]
  dsimp only
  rw [h]
  rfl

/-- A segment of an OUCH session is received into a packet of its own. -/
theorem step_recv {segment : List UInt8} (free : FreePacket) (spare : Option FreePacket)
    (hpc : r.pc = .recv) (houch : r.protocol = .ouch) (hne : segment ≠ [])
    (hfits : segment.length ≤ packetSize) :
    ∃ pkt r',
      Holding pkt 0 segment ∧ pkt.msgCount = 0 ∧ pkt.isPartial = false ∧
      r' = { r with
        state := { r.state with recvCount := r.state.recvCount + 1 }
        pc := .pending ⟨pkt, r.state.recvCount + 1, r.state.recvCount + 1⟩ 0 spare } ∧
      r.step (.recv segment free spare) = .ok r' := by
  obtain ⟨data, hdata, hread⟩ := writeAt_of_le free.pkt.data 0 segment (by omega)
  rw [Nat.zero_add, List.take_zero, List.nil_append] at hread
  refine ⟨{ free.pkt with data := data, len := segment.length, protocol := r.protocol }, _,
    ⟨hfits, Nat.zero_le _, hread⟩, free.msgCount, free.whole, rfl, ?_⟩
  have hpkt : receivePacket free segment r.protocol =
      .ok { free.pkt with data := data, len := segment.length, protocol := r.protocol } := by
    rw [receivePacket, hdata]
    rfl
  rw [step, hpc]
  dsimp only
  rw [if_neg hne, receive, hpkt]
  show Except.ok (⟨_, _, if r.protocol = Protocol.ouch then _ else _⟩ : Reader) = _
  rw [if_pos houch]

end Reader

namespace SoupFeed

variable {s : SoupFeed} {rx : RxEntry} {offset : ℕ} {spare : Option FreePacket}
  {all : List (List UInt8)}

/-- Nothing is pending, and the rest of the segment begins with a frame. -/
structure Fresh (all : List (List UInt8)) (s : SoupFeed) (rx : RxEntry) (offset : ℕ) : Prop where
  msgCount : rx.pkt.msgCount = 0
  empty : s.reader.state.pend.items = []
  rest : ∃ l fs, Holding rx.pkt offset l ∧ Leads l fs s.place s.frames ∧
    s.reader.handed ++ sequenced fs = all

/-- A frame is pending, and the segment begins with what it misses. -/
structure Resuming (all : List (List UInt8)) (s : SoupFeed) (rx : RxEntry) : Prop where
  msgCount : rx.pkt.msgCount = 0
  rest : ∃ l f fs k e, s.reader.state.pend.items = [e] ∧ Part e.pkt f k ∧ 0 < k ∧
    k < f.bytes.length ∧ (k = 1 → f.lo.toNat < 0x80) ∧
    Holding rx.pkt 0 (f.bytes.drop k ++ l) ∧ Leads l fs s.place s.frames ∧
    s.reader.handed ++ f.bytes :: sequenced fs = all

/-- What is known at each point of the event. -/
def AtPc (all : List (List UInt8)) (s : SoupFeed) : ReadPc → Prop
  | .idle | .drain | .recv =>
    Waiting s.reader.state s.place s.frames ∧ s.reader.handed ++ sequenced s.frames = all
  | .pending rx offset spare =>
    spare.isSome ∧ (Fresh all s rx offset ∨ offset = 0 ∧ Resuming all s rx)
  | .scan rx offset spare => spare.isSome ∧ Fresh all s rx offset
  | .deliver rx =>
    s.place = 0 ∧ s.reader.state.pend.items = [] ∧
      s.reader.handed ++ rx.pkt.messages ++ sequenced s.frames = all

/-- The invariant of a session that receives a stream. -/
structure InStep (all : List (List UInt8)) (s : SoupFeed) : Prop where
  ouch : s.reader.protocol = .ouch
  atPc : AtPc all s s.reader.pc

theorem step_of_reader {m : ReadMove} {r : Reader}
    (hm : (∀ segment free spare, m ≠ .recv segment free spare) ∨ s.reader.pc ≠ .recv)
    (h : s.reader.step m = .ok r) : s.step m = .ok { s with reader := r } := by
  rw [step, h]
  simp only [Bind.bind, Except.bind]
  split
  · rename_i hpc
    rcases hm with hm | hm
    · exact absurd rfl (hm _ _ _)
    · exact absurd hpc hm
  · rfl

/-- The drain leaves the partial packet where it is. -/
theorem waiting_drainRound {st : ReadState} {k : ℕ} {frames : List SoupFrame}
    (h : Waiting st k frames) :
    ∃ st', st.drainRound = (false, st') ∧ Waiting st' k frames ∧ st'.pushed = st.pushed := by
  rcases h with ⟨hk, hnil⟩ | ⟨f, fs, e, hf, hpos, hin, hone, hpart⟩
  · refine ⟨st, ?_, .inl ⟨hk, hnil⟩, rfl⟩
    rw [ReadState.drainRound, RingBuffer.pop_eq_none_iff.mpr hnil]
  · cases hpop : st.pend.pop with
    | none =>
      rw [RingBuffer.pop_eq_none_iff.mp hpop] at hone
      exact absurd hone (by simp)
    | some p =>
      obtain ⟨e', q⟩ := p
      have hitems := RingBuffer.items_pop hpop
      rw [hone, List.cons.injEq] at hitems
      obtain ⟨rfl, hnil⟩ := hitems
      refine ⟨{ st with pend := q.push e }, ?_, .inr ⟨f, fs, e, hf, hpos, hin, ?_, hpart⟩, rfl⟩
      · rw [ReadState.drainRound, hpop]
        exact if_pos hpart.isPartial
      · exact CustomQueue.items_push_of_nil (by decide) hnil.symm

/-- With room in the queue a packet is pushed at once. -/
theorem pushOrPend_of_room (st : ReadState) (h : st.queued < packetQueueCapacity) (e : RxEntry) :
    st.pushOrPend e = { st with queued := st.queued + 1, pushed := st.pushed ++ [e] } := by
  rw [ReadState.pushOrPend, ReadState.tryPush, if_pos h]

theorem handed_push {r : Reader} {st : ReadState} {e : RxEntry} {pc : ReadPc}
    (h : st.pushed = r.state.pushed ++ [e]) :
    { r with state := st, pc := pc : Reader }.handed = r.handed ++ e.pkt.messages := by
  show st.pushed.flatMap _ = _
  rw [h, List.flatMap_append, List.flatMap_singleton]
  rfl

/-- The pending packet is completed and pushed. -/
theorem inStep_resume (hr : s.reader.protocol = .ouch) (hsp : spare.isSome)
    (h : Resuming all s rx) (hpc : s.reader.pc = .pending rx 0 spare)
    (hroom : s.reader.state.queued < packetQueueCapacity) :
    ∃ r, s.reader.run = .ok r ∧ InStep all { s with reader := r } := by
  obtain ⟨hcount, l, f, fs, k, e, hone, hpart, hpos, hin, hlow, hhold, hleads, hall⟩ := h
  obtain ⟨e', hfill, hmsgs, htaken⟩ := fillPending_completes hpart hin hlow hhold
  cases hpop : s.reader.state.pend.pop with
  | none =>
    rw [RingBuffer.pop_eq_none_iff.mp hpop] at hone
    exact absurd hone (by simp)
  | some p =>
    obtain ⟨e'', q⟩ := p
    have hitems := RingBuffer.items_pop hpop
    rw [hone, List.cons.injEq] at hitems
    obtain ⟨rfl, hnil⟩ := hitems
    have hround : s.reader.state.pendingRound rx 0 =
        .ok (true, { s.reader.state with pend := q }.pushOrPend e', f.bytes.length - k) := by
      rw [ReadState.pendingRound, hpop]
      dsimp only
      rw [if_pos hpart.isPartial, hfill]
      show Except.ok (true, _, 0 + takeCount _ _) = _
      rw [htaken, Nat.zero_add]
    have hpush := pushOrPend_of_room { s.reader.state with pend := q } hroom e'
    refine ⟨_, Reader.run_pending hpc hround, hr, hsp, .inl ?_⟩
    rw [hpush]
    refine ⟨hcount, hnil.symm, l, fs, ?_, hleads, ?_⟩
    · have hadv := hhold.advance
      rw [Nat.zero_add, List.length_drop] at hadv
      exact hadv
    · rw [handed_push (e := e') rfl, hmsgs, List.append_assoc]
      exact hall

/-- With nothing pending the thread goes on to the rest of the segment. -/
theorem inStep_pending (hr : s.reader.protocol = .ouch) (hsp : spare.isSome)
    (h : Fresh all s rx offset) (hpc : s.reader.pc = .pending rx offset spare) :
    ∃ r, s.reader.run = .ok r ∧ InStep all { s with reader := r } := by
  have hround : s.reader.state.pendingRound rx offset = .ok (false, s.reader.state, offset) := by
    rw [ReadState.pendingRound, RingBuffer.pop_eq_none_iff.mpr h.empty]
  exact ⟨_, Reader.run_pending hpc hround, hr, hsp, h.msgCount, h.empty, h.rest⟩

/-- The scan hands on the segment of sequenced packets, stashes the beginning of a
frame, and drops the other packets. -/
theorem inStep_scan (hr : s.reader.protocol = .ouch) (hsp : spare.isSome)
    (h : Fresh all s rx offset) (hpc : s.reader.pc = .scan rx offset spare) :
    ∃ r, s.reader.run = .ok r ∧ InStep all { s with reader := r } := by
  obtain ⟨hcount, hnil, l, fs, hhold, hleads, hall⟩ := h
  have hlen := hhold.length_eq
  have hin := hhold.inside
  have hempty : l = [] → s.reader.state.finishSbt rx offset spare = .ok (none, s.reader.state) := by
    intro hl
    rw [hl, List.length_nil] at hlen
    rw [ReadState.finishSbt, if_pos (by omega)]
  have hmore : l ≠ [] → offset < rx.pkt.len := by
    intro hl
    have hpos := List.length_pos_iff.mpr hl
    omega
  rcases leads_cases hleads with ⟨hl, hplace, hframes⟩ |
    ⟨f, fs', rfl, hframes, hpos, hlt, hl⟩ | ⟨done, hdone, hplace, hl, hmax, hne, hdone', hkind⟩
  · -- nothing is left
    exact ⟨_, Reader.run_scan hpc (hempty hl), hr, .inl ⟨hplace, hnil⟩, by rw [hframes]; exact hall⟩
  · -- the beginning of a frame
    obtain ⟨free, rfl⟩ := Option.isSome_iff_exists.mp hsp
    obtain ⟨e, hres, hpart⟩ := sbtScan_fragment maxAppMsg free hpos hlt (hl ▸ hhold)
    have hne : l ≠ [] := by
      intro hnil
      have hzero := congrArg List.length hl
      rw [hnil, List.length_take, List.length_nil] at hzero
      omega
    refine ⟨_, Reader.run_scan hpc (s.reader.state.finishSbt_of_scan (hmore hne) hres), hr,
      .inr ⟨f, fs', e, hframes, hpos, hlt, ?_, hpart⟩, by rw [hframes]; exact hall⟩
    exact CustomQueue.items_push_of_nil (by decide) hnil
  · -- whole frames, of one kind
    rcases hkind with hseq | hother
    · have hall' : s.reader.handed ++ done.map SoupFrame.bytes ++ sequenced s.frames = all := by
        have hsame : sequenced done = done.map SoupFrame.bytes := by
          rw [sequenced, List.filter_eq_self.mpr (by simpa using hseq)]
        rw [hdone, sequenced_append, hsame, ← List.append_assoc] at hall
        exact hall
      obtain ⟨rx', hres, hmsgs⟩ := sbtScan_sequenced (maxAppMsg + 1) spare done
        hseq (by omega) (by rw [hcount]; show 0 + _ ≤ _; omega) (hl ▸ hhold)
      rw [RxPacket.messages_of_msgCount hcount, List.nil_append] at hmsgs
      refine ⟨_, Reader.run_scan hpc (s.reader.state.finishSbt_of_scan (hmore hne) hres), hr, hplace,
        hnil, ?_⟩
      rw [hmsgs]
      exact hall'
    · obtain ⟨f, done', rfl⟩ := List.exists_cons_of_ne_nil hdone'
      rw [stream_cons] at hl
      have hres := sbtScan_other maxAppMsg spare
        (hother f List.mem_cons_self) (hl ▸ hhold)
      refine ⟨_, Reader.run_scan hpc (s.reader.state.finishSbt_of_scan (hmore hne) hres), hr,
        .inl ⟨hplace, hnil⟩, ?_⟩
      rw [hdone, sequenced_append, sequenced_eq_nil hother, List.nil_append] at hall
      exact hall

theorem inStep_deliver (hr : s.reader.protocol = .ouch) (hplace : s.place = 0)
    (hnil : s.reader.state.pend.items = [])
    (hall : s.reader.handed ++ rx.pkt.messages ++ sequenced s.frames = all)
    (hpc : s.reader.pc = .deliver rx) (hroom : s.reader.state.queued < packetQueueCapacity) :
    ∃ r, s.reader.run = .ok r ∧ InStep all { s with reader := r } := by
  have hdel : s.reader.state.deliver rx =
      .ok { s.reader.state with
        queued := s.reader.state.queued + 1
        pushed := s.reader.state.pushed ++ [rx] } := by
    rw [ReadState.deliver, ReadState.tryPush, if_pos hroom]
  refine ⟨_, Reader.run_deliver hpc hdel, hr, .inl ⟨hplace, hnil⟩, ?_⟩
  rw [handed_push (e := rx) rfl]
  exact hall

/-- A received segment: what it holds, behind what was pending. -/
theorem inStep_receive {segment : List UInt8} {free : FreePacket}
    (h : InStep all s) (hpc : s.reader.pc = .recv) (hoff : s.Offered (.recv segment free spare))
    (hcopes : s.Copes (.recv segment free spare)) :
    ∃ s', s.step (.recv segment free spare) = .ok s' ∧ InStep all s' := by
  obtain ⟨hne, hfits, hpre, hmax, hsp⟩ := hoff hpc
  have hhand := hcopes hpc
  have hat := h.atPc
  rw [hpc] at hat
  obtain ⟨hwait, hall⟩ := hat
  obtain ⟨pkt, r, hhold, hcount, hwhole, hr, hstep⟩ :=
    Reader.step_recv free spare hpc h.ouch hne hfits
  let a := advance SoupFrame.bytes s.place s.frames segment.length
  have hstep' : s.step (.recv segment free spare) =
      .ok { reader := r, place := a.2.1, frames := a.2.2 } := by
    rw [step, hstep]
    show (match ReadMove.recv segment free spare, s.reader.pc with
      | .recv segment _ _, .recv => Except.ok _
      | _, _ => _) = _
    rw [hpc]
  subst hr
  refine ⟨_, hstep', h.ouch, hsp, ?_⟩
  rcases hwait with ⟨hk, hnil⟩ | ⟨f, fs, e, hf, hpos, hin, hone, hpart⟩
  · -- nothing is pending: the segment begins with a frame
    left
    refine ⟨hcount, hnil, segment, s.frames, hhold, ⟨?_, ?_, ?_, ?_⟩, hall⟩
    · rw [hk, List.drop_zero] at hpre
      exact hpre
    · rw [hk] at hhand
      exact hhand
    · show _ = (advance SoupFrame.bytes s.place s.frames segment.length).2
      rw [hk]
    · rw [hk] at hmax
      exact hmax
  · -- the pending frame is completed
    right
    obtain ⟨k, hk⟩ : ∃ k, s.place = k + 1 := ⟨s.place - 1, by omega⟩
    rw [hk, hf] at hhand
    obtain ⟨hlen, hkind, hlow, hrest⟩ := hhand
    rw [← hk] at hlen hrest
    rw [hf] at hpre
    obtain ⟨l, hseg, hl, hlen', hadvance⟩ := advance_completes hpre hin.le hlen
    have hadv : a = (f :: (advance SoupFrame.bytes 0 fs l.length).1,
        (advance SoupFrame.bytes 0 fs l.length).2) := by
      show advance SoupFrame.bytes s.place s.frames segment.length = _
      rw [hf]
      exact hadvance
    rw [hseg] at hhold
    rw [← hlen'] at hrest
    rw [hf, sequenced_cons_of_eq hkind] at hall
    have hmax' : a.1.length ≤ maxAppMsg := hmax
    rw [hadv, List.length_cons] at hmax'
    refine ⟨rfl, hcount, l, f, fs, s.place, e, hone, hpart, hpos, hin,
      fun h => hlow (by omega), hhold, ⟨hl, hrest, ?_, by omega⟩, hall⟩
    show _ = a.2
    rw [hadv]

/-- The number of packets in the parser's queue plays no part in the invariant. -/
theorem inStep_queued (h : InStep all s) (n : ℕ) :
    InStep all
      { s with reader := { s.reader with state := { s.reader.state with queued := n } } } := by
  refine ⟨h.ouch, ?_⟩
  have hat := h.atPc
  show AtPc all _ s.reader.pc
  cases hpc : s.reader.pc with
  | idle | drain | recv =>
    rw [hpc] at hat
    exact hat
  | pending rx offset spare =>
    rw [hpc] at hat
    rcases hat with ⟨hsp, hf | ⟨h0, hres⟩⟩
    · exact ⟨hsp, .inl ⟨hf.msgCount, hf.empty, hf.rest⟩⟩
    · exact ⟨hsp, .inr ⟨h0, hres.msgCount, hres.rest⟩⟩
  | scan rx offset spare =>
    rw [hpc] at hat
    exact ⟨hat.1, hat.2.msgCount, hat.2.empty, hat.2.rest⟩
  | deliver rx =>
    rw [hpc] at hat
    exact hat

/-- A step of the thread. -/
theorem inStep_run (h : InStep all s) (hroom : s.reader.state.queued < packetQueueCapacity) :
    ∃ r, s.reader.run = .ok r ∧ InStep all { s with reader := r } := by
  have hat := h.atPc
  cases hpc : s.reader.pc with
  | idle | recv => exact ⟨s.reader, by rw [Reader.run, hpc], h⟩
  | drain =>
    rw [hpc] at hat
    obtain ⟨hwait, hall⟩ := hat
    obtain ⟨st, hround, hwait', hpushed⟩ := waiting_drainRound hwait
    refine ⟨_, Reader.run_drain hpc hround, h.ouch, hwait', ?_⟩
    show st.pushed.flatMap _ ++ _ = _
    rw [hpushed]
    exact hall
  | pending rx offset spare =>
    rw [hpc] at hat
    rcases hat with ⟨hsp, hf | ⟨rfl, hres⟩⟩
    · exact inStep_pending h.ouch hsp hf hpc
    · exact inStep_resume h.ouch hsp hres hpc hroom
  | scan rx offset spare =>
    rw [hpc] at hat
    exact inStep_scan h.ouch hat.1 hat.2 hpc
  | deliver rx =>
    rw [hpc] at hat
    exact inStep_deliver h.ouch hat.1 hat.2.1 hat.2.2 hpc hroom

/-- Between two points of the event where nothing is in hand. -/
theorem inStep_pc (h : InStep all s) (hpc : AtPc all s s.reader.pc = AtPc all s .idle)
    {pc : ReadPc} (hpc' : pc = .idle ∨ pc = .drain) (closed : Bool) :
    InStep all
      { s with
        reader :=
          { s.reader with state := { s.reader.state with closed := closed }, pc := pc } } := by
  have hat := h.atPc
  rw [hpc] at hat
  rcases hpc' with rfl | rfl
  · exact ⟨h.ouch, hat⟩
  · exact ⟨h.ouch, hat⟩

/-- **One move.**  A segment the handler copes with keeps the session in step with the
stream, and nothing else disturbs it. -/
theorem inStep_step {m : ReadMove} (h : InStep all s) (hoff : s.Offered m) (hcopes : s.Copes m) :
    ∃ s', s.step m = .ok s' ∧ InStep all s' := by
  have hreader : ∀ {r}, (∀ segment free spare, m ≠ .recv segment free spare) →
      s.reader.step m = .ok r → InStep all { s with reader := r } →
      ∃ s', s.step m = .ok s' ∧ InStep all s' :=
    fun hm hr hinv => ⟨_, step_of_reader (.inl hm) hr, hinv⟩
  cases m with
  | parserPop => exact hreader (by simp) rfl (inStep_queued h _)
  | otherPush =>
    by_cases hroom : s.reader.state.queued < packetQueueCapacity
    · exact hreader (by simp) (if_pos hroom) (inStep_queued h _)
    · exact hreader (by simp) (if_neg hroom) h
  | epollin =>
    cases hpc : s.reader.pc with
    | idle =>
      refine hreader (by simp) (by rw [Reader.step, hpc]) (inStep_pc h (by rw [hpc]) ?_ _)
      by_cases hc : s.reader.state.closed = true
      · exact .inl (if_pos hc)
      · exact .inr (if_neg hc)
    | drain | recv | pending | scan | deliver =>
      exact hreader (by simp) (by rw [Reader.step, hpc]) h
  | noPacket | recvAgain =>
    cases hpc : s.reader.pc with
    | recv =>
      exact hreader (by simp) (by rw [Reader.step, hpc])
        (inStep_pc h (by rw [hpc]; rfl) (.inl rfl) _)
    | idle | drain | pending | scan | deliver =>
      exact hreader (by simp) (by rw [Reader.step, hpc]) h
  | recvInterrupted =>
    cases hpc : s.reader.pc with
    | recv =>
      exact hreader (by simp) (by rw [Reader.step, hpc])
        (inStep_pc h (by rw [hpc]; rfl) (.inr rfl) _)
    | idle | drain | pending | scan | deliver =>
      exact hreader (by simp) (by rw [Reader.step, hpc]) h
  | recvClosed =>
    cases hpc : s.reader.pc with
    | recv =>
      exact hreader (by simp) (by rw [Reader.step, hpc])
        (inStep_pc h (by rw [hpc]; rfl) (.inl rfl) true)
    | idle | drain | pending | scan | deliver =>
      exact hreader (by simp) (by rw [Reader.step, hpc]) h
  | run =>
    obtain ⟨r, hrun, hinv⟩ := inStep_run h hoff
    exact hreader (by simp) hrun hinv
  | recv segment free spare =>
    by_cases hpc : s.reader.pc = .recv
    · exact inStep_receive h hpc hoff hcopes
    · refine ⟨_, step_of_reader (.inr hpc) (r := s.reader) ?_, h⟩
      rw [Reader.step]
      split
      · rename_i hpc'
        exact absurd hpc' hpc
      · rfl

/-- What has been handed over is always the beginning of the stream's messages, and
between two events it is all that has arrived. -/
theorem handed_of_inStep (h : InStep all s) :
    s.reader.handed <+: all ∧ (s.reader.pc = .idle → s.reader.handed ++ sequenced s.frames = all) := by
  have hat := h.atPc
  cases hpc : s.reader.pc with
  | idle | drain | recv =>
    rw [hpc] at hat
    exact ⟨⟨_, hat.2⟩, fun _ => hat.2⟩
  | pending rx offset spare =>
    rw [hpc] at hat
    refine ⟨?_, by simp⟩
    rcases hat with ⟨-, hf | ⟨-, hres⟩⟩
    · obtain ⟨l, fs, -, -, hall⟩ := hf.rest
      exact ⟨_, hall⟩
    · obtain ⟨l, f, fs, k, e, -, -, -, -, -, -, -, hall⟩ := hres.rest
      exact ⟨_, hall⟩
  | scan rx offset spare =>
    rw [hpc] at hat
    obtain ⟨l, fs, -, -, hall⟩ := hat.2.rest
    exact ⟨⟨_, hall⟩, by simp⟩
  | deliver rx =>
    rw [hpc] at hat
    have hall := hat.2.2
    rw [List.append_assoc] at hall
    exact ⟨⟨_, hall⟩, by simp⟩

end SoupFeed

/-- **Reassembly.**  However the stream is cut into segments that the handler copes
with, and however the parser takes packets in between, the messages handed over are
the first sequenced packets of the stream, byte for byte; when no event is under way
they are all those whose last byte has arrived. -/
theorem soup_reassembly (frames : List SoupFrame) {pend : CustomQueue RxEntry pendingCapacity}
    (hpend : pend.items = []) {moves : List ReadMove}
    (hmoves : Along SoupFeed.step (fun s m => s.Offered m ∧ s.Copes m)
      (SoupFeed.start frames pend) moves) :
    ∃ s, exec SoupFeed.step (SoupFeed.start frames pend) moves = .ok s ∧
      s.reader.handed <+: sequenced frames ∧
      (s.reader.pc = .idle → s.reader.handed ++ sequenced s.frames = sequenced frames) := by
  have hstart : SoupFeed.InStep (sequenced frames) (SoupFeed.start frames pend) :=
    ⟨rfl, .inl ⟨rfl, hpend⟩, rfl⟩
  obtain ⟨s, hrun, hinv⟩ := exec_of_along
    (fun s m hs hc => SoupFeed.inStep_step hs hc.1 hc.2) hstart hmoves
  exact ⟨s, hrun, SoupFeed.handed_of_inStep hinv⟩

/-! ### Two packets -/

/-- A sequenced packet with a payload of two bytes. -/
def twoByteMessage : SoupFrame := ⟨.sequenced, [0x41, 0x42], by decide⟩

def heartbeatFrame : SoupFrame := ⟨.heartbeat, [], by decide⟩

/-- A session at the beginning of a stream of a message and a heartbeat. -/
def messageAndHeartbeat : SoupFeed :=
  SoupFeed.start [twoByteMessage, heartbeatFrame] ⟨fun _ => {}, 0, 0⟩

instance (frames : List SoupFrame) (n : ℕ) : Decidable (OneKind frames n) :=
  decidable_of_iff
    ((advance SoupFrame.bytes 0 frames n).1.isEmpty = true ∨
      (advance SoupFrame.bytes 0 frames n).2.1 = 0 ∧
        ((∀ f ∈ (advance SoupFrame.bytes 0 frames n).1, f.kind = .sequenced) ∨
          ∀ f ∈ (advance SoupFrame.bytes 0 frames n).1, f.kind ≠ .sequenced))
    (by rw [List.isEmpty_iff]; exact Iff.rfl)

instance (k : ℕ) (frames : List SoupFrame) (n : ℕ) : Decidable (Handled k frames n) :=
  match k, frames with
  | 0, frames => inferInstanceAs (Decidable (OneKind frames n))
  | _ + 1, [] => .isTrue trivial
  | k + 1, f :: fs =>
    inferInstanceAs (Decidable (f.bytes.length ≤ k + 1 + n ∧ f.kind = .sequenced ∧
      (k = 0 → f.lo.toNat < 0x80) ∧ OneKind fs (k + 1 + n - f.bytes.length)))

instance (s : SoupFeed) (m : ReadMove) : Decidable (s.Offered m) :=
  match m with
  | .recv segment _ spare =>
    inferInstanceAs (Decidable (s.reader.pc = .recv →
      segment ≠ [] ∧ segment.length ≤ packetSize ∧
        segment <+: (stream SoupFrame.bytes s.frames).drop s.place ∧
        (advance SoupFrame.bytes s.place s.frames segment.length).1.length ≤ maxAppMsg ∧
        spare.isSome))
  | .run => inferInstanceAs (Decidable (s.reader.state.queued < packetQueueCapacity))
  | .parserPop | .otherPush | .epollin | .noPacket | .recvAgain | .recvInterrupted | .recvClosed =>
    .isTrue trivial

instance (s : SoupFeed) (m : ReadMove) : Decidable (s.Copes m) :=
  match m with
  | .recv segment _ _ =>
    inferInstanceAs (Decidable (s.reader.pc = .recv → Handled s.place s.frames segment.length))
  | .parserPop | .otherPush | .epollin | .noPacket | .recvAgain | .recvInterrupted | .recvClosed
  | .run => .isTrue trivial

/-- The message is cut behind its first length byte, and the heartbeat comes alone. -/
def apart : List ReadMove :=
  [.epollin, .run, receiveSegment [0], .run, .run,
    .epollin, .run, receiveSegment [3, 0x53, 0x41, 0x42], .run, .run, .run,
    .epollin, .run, receiveSegment [0, 1, 0x48], .run, .run]

/-- Apart from each other, the message is handed over and the heartbeat is not. -/
theorem soup_reassembly_apart :
    ∃ s, exec SoupFeed.step messageAndHeartbeat apart = .ok s ∧
      s.reader.handed = [[0, 3, 0x53, 0x41, 0x42]] ∧
      s.reader.handed <+: sequenced [twoByteMessage, heartbeatFrame] := by
  have hapart : Along SoupFeed.step (fun s m => s.Offered m ∧ s.Copes m) messageAndHeartbeat
      apart := by decide +kernel
  obtain ⟨s, hrun, hpre, -⟩ := soup_reassembly [twoByteMessage, heartbeatFrame] rfl hapart
  have hhanded : (exec SoupFeed.step messageAndHeartbeat apart).map (·.reader.handed) =
      .ok [[0, 3, 0x53, 0x41, 0x42]] := rfl
  rw [messageAndHeartbeat, hrun] at hhanded
  exact ⟨s, hrun, Except.ok.inj hhanded, hpre⟩

/-- Both packets in one segment. -/
def together : List ReadMove :=
  [.epollin, .run, receiveSegment [0, 3, 0x53, 0x41, 0x42, 0, 1, 0x48], .run, .run]

/-- **A heartbeat hides a message.**  The whole stream arrives in one segment of eight
bytes; afterwards no event is under way, no frame is left, and nothing was handed
over. -/
theorem heartbeat_hides_message :
    Along SoupFeed.step SoupFeed.Offered messageAndHeartbeat together ∧
      ∃ s, exec SoupFeed.step messageAndHeartbeat together = .ok s ∧ s.reader.pc = .idle ∧
        s.frames = [] ∧ s.reader.handed = [] ∧
        sequenced [twoByteMessage, heartbeatFrame] ≠ [] := by
  have hend : (exec SoupFeed.step messageAndHeartbeat together).map
      (fun s => (s.reader.pc, s.frames, s.reader.handed)) = .ok (.idle, [], []) := rfl
  obtain ⟨s, hs, heq⟩ := map_eq_ok_iff.mp hend
  rw [Prod.mk.injEq, Prod.mk.injEq] at heq
  exact ⟨by decide +kernel, s, hs, heq.1, heq.2.1, heq.2.2, by decide⟩

end TradingEngine
