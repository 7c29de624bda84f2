/-
The number of a SoupBinTCP session along its stream.

A `CountedFeed` is an OUCH session behind the answer to its login: the receiving thread, the
sequence of the session and its place in the stream.  `complete` are the packets whose last
byte has been received.

* `scan_outcome` — what the loop over the rest of a segment does and counts;
* `inCount_step` — a move on a segment that meets `SegmentCounted` keeps the number right;
* `lastSeen_counts` — so it is right in every state of a run over such segments.
-/
import TradingEngine.SbtCount
import TradingEngine.SoupReassembly

namespace TradingEngine

open FallibleRun StreamFraming

/-- A session behind the answer to its login, and its place in the stream. -/
structure CountedFeed where
  reader : Reader
  seq : SequenceSBT
  place : ℕ := 0
  frames : List SbtFrame
  complete : List SbtFrame := []

/-- How many of the packets are sequenced. -/
def seqCount (frames : List SbtFrame) : ℕ := frames.countP (·.isSequenced)

theorem seqCount_append (fs gs : List SbtFrame) :
    seqCount (fs ++ gs) = seqCount fs + seqCount gs := List.countP_append

/-- The rest of a segment of `n` bytes, from the beginning of a packet on: at most 32 sequenced
packets, and behind them either no packet or only others, with no beginning of one; for a
beginning there is a packet in the free list, and its length can be told. -/
structure SegmentInOrder (frames : List SbtFrame) (n : ℕ) (spare : Option FreePacket) : Prop where
  others : ∀ f ∈ (advance SbtFrame.bytes 0 frames n).1.dropWhile (·.isSequenced), ¬f.isSequenced
  boundary : (advance SbtFrame.bytes 0 frames n).1.dropWhile (·.isSequenced) ≠ [] →
    (advance SbtFrame.bytes 0 frames n).2.1 = 0
  count : ((advance SbtFrame.bytes 0 frames n).1.takeWhile (·.isSequenced)).length ≤ maxAppMsg
  fragment : (advance SbtFrame.bytes 0 frames n).2.1 ≠ 0 →
    spare.isSome ∧ ∀ f ∈ (advance SbtFrame.bytes 0 frames n).2.2.head?, f.bytes.length < 2 ^ 16

/-- A segment of `n` bytes, `k` bytes into the first packet: a packet that it does not begin
with is not sequenced, and the segment brings the rest of it. -/
def SegmentCounted : ℕ → List SbtFrame → ℕ → Option FreePacket → Prop
  | 0, frames, n, spare => SegmentInOrder frames n spare
  | _ + 1, [], _, _ => True
  | k + 1, f :: fs, n, spare =>
    ¬f.isSequenced ∧ f.bytes.length ≤ k + 1 + n ∧ f.bytes.length ≤ packetSize ∧
      (k = 0 → f.lo.toNat < 0x80) ∧ SegmentInOrder fs (k + 1 + n - f.bytes.length) spare

/-- No event is under way. -/
def Reader.Between (r : Reader) : Prop :=
  match r.pc with
  | .idle | .drain | .recv => True
  | .pending .. | .scan .. | .deliver .. => False

namespace CountedFeed

/-- The sequence after a move: the handler is called in the loop over the segment. -/
def seqAfter (s : CountedFeed) : ReadMove → Except Fault SequenceSBT
  | .run =>
    match s.reader.pc with
    | .scan rx offset spare =>
      if rx.pkt.len ≤ offset then .ok s.seq
      else (countScan (maxAppMsg + 1) rx offset spare s.seq).map Prod.snd
    | _ => .ok s.seq
  | _ => .ok s.seq

/-- A move of the session; a received segment leads on in the stream. -/
def step (s : CountedFeed) (m : ReadMove) : Except Fault CountedFeed := do
  let r ← s.reader.step m
  let seq ← s.seqAfter m
  match m, s.reader.pc with
  | .recv segment _ _, .recv =>
    let a := advance SbtFrame.bytes s.place s.frames segment.length
    .ok { reader := r, seq := seq, place := a.2.1, frames := a.2.2, complete := s.complete ++ a.1 }
  | _, _ => .ok { s with reader := r, seq := seq }

/-- What is received is the stream, in segments of 1 to 2048 bytes. -/
def Offered (s : CountedFeed) : ReadMove → Prop
  | .recv segment _ _ =>
    s.reader.pc = .recv →
      segment ≠ [] ∧ segment.length ≤ packetSize ∧
        segment <+: (stream SbtFrame.bytes s.frames).drop s.place
  | _ => True

/-- The segment is one whose sequenced packets are counted; when a packet is handed to a full
queue, `back` looks into the pending queue and not in front of it. -/
def Countable (s : CountedFeed) : ReadMove → Prop
  | .recv segment _ spare =>
    s.reader.pc = .recv → SegmentCounted s.place s.frames segment.length spare
  | .run =>
    ∀ rx, s.reader.pc = .deliver rx →
      s.reader.state.queued < packetQueueCapacity ∨
        s.reader.state.pend.tail.val + 1 ≠ pendingCapacity
  | _ => True

/-- A session to which a login was granted, at the beginning of the stream. -/
def start (frames : List SbtFrame) (seq : SequenceSBT)
    (pend : CustomQueue RxEntry pendingCapacity) : CountedFeed :=
  { reader := { protocol := .ouch, state := { pend := pend } }, seq := seq, frames := frames }

end CountedFeed

/-! ### The rest of a segment -/

theorem Counts.trans {a b c : SequenceSBT} {n m : ℕ} (h : Counts a b n) (h' : Counts b c m) :
    Counts a c (n + m) := by
  rw [Counts, h', h, UInt64.ofNat_add, UInt64.add_assoc]

/-- What is left over by the loop over a segment that leads to a place. -/
def Outcome (place : ℕ) (frames : List SbtFrame) : ScanResult → Prop
  | .deliver rx => place = 0 ∧ rx.pkt.isPartial = false
  | .stash e => ∃ f fs, frames = f :: fs ∧ 0 < place ∧ place < f.bytes.length ∧
      Awaits e.pkt f place
  | .drop => place = 0
  | .close => place = 0

/-- **The loop over the rest of a segment** counts the sequenced packets in it. -/
theorem scan_outcome {rx : RxEntry} {offset : ℕ} {spare : Option FreePacket} {l : List UInt8}
    {fs : List SbtFrame} (seq : SequenceSBT) (hcount : rx.pkt.msgCount = 0)
    (hwhole : rx.pkt.isPartial = false) (hrx : Holding rx.pkt offset l)
    (hpre : l <+: stream SbtFrame.bytes fs) (hord : SegmentInOrder fs l.length spare) :
    ∃ res seq', countScan (maxAppMsg + 1) rx offset spare seq = .ok (res, seq') ∧
      Counts seq seq' (seqCount (advance SbtFrame.bytes 0 fs l.length).1) ∧
      Outcome (advance SbtFrame.bytes 0 fs l.length).2.1
        (advance SbtFrame.bytes 0 fs l.length).2.2 res := by
  -- the segment: whole packets, then the beginning of one
  have hl : l = stream SbtFrame.bytes (advance SbtFrame.bytes 0 fs l.length).1 ++
      (stream SbtFrame.bytes (advance SbtFrame.bytes 0 fs l.length).2.2).take
        (advance SbtFrame.bytes 0 fs l.length).2.1 := by
    rw [← take_stream]
    exact List.prefix_iff_eq_take.mp hpre
  have hin : StreamFraming.Inside SbtFrame.bytes _ _ := inside_advance 0 fs l.length
  obtain ⟨hothers, hboundary, hmax, hfragment⟩ := hord
  generalize advance SbtFrame.bytes 0 fs l.length = a at hl hin hothers hboundary hmax hfragment ⊢
  obtain ⟨done, place, rest⟩ := a
  dsimp only at hl hin hothers hboundary hmax hfragment ⊢
  -- of the whole packets the sequenced ones come first
  have hseqs : ∀ f ∈ done.takeWhile (·.isSequenced), f.isSequenced := fun f hf =>
    List.mem_takeWhile_imp hf
  have hdone := List.takeWhile_append_dropWhile (p := (·.isSequenced)) (l := done)
  generalize done.takeWhile (·.isSequenced) = seqs at hmax hseqs hdone
  generalize done.dropWhile (·.isSequenced) = others at hothers hboundary hdone
  subst hdone
  have hnumber : seqCount (seqs ++ others) = seqs.length := by
    rw [seqCount_append, seqCount, seqCount, List.countP_eq_length.mpr hseqs,
      List.countP_eq_zero.mpr hothers, Nat.add_zero]
  rw [hnumber]
  rw [stream_append, List.append_assoc] at hl
  rw [hl] at hrx
  obtain ⟨fuel, hfuel⟩ : ∃ fuel, maxAppMsg + 1 = fuel + 1 + seqs.length :=
    ⟨maxAppMsg - seqs.length, by omega⟩
  obtain ⟨rx', seq', hscan, hrest, hwhole', hcounts⟩ :=
    countScan_sequenced (fuel + 1) spare seq seqs hseqs
      (by rw [hcount]; show 0 + _ ≤ _; omega) hrx
  rw [hfuel, hscan]
  cases others with
  | cons g gs =>
    -- a packet that is not sequenced ends the loop
    rw [stream_cons, List.append_assoc] at hrest
    have hplace : place = 0 := hboundary (List.cons_ne_nil g gs)
    rcases countScan_other fuel spare seq' (hothers g List.mem_cons_self)
      hrest with h | h
    · exact ⟨_, _, h, hcounts, hplace⟩
    · exact ⟨_, _, h, hcounts, hplace⟩
  | nil =>
    rw [stream_nil, List.nil_append] at hrest
    by_cases hplace : place = 0
    · -- nothing is left over
      rw [hplace, List.take_zero] at hrest
      exact ⟨_, _, countScan_end hrest, hcounts, hplace, hwhole'.trans hwhole⟩
    · -- a fragment goes into the spare packet
      obtain ⟨hspare, hlen⟩ := hfragment hplace
      obtain ⟨free, rfl⟩ := Option.isSome_iff_exists.mp hspare
      cases rest with
      | nil => exact absurd hin hplace
      | cons f rest =>
        have hlt : place < f.bytes.length := hin
        rw [stream_cons, List.take_append_of_le_length (by omega)] at hrest
        obtain ⟨e, h, hawaits⟩ := countScan_fragment fuel seq' free
          (Nat.pos_of_ne_zero hplace) hlt (hlen f rfl) hrest
        exact ⟨_, _, h, hcounts, f, rest, rfl, Nat.pos_of_ne_zero hplace, hlt, hawaits⟩

/-! ### The invariant -/

namespace CountedFeed

variable {base : SequenceSBT} {s : CountedFeed} {rx : RxEntry} {offset : ℕ}
  {spare : Option FreePacket}

/-- The pending queue holds at most one packet, and that is complete. -/
def AtMostWhole (pend : CustomQueue RxEntry pendingCapacity) : Prop :=
  pend.items = [] ∨ ∃ e, pend.items = [e] ∧ e.pkt.isPartial = false

/-- The pending queue is empty at the beginning of a packet, and holds what was received of it
behind that. -/
def Ready (s : CountedFeed) : Prop :=
  (s.place = 0 ∧ s.reader.state.pend.items = []) ∨
    ∃ f fs e, s.frames = f :: fs ∧ 0 < s.place ∧ s.place < f.bytes.length ∧
      s.reader.state.pend.items = [e] ∧ Awaits e.pkt f s.place

/-- The number is right. -/
def Right (base : SequenceSBT) (s : CountedFeed) : Prop :=
  Counts base s.seq (seqCount s.complete)

/-- The rest `l` of the segment in hand begins with the packets `fs`, and the number is right
but for those. -/
structure InHand (base : SequenceSBT) (s : CountedFeed) (spare : Option FreePacket)
    (l : List UInt8) (fs : List SbtFrame) : Prop where
  isPrefix : l <+: stream SbtFrame.bytes fs
  inOrder : SegmentInOrder fs l.length spare
  leads : (advance SbtFrame.bytes 0 fs l.length).2 = (s.place, s.frames)
  counts : ∃ n, Counts base s.seq n ∧
    n + seqCount (advance SbtFrame.bytes 0 fs l.length).1 = seqCount s.complete

theorem InHand.reader {l : List UInt8} {fs : List SbtFrame} (h : s.InHand base spare l fs)
    (r : Reader) : InHand base { s with reader := r } spare l fs :=
  ⟨h.isPrefix, h.inOrder, h.leads, h.counts⟩

/-- The segment in hand is as it was received. -/
def Untouched (rx : RxEntry) : Prop := rx.pkt.msgCount = 0 ∧ rx.pkt.isPartial = false

/-- What is known at each point of the event. -/
def AtPc (base : SequenceSBT) (s : CountedFeed) : ReadPc → Prop
  | .idle | .drain =>
    (s.Ready ∨ s.place = 0 ∧ AtMostWhole s.reader.state.pend) ∧ s.Right base
  | .recv => s.Ready ∧ s.Right base
  | .pending rx offset spare =>
    Untouched rx ∧
      ((AtMostWhole s.reader.state.pend ∧
          ∃ l fs, Holding rx.pkt offset l ∧ s.InHand base spare l fs) ∨
        offset = 0 ∧ ∃ l f fs k e, s.reader.state.pend.items = [e] ∧ Awaits e.pkt f k ∧ 0 < k ∧
          k < f.bytes.length ∧ f.bytes.length ≤ packetSize ∧ (k = 1 → f.lo.toNat < 0x80) ∧
          Holding rx.pkt 0 (f.bytes.drop k ++ l) ∧ s.InHand base spare l fs)
  | .scan rx offset spare =>
    Untouched rx ∧ s.reader.state.pend.items = [] ∧
      ∃ l fs, Holding rx.pkt offset l ∧ s.InHand base spare l fs
  | .deliver rx =>
    s.place = 0 ∧ s.reader.state.pend.items = [] ∧ rx.pkt.isPartial = false ∧ s.Right base

/-- The invariant of a session whose packets are counted. -/
structure InCount (base : SequenceSBT) (all : List SbtFrame) (s : CountedFeed) : Prop where
  ouch : s.reader.protocol = .ouch
  atPc : AtPc base s s.reader.pc
  all : s.complete ++ s.frames = all

variable {all : List SbtFrame}

theorem pushOrPend_cases (st : ReadState) {e : RxEntry} (he : e.pkt.isPartial = false)
    (hnil : st.pend.items = []) : AtMostWhole (st.pushOrPend e).pend := by
  rw [ReadState.pushOrPend, ReadState.tryPush]
  by_cases hroom : st.queued < packetQueueCapacity
  · rw [if_pos hroom]
    exact .inl hnil
  · rw [if_neg hroom]
    exact .inr ⟨e, CustomQueue.items_push_of_nil (by decide) hnil, he⟩

theorem pop_of_items {pend : CustomQueue RxEntry pendingCapacity} {e : RxEntry}
    (h : pend.items = [e]) : ∃ q, pend.pop = some (e, q) ∧ q.items = [] := by
  cases hpop : pend.pop with
  | none =>
    rw [RingBuffer.pop_eq_none_iff.mp hpop] at h
    cases h
  | some p =>
    obtain ⟨e', q⟩ := p
    have hitems := RingBuffer.items_pop hpop
    rw [h, List.cons.injEq] at hitems
    obtain ⟨rfl, hnil⟩ := hitems
    exact ⟨q, rfl, hnil.symm⟩

theorem step_of_reader {m : ReadMove} {r : Reader}
    (hm : (∀ segment free spare, m ≠ .recv segment free spare) ∨ s.reader.pc ≠ .recv)
    (h : s.reader.step m = .ok r) {seq : SequenceSBT} (hseq : s.seqAfter m = .ok seq) :
    s.step m = .ok { s with reader := r, seq := seq } := by
  rw [step, h, hseq]
  simp only [Bind.bind, Except.bind]
  split
  · rename_i hpc
    rcases hm with hm | hm
    · exact absurd rfl (hm _ _ _)
    · exact absurd hpc hm
  · rfl

/-! ### The steps of the receiving thread -/

/-- The draining loop. -/
theorem inCount_drain (h : InCount base all s) (hpc : s.reader.pc = .drain) :
    ∃ r, s.reader.run = .ok r ∧ InCount base all { s with reader := r } := by
  have hat := h.atPc
  rw [hpc] at hat
  obtain ⟨hpend, hright⟩ := hat
  have hempty : s.reader.state.pend.items = [] → s.place = 0 →
      ∃ r, s.reader.run = .ok r ∧ InCount base all { s with reader := r } := by
    intro hnil hplace
    have hround : s.reader.state.drainRound = (false, s.reader.state) := by
      rw [ReadState.drainRound, RingBuffer.pop_eq_none_iff.mpr hnil]
    exact ⟨_, Reader.run_drain hpc hround, h.ouch, ⟨.inl ⟨hplace, hnil⟩, hright⟩, h.all⟩
  rcases hpend with (⟨hplace, hnil⟩ | ⟨f, fs, e, hf, hpos, hin, hone, hawaits⟩) |
    ⟨hplace, hnil | ⟨e, hone, hwhole⟩⟩
  · exact hempty hnil hplace
  · -- a partial packet stays where it is
    obtain ⟨q, hpop, hnil⟩ := pop_of_items hone
    have hround : s.reader.state.drainRound =
        (false, { s.reader.state with pend := q.push e }) := by
      rw [ReadState.drainRound, hpop]
      exact if_pos hawaits.isPartial
    refine ⟨_, Reader.run_drain hpc hround, h.ouch, ⟨.inr ⟨f, fs, e, hf, hpos, hin, ?_, hawaits⟩,
      hright⟩, h.all⟩
    exact CustomQueue.items_push_of_nil (by decide) hnil
  · exact hempty hnil hplace
  · obtain ⟨q, hpop, hnil⟩ := pop_of_items hone
    have hround : s.reader.state.drainRound =
        (true, { s.reader.state with pend := q }.pushOrPend e) := by
      rw [ReadState.drainRound, hpop]
      dsimp only
      rw [if_neg (by rw [hwhole]; exact Bool.false_ne_true)]
    exact ⟨_, Reader.run_drain hpc hround, h.ouch,
      ⟨.inr ⟨hplace, pushOrPend_cases _ hwhole hnil⟩, hright⟩, h.all⟩

/-- The pending loop. -/
theorem inCount_pending (h : InCount base all s) (hpc : s.reader.pc = .pending rx offset spare) :
    ∃ r, s.reader.run = .ok r ∧ InCount base all { s with reader := r } := by
  have hat := h.atPc
  rw [hpc] at hat
  obtain ⟨hrx, ⟨hnil | ⟨e, hone, hwhole⟩, l, fs, hhold, hhand⟩ |
    ⟨rfl, l, f, fs, k, e, hone, hawaits, hpos, hin, hfits, hlow, hhold, hhand⟩⟩ := hat
  · -- nothing is pending
    have hround : s.reader.state.pendingRound rx offset =
        .ok (false, s.reader.state, offset) := by
      rw [ReadState.pendingRound, RingBuffer.pop_eq_none_iff.mpr hnil]
    exact ⟨_, Reader.run_pending hpc hround, h.ouch, ⟨hrx, hnil, l, fs, hhold, hhand.reader _⟩,
      h.all⟩
  · -- a complete packet waits for room in the queue
    obtain ⟨q, hpop, hnil⟩ := pop_of_items hone
    have hround : s.reader.state.pendingRound rx offset =
        .ok (true, { s.reader.state with pend := q }.pushOrPend e, offset) := by
      rw [ReadState.pendingRound, hpop]
      dsimp only
      rw [if_neg (by rw [hwhole]; exact Bool.false_ne_true)]
    exact ⟨_, Reader.run_pending hpc hround, h.ouch,
      ⟨hrx, .inl ⟨pushOrPend_cases _ hwhole hnil, l, fs, hhold, hhand.reader _⟩⟩, h.all⟩
  · -- the fragment is completed, and becomes a packet that waits
    obtain ⟨e', hfill, hwhole, htaken⟩ := fillPending_whole hawaits hin hfits hlow hhold
    obtain ⟨q, hpop, hnil⟩ := pop_of_items hone
    have hround : s.reader.state.pendingRound rx 0 =
        .ok (true, { s.reader.state with pend := q }.pushOrPend e', f.bytes.length - k) := by
      rw [ReadState.pendingRound, hpop]
      dsimp only
      rw [if_pos hawaits.isPartial, hfill]
      show Except.ok (true, _, 0 + takeCount _ _) = _
      rw [htaken, Nat.zero_add]
    have hadv := hhold.advance
    rw [Nat.zero_add, List.length_drop] at hadv
    exact ⟨_, Reader.run_pending hpc hround, h.ouch,
      ⟨hrx, .inl ⟨pushOrPend_cases _ hwhole hnil, l, fs, hadv, hhand.reader _⟩⟩, h.all⟩

/-- The loop over the segment, where the number rises. -/
theorem inCount_scan (h : InCount base all s) (hpc : s.reader.pc = .scan rx offset spare) :
    ∃ s', s.step .run = .ok s' ∧ InCount base all s' := by
  have hat := h.atPc
  rw [hpc] at hat
  obtain ⟨⟨hcount, hwhole⟩, hnil, l, fs, hhold, hpre, hord, hleads, n, hn, hsum⟩ := hat
  have hlen := hhold.length_eq
  have hoff := hhold.inside
  by_cases hl : l = []
  · -- nothing is left of the segment
    have hend : rx.pkt.len ≤ offset := by
      rw [hl, List.length_nil] at hlen
      omega
    have hfinish : s.reader.state.finishSbt rx offset spare = .ok (none, s.reader.state) := by
      rw [ReadState.finishSbt, if_pos hend]
    have hseq : s.seqAfter .run = .ok s.seq := by
      rw [seqAfter, hpc]
      exact if_pos hend
    rw [hl, List.length_nil, advance_zero (inside_zero SbtFrame.length_bytes_pos fs)]
      at hleads hsum
    have hplace : 0 = s.place := (Prod.mk.inj hleads).1
    refine ⟨_, step_of_reader (m := .run) (.inl fun _ _ _ => ReadMove.noConfusion)
      (Reader.run_scan hpc hfinish) hseq, h.ouch, ⟨.inl (.inl ⟨hplace.symm, hnil⟩), ?_⟩, h.all⟩
    show Counts base s.seq (seqCount s.complete)
    rw [← hsum]
    exact hn
  · -- the loop runs; what it leaves decides where the reader goes next
    have hmore : offset < rx.pkt.len := by
      have hpos := List.length_pos_iff.mpr hl
      omega
    obtain ⟨res, seq', hscan, hcounts, hout⟩ :=
      scan_outcome s.seq hcount hwhole hhold hpre hord
    rw [hleads] at hout
    have hright : Counts base seq' (seqCount s.complete) := by
      rw [← hsum]
      exact hn.trans hcounts
    have hseq : s.seqAfter .run = .ok seq' := by
      rw [seqAfter, hpc]
      dsimp only
      rw [if_neg (Nat.not_le.mpr hmore), hscan]
      rfl
    have hfinish := s.reader.state.finishSbt_of_scan hmore (sbtScan_of_count hscan)
    have hrun : ∀ {out st}, s.reader.state.finishSbt rx offset spare = .ok (out, st) →
        s.step .run = .ok { s with
          reader := { s.reader with state := st, pc := out.elim .idle .deliver }, seq := seq' } :=
      fun hf => step_of_reader (m := .run) (.inl fun _ _ _ => ReadMove.noConfusion)
        (Reader.run_scan hpc hf) hseq
    cases res with
    | deliver rx' => exact ⟨_, hrun hfinish, h.ouch, ⟨hout.1, hnil, hout.2, hright⟩, h.all⟩
    | stash e =>
      obtain ⟨f, fs', hframes, hpos, hlt, hawaits⟩ := hout
      have hpush := CustomQueue.items_push_of_nil (a := e) (by decide) hnil
      exact ⟨_, hrun hfinish, h.ouch,
        ⟨.inl (.inr ⟨f, fs', e, hframes, hpos, hlt, hpush, hawaits⟩), hright⟩, h.all⟩
    | drop | close =>
      exact ⟨_, hrun hfinish, h.ouch, ⟨.inl (.inl ⟨hout, hnil⟩), hright⟩, h.all⟩

/-- The push at the end of the event. -/
theorem inCount_deliver (h : InCount base all s) (hpc : s.reader.pc = .deliver rx)
    (hback : s.reader.state.queued < packetQueueCapacity ∨
      s.reader.state.pend.tail.val + 1 ≠ pendingCapacity) :
    ∃ r, s.reader.run = .ok r ∧ InCount base all { s with reader := r } := by
  have hat := h.atPc
  rw [hpc] at hat
  obtain ⟨hplace, hnil, hwhole, hright⟩ := hat
  by_cases hroom : s.reader.state.queued < packetQueueCapacity
  · have hdeliver : s.reader.state.deliver rx =
        .ok { s.reader.state with
          queued := s.reader.state.queued + 1
          pushed := s.reader.state.pushed ++ [rx] } := by
      rw [ReadState.deliver, ReadState.tryPush, if_pos hroom]
    exact ⟨_, Reader.run_deliver hpc hdeliver, h.ouch, ⟨.inl (.inl ⟨hplace, hnil⟩), hright⟩, h.all⟩
  · -- the queue is full: the packet waits
    have hpush := CustomQueue.items_push_of_nil (a := rx) (by decide) hnil
    have hfound := CustomQueue.back_push_of_nil (a := rx) hnil (hback.resolve_left hroom)
    have hdeliver : s.reader.state.deliver rx =
        .ok { s.reader.state with pend := s.reader.state.pend.push rx } := by
      rw [ReadState.deliver, ReadState.tryPush, if_neg hroom]
      dsimp only
      rw [hfound]
      show (if rx.pkt.isPartial = true then _ else _) = _
      rw [if_neg (by rw [hwhole]; exact Bool.false_ne_true),
        CustomQueue.swapLastTwo_of_items hpush]
    exact ⟨_, Reader.run_deliver hpc hdeliver, h.ouch,
      ⟨.inr ⟨hplace, .inr ⟨rx, hpush, hwhole⟩⟩, hright⟩, h.all⟩

/-! ### The moves -/

/-- A received segment: what it holds, behind what was pending. -/
theorem inCount_receive {segment : List UInt8} {free : FreePacket} (h : InCount base all s)
    (hpc : s.reader.pc = .recv) (hoff : s.Offered (.recv segment free spare))
    (hcond : s.Countable (.recv segment free spare)) :
    ∃ s', s.step (.recv segment free spare) = .ok s' ∧ InCount base all s' := by
  obtain ⟨hne, hfits, hpre⟩ := hoff hpc
  have hsegment := hcond hpc
  have hat := h.atPc
  rw [hpc] at hat
  obtain ⟨hready, hright⟩ := hat
  obtain ⟨pkt, r, hhold, hcount, hwhole, hr, hstep⟩ :=
    Reader.step_recv free spare hpc h.ouch hne hfits
  let a := advance SbtFrame.bytes s.place s.frames segment.length
  have hstep' : s.step (.recv segment free spare) =
      .ok { reader := r, seq := s.seq, place := a.2.1, frames := a.2.2,
            complete := s.complete ++ a.1 } := by
    rw [step, hstep]
    show (match ReadMove.recv segment free spare, s.reader.pc with
      | .recv segment _ _, .recv => Except.ok _
      | _, _ => _) = _
    rw [hpc]
  have hall : s.complete ++ a.1 ++ a.2.2 = all := by
    have happ : a.1 ++ a.2.2 = s.frames := advance_append s.place s.frames segment.length
    rw [List.append_assoc, happ]
    exact h.all
  subst hr
  refine ⟨_, hstep', h.ouch, ⟨⟨hcount, hwhole⟩, ?_⟩, hall⟩
  rcases hready with ⟨hk, hnil⟩ | ⟨f, fs, e, hf, hpos, hin, hone, hawaits⟩
  · -- nothing is pending: the segment begins with a packet
    left
    have hadv : a = advance SbtFrame.bytes 0 s.frames segment.length := by
      show advance SbtFrame.bytes s.place _ _ = _
      rw [hk]
    rw [hk, List.drop_zero] at hpre
    rw [hk] at hsegment
    refine ⟨.inl hnil, segment, s.frames, hhold, hpre, hsegment, ?_, seqCount s.complete, hright,
      ?_⟩
    · rw [← hadv]
    · show _ = seqCount (s.complete ++ a.1)
      rw [← hadv, seqCount_append]
  · -- the pending packet is completed
    right
    obtain ⟨k, hk⟩ : ∃ k, s.place = k + 1 := ⟨s.place - 1, by omega⟩
    rw [hk, hf] at hsegment
    obtain ⟨hother, hlen, hsize, hlow, hord⟩ := hsegment
    rw [← hk] at hlen hord
    rw [hf] at hpre
    obtain ⟨l, hseg, hl, hlen', hadvance⟩ := advance_completes hpre hin.le hlen
    have hadv : a = (f :: (advance SbtFrame.bytes 0 fs l.length).1,
        (advance SbtFrame.bytes 0 fs l.length).2) := by
      show advance SbtFrame.bytes s.place s.frames segment.length = _
      rw [hf]
      exact hadvance
    rw [hseg] at hhold
    rw [← hlen'] at hord
    refine ⟨rfl, l, f, fs, s.place, e, hone, hawaits, hpos, hin, hsize, fun h => hlow (by omega),
      hhold, hl, hord, ?_, seqCount s.complete, hright, ?_⟩
    · show _ = a.2
      rw [hadv]
    · show _ = seqCount (s.complete ++ a.1)
      rw [hadv, seqCount_append]
      show _ = _ + List.countP _ (f :: _)
      rw [List.countP_cons_of_neg hother]
      rfl

/-- Where nothing is in hand, the thread can wait for the next event or begin anew. -/
theorem inCount_pc (h : InCount base all s) (hat : AtPc base s .idle) {pc : ReadPc}
    (hpc : pc = .idle ∨ pc = .drain) (closed : Bool) :
    InCount base all
      { s with
        reader :=
          { s.reader with state := { s.reader.state with closed := closed }, pc := pc } } := by
  rcases hpc with rfl | rfl
  · exact ⟨h.ouch, hat, h.all⟩
  · exact ⟨h.ouch, hat, h.all⟩

/-- How full the queue to the parser is plays no part in the invariant. -/
theorem inCount_queued (h : InCount base all s) (n : ℕ) :
    InCount base all
      { s with reader := { s.reader with state := { s.reader.state with queued := n } } } := by
  refine ⟨h.ouch, ?_, h.all⟩
  have hat := h.atPc
  show AtPc base _ s.reader.pc
  cases hpc : s.reader.pc with
  | idle | drain | recv | deliver =>
    rw [hpc] at hat
    exact hat
  | pending rx offset spare =>
    rw [hpc] at hat
    obtain ⟨hrx, ⟨hpend, l, fs, hhold, hhand⟩ |
      ⟨h0, l, f, fs, k, e, hone, hawaits, hpos, hin, hfits, hlow, hhold, hhand⟩⟩ := hat
    · exact ⟨hrx, .inl ⟨hpend, l, fs, hhold, hhand.reader _⟩⟩
    · exact ⟨hrx, .inr ⟨h0, l, f, fs, k, e, hone, hawaits, hpos, hin, hfits, hlow, hhold,
        hhand.reader _⟩⟩
  | scan rx offset spare =>
    rw [hpc] at hat
    obtain ⟨hrx, hnil, l, fs, hhold, hhand⟩ := hat
    exact ⟨hrx, hnil, l, fs, hhold, hhand.reader _⟩

/-- A step of the thread. -/
theorem inCount_run (h : InCount base all s) (hcond : s.Countable .run) :
    ∃ s', s.step .run = .ok s' ∧ InCount base all s' := by
  have hreader : (∀ rx offset spare, s.reader.pc ≠ .scan rx offset spare) →
      (∃ r, s.reader.run = .ok r ∧ InCount base all { s with reader := r }) →
      ∃ s', s.step .run = .ok s' ∧ InCount base all s' := by
    rintro hscan ⟨r, hrun, hinv⟩
    have hseq : s.seqAfter .run = .ok s.seq := by
      rw [seqAfter]
      split
      · rename_i hpc
        exact absurd hpc (hscan _ _ _)
      · rfl
    exact ⟨_, step_of_reader (m := .run) (.inl fun _ _ _ => ReadMove.noConfusion) hrun hseq, hinv⟩
  cases hpc : s.reader.pc with
  | idle | recv =>
    exact hreader (by rw [hpc]; exact fun _ _ _ => ReadPc.noConfusion)
      ⟨s.reader, by rw [Reader.run, hpc], h⟩
  | drain =>
    exact hreader (by rw [hpc]; exact fun _ _ _ => ReadPc.noConfusion) (inCount_drain h hpc)
  | pending rx offset spare =>
    exact hreader (by rw [hpc]; exact fun _ _ _ => ReadPc.noConfusion) (inCount_pending h hpc)
  | scan rx offset spare => exact inCount_scan h hpc
  | deliver rx =>
    exact hreader (by rw [hpc]; exact fun _ _ _ => ReadPc.noConfusion)
      (inCount_deliver h hpc (hcond rx hpc))

/-- **One move.**  A segment whose sequenced packets are counted keeps the number right, and
nothing else disturbs it. -/
theorem inCount_step {m : ReadMove} (h : InCount base all s) (hoff : s.Offered m)
    (hcond : s.Countable m) : ∃ s', s.step m = .ok s' ∧ InCount base all s' := by
  have hreader : ∀ {r}, (∀ segment free spare, m ≠ .recv segment free spare) → m ≠ .run →
      s.reader.step m = .ok r → InCount base all { s with reader := r } →
      ∃ s', s.step m = .ok s' ∧ InCount base all s' := by
    intro r hm hrun hr hinv
    have hseq : s.seqAfter m = .ok s.seq := by
      cases m with
      | run => exact absurd rfl hrun
      | recv segment free spare => exact absurd rfl (hm _ _ _)
      | parserPop | otherPush | epollin | noPacket | recvAgain | recvInterrupted | recvClosed => rfl
    exact ⟨_, step_of_reader (.inl hm) hr hseq, hinv⟩
  -- back to the idle thread
  have hidle : s.reader.pc = .recv → AtPc base s .idle := by
    intro hpc
    have hat := h.atPc
    rw [hpc] at hat
    exact ⟨.inl hat.1, hat.2⟩
  cases m with
  | parserPop => exact hreader (by simp) (by simp) rfl (inCount_queued h _)
  | otherPush =>
    by_cases hroom : s.reader.state.queued < packetQueueCapacity
    · exact hreader (by simp) (by simp) (if_pos hroom) (inCount_queued h _)
    · exact hreader (by simp) (by simp) (if_neg hroom) h
  | epollin =>
    cases hpc : s.reader.pc with
    | idle =>
      have hat := h.atPc
      rw [hpc] at hat
      refine hreader (by simp) (by simp) (by rw [Reader.step, hpc]) (inCount_pc h hat ?_ _)
      by_cases hc : s.reader.state.closed = true
      · exact .inl (if_pos hc)
      · exact .inr (if_neg hc)
    | drain | recv | pending | scan | deliver =>
      exact hreader (by simp) (by simp) (by rw [Reader.step, hpc]) h
  | noPacket | recvAgain =>
    cases hpc : s.reader.pc with
    | recv =>
      exact hreader (by simp) (by simp) (by rw [Reader.step, hpc])
        (inCount_pc h (hidle hpc) (.inl rfl) _)
    | idle | drain | pending | scan | deliver =>
      exact hreader (by simp) (by simp) (by rw [Reader.step, hpc]) h
  | recvInterrupted =>
    cases hpc : s.reader.pc with
    | recv =>
      exact hreader (by simp) (by simp) (by rw [Reader.step, hpc])
        (inCount_pc h (hidle hpc) (.inr rfl) _)
    | idle | drain | pending | scan | deliver =>
      exact hreader (by simp) (by simp) (by rw [Reader.step, hpc]) h
  | recvClosed =>
    cases hpc : s.reader.pc with
    | recv =>
      exact hreader (by simp) (by simp) (by rw [Reader.step, hpc])
        (inCount_pc h (hidle hpc) (.inl rfl) true)
    | idle | drain | pending | scan | deliver =>
      exact hreader (by simp) (by simp) (by rw [Reader.step, hpc]) h
  | run => exact inCount_run h hcond
  | recv segment free spare =>
    by_cases hpc : s.reader.pc = .recv
    · exact inCount_receive h hpc hoff hcond
    · refine ⟨_, step_of_reader (.inr hpc) (r := s.reader) ?_ rfl, h⟩
      rw [Reader.step]
      split
      · rename_i hpc'
        exact absurd hpc' hpc
      · rfl

end CountedFeed

/-- **The number of the session.**  Along a run over segments whose sequenced packets are
counted, the number is the one of the login and one for each sequenced packet received, in
every state in which no event is under way. -/
theorem lastSeen_counts (frames : List SbtFrame) (seq : SequenceSBT)
    {pend : CustomQueue RxEntry pendingCapacity} (hpend : pend.items = []) {moves : List ReadMove}
    (hmoves : Along CountedFeed.step (fun s m => s.Offered m ∧ s.Countable m)
      (CountedFeed.start frames seq pend) moves) :
    ∃ s, exec CountedFeed.step (CountedFeed.start frames seq pend) moves = .ok s ∧
      s.complete ++ s.frames = frames ∧
      (s.reader.Between → s.seq.lastSeenSeqnum =
        seq.lastSeenSeqnum + UInt64.ofNat (seqCount s.complete)) := by
  have hstart : CountedFeed.InCount seq frames (CountedFeed.start frames seq pend) :=
    ⟨rfl, ⟨.inl (.inl ⟨rfl, hpend⟩), counts_zero seq⟩, rfl⟩
  obtain ⟨s, hrun, hinv⟩ := exec_of_along
    (fun s m hs hc => CountedFeed.inCount_step hs hc.1 hc.2) hstart hmoves
  refine ⟨s, hrun, hinv.all, fun hbetween => ?_⟩
  have hat := hinv.atPc
  unfold Reader.Between at hbetween
  cases hpc : s.reader.pc with
  | idle | drain | recv =>
    rw [hpc] at hat
    exact hat.2
  | pending rx offset spare | scan rx offset spare | deliver rx =>
    rw [hpc] at hbetween
    exact hbetween.elim

/-! ### A message and a heartbeat -/

/-- A sequenced packet with a payload of two bytes. -/
def sequencedFrame : SbtFrame := ⟨0x53, [0x41, 0x42], by decide, by decide⟩

/-- `H`. -/
def serverHeartbeat : SbtFrame := ⟨0x48, [], by decide, by decide⟩

/-- A session at number 7. -/
def seventh (frames : List SbtFrame) : CountedFeed :=
  .start frames { lastSeenSeqnum := 7 } ⟨fun _ => {}, 0, 0⟩

instance (frames : List SbtFrame) (n : ℕ) (spare : Option FreePacket) :
    Decidable (SegmentInOrder frames n spare) :=
  let a := advance SbtFrame.bytes 0 frames n
  decidable_of_iff
    ((∀ f ∈ a.1.dropWhile (·.isSequenced), ¬f.isSequenced) ∧
      (a.1.dropWhile (·.isSequenced) ≠ [] → a.2.1 = 0) ∧
      (a.1.takeWhile (·.isSequenced)).length ≤ maxAppMsg ∧
      (a.2.1 ≠ 0 → spare.isSome ∧ ∀ f ∈ a.2.2.head?.toList, f.bytes.length < 2 ^ 16))
    ⟨fun ⟨hothers, hboundary, hcount, hfragment⟩ => ⟨hothers, hboundary, hcount, fun hplace =>
        ⟨(hfragment hplace).1, fun f hf => (hfragment hplace).2 f (Option.mem_toList.mpr hf)⟩⟩,
      fun ⟨hothers, hboundary, hcount, hfragment⟩ => ⟨hothers, hboundary, hcount, fun hplace =>
        ⟨(hfragment hplace).1, fun f hf => (hfragment hplace).2 f (Option.mem_toList.mp hf)⟩⟩⟩

instance (k : ℕ) (frames : List SbtFrame) (n : ℕ) (spare : Option FreePacket) :
    Decidable (SegmentCounted k frames n spare) :=
  match k, frames with
  | 0, frames => inferInstanceAs (Decidable (SegmentInOrder frames n spare))
  | _ + 1, [] => .isTrue trivial
  | k + 1, f :: fs =>
    inferInstanceAs (Decidable (¬f.isSequenced ∧ f.bytes.length ≤ k + 1 + n ∧
      f.bytes.length ≤ packetSize ∧ (k = 0 → f.lo.toNat < 0x80) ∧
        SegmentInOrder fs (k + 1 + n - f.bytes.length) spare))

instance (s : CountedFeed) (m : ReadMove) : Decidable (s.Offered m) :=
  match m with
  | .recv segment _ _ =>
    inferInstanceAs (Decidable (s.reader.pc = .recv →
      segment ≠ [] ∧ segment.length ≤ packetSize ∧
        segment <+: (stream SbtFrame.bytes s.frames).drop s.place))
  | .parserPop | .otherPush | .epollin | .noPacket | .recvAgain | .recvInterrupted | .recvClosed
  | .run => .isTrue trivial

instance (s : CountedFeed) (m : ReadMove) : Decidable (s.Countable m) :=
  match m with
  | .recv segment _ spare =>
    inferInstanceAs (Decidable (s.reader.pc = .recv →
      SegmentCounted s.place s.frames segment.length spare))
  | .run =>
    match hpc : s.reader.pc with
    | .deliver rx =>
      decidable_of_iff (s.reader.state.queued < packetQueueCapacity ∨
          s.reader.state.pend.tail.val + 1 ≠ pendingCapacity)
        ⟨fun h _ _ => h, fun h => h rx hpc⟩
    | .idle | .drain | .recv | .pending .. | .scan .. =>
      .isTrue fun rx h => by
        rw [hpc] at h
        cases h
  | .parserPop | .otherPush | .epollin | .noPacket | .recvAgain | .recvInterrupted | .recvClosed =>
    .isTrue trivial

/-- A message, and a heartbeat that is cut behind its first byte. -/
def heartbeatCut : List ReadMove :=
  [.epollin, .run, receiveSegment [0, 3, 0x53, 0x41, 0x42, 0], .run, .run,
    .epollin, .run, receiveSegment [1, 0x48], .run, .run, .run]

theorem lastSeen_counts_heartbeatCut :
    ∃ s, exec CountedFeed.step (seventh [sequencedFrame, serverHeartbeat]) heartbeatCut = .ok s ∧
      s.frames = [] ∧ s.seq.lastSeenSeqnum = 8 := by
  have hmoves : Along CountedFeed.step (fun s m => s.Offered m ∧ s.Countable m)
      (seventh [sequencedFrame, serverHeartbeat]) heartbeatCut := by decide +kernel
  obtain ⟨s, hrun, hall, hnumber⟩ :=
    lastSeen_counts [sequencedFrame, serverHeartbeat] { lastSeenSeqnum := 7 } rfl hmoves
  have hend : (exec CountedFeed.step (seventh [sequencedFrame, serverHeartbeat])
      heartbeatCut).map (fun s => (s.reader.pc, s.place, s.frames.length, seqCount s.complete)) =
        .ok (.idle, 0, 0, 1) := rfl
  rw [seventh, hrun, Except.map, Except.ok.injEq, Prod.mk.injEq, Prod.mk.injEq, Prod.mk.injEq]
    at hend
  obtain ⟨hpc, -, hframes, hcount⟩ := hend
  refine ⟨s, hrun, List.length_eq_zero_iff.mp hframes, ?_⟩
  rw [hnumber (by rw [Reader.Between, hpc]; trivial), hcount]
  rfl

/-- A message that is cut behind its first byte. -/
def messageCut : List ReadMove :=
  [.epollin, .run, receiveSegment [0], .run, .run,
    .epollin, .run, receiveSegment [3, 0x53, 0x41, 0x42], .run, .run, .run]

/-- A message behind a heartbeat in one segment. -/
def messageBehind : List ReadMove :=
  [.epollin, .run, receiveSegment [0, 1, 0x48, 0, 3, 0x53, 0x41, 0x42], .run, .run]

/-- In a run over the stream a sequenced packet is received, and the number stays. -/
def Misses (frames : List SbtFrame) (moves : List ReadMove) : Prop :=
  Along CountedFeed.step CountedFeed.Offered (seventh frames) moves ∧
    ∃ s, exec CountedFeed.step (seventh frames) moves = .ok s ∧ s.reader.Between ∧
      seqCount s.complete = 1 ∧ s.seq.lastSeenSeqnum = 7

theorem misses_of_end {frames : List SbtFrame} {moves : List ReadMove}
    (hoff : Along CountedFeed.step CountedFeed.Offered (seventh frames) moves)
    (hend : (exec CountedFeed.step (seventh frames) moves).map
      (fun s => (s.reader.pc, seqCount s.complete, s.seq.lastSeenSeqnum)) = .ok (.idle, 1, 7)) :
    Misses frames moves := by
  obtain ⟨s, hrun, heq⟩ := map_eq_ok_iff.mp hend
  rw [Prod.mk.injEq, Prod.mk.injEq] at heq
  obtain ⟨hpc, hcount, hnumber⟩ := heq
  exact ⟨hoff, s, hrun, by rw [Reader.Between, hpc]; trivial, hcount, hnumber⟩

/-- **Neither is counted.** -/
theorem lastSeen_misses_message :
    Misses [sequencedFrame] messageCut ∧ Misses [serverHeartbeat, sequencedFrame] messageBehind :=
  ⟨misses_of_end (by decide +kernel) rfl, misses_of_end (by decide +kernel) rfl⟩

end TradingEngine
