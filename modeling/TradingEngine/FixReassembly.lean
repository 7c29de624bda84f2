/-
Reassembly of FIX messages from packets.

A stream of well-formed messages is cut into packets anywhere.  As long as no
cut falls inside a message's prefix `8=...|9=...|`, `parseFIX` hands out exactly
the messages of the stream.  The state between two packets is then a place in
the stream: either no message is begun (`Idle`), or the partial buffer holds the
first `k` bytes of a message and knows how many are missing (`Midway`).

A cut inside a prefix leaves a state (`Stuck`) in which the body length is not
known.  The code that resumes the header only ever finishes when the byte
*behind* the packet happens to be the delimiter; otherwise it swallows that
packet and every later one.

* `fix_reassembly` — every cutting that spares the prefixes, whatever lies in
  the packet buffers beyond the received bytes;
* `header_cut_never_reassembles` — no other cutting.
-/
import TradingEngine.FallibleRun
import TradingEngine.FixFraming
import TradingEngine.StreamFraming

namespace TradingEngine

open FallibleRun StreamFraming FixCursor

/-! ### Well-formed messages -/

/-- The number a string of digits stands for. -/
def digitsValue (ds : List UInt8) : ℕ := ds.foldl (fun n c => n * 10 + (c.toNat - 0x30)) 0

/-- `8=<beginString> SOH 9=<digits> SOH`. -/
def fixHeader (beginString digits : List UInt8) : List UInt8 :=
  0x38 :: equals :: (beginString ++ [soh, nine] ++ equals :: digits) ++ [soh]

/-- A well-formed FIX message of at most 1024 bytes. -/
structure FixFrame where
  beginString : List UInt8
  digits : List UInt8
  body : List UInt8
  checkSum : List UInt8
  begin_ne : beginString ≠ []
  begin_head : ∀ c ∈ beginString.head?, isDigit c = false
  begin_free : ∀ c ∈ beginString, c ≠ equals ∧ c ≠ soh
  digits_digit : ∀ c ∈ digits, isDigit c = true
  bodyLength : digits ≠ [] ∧ digitsValue digits = body.length
  checkSum_digits : checkSum.length = 3 ∧ ∀ c ∈ checkSum, isDigit c = true
  fits : (fixHeader beginString digits).length + body.length + 7 ≤ partialFixSize

namespace FixFrame

/-- The prefix up to and including the delimiter that ends tag 9. -/
def header (f : FixFrame) : List UInt8 := fixHeader f.beginString f.digits

/-- The whole message. -/
def bytes (f : FixFrame) : List UInt8 :=
  f.header ++ (f.body ++ (0x31 :: 0x30 :: equals :: f.checkSum ++ [soh]))

theorem length_bytes (f : FixFrame) : f.bytes.length = f.header.length + f.body.length + 7 := by
  have h := f.checkSum_digits.1
  simp only [bytes, List.length_append, List.length_cons, List.length_nil, h]
  omega

theorem length_header_pos (f : FixFrame) : 0 < f.header.length := by
  simp [header, fixHeader]

theorem length_bytes_pos (f : FixFrame) : 0 < f.bytes.length := by
  have h := f.length_header_pos
  rw [length_bytes]
  omega

theorem length_header_le (f : FixFrame) : f.header.length ≤ f.bytes.length := by
  rw [length_bytes]
  omega

theorem length_bytes_le (f : FixFrame) : f.bytes.length ≤ partialFixSize := by
  rw [length_bytes]
  exact f.fits

end FixFrame

/-- The packet carries exactly these bytes and has not been looked at; the rest of
its buffer is arbitrary. -/
structure Carries (pkt : RxPacket) (segment : List UInt8) : Prop where
  received : pkt.received = segment
  len : pkt.len = segment.length
  fresh : pkt.consumed = false

/-- The segments are the stream of the messages, cut into portions of 1 to 2048
bytes. -/
structure Cutting (frames : List FixFrame) (segments : List (List UInt8)) : Prop where
  flatten : segments.flatten = stream FixFrame.bytes frames
  ne_nil : ∀ segment ∈ segments, segment ≠ []
  fits : ∀ segment ∈ segments, segment.length ≤ packetSize

/-- Some cut falls strictly inside the prefix of a message. -/
def HeaderCut (frames : List FixFrame) (segments : List (List UInt8)) : Prop :=
  ∃ p, CutAt segments p ∧ InsideHead FixFrame.bytes FixFrame.header frames p

/-- Whatever lies in the packet buffers beyond the received bytes, the messages
handed out are the messages of the stream, byte for byte and in order. -/
def Reassembles (frames : List FixFrame) (segments : List (List UInt8)) : Prop :=
  ∀ pkts, List.Forall₂ Carries pkts segments →
    ∃ buf, parsePackets {} pkts = .ok (frames.map FixFrame.bytes, buf)

/-! ### The scan for the body length -/

/-- Characters that are no `=` only move the state about. -/
theorem scanBodyLen_append {l : List UInt8} (hl : ∀ c ∈ l, c ≠ equals) {s : BodyLenScan}
    (hs : s.state ≠ .done) (pos : ℕ) (more : List UInt8) :
    ∃ st, st ≠ BodyLenState.done ∧
      scanBodyLen pos (l ++ more) s =
        scanBodyLen (pos + l.length) more { s with state := st } := by
  induction l generalizing pos s with
  | nil => exact ⟨s.state, hs, rfl⟩
  | cons c l ih =>
    have hc : c ≠ equals := hl c (by simp)
    have hl' : ∀ c ∈ l, c ≠ equals := fun c h => hl c (by simp [h])
    rw [List.cons_append, scanBodyLen, List.length_cons, Nat.add_comm l.length, ← Nat.add_assoc]
    split
    · exact ih hl' (by simp) _
    · split
      · exact ih hl' (by simp) _
      · exact ih hl' hs _

/-- A run of digits is read to its end. -/
theorem readDigits_append {ds more : List UInt8} (hds : ∀ c ∈ ds, isDigit c = true)
    (hmore : ∀ c ∈ more.head?, isDigit c = false) (n saved pos : ℕ) :
    ∃ saved', readDigits n saved pos (ds ++ more) =
        (ds.foldl appendDigit n, saved', pos + ds.length, more) ∧
      (more ≠ [] → saved' = saved) := by
  induction ds generalizing n saved pos with
  | nil =>
    refine ⟨saved, ?_, fun _ => rfl⟩
    cases more with
    | nil => rfl
    | cons c more =>
      rw [List.nil_append, readDigits, if_neg]
      · rfl
      · rw [hmore c (by simp)]
        simp
  | cons c ds ih =>
    rw [List.cons_append, readDigits, if_pos (hds c (by simp)), List.length_cons,
      Nat.add_comm ds.length, ← Nat.add_assoc]
    obtain ⟨saved', heq, hsaved⟩ := ih (fun c h => hds c (by simp [h])) (appendDigit n c)
      (if ds ++ more = [] then appendDigit n c else saved) (pos + 1)
    refine ⟨saved', heq, fun hne => ?_⟩
    rw [hsaved hne, if_neg]
    simp [hne]

theorem le_foldl_digits (ds : List UInt8) (n : ℕ) :
    n ≤ ds.foldl (fun n c => n * 10 + (c.toNat - 0x30)) n := by
  induction ds generalizing n with
  | nil => exact le_rfl
  | cons c ds ih =>
    refine le_trans ?_ (ih _)
    show n ≤ n * 10 + (c.toNat - 0x30)
    omega

/-- The value of a digit is added in `size_t`. -/
theorem appendDigit_digit {n : ℕ} {c : UInt8} (hc : isDigit c = true) :
    appendDigit n c = (n * 10 + (c.toNat - 0x30)) % 2 ^ 64 := by
  have hlo : 0x30 ≤ c.toNat := by
    have h : (0x30 : UInt8) ≤ c := by
      simp [isDigit] at hc
      exact hc.1
    exact UInt8.le_iff_toNat_le.mp h
  have hhi : c.toNat ≤ 0x39 := by
    have h : c ≤ (0x39 : UInt8) := by
      simp [isDigit] at hc
      exact hc.2
    exact UInt8.le_iff_toNat_le.mp h
  have hint : c.toInt8.toInt = c.toNat := by
    show c.toBitVec.toInt = _
    rw [BitVec.toInt_eq_toNat_of_lt]
    · rfl
    · show 2 * c.toNat < 2 ^ 8
      omega
  rw [appendDigit, sizeT, hint]
  omega

theorem appendDigit_of_digit {n : ℕ} {c : UInt8} (hc : isDigit c = true)
    (hn : n * 10 + (c.toNat - 0x30) < 2 ^ 64) : appendDigit n c = n * 10 + (c.toNat - 0x30) := by
  rw [appendDigit_digit hc, Nat.mod_eq_of_lt hn]

/-- As long as the number fits, the wrapping product is the plain one. -/
theorem foldl_appendDigit {ds : List UInt8} (hds : ∀ c ∈ ds, isDigit c = true) {n : ℕ}
    (h : ds.foldl (fun n c => n * 10 + (c.toNat - 0x30)) n < 2 ^ 64) :
    ds.foldl appendDigit n = ds.foldl (fun n c => n * 10 + (c.toNat - 0x30)) n := by
  induction ds generalizing n with
  | nil => rfl
  | cons c ds ih =>
    rw [List.foldl_cons] at h
    have hle := le_foldl_digits ds (n * 10 + (c.toNat - 0x30))
    rw [List.foldl_cons, List.foldl_cons, appendDigit_of_digit (hds c (by simp)) (by omega)]
    exact ih (fun c hc => hds c (by simp [hc])) h

/-! ### The scan of a header -/

theorem digit_ne_equals {c : UInt8} (h : isDigit c = true) : c ≠ equals := by
  rintro rfl
  exact absurd h (by decide)

namespace FixFrame

variable (f : FixFrame)

/-- What stands between the two `=` of the header. -/
def between : List UInt8 := f.beginString ++ [soh, nine]

theorem between_ne_equals : ∀ c ∈ f.between, c ≠ equals := by
  intro c hc
  rcases List.mem_append.mp hc with hc | hc
  · exact (f.begin_free c hc).1
  · have hc' : c = soh ∨ c = nine := by simpa using hc
    rcases hc' with rfl | rfl
    · decide
    · decide

/-- The value of tag 8 is neither empty nor begins with a digit. -/
theorem head?_between : ∃ c rest, f.between = c :: rest ∧ isDigit c = false ∧ c ≠ soh := by
  cases hb : f.beginString with
  | nil => exact absurd hb f.begin_ne
  | cons c rest =>
    refine ⟨c, rest ++ [soh, nine], ?_, f.begin_head c (by rw [hb]; rfl),
      (f.begin_free c (by rw [hb]; simp)).2⟩
    rw [between, hb]
    rfl

theorem foldl_digits : f.digits.foldl appendDigit 0 = f.body.length := by
  have hval := f.bodyLength.2
  have hfits := f.fits
  rw [foldl_appendDigit f.digits_digit]
  · exact hval
  · show digitsValue f.digits < 2 ^ 64
    rw [hval]
    simp only [partialFixSize] at hfits
    omega

end FixFrame

/-- What the scan does at an `=`. -/
theorem scanBodyLen_equals {s : BodyLenScan} {pos n saved pos' : ℕ} {rest left : List UInt8}
    (hread : readDigits s.bodyLen s.saved (pos + 1) rest = (n, saved, pos', left)) :
    scanBodyLen pos (equals :: rest) s =
      if left.head? = some soh then ⟨.done, n, saved, pos' + 1⟩
      else scanBodyLen (pos + 1) rest ⟨.readValue, n, saved, s.bodyLenEnd⟩ := by
  rw [scanBodyLen, if_neg (by decide), if_neg (by decide), if_pos rfl]
  simp only [hread]

/-- Up to the value of tag 8 nothing happens: the first `=` is followed neither by
a digit nor by the delimiter. -/
theorem scanBodyLen_tag8 {rest : List UInt8}
    (hrest : ∀ c ∈ rest.head?, isDigit c = false ∧ c ≠ soh) (pos saved : ℕ) :
    scanBodyLen pos (0x38 :: equals :: rest) ⟨.none, 0, saved, 0⟩ =
      scanBodyLen (pos + 2) rest ⟨.readValue, 0, saved, 0⟩ := by
  have hread : readDigits 0 saved (pos + 2) rest = (0, saved, pos + 2, rest) := by
    cases rest with
    | nil => rfl
    | cons c rest =>
      rw [readDigits, if_neg]
      rw [(hrest c (by simp)).1]
      simp
  have hhead : rest.head? ≠ some soh := fun h => (hrest soh h).2 rfl
  have h8 : scanBodyLen pos (0x38 :: equals :: rest) ⟨.none, 0, saved, 0⟩ =
      scanBodyLen (pos + 1) (equals :: rest) ⟨.none, 0, saved, 0⟩ := by
    rw [scanBodyLen, if_neg (by decide), if_neg (by decide), if_neg (by decide)]
    rfl
  rw [h8, scanBodyLen_equals hread, if_neg hhead]

/-- **A whole header.**  The scan finds the length of the body and the end of the
header. -/
theorem scanBodyLen_header (f : FixFrame) (more : List UInt8) (pos saved : ℕ) :
    scanBodyLen pos (f.header ++ more) ⟨.none, 0, saved, 0⟩ =
      ⟨.done, f.body.length, saved, pos + f.header.length⟩ := by
  obtain ⟨c, rest, hbetween, hdigit, hsoh⟩ := f.head?_between
  have hheader : f.header ++ more =
      0x38 :: equals :: (f.between ++ equals :: (f.digits ++ soh :: more)) := by
    simp [FixFrame.header, fixHeader, FixFrame.between]
  have hlen : f.header.length = f.between.length + f.digits.length + 4 := by
    simp [FixFrame.header, fixHeader, FixFrame.between]
    omega
  have hstart : BodyLenState.readValue ≠ .done := by decide
  have hhead : ∀ c' ∈ (f.between ++ equals :: (f.digits ++ soh :: more)).head?,
      isDigit c' = false ∧ c' ≠ soh := by
    intro c' hc'
    rw [hbetween, List.cons_append, List.head?_cons, Option.mem_some_iff] at hc'
    exact hc' ▸ ⟨hdigit, hsoh⟩
  have hdelim : ∀ c' ∈ (soh :: more).head?, isDigit c' = false := by
    intro c' hc'
    rw [← Option.mem_some_iff.mp hc']
    decide
  obtain ⟨st, hst, hscan⟩ := scanBodyLen_append f.between_ne_equals
    (s := ⟨.readValue, 0, saved, 0⟩) hstart (pos + 2) (equals :: (f.digits ++ soh :: more))
  obtain ⟨saved', hread, hsaved⟩ := readDigits_append f.digits_digit hdelim 0 saved
    (pos + 2 + f.between.length + 1)
  rw [hheader, scanBodyLen_tag8 hhead, hscan, scanBodyLen_equals hread,
    if_pos List.head?_cons, hsaved (by simp), f.foldl_digits, hlen]
  congr 1
  omega

/-- A piece without `=` ends a scan where it was. -/
theorem scanBodyLen_plain {l : List UInt8} (hl : ∀ c ∈ l, c ≠ equals) {st : BodyLenState}
    (hst : st ≠ .done) (pos n saved : ℕ) :
    ∃ st', scanBodyLen pos l ⟨st, n, saved, 0⟩ = ⟨st', n, saved, 0⟩ ∧ st' ≠ .done := by
  obtain ⟨st', hst', hscan⟩ := scanBodyLen_append hl (s := ⟨st, n, saved, 0⟩) hst pos []
  rw [List.append_nil] at hscan
  exact ⟨st', hscan, hst'⟩

/-- The scan of the value of tag 8 and what follows it, cut before the last
delimiter. -/
theorem scanBodyLen_cut_value (f : FixFrame) {q r : List UInt8}
    (hq : q ++ r = f.between ++ equals :: f.digits) (pos saved : ℕ) :
    ∃ st n saved', scanBodyLen pos q ⟨.readValue, 0, saved, 0⟩ = ⟨st, n, saved', 0⟩ ∧
      st ≠ .done := by
  have hstart : BodyLenState.readValue ≠ .done := by decide
  rcases List.append_eq_append_iff.mp hq with ⟨a, hbetween, -⟩ | ⟨c, rfl, hc⟩
  · have hfree : ∀ c ∈ q, c ≠ equals := fun c hc =>
      f.between_ne_equals c (by rw [hbetween]; exact List.mem_append_left _ hc)
    obtain ⟨st, hscan, hst⟩ := scanBodyLen_plain hfree hstart pos 0 saved
    exact ⟨st, 0, saved, hscan, hst⟩
  · obtain ⟨st, hst, hscan⟩ := scanBodyLen_append f.between_ne_equals
      (s := ⟨.readValue, 0, saved, 0⟩) hstart pos c
    cases c with
    | nil => exact ⟨st, 0, saved, hscan, hst⟩
    | cons b ds =>
      rw [List.cons_append, List.cons.injEq] at hc
      obtain ⟨rfl, hdigits⟩ := hc
      -- the digits run to the end of the packet
      have hds : ∀ c ∈ ds, isDigit c = true := fun c hc =>
        f.digits_digit c (by rw [hdigits]; exact List.mem_append_left _ hc)
      have hend : ∀ c ∈ ([] : List UInt8).head?, isDigit c = false := by simp
      obtain ⟨saved', hread, -⟩ := readDigits_append hds hend 0 saved (pos + f.between.length + 1)
      rw [List.append_nil] at hread
      obtain ⟨st', hplain, hst'⟩ := scanBodyLen_plain (fun c hc => digit_ne_equals (hds c hc))
        hstart (pos + f.between.length + 1) (ds.foldl appendDigit 0) saved'
      refine ⟨st', ds.foldl appendDigit 0, saved', ?_, hst'⟩
      rw [hscan, scanBodyLen_equals hread, if_neg (by simp)]
      exact hplain

/-- **A header that is cut.**  The scan does not find the end of it. -/
theorem scanBodyLen_cut (f : FixFrame) {q r : List UInt8} (hq : q ++ r = f.header) (hr : r ≠ [])
    (pos saved : ℕ) :
    ∃ st n saved', scanBodyLen pos q ⟨.none, 0, saved, 0⟩ = ⟨st, n, saved', 0⟩ ∧ st ≠ .done := by
  obtain ⟨r', x, rfl⟩ : ∃ r' x, r = r' ++ [x] := by
    rcases List.eq_nil_or_concat r with rfl | ⟨r', x, h⟩
    · exact absurd rfl hr
    · exact ⟨r', x, by rw [h, List.concat_eq_append]⟩
  have hq' : q ++ r' = 0x38 :: equals :: (f.between ++ equals :: f.digits) := by
    rw [← List.append_assoc, FixFrame.header, fixHeader] at hq
    exact (List.append_inj' hq rfl).1
  cases q with
  | nil => exact ⟨.none, 0, saved, rfl, by simp⟩
  | cons a q =>
    rw [List.cons_append, List.cons.injEq] at hq'
    obtain ⟨rfl, hq'⟩ := hq'
    cases q with
    | nil => exact ⟨.none, 0, saved, rfl, by simp⟩
    | cons b q =>
      rw [List.cons_append, List.cons.injEq] at hq'
      obtain ⟨rfl, hq'⟩ := hq'
      have hhead : ∀ c ∈ q.head?, isDigit c = false ∧ c ≠ soh := by
        obtain ⟨c, rest, hbetween, hdigit, hsoh⟩ := f.head?_between
        intro c' hc'
        cases q with
        | nil => exact absurd hc' (by simp)
        | cons d q =>
          rw [hbetween, List.cons_append, List.cons_append, List.cons.injEq] at hq'
          rw [List.head?_cons, Option.mem_some_iff] at hc'
          rw [← hc', hq'.1]
          exact ⟨hdigit, hsoh⟩
      rw [scanBodyLen_tag8 hhead]
      exact scanBodyLen_cut_value f hq' (pos + 2) saved

/-! ### The state between two calls -/

/-- No message is begun. -/
structure Idle (buf : PartialFIXBuffer) : Prop where
  inactive : buf.active = false
  remaining : buf.remainingLen = 0
  state : buf.bodylenState = .none

/-- A message is begun and its length known; `sofar` is there and `todo` missing. -/
structure Midway (sofar todo : List UInt8) (buf : PartialFIXBuffer) : Prop where
  active : buf.active = true
  state : buf.bodylenState = .done
  existing : buf.existingLen = sofar.length
  remaining : buf.remainingLen = todo.length
  data : buf.data.toList.take sofar.length = sofar

/-- A message is begun and its length is not known. -/
structure Stuck (buf : PartialFIXBuffer) : Prop where
  active : buf.active = true
  remaining : buf.remainingLen = 0
  state : buf.bodylenState ≠ .done

/-- The partial buffer at a place in the stream, `k` bytes into the first frame. -/
def AtPlace (buf : PartialFIXBuffer) (k : ℕ) : List FixFrame → Prop
  | [] => Idle buf
  | f :: _ =>
    (k = 0 → Idle buf) ∧
    (0 < k → k < f.header.length → Stuck buf) ∧
    (f.header.length ≤ k → Midway (f.bytes.take k) (f.bytes.drop k) buf)

theorem atPlace_zero {buf : PartialFIXBuffer} (h : Idle buf) (frames : List FixFrame) :
    AtPlace buf 0 frames := by
  cases frames with
  | nil => exact h
  | cons f fs =>
    have hpos := f.length_header_pos
    exact ⟨fun _ => h, fun h0 _ => absurd h0 (by omega), fun hle => absurd hle (by omega)⟩

variable {c : FixCursor} {f : FixFrame}

theorem length_rest (hlen : c.pkt.len ≤ packetSize) : c.rest.length = c.pkt.len - c.offset := by
  simp only [rest, RxPacket.received, List.length_drop, List.length_take, Vector.length_toList]
  omega

theorem slice_rest (hlen : c.pkt.len ≤ packetSize) {n : ℕ} (hn : n ≤ c.rest.length)
    (hoff : c.offset ≤ c.pkt.len) : slice c.pkt.data c.offset n = .ok (c.rest.take n) := by
  rw [length_rest hlen] at hn
  rw [slice_of_le _ (by omega), rest, RxPacket.received, List.drop_take, List.take_take,
    Nat.min_eq_left hn]

/-- The length the scan comes to is the length of the message. -/
theorem sizeT_msgLen (f : FixFrame) (offset : ℕ) :
    sizeT (((offset + f.header.length : ℕ) : ℤ) + (f.body.length : ℤ) + 7 - (offset : ℤ)) =
      f.bytes.length := by
  have hlen := f.length_bytes
  have hle := f.length_bytes_le
  simp only [partialFixSize] at hle
  rw [sizeT]
  omega

theorem scan_of_header (hidle : Idle c.buf) {more : List UInt8}
    (hrest : c.rest = f.header ++ more) :
    scanBodyLen c.offset c.rest ⟨c.buf.bodylenState, 0, c.buf.bodyLen, 0⟩ =
      ⟨.done, f.body.length, c.buf.bodyLen, c.offset + f.header.length⟩ := by
  rw [hidle.state, hrest]
  exact scanBodyLen_header f more c.offset c.buf.bodyLen

/-- The cursor has bytes of its packet before it. -/
structure Ready (c : FixCursor) : Prop where
  len : c.pkt.len ≤ packetSize
  offset : c.offset < c.pkt.len

/-- **A message that goes on behind the packet** is begun. -/
theorem frameMsg_begun (hc : Ready c) (hidle : Idle c.buf) {todo more : List UInt8}
    (hrest : c.rest ++ todo = f.bytes) (htodo : todo ≠ []) (hheader : c.rest = f.header ++ more) :
    ∃ c', c.frameMsg = .ok (none, c') ∧ c'.pkt.consumed = true ∧ Midway c.rest todo c'.buf := by
  have hlen := length_rest hc.len
  have hsum := congrArg List.length hrest
  rw [List.length_append] at hsum
  have htodo' := List.length_pos_iff.mpr htodo
  have hfits := f.length_bytes_le
  have hsrc : slice c.pkt.data c.offset (c.pkt.len - c.offset) = .ok c.rest := by
    rw [slice_rest hc.len (le_of_eq hlen.symm) hc.offset.le, ← hlen, List.take_length]
  obtain ⟨data, hdata, hread⟩ := writeAt_of_le c.buf.data 0 c.rest (by omega)
  have hoff := hc.offset
  have hpos := f.length_header_pos
  rw [frameMsg]
  simp only [scan_of_header hidle hheader, sizeT_msgLen]
  rw [if_neg (by omega), if_pos (by omega)]
  simp only [hsrc, hdata, bind, Except.bind]
  refine ⟨_, rfl, rfl, rfl, rfl, hlen.symm, ?_, ?_⟩
  · show f.bytes.length - (c.pkt.len - c.offset) = todo.length
    omega
  · rw [Nat.zero_add, List.take_zero, List.nil_append] at hread
    exact hread

/-- **A message that ends with the packet** is handed out and the packet consumed. -/
theorem frameMsg_last (hc : Ready c) (hidle : Idle c.buf) (hrest : c.rest = f.bytes) :
    ∃ c', c.frameMsg = .ok (some f.bytes, c') ∧ c'.pkt.consumed = true ∧ Idle c'.buf := by
  have hlen := length_rest hc.len
  have hsum := congrArg List.length hrest
  have hpos := f.length_header_pos
  have hoff := hc.offset
  have hsrc : slice c.pkt.data c.offset f.bytes.length = .ok f.bytes := by
    rw [slice_rest hc.len (le_of_eq hsum.symm) hc.offset.le, ← hsum, List.take_length, hrest]
  rw [frameMsg]
  simp only [scan_of_header hidle hrest, sizeT_msgLen]
  rw [if_neg (by omega), if_neg (by omega), if_neg (by omega)]
  simp only [hsrc, bind, Except.bind]
  exact ⟨_, rfl, rfl, rfl, hidle.remaining, rfl⟩

/-- **A message with more behind it** is handed out and the offset moves on. -/
theorem frameMsg_more (hc : Ready c) (hidle : Idle c.buf) {more : List UInt8}
    (hrest : c.rest = f.bytes ++ more) (hmore : more ≠ []) :
    ∃ c', c.frameMsg = .ok (some f.bytes, c') ∧ c'.pkt.consumed = false ∧ Idle c'.buf ∧
      Ready c' ∧ c'.rest = more := by
  have hlen := length_rest hc.len
  have hsum := congrArg List.length hrest
  rw [List.length_append] at hsum
  have hmore' := List.length_pos_iff.mpr hmore
  have hfits := f.length_bytes_le
  have hpos := f.length_header_pos
  have hoff := hc.offset
  have hsrc : slice c.pkt.data c.offset f.bytes.length = .ok f.bytes := by
    rw [slice_rest hc.len (by omega) hc.offset.le, hrest, List.take_left]
  obtain ⟨data, hdata, -⟩ := writeAt_of_le c.buf.data 0 f.bytes (by omega)
  have hheader : c.rest = f.header ++ (f.bytes.drop f.header.length ++ more) := by
    rw [hrest, ← List.append_assoc]
    congr 1
    rw [FixFrame.bytes, List.drop_left]
  rw [frameMsg]
  simp only [scan_of_header hidle hheader, sizeT_msgLen]
  rw [if_neg (by omega), if_neg (by omega), if_pos (by omega)]
  simp only [hsrc, hdata, bind, Except.bind]
  refine ⟨_, rfl, rfl, ⟨rfl, rfl, rfl⟩, ⟨hc.len, ?_⟩, ?_⟩
  · show c.offset + f.bytes.length < c.pkt.len
    omega
  · show c.pkt.received.drop (c.offset + f.bytes.length) = more
    rw [← List.drop_drop]
    show c.rest.drop f.bytes.length = more
    rw [hrest, List.drop_left]

/-- **A header that goes on behind the packet** leaves the parser stuck. -/
theorem frameMsg_stuck (hc : Ready c) (hidle : Idle c.buf) {r : List UInt8}
    (hrest : c.rest ++ r = f.header) (hr : r ≠ []) :
    ∃ c', c.frameMsg = .ok (none, c') ∧ c'.pkt.consumed = true ∧ Stuck c'.buf := by
  have hlen := length_rest hc.len
  have hsum := congrArg List.length hrest
  rw [List.length_append] at hsum
  have hfits := f.length_bytes_le
  have hheader := f.length_header_le
  have hsrc : slice c.pkt.data c.offset (c.pkt.len - c.offset) = .ok c.rest := by
    rw [slice_rest hc.len (le_of_eq hlen.symm) hc.offset.le, ← hlen, List.take_length]
  obtain ⟨data, hdata, -⟩ := writeAt_of_le c.buf.data 0 c.rest (by omega)
  obtain ⟨st, n, saved, hscan, hst⟩ := scanBodyLen_cut f hrest hr c.offset c.buf.bodyLen
  rw [frameMsg]
  simp only [hidle.state, hscan, if_true, hsrc, hdata, bind, Except.bind]
  refine ⟨_, rfl, rfl, rfl, hidle.remaining, ?_⟩
  show (if n = 0 then BodyLenState.expectSoh else st) ≠ .done
  split
  · decide
  · exact hst

/-! ### A packet that begins with a message -/

theorem nextFixMsg_idle (hc : Ready c) (hidle : Idle c.buf) : c.nextFixMsg = c.frameMsg := by
  have hoff := hc.offset
  rw [nextFixMsg, if_neg (by omega), if_neg]
  rintro ⟨hactive, -⟩
  rw [hidle.inactive] at hactive
  exact absurd hactive (by simp)

/-- **The packet from a message on.**  The messages it completes are handed out
and the buffer ends at the place the packet leads to. -/
theorem fixLoop_idle (frames : List FixFrame) {fuel : ℕ} (hc : Ready c) (hidle : Idle c.buf)
    (hrest : c.rest <+: stream FixFrame.bytes frames) (hfuel : c.rest.length < fuel) :
    ∃ buf, fixLoop fuel c =
        .ok ((advance FixFrame.bytes 0 frames c.rest.length).1.map FixFrame.bytes, buf) ∧
      AtPlace buf (advance FixFrame.bytes 0 frames c.rest.length).2.1
        (advance FixFrame.bytes 0 frames c.rest.length).2.2 := by
  -- by induction on the messages of the packet
  induction frames generalizing c fuel with
  | nil =>
    have hlen := length_rest hc.len
    have hoff := hc.offset
    have hnil : c.rest = [] := List.prefix_nil.mp hrest
    rw [hnil, List.length_nil] at hlen
    omega
  | cons f fs ih =>
    have hpos : 0 < c.rest.length := by
      have hlen := length_rest hc.len
      have hoff := hc.offset
      omega
    obtain ⟨fuel, rfl⟩ : ∃ m, fuel = m + 1 := ⟨fuel - 1, by omega⟩
    rw [stream_cons] at hrest
    rw [fixLoop, nextFixMsg_idle hc hidle, advance, Nat.zero_add]
    split
    · rename_i hlt
      -- the packet ends inside `f`
      have hbytes : c.rest <+: f.bytes :=
        List.prefix_of_prefix_length_le hrest (List.prefix_append _ _) (by omega)
      by_cases hcut : c.rest.length < f.header.length
      · obtain ⟨r, hr⟩ : c.rest <+: f.header :=
          List.prefix_of_prefix_length_le hbytes (List.prefix_append _ _) (by omega)
        have hr' : r ≠ [] := by
          rintro rfl
          rw [List.append_nil] at hr
          rw [hr] at hcut
          omega
        obtain ⟨c', hcall, hcons, hstuck⟩ := frameMsg_stuck hc hidle hr hr'
        simp only [hcall, hcons, bind, Except.bind]
        exact ⟨c'.buf, rfl, fun h => absurd h (by omega), fun _ _ => hstuck,
          fun h => absurd h (by omega)⟩
      · obtain ⟨todo, htodo⟩ := hbytes
        obtain ⟨more, hmore⟩ : f.header <+: c.rest :=
          List.prefix_of_prefix_length_le (List.prefix_append _ _) ⟨todo, htodo⟩ (by omega)
        have htodo' : todo ≠ [] := by
          rintro rfl
          rw [List.append_nil] at htodo
          rw [htodo] at hlt
          omega
        obtain ⟨c', hcall, hcons, hmid⟩ := frameMsg_begun hc hidle htodo htodo' hmore.symm
        simp only [hcall, hcons, bind, Except.bind]
        refine ⟨c'.buf, rfl, fun h => absurd h (by omega), fun _ h => absurd h (by omega), ?_⟩
        intro _
        rw [← htodo, List.take_left, List.drop_left]
        exact hmid
    · rename_i hge
      -- the packet holds all of `f`
      obtain ⟨more, hmore⟩ : f.bytes <+: c.rest :=
        List.prefix_of_prefix_length_le (List.prefix_append _ _) hrest (by omega)
      have hcount : c.rest.length - f.bytes.length = more.length := by
        rw [← hmore, List.length_append]
        omega
      have hprefix : more <+: stream FixFrame.bytes fs := by
        rw [← hmore] at hrest
        exact (List.prefix_append_right_inj _).mp hrest
      simp only [hcount]
      by_cases hnil : more = []
      · subst hnil
        rw [List.append_nil] at hmore
        obtain ⟨c', hcall, hcons, hidle'⟩ := frameMsg_last hc hidle hmore.symm
        simp only [hcall, hcons, bind, Except.bind]
        rw [List.length_nil, advance_zero (inside_zero FixFrame.length_bytes_pos fs)]
        exact ⟨c'.buf, rfl, atPlace_zero hidle' fs⟩
      · obtain ⟨c', hcall, hcons, hidle', hc', hrest'⟩ :=
          frameMsg_more hc hidle hmore.symm hnil
        have hpos' := f.length_bytes_pos
        have hfuel' : c'.rest.length < fuel := by
          rw [hrest']
          omega
        obtain ⟨buf, hloop, hplace⟩ := ih hc' hidle' (hrest' ▸ hprefix) hfuel'
        rw [hrest'] at hloop hplace
        simp only [hcall, hcons, hloop, bind, Except.bind]
        exact ⟨buf, rfl, hplace⟩

/-! ### A packet that goes on with a message -/

variable {sofar todo : List UInt8}

theorem nextFixMsg_midway (hc : Ready c) (hfresh : c.pkt.consumed = false)
    (hmid : Midway sofar todo c.buf) : c.nextFixMsg = c.copyPartial := by
  have hoff := hc.offset
  rw [nextFixMsg, if_neg (by omega), if_pos ⟨hmid.active, hfresh⟩, continuePartial, if_neg]
  rintro ⟨-, hstate⟩
  exact hstate hmid.state

/-- **The packet is too short** to complete the message. -/
theorem copyPartial_short (hc : Ready c) (hoff : c.offset = 0) (hmid : Midway sofar todo c.buf)
    (hfits : sofar.length + todo.length ≤ partialFixSize) {todo' : List UInt8}
    (htodo : todo = c.rest ++ todo') (hmore : todo' ≠ []) :
    ∃ c', c.copyPartial = .ok (none, c') ∧ c'.pkt.consumed = true ∧
      Midway (sofar ++ c.rest) todo' c'.buf := by
  have hlen := length_rest hc.len
  rw [hoff, Nat.sub_zero] at hlen
  have hmore' := List.length_pos_iff.mpr hmore
  have hsum := congrArg List.length htodo
  rw [List.length_append] at hsum
  have hmin : min todo.length c.pkt.len = c.pkt.len := by omega
  have hsrc : slice c.pkt.data c.offset c.pkt.len = .ok c.rest := by
    rw [slice_rest hc.len (le_of_eq hlen.symm) hc.offset.le, ← hlen, List.take_length]
  obtain ⟨data, hdata, hread⟩ := writeAt_of_le c.buf.data sofar.length c.rest (by omega)
  rw [copyPartial]
  simp only [hmid.remaining, hmid.existing, hmin, hsrc, hdata, bind, Except.bind]
  rw [if_neg (by omega)]
  refine ⟨_, rfl, by simp, hmid.active, hmid.state, ?_, ?_, ?_⟩
  · show sofar.length + c.pkt.len = _
    rw [List.length_append, hlen]
  · show todo.length - c.pkt.len = todo'.length
    omega
  · rw [hmid.data] at hread
    rw [List.length_append]
    exact hread

/-- **The packet completes the message**; what is behind it is left. -/
theorem copyPartial_completes (hc : Ready c) (hoff : c.offset = 0)
    (hmid : Midway sofar todo c.buf) (hfits : sofar.length + todo.length ≤ partialFixSize)
    {more : List UInt8} (hrest : c.rest = todo ++ more) :
    ∃ c', c.copyPartial = .ok (some (sofar ++ todo), c') ∧ Idle c'.buf ∧
      (more = [] → c'.pkt.consumed = true) ∧
      (more ≠ [] → c'.pkt.consumed = false ∧ Ready c' ∧ c'.rest = more) := by
  have hlen := length_rest hc.len
  rw [hoff, Nat.sub_zero] at hlen
  have hsum := congrArg List.length hrest
  rw [List.length_append] at hsum
  have hmin : min todo.length c.pkt.len = todo.length := by omega
  have hsrc : slice c.pkt.data c.offset todo.length = .ok todo := by
    rw [slice_rest hc.len (by omega) hc.offset.le, hrest, List.take_left]
  obtain ⟨data, hdata, hread⟩ := writeAt_of_le c.buf.data sofar.length todo (by omega)
  rw [hmid.data] at hread
  rw [copyPartial]
  simp only [hmid.remaining, hmid.existing, hmin, hsrc, hdata, hread, Nat.sub_self, if_true, bind,
    Except.bind]
  refine ⟨_, rfl, ⟨rfl, rfl, rfl⟩, ?_, ?_⟩
  · rintro rfl
    rw [List.length_nil, Nat.add_zero, hlen] at hsum
    simp [hsum]
  · intro hmore
    have hmore' := List.length_pos_iff.mpr hmore
    have hlt : todo.length < c.pkt.len := by omega
    refine ⟨by simp [hlt], ⟨hc.len, ?_⟩, ?_⟩
    · show (if todo.length < c.pkt.len then c.offset + todo.length else c.offset) < c.pkt.len
      rw [if_pos hlt]
      omega
    · show c.pkt.received.drop (if todo.length < c.pkt.len then c.offset + todo.length
        else c.offset) = more
      rw [if_pos hlt, ← List.drop_drop]
      show c.rest.drop todo.length = more
      rw [hrest, List.drop_left]

/-! ### Whole packets -/

variable {pkt : RxPacket} {segment : List UInt8} {buf : PartialFIXBuffer} {k : ℕ}
  {frames : List FixFrame}

theorem Carries.ready (h : Carries pkt segment) (hne : segment ≠ []) (buf : PartialFIXBuffer) :
    Ready ⟨buf, pkt, 0⟩ := by
  have hlen := congrArg List.length h.received
  have hpos := List.length_pos_iff.mpr hne
  rw [RxPacket.received, List.length_take, Vector.length_toList] at hlen
  have hl := h.len
  constructor
  · show pkt.len ≤ packetSize
    omega
  · show 0 < pkt.len
    omega

theorem Carries.rest (h : Carries pkt segment) (buf : PartialFIXBuffer) :
    (FixCursor.mk buf pkt 0).rest = segment :=
  h.received

/-- **A packet that goes on with a message.** -/
theorem parseFIX_midway {fs : List FixFrame} (hcarry : Carries pkt segment) (hne : segment ≠ [])
    (hmid : Midway (f.bytes.take k) (f.bytes.drop k) buf) (hk : k < f.bytes.length)
    (hheader : f.header.length ≤ k)
    (hpre : segment <+: f.bytes.drop k ++ stream FixFrame.bytes fs) :
    ∃ buf', parseFIX buf pkt =
        .ok ((advance FixFrame.bytes k (f :: fs) segment.length).1.map FixFrame.bytes, buf') ∧
      AtPlace buf' (advance FixFrame.bytes k (f :: fs) segment.length).2.1
        (advance FixFrame.bytes k (f :: fs) segment.length).2.2 := by
  have hc := hcarry.ready hne buf
  have hrest := hcarry.rest buf
  have hlen := hcarry.len
  have hpos := f.length_header_pos
  have hsofar : (f.bytes.take k).length = k := by
    rw [List.length_take]
    omega
  have htodo : (f.bytes.drop k).length = f.bytes.length - k := List.length_drop
  have hfits : (f.bytes.take k).length + (f.bytes.drop k).length ≤ partialFixSize := by
    have hle := f.length_bytes_le
    omega
  rw [parseFIX, fixLoop, nextFixMsg_midway hc hcarry.fresh hmid, advance]
  split
  · -- the packet ends inside the message
    rename_i hlt
    obtain ⟨todo', htodo'⟩ : segment <+: f.bytes.drop k :=
      List.prefix_of_prefix_length_le hpre (List.prefix_append _ _) (by omega)
    have hmore : todo' ≠ [] := by
      rintro rfl
      rw [List.append_nil] at htodo'
      rw [htodo'] at hlt
      omega
    obtain ⟨c', hcall, hcons, hmid'⟩ :=
      copyPartial_short hc rfl hmid hfits (by rw [hrest, htodo']) hmore
    rw [hrest] at hmid'
    simp only [hcall, hcons, bind, Except.bind]
    refine ⟨c'.buf, rfl, fun h => absurd h (by omega), fun _ h => absurd h (by omega), fun _ => ?_⟩
    rw [List.take_add, ← List.drop_drop, ← htodo', List.take_left, List.drop_left]
    exact hmid'
  · -- the packet completes the message
    rename_i hge
    obtain ⟨more, hmore⟩ : f.bytes.drop k <+: segment :=
      List.prefix_of_prefix_length_le (List.prefix_append _ _) hpre (by omega)
    have hcount : k + segment.length - f.bytes.length = more.length := by
      rw [← hmore, List.length_append]
      omega
    obtain ⟨c', hcall, hidle, hend, hcont⟩ :=
      copyPartial_completes hc rfl hmid hfits (by rw [hrest, hmore])
    rw [List.take_append_drop] at hcall
    simp only [hcount]
    by_cases hnil : more = []
    · subst hnil
      rw [List.length_nil, advance_zero (inside_zero FixFrame.length_bytes_pos fs)]
      simp only [hcall, hend rfl, bind, Except.bind]
      exact ⟨c'.buf, rfl, atPlace_zero hidle fs⟩
    · -- the rest is read from between two messages on
      obtain ⟨hcons, hready, hrest'⟩ := hcont hnil
      have hprefix : more <+: stream FixFrame.bytes fs := by
        rw [← hmore] at hpre
        exact (List.prefix_append_right_inj _).mp hpre
      have hfuel : c'.rest.length < pkt.len := by
        rw [hrest', hlen, ← hmore, List.length_append]
        omega
      obtain ⟨buf', hloop, hplace⟩ := fixLoop_idle fs hready hidle (hrest' ▸ hprefix) hfuel
      rw [hrest'] at hloop hplace
      simp only [hcall, hcons, hloop, bind, Except.bind]
      exact ⟨buf', rfl, hplace⟩

/-- **One packet.**  From a place that is not inside a header, the packet's messages
are handed out and the buffer ends at the place the packet leads to. -/
theorem parseFIX_place (hplace : AtPlace buf k frames) (hin : Inside FixFrame.bytes k frames)
    (hgood : ¬ PlaceInsideHead FixFrame.header k frames) (hcarry : Carries pkt segment)
    (hne : segment ≠ []) (hpre : segment <+: (stream FixFrame.bytes frames).drop k) :
    ∃ buf', parseFIX buf pkt =
        .ok ((advance FixFrame.bytes k frames segment.length).1.map FixFrame.bytes, buf') ∧
      AtPlace buf' (advance FixFrame.bytes k frames segment.length).2.1
        (advance FixFrame.bytes k frames segment.length).2.2 := by
  have hidleCase : k = 0 → Idle buf → ∃ buf', parseFIX buf pkt =
        .ok ((advance FixFrame.bytes k frames segment.length).1.map FixFrame.bytes, buf') ∧
      AtPlace buf' (advance FixFrame.bytes k frames segment.length).2.1
        (advance FixFrame.bytes k frames segment.length).2.2 := by
    rintro rfl hidle
    have hc := hcarry.ready hne buf
    have hrest := hcarry.rest buf
    rw [List.drop_zero] at hpre
    have hfuel : (FixCursor.mk buf pkt 0).rest.length < pkt.len + 1 := by
      rw [hrest, hcarry.len]
      omega
    have h := fixLoop_idle frames hc hidle (hrest ▸ hpre) hfuel
    rwa [hrest] at h
  cases frames with
  | nil =>
    have hnil : segment = [] := by simpa using hpre
    exact absurd hnil hne
  | cons f fs =>
    obtain ⟨hidle, -, hmid⟩ := hplace
    by_cases hk : k = 0
    · exact hidleCase hk (hidle hk)
    · have hheader : f.header.length ≤ k := by
        by_contra hlt
        exact hgood ⟨by omega, by omega⟩
      have hk' : k < f.bytes.length := hin
      rw [stream_cons, List.drop_append_of_le_length (by omega)] at hpre
      exact parseFIX_midway hcarry hne (hmid hheader) hk' hheader hpre

/-! ### Whole streams -/

/-- The place that `p` more bytes lead to is strictly inside a header. -/
def LeadsInsideHeader (k : ℕ) (frames : List FixFrame) (p : ℕ) : Prop :=
  PlaceInsideHead FixFrame.header (advance FixFrame.bytes k frames p).2.1
    (advance FixFrame.bytes k frames p).2.2

theorem leadsInsideHeader_zero (hin : Inside FixFrame.bytes k frames) :
    LeadsInsideHeader k frames 0 ↔ PlaceInsideHead FixFrame.header k frames := by
  rw [LeadsInsideHeader, advance_zero hin]

theorem leadsInsideHeader_advance (n p : ℕ) :
    LeadsInsideHeader (advance FixFrame.bytes k frames n).2.1
      (advance FixFrame.bytes k frames n).2.2 p ↔ LeadsInsideHeader k frames (n + p) := by
  rw [LeadsInsideHeader, LeadsInsideHeader, advance_advance]

theorem parsePackets_cons {msgs : List (List UInt8)} {buf' : PartialFIXBuffer}
    (pkts : List RxPacket) (h : parseFIX buf pkt = .ok (msgs, buf')) :
    parsePackets buf (pkt :: pkts) =
      (parsePackets buf' pkts).map fun r => (msgs ++ r.1, r.2) := by
  rw [parsePackets, h]
  rfl

/-- **The packets of a stream.**  From a place in the stream on, packets that end
at no place inside a header hand out all messages that are left. -/
theorem parsePackets_place {segments : List (List UInt8)} {pkts : List RxPacket}
    (hcarry : List.Forall₂ Carries pkts segments) (hplace : AtPlace buf k frames)
    (hin : Inside FixFrame.bytes k frames)
    (hstream : segments.flatten = (stream FixFrame.bytes frames).drop k)
    (hne : ∀ segment ∈ segments, segment ≠ [])
    (hgood : ∀ p, CutAt segments p → ¬ LeadsInsideHeader k frames p) :
    ∃ buf', parsePackets buf pkts = .ok (frames.map FixFrame.bytes, buf') := by
  induction hcarry generalizing buf k frames with
  | nil =>
    rw [List.flatten_nil] at hstream
    rw [frames_eq_nil_of_drop hin hstream.symm]
    exact ⟨buf, rfl⟩
  | @cons pkt segment pkts segments hpkt _ ih =>
    rw [List.flatten_cons] at hstream
    have hstart : ¬ PlaceInsideHead FixFrame.header k frames := by
      rw [← leadsInsideHeader_zero hin]
      exact hgood 0 (cutAt_zero _)
    obtain ⟨buf', hparse, hplace'⟩ := parseFIX_place hplace hin hstart hpkt (hne _ (by simp))
      (hstream ▸ List.prefix_append _ _)
    have hgood' : ∀ p, CutAt segments p →
        ¬ LeadsInsideHeader (advance FixFrame.bytes k frames segment.length).2.1
          (advance FixFrame.bytes k frames segment.length).2.2 p := by
      intro p hp
      rw [leadsInsideHeader_advance]
      exact hgood _ (hp.cons segment)
    obtain ⟨buf'', hrest⟩ := ih hplace' (inside_advance k frames segment.length)
      (by rw [drop_advance, ← hstream, List.drop_left]) (fun s hs => hne s (by simp [hs])) hgood'
    refine ⟨buf'', ?_⟩
    rw [parsePackets_cons pkts hparse, hrest, Except.map, ← List.map_append, advance_append]

theorem leadsInsideHeader_iff (frames : List FixFrame) (p : ℕ) :
    LeadsInsideHeader 0 frames p ↔ InsideHead FixFrame.bytes FixFrame.header frames p := by
  rw [LeadsInsideHeader, placeInsideHead_advance_iff FixFrame.length_header_le, Nat.zero_add]

/-- **Reassembly.**  However the stream is cut, as long as no cut falls inside the
prefix of a message, the loop ends on every packet and the messages handed out
are those of the stream. -/
theorem fix_reassembly (frames : List FixFrame) (segments : List (List UInt8))
    (hcut : Cutting frames segments) (hheader : ¬ HeaderCut frames segments) :
    Reassembles frames segments := by
  intro pkts hcarry
  have hidle : Idle {} := ⟨rfl, rfl, rfl⟩
  refine parsePackets_place hcarry (atPlace_zero hidle frames)
    (inside_zero FixFrame.length_bytes_pos frames) hcut.flatten hcut.ne_nil fun p hp hin => ?_
  exact hheader ⟨p, hp, (leadsInsideHeader_iff frames p).mp hin⟩

/-! ### A header that is cut -/

/-- No delimiter lies in the packet's buffer behind what was received. -/
def CleanTail (pkt : RxPacket) : Prop := ∀ pos, pkt.len ≤ pos → pkt.data.toList[pos]? ≠ some soh

/-- Where the packet ends first, the byte behind it is no delimiter, and elsewhere
the state is left as it was. -/
theorem resumedState_ne_done (hstuck : Stuck c.buf) (htail : CleanTail c.pkt) {pos : ℕ}
    {st : BodyLenState} (h : c.resumedState pos = .ok st) : st ≠ .done := by
  rw [resumedState] at h
  split at h
  · rename_i hle
    split at h
    · exact absurd h (by simp)
    · rename_i b hb
      have hb' : b ≠ soh := fun heq => htail _ hle (heq ▸ hb)
      rw [if_neg hb', Except.ok.injEq] at h
      rw [← h]
      decide
  · rw [Except.ok.injEq] at h
    rw [← h]
    exact hstuck.state

/-- Resuming a header swallows the packet. -/
theorem continuePartial_stuck (hstuck : Stuck c.buf) (htail : CleanTail c.pkt)
    {r : Option (List UInt8) × FixCursor} (h : c.continuePartial = .ok r) :
    r.1 = none ∧ r.2.pkt.consumed = true ∧ Stuck r.2.buf := by
  rw [continuePartial, if_pos ⟨hstuck.remaining, hstuck.state⟩] at h
  obtain ⟨st, hst, h⟩ := bind_eq_ok_iff.mp h
  rw [if_neg (resumedState_ne_done hstuck htail hst)] at h
  obtain ⟨src, -, h⟩ := bind_eq_ok_iff.mp h
  obtain ⟨data, -, h⟩ := bind_eq_ok_iff.mp h
  rw [Except.ok.injEq] at h
  rw [← h]
  exact ⟨rfl, rfl, hstuck.active, hstuck.remaining, BodyLenState.noConfusion⟩

/-- **Stuck for good.**  Without a delimiter behind the packet nothing is handed
out, and the parser stays stuck or has overrun a buffer. -/
theorem parseFIX_stuck (hstuck : Stuck buf) (hcarry : Carries pkt segment) (hne : segment ≠ [])
    (htail : CleanTail pkt) {r : List (List UInt8) × PartialFIXBuffer}
    (hparse : parseFIX buf pkt = .ok r) : r.1 = [] ∧ Stuck r.2 := by
  have hoff := (hcarry.ready hne buf).offset
  have hnext : (FixCursor.mk buf pkt 0).nextFixMsg = (FixCursor.mk buf pkt 0).continuePartial := by
    rw [nextFixMsg, if_neg (by omega), if_pos ⟨hstuck.active, hcarry.fresh⟩]
  rw [parseFIX, fixLoop, hnext] at hparse
  obtain ⟨⟨msg, c'⟩, hcall, hparse⟩ := bind_eq_ok_iff.mp hparse
  obtain ⟨hmsg, hcons, hstuck'⟩ := continuePartial_stuck (c := ⟨buf, pkt, 0⟩) hstuck htail hcall
  have hmsg' : msg = none := hmsg
  have hcons' : c'.pkt.consumed = true := hcons
  subst hmsg'
  simp only [hcons', Bool.true_eq_false, if_false] at hparse
  rw [Except.ok.injEq] at hparse
  rw [← hparse]
  exact ⟨rfl, hstuck'⟩

/-- Nothing comes out of a stuck parser. -/
theorem parsePackets_stuck {segments : List (List UInt8)} {pkts : List RxPacket}
    (hcarry : List.Forall₂ Carries pkts segments) (hstuck : Stuck buf)
    (hne : ∀ segment ∈ segments, segment ≠ []) (htail : ∀ pkt ∈ pkts, CleanTail pkt)
    {r : List (List UInt8) × PartialFIXBuffer} (hparse : parsePackets buf pkts = .ok r) :
    r.1 = [] := by
  induction hcarry generalizing buf r with
  | nil =>
    rw [parsePackets, Except.ok.injEq] at hparse
    rw [← hparse]
  | @cons pkt segment pkts segments hpkt _ ih =>
    cases hfirst : parseFIX buf pkt with
    | error fault =>
      rw [parsePackets, hfirst] at hparse
      simp [bind, Except.bind] at hparse
    | ok first =>
      obtain ⟨hmsgs, hstuck'⟩ :=
        parseFIX_stuck hstuck hpkt (hne _ (by simp)) (htail _ (by simp)) hfirst
      rw [parsePackets_cons pkts hfirst] at hparse
      obtain ⟨rest, hrest, rfl⟩ := map_eq_ok_iff.mp hparse
      show first.1 ++ rest.1 = []
      rw [hmsgs, List.nil_append]
      exact ih hstuck' (fun s hs => hne s (by simp [hs])) (fun p hp => htail p (by simp [hp])) hrest

theorem stuck_of_placeInsideHead (hplace : AtPlace buf k frames)
    (h : PlaceInsideHead FixFrame.header k frames) : Stuck buf ∧ 0 < frames.length := by
  cases frames with
  | nil => exact absurd h id
  | cons f fs => exact ⟨hplace.2.1 h.1 h.2, by simp⟩

/-- **A message is missing** once a header has been cut. -/
theorem parsePackets_cut {segments : List (List UInt8)} {pkts : List RxPacket}
    (hcarry : List.Forall₂ Carries pkts segments) (hplace : AtPlace buf k frames)
    (hin : Inside FixFrame.bytes k frames) (hstart : ¬ PlaceInsideHead FixFrame.header k frames)
    (hstream : segments.flatten = (stream FixFrame.bytes frames).drop k)
    (hne : ∀ segment ∈ segments, segment ≠ []) (htail : ∀ pkt ∈ pkts, CleanTail pkt)
    {p : ℕ} (hp : CutAt segments p) (hbad : LeadsInsideHeader k frames p)
    {r : List (List UInt8) × PartialFIXBuffer} (hparse : parsePackets buf pkts = .ok r) :
    r.1.length < frames.length := by
  have hnonzero : p ≠ 0 := by
    rintro rfl
    exact hstart ((leadsInsideHeader_zero hin).mp hbad)
  induction hcarry generalizing buf k frames r p with
  | nil =>
    obtain ⟨before, after, heq, rfl⟩ := hp
    rw [(List.append_eq_nil_iff.mp heq.symm).1] at hnonzero
    exact absurd rfl hnonzero
  | @cons pkt segment pkts segments hpkt hcarry ih =>
    rw [List.flatten_cons] at hstream
    obtain ⟨buf', hfirst, hplace'⟩ := parseFIX_place hplace hin hstart hpkt (hne _ (by simp))
      (hstream ▸ List.prefix_append _ _)
    rw [parsePackets_cons pkts hfirst] at hparse
    obtain ⟨rest, hrest, rfl⟩ := map_eq_ok_iff.mp hparse
    have hin' : Inside FixFrame.bytes (advance FixFrame.bytes k frames segment.length).2.1
        (advance FixFrame.bytes k frames segment.length).2.2 := inside_advance k frames _
    have hframes : (advance FixFrame.bytes k frames segment.length).1.length +
        (advance FixFrame.bytes k frames segment.length).2.2.length = frames.length := by
      rw [← List.length_append, advance_append]
    have hne' : ∀ s ∈ segments, s ≠ [] := fun s hs => hne s (by simp [hs])
    have htail' : ∀ pkt ∈ pkts, CleanTail pkt := fun p hp => htail p (by simp [hp])
    show (_ ++ rest.1).length < frames.length
    rw [List.length_append, List.length_map, ← hframes]
    refine Nat.add_lt_add_left ?_ _
    by_cases hhere : PlaceInsideHead FixFrame.header
        (advance FixFrame.bytes k frames segment.length).2.1
        (advance FixFrame.bytes k frames segment.length).2.2
    · -- this packet ends inside a header: the message it belongs to is left
      obtain ⟨hstuck, hleft⟩ := stuck_of_placeInsideHead hplace' hhere
      rw [parsePackets_stuck hcarry hstuck hne' htail' hrest]
      exact hleft
    · -- the cut lies in a later packet
      obtain rfl | ⟨q, hq, rfl⟩ := cutAt_cons_cases hp
      · exact absurd rfl hnonzero
      · have hbad' := (leadsInsideHeader_advance segment.length q).mpr hbad
        refine ih hplace' hin' hhere ?_ hne' htail' hq hbad' hrest ?_
        · rw [drop_advance, ← hstream, List.drop_left]
        · rintro rfl
          exact hhere ((leadsInsideHeader_zero hin').mp hbad')

/-- A packet that carries the segment and zeros behind it. -/
def packetOf (segment : List UInt8) : RxPacket :=
  if h : segment.length ≤ packetSize then
    { data := ⟨(segment ++ List.replicate (packetSize - segment.length) 0).toArray, by
        simp
        omega⟩
      len := segment.length }
  else {}

theorem packetOf_carries (h : segment.length ≤ packetSize) :
    Carries (packetOf segment) segment ∧ CleanTail (packetOf segment) := by
  rw [packetOf, dif_pos h]
  refine ⟨⟨?_, rfl, rfl⟩, fun pos hpos => ?_⟩
  · show (segment ++ List.replicate (packetSize - segment.length) 0).take segment.length = segment
    rw [List.take_left]
  · show (segment ++ List.replicate (packetSize - segment.length) 0)[pos]? ≠ some soh
    have hpos' : segment.length ≤ pos := hpos
    rw [List.getElem?_append_right hpos', List.getElem?_replicate]
    split
    · decide
    · simp

theorem packetsOf_carry {segments : List (List UInt8)}
    (h : ∀ segment ∈ segments, segment.length ≤ packetSize) :
    List.Forall₂ Carries (segments.map packetOf) segments := by
  induction segments with
  | nil => exact .nil
  | cons segment segments ih =>
    exact .cons (packetOf_carries (h _ (by simp))).1 (ih fun s hs => h s (by simp [hs]))

/-- **A cut inside a header loses messages.**  No stream of messages, however cut, is
reassembled from packets that end inside the prefix of a message. -/
theorem header_cut_never_reassembles (frames : List FixFrame) (segments : List (List UInt8))
    (hcut : Cutting frames segments) (hheader : HeaderCut frames segments) :
    ¬ Reassembles frames segments := by
  intro h
  have hidle : Idle {} := ⟨rfl, rfl, rfl⟩
  have hin := inside_zero FixFrame.length_bytes_pos frames
  have hcarry := packetsOf_carry hcut.fits
  have htail : ∀ pkt ∈ segments.map packetOf, CleanTail pkt := by
    intro pkt hpkt
    obtain ⟨segment, hsegment, rfl⟩ := List.mem_map.mp hpkt
    exact (packetOf_carries (hcut.fits segment hsegment)).2
  have hstart : ¬ PlaceInsideHead FixFrame.header 0 frames := by
    cases frames with
    | nil => exact id
    | cons f fs => exact fun hplace => absurd hplace.1 (Nat.lt_irrefl 0)
  obtain ⟨p, hp, hinside⟩ := hheader
  obtain ⟨buf, hparse⟩ := h _ hcarry
  have hlt := parsePackets_cut hcarry (atPlace_zero hidle frames) hin hstart hcut.flatten
    hcut.ne_nil htail hp ((leadsInsideHeader_iff frames p).mpr hinside) hparse
  rw [List.length_map] at hlt
  exact lt_irrefl _ hlt

/-! ### One message in two packets -/

/-- `8=F|9=2|ab10=123|`. -/
def shortFrame : FixFrame where
  beginString := [0x46]
  digits := [0x32]
  body := [0x61, 0x62]
  checkSum := [0x31, 0x32, 0x33]
  begin_ne := by decide
  begin_head := by simp [isDigit]
  begin_free := by simp [equals, soh]
  digits_digit := by simp [isDigit]
  bodyLength := by decide
  checkSum_digits := by simp [isDigit]
  fits := by decide

/-- The message, cut after `n` bytes. -/
def shortCut (n : ℕ) : List (List UInt8) := [shortFrame.bytes.take n, shortFrame.bytes.drop n]

theorem shortCut_cutting {n : ℕ} (hlo : 0 < n) (hhi : n < 17) :
    Cutting [shortFrame] (shortCut n) := by
  have hlen : shortFrame.bytes.length = 17 := by decide
  refine ⟨?_, fun s hs => ?_, fun s hs => ?_⟩
  · simp [shortCut, stream]
  · have hs' : s = shortFrame.bytes.take n ∨ s = shortFrame.bytes.drop n := by
      simpa [shortCut] using hs
    apply List.length_pos_iff.mp
    rcases hs' with rfl | rfl
    · rw [List.length_take]
      omega
    · rw [List.length_drop]
      omega
  · have hs' : s = shortFrame.bytes.take n ∨ s = shortFrame.bytes.drop n := by
      simpa [shortCut] using hs
    have hsize : 17 ≤ packetSize := by decide
    rcases hs' with rfl | rfl
    · rw [List.length_take]
      omega
    · rw [List.length_drop]
      omega

theorem cutAt_shortCut {p : ℕ} (hp : CutAt (shortCut 9) p) : p = 0 ∨ p = 9 ∨ p = 17 := by
  obtain rfl | ⟨q, hq, rfl⟩ := cutAt_cons_cases hp
  · exact .inl rfl
  · obtain rfl | ⟨r, hr, rfl⟩ := cutAt_cons_cases hq
    · exact .inr (.inl rfl)
    · rw [eq_zero_of_cutAt_nil hr]
      exact .inr (.inr rfl)

/-- Cut inside its body, the message is reassembled. -/
theorem fix_reassembly_short :
    Cutting [shortFrame] (shortCut 9) ∧ ¬ HeaderCut [shortFrame] (shortCut 9) ∧
      Reassembles [shortFrame] (shortCut 9) := by
  have hcut := shortCut_cutting (n := 9) (by omega) (by omega)
  have hheader : ¬ HeaderCut [shortFrame] (shortCut 9) := by
    rintro ⟨p, hp, hinside⟩
    have hlead := (leadsInsideHeader_iff _ _).mpr hinside
    rcases cutAt_shortCut hp with rfl | rfl | rfl
    · exact absurd hlead.1 (by decide)
    · exact absurd hlead.2 (by decide)
    · exact hlead
  exact ⟨hcut, hheader, fix_reassembly _ _ hcut hheader⟩

theorem shortCut_headerCut : HeaderCut [shortFrame] (shortCut 7) :=
  ⟨7, ⟨[shortFrame.bytes.take 7], [shortFrame.bytes.drop 7], rfl, by decide⟩,
    [], shortFrame, [], rfl, by decide, by decide⟩

/-- Cut before the delimiter of tag 9, it is not. -/
theorem header_cut_never_reassembles_short :
    Cutting [shortFrame] (shortCut 7) ∧ HeaderCut [shortFrame] (shortCut 7) ∧
      ¬ Reassembles [shortFrame] (shortCut 7) :=
  ⟨shortCut_cutting (by omega) (by omega), shortCut_headerCut,
    header_cut_never_reassembles _ _ (shortCut_cutting (by omega) (by omega)) shortCut_headerCut⟩

/-- **Two messages lost.**  The first of two messages is cut before the delimiter of
tag 9; the second arrives whole.  Neither is handed out. -/
theorem cut_header_loses_messages :
    Cutting [shortFrame, shortFrame] (shortCut 7 ++ [shortFrame.bytes]) ∧
      HeaderCut [shortFrame, shortFrame] (shortCut 7 ++ [shortFrame.bytes]) ∧
      ∃ buf, parsePackets {} ((shortCut 7 ++ [shortFrame.bytes]).map packetOf) = .ok ([], buf) := by
  refine ⟨⟨by decide, by decide, by decide⟩, ?_, _, rfl⟩
  exact ⟨7, ⟨[shortFrame.bytes.take 7], [shortFrame.bytes.drop 7, shortFrame.bytes], rfl,
    by decide⟩, [], shortFrame, [shortFrame], rfl, by decide, by decide⟩

end TradingEngine
