/-
Which resend requests `buildFIX_ses_out` answers.

A request for `b` to `e` asks for the messages from `b` to the smaller of `e` and
the last one sent, and for all from `b` on when `e` is 0.  The loop runs from `b`
to `e` as they stand in the request.  It answers an inverted range, which asks for
nothing, and a range that ends with a message that was sent; an end of 0 sends
nothing, and an end past the last message reads entries that were never written
(`resend_answered_iff`).

* `resendText_ok_iff` — which history entries can be written again;
* `exec_resendOne` — what a run of rounds reads, pushes and leaves alone;
* `resendLoop_eq`, `resendLoop_ne_ok` — the loop is such a run unless it leaves
  the history.
-/
import TradingEngine.FixResend
import TradingEngine.FixFramed

namespace TradingEngine

open DecimalText FallibleRun

/-! ### The history -/

/-- The messages 1 to `last` have been sent. -/
structure SentUpTo (b : BuilderFIX) (last : ℕ) : Prop where
  next : b.sent.myNextSeqnum.toNat = last + 1
  inside : last < dailyFixMsgCount

theorem sentUpTo_fresh (day : CalendarDay) (auth : VenueUserInfoFIX) :
    SentUpTo { day := day, auth := auth } 0 := ⟨rfl, by decide⟩

/-- One more message. -/
theorem SentUpTo.build {b b' : BuilderFIX} {last now : ℕ} {r : FIXRequest} {buffer : BufferFIX}
    (h : SentUpTo b last) (hbuild : b.build r now = .ok (buffer, b')) : SentUpTo b' (last + 1) := by
  obtain ⟨hseq, -, -, -, -, rfl⟩ := (b.build_ok_iff).mp hbuild
  have hcount : dailyFixMsgCount = 1300000 := rfl
  have hnext := h.next
  refine ⟨?_, by omega⟩
  show (b.sent.myNextSeqnum + 1).toNat = _
  rw [UInt32.toNat_add, hnext]
  exact Nat.mod_eq_of_lt (by have hone : (1 : UInt32).toNat = 1 := rfl; omega)

/-! ### Entries that can be written again -/

namespace BufferFIX

/-- What stands from a pointer on to the end of `data`. -/
def behind (m : BufferFIX) : TextRef → List UInt8
  | none => []
  | some (pos, _) => m.array.drop pos

theorem length_array (m : BufferFIX) : m.array.length = maxMsgSize := length_charArray _ _

theorem copyRef_ok {m : BufferFIX} {val : TextRef} {vallen : ℕ}
    (h : vallen ≤ (m.behind val).length) :
    m.copyRef val vallen = .ok ((m.behind val).take vallen) := by
  cases val with
  | none =>
    obtain rfl : vallen = 0 := Nat.le_zero.mp h
    rfl
  | some val => exact copyBytes_ok h

theorem copyRef_error {m : BufferFIX} {val : TextRef} {vallen : ℕ}
    (h : (m.behind val).length < vallen) : ∃ e, m.copyRef val vallen = .error e := by
  cases val with
  | none => exact ⟨_, if_neg (Nat.ne_of_gt h)⟩
  | some val => exact ⟨_, copyBytes_error h⟩

/-- The type is found, and the sequence number and the sending time end inside of `data`. -/
structure FieldsInside (m : BufferFIX) : Prop where
  type : 1 ≤ (m.behind (m.value ['3', '5'])).length
  seq : (m.value ['3', '4']).len ≤ (m.behind (m.value ['3', '4'])).length
  sendTime : (m.value ['5', '2']).len ≤ (m.behind (m.value ['5', '2'])).length

end BufferFIX

theorem addTagRef_ok {m : BufferFIX} {tag : List Char} {taglen n vallen : ℕ} {val : TextRef}
    (htag : IsTag tag taglen n) (h : vallen ≤ (m.behind val).length) :
    addTagRef m tag taglen val vallen =
      .ok (FixField.text ⟨n, (m.behind val).take vallen⟩) := by
  have hlen : ((m.behind val).take vallen).length = vallen := List.length_take_of_le h
  rw [addTagRef, BufferFIX.copyRef_ok h, ok_bind, addTag_eq htag (le_of_eq hlen.symm)]
  rw [List.take_of_length_le (le_of_eq hlen)]

theorem addTagRef_error {m : BufferFIX} (tag : List Char) (taglen : ℕ) {vallen : ℕ}
    {val : TextRef} (h : (m.behind val).length < vallen) :
    ∃ e, addTagRef m tag taglen val vallen = .error e := by
  obtain ⟨e, he⟩ := BufferFIX.copyRef_error h
  exact ⟨e, by rw [addTagRef, he]; rfl⟩

namespace BuilderFIX

/-- The bytes of a message that is sent again. -/
def resendSize (b : BuilderFIX) (m : BufferFIX) (orgLen : Int32) : ℕ :=
  72 + (decimal (resendLen orgLen 21).toNat).length + b.auth.myId.length +
    b.auth.venueId.length + (m.value ['3', '4']).len + (m.value ['5', '2']).len +
    m.hotdataLen.toNat

/-- The entry can be written again: its fields and the bytes at `hotdata_start` lie inside of
`data`, the body length is found and a NUL follows it, and the new message fits into a
buffer. -/
structure Resendable (b : BuilderFIX) (m : BufferFIX) : Prop where
  fields : m.FieldsInside
  hotdata : m.hotdataLen.toNat ≤ maxMsgSize - m.hotdataStart
  size : ∃ orgLen, m.bodyLenInt = .ok orgLen ∧ b.resendSize m orgLen ≤ maxMsgSize

/-- The header of a message that is sent again, as fields. -/
def resendFields (b : BuilderFIX) (m : BufferFIX) (orgLen : Int32) (now : ℕ) : List FixField :=
  [beginString, ⟨9, decimal (resendLen orgLen 21).toNat⟩,
    ⟨35, (m.behind (m.value ['3', '5'])).take 1⟩, ⟨49, b.auth.myId⟩, ⟨56, b.auth.venueId⟩,
    ⟨34, (m.behind (m.value ['3', '4'])).take (m.value ['3', '4']).len⟩, ⟨43, ascii ['Y']⟩,
    ⟨122, (m.behind (m.value ['5', '2'])).take (m.value ['5', '2']).len⟩,
    ⟨52, b.day.transactTime now⟩]

theorem buildHeaderFrom_eq {b : BuilderFIX} {m : BufferFIX} {orgLen : Int32} (now : ℕ)
    (hlen : m.bodyLenInt = .ok orgLen) (hfields : m.FieldsInside) :
    b.buildHeaderFrom m now = .ok (fieldsText (b.resendFields m orgLen now)) := by
  have h8 : addTag ['8', '='] 2 (ascii ['F', 'I', 'X', '.', '5', '.', '0', ' ']) 7
      = .ok beginString.text := addTag_eq ⟨rfl, rfl⟩ (by decide)
  have h43 : addTag ['4', '3', '='] 3 (ascii ['Y']) 1 = .ok (FixField.text ⟨43, ascii ['Y']⟩) :=
    addTag_all _ ⟨rfl, rfl⟩
  have h49 : addTag ['4', '9', '='] 3 b.auth.myId b.auth.myId.length
      = .ok (FixField.text ⟨49, b.auth.myId⟩) := addTag_all _ ⟨rfl, rfl⟩
  have h56 : addTag ['5', '6', '='] 3 b.auth.venueId b.auth.venueId.length
      = .ok (FixField.text ⟨56, b.auth.venueId⟩) := addTag_all _ ⟨rfl, rfl⟩
  have h52 : addTag ['5', '2', '='] 3 (b.day.transactTime now) (b.day.transactTime now).length
      = .ok (FixField.text ⟨52, b.day.transactTime now⟩) := addTag_all _ ⟨rfl, rfl⟩
  have h9 : addTagInt ['9', '='] 2 (resendLen orgLen 21)
      = .ok (FixField.text ⟨9, decimal (resendLen orgLen 21).toNat⟩) := addTagInt_eq _ ⟨rfl, rfl⟩
  have h35 : addTagRef m ['3', '5', '='] 3 _ 1 = .ok (FixField.text ⟨35, _⟩) :=
    addTagRef_ok ⟨rfl, rfl⟩ hfields.type
  have h34 : addTagRef m ['3', '4', '='] 3 _ _ = .ok (FixField.text ⟨34, _⟩) :=
    addTagRef_ok ⟨rfl, rfl⟩ hfields.seq
  have h122 : addTagRef m ['1', '2', '2', '='] 4 _ _ = .ok (FixField.text ⟨122, _⟩) :=
    addTagRef_ok ⟨rfl, rfl⟩ hfields.sendTime
  rw [buildHeaderFrom, hlen, ok_bind]
  show writeFields [_, addTagInt ['9', '='] 2 (resendLen orgLen 21), _, _, _, _, _, _, _] = _
  rw [h8, h9, h35, h49, h56, h34, h43, h122, h52]
  exact writeFields_fields (b.resendFields m orgLen now)

/-- Nothing is written when a field is missing or leaves the entry. -/
theorem buildHeaderFrom_error {b : BuilderFIX} {m : BufferFIX} (now : ℕ)
    (h : ¬ m.FieldsInside) : ∃ e, b.buildHeaderFrom m now = .error e := by
  cases hlen : m.bodyLenInt with
  | error e => exact ⟨e, by rw [buildHeaderFrom, hlen]; rfl⟩
  | ok orgLen =>
    rw [buildHeaderFrom, hlen, ok_bind]
    -- one of the three copies is a call that fails
    by_cases htype : 1 ≤ (m.behind (m.value ['3', '5'])).length
    · by_cases hseq : (m.value ['3', '4']).len ≤ (m.behind (m.value ['3', '4'])).length
      · have htime : (m.behind (m.value ['5', '2'])).length < (m.value ['5', '2']).len :=
          Nat.not_le.mp fun htime => h ⟨htype, hseq, htime⟩
        obtain ⟨e, he⟩ := addTagRef_error ['1', '2', '2', '='] 4 htime
        exact writeFields_error (e := e) (by simp [← he])
      · obtain ⟨e, he⟩ := addTagRef_error ['3', '4', '='] 3 (Nat.not_le.mp hseq)
        exact writeFields_error (e := e) (by simp [← he])
    · obtain ⟨e, he⟩ := addTagRef_error ['3', '5', '='] 3 (Nat.not_le.mp htype)
      exact writeFields_error (e := e) (by simp [← he])

theorem length_resendFields {b : BuilderFIX} {m : BufferFIX} (orgLen : Int32) (now : ℕ)
    (h : m.FieldsInside) :
    (fieldsText (b.resendFields m orgLen now)).length + m.hotdataLen.toNat + 7 =
      b.resendSize m orgLen := by
  have hnow : (b.day.transactTime now).length = 21 := rfl
  have hbegin : (decimal beginString.tag).length + beginString.value.length = 8 := rfl
  have hyes : (ascii ['Y']).length = 1 := rfl
  unfold resendFields resendSize
  simp (disch := omega) only [length_fieldsText_cons, length_fieldsText_nil, hnow, hbegin, hyes,
    List.length_take_of_le h.type, List.length_take_of_le h.seq,
    List.length_take_of_le h.sendTime,
    length_decimal_one, length_decimal_two, length_decimal_three]
  omega

/-- The bytes that are written when the fields are found. -/
def resendBytes (b : BuilderFIX) (m : BufferFIX) (orgLen : Int32) (now : ℕ) : List UInt8 :=
  let text := fieldsText (b.resendFields m orgLen now) ++
    (m.array.drop m.hotdataStart).take m.hotdataLen.toNat
  text ++ trailer text

theorem length_resendBytes {b : BuilderFIX} {m : BufferFIX} (orgLen : Int32) (now : ℕ)
    (hfields : m.FieldsInside)
    (hhot : m.hotdataLen.toNat ≤ (m.array.drop m.hotdataStart).length) :
    (b.resendBytes m orgLen now).length = b.resendSize m orgLen := by
  rw [resendBytes, List.length_append, length_trailer, List.length_append,
    List.length_take_of_le hhot]
  exact length_resendFields orgLen now hfields

/-- With the fields and the body at hand, only the size of the buffer can be missing. -/
theorem resendText_of_fields {b : BuilderFIX} {m : BufferFIX} {orgLen : Int32} (now : ℕ)
    (hlen : m.bodyLenInt = .ok orgLen) (hfields : m.FieldsInside)
    (hhot : m.hotdataLen.toNat ≤ (m.array.drop m.hotdataStart).length) :
    b.resendText m now =
      if maxMsgSize < b.resendSize m orgLen then .error .outOfBounds
      else .ok (b.resendBytes m orgLen now) := by
  rw [resendText, buildHeaderFrom_eq now hlen hfields, ok_bind, copyBytes_ok hhot, ok_bind,
    ← length_resendBytes orgLen now hfields hhot]
  dsimp only
  rw [finalizeChecksum_eq]
  rfl

theorem length_drop_array (m : BufferFIX) (pos : ℕ) :
    (m.array.drop pos).length = maxMsgSize - pos := by
  rw [List.length_drop, m.length_array]

/-- An entry is written again exactly when it is resendable. -/
theorem resendText_ok_iff (b : BuilderFIX) (m : BufferFIX) (now : ℕ) :
    (∃ data, b.resendText m now = .ok data) ↔ b.Resendable m := by
  constructor
  · rintro ⟨data, hdata⟩
    obtain ⟨header, hheader, hrest⟩ := bind_eq_ok_iff.mp hdata
    obtain ⟨hotdata, hcopy, -⟩ := bind_eq_ok_iff.mp hrest
    obtain ⟨orgLen, hlen, -⟩ := bind_eq_ok_iff.mp hheader
    have hfields : m.FieldsInside := by
      by_contra hnot
      obtain ⟨e, he⟩ := buildHeaderFrom_error (b := b) now hnot
      rw [he] at hheader
      cases hheader
    have hhot : m.hotdataLen.toNat ≤ (m.array.drop m.hotdataStart).length := by
      by_contra hlt
      rw [copyBytes_error (Nat.not_le.mp hlt)] at hcopy
      cases hcopy
    refine ⟨hfields, length_drop_array m _ ▸ hhot, orgLen, hlen, ?_⟩
    by_contra hlarge
    rw [resendText_of_fields now hlen hfields hhot, if_pos (Nat.not_le.mp hlarge)] at hdata
    cases hdata
  · intro h
    obtain ⟨orgLen, hlen, hsize⟩ := h.size
    have hhot := h.hotdata
    rw [← length_drop_array] at hhot
    exact ⟨b.resendBytes m orgLen now, by
      rw [resendText_of_fields now hlen h.fields hhot, if_neg (Nat.not_lt.mpr hsize)]⟩

/-- What is written, and from which fields. -/
theorem resendText_eq_ok {b : BuilderFIX} {m : BufferFIX} {now : ℕ} {data : List UInt8}
    (h : b.resendText m now = .ok data) :
    ∃ orgLen, m.bodyLenInt = .ok orgLen ∧ m.FieldsInside ∧
      b.resendSize m orgLen ≤ maxMsgSize ∧ data = b.resendBytes m orgLen now := by
  have hresend := (resendText_ok_iff b m now).mp ⟨data, h⟩
  obtain ⟨orgLen, hlen, hsize⟩ := hresend.size
  have hhot := hresend.hotdata
  rw [← length_drop_array] at hhot
  rw [resendText_of_fields now hlen hresend.fields hhot, if_neg (Nat.not_lt.mpr hsize),
    Except.ok.injEq] at h
  exact ⟨orgLen, hlen, hresend.fields, hsize, h.symm⟩

/-- What is written again fits into a buffer. -/
theorem length_resendText {b : BuilderFIX} {m : BufferFIX} {now : ℕ} {data : List UInt8}
    (h : b.resendText m now = .ok data) : 7 ≤ data.length ∧ data.length ≤ maxMsgSize := by
  obtain ⟨header, -, hrest⟩ := bind_eq_ok_iff.mp h
  obtain ⟨hotdata, -, hfits⟩ := bind_eq_ok_iff.mp hrest
  by_cases hlarge : maxMsgSize < (header ++ hotdata ++ finalizeChecksum (header ++ hotdata)).length
  · rw [if_pos hlarge] at hfits
    cases hfits
  · rw [if_neg hlarge, Except.ok.injEq] at hfits
    rw [← hfits]
    refine ⟨?_, Nat.not_lt.mp hlarge⟩
    rw [List.length_append, finalizeChecksum_eq, length_trailer]
    exact Nat.le_add_left _ _

end BuilderFIX

namespace OutboundFIX

variable {now drain : ℕ → ℕ} {sessionIndex : UInt8}

/-! ### One round -/

/-- The packet carries the history entry `i`, written again. -/
structure ResentAs (now : ℕ → ℕ) (sessionIndex : UInt8) (b : BuilderFIX) (i : ℕ)
    (pkt : TxPacket) : Prop where
  bytes : b.resendText (b.sent.messages i) (now i) = .ok pkt.bytes
  session : pkt.sockIndex = sessionIndex
  login : pkt.isLoginMsg = false

/-- The number of packets in the queue when the packet of `i` is pushed. -/
def waiting (drain : ℕ → ℕ) (n i : ℕ) : ℕ := n - drain i

theorem handed_drained (s : OutboundFIX) (n : ℕ) : (s.drained n).handed = s.handed := by
  show s.taken ++ s.builderToSender.items.take n ++ s.builderToSender.items.drop n = _
  rw [List.append_assoc, List.take_append_drop]
  rfl

/-- What one round does: it reads the entry `i` and pushes the packet, which a full queue
refuses. -/
structure Round (now drain : ℕ → ℕ) (sessionIndex : UInt8) (s : OutboundFIX) (i : ℕ)
    (s' : OutboundFIX) (pkt : TxPacket) : Prop where
  builder : s'.builder = s.builder
  reads : s'.reads = s.reads ++ [i]
  resent : ResentAs now sessionIndex s.builder i pkt
  pushed : waiting drain s.builderToSender.items.length i < packetQueueCapacity →
    s'.handed = s.handed ++ [pkt] ∧
    s'.builderToSender.items.length = waiting drain s.builderToSender.items.length i + 1
  refused : ¬ waiting drain s.builderToSender.items.length i < packetQueueCapacity →
    s'.handed = s.handed

/-- `build_resend` returns the whole message. -/
theorem buildResend_of_text {s : OutboundFIX} {i time : ℕ} {data : List UInt8}
    (h : s.builder.resendText (s.builder.sent.messages i) time = .ok data) :
    ∃ temp, s.buildResend i time =
      .ok (data, { s with tempBufs := temp, reads := s.reads ++ [i] }) := by
  have hmax : maxMsgSize = 512 := rfl
  obtain ⟨hlow, hhigh⟩ := BuilderFIX.length_resendText h
  -- the length fits into its 16 bits
  have hlen : (UInt16.ofNat (data.length - 7) + 7).toNat = data.length := by
    rw [UInt16.toNat_add, UInt16.toNat_ofNat']
    show ((data.length - 7) % 2 ^ 16 + 7) % 2 ^ 16 = _
    omega
  refine ⟨s.tempBufs.put { s.tempBufs.slots s.tempBufs.slot with
    data := data, len := UInt16.ofNat (data.length - 7) + 7 }, ?_⟩
  rw [buildResend, h, ok_bind]
  show Except.ok (data.take (UInt16.ofNat (data.length - 7) + 7).toNat, _) = _
  rw [hlen, List.take_length]

theorem sendBytes_of_le (s : OutboundFIX) {bytes : List UInt8} (sessionIndex : UInt8)
    (loginMsg : Bool) (h : bytes.length ≤ packetSize) :
    ∃ pkt pool, pkt.bytes = bytes ∧ pkt.sockIndex = sessionIndex ∧ pkt.isLoginMsg = loginMsg ∧
      s.sendBytes bytes sessionIndex loginMsg = .ok { s with
        pool := pool
        nextTxPkt := s.nextTxPkt + 1
        builderToSender := s.builderToSender.push pkt } := by
  obtain ⟨pkt, hpkt, hbytes, hsession, hlogin⟩ :=
    (s.pool (poolSlot s.nextTxPkt)).fillPacket_of_le sessionIndex loginMsg h
  refine ⟨pkt, Function.update s.pool (poolSlot s.nextTxPkt) pkt, hbytes, hsession, hlogin, ?_⟩
  rw [sendBytes, hpkt]
  rfl

/-- An entry that can be written again makes a round. -/
theorem exists_round {s : OutboundFIX} {i : ℕ} {data : List UInt8}
    (h : s.builder.resendText (s.builder.sent.messages i) (now i) = .ok data) (drain : ℕ → ℕ)
    (sessionIndex : UInt8) :
    ∃ s' pkt, s.resendOne now drain sessionIndex i = .ok s' ∧
      Round now drain sessionIndex s i s' pkt := by
  obtain ⟨-, hhigh⟩ := BuilderFIX.length_resendText h
  obtain ⟨temp, hbuild⟩ := buildResend_of_text h
  -- the entry is read into a temporary buffer, then sent
  set s₁ : OutboundFIX := { s with tempBufs := temp, reads := s.reads ++ [i] }
  obtain ⟨pkt, pool, hbytes, hsession, hlogin, hsend⟩ :=
    (s₁.drained (drain i)).sendBytes_of_le sessionIndex false
      (le_trans hhigh (by decide))
  have hok : s.resendOne now drain sessionIndex i =
      (s₁.drained (drain i)).sendBytes data sessionIndex false := by
    rw [resendOne, hbuild, ok_bind]
  have hwaiting : (s.drained (drain i)).builderToSender.items.length =
      waiting drain s.builderToSender.items.length i := List.length_drop
  refine ⟨_, pkt, hok.trans hsend, rfl, rfl, ⟨hbytes ▸ h, hsession, hlogin⟩, ?_, ?_⟩
  · intro hroom
    rw [← hwaiting] at hroom
    have hitems := BoundedQueue.items_push (a := pkt) hroom
    refine ⟨?_, ?_⟩
    · rw [← handed_drained s (drain i)]
      show (s.drained (drain i)).taken ++
        ((s.drained (drain i)).builderToSender.push pkt).items = _
      rw [hitems, ← List.append_assoc]
      rfl
    · show ((s.drained (drain i)).builderToSender.push pkt).items.length = _
      rw [hitems, List.length_append, hwaiting]
      rfl
  · intro hfull
    rw [← hwaiting] at hfull
    show (s.drained (drain i)).taken ++
      ((s.drained (drain i)).builderToSender.push pkt).items = _
    rw [BoundedQueue.items_push_full hfull]
    exact handed_drained s (drain i)

/-- A round that succeeds wrote its entry again. -/
theorem text_of_resendOne {s s' : OutboundFIX} {i : ℕ}
    (h : s.resendOne now drain sessionIndex i = .ok s') :
    ∃ data, s.builder.resendText (s.builder.sent.messages i) (now i) = .ok data := by
  obtain ⟨⟨bytes, s₁⟩, hbuild, -⟩ := bind_eq_ok_iff.mp h
  obtain ⟨data, hdata, -⟩ := bind_eq_ok_iff.mp hbuild
  exact ⟨data, hdata⟩

theorem round_of_resendOne {s s' : OutboundFIX} {i : ℕ}
    (h : s.resendOne now drain sessionIndex i = .ok s') :
    ∃ pkt, Round now drain sessionIndex s i s' pkt := by
  obtain ⟨data, hdata⟩ := text_of_resendOne h
  obtain ⟨t, pkt, ht, hround⟩ := exists_round hdata drain sessionIndex
  rw [ht, Except.ok.injEq] at h
  exact ⟨pkt, h ▸ hround⟩

/-! ### Runs of rounds -/

/-- Each push finds room, when the queue holds `n` packets before the first. -/
def Room (drain : ℕ → ℕ) : ℕ → List ℕ → Prop
  | _, [] => True
  | n, i :: is =>
    waiting drain n i < packetQueueCapacity ∧ Room drain (waiting drain n i + 1) is

/-- The rounds for `is`: the entries they read, and the packets they push when there is
room for all of them. -/
theorem exec_resendOne {s s' : OutboundFIX} {is : List ℕ}
    (h : exec (resendOne now drain sessionIndex) s is = .ok s') :
    s'.builder = s.builder ∧ s'.reads = s.reads ++ is ∧
    (∀ i ∈ is, s.builder.Resendable (s.builder.sent.messages i)) ∧
    ∃ pkts, s'.handed = s.handed ++ pkts ∧ pkts.length ≤ is.length ∧
      (Room drain s.builderToSender.items.length is →
        List.Forall₂ (ResentAs now sessionIndex s.builder) is pkts) ∧
      (pkts.length = is.length → Room drain s.builderToSender.items.length is) := by
  induction is generalizing s with
  | nil =>
    rw [exec_nil, Except.ok.injEq] at h
    subst h
    refine ⟨rfl, (List.append_nil _).symm, fun i hi => absurd hi List.not_mem_nil, [],
      (List.append_nil _).symm, le_refl _, fun _ => .nil, fun _ => trivial⟩
  | cons i is ih =>
    obtain ⟨t, hone, hrest⟩ := exec_cons_eq_ok_iff.mp h
    obtain ⟨pkt, hround⟩ := round_of_resendOne hone
    obtain ⟨hbuilder, hreads, hresend, pkts, hhanded, hcount, hroom, hall⟩ := ih hrest
    rw [hround.builder] at hbuilder hresend hroom
    have hfirst := (s.builder.resendText_ok_iff _ _).mp (text_of_resendOne hone)
    refine ⟨hbuilder, ?_, ?_, ?_⟩
    · rw [hreads, hround.reads, List.append_assoc]
      rfl
    · intro j hj
      rcases List.mem_cons.mp hj with rfl | hj
      · exact hfirst
      · exact hresend j hj
    · by_cases hfree : waiting drain s.builderToSender.items.length i < packetQueueCapacity
      · obtain ⟨hpush, hlen⟩ := hround.pushed hfree
        rw [hlen] at hroom hall
        refine ⟨pkt :: pkts, ?_, Nat.succ_le_succ hcount, ?_, ?_⟩
        · rw [hhanded, hpush, List.append_assoc]
          rfl
        · intro hr
          exact .cons hround.resent (hroom hr.2)
        · intro heq
          exact ⟨hfree, hall (Nat.succ.inj heq)⟩
      · -- a refused packet is missing for good
        refine ⟨pkts, ?_, Nat.le_succ_of_le hcount, fun hr => absurd hr.1 hfree, ?_⟩
        · rw [hhanded, hround.refused hfree]
        · intro heq
          rw [List.length_cons] at heq
          omega

/-- Entries that can be written again make a run. -/
theorem exists_exec_resendOne (now drain : ℕ → ℕ) (sessionIndex : UInt8) {s : OutboundFIX}
    {is : List ℕ} (h : ∀ i ∈ is, s.builder.Resendable (s.builder.sent.messages i)) :
    ∃ s', exec (resendOne now drain sessionIndex) s is = .ok s' := by
  induction is generalizing s with
  | nil => exact ⟨s, rfl⟩
  | cons i is ih =>
    obtain ⟨data, hdata⟩ := (s.builder.resendText_ok_iff _ (now i)).mpr (h i List.mem_cons_self)
    obtain ⟨t, pkt, hone, hround⟩ := exists_round hdata drain sessionIndex
    have hrest : ∀ j ∈ is, t.builder.Resendable (t.builder.sent.messages j) := by
      intro j hj
      rw [hround.builder]
      exact h j (List.mem_cons_of_mem _ hj)
    obtain ⟨s', hs'⟩ := ih hrest
    exact ⟨s', exec_cons_eq_ok_iff.mpr ⟨t, hone, hs'⟩⟩

/-! ### The loop -/

theorem toNat_succ_of_lt {i : UInt32} (h : i.toNat < dailyFixMsgCount) :
    (i + 1).toNat = i.toNat + 1 := by
  have hcount : dailyFixMsgCount = 1300000 := rfl
  rw [UInt32.toNat_add]
  exact Nat.mod_eq_of_lt (by have hone : (1 : UInt32).toNat = 1 := rfl; omega)

/-- Up to an end inside of the history, the loop is a run of rounds. -/
theorem resendLoop_eq {i e : UInt32} (he : e.toNat < dailyFixMsgCount) (s : OutboundFIX) :
    s.resendLoop now drain sessionIndex i e =
      exec (resendOne now drain sessionIndex) s
        (List.range' i.toNat (e.toNat + 1 - i.toNat)) := by
  induction hn : e.toNat + 1 - i.toNat generalizing i s with
  | zero =>
    have hlt : ¬ i ≤ e := by
      rw [UInt32.le_iff_toNat_le]
      omega
    rw [resendLoop, if_neg hlt, List.range'_zero, exec_nil]
  | succ n ih =>
    have hle : i ≤ e := by
      rw [UInt32.le_iff_toNat_le]
      omega
    have hi : i.toNat < dailyFixMsgCount := by omega
    have hnext := toNat_succ_of_lt hi
    rw [resendLoop, if_pos hle, if_pos hi, List.range'_succ, exec]
    cases s.resendOne now drain sessionIndex i.toNat with
    | error f => rfl
    | ok t =>
      rw [ok_bind, ih t (by omega), hnext]

/-- A loop that is sent past the history does not return. -/
theorem resendLoop_ne_ok {i e : UInt32} (hie : i ≤ e) (he : dailyFixMsgCount ≤ e.toNat)
    (s s' : OutboundFIX) : s.resendLoop now drain sessionIndex i e ≠ .ok s' := by
  induction hn : dailyFixMsgCount - i.toNat generalizing i s with
  | zero =>
    rw [resendLoop, if_pos hie, if_neg (by omega)]
    intro h
    cases h
  | succ n ih =>
    have hi : i.toNat < dailyFixMsgCount := by omega
    have hnext := toNat_succ_of_lt hi
    rw [resendLoop, if_pos hie, if_pos hi]
    intro h
    obtain ⟨t, -, hrest⟩ := bind_eq_ok_iff.mp h
    have hle : i + 1 ≤ e := by
      rw [UInt32.le_iff_toNat_le]
      omega
    exact ih hle t (by omega) hrest

/-! ### The answer -/

/-- The last message that a request up to `e` asks for. -/
def requestedEnd (e last : ℕ) : ℕ := if e = 0 then last else min e last

/-- The request is answered: the call returns, reads only messages that were sent, and
passes on one packet for each requested message, in order. -/
def Answered (now drain : ℕ → ℕ) (s : OutboundFIX) (msg : FIXSessionMessage)
    (sessionIndex : UInt8) (last : ℕ) : Prop :=
  ∃ s' is pkts, s.buildFIXSesOut now drain msg sessionIndex = .ok s' ∧
    s'.reads = s.reads ++ is ∧ (∀ i ∈ is, 1 ≤ i ∧ i ≤ last) ∧
    s'.handed = s.handed ++ pkts ∧
    List.Forall₂ (ResentAs now sessionIndex s.builder)
      (List.range' msg.beginSeqnum.toNat
        (requestedEnd msg.endSeqnum.toNat last + 1 - msg.beginSeqnum.toNat)) pkts

/-- An inverted range asks for nothing; any other ends with a message that was sent, each of
its entries can be written again, and the queue has room for each packet. -/
def Answerable (drain : ℕ → ℕ) (s : OutboundFIX) (b e last : ℕ) : Prop :=
  if e < b then e = 0 → last < b
  else e ≤ last ∧
    (∀ i, b ≤ i → i ≤ e → s.builder.Resendable (s.builder.sent.messages i)) ∧
    Room drain s.builderToSender.items.length (List.range' b (e + 1 - b))

theorem buildFIXSesOut_resend (s : OutboundFIX) {msg : FIXSessionMessage}
    (hmsg : msg.msgType = FIXTypes.resendRequest.code) :
    s.buildFIXSesOut now drain msg sessionIndex =
      s.resendLoop now drain sessionIndex msg.beginSeqnum msg.endSeqnum := by
  rw [buildFIXSesOut, hmsg, if_neg (by decide), if_pos rfl]

theorem requestedEnd_of_le {e last : ℕ} (h₁ : 1 ≤ e) (h₂ : e ≤ last) : requestedEnd e last = e := by
  rw [requestedEnd, if_neg (by omega), Nat.min_eq_left h₂]

/-- An inverted range is answered exactly when it asks for nothing. -/
theorem answered_of_inverted {s : OutboundFIX} {msg : FIXSessionMessage} {last : ℕ}
    (hmsg : msg.msgType = FIXTypes.resendRequest.code)
    (hinv : msg.endSeqnum.toNat < msg.beginSeqnum.toNat) :
    Answered now drain s msg sessionIndex last ↔
      (msg.endSeqnum.toNat = 0 → last < msg.beginSeqnum.toNat) := by
  have hloop : s.buildFIXSesOut now drain msg sessionIndex = .ok s := by
    rw [buildFIXSesOut_resend s hmsg, resendLoop, if_neg]
    rw [UInt32.le_iff_toNat_le]
    omega
  constructor
  · rintro ⟨s', is, pkts, hrun, -, -, hhanded, hpkts⟩ hzero
    rw [hloop, Except.ok.injEq] at hrun
    subst hrun
    have hnone : pkts = [] := List.self_eq_append_right.mp hhanded
    have hlen := hpkts.length_eq
    rw [hnone, List.length_range', List.length_nil, requestedEnd, if_pos hzero] at hlen
    omega
  · intro hlast
    have hempty : requestedEnd msg.endSeqnum.toNat last + 1 - msg.beginSeqnum.toNat = 0 := by
      unfold requestedEnd
      split
      · have := hlast ‹_›
        omega
      · omega
    refine ⟨s, [], [], hloop, (List.append_nil _).symm, fun i hi => absurd hi List.not_mem_nil,
      (List.append_nil _).symm, ?_⟩
    rw [hempty]
    exact .nil

/-- Any other range is answered exactly when the rounds up to its end are. -/
theorem answered_of_le {s : OutboundFIX} {msg : FIXSessionMessage} {last : ℕ}
    (hmsg : msg.msgType = FIXTypes.resendRequest.code) (hsent : SentUpTo s.builder last)
    (hbegin : 1 ≤ msg.beginSeqnum.toNat)
    (hle : msg.beginSeqnum.toNat ≤ msg.endSeqnum.toNat) :
    Answered now drain s msg sessionIndex last ↔
      msg.endSeqnum.toNat ≤ last ∧
      (∀ i, msg.beginSeqnum.toNat ≤ i → i ≤ msg.endSeqnum.toNat →
        s.builder.Resendable (s.builder.sent.messages i)) ∧
      Room drain s.builderToSender.items.length
        (List.range' msg.beginSeqnum.toNat
          (msg.endSeqnum.toNat + 1 - msg.beginSeqnum.toNat)) := by
  have hinside := hsent.inside
  have hmem : ∀ i, i ∈ List.range' msg.beginSeqnum.toNat
      (msg.endSeqnum.toNat + 1 - msg.beginSeqnum.toNat) ↔
      msg.beginSeqnum.toNat ≤ i ∧ i ≤ msg.endSeqnum.toNat := by
    intro i
    rw [List.mem_range'_1]
    omega
  constructor
  · rintro ⟨s', is, pkts, hrun, hreads, hwritten, hhanded, hpkts⟩
    rw [buildFIXSesOut_resend s hmsg] at hrun
    have hend : msg.endSeqnum.toNat < dailyFixMsgCount := by
      by_contra hpast
      exact resendLoop_ne_ok (UInt32.le_iff_toNat_le.mpr hle) (Nat.not_lt.mp hpast) s s' hrun
    rw [resendLoop_eq hend] at hrun
    obtain ⟨-, hreads', hresend, pkts', hhanded', -, -, hall⟩ := exec_resendOne hrun
    have his := List.append_cancel_left (hreads.symm.trans hreads')
    have hlast : msg.endSeqnum.toNat ≤ last := by
      refine (hwritten msg.endSeqnum.toNat ?_).2
      rw [his]
      exact (hmem _).mpr ⟨hle, le_refl _⟩
    refine ⟨hlast, fun i h₁ h₂ => hresend i ((hmem i).mpr ⟨h₁, h₂⟩), ?_⟩
    -- as many packets came through as were pushed, so none was refused
    have hsame := List.append_cancel_left (hhanded.symm.trans hhanded')
    rw [requestedEnd_of_le (le_trans hbegin hle) hlast] at hpkts
    exact hall (hsame ▸ hpkts.length_eq.symm)
  · rintro ⟨hlast, hresend, hroom⟩
    obtain ⟨s', hrun⟩ := exists_exec_resendOne now drain sessionIndex fun i hi =>
      hresend i ((hmem i).mp hi).1 ((hmem i).mp hi).2
    obtain ⟨-, hreads, -, pkts, hhanded, -, hall, -⟩ := exec_resendOne hrun
    refine ⟨s', _, pkts, ?_, hreads, ?_, hhanded, ?_⟩
    · rw [buildFIXSesOut_resend s hmsg, resendLoop_eq (lt_of_le_of_lt hlast hinside)]
      exact hrun
    · intro i hi
      have hi' := (hmem i).mp hi
      omega
    · rw [requestedEnd_of_le (le_trans hbegin hle) hlast]
      exact hall hroom

/-- A resend request is answered exactly when its range is inverted and asks for nothing, or
ends with a message that was sent, with entries that can be written again and room in the
queue. -/
theorem resend_answered_iff (now drain : ℕ → ℕ) (s : OutboundFIX) (msg : FIXSessionMessage)
    (sessionIndex : UInt8) (last : ℕ) (hmsg : msg.msgType = FIXTypes.resendRequest.code)
    (hsent : SentUpTo s.builder last) (hbegin : 1 ≤ msg.beginSeqnum) :
    Answered now drain s msg sessionIndex last ↔
      Answerable drain s msg.beginSeqnum.toNat msg.endSeqnum.toNat last := by
  have hb : 1 ≤ msg.beginSeqnum.toNat := UInt32.le_iff_toNat_le.mp hbegin
  by_cases hinv : msg.endSeqnum.toNat < msg.beginSeqnum.toNat
  · rw [Answerable, if_pos hinv]
    exact answered_of_inverted hmsg hinv
  · rw [Answerable, if_neg hinv]
    exact answered_of_le hmsg hsent hb (Nat.not_lt.mp hinv)

/-- A session that has not sent anything. -/
def noneSent : BuilderFIX where
  day := BuilderFIX.secondOfJune
  auth := { myId := ascii ['M', 'E'], venueId := ascii ['B', 'I'] }

/-- The same session when it has sent a heartbeat and a test request. -/
def twoSent : OutboundFIX where
  builder := (noneSent.afterBuild .heartbeat 0).afterBuild .testRequest 0

/-- A resend request for `b` to `e`. -/
def resendRequest (b e : UInt32) : FIXSessionMessage :=
  { msgType := FIXTypes.resendRequest.code, beginSeqnum := b, endSeqnum := e }

theorem sentUpTo_twoSent : SentUpTo twoSent.builder 2 := by
  have hfirst : noneSent.build .heartbeat 0 =
      .ok (noneSent.builtBuffer .heartbeat 0, noneSent.afterBuild .heartbeat 0) :=
    (BuilderFIX.build_ok_iff _).mpr ⟨by decide, trivial, by decide, by decide, rfl, rfl⟩
  have hsecond : (noneSent.afterBuild .heartbeat 0).build .testRequest 0 =
      .ok ((noneSent.afterBuild .heartbeat 0).builtBuffer .testRequest 0, twoSent.builder) :=
    (BuilderFIX.build_ok_iff _).mpr ⟨by decide, trivial, by decide, by decide, rfl, rfl⟩
  exact ((sentUpTo_fresh _ _).build hfirst).build hsecond

theorem resendable_twoSent (i : ℕ) (h₁ : 1 ≤ i) (h₂ : i ≤ 2) :
    twoSent.builder.Resendable (twoSent.builder.sent.messages i) := by
  interval_cases i
  · exact ⟨⟨by decide +kernel, by decide +kernel, by decide +kernel⟩, by decide, _, rfl,
      by decide +kernel⟩
  · exact ⟨⟨by decide +kernel, by decide +kernel, by decide +kernel⟩, by decide, _, rfl,
      by decide +kernel⟩

theorem resend_answered_twoSent :
    SentUpTo twoSent.builder 2 ∧
    Answered (fun _ => 0) (fun _ => 0) twoSent (resendRequest 1 2) 0 2 := by
  refine ⟨sentUpTo_twoSent, ?_⟩
  refine (resend_answered_iff _ _ _ _ _ _ rfl sentUpTo_twoSent (by decide)).mpr ?_
  rw [Answerable, if_neg (by decide)]
  exact ⟨by decide, resendable_twoSent, by decide, by decide, trivial⟩

/-- Asked for everything, the session sends nothing; asked for more than it sent, it does
not answer. -/
theorem open_range_not_answered :
    SentUpTo twoSent.builder 2 ∧
    twoSent.buildFIXSesOut (fun _ => 0) (fun _ => 0) (resendRequest 1 0) 0 = .ok twoSent ∧
    ¬ Answered (fun _ => 0) (fun _ => 0) twoSent (resendRequest 1 0) 0 2 ∧
    ¬ Answered (fun _ => 0) (fun _ => 0) twoSent (resendRequest 1 3) 0 2 := by
  refine ⟨sentUpTo_twoSent, ?_, ?_, ?_⟩
  · rw [buildFIXSesOut_resend _ rfl, resendLoop, if_neg (by decide)]
  · rw [answered_of_inverted rfl (by decide)]
    intro hlast
    exact absurd (hlast rfl) (by decide)
  · rw [answered_of_le rfl sentUpTo_twoSent (by decide) (by decide)]
    intro h
    exact absurd h.1 (by decide)

end OutboundFIX

end TradingEngine
