/-
Login packets of SoupBinTCP (`session/SoupBinTcp.cpp`, `session/Sequence_SBT.h`).

A relogin asks the exchange to resume a session behind a sequence number.  The number is
printed into a static buffer; what `int_to_strnum` returns is the end of the digits, so that
`strlen` sees what earlier calls left behind them.  The session id is copied at the length
that `strlen` finds from its first byte on, and the packet is filled with spaces up to its
47th byte, although the number ends with the 49th.

* `toList_reLogin` — the bytes of a relogin;
* `reLogin_resumes_iff` — when they carry the stored session id and number.
-/
import Mathlib.Data.List.TakeWhile
import TradingEngine.DecimalText
import TradingEngine.FallibleRun
import TradingEngine.NetworkPackets
import TradingEngine.OuchBytes
import TradingEngine.OwnOrders

namespace TradingEngine

open DecimalText Endian FallibleRun

/-! ### `Sequence_SBT` -/

/-- The static buffer of `int_to_strnum`.  No number is long enough for the last byte. -/
structure StrnumBuffer where
  bytes : List UInt8 := List.replicate 21 0
  length_eq : bytes.length = 21 := by rfl
  last : bytes[20]? = some 0 := by rfl

/-- `strlen`, on the bytes from a pointer on as far as they can be read. -/
def strlen (bytes : List UInt8) : Except Fault ℕ :=
  if 0 ∈ bytes then .ok (cString bytes).length else .error .outOfBounds

theorem zero_notMem_cString (bytes : List UInt8) : 0 ∉ cString bytes := by
  intro h
  have hne := List.mem_takeWhile_imp h
  simp at hne

theorem length_cString_lt {bytes : List UInt8} (h : 0 ∈ bytes) :
    (cString bytes).length < bytes.length := by
  have hle : (cString bytes).length ≤ bytes.length := (List.takeWhile_prefix _).length_le
  refine lt_of_le_of_ne hle fun heq => ?_
  have hself := (List.takeWhile_prefix _).eq_of_length heq
  rw [← hself] at h
  exact zero_notMem_cString bytes h

theorem strlen_of_mem {bytes : List UInt8} (h : 0 ∈ bytes) :
    strlen bytes = .ok (cString bytes).length := if_pos h

theorem take_strlen (bytes : List UInt8) :
    bytes.take (cString bytes).length = cString bytes :=
  (List.prefix_iff_eq_take.mp (List.takeWhile_prefix _)).symm

/-- The digits of a number as the first loop of `int_to_strnum` writes them, least
significant first. -/
def digitsUp (value : ℕ) : List UInt8 :=
  if value = 0 then [] else digitChar (value % 10) :: digitsUp (value / 10)
decreasing_by exact Nat.div_lt_self (by omega) (by omega)

/-- The text that `int_to_strnum` leaves at the front of the buffer: the second loop turns
the digits round. -/
def strnumText (value : UInt64) : List UInt8 :=
  if value = 0 then [digitChar 0] else (digitsUp value.toNat).reverse

theorem digitsUp_eq (value : ℕ) : digitsUp value = (Nat.digits 10 value).map digitChar := by
  induction value using Nat.strong_induction_on with
  | _ value ih =>
    rw [digitsUp]
    split
    · rename_i hzero
      rw [hzero]
      rfl
    · rename_i hne
      rw [Nat.digits_eq_cons_digits_div (by omega) hne, List.map_cons,
        ih _ (Nat.div_lt_self (by omega) (by omega))]

theorem strnumText_eq (value : UInt64) : strnumText value = decimal value.toNat := by
  rw [strnumText, decimal, digitsUp_eq]
  by_cases h : value = 0
  · rw [if_pos h, h]
    rfl
  · have hne : value.toNat ≠ 0 := fun hz => h (UInt64.toNat_inj.mp hz)
    rw [if_neg h, if_neg hne]

theorem length_strnumText_le (value : UInt64) : (strnumText value).length ≤ 20 := by
  rw [strnumText_eq, length_decimal_le_iff]
  have hlt := value.toNat_lt
  omega

namespace StrnumBuffer

/-- `int_to_strnum`: the buffer, and the place behind the digits. -/
def intToStrnum (buffer : StrnumBuffer) (value : UInt64) : StrnumBuffer × ℕ :=
  ({ bytes := strnumText value ++ buffer.bytes.drop (strnumText value).length
     length_eq := by
       have hle := length_strnumText_le value
       have hlen := buffer.length_eq
       rw [List.length_append, List.length_drop]
       omega
     last := by
       have hle := length_strnumText_le value
       rw [List.getElem?_append_right hle, List.getElem?_drop, Nat.add_sub_cancel' hle]
       exact buffer.last },
    (strnumText value).length)

/-- What is found behind the digits of a number, up to the next NUL. -/
def leftBehind (buffer : StrnumBuffer) (value : UInt64) : List UInt8 :=
  cString (buffer.bytes.drop (strnumText value).length)

/-- Printing a number does not touch what is behind its digits. -/
theorem drop_intToStrnum (buffer : StrnumBuffer) (value : UInt64) :
    (buffer.intToStrnum value).1.bytes.drop (buffer.intToStrnum value).2 =
      buffer.bytes.drop (strnumText value).length := List.drop_left

theorem mem_drop (buffer : StrnumBuffer) (value : UInt64) :
    0 ∈ buffer.bytes.drop (strnumText value).length := by
  have hle := length_strnumText_le value
  refine List.mem_of_getElem? (i := 20 - (strnumText value).length) ?_
  rw [List.getElem?_drop, Nat.add_sub_cancel' hle]
  exact buffer.last

theorem length_leftBehind_le (buffer : StrnumBuffer) (value : UInt64) :
    (buffer.leftBehind value).length ≤ 20 := by
  have hlt := length_cString_lt (buffer.mem_drop value)
  have hlen := buffer.length_eq
  rw [List.length_drop] at hlt
  show (cString _).length ≤ 20
  omega

end StrnumBuffer

/-- `strnum_to_int` of `Sequence_SBT`. -/
def sbtStrnumToInt (strnum : List UInt8) : UInt64 :=
  (strnum.take 20).foldl
    (fun result c => if 48 ≤ c ∧ c ≤ 57 then result * 10 + (c.toUInt64 - 48) else result) 0

/-- `Sequence_SBT`; behind the session id the array ends, and `behind` is what can be read
there. -/
structure SequenceSBT where
  lastSeenSeqnum : UInt64 := 0
  session : Vector UInt8 10 := Vector.replicate 10 0
  behind : List UInt8 := [0, 0]

namespace SequenceSBT

/-- `set_seq`. -/
def setSeq (seq : SequenceSBT) (seqnum : List UInt8) : SequenceSBT :=
  { seq with lastSeenSeqnum := sbtStrnumToInt seqnum }

/-- `set_sess_id`. -/
def setSessId (seq : SequenceSBT) (session : Vector UInt8 10) : SequenceSBT :=
  { seq with session := session }

/-- `increase_seq`. -/
def increaseSeq (seq : SequenceSBT) : SequenceSBT :=
  { seq with lastSeenSeqnum := seq.lastSeenSeqnum + 1 }

/-- What `get_sess_id` points to, as a string. -/
def sessText (seq : SequenceSBT) : List UInt8 := cString (seq.session.toList ++ seq.behind)

end SequenceSBT

/-! ### Writing the packets -/

/-- `UserInfo_SBT`. -/
structure UserInfoSBT where
  username : Vector UInt8 6
  password : Vector UInt8 10

/-- `buildFirstLoginRequest`. -/
def buildFirstLoginRequest (auth : UserInfoSBT) (buf : Vector UInt8 packetSize) :
    Except Fault (Vector UInt8 packetSize) := do
  let buf ← writeAt buf 0 (List.replicate 47 32)
  let buf ← writeAt buf 0 (writeU16be 47)
  let buf ← writeAt buf 2 [76]
  let buf ← writeAt buf 3 auth.username.toList
  writeAt buf 9 auth.password.toList

/-- `memcpy` to `buf + stop - src.length`, which may lie before the packet. -/
def writeEndingAt (buf : Vector UInt8 packetSize) (stop : ℕ) (src : List UInt8) :
    Except Fault (Vector UInt8 packetSize) :=
  if src.length ≤ stop then writeAt buf (stop - src.length) src else .error .outOfBounds

/-- `buildReLoginRequest`; it begins as `buildFirstLoginRequest`.  `get_seq` is called for the
length and again for the copy. -/
def buildReLoginRequest (auth : UserInfoSBT) (seq : SequenceSBT) (buffer : StrnumBuffer)
    (buf : Vector UInt8 packetSize) : Except Fault (Vector UInt8 packetSize × StrnumBuffer) := do
  let buf ← buildFirstLoginRequest auth buf
  let sess := seq.session.toList ++ seq.behind
  let sessLen ← strlen sess
  let buf ← writeEndingAt buf (19 + 10) (sess.take sessLen)
  let (buffer, p) := buffer.intToStrnum seq.lastSeenSeqnum
  let seqLen ← strlen (buffer.bytes.drop p)
  let (buffer, p) := buffer.intToStrnum seq.lastSeenSeqnum
  let buf ← writeEndingAt buf (29 + 20) ((buffer.bytes.drop p).take seqLen)
  .ok (buf, buffer)

/-! ### Reading them -/

/-- A write over the middle of a row. -/
theorem writeAt_middle {n : ℕ} {data : Vector UInt8 n} {A M B : List UInt8} (src : List UInt8)
    (hdata : data.toList = A ++ M ++ B) (hM : M.length = src.length) :
    ∃ data', writeAt data A.length src = .ok data' ∧ data'.toList = A ++ src ++ B := by
  have hlen : A.length + M.length + B.length = n := by
    rw [← data.length_toList, hdata, List.length_append, List.length_append]
  refine ⟨_, dif_pos (by omega), ?_⟩
  show data.toList.take A.length ++ src ++ data.toList.drop (A.length + src.length) = _
  rw [hdata, List.append_assoc A, List.take_left, ← List.drop_drop, List.drop_left, ← hM,
    List.drop_left]

/-- A row written so that it ends where the first part does. -/
theorem writeEndingAt_eq {buf : Vector UInt8 packetSize} {A B : List UInt8}
    (src : List UInt8) (hdata : buf.toList = A ++ B) (hle : src.length ≤ A.length) :
    ∃ buf', writeEndingAt buf A.length src = .ok buf' ∧
      buf'.toList = A.take (A.length - src.length) ++ src ++ B := by
  have hsplit : buf.toList =
      A.take (A.length - src.length) ++ A.drop (A.length - src.length) ++ B := by
    rw [List.take_append_drop, hdata]
  have hpos : (A.take (A.length - src.length)).length = A.length - src.length := by
    rw [List.length_take]
    omega
  obtain ⟨buf', hwrite, hread⟩ := writeAt_middle src hsplit (by
    rw [List.length_drop]
    omega)
  rw [hpos] at hwrite
  exact ⟨buf', by rw [writeEndingAt, if_pos hle, hwrite], hread⟩

/-- The header, the user and the password. -/
def loginHead (auth : UserInfoSBT) : List UInt8 :=
  [0, 47, 76] ++ auth.username.toList ++ auth.password.toList

theorem length_loginHead (auth : UserInfoSBT) : (loginHead auth).length = 19 := by
  simp [loginHead]

theorem toList_firstLogin (auth : UserInfoSBT) (buf : Vector UInt8 packetSize) :
    ∃ buf', buildFirstLoginRequest auth buf = .ok buf' ∧
      buf'.toList = loginHead auth ++ List.replicate 28 32 ++ buf.toList.drop 47 := by
  have hsize : buf.toList.length = 2048 := Vector.length_toList
  have hstart : buf.toList = [] ++ buf.toList.take 47 ++ buf.toList.drop 47 := by
    rw [List.nil_append, List.take_append_drop]
  obtain ⟨buf₁, h₁, hread₁⟩ := writeAt_middle (List.replicate 47 32) hstart
    (by rw [List.length_take, List.length_replicate]; omega)
  have hspaces : buf₁.toList = [] ++ List.replicate 2 32 ++
      (List.replicate 45 32 ++ buf.toList.drop 47) := by
    rw [hread₁, List.nil_append, List.nil_append, ← List.append_assoc,
      List.replicate_append_replicate]
  obtain ⟨buf₂, h₂, hread₂⟩ := writeAt_middle (writeU16be 47) hspaces rfl
  have htype : buf₂.toList = [0, 47] ++ [32] ++
      (List.replicate 44 32 ++ buf.toList.drop 47) := hread₂
  obtain ⟨buf₃, h₃, hread₃⟩ := writeAt_middle [76] htype rfl
  have huser : buf₃.toList = [0, 47, 76] ++ List.replicate 6 32 ++
      (List.replicate 38 32 ++ buf.toList.drop 47) := hread₃
  obtain ⟨buf₄, h₄, hread₄⟩ := writeAt_middle auth.username.toList huser (by simp)
  have hpassword : buf₄.toList = ([0, 47, 76] ++ auth.username.toList) ++ List.replicate 10 32 ++
      (List.replicate 28 32 ++ buf.toList.drop 47) := by
    rw [hread₄]
    simp
  obtain ⟨buf₅, h₅, hread₅⟩ := writeAt_middle auth.password.toList hpassword (by simp)
  refine ⟨buf₅, ?_, ?_⟩
  · rw [buildFirstLoginRequest]
    refine bind_eq_ok_iff.mpr ⟨buf₁, h₁, bind_eq_ok_iff.mpr ⟨buf₂, h₂, bind_eq_ok_iff.mpr
      ⟨buf₃, h₃, bind_eq_ok_iff.mpr ⟨buf₄, h₄, ?_⟩⟩⟩⟩
    rw [List.length_append, Vector.length_toList] at h₅
    exact h₅
  · rw [hread₅]
    simp [loginHead]

/-- **The bytes of a relogin.**  `sess` is the text that begins with the session id, `left` is
what is found behind the digits of the number. -/
theorem toList_reLogin (auth : UserInfoSBT) (seq : SequenceSBT) (buffer : StrnumBuffer)
    (buf : Vector UInt8 packetSize) (hnul : 0 ∈ seq.session.toList ++ seq.behind)
    (hsess : seq.sessText.length ≤ 29) :
    ∃ buf' buffer', buildReLoginRequest auth seq buffer buf = .ok (buf', buffer') ∧
      buf'.toList =
        (loginHead auth ++ List.replicate 10 32).take (29 - seq.sessText.length) ++ seq.sessText ++
        ((List.replicate 18 32 ++ (buf.toList.drop 47).take 2).take
            (20 - (buffer.leftBehind seq.lastSeenSeqnum).length) ++
          buffer.leftBehind seq.lastSeenSeqnum) ++ buf.toList.drop 49 := by
  have hsize : buf.toList.length = 2048 := Vector.length_toList
  have hleft := buffer.length_leftBehind_le seq.lastSeenSeqnum
  obtain ⟨left, hleft_eq⟩ : ∃ left, left = buffer.leftBehind seq.lastSeenSeqnum := ⟨_, rfl⟩
  rw [← hleft_eq] at hleft ⊢
  obtain ⟨buf₁, h₁, hread₁⟩ := toList_firstLogin auth buf
  -- the session id
  have hA : (loginHead auth ++ List.replicate 10 32).length = 19 + 10 := by
    rw [List.length_append, length_loginHead, List.length_replicate]
  have hsplit₁ : buf₁.toList = (loginHead auth ++ List.replicate 10 32) ++
      (List.replicate 18 32 ++ buf.toList.drop 47) := by
    rw [hread₁, show List.replicate 28 (32 : UInt8) = List.replicate 10 32 ++ List.replicate 18 32
      from rfl]
    simp only [List.append_assoc]
  obtain ⟨buf₂, h₂, hread₂⟩ := writeEndingAt_eq seq.sessText hsplit₁ (by omega)
  rw [hA] at h₂ hread₂
  obtain ⟨front, hfront⟩ : ∃ front, front = (loginHead auth ++ List.replicate 10 32).take
    (29 - seq.sessText.length) ++ seq.sessText := ⟨_, rfl⟩
  have hfront_len : front.length = 29 := by
    rw [hfront, List.length_append, List.length_take, hA]
    omega
  rw [← hfront] at hread₂ ⊢
  -- the number
  obtain ⟨field, hfield⟩ : ∃ field, field = List.replicate 18 32 ++ (buf.toList.drop 47).take 2 :=
    ⟨_, rfl⟩
  have hfield_len : field.length = 20 := by
    rw [hfield, List.length_append, List.length_replicate, List.length_take, List.length_drop]
    omega
  rw [← hfield]
  have hsplit₂ : buf₂.toList = (front ++ field) ++ buf.toList.drop 49 := by
    have hdrop : buf.toList.drop 47 = (buf.toList.drop 47).take 2 ++ buf.toList.drop 49 := by
      rw [show buf.toList.drop 49 = (buf.toList.drop 47).drop 2 by rw [List.drop_drop],
        List.take_append_drop]
    rw [hread₂, hdrop, hfield]
    simp only [List.append_assoc]
  have hA₂ : (front ++ field).length = 29 + 20 := by
    rw [List.length_append, hfront_len, hfield_len]
  obtain ⟨buf₃, h₃, hread₃⟩ := writeEndingAt_eq left hsplit₂ (by omega)
  have htake : (front ++ field).take (29 + 20 - left.length) =
      front ++ field.take (20 - left.length) := by
    rw [List.take_append, List.take_of_length_le (by omega), hfront_len]
    congr 2
    omega
  rw [hA₂] at h₃ hread₃
  rw [htake, List.append_assoc front] at hread₃
  refine ⟨buf₃, ((buffer.intToStrnum seq.lastSeenSeqnum).1.intToStrnum seq.lastSeenSeqnum).1, ?_,
    hread₃⟩
  have hrest := buffer.drop_intToStrnum seq.lastSeenSeqnum
  have hagain := (buffer.intToStrnum seq.lastSeenSeqnum).1.drop_intToStrnum seq.lastSeenSeqnum
  have hmem : 0 ∈ (buffer.intToStrnum seq.lastSeenSeqnum).1.bytes.drop
      (buffer.intToStrnum seq.lastSeenSeqnum).2 := by
    rw [hrest]
    exact buffer.mem_drop seq.lastSeenSeqnum
  have hcopied : (((buffer.intToStrnum seq.lastSeenSeqnum).1.intToStrnum
      seq.lastSeenSeqnum).1.bytes.drop (strnumText seq.lastSeenSeqnum).length).take
      (cString ((buffer.intToStrnum seq.lastSeenSeqnum).1.bytes.drop
        (strnumText seq.lastSeenSeqnum).length)).length = left := by
    have hrest' : (buffer.intToStrnum seq.lastSeenSeqnum).1.bytes.drop
      (strnumText seq.lastSeenSeqnum).length = _ := hrest
    have hagain' : ((buffer.intToStrnum seq.lastSeenSeqnum).1.intToStrnum
      seq.lastSeenSeqnum).1.bytes.drop (strnumText seq.lastSeenSeqnum).length = _ := hagain
    rw [hagain', hrest', take_strlen, hleft_eq]
    rfl
  rw [buildReLoginRequest]
  refine bind_eq_ok_iff.mpr ⟨buf₁, h₁, bind_eq_ok_iff.mpr ⟨_, strlen_of_mem hnul,
    bind_eq_ok_iff.mpr ⟨buf₂, ?_, bind_eq_ok_iff.mpr ⟨_, strlen_of_mem ?_,
      bind_eq_ok_iff.mpr ⟨buf₃, ?_, rfl⟩⟩⟩⟩⟩
  · rw [take_strlen]
    exact h₂
  · exact hmem
  · exact (congrArg (writeEndingAt buf₂ (29 + 20)) hcopied).trans h₃

/-- A text that runs out of the packet in front of it, or that has no end. -/
theorem reLogin_fault (auth : UserInfoSBT) (seq : SequenceSBT) (buffer : StrnumBuffer)
    (buf : Vector UInt8 packetSize)
    (h : 0 ∉ seq.session.toList ++ seq.behind ∨ 29 < seq.sessText.length) :
    buildReLoginRequest auth seq buffer buf = .error .outOfBounds := by
  obtain ⟨buf₁, h₁, -⟩ := toList_firstLogin auth buf
  rw [buildReLoginRequest, h₁]
  by_cases hnul : 0 ∈ seq.session.toList ++ seq.behind
  · have hlong := h.resolve_left (not_not.mpr hnul)
    have htext : (seq.session.toList ++ seq.behind).take
        (cString (seq.session.toList ++ seq.behind)).length = seq.sessText := take_strlen _
    simp only [strlen_of_mem hnul]
    show (writeEndingAt buf₁ (19 + 10) ((seq.session.toList ++ seq.behind).take
      (cString (seq.session.toList ++ seq.behind)).length) >>= _) = _
    rw [htext, writeEndingAt, if_neg (by omega)]
    rfl
  · simp only [strlen, if_neg hnul]
    rfl

/-! ### Resuming -/

/-- Spaces and then at least one digit. -/
def SpacePadded (text : List UInt8) : Prop :=
  ∃ n digits, text = List.replicate n 32 ++ digits ∧ digits ≠ [] ∧
    ∀ c ∈ digits, 48 ≤ c ∧ c ≤ 57

/-- A space-padded decimal that reads back as the number. -/
def ReadsAs (value : UInt64) (text : List UInt8) : Prop :=
  SpacePadded text ∧ sbtStrnumToInt text = value

/-- What is asked of a relogin: the session id at 19, the number at 29, and nothing written
behind the 49 bytes of the packet. -/
def ResumesSession (auth : UserInfoSBT) (seq : SequenceSBT) (buffer : StrnumBuffer)
    (buf : Vector UInt8 packetSize) : Prop :=
  ∃ buf' buffer', buildReLoginRequest auth seq buffer buf = .ok (buf', buffer') ∧
    (buf'.toList.drop 19).take 10 = seq.session.toList ∧
    ReadsAs seq.lastSeenSeqnum ((buf'.toList.drop 29).take 20) ∧
    buf'.toList.drop 49 = buf.toList.drop 49

/-- The text that begins with the session id ends with it, and fits behind the beginning of
the packet. -/
def SessionAlone (seq : SequenceSBT) : Prop :=
  0 ∈ seq.session.toList ++ seq.behind ∧ seq.sessText.length ≤ 29 ∧
    seq.session.toList <:+ seq.sessText

/-- What stands in the last places of the number: two bytes of the packet, and over them what
earlier calls left behind the digits of the number. -/
def lastPlaces (seq : SequenceSBT) (buffer : StrnumBuffer) (buf : Vector UInt8 packetSize) :
    List UInt8 :=
  ((buf.toList.drop 47).take 2).take (2 - (buffer.leftBehind seq.lastSeenSeqnum).length) ++
    buffer.leftBehind seq.lastSeenSeqnum

theorem sbtStrnumToInt_spaces (n : ℕ) {text : List UInt8} (h : n + text.length ≤ 20) :
    sbtStrnumToInt (List.replicate n 32 ++ text) = sbtStrnumToInt text := by
  rw [sbtStrnumToInt, sbtStrnumToInt, List.take_of_length_le, List.take_of_length_le (by omega)]
  · induction n with
    | zero => rfl
    | succ n ih => exact ih (by omega)
  · rw [List.length_append, List.length_replicate]
    exact h

theorem spacePadded_spaces_iff (n : ℕ) (text : List UInt8) :
    SpacePadded (List.replicate n 32 ++ text) ↔ SpacePadded text := by
  induction n with
  | zero => exact Iff.rfl
  | succ n ih =>
    rw [← ih]
    constructor
    · rintro ⟨k, digits, heq, hne, hdigits⟩
      cases k with
      | zero =>
        -- the first of the digits would be a space
        rw [List.replicate_zero, List.nil_append] at heq
        have hspace := hdigits 32 (heq ▸ List.mem_append_left _ (by simp))
        exact absurd hspace.1 (by decide)
      | succ k =>
        rw [List.replicate_succ, List.cons_append, List.replicate_succ, List.cons_append,
          List.cons.injEq] at heq
        exact ⟨k, digits, heq.2, hne, hdigits⟩
    · rintro ⟨k, digits, heq, hne, hdigits⟩
      refine ⟨k + 1, digits, ?_, hne, hdigits⟩
      rw [List.replicate_succ, List.cons_append, heq]
      rfl

section Fields

variable (auth : UserInfoSBT) (seq : SequenceSBT) (buffer : StrnumBuffer)
  (buf : Vector UInt8 packetSize)

/-- The field of the session id holds the last ten bytes of the text. -/
theorem session_field_iff (hlen : seq.sessText.length ≤ 29) :
    ((loginHead auth ++ List.replicate 10 32).take (29 - seq.sessText.length) ++
        seq.sessText).drop 19 = seq.session.toList ↔ seq.session.toList <:+ seq.sessText := by
  have hsession : seq.session.toList.length = 10 := Vector.length_toList
  have hhead : (loginHead auth ++ List.replicate 10 32).length = 29 := by
    rw [List.length_append, length_loginHead, List.length_replicate]
  rw [List.drop_append, List.length_take, hhead, Nat.min_eq_left (by omega)]
  by_cases hten : 10 ≤ seq.sessText.length
  · have hnone : ((loginHead auth ++ List.replicate 10 32).take
        (29 - seq.sessText.length)).drop 19 = [] :=
      List.drop_eq_nil_of_le (by rw [List.length_take]; omega)
    rw [hnone, List.nil_append, List.suffix_iff_eq_drop, hsession,
      show 19 - (29 - seq.sessText.length) = seq.sessText.length - 10 by omega]
    exact eq_comm
  · refine iff_of_false ?_ ?_
    · intro heq
      have hspaces : ((loginHead auth ++ List.replicate 10 32).take
          (29 - seq.sessText.length)).drop 19 =
          List.replicate (10 - seq.sessText.length) 32 := by
        rw [List.drop_take, List.drop_append, length_loginHead,
          List.drop_eq_nil_of_le (length_loginHead auth).le, List.nil_append, Nat.sub_self,
          List.drop_zero, List.take_replicate]
        congr 1
        omega
      rw [hspaces, show 19 - (29 - seq.sessText.length) = 0 by omega, List.drop_zero] at heq
      -- then the id has no NUL, and the text is no shorter than the id
      have hnonul : ∀ c ∈ seq.session.toList, decide (c ≠ 0) = true := by
        intro c hc
        rw [← heq, List.mem_append] at hc
        rw [decide_eq_true_eq]
        rcases hc with hc | hc
        · rw [List.eq_of_mem_replicate hc]
          decide
        · rintro rfl
          exact zero_notMem_cString _ hc
      have htext : seq.sessText = seq.session.toList ++ cString seq.behind :=
        List.takeWhile_append_of_pos hnonul
      have hge := congrArg List.length htext
      rw [List.length_append, hsession] at hge
      omega
    · intro hsuffix
      have hle := hsuffix.length_le
      omega

/-- The field of the number, without the spaces in front of the last places. -/
theorem number_field_eq :
    (List.replicate 18 32 ++ (buf.toList.drop 47).take 2).take
        (20 - (buffer.leftBehind seq.lastSeenSeqnum).length) ++
      buffer.leftBehind seq.lastSeenSeqnum =
    List.replicate (min (20 - (buffer.leftBehind seq.lastSeenSeqnum).length) 18) 32 ++
      lastPlaces seq buffer buf := by
  rw [List.take_append, List.take_replicate, List.length_replicate, lastPlaces, List.append_assoc,
    show 20 - (buffer.leftBehind seq.lastSeenSeqnum).length - 18 =
      2 - (buffer.leftBehind seq.lastSeenSeqnum).length by omega]

theorem length_number_field :
    min (20 - (buffer.leftBehind seq.lastSeenSeqnum).length) 18 +
      (lastPlaces seq buffer buf).length = 20 := by
  have hleft := buffer.length_leftBehind_le seq.lastSeenSeqnum
  have hsize : buf.toList.length = 2048 := Vector.length_toList
  rw [lastPlaces, List.length_append, List.length_take, List.length_take, List.length_drop]
  omega

/-- The fields of a relogin. -/
theorem reLogin_fields (hnul : 0 ∈ seq.session.toList ++ seq.behind)
    (hlen : seq.sessText.length ≤ 29) :
    ∃ buf' buffer', buildReLoginRequest auth seq buffer buf = .ok (buf', buffer') ∧
      ((buf'.toList.drop 19).take 10 = seq.session.toList ↔
        seq.session.toList <:+ seq.sessText) ∧
      (ReadsAs seq.lastSeenSeqnum ((buf'.toList.drop 29).take 20) ↔
        ReadsAs seq.lastSeenSeqnum (lastPlaces seq buffer buf)) ∧
      buf'.toList.drop 49 = buf.toList.drop 49 := by
  obtain ⟨buf', buffer', hbuild, hread⟩ := toList_reLogin auth seq buffer buf hnul hlen
  have hplaces := length_number_field seq buffer buf
  rw [number_field_eq] at hread
  -- the request: 29 bytes in front of the number, and its 20 places
  obtain ⟨front, hfront⟩ : ∃ front, front = (loginHead auth ++ List.replicate 10 32).take
    (29 - seq.sessText.length) ++ seq.sessText := ⟨_, rfl⟩
  obtain ⟨field, hfield⟩ : ∃ field, field =
    List.replicate (min (20 - (buffer.leftBehind seq.lastSeenSeqnum).length) 18) 32 ++
      lastPlaces seq buffer buf := ⟨_, rfl⟩
  have hfront_len : front.length = 29 := by
    rw [hfront, List.length_append, List.length_take, List.length_append, length_loginHead,
      List.length_replicate]
    omega
  have hfield_len : field.length = 20 := by
    rw [hfield, List.length_append, List.length_replicate]
    exact hplaces
  rw [← hfront, ← hfield] at hread
  refine ⟨buf', buffer', hbuild, ?_, ?_, ?_⟩
  · have hsession : (buf'.toList.drop 19).take 10 = front.drop 19 := by
      rw [hread, List.append_assoc, List.drop_append_of_le_length (by omega),
        List.take_append_of_le_length (by rw [List.length_drop]; omega), List.take_of_length_le]
      rw [List.length_drop]
      omega
    rw [hsession, hfront, session_field_iff auth seq hlen]
  · have hnumber : (buf'.toList.drop 29).take 20 = field := by
      rw [hread, List.append_assoc, ← hfront_len, List.drop_left, ← hfield_len, List.take_left]
    rw [hnumber, ReadsAs, ReadsAs, hfield, spacePadded_spaces_iff,
      sbtStrnumToInt_spaces _ hplaces.le]
  · have hsum : (front ++ field).length = 49 := by
      rw [List.length_append, hfront_len, hfield_len]
    rw [hread, ← hsum, List.drop_left]

theorem not_resumes (hnul : 0 ∈ seq.session.toList ++ seq.behind)
    (hlen : seq.sessText.length ≤ 29)
    (h : ¬ReadsAs seq.lastSeenSeqnum (lastPlaces seq buffer buf)) :
    ¬ResumesSession auth seq buffer buf := by
  obtain ⟨buf', buffer', hbuild, -, hnumber, -⟩ := reLogin_fields auth seq buffer buf hnul hlen
  rintro ⟨out, outBuffer, hout, -, hreading, -⟩
  rw [hbuild, Except.ok.injEq, Prod.mk.injEq] at hout
  rw [← hout.1, hnumber] at hreading
  exact h hreading

end Fields

/-- **A relogin resumes at the stored position** exactly when the text from the session id on
ends with the id, and when what earlier calls left behind the digits of the number, with the
last two bytes of the packet in front of it where it is shorter, happens to be the number. -/
theorem reLogin_resumes_iff (auth : UserInfoSBT) (seq : SequenceSBT) (buffer : StrnumBuffer)
    (buf : Vector UInt8 packetSize) :
    ResumesSession auth seq buffer buf ↔
      SessionAlone seq ∧ ReadsAs seq.lastSeenSeqnum (lastPlaces seq buffer buf) := by
  by_cases hok : 0 ∈ seq.session.toList ++ seq.behind ∧ seq.sessText.length ≤ 29
  · obtain ⟨hnul, hlen⟩ := hok
    obtain ⟨buf', buffer', hbuild, hsession, hnumber, hbehind⟩ :=
      reLogin_fields auth seq buffer buf hnul hlen
    constructor
    · rintro ⟨out, outBuffer, hout, hid, hreading, -⟩
      rw [hbuild, Except.ok.injEq, Prod.mk.injEq] at hout
      rw [← hout.1] at hid hreading
      exact ⟨⟨hnul, hlen, hsession.mp hid⟩, hnumber.mp hreading⟩
    · rintro ⟨⟨-, -, hid⟩, hreading⟩
      exact ⟨buf', buffer', hbuild, hsession.mpr hid, hnumber.mpr hreading, hbehind⟩
  · refine iff_of_false ?_ ?_
    · rintro ⟨buf', buffer', hbuild, -⟩
      rw [reLogin_fault auth seq buffer buf] at hbuild
      · cases hbuild
      · rw [not_and_or, not_le] at hok
        exact hok
    · rintro ⟨⟨hnul, hlen, -⟩, -⟩
      exact hok ⟨hnul, hlen⟩

/-- A session with an id of ten characters and the number 7. -/
def seventhOfSession : SequenceSBT where
  lastSeenSeqnum := 7
  session := ⟨#[83, 69, 83, 83, 73, 79, 78, 48, 48, 49], rfl⟩

theorem lastPlaces_seventh (buffer : StrnumBuffer) :
    lastPlaces seventhOfSession buffer (Vector.replicate packetSize 32) =
      List.replicate (min (2 - (cString (buffer.bytes.drop 1)).length) 2) 32 ++
        cString (buffer.bytes.drop 1) := by
  have hdigit : (strnumText 7).length = 1 := by
    rw [strnumText_eq, decimal_of_lt (by decide)]
    rfl
  have hleft : buffer.leftBehind seventhOfSession.lastSeenSeqnum =
      cString (buffer.bytes.drop 1) := by
    show cString (buffer.bytes.drop (strnumText 7).length) = _
    rw [hdigit]
  rw [lastPlaces, hleft, Vector.toList_replicate, List.drop_replicate, List.take_replicate,
    List.take_replicate]
  rfl

/-- The number 7 is not sent: a fresh static buffer gives no digit at all, and one in which
1234 has been printed before gives 234. -/
theorem reLogin_loses_number :
    ¬ResumesSession ⟨Vector.replicate 6 32, Vector.replicate 10 32⟩ seventhOfSession {}
        (Vector.replicate packetSize 32) ∧
      ¬ResumesSession ⟨Vector.replicate 6 32, Vector.replicate 10 32⟩ seventhOfSession
        { bytes := [49, 50, 51, 52] ++ List.replicate 17 0 } (Vector.replicate packetSize 32) := by
  have hnul : 0 ∈ seventhOfSession.session.toList ++ seventhOfSession.behind := by decide
  have hlen : seventhOfSession.sessText.length ≤ 29 := by decide
  constructor
  · refine not_resumes _ _ _ _ hnul hlen ?_
    rw [lastPlaces_seventh]
    rintro ⟨-, hvalue⟩
    exact absurd hvalue (by decide)
  · refine not_resumes _ _ _ _ hnul hlen ?_
    rw [lastPlaces_seventh]
    rintro ⟨-, hvalue⟩
    exact absurd hvalue (by decide)

end TradingEngine
