/-
Big-endian numbers in received bytes (`utils/Endian.h`).

A read puts the bytes side by side with shifts.  As a number its result is the value of the
bytes to the base 256 (`toNat_readU16be` and the others), so each read is a bijection
between the rows of its width and the machine integers, undone by the write of the same
width.  The 48-bit read fills the lower part of a 64-bit integer.

The second half names the kinds of fields the parsers have.
-/
import TradingEngine.OuchBytes
import TradingEngine.RecordLayout

namespace TradingEngine

open RecordLayout

namespace ByteOrder

/-! ### The value of a row of bytes -/

/-- The value to the base 256, the first byte being the most significant. -/
def value (bytes : List UInt8) : ℕ := bytes.foldl (fun n b => n * 256 + b.toNat) 0

theorem value_concat (bytes : List UInt8) (b : UInt8) :
    value (bytes ++ [b]) = value bytes * 256 + b.toNat := by
  rw [value, List.foldl_append]
  rfl

theorem eq_of_value_eq {l l' : List UInt8} (hlen : l.length = l'.length)
    (h : value l = value l') : l = l' := by
  induction l using List.reverseRecOn generalizing l' with
  | nil => exact (List.length_eq_zero_iff.mp hlen.symm).symm
  | append_singleton l b ih =>
    obtain rfl | ⟨l', b', rfl⟩ := List.eq_nil_or_concat' l'
    · simp at hlen
    rw [value_concat, value_concat] at h
    have hb := b.toNat_lt
    have hb' := b'.toNat_lt
    rw [List.length_append, List.length_append] at hlen
    have hl : l = l' := ih (Nat.add_right_cancel hlen) (by omega)
    have hbb : b = b' := UInt8.toNat_inj.mp (by omega)
    rw [hl, hbb]

theorem value_lt (bytes : List UInt8) : value bytes < 256 ^ bytes.length := by
  induction bytes using List.reverseRecOn with
  | nil => exact Nat.one_pos
  | append_singleton l b ih =>
    have hb := b.toNat_lt
    rw [value_concat, List.length_append, List.length_singleton, Nat.pow_succ]
    omega

/-- Bits that lie apart add up. -/
theorem or_eq_add {a b : ℕ} (k : ℕ) (ha : 2 ^ k ∣ a) (hb : b < 2 ^ k) : a ||| b = a + b := by
  obtain ⟨c, rfl⟩ := ha
  rw [mul_comm, ← Nat.shiftLeft_eq, ← Nat.shiftLeft_add_eq_or_of_lt hb]

/-! ### The reads -/

/-- `read_u16_be`. -/
def readU16be (p : Vector UInt8 2) : UInt16 := p[0].toUInt16 <<< 8 ||| p[1].toUInt16

/-- `read_u32_be`. -/
def readU32be (p : Vector UInt8 4) : UInt32 :=
  p[0].toUInt32 <<< 24 ||| p[1].toUInt32 <<< 16 ||| p[2].toUInt32 <<< 8 ||| p[3].toUInt32

/-- `read_u48_be`. -/
def readU48be (p : Vector UInt8 6) : UInt64 :=
  p[0].toUInt64 <<< 40 ||| p[1].toUInt64 <<< 32 ||| p[2].toUInt64 <<< 24 |||
    p[3].toUInt64 <<< 16 ||| p[4].toUInt64 <<< 8 ||| p[5].toUInt64

/-- `read_u64_be`. -/
def readU64be (p : Vector UInt8 8) : UInt64 :=
  p[0].toUInt64 <<< 56 ||| p[1].toUInt64 <<< 48 ||| p[2].toUInt64 <<< 40 |||
    p[3].toUInt64 <<< 32 ||| p[4].toUInt64 <<< 24 ||| p[5].toUInt64 <<< 16 |||
    p[6].toUInt64 <<< 8 ||| p[7].toUInt64

/-- `read_i32_be`. -/
def readI32be (p : Vector UInt8 4) : Int32 := (readU32be p).toInt32

/-- `read_i64_be`. -/
def readI64be (p : Vector UInt8 8) : Int64 := (readU64be p).toInt64

/-- The bytes of a row, one by one. -/
theorem toList_eq_ofFn {w : ℕ} (p : Vector UInt8 w) :
    p.toList = List.ofFn fun i : Fin w => p[i] := by
  apply List.ext_getElem
  · simp
  · intro i h h'
    simp

theorem toNat_readU16be (p : Vector UInt8 2) : (readU16be p).toNat = value p.toList := by
  have hvalue : value p.toList = (0 * 256 + p[0].toNat) * 256 + p[1].toNat :=
    congrArg value (toList_eq_ofFn p)
  have h0 := p[0].toNat_lt
  have h1 := p[1].toNat_lt
  simp only [readU16be, UInt16.toNat_or, UInt16.toNat_shiftLeft, UInt8.toNat_toUInt16,
    UInt16.reduceToNat, Nat.reduceMod, Nat.shiftLeft_eq]
  simp (disch := omega) only [Nat.mod_eq_of_lt]
  rw [hvalue, or_eq_add (b := p[1].toNat) 8 (by omega) (by omega)]
  omega

theorem toNat_readU32be (p : Vector UInt8 4) : (readU32be p).toNat = value p.toList := by
  have hvalue : value p.toList =
      (((0 * 256 + p[0].toNat) * 256 + p[1].toNat) * 256 + p[2].toNat) * 256 + p[3].toNat :=
    congrArg value (toList_eq_ofFn p)
  have h0 := p[0].toNat_lt
  have h1 := p[1].toNat_lt
  have h2 := p[2].toNat_lt
  have h3 := p[3].toNat_lt
  simp only [readU32be, UInt32.toNat_or, UInt32.toNat_shiftLeft, UInt8.toNat_toUInt32,
    UInt32.reduceToNat, Nat.reduceMod, Nat.shiftLeft_eq]
  simp (disch := omega) only [Nat.mod_eq_of_lt]
  rw [hvalue, or_eq_add (b := p[1].toNat * 2 ^ 16) 24 (by omega) (by omega),
    or_eq_add (b := p[2].toNat * 2 ^ 8) 16 (by omega) (by omega),
    or_eq_add (b := p[3].toNat) 8 (by omega) (by omega)]
  omega

theorem toNat_readU48be (p : Vector UInt8 6) : (readU48be p).toNat = value p.toList := by
  have hvalue : value p.toList =
      (((((0 * 256 + p[0].toNat) * 256 + p[1].toNat) * 256 + p[2].toNat) * 256 +
        p[3].toNat) * 256 + p[4].toNat) * 256 + p[5].toNat :=
    congrArg value (toList_eq_ofFn p)
  have h0 := p[0].toNat_lt
  have h1 := p[1].toNat_lt
  have h2 := p[2].toNat_lt
  have h3 := p[3].toNat_lt
  have h4 := p[4].toNat_lt
  have h5 := p[5].toNat_lt
  simp only [readU48be, UInt64.toNat_or, UInt64.toNat_shiftLeft, UInt8.toNat_toUInt64,
    UInt64.reduceToNat, Nat.reduceMod, Nat.shiftLeft_eq]
  simp (disch := omega) only [Nat.mod_eq_of_lt]
  rw [hvalue, or_eq_add (b := p[1].toNat * 2 ^ 32) 40 (by omega) (by omega),
    or_eq_add (b := p[2].toNat * 2 ^ 24) 32 (by omega) (by omega),
    or_eq_add (b := p[3].toNat * 2 ^ 16) 24 (by omega) (by omega),
    or_eq_add (b := p[4].toNat * 2 ^ 8) 16 (by omega) (by omega),
    or_eq_add (b := p[5].toNat) 8 (by omega) (by omega)]
  omega

theorem toNat_readU64be (p : Vector UInt8 8) : (readU64be p).toNat = value p.toList := by
  have hvalue : value p.toList =
      (((((((0 * 256 + p[0].toNat) * 256 + p[1].toNat) * 256 + p[2].toNat) * 256 +
        p[3].toNat) * 256 + p[4].toNat) * 256 + p[5].toNat) * 256 + p[6].toNat) * 256 +
        p[7].toNat :=
    congrArg value (toList_eq_ofFn p)
  have h0 := p[0].toNat_lt
  have h1 := p[1].toNat_lt
  have h2 := p[2].toNat_lt
  have h3 := p[3].toNat_lt
  have h4 := p[4].toNat_lt
  have h5 := p[5].toNat_lt
  have h6 := p[6].toNat_lt
  have h7 := p[7].toNat_lt
  simp only [readU64be, UInt64.toNat_or, UInt64.toNat_shiftLeft, UInt8.toNat_toUInt64,
    UInt64.reduceToNat, Nat.reduceMod, Nat.shiftLeft_eq]
  simp (disch := omega) only [Nat.mod_eq_of_lt]
  rw [hvalue, or_eq_add (b := p[1].toNat * 2 ^ 48) 56 (by omega) (by omega),
    or_eq_add (b := p[2].toNat * 2 ^ 40) 48 (by omega) (by omega),
    or_eq_add (b := p[3].toNat * 2 ^ 32) 40 (by omega) (by omega),
    or_eq_add (b := p[4].toNat * 2 ^ 24) 32 (by omega) (by omega),
    or_eq_add (b := p[5].toNat * 2 ^ 16) 24 (by omega) (by omega),
    or_eq_add (b := p[6].toNat * 2 ^ 8) 16 (by omega) (by omega),
    or_eq_add (b := p[7].toNat) 8 (by omega) (by omega)]
  omega

/-! ### The reads are undone by the writes -/

/-- A read that gives the value of its bytes has one row of bytes for each result. -/
theorem injective_of_value {α : Type} {w : ℕ} {read : Vector UInt8 w → α} (toNat : α → ℕ)
    (h : ∀ p, toNat (read p) = value p.toList) : Function.Injective read := by
  intro p q hpq
  have hvalue : value p.toList = value q.toList := by rw [← h, ← h, hpq]
  have hlen : p.toList.length = q.toList.length := by
    rw [Vector.length_toList, Vector.length_toList]
  exact Vector.toList_inj.mp (eq_of_value_eq hlen hvalue)

theorem value_write_u16 (v : UInt16) : value (Endian.writeU16be v) = v.toNat := by
  have h := v.toNat_lt
  simp [value, Endian.writeU16be, Nat.shiftRight_eq_div_pow]
  omega

theorem value_write_u32 (v : UInt32) : value (Endian.writeU32be v) = v.toNat := by
  have h := v.toNat_lt
  simp [value, Endian.writeU32be, Nat.shiftRight_eq_div_pow]
  omega

theorem value_write_u64 (v : UInt64) : value (Endian.writeU64be v) = v.toNat := by
  have h := v.toNat_lt
  simp [value, Endian.writeU64be, Nat.shiftRight_eq_div_pow]
  omega

/-- The values of the 48-bit read. -/
structure UInt48 where
  toUInt64 : UInt64
  lt : toUInt64.toNat < 2 ^ 48

/-- `write_u48_be`. -/
def writeU48be (v : UInt64) : List UInt8 :=
  [(v >>> 40).toUInt8, (v >>> 32).toUInt8, (v >>> 24).toUInt8, (v >>> 16).toUInt8,
    (v >>> 8).toUInt8, v.toUInt8]

theorem value_write_u48 (v : UInt48) : value (writeU48be v.toUInt64) = v.toUInt64.toNat := by
  have h := v.lt
  simp [value, writeU48be, Nat.shiftRight_eq_div_pow]
  omega

theorem readU48be_lt (p : Vector UInt8 6) : (readU48be p).toNat < 2 ^ 48 := by
  have h := value_lt p.toList
  rw [Vector.length_toList] at h
  rw [toNat_readU48be]
  exact h

/-- A read, and the write that undoes it. -/
def code {α : Type} {w : ℕ} (read : Vector UInt8 w → α) (write : α → List UInt8)
    (hlen : ∀ v, (write v).length = w) (hinj : Function.Injective read)
    (hread : ∀ v, read ⟨(write v).toArray, hlen v⟩ = v) : Vector UInt8 w ≃ α where
  toFun := read
  invFun v := ⟨(write v).toArray, hlen v⟩
  left_inv p := hinj (hread (read p))
  right_inv := hread

def u16 : Vector UInt8 2 ≃ UInt16 :=
  code readU16be Endian.writeU16be Endian.length_writeU16be (injective_of_value _ toNat_readU16be)
    fun v => UInt16.toNat_inj.mp ((toNat_readU16be _).trans (value_write_u16 v))

def u32 : Vector UInt8 4 ≃ UInt32 :=
  code readU32be Endian.writeU32be Endian.length_writeU32be (injective_of_value _ toNat_readU32be)
    fun v => UInt32.toNat_inj.mp ((toNat_readU32be _).trans (value_write_u32 v))

def u64 : Vector UInt8 8 ≃ UInt64 :=
  code readU64be Endian.writeU64be Endian.length_writeU64be (injective_of_value _ toNat_readU64be)
    fun v => UInt64.toNat_inj.mp ((toNat_readU64be _).trans (value_write_u64 v))

theorem UInt48.ext_toNat {v v' : UInt48} (h : v.toUInt64.toNat = v'.toUInt64.toNat) : v = v' := by
  cases v
  cases v'
  cases UInt64.toNat_inj.mp h
  rfl

def u48 : Vector UInt8 6 ≃ UInt48 :=
  code (fun p => ⟨readU48be p, readU48be_lt p⟩) (fun v => writeU48be v.toUInt64) (fun _ => rfl)
    (injective_of_value (fun v => v.toUInt64.toNat) toNat_readU48be)
    fun v => UInt48.ext_toNat ((toNat_readU48be _).trans (value_write_u48 v))

def i32 : Vector UInt8 4 ≃ Int32 :=
  u32.trans ⟨UInt32.toInt32, Int32.toUInt32, fun _ => rfl, fun _ => rfl⟩

def i64 : Vector UInt8 8 ≃ Int64 :=
  u64.trans ⟨UInt64.toInt64, Int64.toUInt64, fun _ => rfl, fun _ => rfl⟩

def char : Vector UInt8 1 ≃ UInt8 :=
  code (fun p => p[0]) (fun c => [c]) (fun _ => rfl)
    (injective_of_value UInt8.toNat fun p =>
      (Nat.zero_add _).symm.trans (congrArg value (toList_eq_ofFn p)).symm)
    fun _ => rfl

end ByteOrder

/-! ### Fields of messages -/

namespace ByteField

open ByteOrder

/-- `read_u16_be(data + pos)`. -/
abbrev u16 (pos : ℕ) : FixedField UInt8 := ⟨UInt16, pos, 2, ByteOrder.u16⟩

/-- `read_u32_be(data + pos)`. -/
abbrev u32 (pos : ℕ) : FixedField UInt8 := ⟨UInt32, pos, 4, ByteOrder.u32⟩

/-- `read_u48_be(data + pos)`. -/
abbrev u48 (pos : ℕ) : FixedField UInt8 := ⟨UInt48, pos, 6, ByteOrder.u48⟩

/-- `read_u64_be(data + pos)`. -/
abbrev u64 (pos : ℕ) : FixedField UInt8 := ⟨UInt64, pos, 8, ByteOrder.u64⟩

/-- `read_i32_be(data + pos)`. -/
abbrev i32 (pos : ℕ) : FixedField UInt8 := ⟨Int32, pos, 4, ByteOrder.i32⟩

/-- `read_i64_be(data + pos)`. -/
abbrev i64 (pos : ℕ) : FixedField UInt8 := ⟨Int64, pos, 8, ByteOrder.i64⟩

/-- `data[pos]`. -/
abbrev char (pos : ℕ) : FixedField UInt8 := ⟨UInt8, pos, 1, ByteOrder.char⟩

/-- `memcpy(&m->field, data + pos, n)`. -/
abbrev chars (pos n : ℕ) : FixedField UInt8 := ⟨Vector UInt8 n, pos, n, Equiv.refl _⟩

end ByteField

end TradingEngine
