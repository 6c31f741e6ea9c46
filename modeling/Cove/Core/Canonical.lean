import Cove.Core.Error
import Cove.Lib.Ieee754
import Cove.Lib.Leb128

/-!
# Canonical values

The byte-level identity of a value: its tag and its canonical payload. Fixed-width
payloads are little-endian, variable ones carry their length in front.

- `ValueTag`, `CanonicalValue`: the scalar values and their tags.
- `CanonicalValue.encode`: the payload.
-/

namespace Cove

open Ieee754 (F32 F64)

inductive ValueTag where
  | null
  | boolFalse
  | boolTrue
  | int64
  | uint64
  | float32Bits
  | float64Bits
  | decimal64
  | decimal128
  | dateDays
  | timestampMicros
  | timestampNanos
  | utf8
  | binary
  | uuid
  | json
  | list
  | struct
  | map
  deriving DecidableEq, Repr

/-- `tag as u16`. -/
def ValueTag.code : ValueTag → Nat
  | null => 0
  | boolFalse => 1
  | boolTrue => 2
  | int64 => 3
  | uint64 => 4
  | float32Bits => 5
  | float64Bits => 6
  | decimal64 => 7
  | decimal128 => 8
  | dateDays => 9
  | timestampMicros => 10
  | timestampNanos => 11
  | utf8 => 12
  | binary => 13
  | uuid => 14
  | json => 15
  | list => 16
  | struct => 17
  | map => 18

theorem ValueTag.code_lt (tag : ValueTag) : tag.code < 256 := by
  cases tag <;> decide

theorem ValueTag.code_inj {a b : ValueTag} (h : a.code = b.code) : a = b := by
  have hof : ∀ tag : ValueTag, ofNat tag.code = tag := by
    intro tag
    cases tag <;> rfl
  rw [← hof a, h, hof b]

/-- `str::from_utf8` accepts the bytes. -/
def isUtf8 (bytes : List UInt8) : Bool := (ByteArray.mk bytes.toArray).validateUTF8

/-- A string, by its bytes. -/
structure Str where
  bytes : List UInt8
  valid : isUtf8 bytes = true
  deriving DecidableEq, Repr

/-- `str::from_utf8`. -/
def strFromUtf8 (bytes : List UInt8) : Option Str :=
  if h : isUtf8 bytes = true then some ⟨bytes, h⟩ else none

/-- `[u8; n]`. -/
abbrev FixedBytes (n : Nat) := { bytes : List UInt8 // bytes.length = n }

abbrev Uuid := FixedBytes 16

/-- A scalar canonical value. Integers keep the width of their logical type. -/
inductive CanonicalValue where
  | null
  | bool (b : Bool)
  | int (width : Nat) (value : Int)
  | uint (width : Nat) (value : Nat)
  | float32 (v : F32)
  | float64 (v : F64)
  | decimal64 (v : Int)
  | decimal128 (v : Int)
  | dateDays (v : Int)
  | timestampMicros (v : Int)
  | timestampNanos (v : Int)
  | uuid (v : Uuid)
  | utf8 (s : Str)
  | bytes (b : List UInt8)
  | json (s : Str)
  deriving DecidableEq

/-- The two's complement bytes of a number that fits `width` of them. -/
def signedLe (width : Nat) (value : Int) : List UInt8 :=
  LittleEndian.toLe width (LittleEndian.unsigned width value)

/-- `encode_i64_width`. -/
def encodeI64Width (width : Nat) (value : Int) : Except CoveError (List UInt8) :=
  match width with
  | 1 => encode (-2 ^ 7) (2 ^ 7 - 1)
  | 2 => encode (-2 ^ 15) (2 ^ 15 - 1)
  | 4 => encode (-2 ^ 31) (2 ^ 31 - 1)
  | 8 => encode (-2 ^ 63) (2 ^ 63 - 1)
  | _ => .error (.badSection ("invalid signed integer width " ++ toString width))
where
  encode (min max : Int) : Except CoveError (List UInt8) :=
    if min ≤ value ∧ value ≤ max then .ok (signedLe 8 value)
    else .error (.badSection "signed integer canonical value out of range")

/-- `encode_u64_width`. -/
def encodeU64Width (width : Nat) (value : Nat) : Except CoveError (List UInt8) :=
  match width with
  | 1 => encode (2 ^ 8 - 1)
  | 2 => encode (2 ^ 16 - 1)
  | 4 => encode (2 ^ 32 - 1)
  | 8 => encode (2 ^ 64 - 1)
  | _ => .error (.badSection ("invalid unsigned integer width " ++ toString width))
where
  encode (max : Nat) : Except CoveError (List UInt8) :=
    if value > max then .error (.badSection "unsigned integer canonical value out of range")
    else .ok (LittleEndian.toLe 8 value)

/-- `length_prefixed`. -/
def lengthPrefixed (bytes : List UInt8) : List UInt8 := Leb128.leb128 bytes.length ++ bytes

namespace CanonicalValue

/-- `value_tag`: the smaller integer widths share one tag. -/
def valueTag : CanonicalValue → ValueTag
  | null => .null
  | bool false => .boolFalse
  | bool true => .boolTrue
  | int _ _ => .int64
  | uint _ _ => .uint64
  | float32 _ => .float32Bits
  | float64 _ => .float64Bits
  | decimal64 _ => .decimal64
  | decimal128 _ => .decimal128
  | dateDays _ => .dateDays
  | timestampMicros _ => .timestampMicros
  | timestampNanos _ => .timestampNanos
  | uuid _ => .uuid
  | utf8 _ => .utf8
  | bytes _ => .binary
  | json _ => .json

/-- `encode`: the canonical payload. -/
def encode : CanonicalValue → Except CoveError (List UInt8)
  | null | bool _ => .ok []
  | int width value => encodeI64Width width value
  | uint width value => encodeU64Width width value
  | float32 v => .ok (LittleEndian.toLe 4 v.bits.toNat)
  | float64 v => .ok (LittleEndian.toLe 8 v.bits.toNat)
  | decimal64 v => .ok (signedLe 8 v)
  | decimal128 v => .ok (signedLe 16 v)
  | dateDays v => .ok (signedLe 4 v)
  | timestampMicros v | timestampNanos v => .ok (signedLe 8 v)
  | uuid v => .ok v.val
  | utf8 s | json s => .ok (lengthPrefixed s.bytes)
  | bytes b => .ok (lengthPrefixed b)

end CanonicalValue

/-! ## Integers of a width -/

/-- The widths an integer may have. -/
def IntegerWidth (w : Nat) : Prop := w = 1 ∨ w = 2 ∨ w = 4 ∨ w = 8

variable {p : List UInt8}

variable {w : Nat}

theorem encodeI64Width_eq_ok (hw : IntegerWidth w) {n : Int} :
    encodeI64Width w n = .ok p ↔
      (-2 ^ (8 * w - 1) ≤ n ∧ n < 2 ^ (8 * w - 1)) ∧ p = signedLe 8 n := by
  have hencode : ∀ min max : Int, encodeI64Width.encode n min max = .ok p ↔
      (min ≤ n ∧ n ≤ max) ∧ p = signedLe 8 n := by
    intro min max
    unfold encodeI64Width.encode
    split
    · next h => exact ⟨fun heq => ⟨h, (Except.ok.inj heq).symm⟩, fun h => congrArg _ h.2.symm⟩
    · next h => exact ⟨nofun, fun heq => absurd heq.1 h⟩
  rcases hw with rfl | rfl | rfl | rfl <;> refine (hencode _ _).trans (and_congr_left fun _ => ?_)
    <;> norm_num <;> omega

theorem encodeU64Width_eq_ok (hw : IntegerWidth w) {n : Nat} :
    encodeU64Width w n = .ok p ↔ n < 2 ^ (8 * w) ∧ p = LittleEndian.toLe 8 n := by
  have hencode : ∀ max : Nat, encodeU64Width.encode n max = .ok p ↔
      n ≤ max ∧ p = LittleEndian.toLe 8 n := by
    intro max
    unfold encodeU64Width.encode
    split
    · next h => exact ⟨nofun, fun heq => absurd h (by omega)⟩
    · next h =>
      exact ⟨fun heq => ⟨by omega, (Except.ok.inj heq).symm⟩, fun h => congrArg _ h.2.symm⟩
  rcases hw with rfl | rfl | rfl | rfl <;> refine (hencode _).trans (and_congr_left fun _ => ?_)
    <;> norm_num <;> omega

/-- Only the four widths are written, and what is written fits the widest. -/
theorem encodeI64Width_bounds {n : Int} (h : encodeI64Width w n = .ok p) :
    (-(256 ^ 8 / 2 : Nat) ≤ n ∧ n < (256 ^ 8 / 2 : Nat)) ∧ p = signedLe 8 n := by
  have hw : IntegerWidth w := by
    unfold encodeI64Width at h
    unfold IntegerWidth
    split at h
    case h_5 => cases h
    all_goals omega
  obtain ⟨⟨hlow, hhigh⟩, hp⟩ := (encodeI64Width_eq_ok hw).mp h
  refine ⟨?_, hp⟩
  rcases hw with rfl | rfl | rfl | rfl <;> norm_num at hlow hhigh ⊢ <;> omega

theorem encodeU64Width_bounds {n : Nat} (h : encodeU64Width w n = .ok p) :
    n < 256 ^ 8 ∧ p = LittleEndian.toLe 8 n := by
  have hw : IntegerWidth w := by
    unfold encodeU64Width at h
    unfold IntegerWidth
    split at h
    case h_5 => cases h
    all_goals omega
  obtain ⟨hlt, hp⟩ := (encodeU64Width_eq_ok hw).mp h
  refine ⟨?_, hp⟩
  rcases hw with rfl | rfl | rfl | rfl <;> norm_num at hlt ⊢ <;> omega

/-! ## Payloads of equal values -/

theorem signedLe_injective {a b : Int} (hw : 0 < w)
    (ha : -(256 ^ w / 2 : Nat) ≤ a ∧ a < (256 ^ w / 2 : Nat))
    (hb : -(256 ^ w / 2 : Nat) ≤ b ∧ b < (256 ^ w / 2 : Nat)) (h : signedLe w a = signedLe w b) :
    a = b := by
  have := LittleEndian.toLe_injective (LittleEndian.unsigned_lt w a)
    (LittleEndian.unsigned_lt w b) h
  rw [← LittleEndian.signed_unsigned hw ha.1 ha.2, this,
    LittleEndian.signed_unsigned hw hb.1 hb.2]

theorem lengthPrefixed_injective {a b : List UInt8} (h : lengthPrefixed a = lengthPrefixed b) :
    a = b := (Leb128.leb128_append_inj h).2

end Cove
