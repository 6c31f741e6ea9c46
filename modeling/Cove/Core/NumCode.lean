import Cove.Core.Error
import Cove.Core.Types
import Cove.Lib.Ieee754Integer

/-!
# NumCodes

A NumCode is a raw 64-bit word; the logical type of its column says which bits of it
mean what.

- `numcodeAsI8` … `numcodeAsTimestampNanos`: the readings of a word.
- `logicalValue`: the reading the logical type assigns.
- `exactCodes`: how many of the first words stand for themselves.
- `logicalValue_eq_code_iff`: **a word is its own logical value exactly below
  `exactCodes`**.
-/

namespace Cove

open Ieee754 (F32 F64)

/-- `validate_numcode_logical_type`: the logical types a NumCode column may have. -/
def validateNumcodeLogicalType (logical : CoveLogicalType) (boolDeclaredNumeric : Bool) :
    Except CoveError Unit :=
  match logical with
  | .bool => if boolDeclaredNumeric then .ok () else .error .badNumCode
  | .int8 | .int16 | .int32 | .int64 | .uint8 | .uint16 | .uint32 | .uint64 | .float32
  | .float64 | .decimal64 | .dateDays | .timestampMicros | .timestampNanos => .ok ()
  | _ => .error .badNumCode

/-! ## Readings of a word -/

def numcodeAsI8 (code : BitVec 64) : Int := ((code &&& 0xff#64).setWidth 8).toInt
def numcodeAsI16 (code : BitVec 64) : Int := ((code &&& 0xffff#64).setWidth 16).toInt
def numcodeAsI32 (code : BitVec 64) : Int := ((code &&& 0xffff_ffff#64).setWidth 32).toInt
def numcodeAsI64 (code : BitVec 64) : Int := code.toInt
def numcodeAsU8 (code : BitVec 64) : Nat := ((code &&& 0xff#64).setWidth 8).toNat
def numcodeAsU16 (code : BitVec 64) : Nat := ((code &&& 0xffff#64).setWidth 16).toNat
def numcodeAsU32 (code : BitVec 64) : Nat := ((code &&& 0xffff_ffff#64).setWidth 32).toNat
def numcodeAsU64 (code : BitVec 64) : Nat := code.toNat
def numcodeAsF32 (code : BitVec 64) : F32 := ⟨(code &&& 0xffff_ffff#64).setWidth 32⟩
def numcodeAsF64 (code : BitVec 64) : F64 := ⟨code⟩
def numcodeAsDecimal64 (code : BitVec 64) : Int := code.toInt
def numcodeAsDateDays (code : BitVec 64) : Int :=
  ((code &&& 0xffff_ffff#64).setWidth 32).toInt
def numcodeAsTimestampMicros (code : BitVec 64) : Int := code.toInt
def numcodeAsTimestampNanos (code : BitVec 64) : Int := code.toInt

/-- A logical value: an integer, or a float by its value in quanta of binary64 (none for
a NaN). -/
inductive LogicalValue where
  | int (v : Int)
  | float (v : Option Int)
  deriving DecidableEq, Repr

/-- The value a column of type `logical` means by `code`. -/
def logicalValue (logical : CoveLogicalType) (code : BitVec 64) : Option LogicalValue :=
  match logical with
  | .int8 => some (.int (numcodeAsI8 code))
  | .int16 => some (.int (numcodeAsI16 code))
  | .int32 => some (.int (numcodeAsI32 code))
  | .int64 => some (.int (numcodeAsI64 code))
  | .uint8 => some (.int (numcodeAsU8 code))
  | .uint16 => some (.int (numcodeAsU16 code))
  | .uint32 => some (.int (numcodeAsU32 code))
  | .uint64 => some (.int (numcodeAsU64 code))
  | .float32 => some (.float (numcodeAsF32 code).widen)
  | .float64 => some (.float (numcodeAsF64 code).value)
  | .decimal64 => some (.int (numcodeAsDecimal64 code))
  | .dateDays => some (.int (numcodeAsDateDays code))
  | .timestampMicros => some (.int (numcodeAsTimestampMicros code))
  | .timestampNanos => some (.int (numcodeAsTimestampNanos code))
  | _ => none

variable {logical : CoveLogicalType} {w : Nat}

/-- Every admitted logical type reads every word. -/
theorem logicalValue_isSome
    (h : validateNumcodeLogicalType logical false = .ok ()) (code : BitVec 64) :
    ∃ v, logicalValue logical code = some v := by
  cases logical <;> first | exact ⟨_, rfl⟩ | cases h

/-! ## Words that stand for themselves -/

/-- The first word that does not stand for itself: half the range of a signed type, all
of an unsigned one's, and only zero for a float. -/
def exactCodes : CoveLogicalType → Nat
  | .int8 => 2 ^ 7
  | .int16 => 2 ^ 15
  | .int32 | .dateDays => 2 ^ 31
  | .int64 | .decimal64 | .timestampMicros | .timestampNanos => 2 ^ 63
  | .uint8 => 2 ^ 8
  | .uint16 => 2 ^ 16
  | .uint32 => 2 ^ 32
  | .uint64 => 2 ^ 64
  | .float32 | .float64 => 1
  | _ => 0

/-- The exact number a logical value is, in quanta of binary64. -/
def LogicalValue.exact : LogicalValue → Option Int
  | .int v => some (v * Ieee754.binary64.one)
  | .float v => v

variable (code : BitVec 64)

theorem toNat_low (hw : w ≤ 64) :
    ((code &&& BitVec.ofNat 64 (2 ^ w - 1)).setWidth w).toNat = code.toNat % 2 ^ w := by
  have hlt : 2 ^ w - 1 < 2 ^ 64 := by
    have := Nat.pow_le_pow_right (show 0 < 2 by decide) hw
    omega
  rw [BitVec.toNat_setWidth, BitVec.toNat_and, BitVec.toNat_ofNat, Nat.mod_eq_of_lt hlt,
    Nat.and_two_pow_sub_one_eq_mod, Nat.mod_mod]

theorem toNat_low_eq_iff (hw : w ≤ 64) :
    ((((code &&& BitVec.ofNat 64 (2 ^ w - 1)).setWidth w).toNat : Nat) : Int) = code.toNat ↔
      code.toNat < 2 ^ w := by
  rw [toNat_low code hw, Int.ofNat_inj]
  exact Nat.mod_eq_iff_lt (by positivity)

/-- The two's complement reading of the low `w` bits is the word itself below `2 ^ (w-1)`. -/
theorem toInt_low_eq_iff (hpos : 0 < w) (hw : w ≤ 64) :
    ((code &&& BitVec.ofNat 64 (2 ^ w - 1)).setWidth w).toInt = code.toNat ↔
      code.toNat < 2 ^ (w - 1) := by
  have hsplit : 2 ^ w = 2 * 2 ^ (w - 1) := by
    rw [← Nat.pow_succ', Nat.succ_eq_add_one, Nat.sub_add_cancel hpos]
  rw [BitVec.toInt_eq_toNat_cond, toNat_low code hw, hsplit]
  have hpos : 0 < 2 ^ (w - 1) := Nat.two_pow_pos _
  generalize 2 ^ (w - 1) = h at *
  constructor
  · intro heq
    have hlt := Nat.mod_lt code.toNat (show 0 < 2 * h by omega)
    generalize code.toNat % (2 * h) = r at *
    split at heq <;> omega
  · intro hlt
    rw [Nat.mod_eq_of_lt (by omega), if_pos (by omega)]

theorem toInt_eq_iff : code.toInt = code.toNat ↔ code.toNat < 2 ^ 63 := by
  have hlt := code.isLt
  rw [BitVec.toInt_eq_toNat_cond]
  split <;> omega

/-- **A word is its own logical value exactly below `exactCodes`.** -/
theorem logicalValue_eq_code_iff {code : BitVec 64}
    {v : LogicalValue} (hv : logicalValue logical code = some v) :
    v.exact = some (code.toNat * Ieee754.binary64.one) ↔ code.toNat < exactCodes logical := by
  have hint : ∀ z : Int, (LogicalValue.int z).exact =
      some (code.toNat * Ieee754.binary64.one) ↔ z = code.toNat := by
    intro z
    simp only [LogicalValue.exact, Option.some.injEq]
    constructor
    · exact Int.eq_of_mul_eq_mul_right Ieee754.binary64.one_pos.ne'
    · rintro rfl
      rfl
  cases logical <;> simp only [logicalValue, Option.some.injEq, reduceCtorEq] at hv <;>
    subst hv
  case float32 =>
    simp only [LogicalValue.exact, exactCodes, Nat.lt_one_iff]
    constructor
    · exact F32.eq_zero_of_widen code.isLt (toNat_low code (show 32 ≤ 64 by decide)).symm
    · intro h
      obtain rfl : code = 0#64 := BitVec.eq_of_toNat_eq h
      simp [numcodeAsF32]
  case float64 =>
    simp only [LogicalValue.exact, exactCodes, Nat.lt_one_iff]
    constructor
    · exact F64.toNat_eq_zero_of_value
    · intro h
      obtain rfl : code = 0#64 := BitVec.eq_of_toNat_eq h
      simp [numcodeAsF64]
  all_goals rw [hint]
  case int8 => exact toInt_low_eq_iff code (show 0 < 8 by decide) (by decide)
  case int16 => exact toInt_low_eq_iff code (show 0 < 16 by decide) (by decide)
  case int32 => exact toInt_low_eq_iff code (show 0 < 32 by decide) (by decide)
  case dateDays => exact toInt_low_eq_iff code (show 0 < 32 by decide) (by decide)
  case uint8 => exact toNat_low_eq_iff code (show 8 ≤ 64 by decide)
  case uint16 => exact toNat_low_eq_iff code (show 16 ≤ 64 by decide)
  case uint32 => exact toNat_low_eq_iff code (show 32 ≤ 64 by decide)
  case uint64 => exact iff_of_true rfl code.isLt
  all_goals exact toInt_eq_iff code

end Cove
