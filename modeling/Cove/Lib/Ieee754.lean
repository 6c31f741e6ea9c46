import Mathlib.Data.Int.Basic
import Mathlib.Order.Basic
import Mathlib.Tactic.Linarith
import Mathlib.Tactic.Positivity
import Mathlib.Tactic.Ring

/-!
# Exact values of IEEE 754 binary data

A binary interchange datum is its bit pattern. Its value is given exactly, as an integer
number of *quanta* (the smallest positive subnormal of the format), so that comparing
two data, or a datum with an integer, is comparing integers. An infinity sits where the
next power of two beyond the finite range would, which orders it against every finite
datum and against every integer the format can meet; a NaN has no value.

- `Format.value`: the exact value in quanta.
- `F64`, `F32`: data by bit pattern, with the partial comparison of the language.
- `roundSig`: rounding a natural number to a bounded number of significant bits, ties
  to even, the value of an integer-to-float cast.
- `Format.totalKey`, `Format.totalCmp`: the total order, negative data before positive ones, the
  zeros with the negative one first, and the NaNs at both ends.
- `totalCmp_of_value`: **data of different value are totally ordered by value**.
-/

namespace Ieee754

/-- A binary interchange format: exponent and fraction widths. -/
structure Format where
  ew : Nat
  mw : Nat

namespace Format

/-- The biased exponent field. -/
def expo (f : Format) (bits : Nat) : Nat := bits / 2 ^ f.mw % 2 ^ f.ew

/-- The fraction field. -/
def frac (f : Format) (bits : Nat) : Nat := bits % 2 ^ f.mw

/-- The sign bit. -/
def sign (f : Format) (bits : Nat) : Bool := bits / 2 ^ (f.ew + f.mw) % 2 == 1

/-- The exponent field is all ones: an infinity or a NaN. -/
def isSpecial (f : Format) (bits : Nat) : Bool := f.expo bits == 2 ^ f.ew - 1

def isNaN (f : Format) (bits : Nat) : Bool := f.isSpecial bits && f.frac bits != 0

/-- The magnitude in quanta. -/
def magnitude (f : Format) (bits : Nat) : Nat :=
  if f.expo bits = 0 then f.frac bits
  else (2 ^ f.mw + f.frac bits) * 2 ^ (f.expo bits - 1)

/-- The exact value in quanta; none for a NaN. -/
def value (f : Format) (bits : Nat) : Option Int :=
  if f.isNaN bits then none
  else some (if f.sign bits then -(f.magnitude bits : Int) else f.magnitude bits)

/-- How many quanta make one. -/
def one (f : Format) : Int := 2 ^ (2 ^ (f.ew - 1) - 2 + f.mw)

theorem one_pos (f : Format) : 0 < f.one := by
  unfold one
  positivity

end Format

/-- IEEE 754 binary64. -/
def binary64 : Format := ⟨11, 52⟩

/-- IEEE 754 binary32. -/
def binary32 : Format := ⟨8, 23⟩

/-- A binary64 datum. -/
structure F64 where
  bits : BitVec 64
  deriving DecidableEq, Repr

/-- A binary32 datum. -/
structure F32 where
  bits : BitVec 32
  deriving DecidableEq, Repr

namespace F64

/-- The exact value in quanta of binary64. -/
def value (x : F64) : Option Int := binary64.value x.bits.toNat

def isNaN (x : F64) : Bool := binary64.isNaN x.bits.toNat

def isFinite (x : F64) : Bool := !binary64.isSpecial x.bits.toNat

/-- `partial_cmp`: no ordering when either side is a NaN. -/
def partialCmp (x y : F64) : Option Ordering :=
  match x.value, y.value with
  | some a, some b => some (compare a b)
  | _, _ => none

theorem value_eq_none_iff {x : F64} : x.value = none ↔ x.isNaN = true := by
  unfold value Format.value isNaN
  split <;> simp_all

theorem value_isSome_of_not_isNaN {x : F64} (h : x.isNaN = false) : ∃ a, x.value = some a := by
  cases hv : x.value with
  | some a => exact ⟨a, rfl⟩
  | none => rw [value_eq_none_iff.mp hv] at h; cases h

end F64

namespace F32

/-- The exact value in quanta of binary32. -/
def value (x : F32) : Option Int := binary32.value x.bits.toNat

end F32

/-! ## Rounding an integer to a float -/

/-- Round `n` to at most `p` significant bits, ties to even. -/
def roundSig (p n : Nat) : Nat :=
  let k := Nat.log2 n + 1 - p
  let q := n / 2 ^ k
  let r := n % 2 ^ k
  if 2 * r < 2 ^ k then q * 2 ^ k
  else if 2 ^ k < 2 * r then (q + 1) * 2 ^ k
  else (q + q % 2) * 2 ^ k

/-- A number of at most `p` bits is its own rounding. -/
theorem roundSig_of_lt {p n : Nat} (hp : 0 < p) (h : n < 2 ^ p) : roundSig p n = n := by
  have hk : Nat.log2 n + 1 - p = 0 := by
    rcases Nat.eq_zero_or_pos n with rfl | hn
    · simp only [Nat.log2_zero]
      omega
    · have := (Nat.log2_lt (by omega)).mpr h
      omega
  unfold roundSig
  simp [hk, Nat.mod_one]

/-- `n as f64`, in quanta. -/
def natAsF64 (n : Nat) : Int := roundSig 53 n * binary64.one

/-- `z as f64`, in quanta. -/
def intAsF64 (z : Int) : Int := if z < 0 then -natAsF64 z.natAbs else natAsF64 z.natAbs

end Ieee754

/-! ## The total order -/

namespace Ieee754

namespace Format

/-- The magnitude bits. -/
def low (f : Format) (bits : Nat) : Nat := bits % 2 ^ (f.ew + f.mw)

/-- The key of a datum: its magnitude bits, with all bits flipped when it is negative. -/
def totalKey (f : Format) (bits : Nat) : Int :=
  if f.sign bits then -(f.low bits : Int) - 1 else f.low bits

/-- `total_cmp`. -/
def totalCmp (f : Format) (x y : Nat) : Ordering := compare (f.totalKey x) (f.totalKey y)

variable {f : Format} {x y : Nat} {a b : Int}

theorem low_eq (f : Format) (x : Nat) : f.low x = f.expo x * 2 ^ f.mw + f.frac x := by
  unfold low expo frac
  rw [Nat.add_comm f.ew, pow_add, Nat.mod_mul, Nat.add_comm, Nat.mul_comm]

/-- The magnitude grows with the magnitude bits. -/
theorem magnitude_le (h : f.low x ≤ f.low y) : f.magnitude x ≤ f.magnitude y := by
  rw [low_eq, low_eq] at h
  have hx : f.frac x < 2 ^ f.mw := Nat.mod_lt _ (by positivity)
  have hy : f.frac y < 2 ^ f.mw := Nat.mod_lt _ (by positivity)
  have hexpo : f.expo x ≤ f.expo y := by
    by_contra hlt
    have hle : (f.expo y + 1) * 2 ^ f.mw ≤ f.expo x * 2 ^ f.mw :=
      Nat.mul_le_mul_right _ (Nat.lt_of_not_le hlt)
    rw [Nat.add_mul, Nat.one_mul] at hle
    omega
  unfold magnitude
  rcases hexpo.eq_or_lt with heq | hlt
  · -- one exponent: by the fraction
    rw [heq] at h ⊢
    have hfrac : f.frac x ≤ f.frac y := by omega
    split
    · exact hfrac
    · exact Nat.mul_le_mul_right _ (by omega)
  · rw [if_neg (show ¬ f.expo y = 0 by omega)]
    split
    · calc f.frac x ≤ 2 ^ f.mw + f.frac y := by omega
        _ ≤ (2 ^ f.mw + f.frac y) * 2 ^ (f.expo y - 1) := Nat.le_mul_of_pos_right _ (by positivity)
    · -- the smaller exponent is below half of the larger one's power
      have hstep : f.expo x - 1 + 1 ≤ f.expo y - 1 := by omega
      calc (2 ^ f.mw + f.frac x) * 2 ^ (f.expo x - 1)
          ≤ 2 ^ f.mw * 2 * 2 ^ (f.expo x - 1) := Nat.mul_le_mul_right _ (by omega)
        _ = 2 ^ f.mw * 2 ^ (f.expo x - 1 + 1) := by rw [Nat.mul_assoc, ← Nat.pow_succ']
        _ ≤ 2 ^ f.mw * 2 ^ (f.expo y - 1) :=
            Nat.mul_le_mul_left _ (Nat.pow_le_pow_right (by decide) hstep)
        _ ≤ (2 ^ f.mw + f.frac y) * 2 ^ (f.expo y - 1) := Nat.mul_le_mul_right _ (by omega)

theorem value_eq_ite (h : f.value x = some a) :
    a = if f.sign x then -(f.magnitude x : Int) else f.magnitude x := by
  unfold value at h
  split at h
  · cases h
  · exact (Option.some.inj h).symm

theorem totalKey_lt (hx : f.value x = some a) (hy : f.value y = some b) (h : a < b) :
    f.totalKey x < f.totalKey y := by
  have ha := value_eq_ite hx
  have hb := value_eq_ite hy
  by_contra hle
  unfold totalKey at hle
  cases hsx : f.sign x <;> cases hsy : f.sign y <;>
    simp only [hsx, hsy, Bool.false_eq_true, if_false, if_true] at ha hb hle
  case false.false =>
    have hmag := magnitude_le (show f.low y ≤ f.low x by omega)
    omega
  case true.true =>
    have hmag := magnitude_le (show f.low x ≤ f.low y by omega)
    omega
  all_goals omega

/-- **Data of different value are ordered by value.** -/
theorem totalCmp_of_value (hx : f.value x = some a) (hy : f.value y = some b) (h : a ≠ b) :
    f.totalCmp x y = compare a b := by
  unfold totalCmp
  rcases Int.lt_or_gt_of_ne h with hlt | hgt
  · rw [compare_lt_iff_lt.mpr hlt, compare_lt_iff_lt.mpr (totalKey_lt hx hy hlt)]
  · rw [compare_gt_iff_gt.mpr hgt, compare_gt_iff_gt.mpr (totalKey_lt hy hx hgt)]

/-- The order of data by value, and where it says nothing by the total order. -/
def valueCmp (f : Format) (x y : Nat) : Ordering :=
  match f.value x, f.value y with
  | some a, some b => (compare a b).then (f.totalCmp x y)
  | _, _ => f.totalCmp x y

/-- The total order refines the order by value. -/
theorem totalCmp_eq_valueCmp (f : Format) (x y : Nat) : f.totalCmp x y = f.valueCmp x y := by
  unfold valueCmp
  cases hx : f.value x with
  | none => rfl
  | some a =>
    cases hy : f.value y with
    | none => rfl
    | some b =>
      dsimp only
      by_cases h : a = b
      · rw [h, show compare b b = .eq from compare_eq_iff_eq.mpr rfl]
        rfl
      · rw [totalCmp_of_value hx hy h]
        cases hcmp : compare a b with
        | eq => exact absurd (compare_eq_iff_eq.mp hcmp) h
        | lt => rfl
        | gt => rfl

end Format

end Ieee754
