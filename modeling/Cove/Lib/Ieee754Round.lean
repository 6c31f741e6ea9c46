import Cove.Lib.ParseInt
import Cove.Lib.TextOps

/-!
# Rounding to a binary format

- `Format.ofRatio`: the datum nearest to a ratio, ties to even, beyond the range an infinity.
- `F64.ofInt`, `F64.toF32`, `F64.ofF32`: conversions of the language.
- `F64.parse`: `str::parse::<f64>`.
-/

namespace Ieee754

/-- A ratio rounded to an integer, ties to even. -/
def divRound (num den : Nat) : Nat :=
  let q := num / den
  let r := num % den
  if 2 * r < den then q else if den < 2 * r then q + 1 else q + q % 2

/-- The exponent of the highest power of two not above a positive ratio. -/
def log2Ratio (num den : Nat) : Int :=
  let e : Int := (Nat.log2 num : Int) - Nat.log2 den
  if den * 2 ^ e.toNat ≤ num * 2 ^ (-e).toNat then e else e - 1

/-- The exponent of the smallest normal datum. -/
def Format.minExponent (f : Format) : Int := 2 - 2 ^ (f.ew - 1)

/-- The bits of the datum nearest to a ratio. A carry out of the fraction moves into the
exponent field by itself. -/
def Format.ofRatio (f : Format) (num den : Nat) : Nat :=
  if num = 0 then 0
  else
    let e := max (log2Ratio num den) f.minExponent
    let s := e - f.mw
    let q := divRound (num * 2 ^ (-s).toNat) (den * 2 ^ s.toNat)
    min ((2 ^ f.ew - 1) * 2 ^ f.mw) ((e - f.minExponent).toNat * 2 ^ f.mw + q)

namespace F64

/-- A datum from its sign and magnitude bits. -/
def ofMagnitude (negative : Bool) (bits : Nat) : F64 :=
  ⟨BitVec.ofNat 64 (bits + if negative then 2 ^ 63 else 0)⟩

/-- `z as f64`. -/
def ofInt (z : Int) : F64 := ofMagnitude (z < 0) (binary64.ofRatio z.natAbs 1)

/-- `x as f32`. -/
def toF32 (x : F64) : F32 :=
  let sign := if binary64.sign x.bits.toNat then 2 ^ 31 else 0
  if x.isNaN then ⟨BitVec.ofNat 32 (sign + 255 * 2 ^ 23 + 2 ^ 22 +
    binary64.frac x.bits.toNat / 2 ^ 29 % 2 ^ 22)⟩
  else ⟨BitVec.ofNat 32 (sign + binary32.ofRatio (binary64.magnitude x.bits.toNat) (2 ^ 1074))⟩

/-- `x as f64`. -/
def ofF32 (x : F32) : F64 :=
  let bits := x.bits.toNat
  ofMagnitude (binary32.sign bits) (
    if binary32.isNaN bits then 2047 * 2 ^ 52 + 2 ^ 51 + binary32.frac bits % 2 ^ 22 * 2 ^ 29
    else if binary32.isSpecial bits then 2047 * 2 ^ 52
    else binary64.ofRatio (binary32.magnitude bits) (2 ^ 149))

/-- `digits[.digits][e[sign]digits]`, at least one digit before the exponent: the digits, how
many of them follow the point, and the exponent. -/
def parseDecimal (text : Text) : Option (Nat × Nat × Int) := do
  let isExponent (c : Char) : Bool := c == 'e' || c == 'E'
  let mantissa := text.takeWhile fun c => !isExponent c
  let exponent ← match text.dropWhile fun c => !isExponent c with
    | [] => some 0
    | _ :: '-' :: digits => (ParseInt.digitsValue digits).map fun n => -(n : Int)
    | _ :: '+' :: digits => (ParseInt.digitsValue digits).map fun n => (n : Int)
    | _ :: digits => (ParseInt.digitsValue digits).map fun n => (n : Int)
  let whole := mantissa.takeWhile fun c => c != '.'
  let fraction := (mantissa.dropWhile fun c => c != '.').drop 1
  let digits ← ParseInt.digitsValue (whole ++ fraction)
  some (digits, fraction.length, exponent)

/-- `str::parse::<f64>`. -/
def parse (text : Text) : Option F64 :=
  let (negative, body) : Bool × Text :=
    match text with
    | '-' :: body => (true, body)
    | '+' :: body => (false, body)
    | body => (false, body)
  let lower := TextOps.asciiLower body
  if lower = "inf".toList ∨ lower = "infinity".toList then
    some (ofMagnitude negative (2047 * 2 ^ 52))
  else if lower = "nan".toList then some (ofMagnitude negative (2047 * 2 ^ 52 + 2 ^ 51))
  else
    (parseDecimal body).map fun (digits, places, exponent) =>
      let e := exponent - places
      ofMagnitude negative (binary64.ofRatio (digits * 10 ^ e.toNat) (10 ^ (-e).toNat))

example : F64.parse "-1.5e0".toList = some ⟨0xBFF8000000000000#64⟩ := by decide

example : F64.parse "0.1".toList = some ⟨0x3FB999999999999A#64⟩ := by decide

end F64

/-- `JsonNumber` as a float: `as_f64`. -/
def ofJsonNumber : JsonNumber → F64
  | .posInt v => F64.ofInt v.toNat
  | .negInt v => F64.ofInt v.toInt
  | .float v => v

end Ieee754
