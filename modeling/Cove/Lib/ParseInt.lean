import Mathlib.Data.List.Basic

/-!
# Parsing decimal integers

A decimal integer is an optional sign and at least one digit, read within the bounds of
its type. An unsigned type takes no minus sign.

- `digitsValue`: the value of a string of digits.
- `parseSigned`, `parseUnsigned`: integers of a bounded type.
- `parseSigned_widen`, `parseSigned_of_parseUnsigned`: what a text spells does not depend on
  the type.
-/

namespace ParseInt

/-- The value of a decimal digit. -/
def digitValue (c : Char) : Option Nat :=
  if '0' ≤ c ∧ c ≤ '9' then some (c.toNat - '0'.toNat) else none

/-- The value of a string of digits after those that gave `acc`. -/
def digitsFrom (acc : Nat) : List Char → Option Nat
  | [] => some acc
  | c :: cs => (digitValue c).bind fun d => digitsFrom (acc * 10 + d) cs

/-- The value of a non-empty string of digits. -/
def digitsValue : List Char → Option Nat
  | [] => none
  | c :: cs => digitsFrom 0 (c :: cs)

/-- A signed integer within `min` and `max`. -/
def parseSigned (min max : Int) (text : List Char) : Option Int :=
  let value : Option Int :=
    match text with
    | '-' :: digits => (digitsValue digits).map fun n => -(n : Int)
    | '+' :: digits => (digitsValue digits).map fun n => (n : Int)
    | digits => (digitsValue digits).map fun n => (n : Int)
  value.filter fun v => min ≤ v ∧ v ≤ max

/-- An unsigned integer up to `max`. -/
def parseUnsigned (max : Nat) (text : List Char) : Option Nat :=
  let value : Option Nat :=
    match text with
    | '+' :: digits => digitsValue digits
    | digits => digitsValue digits
  value.filter fun v => v ≤ max

variable {text : List Char}

theorem parseSigned_bounds {min max v : Int}
    (h : parseSigned min max text = some v) : min ≤ v ∧ v ≤ max := by
  unfold parseSigned at h
  dsimp only at h
  obtain ⟨-, hbounds⟩ := Option.filter_eq_some_iff.mp h
  simpa using hbounds

/-- A text that is an integer of one type is the same integer of a wider one. -/
theorem parseSigned_widen {min max min' max' v : Int}
    (h : parseSigned min max text = some v) (hmin : min' ≤ min) (hmax : max ≤ max') :
    parseSigned min' max' text = some v := by
  unfold parseSigned at h ⊢
  dsimp only at h ⊢
  obtain ⟨hvalue, hbounds⟩ := Option.filter_eq_some_iff.mp h
  simp only [decide_eq_true_eq] at hbounds
  refine Option.filter_eq_some_iff.mpr ⟨hvalue, ?_⟩
  simp only [decide_eq_true_eq]
  omega

theorem digitsValue_minus (digits : List Char) : digitsValue ('-' :: digits) = none := by
  rw [digitsValue, digitsFrom, digitValue, if_neg (by decide)]
  rfl

/-- An unsigned integer is a signed one. -/
theorem parseSigned_of_parseUnsigned {max v : Nat}
    (h : parseUnsigned max text = some v) {min' max' : Int} (hmin : min' ≤ 0)
    (hmax : (max : Int) ≤ max') : parseSigned min' max' text = some (v : Int) := by
  unfold parseUnsigned at h
  dsimp only at h
  obtain ⟨hvalue, hbound⟩ := Option.filter_eq_some_iff.mp h
  simp only [decide_eq_true_eq] at hbound
  unfold parseSigned
  dsimp only
  refine Option.filter_eq_some_iff.mpr ⟨?_, by simp only [decide_eq_true_eq]; omega⟩
  split at hvalue
  · simp [hvalue]
  · next hplus =>
    split
    · next digits =>
      rw [digitsValue_minus] at hvalue
      cases hvalue
    · next digits => exact absurd rfl (hplus digits)
    · simp [hvalue]

example : parseSigned (-128) 127 ['-', '1', '2', '8'] = some (-128) := by decide

end ParseInt
