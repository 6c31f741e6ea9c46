import Cove.Core.Array
import Cove.Core.NumCode

/-!
# Numeric row predicates

The comparison kernels of a numeric filter: a raw NumCode, or a decoded value, against
the literal of the filter.

- `compareNumcodeValue`, `compareNumericValue`: the kernels.
- `compareLogical`: the comparison of a logical value with a literal, in binary64 as
  soon as one side is a float.
- `compareNumcodeValue_logical_iff`: **the verdicts of the kernel on a word are the
  comparisons of its logical value exactly when the word stands for itself**.
-/

namespace Cove

open Ieee754

inductive NumericPredicateOp where
  | eq
  | lt
  | ltEq
  | gt
  | gtEq
  deriving DecidableEq, Repr

/-- The literal of a numeric filter. -/
inductive PredicateLiteral where
  | int64 (v : BitVec 64)
  | uint64 (v : BitVec 64)
  | float64 (v : F64)
  deriving DecidableEq, Repr

/-! ## The kernels -/

/-- `compare_ordered`, over the partial order of the operands. -/
def compareOrdered {α : Type} (partialCmp : α → α → Option Ordering) (left : α)
    (op : NumericPredicateOp) (right : α) : Bool :=
  match op with
  | .eq => partialCmp left right == some .eq
  | .lt => partialCmp left right == some .lt
  | .ltEq => partialCmp left right == some .lt || partialCmp left right == some .eq
  | .gt => partialCmp left right == some .gt
  | .gtEq => partialCmp left right == some .gt || partialCmp left right == some .eq

/-- `partial_cmp` of integers. -/
def intCmp (a b : Int) : Option Ordering := some (compare a b)

/-- `i64::MAX`. -/
def i64Max : Nat := 2 ^ 63 - 1

def exceedsI64 : CoveError := .unsupportedEncoding "NumCode value exceeds i64"

/-- `compare_numcode_value`. -/
def compareNumcodeValue (value : BitVec 64) (op : NumericPredicateOp)
    (literal : PredicateLiteral) : Except CoveError Bool :=
  match literal with
  | .int64 literal =>
    if value.toNat > i64Max then .error exceedsI64
    else .ok (compareOrdered intCmp value.toNat op literal.toInt)
  | .uint64 literal => .ok (compareOrdered intCmp value.toNat op literal.toNat)
  | .float64 literal =>
    .ok (compareOrdered partialCmpValues (some (natAsF64 value.toNat)) op literal.value)

/-- The word eight bytes hold. -/
def wordOfBytes (bytes : List UInt8) : BitVec 64 := BitVec.ofNat 64 (LittleEndian.ofLe bytes)

/-- `value_as_i64`. -/
def valueAsI64 (value : CoveArrayValue) : Except CoveError (Option Int) :=
  match value with
  | .numCode value | .varint value =>
    if value.toNat > i64Max then .error exceedsI64 else .ok (some value.toNat)
  | .int64 value => .ok (some value.toInt)
  | .bytes bytes => if bytes.length = 8 then .ok (some (wordOfBytes bytes).toInt) else .ok none
  | _ => .ok none

/-- `value_as_u64`. -/
def valueAsU64 (value : CoveArrayValue) : Except CoveError (Option Nat) :=
  match value with
  | .numCode value | .varint value => .ok (some value.toNat)
  | .int64 value =>
    if value.toInt < 0 then .error (.unsupportedEncoding "negative value cannot compare as u64")
    else .ok (some value.toNat)
  | .bytes bytes => if bytes.length = 8 then .ok (some (wordOfBytes bytes).toNat) else .ok none
  | _ => .ok none

/-- `value_as_f64`, by value. A NaN counts as no number. -/
def valueAsF64 (value : CoveArrayValue) : Except CoveError (Option Int) :=
  match value with
  | .numCode value | .varint value => .ok (some (natAsF64 value.toNat))
  | .int64 value => .ok (some (intAsF64 value.toInt))
  | .bytes bytes => if bytes.length = 8 then .ok (F64.mk (wordOfBytes bytes)).value else .ok none
  | _ => .ok none

/-- `compare_numeric_value`. -/
def compareNumericValue (value : CoveArrayValue) (op : NumericPredicateOp)
    (literal : PredicateLiteral) : Except CoveError (Option Bool) :=
  if value = .null then .ok (some false)
  else
    match literal with
    | .int64 literal => do
      let some value ← valueAsI64 value | .ok none
      .ok (some (compareOrdered intCmp value op literal.toInt))
    | .uint64 literal => do
      let some value ← valueAsU64 value | .ok none
      .ok (some (compareOrdered intCmp value op literal.toNat))
    | .float64 literal => do
      let some value ← valueAsF64 value | .ok none
      .ok (some (compareOrdered partialCmpValues (some value) op literal.value))

/-- **The two kernels agree on a NumCode.** -/
theorem compareNumericValue_numCode (code : BitVec 64) (op : NumericPredicateOp)
    (literal : PredicateLiteral) :
    compareNumericValue (.numCode code) op literal =
      (compareNumcodeValue code op literal).map some := by
  cases literal with
  | int64 l =>
    by_cases h : code.toNat > i64Max
    · simp [compareNumericValue, compareNumcodeValue, valueAsI64, h]
      rfl
    · simp [compareNumericValue, compareNumcodeValue, valueAsI64, h]
      rfl
  | uint64 l => rfl
  | float64 l => rfl

/-! ## Comparing logical values -/

/-- The comparison of a logical value with a literal. Two integers compare exactly; a
float on either side makes it a comparison of floats, false on a NaN. -/
def compareLogical (value : LogicalValue) (op : NumericPredicateOp)
    (literal : PredicateLiteral) : Bool :=
  match value, literal with
  | .int x, .int64 l => compareOrdered intCmp x op l.toInt
  | .int x, .uint64 l => compareOrdered intCmp x op l.toNat
  | .int x, .float64 l => compareOrdered partialCmpValues (some (intAsF64 x)) op l.value
  | .float x, .int64 l => compareOrdered partialCmpValues x op (some (intAsF64 l.toInt))
  | .float x, .uint64 l => compareOrdered partialCmpValues x op (some (natAsF64 l.toNat))
  | .float x, .float64 l => compareOrdered partialCmpValues x op l.value

theorem compareOrdered_congr {α β : Type} {cmp : α → α → Option Ordering}
    {cmp' : β → β → Option Ordering} {a b : α} {c d : β} (h : cmp a b = cmp' c d)
    (op : NumericPredicateOp) : compareOrdered cmp a op b = compareOrdered cmp' c op d := by
  cases op <;> simp [compareOrdered, h]

theorem compareOrdered_intCmp_eq {a b : Int} :
    compareOrdered intCmp a .eq b = true ↔ a = b := by
  simp [compareOrdered, intCmp]

theorem compareOrdered_values_eq {x : Option Int} {b : Int} :
    compareOrdered partialCmpValues x .eq (some b) = true ↔ x = some b := by
  cases x <;> simp [compareOrdered, partialCmpValues]

/-- Zero, as an integer or a float, compares alike with every literal. -/
theorem compareLogical_zero (op : NumericPredicateOp) (literal : PredicateLiteral) :
    compareLogical (.float (some 0)) op literal = compareLogical (.int 0) op literal := by
  cases literal with
  | int64 l =>
    refine compareOrdered_congr ?_ op
    rw [partialCmpValues, compare_zero_intAsF64, intCmp]
  | uint64 l =>
    refine compareOrdered_congr ?_ op
    rw [partialCmpValues, ← intAsF64_natCast, compare_zero_intAsF64, intCmp]
  | float64 l => simp only [compareLogical, intAsF64_zero]

/-! ## Verdicts on a NumCode -/

/-- A kernel gives the verdict `b` on a NumCode, raw or decoded. -/
def Verdict (code : BitVec 64) (op : NumericPredicateOp) (literal : PredicateLiteral)
    (b : Bool) : Prop :=
  compareNumcodeValue code op literal = .ok b ∨
    compareNumericValue (.numCode code) op literal = .ok (some b)

variable {code : BitVec 64}

variable {literal : PredicateLiteral} {op : NumericPredicateOp} {v : LogicalValue}

theorem verdict_iff
    {b : Bool} : Verdict code op literal b ↔ compareNumcodeValue code op literal = .ok b := by
  rw [Verdict, compareNumericValue_numCode]
  cases compareNumcodeValue code op literal <;> simp [Except.map]

/-- A verdict is the comparison of the word as an unsigned integer. -/
theorem Verdict.eq_compareLogical {b : Bool} (h : Verdict code op literal b) :
    b = compareLogical (.int code.toNat) op literal := by
  have h := verdict_iff.mp h
  cases literal with
  | int64 l =>
    simp only [compareNumcodeValue] at h
    split at h
    · cases h
    · exact (Except.ok.inj h).symm
  | uint64 l => exact (Except.ok.inj h).symm
  | float64 l =>
    have := (Except.ok.inj h).symm
    rwa [← intAsF64_natCast] at this

/-- A value that equals exactly the unsigned literals the word equals is the word. -/
theorem exact_of_eq_literals
    (h : ∀ l : BitVec 64, compareLogical v .eq (.uint64 l) = true ↔ code.toNat = l.toNat) :
    v.exact = some (code.toNat * binary64.one) := by
  cases v with
  | int z =>
    obtain rfl := compareOrdered_intCmp_eq.mp ((h code).mpr rfl)
    rfl
  | float x =>
    simp only [compareLogical, compareOrdered_values_eq] at h
    obtain rfl := (h code).mpr rfl
    have hself : roundSig 53 code.toNat = code.toNat := by
      refine roundSig_eq_self code.isLt fun l hl hround => ?_
      have := (h (BitVec.ofNat 64 l)).mp
      rw [BitVec.toNat_ofNat, Nat.mod_eq_of_lt hl] at this
      exact (this (congrArg some (natAsF64_inj.mpr hround.symm))).symm
    simp only [LogicalValue.exact, natAsF64, hself]

/-- Conversely, a value that is the word compares like it. -/
theorem compareLogical_of_exact {logical : CoveLogicalType}
    (hv : logicalValue logical code = some v)
    (h : v.exact = some (code.toNat * binary64.one)) (op : NumericPredicateOp)
    (literal : PredicateLiteral) :
    compareLogical v op literal = compareLogical (.int code.toNat) op literal := by
  cases v with
  | int z => rw [Int.eq_of_mul_eq_mul_right binary64.one_pos.ne' (Option.some.inj h)]
  | float x =>
    have hzero : code.toNat = 0 := by
      have := (logicalValue_eq_code_iff hv).mp h
      cases logical <;> simp_all [logicalValue, exactCodes]
    simp only [LogicalValue.exact, hzero, Int.natCast_zero, Int.zero_mul] at h
    rw [h, compareLogical_zero, hzero, Int.natCast_zero]

/-- **Verdicts compare logical values exactly on the words that stand for
themselves**, over every operator and literal. -/
theorem verdict_logical_iff (logical : CoveLogicalType) (code : BitVec 64)
    (hadmitted : validateNumcodeLogicalType logical false = .ok ()) :
    (∀ op literal b, Verdict code op literal b →
      ∃ v, logicalValue logical code = some v ∧ b = compareLogical v op literal) ↔
    code.toNat < exactCodes logical := by
  obtain ⟨v, hv⟩ := logicalValue_isSome hadmitted code
  rw [← logicalValue_eq_code_iff hv]
  constructor
  · intro h
    refine exact_of_eq_literals fun l => ?_
    obtain ⟨v', hv', heq⟩ := h .eq (.uint64 l) _ (.inl rfl)
    obtain rfl := Option.some.inj (hv.symm.trans hv')
    rw [← heq, compareOrdered_intCmp_eq, Int.ofNat_inj]
  · intro hexact op literal b hb
    exact ⟨v, hv, by rw [hb.eq_compareLogical, compareLogical_of_exact hv hexact]⟩

/-- A date in range: the word 19000 of a `DateDays` column. -/
theorem verdict_logical_date :
    validateNumcodeLogicalType .dateDays false = .ok () ∧
      ((∀ op literal b, Verdict 19000#64 op literal b →
        ∃ v, logicalValue .dateDays 19000#64 = some v ∧ b = compareLogical v op literal) ↔
      19000 < exactCodes .dateDays) :=
  ⟨rfl, verdict_logical_iff .dateDays 19000#64 rfl⟩

/-- The word of `-1` in an `Int64` column is greater than five, says the kernel. -/
theorem verdict_negative_greater :
    ¬ ∀ (logical : CoveLogicalType) (code : BitVec 64),
      validateNumcodeLogicalType logical false = .ok () →
      ∀ op literal b, Verdict code op literal b →
        ∃ v, logicalValue logical code = some v ∧ b = compareLogical v op literal := by
  intro h
  obtain ⟨v, hv, heq⟩ := h .int64 (-1#64) rfl .gt (.uint64 5#64) true (.inl (by decide))
  obtain rfl : v = .int (-1) := (Option.some.inj hv).symm
  exact absurd heq (by decide)

end Cove
