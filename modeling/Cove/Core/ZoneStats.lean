import Cove.Lib.Ieee754
import Cove.Lib.LittleEndian

/-!
# Zone statistics

What the planner reads of a zone's statistics: the counts, the typed minimum and
maximum, and the interval of domain ranks.

- `StatScalar.numericValue`: the typed reading of a stored minimum or maximum.
- `NumericStatValue.compareNumeric`: comparison of two values of one kind.
-/

namespace Cove

open Ieee754 (F64)

/-- The type tag of a stored minimum or maximum. -/
inductive StatKind where
  | none
  | int64
  | uint64
  | float64Bits
  | decimal128
  | timestampMicros
  | timestampNanos
  | dateDays
  | fixedBytes
  deriving DecidableEq, Repr

/-- `ZoneStatFlags`: a set of flag bits. -/
structure ZoneStatFlags where
  bits : BitVec 32
  deriving DecidableEq, Repr

namespace ZoneStatFlags

def empty : ZoneStatFlags := ⟨0⟩
def hasMinMax : ZoneStatFlags := ⟨1 <<< 0⟩
def hasDomainRange : ZoneStatFlags := ⟨1 <<< 1⟩
def constant : ZoneStatFlags := ⟨1 <<< 3⟩
def sortedAsc : ZoneStatFlags := ⟨1 <<< 4⟩
def sortedDesc : ZoneStatFlags := ⟨1 <<< 5⟩
def hasNan : ZoneStatFlags := ⟨1 <<< 6⟩
def minmaxTruncated : ZoneStatFlags := ⟨1 <<< 8⟩

def contains (self other : ZoneStatFlags) : Bool := self.bits &&& other.bits == other.bits

end ZoneStatFlags

/-- A stored minimum or maximum. -/
structure StatScalar where
  kind : StatKind
  bytes : List UInt8
  truncated : Bool
  deriving DecidableEq, Repr

/-- A typed numeric statistic. -/
inductive NumericStatValue where
  | int64 (v : Int)
  | uint64 (v : Nat)
  | float64 (v : F64)
  | decimal128 (v : Int)
  | timestampMicros (v : Int)
  | timestampNanos (v : Int)
  | dateDays (v : Int)
  deriving DecidableEq, Repr

/-- `decode_*_exact`: a signed integer of exactly `w` bytes. -/
def decodeSignedExact (w : Nat) (bytes : List UInt8) : Option Int :=
  if bytes.length ≠ w then none else some (LittleEndian.signed w (LittleEndian.ofLe bytes))

def decodeU64Exact (bytes : List UInt8) : Option Nat :=
  if bytes.length ≠ 8 then none else some (LittleEndian.ofLe bytes)

/-- The typed reading of a scalar; none for a NaN, a wrong length or an untyped kind. -/
def StatScalar.numericValue (s : StatScalar) : Option NumericStatValue :=
  match s.kind with
  | .int64 => (decodeSignedExact 8 s.bytes).map .int64
  | .uint64 => (decodeU64Exact s.bytes).map .uint64
  | .float64Bits =>
    (((decodeU64Exact s.bytes).map fun n => (⟨BitVec.ofNat 64 n⟩ : F64)).filter
      fun v => !v.isNaN).map .float64
  | .decimal128 => (decodeSignedExact 16 s.bytes).map .decimal128
  | .timestampMicros => (decodeSignedExact 8 s.bytes).map .timestampMicros
  | .timestampNanos => (decodeSignedExact 8 s.bytes).map .timestampNanos
  | .dateDays => (decodeSignedExact 4 s.bytes).map .dateDays
  | .none => none
  | .fixedBytes => none

/-- The statistics of a zone. -/
structure ZoneStats where
  rowCount : Nat
  nullCount : Nat
  min : Option StatScalar
  max : Option StatScalar
  flags : ZoneStatFlags
  deriving DecidableEq, Repr

/-- One entry of the zone statistics section. -/
structure ZoneStatsEntry where
  tableId : Nat
  segmentId : Nat
  morselId : Nat
  columnId : Nat
  stats : ZoneStats
  minDomainRank : Nat
  maxDomainRank : Nat
  deriving DecidableEq, Repr

namespace NumericStatValue

/-- `numeric_kinds_match`: the same variant. -/
def kindsMatch : NumericStatValue → NumericStatValue → Bool
  | int64 _, int64 _ => true
  | uint64 _, uint64 _ => true
  | float64 _, float64 _ => true
  | decimal128 _, decimal128 _ => true
  | timestampMicros _, timestampMicros _ => true
  | timestampNanos _, timestampNanos _ => true
  | dateDays _, dateDays _ => true
  | _, _ => false

/-- `compare_numeric`: none across kinds and for a NaN. -/
def compareNumeric : NumericStatValue → NumericStatValue → Option Ordering
  | int64 x, int64 y => some (compare x y)
  | uint64 x, uint64 y => some (compare x y)
  | float64 x, float64 y => x.partialCmp y
  | decimal128 x, decimal128 y => some (compare x y)
  | timestampMicros x, timestampMicros y => some (compare x y)
  | timestampNanos x, timestampNanos y => some (compare x y)
  | dateDays x, dateDays y => some (compare x y)
  | _, _ => none

/-- The number a value stands for, exactly, in quanta of binary64. -/
def exact : NumericStatValue → Option Int
  | int64 x => some (x * Ieee754.binary64.one)
  | uint64 x => some (x * Ieee754.binary64.one)
  | float64 x => x.value
  | decimal128 x => some (x * Ieee754.binary64.one)
  | timestampMicros x => some (x * Ieee754.binary64.one)
  | timestampNanos x => some (x * Ieee754.binary64.one)
  | dateDays x => some (x * Ieee754.binary64.one)

theorem compare_mul_one (x y : Int) :
    compare (x * Ieee754.binary64.one) (y * Ieee754.binary64.one) = compare x y := by
  have hpos := Ieee754.binary64.one_pos
  rcases lt_trichotomy x y with h | rfl | h
  · rw [Int.compare_eq_lt.mpr h, Int.compare_eq_lt.mpr (Int.mul_lt_mul_of_pos_right h hpos)]
  · simp
  · rw [Int.compare_eq_gt.mpr h, Int.compare_eq_gt.mpr (Int.mul_lt_mul_of_pos_right h hpos)]

/-- **A comparison compares exact values**: whenever `compare_numeric` answers, both
sides have an exact value and it is their order. -/
theorem compareNumeric_eq_some {x y : NumericStatValue} {o : Ordering}
    (h : x.compareNumeric y = some o) :
    ∃ a b, x.exact = some a ∧ y.exact = some b ∧ compare a b = o := by
  cases x <;> cases y <;> simp only [compareNumeric, Option.some.injEq, reduceCtorEq] at h
  case float64.float64 x y =>
    unfold F64.partialCmp at h
    split at h
    · next a b hx hy => exact ⟨a, b, hx, hy, Option.some.inj h⟩
    · cases h
  case uint64.uint64 x y =>
    refine ⟨_, _, rfl, rfl, ?_⟩
    rw [compare_mul_one, ← h]
    rcases lt_trichotomy x y with hlt | rfl | hlt
    · rw [Nat.compare_eq_lt.mpr hlt, Int.compare_eq_lt.mpr (by omega)]
    · simp
    · rw [Nat.compare_eq_gt.mpr hlt, Int.compare_eq_gt.mpr (by omega)]
  all_goals
    refine ⟨_, _, rfl, rfl, ?_⟩
    rw [compare_mul_one, h]

end NumericStatValue

end Cove
