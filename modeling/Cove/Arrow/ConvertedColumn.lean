import Cove.Core.Array
import Cove.Core.NumCode
import Cove.Lib.StableSort

/-!
# Converted columns

The converter keeps a column as one list of stored values and one of null flags, or as a tree of
them when it is nested. Rows are compared in their stored form.

- `MaterializedValues`, `NestedColumn`, `ConvertedColumn`.
- `compareRowsForCluster`: two rows of a column, NULL first.
- `logicalCmp`: two values in the order of their logical type.
- `compareRows_eq`: **rows are compared in the logical order**, decimals apart.
-/

namespace Cove.Conversion

open Ieee754 (binary32 binary64)

/-! ## Values -/

inductive SourceColumnKind where
  | boolean
  | int8
  | int16
  | int32
  | int64
  | uint8
  | uint16
  | uint32
  | uint64
  | float32
  | float64
  | date32
  | timestampSecond
  | timestampMillisecond
  | timestampMicrosecond
  | timestampNanosecond
  | utf8
  | largeUtf8
  | binary
  | largeBinary
  | decimal128
  | list
  | largeList
  | fixedSizeList
  | struct
  | map
  | nestedJson
  deriving DecidableEq, Repr

inductive MaterializedValues where
  | boolean (values : List UInt8)
  | fileCode (values : List Nat)
  | numCode (values : List (BitVec 64))
  | varBytes (values : List (List UInt8))
  | fixedBytes (width : Nat) (values : List (List UInt8))
  deriving DecidableEq, Repr

/-- One stored value. -/
inductive StoredScalar where
  | boolean (value : UInt8)
  | fileCode (code : Nat)
  | numCode (code : BitVec 64)
  | bytes (bytes : List UInt8)
  deriving DecidableEq, Repr

namespace MaterializedValues

def rowCount : MaterializedValues → Nat
  | boolean values => values.length
  | fileCode values => values.length
  | numCode values => values.length
  | varBytes values => values.length
  | fixedBytes _ values => values.length

/-- The stored value of a row. The row is one of the values. -/
def valueAt : MaterializedValues → Nat → StoredScalar
  | boolean values, row => .boolean (values.getD row 0)
  | fileCode values, row => .fileCode (values.getD row 0)
  | numCode values, row => .numCode (values.getD row 0)
  | varBytes values, row => .bytes (values.getD row [])
  | fixedBytes _ values, row => .bytes (values.getD row [])

end MaterializedValues

/-- `NestedColumnData`, with its `NestedValues`. A row of a list or a map is the child rows from its
offset to the next. -/
inductive NestedColumn where
  | scalar (values : MaterializedValues) (nulls : List Bool)
  | list (offsets : List Nat) (child : NestedColumn) (nulls : List Bool)
  | struct (fields : List NestedColumn) (nulls : List Bool)
  | map (offsets : List Nat) (keys values : NestedColumn) (canonicalKeys : List (List UInt8))
      (nulls : List Bool)
  deriving Repr

def NestedColumn.nulls : NestedColumn → List Bool
  | scalar _ nulls => nulls
  | list _ _ nulls => nulls
  | struct _ nulls => nulls
  | map _ _ _ _ nulls => nulls

/-- A converted column. Its values and flags are empty when it is nested. -/
structure ConvertedColumn where
  columnId : Nat
  name : String
  logical : CoveLogicalType
  sourceKind : SourceColumnKind
  values : MaterializedValues
  nested : Option NestedColumn
  nulls : List Bool
  deriving Repr

namespace ConvertedColumn

def isNull (self : ConvertedColumn) (row : Nat) : Bool :=
  match self.nested with
  | some nested => nested.nulls.getD row false
  | none => self.nulls.getD row false

def rowCount (self : ConvertedColumn) : Nat :=
  match self.nested with
  | some nested => nested.nulls.length
  | none => self.values.rowCount

end ConvertedColumn

/-! ## Comparison in stored form -/

/-- `signed_numcode`. -/
def signedNumcode (logical : CoveLogicalType) (value : BitVec 64) : Int :=
  match logical with
  | .int8 => numcodeAsI8 value
  | .int16 => numcodeAsI16 value
  | .int32 => numcodeAsI32 value
  | .int64 => numcodeAsI64 value
  | _ => value.toInt

/-- `compare_numcode_rows`. -/
def compareNumcodeRows (sourceKind : SourceColumnKind) (logical : CoveLogicalType)
    (left right : BitVec 64) : Ordering :=
  match logical with
  | .int8 | .int16 | .int32 | .int64 =>
    compare (signedNumcode logical left) (signedNumcode logical right)
  | .float32 =>
    if sourceKind = .float32 then
      binary32.totalCmp (left.setWidth 32).toNat (right.setWidth 32).toNat
    else compare left.toNat right.toNat
  | .float64 => binary64.totalCmp left.toNat right.toNat
  | .dateDays => compare (numcodeAsDateDays left) (numcodeAsDateDays right)
  | .timestampMicros | .timestampNanos => compare left.toInt right.toInt
  | _ => compare left.toNat right.toNat

/-- The order of two stored values of a column. -/
def compareStored (self : ConvertedColumn) (left right : StoredScalar) : Ordering :=
  match left, right with
  | .boolean a, .boolean b => compare a.toNat b.toNat
  | .fileCode a, .fileCode b => compare a b
  | .numCode a, .numCode b => compareNumcodeRows self.sourceKind self.logical a b
  | .bytes a, .bytes b => compareOfLessAndEq a b
  | _, _ => .eq

/-- `compare_rows_for_cluster`. The rows are rows of the column. -/
def compareRowsForCluster (self : ConvertedColumn) (left right : Nat) : Ordering :=
  if self.nested.isSome then compare left right
  else StableSort.nullsFirst self.isNull
    (fun left right => compareStored self (self.values.valueAt left) (self.values.valueAt right))
    left right

/-! ## The logical order -/

/-- Two values in the order of their logical type: numbers by value, floating-point data of one value
or none in the total order, decimals as signed numbers, other bytes in dictionary order. -/
def logicalCmp (logical : CoveLogicalType) : StoredScalar → StoredScalar → Ordering
  | .boolean a, .boolean b => compare a.toNat b.toNat
  | .numCode a, .numCode b =>
    match logical with
    | .float32 => binary32.valueCmp (numcodeAsF32 a).bits.toNat (numcodeAsF32 b).bits.toNat
    | .float64 => binary64.valueCmp (numcodeAsF64 a).bits.toNat (numcodeAsF64 b).bits.toNat
    | logical =>
      match logicalValue logical a, logicalValue logical b with
      | some (.int x), some (.int y) => compare x y
      | _, _ => .eq
  | .bytes a, .bytes b =>
    if logical = .decimal128 then
      compare (LittleEndian.signed 16 (LittleEndian.ofLe a))
        (LittleEndian.signed 16 (LittleEndian.ofLe b))
    else compareOfLessAndEq a b
  | _, _ => .eq

/-- Two rows in the logical order of their column, NULL first. A nested column has no order: its
rows stand as they come. -/
def logicalCompareRows (self : ConvertedColumn) (left right : Nat) : Ordering :=
  if self.nested.isSome then compare left right
  else StableSort.nullsFirst self.isNull
    (fun left right =>
      logicalCmp self.logical (self.values.valueAt left) (self.values.valueAt right))
    left right

/-- The values are of the form that the converter produces for the type of the column: unsigned codes
fit their type, and dictionary codes come later. -/
def Produced (self : ConvertedColumn) : Prop :=
  match self.values with
  | .boolean _ => self.logical = .bool
  | .fileCode _ => False
  | .numCode codes =>
    match self.logical with
    | .uint8 => ∀ code ∈ codes, code.toNat < 2 ^ 8
    | .uint16 => ∀ code ∈ codes, code.toNat < 2 ^ 16
    | .uint32 => ∀ code ∈ codes, code.toNat < 2 ^ 32
    | .float32 => self.sourceKind = .float32
    | .uint64 | .int8 | .int16 | .int32 | .int64 | .float64 | .dateDays | .timestampMicros
    | .timestampNanos => True
    | _ => False
  | .varBytes _ => self.logical = .utf8 ∨ self.logical = .binary ∨ self.logical = .json
  | .fixedBytes _ values => self.logical = .decimal128 ∧ ∀ value ∈ values, value.length = 16

variable {self : ConvertedColumn}

theorem toNat_low_of_lt {code : BitVec 64} {w : Nat} (hw : w ≤ 64) (h : code.toNat < 2 ^ w) :
    (((code &&& BitVec.ofNat 64 (2 ^ w - 1)).setWidth w).toNat : Int) = code.toNat :=
  (toNat_low_eq_iff code hw).mpr h

theorem compare_natCast (m n : Nat) : compare (m : Int) (n : Int) = compare m n := by
  rcases Nat.lt_trichotomy m n with h | h | h
  · rw [compare_lt_iff_lt.mpr h, compare_lt_iff_lt.mpr (by omega)]
  · rw [compare_eq_iff_eq.mpr h, compare_eq_iff_eq.mpr (by omega)]
  · rw [compare_gt_iff_gt.mpr h, compare_gt_iff_gt.mpr (by omega)]

theorem toNat_float32 (code : BitVec 64) :
    (numcodeAsF32 code).bits.toNat = (code.setWidth 32).toNat := by
  show ((code &&& BitVec.ofNat 64 (2 ^ 32 - 1)).setWidth 32).toNat = _
  rw [toNat_low code (by decide), BitVec.toNat_setWidth]

theorem getD_of_forall {α : Type} {P : α → Prop} {l : List α} {d : α} (h : ∀ a ∈ l, P a) (hd : P d)
    (i : Nat) : P (l.getD i d) := by
  rw [List.getD_eq_getElem?_getD]
  cases hi : l[i]? with
  | none => exact hd
  | some a => exact h a (List.mem_of_getElem? hi)

/-- Codes of a produced column are compared by what they mean. -/
theorem compareNumcodeRows_eq {codes : List (BitVec 64)} (h : Produced self)
    (hvalues : self.values = .numCode codes) (i j : Nat) :
    compareNumcodeRows self.sourceKind self.logical (codes.getD i 0) (codes.getD j 0) =
      logicalCmp self.logical (.numCode (codes.getD i 0)) (.numCode (codes.getD j 0)) := by
  unfold Produced at h
  rw [hvalues] at h
  have hunsigned : ∀ {w : Nat}, w ≤ 64 → (∀ code ∈ codes, code.toNat < 2 ^ w) →
      compare (codes.getD i 0).toNat (codes.getD j 0).toNat =
        compare ((((codes.getD i 0 &&& BitVec.ofNat 64 (2 ^ w - 1)).setWidth w).toNat : Nat) : Int)
          ((((codes.getD j 0 &&& BitVec.ofNat 64 (2 ^ w - 1)).setWidth w).toNat : Nat) : Int) := by
    intro w hw hcodes
    have hzero : (0 : BitVec 64).toNat < 2 ^ w := Nat.two_pow_pos w
    rw [toNat_low_of_lt hw (getD_of_forall hcodes hzero i),
      toNat_low_of_lt hw (getD_of_forall hcodes hzero j), compare_natCast]
  cases hlogical : self.logical <;> simp only [hlogical] at h
  case uint8 => exact hunsigned (show 8 ≤ 64 by decide) h
  case uint16 => exact hunsigned (show 16 ≤ 64 by decide) h
  case uint32 => exact hunsigned (show 32 ≤ 64 by decide) h
  case uint64 => exact (compare_natCast _ _).symm
  case float32 =>
    simp only [compareNumcodeRows, logicalCmp, h, if_true, toNat_float32,
      Ieee754.Format.totalCmp_eq_valueCmp]
  case float64 => exact Ieee754.Format.totalCmp_eq_valueCmp _ _ _
  all_goals rfl

/-- **Stored values are compared in the logical order**, unless they are decimals. -/
theorem compareStored_eq (h : Produced self) (hdecimal : self.logical ≠ .decimal128) (i j : Nat) :
    compareStored self (self.values.valueAt i) (self.values.valueAt j) =
      logicalCmp self.logical (self.values.valueAt i) (self.values.valueAt j) := by
  cases hvalues : self.values with
  | boolean values => rfl
  | numCode codes => exact compareNumcodeRows_eq h hvalues i j
  | varBytes values => exact (if_neg hdecimal).symm
  | fileCode values =>
    unfold Produced at h
    rw [hvalues] at h
    exact h.elim
  | fixedBytes width values =>
    unfold Produced at h
    rw [hvalues] at h
    exact absurd h.1 hdecimal

/-- **Rows are compared in the logical order**, unless they hold decimals. -/
theorem compareRows_eq (h : self.nested = none → Produced self)
    (hdecimal : self.logical ≠ .decimal128) :
    compareRowsForCluster self = logicalCompareRows self := by
  funext i j
  unfold compareRowsForCluster logicalCompareRows
  cases hnested : self.nested with
  | some nested => rfl
  | none => simp only [compareStored_eq (h hnested) hdecimal]

theorem transCmp_bytes (key : Nat → List UInt8) :
    Std.TransCmp fun i j => compareOfLessAndEq (key i) (key j) := by
  have h := StableSort.transCmp_key key
  simp only [LinearOrder.compare_eq_compareOfLessAndEq] at h
  convert h
  rfl

theorem transCmp_numcode (sourceKind : SourceColumnKind) (logical : CoveLogicalType)
    (code : Nat → BitVec 64) :
    Std.TransCmp fun i j => compareNumcodeRows sourceKind logical (code i) (code j) := by
  have hraw : Std.TransCmp fun i j => compare (code i).toNat (code j).toNat :=
    StableSort.transCmp_key fun i => (code i).toNat
  have hsigned : Std.TransCmp fun i j =>
      compare (signedNumcode logical (code i)) (signedNumcode logical (code j)) :=
    StableSort.transCmp_key fun i => signedNumcode logical (code i)
  cases logical
  case int8 | int16 | int32 | int64 => exact hsigned
  case float32 =>
    unfold compareNumcodeRows
    dsimp only
    split
    · exact StableSort.transCmp_key fun i => binary32.totalKey ((code i).setWidth 32).toNat
    · exact hraw
  case float64 => exact StableSort.transCmp_key fun i => binary64.totalKey (code i).toNat
  case dateDays => exact StableSort.transCmp_key fun i => numcodeAsDateDays (code i)
  case timestampMicros | timestampNanos => exact StableSort.transCmp_key fun i => (code i).toInt
  all_goals exact hraw

/-- The comparison of rows is a total order up to rows alike. -/
theorem transCmp_compareRows (self : ConvertedColumn) :
    Std.TransCmp (compareRowsForCluster self) := by
  have hnat : Std.TransCmp (compare : Nat → Nat → Ordering) := inferInstance
  unfold compareRowsForCluster
  cases self.nested with
  | some nested => exact hnat
  | none =>
    refine StableSort.transCmp_nullsFirst _ ?_
    cases hvalues : self.values with
    | boolean values => exact StableSort.transCmp_key fun i => (values.getD i 0).toNat
    | fileCode values => exact StableSort.transCmp_key fun i => values.getD i 0
    | varBytes values => exact transCmp_bytes fun i => values.getD i []
    | fixedBytes width values => exact transCmp_bytes fun i => values.getD i []
    | numCode codes => exact transCmp_numcode _ _ fun i => codes.getD i 0

end Cove.Conversion
