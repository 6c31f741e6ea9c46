import Cove.DataFusion.ExprLowering
import Cove.Lib.ThreeValued

/-!
# What expressions and filters mean

Expressions and filters are evaluated on a row in three-valued logic, and numbers are
compared by value, whatever their types.

- `FilterRow`, `LoweringState.HasRow`: the rows of a table.
- `compareComparands`: the comparison of two values.
- `LowerExpr.eval`, `LoweredFilter.eval`: **the meaning of expressions and of filters**.
-/

namespace Cove

open Ieee754 (binary64 partialCmpValues)
open ThreeValued (Truth)

/-! ## Rows -/

/-- A value of a column. Nested values take no part in comparisons. -/
inductive CellValue where
  | scalar (value : CanonicalValue)
  | nested
  deriving DecidableEq

/-- The cells of a row by column, NULL where there is none. -/
abbrev FilterRow := Nat → Option CellValue

/-- The value is one of the type. -/
def CanonicalValue.HasType (logical : CoveLogicalType) (value : CanonicalValue) : Prop :=
  match logical, value with
  | .bool, .bool _ | .float32, .float32 _ | .float64, .float64 _ | .utf8, .utf8 _
  | .binary, .bytes _ | .uuid, .uuid _ | .json, .json _ => True
  | .int8, .int width v | .int16, .int width v | .int32, .int width v | .int64, .int width v =>
    width = integerWidth logical ∧ -2 ^ (8 * width - 1) ≤ v ∧ v < 2 ^ (8 * width - 1)
  | .uint8, .uint width v | .uint16, .uint width v | .uint32, .uint width v
  | .uint64, .uint width v => width = integerWidth logical ∧ v < 2 ^ (8 * width)
  | .decimal64, .decimal64 v | .timestampMicros, .timestampMicros v
  | .timestampNanos, .timestampNanos v => -2 ^ 63 ≤ v ∧ v < 2 ^ 63
  | .decimal128, .decimal128 v => -2 ^ 127 ≤ v ∧ v < 2 ^ 127
  | .dateDays, .dateDays v => -2 ^ 31 ≤ v ∧ v < 2 ^ 31
  | _, _ => False

def CellValue.HasType (logical : CoveLogicalType) : CellValue → Prop
  | .scalar value => value.HasType logical
  | .nested => logical = .list ∨ logical = .struct ∨ logical = .map

/-- The row is one of the table. -/
def LoweringState.HasRow (state : LoweringState) (row : FilterRow) : Prop :=
  ∀ i column cell, state.columns[i]? = some column → row i = some cell →
    cell.HasType column.entry.logical

/-! ## Comparing values -/

/-- A value as comparisons see it. Numbers are exact, in quanta of binary64, none being a
NaN. -/
inductive Comparand where
  | truth (b : Bool)
  | number (v : Option Int)
  | text (bytes : List UInt8)
  | binary (bytes : List UInt8)
  | uuid (bytes : List UInt8)
  | nested
  deriving DecidableEq, Repr

/-- An integer among the numbers. -/
def Comparand.integer (v : Int) : Comparand := .number (some (v * binary64.one))

def CanonicalValue.comparand : CanonicalValue → Comparand
  | .null => .nested
  | .bool b => .truth b
  | .int _ v => .integer v
  | .uint _ v => .integer v
  | .float32 v => .number v.widen
  | .float64 v => .number v.value
  | .decimal64 v | .decimal128 v | .dateDays v | .timestampMicros v | .timestampNanos v =>
    .integer v
  | .uuid v => .uuid v.val
  | .utf8 s | .json s => .text s.bytes
  | .bytes b => .binary b

def CellValue.comparand : CellValue → Comparand
  | .scalar value => value.comparand
  | .nested => .nested

/-- The value of a literal, none for a NULL. -/
def LowerLiteral.comparand : LowerLiteral → Option Comparand
  | .null => none
  | .boolean b => some (.truth b)
  | .binary bytes => some (.binary bytes)
  | .int128 v | .int64 v => some (.integer v)
  | .uint64 v => some (.integer v)
  | .float64 v => some (.number v.value)
  | .utf8 s => some (.text s.bytes)

def PredicateLiteral.comparand : PredicateLiteral → Comparand
  | .int64 v => .integer v.toInt
  | .uint64 v => .integer v.toNat
  | .float64 v => .number v.value

def compareBytes (a b : List UInt8) : Ordering := if a = b then .eq else if a < b then .lt else .gt

theorem compareBytes_eq {a b : List UInt8} : compareBytes a b = .eq ↔ a = b := by
  unfold compareBytes
  split
  · next h => exact iff_of_true rfl h
  · next h =>
    refine iff_of_false ?_ h
    split <;> decide

/-- The characters of a text. -/
def textOfBytes (bytes : List UInt8) : Text := (TextOps.fromUtf8 bytes).getD []

/-- The integer a text spells. -/
def spelledInteger (bytes : List UInt8) : Option Int :=
  ParseInt.parseSigned (-2 ^ 127) (2 ^ 128 - 1) (textOfBytes bytes)

/-- The UUID a text spells. -/
def spelledUuid (bytes : List UInt8) : Option (List UInt8) :=
  (parseUuidLiteral (textOfBytes bytes)).toOption.map Subtype.val

/-- The comparison of two values. A text beside a number or a UUID is the one it spells. -/
def compareComparands : Comparand → Comparand → Option Ordering
  | .truth a, .truth b => some (compare a b)
  | .number a, .number b => partialCmpValues a b
  | .text a, .text b | .binary a, .binary b | .uuid a, .uuid b | .uuid a, .binary b
  | .binary a, .uuid b => some (compareBytes a b)
  | .number a, .text t =>
    (spelledInteger t).bind fun n => partialCmpValues a (some (n * binary64.one))
  | .text t, .number b =>
    (spelledInteger t).bind fun n => partialCmpValues (some (n * binary64.one)) b
  | .uuid a, .text t => (spelledUuid t).map (compareBytes a)
  | .text t, .uuid b => (spelledUuid t).map fun a => compareBytes a b
  | _, _ => none

/-- A comparison in three-valued logic: unknown when a side is NULL. -/
def compareSql (left : Option Comparand) (op : LowerOperator) (right : Option Comparand) : Truth :=
  match left, right with
  | some left, some right => .ofBool (compareOrdered compareComparands left (numericOp op) right)
  | _, _ => .unknown

/-! ## Expressions -/

/-- The truth of a value. -/
def truthOf : Option Comparand → Truth
  | some (.truth b) => .ofBool b
  | _ => .unknown

/-- The value of a truth. -/
def ofTruth : Truth → Option Comparand
  | .tt => some (.truth true)
  | .ff => some (.truth false)
  | .unknown => none

@[simp] theorem truthOf_ofTruth (t : Truth) : truthOf (ofTruth t) = t := by
  cases t <;> rfl

section

/- What the expressions that are not lowered mean. -/
variable (meaning : Text → FilterRow → Option Comparand)

mutual

/-- The value of an expression on a row, none being NULL. -/
def LowerExpr.eval (state : LoweringState) (row : FilterRow) : LowerExpr → Option Comparand
  | .column name =>
    ((topLevelColumnIndex state (.column name)).bind row).map CellValue.comparand
  | .literal literal => literal.val.comparand
  | .isNull input => some (.truth (input.eval state row).isNone)
  | .isNotNull input => some (.truth (input.eval state row).isSome)
  | .and children => ofTruth (evalAll state row children)
  | .or children => ofTruth (evalAny state row children)
  | .binary left op right =>
    ofTruth (compareSql (left.eval state row) op (right.eval state row))
  | .between expr low high =>
    ofTruth ((compareSql (expr.eval state row) .gtEq (low.eval state row)).and
      (compareSql (expr.eval state row) .ltEq (high.eval state row)))
  | .inList expr list negated =>
    let member := evalMember state row (expr.eval state row) list
    ofTruth (if negated then member.not else member)
  | .unsupported text => meaning text row

/-- All of the expressions are true. -/
def evalAll (state : LoweringState) (row : FilterRow) : List LowerExpr → Truth
  | [] => .tt
  | child :: children => (truthOf (child.eval state row)).and (evalAll state row children)

/-- One of the expressions is true. -/
def evalAny (state : LoweringState) (row : FilterRow) : List LowerExpr → Truth
  | [] => .ff
  | child :: children => (truthOf (child.eval state row)).or (evalAny state row children)

/-- One of the expressions equals the value. -/
def evalMember (state : LoweringState) (row : FilterRow) (value : Option Comparand) :
    List LowerExpr → Truth
  | [] => .ff
  | item :: items =>
    (compareSql value .eq (item.eval state row)).or (evalMember state row value items)

end

example (state : LoweringState) (row : FilterRow) (text : Text) :
    (LowerExpr.unsupported text).eval meaning state row = meaning text row := by
  rw [LowerExpr.eval]

end

/-! ## Filters -/

/-- The canonical payload of a cell. -/
def CellValue.payload : CellValue → Option (List UInt8)
  | .scalar value => value.encode.toOption
  | .nested => none

def CovePredicate.eval (row : FilterRow) : CovePredicate → Truth
  | .null columnIndex .isNull => .ofBool (row columnIndex).isNone
  | .null columnIndex .isNotNull => .ofBool (row columnIndex).isSome
  | .numeric columnIndex op literal =>
    match row columnIndex with
    | none => .unknown
    | some cell => .ofBool (compareOrdered compareComparands cell.comparand op literal.comparand)
  | .fileCodeIn columnIndex _ canonicalValues =>
    match row columnIndex with
    | none => .unknown
    | some cell => .ofBool (canonicalValues.any fun payload => cell.payload == some payload)
  | .varBytesEq columnIndex literal =>
    match row columnIndex with
    | none => .unknown
    | some cell => .ofBool (cell.comparand == .text literal)

mutual

def CovePredicateExpr.eval (row : FilterRow) : CovePredicateExpr → Truth
  | .atom predicate => predicate.eval row
  | .and exprs => evalAllPredicates row exprs
  | .or exprs => evalAnyPredicate row exprs

def evalAllPredicates (row : FilterRow) : List CovePredicateExpr → Truth
  | [] => .tt
  | expr :: exprs => (expr.eval row).and (evalAllPredicates row exprs)

def evalAnyPredicate (row : FilterRow) : List CovePredicateExpr → Truth
  | [] => .ff
  | expr :: exprs => (expr.eval row).or (evalAnyPredicate row exprs)

end

/-- The truth of a filter on a row. -/
def LoweredFilter.eval (row : FilterRow) (filter : LoweredFilter) : Truth :=
  match filter.predicateExpr with
  | some expr => expr.eval row
  | none => .unknown

end Cove
