import Cove.Core.Dictionary
import Cove.DataFusion.Plan
import Cove.Lib.Ieee754Round

/-!
# Lowering literals on file code columns

A literal compared with a dictionary-coded column is lowered to the canonical payload it has
as a value of the column's type, and looked up in the dictionary of each file.

- `LowerLiteral`, `literalValue`, `canonicalLiteral`.
- `fileCodeInFilter`: the membership filter of a list of literals.
- `resolvedCodes`: the codes of the filter in a file.
-/

namespace Cove

open Ieee754 (F32 F64)

/-- A literal of the query. -/
inductive LowerLiteral where
  | null
  | boolean (b : Bool)
  | binary (bytes : List UInt8)
  | int128 (v : Int)
  | int64 (v : Int)
  | uint64 (v : Nat)
  | float64 (v : F64)
  | utf8 (s : Str)
  deriving DecidableEq

/-- The characters of a string. -/
def Str.text (s : Str) : Text := (TextOps.fromUtf8 s.bytes).getD []

/-- The name of a logical type in messages. -/
def CoveLogicalType.debugName : CoveLogicalType → String
  | null => "Null"
  | bool => "Bool"
  | int8 => "Int8"
  | int16 => "Int16"
  | int32 => "Int32"
  | int64 => "Int64"
  | uint8 => "UInt8"
  | uint16 => "UInt16"
  | uint32 => "UInt32"
  | uint64 => "UInt64"
  | float32 => "Float32"
  | float64 => "Float64"
  | decimal64 => "Decimal64"
  | decimal128 => "Decimal128"
  | dateDays => "DateDays"
  | timestampMicros => "TimestampMicros"
  | timestampNanos => "TimestampNanos"
  | utf8 => "Utf8"
  | binary => "Binary"
  | uuid => "Uuid"
  | json => "Json"
  | list => "List"
  | struct => "Struct"
  | map => "Map"

def unsupportedEncoding {α : Type} (message : String) : Except CoveError α :=
  .error (.unsupportedEncoding message)

/-- `signed_literal`. -/
def signedLiteral : LowerLiteral → Except CoveError Int
  | .int128 v | .int64 v => .ok v
  | .uint64 v => .ok v
  | .utf8 s =>
    match ParseInt.parseSigned (-2 ^ 127) (2 ^ 127 - 1) s.text with
    | some v => .ok v
    | none => unsupportedEncoding "literal cannot be parsed as signed integer"
  | _ => unsupportedEncoding "literal is not a signed integer"

/-- `unsigned_literal`. -/
def unsignedLiteral : LowerLiteral → Except CoveError Nat
  | .int128 v | .int64 v =>
    if v < 0 then unsupportedEncoding "negative literal for unsigned type" else .ok v.toNat
  | .uint64 v => .ok v
  | .utf8 s =>
    match ParseInt.parseUnsigned (2 ^ 128 - 1) s.text with
    | some v => .ok v
    | none => unsupportedEncoding "literal cannot be parsed as unsigned integer"
  | _ => unsupportedEncoding "literal is not an unsigned integer"

/-- `hex_nibble` of the literals. -/
def literalHexNibble (byte : UInt8) : Except CoveError Nat :=
  let b := byte.toNat
  if 48 ≤ b ∧ b ≤ 57 then .ok (b - 48)
  else if 97 ≤ b ∧ b ≤ 102 then .ok (b - 97 + 10)
  else if 65 ≤ b ∧ b ≤ 70 then .ok (b - 65 + 10)
  else unsupportedEncoding "uuid literal contains invalid hex"

/-- The bytes of pairs of hexadecimal digits. -/
def hexDigitBytes : List UInt8 → Except CoveError (List UInt8)
  | high :: low :: rest => do
    let high ← literalHexNibble high
    let low ← literalHexNibble low
    .ok (UInt8.ofNat (high * 16 + low) :: (← hexDigitBytes rest))
  | _ => .ok []

theorem length_hexDigitBytes {digits out : List UInt8} (h : hexDigitBytes digits = .ok out) :
    out.length = digits.length / 2 := by
  induction digits using hexDigitBytes.induct generalizing out with
  | case1 high low rest ih =>
    rw [hexDigitBytes] at h
    obtain ⟨_, _, h⟩ := Checked.bind_eq_ok.mp h
    obtain ⟨_, _, h⟩ := Checked.bind_eq_ok.mp h
    obtain ⟨bytes, hbytes, h⟩ := Checked.bind_eq_ok.mp h
    obtain rfl := Except.ok.inj h
    simp only [List.length_cons, ih hbytes]
    omega
  | case2 digits hshort =>
    rw [hexDigitBytes] at h
    · obtain rfl := Except.ok.inj h
      match digits, hshort with
      | [], _ => rfl
      | [_], _ => simp
      | a :: b :: rest, hshort => exact absurd rfl (hshort a b rest)
    · exact hshort

/-- `parse_uuid_literal`: 32 hexadecimal digits, dashes and outer blanks ignored. -/
def parseUuidLiteral (value : Text) : Except CoveError Uuid :=
  let compact := TextOps.utf8Bytes ((TextOps.trim value).filter fun c => c ≠ '-')
  if hlen : compact.length ≠ 32 then
    unsupportedEncoding "uuid literal must contain 32 hex characters"
  else
    match h : hexDigitBytes compact with
    | .error e => .error e
    | .ok bytes => .ok ⟨bytes, by rw [length_hexDigitBytes h, not_not.mp hlen]⟩

/-- `integer_width`. -/
def integerWidth : CoveLogicalType → Nat
  | .int8 | .uint8 => 1
  | .int16 | .uint16 => 2
  | .int32 | .uint32 => 4
  | _ => 8

/-- `i64::try_from` and its siblings, with the message of the literal. -/
def literalInRange (min max value : Int) (message : String) : Except CoveError Int :=
  if min ≤ value ∧ value ≤ max then .ok value else unsupportedEncoding message

/-- The value of a literal in a column of a type, as `canonical_literal` has it. A null has
none, and a literal the type does not take is an error. -/
def literalValue (logical : CoveLogicalType) (literal : LowerLiteral) :
    Except CoveError (Option CanonicalValue) :=
  match logical, literal with
  | _, .null => .ok none
  | .utf8, .utf8 s => .ok (some (.utf8 s))
  | .binary, .binary bytes => .ok (some (.bytes bytes))
  | .json, .utf8 s => .ok (some (.json s))
  | .uuid, .utf8 s => do .ok (some (.uuid (← parseUuidLiteral s.text)))
  | .uuid, .binary bytes =>
    if h : bytes.length = 16 then .ok (some (.uuid ⟨bytes, h⟩))
    else unsupportedEncoding s!"unsupported FileCode literal for {logical.debugName}"
  | .bool, .boolean b => .ok (some (.bool b))
  | .int8, literal | .int16, literal | .int32, literal | .int64, literal => do
    .ok (some (.int (integerWidth logical) (← signedLiteral literal)))
  | .uint8, literal | .uint16, literal | .uint32, literal | .uint64, literal => do
    .ok (some (.uint (integerWidth logical) (← unsignedLiteral literal)))
  | .float32, .float64 v => .ok (some (.float32 v.toF32))
  | .float64, .float64 v => .ok (some (.float64 v))
  | .decimal64, literal => do
    .ok (some (.decimal64 (← literalInRange (-2 ^ 63) (2 ^ 63 - 1) (← signedLiteral literal)
      "decimal64 literal out of range")))
  | .decimal128, literal => do .ok (some (.decimal128 (← signedLiteral literal)))
  | .dateDays, literal => do
    .ok (some (.dateDays (← literalInRange (-2 ^ 31) (2 ^ 31 - 1) (← signedLiteral literal)
      "date_days literal out of range")))
  | .timestampMicros, literal => do
    .ok (some (.timestampMicros (← literalInRange (-2 ^ 63) (2 ^ 63 - 1)
      (← signedLiteral literal) "timestamp_micros literal out of range")))
  | .timestampNanos, literal => do
    .ok (some (.timestampNanos (← literalInRange (-2 ^ 63) (2 ^ 63 - 1)
      (← signedLiteral literal) "timestamp_nanos literal out of range")))
  | _, _ => unsupportedEncoding s!"unsupported FileCode literal for {logical.debugName}"

/-- `canonical_literal`: the payload of the value. -/
def canonicalLiteral (logical : CoveLogicalType) (literal : LowerLiteral) :
    Except CoveError (Option (List UInt8)) := do
  match ← literalValue logical literal with
  | none => .ok none
  | some value => do .ok (some (← value.encode))

/-! ## Filters -/

/-- The payloads of the literals that have one. -/
def canonicalLiterals (logical : CoveLogicalType) :
    List LowerLiteral → Except CoveError (List (List UInt8))
  | [] => .ok []
  | literal :: literals => do
    match ← canonicalLiteral logical literal with
    | none => canonicalLiterals logical literals
    | some canonical => do .ok (canonical :: (← canonicalLiterals logical literals))

/-- `FilterPlan::pruning_file_code_in_with_canonical`, its predicate. -/
def pruningFileCodeInWithCanonical (columnIndex : Nat) (fileCodes : List Nat)
    (canonicalValues : List (List UInt8)) : CovePredicate :=
  .fileCodeIn columnIndex (.ofList fileCodes)
    (canonicalValues.insertionSort (· ≤ ·)).dedup

/-- `classify_in_list_filter` on a column and literals, which is also how
`classify_column_literal` lowers an equality. None is a filter that is not lowered. -/
def fileCodeInFilter (columnIndex : Nat) (column : ColumnEntry) (literals : List LowerLiteral) :
    Option CovePredicate :=
  if column.physical ≠ .fileCode then none
  else
    match canonicalLiterals column.logical literals with
    | .ok canonicalValues => some (pruningFileCodeInWithCanonical columnIndex [] canonicalValues)
    | .error _ => none

/-! ## Codes -/

/-- `file_code_for_canonical`. -/
def fileCodeForCanonical (reverseLookup : Option ReverseLookup) (canonical : List UInt8) :
    Option Nat :=
  reverseLookup.bind fun lookup => AssocMap.get canonical lookup.byCanonicalValue

/-- `resolve_file_code_predicate_for_file`, for a file its execution code policy admits. -/
def resolveFileCodePredicateForFile (reverseLookup : Option ReverseLookup)
    (canonicalValues : List (List UInt8)) : FileCodes :=
  .ofList (canonicalValues.filterMap (fileCodeForCanonical reverseLookup))

/-- `resolved_plan_for_file` on one predicate. -/
def resolvePredicate (reverseLookup : Option ReverseLookup) : CovePredicate → CovePredicate
  | .fileCodeIn columnIndex fileCodes canonicalValues =>
    if canonicalValues.isEmpty then .fileCodeIn columnIndex fileCodes canonicalValues
    else
      .fileCodeIn columnIndex (resolveFileCodePredicateForFile reverseLookup canonicalValues)
        canonicalValues
  | predicate => predicate

/-- The codes of a membership filter. -/
def CovePredicate.fileCodes : CovePredicate → List Nat
  | .fileCodeIn _ fileCodes _ => fileCodes.codes
  | _ => []

end Cove
