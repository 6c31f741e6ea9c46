import Cove.Core.Canonical
import Cove.Lib.Ieee754Round
import Cove.Map.Context

/-!
# Join keys

The bytes by which an identity rule recognises an object in a source row: its key
columns, canonicalized and encoded with their roles and types.

- `applyCanonicalization`, `canonicalComponentBytes`: one component.
- `joinKeyTupleFromRule`: the tuple of a rule on a row.
-/

namespace Cove

open Ieee754 (F64 ofJsonNumber)

/-! ## JSON values as typed ones -/

/-- `as_i64`. -/
def JsonNumber.asI64 : JsonNumber → Option Int
  | .posInt v => if v.toNat < 2 ^ 63 then some v.toNat else none
  | .negInt v => some v.toInt
  | .float _ => none

/-- `as_u64`. -/
def JsonNumber.asU64 : JsonNumber → Option Nat
  | .posInt v => some v.toNat
  | _ => none

def parseI64 (text : Text) : Option Int := ParseInt.parseSigned (-2 ^ 63) (2 ^ 63 - 1) text

def parseU64 (text : Text) : Option Nat := ParseInt.parseUnsigned (2 ^ 64 - 1) text

/-- `ok_or`. -/
def okOr (x : Option α) (message : Text) : Except Text α :=
  match x with
  | some a => .ok a
  | none => .error message

theorem okOr_eq_ok {x : Option α} {message : Text} {a : α} :
    okOr x message = .ok a ↔ x = some a := by
  cases x with
  | none => exact ⟨nofun, nofun⟩
  | some b => exact ⟨fun h => congrArg some (Except.ok.inj h), fun h => congrArg _ (Option.some.inj h)⟩

/-- A text quoted inside a message. -/
def quoted (before : String) (text : Text) (after : String) : Text :=
  before.toList ++ text ++ after.toList

/-- `json_i64`. -/
def jsonI64 : Json → Except Text Int
  | .number n => okOr (JsonNumber.asI64 n) "JSON number is not an i64".toList
  | .string text => okOr (parseI64 text) (quoted "'" text "' is not an i64")
  | _ => .error "join key value is not an i64".toList

/-- `json_u64`. -/
def jsonU64 : Json → Except Text Nat
  | .number n => okOr (JsonNumber.asU64 n) "JSON number is not a u64".toList
  | .string text => okOr (parseU64 text) (quoted "'" text "' is not a u64")
  | _ => .error "join key value is not a u64".toList

/-- `json_f64`. -/
def jsonF64 : Json → Except Text F64
  | .number n => .ok (ofJsonNumber n)
  | .string text => okOr (F64.parse text) (quoted "'" text "' is not an f64")
  | _ => .error "join key value is not an f64".toList

/-! ## Canonicalization -/

/-- `string_arg`. -/
def stringArg (value : Json) (functionId : Text) : Except Text Text :=
  match value with
  | .string text => .ok text
  | _ => .error (functionId ++ " requires a string value".toList)

/-- `validate_decimal_text`. -/
def validateDecimalText (text : Text) : Except Text Unit :=
  if text = [] then .error "parse_decimal requires a non-empty decimal string".toList
  else
    let chars := match text with
      | '+' :: chars | '-' :: chars => chars
      | chars => chars
    if chars.any fun c => !(c.isDigit || c == '.') then
      .error "parse_decimal only accepts base-10 decimal text".toList
    else if chars.countP Char.isDigit = 0 ∨ chars.count '.' > 1 then
      .error "parse_decimal only accepts base-10 decimal text".toList
    else .ok ()

/-- `validate_utc_timestamp_text`. -/
def validateUtcTimestampText (text : Text) : Except Text Unit :=
  if ((TextOps.stripSuffix "Z".toList text).isSome ||
      (TextOps.stripSuffix "+00:00".toList text).isSome) && text.contains 'T' then .ok ()
  else .error "parse_timestamp_utc requires an ISO-8601 UTC timestamp".toList

/-- `deterministic_builtin_function_ids`. -/
def deterministicBuiltinFunctionIds : List Text :=
  ["identity".toList, "trim".toList, "ascii_lower".toList, "unicode_nfc".toList,
    "unicode_nfkc".toList, "unicode_casefold".toList, "trim_lower".toList,
    "concat_delimited".toList, "parse_int64".toList, "parse_decimal".toList,
    "parse_timestamp_utc".toList, "sha256_hex".toList]

/-- A canonicalization of strings. -/
def onString (value : Json) (functionId : Text) (f : Text → Text) : Except Text Json := do
  let text ← stringArg value functionId
  .ok (.string (f text))

/-- `apply_canonicalization`. -/
def applyCanonicalization (ext : Externals) (value : Json) (canonicalization : Text)
    (declaredFunctions : List Text) : Except Text Json :=
  let functionId := if canonicalization = "none".toList then "identity".toList
    else canonicalization
  if !(declaredFunctions.any fun f => f == functionId || f == canonicalization) then
    .error (quoted "canonicalization function '" canonicalization
      "' was not declared on the identity rule")
  else if !deterministicBuiltinFunctionIds.contains functionId then
    .error (quoted "canonicalization function '" canonicalization
      "' is not implemented by the deterministic reference runner")
  else if functionId = "identity".toList then .ok value
  else if functionId = "trim".toList then onString value functionId TextOps.trim
  else if functionId = "ascii_lower".toList then onString value functionId TextOps.asciiLower
  else if functionId = "unicode_nfc".toList then onString value functionId ext.unicodeNfc
  else if functionId = "unicode_nfkc".toList then onString value functionId ext.unicodeNfkc
  else if functionId = "unicode_casefold".toList then
    onString value functionId ext.unicodeCasefold
  else if functionId = "trim_lower".toList then
    onString value functionId fun text => TextOps.asciiLower (TextOps.trim text)
  else if functionId = "concat_delimited".toList then
    match value with
    | .array items => do
      let texts ← items.mapM fun item => stringArg item functionId
      .ok (.string (TextOps.join "|".toList texts))
    | _ => .error "concat_delimited requires a JSON array".toList
  else if functionId = "parse_int64".toList then do
    let text ← stringArg value functionId
    let parsed ← okOr (parseI64 (TextOps.trim text))
      "parse_int64 requires a base-10 int64 string".toList
    .ok (.number (if parsed < 0 then .negInt (Int64.ofInt parsed)
      else .posInt (UInt64.ofNat parsed.toNat)))
  else if functionId = "parse_decimal".toList then do
    let text ← stringArg value functionId
    validateDecimalText (TextOps.trim text)
    .ok (.string (TextOps.trim text))
  else if functionId = "parse_timestamp_utc".toList then do
    let text ← stringArg value functionId
    validateUtcTimestampText (TextOps.trim text)
    .ok (.string (TextOps.trim text))
  else onString value functionId fun text => ext.sha256Hex (TextOps.utf8Bytes text)

/-! ## Encoding -/

/-- The message of a failed canonical encoding. -/
def canonicalBytes (value : CanonicalValue) : Except Text (List UInt8) :=
  match value.encode with
  | .ok bytes => .ok bytes
  | .error _ => .error "canonical value out of range".toList

/-- `canonical_component_bytes`. -/
def canonicalComponentBytes (logicalType : Text) (value : Json) : Except Text (List UInt8) :=
  if logicalType = "bool".toList ∨ logicalType = "boolean".toList then
    match value with
    | .bool b => canonicalBytes (.bool b)
    | _ => .error "bool join key value must be JSON bool".toList
  else if logicalType = "int64".toList ∨ logicalType = "int".toList then do
    let v ← jsonI64 value
    canonicalBytes (.int 8 v)
  else if logicalType = "uint64".toList ∨ logicalType = "uint".toList then do
    let v ← jsonU64 value
    canonicalBytes (.uint 8 v)
  else if logicalType = "float64".toList then do
    let v ← jsonF64 value
    canonicalBytes (.float64 v)
  else if logicalType = "utf8".toList ∨ logicalType = "string".toList then
    match value with
    | .string text => .ok (lengthPrefixed (TextOps.utf8Bytes text))
    | _ => .error "utf8 join key value must be JSON string".toList
  else if logicalType = "binary".toList then
    match value with
    | .string text => canonicalBytes (.bytes (TextOps.utf8Bytes text))
    | _ => .error "binary join key value must be encoded as a string".toList
  else .error (quoted "logical type '" logicalType "' is not supported in COVE-MAP join keys")

/-- `append_len_bytes`. -/
def appendLenBytes (out bytes : List UInt8) : List UInt8 :=
  out ++ LittleEndian.toLe 8 bytes.length ++ bytes

/-- `join_key_tuple`: the components with their encoded values. -/
def joinKeyTuple (objectTypeId : Nat) (identityRuleId : Text)
    (components : List (MapJoinKeyComponent × Option (List UInt8))) : List UInt8 :=
  let head := TextOps.utf8Bytes "COVE-MAP-JOIN-KEY-V1".toList ++
    LittleEndian.toLe 4 objectTypeId
  let head := appendLenBytes head (TextOps.utf8Bytes identityRuleId) ++
    LittleEndian.toLe 4 components.length
  components.foldl (fun out (component, value) =>
    let out := appendLenBytes out (TextOps.utf8Bytes component.roleId)
    let out := appendLenBytes out (TextOps.utf8Bytes component.logicalType)
    match value with
    | none => out ++ [0]
    | some bytes => appendLenBytes (out ++ [1]) bytes) head

/-- The encoded value of a component on a row. -/
def componentValue (ext : Externals) (rule : MapIdentityRule) (row : SourceRow)
    (component : MapJoinKeyComponent) :
    Except Text (MapJoinKeyComponent × Option (List UInt8)) :=
  match row.nonNull component.sourceColumn with
  | none =>
    let policy := component.nullPolicy
    if policy = "reject".toList ∨ policy = "reject-null".toList ∨
        policy = "all_components_required".toList then
      .error (quoted "identity rule '" rule.ruleId.val
        "' rejected null/missing source column '" ++ component.sourceColumn ++ "'".toList)
    else .ok (component, none)
  | some rawValue => do
    let value ← applyCanonicalization ext rawValue component.canonicalization rule.functionIds
    let bytes ← canonicalComponentBytes component.logicalType value
    .ok (component, some bytes)

/-- `join_key_tuple_from_rule`. -/
def joinKeyTupleFromRule (ext : Externals) (rule : MapIdentityRule) (row : SourceRow)
    (objectTypeId : Nat) : Except Text (List UInt8) := do
  let components ← rule.joinKeys.mapM (componentValue ext rule row)
  .ok (joinKeyTuple objectTypeId rule.ruleId.val components)

end Cove
