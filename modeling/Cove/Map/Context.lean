import Cove.Lib.Digests
import Cove.Map.Catalog
import Cove.ObjectTemporal.Record

/-!
# Mapping context

The rules of a mapping gathered from its sections, the source rows it converts, and the
object types its rules produce.

- `Externals`: the digest, normalizers and JSON writer of other packages.
- `MappingContext`, `mappingContext`.
- `SourceRow`, `ObjectTypeEntryV1`, `objectTypesFromMapping`.
-/

namespace Cove

/-! ## Digests -/

/-- What a conversion takes from other packages. -/
structure Externals where
  sha256 : List UInt8 → Fin (2 ^ 256)
  jsonText : Json → Text
  unicodeNfc : Text → Text
  unicodeNfkc : Text → Text
  unicodeCasefold : Text → Text

mutual

/-- The text of a value on one line, for values that spell nothing with an escape and hold
no fractions. -/
def compactText : Json → Text
  | .null => "null".toList
  | .bool b => if b then "true".toList else "false".toList
  | .number (.posInt v) => TextOps.natText v.toNat
  | .number (.negInt v) => TextOps.intText v.toInt
  | .number (.float _) => []
  | .string s => '\x22' :: s ++ ['\x22']
  | .array items => '[' :: TextOps.join ",".toList (compactItems items) ++ [']']
  | .object members => '\x7b' :: TextOps.join ",".toList (compactMembers members) ++ ['\x7d']

def compactItems : List Json → List Text
  | [] => []
  | v :: items => compactText v :: compactItems items

def compactMembers : List (Text × Json) → List Text
  | [] => []
  | (key, v) :: members =>
    ('\x22' :: key ++ "\x22:".toList ++ compactText v) :: compactMembers members

end

/-- SHA-256, and the other packages on ASCII texts that their normal forms leave alone. -/
def Externals.ascii : Externals := ⟨Sha256.digest, compactText, id, id, TextOps.asciiLower⟩

/-- `sha256_hex`. -/
def Externals.sha256Hex (ext : Externals) (bytes : List UInt8) : Text :=
  TextOps.hexText 64 (ext.sha256 bytes).val

/-- `first_16`. -/
def first16 (digest : Fin (2 ^ 256)) : Id16 := Fin.ofNat _ (digest.val / 2 ^ 128)

/-- `hex_encode` of 16 bytes. -/
def hexEncode (id : Id16) : Text := TextOps.hexText 32 id.val

/-- `stable_u32`: the first four bytes of the digest, little-endian. -/
def Externals.stableU32 (ext : Externals) (text : Text) (fallback : Nat) : Nat :=
  let v := (ext.sha256 (TextOps.utf8Bytes text)).val / 2 ^ 224
  let value := v / 2 ^ 24 + v / 2 ^ 16 % 2 ^ 8 * 2 ^ 8 + v / 2 ^ 8 % 2 ^ 8 * 2 ^ 16 +
    v % 2 ^ 8 * 2 ^ 24
  if value = 0 then fallback else value

/-! ## Source rows -/

structure SourceRow where
  sourceId : Text
  rowIndex : Nat
  values : List (Text × Json)

/-- The value of a column that is present and not null. -/
def SourceRow.nonNull (row : SourceRow) (column : Text) : Option Json :=
  (AssocMap.get column row.values).filter fun value => !value.isNull

structure ObservedSourceState where
  sourceId : Text
  sourceKind : Text
  schemaFingerprint : Text
  snapshotDigest : Text

/-- `row_digest`. -/
def rowDigest (ext : Externals) (row : SourceRow) : Text :=
  ext.sha256Hex (TextOps.utf8Bytes (ext.jsonText (.object row.values)))

/-- `logical_type_name`. -/
def logicalTypeName : Json → Text
  | .null => "null".toList
  | .bool _ => "bool".toList
  | .number (.posInt v) => if v.toNat < 2 ^ 63 then "int64".toList else "uint64".toList
  | .number (.negInt _) => "int64".toList
  | .number (.float _) => "float64".toList
  | .string _ => "utf8".toList
  | .array _ => "list".toList
  | .object _ => "struct".toList

/-- `schema_fingerprint`. -/
def schemaFingerprint (ext : Externals) (row : SourceRow) : Text :=
  let fields := row.values.map fun (key, value) => key ++ ":".toList ++ logicalTypeName value
  ext.sha256Hex (TextOps.utf8Bytes (TextOps.join "|".toList fields))

/-! ## The context -/

/-- A mapping file, its sections parsed. -/
structure CovemapFile where
  mappingId : List UInt8
  mappingVersion : Text
  sections : List EmbeddedMapSection

structure MappingContext where
  identityRules : List (Text × MapIdentityRule)
  identityRuleOrder : List (Text × Nat)
  sourceOrder : List (Text × Nat)
  sources : List (Text × MapSourceEntry)
  governanceReconciliationPolicy : Text
  rowRules : List MapRowSemanticRule
  doNotMerge : List (Text × Text)

namespace MappingContext

def emitEffectivePolicy : Text := "emit_effective_policy".toList

def empty : MappingContext := ⟨[], [], [], [], emitEffectivePolicy, [], []⟩

def addSource (context : MappingContext) (source : MapSourceEntry) :
    Except Text MappingContext :=
  let id := source.sourceId.val
  if (AssocMap.get id context.sourceOrder).isSome then .error "duplicate source entry".toList
  else .ok { context with
    sourceOrder := AssocMap.insert id context.sourceOrder.length context.sourceOrder
    sources := AssocMap.insert id source context.sources }

def addIdentityRule (context : MappingContext) (rule : MapIdentityRule) :
    Except Text MappingContext :=
  let id := rule.ruleId.val
  if (AssocMap.get id context.identityRuleOrder).isSome then
    .error "duplicate identity rule".toList
  else .ok { context with
    identityRuleOrder := AssocMap.insert id context.identityRuleOrder.length
      context.identityRuleOrder
    identityRules := AssocMap.insert id rule context.identityRules }

/-- The constraint with its sides in order. -/
def orderedConstraint (c : MapDoNotMergeConstraint) : Text × Text :=
  if c.leftIdentity ≤ c.rightIdentity then (c.leftIdentity, c.rightIdentity)
  else (c.rightIdentity, c.leftIdentity)

/-- The body of the loop over the sections. -/
def addSection (context : MappingContext) : EmbeddedMapBody → Except Text MappingContext
  | .sourceCatalog policy sources =>
    if context.governanceReconciliationPolicy ≠ emitEffectivePolicy ∧
        context.governanceReconciliationPolicy ≠ policy then
      .error "conflicting governance reconciliation policies".toList
    else
      sources.foldlM addSource { context with governanceReconciliationPolicy := policy }
  | .identityRuleCatalog rules constraints => do
    let context ← rules.foldlM addIdentityRule context
    .ok { context with doNotMerge := context.doNotMerge ++ constraints.map orderedConstraint }
  | .rowSemanticsCatalog rules => .ok { context with rowRules := context.rowRules ++ rules }
  | _ => .ok context

end MappingContext

/-- `mapping_context`. -/
def mappingContext (file : CovemapFile) : Except Text MappingContext := do
  let context ← (file.sections.map EmbeddedMapSection.body).foldlM MappingContext.addSection
    MappingContext.empty
  if context.identityRules.isEmpty || context.rowRules.isEmpty then
    .error "mapping must declare identity rules and row semantic rules".toList
  else .ok context

/-- `mapping_identity`. -/
def mappingIdentity (file : CovemapFile) : Except Text (Name × Name) :=
  match file.sections with
  | [] => .error "mapping contains no embedded sections".toList
  | first :: _ => .ok (first.mappingId, first.mappingVersion)

/-- The position of a source among the declared ones; `usize::MAX` for an undeclared one. -/
def MappingContext.sourceOrderOf (context : MappingContext) (sourceId : Text) : Nat :=
  (AssocMap.get sourceId context.sourceOrder).getD (2 ^ 64 - 1)

/-! ## Object types -/

structure PropertyEntryV1 where
  propertyId : Nat
  propertyName : Text
  logicalType : CoveLogicalType
  physicalKind : CovePhysicalKind
  nullable : Bool
  collationId : Nat
  flags : Nat
  deriving DecidableEq

structure ObjectTypeEntryV1 where
  objectTypeId : Nat
  typeName : Text
  flags : Nat
  properties : List PropertyEntryV1
  deriving DecidableEq

/-- `logical_type_from_name`. -/
def logicalTypeFromName (name : Text) : Except Text CoveLogicalType :=
  let names : List (List Text × CoveLogicalType) := [
    (["null".toList], .null),
    (["bool".toList, "boolean".toList], .bool),
    (["int8".toList], .int8),
    (["int16".toList], .int16),
    (["int32".toList], .int32),
    (["int64".toList, "int".toList], .int64),
    (["uint8".toList], .uint8),
    (["uint16".toList], .uint16),
    (["uint32".toList], .uint32),
    (["uint64".toList, "uint".toList], .uint64),
    (["float32".toList], .float32),
    (["float64".toList, "float".toList], .float64),
    (["decimal64".toList], .decimal64),
    (["decimal128".toList, "decimal".toList], .decimal128),
    (["date_days".toList, "date32".toList, "date".toList], .dateDays),
    (["timestamp_micros".toList, "timestamp_us".toList], .timestampMicros),
    (["timestamp_nanos".toList, "timestamp_ns".toList], .timestampNanos),
    (["utf8".toList, "string".toList], .utf8),
    (["binary".toList], .binary),
    (["json".toList], .json),
    (["uuid".toList], .uuid),
    (["list".toList], .list),
    (["struct".toList], .struct),
    (["map".toList], .map)]
  match names.find? fun entry => entry.1.contains name with
  | some entry => .ok entry.2
  | none => .error ("unsupported COVE-MAP logical type '".toList ++ name ++ "'".toList)

/-- `physical_for_logical`. -/
def physicalForLogical : CoveLogicalType → CovePhysicalKind
  | .bool => .boolean
  | .utf8 | .binary | .json => .varBytes
  | .uuid | .decimal128 | .decimal64 => .fixedBytes
  | .list | .struct | .map => .fileCode
  | _ => .numCode

/-- `physical_kind_from_binding`. -/
def physicalKindFromBinding (binding : MapPropertyBinding) (logical : CoveLogicalType) :
    Except Text CovePhysicalKind :=
  let kind := binding.physicalKind
  if kind = "auto".toList ∨ kind = [] then .ok (physicalForLogical logical)
  else if kind = "boolean".toList ∨ kind = "bool".toList then .ok .boolean
  else if kind = "filecode".toList ∨ kind = "file_code".toList then .ok .fileCode
  else if kind = "numcode".toList ∨ kind = "num_code".toList then .ok .numCode
  else if kind = "fixedbytes".toList ∨ kind = "fixed_bytes".toList then .ok .fixedBytes
  else if kind = "varbytes".toList ∨ kind = "var_bytes".toList then .ok .varBytes
  else .error ("unsupported MAP physical kind '".toList ++ kind ++ "'".toList)

/-- `property_id_from_binding`. -/
def propertyIdFromBinding (ext : Externals) (binding : MapPropertyBinding) (fallback : Nat) :
    Nat := ext.stableU32 binding.propertyId fallback

/-- `association_properties`. -/
def associationProperties : List PropertyEntryV1 := [
  ⟨1, "source_goid".toList, .uuid, .fixedBytes, false, 0, 0x1⟩,
  ⟨2, "target_goid".toList, .uuid, .fixedBytes, false, 0, 0x2⟩,
  ⟨3, "association_type".toList, .utf8, .varBytes, false, 0, 0x4⟩,
  ⟨4, "mapping_rule_id".toList, .utf8, .varBytes, false, 0, 0x80⟩,
  ⟨5, "source_evidence_id".toList, .utf8, .varBytes, false, 0, 0x40⟩,
  ⟨6, "source_role".toList, .utf8, .varBytes, false, 0, 0⟩,
  ⟨7, "target_role".toList, .utf8, .varBytes, false, 0, 0⟩,
  ⟨8, "valid_from".toList, .json, .varBytes, true, 0, 0⟩,
  ⟨9, "valid_to".toList, .json, .varBytes, true, 0, 0⟩,
  ⟨10, "cardinality_policy".toList, .utf8, .varBytes, false, 0, 0⟩]

/-- `Association:{association_type}`. -/
def associationTypeName (associationType : Text) : Text :=
  "Association:".toList ++ associationType

/-- The properties the bindings of one rule add, after those that are there: the first
binding of a property id declares it. -/
def addBindings (ext : Externals) :
    Nat → List PropertyEntryV1 → List MapPropertyBinding → Except Text (List PropertyEntryV1)
  | _, properties, [] => .ok properties
  | index, properties, binding :: bindings => do
    let logical ← logicalTypeFromName binding.logicalType
    let propertyId := propertyIdFromBinding ext binding (index + 1)
    if properties.any fun p => p.propertyId == propertyId then
      addBindings ext (index + 1) properties bindings
    else do
      let physical ← physicalKindFromBinding binding logical
      addBindings ext (index + 1)
        (properties ++ [⟨propertyId, binding.propertyName, logical, physical,
          binding.nullable, 0, 0⟩]) bindings

/-- The properties of an object type: the bindings of the rules that identify it. -/
def propertiesOfType (ext : Externals) (context : MappingContext) (typeName : Text) :
    Except Text (List PropertyEntryV1) :=
  context.rowRules.foldlM (fun properties rowRule =>
    match AssocMap.get rowRule.identityRuleId context.identityRules with
    | none => .ok properties
    | some identityRule =>
      if identityRule.objectType ≠ typeName then .ok properties
      else addBindings ext 0 properties rowRule.propertyBindings) []

/-- The names of the object types, ascending. -/
def objectTypeNames (context : MappingContext) : List Text :=
  let names := context.identityRules.map (fun rule => rule.2.objectType) ++
    context.rowRules.flatMap fun rowRule =>
      rowRule.associationBindings.map fun binding => associationTypeName binding.associationType
  (AssocMap.collect (names.map fun name => (name, ()))).map Prod.fst

/-- `object_types_from_mapping`. -/
def objectTypesFromMapping (ext : Externals) (context : MappingContext) :
    Except Text (List ObjectTypeEntryV1) :=
  (objectTypeNames context).zipIdx.mapM fun (typeName, index) => do
    let properties ← propertiesOfType ext context typeName
    let isAssociation := TextOps.startsWith "Association:".toList typeName
    .ok {
      objectTypeId := index + 1
      typeName := typeName
      flags := if isAssociation then 0x8 ||| 0x4 else 0x1
      properties := if isAssociation then properties ++ associationProperties else properties }

end Cove
