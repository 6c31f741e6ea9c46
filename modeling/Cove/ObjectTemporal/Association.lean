import Cove.ObjectTemporal.SegmentRecords

/-!
# Reading requested properties

A reader may ask for some of the properties of a file. The columns of the others are
skipped before anything is decoded, so the association metadata of a record, the nested
shapes of its properties and the replay all see the requested ones only.

- `CoveObjectReadOptions`, `recordsFromSegmentWithOptions`: the columns that are read.
- `associationMetadata`: what a record says about the association it stands for.
- `readObjectSurfaceWithOptions`: **the records of a file, with the requested properties**.
- `reconstructAssociatedStates`: the states of the objects, with their associations.
-/

namespace Cove

/-! ## Association metadata -/

/-- `OBJECT_TYPE_FLAG_LINK_OBJECT`. -/
def objectTypeFlagLinkObject : UInt32 := 0x04

/-- `OBJECT_TYPE_FLAG_ASSOCIATION_OBJECT`. -/
def objectTypeFlagAssociationObject : UInt32 := 0x08

/-- `PROPERTY_FLAG_ASSOCIATION_FROM_GOID`. -/
def propertyFlagAssociationFromGoid : UInt32 := 0x01

/-- `PROPERTY_FLAG_ASSOCIATION_TO_GOID`. -/
def propertyFlagAssociationToGoid : UInt32 := 0x02

/-- `PROPERTY_FLAG_ASSOCIATION_TYPE`. -/
def propertyFlagAssociationType : UInt32 := 0x04

/-- `PROPERTY_FLAG_EVIDENCE_REF`. -/
def propertyFlagEvidenceRef : UInt32 := 0x40

/-- `PROPERTY_FLAG_MAPPING_RULE_REF`. -/
def propertyFlagMappingRuleRef : UInt32 := 0x80

structure CoveAssociationMetadata where
  associationType : Option Text
  sourceGoid : Option Text
  targetGoid : Option Text
  evidenceRef : Option Text
  mappingRuleRef : Option Text
  deriving DecidableEq, Repr

/-- `json_value_to_string`, with the JSON writer that other packages provide. -/
def jsonValueToString (jsonText : Json → Text) : Json → Option Text
  | .null => none
  | .string value => some value
  | .bool value => some (if value then "true".toList else "false".toList)
  | .number (.posInt value) => some (TextOps.natText value.toNat)
  | .number (.negInt value) => some (TextOps.intText value.toInt)
  | other => some (jsonText other)

/-- `property_string_by_flag`. -/
def propertyStringByFlag (jsonText : Json → Text) (properties : List CoveObjectPropertyValue)
    (flag : UInt32) : Option Text :=
  (properties.find? fun property => property.flags &&& flag != 0).bind fun property =>
    jsonValueToString jsonText property.value

/-- The name of a type that stands for associations begins so. -/
def associationPrefix : Text := "Association:".toList

/-- Whether objects of a type are associations. -/
def isAssociation (flags : UInt32) (typeName : Text) : Bool :=
  flags &&& (objectTypeFlagAssociationObject ||| objectTypeFlagLinkObject) != 0 ||
    TextOps.startsWith associationPrefix typeName

/-- `association_metadata` of a type with these flags and this name. -/
def associationMetadata (jsonText : Json → Text) (flags : UInt32) (typeName : Text)
    (properties : List CoveObjectPropertyValue) : Option CoveAssociationMetadata :=
  let string := propertyStringByFlag jsonText properties
  if !isAssociation flags typeName then none
  else some {
    associationType :=
      (string propertyFlagAssociationType).or (TextOps.stripPrefix associationPrefix typeName)
    sourceGoid := string propertyFlagAssociationFromGoid
    targetGoid := string propertyFlagAssociationToGoid
    evidenceRef := string propertyFlagEvidenceRef
    mappingRuleRef := string propertyFlagMappingRuleRef }

/-! ## Nested shapes -/

/-- `ProjectionNestedShape`; a field is its id, its name and its shape. -/
inductive ProjectionNestedShape where
  | scalar (logical : CoveLogicalType)
  | list (item : ProjectionNestedShape)
  | struct (fields : List (Nat × Text × ProjectionNestedShape))
  | map (key value : ProjectionNestedShape)

/-- The elements of an array. -/
def jsonItems : Json → Except CoveError (List Json)
  | .array items => .ok items
  | _ => .error .badFileCode

/-- An entry of a map, as it is stored: a key and a value. -/
def jsonPair : Json → Except CoveError (Json × Json)
  | .array [key, value] => .ok (key, value)
  | _ => .error .badFileCode

mutual

/-- `restore_nested_projection_value`. -/
def restoreNestedProjectionValue : ProjectionNestedShape → Json → Except CoveError Json
  | .scalar _, value => .ok value
  | .list item, value =>
    if value.isNull then .ok .null
    else do
      let items ← jsonItems value
      let items ← items.mapM (restoreNestedProjectionValue item)
      .ok (.array items)
  | .struct fields, value =>
    if value.isNull then .ok .null
    else if !value.isObject then .error .badFileCode
    else restoreNestedFields value (.object []) fields
  | .map key item, value =>
    if value.isNull then .ok .null
    else do
      let entries ← jsonItems value
      match key with
      | .scalar .utf8 =>
        entries.foldlM (fun out entry => do
          let (key, value) ← jsonPair entry
          match key with
          | .string key => do
            let value ← restoreNestedProjectionValue item value
            .ok (out.insertMember key value)
          | _ => .error .badFileCode) (.object [])
      | _ => do
        let entries ← entries.mapM fun entry => do
          let (entryKey, entryValue) ← jsonPair entry
          let restoredKey ← restoreNestedProjectionValue key entryKey
          let restoredValue ← restoreNestedProjectionValue item entryValue
          .ok (Json.array [restoredKey, restoredValue])
        .ok (.array entries)

/-- The loop over the fields of a struct. -/
def restoreNestedFields (value out : Json) :
    List (Nat × Text × ProjectionNestedShape) → Except CoveError Json
  | [] => .ok out
  | (fieldId, name, shape) :: fields => do
    let raw := (value.get (TextOps.natText fieldId)).getD .null
    let restored ← restoreNestedProjectionValue shape raw
    restoreNestedFields value (out.insertMember name restored) fields

end

/-- The shapes that the projections of a file declare, by type name and property name, as
`projection_nested_shape_lookup` inserts them. -/
abbrev NestedShapes := List ((Text × Text) × ProjectionNestedShape)

/-- The value of a property of a type, its shape restored. -/
def restoreProperty (shapes : NestedShapes) (typeName : Text)
    (property : CoveObjectPropertyValue) : Except CoveError CoveObjectPropertyValue :=
  match AssocMap.collected (typeName, property.propertyName) shapes with
  | none => .ok property
  | some shape => do
    let value ← restoreNestedProjectionValue shape property.value
    .ok { property with value := value }

/-! ## Records -/

structure CoveObjectReadOptions where
  requestedPropertyIds : List Nat
  requestedPropertyNames : List Text

namespace CoveObjectReadOptions

/-- `all_properties`. -/
def allProperties : CoveObjectReadOptions := ⟨[], []⟩

/-- `requested_property_ids`. -/
def ofIds (propertyIds : List Nat) : CoveObjectReadOptions := ⟨propertyIds, []⟩

/-- `requests_property`. -/
def requestsProperty (options : CoveObjectReadOptions) (property : PropertyEntryV1) : Bool :=
  if options.requestedPropertyIds.isEmpty && options.requestedPropertyNames.isEmpty then true
  else options.requestedPropertyIds.contains property.propertyId ||
    options.requestedPropertyNames.any fun name => name == property.propertyName

end CoveObjectReadOptions

/-- A record with its association. -/
structure AssociatedRecord extends CoveObjectRecord where
  association : Option CoveAssociationMetadata

/-- Values are decoded first; their nested shapes are restored when all records are read. -/
def ValueCodec.unshaped (codec : ValueCodec) : ValueCodec :=
  { codec with restoreNested := fun _ _ value => .ok value }

/-- The loop over the columns: the requested ones with their values. -/
def requestedColumns (codec : ValueCodec) (options : CoveObjectReadOptions)
    (segment : TemporalSegmentData) (objectType : ObjectTypeEntryV1) :
    List TemporalPropertyColumn → Except CoveError (List (PropertyEntryV1 × List Json))
  | [] => .ok []
  | column :: columns =>
    match AssocMap.collected column.columnId
        (objectType.properties.map fun p => (p.propertyId, p)) with
    | none => .error (.badSchema "temporal property column references missing property_id")
    | some property =>
      if !options.requestsProperty property then
        requestedColumns codec options segment objectType columns
      else do
        let values ← decodePropertyColumn codec.unshaped segment property column
        let rest ← requestedColumns codec options segment objectType columns
        .ok ((property, values) :: rest)

/-- `records_from_segment`. -/
def recordsFromSegmentWithOptions (codec : ValueCodec) (jsonText : Json → Text)
    (options : CoveObjectReadOptions) (segment : TemporalSegmentData)
    (objectType : ObjectTypeEntryV1) : Except CoveError (List AssociatedRecord) := do
  let columns ← requestedColumns codec options segment objectType segment.propertyColumns
  .ok (segment.rows.zipIdx.map fun (row, rowIndex) =>
    let properties := columns.map (columnProperty rowIndex)
    { recordFromRow segment.header.segmentId objectType row rowIndex properties with
      association := associationMetadata jsonText (UInt32.ofNat objectType.flags)
        objectType.typeName properties })

/-- The body of the loop over the segments. -/
def recordsOfSegmentWithOptions (codec : ValueCodec) (jsonText : Json → Text)
    (options : CoveObjectReadOptions) (catalog : List ObjectTypeEntryV1)
    (segment : TemporalSegmentData) : Except CoveError (List AssociatedRecord) :=
  match AssocMap.collected segment.header.objectTypeId
      (catalog.map fun ty => (ty.objectTypeId, ty)) with
  | none => .error (.badSchema "temporal segment references missing object_type_id")
  | some objectType => recordsFromSegmentWithOptions codec jsonText options segment objectType

/-- The properties of one record, their shapes restored. -/
def restoreRecord (shapes : NestedShapes) (record : AssociatedRecord) :
    Except CoveError AssociatedRecord := do
  let properties ← record.properties.mapM (restoreProperty shapes record.objectTypeName)
  .ok { record with properties := properties }

/-- `apply_projection_nested_shapes`. -/
def applyProjectionNestedShapes (shapes : Except CoveError NestedShapes)
    (records : List AssociatedRecord) : Except CoveError (List AssociatedRecord) := do
  let lookup ← shapes
  records.mapM (restoreRecord lookup)

/-- The object sections of a file, and the shapes read from its projection catalog: none
when it has no such catalog. -/
structure CoveOFile where
  sections : CoveOSections
  nestedShapes : Except CoveError NestedShapes

/-- `read_object_surface_from_bytes_with_options`: the records of a file that passes
validation. -/
def readObjectSurfaceWithOptions (check : PageCheck) (hash : TrustHash) (codec : ValueCodec)
    (jsonText : Json → Text) (options : CoveObjectReadOptions) (file : CoveOFile) :
    Except CoveError (List AssociatedRecord) := do
  validateCoveOSemantics check hash file.sections
  let records ← file.sections.segments.mapM
    (recordsOfSegmentWithOptions codec jsonText options file.sections.catalog)
  applyProjectionNestedShapes file.nestedShapes records.flatten

/-! ## States -/

/-- A state with the association the object stands for. -/
structure AssociatedState extends CoveObjectState where
  association : Option CoveAssociationMetadata

/-- The association after a record: full records bring theirs, a delta has it worked out
again from the properties merged, a tombstone leaves it. -/
def replayedAssociation (jsonText : Json → Text) (current : Option AssociatedState)
    (record : AssociatedRecord) (state : CoveObjectState) : Option CoveAssociationMetadata :=
  match record.recordKind, current with
  | .delta, some _ =>
    associationMetadata jsonText state.objectTypeFlags state.objectTypeName state.properties
  | .tombstone, some current => current.association
  | _, _ => record.association

/-- The body of the replay loop. -/
def replayAssociated (jsonText : Json → Text) (current : Option AssociatedState)
    (record : AssociatedRecord) : Except CoveError (Option AssociatedState) := do
  let next ← replayRecord (current.map AssociatedState.toCoveObjectState)
    record.toCoveObjectRecord
  .ok (next.map fun state =>
    { state with association := replayedAssociation jsonText current record state })

/-- The replay loop. -/
def replayAssociatedRecords (jsonText : Json → Text) (current : Option AssociatedState) :
    List AssociatedRecord → Except CoveError (Option AssociatedState)
  | [] => .ok current
  | record :: records => do
    let current ← replayAssociated jsonText current record
    replayAssociatedRecords jsonText current records

/-- The records of one object in the order of their replay. -/
def associatedReplayOrder (records : List AssociatedRecord) : List AssociatedRecord :=
  records.insertionSort fun a b =>
    recordSortKey a.toCoveObjectRecord ≤ recordSortKey b.toCoveObjectRecord

/-- The states of the groups that have one to return. -/
def associatedStatesOfGroups (jsonText : Json → Text) (includeTombstones : Bool) :
    List (ObjectKey × List AssociatedRecord) → Except CoveError (List AssociatedState)
  | [] => .ok []
  | (_, records) :: groups => do
    let current ← replayAssociatedRecords jsonText none (associatedReplayOrder records)
    let states ← associatedStatesOfGroups jsonText includeTombstones groups
    match current with
    | some state =>
      if includeTombstones || state.tombstoneStatus == .live then .ok (state :: states)
      else .ok states
    | none => .ok states

/-- Whether a record is of the branch, at the cut. -/
def visibleAssociated (options : CoveObjectReconstructionOptions) (record : AssociatedRecord) :
    Bool :=
  !(options.branchKey.any fun branchKey => record.branchKey != branchKey) &&
    recordVisibleAtCut record.toCoveObjectRecord options.temporalCut

/-- `reconstruct_object_states`. -/
def reconstructAssociatedStates (jsonText : Json → Text)
    (options : CoveObjectReconstructionOptions) (records : List AssociatedRecord) :
    Except CoveError (List AssociatedState) := do
  validatePrevRefs (records.map AssociatedRecord.toCoveObjectRecord)
  let grouped := Grouping.grouped (fun r => r.toCoveObjectRecord.objectKey)
    (records.filter (visibleAssociated options))
  let states ← associatedStatesOfGroups jsonText options.includeTombstones grouped
  .ok (states.insertionSort fun a b => a.sortKey ≤ b.sortKey)

end Cove
