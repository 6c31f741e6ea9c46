import Cove.Map.MaterializedModel
import Cove.ObjectTemporal.Segment

/-!
# Writing temporal segments

The rows of a materialized model become temporal segments, one for each object type: rows
in source order, numbered, linked to the previous row of their object, and their
properties in one page a column.

- `storeValue`: the stored form of a property value.
- `temporalPrevRefs`: the references of a segment's rows.
- `buildTemporalSegments`, `temporalSegmentIndex`, `trustManifest`.
-/

namespace Cove

/-! ## Values -/

/-- `json_bool`. -/
def jsonBool : Json → Except Text Bool
  | .bool b => .ok b
  | .string text =>
    if TextOps.asciiLower text = "true".toList then .ok true
    else if TextOps.asciiLower text = "false".toList then .ok false
    else .error "property value is not a bool".toList
  | _ => .error "property value is not a bool".toList

/-- `json_numcode`. -/
def jsonNumcode : Json → Except Text Nat
  | .bool b => .ok b.toNat
  | .number n => okOr (JsonNumber.asU64 n)
      "numeric property value is outside supported NumCode range".toList
  | .string text => okOr (parseU64 text) (quoted "'" text "' is not a supported NumCode value")
  | _ => .error "property value is not numeric".toList

/-- `hex_nibble`. -/
def hexNibble (byte : UInt8) : Except Text UInt8 :=
  if 48 ≤ byte ∧ byte ≤ 57 then .ok (byte - 48)
  else if 97 ≤ byte ∧ byte ≤ 102 then .ok (byte - 97 + 10)
  else if 65 ≤ byte ∧ byte ≤ 70 then .ok (byte - 65 + 10)
  else .error "invalid hex character".toList

/-- The bytes of pairs of hexadecimal characters. -/
def hexPairs : List UInt8 → Except Text (List UInt8)
  | high :: low :: rest => do
    let high ← hexNibble high
    let low ← hexNibble low
    let bytes ← hexPairs rest
    .ok ((high * 16 + low) :: bytes)
  | _ => .ok []

/-- `hex_decode_16`. -/
def hexDecode16 (text : Text) : Except Text (List UInt8) :=
  let bytes := TextOps.utf8Bytes (TextOps.trim text)
  if bytes.length ≠ 32 then .error "uuid hex string must contain 32 hex characters".toList
  else hexPairs bytes

/-- `as_i64`, else the text as an integer between the bounds. -/
def integerOf (min max : Int) : Json → Option Int
  | .number n => JsonNumber.asI64 n
  | .string text => ParseInt.parseSigned min max text
  | _ => none

/-- `fixed_bytes_for_property`. -/
def fixedBytesForProperty (property : PropertyEntryV1) (value : Json) :
    Except Text (List UInt8) :=
  match property.logicalType with
  | .uuid =>
    match value with
    | .string text => hexDecode16 text
    | _ => .error "uuid property values must be hex strings".toList
  | .decimal128 => do
    let int ← okOr (integerOf (-2 ^ 127) (2 ^ 127 - 1) value)
      "decimal128 property value must be an integer".toList
    .ok (signedLe 16 int)
  | .decimal64 => do
    let int ← okOr (integerOf (-2 ^ 63) (2 ^ 63 - 1) value)
      "decimal64 property value must be an integer".toList
    .ok (signedLe 8 int)
  | _ => .error "unsupported fixed-bytes logical type".toList

/-- `var_bytes_for_property`. -/
def varBytesForProperty (codec : ValueCodec) (property : PropertyEntryV1) (value : Json) :
    Except Text (List UInt8) :=
  match property.logicalType with
  | .utf8 =>
    match value with
    | .string text => .ok (TextOps.utf8Bytes text)
    | _ => .error "utf8 property value must be a string".toList
  | .json => .ok (codec.jsonBytes value)
  | .binary =>
    match value with
    | .string text => .ok (TextOps.utf8Bytes text)
    | _ => .error "binary property value must be encoded as a string".toList
  | _ => .error "unsupported var-bytes logical type".toList

/-- `append_null_placeholder` has a placeholder for the property. -/
def nullPlaceholder (property : PropertyEntryV1) : Except Text Unit :=
  match property.physicalKind with
  | .boolean | .numCode | .varBytes | .fileCode => .ok ()
  | .fixedBytes =>
    match property.logicalType with
    | .uuid | .decimal128 | .decimal64 => .ok ()
    | _ => .error "unsupported fixed-width null placeholder".toList
  | .list | .struct | .map => .error "nested null placeholders are not supported".toList

/-- `append_property_value_bytes`. -/
def storeValue (codec : ValueCodec) (objectTypeId : Nat) (property : PropertyEntryV1)
    (value : Json) : Except Text (Option StoredValue) :=
  if value.isNull then do
    nullPlaceholder property
    .ok none
  else
    match property.physicalKind with
    | .boolean => do
      let b ← jsonBool value
      .ok (some (.boolean b))
    | .numCode => do
      let code ← jsonNumcode value
      .ok (some (.numCode code))
    | .fixedBytes => do
      let bytes ← fixedBytesForProperty property value
      .ok (some (.fixedBytes bytes))
    | .varBytes => do
      let bytes ← varBytesForProperty codec property value
      if bytes.length < 2 ^ 32 then .ok (some (.varBytes bytes))
      else .error "property value is too large".toList
    | .fileCode => do
      let code ← codec.fileCode objectTypeId property value
      .ok (some (.fileCode code))
    | .list | .struct | .map =>
      .error "COVE-MAP writer does not materialize nested properties yet".toList

/-- The value of a property on a row; null when the row does not carry it. -/
def ObjectRow.valueOf (row : ObjectRow) (propertyId : Nat) : Json :=
  ((AssocMap.get propertyId row.properties).map MaterializedProperty.value).getD .null

/-- The page of a property: `build_property_page_payload` with its index entry. -/
def propertyPage (codec : ValueCodec) (objectTypeId : Nat) (property : PropertyEntryV1)
    (rows : List ObjectRow) : Except Text TemporalPropertyPage := do
  let values ← rows.mapM fun row =>
    storeValue codec objectTypeId property (row.valueOf property.propertyId)
  let nullCount := rows.countP fun row => (row.valueOf property.propertyId).isNull
  .ok {
    morselId := 0
    rowCount := rows.length
    nonNullCount := rows.length - nullCount
    nullCount := nullCount
    values := values }

/-! ## References -/

/-- The kinds of rows that refer to the row before them. -/
def RecordKind.linked : RecordKind → Bool
  | delta | snapshot | tombstone => true
  | _ => false

/-- The loop of `temporal_prev_refs`, with the latest row of each object so far. -/
def prevRefsFrom (segmentId : Nat) :
    Nat → List (Id16 × Nat) → List ObjectRow → List (Option CoveRecordRefV1)
  | _, _, [] => []
  | index, latestByGoid, row :: rows =>
    let prevRef := if row.recordKind.linked then
      (AssocMap.get row.goid latestByGoid).map fun rowIndex => ⟨segmentId, rowIndex, 0⟩ else none
    prevRef :: prevRefsFrom segmentId (index + 1) (AssocMap.insert row.goid index latestByGoid) rows

/-- `temporal_prev_refs`. -/
def temporalPrevRefs (segmentId : Nat) (rows : List ObjectRow) :
    List (Option CoveRecordRefV1) := prevRefsFrom segmentId 0 [] rows

/-! ## Segments -/

/-- The entry of a row: its index is its commit number. -/
def temporalRowEntry (index : Nat) (row : ObjectRow) (prevRef : Option CoveRecordRefV1) :
    TemporalRowEntryV1 where
  timestampUs := 0
  csn := index
  branchKey := 0
  goid := row.goid
  recordId := row.recordId
  recordKind := row.recordKind
  prevRef := prevRef

/-- The entries of a segment's rows. -/
def temporalRowEntries (segmentId : Nat) (rows : List ObjectRow) : List TemporalRowEntryV1 :=
  (rows.zip (temporalPrevRefs segmentId rows)).zipIdx.map fun ((row, prevRef), index) =>
    temporalRowEntry index row prevRef

/-- The column of a property. -/
def propertyColumn (codec : ValueCodec) (objectTypeId : Nat) (rows : List ObjectRow)
    (property : PropertyEntryV1) : Except Text TemporalPropertyColumn := do
  let page ← propertyPage codec objectTypeId property rows
  .ok {
    columnId := property.propertyId
    logicalType := property.logicalType
    physicalKind := property.physicalKind
    flags := 0
    pages := [page] }

/-- `temporal_segment_payload`, as parsing reads it back. -/
def temporalSegmentPayload (codec : ValueCodec) (segmentId : Nat) (objectType : ObjectTypeEntryV1)
    (rows : List ObjectRow) : Except Text TemporalSegmentData := do
  if rows.length ≥ 2 ^ 32 then .error "too many COVE-O rows".toList
  else if objectType.properties.length ≥ 2 ^ 32 then
    .error "too many COVE-O property columns".toList
  else do
    let columns ← objectType.properties.mapM (propertyColumn codec objectType.objectTypeId rows)
    .ok {
      header := {
        segmentId := segmentId
        objectTypeId := objectType.objectTypeId
        timeRangeStartUs := 0
        timeRangeEndUs := 0
        csnMin := 0
        csnMax := rows.length - 1
        rowCount := rows.length
        morselCount := if rows.length = 0 then 0 else 1
        morselRowCount := rows.length
        columnCount := objectType.properties.length }
      rows := temporalRowEntries segmentId rows
      propertyColumns := columns }

structure TemporalSegmentBuild where
  segmentId : Nat
  objectTypeId : Nat
  rows : List ObjectRow
  payload : TemporalSegmentData

/-- The order of the rows in a segment. -/
def ObjectRow.segmentKey (row : ObjectRow) : Nat ×ₗ Id16 ×ₗ Id16 :=
  toLex (row.sourceRowIndex, toLex (row.goid, row.recordId))

def segmentOrder (rows : List ObjectRow) : List ObjectRow :=
  rows.insertionSort fun a b => a.segmentKey ≤ b.segmentKey

/-- The rows of the model by object type, each in segment order. -/
def segmentGroups (rows : List ObjectRow) : List (Nat × List ObjectRow) :=
  (Grouping.grouped ObjectRow.objectTypeId rows).map fun group => (group.1, segmentOrder group.2)

/-- The body of the loop over the groups. -/
def buildTemporalSegment (codec : ValueCodec) (objectTypes : List ObjectTypeEntryV1)
    (group : (Nat × List ObjectRow) × Nat) : Except Text TemporalSegmentBuild := do
  let ((objectTypeId, rows), segmentIndex) := group
  let objectType ← okOr
    (AssocMap.collected objectTypeId (objectTypes.map fun ty => (ty.objectTypeId, ty)))
    (quoted "missing object_type_id " (TextOps.natText objectTypeId) "")
  if segmentIndex ≥ 2 ^ 32 then .error "too many COVE-O temporal segments".toList
  else do
    let payload ← temporalSegmentPayload codec segmentIndex objectType rows
    .ok {
      segmentId := segmentIndex
      objectTypeId := objectTypeId
      rows := rows
      payload := payload }

/-- `build_temporal_segments`. -/
def buildTemporalSegments (codec : ValueCodec) (model : MaterializedModel) :
    Except Text (List TemporalSegmentBuild) :=
  (segmentGroups model.rows).zipIdx.mapM (buildTemporalSegment codec model.objectTypes)

/-! ## Index and manifest -/

/-- The entry of a segment in `temporal_segment_index`. -/
def temporalSegmentIndexEntry (segment : TemporalSegmentBuild) : TemporalSegmentIndexEntryV1 :=
  let count (kind : RecordKind) : Nat := segment.rows.countP fun row => row.recordKind = kind
  let goids := segment.rows.map ObjectRow.goid
  { segmentId := segment.segmentId
    objectTypeId := segment.objectTypeId
    timeRangeStartUs := 0
    timeRangeEndUs := 0
    csnMin := 0
    csnMax := segment.rows.length - 1
    rowCount := segment.rows.length
    deltaCount := count .delta
    snapshotCount := count .snapshot
    baselineCount := count .baseline
    tombstoneCount := count .tombstone
    minGoid := goids.min?.getD 0
    maxGoid := goids.max?.getD 0 }

/-- `temporal_segment_index`. -/
def temporalSegmentIndex (segments : List TemporalSegmentBuild) :
    List TemporalSegmentIndexEntryV1 := segments.map temporalSegmentIndexEntry

/-- The loop of `trust_manifest` over placed rows, after the hash `previous`. -/
def trustEntries (hash : TrustHash) :
    Fin (2 ^ 256) → List (RowPlace × TemporalRowEntryV1) → List TrustManifestEntryV1
  | _, [] => []
  | previous, ((segmentId, rowIndex), row) :: rows =>
    let expectedHash := hash previous row
    ⟨segmentId, rowIndex, expectedHash⟩ :: trustEntries hash expectedHash rows

/-- `trust_manifest`. -/
def trustManifest (hash : TrustHash) (segments : List TemporalSegmentBuild) :
    List TrustManifestEntryV1 :=
  trustEntries hash 0 (segments.flatMap fun segment =>
    placeRows segment.segmentId (temporalRowEntries segment.segmentId segment.rows))

/-- The object sections `build_cove_o_with_source_states` writes. -/
def coveOSections (hash : TrustHash) (model : MaterializedModel)
    (segments : List TemporalSegmentBuild) : CoveOSections where
  catalog := model.objectTypes
  index := temporalSegmentIndex segments
  segments := segments.map TemporalSegmentBuild.payload
  trustManifest := trustManifest hash segments

end Cove
