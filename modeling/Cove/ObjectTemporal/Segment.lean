import Mathlib.Order.Fin.Basic
import Cove.Core.Error
import Cove.Map.Context

/-!
# Temporal segments

A temporal segment holds the records of one object type with their properties in columns.
A segment is checked by itself when it is parsed, and against the other sections of its
file when the file is validated.

- `TemporalSegmentData`, `TemporalSegmentIndexEntryV1`, `TrustManifestEntryV1`.
- `TemporalSegmentData.validate`: row order, ranges and backward references.
- `validateTemporalChains`: references by the kind of their target, chains anchored.
- `validateCoveOCrossSections`: **the semantic validation of a file's object sections**.
-/

namespace Cove

/-! ## Rows and columns -/

structure TemporalRowEntryV1 where
  timestampUs : Int
  csn : Nat
  branchKey : Nat
  goid : Id16
  recordId : Id16
  recordKind : RecordKind
  prevRef : Option CoveRecordRefV1
  deriving DecidableEq

/-- The order of the rows of a segment. -/
def TemporalRowEntryV1.rowKey (r : TemporalRowEntryV1) : Int ×ₗ Nat ×ₗ Nat ×ₗ Id16 ×ₗ Id16 :=
  toLex (r.timestampUs, toLex (r.csn, toLex (r.branchKey, toLex (r.goid, r.recordId))))

structure TemporalSegmentHeaderV1 where
  segmentId : Nat
  objectTypeId : Nat
  timeRangeStartUs : Int
  timeRangeEndUs : Int
  csnMin : Nat
  csnMax : Nat
  rowCount : Nat
  morselCount : Nat
  morselRowCount : Nat
  columnCount : Nat
  deriving DecidableEq

/-- The bytes of a value in its column: a flag, a code, bytes of fixed or variable length,
or a code of the file dictionary. -/
inductive StoredValue where
  | boolean (b : Bool)
  | numCode (code : Nat)
  | fixedBytes (bytes : List UInt8)
  | varBytes (bytes : List UInt8)
  | fileCode (code : Nat)
  deriving DecidableEq

/-- How values of the file dictionary and JSON texts are written and read: the dictionary's
codes of canonical values, the JSON writer and parser, and the nested shapes that the
projections of a file declare. -/
structure ValueCodec where
  jsonBytes : Json → List UInt8
  jsonFromBytes : List UInt8 → Option Json
  fileCode : Nat → PropertyEntryV1 → Json → Except Text Nat
  fileCodeValue : Nat → PropertyEntryV1 → Nat → Except CoveError Json
  restoreNested : Nat → PropertyEntryV1 → Json → Except CoveError Json

/-- A codec that knows no JSON text and no file code. -/
def silentCodec : ValueCodec where
  jsonBytes _ := []
  jsonFromBytes _ := none
  fileCode _ _ _ := .error []
  fileCodeValue _ _ _ := .error .badFileCode
  restoreNested _ _ value := .ok value

/-- A page of a property column. Null rows have their bit set in the null bitmap and hold
a placeholder. -/
structure TemporalPropertyPage where
  morselId : Nat
  rowCount : Nat
  nonNullCount : Nat
  nullCount : Nat
  values : List (Option StoredValue)
  deriving DecidableEq

structure TemporalPropertyColumn where
  columnId : Nat
  logicalType : CoveLogicalType
  physicalKind : CovePhysicalKind
  flags : Nat
  pages : List TemporalPropertyPage
  deriving DecidableEq

structure TemporalSegmentData where
  header : TemporalSegmentHeaderV1
  rows : List TemporalRowEntryV1
  propertyColumns : List TemporalPropertyColumn
  deriving DecidableEq

structure TemporalSegmentIndexEntryV1 where
  segmentId : Nat
  objectTypeId : Nat
  timeRangeStartUs : Int
  timeRangeEndUs : Int
  csnMin : Nat
  csnMax : Nat
  rowCount : Nat
  deltaCount : Nat
  snapshotCount : Nat
  baselineCount : Nat
  tombstoneCount : Nat
  minGoid : Id16
  maxGoid : Id16
  deriving DecidableEq

structure TrustManifestEntryV1 where
  segmentId : Nat
  rowIndex : Nat
  expectedHash : Fin (2 ^ 256)
  deriving DecidableEq

/-! ## One segment -/

/-- No adjacent pair of rows violates a relation: a loop over `windows(2)`. -/
def adjacentAll (ok : α → α → Bool) : List α → Bool
  | a :: b :: rest => ok a b && adjacentAll ok (b :: rest)
  | _ => true

namespace TemporalSegmentData

/-- A reference points to an earlier segment, or backward in its own. -/
def refBackward (segment : TemporalSegmentData) (rowIndex : Nat) (prevRef : CoveRecordRefV1) :
    Bool :=
  !(prevRef.segmentId == segment.header.segmentId && prevRef.rowIndex ≥ rowIndex) &&
    prevRef.segmentId ≤ segment.header.segmentId

/-- The first row is not before the declared range. -/
def startsInRange (segment : TemporalSegmentData) : Bool :=
  match segment.rows.head? with
  | none => true
  | some first => !(first.timestampUs < segment.header.timeRangeStartUs ||
      first.csn < segment.header.csnMin)

/-- The last row is not after the declared range. -/
def endsInRange (segment : TemporalSegmentData) : Bool :=
  match segment.rows.getLast? with
  | none => true
  | some last => !(last.timestampUs > segment.header.timeRangeEndUs ||
      last.csn > segment.header.csnMax)

/-- `validate`. -/
def validate (segment : TemporalSegmentData) : Except CoveError Unit :=
  if !adjacentAll (fun a b => decide (a.rowKey ≤ b.rowKey)) segment.rows then
    .error (.badSchema "temporal rows out of order (Spec §58.3)")
  else if !adjacentAll (fun a b => decide (a.csn ≤ b.csn)) segment.rows then
    .error (.badSchema "temporal segment csn decreases in row order")
  else if !segment.rows.zipIdx.all fun row => row.1.prevRef.all (segment.refBackward row.2) then
    .error .refInvalid
  else if !segment.startsInRange then
    .error (.badSchema "temporal segment row falls before declared min range")
  else if !segment.endsInRange then
    .error (.badSchema "temporal segment row falls after declared max range")
  else .ok ()

/-- The checks of parsing: morsels are declared exactly for rows, a row holds a published
kind and a reference of a known target kind, and the segment is valid. -/
def parseChecks (segment : TemporalSegmentData) : Except CoveError Unit :=
  if segment.header.rowCount = 0 ∧ segment.header.morselCount ≠ 0 then
    .error (.badSchema "temporal segment with zero rows cannot have morsels")
  else if segment.header.rowCount ≠ 0 ∧ segment.header.morselRowCount = 0 then
    .error (.badSchema "temporal segment with rows must declare morsel_row_count")
  else if segment.rows.any fun row => row.prevRef.any fun prevRef => prevRef.targetKind > 1 then
    .error .refInvalid
  else if segment.rows.any fun row => row.recordKind == .reservedLegacyMaterializedDelta then
    .error (.badSchema
      "reserved legacy materialized delta is not valid in published files (Spec §59.1)")
  else segment.validate

end TemporalSegmentData

/-! ## References across segments -/

/-- The place of a row in a file. -/
abbrev RowPlace := Nat × Nat

/-- The rows of a segment by their place. -/
def placeRows (segmentId : Nat) (rows : List TemporalRowEntryV1) :
    List (RowPlace × TemporalRowEntryV1) :=
  rows.zipIdx.map fun (row, rowIndex) => ((segmentId, rowIndex), row)

/-- The rows of the segments by their place. -/
def placedRows (segments : List TemporalSegmentData) : List (RowPlace × TemporalRowEntryV1) :=
  segments.flatMap fun segment => placeRows segment.header.segmentId segment.rows

def CoveRecordRefV1.place (prevRef : CoveRecordRefV1) : RowPlace :=
  (prevRef.segmentId, prevRef.rowIndex)

/-- `validate_self_contained`. -/
def validateSelfContained (rows : List (RowPlace × TemporalRowEntryV1)) : Except CoveError Unit :=
  if rows.all fun row => row.2.prevRef.all fun prevRef =>
      (rows.map Prod.fst).contains prevRef.place then .ok ()
  else .error .notSelfContained

/-- `target_kind_for_record_kind`. -/
def targetKindForRecordKind : RecordKind → Nat
  | .snapshot | .baseline => 1
  | .delta | .tombstone | .reservedLegacyMaterializedDelta => 0

/-- `validate_prev_ref_target_kind`. -/
def validatePrevRefTargetKind (rows : List (RowPlace × TemporalRowEntryV1))
    (prevRef : Option CoveRecordRefV1) : Except CoveError Unit :=
  match prevRef with
  | none => .ok ()
  | some prevRef =>
    match AssocMap.collected prevRef.place rows with
    | none => .error .notSelfContained
    | some target =>
      if prevRef.targetKind ≠ targetKindForRecordKind target.recordKind then .error .refInvalid
      else .ok ()

/-- The walk along the references from a place: whether it reaches an anchor. A place seen
before ends it, so it takes at most one step more than there are rows. -/
def chainAnchored (rows : List (RowPlace × TemporalRowEntryV1)) :
    Nat → List RowPlace → Option RowPlace → Except CoveError Bool
  | _, _, none => .ok false
  | 0, _, some _ => .error .refInvalid
  | fuel + 1, seen, some place =>
    if seen.contains place then .error .refInvalid
    else
      match AssocMap.collected place rows with
      | none => .error .notSelfContained
      | some row =>
        if row.recordKind = .baseline ∨ row.recordKind = .snapshot then .ok true
        else if row.prevRef = none then .ok true
        else chainAnchored rows fuel (place :: seen) (row.prevRef.map CoveRecordRefV1.place)

/-- The checks of one row. -/
def validateTemporalChain (rows : List (RowPlace × TemporalRowEntryV1))
    (row : RowPlace × TemporalRowEntryV1) : Except CoveError Unit := do
  validatePrevRefTargetKind rows row.2.prevRef
  if row.2.recordKind = .delta ∨ row.2.recordKind = .tombstone then do
    let anchored ← chainAnchored rows (rows.length + 1) [] (some row.1)
    if !anchored && row.2.prevRef.isSome then .error .notSelfContained else .ok ()
  else .ok ()

/-- `validate_temporal_chains`. -/
def validateTemporalChains (segments : List TemporalSegmentData) : Except CoveError Unit :=
  let rows := placedRows segments
  rows.forM (validateTemporalChain rows)

/-! ## Index and property columns -/

/-- `temporal_record_kind_counts`, one kind at a time. -/
def TemporalSegmentData.kindCount (segment : TemporalSegmentData) (kind : RecordKind) : Nat :=
  segment.rows.countP fun row => row.recordKind = kind

/-- `TemporalSegmentIndexEntryV1::validate`. -/
def TemporalSegmentIndexEntryV1.validate (entry : TemporalSegmentIndexEntryV1) :
    Except CoveError Unit :=
  if entry.timeRangeStartUs > entry.timeRangeEndUs ∨ entry.csnMin > entry.csnMax then
    .error (.badSchema "temporal segment range is inverted (Spec §57)")
  else if entry.minGoid > entry.maxGoid then
    .error (.badSchema "temporal segment GOID range is inverted (Spec §57)")
  else if entry.deltaCount + entry.snapshotCount + entry.baselineCount + entry.tombstoneCount ≠
      entry.rowCount then
    .error (.badSchema "temporal segment record-kind counts do not sum to row_count (Spec §57)")
  else .ok ()

/-- The entries carry distinct keys and are valid. -/
def validateSegmentIndex (entries : List TemporalSegmentIndexEntryV1) : Except CoveError Unit :=
  if ¬(entries.map fun e => (e.objectTypeId, e.segmentId)).Nodup then .error .refInvalid
  else entries.forM TemporalSegmentIndexEntryV1.validate

/-- The smallest and largest identity agree with the entry. -/
def goidRangeAgrees (index : TemporalSegmentIndexEntryV1) (goids : List Id16) : Bool :=
  goids.isEmpty || (goids.min? == some index.minGoid && goids.max? == some index.maxGoid)

/-- `validate_temporal_segment_against_index`. -/
def validateTemporalSegmentAgainstIndex (index : TemporalSegmentIndexEntryV1)
    (segment : TemporalSegmentData) : Except CoveError Unit :=
  let header := segment.header
  if index.segmentId ≠ header.segmentId ∨ index.objectTypeId ≠ header.objectTypeId ∨
      index.timeRangeStartUs ≠ header.timeRangeStartUs ∨
      index.timeRangeEndUs ≠ header.timeRangeEndUs ∨ index.csnMin ≠ header.csnMin ∨
      index.csnMax ≠ header.csnMax ∨ index.rowCount ≠ header.rowCount then .error .segmentCorrupt
  else if index.deltaCount ≠ segment.kindCount .delta ∨
      index.snapshotCount ≠ segment.kindCount .snapshot ∨
      index.baselineCount ≠ segment.kindCount .baseline ∨
      index.tombstoneCount ≠ segment.kindCount .tombstone then .error .segmentCorrupt
  else if !goidRangeAgrees index (segment.rows.map TemporalRowEntryV1.goid) then
    .error .segmentCorrupt
  else .ok ()

/-- `expected_temporal_morsel_count`. -/
def expectedTemporalMorselCount (header : TemporalSegmentHeaderV1) : Except CoveError Nat :=
  if header.rowCount = 0 then .ok 0
  else if header.morselCount = 0 ∨ header.morselRowCount = 0 then .error .segmentCorrupt
  else .ok header.morselCount

/-- `temporal_morsel_row_count`. -/
def temporalMorselRowCount (header : TemporalSegmentHeaderV1) (morselId : Nat) :
    Except CoveError Nat :=
  if morselId ≥ header.morselCount then .error .segmentCorrupt
  else
    let firstRow := morselId * header.morselRowCount
    if firstRow ≥ 2 ^ 32 then .error .arithOverflow
    else if firstRow ≥ header.rowCount then .error .segmentCorrupt
    else .ok (min (header.rowCount - firstRow) header.morselRowCount)

/-- The value checks of a page: its buffers hold values of the property's type. -/
abbrev PageCheck := PropertyEntryV1 → TemporalPropertyPage → Except CoveError Unit

/-- The body of the loop over the pages. -/
def validateTemporalPropertyPage (check : PageCheck) (property : PropertyEntryV1)
    (header : TemporalSegmentHeaderV1) (page : TemporalPropertyPage) : Except CoveError Unit := do
  let expectedRows ← temporalMorselRowCount header page.morselId
  if page.rowCount ≠ expectedRows then .error .pageCorrupt
  else if !property.nullable && page.nullCount != 0 then
    .error (.badSchema "non-nullable property has page null_count")
  else check property page

/-- `validate_temporal_property_pages`. -/
def validateTemporalPropertyPages (check : PageCheck) (property : PropertyEntryV1)
    (segment : TemporalSegmentData) (column : TemporalPropertyColumn) :
    Except CoveError Unit := do
  let expected ← expectedTemporalMorselCount segment.header
  if column.pages.length ≠ expected then .error .pageCorrupt
  else if ¬(column.pages.map TemporalPropertyPage.morselId).Nodup then .error .pageCorrupt
  else do
    column.pages.forM (validateTemporalPropertyPage check property segment.header)
    if (column.pages.map TemporalPropertyPage.rowCount).sum ≠ segment.header.rowCount then
      .error .pageCorrupt
    else .ok ()

/-- `PROPERTY_FLAG_BOOL_DECLARED_NUMERIC`. -/
def propertyFlagBoolDeclaredNumeric : Nat := 0x100

/-- `SEGMENT_COLUMN_FLAG_BOOL_DECLARED_NUMERIC`. -/
def segmentColumnFlagBoolDeclaredNumeric : Nat := 0x1

/-- The body of the loop over the columns. -/
def validateTemporalPropertyColumn (check : PageCheck) (properties : List PropertyEntryV1)
    (segment : TemporalSegmentData) (column : TemporalPropertyColumn) : Except CoveError Unit :=
  match AssocMap.collected column.columnId (properties.map fun p => (p.propertyId, p)) with
  | none => .error (.badSchema "temporal segment references unknown property_id")
  | some property =>
    if column.logicalType ≠ property.logicalType ∨
        column.physicalKind ≠ property.physicalKind then .error .pageCorrupt
    else if (property.flags &&& propertyFlagBoolDeclaredNumeric != 0) ≠
        (column.flags &&& segmentColumnFlagBoolDeclaredNumeric != 0) then .error .pageCorrupt
    else validateTemporalPropertyPages check property segment column

/-- `validate_temporal_property_columns`. -/
def validateTemporalPropertyColumns (check : PageCheck) (objectType : ObjectTypeEntryV1)
    (segment : TemporalSegmentData) : Except CoveError Unit := do
  if ¬(segment.propertyColumns.map TemporalPropertyColumn.columnId).Nodup then
    .error (.badSchema "duplicate temporal property column_id")
  else do
    segment.propertyColumns.forM
      (validateTemporalPropertyColumn check objectType.properties segment)
    if segment.header.columnCount ≠ segment.propertyColumns.length then .error .segmentCorrupt
    else .ok ()

/-! ## The object type catalog -/

/-- `validate_logical_physical_pair_with_options`. -/
def logicalPhysicalPairValid (logical : CoveLogicalType) (physical : CovePhysicalKind)
    (boolDeclaredNumeric : Bool) : Bool :=
  match physical with
  | .fileCode => true
  | .numCode =>
    match logical with
    | .bool => boolDeclaredNumeric
    | .int8 | .int16 | .int32 | .int64 | .uint8 | .uint16 | .uint32 | .uint64 | .float32
    | .float64 | .decimal64 | .dateDays | .timestampMicros | .timestampNanos => true
    | _ => false
  | .boolean => logical == .bool
  | .fixedBytes => logical == .uuid || logical == .decimal128
  | .varBytes => logical == .utf8 || logical == .binary || logical == .json
  | .list => logical == .list
  | .struct => logical == .struct
  | .map => logical == .map

/-- A property of a valid catalog. -/
def PropertyEntryV1.valid (p : PropertyEntryV1) : Bool :=
  p.logicalType != .null && logicalPhysicalPairValid p.logicalType p.physicalKind
    (p.flags &&& propertyFlagBoolDeclaredNumeric != 0)

/-- `ObjectTypeCatalog::validate` accepts the types. -/
def objectTypeCatalogValid (types : List ObjectTypeEntryV1) : Bool :=
  (types.map ObjectTypeEntryV1.objectTypeId).Nodup && types.all fun ty =>
    (ty.properties.map PropertyEntryV1.propertyId).Nodup && ty.properties.all PropertyEntryV1.valid

/-! ## The trust manifest -/

/-- The hash of a row after that of the row before it. -/
abbrev TrustHash := Fin (2 ^ 256) → TemporalRowEntryV1 → Fin (2 ^ 256)

/-- `validate_trust_manifest_references`. -/
def validateTrustManifestReferences (manifest : List TrustManifestEntryV1)
    (segments : List TemporalSegmentData) : Except CoveError Unit :=
  let rowCounts := segments.map fun segment => (segment.header.segmentId, segment.rows.length)
  if ¬(manifest.map fun e => (e.segmentId, e.rowIndex)).Nodup then .error .refInvalid
  else if manifest.all fun entry =>
      (AssocMap.collected entry.segmentId rowCounts).any fun count => entry.rowIndex < count then
    .ok ()
  else .error .refInvalid

/-- The row of a manifest entry. -/
def manifestRow (segments : List TemporalSegmentData) (entry : TrustManifestEntryV1) :
    Option TemporalRowEntryV1 :=
  (segments.find? fun segment => segment.header.segmentId == entry.segmentId).bind
    fun segment => segment.rows[entry.rowIndex]?

/-- `verify_against`, after the hash `prev`. -/
def verifyAgainst (hash : TrustHash) (segments : List TemporalSegmentData) :
    Fin (2 ^ 256) → List TrustManifestEntryV1 → Except CoveError Unit
  | _, [] => .ok ()
  | prev, entry :: entries =>
    match manifestRow segments entry with
    | none => .error .refInvalid
    | some row =>
      if hash prev row ≠ entry.expectedHash then .error .digestMismatch
      else verifyAgainst hash segments (hash prev row) entries

/-! ## The object sections of a file -/

/-- The checks of one segment against the catalog and the index. -/
def validateTemporalSegment (check : PageCheck) (catalog : List ObjectTypeEntryV1)
    (index : List TemporalSegmentIndexEntryV1) (segment : TemporalSegmentData) :
    Except CoveError Unit :=
  match AssocMap.collected segment.header.objectTypeId
      (catalog.map fun ty => (ty.objectTypeId, ty)) with
  | none => .error (.badSchema "temporal segment references unknown object_type_id")
  | some objectType =>
    match AssocMap.collected (segment.header.objectTypeId, segment.header.segmentId)
        (index.map fun e => ((e.objectTypeId, e.segmentId), e)) with
    | none => .error .segmentCorrupt
    | some entry => do
      validateTemporalSegmentAgainstIndex entry segment
      validateTemporalPropertyColumns check objectType segment

/-- The object sections of a file. -/
structure CoveOSections where
  catalog : List ObjectTypeEntryV1
  index : List TemporalSegmentIndexEntryV1
  segments : List TemporalSegmentData
  trustManifest : List TrustManifestEntryV1

/-- `validate_cove_o_cross_sections` on a file with one catalog, index and manifest. -/
def validateCoveOCrossSections (check : PageCheck) (hash : TrustHash) (file : CoveOSections) :
    Except CoveError Unit :=
  if file.segments.isEmpty then
    if file.index.isEmpty then .ok () else .error .segmentCorrupt
  else do
    validateSelfContained (placedRows file.segments)
    validateTemporalChains file.segments
    file.segments.forM (validateTemporalSegment check file.catalog file.index)
    if ¬(file.segments.map fun s => (s.header.objectTypeId, s.header.segmentId)).Nodup ∨
        file.segments.length ≠ file.index.length then .error .segmentCorrupt
    else do
      validateTrustManifestReferences file.trustManifest file.segments
      verifyAgainst hash file.segments 0 file.trustManifest

/-- `validate_cove_o_semantics`: the sections are parsed and checked, then checked against
each other. -/
def validateCoveOSemantics (check : PageCheck) (hash : TrustHash) (file : CoveOSections) :
    Except CoveError Unit := do
  if !objectTypeCatalogValid file.catalog then
    .error (.badSchema "object type catalog is invalid (Spec §56)")
  validateSegmentIndex file.index
  file.segments.forM TemporalSegmentData.parseChecks
  validateCoveOCrossSections check hash file

end Cove
