import Cove.Core.Canonical
import Cove.ObjectTemporal.Readback
import Cove.ObjectTemporal.Segment

/-!
# Reading records back from segments

A validated file is read segment by segment: the columns of a segment are decoded, and
every row takes its value from each of them.

- `decodePropertyValue`, `decodePropertyColumn`: one value, one column.
- `recordsFromSegment`: the records of a segment.
- `readObjectRecords`: **the records of a file**, once it has been validated.
-/

namespace Cove

/-! ## Values -/

/-- `hex_encode` of bytes. -/
def hexBytes (bytes : List UInt8) : Text := bytes.flatMap fun b => TextOps.hexText 2 b.toNat

/-- The decimal text of a two's complement number. -/
def signedText (bytes : List UInt8) : Json :=
  .string (TextOps.intText (LittleEndian.signed bytes.length (LittleEndian.ofLe bytes)))

/-- `{:?}` of a physical kind. -/
def CovePhysicalKind.debugName : CovePhysicalKind → String
  | fileCode => "FileCode"
  | numCode => "NumCode"
  | boolean => "Boolean"
  | fixedBytes => "FixedBytes"
  | varBytes => "VarBytes"
  | list => "List"
  | struct => "Struct"
  | map => "Map"

/-- `decode_bytes_value`. -/
def decodeBytesValue (codec : ValueCodec) (property : PropertyEntryV1) (bytes : List UInt8) :
    Except CoveError Json :=
  match property.physicalKind with
  | .boolean =>
    match bytes with
    | [0] => .ok (.bool false)
    | [1] => .ok (.bool true)
    | _ => .error .pageCorrupt
  | .fixedBytes =>
    match property.logicalType with
    | .uuid =>
      if bytes.length ≠ 16 then .error .pageCorrupt else .ok (.string (hexBytes bytes))
    | .decimal64 => if bytes.length ≠ 8 then .error .pageCorrupt else .ok (signedText bytes)
    | .decimal128 => if bytes.length ≠ 16 then .error .pageCorrupt else .ok (signedText bytes)
    | _ => .ok (.string (hexBytes bytes))
  | .varBytes =>
    match property.logicalType with
    | .utf8 =>
      match TextOps.fromUtf8 bytes with
      | some text => .ok (.string text)
      | none => .error .pageCorrupt
    | .json =>
      match codec.jsonFromBytes bytes with
      | some value => .ok value
      | none => .error .pageCorrupt
    | .binary => .ok (.string ((TextOps.fromUtf8 bytes).getD (hexBytes bytes)))
    | _ => .ok (.string (hexBytes bytes))
  | kind => .error (.unsupportedEncoding
      s!"COVE-O readback cannot decode bytes for physical kind {kind.debugName}")

/-- `decode_property_value`, and the nested shape of the property restored. -/
def decodePropertyValue (codec : ValueCodec) (objectTypeId : Nat) (property : PropertyEntryV1)
    (stored : Option StoredValue) : Except CoveError Json := do
  let value ← match stored with
    | none => .ok .null
    | some (.boolean b) => .ok (.bool b)
    | some (.numCode code) => .ok (.number (.posInt (UInt64.ofNat code)))
    | some (.fixedBytes bytes) | some (.varBytes bytes) => decodeBytesValue codec property bytes
    | some (.fileCode code) => codec.fileCodeValue objectTypeId property code
  codec.restoreNested objectTypeId property value

/-! ## Columns -/

/-- The values of one page put in their place. -/
def decodePage (codec : ValueCodec) (segment : TemporalSegmentData) (property : PropertyEntryV1)
    (values : List Json) (page : TemporalPropertyPage) : Except CoveError (List Json) := do
  let rowStart := page.morselId * segment.header.morselRowCount
  let rowEnd := rowStart + page.rowCount
  if rowEnd > values.length then .error .pageCorrupt
  else if page.values.length ≠ page.rowCount then .error .pageCorrupt
  else do
    let decoded ← page.values.mapM
      (decodePropertyValue codec segment.header.objectTypeId property)
    .ok (values.take rowStart ++ decoded ++ values.drop rowEnd)

/-- `decode_property_column`. -/
def decodePropertyColumn (codec : ValueCodec) (segment : TemporalSegmentData)
    (property : PropertyEntryV1) (column : TemporalPropertyColumn) :
    Except CoveError (List Json) :=
  column.pages.foldlM (decodePage codec segment property)
    (List.replicate segment.rows.length .null)

/-- The body of the loop over the columns: the property of a column and its values. -/
def decodedColumn (codec : ValueCodec) (segment : TemporalSegmentData)
    (objectType : ObjectTypeEntryV1) (column : TemporalPropertyColumn) :
    Except CoveError (PropertyEntryV1 × List Json) :=
  match AssocMap.collected column.columnId
      (objectType.properties.map fun p => (p.propertyId, p)) with
  | none => .error (.badSchema "temporal property column references missing property_id")
  | some property => do
    let values ← decodePropertyColumn codec segment property column
    .ok (property, values)

/-! ## Records -/

/-- The property a row holds in a decoded column. -/
def columnProperty (rowIndex : Nat) (column : PropertyEntryV1 × List Json) :
    CoveObjectPropertyValue where
  propertyId := column.1.propertyId
  propertyName := column.1.propertyName
  logicalType := column.1.logicalType
  physicalKind := column.1.physicalKind
  flags := UInt32.ofNat column.1.flags
  value := column.2.getD rowIndex .null

/-- The record of a row. -/
def recordFromRow (segmentId : Nat) (objectType : ObjectTypeEntryV1) (row : TemporalRowEntryV1)
    (rowIndex : Nat) (properties : List CoveObjectPropertyValue) : CoveObjectRecord where
  objectTypeId := objectType.objectTypeId
  objectTypeName := objectType.typeName
  objectTypeFlags := UInt32.ofNat objectType.flags
  segmentId := segmentId
  rowIndex := rowIndex
  timestampUs := row.timestampUs
  csn := row.csn
  branchKey := row.branchKey
  goid := row.goid
  recordId := row.recordId
  recordKind := row.recordKind
  prevRef := row.prevRef
  properties := properties

/-- `records_from_segment`. -/
def recordsFromSegment (codec : ValueCodec) (segment : TemporalSegmentData)
    (objectType : ObjectTypeEntryV1) : Except CoveError (List CoveObjectRecord) := do
  let columns ← segment.propertyColumns.mapM (decodedColumn codec segment objectType)
  .ok (segment.rows.zipIdx.map fun (row, rowIndex) =>
    recordFromRow segment.header.segmentId objectType row rowIndex
      (columns.map (columnProperty rowIndex)))

/-- The body of the loop over the segments. -/
def recordsOfSegment (codec : ValueCodec) (catalog : List ObjectTypeEntryV1)
    (segment : TemporalSegmentData) : Except CoveError (List CoveObjectRecord) :=
  match AssocMap.collected segment.header.objectTypeId
      (catalog.map fun ty => (ty.objectTypeId, ty)) with
  | none => .error (.badSchema "temporal segment references missing object_type_id")
  | some objectType => recordsFromSegment codec segment objectType

/-- `read_object_surface_from_bytes`: the records of a file that passes validation. -/
def readObjectRecords (check : PageCheck) (hash : TrustHash) (codec : ValueCodec)
    (file : CoveOSections) : Except CoveError (List CoveObjectRecord) := do
  validateCoveOSemantics check hash file
  let records ← file.segments.mapM (recordsOfSegment codec file.catalog)
  .ok records.flatten

end Cove
