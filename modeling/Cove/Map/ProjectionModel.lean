import Cove.Lib.ParseInt
import Cove.ObjectTemporal.Readback

/-!
# The model a projection reads

The rows a projection works on, and their reconstruction at a cut, which replays the history of
every object on its own. They come either from a file, whose history is reconstructed, or straight
from the mapping.

- `ProjectionRow`, `rowFromSurfaceRecord`, `rowFromReconstructedState`.
- `replayProjectionRow`, `reconstructProjectionRowsAtCut`.
- `ProjectionModel`, `ProjectionModel.fromSurface`.
- `parseProjectionTemporalMode`: the temporal modes by name, and cuts with their value.
- `rowsForProjection`: the rows of a temporal mode.
-/

namespace Cove

/-! ## Rows -/

structure ProjectionProperty where
  propertyId : Nat
  propertyName : Text
  flags : UInt32
  value : Json

structure ProjectionRow where
  objectTypeId : Nat
  objectType : Text
  objectTypeFlags : UInt32
  goid : Id16
  recordId : Id16
  branchKey : Nat
  recordKind : RecordKind
  timestampUs : Int
  csn : Nat
  segmentId : Nat
  rowIndex : Nat
  properties : List ProjectionProperty

def ProjectionRow.objectKey (row : ProjectionRow) : ObjectKey :=
  toLex (row.objectTypeId, toLex (row.branchKey, row.goid))

/-- `temporal_sort_key`. -/
def temporalSortKey (row : ProjectionRow) : SortKey :=
  toLex (row.timestampUs, toLex (row.csn, toLex (row.segmentId, toLex (row.rowIndex,
    row.recordId))))

/-- `sort_by_key(temporal_sort_key)`. -/
def temporalOrder (rows : List ProjectionRow) : List ProjectionRow :=
  rows.insertionSort fun a b => temporalSortKey a ≤ temporalSortKey b

def projectionProperty (property : CoveObjectPropertyValue) : ProjectionProperty :=
  ⟨property.propertyId, property.propertyName, property.flags, property.value⟩

/-- `row_from_surface_record`. -/
def rowFromSurfaceRecord (record : CoveObjectRecord) : ProjectionRow where
  objectTypeId := record.objectTypeId
  objectType := record.objectTypeName
  objectTypeFlags := record.objectTypeFlags
  goid := record.goid
  recordId := record.recordId
  branchKey := record.branchKey
  recordKind := record.recordKind
  timestampUs := record.timestampUs
  csn := record.csn
  segmentId := record.segmentId
  rowIndex := record.rowIndex
  properties := record.properties.map projectionProperty

/-- `row_from_reconstructed_state`. -/
def rowFromReconstructedState (state : CoveObjectState) : ProjectionRow where
  objectTypeId := state.objectTypeId
  objectType := state.objectTypeName
  objectTypeFlags := state.objectTypeFlags
  goid := state.goid
  recordId := state.latestRecordId
  branchKey := state.branchKey
  recordKind := state.recordKind
  timestampUs := state.timestampUs
  csn := state.csn
  segmentId := state.latestSegmentId
  rowIndex := state.latestRowIndex
  properties := state.properties.map projectionProperty

/-! ## Reconstruction at a cut -/

/-- `apply_projection_delta`. -/
def applyProjectionDelta (state delta : ProjectionRow) : ProjectionRow :=
  { state with
    recordId := delta.recordId
    recordKind := delta.recordKind
    timestampUs := delta.timestampUs
    csn := delta.csn
    segmentId := delta.segmentId
    rowIndex := delta.rowIndex
    properties := KeyedList.merge (·.propertyId) state.properties delta.properties }

/-- The body of the replay loop: a tombstone forgets the object. -/
def replayProjectionRow (current : Option ProjectionRow) (row : ProjectionRow) :
    Option ProjectionRow :=
  match row.recordKind, current with
  | .baseline, _ | .snapshot, _ => some row
  | .delta, some state => some (applyProjectionDelta state row)
  | .delta, none => some row
  | .tombstone, _ => none
  | .reservedLegacyMaterializedDelta, current => current

/-- The row one object is left with. -/
def replayProjectionRows (rows : List ProjectionRow) : Option ProjectionRow :=
  (temporalOrder rows).foldl replayProjectionRow none

/-- `reconstruct_projection_rows_at_cut`. -/
def reconstructProjectionRowsAtCut (rows : List ProjectionRow)
    (visible : ProjectionRow → Bool) : List ProjectionRow :=
  temporalOrder ((Grouping.grouped ProjectionRow.objectKey (rows.filter visible)).filterMap
    fun group => replayProjectionRows group.2)

/-! ## Models -/

structure ProjectionModel where
  rows : List ProjectionRow
  reconstructedRows : List ProjectionRow
  evidenceEntries : List Json
  persisted : Bool

/-- `from_surface`, with the evidence entries of the file. -/
def ProjectionModel.fromSurface (surface : CoveObjectSurface) (evidenceEntries : List Json) :
    Except CoveError ProjectionModel := do
  let states ← reconstructObjectStates surface .default
  .ok {
    rows := surface.records.map rowFromSurfaceRecord
    reconstructedRows := states.map rowFromReconstructedState
    evidenceEntries
    persisted := true }

/-! ## Temporal modes -/

inductive ProjectionTemporalMode where
  | latestCommitted
  | fullHistory
  | commitOrder
  | validTime
  | observedTime
  | asOfTimestamp (timestampUs : Int)
  | asOfCsn (csn : Nat)
  deriving DecidableEq, Repr

/-- The prefixes of a timestamp cut. -/
def timestampPrefixes : List Text :=
  ["as_of_timestamp_us:".toList, "as_of_timestamp_us=".toList, "timestamp_us:".toList,
    "timestamp_us=".toList, "as_of_time:".toList, "as_of_time=".toList]

/-- The prefixes of a commit number cut. -/
def csnPrefixes : List Text :=
  ["as_of_csn:".toList, "as_of_csn=".toList, "csn:".toList, "csn=".toList]

/-- What follows the first of `prefixes` that `value` starts with. -/
def stripFirstPrefix ( prefixes : List Text) (value : Text) : Option Text :=
  prefixes.findSome? fun p => if p.isPrefixOf value then some (value.drop p.length) else none

/-- `parse_temporal_cut_value`. -/
def parseTemporalCutValue (value : Text) : Option ProjectionTemporalMode :=
  match stripFirstPrefix timestampPrefixes value with
  | some raw => (ParseInt.parseSigned (-2 ^ 63) (2 ^ 63 - 1) raw).map .asOfTimestamp
  | none =>
    match stripFirstPrefix csnPrefixes value with
    | some raw => (ParseInt.parseUnsigned (2 ^ 64 - 1) raw).map .asOfCsn
    | none => none

/-- `parse_projection_temporal_mode`. -/
def parseProjectionTemporalMode (value : Text) : Option ProjectionTemporalMode :=
  if value = "latest_committed".toList then some .latestCommitted
  else if value = "full_history".toList then some .fullHistory
  else if value = "commit_order".toList then some .commitOrder
  else if value = "valid_time".toList then some .validTime
  else if value = "observed_time".toList then some .observedTime
  else parseTemporalCutValue value

/-! ## Rows by mode -/

def propertyFlagAssociationValidFrom : UInt32 := 0x08

def propertyFlagAssociationObservedAt : UInt32 := 0x20

/-- `ensure_temporal_surface_fields`. -/
def ensureTemporalSurfaceFields (rows : List ProjectionRow) (flag : UInt32)
    (name mode : Text) : Except Text Unit :=
  if rows.isEmpty then .ok ()
  else if rows.any fun row => row.properties.any fun property =>
      property.flags &&& flag != 0 || property.propertyName == name then .ok ()
  else
    .error ("temporal_mode '".toList ++ mode ++ "' requires declared '".toList ++ name ++
      "' fields on the projected surface".toList)

/-- The cut of a mode that has one, on rows. -/
def rowVisibleAtCut (cut : CoveObjectTemporalCut) (row : ProjectionRow) : Bool :=
  match cut with
  | .latestCommitted => true
  | .timestampUs timestampUs => row.timestampUs ≤ timestampUs
  | .csn csn => row.csn ≤ csn

/-- The rows of a temporal mode in a model read from a file. -/
def ProjectionModel.rowsOfMode (model : ProjectionModel) :
    ProjectionTemporalMode → Except Text (List ProjectionRow)
  | .latestCommitted => .ok (temporalOrder model.reconstructedRows)
  | .fullHistory | .commitOrder => .ok (temporalOrder model.rows)
  | .validTime => do
    ensureTemporalSurfaceFields model.reconstructedRows propertyFlagAssociationValidFrom
      "valid_from".toList "valid_time".toList
    .ok (temporalOrder model.reconstructedRows)
  | .observedTime => do
    ensureTemporalSurfaceFields model.reconstructedRows propertyFlagAssociationObservedAt
      "observed_at".toList "observed_time".toList
    .ok (temporalOrder model.reconstructedRows)
  | .asOfTimestamp timestampUs =>
    .ok (reconstructProjectionRowsAtCut model.rows (rowVisibleAtCut (.timestampUs timestampUs)))
  | .asOfCsn csn =>
    .ok (reconstructProjectionRowsAtCut model.rows (rowVisibleAtCut (.csn csn)))

/-- `rows_for_projection`: a model straight from the mapping gives its rows as they are. -/
def ProjectionModel.rowsForProjection (model : ProjectionModel) (projectionId : Text)
    (temporalMode : Option Text) : Except Text (List ProjectionRow) :=
  if model.persisted then
    match parseProjectionTemporalMode (temporalMode.getD "latest_committed".toList) with
    | some mode => model.rowsOfMode mode
    | none =>
      .error ("projection '".toList ++ projectionId ++ "' uses unsupported temporal_mode '".toList
        ++ temporalMode.getD [] ++ "'".toList)
  else .ok model.rows

end Cove
