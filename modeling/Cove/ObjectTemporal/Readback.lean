import Cove.Core.Error
import Cove.Lib.Grouping
import Cove.Lib.KeyedList
import Cove.ObjectTemporal.Record

/-!
# Reconstructing object states

The state of every object at a cut: its visible records are replayed in order, full
records replacing the state, deltas merging into it, tombstones marking it.

- `CoveObjectTemporalCut`, `CoveObjectState`.
- `replayRecords`, `reconstructObjectStates`.
-/

namespace Cove

inductive CoveObjectTemporalCut where
  | latestCommitted
  | timestampUs (timestampUs : Int)
  | csn (csn : Nat)
  deriving DecidableEq, Repr

structure CoveObjectReconstructionOptions where
  temporalCut : CoveObjectTemporalCut
  branchKey : Option Nat
  includeTombstones : Bool
  deriving DecidableEq, Repr

/-- `CoveObjectReconstructionOptions::default`. -/
def CoveObjectReconstructionOptions.default : CoveObjectReconstructionOptions :=
  ⟨.latestCommitted, none, false⟩

inductive CoveObjectTombstoneStatus where
  | live
  | tombstoned
  deriving DecidableEq, Repr

structure CoveObjectState where
  objectTypeId : Nat
  objectTypeName : Text
  objectTypeFlags : UInt32
  branchKey : Nat
  goid : Id16
  latestRecordId : Id16
  latestSegmentId : Nat
  latestRowIndex : Nat
  timestampUs : Int
  csn : Nat
  recordKind : RecordKind
  tombstoneStatus : CoveObjectTombstoneStatus
  properties : List CoveObjectPropertyValue

def CoveObjectState.objectKey (state : CoveObjectState) : ObjectKey :=
  toLex (state.objectTypeId, toLex (state.branchKey, state.goid))

/-- `record_visible_at_cut`. -/
def recordVisibleAtCut (record : CoveObjectRecord) : CoveObjectTemporalCut → Bool
  | .latestCommitted => true
  | .timestampUs timestampUs => record.timestampUs ≤ timestampUs
  | .csn csn => record.csn ≤ csn

/-! ## Previous references -/

/-- The last record at a place: what collecting into a map by place keeps. -/
def recordAt (records : List CoveObjectRecord) (segmentId rowIndex : Nat) :
    Option CoveObjectRecord :=
  records.reverse.find? fun r => r.segmentId == segmentId && r.rowIndex == rowIndex

/-- The check of `validate_prev_refs` on one record. -/
def prevRefValid (records : List CoveObjectRecord) (record : CoveObjectRecord) : Bool :=
  match record.prevRef with
  | none => true
  | some prevRef =>
    if prevRef.targetKind > 1 then false
    else
      match recordAt records prevRef.segmentId prevRef.rowIndex with
      | none => false
      | some prev =>
        prev.objectTypeId == record.objectTypeId && prev.branchKey == record.branchKey &&
          prev.goid == record.goid && recordSortKey prev < recordSortKey record

/-- `validate_prev_refs`. -/
def validatePrevRefs (records : List CoveObjectRecord) : Except CoveError Unit :=
  if records.all (prevRefValid records) then .ok () else .error .refInvalid

/-- `validate_record_chain_step`: a reference names the record replayed last. -/
def validateRecordChainStep (record : CoveObjectRecord) (current : Option CoveObjectState) :
    Except CoveError Unit :=
  match record.prevRef, current with
  | none, _ => .ok ()
  | some _, none => .error .refInvalid
  | some prevRef, some current =>
    if current.latestSegmentId ≠ prevRef.segmentId ∨
        current.latestRowIndex ≠ prevRef.rowIndex then .error .refInvalid
    else .ok ()

/-! ## The replay of one object -/

/-- `state_from_full_record`. -/
def stateFromFullRecord (record : CoveObjectRecord) : CoveObjectState where
  objectTypeId := record.objectTypeId
  objectTypeName := record.objectTypeName
  objectTypeFlags := record.objectTypeFlags
  branchKey := record.branchKey
  goid := record.goid
  latestRecordId := record.recordId
  latestSegmentId := record.segmentId
  latestRowIndex := record.rowIndex
  timestampUs := record.timestampUs
  csn := record.csn
  recordKind := record.recordKind
  tombstoneStatus := if record.recordKind = .tombstone then .tombstoned else .live
  properties := record.properties

/-- The state now reflects `record`. -/
def CoveObjectState.advance (state : CoveObjectState) (record : CoveObjectRecord) :
    CoveObjectState :=
  { state with
    latestRecordId := record.recordId
    latestSegmentId := record.segmentId
    latestRowIndex := record.rowIndex
    timestampUs := record.timestampUs
    csn := record.csn
    recordKind := record.recordKind }

/-- `apply_delta_record`. -/
def applyDeltaRecord (state : CoveObjectState) (record : CoveObjectRecord) : CoveObjectState :=
  { state.advance record with
    tombstoneStatus := .live
    properties := KeyedList.merge (·.propertyId) state.properties record.properties }

/-- The body of the replay loop. -/
def replayRecord (current : Option CoveObjectState) (record : CoveObjectRecord) :
    Except CoveError (Option CoveObjectState) := do
  validateRecordChainStep record current
  match record.recordKind, current with
  | .baseline, _ | .snapshot, _ => .ok (some (stateFromFullRecord record))
  | .delta, some state => .ok (some (applyDeltaRecord state record))
  | .delta, none => .ok (some (stateFromFullRecord record))
  | .tombstone, some state =>
    .ok (some { state.advance record with tombstoneStatus := .tombstoned })
  | .tombstone, none =>
    .ok (some { stateFromFullRecord record with tombstoneStatus := .tombstoned })
  | .reservedLegacyMaterializedDelta, _ =>
    .error (.badSchema "reserved legacy materialized delta cannot be reconstructed")

/-- The replay loop. -/
def replayRecords (current : Option CoveObjectState) :
    List CoveObjectRecord → Except CoveError (Option CoveObjectState)
  | [] => .ok current
  | record :: records => do
    let current ← replayRecord current record
    replayRecords current records

/-! ## All objects -/

/-- The records of a replay: those of the branch, at the cut. -/
def visibleRecords (options : CoveObjectReconstructionOptions)
    (records : List CoveObjectRecord) : List CoveObjectRecord :=
  records.filter fun record =>
    !(options.branchKey.any fun branchKey => record.branchKey != branchKey) &&
      recordVisibleAtCut record options.temporalCut

/-- The replay order of the records of one object. -/
def replayOrder (records : List CoveObjectRecord) : List CoveObjectRecord :=
  records.insertionSort fun a b => recordSortKey a ≤ recordSortKey b

/-- The states of the groups that have one to return. -/
def statesOfGroups (includeTombstones : Bool) :
    List (ObjectKey × List CoveObjectRecord) → Except CoveError (List CoveObjectState)
  | [] => .ok []
  | (_, records) :: groups => do
    let current ← replayRecords none (replayOrder records)
    let states ← statesOfGroups includeTombstones groups
    match current with
    | some state =>
      if includeTombstones || state.tombstoneStatus == .live then .ok (state :: states)
      else .ok states
    | none => .ok states

/-- The key of the final sort. -/
def CoveObjectState.sortKey (state : CoveObjectState) :
    Nat ×ₗ Nat ×ₗ Id16 ×ₗ Int ×ₗ Nat :=
  toLex (state.objectTypeId, toLex (state.branchKey, toLex (state.goid,
    toLex (state.timestampUs, state.csn))))

/-- `reconstruct_object_states`. -/
def reconstructObjectStates (surface : CoveObjectSurface)
    (options : CoveObjectReconstructionOptions) : Except CoveError (List CoveObjectState) := do
  validatePrevRefs surface.records
  let grouped := Grouping.grouped CoveObjectRecord.objectKey
    (visibleRecords options surface.records)
  let states ← statesOfGroups options.includeTombstones grouped
  .ok (states.insertionSort fun a b => a.sortKey ≤ b.sortKey)

end Cove
