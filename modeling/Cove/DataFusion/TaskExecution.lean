import Cove.DataFusion.TaskGraph

/-!
# Executing a scan

The rows a scan emits, decoded file by file, or task by task from the partitions of a task
graph. A row is named by its place, so equal rows of different morsels stay apart.

- `decodeMorsel`: the rows of one morsel, which both ways of execution share.
- `decodeLocalDatasetScan`: every morsel of every file.
- `decodeTask`, `decodePartitions`: the tasks of a graph.
-/

namespace Cove

/-- A morsel of the dataset. -/
structure MorselPlace where
  fileOrdinal : Nat
  segmentIndex : Nat
  morselId : Nat
  deriving DecidableEq, Repr

def ScanTask.place (task : ScanTask) : MorselPlace :=
  ⟨task.fileOrdinal, task.segmentIndex, task.morselId⟩

/-- An emitted row: its morsel and its number there. -/
structure ScanRow where
  place : MorselPlace
  row : Nat
  deriving DecidableEq, Repr

/-! ## Plans -/

/-- `plan_selects_no_rows`. -/
def FileScanPlan.selectsNoRows (plan : FileScanPlan) : Bool :=
  plan.coviCandidates.any List.isEmpty ||
    plan.filters.any fun filter => filter.predicate.any emptyMembership

/-- `validate_scan_plan`: the columns of the plan exist. -/
def validateScanPlan (file : ScanFile) : Except CoveError Unit := do
  let columnCount := file.state.table.columns.length
  file.plan.scanProjection.forM fun index =>
    if index ≥ columnCount then
      .error (.badSchema
        s!"scan projection index {index} is out of bounds for {columnCount} columns")
    else .ok ()
  file.plan.predicateColumns.forM fun index =>
    if index ≥ columnCount then
      .error (.badSchema
        s!"predicate column index {index} is out of bounds for {columnCount} columns")
    else .ok ()

/-- `ordered_morsels`: by rank and morsel id when the plan asks for the first rows. -/
def orderedMorsels (plan : FileScanPlan) (segmentIndex : Nat) (entries : List RowMorselEntryV1) :
    List RowMorselEntryV1 :=
  match plan.topnRank with
  | none => entries
  | some rank => entries.mergeSort fun a b =>
      rank segmentIndex a.morselId < rank segmentIndex b.morselId ∨
        (rank segmentIndex a.morselId = rank segmentIndex b.morselId ∧ a.morselId ≤ b.morselId)

/-- `saturating_add` on 64-bit numbers. -/
def saturatingAdd (a b : Nat) : Nat := min (a + b) (2 ^ 64 - 1)

/-- `covi_morsel_pruned`: no candidate range meets the morsel. -/
def coviMorselPruned (plan : FileScanPlan) (segmentId morselId morselRowStart rowCount : Nat) :
    Bool :=
  plan.coviCandidates.any fun candidates =>
    let morselEnd := saturatingAdd morselRowStart rowCount
    !candidates.any fun candidate =>
      candidate.segmentId == segmentId && candidate.morselId == morselId &&
        decide (candidate.rowStart < morselEnd) &&
        decide (saturatingAdd candidate.rowStart candidate.rowCount > morselRowStart)

/-- `apply_overlay_to_selection`: the visible rows of a selection. -/
def applyOverlay (visibility : RowVisibility) (morselRowStart totalRows : Nat)
    (rows : List Nat) : Except CoveError (List Nat) :=
  if visibility = .all then .ok rows
  else rows.filterM fun row => do
    visibility.isRowVisible (← checkedAdd morselRowStart row) totalRows

/-! ## Morsels -/

section

variable (crc32c : List UInt8 → Nat)

/-- The rows a task brings with it, or those the predicates select. -/
def taskSelection (file : ScanFile) (segmentIndex morselId : Nat) :
    Option (List Nat) → Except CoveError (List Nat)
  | some rows => .ok rows
  | none => file.reader.selectedRows segmentIndex morselId

/-- The rows of one morsel. A task can bring the rows to select with it. -/
def decodeMorsel (file : ScanFile) (fileOrdinal segmentIndex : Nat)
    (segment : TableSegmentIndexEntryV1) (morsel : RowMorselEntryV1)
    (rowSelection : Option (List Nat)) : Except CoveError (List ScanRow) := do
  let rowStart ← checkedAdd segment.rowStart morsel.firstRowInSegment
  let visibility ← file.state.visibility
  let totalRows := file.state.table.rowCount
  if ← visibility.morselAllHidden rowStart morsel.rowCount totalRows then .ok []
  else if coviMorselPruned file.plan segment.segmentId morsel.morselId rowStart
      morsel.rowCount then .ok []
  else if ← morselPruned file.state segment.segmentId morsel.morselId crc32c
      file.plan.toScanPlan then .ok []
  else if ← file.reader.nullPruned segmentIndex morsel.morselId then .ok []
  else
    let rows ← taskSelection file segmentIndex morsel.morselId rowSelection
    let rows ← applyOverlay visibility rowStart totalRows rows
    if rows.isEmpty then .ok []
    else do
      file.reader.recordBatch segmentIndex morsel.morselId rows
      .ok (rows.map fun row => ⟨⟨fileOrdinal, segmentIndex, morsel.morselId⟩, row⟩)

/-! ## The whole dataset -/

/-- The morsels of a segment. -/
def decodeSegment (file : ScanFile) (fileOrdinal : Nat)
    (entry : TableSegmentIndexEntryV1 × Nat) : Except CoveError (List ScanRow) := do
  let morsels ← file.reader.morsels entry.2
  let batches ← (orderedMorsels file.plan entry.2 morsels).mapM fun morsel =>
    decodeMorsel crc32c file fileOrdinal entry.2 entry.1 morsel none
  .ok batches.flatten

/-- `decode_scan`: the segments of a file. -/
def decodeScan (file : ScanFile) (fileOrdinal : Nat) : Except CoveError (List ScanRow) := do
  validateScanPlan file
  let batches ← file.state.segments.zipIdx.mapM (decodeSegment crc32c file fileOrdinal)
  .ok batches.flatten

/-- `decode_local_dataset_scan`. -/
def decodeLocalDatasetScan (dataset : ScanDataset) : Except CoveError (List ScanRow) := do
  let batches ← dataset.files.zipIdx.mapM fun (file, fileOrdinal) =>
    if file.plan.selectsNoRows then .ok [] else decodeScan crc32c file fileOrdinal
  .ok batches.flatten

/-! ## Tasks -/

/-- The rows of the morsel at a place. -/
def decodePlace (dataset : ScanDataset) (place : MorselPlace) (rowSelection : Option (List Nat)) :
    Except CoveError (List ScanRow) :=
  match dataset.files[place.fileOrdinal]? with
  | none => .error (.badSection s!"file ordinal {place.fileOrdinal} is out of bounds")
  | some file =>
    if file.plan.selectsNoRows then .ok []
    else do
      validateScanPlan file
      match file.state.segments[place.segmentIndex]? with
      | none => .error .segmentCorrupt
      | some segment => do
        let morsels ← file.reader.morsels place.segmentIndex
        match morsels.find? fun morsel => morsel.morselId == place.morselId with
        | none => .error .segmentCorrupt
        | some morsel =>
          decodeMorsel crc32c file place.fileOrdinal place.segmentIndex segment morsel rowSelection

/-- The rows of a task. A run of tasks of one file or one segment shares the plan and the
morsel directory, which each of them reads the same. -/
def decodeTask (dataset : ScanDataset) (task : ScanTask) : Except CoveError (List ScanRow) :=
  decodePlace crc32c dataset task.place task.rowSelection

/-- `decode_local_dataset_scan_tasks`: the tasks of one partition. -/
def decodeLocalDatasetScanTasks (dataset : ScanDataset) (tasks : List ScanTask) :
    Except CoveError (List ScanRow) := do
  .ok (← tasks.mapM (decodeTask crc32c dataset)).flatten

/-- Every partition of a graph. -/
def decodePartitions (dataset : ScanDataset) (partitions : List (List ScanTask)) :
    Except CoveError (List ScanRow) := do
  .ok (← partitions.mapM (decodeLocalDatasetScanTasks crc32c dataset)).flatten

end

end Cove
