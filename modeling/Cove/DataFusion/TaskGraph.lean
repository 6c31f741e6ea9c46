import Mathlib.Data.Prod.Lex
import Cove.DataFusion.LookupSelection
import Cove.DataFusion.MorselPruning
import Cove.DataFusion.ScanSplits
import Cove.Lib.AssocMap
import Cove.Lib.Grouping

/-!
# The task graph of a scan

A scan is cut into tasks, one for each morsel that metadata cannot rule out, and the tasks
into partitions that run on their own.

- `ScanTask`, `TaskGraph`, `ScanFile`, `ScanDataset`.
- `maybePushTask`: the task of one morsel, unless it is pruned or fully hidden.
- `splitPlaces`: the morsels the scheduler reads out of a split, a rectangle of segment ids
  and morsel ids.
- `buildLookupRowrefTaskGraph`: the tasks of the morsels a lookup index lists.
- `buildTaskGraph`.
-/

namespace Cove

/-! ## Plans, files and tasks -/

/-- A range of rows an index proposes. -/
structure ScanCandidateRowRange where
  segmentId : Nat
  morselId : Nat
  rowStart : Nat
  rowCount : Nat
  deriving DecidableEq, Repr

/-- The plan of a scan, resolved against one file. -/
structure FileScanPlan extends ScanPlan where
  scanProjection : List Nat
  predicateColumns : List Nat
  outputColumns : List Nat
  coviCandidates : Option (List ScanCandidateRowRange)
  topnRank : Option (Nat → Nat → Nat)

/-- An entry of the morsel directory of a segment. -/
structure RowMorselEntryV1 where
  morselId : Nat
  firstRowInSegment : Nat
  rowCount : Nat
  deriving DecidableEq, Repr

/-- The directory the index entry of a segment announces: morsels of equal size, numbered
from 0, the last one cut to the rows of the segment. -/
def TableSegmentIndexEntryV1.morselEntries (segment : TableSegmentIndexEntryV1) :
    List RowMorselEntryV1 :=
  (List.range segment.morselCount).map fun morselId =>
    ⟨morselId, morselId * segment.morselRowCount,
      min (segment.rowCount - morselId * segment.morselRowCount) segment.morselRowCount⟩

/-- A directory as reading a segment accepts it: the announced one, with no empty morsel and
every row of the segment. -/
structure RowMorselDirectory (segment : TableSegmentIndexEntryV1)
    (entries : List RowMorselEntryV1) : Prop where
  entries_eq : entries = segment.morselEntries
  rowCount_pos : ∀ entry ∈ entries, 0 < entry.rowCount
  sum_rows : (entries.map RowMorselEntryV1.rowCount).sum = segment.rowCount
  rowCount_lt : segment.rowCount < 2 ^ 32

/-- Reading a file, by segment index and morsel id: the morsel directory of a segment,
whether the null counts of the pages rule a morsel out, the rows its predicates select, and
whether the batch of these rows can be built. -/
structure PageReader where
  morsels : Nat → Except CoveError (List RowMorselEntryV1)
  nullPruned : Nat → Nat → Except CoveError Bool
  selectedRows : Nat → Nat → Except CoveError (List Nat)
  recordBatch : Nat → Nat → List Nat → Except CoveError Unit

/-- A file of the dataset as a scan sees it: its own view, the plan resolved for it, its
accepted scan splits and its pages. -/
structure ScanFile where
  state : DatasetState
  plan : FileScanPlan
  scanSplits : Option (ValidatedScanSplitIndexV2 state.table state.segments)
  reader : PageReader
  /-- Reading the segment index has checked this. -/
  segmentIds_nodup : (state.segments.map TableSegmentIndexEntryV1.segmentId).Nodup
  directories : ∀ segmentIndex segment entries, state.segments[segmentIndex]? = some segment →
    reader.morsels segmentIndex = .ok entries → RowMorselDirectory segment entries

/-- The files of a scan, with the choices the planner made for all of them. -/
structure ScanDataset where
  files : List ScanFile
  lookupRowrefEligible : Bool
  targetMorselsPerPartition : Nat

structure ScanTask where
  fileOrdinal : Nat
  segmentIndex : Nat
  segmentId : Nat
  morselId : Nat
  rowStart : Nat
  rowCount : Nat
  splitId : Option Nat
  clusterId : Option Nat
  outputColumns : List Nat
  predicateColumns : List Nat
  rowSelection : Option (List Nat)
  deriving DecidableEq, Repr

structure TaskGraph where
  tasks : List ScanTask
  partitions : List (List ScanTask)
  morselsConsidered : Nat
  morselsPruned : Nat
  scanSplitsUsed : Nat
  deriving DecidableEq, Repr

/-! ## One morsel -/

/-- The visibility of the only file of a view. -/
def DatasetState.visibility (state : DatasetState) : Except CoveError RowVisibility :=
  match state.files.head? with
  | some visibility => .ok visibility
  | none => .error (.badSection "file ordinal 0 is out of bounds")

/-- `morsel_row_count_for`. -/
def TableSegmentIndexEntryV1.morselRowCountFor (segment : TableSegmentIndexEntryV1)
    (morselId : Nat) : Except CoveError Nat := do
  let start ← checkedMulU32 morselId segment.morselRowCount
  if start ≥ segment.rowCount then .error .offsetRange
  else .ok (min (segment.rowCount - start) segment.morselRowCount)

/-- The first row of a morsel in its file. -/
def TableSegmentIndexEntryV1.morselRowStart (segment : TableSegmentIndexEntryV1)
    (morselId : Nat) : Except CoveError Nat := do
  checkedAdd segment.rowStart (← checkedMul morselId segment.morselRowCount)

section

variable (crc32c : List UInt8 → Nat)

/-- `maybe_push_task`: the task of a morsel, or nothing when the morsel is fully hidden or
pruned. -/
def maybePushTask (file : ScanFile) (fileOrdinal segmentIndex : Nat)
    (segment : TableSegmentIndexEntryV1) (morselId : Nat) (splitId clusterId : Option Nat) :
    Except CoveError (Option ScanTask) := do
  let rowStart ← segment.morselRowStart morselId
  let rowCount ← segment.morselRowCountFor morselId
  let visibility ← file.state.visibility
  if ← visibility.morselAllHidden rowStart rowCount file.state.table.rowCount then .ok none
  else if ← morselPruned file.state segment.segmentId morselId crc32c file.plan.toScanPlan then
    .ok none
  else
    .ok (some ⟨fileOrdinal, segmentIndex, segment.segmentId, morselId, rowStart, rowCount,
      splitId, clusterId, file.plan.outputColumns, file.plan.predicateColumns, none⟩)

/-! ## The morsels of a file -/

/-- A morsel as the scheduler visits it. -/
structure Visit where
  segmentIndex : Nat
  segment : TableSegmentIndexEntryV1
  morselId : Nat

/-- Every morsel of a file, in row order. -/
def allVisits (segments : List TableSegmentIndexEntryV1) : List Visit :=
  segments.zipIdx.flatMap fun (segment, segmentIndex) =>
    (List.range segment.morselCount).map fun morselId => ⟨segmentIndex, segment, morselId⟩

/-- `segment_by_id`: the index of a segment, the last one when an id repeats. -/
def segmentIndexById (segments : List TableSegmentIndexEntryV1) (segmentId : Nat) :
    Option Nat :=
  AssocMap.collected segmentId
    (segments.zipIdx.map fun (segment, segmentIndex) => (segment.segmentId, segmentIndex))

/-- The segment of an id with its index. -/
def segmentById (segments : List TableSegmentIndexEntryV1) (segmentId : Nat) :
    Option (Nat × TableSegmentIndexEntryV1) :=
  (segmentIndexById segments segmentId).bind fun segmentIndex =>
    (segments[segmentIndex]?).map fun segment => (segmentIndex, segment)

/-- The morsels the scheduler takes a split to name: in every segment of the range the
morsels from the first one on. -/
def splitVisits (segments : List TableSegmentIndexEntryV1) (split : ScanSplitEntryV2) :
    List Visit :=
  ((List.range' split.firstSegmentId split.segmentCount).filterMap (segmentById segments)).flatMap
    fun (segmentIndex, segment) =>
      (List.range' split.firstMorselId
        (min (split.firstMorselId + split.morselCount) segment.morselCount -
          split.firstMorselId)).map fun morselId => ⟨segmentIndex, segment, morselId⟩

/-- `single_cluster_id`. -/
def singleClusterId (firstClusterId clusterCount : Nat) : Option Nat :=
  if clusterCount = 1 then some firstClusterId else none

/-- What visiting the morsels of a file gives, one entry a morsel: split by split, or all
of them for the fallback. -/
inductive FileSchedule where
  | splits (outcomes : List (List (Option ScanTask)))
  | fallback (outcomes : List (Option ScanTask))

/-- The morsels of one split. -/
def scheduleSplit (file : ScanFile) (fileOrdinal : Nat) (split : ScanSplitEntryV2) :
    Except CoveError (List (Option ScanTask)) := do
  let _ ← checkedAddU32 split.firstSegmentId split.segmentCount
  let _ ← checkedAddU32 split.firstMorselId split.morselCount
  (splitVisits file.state.segments split).mapM fun visit =>
    maybePushTask crc32c file fileOrdinal visit.segmentIndex visit.segment visit.morselId
      (some split.splitId) (singleClusterId split.firstClusterId split.clusterCount)

/-- The morsels of one file. -/
def scheduleFile (file : ScanFile) (fileOrdinal : Nat) : Except CoveError FileSchedule :=
  match file.scanSplits with
  | some splits => do
    .ok (.splits (← splits.index.entries.mapM (scheduleSplit crc32c file fileOrdinal)))
  | none => do
    .ok (.fallback (← (allVisits file.state.segments).mapM fun visit =>
      maybePushTask crc32c file fileOrdinal visit.segmentIndex visit.segment visit.morselId
        none none))

end

namespace FileSchedule

/-- Every visit of the file. -/
def outcomes : FileSchedule → List (Option ScanTask)
  | splits outcomes => outcomes.flatten
  | fallback outcomes => outcomes

/-- The partitions of the splits that kept a task. -/
def splitPartitions : FileSchedule → List (List ScanTask)
  | splits outcomes =>
    (outcomes.map fun partition => partition.filterMap id).filter fun tasks => !tasks.isEmpty
  | fallback _ => []

/-- The tasks of a file without splits. -/
def fallbackTasks : FileSchedule → List ScanTask
  | splits _ => []
  | fallback outcomes => outcomes.filterMap id

end FileSchedule

/-! ## Partitions -/

/-- The chunks of a list, with the number of elements as fuel. -/
def chunksFrom (size : Nat) : Nat → List ScanTask → List (List ScanTask)
  | 0, _ => []
  | fuel + 1, tasks =>
    if tasks.isEmpty then [] else tasks.take size :: chunksFrom size fuel (tasks.drop size)

/-- `partition_tasks`. -/
def partitionTasks (tasks : List ScanTask) (targetMorselsPerPartition : Nat) :
    List (List ScanTask) :=
  chunksFrom (max targetMorselsPerPartition 1) tasks.length tasks

/-- `finalize_partitions`: there is always one partition. -/
def finalizePartitions (tasks : List ScanTask) (targetMorselsPerPartition : Nat) :
    List (List ScanTask) :=
  match partitionTasks tasks targetMorselsPerPartition with
  | [] => [[]]
  | partitions => partitions

/-! ## The row references of a lookup index -/

/-- `lookup_keys_for_plan`. -/
def lookupKeysForPlan (plan : ScanPlan) : Option (Nat × LookupKeyKind × List Nat) :=
  match plan.filters with
  | [filter] => lookupKeys filter.predicate
  | _ => none

/-- `RowrefMorselKey`, for the morsels of one file. -/
structure RowrefMorselKey where
  segmentIndex : Nat
  segmentId : Nat
  morselId : Nat
  rowStart : Nat
  rowCount : Nat
  deriving Repr

/-- The key as the tuple its derived order compares. -/
def RowrefMorselKey.toTuple (key : RowrefMorselKey) : Nat ×ₗ Nat ×ₗ Nat ×ₗ Nat ×ₗ Nat :=
  toLex (key.segmentIndex, toLex (key.segmentId, toLex (key.morselId,
    toLex (key.rowStart, key.rowCount))))

theorem RowrefMorselKey.toTuple_injective : Function.Injective toTuple := by
  rintro ⟨⟩ ⟨⟩ h
  simpa [toTuple] using h

instance : LinearOrder RowrefMorselKey :=
  LinearOrder.lift' RowrefMorselKey.toTuple RowrefMorselKey.toTuple_injective

/-- A listed row: its morsel and its number there. -/
structure ListedRow where
  key : RowrefMorselKey
  rowInMorsel : Nat

/-- The loop over the references of one lookup key. None when a reference names no row. -/
def listRows (state : DatasetState) : List RowRef → Except CoveError (Option (List ListedRow))
  | [] => .ok (some [])
  | row :: rows =>
    if row.tableId ≠ state.table.tableId then listRows state rows
    else
      match segmentById state.segments row.segmentId with
      | none => .ok none
      | some (segmentIndex, segment) => do
        let rowCount ← segment.morselRowCountFor row.morselId
        if row.rowInMorsel ≥ rowCount then .ok none
        else
          let rowStart ← segment.morselRowStart row.morselId
          let key := ⟨segmentIndex, segment.segmentId, row.morselId, rowStart, rowCount⟩
          match ← listRows state rows with
          | none => .ok none
          | some listed => .ok (some (⟨key, row.rowInMorsel⟩ :: listed))

/-- The loop over the lookup keys. -/
def listKeys (state : DatasetState) (index : LookupIndex) :
    List Nat → Except CoveError (Option (List ListedRow))
  | [] => .ok (some [])
  | key :: keys =>
    match index.rowsFor key with
    | none => listKeys state index keys
    | some rows => do
      match ← listRows state rows with
      | none => .ok none
      | some listed =>
        match ← listKeys state index keys with
        | none => .ok none
        | some rest => .ok (some (listed ++ rest))

/-- The rows a lookup index lists for the plan of a file. None when the index cannot
answer it. -/
def listedRows (file : ScanFile) : Except CoveError (Option (List ListedRow)) :=
  match lookupKeysForPlan file.plan.toScanPlan with
  | none => .ok none
  | some (columnIndex, keyKind, keys) =>
    match file.state.table.columns[columnIndex]? with
    | none => .ok none
    | some column =>
      match file.state.lookupFor column.columnId with
      | none => .ok none
      | some index =>
        if index.header.keyKind ≠ keyKind then .ok none else listKeys file.state index keys

/-- The task of a listed morsel with the rows to select, unless it is fully hidden. -/
def rowrefTask (file : ScanFile) (fileOrdinal : Nat) (key : RowrefMorselKey)
    (rows : List ListedRow) : Except CoveError (Option ScanTask) := do
  let visibility ← file.state.visibility
  if ← visibility.morselAllHidden key.rowStart key.rowCount file.state.table.rowCount then
    .ok none
  else
    .ok (some ⟨fileOrdinal, key.segmentIndex, key.segmentId, key.morselId, key.rowStart,
      key.rowCount, none, none, file.plan.outputColumns, file.plan.predicateColumns,
      some ((rows.map ListedRow.rowInMorsel).insertionSort (· ≤ ·)).dedup⟩)

/-- The listed morsels of a file, in the order of their keys. -/
def rowrefTasks (file : ScanFile) (fileOrdinal : Nat) (listed : List ListedRow) :
    Except CoveError (List (Option ScanTask)) :=
  (Grouping.grouped ListedRow.key listed).mapM fun (key, rows) =>
    rowrefTask file fileOrdinal key rows

/-- The loop of `build_lookup_rowref_task_graph` over the files. None when the index of a
file cannot answer the plan. -/
def rowrefOutcomes : Nat → List ScanFile → Except CoveError (Option (List (Option ScanTask)))
  | _, [] => .ok (some [])
  | fileOrdinal, file :: files => do
    match ← listedRows file with
    | none => .ok none
    | some listed => do
      let outcomes ← rowrefTasks file fileOrdinal listed
      match ← rowrefOutcomes (fileOrdinal + 1) files with
      | none => .ok none
      | some rest => .ok (some (outcomes ++ rest))

/-- `build_lookup_rowref_task_graph`. -/
def buildLookupRowrefTaskGraph (dataset : ScanDataset) : Except CoveError (Option TaskGraph) := do
  match ← rowrefOutcomes 0 dataset.files with
  | none => .ok none
  | some outcomes =>
    let tasks := outcomes.filterMap id
    .ok (some ⟨tasks, finalizePartitions tasks dataset.targetMorselsPerPartition, tasks.length,
      outcomes.countP Option.isNone, 0⟩)

/-! ## The graph -/

/-- The graph of the visited morsels. -/
def TaskGraph.ofSchedules (schedules : List FileSchedule) (targetMorselsPerPartition : Nat) :
    TaskGraph :=
  let outcomes := schedules.flatMap FileSchedule.outcomes
  let tasks := outcomes.filterMap id
  let splitPartitions := schedules.flatMap FileSchedule.splitPartitions
  let partitions :=
    if splitPartitions.isEmpty then finalizePartitions tasks targetMorselsPerPartition
    else
      splitPartitions ++
        partitionTasks (schedules.flatMap FileSchedule.fallbackTasks) targetMorselsPerPartition
  ⟨tasks, partitions, outcomes.length, outcomes.countP Option.isNone, splitPartitions.length⟩

/-- The graph of a scan that visits the morsels. -/
def buildMorselTaskGraph (crc32c : List UInt8 → Nat) (dataset : ScanDataset) :
    Except CoveError TaskGraph := do
  let schedules ← dataset.files.zipIdx.mapM fun (file, fileOrdinal) =>
    scheduleFile crc32c file fileOrdinal
  .ok (TaskGraph.ofSchedules schedules dataset.targetMorselsPerPartition)

/-- `build_task_graph`: the row references of the lookup indexes when they answer the plan
in every file, the morsels otherwise. -/
def buildTaskGraph (crc32c : List UInt8 → Nat) (dataset : ScanDataset) :
    Except CoveError TaskGraph := do
  if dataset.lookupRowrefEligible then
    match ← buildLookupRowrefTaskGraph dataset with
    | some graph => .ok graph
    | none => buildMorselTaskGraph crc32c dataset
  else buildMorselTaskGraph crc32c dataset

end Cove
