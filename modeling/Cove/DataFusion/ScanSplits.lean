import Cove.DataFusion.State

/-!
# Scan splits

A scan split index proposes units of work: ranges of segments and morsels. It is loaded
only when its entries agree with the segment index of the table.

- `ScanSplitEntryV2`, `ScanSplitIndexV2`.
- `validateScanSplits`, `validateScanSplitAuthority`: what loading checks. The morsel count
  of a split is read as a number of consecutive morsels that start at the first morsel of
  the first segment and run over the segments that follow.
- `ValidatedScanSplitIndexV2`: an index that was accepted.
-/

namespace Cove

structure ScanSplitEntryV2 where
  splitId : Nat
  tableId : Nat
  rowStart : Nat
  rowCount : Nat
  firstSegmentId : Nat
  segmentCount : Nat
  firstMorselId : Nat
  morselCount : Nat
  firstClusterId : Nat
  clusterCount : Nat
  deriving DecidableEq, Repr

/-- The index, with the entry count of its header. -/
structure ScanSplitIndexV2 where
  splitCount : Nat
  entries : List ScanSplitEntryV2
  deriving DecidableEq, Repr

/-! ## The entries on their own -/

/-- The loop of `validate_scan_splits`: distinct split ids and row ranges that end. -/
def validateSplitEntries (splitIds : List Nat) : List ScanSplitEntryV2 → Except CoveError Unit
  | [] => .ok ()
  | entry :: entries =>
    if entry.splitId ∈ splitIds then .error .badLayoutPlan
    else do
      let _ ← checkedAdd entry.rowStart entry.rowCount
      validateSplitEntries (entry.splitId :: splitIds) entries

/-- `validate_scan_splits`. -/
def validateScanSplits (index : ScanSplitIndexV2) : Except CoveError Unit :=
  if index.splitCount ≠ index.entries.length then .error .badLayoutPlan
  else validateSplitEntries [] index.entries

/-! ## The entries against the table -/

/-- `segment_morsel_row_start`. -/
def segmentMorselRowStart (segment : TableSegmentIndexEntryV1) (morselId : Nat) :
    Except CoveError Nat :=
  if morselId ≥ segment.morselCount then .error .badLayoutPlan
  else do checkedAdd segment.rowStart (← checkedMul morselId segment.morselRowCount)

/-- `segment_morsel_row_count`. -/
def segmentMorselRowCount (segment : TableSegmentIndexEntryV1) (morselId : Nat) :
    Except CoveError Nat := do
  let start ← checkedMul morselId segment.morselRowCount
  if start ≥ segment.rowCount then .error .badLayoutPlan
  else do
    let remaining ← checkedSub segment.rowCount start
    .ok (min remaining segment.morselRowCount)

/-- `segment_morsel_span_rows`. -/
def segmentMorselSpanRows (segment : TableSegmentIndexEntryV1) (firstMorselId morselCount : Nat) :
    Except CoveError Nat := do
  let stop ← checkedAddU32 firstMorselId morselCount
  if stop > segment.morselCount then .error .badLayoutPlan
  else
    (List.range' firstMorselId morselCount).foldlM
      (fun rows morselId => do checkedAdd rows (← segmentMorselRowCount segment morselId)) 0

/-- How far the walk over the segments of a split has come. -/
structure SplitWalk where
  remainingMorsels : Nat
  actualRowStart : Option Nat
  actualRowCount : Nat

/-- The walk of `validate_scan_split_authority` over the segment ids of a split. -/
def walkSplit (segments : List TableSegmentIndexEntryV1) (split : ScanSplitEntryV2) :
    List Nat → SplitWalk → Except CoveError SplitWalk
  | [], walk => .ok walk
  | segmentId :: segmentIds, walk =>
    match segments.find? fun segment => segment.segmentId == segmentId with
    | none => .error .badLayoutPlan
    | some segment =>
      let startMorsel := if segmentId = split.firstSegmentId then split.firstMorselId else 0
      if startMorsel ≥ segment.morselCount then .error .badLayoutPlan
      else do
        let available ← checkedSub segment.morselCount startMorsel
        let take := min available walk.remainingMorsels
        if take = 0 then .error .badLayoutPlan
        else
          let startRow ← segmentMorselRowStart segment startMorsel
          let actualRowCount ← checkedAdd walk.actualRowCount
            (← segmentMorselSpanRows segment startMorsel take)
          let remainingMorsels ← checkedSub walk.remainingMorsels take
          let walk := ⟨remainingMorsels, walk.actualRowStart.or (some startRow), actualRowCount⟩
          if remainingMorsels = 0 then .ok walk else walkSplit segments split segmentIds walk

/-- The clusters of a split are listed in the page cluster directory. -/
def validateSplitClusters (clusters : Option (List Nat)) (split : ScanSplitEntryV2) :
    Except CoveError Unit :=
  if split.clusterCount = 0 then .ok ()
  else
    match clusters with
    | none => .error .badLayoutPlan
    | some clusterIds => do
      let _ ← checkedAddU32 split.firstClusterId split.clusterCount
      if (List.range' split.firstClusterId split.clusterCount).all (· ∈ clusterIds) then .ok ()
      else .error .badLayoutPlan

/-- One split against the table. -/
def validateSplit (table : TableEntry) (segments : List TableSegmentIndexEntryV1)
    (clusters : Option (List Nat)) (split : ScanSplitEntryV2) : Except CoveError Unit :=
  if split.tableId ≠ table.tableId ∨ split.segmentCount = 0 ∨ split.morselCount = 0 then
    .error .badLayoutPlan
  else do
    let _ ← checkedAddU32 split.firstSegmentId split.segmentCount
    let walk ← walkSplit segments split (List.range' split.firstSegmentId split.segmentCount)
      ⟨split.morselCount, none, 0⟩
    if walk.remainingMorsels ≠ 0 then .error .badLayoutPlan
    else if walk.actualRowStart ≠ some split.rowStart ∨ walk.actualRowCount ≠ split.rowCount then
      .error .badLayoutPlan
    else validateSplitClusters clusters split

/-- `validate_scan_split_authority`, with the ids of the page clusters when there is a
directory of them. -/
def validateScanSplitAuthority (index : ScanSplitIndexV2) (table : TableEntry)
    (segments : List TableSegmentIndexEntryV1) (pageClusters : Option (List Nat)) :
    Except CoveError Unit := do
  validateScanSplits index
  index.entries.forM (validateSplit table segments pageClusters)

/-- An accepted index. An index that is not accepted is not loaded. -/
structure ValidatedScanSplitIndexV2 (table : TableEntry)
    (segments : List TableSegmentIndexEntryV1) where
  index : ScanSplitIndexV2
  pageClusters : Option (List Nat)
  accepted : validateScanSplitAuthority index table segments pageClusters = .ok ()

end Cove
