import Cove.Layout.Plan
import Cove.Layout.Splits

/-!
# Default layout plans

Where a file comes without layout metadata, a default is built from the index of segments: a split
for each segment with morsels, and a plan with a node for each segment of the table. References are
absent when they are 0 or the absent id, also where these are the id of a segment.

- `validateLayoutPlanAuthority`: a plan, checked against the table.
- `buildDefaultScanSplitIndex`, `buildDefaultLayoutPlan`.
- `BuildsDefaults`: both are built and accepted, and the plan is read back.
- `IdsUsable`: the ids of the segments of a table can be referred to.
- `buildsDefaults_iff`: **the defaults are built exactly when** they can.
-/

namespace Cove.Layout

open Checked Spans

/-! ## Plans against the table -/

/-- `is_absent_ref`. -/
def isAbsentRef (value : Nat) : Bool := value == 0 || value == absentId

/-- The segment of a node, when it has one. -/
def nodeSegment (segments : List TableSegmentIndexEntryV1) (node : LayoutPlanNodeV2) :
    Except CoveError (Option TableSegmentIndexEntryV1) :=
  if isAbsentRef node.segmentId then .ok none
  else
    match segments.find? fun segment => segment.segmentId == node.segmentId with
    | none => .error .badLayoutPlan
    | some segment => .ok (some segment)

/-- The morsels of a node are in its segment. -/
def validateNodeMorsels (node : LayoutPlanNodeV2) :
    Option TableSegmentIndexEntryV1 → Except CoveError Unit
  | none => .ok ()
  | some segment =>
    if node.morselCount = 0 then .ok ()
    else do
      let morselEnd ← checkedAddU32 node.firstMorselId node.morselCount
      if morselEnd > segment.morselCount then .error .badLayoutPlan else .ok ()

/-- The rows of a node are in its segment, or in the table. -/
def validateNodeRows (table : TableEntry) (node : LayoutPlanNodeV2)
    (segment : Option TableSegmentIndexEntryV1) : Except CoveError Unit :=
  if node.rowCount = 0 then .ok ()
  else do
    let rowEnd ← checkedAdd node.rowStart node.rowCount
    match segment with
    | some segment =>
      let segmentEnd ← checkedAdd segment.rowStart segment.rowCount
      if node.rowStart < segment.rowStart ∨ rowEnd > segmentEnd then .error .badLayoutPlan
      else .ok ()
    | none => if rowEnd > table.rowCount then .error .badLayoutPlan else .ok ()

/-- The section, the cluster and the split of a node are there. -/
def validateNodeRefs (sectionIds : List Nat) (pageClusters : Option (List Nat))
    (scanSplits : Option ScanSplitIndexV2) (node : LayoutPlanNodeV2) : Except CoveError Unit :=
  if !isAbsentRef node.sectionId ∧ node.sectionId ∉ sectionIds then .error .badLayoutPlan
  else if !isAbsentRef node.clusterId ∧ ¬ (∃ clusterIds ∈ pageClusters, node.clusterId ∈ clusterIds) then
    .error .badLayoutPlan
  else if !isAbsentRef node.splitRef ∧ ¬ (∃ splits ∈ scanSplits,
      node.splitRef ∈ splits.entries.map fun split => split.splitId) then .error .badLayoutPlan
  else .ok ()

/-- What the kind of a node asks for. -/
def validateNodeKind (table : TableEntry) (node : LayoutPlanNodeV2)
    (segment : Option TableSegmentIndexEntryV1) : Except CoveError Unit :=
  let wrong : Bool := match node.nodeKind with
    | 0 => node.parentNodeId != absentId
    | 1 => node.tableId != table.tableId
    | 3 => segment.isNone
    | 4 => segment.isNone || node.morselCount == 0
    | 5 => isAbsentRef node.columnId
    | 6 => isAbsentRef node.clusterId
    | 7 => isAbsentRef node.sectionId
    | 2 | 255 => false
    | _ => true
  if wrong then .error .badLayoutPlan else .ok ()

/-- `validate_layout_node_authority`, with the ids of the sections in the footer and of the page
clusters. -/
def validateLayoutNodeAuthority (sectionIds : List Nat) (table : TableEntry)
    (segments : List Segment.TableSegmentIndexEntryV1) (pageClusters : Option (List Nat))
    (scanSplits : Option ScanSplitIndexV2) (node : LayoutPlanNodeV2) : Except CoveError Unit :=
  if !isAbsentRef node.tableId ∧ node.tableId ≠ table.tableId then .error .badLayoutPlan
  else if !isAbsentRef node.columnId ∧ node.columnId ∉ table.columns.map ColumnEntry.columnId then
    .error .badLayoutPlan
  else do
    let segment ← nodeSegment (tableSegments table.tableId segments) node
    validateNodeMorsels node segment
    validateNodeRows table node segment
    validateNodeRefs sectionIds pageClusters scanSplits node
    validateNodeKind table node segment

/-- `validate_layout_plan_authority`. -/
def validateLayoutPlanAuthority (plan : LayoutPlanV2) (sectionIds : List Nat) (table : TableEntry)
    (segments : List Segment.TableSegmentIndexEntryV1) (pageClusters : Option (List Nat))
    (scanSplits : Option ScanSplitIndexV2) : Except CoveError Unit := do
  validateLayoutNodes plan.header plan.nodes
  plan.nodes.forM (validateLayoutNodeAuthority sectionIds table segments pageClusters scanSplits)

/-! ## The defaults -/

/-- A number as a `u32`, or the largest one. -/
def u32OrMax (n : Nat) : Nat := if n < 2 ^ 32 then n else 2 ^ 32 - 1

/-- The split of a segment, at a place among the splits. -/
def defaultSplit (table : TableEntry) (index : Nat) (segment : Segment.TableSegmentIndexEntryV1) :
    ScanSplitEntryV2 where
  splitId := u32OrMax (index + 1)
  tableId := table.tableId
  rowStart := segment.rowStart
  rowCount := segment.rowCount
  firstSegmentId := segment.segmentId
  segmentCount := 1
  firstMorselId := 0
  morselCount := segment.morselCount
  firstClusterId := 0
  clusterCount := 0
  statsRef := segment.statsRef
  estimatedUncompressedBytes := segment.length
  estimatedEncodedBytes := segment.length
  flags := 0
  checksum := 0

/-- The segments of a table that have morsels. -/
def splitSegments (table : TableEntry) (segments : List Segment.TableSegmentIndexEntryV1) :
    List Segment.TableSegmentIndexEntryV1 :=
  (Segment.ofTable table.tableId segments).filter fun segment => segment.morselCount ≠ 0

/-- The splits of the segments of a table. -/
def defaultSplits (table : TableEntry) (segments : List Segment.TableSegmentIndexEntryV1) :
    ScanSplitIndexV2 where
  header := ⟨(splitSegments table segments).length % 2 ^ 32, 0, 0⟩
  entries := (splitSegments table segments).mapIdx (defaultSplit table)

/-- `build_default_scan_split_index`. -/
def buildDefaultScanSplitIndex (table : TableEntry)
    (segments : List Segment.TableSegmentIndexEntryV1) : Except CoveError ScanSplitIndexV2 := do
  validateScanSplitAuthority (defaultSplits table segments) table segments none
  .ok (defaultSplits table segments)

/-- A node for the whole table, under a root or as one. -/
def tableNode (table : TableEntry) (nodeId parentNodeId nodeKind tableId firstChildIndex
    childCount : Nat) : LayoutPlanNodeV2 where
  nodeId := nodeId
  parentNodeId := parentNodeId
  nodeKind := nodeKind
  flags := 0
  tableId := tableId
  columnId := absentId
  segmentId := absentId
  firstMorselId := 0
  morselCount := 0
  rowStart := 0
  rowCount := table.rowCount
  sectionId := 0
  clusterId := 0
  firstChildIndex := firstChildIndex
  childCount := childCount
  statsRef := absentId
  splitRef := absentId
  checksum := 0

/-- The split that starts with a segment. -/
def splitRefOf (scanSplits : Option ScanSplitIndexV2) (segmentId : Nat) : Nat :=
  ((scanSplits.bind fun splits => splits.entries.find? fun split =>
    split.firstSegmentId == segmentId).map fun split => split.splitId).getD absentId

/-- The node of a segment. -/
def segmentNode (table : TableEntry) (scanSplits : Option ScanSplitIndexV2) (nodeId : Nat)
    (segment : Segment.TableSegmentIndexEntryV1) : LayoutPlanNodeV2 where
  nodeId := nodeId
  parentNodeId := 2
  nodeKind := 3
  flags := 0
  tableId := table.tableId
  columnId := absentId
  segmentId := segment.segmentId
  firstMorselId := 0
  morselCount := segment.morselCount
  rowStart := segment.rowStart
  rowCount := segment.rowCount
  sectionId := 0
  clusterId := 0
  firstChildIndex := 0
  childCount := 0
  statsRef := segment.statsRef
  splitRef := splitRefOf scanSplits segment.segmentId
  checksum := 0

/-- The loop over the segments, after so many nodes. -/
def segmentNodes (table : TableEntry) (scanSplits : Option ScanSplitIndexV2) (count : Nat) :
    List Segment.TableSegmentIndexEntryV1 → Except CoveError (List LayoutPlanNodeV2)
  | [] => .ok []
  | segment :: segments =>
    if count + 1 ≥ 2 ^ 32 then .error .arithOverflow
    else do
      let nodes ← segmentNodes table scanSplits (count + 1) segments
      .ok (segmentNode table scanSplits (count + 1) segment :: nodes)

/-- `build_default_layout_plan`. -/
def buildDefaultLayoutPlan (table : TableEntry) (segments : List Segment.TableSegmentIndexEntryV1)
    (scanSplits : Option ScanSplitIndexV2) : Except CoveError LayoutPlanV2 := do
  let own := Segment.ofTable table.tableId segments
  let below ← segmentNodes table scanSplits 2 own
  let nodes := tableNode table 1 absentId 0 absentId 1 1 ::
    tableNode table 2 1 1 table.tableId 2 (own.length % 2 ^ 32) :: below
  let header : LayoutPlanHeaderV2 := ⟨1, nodes.length % 2 ^ 32, 1, 0, 0⟩
  validateLayoutNodes header nodes
  .ok ⟨header, nodes⟩

/-! ## Splits of whole segments -/

/-- The numbers of a segment of a table are within their types. -/
structure SegmentTyped (segment : Segment.TableSegmentIndexEntryV1) : Prop where
  segmentId : segment.segmentId < 2 ^ 32
  rowCount : segment.rowCount < 2 ^ 32
  morselCount : segment.morselCount < 2 ^ 32
  morselRowCount : segment.morselRowCount < 2 ^ 32
  statsRef : segment.statsRef < 2 ^ 32

/-- The morsels of a segment tile it: each has a row to start with, and together they have all. -/
structure Tiled (segment : Segment.TableSegmentIndexEntryV1) : Prop where
  starts : ∀ m < segment.morselCount, m * segment.morselRowCount < segment.rowCount
  covers : segment.rowCount ≤ segment.morselCount * segment.morselRowCount

theorem Tiled.empty_iff {segment : Segment.TableSegmentIndexEntryV1} (h : Tiled segment) :
    segment.morselCount = 0 ↔ segment.rowCount = 0 := by
  constructor
  · intro hzero
    have := h.covers
    rw [hzero, Nat.zero_mul] at this
    omega
  · intro hzero
    by_contra hsome
    have := h.starts 0 (Nat.pos_of_ne_zero hsome)
    omega

variable {count index : Nat} {split : Cove.ScanSplitEntryV2} {node : LayoutPlanNodeV2}

/-- The rows of the first morsels of a segment. -/
theorem foldlM_morselRowCount {segment : Segment.TableSegmentIndexEntryV1} (htiled : Tiled segment)
    (htyped : SegmentTyped segment) (hcount : count ≤ segment.morselCount) :
    (List.range' 0 count).foldlM (fun rows morselId => do
      checkedAdd rows (← segmentMorselRowCount (checkedSegment segment) morselId)) 0 =
        .ok (min segment.rowCount (count * segment.morselRowCount)) := by
  induction count with
  | zero =>
    rw [Nat.zero_mul, Nat.min_zero]
    rfl
  | succ count ih =>
    have hstart := htiled.starts count hcount
    have hrows := htyped.rowCount
    have hmul : checkedMul count segment.morselRowCount = .ok (count * segment.morselRowCount) :=
      mulU64_eq_ok.mpr ⟨by omega, rfl⟩
    have hsub : checkedSub segment.rowCount (count * segment.morselRowCount) =
        .ok (segment.rowCount - count * segment.morselRowCount) := sub_eq_ok.mpr ⟨by omega, rfl⟩
    have hmorsel : segmentMorselRowCount (checkedSegment segment) count =
        .ok (min (segment.rowCount - count * segment.morselRowCount) segment.morselRowCount) :=
      bind_eq_ok.mpr ⟨_, hmul, ite_error_eq_ok.mpr ⟨Nat.not_le.mpr hstart,
        bind_eq_ok.mpr ⟨_, hsub, rfl⟩⟩⟩
    have hadd : checkedAdd (min segment.rowCount (count * segment.morselRowCount))
        (min (segment.rowCount - count * segment.morselRowCount) segment.morselRowCount) =
          .ok (min segment.rowCount ((count + 1) * segment.morselRowCount)) := by
      refine addU64_eq_ok.mpr ⟨by omega, ?_⟩
      rw [Nat.add_mul, Nat.one_mul]
      omega
    rw [List.range'_concat, List.foldlM_append, ih (by omega), ok_bind, Nat.one_mul, Nat.zero_add,
      List.foldlM_cons, hmorsel, ok_bind, hadd]
    rfl

/-- The split names one segment, and all its morsels. -/
structure Whole (split : Cove.ScanSplitEntryV2) (segment : TableSegmentIndexEntryV1) : Prop where
  segmentCount : split.segmentCount = 1
  firstMorselId : split.firstMorselId = 0
  morselCount : split.morselCount = segment.morselCount
  someMorsel : segment.morselCount ≠ 0

/-- A whole segment is walked over in one step. -/
theorem walkSplit_whole {segments : List TableSegmentIndexEntryV1}
    {segment : TableSegmentIndexEntryV1} {startRow rows : Nat} (hwhole : Whole split segment)
    (hfind : segments.find? (fun other => other.segmentId == split.firstSegmentId) = some segment)
    (hstartRow : segmentMorselRowStart segment 0 = .ok startRow)
    (hrows : segmentMorselSpanRows segment 0 segment.morselCount = .ok rows)
    (hlt : rows < 2 ^ 64) :
    walkSplit segments split (List.range' split.firstSegmentId split.segmentCount)
      ⟨split.morselCount, none, 0⟩ = .ok ⟨0, some startRow, rows⟩ := by
  have hsub : checkedSub segment.morselCount 0 = .ok segment.morselCount :=
    sub_eq_ok.mpr ⟨Nat.zero_le _, rfl⟩
  have hcount : checkedAdd 0 rows = .ok rows := addU64_eq_ok.mpr ⟨by omega, by omega⟩
  have hleft : checkedSub segment.morselCount segment.morselCount = .ok 0 :=
    sub_eq_ok.mpr ⟨Nat.le_refl _, by omega⟩
  rw [hwhole.segmentCount, hwhole.morselCount, List.range'_one, walkSplit, hfind]
  dsimp only
  rw [if_pos rfl, hwhole.firstMorselId,
    if_neg (Nat.not_le.mpr (Nat.pos_of_ne_zero hwhole.someMorsel)), hsub, ok_bind, Nat.min_self,
    if_neg hwhole.someMorsel]
  refine bind_eq_ok.mpr ⟨_, hstartRow, bind_eq_ok.mpr ⟨_, hrows, bind_eq_ok.mpr ⟨_, hcount,
    bind_eq_ok.mpr ⟨_, hleft, ?_⟩⟩⟩⟩
  rw [if_pos rfl]
  rfl

/-- **A split of a whole segment is accepted.** -/
theorem validateSplit_whole {table : TableEntry} {segments : List TableSegmentIndexEntryV1}
    {segment : TableSegmentIndexEntryV1}
    (hwhole : Whole split segment) (htable : split.tableId = table.tableId)
    (hclusters : split.clusterCount = 0) (hid : split.firstSegmentId + 1 < 2 ^ 32)
    (hfind : segments.find? (fun other => other.segmentId == split.firstSegmentId) = some segment)
    (hstartRow : segmentMorselRowStart segment 0 = .ok split.rowStart)
    (hrows : segmentMorselSpanRows segment 0 segment.morselCount = .ok split.rowCount)
    (hlt : split.rowCount < 2 ^ 64) : validateSplit table segments none split = .ok () := by
  have hstop : checkedAddU32 split.firstSegmentId split.segmentCount =
      .ok (split.firstSegmentId + split.segmentCount) := by
    refine addU32_eq_ok.mpr ⟨?_, rfl⟩
    rw [hwhole.segmentCount]
    exact hid
  have hfields : ¬ (split.tableId ≠ table.tableId ∨ split.segmentCount = 0 ∨
      split.morselCount = 0) := by
    rw [hwhole.segmentCount, hwhole.morselCount]
    rintro (h | h | h)
    · exact h htable
    · exact Nat.one_ne_zero h
    · exact hwhole.someMorsel h
  refine ite_error_eq_ok.mpr ⟨hfields, bind_eq_ok.mpr ⟨_, hstop, bind_eq_ok.mpr ⟨_,
    walkSplit_whole hwhole hfind hstartRow hrows hlt, ?_⟩⟩⟩
  rw [if_neg (not_not_intro rfl), if_neg (not_or.mpr ⟨not_not_intro rfl, not_not_intro rfl⟩),
    validateSplitClusters, if_pos hclusters]

/-- **The split of a segment is accepted when** the segment is found under its id. -/
theorem validateSplit_default {table : TableEntry} {segments : List TableSegmentIndexEntryV1}
    {segment : Segment.TableSegmentIndexEntryV1} (htiled : Tiled segment)
    (htyped : SegmentTyped segment) (hsome : segment.morselCount ≠ 0)
    (hstart : segment.rowStart < 2 ^ 64) (hid : segment.segmentId ≠ absentId)
    (hfind : segments.find? (fun other => other.segmentId == segment.segmentId) =
      some (checkedSegment segment)) :
    validateSplit table segments none (defaultSplit table index segment).toScanSplitEntryV2 =
      .ok () := by
  have hmul : checkedMul 0 segment.morselRowCount = .ok 0 :=
    mulU64_eq_ok.mpr ⟨by omega, by omega⟩
  have hadd : checkedAdd segment.rowStart 0 = .ok segment.rowStart :=
    addU64_eq_ok.mpr ⟨hstart, rfl⟩
  have hstartRow : segmentMorselRowStart (checkedSegment segment) 0 = .ok segment.rowStart :=
    ite_error_eq_ok.mpr ⟨Nat.not_le.mpr (Nat.pos_of_ne_zero hsome), bind_eq_ok.mpr ⟨_, hmul, hadd⟩⟩
  have hstop : checkedAddU32 0 segment.morselCount = .ok segment.morselCount :=
    addU32_eq_ok.mpr ⟨by have := htyped.morselCount; omega, by omega⟩
  have hrows : segmentMorselSpanRows (checkedSegment segment) 0 segment.morselCount =
      .ok segment.rowCount := by
    refine bind_eq_ok.mpr ⟨_, hstop, ite_error_eq_ok.mpr ⟨Nat.lt_irrefl _, ?_⟩⟩
    rw [foldlM_morselRowCount htiled htyped (Nat.le_refl _), Nat.min_eq_left htiled.covers]
  have hidLt : segment.segmentId + 1 < 2 ^ 32 := by
    have := htyped.segmentId
    unfold absentId at hid
    omega
  have hrowsLt : segment.rowCount < 2 ^ 64 := htyped.rowCount.trans (by decide)
  exact validateSplit_whole ⟨rfl, rfl, rfl, hsome⟩ rfl rfl hidLt hfind hstartRow hrows hrowsLt

/-- **The segment of an accepted split is found** with morsels and with its first row. -/
theorem exists_of_validateSplit_default {table : TableEntry}
    {segments : List TableSegmentIndexEntryV1}
    {segment : Segment.TableSegmentIndexEntryV1}
    (h : validateSplit table segments none (defaultSplit table index segment).toScanSplitEntryV2 =
      .ok ()) :
    ∃ found, segments.find? (fun other => other.segmentId == segment.segmentId) = some found ∧
      found.morselCount ≠ 0 ∧ found.rowStart = segment.rowStart := by
  obtain ⟨-, h⟩ := ite_error_eq_ok.mp h
  obtain ⟨_, -, h⟩ := bind_eq_ok.mp h
  obtain ⟨walk, hwalk, h⟩ := bind_eq_ok.mp h
  obtain ⟨-, h⟩ := ite_error_eq_ok.mp h
  obtain ⟨hrows, -⟩ := ite_error_eq_ok.mp h
  have hrowStart := Decidable.of_not_not (not_or.mp hrows).1
  obtain ⟨next, hsome, -, -, hnextStart, hend⟩ := walkSplit_cons hwalk
  have hsame : walk.actualRowStart = next.actualRowStart := by
    by_cases hdone : next.remainingMorsels = 0
    · rw [if_pos hdone] at hend
      rw [Except.ok.inj hend]
    · rw [if_neg hdone] at hend
      rw [← Except.ok.inj hend]
  rw [hrowStart] at hsame
  rw [← hsame] at hnextStart
  obtain ⟨found, hfind, first, hlt, hfirst, hhead⟩ := head_availableMorsels hsome
  have hzero : first = 0 := hfirst.trans (if_pos rfl)
  rw [hhead] at hnextStart
  refine ⟨found, hfind, by omega, ?_⟩
  have hstarts : segment.rowStart = found.rowStart + first * found.morselRowCount :=
    Option.some.inj hnextStart
  rw [hstarts, hzero, Nat.zero_mul, Nat.add_zero]

/-! ## The index of splits -/

theorem validateSplitEntries_eq_ok {entries : List Cove.ScanSplitEntryV2} {splitIds : List Nat} :
    validateSplitEntries splitIds entries = .ok () ↔
      (entries.map Cove.ScanSplitEntryV2.splitId).Nodup ∧
      (∀ entry ∈ entries, entry.splitId ∉ splitIds) ∧
        ∀ entry ∈ entries, entry.rowStart + entry.rowCount < 2 ^ 64 := by
  induction entries generalizing splitIds with
  | nil => exact iff_of_true rfl ⟨.nil, nofun, nofun⟩
  | cons entry entries ih =>
    rw [validateSplitEntries, ite_error_eq_ok, bind_eq_ok, List.map_cons, List.nodup_cons,
      List.forall_mem_cons, List.forall_mem_cons, List.mem_map]
    constructor
    · rintro ⟨hnew, stop, hstop, h⟩
      obtain ⟨hlt, -⟩ := addU64_eq_ok.mp hstop
      obtain ⟨hnodup, hids, hends⟩ := ih.mp h
      refine ⟨⟨?_, hnodup⟩, ⟨hnew, fun other hother hmem => ?_⟩, hlt, hends⟩
      · rintro ⟨other, hother, hsame⟩
        exact hids other hother (hsame ▸ List.mem_cons_self)
      · exact hids other hother (List.mem_cons_of_mem _ hmem)
    · rintro ⟨⟨hfresh, hnodup⟩, ⟨hnew, hids⟩, hlt, hends⟩
      have hrest : ∀ other ∈ entries, other.splitId ∉ entry.splitId :: splitIds := by
        intro other hother hmem
        rcases List.mem_cons.mp hmem with hsame | hmem
        · exact hfresh ⟨other, hother, hsame⟩
        · exact hids other hother hmem
      exact ⟨hnew, _, addU64_eq_ok.mpr ⟨hlt, rfl⟩, ih.mpr ⟨hnodup, hrest, hends⟩⟩

/-- The segments of a table tile it: they share no row, their morsels tile them, and their rows are
rows of the table. Numbers are within their types. -/
structure SegmentsOf (table : TableEntry) (segments : List Segment.TableSegmentIndexEntryV1) :
    Prop where
  apart : Apart ((tableSegments table.tableId segments).map segmentSpan)
  tiled : ∀ segment ∈ Segment.ofTable table.tableId segments, Tiled segment
  within : ∀ segment ∈ Segment.ofTable table.tableId segments,
    segment.rowStart + segment.rowCount ≤ table.rowCount
  typed : ∀ segment ∈ Segment.ofTable table.tableId segments, SegmentTyped segment
  tableId : table.tableId < 2 ^ 32
  rowCount : table.rowCount < 2 ^ 64

/-- A segment is the first of its table with its id. -/
def Found (table : TableEntry) (segments : List Segment.TableSegmentIndexEntryV1)
    (segment : Segment.TableSegmentIndexEntryV1) : Prop :=
  (Segment.ofTable table.tableId segments).find? (fun other =>
    other.segmentId == segment.segmentId) = some segment

variable {nodeId : Nat} {splits : ScanSplitIndexV2}

section

variable {table : TableEntry} {segments : List Segment.TableSegmentIndexEntryV1}

theorem find?_tableSegments (segmentId : Nat) :
    (tableSegments table.tableId segments).find? (fun other => other.segmentId == segmentId) =
      ((Segment.ofTable table.tableId segments).find? fun other =>
        other.segmentId == segmentId).map checkedSegment := by
  rw [tableSegments, List.find?_map]
  rfl

theorem mem_splitSegments {segment : Segment.TableSegmentIndexEntryV1} :
    segment ∈ splitSegments table segments ↔
      segment ∈ Segment.ofTable table.tableId segments ∧ segment.morselCount ≠ 0 := by
  rw [splitSegments, List.mem_filter, decide_eq_true_iff]

theorem mem_defaultSplits {split : ScanSplitEntryV2} :
    split ∈ (defaultSplits table segments).entries ↔
      ∃ index segment, (splitSegments table segments)[index]? = some segment ∧
        split = defaultSplit table index segment := by
  unfold defaultSplits
  rw [List.mem_mapIdx]
  constructor
  · rintro ⟨index, hlt, rfl⟩
    exact ⟨index, _, List.getElem?_eq_getElem hlt, rfl⟩
  · rintro ⟨index, segment, hat, rfl⟩
    obtain ⟨hlt, rfl⟩ := List.getElem?_eq_some_iff.mp hat
    exact ⟨index, hlt, rfl⟩

theorem nodup_splitIds (hlt : (splitSegments table segments).length < 2 ^ 32) :
    ((defaultSplits table segments).entries.map fun split => split.splitId).Nodup := by
  unfold defaultSplits
  refine List.pairwise_map.mpr (List.pairwise_iff_getElem.mpr fun i j hi hj hij => ?_)
  rw [List.length_mapIdx] at hi hj
  rw [List.getElem_mapIdx, List.getElem_mapIdx]
  show u32OrMax (i + 1) ≠ u32OrMax (j + 1)
  unfold u32OrMax
  rw [if_pos (by omega), if_pos (by omega)]
  omega

/-- Two segments with rows of a table that start on one row are the same. -/
theorem eq_of_rowStart_eq (h : SegmentsOf table segments) {s s' : Segment.TableSegmentIndexEntryV1}
    (hs : s ∈ Segment.ofTable table.tableId segments)
    (hs' : s' ∈ Segment.ofTable table.tableId segments) (hrows : s.rowCount ≠ 0)
    (hrows' : s'.rowCount ≠ 0) (hstart : s.rowStart = s'.rowStart) : s = s' := by
  by_contra hne
  have hapart := h.apart
  unfold Apart tableSegments at hapart
  rw [List.pairwise_map, List.pairwise_map] at hapart
  have hsymm : Std.Symm fun a b : Segment.TableSegmentIndexEntryV1 => ∀ row,
      ¬ ((segmentSpan (checkedSegment a)).Mem row ∧ (segmentSpan (checkedSegment b)).Mem row) :=
    ⟨fun a b hab row hrow => hab row hrow.symm⟩
  refine hapart.forall hs hs' hne s.rowStart ⟨⟨Nat.le_refl _, ?_⟩, ⟨hstart.ge, ?_⟩⟩
  · show s.rowStart < s.rowStart + s.rowCount
    omega
  · show s.rowStart < s'.rowStart + s'.rowCount
    omega

/-- **The default index of splits is built exactly when** the segments with morsels are found under
their ids, none of which is the absent one. -/
theorem validate_defaultSplits_iff (h : SegmentsOf table segments)
    (hcount : (Segment.ofTable table.tableId segments).length < 2 ^ 32) :
    validateScanSplitAuthority (defaultSplits table segments) table segments none = .ok () ↔
      ∀ segment ∈ splitSegments table segments,
        segment.segmentId ≠ absentId ∧ Found table segments segment := by
  have hlength : (splitSegments table segments).length < 2 ^ 32 :=
    (List.length_filter_le _ _).trans_lt hcount
  have hentries : ∀ {P : Cove.ScanSplitEntryV2 → Prop},
      (∀ entry ∈ (defaultSplits table segments).checked.entries, P entry) ↔
        ∀ index segment, (splitSegments table segments)[index]? = some segment →
          P (defaultSplit table index segment).toScanSplitEntryV2 := by
    intro P
    rw [ScanSplitIndexV2.checked]
    simp only [List.forall_mem_map, mem_defaultSplits]
    constructor
    · intro hall index segment hat
      exact hall _ ⟨index, segment, hat, rfl⟩
    · rintro hall _ ⟨index, segment, hat, rfl⟩
      exact hall index segment hat
  unfold validateScanSplitAuthority Cove.validateScanSplitAuthority
  rw [bind_eq_ok]
  constructor
  · rintro ⟨_, -, hsplits⟩ segment hsegment
    obtain ⟨hown, hsome⟩ := mem_splitSegments.mp hsegment
    obtain ⟨index, hat⟩ := List.getElem?_of_mem hsegment
    have hsplit := hentries.mp (forM_eq_ok.mp hsplits) index segment hat
    have hid : segment.segmentId ≠ absentId := by
      obtain ⟨-, hsplit⟩ := ite_error_eq_ok.mp hsplit
      obtain ⟨stop, hstop, -⟩ := bind_eq_ok.mp hsplit
      have hlt : segment.segmentId + 1 < 2 ^ 32 := (addU32_eq_ok.mp hstop).1
      unfold absentId
      omega
    obtain ⟨found, hfind, hfoundSome, hstart⟩ := exists_of_validateSplit_default hsplit
    rw [find?_tableSegments] at hfind
    obtain ⟨other, hother, rfl⟩ := Option.map_eq_some_iff.mp hfind
    have hotherOwn := List.mem_of_find?_eq_some hother
    have hrows : segment.rowCount ≠ 0 := fun hzero =>
      hsome ((h.tiled segment hown).empty_iff.mpr hzero)
    have hotherRows : other.rowCount ≠ 0 := fun hzero =>
      hfoundSome ((h.tiled other hotherOwn).empty_iff.mpr hzero)
    rw [eq_of_rowStart_eq h hotherOwn hown hotherRows hrows hstart] at hother
    exact ⟨hid, hother⟩
  · intro hfound
    refine ⟨(), ?_, forM_eq_ok.mpr (hentries.mpr fun index segment hat => ?_)⟩
    · have hheader : ¬ (defaultSplits table segments).checked.splitCount ≠
          (defaultSplits table segments).checked.entries.length := by
        unfold ScanSplitIndexV2.checked defaultSplits
        dsimp only
        rw [List.length_map, List.length_mapIdx, Nat.mod_eq_of_lt hlength]
        exact not_not_intro rfl
      refine ite_error_eq_ok.mpr ⟨hheader, validateSplitEntries_eq_ok.mpr
        ⟨?_, fun _ _ => List.not_mem_nil, hentries.mpr fun index segment hat => ?_⟩⟩
      · unfold ScanSplitIndexV2.checked
        rw [List.map_map]
        exact nodup_splitIds hlength
      · have hown := (mem_splitSegments.mp (List.mem_of_getElem? hat)).1
        exact (h.within segment hown).trans_lt h.rowCount
    · have hmem := List.mem_of_getElem? hat
      obtain ⟨hown, hsome⟩ := mem_splitSegments.mp hmem
      obtain ⟨hid, hfind⟩ := hfound segment hmem
      have hstart : segment.rowStart < 2 ^ 64 := by
        have := h.within segment hown
        have := h.rowCount
        omega
      refine validateSplit_default (h.tiled segment hown) (h.typed segment hown) hsome hstart hid ?_
      rw [find?_tableSegments, hfind]
      rfl

/-! ## The plan -/

variable {scanSplits : Option ScanSplitIndexV2}

/-- The plan that the builder returns. -/
def defaultPlan (table : TableEntry) (segments : List Segment.TableSegmentIndexEntryV1)
    (scanSplits : Option ScanSplitIndexV2) : LayoutPlanV2 where
  header := ⟨1, (Segment.ofTable table.tableId segments).length + 2, 1, 0, 0⟩
  nodes := tableNode table 1 absentId 0 absentId 1 1 ::
    tableNode table 2 1 1 table.tableId 2 (Segment.ofTable table.tableId segments).length ::
      (Segment.ofTable table.tableId segments).mapIdx fun index segment =>
        segmentNode table scanSplits (index + 3) segment

/-- What the loop over the segments returns. -/
theorem segmentNodes_eq_ok {own : List Segment.TableSegmentIndexEntryV1}
    {nodes : List LayoutPlanNodeV2} : segmentNodes table scanSplits count own = .ok nodes ↔
      (own ≠ [] → count + own.length < 2 ^ 32) ∧
        nodes = own.mapIdx fun index segment =>
          segmentNode table scanSplits (index + (count + 1)) segment := by
  induction own generalizing count nodes with
  | nil =>
    constructor
    · intro h
      exact ⟨fun hne => absurd rfl hne, (Except.ok.inj h).symm⟩
    · rintro ⟨-, rfl⟩
      rfl
  | cons segment own ih =>
    have hshift : (own.mapIdx fun index segment =>
        segmentNode table scanSplits (index + (count + 1 + 1)) segment) =
          own.mapIdx fun index segment =>
            segmentNode table scanSplits (index + 1 + (count + 1)) segment := by
      refine congrArg (fun f => own.mapIdx f) (funext fun index => ?_)
      rw [show index + (count + 1 + 1) = index + 1 + (count + 1) by omega]
    rw [segmentNodes, ite_error_eq_ok, bind_eq_ok, List.mapIdx_cons, List.length_cons, Nat.zero_add,
      ← hshift]
    constructor
    · rintro ⟨hlt, below, hbelow, h⟩
      obtain ⟨hcount, rfl⟩ := ih.mp hbelow
      refine ⟨fun _ => ?_, (Except.ok.inj h).symm⟩
      by_cases hnil : own = []
      · rw [hnil, List.length_nil]
        omega
      · have := hcount hnil
        omega
    · rintro ⟨hcount, rfl⟩
      have := hcount (List.cons_ne_nil _ _)
      exact ⟨by omega, _, ih.mpr ⟨fun _ => by omega, rfl⟩, rfl⟩

theorem mem_defaultPlan :
    node ∈ (defaultPlan table segments scanSplits).nodes ↔
      node = tableNode table 1 absentId 0 absentId 1 1 ∨
      node = tableNode table 2 1 1 table.tableId 2
        (Segment.ofTable table.tableId segments).length ∨
      ∃ index segment, (Segment.ofTable table.tableId segments)[index]? = some segment ∧
        node = segmentNode table scanSplits (index + 3) segment := by
  unfold defaultPlan
  rw [List.mem_cons, List.mem_cons, List.mem_mapIdx]
  refine or_congr_right (or_congr_right ?_)
  constructor
  · rintro ⟨index, hlt, rfl⟩
    exact ⟨index, _, List.getElem?_eq_getElem hlt, rfl⟩
  · rintro ⟨index, segment, hat, rfl⟩
    obtain ⟨hlt, rfl⟩ := List.getElem?_eq_some_iff.mp hat
    exact ⟨index, hlt, rfl⟩

theorem length_defaultPlan : (defaultPlan table segments scanSplits).nodes.length =
    (Segment.ofTable table.tableId segments).length + 2 := by
  unfold defaultPlan
  rw [List.length_cons, List.length_cons, List.length_mapIdx]

/-- The ids of the nodes are consecutive. -/
theorem map_nodeId_defaultPlan :
    (defaultPlan table segments scanSplits).nodes.map LayoutPlanNodeV2.nodeId =
      List.range' 1 ((Segment.ofTable table.tableId segments).length + 2) := by
  have hrest : ∀ own : List Segment.TableSegmentIndexEntryV1, ((own.mapIdx fun index segment =>
      segmentNode table scanSplits (index + 3) segment).map LayoutPlanNodeV2.nodeId) =
        List.range' 3 own.length := by
    intro own
    refine List.ext_getElem (by simp) fun i hi hi' => ?_
    rw [List.getElem_map, List.getElem_mapIdx, List.getElem_range']
    show i + 3 = 3 + 1 * i
    omega
  unfold defaultPlan
  rw [List.map_cons, List.map_cons, hrest]
  rfl

theorem climbParents_absent (nodes : List LayoutPlanNodeV2) (hops : Nat) :
    climbParents nodes hops absentId = .ok () := by
  cases hops with
  | zero => rfl
  | succ hops => rw [climbParents, if_pos rfl]

/-- Two hops lead from a segment over its table to the root. -/
theorem climbParents_defaultPlan (hops : Nat) :
    climbParents (defaultPlan table segments scanSplits).nodes (hops + 1) 1 = .ok () ∧
      climbParents (defaultPlan table segments scanSplits).nodes (hops + 2) 2 = .ok () := by
  have hone : ∀ hops, climbParents (defaultPlan table segments scanSplits).nodes (hops + 1) 1 =
      .ok () := fun hops => climbParents_absent _ hops
  exact ⟨hone hops, hone hops⟩

/-- **The nodes of the default plan pass the check.** -/
theorem validate_defaultPlan (h : SegmentsOf table segments)
    (hcount : (Segment.ofTable table.tableId segments).length + 2 < 2 ^ 32) :
    validateLayoutNodes (defaultPlan table segments scanSplits).header
      (defaultPlan table segments scanSplits).nodes = .ok () := by
  have hrows : 0 + table.rowCount < 2 ^ 64 := by
    rw [Nat.zero_add]
    exact h.rowCount
  rw [validateLayoutNodes_eq_ok_iff, map_nodeId_defaultPlan, length_defaultPlan]
  refine ⟨rfl, List.nodup_range', fun node hnode => ?_, List.mem_range'_1.mpr ⟨Nat.le_refl 1, ?_⟩,
    fun node hnode => ?_, fun node hnode => ?_⟩
  · rcases mem_defaultPlan.mp hnode with rfl | rfl | ⟨index, segment, hat, rfl⟩
    · exact ⟨hrows, Nat.lt_of_le_of_lt (Nat.le_add_left _ _) hcount, Nat.le_add_left _ _⟩
    · rw [Nat.add_comm] at hcount
      exact ⟨hrows, hcount, (Nat.add_comm _ _).le⟩
    · have hwithin := h.within segment (List.mem_of_getElem? hat)
      exact ⟨hwithin.trans_lt h.rowCount, Nat.two_pow_pos 32, Nat.zero_le _⟩
  · show 1 < 1 + (_ + 2)
    omega
  · unfold ParentThere
    rw [map_nodeId_defaultPlan]
    rcases mem_defaultPlan.mp hnode with rfl | rfl | ⟨index, segment, hat, rfl⟩
    · exact ⟨rfl, rfl⟩
    · exact List.mem_range'_1.mpr ⟨Nat.le_refl 1, Nat.lt_add_of_pos_right (Nat.succ_pos _)⟩
    · rw [if_neg]
      · exact List.mem_range'_1.mpr ⟨Nat.le_succ 1, by show 2 < 1 + (_ + 2); omega⟩
      · show index + 3 ≠ 1
        omega
  · rcases mem_defaultPlan.mp hnode with rfl | rfl | ⟨index, segment, hat, rfl⟩
    · exact climbParents_absent _ _
    · exact (climbParents_defaultPlan (_ + 1)).1
    · exact (climbParents_defaultPlan _).2

/-- **The plan is built exactly when** its nodes can be counted. -/
theorem buildDefaultLayoutPlan_eq_ok (h : SegmentsOf table segments) {plan : LayoutPlanV2} :
    buildDefaultLayoutPlan table segments scanSplits = .ok plan ↔
      (Segment.ofTable table.tableId segments).length + 2 < 2 ^ 32 ∧
        plan = defaultPlan table segments scanSplits := by
  have hbuilt : ∀ {below : List LayoutPlanNodeV2}, segmentNodes table scanSplits 2
      (Segment.ofTable table.tableId segments) = .ok below →
        (Segment.ofTable table.tableId segments).length + 2 < 2 ^ 32 ∧
          below = (Segment.ofTable table.tableId segments).mapIdx fun index segment =>
            segmentNode table scanSplits (index + 3) segment := by
    intro below hbelow
    obtain ⟨hcount, rfl⟩ := segmentNodes_eq_ok.mp hbelow
    refine ⟨?_, rfl⟩
    by_cases hnil : Segment.ofTable table.tableId segments = []
    · rw [hnil]
      decide
    · have := hcount hnil
      omega
  have hplan : (Segment.ofTable table.tableId segments).length + 2 < 2 ^ 32 →
      buildDefaultLayoutPlan table segments scanSplits =
        .ok (defaultPlan table segments scanSplits) := by
    intro hcount
    have hbelow : segmentNodes table scanSplits 2 (Segment.ofTable table.tableId segments) =
        .ok ((Segment.ofTable table.tableId segments).mapIdx fun index segment =>
          segmentNode table scanSplits (index + 3) segment) :=
      segmentNodes_eq_ok.mpr ⟨fun _ => by omega, rfl⟩
    have hvalidate : validateLayoutNodes (defaultPlan table segments scanSplits).header
        (defaultPlan table segments scanSplits).nodes = .ok () := validate_defaultPlan h hcount
    unfold defaultPlan at hvalidate ⊢
    unfold buildDefaultLayoutPlan
    dsimp only
    rw [hbelow, ok_bind, List.length_cons, List.length_cons, List.length_mapIdx,
      Nat.mod_eq_of_lt hcount, Nat.mod_eq_of_lt (by omega), hvalidate]
    rfl
  constructor
  · intro hok
    obtain ⟨below, hbelow, -⟩ := bind_eq_ok.mp hok
    have hcount := (hbuilt hbelow).1
    rw [hplan hcount] at hok
    exact ⟨hcount, (Except.ok.inj hok).symm⟩
  · rintro ⟨hcount, rfl⟩
    exact hplan hcount

/-! ## The plan against its table -/

variable {sectionIds : List Nat} {pageClusters : Option (List Nat)}

theorem validateNodeRefs_eq_ok :
    validateNodeRefs sectionIds pageClusters scanSplits node = .ok () ↔
      (isAbsentRef node.sectionId ∨ node.sectionId ∈ sectionIds) ∧
      (isAbsentRef node.clusterId ∨ ∃ clusterIds ∈ pageClusters, node.clusterId ∈ clusterIds) ∧
      (isAbsentRef node.splitRef ∨ ∃ splits ∈ scanSplits,
        node.splitRef ∈ splits.entries.map fun split => split.splitId) := by
  unfold validateNodeRefs
  rw [ite_error_eq_ok, ite_error_eq_ok, ite_error_eq_ok, and_iff_left rfl]
  have hnot : ∀ (absent : Bool) (there : Prop), ¬ (!absent ∧ ¬ there) ↔ absent ∨ there := by
    intro absent there
    cases absent <;> simp
  exact and_congr (hnot _ _) (and_congr (hnot _ _) (hnot _ _))

theorem not_present_absentId : ¬ (!isAbsentRef absentId) = true := by decide

/-- A node for the whole table is accepted. -/
theorem validateAuthority_tableNode {parentNodeId nodeKind tableId firstChildIndex childCount : Nat} (hrowCount : table.rowCount < 2 ^ 64)
    (htable : tableId = absentId ∨ tableId = table.tableId)
    (hkind : nodeKind = 0 ∧ parentNodeId = absentId ∨ nodeKind = 1 ∧ tableId = table.tableId) :
    validateLayoutNodeAuthority sectionIds table segments pageClusters scanSplits
      (tableNode table nodeId parentNodeId nodeKind tableId firstChildIndex childCount) =
        .ok () := by
  have hrows : validateNodeRows table (tableNode table nodeId parentNodeId nodeKind tableId
      firstChildIndex childCount) none = .ok () := by
    unfold validateNodeRows
    by_cases hzero : table.rowCount = 0
    · exact if_pos hzero
    · refine (if_neg hzero).trans (bind_eq_ok.mpr ⟨table.rowCount, ?_, if_neg (Nat.lt_irrefl _)⟩)
      exact addU64_eq_ok.mpr ⟨by rwa [tableNode, Nat.zero_add], (Nat.zero_add _).symm⟩
  have hwrong : validateNodeKind table (tableNode table nodeId parentNodeId nodeKind tableId
      firstChildIndex childCount) none = .ok () := by
    rcases hkind with ⟨rfl, rfl⟩ | ⟨rfl, rfl⟩
    · rfl
    · unfold validateNodeKind tableNode
      dsimp only
      rw [if_neg (by simp)]
  refine ite_error_eq_ok.mpr ⟨?_, ite_error_eq_ok.mpr ⟨fun h => not_present_absentId h.1,
    bind_eq_ok.mpr ⟨none, rfl, bind_eq_ok.mpr ⟨(), rfl, bind_eq_ok.mpr ⟨(), hrows,
      bind_eq_ok.mpr ⟨(), validateNodeRefs_eq_ok.mpr ⟨.inl rfl, .inl rfl, .inl rfl⟩, hwrong⟩⟩⟩⟩⟩⟩
  rintro ⟨hpresent, hother⟩
  rcases htable with rfl | rfl
  · exact not_present_absentId hpresent
  · exact hother rfl

/-- A split that is referred to is there. -/
theorem splitRefOf_there (splits : ScanSplitIndexV2) (segmentId : Nat) :
    isAbsentRef (splitRefOf (some splits) segmentId) ∨ ∃ index ∈ some splits,
      splitRefOf (some splits) segmentId ∈ index.entries.map fun split => split.splitId := by
  unfold splitRefOf
  rw [Option.bind_some]
  cases hfind : splits.entries.find? fun split => split.firstSegmentId == segmentId with
  | none => exact .inl rfl
  | some split =>
    exact .inr ⟨splits, rfl, List.mem_map_of_mem (List.mem_of_find?_eq_some hfind)⟩

/-- **The node of a segment is accepted exactly when** the id of the segment can be referred to. -/
theorem validateAuthority_segmentNode (h : SegmentsOf table segments)
    {segment : Segment.TableSegmentIndexEntryV1}
    (hown : segment ∈ Segment.ofTable table.tableId segments)
    (hfound : segment.rowCount ≠ 0 → Found table segments segment) :
    validateLayoutNodeAuthority sectionIds table segments pageClusters (some splits)
      (segmentNode table (some splits) nodeId segment) = .ok () ↔
        isAbsentRef segment.segmentId = false := by
  constructor
  · intro hok
    obtain ⟨-, hok⟩ := ite_error_eq_ok.mp hok
    obtain ⟨-, hok⟩ := ite_error_eq_ok.mp hok
    obtain ⟨named, hnamed, hok⟩ := bind_eq_ok.mp hok
    obtain ⟨_, -, hok⟩ := bind_eq_ok.mp hok
    obtain ⟨_, -, hok⟩ := bind_eq_ok.mp hok
    obtain ⟨_, -, hkind⟩ := bind_eq_ok.mp hok
    -- A segment that cannot be referred to is not found, and a node of kind 3 needs one.
    by_contra habsent
    have hnone : nodeSegment (tableSegments table.tableId segments)
        (segmentNode table (some splits) nodeId segment) = .ok none :=
      if_pos (Bool.of_not_eq_false habsent)
    obtain rfl := Except.ok.inj (hnone.symm.trans hnamed)
    cases hkind
  · intro hpresent
    obtain ⟨other, hother⟩ : ∃ other, (Segment.ofTable table.tableId segments).find?
        (fun other => other.segmentId == segment.segmentId) = some other :=
      Option.isSome_iff_exists.mp (List.find?_isSome.mpr ⟨segment, hown, beq_self_eq_true _⟩)
    have hnamed : nodeSegment (tableSegments table.tableId segments)
        (segmentNode table (some splits) nodeId segment) = .ok (some (checkedSegment other)) := by
      unfold nodeSegment segmentNode
      dsimp only
      rw [if_neg (by simp [hpresent]), find?_tableSegments, hother]
      rfl
    have hsame : segment.rowCount ≠ 0 → other = segment := by
      intro hrows
      exact Option.some.inj (hother.symm.trans (hfound hrows))
    have hmorsels : validateNodeMorsels (segmentNode table (some splits) nodeId segment)
        (some (checkedSegment other)) = .ok () := by
      unfold validateNodeMorsels
      by_cases hzero : segment.morselCount = 0
      · exact if_pos hzero
      · rw [hsame fun hrows => hzero ((h.tiled segment hown).empty_iff.mpr hrows)]
        have hlt := (h.typed segment hown).morselCount
        refine (if_neg hzero).trans (bind_eq_ok.mpr ⟨segment.morselCount, ?_,
          if_neg (Nat.lt_irrefl _)⟩)
        exact addU32_eq_ok.mpr ⟨by rwa [segmentNode, Nat.zero_add], (Nat.zero_add _).symm⟩
    have hrows : validateNodeRows table (segmentNode table (some splits) nodeId segment)
        (some (checkedSegment other)) = .ok () := by
      unfold validateNodeRows
      by_cases hzero : segment.rowCount = 0
      · exact if_pos hzero
      · rw [hsame hzero]
        have hend : checkedAdd segment.rowStart segment.rowCount =
            .ok (segment.rowStart + segment.rowCount) :=
          addU64_eq_ok.mpr ⟨(h.within segment hown).trans_lt h.rowCount, rfl⟩
        refine (if_neg hzero).trans (bind_eq_ok.mpr ⟨_, hend, bind_eq_ok.mpr ⟨_, hend, if_neg ?_⟩⟩)
        exact not_or.mpr ⟨Nat.lt_irrefl _, Nat.lt_irrefl _⟩
    exact ite_error_eq_ok.mpr ⟨fun hwrong => hwrong.2 rfl, ite_error_eq_ok.mpr
      ⟨fun hwrong => not_present_absentId hwrong.1, bind_eq_ok.mpr ⟨_, hnamed,
        bind_eq_ok.mpr ⟨(), hmorsels, bind_eq_ok.mpr ⟨(), hrows, bind_eq_ok.mpr ⟨(),
          validateNodeRefs_eq_ok.mpr ⟨.inl rfl, .inl rfl, splitRefOf_there splits _⟩, rfl⟩⟩⟩⟩⟩⟩

theorem lt_of_splitRefOf (segmentId : Nat) :
    splitRefOf (some (defaultSplits table segments)) segmentId < 2 ^ 32 := by
  unfold splitRefOf
  rw [Option.bind_some]
  cases hfind : (defaultSplits table segments).entries.find? fun split =>
    split.firstSegmentId == segmentId with
  | none => decide
  | some split =>
    obtain ⟨index, segment, -, rfl⟩ := mem_defaultSplits.mp (List.mem_of_find?_eq_some hfind)
    show u32OrMax (index + 1) < 2 ^ 32
    unfold u32OrMax
    split
    · assumption
    · decide

/-- The numbers of the default plan fit their fields. -/
theorem fits_defaultPlan (h : SegmentsOf table segments)
    (hcount : (Segment.ofTable table.tableId segments).length + 2 < 2 ^ 32) :
    (defaultPlan table segments (some (defaultSplits table segments))).Fits := by
  have hrowCount := h.rowCount
  have htableId := h.tableId
  refine ⟨?_, fun node hnode => ?_⟩
  · unfold FieldRecord.Fits defaultPlan LayoutPlanHeaderV2.fields
    simp only [List.forall_mem_cons, List.not_mem_nil, false_implies, implies_true, and_true]
    omega
  · rcases mem_defaultPlan.mp hnode with rfl | rfl | ⟨index, segment, hat, rfl⟩
    · refine ⟨?_, .inl (Nat.zero_le _)⟩
      unfold FieldRecord.Fits tableNode LayoutPlanNodeV2.fields absentId
      simp only [List.forall_mem_cons, List.not_mem_nil, false_implies, implies_true, and_true]
      omega
    · refine ⟨?_, .inl (show 1 ≤ 7 by decide)⟩
      unfold FieldRecord.Fits tableNode LayoutPlanNodeV2.fields absentId
      simp only [List.forall_mem_cons, List.not_mem_nil, false_implies, implies_true, and_true]
      omega
    · have hown := List.mem_of_getElem? hat
      have hwithin := h.within segment hown
      obtain ⟨hid, hrows, hmorsels, -, hstats⟩ := h.typed segment hown
      obtain ⟨hlt, -⟩ := List.getElem?_eq_some_iff.mp hat
      have hsplit : splitRefOf (some (defaultSplits table segments)) segment.segmentId < 2 ^ 32 :=
        lt_of_splitRefOf _
      refine ⟨?_, .inl (show 3 ≤ 7 by decide)⟩
      unfold FieldRecord.Fits segmentNode LayoutPlanNodeV2.fields absentId
      simp only [List.forall_mem_cons, List.not_mem_nil, false_implies, implies_true, and_true]
      omega

/-! ## Which defaults are built -/

/-- An index and a plan are the defaults of a table: a split for each segment with rows, and a plan
that is accepted whatever sections and clusters there are, and that is read back. -/
structure DefaultsStand (table : TableEntry) (segments : List Segment.TableSegmentIndexEntryV1)
    (splits : ScanSplitIndexV2) (plan : LayoutPlanV2) : Prop where
  splitsBuilt : buildDefaultScanSplitIndex table segments = .ok splits
  oneEach : splits.entries.map (fun split => (split.firstSegmentId, split.segmentCount,
      split.firstMorselId, split.morselCount, split.rowStart, split.rowCount)) =
    ((Segment.ofTable table.tableId segments).filter fun segment => segment.rowCount ≠ 0).map
      fun segment => (segment.segmentId, 1, 0, segment.morselCount, segment.rowStart,
        segment.rowCount)
  planBuilt : buildDefaultLayoutPlan table segments (some splits) = .ok plan
  accepted : ∀ sectionIds pageClusters, validateLayoutPlanAuthority plan sectionIds table segments
    pageClusters (some splits) = .ok ()
  readBack : ∃ bytes, plan.serialize = .ok bytes ∧ LayoutPlanV2.parse bytes = .ok plan.stored

/-- **Defaults are built for a table.** -/
def BuildsDefaults (table : TableEntry) (segments : List Segment.TableSegmentIndexEntryV1) : Prop :=
  ∃ splits plan, DefaultsStand table segments splits plan

/-- The segments of a table can be referred to: no id is one of the two absent ones, a segment with
rows is the first with its id, and the nodes can be counted. -/
structure IdsUsable (table : TableEntry) (segments : List Segment.TableSegmentIndexEntryV1) :
    Prop where
  present : ∀ segment ∈ Segment.ofTable table.tableId segments,
    segment.segmentId ≠ 0 ∧ segment.segmentId ≠ absentId
  found : ∀ segment ∈ Segment.ofTable table.tableId segments, segment.rowCount ≠ 0 →
    Found table segments segment
  counted : (Segment.ofTable table.tableId segments).length + 2 < 2 ^ 32

theorem isAbsentRef_eq_false {value : Nat} :
    isAbsentRef value = false ↔ value ≠ 0 ∧ value ≠ absentId := by
  unfold isAbsentRef
  rw [Bool.or_eq_false_iff, beq_eq_false_iff_ne, beq_eq_false_iff_ne]

theorem buildDefaultScanSplitIndex_eq_ok :
    buildDefaultScanSplitIndex table segments = .ok splits ↔
      validateScanSplitAuthority (defaultSplits table segments) table segments none = .ok () ∧
        splits = defaultSplits table segments := by
  unfold buildDefaultScanSplitIndex
  rw [bind_eq_ok]
  constructor
  · rintro ⟨_, hvalidate, h⟩
    exact ⟨hvalidate, (Except.ok.inj h).symm⟩
  · rintro ⟨hvalidate, rfl⟩
    exact ⟨(), hvalidate, rfl⟩

/-- The segments with morsels are those with rows. -/
theorem splitSegments_eq (h : SegmentsOf table segments) : splitSegments table segments =
    (Segment.ofTable table.tableId segments).filter fun segment => segment.rowCount ≠ 0 := by
  refine List.filter_congr fun segment hsegment => ?_
  rw [decide_eq_decide]
  exact not_congr (h.tiled segment hsegment).empty_iff

/-- **The default plan is accepted exactly when** no segment has an absent id. -/
theorem validate_defaultPlan_iff (h : SegmentsOf table segments)
    (hcount : (Segment.ofTable table.tableId segments).length + 2 < 2 ^ 32)
    (hfound : ∀ segment ∈ Segment.ofTable table.tableId segments, segment.rowCount ≠ 0 →
      Found table segments segment) (splits : ScanSplitIndexV2) :
    validateLayoutPlanAuthority (defaultPlan table segments (some splits)) sectionIds table segments
      pageClusters (some splits) = .ok () ↔
        ∀ segment ∈ Segment.ofTable table.tableId segments,
          segment.segmentId ≠ 0 ∧ segment.segmentId ≠ absentId := by
  unfold validateLayoutPlanAuthority
  rw [validate_defaultPlan h hcount, ok_bind, forM_eq_ok]
  constructor
  · intro hall segment hown
    obtain ⟨index, hat⟩ := List.getElem?_of_mem hown
    have hnode := hall _ (mem_defaultPlan.mpr (.inr (.inr ⟨index, segment, hat, rfl⟩)))
    exact isAbsentRef_eq_false.mp
      ((validateAuthority_segmentNode h hown (hfound segment hown)).mp hnode)
  · intro hpresent node hnode
    rcases mem_defaultPlan.mp hnode with rfl | rfl | ⟨index, segment, hat, rfl⟩
    · exact validateAuthority_tableNode h.rowCount (.inl rfl) (.inl ⟨rfl, rfl⟩)
    · exact validateAuthority_tableNode h.rowCount (.inr rfl) (.inr ⟨rfl, rfl⟩)
    · have hown := List.mem_of_getElem? hat
      exact (validateAuthority_segmentNode h hown (hfound segment hown)).mpr
        (isAbsentRef_eq_false.mpr (hpresent segment hown))

/-- **Defaults are built exactly when** the segments of the table can be referred to. -/
theorem buildsDefaults_iff (h : SegmentsOf table segments) :
    BuildsDefaults table segments ↔ IdsUsable table segments := by
  have hsplitSegments : ∀ {segment}, segment ∈ splitSegments table segments ↔
      segment ∈ Segment.ofTable table.tableId segments ∧ segment.rowCount ≠ 0 := by
    intro segment
    rw [splitSegments_eq h, List.mem_filter, decide_eq_true_iff]
  constructor
  · rintro ⟨splits, plan, hstand⟩
    obtain ⟨hvalidate, rfl⟩ := buildDefaultScanSplitIndex_eq_ok.mp hstand.splitsBuilt
    obtain ⟨hcount, rfl⟩ := (buildDefaultLayoutPlan_eq_ok h).mp hstand.planBuilt
    have hfound : ∀ segment ∈ Segment.ofTable table.tableId segments, segment.rowCount ≠ 0 →
        Found table segments segment := by
      intro segment hown hrows
      have hall := (validate_defaultSplits_iff h (by omega)).mp hvalidate
      exact (hall segment (hsplitSegments.mpr ⟨hown, hrows⟩)).2
    exact ⟨(validate_defaultPlan_iff h hcount hfound _).mp (hstand.accepted [] none), hfound, hcount⟩
  · rintro ⟨hpresent, hfound, hcount⟩
    have hvalidate : validateScanSplitAuthority (defaultSplits table segments) table segments none =
        .ok () := by
      refine (validate_defaultSplits_iff h (by omega)).mpr fun segment hsegment => ?_
      obtain ⟨hown, hrows⟩ := hsplitSegments.mp hsegment
      exact ⟨(hpresent segment hown).2, hfound segment hown hrows⟩
    have hserialize : ∃ bytes,
        (defaultPlan table segments (some (defaultSplits table segments))).serialize = .ok bytes := by
      unfold LayoutPlanV2.serialize
      rw [validate_defaultPlan h hcount]
      exact ⟨_, rfl⟩
    obtain ⟨bytes, hbytes⟩ := hserialize
    refine ⟨_, _, buildDefaultScanSplitIndex_eq_ok.mpr ⟨hvalidate, rfl⟩, ?_,
      (buildDefaultLayoutPlan_eq_ok h).mpr ⟨hcount, rfl⟩, fun sectionIds pageClusters =>
        (validate_defaultPlan_iff h hcount hfound _).mpr hpresent, bytes, hbytes,
      LayoutPlanV2.parse_serialize (fits_defaultPlan h hcount) hbytes⟩
    unfold defaultSplits
    rw [← splitSegments_eq h]
    refine List.ext_getElem? fun index => ?_
    rw [List.getElem?_map, List.getElem?_mapIdx, List.getElem?_map, Option.map_map]
    rfl

end

/-- A segment with some id that has rows, one of another table and one that is empty. -/
def mixedSegments (segmentId : Nat) : List Segment.TableSegmentIndexEntryV1 :=
  [⟨1, segmentId, 0, 27, 3, 10, 400, 0⟩, ⟨2, 5, 0, 8, 1, 8, 100, 0⟩, ⟨1, 7, 27, 0, 0, 10, 0, 0⟩]

theorem segmentsOf_mixedSegments {segmentId : Nat} (hid : segmentId < 2 ^ 32) :
    SegmentsOf thirtyRows (mixedSegments segmentId) := by
  have hmem : ∀ segment ∈ Segment.ofTable thirtyRows.tableId (mixedSegments segmentId),
      segment = ⟨1, segmentId, 0, 27, 3, 10, 400, 0⟩ ∨ segment = ⟨1, 7, 27, 0, 0, 10, 0, 0⟩ := by
    intro segment hsegment
    rcases List.mem_cons.mp hsegment with rfl | hsegment
    · exact .inl rfl
    · exact .inr (List.mem_singleton.mp hsegment)
  refine ⟨?_, fun segment hsegment => ?_, fun segment hsegment => ?_, fun segment hsegment => ?_,
    by decide, by decide⟩
  · refine List.pairwise_pair.mpr fun row hrow => ?_
    have hlt : row < 27 + 0 := hrow.2.2
    have hle : 27 ≤ row := hrow.2.1
    omega
  · rcases hmem segment hsegment with rfl | rfl
    · exact ⟨show ∀ m < 3, m * 10 < 27 by decide, show 27 ≤ 3 * 10 by decide⟩
    · exact ⟨by decide, by decide⟩
  · rcases hmem segment hsegment with rfl | rfl
    · exact show 0 + 27 ≤ 30 by decide
    · decide
  · rcases hmem segment hsegment with rfl | rfl
    · exact ⟨hid, show 27 < 2 ^ 32 by decide, show 3 < 2 ^ 32 by decide,
        show 10 < 2 ^ 32 by decide, show 0 < 2 ^ 32 by decide⟩
    · exact ⟨by decide, by decide, by decide, by decide, by decide⟩

theorem mixedSegments_buildsDefaults : BuildsDefaults thirtyRows (mixedSegments 4) := by
  refine (buildsDefaults_iff (segmentsOf_mixedSegments (by decide))).mpr ⟨by decide, ?_, by decide⟩
  unfold Found
  decide

/-- A segment with the id 0 is in the default index and in the default plan, and the plan is then
refused; one with the largest id is refused before. -/
theorem absentIds_not_buildsDefaults :
    (SegmentsOf thirtyRows (mixedSegments 0) ∧
      Segment.TableSegmentIndex.validate (mixedSegments 0) = .ok () ∧
      ¬ BuildsDefaults thirtyRows (mixedSegments 0)) ∧
    SegmentsOf thirtyRows (mixedSegments absentId) ∧
      Segment.TableSegmentIndex.validate (mixedSegments absentId) = .ok () ∧
      ¬ BuildsDefaults thirtyRows (mixedSegments absentId) := by
  refine ⟨⟨segmentsOf_mixedSegments (by decide), by decide, ?_⟩,
    segmentsOf_mixedSegments (by decide), by decide, ?_⟩
  · rintro ⟨splits, plan, hstand⟩
    obtain ⟨-, rfl⟩ := buildDefaultScanSplitIndex_eq_ok.mp hstand.splitsBuilt
    obtain ⟨-, rfl⟩ := (buildDefaultLayoutPlan_eq_ok (segmentsOf_mixedSegments (by decide))).mp
      hstand.planBuilt
    exact absurd (hstand.accepted [] none) (by decide)
  · rintro ⟨splits, plan, hstand⟩
    obtain ⟨hvalidate, -⟩ := buildDefaultScanSplitIndex_eq_ok.mp hstand.splitsBuilt
    exact absurd hvalidate (by decide)

end Cove.Layout
