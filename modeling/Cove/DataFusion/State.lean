import Cove.Core.Array
import Cove.Core.Index
import Cove.Core.ZoneStats
import Cove.Core.Domain
import Cove.Coverage.Set
import Cove.DataFusion.Overlay

/-!
# Dataset state

What the planner knows of a mounted table: its schema, its segments, the pruning
metadata of the file, the row visibility of its files and the dictionary.

- `DatasetState`, with the accessors the pruning functions use.
- `DatasetState.MorselRow`: the rows of a morsel.
-/

namespace Cove

structure ColumnEntry where
  columnId : Nat
  logical : CoveLogicalType
  physical : CovePhysicalKind
  collationId : UInt16
  sortOrder : UInt16
  deriving DecidableEq, Repr

structure TableEntry where
  tableId : Nat
  rowCount : Nat
  columns : List ColumnEntry
  deriving DecidableEq, Repr

structure TableSegmentIndexEntryV1 where
  segmentId : Nat
  rowStart : Nat
  rowCount : Nat
  morselCount : Nat
  morselRowCount : Nat
  deriving DecidableEq, Repr

/-- The pruning metadata of a file, in section order. -/
structure PruningMetadata where
  columnDomains : List ColumnDomain
  zoneStats : List (List ZoneStatsEntry)
  exactSets : List ExactSetIndex
  blooms : List BloomFilterIndex
  lookups : List LookupIndex
  inverted : List InvertedMorselIndex
  composites : List CompositeIndex
  coverageProviders : List CoverageProviderDescriptorV2
  coverageSets : List CoverageSetV2
  coverageProofs : List CoverageProofRecordV2
  predicateForms : List Nat
  predicateFormsWithPayloads : List Nat

/-- No pruning metadata at all. -/
def PruningMetadata.empty : PruningMetadata :=
  ⟨[], [], [], [], [], [], [], [], [], [], [], []⟩

/-- A mounted table. `files` carries the row visibility of each file. -/
structure DatasetState where
  table : TableEntry
  segments : List TableSegmentIndexEntryV1
  files : List RowVisibility
  dictionary : Option FileDictionary
  pruning : PruningMetadata

/-- A row of a data set: the fragment it lives in, and its ordinal in its file. -/
structure TableRow where
  fileRef : Nat
  tableId : Nat
  segmentId : Nat
  morselId : Nat
  ordinal : Nat
  deriving DecidableEq, Repr

namespace DatasetState

/-- The entry of a segment. -/
def segment (state : DatasetState) (segmentId : Nat) : Option TableSegmentIndexEntryV1 :=
  state.segments.find? fun segment => segment.segmentId == segmentId

/-- The rows of a morsel of the first file. -/
def MorselRow (state : DatasetState) (segmentId morselId : Nat) (r : TableRow) : Prop :=
  r.fileRef = 0 ∧ r.tableId = state.table.tableId ∧ r.segmentId = segmentId ∧
    r.morselId = morselId ∧
    ∃ segment ∈ state.segment segmentId,
      let first := morselId * segment.morselRowCount
      segment.rowStart + first ≤ r.ordinal ∧
        r.ordinal < segment.rowStart + first +
          min (segment.rowCount - first) segment.morselRowCount

/-- The row is visible in the first file. -/
def VisibleRow (state : DatasetState) (r : TableRow) : Prop :=
  ∃ visibility ∈ state.files.head?,
    visibility.isRowVisible r.ordinal state.table.rowCount = .ok true

end DatasetState

end Cove
