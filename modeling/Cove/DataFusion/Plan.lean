import Cove.DataFusion.NumericPredicate
import Cove.DataFusion.State

/-!
# Scan plans

The lowered filters of a scan and the index each column is answered from.

- `CovePredicate`, `FilterPlan`.
- `numericLookupKey`: the exact key a numeric literal looks up.
- `DatasetState.lookupFor` and its siblings: the first index of a column.
-/

namespace Cove

open Ieee754

inductive NullPredicateKind where
  | isNull
  | isNotNull
  deriving DecidableEq, Repr

/-- The file codes of a membership filter, sorted and deduplicated by the planner. -/
structure FileCodes where
  codes : List Nat
  sorted : codes.Pairwise (· < ·)
  deriving DecidableEq, Repr

/-- Codes sorted and deduplicated. -/
def FileCodes.ofList (codes : List Nat) : FileCodes where
  codes := (codes.insertionSort (· ≤ ·)).dedup
  sorted := by
    have hle := (codes.pairwise_insertionSort (· ≤ ·)).sublist
      (codes.insertionSort (· ≤ ·)).dedup_sublist
    exact (hle.and (List.nodup_dedup _)).imp fun h => lt_of_le_of_ne h.1 h.2

@[simp] theorem FileCodes.mem_ofList {codes : List Nat} {code : Nat} :
    code ∈ (ofList codes).codes ↔ code ∈ codes := by
  simp [ofList]

/-- `file_codes.binary_search(&code).is_ok()`. -/
def FileCodes.contains (fileCodes : FileCodes) (code : Nat) : Bool :=
  (BinarySearch.binarySearchByKey code id fileCodes.codes).isSome

theorem FileCodes.contains_iff {fileCodes : FileCodes} {code : Nat} :
    fileCodes.contains code = true ↔ code ∈ fileCodes.codes := by
  have h := BinarySearch.binarySearchByKey_isSome_iff (k := code) fileCodes.sorted
  rwa [List.map_id'] at h

/-- The lowered predicate of a filter. A membership filter carries the canonical values it
tests for, and the codes they have in the file at hand. -/
inductive CovePredicate where
  | null (columnIndex : Nat) (kind : NullPredicateKind)
  | numeric (columnIndex : Nat) (op : NumericPredicateOp) (literal : PredicateLiteral)
  | fileCodeIn (columnIndex : Nat) (fileCodes : FileCodes)
    (canonicalValues : List (List UInt8))
  | varBytesEq (columnIndex : Nat) (literal : List UInt8)
  deriving DecidableEq, Repr

/-- `predicate_column_index`. -/
def predicateColumnIndex : CovePredicate → Nat
  | .null columnIndex _ => columnIndex
  | .numeric columnIndex _ _ => columnIndex
  | .fileCodeIn columnIndex _ _ => columnIndex
  | .varBytesEq columnIndex _ => columnIndex

/-- A filter of the plan. -/
structure FilterPlan where
  predicate : Option CovePredicate
  coveragePredicateFormRef : Option Nat
  deriving DecidableEq, Repr

/-- `numeric_lookup_key`. -/
def numericLookupKey (literal : PredicateLiteral) : Option Nat :=
  match literal with
  | .int64 value => if value.toInt < 0 then none else some value.toInt.toNat
  | .uint64 value => some value.toNat
  | .float64 value =>
    match value.value with
    | none => none
    | some v =>
      if value.isFinite && v % binary64.one == 0 then
        if 0 ≤ v ∧ v ≤ natAsF64 (2 ^ 64 - 1) then some value.toU64 else none
      else none

/-! ## The index of a column -/

namespace DatasetState

/-- `lookup_for`: the cache keeps the first index of the table and column. -/
def lookupFor (state : DatasetState) (columnId : Nat) : Option LookupIndex :=
  state.pruning.lookups.find? fun lookup =>
    lookup.header.tableId == state.table.tableId && lookup.header.columnId == columnId

def exactSetFor (state : DatasetState) (columnId : Nat) : Option ExactSetIndex :=
  state.pruning.exactSets.find? fun exactSet =>
    exactSet.header.tableId == state.table.tableId && exactSet.header.columnId == columnId

def bloomFor (state : DatasetState) (columnId : Nat) : Option BloomFilterIndex :=
  state.pruning.blooms.find? fun bloom =>
    bloom.header.tableId == state.table.tableId && bloom.header.columnId == columnId

def invertedFor (state : DatasetState) (columnId : Nat) : Option InvertedMorselIndex :=
  state.pruning.inverted.find? fun inverted =>
    inverted.header.tableId == state.table.tableId && inverted.header.columnId == columnId

/-- `column_domain_for`: the first safe domain of the column. -/
def columnDomainFor (state : DatasetState) (columnId : Nat) : Option ColumnDomain :=
  state.pruning.columnDomains.find? fun domain =>
    domain.tableOrObjectId == state.table.tableId && domain.isSafe &&
      domain.columnOrPropertyId == columnId

/-- `zone_stats_for`: the first entry of the segment, morsel and column. -/
def zoneStatsFor (state : DatasetState) (segmentId morselId columnId : Nat) :
    Option ZoneStatsEntry :=
  state.pruning.zoneStats.flatten.find? fun entry =>
    entry.tableId == state.table.tableId && entry.segmentId == segmentId &&
      entry.morselId == morselId && entry.columnId == columnId

def compositeIndexes (state : DatasetState) : List CompositeIndex :=
  state.pruning.composites.filter fun index =>
    index.header.tableId == state.table.tableId && index.header.transformKind == .tuple

end DatasetState

end Cove
