import Cove.Core.AggregateReadback
import Cove.DataFusion.FileCodeLiteral
import Cove.Lib.ZoneCounts

/-!
# Counts from metadata

`COUNT(*)` under an equality or `IN` filter on a dictionary column, and `COUNT(*)` by its values,
answered without reading a page: from the exact histograms of every file, else from its lookup
index.

- `FileMetadata`, `FileSet`: what the answers are read from.
- `exactFilecodeFilteredCount`, `exactFilecodeGroupCounts`: the two answers, each with its
  histogram path and its lookup path.
-/

namespace Cove

open ZoneCounts

/-! ## Files -/

section

variable (validJson : List UInt8 → Bool)

/-- A mounted file: the reverse lookup is built from the dictionary, and only synopses that are
valid are kept. -/
structure FileMetadata where
  table : TableEntry
  visibility : RowVisibility
  dictionary : Option FileDictionary
  reverseLookup : Option ReverseLookup
  aggregates : List (AggregateSynopsis validJson)
  lookups : List LookupIndex
  reverse_built : dictionary.mapM buildReverseLookup = .ok reverseLookup
  aggregates_valid : ∀ synopsis ∈ aggregates, synopsis.validate = .ok ()

/-- The files of a data set, and the table they are registered as. -/
structure FileSet where
  table : TableEntry
  files : List (FileMetadata validJson)

end

section

variable {validJson : List UInt8 → Bool}

namespace FileMetadata

/-- `has_redaction`. -/
def hasRedaction (file : FileMetadata validJson) : Bool :=
  file.reverseLookup.any fun lookup => !lookup.redactedFilecodes.isEmpty

/-- `lookup_for`: the cache keeps the first index of the table and column. -/
def lookupFor (file : FileMetadata validJson) (columnId : Nat) : Option LookupIndex :=
  file.lookups.find? fun lookup =>
    lookup.header.tableId == file.table.tableId && lookup.header.columnId == columnId

/-- The entries that `exact_payload_entries_for_file` takes. -/
def wants (file : FileMetadata validJson) (columnId : Nat) (kind : SynopsisKind)
    (entry : AggregateEntry) : Bool :=
  entry.tableId.toNat == file.table.tableId && entry.columnId.toNat == columnId &&
    entry.synopsisKind == kind && entry.accuracy == .exact

end FileMetadata

/-- The loop of `exact_payload_entries_for_file` over the entries of a synopsis, from an index
on. -/
def wantedEntriesFrom (payloads : List (AggregatePayloadV2 validJson))
    (wants : AggregateEntry → Bool) : Nat → List AggregateEntry →
    Except CoveError (List (AggregateEntry × AggregatePayloadV2 validJson))
  | _, [] => .ok []
  | index, entry :: entries =>
    if wants entry then
      match payloads[index]? with
      | none => .error .badIndex
      | some payload => do
        .ok ((entry, payload) :: (← wantedEntriesFrom payloads wants (index + 1) entries))
    else wantedEntriesFrom payloads wants (index + 1) entries

/-- `exact_payload_entries_for_file`. -/
def exactPayloadEntriesForFile (file : FileMetadata validJson) (columnId : Nat)
    (kind : SynopsisKind) :
    Except CoveError (List (AggregateEntry × AggregatePayloadV2 validJson)) := do
  .ok (← file.aggregates.mapM fun synopsis =>
    wantedEntriesFrom synopsis.payloads (file.wants columnId kind) 0 synopsis.entries).flatten

/-- `filecode_fast_paths_are_safe`. -/
def filecodeFastPathsAreSafe (state : FileSet validJson) (columnIndex : Nat) : Bool :=
  state.files.all fun file =>
    match file.table.columns[columnIndex]? with
    | none => false
    | some column =>
      column.physical == .fileCode && file.visibility == .all && !file.hasRedaction

/-! ## Plans -/

inductive MetadataAggregateProofKind where
  | fileCodeLookupCount
  | fileCodeLookupGroupCount
  | fileCodeHistogramCount
  | fileCodeHistogramGroupCount
  deriving DecidableEq, Repr

structure MetadataAggregateProof where
  kind : MetadataAggregateProofKind
  reason : String
  dictionaryGroupLabelsDecoded : Nat
  deriving DecidableEq, Repr

structure MetadataGroupCount where
  canonicalValue : List UInt8
  count : Nat
  deriving DecidableEq, Repr

inductive MetadataAggregatePlan where
  | scalarCounts (counts : List Nat) (proof : MetadataAggregateProof)
  | fileCodeGroupCounts (columnIndex : Nat) (groups : List MetadataGroupCount)
      (proof : MetadataAggregateProof)
  deriving DecidableEq, Repr

namespace MetadataAggregatePlan

/-- The counts of a plan without groups. -/
def counts : MetadataAggregatePlan → List Nat
  | scalarCounts counts _ => counts
  | fileCodeGroupCounts .. => []

/-- The groups of a plan. -/
def groups : MetadataAggregatePlan → List MetadataGroupCount
  | scalarCounts .. => []
  | fileCodeGroupCounts _ groups _ => groups

end MetadataAggregatePlan

/-! ## Filtered counts -/

/-- The codes of the literals in a file, as far as its dictionary has them. -/
def FileMetadata.selectedCodes (file : FileMetadata validJson)
    (canonicalValues : List (List UInt8)) : List Nat :=
  canonicalValues.filterMap (fileCodeForCanonical file.reverseLookup)

/-- The counts of the selected buckets, added to the total. -/
def addSelected (selectedCodes : List Nat) (total : Nat) :
    List HistogramBucket → Except CoveError Nat
  | [] => .ok total
  | bucket :: buckets =>
    if bucket.key.toNat ∈ selectedCodes then do
      let total ← checkedAdd total bucket.count.toNat
      addSelected selectedCodes total buckets
    else addSelected selectedCodes total buckets

/-- The histograms of a file: the rows they cover, and the total. -/
def addHistograms (selectedCodes : List Nat) (coveredRows total : Nat) :
    List (AggregateEntry × AggregatePayloadV2 validJson) → Except CoveError (Option (Nat × Nat))
  | [] => .ok (some (coveredRows, total))
  | (entry, payload) :: entries => do
    let coveredRows ← checkedAdd coveredRows entry.rowCount.toNat
    match payload with
    | .fileCodeHistogram buckets => do
      let total ← addSelected selectedCodes total buckets
      addHistograms selectedCodes coveredRows total entries
    | _ => .ok none

/-- The loop of `exact_filecode_histogram_filtered_count` over the files. -/
def histogramFilteredFrom (columnIndex : Nat) (canonicalValues : List (List UInt8))
    (total : Nat) : List (FileMetadata validJson) → Except CoveError (Option Nat)
  | [] => .ok (some total)
  | file :: files =>
    match file.table.columns[columnIndex]? with
    | none => .error (.badSchema "FileCode filter column out of bounds")
    | some column => do
      let entries ← exactPayloadEntriesForFile file column.columnId .fileCodeHistogram
      if entries.isEmpty then .ok none
      else
        match ← addHistograms (file.selectedCodes canonicalValues) 0 total entries with
        | none => .ok none
        | some (coveredRows, total) =>
          if coveredRows ≠ file.table.rowCount then .ok none
          else histogramFilteredFrom columnIndex canonicalValues total files

/-- `exact_filecode_histogram_filtered_count`. -/
def exactFilecodeHistogramFilteredCount (state : FileSet validJson) (columnIndex : Nat)
    (canonicalValues : List (List UInt8)) : Except CoveError (Option MetadataAggregatePlan) := do
  let total ← histogramFilteredFrom columnIndex canonicalValues 0 state.files
  .ok (total.map fun total => .scalarCounts [total]
    ⟨.fileCodeHistogramCount, "exact FileCode histogram count for equality/IN filter", 0⟩)

/-- The rows of an entry that are rows of the table, once each. -/
def LookupEntry.tableRows (entry : LookupEntry) (tableId : Nat) : List RowRef :=
  (entry.rows.filter fun row => row.tableId = tableId).dedup

/-- The rows that a lookup index has for the literals, once each. -/
def FileMetadata.selectedRows (file : FileMetadata validJson) (lookup : LookupIndex)
    (canonicalValues : List (List UInt8)) : List RowRef :=
  ((file.selectedCodes canonicalValues).flatMap fun fileCode =>
    ((lookup.rowsFor fileCode).getD []).filter fun row => row.tableId = file.table.tableId).dedup

/-- The loop of `exact_filecode_filtered_count` over the files. -/
def lookupFilteredFrom (columnIndex : Nat) (canonicalValues : List (List UInt8)) (total : Nat) :
    List (FileMetadata validJson) → Except CoveError (Option Nat)
  | [] => .ok (some total)
  | file :: files =>
    match file.table.columns[columnIndex]? with
    | none => .error (.badSchema "FileCode filter column out of bounds")
    | some column =>
      match file.lookupFor column.columnId with
      | none => .ok none
      | some lookup =>
        if lookup.header.keyKind ≠ .fileCode then .ok none
        else do
          let total ← checkedAdd total (file.selectedRows lookup canonicalValues).length
          lookupFilteredFrom columnIndex canonicalValues total files

/-- `exact_filecode_filtered_count`, where the histograms do not answer. -/
def exactFilecodeLookupFilteredCount (state : FileSet validJson) (columnIndex : Nat)
    (canonicalValues : List (List UInt8)) : Except CoveError (Option MetadataAggregatePlan) := do
  let total ← lookupFilteredFrom columnIndex canonicalValues 0 state.files
  .ok (total.map fun total => .scalarCounts [total]
    ⟨.fileCodeLookupCount, "exact FileCode lookup index count for equality/IN filter", 0⟩)

/-- `exact_filecode_filtered_count`. -/
def exactFilecodeFilteredCount (state : FileSet validJson) (columnIndex : Nat)
    (canonicalValues : List (List UInt8)) : Except CoveError (Option MetadataAggregatePlan) :=
  if canonicalValues.isEmpty || !filecodeFastPathsAreSafe state columnIndex then .ok none
  else do
    match ← exactFilecodeHistogramFilteredCount state columnIndex canonicalValues with
    | some plan => .ok (some plan)
    | none => exactFilecodeLookupFilteredCount state columnIndex canonicalValues

/-! ## Group counts -/

/-- The groups so far, and how many labels were decoded for them. -/
structure GroupedCounts where
  grouped : OrderedMap (List UInt8) Nat
  labelsDecoded : Nat

namespace GroupedCounts

def empty : GroupedCounts := ⟨.empty, 0⟩

/-- A count is added to the group of its value. -/
def add (counts : GroupedCounts) (canonical : List UInt8) (count : Nat) :
    Except CoveError GroupedCounts := do
  .ok ⟨← addTo checkedAdd counts.grouped canonical count, counts.labelsDecoded + 1⟩

/-- The groups, by value. -/
def groups (counts : GroupedCounts) : List MetadataGroupCount :=
  counts.grouped.entries.map fun entry => ⟨entry.1, entry.2⟩

end GroupedCounts

/-- The buckets of a histogram. -/
def groupBuckets (dictionary : FileDictionary) (counts : GroupedCounts) :
    List HistogramBucket → Except CoveError (Option GroupedCounts)
  | [] => .ok (some counts)
  | bucket :: buckets =>
    if bucket.key.toNat ≥ 2 ^ 32 then .error .badIndex
    else do
      match ← dictionary.decodeValue bucket.key.toNat with
      | .redactedPresent => .ok none
      | .rawBytes canonical => do
        let counts ← counts.add canonical bucket.count.toNat
        groupBuckets dictionary counts buckets

/-- The histograms of a file: the rows and the nulls they cover, and the groups. -/
def groupHistograms (dictionary : FileDictionary) (coveredRows nullRows : Nat)
    (counts : GroupedCounts) : List (AggregateEntry × AggregatePayloadV2 validJson) →
    Except CoveError (Option (Nat × Nat × GroupedCounts))
  | [] => .ok (some (coveredRows, nullRows, counts))
  | (entry, payload) :: entries => do
    let coveredRows ← checkedAdd coveredRows entry.rowCount.toNat
    let nullRows ← checkedAdd nullRows entry.nullCount.toNat
    match payload with
    | .fileCodeHistogram buckets => do
      match ← groupBuckets dictionary counts buckets with
      | none => .ok none
      | some counts => groupHistograms dictionary coveredRows nullRows counts entries
    | _ => .ok none

/-- The loop of `exact_filecode_histogram_group_counts` over the files. -/
def histogramGroupsFrom (columnIndex : Nat) (counts : GroupedCounts) :
    List (FileMetadata validJson) → Except CoveError (Option GroupedCounts)
  | [] => .ok (some counts)
  | file :: files =>
    match file.table.columns[columnIndex]? with
    | none => .error (.badSchema "FileCode group column out of bounds")
    | some column =>
      match file.dictionary with
      | none => .ok none
      | some dictionary => do
        let entries ← exactPayloadEntriesForFile file column.columnId .fileCodeHistogram
        if entries.isEmpty then .ok none
        else
          match ← groupHistograms dictionary 0 0 counts entries with
          | none => .ok none
          | some (coveredRows, nullRows, counts) =>
            if coveredRows ≠ file.table.rowCount ∨ nullRows ≠ 0 then .ok none
            else histogramGroupsFrom columnIndex counts files

/-- `exact_filecode_histogram_group_counts`. -/
def exactFilecodeHistogramGroupCounts (state : FileSet validJson) (columnIndex : Nat) :
    Except CoveError (Option MetadataAggregatePlan) := do
  let counts ← histogramGroupsFrom columnIndex .empty state.files
  .ok (counts.map fun counts => .fileCodeGroupCounts columnIndex counts.groups
    ⟨.fileCodeHistogramGroupCount, "exact FileCode histogram coverage for GROUP BY count",
      counts.labelsDecoded⟩)

/-- The entries of a lookup index: the rows they cover, and the groups. -/
def groupEntries (dictionary : FileDictionary) (tableId : Nat) (covered : List RowRef)
    (counts : GroupedCounts) :
    List LookupEntry → Except CoveError (Option (List RowRef × GroupedCounts))
  | [] => .ok (some (covered, counts))
  | entry :: entries =>
    if entry.key ≥ 2 ^ 32 then .ok none
    else do
      match ← dictionary.decodeValue entry.key with
      | .redactedPresent => .ok none
      | .rawBytes canonical => do
        let counts ← counts.add canonical (entry.tableRows tableId).length
        groupEntries dictionary tableId (covered ++ entry.tableRows tableId) counts entries

/-- The loop of `exact_filecode_group_counts` over the files. -/
def lookupGroupsFrom (columnIndex : Nat) (counts : GroupedCounts) :
    List (FileMetadata validJson) → Except CoveError (Option GroupedCounts)
  | [] => .ok (some counts)
  | file :: files =>
    -- the column is there where the fast paths are safe
    match file.table.columns[columnIndex]? with
    | none => .error (.badSchema "FileCode group column out of bounds")
    | some column =>
      match file.lookupFor column.columnId with
      | none => .ok none
      | some lookup =>
        if lookup.header.keyKind ≠ .fileCode then .ok none
        else
          match file.dictionary with
          | none => .ok none
          | some dictionary => do
            match ← groupEntries dictionary file.table.tableId [] counts lookup.entries with
            | none => .ok none
            | some (covered, counts) =>
              if covered.dedup.length ≠ file.table.rowCount then .ok none
              else lookupGroupsFrom columnIndex counts files

/-- `exact_filecode_group_counts`, where the histograms do not answer. -/
def exactFilecodeLookupGroupCounts (state : FileSet validJson) (columnIndex : Nat) :
    Except CoveError (Option MetadataAggregatePlan) := do
  let counts ← lookupGroupsFrom columnIndex .empty state.files
  .ok (counts.map fun counts => .fileCodeGroupCounts columnIndex counts.groups
    ⟨.fileCodeLookupGroupCount, "exact FileCode lookup index coverage for GROUP BY count",
      counts.labelsDecoded⟩)

/-- `exact_filecode_group_counts`. -/
def exactFilecodeGroupCounts (state : FileSet validJson) (columnIndex : Nat) :
    Except CoveError (Option MetadataAggregatePlan) :=
  if !filecodeFastPathsAreSafe state columnIndex then .ok none
  else
    match state.table.columns[columnIndex]? with
    | none => .error (.badSchema "FileCode group column out of bounds")
    | some column =>
      if column.logical ≠ .utf8 then .ok none
      else do
        match ← exactFilecodeHistogramGroupCounts state columnIndex with
        | some plan => .ok (some plan)
        | none => exactFilecodeLookupGroupCounts state columnIndex

end

end Cove
