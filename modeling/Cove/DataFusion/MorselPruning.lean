import Cove.Core.Pruning
import Cove.Core.SealedRecord
import Cove.DataFusion.CoveragePruning
import Cove.DataFusion.Plan

/-!
# Morsel pruning

Whether a plan can skip a morsel: the composite indexes first, then the coverage
expression, then filter by filter every index of the filter's column.

- `compositePrunesMorsel`, `lookupPrunesFileCodes`, `invertedPrunesFileCodes`,
  `bloomExcludesFileCode`: one decision per kind of index.
- `filterPrunesMorsel`, `morselPruned`: the decisions combined.
-/

namespace Cove

/-- A scan plan: its filters and the expression over coverage forms. -/
structure ScanPlan where
  filters : List FilterPlan
  coverageExpr : Option CoveragePredicateExpr

section

variable (state : DatasetState) (segmentId morselId : Nat)

/-! ## Composite indexes -/

/-- `file_code_filter_for_column`: the first membership filter on the column. -/
def fileCodeFilterForColumn (filters : List FilterPlan) (columnIndex : Nat) :
    Option FileCodes :=
  filters.findSome? fun filter =>
    match filter.predicate with
    | some (.fileCodeIn candidate fileCodes _) =>
      if candidate = columnIndex then some fileCodes else none
    | _ => none

/-- The codes of an entry are all among those of the filters. -/
def tupleMatches (entry : List UInt8) (codeSets : List FileCodes) : Bool :=
  codeSets.zipIdx.all fun (codes, idx) =>
    let value := LittleEndian.ofLe ((entry.drop (idx * 8)).take 8)
    decide (value < 2 ^ 32) && codes.contains value

/-- `composite_tuple_has_match`: none when the entries cannot be read as tuples. -/
def compositeTupleHasMatch (index : CompositeIndex) (codeSets : List FileCodes) :
    Option Bool :=
  let keyWidth := index.keyColumns.length * 8
  let entryWidth := keyWidth + 8
  if entryWidth = 8 ∨ index.entries.length % entryWidth ≠ 0 then none
  else
    some ((chunksExact entryWidth index.entries).any fun entry =>
      LittleEndian.ofLe ((entry.drop keyWidth).take 4) == segmentId &&
      LittleEndian.ofLe ((entry.drop (keyWidth + 4)).take 4) == morselId &&
      tupleMatches entry codeSets)

/-- The outcome of collecting the codes of the key columns. -/
inductive CodeSets where
  | emptyFilter
  | unfiltered
  | collected (codeSets : List FileCodes)

/-- The codes filtered for, per key column. -/
def collectCodeSets (filters : List FilterPlan) : List Nat → List FileCodes → CodeSets
  | [], codeSets => .collected codeSets
  | columnId :: keyColumns, codeSets =>
    match state.table.columns.findIdx? fun column => column.columnId == columnId with
    | none => .unfiltered
    | some columnIndex =>
      match fileCodeFilterForColumn filters columnIndex with
      | none => .unfiltered
      | some codes =>
        if codes.codes.isEmpty then .emptyFilter
        else collectCodeSets filters keyColumns (codeSets ++ [codes])

/-- The loop of `composite_prunes_morsel`. -/
def compositeLoop (filters : List FilterPlan) : List CompositeIndex → Bool
  | [] => false
  | index :: indexes =>
    match collectCodeSets state filters index.keyColumns [] with
    | .emptyFilter => true
    | .unfiltered => compositeLoop filters indexes
    | .collected codeSets =>
      match compositeTupleHasMatch segmentId morselId index codeSets with
      | some hasMatch => !hasMatch
      | none => compositeLoop filters indexes

def compositePrunesMorsel (filters : List FilterPlan) : Bool :=
  compositeLoop state segmentId morselId filters state.compositeIndexes

/-! ## Lookup and inverted indexes -/

/-- `lookup_prunes_file_codes`. -/
def lookupPrunesFileCodes (columnId : Nat) (fileCodes : FileCodes) : Bool :=
  match state.lookupFor columnId with
  | none => false
  | some index =>
    if index.header.keyKind ≠ .fileCode then false
    else
      fileCodes.codes.all fun fileCode =>
        match index.rowsFor fileCode with
        | none => true
        | some rows => rows.all fun row =>
            !(row.tableId == state.table.tableId && row.segmentId == segmentId &&
              row.morselId == morselId)

/-- The loop of `global_morsel_ordinal`. -/
def ordinalLoop : List TableSegmentIndexEntryV1 → Nat → Option Nat
  | [], _ => none
  | segment :: segments, ordinal =>
    if segment.segmentId = segmentId then
      if morselId < segment.morselCount ∧ ordinal + morselId < 2 ^ 32 then
        some (ordinal + morselId)
      else none
    else if ordinal + segment.morselCount < 2 ^ 32 then
      ordinalLoop segments (ordinal + segment.morselCount)
    else none

def globalMorselOrdinal : Option Nat := ordinalLoop segmentId morselId state.segments 0

/-- `bitmap_contains`: a bitmap out of bounds contains everything. -/
def bitmapContains (bitmapData : List UInt8) (offset length bitIndex : Nat) : Bool :=
  if offset + length > bitmapData.length then true
  else if bitIndex / 8 ≥ length then false
  else ((bitmapData[offset + bitIndex / 8]?).getD 0).toNat.testBit (bitIndex % 8)

/-- `inverted_prunes_file_codes`. -/
def invertedPrunesFileCodes (columnId : Nat) (fileCodes : FileCodes) : Bool :=
  match state.invertedFor columnId with
  | none => false
  | some index =>
    if index.header.keyKind ≠ .fileCode then false
    else
      match globalMorselOrdinal state segmentId morselId with
      | none => false
      | some ordinal =>
        fileCodes.codes.all fun fileCode =>
          match BinarySearch.binarySearchByKey fileCode InvertedEntry.key index.entries with
          | none => true
          | some i =>
            match index.entries[i]? with
            | none => true
            | some entry =>
              !bitmapContains index.bitmapData entry.morselBitmapOffset
                entry.morselBitmapLength ordinal

/-! ## Bloom filters -/

/-- `bloom_excludes_file_code`. -/
def bloomExcludesFileCode (columnId fileCode : Nat) (bloom : Option BloomFilterIndex) :
    Except CoveError Bool :=
  match bloom with
  | none => .ok false
  | some bloom => do
    let value ← match bloom.header.hashDomain with
      | .fileCode => .ok (some (LittleEndian.toLe 4 fileCode))
      | .canonicalValueHash =>
        match state.dictionary with
        | none => .ok none
        | some dictionary => do
          match ← dictionary.decodeValue fileCode with
          | .rawBytes bytes => .ok (some bytes)
          | .redactedPresent => .ok none
      | .numCode => .ok none
    match value with
    | none => .ok false
    | some value =>
      if bloom.header.tableId == state.table.tableId && bloom.header.columnId == columnId then
        .ok ((explainBloomMembership value (some bloom) false).finalOutcome == .noMatch)
      else .ok false

/-! ## Filters -/

/-- `numeric_stat_value`. -/
def numericStatValue : PredicateLiteral → Except CoveError NumericStatValue
  | .int64 value => .ok (.int64 value.toInt)
  | .uint64 value => .ok (.uint64 value.toNat)
  | .float64 value => if value.isNaN then .error .badStats else .ok (.float64 value)

/-- `numeric_bounds`. -/
def numericBounds (op : NumericPredicateOp) (literal : PredicateLiteral) :
    Except CoveError NumericRange := do
  let value ← numericStatValue literal
  .ok (match op with
    | .eq => ⟨some value, true, some value, true⟩
    | .lt => ⟨none, false, some value, false⟩
    | .ltEq => ⟨none, false, some value, true⟩
    | .gt => ⟨some value, false, none, false⟩
    | .gtEq => ⟨some value, true, none, false⟩)

/-- The loop over the codes of a membership filter: every one must be refuted. -/
def fileCodesRefuted (columnId : Nat) : List Nat → Except CoveError Bool
  | [] => .ok true
  | fileCode :: fileCodes => do
    let explained := (explainFileCodeEquality fileCode
      (state.zoneStatsFor segmentId morselId columnId) (state.columnDomainFor columnId)
      (state.exactSetFor columnId)).finalOutcome
    if explained = .noMatch then fileCodesRefuted columnId fileCodes
    else if ← bloomExcludesFileCode state columnId fileCode (state.bloomFor columnId) then
      fileCodesRefuted columnId fileCodes
    else .ok false

/-- A membership filter without codes. -/
def emptyMembership : CovePredicate → Bool
  | .fileCodeIn _ fileCodes _ => fileCodes.codes.isEmpty
  | _ => false

/-- `filter_prunes_morsel`, without the coverage proof of the filter. -/
def predicatePrunesMorsel (predicate : CovePredicate) : Except CoveError Bool :=
  if emptyMembership predicate then .ok true
  else
  match state.table.columns[predicateColumnIndex predicate]? with
  | none => .ok false
  | some column =>
    let zone := state.zoneStatsFor segmentId morselId column.columnId
    match predicate with
    | .null _ .isNull => .ok ((explainIsNull zone).finalOutcome == .noMatch)
    | .null _ .isNotNull => .ok ((explainIsNotNull zone).finalOutcome == .noMatch)
    | .numeric _ op literal => do
      let range ← numericBounds op literal
      .ok ((explainNumcodeRange range zone).finalOutcome == .noMatch)
    | .fileCodeIn _ fileCodes _ =>
      if lookupPrunesFileCodes state segmentId morselId column.columnId fileCodes then
        .ok true
      else if invertedPrunesFileCodes state segmentId morselId column.columnId fileCodes then
        .ok true
      else fileCodesRefuted state segmentId morselId column.columnId fileCodes.codes
    | .varBytesEq _ _ => .ok false

/-- `coverage_proof_prunes_morsel`. -/
def coverageProofPrunesMorsel (crc32c : List UInt8 → Nat) (filter : FilterPlan)
    (predicate : CovePredicate) : Bool :=
  match filter.coveragePredicateFormRef with
  | none => false
  | some predicateFormRef =>
    let columnIndex := predicateColumnIndex predicate
    let columnId := ((state.table.columns[columnIndex]?).map ColumnEntry.columnId).getD absentId
    coverageAtomPrunesMorsel crc32c state segmentId morselId
      ⟨predicateFormRef, columnIndex, columnId, []⟩ == .pruned

/-- `filter_prunes_morsel`. -/
def filterPrunesMorsel (crc32c : List UInt8 → Nat) (filter : FilterPlan) :
    Except CoveError Bool :=
  match filter.predicate with
  | none => .ok false
  | some predicate =>
    if coverageProofPrunesMorsel state segmentId morselId crc32c filter predicate then .ok true
    else predicatePrunesMorsel state segmentId morselId predicate

/-- The loop over the filters. -/
def anyFilterPrunes (crc32c : List UInt8 → Nat) : List FilterPlan → Except CoveError Bool
  | [] => .ok false
  | filter :: filters => do
    if ← filterPrunesMorsel state segmentId morselId crc32c filter then .ok true
    else anyFilterPrunes crc32c filters

/-- `morsel_pruned`. -/
def morselPruned (crc32c : List UInt8 → Nat) (plan : ScanPlan) : Except CoveError Bool :=
  if compositePrunesMorsel state segmentId morselId plan.filters then .ok true
  else if plan.coverageExpr.any fun expr =>
      coverageExprDecision (coverageAtomPrunesMorsel crc32c state segmentId morselId) expr ==
        .pruned then .ok true
  else anyFilterPrunes state segmentId morselId crc32c plan.filters

end

end Cove
