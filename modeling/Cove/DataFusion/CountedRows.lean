import Cove.DataFusion.FileCodeFilter
import Cove.DataFusion.MetadataCounts

/-!
# The rows behind the counts

The stored rows of a dictionary column, and what makes the metadata about them true: an exact
histogram counts the rows of its own morsel, segment or file, a lookup index lists rows under the
code they have. Nothing is said of which of them a file has.

- `StoredFile`, `StoredSet`: the rows of the files, with the metadata.
- `StoredSet.Truthful`: every histogram and every listed row is true.
- `selected_eq_countP`: **the selected buckets of a histogram count the rows of its zone that hold
  a literal**.
- `length_selectedRows`: a lookup index selects the rows it lists that hold a literal.
-/

namespace Cove

open Checked ZoneCounts

variable {validJson : List UInt8 → Bool}

/-! ## Metadata of a column -/

/-- `u32::MAX`, the number of a segment or morsel that stands for all of them. -/
def allOfThem : Nat := 2 ^ 32 - 1

/-- The rows an entry is about: those of a morsel, of a segment, or of the file. -/
def AggregateEntry.covers (entry : AggregateEntry) (row : RowRef) : Bool :=
  (entry.segmentId.toNat == allOfThem || row.segmentId == entry.segmentId.toNat) &&
    (entry.morselId.toNat == allOfThem || row.morselId == entry.morselId.toNat)

/-- The buckets of an entry that is a histogram of file codes. -/
def histogramOf (part : AggregateEntry × AggregatePayloadV2 validJson) :
    Option (AggregateEntry × List HistogramBucket) :=
  match part.2 with
  | .fileCodeHistogram buckets => some (part.1, buckets)
  | _ => none

namespace FileMetadata

/-- The value of a file code: its canonical payload. -/
def payloadOf (file : FileMetadata validJson) (fileCode : Nat) : Option (List UInt8) :=
  file.dictionary.bind fun dictionary =>
    (dictionary.entries[fileCode]?).bind DictionaryEntry.payload?

/-- The exact histograms of a column. -/
def histogramsOf (file : FileMetadata validJson) (columnId : Nat) :
    List (AggregateEntry × List HistogramBucket) :=
  file.aggregates.flatMap fun synopsis =>
    (synopsis.parts.filter fun part =>
      file.wants columnId .fileCodeHistogram part.1).filterMap histogramOf

/-- The exact histograms of the column at an index. -/
def histograms (file : FileMetadata validJson) (columnIndex : Nat) :
    List (AggregateEntry × List HistogramBucket) :=
  (file.table.columns[columnIndex]?).elim [] fun column => file.histogramsOf column.columnId

/-- The lookup index by file codes of the column at an index. -/
def lookup (file : FileMetadata validJson) (columnIndex : Nat) : Option LookupIndex :=
  ((file.table.columns[columnIndex]?).bind fun column => file.lookupFor column.columnId).filter
    fun lookup => lookup.header.keyKind == .fileCode

/-- The counts of the selected buckets of a histogram. -/
def selectedCount (file : FileMetadata validJson) (literals : List (List UInt8))
    (histogram : AggregateEntry × List HistogramBucket) : Nat :=
  ((histogram.2.filter fun bucket =>
    decide (bucket.key.toNat ∈ file.selectedCodes literals)).map
      fun bucket => bucket.count.toNat).sum

/-- The file has exact histograms of the column, and their row counts add up to that of the
table. -/
def HistogramsTotal (file : FileMetadata validJson) (columnIndex : Nat) : Prop :=
  file.histograms columnIndex ≠ [] ∧
    ((file.histograms columnIndex).map fun histogram => histogram.1.rowCount.toNat).sum =
      file.table.rowCount

/-- They say so of no null, and their codes have a dictionary. -/
def GroupsTotal (file : FileMetadata validJson) (columnIndex : Nat) : Prop :=
  file.dictionary.isSome ∧ file.HistogramsTotal columnIndex ∧
    ((file.histograms columnIndex).map fun histogram => histogram.1.nullCount.toNat).sum = 0

end FileMetadata

/-! ## Rows -/

variable (validJson) in
/-- A file with the rows it stores: where they are, and the code that each of them has in the
column. A null has none. -/
structure StoredFile where
  metadata : FileMetadata validJson
  rows : List RowRef
  code : RowRef → Option Nat
  rows_nodup : rows.Nodup

namespace StoredFile

/-- The value of a row. -/
def value (file : StoredFile validJson) (row : RowRef) : Option (List UInt8) :=
  (file.code row).bind file.metadata.payloadOf

/-- The value of a row is one of the literals. -/
def holds (file : StoredFile validJson) (literals : List (List UInt8)) (row : RowRef) : Bool :=
  (file.value row).any literals.contains

/-- How many histograms count a row. -/
def timesCounted (file : StoredFile validJson) (columnIndex : Nat) (row : RowRef) : Nat :=
  timesIn (fun histogram row => histogram.1.covers row) (file.metadata.histograms columnIndex) row

/-- The lookup index lists a row under the code it has. -/
def listed (file : StoredFile validJson) (columnIndex : Nat) (row : RowRef) : Bool :=
  (file.metadata.lookup columnIndex).any fun lookup =>
    lookup.entries.any fun entry => file.code row == some entry.key && decide (row ∈ entry.rows)

/-- A histogram is true of the rows of its zone. -/
structure HistogramTrue (file : StoredFile validJson)
    (histogram : AggregateEntry × List HistogramBucket) : Prop where
  rowCount : histogram.1.rowCount.toNat = file.rows.countP histogram.1.covers
  nullCount : histogram.1.nullCount.toNat =
    file.rows.countP fun row => histogram.1.covers row && (file.code row).isNone
  buckets : ∀ bucket ∈ histogram.2, bucket.count.toNat =
    file.rows.countP fun row => histogram.1.covers row && file.code row == some bucket.key.toNat

/-- A lookup index is true: a row it lists of the table has the code it is listed under. -/
def LookupTrue (file : StoredFile validJson) (lookup : LookupIndex) : Prop :=
  ∀ entry ∈ lookup.entries, ∀ row ∈ entry.rows, row.tableId = file.metadata.table.tableId →
    row ∈ file.rows ∧ file.code row = some entry.key

/-- The file stores the rows of its table, their codes are in the dictionary, and its exact
histograms and lookup index of the column are true, each for itself. -/
structure Truthful (file : StoredFile validJson) (columnIndex : Nat) : Prop where
  tableId : ∀ row ∈ file.rows, row.tableId = file.metadata.table.tableId
  rowCount : file.rows.length = file.metadata.table.rowCount
  decodes : ∀ row ∈ file.rows, ∀ code, file.code row = some code →
    (file.metadata.payloadOf code).isSome
  histograms : ∀ histogram ∈ file.metadata.histograms columnIndex, file.HistogramTrue histogram
  lookup : ∀ lookup ∈ file.metadata.lookup columnIndex, file.LookupTrue lookup

end StoredFile

variable (validJson) in
/-- A data set with the rows of its files. -/
structure StoredSet where
  table : TableEntry
  files : List (StoredFile validJson)

namespace StoredSet

/-- What the answers are read from. -/
def state (dataset : StoredSet validJson) : FileSet validJson :=
  ⟨dataset.table, dataset.files.map StoredFile.metadata⟩

/-- Every file is truthful. -/
def Truthful (dataset : StoredSet validJson) (columnIndex : Nat) : Prop :=
  ∀ file ∈ dataset.files, file.Truthful columnIndex

/-- The number of rows whose value is one of the literals. -/
def rowsHolding (dataset : StoredSet validJson) (literals : List (List UInt8)) : Nat :=
  (dataset.files.map fun file => file.rows.countP (file.holds literals)).sum

/-- How often the histograms count the rows whose value is one of the literals, together. -/
def timesCounted (dataset : StoredSet validJson) (columnIndex : Nat)
    (literals : List (List UInt8)) : Nat :=
  (dataset.files.map fun file =>
    ((file.rows.filter (file.holds literals)).map (file.timesCounted columnIndex)).sum).sum

/-- The number of rows whose value is one of the literals that the lookup indexes list. -/
def rowsListed (dataset : StoredSet validJson) (columnIndex : Nat)
    (literals : List (List UInt8)) : Nat :=
  (dataset.files.map fun file =>
    file.rows.countP fun row => file.holds literals row && file.listed columnIndex row).sum

end StoredSet

/-! ## Values and codes -/

variable {fileCode : Nat}

/-- A value is looked up as the code that has it. -/
theorem FileMetadata.fileCodeForCanonical_iff {file : FileMetadata validJson}
    {payload : List UInt8} :
    fileCodeForCanonical file.reverseLookup payload = some fileCode ↔
      file.payloadOf fileCode = some payload := by
  have hbuilt := file.reverse_built
  unfold payloadOf
  cases hdictionary : file.dictionary with
  | none =>
    rw [hdictionary] at hbuilt
    have hnone : none = file.reverseLookup := Except.ok.inj hbuilt
    rw [← hnone]
    exact iff_of_false (fun h => by cases h) fun h => by cases h
  | some dictionary =>
    cases hlookup : buildReverseLookup dictionary with
    | error e =>
      rw [hdictionary, Option.mapM_some, hlookup] at hbuilt
      cases hbuilt
    | ok lookup =>
      rw [hdictionary, Option.mapM_some, hlookup] at hbuilt
      have hsome : some lookup = file.reverseLookup := Except.ok.inj hbuilt
      rw [← hsome, fileCodeForCanonical_eq_some hlookup, Option.bind_some, Option.bind_eq_some_iff]

theorem FileMetadata.mem_selectedCodes {file : FileMetadata validJson}
    {literals : List (List UInt8)} :
    fileCode ∈ file.selectedCodes literals ↔
      ∃ payload ∈ literals, file.payloadOf fileCode = some payload := by
  unfold selectedCodes
  rw [List.mem_filterMap]
  exact exists_congr fun payload => and_congr_right fun _ => fileCodeForCanonical_iff

namespace StoredFile

variable {file : StoredFile validJson} {columnIndex : Nat} {literals : List (List UInt8)}
  {row : RowRef}

theorem holds_iff : file.holds literals row = true ↔
    ∃ payload ∈ literals, file.value row = some payload := by
  unfold holds
  rw [Option.any_eq_true]
  constructor
  · rintro ⟨payload, hvalue, hmem⟩
    exact ⟨payload, List.contains_iff_mem.mp hmem, hvalue⟩
  · rintro ⟨payload, hmem, hvalue⟩
    exact ⟨payload, hvalue, List.contains_iff_mem.mpr hmem⟩

/-- The rows that hold a literal are those with a selected code. -/
theorem any_selectedCodes (literals : List (List UInt8)) (row : RowRef) :
    ((file.code row).any fun fileCode =>
        decide (fileCode ∈ file.metadata.selectedCodes literals)) =
      file.holds literals row := by
  rw [Bool.eq_iff_iff, holds_iff]
  unfold value
  cases file.code row with
  | none => simp
  | some fileCode =>
    rw [Option.any_some, decide_eq_true_eq, FileMetadata.mem_selectedCodes, Option.bind_some]

end StoredFile

/-! ## Histograms -/

variable {buckets : List HistogramBucket}

theorem histogramTotal_eq_ok {previousKey : Option UInt64} {total t : Nat}
    (h : histogramTotal previousKey total buckets = .ok t) :
    t = total + (buckets.map fun bucket => bucket.count.toNat).sum ∧
      (buckets.map fun bucket => bucket.key.toNat).Pairwise (· < ·) ∧
      (∀ bucket ∈ buckets, 0 < bucket.count.toNat) ∧
      ∀ key ∈ previousKey, ∀ bucket ∈ buckets, key.toNat < bucket.key.toNat := by
  induction buckets generalizing previousKey total with
  | nil =>
    obtain rfl := Except.ok.inj h
    refine ⟨rfl, .nil, fun bucket hb => ?_, fun key _ bucket hb => ?_⟩ <;> cases hb
  | cons bucket buckets ih =>
    obtain ⟨hcheck, h⟩ := ite_error_eq_ok.mp h
    obtain ⟨hcount, hkey⟩ := not_or.mp hcheck
    obtain ⟨total', htotal, h⟩ := bind_eq_ok.mp h
    obtain ⟨-, rfl⟩ := addU64_eq_ok.mp htotal
    obtain ⟨rfl, hsorted, hpositive, hlater⟩ := ih h
    have hfirst : ∀ key ∈ previousKey, key.toNat < bucket.key.toNat := by
      intro key hprevious
      obtain rfl := Option.mem_def.mp hprevious
      rw [Option.any_some, decide_eq_true_eq, UInt64.le_iff_toNat_le] at hkey
      exact not_le.mp hkey
    refine ⟨?_, List.pairwise_cons.mpr ⟨?_, hsorted⟩, List.forall_mem_cons.mpr ⟨?_, hpositive⟩, ?_⟩
    · rw [List.map_cons, List.sum_cons, Nat.add_assoc]
    · intro key hin
      obtain ⟨later, hlaterIn, rfl⟩ := List.mem_map.mp hin
      exact hlater bucket.key rfl later hlaterIn
    · exact Nat.pos_of_ne_zero fun hzero => hcount (UInt64.toNat_inj.mp hzero)
    · intro key hprevious
      refine List.forall_mem_cons.mpr ⟨hfirst key hprevious, fun later hlaterIn => ?_⟩
      exact (hfirst key hprevious).trans (hlater bucket.key rfl later hlaterIn)

/-- What validation has checked of an exact histogram. -/
structure HistogramChecked (histogram : AggregateEntry × List HistogramBucket) : Prop where
  keys : (histogram.2.map fun bucket => bucket.key.toNat).Nodup
  positive : ∀ bucket ∈ histogram.2, 0 < bucket.count.toNat
  total : (histogram.2.map fun bucket => bucket.count.toNat).sum + histogram.1.nullCount.toNat =
    histogram.1.rowCount.toNat

theorem histogramChecked_of_validate {entry : AggregateEntry}
    (h : validatePayload entry (.fileCodeHistogram buckets : AggregatePayloadV2 validJson) = .ok ())
    (hexact : entry.accuracy = .exact) : HistogramChecked (entry, buckets) := by
  have hkind := (kind_of_validatePayload h).1
  unfold validatePayload at h
  obtain ⟨nonNullCount, hcount, h⟩ := bind_eq_ok.mp h
  rw [hkind] at h
  obtain ⟨total, htotal, h⟩ := bind_eq_ok.mp h
  obtain ⟨hequal, -⟩ := ite_error_eq_ok.mp h
  obtain ⟨hsum, hsorted, hpositive, -⟩ := histogramTotal_eq_ok htotal
  obtain ⟨hle, rfl⟩ := sub_eq_ok.mp hcount
  refine ⟨hsorted.imp ne_of_lt, hpositive, ?_⟩
  have heq : total = entry.rowCount.toNat - entry.nullCount.toNat :=
    not_not.mp fun hne => hequal ⟨hexact, hne⟩
  show (buckets.map fun bucket => bucket.count.toNat).sum + entry.nullCount.toNat =
    entry.rowCount.toNat
  omega

namespace FileMetadata

variable {file : FileMetadata validJson} {columnId columnIndex : Nat}
  {histogram : AggregateEntry × List HistogramBucket}

theorem histogramOf_eq_some {part : AggregateEntry × AggregatePayloadV2 validJson} :
    histogramOf part = some histogram ↔ part = (histogram.1, .fileCodeHistogram histogram.2) := by
  obtain ⟨entry, payload⟩ := part
  obtain ⟨entry', buckets⟩ := histogram
  cases payload <;> simp [histogramOf]

theorem checked_of_mem_histogramsOf (h : histogram ∈ file.histogramsOf columnId) :
    HistogramChecked histogram := by
  obtain ⟨synopsis, hsynopsis, h⟩ := List.mem_flatMap.mp h
  obtain ⟨part, hpart, h⟩ := List.mem_filterMap.mp h
  obtain ⟨hpart, hwants⟩ := List.mem_filter.mp hpart
  obtain rfl := histogramOf_eq_some.mp h
  have hvalid := (AggregateSynopsis.parts_of_validate (file.aggregates_valid synopsis hsynopsis)).2
    _ hpart
  refine histogramChecked_of_validate hvalid ?_
  unfold wants at hwants
  exact beq_iff_eq.mp (Bool.and_eq_true_iff.mp hwants).2

theorem checked_of_mem (h : histogram ∈ file.histograms columnIndex) :
    HistogramChecked histogram := by
  unfold histograms at h
  cases hcolumn : file.table.columns[columnIndex]? with
  | none =>
    rw [hcolumn] at h
    cases h
  | some column =>
    rw [hcolumn] at h
    exact checked_of_mem_histogramsOf h

end FileMetadata

namespace StoredFile

variable {file : StoredFile validJson} {columnIndex : Nat}

/-- **The selected buckets of a histogram count the rows of its zone that hold a literal.** -/
theorem selected_eq_countP (htrue : file.Truthful columnIndex)
    {histogram : AggregateEntry × List HistogramBucket}
    (h : histogram ∈ file.metadata.histograms columnIndex) (literals : List (List UInt8)) :
    file.metadata.selectedCount literals histogram =
      file.rows.countP fun row => histogram.1.covers row && file.holds literals row := by
  obtain ⟨hrows, hnulls, hbuckets⟩ := htrue.histograms histogram h
  obtain ⟨hkeys, -, htotal⟩ := FileMetadata.checked_of_mem h
  have hzone (p : RowRef → Bool) : (file.rows.filter histogram.1.covers).countP p =
      file.rows.countP fun row => histogram.1.covers row && p row := by
    rw [List.countP_filter]
    exact List.countP_congr fun row _ => by rw [Bool.and_comm]
  have hsome : (histogram.2.map fun bucket => bucket.count.toNat).sum =
      (file.rows.filter histogram.1.covers).countP fun row => (file.code row).isSome := by
    -- the rows of the zone are nulls, or are not
    have hsplit : (file.rows.countP fun row => histogram.1.covers row && (file.code row).isSome) +
        (file.rows.countP fun row => histogram.1.covers row && (file.code row).isNone) =
        file.rows.countP histogram.1.covers := by
      rw [countP_add_of_disjoint]
      · refine List.countP_congr fun row _ => ?_
        cases file.code row <;> simp
      · intro row _ hrow
        cases hcode : file.code row with
        | none =>
          rw [hcode, Option.isSome_none, Bool.and_false] at hrow
          cases hrow
        | some fileCode => rw [Option.isNone_some, Bool.and_false]
    rw [hzone]
    omega
  have hcounts : ∀ bucket ∈ histogram.2, bucket.count.toNat =
      (file.rows.filter histogram.1.covers).countP fun row =>
        file.code row == some bucket.key.toNat :=
    fun bucket hb => (hbuckets bucket hb).trans (hzone _).symm
  have hselected := sum_selected hkeys hcounts hsome
    fun fileCode => decide (fileCode ∈ file.metadata.selectedCodes literals)
  unfold FileMetadata.selectedCount
  rw [hselected, hzone]
  exact List.countP_congr fun row _ => by rw [any_selectedCodes]

/-- The histograms of a file count every row that holds a literal once for each of its zones. -/
theorem sum_selectedCount (htrue : file.Truthful columnIndex) (literals : List (List UInt8)) :
    ((file.metadata.histograms columnIndex).map (file.metadata.selectedCount literals)).sum =
      ((file.rows.filter (file.holds literals)).map (file.timesCounted columnIndex)).sum := by
  rw [List.map_congr_left fun histogram h => selected_eq_countP htrue h literals]
  exact sum_countP_zones
    (fun (histogram : AggregateEntry × List HistogramBucket) row => histogram.1.covers row) _ _ _

/-! ## Lookup indexes -/

theorem listed_iff {lookup : LookupIndex} (h : file.metadata.lookup columnIndex = some lookup)
    {row : RowRef} : file.listed columnIndex row = true ↔
      ∃ entry ∈ lookup.entries, file.code row = some entry.key ∧ row ∈ entry.rows := by
  unfold listed
  rw [h, Option.any_some, List.any_eq_true]
  simp only [Bool.and_eq_true, beq_iff_eq, decide_eq_true_eq]

/-- A lookup index selects the rows it lists that hold a literal. -/
theorem length_selectedRows (htrue : file.Truthful columnIndex) {lookup : LookupIndex}
    (h : file.metadata.lookup columnIndex = some lookup) (literals : List (List UInt8)) :
    (file.metadata.selectedRows lookup literals).length =
      file.rows.countP fun row => file.holds literals row && file.listed columnIndex row := by
  rw [List.countP_eq_length_filter]
  refine List.Perm.length_eq ?_
  refine (List.perm_ext_iff_of_nodup (List.nodup_dedup _) (file.rows_nodup.filter _)).mpr ?_
  intro row
  rw [List.mem_dedup, List.mem_flatMap, List.mem_filter, Bool.and_eq_true, listed_iff h,
    ← any_selectedCodes]
  constructor
  · rintro ⟨fileCode, hselected, hrow⟩
    obtain ⟨hrow, htable⟩ := List.mem_filter.mp hrow
    cases hrows : lookup.rowsFor fileCode with
    | none =>
      rw [hrows] at hrow
      cases hrow
    | some rows =>
      rw [hrows, Option.getD_some] at hrow
      obtain ⟨entry, hentry, rfl, rfl⟩ := LookupIndex.rowsFor_eq_some hrows
      obtain ⟨hin, hcode⟩ := htrue.lookup lookup h entry hentry row hrow
        (of_decide_eq_true htable)
      refine ⟨hin, ?_, entry, hentry, hcode, hrow⟩
      rw [hcode, Option.any_some]
      exact decide_eq_true hselected
  · rintro ⟨hin, hselected, entry, hentry, hcode, hrow⟩
    rw [hcode, Option.any_some] at hselected
    refine ⟨entry.key, of_decide_eq_true hselected, List.mem_filter.mpr ⟨?_, ?_⟩⟩
    · rw [LookupIndex.rowsFor_of_mem hentry]
      exact hrow
    · exact decide_eq_true (htrue.tableId row hin)

end StoredFile

end Cove
