import Cove.Core.SegmentTiling
import Cove.DataFusion.SegmentMetadata

/-!
# The engine's view of a segment

The engine and the segment parser read the same directories. What they check beyond them
differs: the parser reads every page, and the engine refuses columns, morsels and pages that
repeat an id.

- `PageFits`, `ColumnFits`: what both check of a page and of a column.
- `parseInner_eq_ok`, `parseSegmentMetadata_isOk_iff`: what each accepts.
- `assigns_iff`: **on a segment that both accept, the engine looks up the pages and morsels that
  the parser checked**.
-/

namespace Cove.SegmentPayload

open Checked

/-! ## Pages -/

variable {pages : List ColumnPageIndexEntryV1}

variable {morsels : RowMorselDirectory}

section

variable {crc32c : List UInt8 → Nat}

/-- A page whose entry was read has no bytes exactly when it is a constant kept in the statistics,
and then its place and checksum are those of no bytes. -/
theorem ColumnPageIndexEntryV1.statsOnly_of_parse {bytes : List UInt8}
    {page : ColumnPageIndexEntryV1} (h : ColumnPageIndexEntryV1.parse crc32c bytes = .ok page) :
    (hasFlag page.flags pageFlagStatsOnlyConstant = true →
      page.pageOffset = 0 ∧ page.pageLength = 0 ∧ crc32c [] = page.checksum) ∧
    (hasFlag page.flags pageFlagStatsOnlyConstant = false → page.pageLength ≠ 0) := by
  unfold ColumnPageIndexEntryV1.parse at h
  obtain ⟨-, h⟩ := ite_error_eq_ok.mp h
  obtain ⟨sum, -, h⟩ := bind_eq_ok.mp h
  obtain ⟨-, h⟩ := ite_error_eq_ok.mp h
  obtain ⟨codec, -, h⟩ := bind_eq_ok.mp h
  obtain ⟨⟨⟩, hcheck, h⟩ := bind_eq_ok.mp h
  obtain rfl := Except.ok.inj h
  generalize ColumnPageIndexEntryV1.mk _ _ _ _ _ _ _ _ _ _ _ _ = page at hcheck
  unfold ColumnPageIndexEntryV1.check at hcheck
  obtain ⟨-, hcheck⟩ := ite_error_eq_ok.mp hcheck
  obtain ⟨-, hcheck⟩ := ite_error_eq_ok.mp hcheck
  obtain ⟨-, hcheck⟩ := ite_error_eq_ok.mp hcheck
  obtain ⟨⟨⟩, hcheck, -⟩ := bind_eq_ok.mp hcheck
  unfold ColumnPageIndexEntryV1.checkStatsOnly at hcheck
  by_cases hflag : hasFlag page.flags pageFlagStatsOnlyConstant = true
  · refine ⟨fun _ => ?_, fun hoff => absurd hflag (by rw [hoff]; decide)⟩
    rw [if_pos hflag] at hcheck
    obtain ⟨-, hcheck⟩ := ite_error_eq_ok.mp hcheck
    obtain ⟨-, hcheck⟩ := ite_error_eq_ok.mp hcheck
    obtain ⟨hlengths, hcheck⟩ := ite_error_eq_ok.mp hcheck
    obtain ⟨hoffset, hcheck⟩ := ite_error_eq_ok.mp hcheck
    obtain ⟨-, hcheck⟩ := ite_error_eq_ok.mp hcheck
    obtain ⟨hchecksum, -⟩ := ite_error_eq_ok.mp hcheck
    rw [not_or, Classical.not_not] at hlengths
    exact ⟨Classical.not_not.mp hoffset, hlengths.1, (Classical.not_not.mp hchecksum).symm⟩
  · refine ⟨fun hon => absurd hon hflag, fun _ hlength => ?_⟩
    rw [if_neg hflag, if_pos hlength] at hcheck
    cases hcheck

/-- What both parsers check of a page beside its morsel. -/
structure PageFits (requiredFeatures : Option Nat) (column : TableColumnDirectoryEntryV1)
    (page : ColumnPageIndexEntryV1) : Prop where
  ofColumn : page.columnId = column.columnId
  elision : pageUsesPayloadElision page.flags = true →
    ∀ bits ∈ requiredFeatures, hasFlag bits featurePagePayloadElision = true
  placed : hasFlag page.flags pageFlagStatsOnlyConstant = false →
    column.dataOffset ≤ page.pageOffset ∧
      page.pageOffset + page.pageLength ≤ column.dataOffset + column.dataLength

/-- The page has the number of rows of the morsel at its place in the directory. -/
def RowsMatch (morsels : RowMorselDirectory) (page : ColumnPageIndexEntryV1) : Prop :=
  ∃ morsel, morsels[page.morselId]? = some morsel ∧ page.rowCount = morsel.rowCount

/-- The bytes of a page: they have the checksum of the entry, and decode. -/
def PageIntact (crc32c : List UInt8 → Nat)
    (pageCheck : PageValidationContext → ColumnPageIndexEntryV1 → List UInt8 →
      Except CoveError Unit)
    (bytes : List UInt8) (payload : TableSegmentPayloadV1) (column : TableColumnDirectoryEntryV1)
    (page : ColumnPageIndexEntryV1) : Prop :=
  hasFlag page.flags pageFlagStatsOnlyConstant = false →
    crc32c (fieldBytes bytes page.pageOffset page.pageLength) = page.checksum ∧
      pageCheck ⟨payload.header.tableId, payload.header.segmentId, column.columnId,
        column.logicalType, column.physicalKind⟩ page
        (fieldBytes bytes page.pageOffset page.pageLength) = .ok ()

variable {pageCheck : PageValidationContext → ColumnPageIndexEntryV1 → List UInt8 →
  Except CoveError Unit} {bytes : List UInt8} {payload : TableSegmentPayloadV1}
  {column : TableColumnDirectoryEntryV1} {page : ColumnPageIndexEntryV1}
  {requiredFeatures : Option Nat} {bits : Nat}

/-- A guard against pages that leave out bytes, under the feature that allows them. -/
theorem not_elision_iff {flags : Nat} :
    ¬(pageUsesPayloadElision flags &&
        requiredFeatures.any fun bits => !hasFlag bits featurePagePayloadElision) = true ↔
      (pageUsesPayloadElision flags = true →
        ∀ bits ∈ requiredFeatures, hasFlag bits featurePagePayloadElision = true) := by
  cases requiredFeatures with
  | none => simp
  | some bits => simp

/-- What the segment parser checks of a page. -/
theorem checkPage_eq_ok (hparse : ∃ entry, ColumnPageIndexEntryV1.parse crc32c entry = .ok page)
    (hend : column.dataOffset + column.dataLength < 2 ^ 64) :
    checkPage crc32c pageCheck bytes requiredFeatures payload column
        (column.dataOffset + column.dataLength) page = .ok () ↔
      PageFits requiredFeatures column page ∧ RowsMatch payload.morsels page ∧
        PageIntact crc32c pageCheck bytes payload column page := by
  obtain ⟨entry, hentry⟩ := hparse
  have hstats := (ColumnPageIndexEntryV1.statsOnly_of_parse hentry).1
  unfold checkPage
  rw [ite_error_eq_ok, Classical.not_not]
  cases hmorsel : payload.morsels[page.morselId]? with
  | none =>
    refine iff_of_false (fun h => nomatch h.2) ?_
    rintro ⟨-, ⟨morsel, hsome, -⟩, -⟩
    rw [hmorsel] at hsome
    cases hsome
  | some morsel =>
    have hrows : RowsMatch payload.morsels page ↔ page.rowCount = morsel.rowCount :=
      ⟨fun ⟨found, hfound, h⟩ => by rw [Option.some.inj (hmorsel.symm.trans hfound), h],
        fun h => ⟨morsel, hmorsel, h⟩⟩
    dsimp only
    rw [ite_error_eq_ok, Classical.not_not, ite_error_eq_ok, hrows,
      not_elision_iff]
    by_cases hflag : hasFlag page.flags pageFlagStatsOnlyConstant = true
    · obtain ⟨hoffset, hlength, hchecksum⟩ := hstats hflag
      rw [if_pos hflag, ite_error_eq_ok, ite_error_eq_ok]
      have hoff : ¬ hasFlag page.flags pageFlagStatsOnlyConstant = false := by
        rw [hflag]
        decide
      constructor
      · rintro ⟨hcolumn, hrow, helision, -⟩
        exact ⟨⟨hcolumn, helision, fun h => absurd h hoff⟩, hrow, fun h => absurd h hoff⟩
      · rintro ⟨hfits, hrow, -⟩
        refine ⟨hfits.ofColumn, hrow, hfits.elision, ?_, not_not_intro hchecksum, rfl⟩
        rw [hoffset, hlength]
        decide
    · rw [if_neg hflag]
      have hoff : hasFlag page.flags pageFlagStatsOnlyConstant = false := Bool.eq_false_iff.mpr hflag
      simp only [bind_eq_ok, checkedAdd, addU64_eq_ok, ite_error_eq_ok, Bool.or_eq_true,
        decide_eq_true_eq, not_or, Nat.not_lt, Classical.not_not]
      constructor
      · rintro ⟨hcolumn, hrow, helision, stop, ⟨-, rfl⟩, ⟨hstart, hstop⟩, hcrc, hcheck⟩
        exact ⟨⟨hcolumn, helision, fun _ => ⟨hstart, hstop⟩⟩, hrow, fun _ => ⟨hcrc, hcheck⟩⟩
      · rintro ⟨hfits, hrow, hintact⟩
        obtain ⟨hstart, hstop⟩ := hfits.placed hoff
        obtain ⟨hcrc, hcheck⟩ := hintact hoff
        exact ⟨hfits.ofColumn, hrow, hfits.elision, _, ⟨by omega, rfl⟩, ⟨hstart, hstop⟩, hcrc,
          hcheck⟩

/-- What the engine checks of a page when it reads the page index. -/
theorem checkMetadataPage_eq_ok
    (hparse : ∃ entry, ColumnPageIndexEntryV1.parse crc32c entry = .ok page)
    (hend : column.dataOffset + column.dataLength < 2 ^ 64) :
    checkMetadataPage bits column (column.dataOffset + column.dataLength) page = .ok () ↔
      PageFits (some bits) column page := by
  obtain ⟨entry, hentry⟩ := hparse
  obtain ⟨hstats, hbytes⟩ := ColumnPageIndexEntryV1.statsOnly_of_parse hentry
  have helide := @not_elision_iff (some bits) page.flags
  rw [Option.any_some] at helide
  unfold checkMetadataPage
  rw [ite_error_eq_ok, Classical.not_not, ite_error_eq_ok, helide]
  by_cases hflag : hasFlag page.flags pageFlagStatsOnlyConstant = true
  · rw [if_neg (not_not_intro (hstats hflag).2.1)]
    constructor
    · rintro ⟨hcolumn, helision, -⟩
      refine ⟨hcolumn, helision, fun hoff => ?_⟩
      rw [hflag] at hoff
      cases hoff
    · intro hfits
      exact ⟨hfits.ofColumn, hfits.elision, rfl⟩
  · have hoff : hasFlag page.flags pageFlagStatsOnlyConstant = false := Bool.eq_false_iff.mpr hflag
    rw [if_pos (hbytes hoff)]
    simp only [bind_eq_ok, checkedAdd, addU64_eq_ok, ite_error_eq_ok, Bool.or_eq_true,
      decide_eq_true_eq, not_or, Nat.not_lt]
    constructor
    · rintro ⟨hcolumn, helision, stop, ⟨-, rfl⟩, ⟨hstart, hstop⟩, -⟩
      exact ⟨hcolumn, helision, fun _ => ⟨hstart, hstop⟩⟩
    · intro hfits
      obtain ⟨hstart, hstop⟩ := hfits.placed hoff
      exact ⟨hfits.ofColumn, hfits.elision, _, ⟨by omega, rfl⟩, ⟨hstart, hstop⟩, trivial⟩

/-! ## Columns -/

/-- The page index of a column. -/
abbrev columnPages (crc32c : List UInt8 → Nat) (bytes : List UInt8)
    (column : TableColumnDirectoryEntryV1) : Except CoveError (List ColumnPageIndexEntryV1) :=
  parseColumnPageIndex crc32c (fieldBytes bytes column.pageIndexOffset column.pageIndexLength)

/-- What both parsers check of the regions of a column. -/
structure ColumnPlaced (header : TableSegmentHeaderV1) (length : Nat)
    (column : TableColumnDirectoryEntryV1) : Prop where
  pageIndex : header.pageIndexOffset ≤ column.pageIndexOffset ∧
    column.pageIndexOffset + column.pageIndexLength ≤ header.dataOffset
  pageIndex_lt : column.pageIndexOffset + column.pageIndexLength < 2 ^ 64
  data : header.dataOffset ≤ column.dataOffset ∧ column.dataOffset + column.dataLength ≤ length
  data_lt : column.dataOffset + column.dataLength < 2 ^ 64

theorem parse_of_mem_columnPages
    (h : columnPages crc32c bytes column = .ok pages) (hmem : page ∈ pages) :
    ∃ entry, ColumnPageIndexEntryV1.parse crc32c entry = .ok page := by
  unfold columnPages parseColumnPageIndex at h
  obtain ⟨-, h⟩ := ite_error_eq_ok.mp h
  obtain ⟨i, -, hi⟩ := exists_of_mem_mapM h hmem
  exact ⟨_, hi⟩

/-- What the segment parser checks of a column. -/
theorem checkColumn_eq_ok :
    checkColumn crc32c pageCheck bytes requiredFeatures payload column = .ok () ↔
      ColumnPlaced payload.header bytes.length column ∧
        ∃ pages, columnPages crc32c bytes column = .ok pages ∧
          ∀ page ∈ pages, PageFits requiredFeatures column page ∧
            RowsMatch payload.morsels page ∧
            PageIntact crc32c pageCheck bytes payload column page := by
  unfold checkColumn
  simp only [bind_eq_ok, checkedAdd, addU64_eq_ok, ite_error_eq_ok, Bool.or_eq_true,
    decide_eq_true_eq, not_or, Nat.not_lt]
  constructor
  · rintro ⟨_, ⟨hindexLt, rfl⟩, hindex, _, ⟨hdataLt, rfl⟩, hdata, pages, hpages, hall⟩
    refine ⟨⟨hindex, hindexLt, hdata, hdataLt⟩, pages, hpages, fun page hmem => ?_⟩
    exact (checkPage_eq_ok (parse_of_mem_columnPages hpages hmem) hdataLt).mp
      (forM_eq_ok.mp hall page hmem)
  · rintro ⟨hplaced, pages, hpages, hall⟩
    refine ⟨_, ⟨hplaced.pageIndex_lt, rfl⟩, hplaced.pageIndex, _, ⟨hplaced.data_lt, rfl⟩,
      hplaced.data, pages, hpages, forM_eq_ok.mpr fun page hmem => ?_⟩
    exact (checkPage_eq_ok (parse_of_mem_columnPages hpages hmem) hplaced.data_lt).mpr
      (hall page hmem)

/-- What the engine checks of a column. -/
theorem metadataColumn_eq_ok {header : TableSegmentHeaderV1}
    (hheader : header.dataOffset ≤ bytes.length) :
    metadataColumn crc32c bytes bytes.length bits header column = .ok pages ↔
      ColumnPlaced header bytes.length column ∧ columnPages crc32c bytes column = .ok pages ∧
        ∀ page ∈ pages, PageFits (some bits) column page := by
  unfold metadataColumn columnPageIndex
  simp only [bind_eq_ok, checkedAdd, addU64_eq_ok, ite_error_eq_ok, Bool.or_eq_true,
    decide_eq_true_eq, not_or, Nat.not_lt]
  constructor
  · rintro ⟨_, ⟨hindexLt, rfl⟩, hindex, _, ⟨hdataLt, rfl⟩, hdata, _, ⟨_, ⟨-, rfl⟩, -, hpages⟩,
      ⟨⟩, hall, hok⟩
    obtain rfl := Except.ok.inj hok
    refine ⟨⟨hindex, hindexLt, hdata, hdataLt⟩, hpages, fun page hmem => ?_⟩
    exact (checkMetadataPage_eq_ok (parse_of_mem_columnPages hpages hmem) hdataLt).mp
      (forM_eq_ok.mp hall page hmem)
  · rintro ⟨hplaced, hpages, hall⟩
    refine ⟨_, ⟨hplaced.pageIndex_lt, rfl⟩, hplaced.pageIndex, _, ⟨hplaced.data_lt, rfl⟩,
      hplaced.data, pages, ⟨_, ⟨hplaced.pageIndex_lt, rfl⟩, ?_, hpages⟩, (), ?_, rfl⟩
    · exact hplaced.pageIndex.2.trans hheader
    · refine forM_eq_ok.mpr fun page hmem => ?_
      exact (checkMetadataPage_eq_ok (parse_of_mem_columnPages hpages hmem) hplaced.data_lt).mpr
        (hall page hmem)

/-! ## Segments -/

theorem dataOffset_le_of_readDirectories (h : readDirectories crc32c bytes = .ok payload) :
    payload.header.dataOffset ≤ bytes.length := by
  unfold readDirectories at h
  obtain ⟨header, -, h⟩ := bind_eq_ok.mp h
  obtain ⟨-, h⟩ := ite_error_eq_ok.mp h
  obtain ⟨-, h⟩ := ite_error_eq_ok.mp h
  obtain ⟨-, h⟩ := ite_error_eq_ok.mp h
  obtain ⟨morselDirLen, -, h⟩ := bind_eq_ok.mp h
  obtain ⟨morselEnd, -, h⟩ := bind_eq_ok.mp h
  obtain ⟨-, h⟩ := ite_error_eq_ok.mp h
  obtain ⟨hplaces, h⟩ := ite_error_eq_ok.mp h
  obtain ⟨morsels, -, h⟩ := bind_eq_ok.mp h
  obtain ⟨-, h⟩ := ite_error_eq_ok.mp h
  obtain ⟨columnDirLen, -, h⟩ := bind_eq_ok.mp h
  obtain ⟨columnDirEnd, -, h⟩ := bind_eq_ok.mp h
  obtain ⟨-, h⟩ := ite_error_eq_ok.mp h
  obtain ⟨columns, -, h⟩ := bind_eq_ok.mp h
  obtain rfl := Except.ok.inj h
  simp only [Bool.or_eq_true, decide_eq_true_eq, not_or, Nat.not_lt] at hplaces
  exact hplaces.2

/-- What both parsers check of the columns. -/
def ColumnsFit (crc32c : List UInt8 → Nat) (bytes : List UInt8) (requiredFeatures : Option Nat)
    (payload : TableSegmentPayloadV1) : Prop :=
  ∀ column ∈ payload.columns, ColumnPlaced payload.header bytes.length column ∧
    ∃ pages, columnPages crc32c bytes column = .ok pages ∧
      ∀ page ∈ pages, PageFits requiredFeatures column page

/-- Every page of every column has the property. -/
def EveryPage (crc32c : List UInt8 → Nat) (bytes : List UInt8) (payload : TableSegmentPayloadV1)
    (P : TableColumnDirectoryEntryV1 → ColumnPageIndexEntryV1 → Prop) : Prop :=
  ∀ column ∈ payload.columns, ∀ pages, columnPages crc32c bytes column = .ok pages →
    ∀ page ∈ pages, P column page

/-- **What the segment parser accepts**: the directories, and every page of every column. -/
theorem parseInner_eq_ok (hread : readDirectories crc32c bytes = .ok payload)
    {out : TableSegmentPayloadV1} :
    TableSegmentPayloadV1.parseInner crc32c pageCheck bytes requiredFeatures = .ok out ↔
      out = payload ∧ ColumnsFit crc32c bytes requiredFeatures payload ∧
      EveryPage crc32c bytes payload (fun _ => RowsMatch payload.morsels) ∧
      EveryPage crc32c bytes payload (PageIntact crc32c pageCheck bytes payload) := by
  unfold TableSegmentPayloadV1.parseInner
  rw [hread, ok_bind, bind_eq_ok]
  constructor
  · rintro ⟨⟨⟩, hall, hok⟩
    have hcolumns := fun column hmem => checkColumn_eq_ok.mp (forM_eq_ok.mp hall column hmem)
    refine ⟨(Except.ok.inj hok).symm, fun column hmem => ?_, ?_, ?_⟩
    · obtain ⟨hplaced, pages, hpages, hpage⟩ := hcolumns column hmem
      exact ⟨hplaced, pages, hpages, fun page hp => (hpage page hp).1⟩
    · intro column hmem pages hpages page hp
      obtain ⟨-, found, hfound, hpage⟩ := hcolumns column hmem
      obtain rfl := Except.ok.inj (hfound.symm.trans hpages)
      exact (hpage page hp).2.1
    · intro column hmem pages hpages page hp
      obtain ⟨-, found, hfound, hpage⟩ := hcolumns column hmem
      obtain rfl := Except.ok.inj (hfound.symm.trans hpages)
      exact (hpage page hp).2.2
  · rintro ⟨rfl, hfit, hrows, hintact⟩
    refine ⟨(), forM_eq_ok.mpr fun column hmem => checkColumn_eq_ok.mpr ?_, rfl⟩
    obtain ⟨hplaced, pages, hpages, hpage⟩ := hfit column hmem
    exact ⟨hplaced, pages, hpages, fun page hp => ⟨hpage page hp,
      hrows column hmem pages hpages page hp, hintact column hmem pages hpages page hp⟩⟩

/-- The engine refuses ids that repeat: those of columns, of morsels, and of the pages of a
column. -/
structure NoRepeatedIds (crc32c : List UInt8 → Nat) (bytes : List UInt8)
    (payload : TableSegmentPayloadV1) : Prop where
  morsels : (payload.morsels.map RowMorselEntryV1.morselId).Nodup
  columns : (payload.columns.map TableColumnDirectoryEntryV1.columnId).Nodup
  pages : ∀ column ∈ payload.columns, ∀ pages, columnPages crc32c bytes column = .ok pages →
    (pages.map ColumnPageIndexEntryV1.morselId).Nodup

/-- **What the engine accepts**: the directories and page indexes, when no id repeats and every
page has the rows of the morsel with its id. -/
theorem parseSegmentMetadata_isOk_iff (hread : readDirectories crc32c bytes = .ok payload) :
    (∃ segment, parseSegmentMetadata crc32c bytes bytes.length bits = .ok segment) ↔
      ColumnsFit crc32c bytes (some bits) payload ∧ NoRepeatedIds crc32c bytes payload ∧
      EveryPage crc32c bytes payload fun _ page => ∃ morsel ∈ payload.morsels,
        morsel.morselId = page.morselId ∧ morsel.rowCount = page.rowCount := by
  have hheader := dataOffset_le_of_readDirectories hread
  unfold parseSegmentMetadata
  rw [hread, ok_bind]
  constructor
  · rintro ⟨segment, h⟩
    obtain ⟨pageIndexes, hindexes, hnew⟩ := bind_eq_ok.mp h
    have hall := mapM_eq_ok.mp hindexes
    obtain ⟨hmorsels, hcolumns, hpages⟩ :=
      (SegmentMetadata.new_isOk_iff hall.length_eq).mp ⟨segment, hnew⟩
    -- the page index that the engine read is the one of the column
    have hcolumn : ∀ column ∈ payload.columns, ∃ pages ∈ pageIndexes,
        ColumnPlaced payload.header bytes.length column ∧
          columnPages crc32c bytes column = .ok pages ∧
          ∀ page ∈ pages, PageFits (some bits) column page := by
      intro column hmem
      obtain ⟨pages, hpages, hmetadata⟩ := exists_of_mapM_mem hindexes hmem
      exact ⟨pages, hpages, (metadataColumn_eq_ok hheader).mp hmetadata⟩
    refine ⟨fun column hmem => ?_, ⟨hmorsels, hcolumns, ?_⟩, ?_⟩
    · obtain ⟨pages, -, hplaced, hparsed, hfits⟩ := hcolumn column hmem
      exact ⟨hplaced, pages, hparsed, hfits⟩
    · intro column hmem pages hparse
      obtain ⟨found, hfound, -, hparsed, -⟩ := hcolumn column hmem
      obtain rfl := Except.ok.inj (hparsed.symm.trans hparse)
      exact (hpages found hfound).1
    · intro column hmem pages hparse page hpage
      obtain ⟨found, hfound, -, hparsed, -⟩ := hcolumn column hmem
      obtain rfl := Except.ok.inj (hparsed.symm.trans hparse)
      exact (hpages found hfound).2 page hpage
  · rintro ⟨hfit, hids, hrows⟩
    obtain ⟨pageIndexes, hall⟩ : ∃ pageIndexes, List.Forall₂
        (fun column pages => metadataColumn crc32c bytes bytes.length bits payload.header column =
          .ok pages) payload.columns pageIndexes := by
      refine exists_forall₂ fun column hmem => ?_
      obtain ⟨hplaced, pages, hparsed, hfits⟩ := hfit column hmem
      exact ⟨pages, (metadataColumn_eq_ok hheader).mpr ⟨hplaced, hparsed, hfits⟩⟩
    obtain ⟨segment, hnew⟩ := (SegmentMetadata.new_isOk_iff hall.length_eq).mpr
      ⟨hids.morsels, hids.columns, fun pages hpages => by
        obtain ⟨column, hmem, hmetadata⟩ := exists_of_mem_mapM (mapM_eq_ok.mpr hall) hpages
        obtain ⟨-, hparsed, -⟩ := (metadataColumn_eq_ok hheader).mp hmetadata
        exact ⟨hids.pages column hmem pages hparsed, hrows column hmem pages hparsed⟩⟩
    exact ⟨segment, bind_eq_ok.mpr ⟨pageIndexes, mapM_eq_ok.mpr hall, hnew⟩⟩

/-! ## Agreement -/

/-- The morsels are numbered by their places in the directory. -/
def Positional (morsels : RowMorselDirectory) : Prop :=
  ∀ (i : Nat) (morsel : RowMorselEntryV1), morsels[i]? = some morsel → morsel.morselId = i

/-- A page of a column and a morsel, as the segment has it. -/
def TableSegmentPayloadV1.HasPage (payload : TableSegmentPayloadV1) (crc32c : List UInt8 → Nat)
    (bytes : List UInt8) (columnId morselId : Nat) (page : ColumnPageIndexEntryV1) : Prop :=
  ∃ column ∈ payload.columns, column.columnId = columnId ∧
    ∃ pages, columnPages crc32c bytes column = .ok pages ∧ page ∈ pages ∧ page.morselId = morselId

/-- The page that the engine looks up for a column and a morsel. -/
def SegmentMetadata.pageOf (segment : SegmentMetadata) (columnId morselId : Nat) :
    Except CoveError ColumnPageIndexEntryV1 := do
  let column ← segment.column columnId
  column.pageForMorsel morselId

theorem Positional.mem_iff (h : Positional morsels) {morsel : RowMorselEntryV1} {i : Nat} :
    morsel ∈ morsels ∧ morsel.morselId = i ↔ morsels[i]? = some morsel := by
  constructor
  · rintro ⟨hmem, rfl⟩
    obtain ⟨i, hi⟩ := List.mem_iff_getElem?.mp hmem
    rwa [h i morsel hi]
  · intro hi
    exact ⟨List.mem_of_getElem? hi, h i morsel hi⟩

/-- With morsels numbered by their places, finding them by id and by place is the same. -/
theorem Positional.rows_iff (h : Positional morsels) :
    (∃ morsel ∈ morsels, morsel.morselId = page.morselId ∧ morsel.rowCount = page.rowCount) ↔
      RowsMatch morsels page := by
  constructor
  · rintro ⟨morsel, hmem, hid, hrows⟩
    exact ⟨morsel, h.mem_iff.mp ⟨hmem, hid⟩, hrows.symm⟩
  · rintro ⟨morsel, hi, hrows⟩
    obtain ⟨hmem, hid⟩ := h.mem_iff.mpr hi
    exact ⟨morsel, hmem, hid, hrows.symm⟩

/-- **The engine looks up the pages of the segment**, by the ids of their columns and morsels. -/
theorem pageOf_eq_ok_iff (hread : readDirectories crc32c bytes = .ok payload)
    {segment : SegmentMetadata}
    (hengine : parseSegmentMetadata crc32c bytes bytes.length bits = .ok segment)
    {columnId morselId : Nat} :
    segment.pageOf columnId morselId = .ok page ↔
      payload.HasPage crc32c bytes columnId morselId page := by
  have hheader := dataOffset_le_of_readDirectories hread
  unfold parseSegmentMetadata at hengine
  rw [hread, ok_bind] at hengine
  obtain ⟨pageIndexes, hindexes, hnew⟩ := bind_eq_ok.mp hengine
  obtain ⟨-, -, hprepared, -⟩ := SegmentMetadata.of_new hnew
  have hall := mapM_eq_ok.mp hindexes
  have htables := mapM_eq_ok.mp hprepared
  unfold SegmentMetadata.pageOf TableSegmentPayloadV1.HasPage
  rw [bind_eq_ok]
  constructor
  · rintro ⟨prepared, hcolumn, hpage⟩
    obtain ⟨i, column, hi, hid, hget⟩ := (SegmentMetadata.column_eq_ok hnew).mp hcolumn
    obtain ⟨hlt, rfl⟩ := List.getElem?_eq_some_iff.mp hget
    have hltPages : i < pageIndexes.length := htables.length_eq ▸ hlt
    obtain ⟨hltColumns, rfl⟩ := List.getElem?_eq_some_iff.mp hi
    obtain ⟨-, hparsed, -⟩ := (metadataColumn_eq_ok hheader).mp (hall.get hltColumns hltPages)
    obtain ⟨hmem, hmorsel⟩ := (pageForMorsel_eq_ok (htables.get hltPages hlt)).mp hpage
    exact ⟨_, List.getElem_mem _, hid, _, hparsed, hmem, hmorsel⟩
  · rintro ⟨column, hmem, hid, pages, hparsed, hpage, hmorsel⟩
    obtain ⟨i, hlt, rfl⟩ := List.mem_iff_getElem.mp hmem
    have hltPages : i < pageIndexes.length := hall.length_eq ▸ hlt
    have hltTables : i < segment.columns.length := htables.length_eq ▸ hltPages
    obtain ⟨-, hread', -⟩ := (metadataColumn_eq_ok hheader).mp (hall.get hlt hltPages)
    obtain rfl := Except.ok.inj (hread'.symm.trans hparsed)
    exact ⟨segment.columns[i], (SegmentMetadata.column_eq_ok hnew).mpr
      ⟨i, _, List.getElem?_eq_getElem hlt, hid, List.getElem?_eq_getElem hltTables⟩,
      (pageForMorsel_eq_ok (htables.get hltPages hltTables)).mpr ⟨hpage, hmorsel⟩⟩

theorem ColumnsFit.of_engine (h : ColumnsFit crc32c bytes (some bits) payload)
    (hfeatures : requiredFeatures = none ∨ requiredFeatures = some bits) :
    ColumnsFit crc32c bytes requiredFeatures payload := by
  rcases hfeatures with rfl | rfl
  · intro column hmem
    obtain ⟨hplaced, pages, hpages, hfits⟩ := h column hmem
    refine ⟨hplaced, pages, hpages, fun page hpage => ?_⟩
    exact ⟨(hfits page hpage).ofColumn, fun _ _ hnone => (nomatch hnone), (hfits page hpage).placed⟩
  · exact h

/-- A page that leaves out bytes is allowed to by the features of the file. -/
def ElisionAllowed (bits : Nat) (page : ColumnPageIndexEntryV1) : Prop :=
  pageUsesPayloadElision page.flags = true → hasFlag bits featurePagePayloadElision = true

theorem columnsFit_some_iff (h : ColumnsFit crc32c bytes requiredFeatures payload) :
    ColumnsFit crc32c bytes (some bits) payload ↔
      EveryPage crc32c bytes payload fun _ => ElisionAllowed bits := by
  constructor
  · intro hfit column hmem pages hpages page hpage huses
    obtain ⟨-, found, hfound, hfits⟩ := hfit column hmem
    obtain rfl := Except.ok.inj (hfound.symm.trans hpages)
    exact (hfits page hpage).elision huses bits rfl
  · intro hallowed column hmem
    obtain ⟨hplaced, pages, hpages, hfits⟩ := h column hmem
    refine ⟨hplaced, pages, hpages, fun page hpage => ?_⟩
    refine ⟨(hfits page hpage).ofColumn, fun huses found hfound => ?_, (hfits page hpage).placed⟩
    obtain rfl := Option.some.inj hfound
    exact hallowed column hmem pages hpages page hpage huses

end

/-- **The parsers agree on segments whose morsels are numbered by their places.** The engine is
called with the features `bits` of the file and the segment parser with them or without. They
reject the same directories. Of what the parser accepts, the engine accepts all but repeated ids
and pages that leave out bytes against the features; of what the engine accepts, the parser accepts
all but pages whose bytes are damaged. What both accept, they read alike. -/
theorem segment_parsers_agree (crc32c : List UInt8 → Nat)
    (pageCheck : PageValidationContext → ColumnPageIndexEntryV1 → List UInt8 →
      Except CoveError Unit)
    (bytes : List UInt8) (bits : Nat) (requiredFeatures : Option Nat)
    (hfeatures : requiredFeatures = none ∨ requiredFeatures = some bits) :
    (∀ e, readDirectories crc32c bytes = .error e →
      TableSegmentPayloadV1.parseInner crc32c pageCheck bytes requiredFeatures = .error e ∧
        parseSegmentMetadata crc32c bytes bytes.length bits = .error e) ∧
    ∀ payload, readDirectories crc32c bytes = .ok payload → Positional payload.morsels →
      (TableSegmentPayloadV1.parseInner crc32c pageCheck bytes requiredFeatures = .ok payload →
        ((∃ segment, parseSegmentMetadata crc32c bytes bytes.length bits = .ok segment) ↔
          NoRepeatedIds crc32c bytes payload ∧
            EveryPage crc32c bytes payload fun _ => ElisionAllowed bits)) ∧
      ∀ segment, parseSegmentMetadata crc32c bytes bytes.length bits = .ok segment →
        (TableSegmentPayloadV1.parseInner crc32c pageCheck bytes requiredFeatures = .ok payload ↔
          EveryPage crc32c bytes payload (PageIntact crc32c pageCheck bytes payload)) ∧
        (∀ morselId morsel,
          segment.morsel morselId = .ok morsel ↔ payload.morsels[morselId]? = some morsel) ∧
        ∀ columnId morselId page, segment.pageOf columnId morselId = .ok page ↔
          payload.HasPage crc32c bytes columnId morselId page := by
  refine ⟨fun e hread => ?_, fun payload hread hpositional => ⟨fun hcore => ?_, ?_⟩⟩
  · unfold TableSegmentPayloadV1.parseInner parseSegmentMetadata
    rw [hread]
    exact ⟨rfl, rfl⟩
  · obtain ⟨-, hfit, hrows, -⟩ := (parseInner_eq_ok hread).mp hcore
    rw [parseSegmentMetadata_isOk_iff hread, columnsFit_some_iff hfit]
    constructor
    · rintro ⟨hallowed, hids, -⟩
      exact ⟨hids, hallowed⟩
    · rintro ⟨hids, hallowed⟩
      refine ⟨hallowed, hids, fun column hmem pages hpages page hpage => ?_⟩
      exact hpositional.rows_iff.mpr (hrows column hmem pages hpages page hpage)
  · intro segment hengine
    obtain ⟨hfit, -, hrows⟩ := (parseSegmentMetadata_isOk_iff hread).mp ⟨segment, hengine⟩
    refine ⟨?_, fun morselId morsel => ?_, fun columnId morselId page =>
      pageOf_eq_ok_iff hread hengine⟩
    · rw [parseInner_eq_ok hread]
      constructor
      · rintro ⟨-, -, -, hintact⟩
        exact hintact
      · intro hintact
        refine ⟨rfl, hfit.of_engine hfeatures, ?_, hintact⟩
        intro column hmem pages hpages page hpage
        exact hpositional.rows_iff.mp (hrows column hmem pages hpages page hpage)
    · unfold parseSegmentMetadata at hengine
      rw [hread, ok_bind] at hengine
      obtain ⟨pageIndexes, -, hnew⟩ := bind_eq_ok.mp hengine
      rw [SegmentMetadata.morsel_eq_ok hnew]
      exact hpositional.mem_iff

/-- A column of two pages without bytes. -/
def constantSegment : List UInt8 :=
  (twoMorselHeader 1).serialize Crc32c.crc32c ++
    RowMorselDirectory.serialize Crc32c.crc32c [⟨0, 0, 1, 0, 0, 0⟩, ⟨1, 1, 1, 0, 0, 0⟩] ++
    (TableColumnDirectoryEntryV1.serialize Crc32c.crc32c
      ⟨11, .int64, .numCode, 0, 172, 120, 292, 0, 0, 0, 0⟩) ++
    (constantPage 0).serialize ++ (constantPage 1).serialize

/-- The directories of `constantSegment`. -/
def constantPayload : TableSegmentPayloadV1 where
  header := { twoMorselHeader 1 with checksum := 1462861064 }
  morsels := [⟨0, 0, 1, 0, 0, 1995956496⟩, ⟨1, 1, 1, 0, 0, 4227585059⟩]
  columns := [⟨11, .int64, .numCode, 0, 172, 120, 292, 0, 0, 0, 1068838990⟩]

/-- Both parsers accept it, and the page that the engine looks up for the second morsel is the
second page of the column. -/
theorem constantSegment_read_alike : ∃ segment,
    parseSegmentMetadata Crc32c.crc32c constantSegment constantSegment.length
      featurePagePayloadElision = .ok segment ∧
    TableSegmentPayloadV1.parseInner Crc32c.crc32c (fun _ _ _ => .ok ()) constantSegment none =
      .ok constantPayload ∧
    segment.morsel 1 = .ok ⟨1, 1, 1, 0, 0, 4227585059⟩ ∧
    constantPayload.HasPage Crc32c.crc32c constantSegment 11 1 (constantPage 1) := by
  have hread : readDirectories Crc32c.crc32c constantSegment = .ok constantPayload := by
    decide +kernel
  have hpositional : Positional constantPayload.morsels := by
    intro i morsel h
    match i, h with
    | 0, h => exact (congrArg RowMorselEntryV1.morselId (Option.some.inj h)).symm
    | 1, h => exact (congrArg RowMorselEntryV1.morselId (Option.some.inj h)).symm
  have hcore : TableSegmentPayloadV1.parseInner Crc32c.crc32c (fun _ _ _ => .ok ())
      constantSegment none = .ok constantPayload := by decide +kernel
  have hpage : ((parseSegmentMetadata Crc32c.crc32c constantSegment constantSegment.length
      featurePagePayloadElision).bind fun segment => segment.pageOf 11 1) =
      .ok (constantPage 1) := by decide +kernel
  obtain ⟨segment, hengine, hpage⟩ := bind_eq_ok.mp hpage
  obtain ⟨-, h⟩ := segment_parsers_agree Crc32c.crc32c (fun _ _ _ => .ok ()) constantSegment
    featurePagePayloadElision none (.inl rfl)
  obtain ⟨-, hmorsel, hpages⟩ := (h constantPayload hread hpositional).2 segment hengine
  exact ⟨segment, hengine, hcore, (hmorsel 1 _).mpr rfl, (hpages 11 1 _).mp hpage⟩

/-- Two morsels of one id: the segment parser takes them, the engine does not. -/
def repeatedMorsels : List UInt8 :=
  (twoMorselHeader 0).serialize Crc32c.crc32c ++
    RowMorselDirectory.serialize Crc32c.crc32c [⟨0, 0, 1, 0, 0, 0⟩, ⟨0, 1, 1, 0, 0, 0⟩]

theorem repeated_morsel_ids_refuted :
    ¬∀ bytes bits, (∃ payload, TableSegmentPayloadV1.parseInner Crc32c.crc32c
        (fun _ _ _ => .ok ()) bytes none = .ok payload) ↔
      ∃ segment, parseSegmentMetadata Crc32c.crc32c bytes bytes.length bits = .ok segment := by
  intro h
  have hcore : (TableSegmentPayloadV1.parseInner Crc32c.crc32c (fun _ _ _ => .ok ())
      repeatedMorsels none).toOption.isSome = true := by decide +kernel
  have hengine : (parseSegmentMetadata Crc32c.crc32c repeatedMorsels repeatedMorsels.length
      0).toOption = none := by decide +kernel
  obtain ⟨payload, hpayload⟩ := Option.isSome_iff_exists.mp hcore
  obtain ⟨segment, hsegment⟩ := (h repeatedMorsels 0).mp ⟨payload, toOption_eq_some.mp hpayload⟩
  rw [hsegment] at hengine
  cases hengine

end Cove.SegmentPayload
