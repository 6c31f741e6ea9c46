import Cove.Core.SegmentPayload
import Cove.Lib.Digests

/-!
# The rows of a segment

What the segment parser accepts of the morsels and the pages.

- `TilesRows`: morsels that follow one another without gap or overlap.
- `tilesRows_of_parse`: the morsels of a parsed directory tile the rows from the first one's on.
- `PagesMatch`: the pages of a column, each with the rows of its morsel.
- `parse_tiles_rows`: **the morsels and the pages of a parsed segment**.
- `shiftedSegment`: a segment whose rows start at 5, with repeated morsel ids and repeated pages.
-/

namespace Cove.SegmentPayload

open Checked

/-! ## Morsels -/

/-- The row is one of the morsel's. -/
def RowMorselEntryV1.Holds (morsel : RowMorselEntryV1) (row : Nat) : Prop :=
  morsel.firstRowInSegment ≤ row ∧ row < morsel.firstRowInSegment + morsel.rowCount

/-- The morsels are not empty, come in the order of their rows without overlap, and hold exactly
the rows from `start` up to `stop`. -/
structure TilesRows (morsels : RowMorselDirectory) (start stop : Nat) : Prop where
  nonempty : ∀ morsel ∈ morsels, 0 < morsel.rowCount
  ordered : morsels.Pairwise fun a b =>
    a.firstRowInSegment + a.rowCount ≤ b.firstRowInSegment
  covers : ∀ row, (∃ morsel ∈ morsels, morsel.Holds row) ↔ start ≤ row ∧ row < stop

/-- The row where the first morsel starts. -/
def RowMorselDirectory.firstRow (morsels : RowMorselDirectory) : Nat :=
  (morsels.head?.map RowMorselEntryV1.firstRowInSegment).getD 0

/-- One morsel in front of those that it ends at. -/
theorem TilesRows.cons {morsel : RowMorselEntryV1} {morsels : RowMorselDirectory} {stop : Nat}
    (hrows : 0 < morsel.rowCount)
    (h : TilesRows morsels (morsel.firstRowInSegment + morsel.rowCount) stop)
    (hstop : morsel.firstRowInSegment + morsel.rowCount ≤ stop) :
    TilesRows (morsel :: morsels) morsel.firstRowInSegment stop := by
  refine ⟨List.forall_mem_cons.mpr ⟨hrows, h.nonempty⟩, List.pairwise_cons.mpr ⟨?_, h.ordered⟩, ?_⟩
  · intro later hlater
    have hfirst : later.Holds later.firstRowInSegment :=
      ⟨le_refl _, Nat.lt_add_of_pos_right (h.nonempty later hlater)⟩
    exact ((h.covers _).mp ⟨later, hlater, hfirst⟩).1
  · intro row
    simp only [List.mem_cons, exists_eq_or_imp]
    rw [h.covers row]
    unfold RowMorselEntryV1.Holds
    omega

variable {morsels : RowMorselDirectory}

/-- Morsels that pass the check tile the rows that they count. The induction is on the morsels,
each starting where the one before ended. -/
theorem tilesRows_of_validateFrom {start : Nat}
    (h : RowMorselDirectory.validateFrom start morsels = .ok ()) :
    TilesRows morsels start (start + morsels.sumRows) := by
  induction morsels generalizing start with
  | nil =>
    refine ⟨nofun, .nil, fun row => ?_⟩
    show (∃ morsel ∈ ([] : RowMorselDirectory), morsel.Holds row) ↔ start ≤ row ∧ row < start + 0
    simp only [List.not_mem_nil, false_and, exists_false, false_iff]
    omega
  | cons morsel morsels ih =>
    obtain ⟨hrows, h⟩ := ite_error_eq_ok.mp h
    obtain ⟨hfirst, h⟩ := ite_error_eq_ok.mp h
    obtain ⟨nextRow, hnext, h⟩ := bind_eq_ok.mp h
    obtain ⟨-, rfl⟩ := addU32_eq_ok.mp hnext
    obtain rfl := Classical.not_not.mp hfirst
    have hsum : RowMorselDirectory.sumRows (morsel :: morsels) =
        morsel.rowCount + RowMorselDirectory.sumRows morsels := List.sum_cons
    rw [hsum, ← Nat.add_assoc]
    exact (ih h).cons (Nat.pos_of_ne_zero hrows) (Nat.le_add_right _ _)

/-- The morsels of a parsed directory. -/
theorem tilesRows_of_parse {crc32c : List UInt8 → Nat} {bytes : List UInt8} {count : Nat}
    (h : RowMorselDirectory.parse crc32c bytes count = .ok morsels) :
    TilesRows morsels morsels.firstRow (morsels.firstRow + morsels.sumRows) := by
  unfold RowMorselDirectory.parse at h
  obtain ⟨needed, -, h⟩ := bind_eq_ok.mp h
  obtain ⟨-, h⟩ := ite_error_eq_ok.mp h
  obtain ⟨entries, -, h⟩ := bind_eq_ok.mp h
  obtain ⟨_, hvalid, h⟩ := bind_eq_ok.mp h
  obtain rfl := Except.ok.inj h
  exact tilesRows_of_validateFrom hvalid

/-! ## Pages -/

section

variable {crc32c : List UInt8 → Nat}
  {pageCheck : PageValidationContext → ColumnPageIndexEntryV1 → List UInt8 → Except CoveError Unit}
  {bytes : List UInt8} {requiredFeatures : Option Nat} {payload : TableSegmentPayloadV1}

/-- The pages of a column name it, and each has as many rows as the morsel at the place that it
gives as its morsel id. -/
def PagesMatch (morsels : RowMorselDirectory) (column : TableColumnDirectoryEntryV1)
    (pages : List ColumnPageIndexEntryV1) : Prop :=
  ∀ page ∈ pages, page.columnId = column.columnId ∧
    ∃ morsel, morsels[page.morselId]? = some morsel ∧ page.rowCount = morsel.rowCount

/-- The page index of a column, as it stands in the segment. -/
def HasPages (crc32c : List UInt8 → Nat) (bytes : List UInt8)
    (column : TableColumnDirectoryEntryV1) (pages : List ColumnPageIndexEntryV1) : Prop :=
  parseColumnPageIndex crc32c (fieldBytes bytes column.pageIndexOffset column.pageIndexLength) =
    .ok pages

theorem pagesMatch_of_checkColumn {column : TableColumnDirectoryEntryV1}
    (h : checkColumn crc32c pageCheck bytes requiredFeatures payload column = .ok ()) :
    ∃ pages, HasPages crc32c bytes column pages ∧ PagesMatch payload.morsels column pages := by
  unfold checkColumn at h
  obtain ⟨columnPageIndexEnd, -, h⟩ := bind_eq_ok.mp h
  obtain ⟨-, h⟩ := ite_error_eq_ok.mp h
  obtain ⟨columnDataEnd, -, h⟩ := bind_eq_ok.mp h
  obtain ⟨-, h⟩ := ite_error_eq_ok.mp h
  obtain ⟨pages, hpages, h⟩ := bind_eq_ok.mp h
  refine ⟨pages, hpages, ?_⟩
  intro page hpage
  have hcheck := forM_eq_ok.mp h page hpage
  unfold checkPage at hcheck
  obtain ⟨hcolumn, hcheck⟩ := ite_error_eq_ok.mp hcheck
  refine ⟨Classical.not_not.mp hcolumn, ?_⟩
  cases hmorsel : payload.morsels[page.morselId]? with
  | none =>
    rw [hmorsel] at hcheck
    cases hcheck
  | some morsel =>
    rw [hmorsel] at hcheck
    obtain ⟨hrows, -⟩ := ite_error_eq_ok.mp hcheck
    exact ⟨morsel, rfl, Classical.not_not.mp hrows⟩

/-- The morsels of the directories count the rows of the header. -/
theorem tilesRows_of_readDirectories (h : readDirectories crc32c bytes = .ok payload) :
    TilesRows payload.morsels payload.morsels.firstRow
      (payload.morsels.firstRow + payload.header.rowCount) := by
  unfold readDirectories at h
  obtain ⟨header, -, h⟩ := bind_eq_ok.mp h
  obtain ⟨-, h⟩ := ite_error_eq_ok.mp h
  obtain ⟨-, h⟩ := ite_error_eq_ok.mp h
  obtain ⟨-, h⟩ := ite_error_eq_ok.mp h
  obtain ⟨morselDirLen, -, h⟩ := bind_eq_ok.mp h
  obtain ⟨morselEnd, -, h⟩ := bind_eq_ok.mp h
  obtain ⟨-, h⟩ := ite_error_eq_ok.mp h
  obtain ⟨-, h⟩ := ite_error_eq_ok.mp h
  obtain ⟨morsels, hmorsels, h⟩ := bind_eq_ok.mp h
  obtain ⟨hsum, h⟩ := ite_error_eq_ok.mp h
  obtain ⟨columnDirLen, -, h⟩ := bind_eq_ok.mp h
  obtain ⟨columnDirEnd, -, h⟩ := bind_eq_ok.mp h
  obtain ⟨-, h⟩ := ite_error_eq_ok.mp h
  obtain ⟨columns, -, h⟩ := bind_eq_ok.mp h
  obtain rfl := Except.ok.inj h
  have htiles := tilesRows_of_parse hmorsels
  rwa [Classical.not_not.mp hsum] at htiles

/-- **The morsels and the pages of a parsed segment.** The morsels tile as many rows as the header
counts, from the first one's first row on; every page of a column has the rows of the morsel at the
place of its morsel id. -/
theorem parse_tiles_rows
    (h : TableSegmentPayloadV1.parseInner crc32c pageCheck bytes requiredFeatures = .ok payload) :
    TilesRows payload.morsels payload.morsels.firstRow
        (payload.morsels.firstRow + payload.header.rowCount) ∧
      ∀ column ∈ payload.columns, ∃ pages, HasPages crc32c bytes column pages ∧
        PagesMatch payload.morsels column pages := by
  unfold TableSegmentPayloadV1.parseInner at h
  obtain ⟨read, hread, h⟩ := bind_eq_ok.mp h
  obtain ⟨_, hcolumns, h⟩ := bind_eq_ok.mp h
  obtain rfl := Except.ok.inj h
  refine ⟨tilesRows_of_readDirectories hread, ?_⟩
  intro column hcolumn
  exact pagesMatch_of_checkColumn (forM_eq_ok.mp hcolumns column hcolumn)

end

/-! ## A segment that starts late -/

/-- The header of a segment of two morsels of one row. -/
def twoMorselHeader (columnCount : Nat) : TableSegmentHeaderV1 where
  tableId := 1
  segmentId := 7
  rowStart := 0
  rowCount := 2
  morselCount := 2
  morselRowCount := 1
  columnCount := columnCount
  morselDirectoryOffset := 72
  columnDirectoryOffset := 120
  pageIndexOffset := 120 + 52 * columnCount
  dataOffset := 120 + 172 * columnCount
  flags := 0
  checksum := 0

/-- A page of one row whose value stands in the statistics. -/
def constantPage (morselId : Nat) : ColumnPageIndexEntryV1 where
  columnId := 11
  morselId := morselId
  rowCount := 1
  nonNullCount := 1
  nullCount := 0
  encodingRoot := 0xFFFFFFFF
  pageOffset := 0
  pageLength := 0
  uncompressedLength := 0
  statsRef := 0
  flags := 0x500
  checksum := Crc32c.crc32c []

/-- The only page of a morsel, with its rows. -/
def OnePageEach (morsels : RowMorselDirectory) (pages : List ColumnPageIndexEntryV1) : Prop :=
  ∀ i morsel, morsels[i]? = some morsel →
    ∃ page, pages.filter (fun page => page.morselId = i) = [page] ∧ page.rowCount = morsel.rowCount

/-- Two morsels of one id from row 5 on, and a column with two pages of the first. -/
def shiftedSegment : List UInt8 :=
  (twoMorselHeader 1).serialize Crc32c.crc32c ++
    RowMorselDirectory.serialize Crc32c.crc32c [⟨7, 5, 1, 0, 0, 0⟩, ⟨7, 6, 1, 0, 0, 0⟩] ++
    (TableColumnDirectoryEntryV1.serialize Crc32c.crc32c
      ⟨11, .int64, .numCode, 0, 172, 120, 292, 0, 0, 0, 0⟩) ++
    (constantPage 0).serialize ++ (constantPage 0).serialize

/-- What the parser reads of it. -/
theorem shiftedSegment_read : ∃ payload,
    TableSegmentPayloadV1.parseInner Crc32c.crc32c (fun _ _ _ => .ok ()) shiftedSegment none =
      .ok payload ∧
    payload.morsels.map (fun morsel => (morsel.morselId, morsel.firstRowInSegment)) =
      [(7, 5), (7, 6)] ∧
    ∃ column, payload.columns = [column] ∧
      HasPages Crc32c.crc32c shiftedSegment column [constantPage 0, constantPage 0] := by
  let read : Option TableSegmentPayloadV1 := (TableSegmentPayloadV1.parseInner Crc32c.crc32c
    (fun _ _ _ => .ok ()) shiftedSegment none).toOption
  have hread : (read.map fun payload =>
      (payload.morsels.map fun morsel => (morsel.morselId, morsel.firstRowInSegment),
        payload.columns.length,
        payload.columns.map fun column => parseColumnPageIndex Crc32c.crc32c
          (fieldBytes shiftedSegment column.pageIndexOffset column.pageIndexLength))) =
      some ([(7, 5), (7, 6)], 1, [.ok [constantPage 0, constantPage 0]]) := by
    decide +kernel
  obtain ⟨payload, hpayload, heq⟩ := Option.map_eq_some_iff.mp hread
  obtain ⟨hmorsels, heq⟩ := Prod.mk.inj heq
  obtain ⟨hcolumns, hpages⟩ := Prod.mk.inj heq
  obtain ⟨column, hcolumn⟩ := List.length_eq_one_iff.mp hcolumns
  rw [hcolumn, List.map_singleton] at hpages
  exact ⟨payload, toOption_eq_some.mp hpayload, hmorsels, column, hcolumn,
    (List.cons.inj hpages).1⟩

theorem parse_tiles_rows_shifted : ∃ payload,
    TableSegmentPayloadV1.parseInner Crc32c.crc32c (fun _ _ _ => .ok ()) shiftedSegment none =
      .ok payload ∧
    TilesRows payload.morsels payload.morsels.firstRow
        (payload.morsels.firstRow + payload.header.rowCount) ∧
      ∀ column ∈ payload.columns, ∃ pages, HasPages Crc32c.crc32c shiftedSegment column pages ∧
        PagesMatch payload.morsels column pages := by
  obtain ⟨payload, hok, -⟩ := shiftedSegment_read
  exact ⟨payload, hok, parse_tiles_rows hok⟩

/-- The segment is accepted; its rows do not start at 0, its morsel ids are not their places, and
its column has two pages for the first morsel and none for the second. -/
theorem shiftedSegment_refuted : ∃ payload,
    TableSegmentPayloadV1.parseInner Crc32c.crc32c (fun _ _ _ => .ok ()) shiftedSegment none =
      .ok payload ∧
    ¬TilesRows payload.morsels 0 payload.header.rowCount ∧
    (¬∀ i, ∀ morsel : RowMorselEntryV1, payload.morsels[i]? = some morsel → morsel.morselId = i) ∧
    ¬∀ column ∈ payload.columns, ∀ pages, HasPages Crc32c.crc32c shiftedSegment column pages →
      OnePageEach payload.morsels pages := by
  obtain ⟨payload, hok, hmorsels, column, hcolumn, hpages⟩ := shiftedSegment_read
  obtain ⟨first, second, hpair⟩ : ∃ first second, payload.morsels = [first, second] :=
    List.length_eq_two.mp (by simpa using congrArg List.length hmorsels)
  rw [hpair] at hmorsels
  obtain ⟨hfirst, hrest⟩ := List.cons.inj hmorsels
  obtain ⟨hsecond, -⟩ := List.cons.inj hrest
  obtain ⟨hid, hrow⟩ := Prod.mk.inj hfirst
  obtain ⟨-, hrow'⟩ := Prod.mk.inj hsecond
  refine ⟨payload, hok, ?_, ?_, ?_⟩
  · intro htiles
    rw [hpair] at htiles
    have hheld : first.Holds 5 := ⟨hrow.le, by
      have := htiles.nonempty first List.mem_cons_self
      omega⟩
    have hlt := ((htiles.covers 5).mp ⟨first, List.mem_cons_self, hheld⟩).2
    obtain ⟨morsel, hmorsel, hle, -⟩ := (htiles.covers 0).mpr ⟨le_refl 0, by omega⟩
    rcases List.mem_pair.mp hmorsel with rfl | rfl
    · omega
    · omega
  · intro hids
    have := hids 0 first (by rw [hpair]; rfl)
    omega
  · intro hall
    have hone := hall column (by rw [hcolumn]; exact List.mem_cons_self) _ hpages 0 first
      (by rw [hpair]; rfl)
    obtain ⟨page, hpage, -⟩ := hone
    cases hpage

end Cove.SegmentPayload
