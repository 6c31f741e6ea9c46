import Cove.Core.SegmentPayload
import Cove.Lib.BinarySearch
import Cove.Lib.SlotTable
import Cove.Lib.SortedList

/-!
# Segment metadata of the query engine

The engine reads the front of a segment, up to its data, and looks pages up by the ids of their
columns and morsels. Nothing of a page is read but its entry.

- `SegmentMetadata.new`: the tables of positions.
- `SegmentMetadata.morsel`, `column`, `pageForMorsel`: the lookups.
- `parseSegmentMetadata`: the parser.
-/

namespace Cove.SegmentPayload

open Checked

/-! ## Tables of positions -/

structure PreparedSegmentColumn where
  pageIndex : List ColumnPageIndexEntryV1
  pagePositionsByMorsel : List (Option Nat)
  deriving DecidableEq, Repr

structure SegmentMetadata where
  morsels : RowMorselDirectory
  morselPositionsById : List (Option Nat)
  columns : List PreparedSegmentColumn
  columnPositions : List (Nat × Nat)
  deriving DecidableEq, Repr

/-- The check of a page against the morsel with its id. -/
def checkPageMorsel (morsels : RowMorselDirectory) (morselPositionsById : List (Option Nat))
    (page : ColumnPageIndexEntryV1) : Except CoveError Unit :=
  match SlotTable.look morselPositionsById page.morselId with
  | none => .error .pageCorrupt
  | some morselPosition =>
    if (morsels[morselPosition]?.map RowMorselEntryV1.rowCount) ≠ some page.rowCount then
      .error .pageCorrupt
    else .ok ()

/-- The positions of the pages of a column. -/
def prepareColumn (morsels : RowMorselDirectory) (morselPositionsById : List (Option Nat))
    (pageIndex : List ColumnPageIndexEntryV1) : Except CoveError PreparedSegmentColumn := do
  let pagePositionsByMorsel ← SlotTable.place (checkPageMorsel morsels morselPositionsById)
    .pageCorrupt ColumnPageIndexEntryV1.morselId pageIndex.zipIdx
    (List.replicate morselPositionsById.length none)
  .ok ⟨pageIndex, pagePositionsByMorsel⟩

namespace SegmentMetadata

/-- `SegmentMetadata::new`. -/
def new (morsels : RowMorselDirectory) (columns : List TableColumnDirectoryEntryV1)
    (pageIndexes : List (List ColumnPageIndexEntryV1)) : Except CoveError SegmentMetadata :=
  if columns.length ≠ pageIndexes.length then .error .segmentCorrupt
  else do
    let maxMorselId := (morsels.map RowMorselEntryV1.morselId).foldl max 0
    let morselPositionsById ← SlotTable.place (fun _ => .ok ()) .segmentCorrupt
      RowMorselEntryV1.morselId morsels.zipIdx (List.replicate (maxMorselId + 1) none)
    let preparedColumns ← pageIndexes.mapM (prepareColumn morsels morselPositionsById)
    let columnPositions := SortedList.sortBy Prod.fst
      (columns.map TableColumnDirectoryEntryV1.columnId).zipIdx
    if SortedList.hasRepeat (columnPositions.map Prod.fst) then .error .segmentCorrupt
    else .ok ⟨morsels, morselPositionsById, preparedColumns, columnPositions⟩

/-- `morsel`. -/
def morsel (self : SegmentMetadata) (morselId : Nat) : Except CoveError RowMorselEntryV1 :=
  match SlotTable.look self.morselPositionsById morselId with
  | none => .error .segmentCorrupt
  | some position =>
    match self.morsels[position]? with
    | some entry => .ok entry
    | none => .error .segmentCorrupt

/-- `column`. -/
def column (self : SegmentMetadata) (columnId : Nat) : Except CoveError PreparedSegmentColumn :=
  match BinarySearch.binarySearchByKey columnId Prod.fst self.columnPositions with
  | none => .error .segmentCorrupt
  | some position =>
    match (self.columnPositions[position]?).bind fun p => self.columns[p.2]? with
    | some column => .ok column
    | none => .error .segmentCorrupt

end SegmentMetadata

/-- `page_for_morsel`. -/
def PreparedSegmentColumn.pageForMorsel (column : PreparedSegmentColumn) (morselId : Nat) :
    Except CoveError ColumnPageIndexEntryV1 :=
  match SlotTable.look column.pagePositionsByMorsel morselId with
  | none => .error .pageCorrupt
  | some pagePosition =>
    match column.pageIndex[pagePosition]? with
    | some page => .ok page
    | none => .error .pageCorrupt

/-! ## The parser -/

section

/- The checksum of a byte string. -/
variable (crc32c : List UInt8 → Nat)

/-- The body of the loop over the pages of a column. -/
def checkMetadataPage (requiredFeatures : Nat) (column : TableColumnDirectoryEntryV1)
    (columnDataEnd : Nat) (page : ColumnPageIndexEntryV1) : Except CoveError Unit :=
  if page.columnId ≠ column.columnId then .error .pageCorrupt
  else if pageUsesPayloadElision page.flags &&
      !hasFlag requiredFeatures featurePagePayloadElision then
    .error (.badSection payloadElisionMessage)
  else if page.pageLength ≠ 0 then do
    let pageEnd ← checkedAdd page.pageOffset page.pageLength
    if page.pageOffset < column.dataOffset || pageEnd > columnDataEnd then .error .pageCorrupt
    else .ok ()
  else .ok ()

/-- `column_page_index`. -/
def columnPageIndex (segmentBytes : List UInt8) (column : TableColumnDirectoryEntryV1) :
    Except CoveError (List ColumnPageIndexEntryV1) := do
  let stop ← checkedAdd column.pageIndexOffset column.pageIndexLength
  if stop > segmentBytes.length then .error .offsetRange
  else
    parseColumnPageIndex crc32c
      (fieldBytes segmentBytes column.pageIndexOffset column.pageIndexLength)

/-- The body of the loop over the columns: the page index of a column. -/
def metadataColumn (bytes : List UInt8) (segmentLen requiredFeatures : Nat)
    (header : TableSegmentHeaderV1) (column : TableColumnDirectoryEntryV1) :
    Except CoveError (List ColumnPageIndexEntryV1) := do
  let columnPageIndexEnd ← checkedAdd column.pageIndexOffset column.pageIndexLength
  if column.pageIndexOffset < header.pageIndexOffset || columnPageIndexEnd > header.dataOffset then
    .error .segmentCorrupt
  else
    let columnDataEnd ← checkedAdd column.dataOffset column.dataLength
    if column.dataOffset < header.dataOffset || columnDataEnd > segmentLen then
      .error .pageCorrupt
    else
      let pageIndex ← columnPageIndex crc32c bytes column
      pageIndex.forM (checkMetadataPage requiredFeatures column columnDataEnd)
      .ok pageIndex

/-- `parse_segment_metadata`. -/
def parseSegmentMetadata (bytes : List UInt8) (segmentLen requiredFeatures : Nat) :
    Except CoveError SegmentMetadata := do
  let payload ← readDirectories crc32c bytes
  let pageIndexes ← payload.columns.mapM
    (metadataColumn crc32c bytes segmentLen requiredFeatures payload.header)
  SegmentMetadata.new payload.morsels payload.columns pageIndexes

end

/-! ## What the tables hold -/

variable {page : ColumnPageIndexEntryV1}

variable {pageIndex : List ColumnPageIndexEntryV1}

variable {morselId : Nat}

section

variable {morsels : RowMorselDirectory} {positions : List (Option Nat)}

theorem le_foldl_max {l : List Nat} {a b : Nat} (h : a ≤ b ∨ a ∈ l) : a ≤ l.foldl max b := by
  induction l generalizing b with
  | nil => exact h.resolve_right (List.not_mem_nil)
  | cons x l ih =>
    rw [List.foldl_cons]
    refine ih ?_
    rcases h with h | h
    · exact .inl (by omega)
    · rcases List.mem_cons.mp h with rfl | h
      · exact .inl (by omega)
      · exact .inr h

/-- Every morsel is found under its id, and nothing else is. -/
def PositionsOf (morsels : RowMorselDirectory) (positions : List (Option Nat)) : Prop :=
  ∀ morselId i, SlotTable.look positions morselId = some i ↔
    ∃ morsel, morsels[i]? = some morsel ∧ morsel.morselId = morselId

/-- The loop over the morsels goes through exactly when no two have the same id. -/
theorem place_morsels_isOk_iff :
    (∃ out, SlotTable.place (fun _ => .ok ()) CoveError.segmentCorrupt RowMorselEntryV1.morselId
      morsels.zipIdx (List.replicate
        ((morsels.map RowMorselEntryV1.morselId).foldl max 0 + 1) none) = .ok out) ↔
      (morsels.map RowMorselEntryV1.morselId).Nodup := by
  rw [SlotTable.place_zipIdx_isOk_iff]
  · exact and_iff_right fun _ _ => rfl
  · intro morsel hmem _
    exact Nat.lt_succ_of_le (le_foldl_max (.inr (List.mem_map_of_mem hmem)))

theorem positionsOf_place {out : List (Option Nat)}
    (h : SlotTable.place (fun _ => .ok ()) CoveError.segmentCorrupt RowMorselEntryV1.morselId
      morsels.zipIdx (List.replicate
        ((morsels.map RowMorselEntryV1.morselId).foldl max 0 + 1) none) = .ok out) :
    PositionsOf morsels out := by
  intro morselId i
  refine SlotTable.look_place_zipIdx (fun morsel hmem _ => ?_) h morselId i
  exact Nat.lt_succ_of_le (le_foldl_max (.inr (List.mem_map_of_mem hmem)))

/-- A page passes its check exactly when the morsel with its id has its number of rows. -/
theorem checkPageMorsel_eq_ok (hpos : PositionsOf morsels positions)
    (hids : (morsels.map RowMorselEntryV1.morselId).Nodup) :
    checkPageMorsel morsels positions page = .ok () ↔
      ∃ morsel ∈ morsels, morsel.morselId = page.morselId ∧ morsel.rowCount = page.rowCount := by
  unfold checkPageMorsel
  cases hlook : SlotTable.look positions page.morselId with
  | none =>
    refine iff_of_false nofun ?_
    rintro ⟨morsel, hmem, hid, -⟩
    obtain ⟨i, hi⟩ := List.mem_iff_getElem?.mp hmem
    have hsome := (hpos page.morselId i).mpr ⟨morsel, hi, hid⟩
    rw [hlook] at hsome
    cases hsome
  | some i =>
    obtain ⟨morsel, hi, hid⟩ := (hpos page.morselId i).mp hlook
    show (if _ then _ else _) = _ ↔ _
    rw [hi, Option.map_some, ite_error_eq_ok, Classical.not_not]
    constructor
    · rintro ⟨hrows, -⟩
      exact ⟨morsel, List.mem_of_getElem? hi, hid, Option.some.inj hrows⟩
    · rintro ⟨other, hmem, hother, hrows⟩
      have heq : other = morsel := List.inj_on_of_nodup_map hids hmem
        (List.mem_of_getElem? hi) (hother.trans hid.symm)
      exact ⟨congrArg some (heq ▸ hrows), rfl⟩

/-- The slot of a page that passes its check. -/
theorem morselId_lt_of_checkPageMorsel
    (h : checkPageMorsel morsels positions page = .ok ()) : page.morselId < positions.length := by
  by_contra hge
  unfold checkPageMorsel at h
  rw [SlotTable.look, List.getElem?_eq_none (Nat.le_of_not_lt hge)] at h
  cases h

/-- The pages of a column are placed exactly when each has the rows of its morsel and no two are
of the same morsel. -/
theorem prepareColumn_isOk_iff :
    (∃ column, prepareColumn morsels positions pageIndex = .ok column) ↔
      (∀ page ∈ pageIndex, checkPageMorsel morsels positions page = .ok ()) ∧
        (pageIndex.map ColumnPageIndexEntryV1.morselId).Nodup := by
  have hplace := @SlotTable.place_zipIdx_isOk_iff _ _ (checkPageMorsel morsels positions)
    .pageCorrupt ColumnPageIndexEntryV1.morselId pageIndex positions.length
    fun _ _ h => morselId_lt_of_checkPageMorsel h
  rw [← hplace]
  constructor
  · rintro ⟨column, h⟩
    obtain ⟨out, hout, -⟩ := bind_eq_ok.mp h
    exact ⟨out, hout⟩
  · rintro ⟨out, hout⟩
    exact ⟨_, bind_eq_ok.mpr ⟨out, hout, rfl⟩⟩

/-- **A page is looked up by the id of its morsel.** -/
theorem pageForMorsel_eq_ok
    {column : PreparedSegmentColumn} (h : prepareColumn morsels positions pageIndex = .ok column)
    :
    column.pageForMorsel morselId = .ok page ↔ page ∈ pageIndex ∧ page.morselId = morselId := by
  have hnodup := (prepareColumn_isOk_iff.mp ⟨column, h⟩).2
  obtain ⟨out, hout, h⟩ := bind_eq_ok.mp h
  obtain rfl := Except.ok.inj h
  have hlook := SlotTable.look_place_zipIdx (fun _ _ h => morselId_lt_of_checkPageMorsel h) hout
  unfold PreparedSegmentColumn.pageForMorsel
  dsimp only
  cases hslot : SlotTable.look out morselId with
  | none =>
    refine iff_of_false nofun ?_
    rintro ⟨hmem, hid⟩
    obtain ⟨i, hi⟩ := List.mem_iff_getElem?.mp hmem
    have hsome := (hlook morselId i).mpr ⟨page, hi, hid⟩
    rw [hslot] at hsome
    cases hsome
  | some i =>
    obtain ⟨found, hi, hid⟩ := (hlook morselId i).mp hslot
    dsimp only
    rw [hi]
    constructor
    · intro hpage
      obtain rfl := Except.ok.inj hpage
      exact ⟨List.mem_of_getElem? hi, hid⟩
    · rintro ⟨hmem, hpage⟩
      have heq : found = page := List.inj_on_of_nodup_map hnodup (List.mem_of_getElem? hi) hmem
        (hid.trans hpage.symm)
      exact congrArg _ heq

/-- The check of neighbours after sorting finds exactly the columns that share an id. -/
theorem hasRepeat_columnPositions {columns : List TableColumnDirectoryEntryV1} :
    SortedList.hasRepeat ((SortedList.sortBy Prod.fst
      (columns.map TableColumnDirectoryEntryV1.columnId).zipIdx).map Prod.fst) = false ↔
      (columns.map TableColumnDirectoryEntryV1.columnId).Nodup := by
  have hperm : ((SortedList.sortBy Prod.fst
      (columns.map TableColumnDirectoryEntryV1.columnId).zipIdx).map Prod.fst).Perm
      (columns.map TableColumnDirectoryEntryV1.columnId) := by
    have h := (List.perm_insertionSort (fun a b => a.1 ≤ b.1)
      (columns.map TableColumnDirectoryEntryV1.columnId).zipIdx).map Prod.fst
    rwa [List.zipIdx_map_fst] at h
  have hsorted := SortedList.pairwise_sortBy_fst
    (columns.map TableColumnDirectoryEntryV1.columnId).zipIdx
  rw [SortedList.hasRepeat_eq_false_iff hsorted, ← hperm.nodup_iff]
  refine ⟨fun h => h.imp ne_of_lt, fun h => ?_⟩
  exact (hsorted.and h).imp fun hab => hab.1.lt_of_ne hab.2

/-- The tables are built exactly when no id repeats and every page has the rows of its morsel. -/
theorem SegmentMetadata.new_isOk_iff {columns : List TableColumnDirectoryEntryV1}
    {pageIndexes : List (List ColumnPageIndexEntryV1)}
    (hlen : columns.length = pageIndexes.length) :
    (∃ segment, SegmentMetadata.new morsels columns pageIndexes = .ok segment) ↔
      (morsels.map RowMorselEntryV1.morselId).Nodup ∧
      (columns.map TableColumnDirectoryEntryV1.columnId).Nodup ∧
      ∀ pages ∈ pageIndexes, (pages.map ColumnPageIndexEntryV1.morselId).Nodup ∧
        ∀ page ∈ pages, ∃ morsel ∈ morsels,
          morsel.morselId = page.morselId ∧ morsel.rowCount = page.rowCount := by
  unfold SegmentMetadata.new
  rw [if_neg (not_not_intro hlen)]
  have hsorted := @hasRepeat_columnPositions columns
  constructor
  · rintro ⟨segment, h⟩
    obtain ⟨positions, hplace, h⟩ := bind_eq_ok.mp h
    obtain ⟨prepared, hprepared, h⟩ := bind_eq_ok.mp h
    obtain ⟨hrepeat, -⟩ := ite_error_eq_ok.mp h
    have hids := place_morsels_isOk_iff.mp ⟨positions, hplace⟩
    refine ⟨hids, hsorted.mp (Bool.eq_false_iff.mpr hrepeat), fun pages hpages => ?_⟩
    obtain ⟨column, -, hcolumn⟩ := exists_of_mapM_mem hprepared hpages
    obtain ⟨hpage, hnodup⟩ := prepareColumn_isOk_iff.mp ⟨column, hcolumn⟩
    exact ⟨hnodup, fun page hmem =>
      (checkPageMorsel_eq_ok (positionsOf_place hplace) hids).mp (hpage page hmem)⟩
  · rintro ⟨hids, hcolumns, hpages⟩
    obtain ⟨positions, hplace⟩ := place_morsels_isOk_iff.mpr hids
    obtain ⟨prepared, hprepared⟩ : ∃ prepared,
        pageIndexes.mapM (prepareColumn morsels positions) = .ok prepared := by
      simp only [mapM_eq_ok]
      refine exists_forall₂ fun pages hmem => prepareColumn_isOk_iff.mpr ⟨fun page hpage => ?_, ?_⟩
      · exact (checkPageMorsel_eq_ok (positionsOf_place hplace) hids).mpr
          ((hpages pages hmem).2 page hpage)
      · exact (hpages pages hmem).1
    refine ⟨_, bind_eq_ok.mpr ⟨positions, hplace, bind_eq_ok.mpr ⟨prepared, hprepared,
      ite_error_eq_ok.mpr ⟨?_, rfl⟩⟩⟩⟩
    exact Bool.eq_false_iff.mp (hsorted.mpr hcolumns)

variable {columns : List TableColumnDirectoryEntryV1}
  {pageIndexes : List (List ColumnPageIndexEntryV1)} {segment : SegmentMetadata}

/-- The tables of a segment, from how they were built. -/
theorem SegmentMetadata.of_new (h : SegmentMetadata.new morsels columns pageIndexes = .ok segment) :
    segment.morsels = morsels ∧ PositionsOf morsels segment.morselPositionsById ∧
      pageIndexes.mapM (prepareColumn morsels segment.morselPositionsById) = .ok segment.columns ∧
      segment.columnPositions = SortedList.sortBy Prod.fst
        (columns.map TableColumnDirectoryEntryV1.columnId).zipIdx := by
  unfold SegmentMetadata.new at h
  obtain ⟨-, h⟩ := ite_error_eq_ok.mp h
  obtain ⟨positions, hplace, h⟩ := bind_eq_ok.mp h
  obtain ⟨prepared, hprepared, h⟩ := bind_eq_ok.mp h
  obtain ⟨-, h⟩ := ite_error_eq_ok.mp h
  obtain rfl := Except.ok.inj h
  exact ⟨rfl, positionsOf_place hplace, hprepared, rfl⟩

theorem SegmentMetadata.new_ids_nodup
    (h : SegmentMetadata.new morsels columns pageIndexes = .ok segment) :
    (morsels.map RowMorselEntryV1.morselId).Nodup ∧
      (columns.map TableColumnDirectoryEntryV1.columnId).Nodup := by
  have hlen : columns.length = pageIndexes.length := by
    unfold SegmentMetadata.new at h
    exact Classical.not_not.mp (ite_error_eq_ok.mp h).1
  obtain ⟨hids, hcolumns, -⟩ := (SegmentMetadata.new_isOk_iff hlen).mp ⟨segment, h⟩
  exact ⟨hids, hcolumns⟩

/-- **A morsel is looked up by its id.** -/
theorem SegmentMetadata.morsel_eq_ok
    (h : SegmentMetadata.new morsels columns pageIndexes = .ok segment)
    {morsel : RowMorselEntryV1} :
    segment.morsel morselId = .ok morsel ↔ morsel ∈ morsels ∧ morsel.morselId = morselId := by
  obtain ⟨hids, -⟩ := SegmentMetadata.new_ids_nodup h
  obtain ⟨hmorsels, hpos, -, -⟩ := SegmentMetadata.of_new h
  unfold SegmentMetadata.morsel
  rw [hmorsels]
  cases hlook : SlotTable.look segment.morselPositionsById morselId with
  | none =>
    refine iff_of_false nofun ?_
    rintro ⟨hmem, hid⟩
    obtain ⟨i, hi⟩ := List.mem_iff_getElem?.mp hmem
    have hsome := (hpos morselId i).mpr ⟨morsel, hi, hid⟩
    rw [hlook] at hsome
    cases hsome
  | some i =>
    obtain ⟨found, hi, hid⟩ := (hpos morselId i).mp hlook
    dsimp only
    rw [hi]
    constructor
    · intro hmorsel
      obtain rfl := Except.ok.inj hmorsel
      exact ⟨List.mem_of_getElem? hi, hid⟩
    · rintro ⟨hmem, hmorsel⟩
      exact congrArg _ (List.inj_on_of_nodup_map hids (List.mem_of_getElem? hi) hmem
        (hid.trans hmorsel.symm))

/-- A column is looked up by its id. -/
theorem SegmentMetadata.column_eq_ok
    (h : SegmentMetadata.new morsels columns pageIndexes = .ok segment) {columnId : Nat}
    {prepared : PreparedSegmentColumn} :
    segment.column columnId = .ok prepared ↔
      ∃ (i : Nat) (column : TableColumnDirectoryEntryV1), columns[i]? = some column ∧
        column.columnId = columnId ∧ segment.columns[i]? = some prepared := by
  obtain ⟨-, hcolumns⟩ := SegmentMetadata.new_ids_nodup h
  obtain ⟨-, -, hprepared, hpositions⟩ := SegmentMetadata.of_new h
  have hsorted : segment.columnPositions.Pairwise fun a b => a.1 < b.1 := by
    have hle := SortedList.pairwise_sortBy_fst
      (columns.map TableColumnDirectoryEntryV1.columnId).zipIdx
    have hlt := (SortedList.hasRepeat_eq_false_iff hle).mp (hasRepeat_columnPositions.mpr hcolumns)
    rw [hpositions]
    exact List.pairwise_map.mp hlt
  have hmem : ∀ p : Nat × Nat, p ∈ segment.columnPositions ↔
      ∃ column, columns[p.2]? = some column ∧ column.columnId = p.1 := by
    intro p
    rw [hpositions, List.mem_insertionSort, List.mem_zipIdx_iff_getElem?, List.getElem?_map,
      Option.map_eq_some_iff]
  unfold SegmentMetadata.column
  cases hfound : BinarySearch.binarySearchByKey columnId Prod.fst segment.columnPositions with
  | none =>
    refine iff_of_false nofun ?_
    rintro ⟨i, column, hi, hid, -⟩
    obtain ⟨position, hsome, -⟩ := BinarySearch.binarySearchByKey_of_mem hsorted
      ((hmem (columnId, i)).mpr ⟨column, hi, hid⟩)
    rw [hfound] at hsome
    cases hsome
  | some position =>
    obtain ⟨p, hp, hkey⟩ := BinarySearch.binarySearchByKey_eq_some hfound
    obtain ⟨column, hi, hid⟩ := (hmem p).mp (List.mem_of_getElem? hp)
    dsimp only
    rw [hp, Option.bind_some]
    constructor
    · intro hcolumn
      refine ⟨p.2, column, hi, hid.trans hkey, ?_⟩
      cases hget : segment.columns[p.2]? with
      | none =>
        rw [hget] at hcolumn
        cases hcolumn
      | some found =>
        rw [hget] at hcolumn
        exact congrArg some (Except.ok.inj hcolumn)
    · rintro ⟨i, other, hother, hotherId, hget⟩
      -- the ids of the columns are distinct, so their positions agree
      have hpos : p = (columnId, i) := BinarySearch.eq_of_key hsorted (List.mem_of_getElem? hp)
        ((hmem (columnId, i)).mpr ⟨other, hother, hotherId⟩) hkey
      rw [hpos, hget]

end

end Cove.SegmentPayload
