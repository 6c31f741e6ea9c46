import Cove.DataFusion.TaskSchedule

/-!
# The rows of a scan, morsel by morsel

- `rows_of_decodeLocalDatasetScan`: **a scan of the dataset emits the rows of its morsels**,
  in some order.
- `decodePartitions_eq_ok`: the partitions of a graph emit the rows of its tasks.
- `decodePlace_ruledOut`: a morsel that is ruled out has no rows.
-/

namespace Cove

open Checked

/-! ## Announced morsels -/

/-- The announced entry of a morsel. -/
def TableSegmentIndexEntryV1.morselEntry (segment : TableSegmentIndexEntryV1) (morselId : Nat) :
    RowMorselEntryV1 :=
  ⟨morselId, morselId * segment.morselRowCount,
    min (segment.rowCount - morselId * segment.morselRowCount) segment.morselRowCount⟩

section

variable {segment : TableSegmentIndexEntryV1} {entries : List RowMorselEntryV1} {morselId : Nat}

theorem morselEntries_eq (segment : TableSegmentIndexEntryV1) :
    segment.morselEntries = (List.range segment.morselCount).map segment.morselEntry := rfl

theorem find?_morselEntries (hlt : morselId < segment.morselCount) :
    segment.morselEntries.find? (fun morsel => morsel.morselId == morselId) =
      some (segment.morselEntry morselId) := by
  have hids : segment.morselEntries.map RowMorselEntryV1.morselId =
      List.range segment.morselCount := by
    rw [morselEntries_eq, List.map_map]
    exact List.map_id _
  refine AssocMap.find?_key (k := RowMorselEntryV1.morselId) (hids ▸ List.nodup_range)
    (a := segment.morselEntry morselId) ?_
  exact List.mem_map_of_mem (List.mem_range.mpr hlt)

namespace RowMorselDirectory

variable (hdir : RowMorselDirectory segment entries)

include hdir

/-- A morsel starts within its segment. -/
theorem start_lt (hlt : morselId < segment.morselCount) :
    morselId * segment.morselRowCount < segment.rowCount := by
  have hpos := hdir.rowCount_pos (segment.morselEntry morselId)
    (hdir.entries_eq ▸ List.mem_map_of_mem (List.mem_range.mpr hlt))
  have hmin : 0 < min (segment.rowCount - morselId * segment.morselRowCount)
    segment.morselRowCount := hpos
  omega

/-- Every morsel that starts within the segment is in the directory. -/
theorem lt_of_start (hstart : morselId * segment.morselRowCount < segment.rowCount) :
    morselId < segment.morselCount := by
  have hle : ∀ n, ((List.range n).map fun m => (segment.morselEntry m).rowCount).sum ≤
      n * segment.morselRowCount := by
    intro n
    induction n with
    | zero => simp
    | succ n ih =>
      rw [List.range_succ, List.map_append, List.sum_append, Nat.succ_mul]
      exact Nat.add_le_add ih (by simp [TableSegmentIndexEntryV1.morselEntry])
  have hsum := hdir.sum_rows
  rw [hdir.entries_eq, morselEntries_eq, List.map_map] at hsum
  have := hle segment.morselCount
  refine Nat.lt_of_mul_lt_mul_right (a := segment.morselRowCount) ?_
  calc morselId * segment.morselRowCount < segment.rowCount := hstart
    _ = _ := hsum.symm
    _ ≤ segment.morselCount * segment.morselRowCount := this

theorem morselRowCountFor_eq (hlt : morselId < segment.morselCount) :
    segment.morselRowCountFor morselId = .ok (segment.morselEntry morselId).rowCount := by
  have hstart := hdir.start_lt hlt
  have := hdir.rowCount_lt
  refine bind_eq_ok.mpr ⟨_, mulU32_eq_ok.mpr ⟨by omega, rfl⟩, ?_⟩
  rw [if_neg (by omega)]
  rfl

end RowMorselDirectory

end

theorem morselRowStart_eq_ok {segment : TableSegmentIndexEntryV1} {morselId rowStart : Nat} :
    segment.morselRowStart morselId = .ok rowStart ↔
      checkedAdd segment.rowStart (segment.morselEntry morselId).firstRowInSegment =
        .ok rowStart := by
  unfold TableSegmentIndexEntryV1.morselRowStart
  rw [bind_eq_ok]
  constructor
  · rintro ⟨start, hstart, h⟩
    obtain ⟨-, rfl⟩ := mulU64_eq_ok.mp hstart
    exact h
  · intro h
    have hlt := (addU64_eq_ok.mp h).1
    have heq : (segment.morselEntry morselId).firstRowInSegment =
      morselId * segment.morselRowCount := rfl
    exact ⟨_, mulU64_eq_ok.mpr ⟨by omega, rfl⟩, h⟩

/-! ## One morsel -/

section

variable {crc32c : List UInt8 → Nat} {file : ScanFile} {fileOrdinal segmentIndex morselId : Nat}
  {segment : TableSegmentIndexEntryV1} {rowSelection : Option (List Nat)} {rows : List ScanRow}

/-- The rows of a morsel are at its place. -/
theorem place_of_decodeMorsel {morsel : RowMorselEntryV1}
    (h : decodeMorsel crc32c file fileOrdinal segmentIndex segment morsel rowSelection = .ok rows) :
    ∀ row ∈ rows, row.place = ⟨fileOrdinal, segmentIndex, morsel.morselId⟩ := by
  unfold decodeMorsel at h
  obtain ⟨rowStart, -, h⟩ := bind_eq_ok.mp h
  obtain ⟨visibility, -, h⟩ := bind_eq_ok.mp h
  obtain ⟨hidden, -, h⟩ := bind_eq_ok.mp h
  split at h
  · exact Except.ok.inj h ▸ nofun
  split at h
  · exact Except.ok.inj h ▸ nofun
  obtain ⟨pruned, -, h⟩ := bind_eq_ok.mp h
  split at h
  · exact Except.ok.inj h ▸ nofun
  obtain ⟨nullPruned, -, h⟩ := bind_eq_ok.mp h
  split at h
  · exact Except.ok.inj h ▸ nofun
  obtain ⟨selected, -, h⟩ := bind_eq_ok.mp h
  obtain ⟨visible, -, h⟩ := bind_eq_ok.mp h
  split at h
  · exact Except.ok.inj h ▸ nofun
  obtain ⟨-, -, h⟩ := bind_eq_ok.mp h
  obtain rfl := Except.ok.inj h
  intro row hrow
  obtain ⟨r, -, rfl⟩ := List.mem_map.mp hrow
  rfl

/-- A morsel that metadata rules out, or cannot answer for, has no rows. -/
theorem decodeMorsel_ruledOut {entries : List RowMorselEntryV1}
    (hdir : RowMorselDirectory segment entries) (hlt : morselId < segment.morselCount)
    (hruled : morselRuledOut crc32c file segment morselId ≠ .ok false)
    (h : decodeMorsel crc32c file fileOrdinal segmentIndex segment (segment.morselEntry morselId)
      rowSelection = .ok rows) : rows = [] := by
  unfold decodeMorsel at h
  obtain ⟨rowStart, hstart, h⟩ := bind_eq_ok.mp h
  obtain ⟨visibility, hvis, h⟩ := bind_eq_ok.mp h
  obtain ⟨hidden, hhidden, h⟩ := bind_eq_ok.mp h
  split at h
  · exact (Except.ok.inj h).symm
  next hshown =>
  split at h
  · exact (Except.ok.inj h).symm
  obtain ⟨pruned, hpruned, h⟩ := bind_eq_ok.mp h
  split at h
  · exact (Except.ok.inj h).symm
  next hkept =>
  -- both queries answer, and neither rules the morsel out
  obtain rfl := Bool.eq_false_iff.mpr hshown
  obtain rfl := Bool.eq_false_iff.mpr hkept
  refine absurd ?_ hruled
  refine bind_eq_ok.mpr ⟨rowStart, morselRowStart_eq_ok.mpr hstart, ?_⟩
  refine bind_eq_ok.mpr ⟨_, hdir.morselRowCountFor_eq hlt, ?_⟩
  refine bind_eq_ok.mpr ⟨visibility, hvis, ?_⟩
  exact bind_eq_ok.mpr ⟨false, hhidden, hpruned⟩

end

/-! ## Places -/

/-- Every morsel of a file. -/
def ScanFile.places (file : ScanFile) (fileOrdinal : Nat) : List MorselPlace :=
  (allVisits file.state.segments).map (Visit.place fileOrdinal)

/-- Every morsel of a dataset. -/
def ScanDataset.places (dataset : ScanDataset) : List MorselPlace :=
  dataset.files.zipIdx.flatMap fun (file, fileOrdinal) => file.places fileOrdinal

section

variable {crc32c : List UInt8 → Nat} {dataset : ScanDataset} {place : MorselPlace}
  {file : ScanFile} {segment : TableSegmentIndexEntryV1} {rowSelection : Option (List Nat)}
  {rows : List ScanRow}

theorem mem_places :
    place ∈ dataset.places ↔ ∃ file segment, dataset.Morsel place file segment := by
  constructor
  · intro h
    obtain ⟨⟨file, fileOrdinal⟩, hfile, h⟩ := List.mem_flatMap.mp h
    obtain ⟨visit, hvisit, rfl⟩ := List.mem_map.mp h
    obtain ⟨hsegment, hlt⟩ := mem_allVisits.mp hvisit
    exact ⟨file, visit.segment, List.mem_zipIdx_iff_getElem?.mp hfile, hsegment, hlt⟩
  · rintro ⟨file, segment, hfile, hsegment, hlt⟩
    refine List.mem_flatMap.mpr ⟨(file, place.fileOrdinal),
      List.mem_zipIdx_iff_getElem?.mpr hfile, List.mem_map.mpr ?_⟩
    exact ⟨⟨place.segmentIndex, segment, place.morselId⟩, mem_allVisits.mpr ⟨hsegment, hlt⟩, rfl⟩

theorem nodup_places (dataset : ScanDataset) : dataset.places.Nodup := by
  refine KeyedParts.nodup_flatMap (k := Prod.snd) (q := MorselPlace.fileOrdinal)
    (List.nodup_zipIdx_map_snd _) ?_ fun x _ => nodup_allVisits x.2
  rintro ⟨file, fileOrdinal⟩ - p hp
  obtain ⟨visit, -, rfl⟩ := List.mem_map.mp hp
  rfl

/-- Where a plan selects no rows, none are read. -/
theorem decodePlace_of_selectsNoRows (hfile : dataset.files[place.fileOrdinal]? = some file)
    (hskip : file.plan.selectsNoRows = true) :
    decodePlace crc32c dataset place rowSelection = .ok [] := by
  unfold decodePlace
  rw [hfile]
  exact if_pos hskip

/-- Elsewhere the morsel is read from the directory. -/
theorem decodePlace_of_morsels (hmorsel : dataset.Morsel place file segment)
    (hread : file.plan.selectsNoRows = false) (hplan : validateScanPlan file = .ok ())
    {entries : List RowMorselEntryV1} (hentries : file.reader.morsels place.segmentIndex = .ok entries) :
    decodePlace crc32c dataset place rowSelection =
      decodeMorsel crc32c file place.fileOrdinal place.segmentIndex segment
        (segment.morselEntry place.morselId) rowSelection := by
  obtain ⟨hfile, hsegment, hlt⟩ := hmorsel
  obtain rfl := (file.directories _ _ _ hsegment hentries).entries_eq
  unfold decodePlace
  rw [hfile]
  simp only [hread, hplan, hsegment, hentries, find?_morselEntries hlt, ok_bind,
    Bool.false_eq_true, if_false]

/-- A morsel that decodes is skipped with its file, or read from the directory. -/
theorem decodeMorsel_of_decodePlace (hmorsel : dataset.Morsel place file segment)
    (h : decodePlace crc32c dataset place rowSelection = .ok rows) :
    rows = [] ∨ ∃ entries, RowMorselDirectory segment entries ∧
      decodeMorsel crc32c file place.fileOrdinal place.segmentIndex segment
        (segment.morselEntry place.morselId) rowSelection = .ok rows := by
  by_cases hskip : file.plan.selectsNoRows = true
  · rw [decodePlace_of_selectsNoRows hmorsel.file_eq hskip] at h
    exact .inl (Except.ok.inj h).symm
  · have hread := Bool.eq_false_iff.mpr hskip
    have h' := h
    unfold decodePlace at h'
    simp only [hmorsel.file_eq, hread, Bool.false_eq_true, if_false] at h'
    obtain ⟨_, hplan, h'⟩ := bind_eq_ok.mp h'
    simp only [hmorsel.segment_eq] at h'
    obtain ⟨entries, hentries, -⟩ := bind_eq_ok.mp h'
    rw [decodePlace_of_morsels hmorsel hread hplan hentries] at h
    exact .inr ⟨entries, file.directories _ _ _ hmorsel.segment_eq hentries, h⟩

theorem decodePlace_ruledOut (hmorsel : dataset.Morsel place file segment)
    (hruled : morselRuledOut crc32c file segment place.morselId ≠ .ok false)
    (h : decodePlace crc32c dataset place rowSelection = .ok rows) : rows = [] := by
  rcases decodeMorsel_of_decodePlace hmorsel h with hnil | ⟨entries, hdir, h⟩
  · exact hnil
  · exact decodeMorsel_ruledOut hdir hmorsel.morselId_lt hruled h

/-- The rows of a place are there. -/
theorem place_of_decodePlace (h : decodePlace crc32c dataset place rowSelection = .ok rows) :
    ∀ row ∈ rows, row.place = place := by
  unfold decodePlace at h
  split at h
  · cases h
  split at h
  · exact Except.ok.inj h ▸ nofun
  obtain ⟨-, -, h⟩ := bind_eq_ok.mp h
  split at h
  · cases h
  obtain ⟨morsels, -, h⟩ := bind_eq_ok.mp h
  split at h
  · cases h
  · next morsel hmorsel =>
    have hid : morsel.morselId = place.morselId := by
      simpa using List.find?_some hmorsel
    have hplace := place_of_decodeMorsel h
    rw [hid] at hplace
    exact hplace

end

/-! ## The scan of the dataset -/

/-- The rows of a place, none when it does not decode. -/
def rowsAt (crc32c : List UInt8 → Nat) (dataset : ScanDataset) (place : MorselPlace) :
    List ScanRow := elements (decodePlace crc32c dataset place none)

theorem orderedMorsels_perm (plan : FileScanPlan) (segmentIndex : Nat)
    (entries : List RowMorselEntryV1) :
    (orderedMorsels plan segmentIndex entries).Perm entries := by
  unfold orderedMorsels
  split
  · exact List.Perm.refl _
  · exact List.mergeSort_perm _ _

section

variable {crc32c : List UInt8 → Nat} {dataset : ScanDataset} {file : ScanFile} {fileOrdinal : Nat}

variable {rows : List ScanRow}

variable {segment : TableSegmentIndexEntryV1}

variable {segmentIndex : Nat}

/-- The rows of the morsels are those of the visits. -/
theorem decodes_segment (hfile : dataset.files[fileOrdinal]? = some file)
    (hread : file.plan.selectsNoRows = false) (hplan : validateScanPlan file = .ok ())
    (hsegment : file.state.segments[segmentIndex]? = some segment)
    (h : decodeSegment crc32c file fileOrdinal (segment, segmentIndex) = .ok rows) :
    (∃ entries, file.reader.morsels segmentIndex = .ok entries) ∧
      (∀ m < segment.morselCount, ∃ rs,
        decodePlace crc32c dataset ⟨fileOrdinal, segmentIndex, m⟩ none = .ok rs) ∧
      rows.Perm ((List.range segment.morselCount).flatMap fun m =>
        rowsAt crc32c dataset ⟨fileOrdinal, segmentIndex, m⟩) := by
  obtain ⟨entries, hentries, h⟩ := bind_eq_ok.mp h
  obtain ⟨hall, rfl⟩ := mapM_flatten_eq_ok.mp h
  have hperm := orderedMorsels_perm file.plan segmentIndex entries
  obtain rfl := (file.directories _ _ _ hsegment hentries).entries_eq
  have hplace : ∀ m < segment.morselCount, decodePlace crc32c dataset ⟨fileOrdinal, segmentIndex, m⟩
      none = decodeMorsel crc32c file fileOrdinal segmentIndex segment (segment.morselEntry m) none :=
    fun m hm => decodePlace_of_morsels ⟨hfile, hsegment, hm⟩ hread hplan hentries
  refine ⟨⟨_, hentries⟩, fun m hm => ?_, ?_⟩
  · rw [hplace m hm]
    exact hall _ (hperm.mem_iff.mpr (List.mem_map_of_mem (List.mem_range.mpr hm)))
  · refine (hperm.flatMap_right _).trans (List.Perm.of_eq ?_)
    rw [morselEntries_eq, List.flatMap_map]
    refine List.flatMap_congr fun m hm => ?_
    rw [rowsAt, hplace m (List.mem_range.mp hm)]

/-- A file that is read decodes morsel by morsel. -/
theorem decodes_file (hfile : dataset.files[fileOrdinal]? = some file)
    (h : (if file.plan.selectsNoRows then .ok [] else decodeScan crc32c file fileOrdinal) =
      .ok rows) :
    (file.plan.selectsNoRows = false → ∀ segmentIndex segment,
        file.state.segments[segmentIndex]? = some segment →
        ∃ entries, file.reader.morsels segmentIndex = .ok entries) ∧
      (∀ place ∈ file.places fileOrdinal, ∃ rs, decodePlace crc32c dataset place none = .ok rs) ∧
      rows.Perm ((file.places fileOrdinal).flatMap (rowsAt crc32c dataset)) := by
  by_cases hskip : file.plan.selectsNoRows = true
  · rw [if_pos hskip] at h
    have hplace : ∀ place ∈ file.places fileOrdinal,
        decodePlace crc32c dataset place none = .ok [] := by
      intro place hplace
      obtain ⟨visit, -, rfl⟩ := List.mem_map.mp hplace
      exact decodePlace_of_selectsNoRows hfile hskip
    refine ⟨fun hread => absurd (hread.symm.trans hskip) Bool.false_ne_true,
      fun place hp => ⟨[], hplace place hp⟩, ?_⟩
    have hnil : (file.places fileOrdinal).flatMap (rowsAt crc32c dataset) = [] :=
      List.flatMap_eq_nil_iff.mpr fun place hp => by rw [rowsAt, hplace place hp]; rfl
    rw [hnil, ← Except.ok.inj h]
  · have hread := Bool.eq_false_iff.mpr hskip
    rw [if_neg hskip] at h
    obtain ⟨_, hplan, h⟩ := bind_eq_ok.mp h
    obtain ⟨hall, rfl⟩ := mapM_flatten_eq_ok.mp h
    have hsegments : ∀ x ∈ file.state.segments.zipIdx,
        (∃ entries, file.reader.morsels x.2 = .ok entries) ∧
          (∀ m < x.1.morselCount, ∃ rs,
            decodePlace crc32c dataset ⟨fileOrdinal, x.2, m⟩ none = .ok rs) ∧
          (elements (decodeSegment crc32c file fileOrdinal x)).Perm
            ((List.range x.1.morselCount).flatMap fun m =>
              rowsAt crc32c dataset ⟨fileOrdinal, x.2, m⟩) := by
      rintro ⟨segment, segmentIndex⟩ hx
      obtain ⟨rs, hrs⟩ := hall _ hx
      have hdecodes := decodes_segment hfile hread hplan
        (List.mem_zipIdx_iff_getElem?.mp hx) hrs
      rw [hrs]
      exact hdecodes
    refine ⟨fun _ segmentIndex segment hsegment => ?_, fun place hplace => ?_, ?_⟩
    · exact (hsegments (segment, segmentIndex) (List.mem_zipIdx_iff_getElem?.mpr hsegment)).1
    · obtain ⟨visit, hvisit, rfl⟩ := List.mem_map.mp hplace
      obtain ⟨hsegment, hlt⟩ := mem_allVisits.mp hvisit
      exact (hsegments (visit.segment, visit.segmentIndex)
        (List.mem_zipIdx_iff_getElem?.mpr hsegment)).2.1 _ hlt
    · refine (List.Perm.flatMap_left _ fun x hx => (hsegments x hx).2.2).trans (List.Perm.of_eq ?_)
      rw [ScanFile.places, List.flatMap_map, allVisits, List.flatMap_assoc]
      refine List.flatMap_congr fun x _ => ?_
      rw [List.flatMap_map]
      rfl

/-- A scan of the dataset emits the rows of its morsels. -/
theorem rows_of_decodeLocalDatasetScan (h : decodeLocalDatasetScan crc32c dataset = .ok rows) :
    (∀ place ∈ dataset.places, ∃ rs, decodePlace crc32c dataset place none = .ok rs) ∧
      rows.Perm (dataset.places.flatMap (rowsAt crc32c dataset)) := by
  obtain ⟨hall, rfl⟩ := mapM_flatten_eq_ok.mp h
  have hfiles : ∀ x ∈ dataset.files.zipIdx,
      (∀ place ∈ x.1.places x.2, ∃ rs, decodePlace crc32c dataset place none = .ok rs) ∧
        (elements (if x.1.plan.selectsNoRows then .ok [] else decodeScan crc32c x.1 x.2)).Perm
          ((x.1.places x.2).flatMap (rowsAt crc32c dataset)) := by
    rintro ⟨file, fileOrdinal⟩ hx
    obtain ⟨rs, hrs⟩ := hall _ hx
    have hrs : (if file.plan.selectsNoRows then .ok [] else
      decodeScan crc32c file fileOrdinal) = .ok rs := hrs
    dsimp only
    rw [hrs]
    exact (decodes_file (List.mem_zipIdx_iff_getElem?.mp hx) hrs).2
  refine ⟨fun place hplace => ?_, ?_⟩
  · obtain ⟨x, hx, hplace⟩ := List.mem_flatMap.mp hplace
    exact (hfiles x hx).1 place hplace
  · refine (List.Perm.flatMap_left _ fun x hx => (hfiles x hx).2).trans (List.Perm.of_eq ?_)
    rw [ScanDataset.places, List.flatMap_assoc]

/-- The directories of a scanned file were read. -/
theorem morsels_of_decodeLocalDatasetScan (h : decodeLocalDatasetScan crc32c dataset = .ok rows)
    (hfile : dataset.files[fileOrdinal]? = some file) (hread : file.plan.selectsNoRows = false)
    (hsegment : file.state.segments[segmentIndex]? = some segment) :
    ∃ entries, file.reader.morsels segmentIndex = .ok entries := by
  obtain ⟨hall, -⟩ := mapM_flatten_eq_ok.mp h
  obtain ⟨rs, hrs⟩ := hall (file, fileOrdinal) (List.mem_zipIdx_iff_getElem?.mpr hfile)
  exact (decodes_file hfile hrs).1 hread segmentIndex segment hsegment

/-! ## The partitions -/

/-- The partitions emit the rows of their tasks, or fail with one of them. -/
theorem decodePartitions_eq_ok {partitions : List (List ScanTask)} :
    decodePartitions crc32c dataset partitions = .ok rows ↔
      (∀ task ∈ partitions.flatten, ∃ rs, decodeTask crc32c dataset task = .ok rs) ∧
        rows = partitions.flatten.flatMap fun task => elements (decodeTask crc32c dataset task) := by
  have hpartition : ∀ tasks out, decodeLocalDatasetScanTasks crc32c dataset tasks = .ok out ↔
      (∀ task ∈ tasks, ∃ rs, decodeTask crc32c dataset task = .ok rs) ∧
        out = tasks.flatMap fun task => elements (decodeTask crc32c dataset task) :=
    fun tasks out => mapM_flatten_eq_ok
  have hparts : (∀ tasks ∈ partitions, ∃ out,
        decodeLocalDatasetScanTasks crc32c dataset tasks = .ok out) ↔
      ∀ task ∈ partitions.flatten, ∃ rs, decodeTask crc32c dataset task = .ok rs := by
    constructor
    · intro h task htask
      obtain ⟨tasks, htasks, htask⟩ := List.mem_flatten.mp htask
      obtain ⟨out, hout⟩ := h tasks htasks
      exact ((hpartition tasks out).mp hout).1 task htask
    · intro h tasks htasks
      exact ⟨_, (hpartition tasks _).mpr
        ⟨fun task htask => h task (List.mem_flatten.mpr ⟨tasks, htasks, htask⟩), rfl⟩⟩
  refine mapM_flatten_eq_ok.trans ?_
  rw [hparts]
  refine and_congr_right fun hall => ?_
  have hflat : (partitions.flatMap fun tasks =>
      elements (decodeLocalDatasetScanTasks crc32c dataset tasks)) =
      partitions.flatten.flatMap fun task => elements (decodeTask crc32c dataset task) := by
    rw [← List.flatMap_id (L := partitions), List.flatMap_assoc]
    refine List.flatMap_congr fun tasks htasks => ?_
    rw [(hpartition tasks _).mpr ⟨fun task htask =>
      hall task (List.mem_flatten.mpr ⟨tasks, htasks, htask⟩), rfl⟩]
    rfl
  rw [hflat]

end

end Cove
