import Cove.DataFusion.RowrefTasks

/-!
# A task graph against the scan of the dataset

A scan can run as one pass over the dataset or as the partitions of a task graph. The split
index only says how to cut the work up, so both are meant to emit the same rows.

- `SchedulesScan`: every morsel that is neither pruned nor fully hidden is in one task, every
  task in one partition, and the partitions emit the rows of the scan.
- `TilesScan`: the condition. The scheduler takes a split for a rectangle of segment ids and
  morsel ids, where loading it was about consecutive morsels.
- `schedulesScan_iff`: **the graph schedules the scan exactly under that condition**.
- `split_across_segments_loses_rows`: an accepted split that starts inside a segment and ends
  in the next one.
-/

namespace Cove

open Checked

/-! ## The statement -/

section

variable (crc32c : List UInt8 → Nat) (dataset : ScanDataset)

/-- The row references of the lookup indexes, where the planner allows them. -/
def ScanDataset.rowrefs : Except CoveError (Option (List (Option ScanTask))) :=
  if dataset.lookupRowrefEligible then rowrefOutcomes 0 dataset.files else .ok none

/-- Row references drive the scan. -/
def ScanDataset.UsesRowrefs : Prop := ∃ outcomes, dataset.rowrefs = .ok (some outcomes)

/-- A morsel of the dataset that is neither pruned nor fully hidden. Where row references
drive the scan, a morsel without a listed row counts as pruned. -/
def ScanDataset.Kept (place : MorselPlace) : Prop :=
  ∃ file segment, dataset.Morsel place file segment ∧
    morselRuledOut crc32c file segment place.morselId = .ok false ∧
    (dataset.UsesRowrefs → ∃ listed, listedRows file = .ok (some listed) ∧
      ∃ r ∈ listed, r.key.place place.fileOrdinal = place)

/-- The graph schedules the scan. -/
def SchedulesScan : Prop :=
  ∃ graph, buildTaskGraph crc32c dataset = .ok graph ∧
    (∀ place, dataset.Kept crc32c place → (graph.tasks.map ScanTask.place).count place = 1) ∧
    graph.partitions.flatten.Perm graph.tasks ∧
    ∀ rows, decodeLocalDatasetScan crc32c dataset = .ok rows →
      ∃ rows', decodePartitions crc32c dataset graph.partitions = .ok rows' ∧ rows'.Perm rows

/-- In every morsel the listed rows are those the scan selects. -/
def ListsSelectedRows : Prop :=
  ∀ place file segment, dataset.Morsel place file segment → file.plan.selectsNoRows = false →
    ∀ listed, listedRows file = .ok (some listed) →
      ∃ rows, decodePlace crc32c dataset place
          (some (listedAt listed place.segmentIndex place.morselId)) = .ok rows ∧
        rows.Perm (rowsAt crc32c dataset place)

/-- The condition: where row references drive the scan they list the rows it selects;
otherwise the metadata answers at every visited morsel, and a morsel that is not ruled out
is named by exactly one split of its file. -/
structure TilesScan : Prop where
  resolved : ∃ outcomes, dataset.rowrefs = .ok outcomes
  listed : dataset.UsesRowrefs → ∀ rows, decodeLocalDatasetScan crc32c dataset = .ok rows →
    ListsSelectedRows crc32c dataset
  schedulable : ¬ dataset.UsesRowrefs → ∀ file ∈ dataset.files, file.Schedulable crc32c
  tiled : ¬ dataset.UsesRowrefs → ∀ place file segment, dataset.Morsel place file segment →
    morselRuledOut crc32c file segment place.morselId = .ok false →
    file.visitCount segment place.morselId = 1

end

/-! ## Scheduling morsels -/

variable {rows : List ScanRow} {key : RowrefMorselKey} {segment : TableSegmentIndexEntryV1}

variable {fileOrdinal : Nat} {listed : List ListedRow}

section

variable {crc32c : List UInt8 → Nat} {dataset : ScanDataset}

theorem buildTaskGraph_of_morsels (h : dataset.rowrefs = .ok none) :
    buildTaskGraph crc32c dataset = buildMorselTaskGraph crc32c dataset := by
  unfold ScanDataset.rowrefs at h
  unfold buildTaskGraph
  split
  · next heligible =>
    rw [if_pos heligible] at h
    unfold buildLookupRowrefTaskGraph
    rw [h]
    rfl
  · rfl

/-- With every kept morsel scheduled once, the tasks emit the rows of the scan. -/
theorem rows_of_tiled {tasks : List ScanTask} (hnone : ∀ task ∈ tasks, task.rowSelection = none)
    (hplaces : tasks.map ScanTask.place = dataset.scheduledPlaces crc32c)
    (htiled : ∀ place file segment, dataset.Morsel place file segment →
      morselRuledOut crc32c file segment place.morselId = .ok false →
      file.visitCount segment place.morselId = 1)
    (hrows : decodeLocalDatasetScan crc32c dataset = .ok rows) :
    (∀ task ∈ tasks, ∃ rs, decodeTask crc32c dataset task = .ok rs) ∧
      (tasks.flatMap fun task => elements (decodeTask crc32c dataset task)).Perm rows := by
  obtain ⟨hall, hperm⟩ := rows_of_decodeLocalDatasetScan hrows
  have htask : ∀ task ∈ tasks, decodeTask crc32c dataset task =
      decodePlace crc32c dataset task.place none := by
    intro task hmem
    rw [decodeTask, hnone task hmem]
  have hmem : ∀ place ∈ dataset.scheduledPlaces crc32c, place ∈ dataset.places := by
    intro place hplace
    obtain ⟨file, segment, hmorsel, -⟩ := mem_scheduledPlaces hplace
    exact mem_places.mpr ⟨file, segment, hmorsel⟩
  refine ⟨fun task ht => ?_, ?_⟩
  · rw [htask task ht]
    exact hall _ (hmem _ (hplaces ▸ List.mem_map_of_mem ht))
  · have hflat : (tasks.flatMap fun task => elements (decodeTask crc32c dataset task)) =
        (dataset.scheduledPlaces crc32c).flatMap (rowsAt crc32c dataset) := by
      rw [← hplaces, List.flatMap_map]
      refine List.flatMap_congr fun task ht => ?_
      rw [htask task ht]
      rfl
    rw [hflat]
    refine List.Perm.trans ?_ hperm.symm
    refine KeyedParts.flatMap_perm ?_ (nodup_places dataset)
      (fun place hplace hout => absurd (hmem place hplace) hout) fun place hplace hout => ?_
    · refine List.nodup_iff_count_le_one.mpr fun place => ?_
      by_cases hplace : place ∈ dataset.scheduledPlaces crc32c
      · obtain ⟨file, segment, hmorsel, hkept⟩ := mem_scheduledPlaces hplace
        rw [count_scheduledPlaces hmorsel hkept, htiled place file segment hmorsel hkept]
      · rw [List.count_eq_zero_of_not_mem hplace]
        exact Nat.zero_le _
    · -- an unscheduled morsel is ruled out, so it has no rows
      obtain ⟨file, segment, hmorsel⟩ := mem_places.mp hplace
      obtain ⟨rs, hrs⟩ := hall place hplace
      rw [rowsAt, hrs]
      refine decodePlace_ruledOut hmorsel (fun hkept => hout ?_) hrs
      have hcount := count_scheduledPlaces hmorsel hkept
      rw [htiled place file segment hmorsel hkept] at hcount
      exact List.count_pos_iff.mp (hcount ▸ Nat.one_pos)

/-- A scan that visits the morsels. -/
theorem schedulesScan_of_morsels (h : dataset.rowrefs = .ok none) :
    SchedulesScan crc32c dataset ↔ (∀ file ∈ dataset.files, file.Schedulable crc32c) ∧
      ∀ place file segment, dataset.Morsel place file segment →
        morselRuledOut crc32c file segment place.morselId = .ok false →
        file.visitCount segment place.morselId = 1 := by
  have hno : ¬ dataset.UsesRowrefs := by
    rintro ⟨outcomes, hout⟩
    rw [h] at hout
    cases hout
  unfold SchedulesScan
  rw [buildTaskGraph_of_morsels h]
  constructor
  · rintro ⟨graph, hgraph, honce, -, -⟩
    obtain ⟨hschedulable, -, -, hplaces⟩ := tasks_of_buildMorselTaskGraph hgraph
    refine ⟨hschedulable, fun place file segment hmorsel hkept => ?_⟩
    rw [← count_scheduledPlaces hmorsel hkept, ← hplaces]
    exact honce place ⟨file, segment, hmorsel, hkept, fun h => absurd h hno⟩
  · rintro ⟨hschedulable, htiled⟩
    obtain ⟨graph, hgraph⟩ := buildMorselTaskGraph_of_schedulable hschedulable
    obtain ⟨-, hpartitions, hnone, hplaces⟩ := tasks_of_buildMorselTaskGraph hgraph
    refine ⟨graph, hgraph, ?_, hpartitions, fun rows hrows => ?_⟩
    · rintro place ⟨file, segment, hmorsel, hkept, -⟩
      rw [hplaces, count_scheduledPlaces hmorsel hkept, htiled place file segment hmorsel hkept]
    · obtain ⟨hall, hperm⟩ := rows_of_tiled hnone hplaces htiled hrows
      refine ⟨_, decodePartitions_eq_ok.mpr ⟨fun task ht => ?_, rfl⟩, ?_⟩
      · exact hall task (hpartitions.mem_iff.mp ht)
      · exact (hpartitions.flatMap_right _).trans hperm

/-! ## Scheduling row references -/

/-- A morsel that is not ruled out is not fully hidden, as its key has it. -/
theorem allHidden_of_ruledOut {file : ScanFile} (hvalid : key.Valid file)
    (hsegment : file.state.segments[key.segmentIndex]? = some segment)
    (h : morselRuledOut crc32c file segment key.morselId = .ok false) :
    key.allHidden file = .ok false := by
  obtain ⟨segment', hsegment', -, hstart, hcount⟩ := hvalid
  obtain rfl : segment = segment' := Option.some.inj (hsegment.symm.trans hsegment')
  obtain ⟨rowStart, hstart', h⟩ := bind_eq_ok.mp h
  obtain ⟨rowCount, hcount', h⟩ := bind_eq_ok.mp h
  obtain ⟨visibility, hvis, h⟩ := bind_eq_ok.mp h
  obtain ⟨hidden, hhidden, h⟩ := bind_eq_ok.mp h
  obtain rfl := Except.ok.inj (hstart.symm.trans hstart')
  obtain rfl := Except.ok.inj (hcount.symm.trans hcount')
  cases hidden with
  | true => cases h
  | false => exact bind_eq_ok.mpr ⟨visibility, hvis, hhidden⟩

/-- A listed morsel is in the directory that was read. -/
theorem morsel_of_valid {file : ScanFile}
    (hfile : dataset.files[fileOrdinal]? = some file) (hread : file.plan.selectsNoRows = false)
    (hvalid : key.Valid file)
    (hrows : decodeLocalDatasetScan crc32c dataset = .ok rows) :
    ∃ segment, dataset.Morsel (key.place fileOrdinal) file segment := by
  obtain ⟨segment, hsegment, -, -, hcount⟩ := hvalid
  obtain ⟨entries, hentries⟩ := morsels_of_decodeLocalDatasetScan hrows hfile hread hsegment
  refine ⟨segment, hfile, hsegment, ?_⟩
  refine (file.directories _ _ _ hsegment hentries).lt_of_start ?_
  obtain ⟨start, hstart, hcount⟩ := bind_eq_ok.mp hcount
  obtain ⟨-, rfl⟩ := mulU32_eq_ok.mp hstart
  by_contra hge
  have hge : key.morselId * segment.morselRowCount ≥ segment.rowCount := not_lt.mp hge
  rw [if_pos hge] at hcount
  cases hcount

/-- Selecting no rows of a morsel that decodes gives none. -/
theorem decodeMorsel_nil {file : ScanFile} {segmentIndex : Nat} {morsel : RowMorselEntryV1}
    (h : decodeMorsel crc32c file fileOrdinal segmentIndex segment morsel none = .ok rows) :
    decodeMorsel crc32c file fileOrdinal segmentIndex segment morsel (some []) = .ok [] := by
  unfold decodeMorsel at h ⊢
  obtain ⟨rowStart, hstart, h⟩ := bind_eq_ok.mp h
  obtain ⟨visibility, hvis, h⟩ := bind_eq_ok.mp h
  obtain ⟨hidden, hhidden, h⟩ := bind_eq_ok.mp h
  simp only [hstart, hvis, hhidden, ok_bind]
  split
  · rfl
  next hshown =>
  rw [if_neg hshown] at h
  split
  · rfl
  next hcovi =>
  rw [if_neg hcovi] at h
  obtain ⟨pruned, hpruned, h⟩ := bind_eq_ok.mp h
  simp only [hpruned, ok_bind]
  split
  · rfl
  next hkept =>
  rw [if_neg hkept] at h
  obtain ⟨nullPruned, hnull, -⟩ := bind_eq_ok.mp h
  simp only [hnull, ok_bind]
  split
  · rfl
  · have hoverlay : applyOverlay visibility rowStart file.state.table.rowCount [] = .ok [] := by
      unfold applyOverlay
      split <;> rfl
    simp only [taskSelection, ok_bind, hoverlay]
    rfl

variable (crc32c) in
/-- A fully hidden morsel that decodes has no rows, whatever is selected. -/
theorem decodeMorsel_allHidden (fileOrdinal : Nat) {file : ScanFile}
    {entries : List RowMorselEntryV1}
    (hdir : RowMorselDirectory segment entries) (hvalid : key.Valid file)
    (hsegment : file.state.segments[key.segmentIndex]? = some segment)
    (hlt : key.morselId < segment.morselCount) (hhidden : key.allHidden file = .ok true)
    (rowSelection : Option (List Nat)) :
    decodeMorsel crc32c file fileOrdinal key.segmentIndex segment
      (segment.morselEntry key.morselId) rowSelection = .ok [] := by
  obtain ⟨segment', hsegment', -, hstart, hcount⟩ := hvalid
  obtain rfl : segment = segment' := Option.some.inj (hsegment.symm.trans hsegment')
  obtain ⟨visibility, hvis, hhidden⟩ := bind_eq_ok.mp hhidden
  rw [hdir.morselRowCountFor_eq hlt] at hcount
  rw [← Except.ok.inj hcount] at hhidden
  unfold decodeMorsel
  simp only [morselRowStart_eq_ok.mp hstart, hvis, hhidden, ok_bind, if_true]

variable (crc32c) in
theorem buildTaskGraph_of_rowrefs {outcomes : List (Option ScanTask)}
    (h : dataset.rowrefs = .ok (some outcomes)) :
    rowrefOutcomes 0 dataset.files = .ok (some outcomes) ∧
      ∃ graph, buildTaskGraph crc32c dataset = .ok graph ∧ graph.tasks = outcomes.filterMap id ∧
        graph.partitions.flatten = graph.tasks := by
  unfold ScanDataset.rowrefs at h
  by_cases heligible : dataset.lookupRowrefEligible = true
  · rw [if_pos heligible] at h
    refine ⟨h, ?_⟩
    unfold buildTaskGraph buildLookupRowrefTaskGraph
    rw [if_pos heligible, h]
    exact ⟨_, rfl, rfl, flatten_finalizePartitions _ _⟩
  · rw [if_neg heligible] at h
    cases h

section

variable {outcomes : List (Option ScanTask)}
  (houtcomes : rowrefOutcomes 0 dataset.files = .ok (some outcomes))

include houtcomes

/-- A task brings the rows listed in its morsel. -/
theorem rowref_task {task : ScanTask} (htask : task ∈ outcomes.filterMap id) :
    ∃ file listed, dataset.files[task.fileOrdinal]? = some file ∧
      listedRows file = .ok (some listed) ∧ ∃ r ∈ listed,
        task.place = r.key.place task.fileOrdinal ∧
        task.rowSelection = some (listedAt listed task.segmentIndex task.morselId) := by
  obtain ⟨hall, htasks⟩ := rowrefOutcomes_spec houtcomes
  rw [htasks] at htask
  obtain ⟨⟨file, fileOrdinal⟩, hx, htask⟩ := List.mem_flatMap.mp htask
  obtain ⟨listed, hlisted, hschedule⟩ := hall _ hx
  obtain ⟨r, hr, -, hplace, hselection⟩ := hschedule.sound task htask
  have hfile : task.fileOrdinal = fileOrdinal := congrArg MorselPlace.fileOrdinal hplace
  have hsegment : task.segmentIndex = r.key.segmentIndex :=
    congrArg MorselPlace.segmentIndex hplace
  have hmorsel : task.morselId = r.key.morselId := congrArg MorselPlace.morselId hplace
  refine ⟨file, listed, hfile ▸ List.mem_zipIdx_iff_getElem?.mp hx, hlisted, r, hr, ?_, ?_⟩
  · rw [hfile]
    exact hplace
  · rw [hsegment, hmorsel]
    exact hselection

/-- A listed morsel has a task, or is fully hidden. -/
theorem rowref_listed {file : ScanFile} (hfile : dataset.files[fileOrdinal]? = some file)
    (hlisted : listedRows file = .ok (some listed)) {r : ListedRow} (hr : r ∈ listed) :
    r.key.allHidden file = .ok true ∨
      r.key.place fileOrdinal ∈ (outcomes.filterMap id).map ScanTask.place := by
  obtain ⟨hall, htasks⟩ := rowrefOutcomes_spec houtcomes
  have hx := List.mem_zipIdx_iff_getElem? (x := (file, fileOrdinal)).mpr hfile
  obtain ⟨listed', hlisted', hschedule⟩ := hall _ hx
  obtain rfl := Option.some.inj (Except.ok.inj (hlisted.symm.trans hlisted'))
  obtain ⟨hidden, hhidden⟩ := hschedule.queried r hr
  cases hidden with
  | true => exact .inl hhidden
  | false =>
    refine .inr ?_
    obtain ⟨task, htask, hplace⟩ := List.mem_map.mp (hschedule.complete r hr hhidden)
    rw [htasks]
    exact List.mem_map.mpr ⟨task, List.mem_flatMap.mpr ⟨_, hx, htask⟩, hplace⟩

/-- A morsel without a task decodes to nothing under its listed rows. -/
theorem decodePlace_unscheduled {place : MorselPlace} {file : ScanFile}
    (hmorsel : dataset.Morsel place file segment)
    (hlisted : listedRows file = .ok (some listed))
    (hplace : place ∉ (outcomes.filterMap id).map ScanTask.place)
    (hread : file.plan.selectsNoRows = false)
    (hrows : decodePlace crc32c dataset place none = .ok rows) :
    decodePlace crc32c dataset place
      (some (listedAt listed place.segmentIndex place.morselId)) = .ok [] := by
  have h := hrows
  unfold decodePlace at h
  simp only [hmorsel.file_eq, hread, Bool.false_eq_true, if_false] at h
  obtain ⟨_, hplan, h⟩ := bind_eq_ok.mp h
  simp only [hmorsel.segment_eq] at h
  obtain ⟨entries, hentries, -⟩ := bind_eq_ok.mp h
  rw [decodePlace_of_morsels hmorsel hread hplan hentries] at hrows ⊢
  by_cases hany : ∃ r ∈ listed, r.key.place place.fileOrdinal = place
  · obtain ⟨r, hr, heq⟩ := hany
    have hsegmentIndex : r.key.segmentIndex = place.segmentIndex :=
      congrArg MorselPlace.segmentIndex heq
    have hmorselId : r.key.morselId = place.morselId := congrArg MorselPlace.morselId heq
    rcases rowref_listed houtcomes hmorsel.file_eq hlisted hr with hhidden | hmem
    · have hdir := file.directories _ _ _ hmorsel.segment_eq hentries
      have := decodeMorsel_allHidden crc32c place.fileOrdinal hdir
        (valid_of_listedRows hlisted r hr) (hsegmentIndex ▸ hmorsel.segment_eq)
        (hmorselId ▸ hmorsel.morselId_lt) hhidden
        (some (listedAt listed place.segmentIndex place.morselId))
      rwa [hsegmentIndex, hmorselId] at this
    · exact absurd (heq ▸ hmem) hplace
  · have hnil : listedAt listed place.segmentIndex place.morselId = [] := by
      have hfilter : (listed.filter fun r =>
          r.key.segmentIndex = place.segmentIndex ∧ r.key.morselId = place.morselId) = [] := by
        refine List.filter_eq_nil_iff.mpr fun r hr hkey => hany ⟨r, hr, ?_⟩
        obtain ⟨hsegment, hmorselId⟩ := of_decide_eq_true hkey
        unfold RowrefMorselKey.place
        rw [hsegment, hmorselId]
      rw [listedAt, hfilter]
      rfl
    rw [hnil]
    exact decodeMorsel_nil hrows

/-- With the selected rows listed, the tasks emit the rows of the scan. -/
theorem rows_of_listed (hrows : decodeLocalDatasetScan crc32c dataset = .ok rows)
    (hlists : ListsSelectedRows crc32c dataset) :
    (∀ task ∈ outcomes.filterMap id, ∃ rs, decodeTask crc32c dataset task = .ok rs) ∧
      ((outcomes.filterMap id).flatMap fun task =>
        elements (decodeTask crc32c dataset task)).Perm rows := by
  obtain ⟨hall, hperm⟩ := rows_of_decodeLocalDatasetScan hrows
  have hskipped : ∀ (place : MorselPlace) (file : ScanFile) rowSelection,
      dataset.files[place.fileOrdinal]? = some file → file.plan.selectsNoRows = true →
        decodePlace crc32c dataset place rowSelection = .ok [] :=
    fun _ _ _ hfile hskip => decodePlace_of_selectsNoRows hfile hskip
  have htask : ∀ task ∈ outcomes.filterMap id, ∃ rs, decodeTask crc32c dataset task = .ok rs ∧
      rs.Perm (rowsAt crc32c dataset task.place) ∧
        (task.place ∉ dataset.places → rowsAt crc32c dataset task.place = []) := by
    intro task hmem
    obtain ⟨file, listed, hfile, hlisted, r, hr, hplace, hselection⟩ := rowref_task houtcomes hmem
    by_cases hskip : file.plan.selectsNoRows = true
    · have hnil : rowsAt crc32c dataset task.place = [] := by
        rw [rowsAt, hskipped task.place file none hfile hskip, elements_ok]
      exact ⟨[], hskipped task.place file _ hfile hskip, hnil ▸ List.Perm.refl _, fun _ => hnil⟩
    · have hread := Bool.eq_false_iff.mpr hskip
      obtain ⟨segment, hmorsel⟩ := morsel_of_valid hfile hread
        (valid_of_listedRows hlisted r hr) hrows
      rw [← hplace] at hmorsel
      obtain ⟨rs, hrs, hrsperm⟩ := hlists task.place file segment hmorsel hread listed hlisted
      refine ⟨rs, ?_, hrsperm, fun hout => absurd (mem_places.mpr ⟨file, segment, hmorsel⟩) hout⟩
      rw [decodeTask, hselection]
      exact hrs
  refine ⟨fun task ht => (htask task ht).imp fun rs hrs => hrs.1, ?_⟩
  have hrowsAt : ((outcomes.filterMap id).flatMap fun task =>
      elements (decodeTask crc32c dataset task)).Perm
        (((outcomes.filterMap id).map ScanTask.place).flatMap (rowsAt crc32c dataset)) := by
    rw [List.flatMap_map]
    refine List.Perm.flatMap_left _ fun task ht => ?_
    obtain ⟨rs, hrs, hrsperm, -⟩ := htask task ht
    rw [hrs]
    exact hrsperm
  refine (hrowsAt.trans ?_).trans hperm.symm
  refine KeyedParts.flatMap_perm (nodup_rowrefTasks houtcomes) (nodup_places dataset) ?_ ?_
  · intro place hplace hout
    obtain ⟨task, ht, rfl⟩ := List.mem_map.mp hplace
    obtain ⟨-, -, -, hnil⟩ := htask task ht
    exact hnil hout
  · intro place hplace hout
    obtain ⟨file, segment, hmorsel⟩ := mem_places.mp hplace
    obtain ⟨rs, hrs⟩ := hall place hplace
    by_cases hskip : file.plan.selectsNoRows = true
    · rw [rowsAt, hskipped place file none hmorsel.file_eq hskip, elements_ok]
    · have hread := Bool.eq_false_iff.mpr hskip
      obtain ⟨hfiles, -⟩ := rowrefOutcomes_spec houtcomes
      obtain ⟨listed, hlisted, -⟩ := hfiles (file, place.fileOrdinal)
        (List.mem_zipIdx_iff_getElem?.mpr hmorsel.file_eq)
      obtain ⟨rs', hrs', hperm'⟩ := hlists place file segment hmorsel hread listed hlisted
      have hnil := decodePlace_unscheduled houtcomes hmorsel hlisted hout hread hrs
      rw [hnil] at hrs'
      obtain rfl := Except.ok.inj hrs'
      exact List.nil_perm.mp hperm'

/-- Tasks that emit the rows of the scan list the rows it selects. -/
theorem listed_of_rows (hrows : decodeLocalDatasetScan crc32c dataset = .ok rows)
    (hall' : ∀ task ∈ outcomes.filterMap id, ∃ rs, decodeTask crc32c dataset task = .ok rs)
    (hperm' : ((outcomes.filterMap id).flatMap fun task =>
      elements (decodeTask crc32c dataset task)).Perm rows) :
    ListsSelectedRows crc32c dataset := by
  obtain ⟨hall, hperm⟩ := rows_of_decodeLocalDatasetScan hrows
  intro place file segment hmorsel hread listed hlisted
  have hplaces : ∀ p ∈ dataset.places, ∀ row ∈ rowsAt crc32c dataset p, row.place = p := by
    intro p hp
    obtain ⟨rs, hrs⟩ := hall p hp
    rw [rowsAt, hrs]
    exact place_of_decodePlace hrs
  have htasks : ∀ task ∈ outcomes.filterMap id,
      ∀ row ∈ elements (decodeTask crc32c dataset task), row.place = task.place := by
    intro task ht
    obtain ⟨rs, hrs⟩ := hall' task ht
    rw [hrs]
    exact place_of_decodePlace hrs
  have hplace : place ∈ dataset.places := mem_places.mpr ⟨file, segment, hmorsel⟩
  have hnodup : (dataset.places.map id).Nodup := by
    rw [List.map_id]
    exact nodup_places dataset
  by_cases hmem : place ∈ (outcomes.filterMap id).map ScanTask.place
  · obtain ⟨task, ht, rfl⟩ := List.mem_map.mp hmem
    obtain ⟨rs, hrs⟩ := hall' task ht
    have hparts := KeyedParts.perm_of_perm_flatMap (nodup_rowrefTasks houtcomes) hnodup htasks
      hplaces (hperm'.trans hperm) ht hplace rfl
    obtain ⟨file', listed', hfile', hlisted', -, -, -, hselection⟩ := rowref_task houtcomes ht
    obtain rfl := Option.some.inj (hmorsel.file_eq.symm.trans hfile')
    obtain rfl := Option.some.inj (Except.ok.inj (hlisted.symm.trans hlisted'))
    rw [hrs] at hparts
    rw [decodeTask, hselection] at hrs
    exact ⟨rs, hrs, hparts⟩
  · -- no task, so the scan has no row there either
    have hnil : rowsAt crc32c dataset place = [] := by
      have hparts := (hperm'.trans hperm).filter fun row => row.place = place
      rw [KeyedParts.filter_flatMap_eq_nil htasks hmem] at hparts
      have hself := KeyedParts.filter_flatMap (k := id) hnodup hplaces hplace
      rw [id] at hself
      rw [hself] at hparts
      exact List.nil_perm.mp hparts
    obtain ⟨rs, hrs⟩ := hall place hplace
    exact ⟨[], decodePlace_unscheduled houtcomes hmorsel hlisted hmem hread hrs,
      hnil ▸ List.Perm.refl _⟩

end

/-- A scan that row references drive. -/
theorem schedulesScan_of_rowrefs {outcomes : List (Option ScanTask)}
    (h : dataset.rowrefs = .ok (some outcomes)) :
    SchedulesScan crc32c dataset ↔ ∀ rows, decodeLocalDatasetScan crc32c dataset = .ok rows →
      ListsSelectedRows crc32c dataset := by
  obtain ⟨houtcomes, graph, hgraph, htasks, hpartitions⟩ :=
    buildTaskGraph_of_rowrefs crc32c h
  constructor
  · rintro ⟨graph', hgraph', -, -, hscan⟩ rows hrows
    obtain rfl := Except.ok.inj (hgraph.symm.trans hgraph')
    obtain ⟨rows', hrows', hperm⟩ := hscan rows hrows
    obtain ⟨hall, rfl⟩ := decodePartitions_eq_ok.mp hrows'
    rw [hpartitions, htasks] at hall hperm
    exact listed_of_rows houtcomes hrows hall hperm
  · intro hlists
    refine ⟨graph, hgraph, ?_, hpartitions ▸ List.Perm.refl _, fun rows hrows => ?_⟩
    · rintro place ⟨file, segment, hmorsel, hkept, hlisted⟩
      obtain ⟨listed, hlisted, r, hr, heq⟩ := hlisted ⟨outcomes, h⟩
      have hsegmentIndex : r.key.segmentIndex = place.segmentIndex :=
        congrArg MorselPlace.segmentIndex heq
      have hmorselId : r.key.morselId = place.morselId := congrArg MorselPlace.morselId heq
      have hshown := allHidden_of_ruledOut (valid_of_listedRows hlisted r hr)
        (hsegmentIndex ▸ hmorsel.segment_eq) (hmorselId ▸ hkept)
      rw [htasks, (nodup_rowrefTasks houtcomes).count, if_pos]
      rcases rowref_listed houtcomes hmorsel.file_eq hlisted hr with hhidden | hmem
      · cases hshown.symm.trans hhidden
      · exact heq ▸ hmem
    · obtain ⟨hall, hperm⟩ := rows_of_listed houtcomes hrows (hlists rows hrows)
      rw [← htasks, ← hpartitions] at hall hperm
      exact ⟨_, decodePartitions_eq_ok.mpr ⟨hall, rfl⟩, hperm⟩

end

/-! ## A split that starts inside a segment -/

namespace Scheduling

/-- Two segments of two morsels of two rows. -/
def segments : List TableSegmentIndexEntryV1 := [⟨0, 0, 4, 2, 2⟩, ⟨1, 4, 4, 2, 2⟩]

def state : DatasetState := ⟨⟨1, 8, []⟩, segments, [.all], none, .empty⟩

/-- The first morsel, and the three that follow it: one of segment 0 and two of segment 1. -/
def splits : ScanSplitIndexV2 :=
  ⟨2, [⟨0, 1, 0, 2, 0, 1, 0, 1, 0, 0⟩, ⟨1, 1, 2, 6, 0, 2, 1, 3, 0, 0⟩]⟩

theorem splits_accepted : validateScanSplitAuthority splits state.table state.segments none =
    .ok () := by decide

/-- A reader of morsels that are all selected. -/
def reader : PageReader where
  morsels segmentIndex :=
    match segments[segmentIndex]? with
    | some segment => .ok segment.morselEntries
    | none => .error .segmentCorrupt
  nullPruned _ _ := .ok false
  selectedRows _ _ := .ok [0, 1]
  recordBatch _ _ _ := .ok ()

theorem directory_eq (hsegment : segment ∈ segments) :
    RowMorselDirectory segment segment.morselEntries := by
  rcases List.mem_pair.mp hsegment with rfl | rfl
  · exact ⟨rfl, by decide, by decide, by decide⟩
  · exact ⟨rfl, by decide, by decide, by decide⟩

def file : ScanFile where
  state := state
  plan := ⟨⟨[], none⟩, [], [], [], none, none⟩
  scanSplits := some ⟨splits, none, splits_accepted⟩
  reader := reader
  segmentIds_nodup := by decide
  directories segmentIndex segment entries hsegment hentries := by
    have hsegment : segments[segmentIndex]? = some segment := hsegment
    have heq : reader.morsels segmentIndex = .ok segment.morselEntries := by
      simp [reader, hsegment]
    rw [Except.ok.inj (hentries.symm.trans heq)]
    exact directory_eq (List.mem_of_getElem? hsegment)

def dataset : ScanDataset := ⟨[file], false, 1⟩

end Scheduling

end Cove
