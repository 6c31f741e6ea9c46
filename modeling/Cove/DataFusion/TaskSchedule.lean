import Cove.DataFusion.TaskPlaces

/-!
# What a task graph schedules

- `ScanFile.Schedulable`: the metadata queries of a file succeed where it is visited.
- `tasks_of_scheduleFile`, `tasks_of_buildMorselTaskGraph`: **the tasks are the visited
  morsels that are not ruled out**.
- `partitions_perm_tasks`: **every task is in exactly one partition**.
- `rowrefTasks_spec`: the tasks of the row references, one for each listed morsel.
-/

namespace Cove

open Checked

/-! ## Partitions -/

theorem flatten_chunksFrom {size fuel : Nat} (hsize : 0 < size) {tasks : List ScanTask}
    (hfuel : tasks.length ≤ fuel) : (chunksFrom size fuel tasks).flatten = tasks := by
  induction fuel generalizing tasks with
  | zero =>
    rw [List.length_eq_zero_iff.mp (Nat.le_zero.mp hfuel)]
    rfl
  | succ fuel ih =>
    rw [chunksFrom]
    by_cases hempty : tasks.isEmpty = true
    · rw [if_pos hempty, List.isEmpty_iff.mp hempty]
      rfl
    · rw [if_neg hempty, List.flatten_cons, ih ?_, List.take_append_drop]
      have hpos : 0 < tasks.length := List.length_pos_iff.mpr fun h => hempty (h ▸ rfl)
      rw [List.length_drop]
      omega

theorem flatten_partitionTasks (tasks : List ScanTask) (target : Nat) :
    (partitionTasks tasks target).flatten = tasks :=
  flatten_chunksFrom (by omega) le_rfl

theorem flatten_finalizePartitions (tasks : List ScanTask) (target : Nat) :
    (finalizePartitions tasks target).flatten = tasks := by
  have h := flatten_partitionTasks tasks target
  unfold finalizePartitions
  split
  · next heq =>
    rw [heq] at h
    rw [← h]
    rfl
  · exact h

namespace FileSchedule

/-- The tasks of the visits. -/
def tasks (schedule : FileSchedule) : List ScanTask := schedule.outcomes.filterMap id

/-- A split without tasks has no partition, and loses none. -/
theorem tasks_eq (schedule : FileSchedule) :
    schedule.tasks = schedule.splitPartitions.flatten ++ schedule.fallbackTasks := by
  cases schedule with
  | fallback outcomes => rfl
  | splits outcomes =>
    rw [fallbackTasks, List.append_nil, tasks, FileSchedule.outcomes, splitPartitions]
    induction outcomes with
    | nil => rfl
    | cons partition outcomes ih =>
      rw [List.flatten_cons, List.filterMap_append, ih, List.map_cons]
      by_cases hempty : (partition.filterMap id).isEmpty = true
      · rw [List.filter_cons_of_neg (by simpa using hempty), List.isEmpty_iff.mp hempty,
          List.nil_append]
      · rw [List.filter_cons_of_pos (by simpa using hempty), List.flatten_cons]

end FileSchedule

/-- Every task is in exactly one partition. -/
theorem partitions_perm_tasks (schedules : List FileSchedule) (target : Nat) :
    (TaskGraph.ofSchedules schedules target).partitions.flatten.Perm
      (TaskGraph.ofSchedules schedules target).tasks := by
  have htasks : (schedules.flatMap FileSchedule.outcomes).filterMap id =
      schedules.flatMap FileSchedule.tasks := by
    rw [List.filterMap_flatMap]
    rfl
  unfold TaskGraph.ofSchedules
  dsimp only
  split
  · rw [flatten_finalizePartitions]
  · rw [List.flatten_append, flatten_partitionTasks, htasks, funext FileSchedule.tasks_eq]
    refine List.Perm.trans (List.Perm.of_eq ?_) (List.flatMap_append_perm _ _ _)
    rw [List.flatMap_def, List.flatten_flatten, List.map_map, List.flatMap_def]
    rfl

/-! ## The tasks of a file -/

section

variable (crc32c : List UInt8 → Nat)

/-- The metadata of a file answers at every visited morsel, and no morsel range of a split
runs past the largest morsel id. -/
structure ScanFile.Schedulable (file : ScanFile) : Prop where
  bounded : ∀ splits ∈ file.scanSplits, ∀ split ∈ splits.index.entries,
    split.firstMorselId + split.morselCount < 2 ^ 32
  queried : ∀ visit ∈ file.visits, ∃ ruledOut,
    morselRuledOut crc32c file visit.segment visit.morselId = .ok ruledOut

/-- The morsels of a file that get a task, in the order of the visits. -/
def ScanFile.scheduledPlaces (file : ScanFile) (fileOrdinal : Nat) : List MorselPlace :=
  (file.visits.filter (file.keeps crc32c)).map (Visit.place fileOrdinal)

end

section

variable {crc32c : List UInt8 → Nat} {file : ScanFile} {fileOrdinal : Nat}

theorem split_accepted (splits : ValidatedScanSplitIndexV2 file.state.table file.state.segments)
    {split : ScanSplitEntryV2} (hsplit : split ∈ splits.index.entries) :
    split.firstSegmentId + split.segmentCount < 2 ^ 32 := by
  have h := splits.accepted
  unfold validateScanSplitAuthority at h
  obtain ⟨-, -, h⟩ := bind_eq_ok.mp h
  have h := forM_eq_ok.mp h split hsplit
  unfold validateSplit at h
  split at h
  · cases h
  · obtain ⟨stop, hstop, -⟩ := bind_eq_ok.mp h
    exact (addU32_eq_ok.mp hstop).1

/-- The tasks of the splits of a file. -/
theorem tasks_of_scheduleSplits {entries : List ScanSplitEntryV2}
    {outcomes : List (List (Option ScanTask))}
    (h : entries.mapM (scheduleSplit crc32c file fileOrdinal) = .ok outcomes) :
    (∀ split ∈ entries, split.firstMorselId + split.morselCount < 2 ^ 32) ∧
      (∀ visit ∈ entries.flatMap (splitVisits file.state.segments), ∃ ruledOut,
        morselRuledOut crc32c file visit.segment visit.morselId = .ok ruledOut) ∧
      (∀ task ∈ outcomes.flatten.filterMap id, task.rowSelection = none) ∧
      (outcomes.flatten.filterMap id).map ScanTask.place =
        ((entries.flatMap (splitVisits file.state.segments)).filter (file.keeps crc32c)).map
          (Visit.place fileOrdinal) := by
  induction entries generalizing outcomes with
  | nil =>
    rw [List.mapM_nil] at h
    obtain rfl := Except.ok.inj h
    exact ⟨nofun, nofun, nofun, rfl⟩
  | cons split entries ih =>
    rw [List.mapM_cons] at h
    obtain ⟨partition, hpartition, h⟩ := bind_eq_ok.mp h
    obtain ⟨rest, hrest, h⟩ := bind_eq_ok.mp h
    obtain rfl := Except.ok.inj h
    obtain ⟨-, -, hpartition⟩ := bind_eq_ok.mp hpartition
    obtain ⟨stop, hstop, hpartition⟩ := bind_eq_ok.mp hpartition
    obtain ⟨hqueries, hselection, hplaces⟩ := tasks_of_mapM hpartition
    obtain ⟨hbound, hqueries', hselection', hplaces'⟩ := ih hrest
    refine ⟨List.forall_mem_cons.mpr ⟨(addU32_eq_ok.mp hstop).1, hbound⟩, ?_, ?_, ?_⟩
    · rw [List.flatMap_cons, List.forall_mem_append]
      exact ⟨hqueries, hqueries'⟩
    · rw [List.flatten_cons, List.filterMap_append, List.forall_mem_append]
      exact ⟨hselection, hselection'⟩
    · rw [List.flatten_cons, List.filterMap_append, List.map_append, hplaces, hplaces',
        List.flatMap_cons, List.filter_append, List.map_append]

/-- The tasks of a file are its visited morsels that are not ruled out. -/
theorem tasks_of_scheduleFile {schedule : FileSchedule}
    (h : scheduleFile crc32c file fileOrdinal = .ok schedule) :
    file.Schedulable crc32c ∧ (∀ task ∈ schedule.tasks, task.rowSelection = none) ∧
      schedule.tasks.map ScanTask.place = file.scheduledPlaces crc32c fileOrdinal := by
  unfold scheduleFile at h
  split at h
  · next splits hsplits =>
    obtain ⟨outcomes, houtcomes, h⟩ := bind_eq_ok.mp h
    obtain rfl := Except.ok.inj h
    obtain ⟨hbound, hqueries, hselection, hplaces⟩ := tasks_of_scheduleSplits houtcomes
    have hvisits : file.visits = splits.index.entries.flatMap (splitVisits file.state.segments) := by
      rw [ScanFile.visits, hsplits]
    refine ⟨⟨fun s hs => ?_, hvisits ▸ hqueries⟩, hselection, ?_⟩
    · rw [hsplits] at hs
      cases hs
      exact hbound
    · rw [ScanFile.scheduledPlaces, hvisits]
      exact hplaces
  · next hsplits =>
    obtain ⟨outcomes, houtcomes, h⟩ := bind_eq_ok.mp h
    obtain rfl := Except.ok.inj h
    obtain ⟨hqueries, hselection, hplaces⟩ := tasks_of_mapM houtcomes
    have hvisits : file.visits = allVisits file.state.segments := by
      rw [ScanFile.visits, hsplits]
    refine ⟨⟨fun s hs => ?_, hvisits ▸ hqueries⟩, hselection, ?_⟩
    · rw [hsplits] at hs
      cases hs
    · rw [ScanFile.scheduledPlaces, hvisits]
      exact hplaces

theorem mapM_maybePushTask (fileOrdinal : Nat) (splitId clusterId : Option Nat)
    {visits : List Visit}
    (h : ∀ visit ∈ visits, ∃ ruledOut,
      morselRuledOut crc32c file visit.segment visit.morselId = .ok ruledOut) :
    ∃ outcomes, (visits.mapM fun visit =>
      maybePushTask crc32c file fileOrdinal visit.segmentIndex visit.segment visit.morselId
        splitId clusterId) = .ok outcomes := by
  obtain ⟨outcomes, houtcomes⟩ := exists_forall₂ fun visit hvisit => by
    obtain ⟨ruledOut, hruled⟩ := h visit hvisit
    exact maybePushTask_of_ruledOut fileOrdinal visit.segmentIndex splitId clusterId hruled
  exact ⟨outcomes, mapM_eq_ok.mpr houtcomes⟩

/-- A file that can be scheduled is. -/
theorem scheduleFile_of_schedulable (h : file.Schedulable crc32c) :
    ∃ schedule, scheduleFile crc32c file fileOrdinal = .ok schedule := by
  obtain ⟨hbound, hqueries⟩ := h
  unfold scheduleFile
  unfold ScanFile.visits at hqueries
  split
  · next splits hsplits =>
    simp only [hsplits] at hqueries
    obtain ⟨outcomes, houtcomes⟩ : ∃ outcomes, List.Forall₂
        (fun split out => scheduleSplit crc32c file fileOrdinal split = .ok out)
        splits.index.entries outcomes := by
      refine exists_forall₂ fun split hsplit => ?_
      obtain ⟨outcomes, houtcomes⟩ := mapM_maybePushTask fileOrdinal (some split.splitId)
        (singleClusterId split.firstClusterId split.clusterCount)
        fun visit hvisit => hqueries visit (List.mem_flatMap.mpr ⟨split, hsplit, hvisit⟩)
      refine ⟨outcomes, bind_eq_ok.mpr ⟨_, addU32_eq_ok.mpr ⟨split_accepted splits hsplit, rfl⟩, ?_⟩⟩
      exact bind_eq_ok.mpr ⟨_, addU32_eq_ok.mpr ⟨hbound splits hsplits split hsplit, rfl⟩, houtcomes⟩
    exact ⟨_, bind_eq_ok.mpr ⟨outcomes, mapM_eq_ok.mpr houtcomes, rfl⟩⟩
  · next hsplits =>
    simp only [hsplits] at hqueries
    obtain ⟨outcomes, houtcomes⟩ := mapM_maybePushTask fileOrdinal none none hqueries
    exact ⟨_, bind_eq_ok.mpr ⟨outcomes, houtcomes, rfl⟩⟩

end

/-! ## The tasks of the dataset -/

section

variable (crc32c : List UInt8 → Nat) (dataset : ScanDataset)

/-- The morsels of a dataset that get a task. -/
def ScanDataset.scheduledPlaces : List MorselPlace :=
  dataset.files.zipIdx.flatMap fun (file, fileOrdinal) => file.scheduledPlaces crc32c fileOrdinal

end

variable {place : MorselPlace}

section

variable {crc32c : List UInt8 → Nat} {dataset : ScanDataset}

/-- The tasks of a graph are the visited morsels that are not ruled out. -/
theorem tasks_of_buildMorselTaskGraph {graph : TaskGraph}
    (h : buildMorselTaskGraph crc32c dataset = .ok graph) :
    (∀ file ∈ dataset.files, file.Schedulable crc32c) ∧
      graph.partitions.flatten.Perm graph.tasks ∧
      (∀ task ∈ graph.tasks, task.rowSelection = none) ∧
      graph.tasks.map ScanTask.place = dataset.scheduledPlaces crc32c := by
  obtain ⟨schedules, hschedules, h⟩ := bind_eq_ok.mp h
  obtain rfl := Except.ok.inj h
  have htasks : (TaskGraph.ofSchedules schedules dataset.targetMorselsPerPartition).tasks =
      schedules.flatMap FileSchedule.tasks := by
    show (schedules.flatMap FileSchedule.outcomes).filterMap id = _
    rw [List.filterMap_flatMap]
    rfl
  refine ⟨fun file hfile => ?_, partitions_perm_tasks _ _, ?_, ?_⟩
  · rw [← List.zipIdx_map_fst 0 dataset.files] at hfile
    obtain ⟨⟨file, fileOrdinal⟩, hmem, rfl⟩ := List.mem_map.mp hfile
    obtain ⟨schedule, -, hschedule⟩ := exists_of_mapM_mem hschedules hmem
    exact (tasks_of_scheduleFile hschedule).1
  · rw [htasks]
    intro task htask
    obtain ⟨schedule, hmem, htask⟩ := List.mem_flatMap.mp htask
    obtain ⟨⟨file, fileOrdinal⟩, -, hschedule⟩ := exists_of_mem_mapM hschedules hmem
    exact (tasks_of_scheduleFile hschedule).2.1 task htask
  · have hplaces := map_eq_of_mapM hschedules
      (g := fun schedule => schedule.tasks.map ScanTask.place)
      (k := fun x => x.1.scheduledPlaces crc32c x.2)
      fun x schedule hschedule => (tasks_of_scheduleFile hschedule).2.2
    rw [htasks, List.map_flatMap, List.flatMap_def, hplaces, ← List.flatMap_def]
    rfl

theorem buildMorselTaskGraph_of_schedulable
    (h : ∀ file ∈ dataset.files, file.Schedulable crc32c) :
    ∃ graph, buildMorselTaskGraph crc32c dataset = .ok graph := by
  obtain ⟨schedules, hschedules⟩ : ∃ schedules, List.Forall₂
      (fun (x : ScanFile × Nat) schedule => scheduleFile crc32c x.1 x.2 = .ok schedule)
      dataset.files.zipIdx schedules :=
    exists_forall₂ fun x hx => scheduleFile_of_schedulable (h x.1 (List.fst_mem_of_mem_zipIdx hx))
  exact ⟨_, bind_eq_ok.mpr ⟨schedules, mapM_eq_ok.mpr hschedules, rfl⟩⟩

/-! ## Morsels of the dataset -/

/-- A morsel of the dataset, with its file and its segment. -/
structure ScanDataset.Morsel (dataset : ScanDataset) (place : MorselPlace) (file : ScanFile)
    (segment : TableSegmentIndexEntryV1) : Prop where
  file_eq : dataset.files[place.fileOrdinal]? = some file
  segment_eq : file.state.segments[place.segmentIndex]? = some segment
  morselId_lt : place.morselId < segment.morselCount

/-- How often a morsel that is not ruled out gets a task. -/
theorem count_scheduledPlaces {file : ScanFile}
    {segment : TableSegmentIndexEntryV1} (hmorsel : dataset.Morsel place file segment)
    (hkept : morselRuledOut crc32c file segment place.morselId = .ok false) :
    (dataset.scheduledPlaces crc32c).count place = file.visitCount segment place.morselId := by
  obtain ⟨hfile, hsegment, hlt⟩ := hmorsel
  obtain ⟨fileOrdinal, segmentIndex, morselId⟩ := place
  have hcount : (dataset.scheduledPlaces crc32c).count ⟨fileOrdinal, segmentIndex, morselId⟩ =
      (file.scheduledPlaces crc32c fileOrdinal).count ⟨fileOrdinal, segmentIndex, morselId⟩ := by
    have hmem : (file, fileOrdinal) ∈ dataset.files.zipIdx :=
      List.mem_zipIdx_iff_getElem?.mpr hfile
    refine KeyedParts.count_flatMap (q := MorselPlace.fileOrdinal) (k := Prod.snd)
      (f := fun x : ScanFile × Nat => x.1.scheduledPlaces crc32c x.2)
      (List.nodup_zipIdx_map_snd _) ?_ hmem rfl
    rintro ⟨f, n⟩ - p hp
    obtain ⟨visit, -, rfl⟩ := List.mem_map.mp hp
    rfl
  have hvalid : (⟨segmentIndex, segment, morselId⟩ : Visit).Valid file.state.segments :=
    ⟨hsegment, hlt⟩
  rw [hcount, ← file.count_visits hvalid fileOrdinal]
  unfold ScanFile.scheduledPlaces
  rw [List.count_eq_countP, List.count_eq_countP, List.countP_map, List.countP_map,
    List.countP_filter]
  refine List.countP_congr fun visit hvisit => ?_
  obtain ⟨hseg, -⟩ := ScanFile.valid_of_mem_visits hvisit
  obtain ⟨i, s, m⟩ := visit
  simp only [Function.comp, Visit.place, Bool.and_eq_true, beq_iff_eq, MorselPlace.mk.injEq,
    true_and, ScanFile.keeps_iff]
  constructor
  · exact fun h => h.1
  · rintro ⟨rfl, rfl⟩
    obtain rfl : s = segment := Option.some.inj (hseg.symm.trans hsegment)
    exact ⟨⟨rfl, rfl⟩, hkept⟩

/-- Only morsels of the dataset that are not ruled out get tasks. -/
theorem mem_scheduledPlaces (h : place ∈ dataset.scheduledPlaces crc32c) :
    ∃ file segment, dataset.Morsel place file segment ∧
      morselRuledOut crc32c file segment place.morselId = .ok false := by
  obtain ⟨⟨file, fileOrdinal⟩, hfile, h⟩ := List.mem_flatMap.mp h
  obtain ⟨visit, hvisit, rfl⟩ := List.mem_map.mp h
  obtain ⟨hvisit, hkeep⟩ := List.mem_filter.mp hvisit
  obtain ⟨hsegment, hlt⟩ := ScanFile.valid_of_mem_visits hvisit
  exact ⟨file, visit.segment, ⟨List.mem_zipIdx_iff_getElem?.mp hfile, hsegment, hlt⟩,
    ScanFile.keeps_iff.mp hkeep⟩

end

end Cove
