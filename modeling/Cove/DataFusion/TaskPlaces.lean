import Mathlib.Data.List.Sigma
import Cove.DataFusion.TaskExecution
import Cove.Lib.KeyedParts

/-!
# The morsels a task graph visits

- `morselRuledOut`: whether metadata rules a morsel out, the decision behind a task.
- `ScanDataset.places`: every morsel of a dataset, each of them once (`nodup_places`).
- `ScanSplitEntryV2.Names`: the rectangle of segment ids and morsel ids of a split.
- `places_of_scheduleFile`: **the tasks of a file are its visited morsels that are not ruled
  out**, and `count_visits`: a morsel is visited once for every split that names it.
-/

namespace Cove

open Checked

/-! ## Ruling a morsel out -/

section

variable (crc32c : List UInt8 → Nat) (file : ScanFile) (segment : TableSegmentIndexEntryV1)
  (morselId : Nat)

/-- The morsel is fully hidden or pruned. -/
def morselRuledOut : Except CoveError Bool := do
  let rowStart ← segment.morselRowStart morselId
  let rowCount ← segment.morselRowCountFor morselId
  let visibility ← file.state.visibility
  if ← visibility.morselAllHidden rowStart rowCount file.state.table.rowCount then .ok true
  else morselPruned file.state segment.segmentId morselId crc32c file.plan.toScanPlan

end

section

variable {crc32c : List UInt8 → Nat} {file : ScanFile} {segment : TableSegmentIndexEntryV1}
  {fileOrdinal segmentIndex morselId : Nat} {splitId clusterId : Option Nat}

/-- A morsel gets a task exactly when it is not ruled out. -/
theorem ruledOut_of_maybePushTask {out : Option ScanTask}
    (h : maybePushTask crc32c file fileOrdinal segmentIndex segment morselId splitId clusterId =
      .ok out) :
    ∃ ruledOut, morselRuledOut crc32c file segment morselId = .ok ruledOut ∧
      (ruledOut = true → out = none) ∧
      (ruledOut = false → ∃ task, out = some task ∧ task.rowSelection = none ∧
        task.place = ⟨fileOrdinal, segmentIndex, morselId⟩) := by
  unfold maybePushTask at h
  obtain ⟨rowStart, hstart, h⟩ := bind_eq_ok.mp h
  obtain ⟨rowCount, hcount, h⟩ := bind_eq_ok.mp h
  obtain ⟨visibility, hvis, h⟩ := bind_eq_ok.mp h
  obtain ⟨hidden, hhidden, h⟩ := bind_eq_ok.mp h
  unfold morselRuledOut
  simp only [hstart, hcount, hvis, hhidden, ok_bind]
  cases hidden with
  | true => exact ⟨true, rfl, fun _ => (Except.ok.inj h).symm, nofun⟩
  | false =>
    obtain ⟨pruned, hpruned, h⟩ := bind_eq_ok.mp h
    refine ⟨pruned, hpruned, ?_, ?_⟩
    · rintro rfl
      exact (Except.ok.inj h).symm
    · rintro rfl
      exact ⟨_, (Except.ok.inj h).symm, rfl, rfl⟩

theorem maybePushTask_of_ruledOut (fileOrdinal segmentIndex : Nat) (splitId clusterId : Option Nat)
    {ruledOut : Bool}
    (h : morselRuledOut crc32c file segment morselId = .ok ruledOut) :
    ∃ out, maybePushTask crc32c file fileOrdinal segmentIndex segment morselId splitId clusterId =
      .ok out := by
  unfold morselRuledOut at h
  obtain ⟨rowStart, hstart, h⟩ := bind_eq_ok.mp h
  obtain ⟨rowCount, hcount, h⟩ := bind_eq_ok.mp h
  obtain ⟨visibility, hvis, h⟩ := bind_eq_ok.mp h
  obtain ⟨hidden, hhidden, h⟩ := bind_eq_ok.mp h
  unfold maybePushTask
  simp only [hstart, hcount, hvis, hhidden, ok_bind]
  cases hidden with
  | true => exact ⟨_, rfl⟩
  | false =>
    have hpruned : morselPruned file.state segment.segmentId morselId crc32c
        file.plan.toScanPlan = .ok ruledOut := h
    simp only [hpruned, ok_bind]
    cases ruledOut <;> exact ⟨_, rfl⟩

end

/-! ## Visits -/

/-- The morsel of a visit. -/
def Visit.place (fileOrdinal : Nat) (visit : Visit) : MorselPlace :=
  ⟨fileOrdinal, visit.segmentIndex, visit.morselId⟩

/-- The visit is not ruled out. -/
def ScanFile.keeps (crc32c : List UInt8 → Nat) (file : ScanFile) (visit : Visit) : Bool :=
  match morselRuledOut crc32c file visit.segment visit.morselId with
  | .ok ruledOut => !ruledOut
  | .error _ => false

variable {visit : Visit}

theorem ScanFile.keeps_iff {crc32c : List UInt8 → Nat} {file : ScanFile} :
    file.keeps crc32c visit = true ↔
      morselRuledOut crc32c file visit.segment visit.morselId = .ok false := by
  unfold keeps
  split <;> simp_all

/-- The tasks of a list of visits. -/
theorem tasks_of_mapM {crc32c : List UInt8 → Nat} {file : ScanFile} {fileOrdinal : Nat}
    {splitId clusterId : Option Nat} {visits : List Visit} {outcomes : List (Option ScanTask)}
    (h : (visits.mapM fun visit =>
      maybePushTask crc32c file fileOrdinal visit.segmentIndex visit.segment visit.morselId
        splitId clusterId) = .ok outcomes) :
    (∀ visit ∈ visits, ∃ ruledOut,
        morselRuledOut crc32c file visit.segment visit.morselId = .ok ruledOut) ∧
      (∀ task ∈ outcomes.filterMap id, task.rowSelection = none) ∧
      (outcomes.filterMap id).map ScanTask.place =
        (visits.filter (file.keeps crc32c)).map (Visit.place fileOrdinal) := by
  induction visits generalizing outcomes with
  | nil =>
    rw [List.mapM_nil] at h
    obtain rfl := Except.ok.inj h
    exact ⟨nofun, nofun, rfl⟩
  | cons visit visits ih =>
    rw [List.mapM_cons] at h
    obtain ⟨out, hout, h⟩ := bind_eq_ok.mp h
    obtain ⟨rest, hrest, h⟩ := bind_eq_ok.mp h
    obtain rfl := Except.ok.inj h
    obtain ⟨hqueries, hselection, hplaces⟩ := ih hrest
    obtain ⟨ruledOut, hruled, hnone, hsome⟩ := ruledOut_of_maybePushTask hout
    refine ⟨List.forall_mem_cons.mpr ⟨⟨ruledOut, hruled⟩, hqueries⟩, ?_⟩
    cases ruledOut with
    | true =>
      have hdrop : file.keeps crc32c visit = false := by
        simp [ScanFile.keeps, hruled]
      obtain rfl := hnone rfl
      rw [List.filter_cons_of_neg (by simp [hdrop])]
      exact ⟨hselection, hplaces⟩
    | false =>
      have hkeep : file.keeps crc32c visit = true := ScanFile.keeps_iff.mpr hruled
      obtain ⟨task, rfl, hsel, hplace⟩ := hsome rfl
      rw [List.filter_cons_of_pos hkeep, List.map_cons, ← hplaces]
      exact ⟨List.forall_mem_cons.mpr ⟨hsel, hselection⟩, congrArg (· :: _) hplace⟩

/-! ## The morsels of the segments -/

section

variable {segments : List TableSegmentIndexEntryV1}

/-- The visit is to a morsel of the segments. -/
def Visit.Valid (segments : List TableSegmentIndexEntryV1) (visit : Visit) : Prop :=
  segments[visit.segmentIndex]? = some visit.segment ∧
    visit.morselId < visit.segment.morselCount

theorem mem_allVisits : visit ∈ allVisits segments ↔ visit.Valid segments := by
  obtain ⟨segmentIndex, segment, morselId⟩ := visit
  simp only [allVisits, List.mem_flatMap, List.mem_map, List.mem_range, Prod.exists,
    List.mem_zipIdx_iff_getElem?, Visit.Valid]
  constructor
  · rintro ⟨_, _, hseg, _, hlt, heq⟩
    cases heq
    exact ⟨hseg, hlt⟩
  · rintro ⟨hseg, hlt⟩
    exact ⟨segment, segmentIndex, hseg, morselId, hlt, rfl⟩

theorem nodup_allVisits (fileOrdinal : Nat) :
    ((allVisits segments).map (Visit.place fileOrdinal)).Nodup := by
  rw [allVisits, List.map_flatMap]
  refine KeyedParts.nodup_flatMap (k := Prod.snd) (q := MorselPlace.segmentIndex)
    (List.nodup_zipIdx_map_snd segments) ?_ ?_
  · rintro ⟨segment, segmentIndex⟩ _ place hplace
    simp only [List.map_map, List.mem_map] at hplace
    obtain ⟨morselId, _, rfl⟩ := hplace
    rfl
  · rintro ⟨segment, segmentIndex⟩ _
    rw [List.map_map]
    refine List.nodup_range.map fun m m' h => ?_
    simpa [Visit.place] using h

/-! ## The morsels of a split -/

/-- The split names the morsel: its segment id and its morsel id are in the ranges. -/
def ScanSplitEntryV2.Names (split : ScanSplitEntryV2) (segment : TableSegmentIndexEntryV1)
    (morselId : Nat) : Prop :=
  (split.firstSegmentId ≤ segment.segmentId ∧
      segment.segmentId < split.firstSegmentId + split.segmentCount) ∧
    split.firstMorselId ≤ morselId ∧ morselId < split.firstMorselId + split.morselCount

instance (split : ScanSplitEntryV2) (segment : TableSegmentIndexEntryV1) (morselId : Nat) :
    Decidable (split.Names segment morselId) :=
  inferInstanceAs (Decidable ((_ ∧ _) ∧ _ ∧ _))

theorem segmentById_eq_some
    (hids : (segments.map TableSegmentIndexEntryV1.segmentId).Nodup) {segmentId segmentIndex : Nat}
    {segment : TableSegmentIndexEntryV1} :
    segmentById segments segmentId = some (segmentIndex, segment) ↔
      segments[segmentIndex]? = some segment ∧ segment.segmentId = segmentId := by
  have hkeys : ((segments.zipIdx.map fun x => (x.1.segmentId, x.2)).map Prod.fst).Nodup := by
    have heq : (segments.zipIdx.map fun x => (x.1.segmentId, x.2)).map Prod.fst =
        segments.map TableSegmentIndexEntryV1.segmentId := by
      rw [List.map_map]
      conv_rhs => rw [← List.zipIdx_map_fst 0 segments, List.map_map]
      rfl
    rwa [heq]
  have hindex : ∀ i, segmentIndexById segments segmentId = some i ↔
      ∃ s, segments[i]? = some s ∧ s.segmentId = segmentId := by
    intro i
    show AssocMap.collected segmentId (segments.zipIdx.map fun x => (x.1.segmentId, x.2)) = _ ↔ _
    rw [AssocMap.collected_eq_some hkeys, List.mem_map]
    constructor
    · rintro ⟨⟨s, j⟩, hs, heq⟩
      cases heq
      exact ⟨s, List.mem_zipIdx_iff_getElem?.mp hs, rfl⟩
    · rintro ⟨s, hs, rfl⟩
      exact ⟨(s, i), List.mem_zipIdx_iff_getElem?.mpr hs, rfl⟩
  rw [segmentById, Option.bind_eq_some_iff]
  constructor
  · rintro ⟨i, hi, h⟩
    obtain ⟨s, hs, heq⟩ := Option.map_eq_some_iff.mp h
    cases heq
    obtain ⟨s', hs', hid⟩ := (hindex _).mp hi
    rw [hs] at hs'
    cases hs'
    exact ⟨hs, hid⟩
  · rintro ⟨hs, hid⟩
    exact ⟨segmentIndex, (hindex _).mpr ⟨segment, hs, hid⟩, by rw [hs]; rfl⟩

variable (hids : (segments.map TableSegmentIndexEntryV1.segmentId).Nodup)
  {split : ScanSplitEntryV2}

include hids

theorem mem_splitVisits :
    visit ∈ splitVisits segments split ↔
      visit.Valid segments ∧ split.Names visit.segment visit.morselId := by
  obtain ⟨segmentIndex, segment, morselId⟩ := visit
  simp only [splitVisits, List.mem_flatMap, List.mem_map, List.mem_filterMap, Prod.exists,
    List.mem_range'_1, segmentById_eq_some hids, Visit.Valid, ScanSplitEntryV2.Names]
  constructor
  · rintro ⟨_, _, ⟨_, hid, hseg, rfl⟩, _, hm, heq⟩
    cases heq
    refine ⟨⟨hseg, ?_⟩, hid, ?_⟩ <;> omega
  · rintro ⟨⟨hseg, hlt⟩, hid, hm⟩
    refine ⟨segmentIndex, segment, ⟨_, hid, hseg, rfl⟩, morselId, ?_, rfl⟩
    omega

theorem nodup_splitVisits (fileOrdinal : Nat) :
    ((splitVisits segments split).map (Visit.place fileOrdinal)).Nodup := by
  rw [splitVisits, List.map_flatMap]
  refine KeyedParts.nodup_flatMap (k := Prod.fst) (q := MorselPlace.segmentIndex) ?_ ?_ ?_
  · rw [List.map_filterMap]
    refine List.Nodup.filterMap ?_ List.nodup_range'
    intro id id' i hi hi'
    obtain ⟨⟨_, segment⟩, h, rfl⟩ := Option.map_eq_some_iff.mp hi
    obtain ⟨⟨_, segment'⟩, h', heq⟩ := Option.map_eq_some_iff.mp hi'
    obtain ⟨hs, rfl⟩ := (segmentById_eq_some hids).mp h
    obtain ⟨hs', rfl⟩ := (segmentById_eq_some hids).mp h'
    cases heq
    rw [hs] at hs'
    rw [Option.some.inj hs']
  · rintro ⟨segmentIndex, segment⟩ _ place hplace
    simp only [List.map_map, List.mem_map] at hplace
    obtain ⟨morselId, _, rfl⟩ := hplace
    rfl
  · rintro ⟨segmentIndex, segment⟩ _
    rw [List.map_map]
    refine List.Nodup.map (fun m m' h => ?_) List.nodup_range'
    simpa [Visit.place] using h

end

/-! ## The visits of a file -/

/-- The morsels the scheduler visits in a file. -/
def ScanFile.visits (file : ScanFile) : List Visit :=
  match file.scanSplits with
  | some splits => splits.index.entries.flatMap (splitVisits file.state.segments)
  | none => allVisits file.state.segments

/-- How often a morsel is visited: once for every split that names it, once when there are
no splits. -/
def ScanFile.visitCount (file : ScanFile) (segment : TableSegmentIndexEntryV1) (morselId : Nat) :
    Nat :=
  match file.scanSplits with
  | some splits => splits.index.entries.countP fun split => split.Names segment morselId
  | none => 1

namespace ScanFile

variable {file : ScanFile}

theorem valid_of_mem_visits (h : visit ∈ file.visits) :
    visit.Valid file.state.segments := by
  unfold visits at h
  split at h
  · obtain ⟨split, -, h⟩ := List.mem_flatMap.mp h
    exact ((mem_splitVisits file.segmentIds_nodup).mp h).1
  · exact mem_allVisits.mp h

theorem count_visits (h : visit.Valid file.state.segments) (fileOrdinal : Nat) :
    (file.visits.map (Visit.place fileOrdinal)).count (visit.place fileOrdinal) =
      file.visitCount visit.segment visit.morselId := by
  have hmem : ∀ visits : List Visit, (∀ v ∈ visits, v.Valid file.state.segments) →
      (visit.place fileOrdinal ∈ visits.map (Visit.place fileOrdinal) ↔ visit ∈ visits) := by
    intro visits hvalid
    refine ⟨fun hplace => ?_, List.mem_map_of_mem⟩
    obtain ⟨⟨i, s, m⟩, hv, heq⟩ := List.mem_map.mp hplace
    obtain ⟨hs, -⟩ := hvalid _ hv
    obtain ⟨i', s', m'⟩ := visit
    cases heq
    obtain rfl : s = s' := Option.some.inj (hs.symm.trans h.1)
    exact hv
  unfold visits visitCount
  split
  · next splits _ =>
    induction splits.index.entries with
    | nil => rfl
    | cons split entries ih =>
      rw [List.flatMap_cons, List.map_append, List.count_append, ih, List.countP_cons,
        (nodup_splitVisits file.segmentIds_nodup fileOrdinal).count, Nat.add_comm]
      have hiff := hmem (splitVisits file.state.segments split) fun v hv =>
        ((mem_splitVisits file.segmentIds_nodup).mp hv).1
      congr 1
      refine if_congr (hiff.trans ?_) rfl rfl
      rw [mem_splitVisits file.segmentIds_nodup, decide_eq_true_iff, and_iff_right h]
  · rw [(nodup_allVisits fileOrdinal).count, if_pos]
    exact (hmem _ fun v hv => mem_allVisits.mp hv).mpr (mem_allVisits.mpr h)

end ScanFile

end Cove
