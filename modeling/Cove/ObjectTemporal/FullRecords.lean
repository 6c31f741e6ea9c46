import Cove.ObjectTemporal.Readback

/-!
# Reconstructing from full records

Where every record is a baseline without a reference, nothing merges: the state of an
object is its last record.

- `latestOf`: the last record of an object in replay order.
- `reconstruct_full`: **the states are the last records**, one for each object.
-/

namespace Cove

open Checked

/-- A record that replaces the state of its object and refers to none. -/
structure CoveObjectRecord.Standalone (record : CoveObjectRecord) : Prop where
  kind : record.recordKind = .baseline
  prevRef : record.prevRef = none

theorem replayRecord_standalone {record : CoveObjectRecord} (h : record.Standalone)
    (current : Option CoveObjectState) :
    replayRecord current record = .ok (some (stateFromFullRecord record)) := by
  unfold replayRecord validateRecordChainStep
  rw [h.prevRef, h.kind]
  cases current <;> rfl

variable {records : List CoveObjectRecord}

/-- A replay of standalone records ends in the last of them. -/
theorem replayRecords_standalone
    (h : ∀ r ∈ records, r.Standalone) (current : Option CoveObjectState) :
    replayRecords current records =
      .ok ((records.getLast?.map stateFromFullRecord).or current) := by
  induction records generalizing current with
  | nil => rfl
  | cons record records ih =>
    obtain ⟨hrecord, hrest⟩ := List.forall_mem_cons.mp h
    rw [replayRecords, replayRecord_standalone hrecord, ok_bind, ih hrest]
    cases records with
    | nil => rfl
    | cons next records =>
      rw [List.getLast?_cons_cons]
      cases hlast : (next :: records).getLast? with
      | none => exact absurd (List.getLast?_eq_none_iff.mp hlast) (List.cons_ne_nil _ _)
      | some last => rfl

/-- The last record of a group in replay order. -/
def latestOf (records : List CoveObjectRecord) : Option CoveObjectRecord :=
  (replayOrder records).getLast?

variable {r : CoveObjectRecord}

theorem mem_replayOrder :
    r ∈ replayOrder records ↔ r ∈ records := (List.perm_insertionSort _ _).mem_iff

/-- The states of groups of standalone records. -/
theorem statesOfGroups_standalone (groups : List (ObjectKey × List CoveObjectRecord))
    (h : ∀ g ∈ groups, ∀ r ∈ g.2, r.Standalone) :
    statesOfGroups false groups =
      .ok (groups.filterMap fun g => (latestOf g.2).map stateFromFullRecord) := by
  induction groups with
  | nil => rfl
  | cons group groups ih =>
    obtain ⟨hgroup, hrest⟩ := List.forall_mem_cons.mp h
    have hreplay := replayRecords_standalone
      (fun r hr => hgroup r (mem_replayOrder.mp hr)) none
    have hlast : (replayOrder group.2).getLast? = latestOf group.2 := rfl
    rw [statesOfGroups, hreplay, ok_bind, ih hrest, ok_bind, Option.or_none,
      List.filterMap_cons, hlast]
    cases hlatest : latestOf group.2 with
    | none => rfl
    | some record =>
      have hkind := (hgroup record (mem_replayOrder.mp (List.mem_of_getLast? hlatest))).kind
      have hlive : (stateFromFullRecord record).tombstoneStatus = .live := by
        simp [stateFromFullRecord, hkind]
      simp [hlive]

/-- The last record of a group is one of it, and none of it is later. -/
theorem latestOf_spec (h : latestOf records = some r) :
    r ∈ records ∧ ∀ r' ∈ records, recordSortKey r' ≤ recordSortKey r := by
  refine ⟨mem_replayOrder.mp (List.mem_of_getLast? h), fun r' hr' => ?_⟩
  have hsorted : (replayOrder records).Pairwise fun a b => recordSortKey a ≤ recordSortKey b :=
    List.pairwise_insertionSort _ _
  obtain ⟨init, hinit⟩ := List.getLast?_eq_some_iff.mp h
  rw [hinit] at hsorted
  rcases List.mem_append.mp (hinit ▸ mem_replayOrder.mpr hr') with hmem | hmem
  · exact (List.pairwise_append.mp hsorted).2.2 r' hmem r (List.mem_singleton_self r)
  · exact (List.mem_singleton.mp hmem) ▸ le_rfl

theorem exists_latestOf (h : records ≠ []) :
    ∃ r, latestOf records = some r := by
  cases hlast : latestOf records with
  | some r => exact ⟨r, rfl⟩
  | none =>
    have hnil := List.getLast?_eq_none_iff.mp hlast
    exact absurd (List.perm_nil.mp (hnil ▸ (List.perm_insertionSort _ records).symm)) h

/-- The records of a key. -/
def recordsOfKey (records : List CoveObjectRecord) (key : ObjectKey) : List CoveObjectRecord :=
  records.filter fun r => r.objectKey = key

/-- What standalone records are reconstructed to. -/
structure LatestStates (records : List CoveObjectRecord) (states : List CoveObjectState) :
    Prop where
  nodup : (states.map CoveObjectState.objectKey).Nodup
  latest : ∀ state ∈ states, ∃ r, latestOf (recordsOfKey records state.objectKey) = some r ∧
    state = stateFromFullRecord r
  every : ∀ r ∈ records, ∃ state ∈ states, state.objectKey = r.objectKey

/-- **The states of standalone records are their last ones**, one for each object. -/
theorem reconstruct_standalone {surface : CoveObjectSurface}
    (h : ∀ r ∈ surface.records, r.Standalone) :
    ∃ states, reconstructObjectStates surface .default = .ok states ∧
      LatestStates surface.records states := by
  have hrefs : validatePrevRefs surface.records = .ok () := by
    unfold validatePrevRefs
    rw [if_pos]
    refine List.all_eq_true.mpr fun r hr => ?_
    unfold prevRefValid
    rw [(h r hr).prevRef]
  have hvisible : visibleRecords .default surface.records = surface.records :=
    List.filter_eq_self.mpr fun _ _ => rfl
  have hgrouped : ∀ key group, (key, group) ∈ Grouping.grouped CoveObjectRecord.objectKey
      surface.records ↔ group = recordsOfKey surface.records key ∧ group ≠ [] :=
    fun key group => Grouping.mem_grouped
  have hstates := statesOfGroups_standalone
    (Grouping.grouped CoveObjectRecord.objectKey surface.records) fun g hg r hr => by
      obtain ⟨key, group⟩ := g
      obtain ⟨rfl, -⟩ := (hgrouped key group).mp hg
      exact h r (List.mem_filter.mp hr).1
  have hkey : ∀ key group r, (key, group) ∈ Grouping.grouped CoveObjectRecord.objectKey
      surface.records → latestOf group = some r → (stateFromFullRecord r).objectKey = key := by
    intro key group r hg hr
    obtain ⟨rfl, -⟩ := (hgrouped key group).mp hg
    exact of_decide_eq_true (List.mem_filter.mp (latestOf_spec hr).1).2
  refine ⟨((Grouping.grouped CoveObjectRecord.objectKey surface.records).filterMap fun g =>
    (latestOf g.2).map stateFromFullRecord).insertionSort fun a b => a.sortKey ≤ b.sortKey,
    ?_, ?_⟩
  · unfold reconstructObjectStates
    rw [hrefs, ok_bind, hvisible]
    show (statesOfGroups false _ >>= _) = _
    rw [hstates, ok_bind]
  · have hperm := List.perm_insertionSort (fun a b : CoveObjectState => a.sortKey ≤ b.sortKey)
      ((Grouping.grouped CoveObjectRecord.objectKey surface.records).filterMap fun g =>
        (latestOf g.2).map stateFromFullRecord)
    refine ⟨?_, fun state hstate => ?_, fun r hr => ?_⟩
    · -- a state has the key of its group, and those differ
      refine ((hperm.map _).nodup_iff).mpr (List.pairwise_map.mpr
        (List.pairwise_filterMap.mpr ?_))
      have hsorted := List.pairwise_map.mp
        (Grouping.sorted_grouped CoveObjectRecord.objectKey surface.records)
      refine hsorted.imp_of_mem fun {g g'} hg hg' hlt state hstate state' hstate' => ?_
      obtain ⟨r, hr, rfl⟩ := Option.map_eq_some_iff.mp hstate
      obtain ⟨r', hr', rfl⟩ := Option.map_eq_some_iff.mp hstate'
      rw [hkey _ _ r hg hr, hkey _ _ r' hg' hr']
      exact hlt.ne
    · obtain ⟨⟨key, group⟩, hg, hstate⟩ := List.mem_filterMap.mp (hperm.mem_iff.mp hstate)
      obtain ⟨r, hr, rfl⟩ := Option.map_eq_some_iff.mp hstate
      refine ⟨r, ?_, rfl⟩
      rw [hkey key group r hg hr, ← ((hgrouped key group).mp hg).1]
      exact hr
    · have hne : recordsOfKey surface.records r.objectKey ≠ [] :=
        List.ne_nil_of_mem (List.mem_filter.mpr ⟨hr, decide_eq_true rfl⟩)
      obtain ⟨last, hlast⟩ := exists_latestOf hne
      have hg := (hgrouped r.objectKey _).mpr ⟨rfl, hne⟩
      refine ⟨stateFromFullRecord last, hperm.mem_iff.mpr (List.mem_filterMap.mpr
        ⟨_, hg, by rw [hlast]; rfl⟩), hkey _ _ _ hg hlast⟩

end Cove
