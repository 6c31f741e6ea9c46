import Cove.ObjectTemporal.Replay
import Cove.Map.ProjectionModel

/-!
# Two replays of one history

Object states are reconstructed twice: by the reader, whose tombstones keep the
properties of the object, and by the projection layer, whose tombstones forget them. A
delta after a tombstone therefore brings the object back with its old properties on one
side and with those of the delta alone on the other.

- `RevivedWhole`: whatever an object held at a tombstone is set again by the deltas
  that revive it.
- `replay_agrees`: both replays of one object, and when they agree on its properties.
- `reconstruct_agrees_iff`: **both reconstructions give the same rows at a cut exactly
  when every revived object is revived whole**.
-/

namespace Cove

/-! ## The projection's replay -/

def projectAll (current : Option ProjectionRow) (records : List CoveObjectRecord) :
    Option ProjectionRow :=
  (records.map rowFromSurfaceRecord).foldl replayProjectionRow current

theorem projectAll_append (current : Option ProjectionRow) (xs ys : List CoveObjectRecord) :
    projectAll current (xs ++ ys) = projectAll (projectAll current xs) ys := by
  simp [projectAll]

theorem rowFromReconstructedState_full (record : CoveObjectRecord) :
    rowFromReconstructedState (stateFromFullRecord record) = rowFromSurfaceRecord record := rfl

/-- A delta does the same to a state and to its row. -/
theorem applyProjectionDelta_state (state : CoveObjectState) (record : CoveObjectRecord) :
    applyProjectionDelta (rowFromReconstructedState state) (rowFromSurfaceRecord record) =
      rowFromReconstructedState (applyDeltaRecord state record) := by
  have := KeyedList.merge_map (κ := Nat) projectionProperty
    (fun p : CoveObjectPropertyValue => (rfl : (projectionProperty p).propertyId = p.propertyId))
    state.properties record.properties
  unfold applyProjectionDelta rowFromReconstructedState
  simp only [rowFromSurfaceRecord, this]
  rfl

/-- A delta without a state to merge into is taken as it is. -/
theorem replayProjectionRow_first {d : CoveObjectRecord} (hd : d.recordKind = .delta) :
    replayProjectionRow none (rowFromSurfaceRecord d) = some (rowFromSurfaceRecord d) := by
  simp [replayProjectionRow, rowFromSurfaceRecord, hd]

/-- Both replays of trailing deltas, from a state and a row. -/
theorem replay_deltas {post : List CoveObjectRecord}
    (hpost : ∀ d ∈ post, d.recordKind = .delta) (state : CoveObjectState) (row : ProjectionRow) :
    replayAll (some state) post = some (post.foldl applyDeltaRecord state) ∧
      projectAll (some row) post =
        some ((post.map rowFromSurfaceRecord).foldl applyProjectionDelta row) := by
  induction post generalizing state row with
  | nil => exact ⟨rfl, rfl⟩
  | cons d post ih =>
    obtain ⟨hd, hpost⟩ := List.forall_mem_cons.mp hpost
    have hstate := replayedState_delta state hd
    have hrow : replayProjectionRow (some row) (rowFromSurfaceRecord d) =
        some (applyProjectionDelta row (rowFromSurfaceRecord d)) := by
      simp [replayProjectionRow, rowFromSurfaceRecord, hd]
    obtain ⟨h1, h2⟩ := ih hpost (applyDeltaRecord state d)
      (applyProjectionDelta row (rowFromSurfaceRecord d))
    constructor
    · show replayAll (some (replayedState (some state) d)) post = _
      rw [hstate, h1, List.foldl_cons]
    · show projectAll (replayProjectionRow (some row) (rowFromSurfaceRecord d)) post = _
      rw [hrow, h2, List.map_cons, List.foldl_cons]

theorem foldl_applyDelta_row (post : List CoveObjectRecord) (state : CoveObjectState) :
    (post.map rowFromSurfaceRecord).foldl applyProjectionDelta
        (rowFromReconstructedState state) =
      rowFromReconstructedState (post.foldl applyDeltaRecord state) := by
  induction post generalizing state with
  | nil => rfl
  | cons d post ih =>
    rw [List.map_cons, List.foldl_cons, applyProjectionDelta_state, ih, List.foldl_cons]

/-! ## Reviving an object -/

/-- Deltas that revive the object after a tombstone set again whatever it held there. -/
def RevivedWhole (history : List CoveObjectRecord) : Prop :=
  ∀ pre tomb post, history = pre ++ tomb :: post → tomb.recordKind = .tombstone →
    post ≠ [] → (∀ d ∈ post, d.recordKind = .delta) →
    ∀ id, Carries (pre ++ [tomb]) id → ∃ d ∈ post, id ∈ d.propertyIds

/-- The row without its properties. -/
def ProjectionRow.head (row : ProjectionRow) : ProjectionRow := { row with properties := [] }

/-- Rows of the same record with the same property values. -/
def SameRow (a b : ProjectionRow) : Prop := a.head = b.head ∧ a.properties.Perm b.properties

theorem sameRow_refl (a : ProjectionRow) : SameRow a a := ⟨rfl, .refl _⟩

variable {a b : ProjectionRow} {state : CoveObjectState} {as bs : List ProjectionRow}

theorem head_applyProjectionDelta (h : a.head = b.head) (delta : ProjectionRow) :
    (applyProjectionDelta a delta).head = (applyProjectionDelta b delta).head := by
  obtain ⟨_, _, _, _, _, _, _, _, _, _, _, _⟩ := a
  obtain ⟨_, _, _, _, _, _, _, _, _, _, _, _⟩ := b
  simp_all [ProjectionRow.head, applyProjectionDelta]

section Revive

variable {post : List CoveObjectRecord}

/-- Fold deltas into a row. -/
def applyDeltas (row : ProjectionRow) (post : List CoveObjectRecord) : ProjectionRow :=
  (post.map rowFromSurfaceRecord).foldl applyProjectionDelta row

theorem applyDeltas_cons (row : ProjectionRow) (d : CoveObjectRecord) :
    applyDeltas row (d :: post) =
      applyDeltas (applyProjectionDelta row (rowFromSurfaceRecord d)) post := rfl

theorem rowIds_rowFromSurfaceRecord (d : CoveObjectRecord) :
    (rowFromSurfaceRecord d).properties.map (·.propertyId) = d.propertyIds := by
  simp [rowFromSurfaceRecord, CoveObjectRecord.propertyIds, projectionProperty]

theorem head_applyDeltas (h : a.head = b.head) :
    (applyDeltas a post).head = (applyDeltas b post).head := by
  induction post generalizing a b with
  | nil => exact h
  | cons d post ih => exact ih (head_applyProjectionDelta h _)

theorem mem_ids_applyDeltas {row : ProjectionRow} {id : Nat} :
    id ∈ (applyDeltas row post).properties.map (·.propertyId) ↔
      (∃ d ∈ post, id ∈ d.propertyIds) ∨ id ∈ row.properties.map (·.propertyId) := by
  induction post generalizing row with
  | nil => simp [applyDeltas]
  | cons d post ih =>
    rw [applyDeltas_cons, ih]
    show _ ∨ id ∈ (KeyedList.merge _ row.properties _).map _ ↔ _
    rw [KeyedList.mem_keys_merge, rowIds_rowFromSurfaceRecord]
    simp only [List.mem_cons, exists_eq_or_imp]
    exact or_left_comm.trans or_assoc.symm

theorem nodup_applyDeltas {row : ProjectionRow}
    (h : (row.properties.map (·.propertyId)).Nodup) :
    ((applyDeltas row post).properties.map (·.propertyId)).Nodup := by
  induction post generalizing row with
  | nil => exact h
  | cons d post ih => exact ih (KeyedList.nodup_merge _ h)

/-- What lookup finds in `a` is what it finds in `b`, or else in the old properties. -/
def Over (old : List ProjectionProperty) (a b : ProjectionRow) : Prop :=
  ∀ id, KeyedList.find (·.propertyId) id a.properties =
    (KeyedList.find (·.propertyId) id b.properties).or (KeyedList.find (·.propertyId) id old)

theorem over_applyDeltas {old : List ProjectionProperty}
    (hdistinct : ∀ d ∈ post, d.propertyIds.Nodup) (h : Over old a b) :
    Over old (applyDeltas a post) (applyDeltas b post) := by
  induction post generalizing a b with
  | nil => exact h
  | cons d post ih =>
    obtain ⟨hd, hpost⟩ := List.forall_mem_cons.mp hdistinct
    refine ih hpost fun id => ?_
    have hnodup : ((rowFromSurfaceRecord d).properties.map (·.propertyId)).Nodup := by
      rwa [rowIds_rowFromSurfaceRecord]
    show KeyedList.find _ id (KeyedList.merge _ a.properties _) =
      (KeyedList.find _ id (KeyedList.merge _ b.properties _)).or _
    rw [KeyedList.find_merge _ id hnodup, KeyedList.find_merge _ id hnodup, h id,
      Option.or_assoc]

theorem perm_iff_of_over {old : List ProjectionProperty}
    (ha : (a.properties.map (·.propertyId)).Nodup)
    (hb : (b.properties.map (·.propertyId)).Nodup) (h : Over old a b) :
    b.properties.Perm a.properties ↔
      ∀ id ∈ old.map (·.propertyId), id ∈ b.properties.map (·.propertyId) := by
  rw [KeyedList.perm_iff_find hb ha]
  refine forall_congr' fun id => ?_
  rw [h id, ← KeyedList.find_isSome, ← KeyedList.find_isSome]
  cases hb : KeyedList.find (·.propertyId) id b.properties with
  | some p => simp
  | none =>
    cases KeyedList.find (·.propertyId) id old <;> simp

/-- A revived object has the same properties on both sides exactly when the deltas that
revive it set all it held. -/
theorem revive_iff {d : CoveObjectRecord}
    (hnodup : (state.properties.map (·.propertyId)).Nodup) (hsame : SameObject d state)
    (hdistinct : ∀ x ∈ d :: post, x.propertyIds.Nodup) :
    let q := applyDeltas (rowFromSurfaceRecord d) post
    let row := applyDeltas (rowFromReconstructedState state) (d :: post)
    q.head = row.head ∧ (q.properties.Perm row.properties ↔
      ∀ id ∈ state.properties.map (·.propertyId), ∃ x ∈ d :: post, id ∈ x.propertyIds) := by
  obtain ⟨hd, hpost⟩ := List.forall_mem_cons.mp hdistinct
  intro q row
  have hids : (rowFromReconstructedState state).properties.map (·.propertyId) =
      state.properties.map (·.propertyId) := by
    simp [rowFromReconstructedState, projectionProperty]
  have hhead : (rowFromSurfaceRecord d).head =
      (applyProjectionDelta (rowFromReconstructedState state) (rowFromSurfaceRecord d)).head := by
    simp [ProjectionRow.head, applyProjectionDelta, rowFromSurfaceRecord,
      rowFromReconstructedState, hsame.objectTypeId, hsame.objectTypeName,
      hsame.objectTypeFlags, hsame.branchKey, hsame.goid]
  have hdnodup : ((rowFromSurfaceRecord d).properties.map (·.propertyId)).Nodup := by
    rwa [rowIds_rowFromSurfaceRecord]
  have hover : Over (rowFromReconstructedState state).properties
      (applyProjectionDelta (rowFromReconstructedState state) (rowFromSurfaceRecord d))
      (rowFromSurfaceRecord d) := fun id => KeyedList.find_merge _ id hdnodup
  refine ⟨head_applyDeltas hhead, ?_⟩
  have hrow : (row.properties.map (·.propertyId)).Nodup := by
    refine nodup_applyDeltas ?_
    rwa [hids]
  have hrows : Over (rowFromReconstructedState state).properties row q :=
    over_applyDeltas hpost hover
  rw [perm_iff_of_over hrow (nodup_applyDeltas hdnodup) hrows, hids]
  refine forall₂_congr fun id _ => ?_
  rw [mem_ids_applyDeltas, rowIds_rowFromSurfaceRecord]
  simp only [List.mem_cons, exists_eq_or_imp]
  exact or_comm

end Revive

/-! ## One object -/

theorem tombstoned_of_replay {tomb : CoveObjectRecord} (h : tomb.recordKind = .tombstone)
    (pre : List CoveObjectRecord) :
    ∃ state, replayAll none (pre ++ [tomb]) = some state ∧
      state.tombstoneStatus = .tombstoned ∧
      projectAll none (pre ++ [tomb]) = none := by
  rw [replayAll_snoc, projectAll_append]
  refine ⟨_, rfl, ?_, ?_⟩
  · exact replayedState_tombstoned h
  · cases hq : projectAll none pre <;>
      simp [projectAll, replayProjectionRow, rowFromSurfaceRecord, h]

theorem live_foldl {post : List CoveObjectRecord} (h : state.tombstoneStatus = .live ∨ post ≠ []) :
    (post.foldl applyDeltaRecord state).tombstoneStatus = .live := by
  induction post generalizing state with
  | nil => exact h.resolve_right fun h => h rfl
  | cons d post ih => exact ih (.inl rfl)

/-- **One object under both replays.** A tombstoned object has no projection row; a live
one has a row that agrees with its state on everything but, unless the object was revived
whole, its properties. -/
theorem replay_agrees {history : List CoveObjectRecord}
    (hkind : ∀ r ∈ history, r.recordKind ≠ .reservedLegacyMaterializedDelta)
    (hdistinct : ∀ r ∈ history, r.propertyIds.Nodup)
    (hsame : ∀ r ∈ history, ∀ x ∈ history, SameObject r (stateFromFullRecord x))
    (h : replayAll none history = some state) :
    (state.tombstoneStatus = .tombstoned ∧ projectAll none history = none ∧
        RevivedWhole history) ∨
      (state.tombstoneStatus = .live ∧ ∃ row, projectAll none history = some row ∧
        row.head = (rowFromReconstructedState state).head ∧
        (row.properties.Perm (rowFromReconstructedState state).properties ↔
          RevivedWhole history)) := by
  obtain ⟨pre, post, rfl, hpost, hpre⟩ := exists_trailing_deltas history
  -- replaying deltas from a state and from its own row
  have hplain : ∀ s : CoveObjectState, s.tombstoneStatus = .live →
      replayAll none pre = some s → projectAll none pre = some (rowFromReconstructedState s) →
      RevivedWhole (pre ++ post) →
      (state.tombstoneStatus = .live ∧ ∃ row, projectAll none (pre ++ post) = some row ∧
        row.head = (rowFromReconstructedState state).head ∧
        (row.properties.Perm (rowFromReconstructedState state).properties ↔
          RevivedWhole (pre ++ post))) := by
    intro s hlive hs hq hwhole
    obtain ⟨h1, h2⟩ := replay_deltas hpost s (rowFromReconstructedState s)
    rw [replayAll_append, hs, h1] at h
    obtain rfl := Option.some.inj h
    refine ⟨live_foldl (.inl hlive), _, by rw [projectAll_append, hq, h2], ?_⟩
    rw [foldl_applyDelta_row]
    exact ⟨rfl, iff_of_true (.refl _) hwhole⟩
  rcases hpre with rfl | ⟨pre, x, rfl, hx⟩
  · -- only deltas: the first one is taken as it is
    rw [List.nil_append] at *
    have hwhole : RevivedWhole post := by
      rintro pre tomb post' rfl htomb _ _
      have := hpost tomb (by simp)
      rw [htomb] at this
      cases this
    cases post with
    | nil => cases h
    | cons d post =>
      obtain ⟨hd, hrest⟩ := List.forall_mem_cons.mp hpost
      obtain ⟨h1, h2⟩ := replay_deltas hrest (stateFromFullRecord d) (rowFromSurfaceRecord d)
      have hstate : replayAll none (d :: post) =
          replayAll (some (stateFromFullRecord d)) post := by
        show replayAll (some (replayedState none d)) post = _
        rw [replayedState_none]
      have hrow : projectAll none (d :: post) = projectAll (some (rowFromSurfaceRecord d)) post := by
        show projectAll (replayProjectionRow none (rowFromSurfaceRecord d)) post = _
        rw [replayProjectionRow_first hd]
      rw [hstate, h1] at h
      obtain rfl := Option.some.inj h
      refine .inr ⟨live_foldl (.inl (by simp [stateFromFullRecord, hd])), _, hrow.trans h2, ?_⟩
      rw [← rowFromReconstructedState_full, foldl_applyDelta_row]
      exact ⟨rfl, iff_of_true (.refl _) hwhole⟩
  · by_cases htomb : x.recordKind = .tombstone
    · obtain ⟨s, hs, hdead, hq⟩ := tombstoned_of_replay htomb pre
      have hcut : ∀ {pre' tomb post'}, pre ++ [x] ++ post = pre' ++ tomb :: post' →
          tomb.recordKind = .tombstone → (∀ d ∈ post', d.recordKind = .delta) →
          pre = pre' ∧ x = tomb ∧ post = post' := by
        intro pre' tomb post' heq ht hdeltas
        rw [List.append_assoc] at heq
        exact last_nondelta_unique heq hx (by simp [ht]) hpost hdeltas
      cases post with
      | nil =>
        rw [List.append_nil] at h
        rw [List.append_nil, hq]
        rw [hs] at h
        obtain rfl := Option.some.inj h
        refine .inl ⟨hdead, rfl, ?_⟩
        intro pre' tomb post' heq ht hne hdeltas
        exact absurd (hcut (by simpa using heq) ht hdeltas).2.2.symm hne
      | cons d post =>
        -- the deltas after the tombstone bring the object back
        right
        obtain ⟨hd, hrest⟩ := List.forall_mem_cons.mp hpost
        have hrow : projectAll none (pre ++ [x] ++ d :: post) =
            some (applyDeltas (rowFromSurfaceRecord d) post) := by
          rw [projectAll_append, hq]
          show projectAll (replayProjectionRow none (rowFromSurfaceRecord d)) post = _
          rw [replayProjectionRow_first hd]
          exact (replay_deltas hrest s _).2
        rw [replayAll_append, hs, (replay_deltas hpost s (rowFromSurfaceRecord d)).1] at h
        obtain rfl := Option.some.inj h
        have hsub : ∀ r ∈ pre ++ [x], r ∈ pre ++ [x] ++ d :: post := fun r hr =>
          List.mem_append_left _ hr
        have hdmem : d ∈ pre ++ [x] ++ d :: post := by simp
        obtain ⟨hnodup, hcarries⟩ := replayAll_carries (fun r hr => hkind r (hsub r hr))
          (fun r hr => hdistinct r (hsub r hr)) hs
        obtain ⟨hhead, hperm⟩ := revive_iff hnodup
          (replayAll_sameObject (fun r hr => hsame d hdmem r (hsub r hr)) hs)
          (fun r hr => hdistinct r (List.mem_append_right _ hr))
        refine ⟨live_foldl (.inr (List.cons_ne_nil _ _)), _, hrow, ?_⟩
        rw [← foldl_applyDelta_row]
        refine ⟨hhead, hperm.trans ?_⟩
        simp only [hcarries]
        constructor
        · intro hall pre' tomb post' heq ht _ hdeltas id hid
          obtain ⟨rfl, rfl, rfl⟩ := hcut heq ht hdeltas
          exact hall id hid
        · intro hwhole id hid
          exact hwhole pre x (d :: post) (by simp) htomb (List.cons_ne_nil _ _) hpost id hid
    · -- a full record starts afresh on both sides
      have hxfull : x.recordKind.isFull = true := by
        have := hkind x (by simp)
        cases hk : x.recordKind <;> simp_all [RecordKind.isFull]
      refine .inr (hplain (stateFromFullRecord x) (by simp [stateFromFullRecord, htomb]) ?_ ?_ ?_)
      · rw [replayAll_snoc, replayedState_full _ hxfull]
      · rw [projectAll_append]
        cases hk : x.recordKind <;> simp_all [RecordKind.isFull, projectAll,
          replayProjectionRow, rowFromSurfaceRecord, rowFromReconstructedState_full]
      · intro pre' tomb post' heq ht _ hdeltas
        rw [List.append_assoc] at heq
        obtain ⟨_, rfl, _⟩ := last_nondelta_unique heq hx (by simp [ht]) hpost hdeltas
        exact absurd ht htomb

/-! ## All objects -/

/-- The records of one object that a cut shows, in replay order. -/
def historyAt (surface : CoveObjectSurface) (cut : CoveObjectTemporalCut) (key : ObjectKey) :
    List CoveObjectRecord :=
  replayOrder ((visibleRecords ⟨cut, none, false⟩ surface.records).filter
    fun record => record.objectKey = key)

/-- The state a group is replayed to. -/
def stateOfGroup (group : ObjectKey × List CoveObjectRecord) : Option CoveObjectState :=
  (replayAll none (replayOrder group.2)).filter fun state => state.tombstoneStatus == .live

theorem statesOfGroups_eq_ok {groups : List (ObjectKey × List CoveObjectRecord)}
    {states : List CoveObjectState} (h : statesOfGroups false groups = .ok states) :
    states = groups.filterMap stateOfGroup ∧
      ∀ g ∈ groups, ∀ r ∈ g.2, r.recordKind ≠ .reservedLegacyMaterializedDelta := by
  obtain ⟨hall, rfl⟩ := statesOfGroups_eq_ok_iff.mp h
  refine ⟨rfl, fun g hg r hr => ?_⟩
  obtain ⟨current, hcur⟩ := hall g hg
  exact (replayRecords_eq_ok hcur).1 r ((List.mem_insertionSort _).mpr hr)

/-- The row a group is replayed to. -/
def rowOfGroup (group : ObjectKey × List CoveObjectRecord) : Option ProjectionRow :=
  projectAll none (replayOrder group.2)

theorem temporalOrder_map (records : List CoveObjectRecord) :
    temporalOrder (records.map rowFromSurfaceRecord) =
      (replayOrder records).map rowFromSurfaceRecord :=
  (List.map_insertionSort _ _ rowFromSurfaceRecord records fun _ _ _ _ => Iff.rfl).symm

theorem rowVisibleAtCut_record (cut : CoveObjectTemporalCut) (record : CoveObjectRecord) :
    rowVisibleAtCut cut (rowFromSurfaceRecord record) = recordVisibleAtCut record cut := by
  cases cut <;> rfl

/-- The projection layer reconstructs from the same groups. -/
theorem reconstructProjectionRowsAtCut_eq (records : List CoveObjectRecord)
    (cut : CoveObjectTemporalCut) :
    reconstructProjectionRowsAtCut (records.map rowFromSurfaceRecord) (rowVisibleAtCut cut) =
      temporalOrder ((Grouping.grouped CoveObjectRecord.objectKey
        (visibleRecords ⟨cut, none, false⟩ records)).filterMap rowOfGroup) := by
  have hfilter : (records.map rowFromSurfaceRecord).filter (rowVisibleAtCut cut) =
      (visibleRecords ⟨cut, none, false⟩ records).map rowFromSurfaceRecord := by
    rw [List.filter_map]
    refine congrArg (List.map rowFromSurfaceRecord) (List.filter_congr fun r _ => ?_)
    show rowVisibleAtCut cut (rowFromSurfaceRecord r) = recordVisibleAtCut r cut
    exact rowVisibleAtCut_record cut r
  unfold reconstructProjectionRowsAtCut
  rw [hfilter, Grouping.grouped_map rowFromSurfaceRecord fun _ => rfl, List.filterMap_map]
  congr 1
  refine List.filterMap_congr fun g _ => ?_
  show replayProjectionRows (g.2.map rowFromSurfaceRecord) = _
  unfold replayProjectionRows
  rw [temporalOrder_map]
  exact rfl

/-- The states before they are sorted. -/
theorem reconstructObjectStates_eq_ok {surface : CoveObjectSurface}
    {cut : CoveObjectTemporalCut} {states : List CoveObjectState}
    (h : reconstructObjectStates surface ⟨cut, none, false⟩ = .ok states) :
    states = ((Grouping.grouped CoveObjectRecord.objectKey
        (visibleRecords ⟨cut, none, false⟩ surface.records)).filterMap
          stateOfGroup).insertionSort (fun a b => a.sortKey ≤ b.sortKey) ∧
      ∀ r ∈ visibleRecords ⟨cut, none, false⟩ surface.records,
        r.recordKind ≠ .reservedLegacyMaterializedDelta := by
  obtain ⟨_, _, h⟩ := Checked.bind_eq_ok.mp h
  obtain ⟨unsorted, hstates, h⟩ := Checked.bind_eq_ok.mp h
  obtain rfl := Except.ok.inj h
  obtain ⟨rfl, hkind⟩ := statesOfGroups_eq_ok hstates
  refine ⟨rfl, fun r hr => ?_⟩
  have hmem : r ∈ (visibleRecords ⟨cut, none, false⟩ surface.records).filter
      fun x => x.objectKey = r.objectKey := List.mem_filter.mpr ⟨hr, by simp⟩
  exact hkind _ (Grouping.mem_grouped.mpr ⟨rfl, List.ne_nil_of_mem hmem⟩) r hmem

section Surface

variable {surface : CoveObjectSurface} {cut : CoveObjectTemporalCut}
  {states : List CoveObjectState} {group : ObjectKey × List CoveObjectRecord}

/-- One group under both replays. -/
theorem group_agrees
    (hkind : ∀ r ∈ visibleRecords ⟨cut, none, false⟩ surface.records,
      r.recordKind ≠ .reservedLegacyMaterializedDelta)
    (hgroup : group ∈ Grouping.grouped CoveObjectRecord.objectKey
      (visibleRecords ⟨cut, none, false⟩ surface.records)) :
    replayOrder group.2 = historyAt surface cut group.1 ∧
      ((stateOfGroup group = none ∧ rowOfGroup group = none ∧
          RevivedWhole (historyAt surface cut group.1)) ∨
        ∃ state row, stateOfGroup group = some state ∧ rowOfGroup group = some row ∧
          row.objectKey = group.1 ∧ (rowFromReconstructedState state).objectKey = group.1 ∧
          row.head = (rowFromReconstructedState state).head ∧
          (SameRow row (rowFromReconstructedState state) ↔
            RevivedWhole (historyAt surface cut group.1))) := by
  obtain ⟨key, records⟩ := group
  obtain ⟨rfl, hne⟩ := Grouping.mem_grouped.mp hgroup
  refine ⟨rfl, ?_⟩
  have hmem : ∀ r ∈ historyAt surface cut key,
      r ∈ visibleRecords ⟨cut, none, false⟩ surface.records ∧ r.objectKey = key := by
    intro r hr
    have := List.mem_filter.mp ((List.mem_insertionSort _).mp hr)
    exact ⟨this.1, by simpa using this.2⟩
  have hrecord : ∀ r ∈ historyAt surface cut key, r ∈ surface.records := fun r hr =>
    (List.mem_filter.mp (hmem r hr).1).1
  have hsame : ∀ r ∈ historyAt surface cut key, ∀ x ∈ historyAt surface cut key,
      SameObject r (stateFromFullRecord x) := by
    intro r hr x hx
    have hkeys : r.objectKey = x.objectKey := (hmem r hr).2.trans (hmem x hx).2.symm
    simp only [CoveObjectRecord.objectKey, EmbeddingLike.apply_eq_iff_eq, Prod.mk.injEq] at hkeys
    obtain ⟨htype, hbranch, hgoid⟩ := hkeys
    obtain ⟨hname, hflags⟩ := surface.catalogued r (hrecord r hr) x (hrecord x hx) htype
    exact ⟨htype, hname, hflags, hbranch, hgoid⟩
  have hhistory : historyAt surface cut key ≠ [] := by
    intro h
    exact hne (List.length_eq_zero_iff.mp (by
      rw [← List.length_insertionSort (fun a b => recordSortKey a ≤ recordSortKey b)]
      exact congrArg List.length h))
  obtain ⟨state, hstate⟩ := exists_replayAll hhistory
  have hkey : (rowFromReconstructedState state).objectKey = key := by
    obtain ⟨r, hr⟩ := List.exists_mem_of_ne_nil _ hhistory
    have hobj := replayAll_sameObject (hsame r hr) hstate
    rw [← (hmem r hr).2]
    simp [ProjectionRow.objectKey, CoveObjectRecord.objectKey, rowFromReconstructedState,
      hobj.objectTypeId, hobj.branchKey, hobj.goid]
  show (stateOfGroup (key, _) = none ∧ projectAll none (historyAt surface cut key) = none ∧ _) ∨
    ∃ state row, _ ∧ projectAll none (historyAt surface cut key) = some row ∧ _
  have hof : stateOfGroup (key, (visibleRecords ⟨cut, none, false⟩ surface.records).filter
      fun r => r.objectKey = key) =
      (some state).filter fun state => state.tombstoneStatus == .live := by
    rw [← hstate]
    rfl
  rcases replay_agrees (fun r hr => hkind r (hmem r hr).1)
    (fun r hr => surface.distinct r (hrecord r hr)) hsame hstate with
    ⟨hdead, hrow, hwhole⟩ | ⟨hlive, row, hrow, hhead, hperm⟩
  · exact .inl ⟨by rw [hof]; simp [hdead], hrow, hwhole⟩
  · refine .inr ⟨state, row, by rw [hof]; simp [hlive], hrow, ?_, hkey, hhead, ?_⟩
    · rw [← hkey]
      show row.head.objectKey = (rowFromReconstructedState state).head.objectKey
      rw [hhead]
    · exact ⟨fun h => hperm.mp h.2, fun h => ⟨hhead, hperm.mpr h⟩⟩

theorem sortKey_le_of_objectKey_lt {a b : CoveObjectState}
    (h : (rowFromReconstructedState a).objectKey < (rowFromReconstructedState b).objectKey) :
    a.sortKey ≤ b.sortKey := by
  simp only [ProjectionRow.objectKey, rowFromReconstructedState, Prod.Lex.lt_iff,
    ofLex_toLex] at h
  simp only [CoveObjectState.sortKey, Prod.Lex.le_iff, ofLex_toLex]
  tauto

/-- The states of a cut are those of its groups, in key order. -/
theorem states_eq (h : reconstructObjectStates surface ⟨cut, none, false⟩ = .ok states) :
    states = (Grouping.grouped CoveObjectRecord.objectKey
      (visibleRecords ⟨cut, none, false⟩ surface.records)).filterMap stateOfGroup := by
  obtain ⟨rfl, hkind⟩ := reconstructObjectStates_eq_ok h
  refine List.Pairwise.insertionSort_eq (List.pairwise_filterMap.mpr ?_)
  have hsorted := List.pairwise_map.mp (Grouping.sorted_grouped CoveObjectRecord.objectKey
    (visibleRecords ⟨cut, none, false⟩ surface.records))
  refine hsorted.imp_of_mem fun {g g'} hg hg' hlt state hstate state' hstate' => ?_
  have hkeys : ∀ {g : ObjectKey × List CoveObjectRecord} {state : CoveObjectState},
      g ∈ Grouping.grouped CoveObjectRecord.objectKey
        (visibleRecords ⟨cut, none, false⟩ surface.records) →
      stateOfGroup g = some state → (rowFromReconstructedState state).objectKey = g.1 := by
    intro g state hg hstate
    rcases (group_agrees hkind hg).2 with ⟨hnone, _⟩ | ⟨s, row, hs, _, _, hkey, _⟩
    · rw [hstate] at hnone
      cases hnone
    · rw [hstate] at hs
      obtain rfl := Option.some.inj hs
      exact hkey
  apply sortKey_le_of_objectKey_lt
  rw [hkeys hg hstate, hkeys hg' hstate']
  exact hlt

end Surface

/-! ## Sorting rows that correspond -/

theorem temporalSortKey_head (row : ProjectionRow) :
    temporalSortKey row.head = temporalSortKey row := rfl

theorem temporalSortKey_eq (h : SameRow a b) :
    temporalSortKey a = temporalSortKey b := by
  rw [← temporalSortKey_head a, h.1, temporalSortKey_head]

theorem forall₂_orderedInsert (h : SameRow a b) (hs : List.Forall₂ SameRow as bs) :
    List.Forall₂ SameRow
      (as.orderedInsert (fun x y => temporalSortKey x ≤ temporalSortKey y) a)
      (bs.orderedInsert (fun x y => temporalSortKey x ≤ temporalSortKey y) b) := by
  induction hs with
  | nil => exact .cons h .nil
  | @cons x y as bs hxy hs ih =>
    unfold List.orderedInsert
    rw [temporalSortKey_eq h, temporalSortKey_eq hxy]
    split
    · exact .cons h (.cons hxy hs)
    · exact .cons hxy ih

theorem forall₂_temporalOrder (h : List.Forall₂ SameRow as bs) :
    List.Forall₂ SameRow (temporalOrder as) (temporalOrder bs) := by
  induction h with
  | nil => exact .nil
  | cons h _ ih => exact forall₂_orderedInsert h ih

/-- The same rows, in any order. -/
def RowsAgree (rows rows' : List ProjectionRow) : Prop :=
  ∃ l, l.Perm rows ∧ List.Forall₂ SameRow l rows'

section Agreement

variable {surface : CoveObjectSurface} {cut : CoveObjectTemporalCut}
  {states : List CoveObjectState}

theorem mem_of_forall₂ (h : List.Forall₂ SameRow as bs)
    {b : ProjectionRow} (hb : b ∈ bs) : ∃ a ∈ as, SameRow a b := by
  induction h with
  | nil => cases hb
  | @cons x y as bs hxy _ ih =>
    rcases List.mem_cons.mp hb with rfl | hb
    · exact ⟨x, List.mem_cons_self, hxy⟩
    · obtain ⟨a, ha, hab⟩ := ih hb
      exact ⟨a, List.mem_cons_of_mem _ ha, hab⟩

/-- The rows of the groups correspond one by one when every object is revived whole. -/
theorem forall₂_groups {groups : List (ObjectKey × List CoveObjectRecord)}
    (h : ∀ g ∈ groups, (stateOfGroup g = none ∧ rowOfGroup g = none) ∨
      ∃ state row, stateOfGroup g = some state ∧ rowOfGroup g = some row ∧
        SameRow row (rowFromReconstructedState state)) :
    List.Forall₂ SameRow (groups.filterMap rowOfGroup)
      ((groups.filterMap stateOfGroup).map rowFromReconstructedState) := by
  induction groups with
  | nil => exact .nil
  | cons g groups ih =>
    obtain ⟨hg, hgroups⟩ := List.forall_mem_cons.mp h
    rw [List.filterMap_cons, List.filterMap_cons]
    rcases hg with ⟨hstate, hrow⟩ | ⟨state, row, hstate, hrow, hsame⟩
    · rw [hstate, hrow]
      exact ih hgroups
    · rw [hstate, hrow]
      exact .cons hsame (ih hgroups)

/-- The objects that no cut shows have no history to revive. -/
theorem revivedWhole_of_not_grouped {key : ObjectKey}
    (h : ∀ g ∈ Grouping.grouped CoveObjectRecord.objectKey
      (visibleRecords ⟨cut, none, false⟩ surface.records), g.1 ≠ key) :
    RevivedWhole (historyAt surface cut key) := by
  have hnil : (visibleRecords ⟨cut, none, false⟩ surface.records).filter
      (fun r => r.objectKey = key) = [] := by
    by_contra hne
    exact h _ (Grouping.mem_grouped.mpr ⟨rfl, hne⟩) rfl
  have hhistory : historyAt surface cut key = [] := by
    unfold historyAt
    rw [hnil]
    rfl
  rw [hhistory]
  rintro pre tomb post h
  simp at h

/-- The rows in group order, before the final sort. -/
theorem forall₂_of_revivedWhole
    (h : reconstructObjectStates surface ⟨cut, none, false⟩ = .ok states)
    (hwhole : ∀ key, RevivedWhole (historyAt surface cut key)) :
    List.Forall₂ SameRow ((Grouping.grouped CoveObjectRecord.objectKey
      (visibleRecords ⟨cut, none, false⟩ surface.records)).filterMap rowOfGroup)
      (states.map rowFromReconstructedState) := by
  rw [states_eq h]
  refine forall₂_groups fun g hg => ?_
  rcases (group_agrees (reconstructObjectStates_eq_ok h).2 hg).2 with
    ⟨hstate, hrow, _⟩ | ⟨state, row, hstate, hrow, _, _, _, hiff⟩
  · exact .inl ⟨hstate, hrow⟩
  · exact .inr ⟨state, row, hstate, hrow, hiff.mpr (hwhole g.1)⟩

/-- The rows of a cut agree with its states exactly when every object is revived whole. -/
theorem rowsAgree_iff (h : reconstructObjectStates surface ⟨cut, none, false⟩ = .ok states) :
    RowsAgree (reconstructProjectionRowsAtCut (surface.records.map rowFromSurfaceRecord)
        (rowVisibleAtCut cut)) (states.map rowFromReconstructedState) ↔
      ∀ key, RevivedWhole (historyAt surface cut key) := by
  have hkind := (reconstructObjectStates_eq_ok h).2
  rw [reconstructProjectionRowsAtCut_eq]
  constructor
  · rintro ⟨l, hperm, hforall⟩ key
    by_cases hgrouped : ∀ g ∈ Grouping.grouped CoveObjectRecord.objectKey
        (visibleRecords ⟨cut, none, false⟩ surface.records), g.1 ≠ key
    · exact revivedWhole_of_not_grouped hgrouped
    push Not at hgrouped
    obtain ⟨g, hg, rfl⟩ := hgrouped
    rcases (group_agrees hkind hg).2 with
      ⟨_, _, hwhole⟩ | ⟨state, row, hstate, hrow, _, hkey, _, hiff⟩
    · exact hwhole
    · -- the row with the key of this group can only be its own
      rw [states_eq h] at hforall
      obtain ⟨a, ha, hsame⟩ := mem_of_forall₂ hforall
        (List.mem_map_of_mem (List.mem_filterMap.mpr ⟨g, hg, hstate⟩))
      have ha' := (List.mem_insertionSort _).mp (hperm.mem_iff.mp ha)
      obtain ⟨g', hg', hrow'⟩ := List.mem_filterMap.mp ha'
      have hkey' : a.objectKey = g'.1 := by
        rcases (group_agrees hkind hg').2 with
          ⟨_, hnone, _⟩ | ⟨_, row', _, hsome, hkey', _⟩
        · rw [hrow'] at hnone
          cases hnone
        · rw [hrow'] at hsome
          obtain rfl := Option.some.inj hsome
          exact hkey'
      have hhead : a.objectKey = (rowFromReconstructedState state).objectKey := by
        show a.head.objectKey = (rowFromReconstructedState state).head.objectKey
        rw [hsame.1]
      have hgg : g'.1 = g.1 := by rw [← hkey', hhead, hkey]
      obtain rfl : g' = g := by
        obtain ⟨hrecords', _⟩ := Grouping.mem_grouped.mp (show (g'.1, g'.2) ∈ _ from hg')
        obtain ⟨hrecords, _⟩ := Grouping.mem_grouped.mp (show (g.1, g.2) ∈ _ from hg)
        exact Prod.ext hgg (by rw [hrecords', hrecords, hgg])
      rw [hrow] at hrow'
      obtain rfl := Option.some.inj hrow'
      exact hiff.mp hsame
  · intro hwhole
    exact ⟨_, (List.perm_insertionSort _ _).symm, forall₂_of_revivedWhole h hwhole⟩

/-- The temporal mode of a cut. -/
def asOfMode : CoveObjectTemporalCut → ProjectionTemporalMode
  | .latestCommitted => .latestCommitted
  | .timestampUs timestampUs => .asOfTimestamp timestampUs
  | .csn csn => .asOfCsn csn

/-- The rows of a cut's mode are those reconstructed at the cut. -/
theorem rowsOfMode_asOf (model : ProjectionModel) (hcut : cut ≠ .latestCommitted) :
    model.rowsOfMode (asOfMode cut) =
      .ok (reconstructProjectionRowsAtCut model.rows (rowVisibleAtCut cut)) := by
  cases cut with
  | latestCommitted => exact absurd rfl hcut
  | timestampUs timestampUs => rfl
  | csn csn => rfl

/-- The rows of a cut are its states; and when no record is beyond the cut, the mode of the
cut gives the rows of the latest committed mode. -/
def CutAgrees (surface : CoveObjectSurface) (cut : CoveObjectTemporalCut)
    (states : List CoveObjectState) : Prop :=
  RowsAgree (reconstructProjectionRowsAtCut (surface.records.map rowFromSurfaceRecord)
      (rowVisibleAtCut cut)) (states.map rowFromReconstructedState) ∧
    ((∀ r ∈ surface.records, recordVisibleAtCut r cut = true) →
      ∀ evidence model, ProjectionModel.fromSurface surface evidence = .ok model →
        ∃ rows latest, model.rowsOfMode (asOfMode cut) = .ok rows ∧
          model.rowsOfMode .latestCommitted = .ok latest ∧ List.Forall₂ SameRow rows latest)

/-- **Both reconstructions give the same rows at a cut exactly when every revived object is
revived whole.** -/
theorem reconstruct_agrees_iff
    (h : reconstructObjectStates surface ⟨cut, none, false⟩ = .ok states) :
    CutAgrees surface cut states ↔ ∀ key, RevivedWhole (historyAt surface cut key) := by
  constructor
  · exact fun hagree => (rowsAgree_iff h).mp hagree.1
  · intro hwhole
    refine ⟨(rowsAgree_iff h).mpr hwhole, fun hall evidence model hmodel => ?_⟩
    obtain ⟨latest, hlatest, hmodel⟩ := Checked.bind_eq_ok.mp hmodel
    obtain rfl := Except.ok.inj hmodel
    have hvisible : visibleRecords ⟨.latestCommitted, none, false⟩ surface.records =
        visibleRecords ⟨cut, none, false⟩ surface.records := by
      refine List.filter_congr fun r hr => ?_
      show true = recordVisibleAtCut r cut
      exact (hall r hr).symm
    obtain rfl : latest = states := by
      have hlatest' : reconstructObjectStates surface ⟨.latestCommitted, none, false⟩ =
        .ok latest := hlatest
      rw [states_eq hlatest', states_eq h, hvisible]
    by_cases hcut : cut = .latestCommitted
    · subst hcut
      exact ⟨_, _, rfl, rfl, List.forall₂_same.mpr fun _ _ => sameRow_refl _⟩
    · refine ⟨_, _, rowsOfMode_asOf _ hcut, rfl, ?_⟩
      rw [reconstructProjectionRowsAtCut_eq]
      exact forall₂_temporalOrder (forall₂_of_revivedWhole h hwhole)

end Agreement

/-! ## An object revived in part -/

/-- A baseline and a tombstone in one segment, and a delta in one of another column. -/
def revivedSurface : CoveObjectSurface where
  records := [historyRecord 0 0 0 .baseline none [textProperty 1 ['a']],
    historyRecord 0 1 1 .tombstone (some ⟨0, 0, 1⟩) [textProperty 1 ['a']],
    historyRecord 1 0 2 .delta (some ⟨0, 1, 0⟩) [textProperty 2 ['b']]]
  catalogued := by
    intro r hr r' hr' _
    simp only [List.mem_cons, List.not_mem_nil, or_false] at hr hr'
    rcases hr with rfl | rfl | rfl <;> rcases hr' with rfl | rfl | rfl <;> exact ⟨rfl, rfl⟩
  distinct := by
    intro r hr
    simp only [List.mem_cons, List.not_mem_nil, or_false] at hr
    rcases hr with rfl | rfl | rfl <;> decide

/-- Before the delta, both sides have no row. -/
theorem reconstruct_agrees_before_delta :
    ∃ states, reconstructObjectStates revivedSurface ⟨.csn 1, none, false⟩ = .ok states ∧
      (CutAgrees revivedSurface (.csn 1) states ↔
        ∀ key, RevivedWhole (historyAt revivedSurface (.csn 1) key)) :=
  ⟨_, rfl, reconstruct_agrees_iff rfl⟩

/-- The delta sets property 2 only: the reader also keeps property 1 of the baseline. -/
theorem reconstruct_differs_after_delta :
    ∃ states, reconstructObjectStates revivedSurface ⟨.csn 2, none, false⟩ = .ok states ∧
      ¬RowsAgree (reconstructProjectionRowsAtCut
        (revivedSurface.records.map rowFromSurfaceRecord) (rowVisibleAtCut (.csn 2)))
        (states.map rowFromReconstructedState) := by
  refine ⟨_, rfl, fun h => ?_⟩
  have hwhole := (rowsAgree_iff rfl).mp h (toLex (0, toLex (0, 7)))
  obtain ⟨d, hd, hid⟩ := hwhole [historyRecord 0 0 0 .baseline none [textProperty 1 ['a']]]
    (historyRecord 0 1 1 .tombstone (some ⟨0, 0, 1⟩) [textProperty 1 ['a']])
    [historyRecord 1 0 2 .delta (some ⟨0, 1, 0⟩) [textProperty 2 ['b']]] rfl rfl nofun
    (by simp [historyRecord]) 1
    ⟨[], _, _, rfl, by decide, nofun, by simp [historyRecord, RecordKind.isFull]⟩
  obtain rfl := List.mem_singleton.mp hd
  exact absurd hid (by decide)

end Cove
