import Cove.Lib.SortedList
import Cove.ObjectTemporal.Replay

/-!
# The order of the records, and what the states hold

Reconstruction sorts the records of each object before it replays them, so the order in
which they are supplied is forgotten. What a replayed state holds is what the last
records set, except that a tombstone keeps the properties it ends.

- `reconstructObjectStates_perm`: **the order of the records does not matter**.
- `SetLast`: the value that the last record carrying a property set, with no full record
  and no tombstone after it.
- `TombstonesEmptied`: what an object held at a tombstone is set again by the deltas
  after it.
- `reconstruct_holds_latest_iff`: **the states hold what was set last exactly when every
  tombstone is emptied**.
-/

namespace Cove

/-- Where a record stands in the file. -/
def CoveObjectRecord.place (r : CoveObjectRecord) : Nat × Nat := (r.segmentId, r.rowIndex)

/-! ## The order of the records -/

variable {includeTombstones : Bool} {surface : CoveObjectSurface}
  {history pre : List CoveObjectRecord} {value : CoveObjectPropertyValue} {x : CoveObjectRecord}

section Order

variable {records records' : List CoveObjectRecord}

theorem recordAt_eq_find (records : List CoveObjectRecord) (segmentId rowIndex : Nat) :
    recordAt records segmentId rowIndex =
      KeyedList.find CoveObjectRecord.place (segmentId, rowIndex) records.reverse := by
  unfold recordAt KeyedList.find
  congr 1
  funext r
  rw [Bool.eq_iff_iff]
  simp [CoveObjectRecord.place]

/-- With one record a place, the record at a place is found in any order. -/
theorem recordAt_perm (h : records.Perm records')
    (hplaces : (records.map CoveObjectRecord.place).Nodup) (segmentId rowIndex : Nat) :
    recordAt records segmentId rowIndex = recordAt records' segmentId rowIndex := by
  have hrev : records.reverse.Perm records'.reverse :=
    (List.reverse_perm _).trans (h.trans (List.reverse_perm _).symm)
  have hnodup : (records.reverse.map CoveObjectRecord.place).Nodup := by
    rw [List.map_reverse]
    exact List.nodup_reverse.mpr hplaces
  rw [recordAt_eq_find, recordAt_eq_find]
  exact (KeyedList.perm_iff_find hnodup ((hrev.map _).nodup_iff.mp hnodup)).mp hrev _

theorem validatePrevRefs_perm (h : records.Perm records')
    (hplaces : (records.map CoveObjectRecord.place).Nodup) :
    validatePrevRefs records = validatePrevRefs records' := by
  have hvalid : prevRefValid records = prevRefValid records' := by
    funext r
    unfold prevRefValid
    simp only [recordAt_perm h hplaces]
  have hall : records.all (prevRefValid records) = records'.all (prevRefValid records') := by
    rw [hvalid, Bool.eq_iff_iff, List.all_eq_true, List.all_eq_true]
    exact forall_congr' fun r => imp_congr_left h.mem_iff
  unfold validatePrevRefs
  rw [hall]

/-- Records at different places have different sort keys. -/
theorem replayOrder_perm (h : records.Perm records')
    (hplaces : (records.map CoveObjectRecord.place).Nodup) :
    replayOrder records = replayOrder records' := by
  refine SortedList.insertionSort_eq_of_perm recordSortKey h fun a ha b hb hkey => ?_
  refine List.inj_on_of_nodup_map hplaces ha hb ?_
  simp only [recordSortKey, EmbeddingLike.apply_eq_iff_eq, Prod.mk.injEq] at hkey
  exact Prod.ext hkey.2.2.1 hkey.2.2.2.1

/-- Only the replay order of each group counts. -/
theorem statesOfGroups_congr
    {group group' : ObjectKey → List CoveObjectRecord} (keys : List ObjectKey)
    (h : ∀ key ∈ keys, replayOrder (group key) = replayOrder (group' key)) :
    statesOfGroups includeTombstones (keys.map fun key => (key, group key)) =
      statesOfGroups includeTombstones (keys.map fun key => (key, group' key)) := by
  induction keys with
  | nil => rfl
  | cons key keys ih =>
    obtain ⟨hkey, hkeys⟩ := List.forall_mem_cons.mp h
    rw [List.map_cons, List.map_cons, statesOfGroups, statesOfGroups, hkey, ih hkeys]

/-- Nor does that of the visible ones. -/
theorem statesOfGroups_perm (includeTombstones : Bool) (h : records'.Perm records)
    (hplaces : (records.map CoveObjectRecord.place).Nodup) :
    statesOfGroups includeTombstones (Grouping.grouped CoveObjectRecord.objectKey records') =
      statesOfGroups includeTombstones (Grouping.grouped CoveObjectRecord.objectKey records) := by
  rw [Grouping.grouped_eq_map records', Grouping.grouped_eq_map records,
    Grouping.keys_grouped_perm h]
  refine statesOfGroups_congr _ fun key _ => replayOrder_perm (h.filter _) ?_
  have hplaces' := (h.map CoveObjectRecord.place).nodup_iff.mpr hplaces
  exact hplaces'.sublist (List.filter_sublist.map _)

/-- **The order of the records does not matter.** -/
theorem reconstructObjectStates_perm {surface' : CoveObjectSurface}
    (h : surface'.records.Perm surface.records)
    (hplaces : (surface.records.map CoveObjectRecord.place).Nodup)
    (options : CoveObjectReconstructionOptions) :
    reconstructObjectStates surface' options = reconstructObjectStates surface options := by
  have hvisible : (visibleRecords options surface'.records).Perm
      (visibleRecords options surface.records) := h.filter _
  have hstates := statesOfGroups_perm options.includeTombstones hvisible
    (hplaces.sublist (List.filter_sublist.map _))
  unfold reconstructObjectStates
  rw [← validatePrevRefs_perm h.symm hplaces]
  dsimp only
  rw [hstates]

end Order

/-! ## What was set last -/

/-- `value` is what the latest record carrying property `id` set, with no full record and
no tombstone since. A tombstone ends the properties of its object: it sets none. -/
def SetLast (history : List CoveObjectRecord) (id : Nat) (value : CoveObjectPropertyValue) :
    Prop :=
  ∃ pre r post, history = pre ++ r :: post ∧ r.recordKind ≠ .tombstone ∧
    KeyedList.find (·.propertyId) id r.properties = some value ∧
    ∀ x ∈ post, x.recordKind.isFull = false ∧ x.recordKind ≠ .tombstone ∧ id ∉ x.propertyIds

/-- The state holds of each property what was set last, and nothing else. -/
def HoldsLatest (history : List CoveObjectRecord) (state : CoveObjectState) : Prop :=
  ∀ id value, KeyedList.find (·.propertyId) id state.properties = some value ↔
    SetLast history id value

/-- Deltas after the last tombstone set again whatever the object held there. An object
that ends in its tombstone counts when tombstoned objects are returned. -/
def TombstonesEmptied (includeTombstones : Bool) (history : List CoveObjectRecord) : Prop :=
  ∀ pre tomb post, history = pre ++ tomb :: post → tomb.recordKind = .tombstone →
    (∀ d ∈ post, d.recordKind = .delta) → (includeTombstones = true ∨ post ≠ []) →
    ∀ id, Carries (pre ++ [tomb]) id → ∃ d ∈ post, id ∈ d.propertyIds

variable {id : Nat}

theorem setLast_snoc :
    SetLast (history ++ [x]) id value ↔
      (x.recordKind ≠ .tombstone ∧
          KeyedList.find (·.propertyId) id x.properties = some value) ∨
        (x.recordKind.isFull = false ∧ x.recordKind ≠ .tombstone ∧ id ∉ x.propertyIds ∧
          SetLast history id value) := by
  constructor
  · rintro ⟨pre, r, post, heq, hkind, hvalue, hpost⟩
    rcases List.eq_nil_or_concat post with rfl | ⟨post, y, rfl⟩
    · obtain ⟨rfl, hx⟩ := List.append_inj' heq rfl
      obtain rfl := List.singleton_inj.mp hx
      exact .inl ⟨hkind, hvalue⟩
    · rw [List.concat_eq_append, ← List.cons_append, ← List.append_assoc] at heq
      obtain ⟨rfl, hx⟩ := List.append_inj' heq rfl
      obtain rfl := List.singleton_inj.mp hx
      obtain ⟨hfull, htomb, hid⟩ := hpost x (by simp)
      exact .inr ⟨hfull, htomb, hid, pre, r, post, rfl, hkind, hvalue,
        fun z hz => hpost z (by simp [hz])⟩
  · rintro (⟨hkind, hvalue⟩ | ⟨hfull, htomb, hid, pre, r, post, rfl, hkind, hvalue, hpost⟩)
    · exact ⟨history, x, [], rfl, hkind, hvalue, nofun⟩
    · refine ⟨pre, r, post ++ [x], by simp, hkind, hvalue, fun z hz => ?_⟩
      rcases List.mem_append.mp hz with hz | hz
      · exact hpost z hz
      · rw [List.mem_singleton.mp hz]
        exact ⟨hfull, htomb, hid⟩

theorem not_setLast_nil :
    ¬SetLast [] id value := by
  rintro ⟨pre, r, post, h, _⟩
  simp at h

/-- What a replay holds of a property. -/
def held (current : Option CoveObjectState) (id : Nat) : Option CoveObjectPropertyValue :=
  current.bind fun state => KeyedList.find (·.propertyId) id state.properties

/-- The replay holds of a property what was set last. -/
def HeldIsSet (history : List CoveObjectRecord) (id : Nat) : Prop :=
  ∀ value, held (replayAll none history) id = some value ↔ SetLast history id value

theorem held_delta (current : Option CoveObjectState) {d : CoveObjectRecord}
    (hd : d.recordKind = .delta) (hdistinct : d.propertyIds.Nodup) (id : Nat) :
    held (some (replayedState current d)) id =
      (KeyedList.find (·.propertyId) id d.properties).or (held current id) := by
  cases current with
  | none =>
    rw [replayedState_none]
    exact (Option.or_none).symm
  | some state =>
    rw [replayedState_delta _ hd]
    exact KeyedList.find_merge _ id hdistinct

/-- Deltas settle the properties they carry and leave the others. -/
theorem heldIsSet_append {post : List CoveObjectRecord}
    (hpost : ∀ d ∈ post, d.recordKind = .delta) (hdistinct : ∀ d ∈ post, d.propertyIds.Nodup) :
    HeldIsSet (pre ++ post) id ↔ (∃ d ∈ post, id ∈ d.propertyIds) ∨ HeldIsSet pre id := by
  induction post using List.reverseRecOn with
  | nil => simp
  | append_singleton post d ih =>
    have hd := hpost d (by simp)
    have ih := ih (fun x hx => hpost x (by simp [hx])) fun x hx => hdistinct x (by simp [hx])
    have hheld := held_delta (replayAll none (pre ++ post)) hd (hdistinct d (by simp)) id
    have hstep : HeldIsSet (pre ++ (post ++ [d])) id ↔
        id ∈ d.propertyIds ∨ HeldIsSet (pre ++ post) id := by
      unfold HeldIsSet
      simp only [← List.append_assoc, replayAll_snoc, hheld, setLast_snoc, hd]
      by_cases hid : id ∈ d.propertyIds
      · -- the delta decides on both sides
        obtain ⟨v, hv⟩ := Option.isSome_iff_exists.mp ((KeyedList.find_isSome _).mpr hid)
        simp [hid, hv]
      · have hnone : KeyedList.find (·.propertyId) id d.properties = none := by
          rw [← Option.not_isSome_iff_eq_none, KeyedList.find_isSome]
          exact hid
        simp [hid, hnone, RecordKind.isFull]
    rw [hstep, ih]
    simp only [List.mem_append, List.mem_singleton]
    constructor
    · rintro (hid | ⟨x, hx, hid⟩ | h)
      · exact .inl ⟨d, .inr rfl, hid⟩
      · exact .inl ⟨x, .inl hx, hid⟩
      · exact .inr h
    · rintro (⟨x, hx | rfl, hid⟩ | h)
      · exact .inr (.inl ⟨x, hx, hid⟩)
      · exact .inl hid
      · exact .inr (.inr h)

theorem heldIsSet_nil : HeldIsSet [] id := fun _ =>
  iff_of_false nofun not_setLast_nil

/-- A full record holds what it sets. -/
theorem heldIsSet_full (hx : x.recordKind.isFull = true) : HeldIsSet (pre ++ [x]) id := by
  intro value
  have htomb : x.recordKind ≠ .tombstone := by
    intro h
    simp [h, RecordKind.isFull] at hx
  rw [replayAll_snoc, replayedState_full _ hx, setLast_snoc]
  simp only [hx, Bool.true_eq_false, false_and, or_false]
  exact (and_iff_right htomb).symm

/-- A tombstone sets nothing, and holds what the object carried. -/
theorem heldIsSet_tombstone {tomb : CoveObjectRecord} (htomb : tomb.recordKind = .tombstone)
    (hkind : ∀ r ∈ pre ++ [tomb], r.recordKind ≠ .reservedLegacyMaterializedDelta)
    (hdistinct : ∀ r ∈ pre ++ [tomb], r.propertyIds.Nodup) :
    HeldIsSet (pre ++ [tomb]) id ↔ ¬Carries (pre ++ [tomb]) id := by
  have hset : ∀ value, ¬SetLast (pre ++ [tomb]) id value := by
    intro value h
    rcases setLast_snoc.mp h with h | h
    · exact h.1 htomb
    · exact h.2.1 htomb
  have hstate := replayAll_snoc none pre tomb
  obtain ⟨-, hcarries⟩ := replayAll_carries hkind hdistinct hstate
  unfold HeldIsSet
  rw [← hcarries, ← KeyedList.find_isSome, hstate]
  show (∀ value, KeyedList.find _ id _ = some value ↔ _) ↔ _
  simp only [hset, iff_false, Option.not_isSome_iff_eq_none, Option.eq_none_iff_forall_ne_some]

/-- **One object holds what was set last exactly when its tombstone is emptied.** -/
theorem holdsLatest_iff {state : CoveObjectState}
    (hkind : ∀ r ∈ history, r.recordKind ≠ .reservedLegacyMaterializedDelta)
    (hdistinct : ∀ r ∈ history, r.propertyIds.Nodup)
    (hstate : replayAll none history = some state)
    (hreturned : includeTombstones = true ∨ state.tombstoneStatus = .live) :
    HoldsLatest history state ↔ TombstonesEmptied includeTombstones history := by
  have hheld : HoldsLatest history state ↔ ∀ id, HeldIsSet history id := by
    unfold HoldsLatest HeldIsSet
    rw [hstate]
    exact Iff.rfl
  rw [hheld]
  obtain ⟨pre, post, rfl, hpost, hpre⟩ := exists_trailing_deltas history
  have hsub : ∀ r ∈ pre, r ∈ pre ++ post := fun r hr => List.mem_append_left _ hr
  simp only [heldIsSet_append hpost fun d hd => hdistinct d (List.mem_append_right _ hd)]
  have hnone : (∀ pre' tomb post', pre ++ post = pre' ++ tomb :: post' →
      tomb.recordKind = .tombstone → (∀ d ∈ post', d.recordKind = .delta) → False) →
      TombstonesEmptied includeTombstones (pre ++ post) :=
    fun h pre' tomb post' heq ht hdeltas _ _ _ => (h pre' tomb post' heq ht hdeltas).elim
  rcases hpre with rfl | ⟨pre, x, rfl, hx⟩
  · -- only deltas
    refine iff_of_true (fun id => .inr heldIsSet_nil) (hnone ?_)
    rintro pre' tomb post' heq ht -
    have := hpost tomb (by simp [show post = pre' ++ tomb :: post' from heq])
    rw [ht] at this
    cases this
  · have hlast : ∀ {pre' tomb post'}, pre ++ [x] ++ post = pre' ++ tomb :: post' →
        tomb.recordKind = .tombstone → (∀ d ∈ post', d.recordKind = .delta) →
        pre = pre' ∧ x = tomb ∧ post = post' := by
      intro pre' tomb post' heq ht hdeltas
      rw [List.append_assoc] at heq
      exact last_nondelta_unique heq hx (by rw [ht]; nofun) hpost hdeltas
    by_cases htomb : x.recordKind = .tombstone
    · have hends : includeTombstones = true ∨ post ≠ [] := by
        refine hreturned.imp_right fun hlive hnil => ?_
        subst hnil
        rw [List.append_nil, replayAll_snoc] at hstate
        obtain rfl := Option.some.inj hstate
        rw [replayedState_tombstoned htomb] at hlive
        cases hlive
      simp only [heldIsSet_tombstone htomb (fun r hr => hkind r (hsub r hr))
        fun r hr => hdistinct r (hsub r hr)]
      constructor
      · intro h pre' tomb post' heq ht hdeltas _ id hid
        obtain ⟨rfl, rfl, rfl⟩ := hlast heq ht hdeltas
        exact (h id).resolve_right fun hnot => hnot hid
      · intro h id
        by_cases hid : Carries (pre ++ [x]) id
        · exact .inl (h pre x post (by simp) htomb hpost hends id hid)
        · exact .inr hid
    · -- a full record starts afresh
      have hfull : x.recordKind.isFull = true := by
        have := hkind x (by simp)
        cases hk : x.recordKind <;> simp_all [RecordKind.isFull]
      refine iff_of_true (fun id => .inr (heldIsSet_full hfull)) (hnone ?_)
      intro pre' tomb post' heq ht hdeltas
      obtain ⟨-, rfl, -⟩ := hlast heq ht hdeltas
      exact htomb ht

/-! ## All objects -/

/-- The returned states hold what was set last among their visible records. -/
def StatesHoldLatest (surface : CoveObjectSurface) (options : CoveObjectReconstructionOptions)
    (states : List CoveObjectState) : Prop :=
  ∀ state ∈ states,
    HoldsLatest (visibleHistory options surface.records state.objectKey) state

/-- Every returned state holds what was set last exactly when every tombstone is emptied. -/
theorem statesHoldLatest_iff
    {options : CoveObjectReconstructionOptions} {states : List CoveObjectState}
    (h : reconstructObjectStates surface options = .ok states) :
    StatesHoldLatest surface options states ↔ ∀ key,
      TombstonesEmptied options.includeTombstones
        (visibleHistory options surface.records key) := by
  obtain ⟨-, hall, rfl⟩ := reconstruct_eq_ok_iff.mp h
  have hrecord : ∀ key, ∀ r ∈ visibleHistory options surface.records key,
      r.recordKind ≠ .reservedLegacyMaterializedDelta ∧ r.propertyIds.Nodup := by
    intro key r hr
    obtain ⟨current, hcur⟩ := hall key
    exact ⟨(replayRecords_eq_ok hcur).1 r hr,
      surface.distinct r (List.mem_filter.mp (mem_visibleHistory.mp hr).1).1⟩
  have hone : ∀ state ∈ unsortedStates options surface.records,
      (HoldsLatest (visibleHistory options surface.records state.objectKey) state ↔
        TombstonesEmptied options.includeTombstones
          (visibleHistory options surface.records state.objectKey)) := by
    intro state hstate
    obtain ⟨hreplay, hreturned⟩ := mem_unsortedStates.mp hstate
    exact holdsLatest_iff (fun r hr => (hrecord _ r hr).1) (fun r hr => (hrecord _ r hr).2)
      hreplay hreturned
  constructor
  · intro hlatest key
    by_cases hkey : ∃ state ∈ unsortedStates options surface.records, state.objectKey = key
    · obtain ⟨state, hstate, rfl⟩ := hkey
      exact (hone state hstate).mp (hlatest state ((List.mem_insertionSort _).mpr hstate))
    · -- an object that is not returned ends in its tombstone, or has no records
      intro pre tomb post heq ht hdeltas hends
      refine (hkey ?_).elim
      have hmem : tomb ∈ visibleHistory options surface.records key := by simp [heq]
      obtain ⟨state, hstate⟩ := exists_replayAll (List.ne_nil_of_mem hmem)
      have hobj := replayAll_sameObject (fun x hx => visibleHistory_sameObject hmem hx) hstate
      have hobjkey : state.objectKey = key := by
        rw [← (mem_visibleHistory.mp hmem).2]
        exact hobj.objectKey
      refine ⟨state, mem_unsortedStates.mpr ⟨by rw [hobjkey]; exact hstate, ?_⟩, hobjkey⟩
      refine hends.imp_right fun hpost => ?_
      -- the last record is a delta
      rcases List.eq_nil_or_concat post with rfl | ⟨init, d, rfl⟩
      · exact absurd rfl hpost
      · have hd := hdeltas d (by simp)
        rw [heq, List.concat_eq_append, ← List.cons_append, ← List.append_assoc,
          replayAll_snoc] at hstate
        obtain rfl := Option.some.inj hstate
        exact replayedState_delta_live hd
  · intro hempty state hstate
    have hmem := (List.mem_insertionSort _).mp hstate
    exact (hone state hmem).mpr (hempty _)

/-- **The order of the records does not matter, and the states of a successful
reconstruction hold what was set last exactly when every tombstone is emptied.** -/
theorem reconstruct_holds_latest_iff {surface : CoveObjectSurface}
    {options : CoveObjectReconstructionOptions}
    (hplaces : (surface.records.map CoveObjectRecord.place).Nodup) :
    (∀ surface' : CoveObjectSurface, surface'.records.Perm surface.records →
      reconstructObjectStates surface' options = reconstructObjectStates surface options) ∧
    ∀ states, reconstructObjectStates surface options = .ok states →
      (StatesHoldLatest surface options states ↔ ∀ key,
        TombstonesEmptied options.includeTombstones
          (visibleHistory options surface.records key)) :=
  ⟨fun _ h => reconstructObjectStates_perm h hplaces options, fun _ h => statesHoldLatest_iff h⟩

/-! ## An object that keeps what its tombstone ended -/

/-- A baseline and a tombstone in one segment, and a delta in one of another column. The
row of the tombstone has a value of its own in the column of its segment. -/
def reopenedSurface : CoveObjectSurface where
  records := [historyRecord 0 0 0 .baseline none [textProperty 1 ['a']],
    historyRecord 0 1 1 .tombstone (some ⟨0, 0, 1⟩) [textProperty 1 ['c']],
    historyRecord 1 0 2 .delta (some ⟨0, 1, 0⟩) [textProperty 2 ['b']]]
  catalogued := by
    intro r hr r' hr' _
    simp only [List.mem_cons, List.not_mem_nil, or_false] at hr hr'
    rcases hr with rfl | rfl | rfl <;> rcases hr' with rfl | rfl | rfl <;> exact ⟨rfl, rfl⟩
  distinct := by
    intro r hr
    simp only [List.mem_cons, List.not_mem_nil, or_false] at hr
    rcases hr with rfl | rfl | rfl <;> decide

/-- Before the tombstone, the object holds its baseline, in either order of the records. -/
theorem reconstruct_holds_latest_baseline :
    (∀ surface' : CoveObjectSurface, surface'.records.Perm reopenedSurface.records →
      reconstructObjectStates surface' ⟨.csn 0, none, false⟩ =
        reconstructObjectStates reopenedSurface ⟨.csn 0, none, false⟩) ∧
    ∃ states, reconstructObjectStates reopenedSurface ⟨.csn 0, none, false⟩ = .ok states ∧
      (StatesHoldLatest reopenedSurface ⟨.csn 0, none, false⟩ states ↔ ∀ key,
        TombstonesEmptied false
          (visibleHistory ⟨.csn 0, none, false⟩ reopenedSurface.records key)) :=
  ⟨(reconstruct_holds_latest_iff (by decide)).1, _, rfl,
    (reconstruct_holds_latest_iff (by decide)).2 _ rfl⟩

/-- After the delta, the object still holds property 1 of its baseline: neither absent,
nor what the row of the tombstone has. -/
theorem reconstruct_holds_ended_property :
    ∃ state, reconstructObjectStates reopenedSurface .default = .ok [state] ∧
      KeyedList.find (·.propertyId) 1 state.properties = some (textProperty 1 ['a']) ∧
      ¬StatesHoldLatest reopenedSurface .default [state] := by
  refine ⟨_, rfl, rfl, fun h => ?_⟩
  have hempty := (statesHoldLatest_iff rfl).mp h (toLex (0, toLex (0, 7)))
  obtain ⟨d, hd, hid⟩ := hempty [historyRecord 0 0 0 .baseline none [textProperty 1 ['a']]]
    (historyRecord 0 1 1 .tombstone (some ⟨0, 0, 1⟩) [textProperty 1 ['c']])
    [historyRecord 1 0 2 .delta (some ⟨0, 1, 0⟩) [textProperty 2 ['b']]] rfl rfl
    (by simp [historyRecord]) (.inr nofun) 1
    ⟨[], _, _, rfl, by decide, nofun, by simp [historyRecord, RecordKind.isFull]⟩
  obtain rfl := List.mem_singleton.mp hd
  exact absurd hid (by decide)

end Cove
