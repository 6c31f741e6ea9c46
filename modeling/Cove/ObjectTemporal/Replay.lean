import Mathlib.Data.List.Induction
import Cove.ObjectTemporal.Readback

/-!
# The replay of one object

What a successful replay leaves behind, as a function of the records replayed.

- `Carries`: the properties an object holds after its history.
- `replayAll`: the replay without its checks; `replayRecords_eq_ok`: a replay that succeeds
  gives what it gives.
- `replayAll_carries`: **the properties a state holds are those its history carries**.
- `statesOfGroups_eq_ok_iff`: the states of all objects, one replay each.
-/

namespace Cove

/-! ## Histories -/

/-- A full record replaces the state of its object. -/
def RecordKind.isFull : RecordKind → Bool
  | baseline | snapshot => true
  | _ => false

/-- The ids of the properties a record sets. -/
def CoveObjectRecord.propertyIds (r : CoveObjectRecord) : List Nat :=
  r.properties.map (·.propertyId)

/-- The object holds property `id` after `history`: some record set it, no full record
came since, and that record is no tombstone, unless nothing came before it. -/
def Carries (history : List CoveObjectRecord) (id : Nat) : Prop :=
  ∃ pre r post, history = pre ++ r :: post ∧ id ∈ r.propertyIds ∧
    (r.recordKind = .tombstone → pre = []) ∧ ∀ x ∈ post, x.recordKind.isFull = false

variable {history : List CoveObjectRecord} {record : CoveObjectRecord}
  {current : Option CoveObjectState} {records : List CoveObjectRecord} {state : CoveObjectState}
  {key : ObjectKey} {options : CoveObjectReconstructionOptions} {surface : CoveObjectSurface}

variable {x r : CoveObjectRecord} {next : Option CoveObjectState} {includeTombstones : Bool}

theorem carries_snoc {id : Nat} :
    Carries (history ++ [x]) id ↔
      (id ∈ x.propertyIds ∧ (x.recordKind = .tombstone → history = [])) ∨
        (x.recordKind.isFull = false ∧ Carries history id) := by
  constructor
  · rintro ⟨pre, r, post, heq, hid, htomb, hpost⟩
    rcases List.eq_nil_or_concat post with rfl | ⟨post, y, rfl⟩
    · obtain ⟨rfl, hx⟩ := List.append_inj' heq rfl
      obtain rfl := List.singleton_inj.mp hx
      exact .inl ⟨hid, htomb⟩
    · rw [List.concat_eq_append, ← List.cons_append, ← List.append_assoc] at heq
      obtain ⟨rfl, hx⟩ := List.append_inj' heq rfl
      obtain rfl := List.singleton_inj.mp hx
      refine .inr ⟨hpost _ (by simp), pre, r, post, rfl, hid, htomb, fun z hz => hpost z ?_⟩
      simp [hz]
  · rintro (⟨hid, htomb⟩ | ⟨hx, pre, r, post, rfl, hid, htomb, hpost⟩)
    · exact ⟨history, x, [], rfl, hid, htomb, nofun⟩
    · refine ⟨pre, r, post ++ [x], by simp, hid, htomb, fun z hz => ?_⟩
      rcases List.mem_append.mp hz with hz | hz
      · exact hpost z hz
      · rwa [List.mem_singleton.mp hz]

/-- A history is what precedes its trailing deltas, and those. -/
theorem exists_trailing_deltas (history : List CoveObjectRecord) :
    ∃ pre post, history = pre ++ post ∧ (∀ d ∈ post, d.recordKind = .delta) ∧
      (pre = [] ∨ ∃ pre' x, pre = pre' ++ [x] ∧ x.recordKind ≠ .delta) := by
  induction history using List.reverseRecOn with
  | nil => exact ⟨[], [], rfl, nofun, .inl rfl⟩
  | append_singleton history x ih =>
    by_cases hx : x.recordKind = .delta
    · obtain ⟨pre, post, rfl, hpost, hpre⟩ := ih
      refine ⟨pre, post ++ [x], by simp, fun d hd => ?_, hpre⟩
      rcases List.mem_append.mp hd with hd | hd
      · exact hpost d hd
      · rwa [List.mem_singleton.mp hd]
    · exact ⟨history ++ [x], [], by simp, nofun, .inr ⟨history, x, rfl, hx⟩⟩

/-- The last record that is no delta, and the deltas after it, are unique. -/
theorem last_nondelta_unique {pre pre' post post' : List CoveObjectRecord}
    {x' : CoveObjectRecord} (h : pre ++ x :: post = pre' ++ x' :: post')
    (hx : x.recordKind ≠ .delta) (hx' : x'.recordKind ≠ .delta)
    (hpost : ∀ d ∈ post, d.recordKind = .delta) (hpost' : ∀ d ∈ post', d.recordKind = .delta) :
    pre = pre' ∧ x = x' ∧ post = post' := by
  have htake : ∀ {p : List CoveObjectRecord} {y : CoveObjectRecord} {q : List CoveObjectRecord},
      y.recordKind ≠ .delta → (∀ d ∈ q, d.recordKind = .delta) →
      (p ++ y :: q).reverse.takeWhile (fun d => d.recordKind = .delta) = q.reverse := by
    intro p y q hy hq
    rw [List.reverse_append, List.reverse_cons, List.append_assoc,
      List.takeWhile_append_of_pos fun d hd => by simpa using hq d (List.mem_reverse.mp hd)]
    simp [hy]
  have hrev := htake (p := pre) hx hpost
  rw [h, htake hx' hpost'] at hrev
  obtain rfl := List.reverse_injective hrev
  obtain ⟨rfl, hcons⟩ := List.append_inj' h rfl
  exact ⟨rfl, (List.cons.inj hcons).1, rfl⟩
/-! ## The reader's replay -/

/-- The state after one more record, once it has been validated. -/
def replayedState (current : Option CoveObjectState) (record : CoveObjectRecord) :
    CoveObjectState :=
  match record.recordKind, current with
  | .delta, some state => applyDeltaRecord state record
  | .tombstone, some state => { state.advance record with tombstoneStatus := .tombstoned }
  | _, _ => stateFromFullRecord record

theorem replayedState_none (record : CoveObjectRecord) :
    replayedState none record = stateFromFullRecord record := by
  unfold replayedState
  cases record.recordKind <;> rfl

theorem replayedState_full (current : Option CoveObjectState)
    (h : record.recordKind.isFull = true) :
    replayedState current record = stateFromFullRecord record := by
  unfold replayedState
  cases hk : record.recordKind <;> simp_all [RecordKind.isFull]

theorem replayedState_delta (state : CoveObjectState) (h : record.recordKind = .delta) :
    replayedState (some state) record = applyDeltaRecord state record := by
  simp [replayedState, h]

theorem replayedState_tombstone (state : CoveObjectState) (h : record.recordKind = .tombstone) :
    replayedState (some state) record =
      { state.advance record with tombstoneStatus := .tombstoned } := by
  simp [replayedState, h]

/-- A tombstone leaves its object tombstoned. -/
theorem replayedState_tombstoned (h : record.recordKind = .tombstone) :
    (replayedState current record).tombstoneStatus = .tombstoned := by
  cases current with
  | none => rw [replayedState_none]; simp [stateFromFullRecord, h]
  | some state => rw [replayedState_tombstone _ h]

/-- A delta leaves its object live. -/
theorem replayedState_delta_live (h : record.recordKind = .delta) :
    (replayedState current record).tombstoneStatus = .live := by
  cases current with
  | none => rw [replayedState_none]; simp [stateFromFullRecord, h]
  | some state => rw [replayedState_delta _ h]; rfl

def replayAll (current : Option CoveObjectState) (records : List CoveObjectRecord) :
    Option CoveObjectState :=
  records.foldl (fun current record => some (replayedState current record)) current

theorem replayRecord_eq_ok (h : replayRecord current record = .ok next) :
    record.recordKind ≠ .reservedLegacyMaterializedDelta ∧
      next = some (replayedState current record) := by
  obtain ⟨_, _, h⟩ := Checked.bind_eq_ok.mp h
  unfold replayedState
  cases hkind : record.recordKind <;> cases current <;> simp only [hkind] at h <;>
    first
    | exact ⟨nofun, (Except.ok.inj h).symm.trans (by simp [stateFromFullRecord, hkind])⟩
    | cases h

theorem replayRecords_eq_ok (h : replayRecords current records = .ok next) :
    (∀ r ∈ records, r.recordKind ≠ .reservedLegacyMaterializedDelta) ∧
      next = replayAll current records := by
  induction records generalizing current with
  | nil => exact ⟨nofun, (Except.ok.inj h).symm⟩
  | cons record records ih =>
    obtain ⟨mid, hmid, h⟩ := Checked.bind_eq_ok.mp h
    obtain ⟨hkind, rfl⟩ := replayRecord_eq_ok hmid
    obtain ⟨hrest, rfl⟩ := ih h
    exact ⟨List.forall_mem_cons.mpr ⟨hkind, hrest⟩, rfl⟩

theorem replayAll_snoc (current : Option CoveObjectState) (records : List CoveObjectRecord)
    (x : CoveObjectRecord) :
    replayAll current (records ++ [x]) = some (replayedState (replayAll current records) x) := by
  simp [replayAll]

/-- A history that is not empty leaves a state. -/
theorem exists_replayAll (h : history ≠ []) :
    ∃ state, replayAll none history = some state := by
  rcases List.eq_nil_or_concat history with rfl | ⟨init, x, rfl⟩
  · exact absurd rfl h
  · rw [List.concat_eq_append, replayAll_snoc]
    exact ⟨_, rfl⟩

theorem replayAll_append (current : Option CoveObjectState)
    (xs ys : List CoveObjectRecord) :
    replayAll current (xs ++ ys) = replayAll (replayAll current xs) ys :=
  List.foldl_append

/-- What the object is, whatever happens to it. -/
structure SameObject (record : CoveObjectRecord) (state : CoveObjectState) : Prop where
  objectTypeId : record.objectTypeId = state.objectTypeId
  objectTypeName : record.objectTypeName = state.objectTypeName
  objectTypeFlags : record.objectTypeFlags = state.objectTypeFlags
  branchKey : record.branchKey = state.branchKey
  goid : record.goid = state.goid

theorem SameObject.objectKey
    (h : SameObject record state) : state.objectKey = record.objectKey := by
  simp [CoveObjectState.objectKey, CoveObjectRecord.objectKey, h.objectTypeId, h.branchKey,
    h.goid]

theorem replayedState_sameObject (hr : SameObject r (stateFromFullRecord x))
    (hcurrent : ∀ state, current = some state → SameObject r state) :
    SameObject r (replayedState current x) := by
  unfold replayedState
  split
  · next state => exact { hcurrent _ rfl with }
  · next state => exact { hcurrent _ rfl with }
  · exact hr

theorem replayAll_sameObject (hsame : ∀ x ∈ history, SameObject r (stateFromFullRecord x))
    (h : replayAll none history = some state) : SameObject r state := by
  induction history using List.reverseRecOn generalizing state with
  | nil => cases h
  | append_singleton history x ih =>
    rw [replayAll_snoc] at h
    obtain rfl := Option.some.inj h
    refine replayedState_sameObject (hsame x (by simp)) fun s hs => ?_
    exact ih (fun y hy => hsame y (by simp [hy])) hs

/-- What the state holds is what the history carries, each id once. -/
theorem replayAll_carries (hkind : ∀ r ∈ history, r.recordKind ≠ .reservedLegacyMaterializedDelta)
    (hdistinct : ∀ r ∈ history, r.propertyIds.Nodup)
    (h : replayAll none history = some state) :
    (state.properties.map (·.propertyId)).Nodup ∧
      ∀ id, id ∈ state.properties.map (·.propertyId) ↔ Carries history id := by
  induction history using List.reverseRecOn generalizing state with
  | nil => cases h
  | append_singleton history x ih =>
    rw [replayAll_snoc] at h
    obtain rfl := Option.some.inj h
    have hx := hdistinct x (by simp)
    have hxk := hkind x (by simp)
    have hnone : replayAll none history = none → history = [] := by
      intro hn
      rcases List.eq_nil_or_concat history with rfl | ⟨init, y, rfl⟩
      · rfl
      · rw [List.concat_eq_append, replayAll_snoc] at hn
        cases hn
    have hcarry : ∀ id, Carries [] id → False := by
      rintro id ⟨pre, r, post, h, _⟩
      simp at h
    simp only [carries_snoc]
    cases hcur : replayAll none history with
    | none =>
      obtain rfl := hnone hcur
      rw [replayedState_none]
      refine ⟨hx, fun id => ?_⟩
      show id ∈ x.propertyIds ↔ _
      exact ⟨fun h => .inl ⟨h, fun _ => rfl⟩,
        fun h => h.elim And.left fun h => (hcarry id h.2).elim⟩
    | some current =>
      have hne : history ≠ [] := by
        rintro rfl
        cases hcur
      obtain ⟨hnodup, hids⟩ := ih (fun r hr => hkind r (by simp [hr]))
        (fun r hr => hdistinct r (by simp [hr])) hcur
      by_cases hfull : x.recordKind.isFull = true
      · rw [replayedState_full _ hfull]
        refine ⟨hx, fun id => ?_⟩
        show id ∈ x.propertyIds ↔ _
        have hnt : x.recordKind ≠ .tombstone := by
          intro h
          simp [h, RecordKind.isFull] at hfull
        simp [hfull, hnt]
      · by_cases hdelta : x.recordKind = .delta
        · rw [replayedState_delta _ hdelta]
          refine ⟨KeyedList.nodup_merge _ hnodup, fun id => ?_⟩
          show id ∈ (KeyedList.merge _ current.properties x.properties).map _ ↔ _
          rw [KeyedList.mem_keys_merge, hids]
          simp [RecordKind.isFull, CoveObjectRecord.propertyIds, hdelta]
        · have htomb : x.recordKind = .tombstone := by
            cases hk : x.recordKind <;> simp_all [RecordKind.isFull]
          rw [replayedState_tombstone _ htomb]
          refine ⟨hnodup, fun id => ?_⟩
          show id ∈ current.properties.map _ ↔ _
          rw [hids]
          simp [RecordKind.isFull, htomb, hne]
/-! ## All objects -/

/-- The visible records of one object, in replay order. -/
def visibleHistory (options : CoveObjectReconstructionOptions)
    (records : List CoveObjectRecord) (key : ObjectKey) : List CoveObjectRecord :=
  replayOrder ((visibleRecords options records).filter fun record => record.objectKey = key)

theorem mem_visibleHistory :
    r ∈ visibleHistory options records key ↔
      r ∈ visibleRecords options records ∧ r.objectKey = key := by
  unfold visibleHistory replayOrder
  rw [List.mem_insertionSort, List.mem_filter, decide_eq_true_iff]

/-- The state that the records of one object leave, if it is to be returned. -/
def returnedState (includeTombstones : Bool) (records : List CoveObjectRecord) :
    Option CoveObjectState :=
  (replayAll none (replayOrder records)).filter fun state =>
    includeTombstones || state.tombstoneStatus == .live

variable {groups : List (ObjectKey × List CoveObjectRecord)}

/-- The states of a group and of the groups after it. -/
theorem statesOfGroups_cons {rest : List CoveObjectState}
    (hcur : replayRecords none (replayOrder records) = .ok current)
    (hrest : statesOfGroups includeTombstones groups = .ok rest) :
    statesOfGroups includeTombstones ((key, records) :: groups) =
      .ok ((returnedState includeTombstones records).toList ++ rest) := by
  have hall := (replayRecords_eq_ok hcur).2
  rw [statesOfGroups, hcur, Checked.ok_bind, hrest, Checked.ok_bind]
  unfold returnedState
  rw [← hall]
  cases current with
  | none => rfl
  | some state =>
    by_cases h : (includeTombstones || state.tombstoneStatus == .live) = true
    · rw [Option.filter_some, if_pos h]
      simp [h]
    · rw [Option.filter_some, if_neg h]
      simp [h]

variable {states : List CoveObjectState}

/-- Reconstruction succeeds exactly when every replay does. -/
theorem statesOfGroups_eq_ok_iff :
    statesOfGroups includeTombstones groups = .ok states ↔
      (∀ g ∈ groups, ∃ current, replayRecords none (replayOrder g.2) = .ok current) ∧
        states = groups.filterMap fun g => returnedState includeTombstones g.2 := by
  induction groups generalizing states with
  | nil => exact ⟨fun h => ⟨nofun, (Except.ok.inj h).symm⟩, fun ⟨_, h⟩ => congrArg _ h.symm⟩
  | cons group groups ih =>
    obtain ⟨key, records⟩ := group
    have hcons : (((key, records) :: groups).filterMap
        fun g => returnedState includeTombstones g.2) =
        (returnedState includeTombstones records).toList ++
          groups.filterMap fun g => returnedState includeTombstones g.2 := by
      rw [List.filterMap_cons]
      cases returnedState includeTombstones records <;> rfl
    rw [List.forall_mem_cons, hcons]
    constructor
    · intro h
      obtain ⟨current, hcur, h'⟩ := Checked.bind_eq_ok.mp h
      obtain ⟨rest, hrest, -⟩ := Checked.bind_eq_ok.mp h'
      obtain ⟨hall, rfl⟩ := ih.mp hrest
      rw [statesOfGroups_cons hcur hrest] at h
      exact ⟨⟨⟨current, hcur⟩, hall⟩, (Except.ok.inj h).symm⟩
    · rintro ⟨⟨⟨current, hcur⟩, hall⟩, rfl⟩
      exact statesOfGroups_cons hcur (ih.mpr ⟨hall, rfl⟩)

/-- The state at the head of a history is that of its object. -/
theorem visibleHistory_sameObject (hr : r ∈ visibleHistory options surface.records key)
    (hx : x ∈ visibleHistory options surface.records key) :
    SameObject r (stateFromFullRecord x) := by
  obtain ⟨hrec, hkr⟩ := mem_visibleHistory.mp hr
  obtain ⟨hrec', hkx⟩ := mem_visibleHistory.mp hx
  have hkeys : r.objectKey = x.objectKey := hkr.trans hkx.symm
  simp only [CoveObjectRecord.objectKey, EmbeddingLike.apply_eq_iff_eq, Prod.mk.injEq] at hkeys
  obtain ⟨htype, hbranch, hgoid⟩ := hkeys
  obtain ⟨hname, hflags⟩ := surface.catalogued r (List.mem_filter.mp hrec).1 x
    (List.mem_filter.mp hrec').1 htype
  exact ⟨htype, hname, hflags, hbranch, hgoid⟩

/-- The states before they are sorted. -/
def unsortedStates (options : CoveObjectReconstructionOptions)
    (records : List CoveObjectRecord) : List CoveObjectState :=
  (Grouping.grouped CoveObjectRecord.objectKey (visibleRecords options records)).filterMap
    fun g => returnedState options.includeTombstones g.2

/-- **Reconstruction succeeds exactly when the references are valid and every object's
replay succeeds.** -/
theorem reconstruct_eq_ok_iff :
    reconstructObjectStates surface options = .ok states ↔
      validatePrevRefs surface.records = .ok () ∧
      (∀ key, ∃ current,
        replayRecords none (visibleHistory options surface.records key) = .ok current) ∧
      states = (unsortedStates options surface.records).insertionSort
        fun a b => a.sortKey ≤ b.sortKey := by
  have hgroups : (∀ g ∈ Grouping.grouped CoveObjectRecord.objectKey
      (visibleRecords options surface.records), ∃ current,
        replayRecords none (replayOrder g.2) = .ok current) ↔
      ∀ key, ∃ current,
        replayRecords none (visibleHistory options surface.records key) = .ok current := by
    constructor
    · intro h key
      by_cases hne : (visibleRecords options surface.records).filter
          (fun r => r.objectKey = key) = []
      · unfold visibleHistory
        rw [hne]
        exact ⟨none, rfl⟩
      · exact h _ (Grouping.mem_grouped.mpr ⟨rfl, hne⟩)
    · intro h g hg
      obtain ⟨key, records⟩ := g
      obtain ⟨rfl, -⟩ := Grouping.mem_grouped.mp hg
      exact h key
  constructor
  · intro h
    obtain ⟨u, hrefs, h⟩ := Checked.bind_eq_ok.mp h
    obtain ⟨unsorted, hstates, h⟩ := Checked.bind_eq_ok.mp h
    obtain ⟨hall, rfl⟩ := statesOfGroups_eq_ok_iff.mp hstates
    exact ⟨hrefs, hgroups.mp hall, (Except.ok.inj h).symm⟩
  · rintro ⟨hrefs, hall, rfl⟩
    exact Checked.bind_eq_ok.mpr ⟨(), hrefs, Checked.bind_eq_ok.mpr
      ⟨_, statesOfGroups_eq_ok_iff.mpr ⟨hgroups.mpr hall, rfl⟩, rfl⟩⟩

/-- Every returned state is what the visible history of its object leaves. -/
theorem mem_unsortedStates :
    state ∈ unsortedStates options surface.records ↔
      replayAll none (visibleHistory options surface.records state.objectKey) = some state ∧
        (options.includeTombstones = true ∨ state.tombstoneStatus = .live) := by
  have hstate : ∀ {records : List CoveObjectRecord},
      returnedState options.includeTombstones records = some state ↔
        replayAll none (replayOrder records) = some state ∧
          (options.includeTombstones = true ∨ state.tombstoneStatus = .live) := by
    intro records
    unfold returnedState
    rw [Option.filter_eq_some_iff]
    simp
  unfold unsortedStates
  rw [List.mem_filterMap]
  constructor
  · rintro ⟨⟨key, records⟩, hg, h⟩
    obtain ⟨hreplay, hreturned⟩ := hstate.mp h
    obtain ⟨rfl, hne⟩ := Grouping.mem_grouped.mp hg
    obtain ⟨r, hr⟩ := List.exists_mem_of_ne_nil _ hne
    have hmem : r ∈ visibleHistory options surface.records key :=
      (List.mem_insertionSort _).mpr hr
    have hobj := replayAll_sameObject (fun x hx => visibleHistory_sameObject hmem hx) hreplay
    have hkey : state.objectKey = key := by
      rw [← (mem_visibleHistory.mp hmem).2]
      exact hobj.objectKey
    rw [hkey]
    exact ⟨hreplay, hreturned⟩
  · rintro ⟨hreplay, hreturned⟩
    refine ⟨(state.objectKey, _), Grouping.mem_grouped.mpr ⟨rfl, fun hnil => ?_⟩,
      hstate.mpr ⟨hreplay, hreturned⟩⟩
    unfold visibleHistory at hreplay
    rw [hnil] at hreplay
    cases hreplay

/-! ## Records of one object -/

/-- A property with a text value. -/
def textProperty (id : Nat) (value : Text) : CoveObjectPropertyValue :=
  ⟨id, ['p'], .utf8, .varBytes, 0, .string value⟩

/-- A record of one object. -/
def historyRecord (segmentId rowIndex csn : Nat) (kind : RecordKind)
    (prevRef : Option CoveRecordRefV1) (properties : List CoveObjectPropertyValue) :
    CoveObjectRecord :=
  ⟨0, ['T'], 1, segmentId, rowIndex, 0, csn, 0, 7, Fin.ofNat _ csn, kind, prevRef, properties⟩

end Cove
