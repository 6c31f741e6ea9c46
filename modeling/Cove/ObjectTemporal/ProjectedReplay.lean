import Mathlib.Data.List.Find
import Cove.Lib.Agreement
import Cove.ObjectTemporal.Association

/-!
# Replaying projected records

Two surfaces of one file, one of them without some of the properties, are replayed side by
side: the replay keeps what the records keep, and their associations as long as the
properties these are read from are kept.

- `CoveObjectRecord.keepProperties`: a record without the other properties.
- `MarksKept`: the properties an association is read from are kept.
- `replayRecord_keepProperties`: one step of the replay commutes with dropping properties.
- `reconstructAssociatedStates_projects`: **so does the reconstruction of all states**.
- `reconstructAssociatedStates_forget`, `readObjectSurface_all`: without their associations,
  the states and the records of a file are those of `reconstructObjectStates` and
  `readObjectRecords`.
-/

namespace Cove

open Checked

variable {jsonText : Json → Text} {keep : Nat → Bool}

/-! ## Properties that are kept -/

/-- The record without the properties that are not kept. -/
def CoveObjectRecord.keepProperties (keep : Nat → Bool) (record : CoveObjectRecord) :
    CoveObjectRecord :=
  { record with properties := record.properties.filter fun p => keep p.propertyId }

/-- The state without the properties that are not kept. -/
def CoveObjectState.keepProperties (keep : Nat → Bool) (state : CoveObjectState) :
    CoveObjectState :=
  { state with properties := state.properties.filter fun p => keep p.propertyId }

/-- The flags of the properties that association metadata are read from. -/
def associationFlags : List UInt32 :=
  [propertyFlagAssociationType, propertyFlagAssociationFromGoid, propertyFlagAssociationToGoid,
    propertyFlagEvidenceRef, propertyFlagMappingRuleRef]

/-- Whether a property with these flags is one that association metadata are read from. -/
def marksAssociation (flags : UInt32) : Bool :=
  associationFlags.any fun flag => flags &&& flag != 0

/-- If the type is one of associations, the properties its metadata are read from are kept. -/
def MarksKept (keep : Nat → Bool) (flags : UInt32) (typeName : Text)
    (properties : List CoveObjectPropertyValue) : Prop :=
  isAssociation flags typeName = true →
    ∀ p ∈ properties, marksAssociation p.flags = true → keep p.propertyId = true

section

variable {flags : UInt32} {typeName : Text} {properties : List CoveObjectPropertyValue}

theorem propertyStringByFlag_filter {flag : UInt32} (hflag : flag ∈ associationFlags)
    (h : ∀ p ∈ properties, marksAssociation p.flags = true → keep p.propertyId = true) :
    propertyStringByFlag jsonText (properties.filter fun p => keep p.propertyId) flag =
      propertyStringByFlag jsonText properties flag := by
  unfold propertyStringByFlag
  rw [List.find?_filter]
  congr 1
  refine List.find?_congr fun p hp => ?_
  -- a property with the flag is a kept one, so the filter hides no candidate
  by_cases hset : (p.flags &&& flag != 0) = true
  · have hkeep := h p hp (List.any_eq_true.mpr ⟨flag, hflag, hset⟩)
    simp [hset, hkeep]
  · simp [hset]

/-- **The metadata do not depend on properties without their flags.** -/
theorem associationMetadata_filter (h : MarksKept keep flags typeName properties) :
    associationMetadata jsonText flags typeName
        (properties.filter fun p => keep p.propertyId) =
      associationMetadata jsonText flags typeName properties := by
  unfold associationMetadata
  by_cases hassoc : isAssociation flags typeName = true
  · have hkept := h hassoc
    simp only [hassoc, Bool.not_true, Bool.false_eq_true, if_false]
    rw [propertyStringByFlag_filter (by simp [associationFlags]) hkept,
      propertyStringByFlag_filter (by simp [associationFlags]) hkept,
      propertyStringByFlag_filter (by simp [associationFlags]) hkept,
      propertyStringByFlag_filter (by simp [associationFlags]) hkept,
      propertyStringByFlag_filter (by simp [associationFlags]) hkept]
  · simp [hassoc]

theorem MarksKept.merge {more : List CoveObjectPropertyValue}
    (h : MarksKept keep flags typeName properties) (hmore : MarksKept keep flags typeName more) :
    MarksKept keep flags typeName (KeyedList.merge (·.propertyId) properties more) := by
  intro hassoc p hp
  rcases KeyedList.mem_of_mem_merge _ hp with hp | hp
  · exact hmore hassoc p hp
  · exact h hassoc p hp

end

/-! ## One step -/

theorem validateRecordChainStep_keepProperties (record : CoveObjectRecord)
    (current : Option CoveObjectState) :
    validateRecordChainStep (record.keepProperties keep)
        (current.map (CoveObjectState.keepProperties keep)) =
      validateRecordChainStep record current := by
  have href : (record.keepProperties keep).prevRef = record.prevRef := rfl
  unfold validateRecordChainStep
  rw [href]
  cases record.prevRef with
  | none => rfl
  | some prevRef => cases current <;> rfl

/-- **One step commutes with dropping properties**: merging goes by the id that decides what
is dropped. -/
theorem replayRecord_keepProperties (current : Option CoveObjectState)
    (record : CoveObjectRecord) :
    replayRecord (current.map (CoveObjectState.keepProperties keep))
        (record.keepProperties keep) =
      (replayRecord current record).map (Option.map (CoveObjectState.keepProperties keep)) := by
  unfold replayRecord
  rw [validateRecordChainStep_keepProperties]
  show (_ >>= _) = Except.map _ (_ >>= _)
  cases validateRecordChainStep record current with
  | error e => rfl
  | ok u =>
    rw [ok_bind, ok_bind]
    have hkind : (record.keepProperties keep).recordKind = record.recordKind := rfl
    rw [hkind]
    cases hk : record.recordKind with
    | delta =>
      cases current with
      | none => rfl
      | some state =>
        show Except.ok (some (applyDeltaRecord _ _)) = Except.ok (some _)
        unfold applyDeltaRecord
        simp only [CoveObjectState.keepProperties, CoveObjectRecord.keepProperties,
          CoveObjectState.advance, KeyedList.filter_merge]
    | tombstone => cases current <;> rfl
    | _ => cases current <;> rfl

/-! ## The replay of one object -/

/-- A record and what is left of it, with the same association under `C`. -/
def Projects (C : Prop) (keep : Nat → Bool) (record projected : AssociatedRecord) : Prop :=
  projected.toCoveObjectRecord = record.toCoveObjectRecord.keepProperties keep ∧
    (C → projected.association = record.association)

/-- A state and what is left of it, with the same association under `C`. -/
def StateProjects (C : Prop) (keep : Nat → Bool) (state projected : AssociatedState) : Prop :=
  projected.toCoveObjectState = state.toCoveObjectState.keepProperties keep ∧
    (C → projected.association = state.association)

/-- A record of a type with these flags and this name, with the properties its association is
read from. -/
def RecordKept (keep : Nat → Bool) (flags : UInt32) (typeName : Text)
    (record : CoveObjectRecord) : Prop :=
  record.objectTypeFlags = flags ∧ record.objectTypeName = typeName ∧
    MarksKept keep flags typeName record.properties

/-- A state of a type with these flags and this name, with the properties its association is
read from. -/
def StateKept (keep : Nat → Bool) (flags : UInt32) (typeName : Text)
    (state : CoveObjectState) : Prop :=
  state.objectTypeFlags = flags ∧ state.objectTypeName = typeName ∧
    MarksKept keep flags typeName state.properties

variable {current projected : Option AssociatedState}

variable {record record' : AssociatedRecord}

variable {state : CoveObjectState}

section

variable {C : Prop} {flags : UInt32} {typeName : Text}

theorem replayRecord_kept {record : CoveObjectRecord} {current : Option CoveObjectState}
    (hrecord : RecordKept keep flags typeName record)
    (hcurrent : ∀ s ∈ current, StateKept keep flags typeName s)
    (h : replayRecord current record = .ok (some state)) : StateKept keep flags typeName state := by
  obtain ⟨hflags, hname, hmarks⟩ := hrecord
  unfold replayRecord at h
  obtain ⟨_, -, h⟩ := bind_eq_ok.mp h
  cases hk : record.recordKind with
  | delta =>
    rw [hk] at h
    cases current with
    | none =>
      obtain rfl := Option.some.inj (Except.ok.inj h)
      exact ⟨hflags, hname, hmarks⟩
    | some s =>
      obtain rfl := Option.some.inj (Except.ok.inj h)
      obtain ⟨hsflags, hsname, hsmarks⟩ := hcurrent s rfl
      exact ⟨hsflags, hsname, hsmarks.merge hmarks⟩
  | tombstone =>
    rw [hk] at h
    cases current with
    | none =>
      obtain rfl := Option.some.inj (Except.ok.inj h)
      exact ⟨hflags, hname, hmarks⟩
    | some s =>
      obtain rfl := Option.some.inj (Except.ok.inj h)
      exact hcurrent s rfl
  | reservedLegacyMaterializedDelta =>
    rw [hk] at h
    cases current <;> cases h
  | _ =>
    rw [hk] at h
    obtain rfl := Option.some.inj (Except.ok.inj h)
    exact ⟨hflags, hname, hmarks⟩

/-- The states side by side in a replay. -/
def CurrentProjects (C : Prop) (keep : Nat → Bool) (flags : UInt32) (typeName : Text) :
    Option AssociatedState → Option AssociatedState → Prop :=
  Option.Rel fun state projected => StateProjects C keep state projected ∧
    (C → StateKept keep flags typeName state.toCoveObjectState)

theorem CurrentProjects.map_toState (h : CurrentProjects C keep flags typeName current projected) :
    projected.map AssociatedState.toCoveObjectState =
      (current.map AssociatedState.toCoveObjectState).map
        (CoveObjectState.keepProperties keep) := by
  cases h with
  | none => rfl
  | some h => exact congrArg some h.1.1

/-- The association after a step is the same when what it is read from is kept. -/
theorem replayedAssociation_projects (hC : C)
    (hcurrent : CurrentProjects C keep flags typeName current projected)
    (hrecord : Projects C keep record record') (hstate : StateKept keep flags typeName state) :
    replayedAssociation jsonText projected record' (state.keepProperties keep) =
      replayedAssociation jsonText current record state := by
  obtain ⟨hsame, hassoc⟩ := hrecord
  have hkind : record'.recordKind = record.recordKind := by rw [hsame]; rfl
  obtain ⟨rfl, rfl, hmarks⟩ := hstate
  unfold replayedAssociation
  rw [hkind, hassoc hC]
  cases hcurrent with
  | none => cases record.recordKind <;> rfl
  | some h =>
    cases record.recordKind with
    | delta => exact associationMetadata_filter hmarks
    | tombstone => exact h.1.2 hC
    | _ => rfl

/-- **One step** on a record and on what is left of it. -/
theorem replayAssociated_projects
    (hcurrent : CurrentProjects C keep flags typeName current projected)
    (hrecord : Projects C keep record record')
    (hkept : C → RecordKept keep flags typeName record.toCoveObjectRecord) :
    Agrees (CurrentProjects C keep flags typeName) (replayAssociated jsonText current record)
      (replayAssociated jsonText projected record') := by
  unfold replayAssociated
  rw [hcurrent.map_toState, hrecord.1, replayRecord_keepProperties]
  cases hnext : replayRecord (current.map AssociatedState.toCoveObjectState)
      record.toCoveObjectRecord with
  | error e => exact .error e
  | ok next =>
    refine .ok ?_
    cases next with
    | none => exact .none
    | some state =>
      have hstate : C → StateKept keep flags typeName state := by
        intro hC
        refine replayRecord_kept (hkept hC) (fun s hs => ?_) hnext
        cases hcurrent with
        | none => cases hs
        | some h =>
          obtain rfl := Option.some.inj hs
          exact h.2 hC
      exact .some ⟨⟨rfl, fun hC => replayedAssociation_projects hC hcurrent hrecord (hstate hC)⟩,
        hstate⟩

/-- **The replay of one object**, by induction on its records. -/
theorem replayAssociatedRecords_projects {records records' : List AssociatedRecord}
    (hcurrent : CurrentProjects C keep flags typeName current projected)
    (hrecords : List.Forall₂ (Projects C keep) records records')
    (hkept : C → ∀ r ∈ records, RecordKept keep flags typeName r.toCoveObjectRecord) :
    Agrees (CurrentProjects C keep flags typeName)
      (replayAssociatedRecords jsonText current records)
      (replayAssociatedRecords jsonText projected records') := by
  induction hrecords generalizing current projected with
  | nil => exact .ok hcurrent
  | cons hrecord _ ih =>
    refine (replayAssociated_projects hcurrent hrecord fun hC =>
      hkept hC _ List.mem_cons_self).bind fun next next' hnext => ?_
    exact ih hnext fun hC r hr => hkept hC r (List.mem_cons_of_mem _ hr)

end

/-! ## All objects -/

variable (options : CoveObjectReconstructionOptions)

section

variable {C : Prop} {records records' : List AssociatedRecord}

/-- The states of one object, if it has one to return. -/
theorem associatedStatesOfGroups_projects (includeTombstones : Bool)
    {groups groups' : List (ObjectKey × List AssociatedRecord)}
    (hgroups : List.Forall₂ (fun g g' => g'.1 = g.1 ∧ List.Forall₂ (Projects C keep) g.2 g'.2)
      groups groups')
    (hkept : C → ∀ g ∈ groups, ∃ flags typeName, ∀ r ∈ g.2,
      RecordKept keep flags typeName r.toCoveObjectRecord) :
    Agrees (List.Forall₂ (StateProjects C keep))
      (associatedStatesOfGroups jsonText includeTombstones groups)
      (associatedStatesOfGroups jsonText includeTombstones groups') := by
  induction hgroups with
  | nil => exact .ok .nil
  | @cons g g' groups groups' hgroup hrest ih =>
    obtain ⟨flags, typeName, hof⟩ : ∃ flags typeName, C → ∀ r ∈ g.2,
        RecordKept keep flags typeName r.toCoveObjectRecord := by
      by_cases hC : C
      · obtain ⟨flags, typeName, h⟩ := hkept hC g List.mem_cons_self
        exact ⟨flags, typeName, fun _ => h⟩
      · exact ⟨0, [], fun h => absurd h hC⟩
    have hsorted : List.Forall₂ (Projects C keep) (associatedReplayOrder g.2)
        (associatedReplayOrder g'.2) :=
      forall₂_insertionSort (fun _ _ h => by rw [h.1]; rfl) hgroup.2
    have hreplay : Agrees (CurrentProjects C keep flags typeName)
        (replayAssociatedRecords jsonText none (associatedReplayOrder g.2))
        (replayAssociatedRecords jsonText none (associatedReplayOrder g'.2)) :=
      replayAssociatedRecords_projects .none hsorted fun hC r hr =>
        hof hC r ((List.perm_insertionSort _ _).mem_iff.mp hr)
    refine hreplay.bind fun current current' hcurrent => ?_
    refine (ih fun hC g hg => hkept hC g (List.mem_cons_of_mem _ hg)).bind
      fun states states' hstates => ?_
    cases hcurrent with
    | none => exact .ok hstates
    | @some state state' h =>
      have hstatus : state'.tombstoneStatus = state.tombstoneStatus := by rw [h.1.1]; rfl
      show Agrees _ (if includeTombstones || state.tombstoneStatus == .live then _ else _)
        (if includeTombstones || state'.tombstoneStatus == .live then _ else _)
      rw [hstatus]
      split
      · exact .ok (.cons h.1 hstates)
      · exact .ok hstates

theorem recordAt_map_keepProperties (records : List CoveObjectRecord) (segmentId rowIndex : Nat) :
    recordAt (records.map (CoveObjectRecord.keepProperties keep)) segmentId rowIndex =
      (recordAt records segmentId rowIndex).map (CoveObjectRecord.keepProperties keep) := by
  unfold recordAt
  rw [← List.map_reverse, List.find?_map]
  rfl

theorem validatePrevRefs_map_keepProperties (records : List CoveObjectRecord) :
    validatePrevRefs (records.map (CoveObjectRecord.keepProperties keep)) =
      validatePrevRefs records := by
  have hvalid : ∀ record : CoveObjectRecord,
      prevRefValid (records.map (CoveObjectRecord.keepProperties keep))
        (record.keepProperties keep) = prevRefValid records record := by
    intro record
    unfold prevRefValid
    have href : (record.keepProperties keep).prevRef = record.prevRef := rfl
    rw [href]
    cases record.prevRef with
    | none => rfl
    | some prevRef =>
      dsimp only
      rw [recordAt_map_keepProperties]
      cases recordAt records prevRef.segmentId prevRef.rowIndex <;> rfl
  unfold validatePrevRefs
  rw [List.all_map]
  simp only [Function.comp_def, hvalid]

/-- **Reconstructing states commutes with dropping properties**: the states agree but for the
properties dropped, and under `C` their associations do. -/
theorem reconstructAssociatedStates_projects
    (hrecords : List.Forall₂ (Projects C keep) records records')
    (hkept : C → ∀ typeId, ∃ flags typeName, ∀ r ∈ records, r.objectTypeId = typeId →
      RecordKept keep flags typeName r.toCoveObjectRecord) :
    Agrees (List.Forall₂ (StateProjects C keep))
      (reconstructAssociatedStates jsonText options records)
      (reconstructAssociatedStates jsonText options records') := by
  have hsame : records'.map AssociatedRecord.toCoveObjectRecord =
      (records.map AssociatedRecord.toCoveObjectRecord).map
        (CoveObjectRecord.keepProperties keep) := by
    rw [List.map_map]
    exact map_eq_of_forall₂ (fun _ _ h => h.1) hrecords
  have hvisible : List.Forall₂ (Projects C keep) (records.filter (visibleAssociated options))
      (records'.filter (visibleAssociated options)) :=
    forall₂_filter (fun r r' h => by unfold visibleAssociated; rw [h.1]; rfl) hrecords
  have hgroups : List.Forall₂ (fun g g' => g'.1 = g.1 ∧ List.Forall₂ (Projects C keep) g.2 g'.2)
      (Grouping.grouped (fun r => r.toCoveObjectRecord.objectKey)
        (records.filter (visibleAssociated options)))
      (Grouping.grouped (fun r => r.toCoveObjectRecord.objectKey)
        (records'.filter (visibleAssociated options))) :=
    forall₂_grouped (fun r r' h => by rw [h.1]; rfl) hvisible
  have hkeptGroups : C → ∀ g ∈ Grouping.grouped (fun r : AssociatedRecord =>
      r.toCoveObjectRecord.objectKey) (records.filter (visibleAssociated options)),
      ∃ flags typeName, ∀ r ∈ g.2, RecordKept keep flags typeName r.toCoveObjectRecord := by
    intro hC g hg
    obtain ⟨flags, typeName, h⟩ := hkept hC (ofLex g.1).1
    refine ⟨flags, typeName, fun r hr => ?_⟩
    rw [(Grouping.mem_grouped.mp hg).1] at hr
    obtain ⟨hr, hkey⟩ := List.mem_filter.mp hr
    have hkey' : r.toCoveObjectRecord.objectKey = g.1 := by simpa using hkey
    exact h r (List.mem_of_mem_filter hr) (by rw [← hkey']; rfl)
  unfold reconstructAssociatedStates
  rw [hsame, validatePrevRefs_map_keepProperties]
  refine Agrees.bind_same fun _ => ?_
  refine (associatedStatesOfGroups_projects options.includeTombstones hgroups hkeptGroups).bind
    fun states states' hstates => .ok ?_
  exact forall₂_insertionSort (fun s s' h => by rw [h.1]; rfl) hstates

end

/-! ## Forgetting the associations -/

section

variable {jsonText : Json → Text}

/-- The replay of one object is that of `replayRecords`, with its association kept. -/
theorem replayAssociatedRecords_forget (current : Option AssociatedState)
    (records : List AssociatedRecord) :
    Agrees (fun state forgotten => forgotten = state.map AssociatedState.toCoveObjectState)
      (replayAssociatedRecords jsonText current records)
      (replayRecords (current.map AssociatedState.toCoveObjectState)
        (records.map AssociatedRecord.toCoveObjectRecord)) := by
  induction records generalizing current with
  | nil => exact .ok rfl
  | cons record records ih =>
    show Agrees _ (replayAssociated jsonText current record >>= _)
      (replayRecord _ record.toCoveObjectRecord >>= _)
    unfold replayAssociated
    cases replayRecord (current.map AssociatedState.toCoveObjectState)
        record.toCoveObjectRecord with
    | error e => exact .error e
    | ok next =>
      cases next with
      | none => exact ih none
      | some state => exact ih (some _)

theorem associatedStatesOfGroups_forget (includeTombstones : Bool)
    (groups : List (ObjectKey × List AssociatedRecord)) :
    Agrees (fun states forgotten => forgotten = states.map AssociatedState.toCoveObjectState)
      (associatedStatesOfGroups jsonText includeTombstones groups)
      (statesOfGroups includeTombstones
        (groups.map fun g => (g.1, g.2.map AssociatedRecord.toCoveObjectRecord))) := by
  induction groups with
  | nil => exact .ok rfl
  | cons group groups ih =>
    have horder : replayOrder (group.2.map AssociatedRecord.toCoveObjectRecord) =
        (associatedReplayOrder group.2).map AssociatedRecord.toCoveObjectRecord :=
      (List.map_insertionSort (fun a b : AssociatedRecord =>
        recordSortKey a.toCoveObjectRecord ≤ recordSortKey b.toCoveObjectRecord)
        (fun a b => recordSortKey a ≤ recordSortKey b) _ _ fun _ _ _ _ => Iff.rfl).symm
    show Agrees _ (replayAssociatedRecords jsonText none _ >>= _)
      (replayRecords none (replayOrder _) >>= _)
    rw [horder]
    refine (replayAssociatedRecords_forget none _).bind ?_
    rintro current _ rfl
    refine ih.bind ?_
    rintro states _ rfl
    cases current with
    | none => exact .ok rfl
    | some state =>
      dsimp only [Option.map_some]
      split
      · exact .ok rfl
      · exact .ok rfl

/-- **The states are those of `reconstructObjectStates`**, with their associations. -/
theorem reconstructAssociatedStates_forget
    {records : List AssociatedRecord} {surface : CoveObjectSurface}
    (hsurface : surface.records = records.map AssociatedRecord.toCoveObjectRecord) :
    reconstructObjectStates surface options =
      (reconstructAssociatedStates jsonText options records).map
        (List.map AssociatedState.toCoveObjectState) := by
  have hvisible : visibleRecords options (records.map AssociatedRecord.toCoveObjectRecord) =
      (records.filter (visibleAssociated options)).map AssociatedRecord.toCoveObjectRecord := by
    unfold visibleRecords
    rw [List.filter_map]
    rfl
  refine Agrees.eq_map (R := fun states forgotten =>
    forgotten = states.map AssociatedState.toCoveObjectState) ?_ fun _ _ h => h
  unfold reconstructAssociatedStates reconstructObjectStates
  rw [hsurface, hvisible]
  refine Agrees.bind_same fun _ => ?_
  have hgrouped : Grouping.grouped CoveObjectRecord.objectKey
      ((records.filter (visibleAssociated options)).map AssociatedRecord.toCoveObjectRecord) =
      (Grouping.grouped (fun r => r.toCoveObjectRecord.objectKey)
        (records.filter (visibleAssociated options))).map
          fun g => (g.1, g.2.map AssociatedRecord.toCoveObjectRecord) :=
    Grouping.grouped_map _ (fun _ => rfl) _
  dsimp only
  rw [hgrouped]
  refine (associatedStatesOfGroups_forget options.includeTombstones _).bind ?_
  rintro states _ rfl
  exact .ok (List.map_insertionSort (fun a b : AssociatedState => a.sortKey ≤ b.sortKey)
    (fun a b : CoveObjectState => a.sortKey ≤ b.sortKey) _ _ fun _ _ _ _ => Iff.rfl).symm

theorem requestedColumns_all (codec : ValueCodec) (segment : TemporalSegmentData)
    (ty : ObjectTypeEntryV1) (columns : List TemporalPropertyColumn) :
    requestedColumns codec .allProperties segment ty columns =
      columns.mapM (decodedColumn codec.unshaped segment ty) := by
  induction columns with
  | nil => rfl
  | cons column columns ih =>
    rw [List.mapM_cons]
    unfold requestedColumns decodedColumn
    cases AssocMap.collected column.columnId
        (ty.properties.map fun p => (p.propertyId, p)) with
    | none => rfl
    | some property =>
      dsimp only
      rw [if_neg (by simp [CoveObjectReadOptions.requestsProperty,
        CoveObjectReadOptions.allProperties]), ih]
      cases decodePropertyColumn codec.unshaped segment property column <;> rfl

theorem recordsOfSegment_all (codec : ValueCodec) (catalog : List ObjectTypeEntryV1)
    (segment : TemporalSegmentData) :
    recordsOfSegment codec.unshaped catalog segment =
      (recordsOfSegmentWithOptions codec jsonText .allProperties catalog segment).map
        (List.map AssociatedRecord.toCoveObjectRecord) := by
  unfold recordsOfSegment recordsOfSegmentWithOptions
  cases AssocMap.collected segment.header.objectTypeId
      (catalog.map fun ty => (ty.objectTypeId, ty)) with
  | none => rfl
  | some ty =>
    unfold recordsFromSegment recordsFromSegmentWithOptions
    dsimp only
    rw [requestedColumns_all]
    cases segment.propertyColumns.mapM (decodedColumn codec.unshaped segment ty) with
    | error e => rfl
    | ok columns =>
      rw [ok_bind, ok_bind]
      show _ = Except.ok (List.map _ (List.map _ _))
      rw [List.map_map]
      rfl

/-- **The records are those of `readObjectRecords`** when the file declares no nested shapes. -/
theorem readObjectSurface_all (check : PageCheck) (hash : TrustHash) (codec : ValueCodec)
    (sections : CoveOSections) :
    readObjectRecords check hash codec.unshaped sections =
      (readObjectSurfaceWithOptions check hash codec jsonText .allProperties
        ⟨sections, .ok []⟩).map (List.map AssociatedRecord.toCoveObjectRecord) := by
  unfold readObjectRecords readObjectSurfaceWithOptions
  cases validateCoveOSemantics check hash sections with
  | error e => rfl
  | ok u =>
    have hsegments : sections.segments.mapM (recordsOfSegment codec.unshaped sections.catalog) =
        (sections.segments.mapM (recordsOfSegmentWithOptions codec jsonText .allProperties
          sections.catalog)).map (List.map (List.map AssociatedRecord.toCoveObjectRecord)) := by
      rw [← mapM_map]
      congr 1
      funext segment
      exact recordsOfSegment_all codec sections.catalog segment
    have hrestore : ∀ records : List AssociatedRecord,
        records.mapM (restoreRecord []) = .ok records := by
      intro records
      have hproperties : ∀ (name : Text) (properties : List CoveObjectPropertyValue),
          properties.mapM (restoreProperty [] name) = .ok properties := fun name properties =>
        mapM_eq_ok.mpr (List.forall₂_same.mpr fun _ _ => rfl)
      refine mapM_eq_ok.mpr (List.forall₂_same.mpr fun record _ => ?_)
      unfold restoreRecord
      rw [hproperties]
      rfl
    rw [ok_bind, ok_bind, hsegments]
    cases sections.segments.mapM (recordsOfSegmentWithOptions codec jsonText .allProperties
        sections.catalog) with
    | error e => rfl
    | ok records =>
      show Except.ok _ = Except.map _ (records.flatten.mapM (restoreRecord []))
      rw [hrestore, ← List.map_flatten]
      rfl

end

end Cove
