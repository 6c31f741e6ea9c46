import Cove.ObjectTemporal.ProjectedReplay

/-!
# Projected readback

Reading some of the properties of a file and reconstructing the states of its objects,
against reconstructing all states and dropping the other properties.

- `requestedId`, `AssociatedState.dropUnrequested`: what a request keeps.
- `readObjectSurface_projects`: the records read by a request are those of the file without
  the other properties.
- `RequestsAssociations`: a request for all properties that associations are read from.
- `projectedReadback_iff`: **the two orders agree on all files of a catalog** exactly for
  such requests.
-/

namespace Cove

open Checked

/-! ## Requests -/

/-- A request for properties by their ids keeps a property: one for none keeps all. -/
def requestedId (ids : List Nat) (id : Nat) : Bool := ids.isEmpty || ids.contains id

/-- The state without the properties that were not requested. -/
def AssociatedState.dropUnrequested (ids : List Nat) (state : AssociatedState) :
    AssociatedState :=
  { state with properties := state.properties.filter fun p => requestedId ids p.propertyId }

theorem requestsProperty_ofIds (ids : List Nat) (property : PropertyEntryV1) :
    (CoveObjectReadOptions.ofIds ids).requestsProperty property =
      requestedId ids property.propertyId := by
  unfold CoveObjectReadOptions.requestsProperty requestedId CoveObjectReadOptions.ofIds
  by_cases h : ids.isEmpty = true <;> simp [h]

/-- Every property that the associations of a catalog are read from is requested. -/
def RequestsAssociations (catalog : List ObjectTypeEntryV1) (ids : List Nat) : Prop :=
  ∀ ty ∈ catalog, isAssociation (UInt32.ofNat ty.flags) ty.typeName = true →
    ∀ property ∈ ty.properties, marksAssociation (UInt32.ofNat property.flags) = true →
      requestedId ids property.propertyId = true

instance decidableRequestsAssociations (catalog : List ObjectTypeEntryV1) (ids : List Nat) :
    Decidable (RequestsAssociations catalog ids) :=
  inferInstanceAs (Decidable (∀ ty ∈ catalog,
    isAssociation (UInt32.ofNat ty.flags) ty.typeName = true → ∀ property ∈ ty.properties,
      marksAssociation (UInt32.ofNat property.flags) = true →
        requestedId ids property.propertyId = true))

variable {shapes : NestedShapes}

variable {columns : List TemporalPropertyColumn} {out : List (PropertyEntryV1 × List Json)}

variable {typeName : Text} {projected records : List AssociatedRecord}

section

variable {codec : ValueCodec} {jsonText : Json → Text} {ids : List Nat}
  {catalog : List ObjectTypeEntryV1} {segment : TemporalSegmentData} {ty : ObjectTypeEntryV1}

/-! ## Columns -/

/-- The columns of a request are those of the segment whose property it keeps. -/
theorem requestedColumns_ofIds
    (h : requestedColumns codec .allProperties segment ty columns = .ok out) :
    requestedColumns codec (.ofIds ids) segment ty columns =
      .ok (out.filter fun c => requestedId ids c.1.propertyId) := by
  induction columns generalizing out with
  | nil =>
    obtain rfl := Except.ok.inj h
    rfl
  | cons column columns ih =>
    unfold requestedColumns at h ⊢
    cases hproperty : AssocMap.collected column.columnId
        (ty.properties.map fun p => (p.propertyId, p)) with
    | none =>
      rw [hproperty] at h
      cases h
    | some property =>
      rw [hproperty] at h
      obtain ⟨values, hvalues, h⟩ := bind_eq_ok.mp h
      obtain ⟨rest, hrest, h⟩ := bind_eq_ok.mp h
      obtain rfl := Except.ok.inj h
      dsimp only
      rw [requestsProperty_ofIds]
      by_cases hkeep : requestedId ids property.propertyId = true
      · rw [if_neg (by simp [hkeep]), hvalues, ok_bind, ih hrest, ok_bind, List.filter_cons,
          if_pos hkeep]
      · rw [if_pos (by simp [hkeep]), ih hrest, List.filter_cons, if_neg hkeep]

theorem mem_of_requestedColumns {options : CoveObjectReadOptions}
    (h : requestedColumns codec options segment ty columns = .ok out) :
    ∀ c ∈ out, c.1 ∈ ty.properties := by
  induction columns generalizing out with
  | nil =>
    obtain rfl := Except.ok.inj h
    exact nofun
  | cons column columns ih =>
    unfold requestedColumns at h
    cases hproperty : AssocMap.collected column.columnId
        (ty.properties.map fun p => (p.propertyId, p)) with
    | none =>
      rw [hproperty] at h
      cases h
    | some property =>
      rw [hproperty] at h
      dsimp only at h
      by_cases hskip : (!options.requestsProperty property) = true
      · rw [if_pos hskip] at h
        exact ih h
      · rw [if_neg hskip] at h
        obtain ⟨values, -, h⟩ := bind_eq_ok.mp h
        obtain ⟨rest, hrest, h⟩ := bind_eq_ok.mp h
        obtain rfl := Except.ok.inj h
        refine List.forall_mem_cons.mpr ⟨?_, ih hrest⟩
        have hmem := List.mem_reverse.mp (AssocMap.mem_of_get hproperty)
        obtain ⟨p, hp, heq⟩ := List.mem_map.mp hmem
        exact (Prod.mk.inj heq).2 ▸ hp

/-! ## Records -/

/-- The record is of a type of the catalog, and its properties are declared there. -/
def Catalogued (catalog : List ObjectTypeEntryV1) (record : CoveObjectRecord) : Prop :=
  ∃ ty ∈ catalog,
    AssocMap.collected record.objectTypeId (catalog.map fun ty => (ty.objectTypeId, ty)) =
      some ty ∧
    record.objectTypeFlags = UInt32.ofNat ty.flags ∧ record.objectTypeName = ty.typeName ∧
    ∀ p ∈ record.properties, ∃ entry ∈ ty.properties,
      entry.propertyId = p.propertyId ∧ UInt32.ofNat entry.flags = p.flags

/-- A request for what associations are read from keeps it in records of the catalog. -/
theorem Catalogued.marksKept {record : CoveObjectRecord} (h : Catalogued catalog record)
    (hrequest : RequestsAssociations catalog ids) :
    MarksKept (requestedId ids) record.objectTypeFlags record.objectTypeName
      record.properties := by
  obtain ⟨ty, hty, -, hflags, hname, hproperties⟩ := h
  rw [hflags, hname]
  intro hassoc p hp hmarks
  obtain ⟨entry, hentry, hid, hentryFlags⟩ := hproperties p hp
  rw [← hid]
  exact hrequest ty hty hassoc entry hentry (hentryFlags ▸ hmarks)

/-- A record of the file, and the record the request reads in its place. -/
def ReadsAs (catalog : List ObjectTypeEntryV1) (ids : List Nat)
    (record projected : AssociatedRecord) : Prop :=
  Projects (RequestsAssociations catalog ids) (requestedId ids) record projected ∧
    Catalogued catalog record.toCoveObjectRecord

theorem recordsFromSegment_projects {out : List AssociatedRecord} (hty : ty ∈ catalog)
    (hfind : AssocMap.collected ty.objectTypeId (catalog.map fun ty => (ty.objectTypeId, ty)) =
      some ty)
    (h : recordsFromSegmentWithOptions codec jsonText .allProperties segment ty = .ok out) :
    ∃ out', recordsFromSegmentWithOptions codec jsonText (.ofIds ids) segment ty = .ok out' ∧
      List.Forall₂ (ReadsAs catalog ids) out out' := by
  obtain ⟨columns, hcolumns, h⟩ := bind_eq_ok.mp h
  obtain rfl := Except.ok.inj h
  refine ⟨_, bind_eq_ok.mpr ⟨_, requestedColumns_ofIds hcolumns, rfl⟩, ?_⟩
  rw [List.forall₂_map_left_iff, List.forall₂_map_right_iff, List.forall₂_same]
  intro row hrow
  have hfilter : (columns.filter fun c => requestedId ids c.1.propertyId).map
      (columnProperty row.2) =
      (columns.map (columnProperty row.2)).filter fun p => requestedId ids p.propertyId := by
    rw [List.filter_map]
    rfl
  have hcatalogued : ∀ properties, properties = columns.map (columnProperty row.2) →
      Catalogued catalog
        (recordFromRow segment.header.segmentId ty row.1 row.2 properties) := by
    rintro properties rfl
    refine ⟨ty, hty, hfind, rfl, rfl, fun p hp => ?_⟩
    obtain ⟨c, hc, rfl⟩ := List.mem_map.mp hp
    exact ⟨c.1, mem_of_requestedColumns hcolumns c hc, rfl, rfl⟩
  refine ⟨⟨?_, fun hrequest => ?_⟩, hcatalogued _ rfl⟩
  · dsimp only
    rw [hfilter]
    rfl
  · dsimp only
    rw [hfilter]
    exact associationMetadata_filter ((hcatalogued _ rfl).marksKept hrequest)

variable (ids) in
theorem recordsOfSegment_projects {out : List AssociatedRecord}
    (h : recordsOfSegmentWithOptions codec jsonText .allProperties catalog segment = .ok out) :
    ∃ out', recordsOfSegmentWithOptions codec jsonText (.ofIds ids) catalog segment = .ok out' ∧
      List.Forall₂ (ReadsAs catalog ids) out out' := by
  unfold recordsOfSegmentWithOptions at h ⊢
  cases hfind : AssocMap.collected segment.header.objectTypeId
      (catalog.map fun ty => (ty.objectTypeId, ty)) with
  | none =>
    rw [hfind] at h
    cases h
  | some ty =>
    rw [hfind] at h
    have hmem := List.mem_reverse.mp (AssocMap.mem_of_get hfind)
    obtain ⟨ty', hty, heq⟩ := List.mem_map.mp hmem
    obtain ⟨hid, rfl⟩ := Prod.mk.inj heq
    exact recordsFromSegment_projects hty (hid ▸ hfind) h

variable (ids) in
/-- The records of all segments, by induction on them. -/
theorem segments_projects {segments : List TemporalSegmentData}
    {out : List (List AssociatedRecord)}
    (h : segments.mapM (recordsOfSegmentWithOptions codec jsonText .allProperties catalog) =
      .ok out) :
    ∃ out', segments.mapM (recordsOfSegmentWithOptions codec jsonText (.ofIds ids) catalog) =
        .ok out' ∧
      List.Forall₂ (ReadsAs catalog ids) out.flatten out'.flatten := by
  have hall := mapM_eq_ok.mp h
  clear h
  induction hall with
  | nil => exact ⟨[], rfl, .nil⟩
  | cons hsegment _ ih =>
    obtain ⟨records', hread, hrecords⟩ := recordsOfSegment_projects ids hsegment
    obtain ⟨out', hrest, hall⟩ := ih
    refine ⟨records' :: out', mapM_eq_ok.mpr (.cons hread (mapM_eq_ok.mp hrest)), ?_⟩
    rw [List.flatten_cons, List.flatten_cons]
    exact List.rel_append hrecords hall

/-! ## Nested shapes -/

theorem restoreProperty_keeps
    {p q : CoveObjectPropertyValue} (h : restoreProperty shapes typeName p = .ok q) :
    q.propertyId = p.propertyId ∧ q.flags = p.flags := by
  unfold restoreProperty at h
  split at h
  · obtain rfl := Except.ok.inj h
    exact ⟨rfl, rfl⟩
  · obtain ⟨value, -, h⟩ := bind_eq_ok.mp h
    obtain rfl := Except.ok.inj h
    exact ⟨rfl, rfl⟩

/-- Restoring the shapes of a record restores them in what is left of it. -/
theorem restoreRecord_projects {record projected out : AssociatedRecord}
    (hreads : ReadsAs catalog ids record projected) (h : restoreRecord shapes record = .ok out) :
    ∃ out', restoreRecord shapes projected = .ok out' ∧ ReadsAs catalog ids out out' := by
  obtain ⟨⟨hsame, hassoc⟩, ty, hty, hfind, hflags, hname, hproperties⟩ := hreads
  obtain ⟨properties, hrestored, h⟩ := bind_eq_ok.mp h
  obtain rfl := Except.ok.inj h
  have hall := mapM_eq_ok.mp hrestored
  have hkept := forall₂_filter (p := fun p => requestedId ids p.propertyId)
    (q := fun p => requestedId ids p.propertyId)
    (fun p q hpq => by rw [(restoreProperty_keeps hpq).1]) hall
  have hname' : projected.objectTypeName = record.objectTypeName := by rw [hsame]; rfl
  have hprops' : projected.properties =
      record.properties.filter fun p => requestedId ids p.propertyId := by rw [hsame]; rfl
  refine ⟨{ projected with properties := properties.filter fun p => requestedId ids p.propertyId },
    ?_, ⟨?_, hassoc⟩, ty, hty, hfind, hflags, hname, fun q hq => ?_⟩
  · unfold restoreRecord
    rw [hname', hprops', mapM_eq_ok.mpr hkept, ok_bind]
  · dsimp only
    rw [hsame]
    rfl
  · obtain ⟨p, hp, hpq⟩ := exists_of_mem_mapM hrestored hq
    obtain ⟨hid, hflags⟩ := restoreProperty_keeps hpq
    obtain ⟨entry, hentry, hentryId, hentryFlags⟩ := hproperties p hp
    exact ⟨entry, hentry, hentryId.trans hid.symm, hentryFlags.trans hflags.symm⟩

theorem restoreRecords_projects {out : List AssociatedRecord}
    (hreads : List.Forall₂ (ReadsAs catalog ids) records projected)
    (h : records.mapM (restoreRecord shapes) = .ok out) :
    ∃ out', projected.mapM (restoreRecord shapes) = .ok out' ∧
      List.Forall₂ (ReadsAs catalog ids) out out' := by
  have hall := mapM_eq_ok.mp h
  clear h
  induction hreads generalizing out with
  | nil =>
    obtain rfl := List.forall₂_nil_left_iff.mp hall
    exact ⟨[], rfl, .nil⟩
  | cons hreads _ ih =>
    cases hall with
    | cons hout hall =>
      obtain ⟨first, hfirst, hreads'⟩ := restoreRecord_projects hreads hout
      obtain ⟨rest, hrest, hrestReads⟩ := ih hall
      exact ⟨first :: rest, mapM_eq_ok.mpr (.cons hfirst (mapM_eq_ok.mp hrest)),
        .cons hreads' hrestReads⟩

/-! ## The file -/

variable (ids) in
/-- **What a request reads** of a file whose records can all be read: the records without the
properties that were not requested. -/
theorem readObjectSurface_projects {check : PageCheck} {hash : TrustHash} {file : CoveOFile}
    {full : List AssociatedRecord}
    (h : readObjectSurfaceWithOptions check hash codec jsonText .allProperties file = .ok full) :
    ∃ projected,
      readObjectSurfaceWithOptions check hash codec jsonText (.ofIds ids) file = .ok projected ∧
        List.Forall₂ (ReadsAs file.sections.catalog ids) full projected := by
  obtain ⟨u, hvalid, h⟩ := bind_eq_ok.mp h
  obtain ⟨records, hrecords, h⟩ := bind_eq_ok.mp h
  obtain ⟨shapes, hshapes, h⟩ := bind_eq_ok.mp h
  obtain ⟨out', hread, hall⟩ := segments_projects ids hrecords
  obtain ⟨projected, hrestore, hprojected⟩ := restoreRecords_projects hall h
  refine ⟨projected, ?_, hprojected⟩
  refine bind_eq_ok.mpr ⟨u, hvalid, bind_eq_ok.mpr ⟨out', hread, ?_⟩⟩
  exact bind_eq_ok.mpr ⟨shapes, hshapes, hrestore⟩

/-- The records of one type agree on its flags and its name. -/
theorem recordKept_of_readsAs (hreads : List.Forall₂ (ReadsAs catalog ids) records projected)
    (hrequest : RequestsAssociations catalog ids) (typeId : Nat) :
    ∃ flags typeName, ∀ r ∈ records, r.objectTypeId = typeId →
      RecordKept (requestedId ids) flags typeName r.toCoveObjectRecord := by
  cases hfind : AssocMap.collected typeId (catalog.map fun ty => (ty.objectTypeId, ty)) with
  | none =>
    refine ⟨0, [], fun r hr hid => ?_⟩
    obtain ⟨r', -, -, ty, -, hfound, -⟩ := exists_of_forall₂_left hreads hr
    rw [hid, hfind] at hfound
    cases hfound
  | some ty =>
    refine ⟨UInt32.ofNat ty.flags, ty.typeName, fun r hr hid => ?_⟩
    obtain ⟨r', -, -, hcatalogued⟩ := exists_of_forall₂_left hreads hr
    have hmarks := hcatalogued.marksKept hrequest
    obtain ⟨ty', -, hfound, hflags, hname, -⟩ := hcatalogued
    rw [hid, hfind] at hfound
    obtain rfl := Option.some.inj hfound
    exact ⟨hflags, hname, by rwa [hflags, hname] at hmarks⟩

end

section

variable {check : PageCheck} {hash : TrustHash} {codec : ValueCodec} {jsonText : Json → Text}
  {ids : List Nat} {file : CoveOFile} {full : List AssociatedRecord}

/-- Reading a request and reconstructing, side by side with reconstructing all. -/
theorem reconstruct_projects
    (h : readObjectSurfaceWithOptions check hash codec jsonText .allProperties file = .ok full)
    (options : CoveObjectReconstructionOptions) :
    Agrees (List.Forall₂ (StateProjects (RequestsAssociations file.sections.catalog ids)
        (requestedId ids)))
      (reconstructAssociatedStates jsonText options full)
      (readObjectSurfaceWithOptions check hash codec jsonText (.ofIds ids) file >>=
        reconstructAssociatedStates jsonText options) := by
  obtain ⟨projected, hread, hall⟩ := readObjectSurface_projects ids h
  rw [hread, ok_bind]
  exact reconstructAssociatedStates_projects options (hall.imp fun _ _ h => h.1)
    (recordKept_of_readsAs hall)

/-- With all that associations are read from requested, so do they. -/
theorem projectedReadback_of_requests
    (h : readObjectSurfaceWithOptions check hash codec jsonText .allProperties file = .ok full)
    (hrequest : RequestsAssociations file.sections.catalog ids)
    (options : CoveObjectReconstructionOptions) :
    (readObjectSurfaceWithOptions check hash codec jsonText (.ofIds ids) file >>=
        reconstructAssociatedStates jsonText options) =
      (reconstructAssociatedStates jsonText options full).map
        (List.map (AssociatedState.dropUnrequested ids)) := by
  have hdrop : ∀ state state', StateProjects (RequestsAssociations file.sections.catalog ids)
      (requestedId ids) state state' → state' = state.dropUnrequested ids := by
    rintro state ⟨state', association⟩ ⟨hsame, hassoc⟩
    obtain rfl : state' = _ := hsame
    obtain rfl : association = _ := hassoc hrequest
    rfl
  refine (reconstruct_projects h options).eq_map fun states states' hall => ?_
  rw [← map_eq_of_forall₂ (f := id) hdrop hall, List.map_id]

end

/-! ## A file of one record -/

section

variable (catalog : List ObjectTypeEntryV1) (ty : ObjectTypeEntryV1) (property : PropertyEntryV1)
  (code : Nat)

/-- A page of one row that holds a number code. -/
def onePage (code : Nat) : TemporalPropertyPage := ⟨0, 1, 1, 0, [some (.numCode code)]⟩

/-- A segment of one baseline record with one property. -/
def oneSegment : TemporalSegmentData where
  header := ⟨0, ty.objectTypeId, 0, 0, 0, 0, 1, 1, 1, 1⟩
  rows := [⟨0, 0, 0, 0, 0, .baseline, none⟩]
  propertyColumns := [{
    columnId := property.propertyId
    logicalType := property.logicalType
    physicalKind := property.physicalKind
    flags := if property.flags &&& propertyFlagBoolDeclaredNumeric != 0 then
      segmentColumnFlagBoolDeclaredNumeric else 0
    pages := [onePage code] }]

/-- A file of that segment, without projections. -/
def oneRecordFile : CoveOFile where
  sections := {
    catalog := catalog
    index := [⟨0, ty.objectTypeId, 0, 0, 0, 0, 1, 0, 0, 1, 0, 0, 0⟩]
    segments := [oneSegment ty property code]
    trustManifest := [] }
  nestedShapes := .ok []

end

section

variable {check : PageCheck} {hash : TrustHash} {codec : ValueCodec} {jsonText : Json → Text}
  {catalog : List ObjectTypeEntryV1} {ty : ObjectTypeEntryV1} {property : PropertyEntryV1}
  {code : Nat}

theorem collected_objectType (hcatalog : objectTypeCatalogValid catalog = true)
    (hty : ty ∈ catalog) :
    AssocMap.collected ty.objectTypeId (catalog.map fun ty => (ty.objectTypeId, ty)) =
      some ty := by
  refine (AssocMap.collected_eq_some ?_).mpr (List.mem_map.mpr ⟨ty, hty, rfl⟩)
  rw [List.map_map]
  exact of_decide_eq_true (Bool.and_eq_true_iff.mp hcatalog).1

theorem collected_property (hcatalog : objectTypeCatalogValid catalog = true)
    (hty : ty ∈ catalog) (hproperty : property ∈ ty.properties) :
    AssocMap.collected property.propertyId (ty.properties.map fun p => (p.propertyId, p)) =
      some property := by
  refine (AssocMap.collected_eq_some ?_).mpr (List.mem_map.mpr ⟨property, hproperty, rfl⟩)
  rw [List.map_map]
  have hvalid := List.all_eq_true.mp (Bool.and_eq_true_iff.mp hcatalog).2 ty hty
  exact of_decide_eq_true (Bool.and_eq_true_iff.mp hvalid).1

/-- The record of that file with the properties a request leaves it. -/
def oneRecord (jsonText : Json → Text) (ty : ObjectTypeEntryV1)
    (properties : List CoveObjectPropertyValue) : AssociatedRecord :=
  { recordFromRow 0 ty ⟨0, 0, 0, 0, 0, .baseline, none⟩ 0 properties with
    association := associationMetadata jsonText (UInt32.ofNat ty.flags) ty.typeName properties }

/-- The property the record holds. -/
def oneProperty (property : PropertyEntryV1) (code : Nat) : CoveObjectPropertyValue :=
  columnProperty 0 (property, [.number (.posInt (UInt64.ofNat code))])

/-- The file is valid when its page is. -/
theorem validateCoveOSemantics_oneRecordFile (hcatalog : objectTypeCatalogValid catalog = true)
    (hty : ty ∈ catalog) (hproperty : property ∈ ty.properties)
    (hcheck : check property (onePage code) = .ok ()) :
    validateCoveOSemantics check hash (oneRecordFile catalog ty property code).sections =
      .ok () := by
  have hcolumns : validateTemporalPropertyColumns check ty (oneSegment ty property code) =
      .ok () := by
    have hflags : ¬((property.flags &&& propertyFlagBoolDeclaredNumeric != 0) ≠
        ((if property.flags &&& propertyFlagBoolDeclaredNumeric != 0 then
          segmentColumnFlagBoolDeclaredNumeric else 0) &&&
            segmentColumnFlagBoolDeclaredNumeric != 0)) := by
      cases property.flags &&& propertyFlagBoolDeclaredNumeric != 0 <;> decide
    have hpage : validateTemporalPropertyPage check property (oneSegment ty property code).header
        (onePage code) = .ok () := by
      show (if !property.nullable && false then _ else check property (onePage code)) = _
      rw [Bool.and_false]
      exact hcheck
    have hcolumn : ∀ column ∈ (oneSegment ty property code).propertyColumns,
        validateTemporalPropertyColumn check ty.properties (oneSegment ty property code) column =
          .ok () := by
      intro column hcolumn
      obtain rfl := List.mem_singleton.mp hcolumn
      unfold validateTemporalPropertyColumn
      rw [collected_property hcatalog hty hproperty]
      dsimp only
      rw [if_neg (by simp), if_neg hflags]
      show ([onePage code].forM _ >>= fun _ => Except.ok ()) = _
      rw [forM_eq_ok.mpr fun page hp => by rw [List.mem_singleton.mp hp]; exact hpage]
      rfl
    show ((oneSegment ty property code).propertyColumns.forM _ >>= fun _ => Except.ok ()) = _
    rw [forM_eq_ok.mpr hcolumn]
    rfl
  have hsegment : validateTemporalSegment check catalog
      (oneRecordFile catalog ty property code).sections.index (oneSegment ty property code) =
        .ok () := by
    have hindex : AssocMap.collected (ty.objectTypeId, 0)
        ((oneRecordFile catalog ty property code).sections.index.map fun e =>
          ((e.objectTypeId, e.segmentId), e)) =
        some ⟨0, ty.objectTypeId, 0, 0, 0, 0, 1, 0, 0, 1, 0, 0, 0⟩ := by
      simp [oneRecordFile, AssocMap.collected, AssocMap.get]
    have htype : (oneSegment ty property code).header.objectTypeId = ty.objectTypeId := rfl
    have hid : (oneSegment ty property code).header.segmentId = 0 := rfl
    unfold validateTemporalSegment
    rw [htype, hid, collected_objectType hcatalog hty]
    dsimp only
    rw [hindex]
    dsimp only
    have hagainst : validateTemporalSegmentAgainstIndex
        ⟨0, ty.objectTypeId, 0, 0, 0, 0, 1, 0, 0, 1, 0, 0, 0⟩ (oneSegment ty property code) =
          .ok () := by
      simp [validateTemporalSegmentAgainstIndex, oneSegment, TemporalSegmentData.kindCount,
        goidRangeAgrees]
    rw [hagainst, ok_bind]
    exact hcolumns
  have hparse : (oneSegment ty property code).parseChecks = .ok () := by
    simp [TemporalSegmentData.parseChecks, TemporalSegmentData.validate, oneSegment, adjacentAll,
      TemporalSegmentData.startsInRange, TemporalSegmentData.endsInRange]
  have hcross : validateCoveOCrossSections check hash
      (oneRecordFile catalog ty property code).sections = .ok () := by
    have hself : validateSelfContained (placedRows [oneSegment ty property code]) = .ok () := by
      rfl
    have hchains : validateTemporalChains [oneSegment ty property code] = .ok () := by
      rfl
    show (validateSelfContained (placedRows [oneSegment ty property code]) >>= fun _ => _) = _
    rw [hself, ok_bind]
    show (validateTemporalChains [oneSegment ty property code] >>= fun _ => _) = _
    rw [hchains, ok_bind]
    show ([oneSegment ty property code].forM _ >>= fun _ => _) = _
    rw [forM_eq_ok.mpr fun s hs => by rw [List.mem_singleton.mp hs]; exact hsegment, ok_bind]
    rfl
  unfold validateCoveOSemantics
  have hcat : (oneRecordFile catalog ty property code).sections.catalog = catalog := rfl
  rw [hcat, hcatalog]
  show (validateSegmentIndex _ >>= fun _ => _) = _
  have hindex : validateSegmentIndex (oneRecordFile catalog ty property code).sections.index =
      .ok () := by
    simp [validateSegmentIndex, oneRecordFile, TemporalSegmentIndexEntryV1.validate]
  rw [hindex, ok_bind]
  show ([oneSegment ty property code].forM _ >>= fun _ => _) = _
  rw [forM_eq_ok.mpr fun s hs => by rw [List.mem_singleton.mp hs]; exact hparse, ok_bind]
  exact hcross

/-- What a request reads of the file. -/
theorem readObjectSurface_oneRecordFile (hcatalog : objectTypeCatalogValid catalog = true)
    (hty : ty ∈ catalog) (hproperty : property ∈ ty.properties)
    (hcheck : check property (onePage code) = .ok ()) (options : CoveObjectReadOptions) :
    readObjectSurfaceWithOptions check hash codec jsonText options
        (oneRecordFile catalog ty property code) =
      .ok [oneRecord jsonText ty
        (if options.requestsProperty property then [oneProperty property code] else [])] := by
  have hcolumns : requestedColumns codec options (oneSegment ty property code) ty
      (oneSegment ty property code).propertyColumns =
        .ok (if options.requestsProperty property then
          [(property, [.number (.posInt (UInt64.ofNat code))])] else []) := by
    show requestedColumns codec options (oneSegment ty property code) ty [_] = _
    unfold requestedColumns
    dsimp only
    rw [collected_property hcatalog hty hproperty]
    dsimp only
    cases options.requestsProperty property <;> rfl
  have hrecords : recordsOfSegmentWithOptions codec jsonText options catalog
      (oneSegment ty property code) = .ok [oneRecord jsonText ty
        (if options.requestsProperty property then [oneProperty property code] else [])] := by
    have htype : (oneSegment ty property code).header.objectTypeId = ty.objectTypeId := rfl
    unfold recordsOfSegmentWithOptions recordsFromSegmentWithOptions
    rw [htype, collected_objectType hcatalog hty]
    dsimp only
    rw [hcolumns, ok_bind]
    cases options.requestsProperty property <;> rfl
  unfold readObjectSurfaceWithOptions
  rw [validateCoveOSemantics_oneRecordFile hcatalog hty hproperty hcheck, ok_bind]
  have hmap : (oneRecordFile catalog ty property code).sections.segments.mapM
      (recordsOfSegmentWithOptions codec jsonText options
        (oneRecordFile catalog ty property code).sections.catalog) = .ok [_] :=
    mapM_eq_ok.mpr (.cons hrecords .nil)
  rw [hmap, ok_bind]
  cases options.requestsProperty property <;> rfl

/-- The state of the one object. -/
theorem reconstruct_oneRecord (properties : List CoveObjectPropertyValue) :
    reconstructAssociatedStates jsonText .default [oneRecord jsonText ty properties] =
      .ok [{ stateFromFullRecord (oneRecord jsonText ty properties).toCoveObjectRecord with
        association := (oneRecord jsonText ty properties).association }] := by
  rfl

theorem propertyStringByFlag_oneProperty {flag : UInt32}
    (hflag : (UInt32.ofNat property.flags &&& flag != 0) = true) :
    propertyStringByFlag jsonText [oneProperty property code] flag =
      some (TextOps.natText (UInt64.ofNat code).toNat) := by
  have hfind : [oneProperty property code].find? (fun p => p.flags &&& flag != 0) =
      some (oneProperty property code) := List.find?_cons_of_pos hflag
  unfold propertyStringByFlag
  rw [hfind]
  rfl

/-- What the association is read from shows in it, unless it says what the name of the type
says. -/
theorem associationMetadata_ne {flags : UInt32} (hassoc : isAssociation flags typeName = true)
    (hmarks : marksAssociation (UInt32.ofNat property.flags) = true)
    (hcode : some (TextOps.natText (UInt64.ofNat code).toNat) ≠
      TextOps.stripPrefix associationPrefix typeName) :
    associationMetadata jsonText flags typeName [] ≠
      associationMetadata jsonText flags typeName [oneProperty property code] := by
  intro h
  unfold associationMetadata at h
  rw [if_neg (by simp [hassoc]), if_neg (by simp [hassoc])] at h
  obtain ⟨htype, hsource, htarget, hevidence, hrule⟩ :=
    CoveAssociationMetadata.mk.inj (Option.some.inj h)
  have hnone : ∀ flag, propertyStringByFlag jsonText [] flag = none := fun _ => rfl
  obtain ⟨flag, hflag, hset⟩ := List.any_eq_true.mp hmarks
  simp only [associationFlags, List.mem_cons, List.not_mem_nil, or_false] at hflag
  rcases hflag with rfl | rfl | rfl | rfl | rfl
  · rw [propertyStringByFlag_oneProperty hset, hnone] at htype
    exact hcode htype.symm
  · rw [propertyStringByFlag_oneProperty hset, hnone] at hsource
    cases hsource
  · rw [propertyStringByFlag_oneProperty hset, hnone] at htarget
    cases htarget
  · rw [propertyStringByFlag_oneProperty hset, hnone] at hevidence
    cases hevidence
  · rw [propertyStringByFlag_oneProperty hset, hnone] at hrule
    cases hrule

end

/-- **When the two orders agree.** On all files of a catalog, reading the requested properties
and reconstructing gives what reconstructing all and dropping the others gives, exactly when
the request names every property that the associations of the catalog are read from. -/
theorem projectedReadback_iff {check : PageCheck} (hash : TrustHash) (codec : ValueCodec)
    (jsonText : Json → Text) {catalog : List ObjectTypeEntryV1} (ids : List Nat)
    (hcatalog : objectTypeCatalogValid catalog = true)
    (hcheck : ∀ ty ∈ catalog, ∀ property ∈ ty.properties, ∀ code,
      check property (onePage code) = .ok ()) :
    (∀ file : CoveOFile, file.sections.catalog = catalog → ∀ full,
      readObjectSurfaceWithOptions check hash codec jsonText .allProperties file = .ok full →
        ∀ options, (readObjectSurfaceWithOptions check hash codec jsonText (.ofIds ids) file >>=
            reconstructAssociatedStates jsonText options) =
          (reconstructAssociatedStates jsonText options full).map
            (List.map (AssociatedState.dropUnrequested ids))) ↔
      RequestsAssociations catalog ids := by
  constructor
  · intro hall ty hty hassoc property hproperty hmarks
    by_contra hskip
    -- a number that the name of the type does not spell
    obtain ⟨code, hcode⟩ : ∃ code, some (TextOps.natText (UInt64.ofNat code).toNat) ≠
        TextOps.stripPrefix associationPrefix ty.typeName := by
      by_cases hzero : some (TextOps.natText (UInt64.ofNat 0).toNat) =
          TextOps.stripPrefix associationPrefix ty.typeName
      · refine ⟨1, ?_⟩
        rw [← hzero]
        decide
      · exact ⟨0, hzero⟩
    have hpage := hcheck ty hty property hproperty code
    have hread : ∀ options, readObjectSurfaceWithOptions check hash codec jsonText options
        (oneRecordFile catalog ty property code) = .ok [oneRecord jsonText ty
          (if options.requestsProperty property then [oneProperty property code] else [])] :=
      readObjectSurface_oneRecordFile hcatalog hty hproperty hpage
    have hsame := hall (oneRecordFile catalog ty property code) rfl _ (hread .allProperties)
      .default
    rw [hread (.ofIds ids), ok_bind, requestsProperty_ofIds, if_neg hskip, reconstruct_oneRecord,
      reconstruct_oneRecord] at hsame
    have hassociations := (List.cons.inj (Except.ok.inj hsame)).1
    exact associationMetadata_ne hassoc hmarks hcode
      (congrArg AssociatedState.association hassociations)
  · rintro hrequest file rfl full h options
    exact projectedReadback_of_requests h hrequest options

/-! ### A membership -/

/-- A type of associations, with the source they come from and a role. -/
def membershipCatalog : List ObjectTypeEntryV1 := [{
  objectTypeId := 7
  typeName := "Membership".toList
  flags := 0x08
  properties := [
    ⟨1, "source".toList, .utf8, .varBytes, true, 0, 0x01⟩,
    ⟨2, "role".toList, .utf8, .varBytes, true, 0, 0⟩] }]

/-- A file of one membership. -/
def membershipFile : CoveOFile where
  sections := {
    catalog := membershipCatalog
    index := [⟨0, 7, 0, 0, 0, 0, 1, 0, 0, 1, 0, 0, 0⟩]
    segments := [{
      header := ⟨0, 7, 0, 0, 0, 0, 1, 1, 1, 2⟩
      rows := [⟨0, 0, 0, 0, 0, .baseline, none⟩]
      propertyColumns := [
        ⟨1, .utf8, .varBytes, 0, [⟨0, 1, 1, 0, [some (.varBytes [112, 49])]⟩]⟩,
        ⟨2, .utf8, .varBytes, 0, [⟨0, 1, 1, 0, [some (.varBytes [120])]⟩]⟩] }]
    trustManifest := [] }
  nestedShapes := .ok []

/-- What reading some properties of the membership says of its association. -/
def membershipAssociations (options : CoveObjectReadOptions) :
    Except CoveError (List (Option CoveAssociationMetadata)) :=
  (readObjectSurfaceWithOptions (fun _ _ => .ok ()) (fun _ _ => 0) silentCodec (fun _ => [])
    options membershipFile >>= reconstructAssociatedStates (fun _ => []) .default).map
      (List.map AssociatedState.association)

/-- Asked for the role alone, the reader returns a membership without its source. -/
theorem projectedReadback_loses_source :
    ¬∀ full, readObjectSurfaceWithOptions (fun _ _ => .ok ()) (fun _ _ => 0) silentCodec
          (fun _ => []) .allProperties membershipFile = .ok full →
        ∀ options, (readObjectSurfaceWithOptions (fun _ _ => .ok ()) (fun _ _ => 0) silentCodec
            (fun _ => []) (.ofIds [2]) membershipFile >>=
              reconstructAssociatedStates (fun _ => []) options) =
          (reconstructAssociatedStates (fun _ => []) options full).map
            (List.map (AssociatedState.dropUnrequested [2])) := by
  intro h
  have hall : membershipAssociations .allProperties =
      .ok [some ⟨none, some "p1".toList, none, none, none⟩] := by decide +kernel
  have hrole : membershipAssociations (.ofIds [2]) =
      .ok [some ⟨none, none, none, none, none⟩] := by decide +kernel
  obtain ⟨states, hstates, hassociations⟩ := map_eq_ok.mp hall
  obtain ⟨full, hfull, hstates⟩ := bind_eq_ok.mp hstates
  have hboth := h full hfull .default
  rw [hstates] at hboth
  unfold membershipAssociations at hrole
  rw [hboth] at hrole
  have hdropped := Except.ok.inj hrole
  rw [List.map_map] at hdropped
  exact absurd (hassociations.symm.trans hdropped) (by decide)

/-- Asked for the source too, it returns the association as it is. -/
theorem membership_readback :
    objectTypeCatalogValid membershipCatalog = true ∧
      ∀ file : CoveOFile, file.sections.catalog = membershipCatalog → ∀ full,
        readObjectSurfaceWithOptions (fun _ _ => .ok ()) (fun _ _ => 0) silentCodec
            (fun _ => []) .allProperties file = .ok full →
          ∀ options, (readObjectSurfaceWithOptions (fun _ _ => .ok ()) (fun _ _ => 0) silentCodec
              (fun _ => []) (.ofIds [1]) file >>=
                reconstructAssociatedStates (fun _ => []) options) =
            (reconstructAssociatedStates (fun _ => []) options full).map
              (List.map (AssociatedState.dropUnrequested [1])) :=
  ⟨by decide, (projectedReadback_iff (fun _ _ => 0) silentCodec (fun _ => []) [1] (by decide)
    fun _ _ _ _ _ => rfl).mpr (by decide)⟩

end Cove
