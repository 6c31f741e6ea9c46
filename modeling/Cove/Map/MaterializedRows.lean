import Cove.Map.MaterializedModel

/-!
# Where the rows of a model come from

Every row of a materialized model is one a row rule or an association binding yields, less
the properties that conflict resolution took off it.

- `RowOrigin`: a row as its rule yields it.
- `ObjectRow.ReducedFrom`: a row less some of its properties.
- `rowOrigin_of_materialize`: **every row of a model has an origin**.
- `recordKind_published`, `flags_of_objectTypes`: what follows for its kind and type.
-/

namespace Cove

open Checked

/-! ## Origins -/

/-- A row as a row rule or an association binding yields it. -/
inductive RowOrigin (t : AssociationTables) (row : ObjectRow) : Prop
  | object (rowRule : MapRowSemanticRule) (sourceRow : SourceRow)
      (kind : recordKindForRowRule rowRule = .ok row.recordKind)
      (properties : materializeProperties t.ext t.context rowRule sourceRow row.objectTypeId
        t.propertiesByType = .ok row.properties)
  | association (rowRule : MapRowSemanticRule) (identity : PlannedIdentity)
      (binding : MapAssociationBinding) (declared : List (Nat × PropertyEntryV1))
      (sourceGoid targetGoid : Id16) (validFrom validTo : Json)
      (kind : row.recordKind = associationRecordKindForRowRule rowRule)
      (type : AssocMap.get row.objectTypeId t.propertiesByType = some declared)
      (properties : (associationPropertyValues identity rowRule binding sourceGoid targetGoid
        validFrom validTo).mapM (associationProperty t identity binding declared) =
          .ok row.properties)

/-- What holds of every row of an output. -/
def ConversionOutput.AllRows (P : ObjectRow → Prop) (out : ConversionOutput) : Prop :=
  ∀ row ∈ out.objectRows, P row

variable {P : ObjectRow → Prop} {row : ObjectRow} {out out' : ConversionOutput}
  {t : AssociationTables} {rowRule : MapRowSemanticRule}

theorem allRows_append
    (hout : out.AllRows P) (hrow : P row) : ∀ r ∈ out.objectRows ++ [row], P r := by
  intro r hr
  rcases List.mem_append.mp hr with hr | hr
  · exact hout r hr
  · exact List.mem_singleton.mp hr ▸ hrow

variable {identity : PlannedIdentity} {binding : MapAssociationBinding} {kind : RecordKind}

/-- One identity adds at most one row, of its rule. -/
theorem rowOrigin_materializeIdentity (hout : out.AllRows (RowOrigin t))
    (h : materializeIdentity t out identity = .ok out') : out'.AllRows (RowOrigin t) := by
  obtain ⟨rowRule, -, h⟩ := bind_eq_ok.mp h
  obtain ⟨sourceRow, -, h⟩ := bind_eq_ok.mp h
  obtain ⟨materializes, -, h⟩ := bind_eq_ok.mp h
  split at h
  · obtain ⟨objectTypeId, -, h⟩ := bind_eq_ok.mp h
    obtain ⟨properties, hproperties, h⟩ := bind_eq_ok.mp h
    obtain ⟨recordKind, hkind, h⟩ := bind_eq_ok.mp h
    obtain rfl := Except.ok.inj h
    exact allRows_append hout (.object rowRule sourceRow hkind hproperties)
  · split at h
    · obtain rfl := Except.ok.inj h
      exact hout
    · obtain rfl := Except.ok.inj h
      exact hout

/-- One association adds at most one row, of its binding. -/
theorem rowOrigin_addAssociation {source target : PlannedIdentity} {sourceRow : SourceRow}
    (hout : out.AllRows (RowOrigin t))
    (h : addAssociation t rowRule identity sourceRow binding source target out = .ok out') :
    out'.AllRows (RowOrigin t) := by
  obtain ⟨objectTypeId, -, h⟩ := bind_eq_ok.mp h
  obtain ⟨declared, hdeclared, h⟩ := bind_eq_ok.mp h
  obtain ⟨validFrom, -, h⟩ := bind_eq_ok.mp h
  cases validFrom with
  | none =>
    obtain rfl := Except.ok.inj h
    exact hout
  | some validFrom =>
    obtain ⟨validTo, -, h⟩ := bind_eq_ok.mp h
    cases validTo with
    | none =>
      obtain rfl := Except.ok.inj h
      exact hout
    | some validTo =>
      obtain ⟨properties, hproperties, h⟩ := bind_eq_ok.mp h
      obtain rfl := Except.ok.inj h
      exact allRows_append hout (.association rowRule identity binding declared source.goid
        target.goid validFrom validTo rfl (okOr_eq_ok.mp hdeclared) hproperties)

theorem rowOrigin_materializeAssociation (hout : out.AllRows (RowOrigin t))
    (h : materializeAssociation t rowRule identity out binding = .ok out') :
    out'.AllRows (RowOrigin t) := by
  unfold materializeAssociation at h
  dsimp only at h
  by_cases hrule : identity.identityRuleId.val ≠ associationSourceRule rowRule binding
  · rw [if_pos hrule] at h
    obtain rfl := Except.ok.inj h
    exact hout
  · rw [if_neg hrule] at h
    obtain ⟨sourceRow, -, h⟩ := bind_eq_ok.mp h
    obtain ⟨source, -, h⟩ := bind_eq_ok.mp h
    cases source with
    | none =>
      dsimp only at h
      split at h
      · obtain rfl := Except.ok.inj h
        exact hout
      · cases h
    | some source =>
      obtain ⟨target, -, h⟩ := bind_eq_ok.mp h
      cases target with
      | none =>
        dsimp only at h
        split at h
        · obtain rfl := Except.ok.inj h
          exact hout
        · cases h
      | some target => exact rowOrigin_addAssociation hout h

theorem rowOrigin_materializeAssociations
    (hout : out.AllRows (RowOrigin t)) (h : materializeAssociations t out = .ok out') :
    out'.AllRows (RowOrigin t) := by
  refine foldlM_preserves h hout fun out identity _ hout out' h => ?_
  obtain ⟨rowRule, -, h⟩ := bind_eq_ok.mp h
  obtain ⟨materializes, -, h⟩ := bind_eq_ok.mp h
  split at h
  · exact foldlM_preserves h hout fun _ _ _ hout _ h =>
      rowOrigin_materializeAssociation hout h
  · obtain rfl := Except.ok.inj h
    exact hout

/-! ## After conflict resolution -/

/-- A row less some of its properties. -/
structure ObjectRow.ReducedFrom (row origin : ObjectRow) : Prop where
  goid : row.goid = origin.goid
  recordId : row.recordId = origin.recordId
  objectTypeId : row.objectTypeId = origin.objectTypeId
  recordKind : row.recordKind = origin.recordKind
  properties : row.properties.Sublist origin.properties

/-- Conflict resolution takes properties off rows. -/
theorem reducedFrom_applyRemoval {state : List ObjectRow × List Json}
    (hstate : ∀ row ∈ state.1, ∃ origin, P origin ∧ row.ReducedFrom origin)
    (removal : PropertyRemoval) :
    ∀ row ∈ (applyRemoval state removal).1, ∃ origin, P origin ∧ row.ReducedFrom origin := by
  unfold applyRemoval
  split
  · exact hstate
  · next row hrow =>
    split
    · exact hstate
    · intro reduced hreduced
      rcases List.mem_or_eq_of_mem_set hreduced with hmem | rfl
      · exact hstate reduced hmem
      · obtain ⟨origin, horigin, hfrom⟩ := hstate row (List.mem_of_getElem? hrow)
        exact ⟨origin, horigin, hfrom.goid, hfrom.recordId, hfrom.objectTypeId, hfrom.recordKind,
          List.filter_sublist.trans hfrom.properties⟩

theorem reducedFrom_resolve (hout : out.AllRows P) (h : resolvePropertyConflicts out = .ok out') :
    out'.AllRows fun row => ∃ origin, P origin ∧ row.ReducedFrom origin := by
  obtain ⟨removals, -, h⟩ := bind_eq_ok.mp h
  obtain rfl := Except.ok.inj h
  have hgen : ∀ (removals : List PropertyRemoval) (state : List ObjectRow × List Json),
      (∀ row ∈ state.1, ∃ origin, P origin ∧ row.ReducedFrom origin) →
      ∀ row ∈ (removals.foldl applyRemoval state).1,
        ∃ origin, P origin ∧ row.ReducedFrom origin := by
    intro removals
    induction removals with
    | nil => exact fun _ h => h
    | cons removal removals ih => exact fun _ h => ih _ (reducedFrom_applyRemoval h removal)
  exact hgen removals _ fun row hrow =>
    ⟨row, hout row hrow, rfl, rfl, rfl, rfl, List.Sublist.refl _⟩

/-! ## The model -/

/-- The parts of a successful conversion. -/
structure Conversion (ext : Externals) (file : CovemapFile) (sourceRows : List SourceRow)
    (model : MaterializedModel) where
  context : MappingContext
  plan : IdentityPlan
  tables : AssociationTables
  identified : ConversionOutput
  associated : ConversionOutput
  resolved : ConversionOutput
  contextOf : mappingContext file = .ok context
  planOf : planIdentities ext file sourceRows = .ok plan
  objectTypes : objectTypesFromMapping ext context = .ok model.objectTypes
  tablesOf : associationTables ext file context model.objectTypes plan.canonical sourceRows =
    .ok tables
  identities : plan.canonical.foldlM (materializeIdentity tables)
    (plan.candidates.foldl (materializeCandidate context) ⟨[], bindingAssertions context, []⟩) =
      .ok identified
  associations : materializeAssociations tables identified = .ok associated
  conflicts : resolvePropertyConflicts associated = .ok resolved
  rows : model.rows = resolved.objectRows.insertionSort fun a b => a.modelKey ≤ b.modelKey

theorem conversion_of_materialize {ext : Externals} {file : CovemapFile}
    {sourceRows : List SourceRow} {states : List ObservedSourceState} {model : MaterializedModel}
    (h : materializeWithSourceStates ext file sourceRows states = .ok model) :
    Nonempty (Conversion ext file sourceRows model) := by
  obtain ⟨context, hcontext, h⟩ := bind_eq_ok.mp h
  obtain ⟨plan, hplan, h⟩ := bind_eq_ok.mp h
  obtain ⟨objectTypes, hobjectTypes, h⟩ := bind_eq_ok.mp h
  obtain ⟨tables, htables, h⟩ := bind_eq_ok.mp h
  obtain ⟨identified, hidentified, h⟩ := bind_eq_ok.mp h
  obtain ⟨associated, hassociated, h⟩ := bind_eq_ok.mp h
  obtain ⟨resolved, hresolved, h⟩ := bind_eq_ok.mp h
  obtain ⟨report, -, h⟩ := bind_eq_ok.mp h
  obtain rfl := Except.ok.inj h
  exact ⟨⟨context, plan, tables, identified, associated, resolved, hcontext, hplan, hobjectTypes,
    htables, hidentified, hassociated, hresolved, rfl⟩⟩

variable {properties : List PropertyEntryV1}

section

variable {ext : Externals} {file : CovemapFile} {sourceRows : List SourceRow}
  {model : MaterializedModel}

/-- Candidate matches add no rows. -/
theorem objectRows_candidates (context : MappingContext) (candidates : List CandidateMatch)
    (out : ConversionOutput) :
    (candidates.foldl (materializeCandidate context) out).objectRows = out.objectRows := by
  induction candidates generalizing out with
  | nil => rfl
  | cons candidate candidates ih => exact ih (materializeCandidate context out candidate)

/-- **Every row of a model has an origin.** -/
theorem Conversion.rowOrigin (c : Conversion ext file sourceRows model)
    (hrow : row ∈ model.rows) : ∃ origin, RowOrigin c.tables origin ∧ row.ReducedFrom origin := by
  have hstart : (c.plan.candidates.foldl (materializeCandidate c.context)
      ⟨[], bindingAssertions c.context, []⟩).AllRows (RowOrigin c.tables) := by
    intro row hrow
    rw [objectRows_candidates] at hrow
    cases hrow
  have hidentified : c.identified.AllRows (RowOrigin c.tables) :=
    foldlM_preserves c.identities hstart fun _ _ _ hout _ h => rowOrigin_materializeIdentity hout h
  have hresolved := reducedFrom_resolve (rowOrigin_materializeAssociations hidentified
    c.associations) c.conflicts
  rw [c.rows] at hrow
  exact hresolved row ((List.perm_insertionSort _ _).mem_iff.mp hrow)

theorem recordKindFromName_published {name : Text}
    (h : recordKindFromName name = .ok kind) : kind ≠ .reservedLegacyMaterializedDelta := by
  unfold recordKindFromName at h
  repeat' split at h
  all_goals cases h <;> exact nofun

theorem recordKindForRowRule_published
    (h : recordKindForRowRule rowRule = .ok kind) : kind ≠ .reservedLegacyMaterializedDelta := by
  unfold recordKindForRowRule at h
  split at h
  · cases h
    exact nofun
  · split at h
    all_goals first | exact recordKindFromName_published h | (cases h; exact nofun)

/-- No row of a model is of the reserved kind. -/
theorem Conversion.recordKind_published (c : Conversion ext file sourceRows model)
    (hrow : row ∈ model.rows) :
    row.recordKind ≠ .reservedLegacyMaterializedDelta := by
  obtain ⟨origin, horigin, hfrom⟩ := c.rowOrigin hrow
  rw [hfrom.recordKind]
  cases horigin with
  | object _ _ hkind _ => exact recordKindForRowRule_published hkind
  | association rowRule _ _ _ _ _ _ _ hkind _ _ =>
    rw [hkind]
    unfold associationRecordKindForRowRule
    split <;> exact nofun

/-! ## The types of a model -/

theorem flags_addBindings {index : Nat} {out : List PropertyEntryV1}
    {bindings : List MapPropertyBinding} (h : addBindings ext index properties bindings = .ok out)
    (hflags : ∀ p ∈ properties, p.flags = 0) : ∀ p ∈ out, p.flags = 0 := by
  induction bindings generalizing index properties with
  | nil =>
    obtain rfl := Except.ok.inj h
    exact hflags
  | cons binding bindings ih =>
    obtain ⟨logical, -, h⟩ := bind_eq_ok.mp h
    dsimp only at h
    split at h
    · exact ih h hflags
    · obtain ⟨physical, -, h⟩ := bind_eq_ok.mp h
      refine ih h fun p hp => ?_
      rcases List.mem_append.mp hp with hp | hp
      · exact hflags p hp
      · rw [List.mem_singleton.mp hp]

theorem flags_propertiesOfType {context : MappingContext} {typeName : Text}
    (h : propertiesOfType ext context typeName = .ok properties) :
    ∀ p ∈ properties, p.flags = 0 := by
  refine foldlM_preserves (P := fun properties => ∀ p ∈ properties, p.flags = 0) h
    (fun p hp => nomatch hp) fun properties rowRule _ hflags out h => ?_
  split at h
  · obtain rfl := Except.ok.inj h
    exact hflags
  · split at h
    · obtain rfl := Except.ok.inj h
      exact hflags
    · exact flags_addBindings h hflags

/-- No property of a model's types is declared a numeric flag. -/
theorem Conversion.flags_objectTypes (c : Conversion ext file sourceRows model)
    {objectType : ObjectTypeEntryV1} (htype : objectType ∈ model.objectTypes)
    {p : PropertyEntryV1} (hp : p ∈ objectType.properties) : p.flags &&& 0x100 = 0 := by
  obtain ⟨⟨typeName, index⟩, -, h⟩ := exists_of_mem_mapM c.objectTypes htype
  obtain ⟨properties, hproperties, h⟩ := bind_eq_ok.mp h
  obtain rfl := Except.ok.inj h
  have hzero := flags_propertiesOfType hproperties
  have hassociation : ∀ p ∈ associationProperties, p.flags &&& 0x100 = 0 := by decide
  dsimp only at hp
  split at hp
  · rcases List.mem_append.mp hp with hp | hp
    · rw [hzero p hp, Nat.zero_and]
    · exact hassociation p hp
  · rw [hzero p hp, Nat.zero_and]

end

end Cove
