import Cove.Map.IdentityPlan
import Cove.Map.PropertyConflicts

/-!
# What becomes of the values that bindings offer

Every binding of a row rule offers a value for a property of the row's object. Some of the
values are left on the rows of the model, the others are to be reported. Within one row a
later binding of a property replaces the earlier one without a report.

- `propertyOffers`: the values offered.
- `ConflictsSettled`: what is left, and what is reported, of the values offered.
- `propertiesMerged_iff`: **the values are settled exactly when** no rule binds a property
  twice.
-/

namespace Cove

open Checked

/-! ## Offers -/

/-- The property that a binding gives a value. -/
def bindingValue (ext : Externals) (context : MappingContext) (rowRule : MapRowSemanticRule)
    (sourceRow : SourceRow) (declared : List (Nat × PropertyEntryV1))
    (binding : MapPropertyBinding × Nat) : Except Text (Nat × MaterializedProperty) := do
  let propertyId := propertyIdFromBinding ext binding.1 (binding.2 + 1)
  let property ← materializeProperty context rowRule sourceRow declared propertyId binding.1
  .ok (propertyId, property)

/-- The ids of the properties that a rule binds. -/
def MapRowSemanticRule.propertyIds (rowRule : MapRowSemanticRule) (ext : Externals) : List Nat :=
  rowRule.propertyBindings.zipIdx.map fun b => propertyIdFromBinding ext b.1 (b.2 + 1)

/-- The values that the bindings of an identity's rule offer, in binding order. -/
def identityOffers (t : AssociationTables) (identity : PlannedIdentity) :
    Except Text (List PropertyOffer) := do
  let rowRule ← okOr (rowRuleOf t.context identity.rowRuleId)
    (quoted "planned row references missing row rule '" identity.rowRuleId.val "'")
  let sourceRow ← okOr (sourceRowAt t.sourceRows identity.sourceId identity.rowIndex)
    "planned identity references missing source row".toList
  if ← rowRuleMaterializesObject rowRule then do
    let objectTypeId ← okOr (AssocMap.get identity.objectType t.typeIds)
      (quoted "unknown object type '" identity.objectType "'")
    let declared ← okOr (AssocMap.get objectTypeId t.propertiesByType)
      (quoted "object_type_id " (TextOps.natText objectTypeId) " has no property catalog")
    let values ← rowRule.propertyBindings.zipIdx.mapM
      (bindingValue t.ext t.context rowRule sourceRow declared)
    .ok (values.map fun v => ⟨identity.goid, v.1, v.2⟩)
  else .ok []

/-- The values offered by the bindings of all rows and by the associations. -/
def propertyOffers (ext : Externals) (file : CovemapFile) (rows : List SourceRow) :
    Except Text (List PropertyOffer) := do
  let context ← mappingContext file
  let plan ← planIdentities ext file rows
  let objectTypes ← objectTypesFromMapping ext context
  let t ← associationTables ext file context objectTypes plan.canonical rows
  let offers ← plan.canonical.mapM (identityOffers t)
  let associations ← materializeAssociations t ⟨[], [], []⟩
  .ok (offers.flatten ++ associations.objectRows.flatMap ObjectRow.offers)

/-- A report of conflict resolution. -/
def isReport (entry : Json) : Bool :=
  match entry.get "suppressed".toList with
  | some (.bool suppressed) => suppressed
  | _ => false

/-- What is left, and what is reported, of the values offered for the properties of objects. -/
structure ConflictsSettled (offers left : List PropertyOffer) (reports : List Json) : Prop where
  /-- Every value is left or reported. -/
  accounted : ∃ suppressed : List PropertyOffer, offers.Perm (left ++ suppressed) ∧
    reports.Perm (suppressed.map PropertyOffer.report)
  /-- Under source priority the value left has the least rank. -/
  least : ∀ o ∈ left, o.property.conflictPolicy = "source_priority_wins".toList →
    o.hasValue = true → ∀ o' ∈ offers, o'.key = o.key → o'.hasValue = true → o.rank ≤ o'.rank
  /-- Under source priority one value is left. -/
  single : ∀ o ∈ left, o.property.conflictPolicy = "source_priority_wins".toList →
    o.hasValue = true → (left.filter fun o' => o'.key = o.key ∧ o'.hasValue).length = 1
  /-- Where conflicts are rejected the values are equal. -/
  equal : ∀ o ∈ offers, o.property.conflictPolicy = "reject_conflict".toList →
    o.hasValue = true → ∀ o' ∈ offers, o'.key = o.key → o'.hasValue = true →
      o' = o ∨ o.property.value.beq o'.property.value = true
  /-- No null takes the place of a value. -/
  kept : ∀ o ∈ offers, o.hasValue = true → ∃ o' ∈ left, o'.key = o.key ∧ o'.hasValue = true

/-- The properties of a model: its values are settled, and the order of the rows changes no row
of it. -/
structure PropertiesMerged (ext : Externals) (file : CovemapFile) (rows : List SourceRow)
    (states : List ObservedSourceState) (model : MaterializedModel) : Prop where
  settled : ∃ offers, propertyOffers ext file rows = .ok offers ∧
    ConflictsSettled offers (model.rows.flatMap ObjectRow.offers)
      (model.evidenceEntries.filter isReport)
  order : ∀ rows', List.Perm rows' rows → ∃ model',
    materializeWithSourceStates ext file rows' states = .ok model' ∧ model'.rows = model.rows

/-- No rule that gives an identity its properties binds one of them twice. -/
def BindsOnce (ext : Externals) (file : CovemapFile) (rows : List SourceRow) : Prop :=
  ∀ context plan, mappingContext file = .ok context → planIdentities ext file rows = .ok plan →
    ∀ identity ∈ plan.canonical, ∀ rowRule, rowRuleOf context identity.rowRuleId = some rowRule →
      rowRuleMaterializesObject rowRule = .ok true → (rowRule.propertyIds ext).Nodup

/-! ## Within a row -/

variable {context : MappingContext} {declared : List (Nat × PropertyEntryV1)}
  {sourceRow : SourceRow} {out out' : ConversionOutput} {identity : PlannedIdentity}
  {t : AssociationTables} {binding : MapAssociationBinding} {rows' : List SourceRow}

variable {properties : List (Nat × MaterializedProperty)} {offers left : List PropertyOffer}
  {planned : List PlannedIdentity}

theorem materializeBindings_spec {ext : Externals} {rowRule : MapRowSemanticRule}
    {index : Nat} {bindings : List MapPropertyBinding}
    {out : List (Nat × MaterializedProperty)}
    (h : materializeBindings ext context rowRule sourceRow declared index properties bindings =
      .ok out) :
    ∃ values, (bindings.zipIdx index).mapM (bindingValue ext context rowRule sourceRow declared) =
      .ok values ∧ out = values.foldl (fun m e => AssocMap.insert e.1 e.2 m) properties := by
  induction bindings generalizing index properties with
  | nil =>
    obtain rfl := Except.ok.inj h
    exact ⟨[], rfl, rfl⟩
  | cons binding bindings ih =>
    obtain ⟨property, hproperty, h⟩ := bind_eq_ok.mp h
    obtain ⟨-, h⟩ := ite_error_eq_ok.mp h
    obtain ⟨values, hvalues, rfl⟩ := ih h
    have hvalue : bindingValue ext context rowRule sourceRow declared (binding, index) =
        .ok (propertyIdFromBinding ext binding (index + 1), property) :=
      bind_eq_ok.mpr ⟨property, hproperty, rfl⟩
    refine ⟨(propertyIdFromBinding ext binding (index + 1), property) :: values, ?_, rfl⟩
    rw [List.zipIdx_cons, List.mapM_cons, hvalue, ok_bind, hvalues, ok_bind]
    rfl

theorem ids_bindingValues {ext : Externals} {rowRule : MapRowSemanticRule}
    {values : List (Nat × MaterializedProperty)}
    (h : rowRule.propertyBindings.zipIdx.mapM
      (bindingValue ext context rowRule sourceRow declared) = .ok values) :
    values.map Prod.fst = rowRule.propertyIds ext := by
  refine map_eq_of_mapM h fun b v hv => ?_
  obtain ⟨property, -, hv⟩ := bind_eq_ok.mp hv
  obtain rfl := Except.ok.inj hv
  rfl

/-! ## Reports -/

theorem get_object (members : List (Text × Json)) (key : Text) :
    (Json.object members).get key = AssocMap.get key members := by
  show (members.find? fun m => m.1 == key).map Prod.snd = (members.find? _).map Prod.snd
  simp only [beq_eq_decide]

theorem get_ofMembers_eq_none {members : List (Text × Json)} {key : Text}
    (h : key ∉ members.map Prod.fst) : (Json.ofMembers members).get key = none := by
  unfold Json.ofMembers
  rw [get_object, ← Option.not_isSome_iff_eq_none, AssocMap.get_isSome, AssocMap.mem_keys_collect]
  exact h

theorem get_insertMember_of_ne {v value : Json} {key key' : Text} (h : key ≠ key') :
    (v.insertMember key value).get key' = v.get key' := by
  cases v with
  | object members =>
    show (Json.object (AssocMap.insert key value members)).get key' = _
    rw [get_object, get_object, AssocMap.get_insert, if_neg h]
  | _ => rfl

theorem isReport_eq_false {v : Json} (h : v.get "suppressed".toList = none) :
    isReport v = false := by
  unfold isReport
  rw [h]

theorem isReport_suppressed (o : PropertyOffer) (reason : Text) :
    isReport (o.suppressed reason) = true := by
  have hget : (o.suppressed reason).get "suppressed".toList = some (.bool true) := by
    unfold PropertyOffer.suppressed Json.ofMembers
    rw [get_object]
    refine AssocMap.get_of_mem (AssocMap.nodup_collect _)
      ((AssocMap.collect_perm ?_).mem_iff.mpr ?_)
    · simp only [List.map_cons, List.map_nil]
      decide
    · simp only [List.mem_cons, true_or, or_true]
  unfold isReport
  rw [hget]

/-- Metadata makes no report of an entry. -/
theorem get_addOperationMetadata (evidence : Json) (rowRule : MapRowSemanticRule)
    (sourceRow : Option SourceRow) :
    (addOperationMetadata evidence rowRule sourceRow).get "suppressed".toList =
      evidence.get "suppressed".toList := by
  have hcopied : ∀ (row : SourceRow) (keys : List Text), "suppressed".toList ∉ keys →
      ∀ v : Json, (keys.foldl (copyOperationPolicyValue row) v).get "suppressed".toList =
        v.get "suppressed".toList := by
    intro row keys
    induction keys with
    | nil => exact fun _ _ => rfl
    | cons key keys ih =>
      intro hkeys v
      obtain ⟨hne, hkeys⟩ := not_or.mp fun hor => hkeys (List.mem_cons.mpr hor)
      refine (ih hkeys _).trans ?_
      unfold copyOperationPolicyValue
      split
      · exact get_insertMember_of_ne (Ne.symm hne)
      · rfl
  unfold addOperationMetadata
  cases sourceRow with
  | none =>
    dsimp only
    rw [get_insertMember_of_ne (by decide), get_insertMember_of_ne (by decide),
      get_insertMember_of_ne (by decide)]
  | some row =>
    dsimp only
    rw [hcopied row operationPolicyKeys (by decide), get_insertMember_of_ne (by decide),
      get_insertMember_of_ne (by decide), get_insertMember_of_ne (by decide)]

/-- The reports of an output. -/
def ConversionOutput.reports (out : ConversionOutput) : List Json :=
  out.evidenceEntries.filter isReport

theorem filter_isReport_append {evidence : List Json} {entry : Json}
    (h : entry.get "suppressed".toList = none) :
    (evidence ++ [entry]).filter isReport = evidence.filter isReport := by
  have hnone : [entry].filter isReport = [] := by
    rw [List.filter_cons, isReport_eq_false h]
    rfl
  rw [List.filter_append, hnone, List.append_nil]

theorem get_evidenceEntryForIdentity (identity : PlannedIdentity) :
    (evidenceEntryForIdentity identity).get "suppressed".toList = none := by
  refine get_ofMembers_eq_none ?_
  simp only [List.map_cons, List.map_nil]
  decide

theorem get_evidenceEntryForCandidate (candidate : CandidateMatch) :
    (evidenceEntryForCandidate candidate).get "suppressed".toList = none := by
  refine get_ofMembers_eq_none ?_
  simp only [List.map_cons, List.map_nil]
  decide

theorem reports_candidates (context : MappingContext) (candidates : List CandidateMatch)
    (out : ConversionOutput) :
    (candidates.foldl (materializeCandidate context) out).reports = out.reports := by
  induction candidates generalizing out with
  | nil => rfl
  | cons candidate candidates ih =>
    refine (ih (materializeCandidate context out candidate)).trans
      (filter_isReport_append ?_)
    split
    · rw [get_addOperationMetadata]
      exact get_evidenceEntryForCandidate candidate
    · exact get_evidenceEntryForCandidate candidate

/-! ## Steps -/

/-- A step that adds the same rows to every output and reports nothing. -/
structure AddsRows (f : ConversionOutput → Except Text ConversionOutput)
    (rows : List ObjectRow) : Prop where
  distinct : DistinctIds rows
  adds : ∀ out, ∃ out', f out = .ok out' ∧ out'.objectRows = out.objectRows ++ rows ∧
    out'.reports = out.reports

theorem addsRows_nil : AddsRows (fun out => .ok out) [] where
  distinct := fun _ h => (List.not_mem_nil h).elim
  adds := fun out => ⟨out, rfl, (List.append_nil _).symm, rfl⟩

/-- What the steps of a loop add, the loop adds. -/
theorem addsRows_foldlM {α : Type} {f : ConversionOutput → α → Except Text ConversionOutput}
    {R : α → List ObjectRow → Prop} {l : List α}
    (hstep : ∀ a ∈ l, ∀ out out', f out a = .ok out' →
      ∃ rows, R a rows ∧ AddsRows (fun out => f out a) rows)
    (h : l.foldlM f out = .ok out') :
    ∃ parts, List.Forall₂ R l parts ∧ AddsRows (fun out => l.foldlM f out) parts.flatten := by
  induction l generalizing out with
  | nil => exact ⟨[], .nil, addsRows_nil⟩
  | cons a l ih =>
    rw [List.foldlM_cons] at h
    obtain ⟨next, hnext, h⟩ := bind_eq_ok.mp h
    obtain ⟨rows, hrows, hadds⟩ := hstep a List.mem_cons_self out next hnext
    obtain ⟨parts, hparts, hall⟩ := ih (fun b hb => hstep b (List.mem_cons_of_mem a hb)) h
    refine ⟨rows :: parts, .cons hrows hparts, ?_, fun out => ?_⟩
    · intro row hrow
      rcases List.mem_append.mp hrow with hrow | hrow
      · exact hadds.distinct row hrow
      · exact hall.distinct row hrow
    · obtain ⟨mid, hmid, hmidRows, hmidReports⟩ := hadds.adds out
      obtain ⟨last, hlast, hlastRows, hlastReports⟩ := hall.adds mid
      refine ⟨last, ?_, ?_, hlastReports.trans hmidReports⟩
      · show (a :: l).foldlM f out = _
        rw [List.foldlM_cons, hmid]
        exact hlast
      · rw [hlastRows, hmidRows, List.append_assoc]
        rfl

/-- The value offered for a property of an object. -/
def offerOf (goid : Id16) (value : Nat × MaterializedProperty) : PropertyOffer :=
  ⟨goid, value.1, value.2⟩

/-- The rule that gives an identity its properties binds each of them once. -/
def RuleBindsOnce (ext : Externals) (context : MappingContext) (identity : PlannedIdentity) :
    Prop :=
  ∀ rowRule, rowRuleOf context identity.rowRuleId = some rowRule →
    rowRuleMaterializesObject rowRule = .ok true → (rowRule.propertyIds ext).Nodup

/-- The rows of an identity hold its values, the last one of every property. -/
def MergedRows (t : AssociationTables) (identity : PlannedIdentity) (rows : List ObjectRow) :
    Prop :=
  ∃ values : List (Nat × MaterializedProperty),
    identityOffers t identity = .ok (values.map (offerOf identity.goid)) ∧
    rows.flatMap ObjectRow.offers = (AssocMap.collect values).map (offerOf identity.goid) ∧
    ((values.map Prod.fst).Nodup ↔ RuleBindsOnce t.ext t.context identity)

theorem materializeIdentity_adds (h : materializeIdentity t out identity = .ok out') :
    ∃ rows, MergedRows t identity rows ∧
      AddsRows (fun out => materializeIdentity t out identity) rows := by
  obtain ⟨rowRule, hrule, h⟩ := bind_eq_ok.mp h
  obtain ⟨sourceRow, hsource, h⟩ := bind_eq_ok.mp h
  obtain ⟨materializes, hmaterializes, h⟩ := bind_eq_ok.mp h
  have hnote := fun out : ConversionOutput => @filter_isReport_append out.evidenceEntries _
    ((get_addOperationMetadata (evidenceEntryForIdentity identity) rowRule (some sourceRow)).trans
      (get_evidenceEntryForIdentity identity))
  cases materializes with
  | true =>
    obtain ⟨objectTypeId, htype, h⟩ := bind_eq_ok.mp h
    obtain ⟨properties, hproperties, h⟩ := bind_eq_ok.mp h
    obtain ⟨recordKind, hkind, h⟩ := bind_eq_ok.mp h
    obtain ⟨declared, hdeclared, hbindings⟩ := bind_eq_ok.mp hproperties
    obtain ⟨values, hvalues, rfl⟩ := materializeBindings_spec hbindings
    refine ⟨[{
      goid := identity.goid
      recordId := recordIdFor t.ext identity.sourceId identity.rowIndex identity.rowRuleId.val
        identity.goid
      objectTypeId := objectTypeId
      objectType := identity.objectType
      sourceId := identity.sourceId
      sourceRowIndex := identity.rowIndex
      recordKind := recordKind
      properties := AssocMap.collect values }], ⟨values, ?_, ?_, ?_⟩, ?_, fun out => ?_⟩
    · exact bind_eq_ok.mpr ⟨rowRule, hrule, bind_eq_ok.mpr ⟨sourceRow, hsource,
        bind_eq_ok.mpr ⟨true, hmaterializes, bind_eq_ok.mpr ⟨objectTypeId, htype,
          bind_eq_ok.mpr ⟨declared, hdeclared, bind_eq_ok.mpr ⟨values, hvalues, rfl⟩⟩⟩⟩⟩⟩
    · exact List.append_nil _
    · rw [ids_bindingValues hvalues]
      constructor
      · intro hnodup rule hrule' _
        obtain rfl := Option.some.inj ((okOr_eq_ok.mp hrule).symm.trans hrule')
        exact hnodup
      · exact fun honce => honce rowRule (okOr_eq_ok.mp hrule) hmaterializes
    · intro row hrow
      rw [List.mem_singleton.mp hrow]
      exact AssocMap.nodup_collect values
    · refine ⟨_, bind_eq_ok.mpr ⟨rowRule, hrule, bind_eq_ok.mpr ⟨sourceRow, hsource,
        bind_eq_ok.mpr ⟨true, hmaterializes, bind_eq_ok.mpr ⟨objectTypeId, htype,
          bind_eq_ok.mpr ⟨_, hproperties, bind_eq_ok.mpr ⟨recordKind, hkind, rfl⟩⟩⟩⟩⟩⟩, rfl, ?_⟩
      exact hnote out
  | false =>
    have hmerged : MergedRows t identity [] := by
      refine ⟨[], ?_, rfl, iff_of_true .nil fun rule hrule' htrue => ?_⟩
      · exact bind_eq_ok.mpr ⟨rowRule, hrule, bind_eq_ok.mpr ⟨sourceRow, hsource,
          bind_eq_ok.mpr ⟨false, hmaterializes, rfl⟩⟩⟩
      · obtain rfl := Option.some.inj ((okOr_eq_ok.mp hrule).symm.trans hrule')
        exact Bool.noConfusion (Except.ok.inj (hmaterializes.symm.trans htrue))
    refine ⟨[], hmerged, fun _ hrow => (List.not_mem_nil hrow).elim, fun out => ?_⟩
    by_cases hevidence : rowRuleEmitsNonObjectEvidence rowRule = true
    · refine ⟨noteIdentity identity rowRule sourceRow out, bind_eq_ok.mpr ⟨rowRule, hrule,
        bind_eq_ok.mpr ⟨sourceRow, hsource, bind_eq_ok.mpr ⟨false, hmaterializes, ?_⟩⟩⟩,
        (List.append_nil _).symm, hnote out⟩
      exact if_pos hevidence
    · refine ⟨out, bind_eq_ok.mpr ⟨rowRule, hrule,
        bind_eq_ok.mpr ⟨sourceRow, hsource, bind_eq_ok.mpr ⟨false, hmaterializes, ?_⟩⟩⟩,
        (List.append_nil _).symm, rfl⟩
      exact if_neg hevidence

/-! ## Associations -/

theorem distinctIds_associationProperties {rowRule : MapRowSemanticRule}
    {sourceGoid targetGoid : Id16}
    {validFrom validTo : Json}
    (h : (associationPropertyValues identity rowRule binding sourceGoid targetGoid validFrom
      validTo).mapM (associationProperty t identity binding declared) = .ok properties) :
    (properties.map Prod.fst).Nodup := by
  have hids := map_eq_of_mapM (g := Prod.fst) (k := Prod.fst) h fun a b hb => by
    obtain ⟨entry, -, hb⟩ := bind_eq_ok.mp hb
    obtain rfl := Except.ok.inj hb
    rfl
  rw [hids]
  show [1, 2, 3, 4, 5, 6, 7, 8, 9, 10].Nodup
  decide

theorem addAssociation_adds {rowRule : MapRowSemanticRule} {source target : PlannedIdentity}
    (h : addAssociation t rowRule identity sourceRow binding source target out = .ok out') :
    ∃ rows, AddsRows (addAssociation t rowRule identity sourceRow binding source target) rows := by
  obtain ⟨objectTypeId, htype, h⟩ := bind_eq_ok.mp h
  obtain ⟨declared, hdeclared, h⟩ := bind_eq_ok.mp h
  obtain ⟨validFrom, hfrom, h⟩ := bind_eq_ok.mp h
  have hskip {rest : ConversionOutput → Except Text ConversionOutput}
      (hrest : ∀ out, rest out = .ok out)
      (heq : ∀ out, addAssociation t rowRule identity sourceRow binding source target out =
        rest out) :
      ∃ rows, AddsRows (addAssociation t rowRule identity sourceRow binding source target)
        rows := by
    refine ⟨[], fun _ hrow => (List.not_mem_nil hrow).elim, fun out => ⟨out, ?_,
      (List.append_nil _).symm, rfl⟩⟩
    rw [heq, hrest]
  cases validFrom with
  | none =>
    refine hskip (fun _ => rfl) fun out => ?_
    exact bind_eq_ok.mpr ⟨objectTypeId, htype, bind_eq_ok.mpr ⟨declared, hdeclared,
      bind_eq_ok.mpr ⟨none, hfrom, rfl⟩⟩⟩
  | some validFrom =>
    obtain ⟨validTo, hto, h⟩ := bind_eq_ok.mp h
    cases validTo with
    | none =>
      refine hskip (fun _ => rfl) fun out => ?_
      exact bind_eq_ok.mpr ⟨objectTypeId, htype, bind_eq_ok.mpr ⟨declared, hdeclared,
        bind_eq_ok.mpr ⟨some validFrom, hfrom, bind_eq_ok.mpr ⟨none, hto, rfl⟩⟩⟩⟩
    | some validTo =>
      obtain ⟨properties, hproperties, h⟩ := bind_eq_ok.mp h
      refine ⟨_, ?_, fun out => ⟨_, bind_eq_ok.mpr ⟨objectTypeId, htype,
        bind_eq_ok.mpr ⟨declared, hdeclared, bind_eq_ok.mpr ⟨some validFrom, hfrom,
          bind_eq_ok.mpr ⟨some validTo, hto, bind_eq_ok.mpr ⟨properties, hproperties, rfl⟩⟩⟩⟩⟩,
        rfl, ?_⟩⟩
      · intro row hrow
        rw [List.mem_singleton.mp hrow]
        exact distinctIds_associationProperties hproperties
      · refine filter_isReport_append ((get_addOperationMetadata _ _ _).trans
          (get_ofMembers_eq_none ?_))
        simp only [List.map_cons, List.map_nil]
        decide

theorem materializeAssociation_adds {rowRule : MapRowSemanticRule}
    (h : materializeAssociation t rowRule identity out binding = .ok out') :
    ∃ rows, AddsRows (fun out => materializeAssociation t rowRule identity out binding) rows := by
  unfold materializeAssociation at h ⊢
  dsimp only at h ⊢
  by_cases hrule : identity.identityRuleId.val ≠ associationSourceRule rowRule binding
  · exact ⟨[], by simp only [if_pos hrule]; exact addsRows_nil⟩
  · simp only [if_neg hrule] at h ⊢
    obtain ⟨sourceRow, hsourceRow, h⟩ := bind_eq_ok.mp h
    obtain ⟨source, hsource, h⟩ := bind_eq_ok.mp h
    simp only [hsourceRow, ok_bind, hsource]
    cases source with
    | none =>
      dsimp only at h ⊢
      split at h
      · next hskip => exact ⟨[], by simp only [if_pos hskip]; exact addsRows_nil⟩
      · cases h
    | some source =>
      obtain ⟨target, htarget, h⟩ := bind_eq_ok.mp h
      simp only [htarget, ok_bind]
      cases target with
      | none =>
        dsimp only at h ⊢
        split at h
        · next hskip => exact ⟨[], by simp only [if_pos hskip]; exact addsRows_nil⟩
        · cases h
      | some target => exact addAssociation_adds h

theorem materializeAssociations_adds (h : materializeAssociations t out = .ok out') :
    ∃ rows, AddsRows (materializeAssociations t) rows := by
  have hstep : ∀ identity ∈ t.planned, ∀ out out',
      materializeAssociationsOf t out identity = .ok out' →
      ∃ rows, True ∧ AddsRows (fun out => materializeAssociationsOf t out identity) rows := by
    intro identity _ out out' h
    obtain ⟨rowRule, hrule, h⟩ := bind_eq_ok.mp h
    obtain ⟨materializes, hmaterializes, h⟩ := bind_eq_ok.mp h
    have heq (out : ConversionOutput) : materializeAssociationsOf t out identity =
        if materializes then
          rowRule.associationBindings.foldlM (materializeAssociation t rowRule identity) out
        else .ok out := by
      unfold materializeAssociationsOf
      rw [hrule, ok_bind, hmaterializes]
      rfl
    simp only [heq]
    cases materializes with
    | true =>
      have hbindings : ∀ binding ∈ rowRule.associationBindings, ∀ out out',
          materializeAssociation t rowRule identity out binding = .ok out' → ∃ rows, True ∧
            AddsRows (fun out => materializeAssociation t rowRule identity out binding) rows :=
        fun binding _ out out' h =>
          (materializeAssociation_adds h).imp fun _ hadds => ⟨trivial, hadds⟩
      obtain ⟨parts, -, hadds⟩ := addsRows_foldlM hbindings h
      exact ⟨parts.flatten, trivial, hadds⟩
    | false => exact ⟨[], trivial, addsRows_nil⟩
  obtain ⟨parts, -, hadds⟩ := addsRows_foldlM hstep h
  exact ⟨parts.flatten, hadds⟩

/-! ## Settled conflicts -/

theorem ConflictsSettled.perm {offers' left' : List PropertyOffer}
    {reports reports' : List Json} (h : ConflictsSettled offers left reports)
    (hoffers : offers.Perm offers') (hleft : left.Perm left') (hreports : reports.Perm reports') :
    ConflictsSettled offers' left' reports' := by
  obtain ⟨suppressed, haccounted, hsuppressed⟩ := h.accounted
  refine ⟨⟨suppressed, ?_, hreports.symm.trans hsuppressed⟩, ?_, ?_, ?_, ?_⟩
  · exact hoffers.symm.trans (haccounted.trans (hleft.append_right suppressed))
  · intro o ho hpolicy hvalue o' ho'
    exact h.least o (hleft.mem_iff.mpr ho) hpolicy hvalue o' (hoffers.mem_iff.mpr ho')
  · intro o ho hpolicy hvalue
    rw [← (hleft.filter _).length_eq]
    exact h.single o (hleft.mem_iff.mpr ho) hpolicy hvalue
  · intro o ho hpolicy hvalue o' ho'
    exact h.equal o (hoffers.mem_iff.mpr ho) hpolicy hvalue o' (hoffers.mem_iff.mpr ho')
  · intro o ho hvalue
    obtain ⟨o', ho', hkept⟩ := h.kept o (hoffers.mem_iff.mpr ho) hvalue
    exact ⟨o', hleft.mem_iff.mp ho', hkept⟩

/-- No value is left or reported twice. -/
theorem ConflictsSettled.length {reports : List Json} (h : ConflictsSettled offers left reports) :
    offers.length = left.length + reports.length := by
  obtain ⟨suppressed, haccounted, hreports⟩ := h.accounted
  rw [haccounted.length_eq, List.length_append, hreports.length_eq, List.length_map]

/-- Resolution settles the conflicts between rows. -/
theorem settled_candidates {candidates : List PropertyCandidate}
    (hplaces : (candidates.map PropertyCandidate.place).Nodup)
    (hpasses : ∀ c ∈ candidates, GroupPasses (rivals candidates c)) :
    ConflictsSettled (candidates.map PropertyCandidate.offer)
      ((candidates.filter fun c => !loses candidates c).map PropertyCandidate.offer)
      ((candidates.filter (loses candidates)).map fun c => c.offer.report) := by
  have hsource {policy : Text} (h : policy = "source_priority_wins".toList) :
      policy ≠ "reject_conflict".toList := by
    rw [h]
    decide
  have hstay {o : PropertyOffer}
      (ho : o ∈ (candidates.filter fun c => !loses candidates c).map PropertyCandidate.offer) :
      ∃ c ∈ candidates, loses candidates c = false ∧ c.offer = o := by
    obtain ⟨c, hc, rfl⟩ := List.mem_map.mp ho
    obtain ⟨hc, hstays⟩ := List.mem_filter.mp hc
    exact ⟨c, hc, (Bool.not_eq_true' _).mp hstays, rfl⟩
  refine ⟨⟨(candidates.filter (loses candidates)).map PropertyCandidate.offer, ?_, ?_⟩, ?_, ?_,
    ?_, ?_⟩
  · rw [← List.map_append]
    exact ((List.filter_append_perm (loses candidates) candidates).symm.trans
      List.perm_append_comm).map _
  · rw [List.map_map]
    exact .refl _
  · intro o ho hpolicy hvalue o' ho' hkey hvalue'
    obtain ⟨c, hc, hstays, rfl⟩ := hstay ho
    obtain ⟨d, hd, rfl⟩ := List.mem_map.mp ho'
    exact survivor_least hplaces (hsource hpolicy) hc hvalue hstays hd hkey hvalue'
  · intro o ho hpolicy hvalue
    obtain ⟨c, hc, hstays, rfl⟩ := hstay ho
    rw [List.filter_map, List.length_map]
    refine List.length_eq_one_iff.mpr ⟨c, ?_⟩
    have hone : ((candidates.filter fun c => !loses candidates c).filter
        ((fun o' => decide (o'.key = c.offer.key ∧ o'.hasValue = true)) ∘
          PropertyCandidate.offer)) =
        candidates.filter fun d => d.place = c.place := by
      rw [List.filter_filter]
      refine List.filter_congr fun d hd => ?_
      rw [Bool.eq_iff_iff, Bool.and_eq_true, Bool.not_eq_true', decide_eq_true_iff]
      constructor
      · rintro ⟨hmatch, hdstays⟩
        obtain ⟨hkey, -⟩ := of_decide_eq_true hmatch
        rw [survivor_unique hplaces (hpasses c hc) (hsource hpolicy) hc hvalue hstays hd hkey
          hdstays]
      · intro hplace
        obtain rfl := List.inj_on_of_nodup_map hplaces hd hc hplace
        exact ⟨decide_eq_true ⟨rfl, hvalue⟩, hstays⟩
    rw [hone, filter_place hplaces hc]
  · intro o ho hpolicy hvalue o' ho' hkey hvalue'
    obtain ⟨c, hc, rfl⟩ := List.mem_map.mp ho
    obtain ⟨d, hd, rfl⟩ := List.mem_map.mp ho'
    have hcrival : c ∈ rivals candidates c := mem_rivals.mpr ⟨hc, rfl⟩
    have hdrival : d ∈ rivals candidates c := mem_rivals.mpr ⟨hd, hkey⟩
    by_cases hlength : 1 < (rivals candidates c).length
    · exact .inr ((hpasses c hc).equal hlength c hcrival hpolicy c
        (mem_nonNullOf.mpr ⟨hcrival, hvalue⟩) d (mem_nonNullOf.mpr ⟨hdrival, hvalue'⟩))
    · exact .inl (congrArg _ (eq_of_length_le_one (not_lt.mp hlength) hdrival hcrival))
  · intro o ho hvalue
    obtain ⟨c, hc, rfl⟩ := List.mem_map.mp ho
    obtain ⟨d, hd, hkey, hdvalue, hstays⟩ := survivor_exists hplaces (hpasses c hc) hc hvalue
    refine ⟨d.offer, List.mem_map_of_mem (List.mem_filter.mpr ⟨hd, ?_⟩), hkey, hdvalue⟩
    exact (Bool.not_eq_true' _).mpr hstays

/-! ## A conversion -/

/-- What the identities offer, and what is on their rows. -/
theorem offers_of_mergedRows
    {parts : List (List ObjectRow)} (h : List.Forall₂ (MergedRows t) planned parts) :
    ∃ offers, planned.mapM (identityOffers t) = .ok offers ∧
      ((∀ identity ∈ planned, RuleBindsOnce t.ext t.context identity) →
        (parts.flatten.flatMap ObjectRow.offers).Perm offers.flatten) ∧
      (parts.flatten.flatMap ObjectRow.offers).length ≤ offers.flatten.length ∧
      ((∃ identity ∈ planned, ¬ RuleBindsOnce t.ext t.context identity) →
        (parts.flatten.flatMap ObjectRow.offers).length < offers.flatten.length) := by
  induction h with
  | nil =>
    refine ⟨[], rfl, fun _ => .refl _, le_rfl, ?_⟩
    rintro ⟨identity, hidentity, -⟩
    exact (List.not_mem_nil hidentity).elim
  | @cons identity rows planned parts hmerged _ ih =>
    obtain ⟨values, hoffers, hrows, honce⟩ := hmerged
    obtain ⟨offers, hall, hperm, hle, hlt⟩ := ih
    refine ⟨values.map (offerOf identity.goid) :: offers, ?_, fun h => ?_, ?_, ?_⟩
    · rw [List.mapM_cons, hoffers, ok_bind, hall]
      rfl
    · obtain ⟨hfirst, hrest⟩ := List.forall_mem_cons.mp h
      rw [List.flatten_cons, List.flatMap_append, List.flatten_cons, hrows]
      exact ((AssocMap.collect_perm (honce.mpr hfirst)).map _).append (hperm hrest)
    · rw [List.flatten_cons, List.flatMap_append, List.flatten_cons, hrows, List.length_append,
        List.length_append, List.length_map, List.length_map]
      exact Nat.add_le_add (AssocMap.length_collect_le values) hle
    · intro hexists
      rw [List.flatten_cons, List.flatMap_append, List.flatten_cons, hrows, List.length_append,
        List.length_append, List.length_map, List.length_map]
      have hfirst := AssocMap.length_collect_le values
      obtain ⟨other, hother, hbinds⟩ := hexists
      rcases List.mem_cons.mp hother with rfl | hother
      · have hfewer := AssocMap.length_collect_lt fun hnodup => hbinds (honce.mp hnodup)
        omega
      · have hfewer := hlt ⟨other, hother, hbinds⟩
        omega

/-- The rows before conflict resolution, with what was offered for them. -/
structure Conversion.Merged {ext : Externals} {file : CovemapFile} {sourceRows : List SourceRow}
    {model : MaterializedModel} (c : Conversion ext file sourceRows model)
    (offers : List PropertyOffer) : Prop where
  offered : propertyOffers ext file sourceRows = .ok offers
  distinct : DistinctIds c.associated.objectRows
  reports : c.associated.reports = []
  whole : (∀ identity ∈ c.plan.canonical, RuleBindsOnce ext c.context identity) →
    (c.associated.objectRows.flatMap ObjectRow.offers).Perm offers
  less : (∃ identity ∈ c.plan.canonical, ¬ RuleBindsOnce ext c.context identity) →
    (c.associated.objectRows.flatMap ObjectRow.offers).length < offers.length

theorem tables_spec {ext : Externals} {file : CovemapFile} {objectTypes : List ObjectTypeEntryV1}
    {rows : List SourceRow}
    (h : associationTables ext file context objectTypes planned rows = .ok t) :
    t.ext = ext ∧ t.context = context ∧ t.planned = planned ∧ t.sourceRows = rows := by
  obtain ⟨ids, -, h⟩ := bind_eq_ok.mp h
  obtain rfl := Except.ok.inj h
  exact ⟨rfl, rfl, rfl, rfl⟩

section

variable {ext : Externals} {file : CovemapFile} {rows : List SourceRow}
  {states : List ObservedSourceState} {model : MaterializedModel}

theorem Conversion.exists_merged (c : Conversion ext file rows model) :
    ∃ offers, c.Merged offers := by
  obtain ⟨hext, hcontext, -, -⟩ := tables_spec c.tablesOf
  obtain ⟨parts, hparts, hidentities⟩ := addsRows_foldlM (R := MergedRows c.tables)
    (fun identity _ out out' h => materializeIdentity_adds h) c.identities
  obtain ⟨associated, hassociations⟩ := materializeAssociations_adds c.associations
  obtain ⟨identified, hidentified, hrows, hreports⟩ := hidentities.adds
    (c.plan.candidates.foldl (materializeCandidate c.context)
      ⟨[], bindingAssertions c.context, []⟩)
  obtain rfl := Except.ok.inj (hidentified.symm.trans c.identities)
  obtain ⟨all, hall, hallRows, hallReports⟩ := hassociations.adds c.identified
  obtain rfl := Except.ok.inj (hall.symm.trans c.associations)
  obtain ⟨alone, halone, haloneRows, -⟩ := hassociations.adds ⟨[], [], []⟩
  obtain ⟨offers, hoffers, hwhole, hle, hless⟩ := offers_of_mergedRows hparts
  rw [objectRows_candidates, List.nil_append] at hrows
  rw [List.nil_append] at haloneRows
  have hsplit : c.associated.objectRows.flatMap ObjectRow.offers =
      parts.flatten.flatMap ObjectRow.offers ++ associated.flatMap ObjectRow.offers := by
    rw [hallRows, hrows, List.flatMap_append]
  rw [hext, hcontext] at hwhole hless
  refine ⟨offers.flatten ++ associated.flatMap ObjectRow.offers, ?_, ?_, ?_, fun h => ?_,
    fun h => ?_⟩
  · refine bind_eq_ok.mpr ⟨c.context, c.contextOf, bind_eq_ok.mpr ⟨c.plan, c.planOf,
      bind_eq_ok.mpr ⟨model.objectTypes, c.objectTypes, bind_eq_ok.mpr ⟨c.tables, c.tablesOf,
        bind_eq_ok.mpr ⟨offers, hoffers, bind_eq_ok.mpr ⟨alone, halone, ?_⟩⟩⟩⟩⟩⟩
    rw [haloneRows]
  · rw [hallRows, hrows]
    intro row hrow
    rcases List.mem_append.mp hrow with hrow | hrow
    · exact hidentities.distinct row hrow
    · exact hassociations.distinct row hrow
  · rw [hallReports, hreports, reports_candidates]
    rfl
  · rw [hsplit]
    exact (hwhole h).append_right _
  · rw [hsplit, List.length_append, List.length_append]
    exact Nat.add_lt_add_right (hless h) _

/-- What resolution leaves of the rows, settled among their own values. -/
theorem Conversion.settled (c : Conversion ext file rows model)
    (hevidence : model.evidenceEntries = c.resolved.evidenceEntries)
    (h : c.Merged offers) :
    ConflictsSettled (c.associated.objectRows.flatMap ObjectRow.offers)
      (model.rows.flatMap ObjectRow.offers) (model.evidenceEntries.filter isReport) := by
  obtain ⟨hleft, ⟨losers, hlosers, hadded⟩, hpasses⟩ :=
    resolvePropertyConflicts_spec h.distinct c.conflicts
  have hsettled := settled_candidates (nodup_candidatePlaces h.distinct 0) hpasses
  rw [offers_candidatesFrom] at hsettled
  rw [propertyCandidates_eq c.associated.objectRows] at hleft hlosers
  refine hsettled.perm (.refl _) ?_ ?_
  · rw [← hleft, propertyCandidates_eq, offers_candidatesFrom, c.rows]
    exact (List.perm_insertionSort _ _).symm.flatMap_right _
  · have hreports : (losers.map fun l => l.offer.report).filter isReport =
        losers.map fun l => l.offer.report := by
      refine List.filter_eq_self.mpr fun v hv => ?_
      obtain ⟨l, -, rfl⟩ := List.mem_map.mp hv
      exact isReport_suppressed _ _
    have hnone : c.associated.evidenceEntries.filter isReport = [] := h.reports
    rw [hevidence, hadded, List.filter_append, hnone, List.nil_append, hreports]
    exact (hlosers.symm.map _)

theorem conversion_evidence (h : materializeWithSourceStates ext file rows states = .ok model) :
    ∃ c : Conversion ext file rows model,
      model.evidenceEntries = c.resolved.evidenceEntries := by
  obtain ⟨context, hcontext, h⟩ := bind_eq_ok.mp h
  obtain ⟨plan, hplan, h⟩ := bind_eq_ok.mp h
  obtain ⟨objectTypes, hobjectTypes, h⟩ := bind_eq_ok.mp h
  obtain ⟨tables, htables, h⟩ := bind_eq_ok.mp h
  obtain ⟨identified, hidentified, h⟩ := bind_eq_ok.mp h
  obtain ⟨associated, hassociated, h⟩ := bind_eq_ok.mp h
  obtain ⟨resolved, hresolved, h⟩ := bind_eq_ok.mp h
  obtain ⟨report, -, h⟩ := bind_eq_ok.mp h
  obtain rfl := Except.ok.inj h
  exact ⟨⟨context, plan, tables, identified, associated, resolved, hcontext, hplan, hobjectTypes,
    htables, hidentified, hassociated, hresolved, rfl⟩, rfl⟩

/-! ## The order of the rows -/

/-- Rows with distinct ids are found in any order. -/
theorem sourceRowAt_perm (hrows : (rows.map fun row => (row.sourceId, row.rowIndex)).Nodup)
    (hperm : rows'.Perm rows) (sourceId : Text) (rowIndex : Nat) :
    sourceRowAt rows' sourceId rowIndex = sourceRowAt rows sourceId rowIndex := by
  have hkeys : ∀ l : List SourceRow, (l.map fun row => ((row.sourceId, row.rowIndex), row)).map
      Prod.fst = l.map fun row => (row.sourceId, row.rowIndex) := fun l => by
    rw [List.map_map]
    rfl
  have hrows' := (hperm.map fun row => (row.sourceId, row.rowIndex)).nodup_iff.mpr hrows
  refine Option.ext fun row => ?_
  unfold sourceRowAt
  rw [AssocMap.collected_eq_some ((hkeys rows').symm ▸ hrows'),
    AssocMap.collected_eq_some ((hkeys rows).symm ▸ hrows)]
  exact (hperm.map _).mem_iff

theorem materializeIdentity_rows (h : ∀ sourceId rowIndex,
      sourceRowAt rows' sourceId rowIndex = sourceRowAt t.sourceRows sourceId rowIndex) :
    materializeIdentity { t with sourceRows := rows' } = materializeIdentity t := by
  funext out identity
  unfold materializeIdentity
  dsimp only
  rw [h]

theorem materializeAssociations_rows (h : ∀ sourceId rowIndex,
      sourceRowAt rows' sourceId rowIndex = sourceRowAt t.sourceRows sourceId rowIndex) :
    materializeAssociations { t with sourceRows := rows' } = materializeAssociations t := by
  have hone : materializeAssociation { t with sourceRows := rows' } = materializeAssociation t := by
    funext rowRule identity out binding
    unfold materializeAssociation
    dsimp only
    rw [h]
    rfl
  funext out
  unfold materializeAssociations materializeAssociationsOf
  rw [hone]

theorem governanceReport_perm (context : MappingContext)
    (hperm : rows'.Perm rows) : governanceReport context rows' = governanceReport context rows := by
  have hused : distinctTexts (rows'.map SourceRow.sourceId) =
      distinctTexts (rows.map SourceRow.sourceId) :=
    AssocMap.keys_collect_perm ((hperm.map _).map _)
  unfold governanceReport
  rw [hused]

/-- **The order of the rows changes no row of the model.** -/
theorem materialize_perm (hrows : (rows.map fun row => (row.sourceId, row.rowIndex)).Nodup)
    (hfits : PlanFits ext file rows)
    (h : materializeWithSourceStates ext file rows states = .ok model)
    (hperm : rows'.Perm rows) :
    ∃ model', materializeWithSourceStates ext file rows' states = .ok model' ∧
      model'.rows = model.rows := by
  obtain ⟨context, hcontext, h⟩ := bind_eq_ok.mp h
  obtain ⟨plan, hplan, h⟩ := bind_eq_ok.mp h
  obtain ⟨objectTypes, hobjectTypes, h⟩ := bind_eq_ok.mp h
  obtain ⟨t, htables, h⟩ := bind_eq_ok.mp h
  obtain ⟨identified, hidentified, h⟩ := bind_eq_ok.mp h
  obtain ⟨associated, hassociated, h⟩ := bind_eq_ok.mp h
  obtain ⟨resolved, hresolved, h⟩ := bind_eq_ok.mp h
  obtain ⟨report, hreport, h⟩ := bind_eq_ok.mp h
  obtain rfl := Except.ok.inj h
  obtain ⟨governance, hgovernance, -⟩ := bind_eq_ok.mp hreport
  have hsource : ∀ sourceId rowIndex, sourceRowAt rows' sourceId rowIndex =
      sourceRowAt t.sourceRows sourceId rowIndex := by
    rw [(tables_spec htables).2.2.2]
    exact sourceRowAt_perm hrows hperm
  have htables' : associationTables ext file context objectTypes plan.canonical rows' =
      .ok { t with sourceRows := rows' } := by
    obtain ⟨ids, hids, htables⟩ := bind_eq_ok.mp htables
    obtain rfl := Except.ok.inj htables
    exact bind_eq_ok.mpr ⟨ids, hids, rfl⟩
  refine ⟨_, bind_eq_ok.mpr ⟨context, hcontext, bind_eq_ok.mpr ⟨plan,
    planIdentities_perm hrows hfits hplan hperm, bind_eq_ok.mpr ⟨objectTypes, hobjectTypes,
      bind_eq_ok.mpr ⟨_, htables', bind_eq_ok.mpr ⟨identified, ?_, bind_eq_ok.mpr ⟨associated, ?_,
        bind_eq_ok.mpr ⟨resolved, hresolved, bind_eq_ok.mpr ⟨_, bind_eq_ok.mpr ⟨governance, ?_,
          rfl⟩, rfl⟩⟩⟩⟩⟩⟩⟩⟩, rfl⟩
  · rw [materializeIdentity_rows hsource]
    exact hidentified
  · rw [materializeAssociations_rows hsource]
    exact hassociated
  · rw [governanceReport_perm context hperm]
    exact hgovernance

/-! ## When the values are settled -/

/-- **The values that bindings offer are settled exactly when** no rule that gives an identity its
properties binds one of them twice. -/
theorem propertiesMerged_iff (hrows : (rows.map fun row => (row.sourceId, row.rowIndex)).Nodup)
    (hfits : PlanFits ext file rows)
    (h : materializeWithSourceStates ext file rows states = .ok model) :
    PropertiesMerged ext file rows states model ↔ BindsOnce ext file rows := by
  obtain ⟨c, hevidence⟩ := conversion_evidence h
  obtain ⟨offers, hmerged⟩ := c.exists_merged
  have hsettled := c.settled hevidence hmerged
  constructor
  · rintro ⟨⟨offers', hoffers', hsettled'⟩, -⟩ context plan hcontext hplan identity hidentity
    obtain rfl := Except.ok.inj (c.contextOf.symm.trans hcontext)
    obtain rfl := Except.ok.inj (c.planOf.symm.trans hplan)
    obtain rfl := Except.ok.inj (hmerged.offered.symm.trans hoffers')
    by_contra hbinds
    have hless := hmerged.less ⟨identity, hidentity, hbinds⟩
    have hcount := hsettled.length
    have hcount' := hsettled'.length
    omega
  · intro honce
    refine ⟨⟨offers, hmerged.offered, ?_⟩, fun rows' hperm =>
      materialize_perm hrows hfits h hperm⟩
    exact hsettled.perm (hmerged.whole (honce c.context c.plan c.contextOf c.planOf))
      (.refl _) (.refl _)

/-! ### A small mapping -/

theorem planFits_of_all {p : IdentityKey → IdentityKey → Bool}
    (hp : ∀ key key', p key key' = true →
      (∀ part ∈ key.mergeGroupParts, part.length < 2 ^ 64) ∧
        ∀ part ∈ (goidPartsOf file key).parts, part.length < 2 ^ 64)
    (h : (elements (planKeys ext file rows)).all
      (fun key => (elements (planKeys ext file rows)).all (p key)) = true) :
    PlanFits ext file rows := fun key hkey => hp key key (isPlanKey_pair h hkey hkey)

end

set_option maxRecDepth 10000 in
theorem propertiesMerged_upserts : ∃ model,
    materializeWithSourceStates .ascii Sample.upserts Sample.rows [] = .ok model ∧
    PropertiesMerged .ascii Sample.upserts Sample.rows [] model := by
  obtain ⟨model, hmodel, -⟩ := exists_ok_of_any (p := fun _ => true)
    (x := materializeWithSourceStates .ascii Sample.upserts Sample.rows []) (by decide +kernel)
  refine ⟨model, hmodel, (propertiesMerged_iff (by decide) ?_ hmodel).mpr ?_⟩
  · refine planFits_of_all (p := fun key _ =>
      key.mergeGroupParts.all (fun part => decide (part.length < 2 ^ 64)) &&
        (goidPartsOf Sample.upserts key).parts.all fun part => decide (part.length < 2 ^ 64))
      (fun key _ hkey => ?_) (by decide +kernel)
    simpa only [Bool.and_eq_true, List.all_eq_true, decide_eq_true_iff] using hkey
  · intro context plan hcontext hplan identity _ rowRule hrule _
    -- every rule binds one property at most
    have hrules : (mappingContext Sample.upserts).toOption.any (fun context =>
        context.rowRules.all fun rule => rule.propertyBindings.length ≤ 1) = true := by decide
    rw [hcontext] at hrules
    have hmem := List.mem_reverse.mp (AssocMap.mem_of_get hrule)
    obtain ⟨rule, hin, hrule⟩ := List.mem_map.mp hmem
    obtain rfl : rule = rowRule := (Prod.mk.inj hrule).2
    have hlength : (rule.propertyIds .ascii).length ≤ 1 := by
      unfold MapRowSemanticRule.propertyIds
      rw [List.length_map, List.length_zipIdx]
      exact of_decide_eq_true (List.all_eq_true.mp hrules rule hin)
    generalize rule.propertyIds .ascii = ids at hlength ⊢
    rcases ids with _ | ⟨id, _ | ⟨id', ids⟩⟩
    · exact .nil
    · exact List.nodup_singleton id
    · exact absurd hlength (by simp)

/-- One rule binds a property to a column and then to one that the row does not have. -/
def Sample.boundTwice : CovemapFile :=
  file [rowRule sourceA .upsert [textBinding sourceA,
    { textBinding sourceA with assertionId := sourceB, sourceColumn := sourceB.val }]]

def Sample.oneRow : List SourceRow := [row sourceA 0 [("a", "v"), ("k", "x")]]

set_option maxRecDepth 10000 in
/-- The null of the second binding takes the place of the value, and nothing is reported. -/
theorem boundTwice_not_merged : ∃ model,
    materializeWithSourceStates .ascii Sample.boundTwice Sample.oneRow [] = .ok model ∧
    model.evidenceEntries.filter isReport = [] ∧
    ¬ PropertiesMerged .ascii Sample.boundTwice Sample.oneRow [] model := by
  obtain ⟨model, hmodel, hcheck⟩ := exists_ok_of_any
    (p := fun model => (model.evidenceEntries.filter isReport).isEmpty &&
      (propertyOffers .ascii Sample.boundTwice Sample.oneRow).toOption.any fun offers =>
        offers.any fun o => o.hasValue && (model.rows.flatMap ObjectRow.offers).all fun o' =>
          decide (o'.key ≠ o.key) || !o'.hasValue)
    (x := materializeWithSourceStates .ascii Sample.boundTwice Sample.oneRow [])
    (by decide +kernel)
  obtain ⟨hreports, hloses⟩ := Bool.and_eq_true_iff.mp hcheck
  refine ⟨model, hmodel, List.isEmpty_iff.mp hreports, ?_⟩
  rintro ⟨⟨offers, hoffers, hsettled⟩, -⟩
  rw [hoffers] at hloses
  obtain ⟨o, ho, hloses⟩ := List.any_eq_true.mp hloses
  obtain ⟨hvalue, hall⟩ := Bool.and_eq_true_iff.mp hloses
  obtain ⟨o', ho', hkey, hvalue'⟩ := hsettled.kept o ho hvalue
  have hnone := List.all_eq_true.mp hall o' ho'
  rw [hvalue', decide_eq_false (not_not_intro hkey)] at hnone
  exact Bool.false_ne_true hnone

end Cove
