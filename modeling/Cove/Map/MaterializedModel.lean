import Cove.Map.Associations

/-!
# The materialized model

Conflicting properties are resolved, the rows are ordered, and the assertion log, the
identity equivalence index, the evidence index and the conversion report are written.

- `resolvePropertyConflicts`: one rule for each group of candidates.
- `governanceReport`, `conversionReport`, `identityEquivalenceIndex`.
- `materializeWithSourceStates`: **the whole conversion**.
-/

namespace Cove

/-! ## Property conflicts -/

/-- A property of one object on a row. -/
structure PropertyCandidate where
  rowIndex : Nat
  goid : Id16
  propertyId : Nat
  property : MaterializedProperty

/-- The candidates of the rows, in row order. -/
def propertyCandidates (rows : List ObjectRow) : List PropertyCandidate :=
  rows.zipIdx.flatMap fun (row, rowIndex) =>
    row.properties.map fun (propertyId, property) => ⟨rowIndex, row.goid, propertyId, property⟩

def PropertyCandidate.key (c : PropertyCandidate) : Id16 ×ₗ Nat := toLex (c.goid, c.propertyId)

/-- A property taken off a row. -/
structure PropertyRemoval where
  rowIndex : Nat
  propertyId : Nat
  reason : Text

def PropertyCandidate.removal (c : PropertyCandidate) (reason : Text) : PropertyRemoval :=
  ⟨c.rowIndex, c.propertyId, reason⟩

/-- Priorities are compared by the computable order of the integers. -/
local instance priorityPreorder : Preorder Int := Int.instLinearOrder.toPreorder

/-- The order in which source priority picks the winner. -/
def PropertyCandidate.priorityKey (c : PropertyCandidate) : Int ×ₗ Nat ×ₗ Nat ×ₗ Text ×ₗ Nat :=
  toLex (c.property.sourcePriority, toLex (c.property.sourceOrder,
    toLex (c.property.sourceRowIndex, toLex (c.property.assertionId.val, c.rowIndex))))

/-- The removals of one group under a policy. -/
def removalsUnder (policy : Text) (goid : Id16) (propertyId : Nat)
    (candidates nonNull : List PropertyCandidate) : Except Text (List PropertyRemoval) :=
  match nonNull with
  | [] => .ok []
  | first :: _ =>
    if policy = "reject_conflict".toList then
      if nonNull.any fun c => !c.property.value.beq first.property.value then
        .error (quoted "unresolved property conflict for property_id " (TextOps.natText propertyId)
          " on " ++ hexEncode goid)
      else .ok ((candidates.filter fun c => c.property.value.isNull).map fun c =>
        c.removal "null_does_not_overwrite_non_null".toList)
    else
      match nonNull.argmin PropertyCandidate.priorityKey with
      | none => .error "empty source-priority conflict group".toList
      | some winner =>
        .ok ((candidates.filter fun c => c.rowIndex ≠ winner.rowIndex ∨
          c.property.assertionId ≠ winner.property.assertionId).map fun c =>
            c.removal "source_priority_wins".toList)

/-- The body of the loop over the groups. -/
def removalsOfGroup (key : Id16 ×ₗ Nat) (candidates : List PropertyCandidate) :
    Except Text (List PropertyRemoval) :=
  match candidates with
  | [] | [_] => .ok []
  | first :: _ => do
    let policy := first.property.conflictPolicy
    if candidates.any fun c => c.property.conflictPolicy ≠ policy then
      .error (quoted "conflicting policies declared for property_id "
        (TextOps.natText (ofLex key).2) " on " ++ hexEncode (ofLex key).1)
    else do
      validatePropertyConflictPolicy policy
      removalsUnder policy (ofLex key).1 (ofLex key).2 candidates
        (candidates.filter fun c => !c.property.value.isNull)

/-- Take a property off its row and note it. -/
def applyRemoval (state : List ObjectRow × List Json) (removal : PropertyRemoval) :
    List ObjectRow × List Json :=
  match state.1[removal.rowIndex]? with
  | none => state
  | some row =>
    match AssocMap.get removal.propertyId row.properties with
    | none => state
    | some property =>
      (state.1.set removal.rowIndex
          { row with properties := AssocMap.erase removal.propertyId row.properties },
        state.2 ++ [Json.ofMembers [
          ("source_id".toList, .string property.sourceId),
          ("source_row_identity".toList,
            .string (colon property.sourceId (TextOps.natText property.sourceRowIndex))),
          ("rule_id".toList, .string "property_conflict_resolution".toList),
          ("assertion_id".toList, .string property.assertionId.val),
          ("output_object_id".toList, .string (hexEncode row.goid)),
          ("property_id".toList, .ofNat removal.propertyId),
          ("property_name".toList, .string property.entry.propertyName),
          ("suppressed".toList, .bool true),
          ("suppressed_reason".toList, .string removal.reason),
          ("suppressed_value".toList, property.value)]])

/-- The removals of all groups, in key order. -/
def propertyRemovals (rows : List ObjectRow) : Except Text (List PropertyRemoval) := do
  let removals ← (Grouping.grouped PropertyCandidate.key (propertyCandidates rows)).mapM
    fun group => removalsOfGroup group.1 group.2
  .ok removals.flatten

/-- `resolve_property_conflicts`. -/
def resolvePropertyConflicts (out : ConversionOutput) : Except Text ConversionOutput := do
  let removals ← propertyRemovals out.objectRows
  let (rows, evidence) := removals.foldl applyRemoval (out.objectRows, out.evidenceEntries)
  .ok { out with objectRows := rows, evidenceEntries := evidence }

/-! ## Reports -/

/-- `conversion_report_sources`. -/
def conversionReportSources (ext : Externals) (rows : List SourceRow)
    (sourceStates : List ObservedSourceState) : Json :=
  if sourceStates.isEmpty then
    .array (rows.map fun row => Json.ofMembers [
      ("source_id".toList, .string row.sourceId),
      ("schema_fingerprint".toList, .string (schemaFingerprint ext row))])
  else
    .array (sourceStates.map fun state => Json.ofMembers [
      ("source_id".toList, .string state.sourceId),
      ("source_kind".toList, .string state.sourceKind),
      ("schema_fingerprint".toList, .string state.schemaFingerprint),
      ("snapshot_digest".toList, .string state.snapshotDigest)])

/-- The texts of a list in order, each once. -/
def distinctTexts (texts : List Text) : List Text :=
  (AssocMap.collect (texts.map fun t => (t, ()))).map Prod.fst

/-- `operation_counts`. -/
def operationCounts (evidenceEntries : List Json) : Json :=
  let kinds := evidenceEntries.filterMap fun entry => entry.getStr "source_operation_kind".toList
  .object ((Grouping.grouped id kinds).map fun group => (group.1, .ofNat group.2.length))

def jsonTexts (texts : List Text) : Json := .array (texts.map Json.string)

/-- The report entry of a source. -/
def governanceSource (context : MappingContext) (sourceId : Text) : Json :=
  match AssocMap.get sourceId context.sources with
  | none => Json.ofMembers [("source_id".toList, .string sourceId)]
  | some source => Json.ofMembers [
      ("source_id".toList, .string source.sourceId.val),
      ("source_priority".toList, Json.ofOption Json.ofInt source.sourcePriority),
      ("sensitivity_label".toList, Json.ofOption Json.string source.sensitivityLabel),
      ("sensitivity_rank".toList, Json.ofOption Json.ofInt source.sensitivityRank),
      ("access_policy_ids".toList, jsonTexts source.accessPolicyIds)]

/-- `governance_report`. -/
def governanceReport (context : MappingContext) (rows : List SourceRow) : Except Text Json :=
  let usedSourceIds := distinctTexts (rows.map SourceRow.sourceId)
  let sources := usedSourceIds.filterMap fun id => AssocMap.get id context.sources
  let identities := (sources.filter fun s => s.sensitivityLabel.isSome ||
    s.sensitivityRank.isSome).map fun s => (s.sensitivityLabel, s.sensitivityRank)
  let rank (s : MapSourceEntry) : Int := s.sensitivityRank.getD 0
  let maxRank := sources.foldl (fun m s => max m (rank s)) 0
  let labels := (sources.filter fun s => rank s = maxRank).filterMap fun s => s.sensitivityLabel
  if context.governanceReconciliationPolicy = "reject_on_mixed_sensitivity".toList ∧
      identities.dedup.length > 1 then
    .error "mixed source sensitivity labels require governance reconciliation".toList
  else .ok (Json.ofMembers [
    ("reconciliation_policy".toList, .string context.governanceReconciliationPolicy),
    ("sources".toList, .array (usedSourceIds.map (governanceSource context))),
    ("effective_sensitivity_rank".toList, .ofInt maxRank),
    ("effective_sensitivity_labels".toList, jsonTexts (distinctTexts labels)),
    ("access_policy_ids".toList,
      jsonTexts (distinctTexts (sources.flatMap MapSourceEntry.accessPolicyIds)))])

def ObjectRow.isAssociation (row : ObjectRow) : Bool :=
  TextOps.startsWith "Association:".toList row.objectType

/-- The conversion report. -/
def conversionReport (ext : Externals) (mappingId mappingVersion : Name)
    (context : MappingContext) (rows : List SourceRow) (sourceStates : List ObservedSourceState)
    (candidates : List CandidateMatch) (out : ConversionOutput) : Except Text Json := do
  let governance ← governanceReport context rows
  .ok (Json.ofMembers [
    ("mapping_id".toList, .string mappingId.val),
    ("mapping_version".toList, .string mappingVersion.val),
    ("sources".toList, conversionReportSources ext rows sourceStates),
    ("source_count".toList, .ofNat (distinctTexts (rows.map SourceRow.sourceId)).length),
    ("row_count".toList, .ofNat rows.length),
    ("object_count".toList, .ofNat (out.objectRows.countP fun row => !row.isAssociation)),
    ("association_count".toList, .ofNat (out.objectRows.countP ObjectRow.isAssociation)),
    ("property_value_count".toList,
      .ofNat (out.objectRows.map fun row => row.properties.length).sum),
    ("candidate_match_count".toList, .ofNat candidates.length),
    ("candidate_matches".toList, .array (candidates.map fun candidate => Json.ofMembers [
      ("candidate_match_id".toList, .string (candidateMatchId candidate)),
      ("source_id".toList, .string candidate.sourceId),
      ("source_row_identity".toList, .string candidate.sourceRowIdentity),
      ("row_rule_id".toList, .string candidate.rowRuleId.val),
      ("identity_rule_id".toList, .string candidate.identityRuleId.val),
      ("object_type".toList, .string candidate.objectType),
      ("join_key_sha256".toList, .string candidate.joinKeySha256)])),
    ("generated_artifacts".toList, jsonTexts ["cove-o".toList, "map-assertion-log".toList,
      "map-identity-equivalence-index".toList, "map-evidence-index".toList]),
    ("unsupported".toList, .array []),
    ("operation_counts".toList, operationCounts out.evidenceEntries),
    ("governance".toList, governance)])

/-! ## Identity equivalence -/

def PlannedIdentity.memberKey (p : PlannedIdentity) : Text ×ₗ Text ×ₗ Text ×ₗ Nat :=
  toLex (p.canonicalAnchor, toLex (p.identityRuleId.val, toLex (p.sourceId, p.rowIndex)))

/-- The identities of one equivalence id, in member order. -/
def equivalenceGroups (planned : List PlannedIdentity) : List (Text × List PlannedIdentity) :=
  (Grouping.grouped PlannedIdentity.equivalenceId planned).map fun group =>
    (group.1, group.2.insertionSort fun a b => a.memberKey ≤ b.memberKey)

/-- The pairs of a group: its first member with each later one. -/
def equivalencePairs (members : List PlannedIdentity) : List (Text × Text) :=
  match members with
  | [] => []
  | anchor :: members => members.map fun member => (anchor.identityAlias, member.identityAlias)

/-- The component of a group. -/
def identityComponent (equivalenceId : Text) (members : List PlannedIdentity) : Option Json :=
  members.head?.map fun anchor => Json.ofMembers [
    ("equivalence_id".toList, .string equivalenceId),
    ("goid".toList, .string (hexEncode anchor.goid)),
    ("canonical_anchor".toList, .string anchor.canonicalAnchor),
    ("members".toList, .array (members.map fun member => Json.ofMembers [
      ("source_id".toList, .string member.sourceId),
      ("row_index".toList, .ofNat member.rowIndex),
      ("source_row_identity".toList, .string member.sourceRowIdentity),
      ("row_rule_id".toList, .string member.rowRuleId.val),
      ("identity_rule_id".toList, .string member.identityRuleId.val),
      ("identity_alias".toList, .string member.identityAlias),
      ("object_type".toList, .string member.objectType),
      ("join_key_sha256".toList, .string member.joinKeySha256),
      ("row_digest".toList, .string member.rowDigest)]))]

/-- `identity_equivalence_index`. -/
def identityEquivalenceIndex (mappingId mappingVersion : Name) (planned : List PlannedIdentity) :
    Json :=
  let groups := equivalenceGroups planned
  let pairs := groups.flatMap fun group => equivalencePairs group.2
  Json.ofMembers [
    ("mapping_id".toList, .string mappingId.val),
    ("mapping_version".toList, .string mappingVersion.val),
    ("equivalences".toList, .array (pairs.map fun (left, right) => Json.ofMembers [
      ("left_identity".toList, .string left), ("right_identity".toList, .string right)])),
    ("components".toList,
      .array (groups.filterMap fun group => identityComponent group.1 group.2))]

/-! ## The conversion -/

structure MaterializedModel where
  objectTypes : List ObjectTypeEntryV1
  rows : List ObjectRow
  assertions : List Json
  assertionLog : Json
  identityEquivalenceIndex : Json
  evidenceEntries : List Json
  evidenceIndex : Json
  conversionReport : Json

/-- The assertions of the bindings, logged before any row. -/
def bindingAssertions (context : MappingContext) : List Json :=
  context.rowRules.foldl (fun log rowRule =>
    let log := rowRule.propertyBindings.foldl (fun log binding =>
      pushUniqueAssertion log binding.assertionId.val
        (colon "property".toList binding.assertionId.val)) log
    rowRule.associationBindings.foldl (fun log binding =>
      pushUniqueAssertion log binding.assertionId.val
        (colon "association".toList binding.assertionId.val)) log) []

/-- The loop over the candidate matches. -/
def materializeCandidate (context : MappingContext) (out : ConversionOutput)
    (candidate : CandidateMatch) : ConversionOutput :=
  let evidence := evidenceEntryForCandidate candidate
  { out with
    assertions := pushUniqueAssertion out.assertions (candidateAssertionId candidate)
      (candidateMatchId candidate)
    evidenceEntries := out.evidenceEntries ++ [match rowRuleOf context candidate.rowRuleId with
      | some rowRule => addOperationMetadata evidence rowRule none
      | none => evidence] }

/-- Log an identity with its evidence. -/
def noteIdentity (identity : PlannedIdentity) (rowRule : MapRowSemanticRule)
    (sourceRow : SourceRow) (out : ConversionOutput) : ConversionOutput :=
  { out with
    assertions := pushUniqueAssertion out.assertions (identityAssertionId identity)
      (hexEncode identity.goid)
    evidenceEntries := out.evidenceEntries ++
      [addOperationMetadata (evidenceEntryForIdentity identity) rowRule (some sourceRow)] }

/-- The body of the loop over the planned identities. -/
def materializeIdentity (t : AssociationTables) (out : ConversionOutput)
    (identity : PlannedIdentity) : Except Text ConversionOutput := do
  let rowRule ← okOr (rowRuleOf t.context identity.rowRuleId)
    (quoted "planned row references missing row rule '" identity.rowRuleId.val "'")
  let sourceRow ← okOr (sourceRowAt t.sourceRows identity.sourceId identity.rowIndex)
    "planned identity references missing source row".toList
  if ← rowRuleMaterializesObject rowRule then do
    let objectTypeId ← okOr (AssocMap.get identity.objectType t.typeIds)
      (quoted "unknown object type '" identity.objectType "'")
    let properties ← materializeProperties t.ext t.context rowRule sourceRow objectTypeId
      t.propertiesByType
    let recordKind ← recordKindForRowRule rowRule
    let row : ObjectRow := {
      goid := identity.goid
      recordId := recordIdFor t.ext identity.sourceId identity.rowIndex identity.rowRuleId.val
        identity.goid
      objectTypeId := objectTypeId
      objectType := identity.objectType
      sourceId := identity.sourceId
      sourceRowIndex := identity.rowIndex
      recordKind := recordKind
      properties := properties }
    .ok (noteIdentity identity rowRule sourceRow
      { out with objectRows := out.objectRows ++ [row] })
  else if rowRuleEmitsNonObjectEvidence rowRule then
    .ok (noteIdentity identity rowRule sourceRow out)
  else .ok out

/-- The order of the object rows. -/
def ObjectRow.modelKey (row : ObjectRow) : Nat ×ₗ Text ×ₗ Nat ×ₗ Id16 ×ₗ Id16 :=
  toLex (row.objectTypeId, toLex (row.sourceId, toLex (row.sourceRowIndex,
    toLex (row.goid, row.recordId))))

/-- The tables of a conversion. -/
def associationTables (ext : Externals) (file : CovemapFile) (context : MappingContext)
    (objectTypes : List ObjectTypeEntryV1) (planned : List PlannedIdentity)
    (rows : List SourceRow) : Except Text AssociationTables := do
  let (mappingId, mappingVersion) ← mappingIdentity file
  .ok {
    ext := ext
    mappingId := mappingId
    mappingVersion := mappingVersion
    context := context
    typeIds := AssocMap.collect (objectTypes.map fun ty => (ty.typeName, ty.objectTypeId))
    propertiesByType := AssocMap.collect (objectTypes.map fun ty =>
      (ty.objectTypeId, AssocMap.collect (ty.properties.map fun p => (p.propertyId, p))))
    planned := planned
    sourceRows := rows }

/-- `materialize_with_source_states`. -/
def materializeWithSourceStates (ext : Externals) (file : CovemapFile) (rows : List SourceRow)
    (sourceStates : List ObservedSourceState) : Except Text MaterializedModel := do
  let context ← mappingContext file
  let plan ← planIdentities ext file rows
  let objectTypes ← objectTypesFromMapping ext context
  let t ← associationTables ext file context objectTypes plan.canonical rows
  let out := plan.candidates.foldl (materializeCandidate context)
    ⟨[], bindingAssertions context, []⟩
  let out ← plan.canonical.foldlM (materializeIdentity t) out
  let out ← materializeAssociations t out
  let out ← resolvePropertyConflicts out
  let out := { out with
    objectRows := out.objectRows.insertionSort fun a b => a.modelKey ≤ b.modelKey }
  let report ← conversionReport ext t.mappingId t.mappingVersion context rows sourceStates
    plan.candidates out
  .ok {
    objectTypes := objectTypes
    rows := out.objectRows
    assertions := out.assertions
    assertionLog := Json.ofMembers [
      ("mapping_id".toList, .string t.mappingId.val),
      ("mapping_version".toList, .string t.mappingVersion.val),
      ("assertions".toList, .array out.assertions)]
    identityEquivalenceIndex :=
      identityEquivalenceIndex t.mappingId t.mappingVersion plan.canonical
    evidenceEntries := out.evidenceEntries
    evidenceIndex := Json.ofMembers [
      ("mapping_id".toList, .string t.mappingId.val),
      ("mapping_version".toList, .string t.mappingVersion.val),
      ("entries".toList, .array out.evidenceEntries)]
    conversionReport := report }

/-! ## A small mapping

Objects of one type are recognised by a text column across two sources; row rules differ
in their operation and bindings. -/

namespace Sample

def mapping : Name := ⟨"m".toList, by decide, by decide⟩

def version : Name := ⟨"1".toList, by decide, by decide⟩

def sourceA : Name := ⟨"a".toList, by decide, by decide⟩

def sourceB : Name := ⟨"b".toList, by decide, by decide⟩

def identityRule : MapIdentityRule where
  ruleId := ⟨"id".toList, by decide, by decide⟩
  objectType := "T".toList
  confidenceClass := "authoritative".toList
  autoMerge := none
  candidateOnly := false
  functionIds := ["identity".toList]
  joinKeys := [⟨"key".toList, "k".toList, "utf8".toList, "identity".toList, "reject".toList⟩]

/-- A text property of the column of its name, one value per object by source priority. -/
def textBinding (property : Name) : MapPropertyBinding where
  assertionId := property
  propertyId := property.val
  propertyName := property.val
  sourceColumn := property.val
  logicalType := "utf8".toList
  physicalKind := "auto".toList
  valueExpression := []
  nullable := true
  missingPolicy := "null".toList
  conflictPolicy := "source_priority_wins".toList
  sourcePriority := none

/-- The rule of a source, under the id of the source. -/
def rowRule (sourceId : Name) (operation : SourceOperationKind)
    (bindings : List MapPropertyBinding) : MapRowSemanticRule where
  ruleId := sourceId
  sourceId := sourceId
  identityRuleId := "id".toList
  rowSemanticsKind := "Object".toList
  sourceOperationKind := operation
  assertionKinds := ["object".toList]
  tombstoneTarget := none
  recordKind := "baseline".toList
  functionIds := []
  outputAssertionIds := []
  associationEndpoints := []
  propertyBindings := bindings
  associationBindings := []

def sourceEntry (sourceId : Name) : MapSourceEntry := ⟨sourceId, none, none, none, none, none, []⟩

def file (rules : List MapRowSemanticRule) : CovemapFile where
  mappingId := TextOps.utf8Bytes mapping.val
  mappingVersion := version.val
  sections := [
    ⟨mapping, version, .sourceCatalog MappingContext.emitEffectivePolicy
      [sourceEntry sourceA, sourceEntry sourceB]⟩,
    ⟨mapping, version, .identityRuleCatalog [identityRule] []⟩,
    ⟨mapping, version, .rowSemanticsCatalog rules⟩]

/-- A row of texts. -/
def row (sourceId : Name) (rowIndex : Nat) (values : List (String × String)) : SourceRow where
  sourceId := sourceId.val
  rowIndex := rowIndex
  values := values.map fun v => (v.1.toList, .string v.2.toList)

end Sample

end Cove
