import Cove.Map.Identity

/-!
# Materializing object rows

A mapping turns source rows into object rows with their properties, association rows, a
log of assertions and the evidence behind each of them; properties that several rows
give one object are then resolved by their policies.

- `ObjectRow`, `MaterializedProperty`, `MaterializedModel`.
- `materializeProperties`, `materializeAssociations`, `resolvePropertyConflicts`.
- `materializeWithSourceStates`.
-/

namespace Cove

/-! ## Rows -/

structure MaterializedProperty where
  entry : PropertyEntryV1
  value : Json
  assertionId : Name
  sourceId : Text
  sourceRowIndex : Nat
  sourcePriority : Int
  sourceOrder : Nat
  conflictPolicy : Text

structure ObjectRow where
  goid : Id16
  recordId : Id16
  objectTypeId : Nat
  objectType : Text
  sourceId : Text
  sourceRowIndex : Nat
  recordKind : RecordKind
  properties : List (Nat × MaterializedProperty)

/-- The property types of every object type, by id. -/
abbrev PropertyCatalog := List (Nat × List (Nat × PropertyEntryV1))

/-! ## Assertions -/

/-- `push_unique_assertion`. -/
def pushUniqueAssertion (assertions : List Json) (assertionId outputObjectId : Text) :
    List Json :=
  if assertions.any fun entry => entry.getStr "assertion_id".toList == some assertionId ||
      entry.getStr "output_object_id".toList == some outputObjectId then assertions
  else assertions ++ [Json.ofMembers [("assertion_id".toList, .string assertionId),
    ("output_object_id".toList, .string outputObjectId)]]

/-- `identity_assertion_id`. -/
def identityAssertionId (identity : PlannedIdentity) : Text :=
  colon "assertion".toList (colon identity.identityRuleId.val identity.rowDigest)

/-- `candidate_assertion_id`. -/
def candidateAssertionId (candidate : CandidateMatch) : Text :=
  colon "candidate".toList (colon candidate.identityRuleId.val candidate.rowDigest)

/-- `candidate_match_id`. -/
def candidateMatchId (candidate : CandidateMatch) : Text :=
  colon "candidate-match".toList (colon candidate.identityRuleId.val candidate.joinKeySha256)

/-! ## Evidence -/

/-- `evidence_entry_for_identity`. -/
def evidenceEntryForIdentity (identity : PlannedIdentity) : Json :=
  Json.ofMembers [
    ("source_id".toList, .string identity.sourceId),
    ("source_row_identity".toList, .string identity.sourceRowIdentity),
    ("rule_id".toList, .string identity.rowRuleId.val),
    ("assertion_id".toList, .string (identityAssertionId identity)),
    ("output_object_id".toList, .string (hexEncode identity.goid)),
    ("observed_schema_fingerprint".toList, .string identity.schemaFingerprint)]

/-- `evidence_entry_for_candidate`. -/
def evidenceEntryForCandidate (candidate : CandidateMatch) : Json :=
  Json.ofMembers [
    ("source_id".toList, .string candidate.sourceId),
    ("source_row_identity".toList, .string candidate.sourceRowIdentity),
    ("rule_id".toList, .string candidate.rowRuleId.val),
    ("assertion_id".toList, .string (candidateAssertionId candidate)),
    ("output_object_id".toList, .string (candidateMatchId candidate)),
    ("observed_schema_fingerprint".toList, .string candidate.schemaFingerprint),
    ("candidate".toList, .bool true),
    ("identity_rule_id".toList, .string candidate.identityRuleId.val),
    ("object_type".toList, .string candidate.objectType),
    ("join_key_sha256".toList, .string candidate.joinKeySha256)]

/-- `operation_effect`. -/
def operationEffect : SourceOperationKind → Text
  | .fact => "fact".toList
  | .insert => "insert_object_state".toList
  | .upsert => "upsert_object_state".toList
  | .patchProperty => "patch_property".toList
  | .replaceObjectState => "replace_object_state".toList
  | .closeAssociation => "close_association".toList
  | .expireAndCreate => "expire_and_create".toList
  | .tombstoneObject => "tombstone_object".toList
  | .tombstoneProperty => "tombstone_property".toList
  | .tombstoneAssociation => "tombstone_association".toList
  | .redactEvidence => "redact_evidence".toList
  | .evidenceOnly => "evidence_only".toList
  | .correction => "correction".toList

/-- `operation_target`. -/
def operationTarget (rowRule : MapRowSemanticRule) : Text :=
  match rowRule.tombstoneTarget with
  | some target =>
    if target = "property".toList ∨ target = "association".toList ∨
        target = "source_record".toList ∨ target = "evidence".toList then target
    else "object".toList
  | none =>
    match rowRule.sourceOperationKind with
    | .patchProperty | .tombstoneProperty => "property".toList
    | .closeAssociation | .tombstoneAssociation => "association".toList
    | .redactEvidence | .evidenceOnly => "evidence".toList
    | _ => "object".toList

/-- `copy_operation_policy_value`. -/
def copyOperationPolicyValue (sourceRow : SourceRow) (evidence : Json) (key : Text) : Json :=
  match sourceRow.nonNull key with
  | some value => evidence.insertMember key value
  | none => evidence

/-- The columns of a source row that its evidence keeps. -/
def operationPolicyKeys : List Text :=
  ["correction_of".toList, "replacement_of".toList, "redaction_scope".toList,
    "expires_previous".toList, "closes_association".toList]

/-- `add_operation_metadata`. -/
def addOperationMetadata (evidence : Json) (rowRule : MapRowSemanticRule)
    (sourceRow : Option SourceRow) : Json :=
  let evidence := evidence.insertMember "source_operation_kind".toList
    (.string rowRule.sourceOperationKind.asStr)
  let evidence := evidence.insertMember "operation_effect".toList
    (.string (operationEffect rowRule.sourceOperationKind))
  let evidence := evidence.insertMember "operation_target".toList
    (.string (operationTarget rowRule))
  match sourceRow with
  | some row => operationPolicyKeys.foldl (copyOperationPolicyValue row) evidence
  | none => evidence

/-- `row_rule_emits_non_object_evidence`. -/
def rowRuleEmitsNonObjectEvidence (rowRule : MapRowSemanticRule) : Bool :=
  (rowRule.assertionKinds.any fun kind =>
    ["evidence".toList, "candidate_match".toList, "conflict".toList,
      "projection".toList].contains kind) ||
    rowRule.sourceOperationKind == .evidenceOnly || rowRule.sourceOperationKind == .redactEvidence

/-! ## What a row rule yields -/

/-- `row_rule_materializes_object`. -/
def rowRuleMaterializesObject (rowRule : MapRowSemanticRule) : Except Text Bool :=
  let kind := rowRule.rowSemanticsKind
  if ["Object".toList, "EventObject".toList, "LinkObject".toList, "Composite".toList,
      "Dispatched".toList, "KeyValueFragment".toList, "Tombstone".toList].contains kind then
    .ok true
  else if ["AssociationOnly".toList, "EvidenceOnly".toList, "ProjectionOnly".toList].contains kind
    then .ok false
  else .error (quoted "unsupported row_semantics_kind '" kind "'")

/-- `row_rule_materializes_associations`. -/
def rowRuleMaterializesAssociations (rowRule : MapRowSemanticRule) : Except Text Bool :=
  let kind := rowRule.rowSemanticsKind
  if ["Object".toList, "EventObject".toList, "LinkObject".toList, "AssociationOnly".toList,
      "Composite".toList, "Dispatched".toList, "KeyValueFragment".toList].contains kind then
    .ok true
  else if ["EvidenceOnly".toList, "ProjectionOnly".toList, "Tombstone".toList].contains kind then
    .ok false
  else .error (quoted "unsupported row_semantics_kind '" kind "'")

/-- `record_kind_from_name`. -/
def recordKindFromName (name : Text) : Except Text RecordKind :=
  if name = "delta".toList ∨ name = "Delta".toList then .ok .delta
  else if name = "snapshot".toList ∨ name = "Snapshot".toList then .ok .snapshot
  else if name = "baseline".toList ∨ name = "Baseline".toList ∨ name = "upsert".toList ∨
      name = "Upsert".toList then .ok .baseline
  else if name = "tombstone".toList ∨ name = "Tombstone".toList then .ok .tombstone
  else .error (quoted "unsupported COVE-O record kind '" name "'")

/-- `record_kind_for_row_rule`. -/
def recordKindForRowRule (rowRule : MapRowSemanticRule) : Except Text RecordKind :=
  if rowRule.rowSemanticsKind = "Tombstone".toList then .ok .tombstone
  else
    match rowRule.sourceOperationKind with
    | .patchProperty | .closeAssociation | .expireAndCreate | .redactEvidence | .correction =>
      .ok .delta
    | .replaceObjectState => .ok .snapshot
    | .tombstoneObject | .tombstoneProperty | .tombstoneAssociation => .ok .tombstone
    | .fact | .insert | .upsert | .evidenceOnly => recordKindFromName rowRule.recordKind

/-- `association_record_kind_for_row_rule`. -/
def associationRecordKindForRowRule (rowRule : MapRowSemanticRule) : RecordKind :=
  match rowRule.sourceOperationKind with
  | .closeAssociation | .expireAndCreate | .correction => .delta
  | .tombstoneAssociation => .tombstone
  | .replaceObjectState => .snapshot
  | _ => .baseline

/-- `record_id_for`. -/
def recordIdFor (ext : Externals) (sourceId : Text) (rowIndex : Nat) (ruleId : Text)
    (goid : Id16) : Id16 :=
  first16 (ext.sha256 (TextOps.utf8Bytes
    (colon sourceId (colon (TextOps.natText rowIndex) (colon ruleId (hexEncode goid))))))

/-! ## Values -/

/-- `source_value_for_expression`. -/
def sourceValueForExpression (sourceRow : SourceRow) (expression : Text)
    (fallbackColumn : Option Text) (missingPolicy label : Text) : Except Text Json :=
  let expression := TextOps.trim expression
  let column := (TextOps.stripPrefix "source.".toList expression).getD
    (if expression.isEmpty then fallbackColumn.getD [] else expression)
  match sourceRow.nonNull column with
  | some value => .ok value
  | none =>
    if missingPolicy = "reject".toList then
      .error (quoted "source column '" column "' required by '" ++ label ++
        "' is missing/null".toList)
    else .ok .null

/-- `source_value_for_binding`. -/
def sourceValueForBinding (sourceRow : SourceRow) (binding : MapPropertyBinding) :
    Except Text Json :=
  sourceValueForExpression sourceRow binding.valueExpression (some binding.sourceColumn)
    binding.missingPolicy binding.propertyName

/-- `association_validity_value`: none when the association is skipped. -/
def associationValidityValue (sourceRow : SourceRow) (expression : Option Text)
    (missingPolicy label : Text) : Except Text (Option Json) :=
  match expression with
  | none => .ok (some .null)
  | some expression => do
    let value ← sourceValueForExpression sourceRow expression none "null".toList label
    if !value.isNull then .ok (some value)
    else if missingPolicy = "reject".toList then
      .error (quoted "association " label " expression '" ++ expression ++
        "' is missing/null".toList)
    else if missingPolicy = "skip".toList then .ok none
    else .ok (some .null)

/-- `validate_property_conflict_policy`. -/
def validatePropertyConflictPolicy (policy : Text) : Except Text Unit :=
  if policy = "reject_conflict".toList ∨ policy = "source_priority_wins".toList then .ok ()
  else .error (quoted "unsupported property conflict_policy '" policy "'")

/-- `order as i64`. -/
def orderAsI64 (order : Nat) : Int := if order < 2 ^ 63 then order else order - 2 ^ 64

/-- The declared priority of a source, else its position. -/
def MappingContext.sourcePriorityOf (context : MappingContext) (sourceId : Text) : Int :=
  ((AssocMap.get sourceId context.sources).bind MapSourceEntry.sourcePriority).getD
    (orderAsI64 (context.sourceOrderOf sourceId))

/-- The property of one binding on a row. -/
def materializeProperty (context : MappingContext) (rowRule : MapRowSemanticRule)
    (sourceRow : SourceRow) (declared : List (Nat × PropertyEntryV1)) (propertyId : Nat)
    (binding : MapPropertyBinding) : Except Text MaterializedProperty := do
  let entry ← okOr (AssocMap.get propertyId declared)
    (quoted "row rule '" rowRule.ruleId.val "' references undeclared property '" ++
      binding.propertyId ++ "'".toList)
  let value ← sourceValueForBinding sourceRow binding
  validatePropertyConflictPolicy binding.conflictPolicy
  if value.isNull && !entry.nullable then
    .error (quoted "non-nullable property '" binding.propertyName
      "' was null/missing for " ++ sourceRow.identity)
  else
    .ok {
      entry := entry
      value := value
      assertionId := binding.assertionId
      sourceId := sourceRow.sourceId
      sourceRowIndex := sourceRow.rowIndex
      sourcePriority := binding.sourcePriority.getD (context.sourcePriorityOf sourceRow.sourceId)
      sourceOrder := context.sourceOrderOf sourceRow.sourceId
      conflictPolicy := binding.conflictPolicy }

/-- The loop over the bindings of a rule. -/
def materializeBindings (ext : Externals) (context : MappingContext)
    (rowRule : MapRowSemanticRule) (sourceRow : SourceRow)
    (declared : List (Nat × PropertyEntryV1)) :
    Nat → List (Nat × MaterializedProperty) → List MapPropertyBinding →
      Except Text (List (Nat × MaterializedProperty))
  | _, properties, [] => .ok properties
  | index, properties, binding :: bindings => do
    let propertyId := propertyIdFromBinding ext binding (index + 1)
    let property ← materializeProperty context rowRule sourceRow declared propertyId binding
    if (AssocMap.get propertyId properties).isSome &&
        binding.conflictPolicy == "reject_conflict".toList then
      .error (quoted "duplicate materialized value for property '" binding.propertyName "'")
    else
      materializeBindings ext context rowRule sourceRow declared (index + 1)
        (AssocMap.insert propertyId property properties) bindings

/-- `materialize_properties`. -/
def materializeProperties (ext : Externals) (context : MappingContext)
    (rowRule : MapRowSemanticRule) (sourceRow : SourceRow) (objectTypeId : Nat)
    (propertiesByType : PropertyCatalog) : Except Text (List (Nat × MaterializedProperty)) := do
  let declared ← okOr (AssocMap.get objectTypeId propertiesByType)
    (quoted "object_type_id " (TextOps.natText objectTypeId) " has no property catalog")
  materializeBindings ext context rowRule sourceRow declared 0 [] rowRule.propertyBindings

end Cove
