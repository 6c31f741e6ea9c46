import Cove.Map.Materialize

/-!
# Materializing associations

An association binding links the object of a row to another one: an association object
with its own identity, derived from the two endpoints.

- `resolveAssociationEndpoint`: the object an endpoint expression names.
- `AssociationOutput`, `materializeAssociations`.
-/

namespace Cove

/-- What the association loop looks up. -/
structure AssociationTables where
  ext : Externals
  mappingId : Name
  mappingVersion : Name
  context : MappingContext
  typeIds : List (Text × Nat)
  propertiesByType : PropertyCatalog
  planned : List PlannedIdentity
  sourceRows : List SourceRow

/-- The row of a source and index; the last one counts. -/
def sourceRowAt (rows : List SourceRow) (sourceId : Text) (rowIndex : Nat) : Option SourceRow :=
  AssocMap.collected (sourceId, rowIndex) (rows.map fun row => ((row.sourceId, row.rowIndex), row))

/-- The row rule of an id; the last one counts. -/
def rowRuleOf (context : MappingContext) (ruleId : Name) : Option MapRowSemanticRule :=
  AssocMap.collected ruleId.val (context.rowRules.map fun rule => (rule.ruleId.val, rule))

namespace AssociationTables

/-- `planned_by_key`. -/
def plannedByKey (t : AssociationTables) (sourceId : Text) (rowIndex : Nat) (ruleId : Text) :
    Option PlannedIdentity :=
  AssocMap.collected (sourceId, rowIndex, ruleId)
    (t.planned.map fun p => ((p.sourceId, p.rowIndex, p.identityRuleId.val), p))

/-- `planned_by_join`. -/
def plannedByJoin (t : AssociationTables) (ruleId joinKeySha256 : Text) :
    Option PlannedIdentity :=
  AssocMap.collected (ruleId, joinKeySha256)
    (t.planned.map fun p => ((p.identityRuleId.val, p.joinKeySha256), p))

end AssociationTables

/-- The identity of a rule on a row: the current one, that of the same row, or the one
with the join key the row gives. -/
def identityUnderRule (t : AssociationTables) (current : PlannedIdentity) (sourceRow : SourceRow)
    (ruleId : Text) : Except Text (Option PlannedIdentity) :=
  if ruleId = current.identityRuleId.val then .ok (some current)
  else
    match t.plannedByKey sourceRow.sourceId sourceRow.rowIndex ruleId with
    | some identity => .ok (some identity)
    | none => do
      let rule ← okOr (AssocMap.get ruleId t.context.identityRules)
        (quoted "association endpoint references missing identity rule '" ruleId "'")
      let objectTypeId ← okOr (AssocMap.get rule.objectType t.typeIds)
        (quoted "unknown object type '" rule.objectType "'")
      let tuple ← joinKeyTupleFromRule t.ext rule sourceRow objectTypeId
      .ok (t.plannedByJoin ruleId (t.ext.sha256Hex tuple))

/-- `resolve_association_endpoint`. -/
def resolveAssociationEndpoint (t : AssociationTables) (expression defaultIdentityRuleId : Text)
    (current : PlannedIdentity) (sourceRow : SourceRow) :
    Except Text (Option PlannedIdentity) :=
  let expression := TextOps.trim expression
  if expression = "source.goid".toList then .ok (some current)
  else if expression = "target.goid".toList ∨ expression = [] then
    identityUnderRule t current sourceRow defaultIdentityRuleId
  else
    match (TextOps.stripPrefix "identity(".toList expression).bind
        (TextOps.stripSuffix ")".toList) with
    | some ruleId => identityUnderRule t current sourceRow (TextOps.trim ruleId)
    | none => .error (quoted "unsupported association endpoint expression '" expression "'")

/-- `association_goid`. -/
def associationGoid (ext : Externals) (mappingId mappingVersion : List UInt8)
    (binding : MapAssociationBinding) (sourceGoid targetGoid : Id16) : Id16 :=
  let idBytes (id : Id16) : List UInt8 := (LittleEndian.toLe 16 id.val).reverse
  goid16Parts ext [mappingId, mappingVersion,
    TextOps.utf8Bytes (associationTypeName binding.associationType),
    TextOps.utf8Bytes binding.assertionId.val, idBytes sourceGoid ++ idBytes targetGoid]

/-- The rows, assertions and evidence a conversion collects. -/
structure ConversionOutput where
  objectRows : List ObjectRow
  assertions : List Json
  evidenceEntries : List Json

/-- The properties of an association object, by the ids of `association_properties`. -/
def associationPropertyValues (identity : PlannedIdentity) (rowRule : MapRowSemanticRule)
    (binding : MapAssociationBinding) (sourceGoid targetGoid : Id16) (validFrom validTo : Json) :
    List (Nat × Json) := [
  (1, .string (hexEncode sourceGoid)),
  (2, .string (hexEncode targetGoid)),
  (3, .string binding.associationType),
  (4, .string rowRule.ruleId.val),
  (5, .string (colon identity.sourceId (TextOps.natText identity.rowIndex))),
  (6, .string binding.sourceRole),
  (7, .string binding.targetRole),
  (8, validFrom),
  (9, validTo),
  (10, .string binding.cardinalityPolicy)]

/-- A property of an association object. -/
def associationProperty (t : AssociationTables) (identity : PlannedIdentity)
    (binding : MapAssociationBinding) (declared : List (Nat × PropertyEntryV1))
    (property : Nat × Json) : Except Text (Nat × MaterializedProperty) := do
  let entry ← okOr (AssocMap.get property.1 declared)
    (quoted "association property_id " (TextOps.natText property.1) " is not declared")
  .ok (property.1, {
    entry := entry
    value := property.2
    assertionId := binding.assertionId
    sourceId := identity.sourceId
    sourceRowIndex := identity.rowIndex
    sourcePriority := t.context.sourcePriorityOf identity.sourceId
    sourceOrder := t.context.sourceOrderOf identity.sourceId
    conflictPolicy := "reject_conflict".toList })

/-- The association of a binding between two resolved endpoints. -/
def addAssociation (t : AssociationTables) (rowRule : MapRowSemanticRule)
    (identity : PlannedIdentity) (sourceRow : SourceRow) (binding : MapAssociationBinding)
    (source target : PlannedIdentity) (out : ConversionOutput) : Except Text ConversionOutput := do
  let objectType := associationTypeName binding.associationType
  let objectTypeId ← okOr (AssocMap.get objectType t.typeIds)
    (quoted "missing association object type '" objectType "'")
  let declared ← okOr (AssocMap.get objectTypeId t.propertiesByType)
    (quoted "association type '" objectType "' has no properties")
  let goid := associationGoid t.ext (TextOps.utf8Bytes t.mappingId.val)
    (TextOps.utf8Bytes t.mappingVersion.val) binding source.goid target.goid
  let assertionId := colon binding.assertionId.val identity.rowDigest
  let validFrom ← associationValidityValue sourceRow binding.validFromExpression
    binding.missingPolicy "valid_from".toList
  match validFrom with
  | none => .ok out
  | some validFrom => do
    let validTo ← associationValidityValue sourceRow binding.validToExpression
      binding.missingPolicy "valid_to".toList
    match validTo with
    | none => .ok out
    | some validTo => do
      let properties ← (associationPropertyValues identity rowRule binding source.goid
        target.goid validFrom validTo).mapM (associationProperty t identity binding declared)
      let evidence := Json.ofMembers [
        ("source_id".toList, .string identity.sourceId),
        ("source_row_identity".toList, .string identity.sourceRowIdentity),
        ("rule_id".toList, .string rowRule.ruleId.val),
        ("assertion_id".toList, .string assertionId),
        ("output_object_id".toList, .string (hexEncode goid)),
        ("observed_schema_fingerprint".toList, .string identity.schemaFingerprint)]
      .ok {
        objectRows := out.objectRows ++ [{
          goid := goid
          recordId := recordIdFor t.ext identity.sourceId identity.rowIndex
            binding.assertionId.val goid
          objectTypeId := objectTypeId
          objectType := objectType
          sourceId := identity.sourceId
          sourceRowIndex := identity.rowIndex
          recordKind := associationRecordKindForRowRule rowRule
          properties := properties }]
        assertions := pushUniqueAssertion out.assertions assertionId (hexEncode goid)
        evidenceEntries := out.evidenceEntries ++
          [addOperationMetadata evidence rowRule (some sourceRow)] }

/-- The identity rule of the source side of a binding. -/
def associationSourceRule (rowRule : MapRowSemanticRule) (binding : MapAssociationBinding) : Text :=
  if binding.sourceIdentityRuleId = [] then rowRule.identityRuleId
  else binding.sourceIdentityRuleId

/-- The body of the loop over the bindings. -/
def materializeAssociation (t : AssociationTables) (rowRule : MapRowSemanticRule)
    (identity : PlannedIdentity) (out : ConversionOutput) (binding : MapAssociationBinding) :
    Except Text ConversionOutput :=
  let sourceRule := associationSourceRule rowRule binding
  if identity.identityRuleId.val ≠ sourceRule then .ok out
  else do
    let sourceRow ← okOr (sourceRowAt t.sourceRows identity.sourceId identity.rowIndex)
      "association references missing source row".toList
    let source ← resolveAssociationEndpoint t binding.sourceEndpointExpression sourceRule
      identity sourceRow
    match source with
    | none =>
      if binding.missingPolicy = "skip".toList then .ok out
      else .error (quoted "association '" binding.associationType
        "' could not resolve source endpoint '" ++ binding.sourceEndpointExpression ++ "'".toList)
    | some source => do
      let target ← resolveAssociationEndpoint t binding.targetEndpointExpression
        binding.targetIdentityRuleId identity sourceRow
      match target with
      | none =>
        if binding.missingPolicy = "skip".toList then .ok out
        else .error (quoted "association '" binding.associationType
          "' could not resolve target identity rule '" ++ binding.targetIdentityRuleId ++
            "'".toList)
      | some target => addAssociation t rowRule identity sourceRow binding source target out

/-- The body of the loop over the planned identities. -/
def materializeAssociationsOf (t : AssociationTables) (out : ConversionOutput)
    (identity : PlannedIdentity) : Except Text ConversionOutput := do
  let rowRule ← okOr (rowRuleOf t.context identity.rowRuleId)
    (quoted "planned identity references missing row rule '" identity.rowRuleId.val "'")
  if ← rowRuleMaterializesAssociations rowRule then
    rowRule.associationBindings.foldlM (materializeAssociation t rowRule identity) out
  else .ok out

/-- `materialize_associations`. -/
def materializeAssociations (t : AssociationTables) (out : ConversionOutput) :
    Except Text ConversionOutput :=
  t.planned.foldlM (materializeAssociationsOf t) out

end Cove
