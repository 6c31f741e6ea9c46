import Cove.Lib.TextOps

/-!
# The catalogs of a mapping

The embedded sections of a mapping as parsing leaves them. Identifiers are non-empty and
trimmed, since parsing trims them and rejects empty ones.

- `Name`: such an identifier.
- `SourceOperationKind`: the effect of a row rule.
- `MapIdentityRule`, `MapRowSemanticRule`, `MapProjectionEntry`: the rules of a mapping.
- `EmbeddedMapSection`: a parsed section.
-/

namespace Cove

/-- An identifier: not empty, without white space at its ends. -/
structure Name where
  val : Text
  nonEmpty : val ≠ []
  trimmed : TextOps.trim val = val

theorem Name.ext {a b : Name} (h : a.val = b.val) : a = b := by
  cases a
  cases b
  cases h
  rfl

instance : DecidableEq Name := fun a b =>
  decidable_of_iff (a.val = b.val) ⟨Name.ext, congrArg Name.val⟩

/-! ## Sources and functions -/

structure MapSourceEntry where
  sourceId : Name
  schemaFingerprint : Option Text
  snapshotDigest : Option Text
  sourcePriority : Option Int
  sensitivityLabel : Option Text
  sensitivityRank : Option Int
  accessPolicyIds : List Text
  deriving DecidableEq

structure MapFunctionEntry where
  functionId : Text
  deterministic : Bool
  dependency : Text
  deriving DecidableEq

/-! ## Identity rules -/

structure MapJoinKeyComponent where
  roleId : Text
  sourceColumn : Text
  logicalType : Text
  canonicalization : Text
  nullPolicy : Text
  deriving DecidableEq

structure MapIdentityRule where
  ruleId : Name
  objectType : Text
  confidenceClass : Text
  autoMerge : Option Bool
  candidateOnly : Bool
  functionIds : List Text
  joinKeys : List MapJoinKeyComponent
  deriving DecidableEq

structure MapDoNotMergeConstraint where
  leftIdentity : Text
  rightIdentity : Text
  deriving DecidableEq

/-! ## Row rules -/

inductive SourceOperationKind where
  | fact
  | insert
  | upsert
  | patchProperty
  | replaceObjectState
  | closeAssociation
  | expireAndCreate
  | tombstoneObject
  | tombstoneProperty
  | tombstoneAssociation
  | redactEvidence
  | evidenceOnly
  | correction
  deriving DecidableEq, Repr

/-- `as_str`. -/
def SourceOperationKind.asStr : SourceOperationKind → Text
  | fact => "Fact".toList
  | insert => "Insert".toList
  | upsert => "Upsert".toList
  | patchProperty => "PatchProperty".toList
  | replaceObjectState => "ReplaceObjectState".toList
  | closeAssociation => "CloseAssociation".toList
  | expireAndCreate => "ExpireAndCreate".toList
  | tombstoneObject => "TombstoneObject".toList
  | tombstoneProperty => "TombstoneProperty".toList
  | tombstoneAssociation => "TombstoneAssociation".toList
  | redactEvidence => "RedactEvidence".toList
  | evidenceOnly => "EvidenceOnly".toList
  | correction => "Correction".toList

/-- The kinds, for `parse`. -/
def SourceOperationKind.all : List SourceOperationKind :=
  [fact, insert, upsert, patchProperty, replaceObjectState, closeAssociation, expireAndCreate,
    tombstoneObject, tombstoneProperty, tombstoneAssociation, redactEvidence, evidenceOnly,
    correction]

/-- `parse`: the kind of a name. -/
def SourceOperationKind.parse (value : Text) : Option SourceOperationKind :=
  all.find? fun kind => kind.asStr == value

structure MapPropertyBinding where
  assertionId : Name
  propertyId : Text
  propertyName : Text
  sourceColumn : Text
  logicalType : Text
  physicalKind : Text
  valueExpression : Text
  nullable : Bool
  missingPolicy : Text
  conflictPolicy : Text
  sourcePriority : Option Int
  deriving DecidableEq

structure MapAssociationBinding where
  assertionId : Name
  associationType : Text
  targetIdentityRuleId : Text
  sourceIdentityRuleId : Text
  sourceRole : Text
  targetRole : Text
  sourceEndpointExpression : Text
  targetEndpointExpression : Text
  validFromExpression : Option Text
  validToExpression : Option Text
  cardinalityPolicy : Text
  missingPolicy : Text
  deriving DecidableEq

structure MapRowSemanticRule where
  ruleId : Name
  sourceId : Name
  identityRuleId : Text
  rowSemanticsKind : Text
  sourceOperationKind : SourceOperationKind
  assertionKinds : List Text
  tombstoneTarget : Option Text
  recordKind : Text
  functionIds : List Text
  outputAssertionIds : List Text
  associationEndpoints : List Text
  propertyBindings : List MapPropertyBinding
  associationBindings : List MapAssociationBinding
  deriving DecidableEq

/-! ## What a conversion produced -/

structure MapAssertionEntry where
  assertionId : Text
  outputObjectId : Text
  deriving DecidableEq

structure MapEquivalencePair where
  leftIdentity : Text
  rightIdentity : Text
  deriving DecidableEq

structure MapEvidenceEntry where
  sourceId : Text
  sourceRowIdentity : Text
  ruleId : Text
  assertionId : Text
  outputObjectId : Text
  observedSchemaFingerprint : Option Text
  observedSnapshotDigest : Option Text
  operationMetadata : List (Text × Json)

structure MapObservedSourceState where
  sourceId : Text
  schemaFingerprint : Option Text
  snapshotDigest : Option Text
  deriving DecidableEq

/-! ## Projections -/

structure MapProjectionAnchor where
  objectType : Option Text
  associationType : Option Text
  deriving DecidableEq

structure MapProjectionColumn where
  name : Text
  value : Text
  logicalType : Option Text
  nestedShape : Option Text
  conflictPolicy : Text
  missingPolicy : Text
  deriving DecidableEq

structure MapProjectionEntry where
  projectionId : Text
  assertionIds : List Text
  outputTable : Option Text
  rowGrain : Option Text
  anchor : Option MapProjectionAnchor
  temporalMode : Option Text
  columns : List MapProjectionColumn
  multiValuePolicy : Option Text
  missingPolicy : Text
  ordering : List Text
  evidencePolicy : Text
  outputModes : List Text
  deriving DecidableEq

/-! ## Sections -/

/-- The body of a parsed section. -/
inductive EmbeddedMapBody where
  | sourceCatalog (governanceReconciliationPolicy : Text) (sources : List MapSourceEntry)
  | functionRegistry (functions : List MapFunctionEntry)
  | identityRuleCatalog (identityRules : List MapIdentityRule)
      (doNotMerge : List MapDoNotMergeConstraint)
  | rowSemanticsCatalog (rules : List MapRowSemanticRule)
  | assertionLog (assertions : List MapAssertionEntry)
  | identityEquivalenceIndex (equivalences : List MapEquivalencePair)
  | evidenceIndex (entries : List MapEvidenceEntry)
  | conversionReport (sources : List MapObservedSourceState)
  | projectionCatalog (projections : List MapProjectionEntry)

/-- A parsed section: every section names the mapping and its version. -/
structure EmbeddedMapSection where
  mappingId : Name
  mappingVersion : Name
  body : EmbeddedMapBody

end Cove
