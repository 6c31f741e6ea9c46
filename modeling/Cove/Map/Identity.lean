import Mathlib.Data.List.MinMax
import Cove.Lib.Grouping
import Cove.Map.JoinKey

/-!
# Planning identities

Which object each source row speaks of: every row and matching rule gives a join key,
keys of one merge group form a component, and the component's anchor names its object.

- `IdentityKey`, `PlannedIdentity`, `CandidateMatch`.
- `componentsOf`: the components of the merge groups.
- `planIdentities`.
-/

namespace Cove

structure PlannedIdentity where
  sourceId : Text
  rowIndex : Nat
  rowDigest : Text
  schemaFingerprint : Text
  sourceRowIdentity : Text
  rowRuleId : Name
  identityRuleId : Name
  objectType : Text
  joinKeySha256 : Text
  identityAlias : Text
  equivalenceId : Text
  canonicalAnchor : Text
  goid : Id16

structure CandidateMatch where
  sourceId : Text
  rowIndex : Nat
  rowDigest : Text
  schemaFingerprint : Text
  sourceRowIdentity : Text
  rowRuleId : Name
  identityRuleId : Name
  objectType : Text
  joinKeySha256 : Text
  identityAlias : Text

structure IdentityPlan where
  canonical : List PlannedIdentity
  candidates : List CandidateMatch

inductive IdentityMergeClass where
  | mergeGlobal
  | mergeWithinSource
  | singleton
  deriving DecidableEq, Repr

structure IdentityKey where
  sourceId : Text
  rowIndex : Nat
  rowDigest : Text
  schemaFingerprint : Text
  sourceRowIdentity : Text
  rowRuleId : Name
  identityRuleId : Name
  objectType : Text
  objectTypeId : Nat
  classRank : Nat
  ruleOrder : Nat
  sourceOrder : Nat
  joinKeyTuple : List UInt8
  joinKeySha256 : Text
  mergeClass : IdentityMergeClass

/-! ## Classes -/

/-- `is_candidate_identity_rule`. -/
def isCandidateIdentityRule (rule : MapIdentityRule) : Bool :=
  rule.candidateOnly || rule.confidenceClass == "candidate".toList

/-- `merge_class`. -/
def mergeClass (rule : MapIdentityRule) : IdentityMergeClass :=
  if rule.confidenceClass = "authoritative".toList then
    if rule.autoMerge.getD true then .mergeGlobal else .singleton
  else if rule.confidenceClass = "strong_deterministic".toList then
    if rule.autoMerge.getD false then .mergeGlobal else .singleton
  else if rule.confidenceClass = "source_scoped".toList then .mergeWithinSource
  else .singleton

/-- `identity_class_rank`. -/
def identityClassRank (confidenceClass : Text) : Nat :=
  if confidenceClass = "authoritative".toList then 0
  else if confidenceClass = "strong_deterministic".toList then 1
  else if confidenceClass = "source_scoped".toList then 2
  else if confidenceClass = "weak_deterministic".toList then 3
  else 4

/-- Two parts with a colon between them. -/
def colon (a b : Text) : Text := a ++ ':' :: b

namespace IdentityKey

/-- `merge_group_key`. -/
def mergeGroupKey (key : IdentityKey) : Option (List UInt8) :=
  if key.mergeClass = .singleton then none
  else
    let out := appendLenBytes [] (TextOps.utf8Bytes key.objectType)
    let out := appendLenBytes out (TextOps.utf8Bytes key.identityRuleId.val)
    let out := if key.mergeClass = .mergeWithinSource then
      appendLenBytes out (TextOps.utf8Bytes key.sourceId) else out
    some (appendLenBytes out key.joinKeyTuple)

/-- `anchor_sort_key`. -/
def anchorSortKey (key : IdentityKey) : Nat ×ₗ Nat ×ₗ Nat ×ₗ List Nat ×ₗ Text :=
  toLex (key.classRank, toLex (key.ruleOrder, toLex (key.sourceOrder,
    toLex (key.joinKeyTuple.map UInt8.toNat, key.sourceRowIdentity))))

/-- `goid_source_scope`. -/
def goidSourceScope (key : IdentityKey) : Option Text :=
  match key.mergeClass with
  | .mergeGlobal => none
  | .mergeWithinSource => some key.sourceId
  | .singleton => some key.sourceRowIdentity

/-- `anchor_alias`. -/
def anchorAlias (key : IdentityKey) : Text := colon key.identityRuleId.val key.joinKeySha256

/-- `aliases`. -/
def aliases (key : IdentityKey) : List Text :=
  [key.sourceRowIdentity, key.rowDigest, key.anchorAlias, colon key.objectType key.joinKeySha256]

end IdentityKey

/-! ## Union-find -/

/-- The root of an index: follow the parents. Compressing the path, as the source does on
the way back, leaves every root where it is. -/
def findRoot (parent : List Nat) : Nat → Nat → Nat
  | 0, index => index
  | fuel + 1, index =>
    let p := parent.getD index index
    if p = index then index else findRoot parent fuel p

/-- `union`: the smaller root is kept. -/
def unionRoots (parent : List Nat) (left right : Nat) : List Nat :=
  let leftRoot := findRoot parent parent.length left
  let rightRoot := findRoot parent parent.length right
  parent.set (max leftRoot rightRoot) (min leftRoot rightRoot)

/-- The components of the merge groups: the indexes of the keys by their root. -/
def componentsOf (keys : List IdentityKey) : List (Nat × List Nat) :=
  let groups := Grouping.grouped Prod.fst
    (keys.zipIdx.filterMap fun (key, index) =>
      key.mergeGroupKey.map fun group => (group.map UInt8.toNat, index))
  let parent := groups.foldl (fun parent group =>
    match group.2.map Prod.snd with
    | [] => parent
    | first :: rest => rest.foldl (fun parent index => unionRoots parent first index) parent)
    (List.range keys.length)
  Grouping.grouped (fun index => findRoot parent parent.length index) (List.range keys.length)

/-- `validate_do_not_merge`. -/
def validateDoNotMerge (constraints : List (Text × Text)) (components : List (List IdentityKey)) :
    Except Text Unit :=
  components.forM fun keys =>
    let aliases := keys.flatMap IdentityKey.aliases
    match constraints.find? fun c => aliases.contains c.1 && aliases.contains c.2 with
    | none => .ok ()
    | some (left, right) => .error (quoted "identity resolution violates do-not-merge constraint '"
        left "' <-> '" ++ right ++ "'".toList)

/-! ## The plan -/

/-- `goid16_parts`. -/
def goid16Parts (ext : Externals) (parts : List (List UInt8)) : Id16 :=
  first16 (ext.sha256 (parts.flatMap fun part => LittleEndian.toLe 8 part.length ++ part))

/-- `mapped_goid`. -/
def mappedGoid (ext : Externals) (mappingId mappingVersion : List UInt8) (objectTypeId : Nat)
    (anchorKind anchorBytes : List UInt8) (sourceScope : Option Text) : Id16 :=
  goid16Parts ext [mappingId, mappingVersion, LittleEndian.toLe 4 objectTypeId, anchorKind,
    anchorBytes, TextOps.utf8Bytes (sourceScope.getD [])]

/-- What a row and one of its rules contribute. -/
inductive RowIdentity where
  | key (key : IdentityKey)
  | candidate (candidate : CandidateMatch)

/-- `{source_id}:{row_index}`. -/
def SourceRow.identity (row : SourceRow) : Text :=
  colon row.sourceId (TextOps.natText row.rowIndex)

/-- The body of the loop over the rules of a row. -/
def identityOfRow (ext : Externals) (context : MappingContext) (typeIds : List (Text × Nat))
    (row : SourceRow) (rowRule : MapRowSemanticRule) : Except Text RowIdentity := do
  let identityRule ← okOr (AssocMap.get rowRule.identityRuleId context.identityRules)
    (quoted "row rule '" rowRule.ruleId.val "' references missing identity rule '" ++
      rowRule.identityRuleId ++ "'".toList)
  let objectTypeId ← okOr (AssocMap.get identityRule.objectType typeIds)
    (quoted "unknown object type '" identityRule.objectType "'")
  let tuple ← joinKeyTupleFromRule ext identityRule row objectTypeId
  let joinKeySha256 := ext.sha256Hex tuple
  if isCandidateIdentityRule identityRule then
    .ok (.candidate {
      sourceId := row.sourceId
      rowIndex := row.rowIndex
      rowDigest := rowDigest ext row
      schemaFingerprint := schemaFingerprint ext row
      sourceRowIdentity := row.identity
      rowRuleId := rowRule.ruleId
      identityRuleId := identityRule.ruleId
      objectType := identityRule.objectType
      joinKeySha256 := joinKeySha256
      identityAlias := colon identityRule.ruleId.val joinKeySha256 })
  else
    .ok (.key {
      sourceId := row.sourceId
      rowIndex := row.rowIndex
      rowDigest := rowDigest ext row
      schemaFingerprint := schemaFingerprint ext row
      sourceRowIdentity := row.identity
      rowRuleId := rowRule.ruleId
      identityRuleId := identityRule.ruleId
      objectType := identityRule.objectType
      objectTypeId := objectTypeId
      classRank := identityClassRank identityRule.confidenceClass
      ruleOrder := (AssocMap.get identityRule.ruleId.val context.identityRuleOrder).getD
        (2 ^ 64 - 1)
      sourceOrder := context.sourceOrderOf row.sourceId
      joinKeyTuple := tuple
      joinKeySha256 := joinKeySha256
      mergeClass := mergeClass identityRule })

/-- The identities of a row under every rule of its source. -/
def identitiesOfRow (ext : Externals) (context : MappingContext) (typeIds : List (Text × Nat))
    (row : SourceRow) : Except Text (List RowIdentity) :=
  match context.rowRules.filter fun rule => rule.sourceId.val == row.sourceId with
  | [] => .error (quoted "source '" row.sourceId "' has no declared row semantic rule")
  | rules => rules.mapM (identityOfRow ext context typeIds row)

def RowIdentity.key? : RowIdentity → Option IdentityKey
  | key k => some k
  | candidate _ => none

def RowIdentity.candidate? : RowIdentity → Option CandidateMatch
  | key _ => none
  | candidate c => some c

/-- The plan of one component: its anchor names the object. -/
def planComponent (ext : Externals) (file : CovemapFile) (keys : List IdentityKey) :
    Except Text (List PlannedIdentity) := do
  let anchor ← okOr (keys.argmin IdentityKey.anchorSortKey) "empty identity component".toList
  let goid := mappedGoid ext file.mappingId (TextOps.utf8Bytes file.mappingVersion)
    anchor.objectTypeId (TextOps.utf8Bytes anchor.identityRuleId.val) anchor.joinKeyTuple
    anchor.goidSourceScope
  .ok (keys.map fun key => {
    sourceId := key.sourceId
    rowIndex := key.rowIndex
    rowDigest := key.rowDigest
    schemaFingerprint := key.schemaFingerprint
    sourceRowIdentity := key.sourceRowIdentity
    rowRuleId := key.rowRuleId
    identityRuleId := key.identityRuleId
    objectType := key.objectType
    joinKeySha256 := key.joinKeySha256
    identityAlias := key.anchorAlias
    equivalenceId := colon anchor.objectType (hexEncode goid)
    canonicalAnchor := anchor.anchorAlias
    goid := goid })

def PlannedIdentity.sortKey (identity : PlannedIdentity) : Text ×ₗ Nat ×ₗ Text ×ₗ Id16 :=
  toLex (identity.sourceId, toLex (identity.rowIndex,
    toLex (identity.identityRuleId.val, identity.goid)))

def CandidateMatch.sortKey (candidate : CandidateMatch) : Text ×ₗ Nat ×ₗ Text ×ₗ Text :=
  toLex (candidate.sourceId, toLex (candidate.rowIndex,
    toLex (candidate.identityRuleId.val, candidate.joinKeySha256)))

/-- `plan_identities`. -/
def planIdentities (ext : Externals) (file : CovemapFile) (rows : List SourceRow) :
    Except Text IdentityPlan := do
  let context ← mappingContext file
  let objectTypes ← objectTypesFromMapping ext context
  let typeIds := AssocMap.collect (objectTypes.map fun ty => (ty.typeName, ty.objectTypeId))
  let identities ← rows.mapM (identitiesOfRow ext context typeIds)
  let keys := identities.flatten.filterMap RowIdentity.key?
  let candidates := identities.flatten.filterMap RowIdentity.candidate?
  let components := (componentsOf keys).map fun component =>
    component.2.filterMap fun index => keys[index]?
  validateDoNotMerge context.doNotMerge components
  let planned ← components.mapM (planComponent ext file)
  .ok {
    canonical := planned.flatten.insertionSort fun a b => a.sortKey ≤ b.sortKey
    candidates := candidates.insertionSort fun a b => a.sortKey ≤ b.sortKey }

end Cove
