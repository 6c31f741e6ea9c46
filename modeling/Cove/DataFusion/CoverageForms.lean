import Mathlib.Data.Prod.Lex
import Cove.Coverage.PredicateAst
import Cove.DataFusion.CoveragePruning
import Cove.DataFusion.ExprLowering
import Cove.Lib.SortedList

/-!
# Attaching coverage forms

The predicates a file embeds are matched with the predicates of lowered filters by column,
operator and the canonical bytes of the literal. The form that matches stands for the
predicate in the coverage expression of the plan.

- `PredicateFormMatch`: what the planner keeps of a form.
- `PredicateFormMatch.fromAst`, `PredicateFormMatch.matchesPredicate`.
- `CoveragePlanningIndex.attachToFilters`: **the coverage expression of the filters**.
-/

namespace Cove

/-! ## What the planner reads -/

/-- `PredicateNormalFormWithPayloadV2`, by its id, its table and its payload. -/
structure PredicateNormalFormWithPayloadV2 where
  predicateFormId : Nat
  logicalContextRef : Nat
  payload : List UInt8
  deriving DecidableEq, Repr

/-- `CoveragePlanCandidateV2`, as far as forms are ranked by it. -/
structure CoveragePlanCandidateV2 where
  providerId : Nat
  flags : Nat
  deriving DecidableEq, Repr

/-- `COVERAGE_PLAN_FLAG_PRUNING_CANDIDATE`. -/
def coveragePlanFlagPruningCandidate : Nat := 1

/-- `COVERAGE_PLAN_FLAG_MAY_UNDER_INCLUDE`. -/
def coveragePlanFlagMayUnderInclude : Nat := 2

/-- The part of the dataset state that attaching forms reads. `cacheRefs` lists the coverage
sets an engine cache holds for a form. -/
structure FormPlanningState where
  lowering : LoweringState
  tableId : Nat
  predicateForms : List PredicateNormalFormWithPayloadV2
  coveragePlanCandidates : List CoveragePlanCandidateV2
  coverageProofs : List CoverageProofRecordV2
  cacheRefs : Nat → List Nat

/-- The entries of the columns. -/
def LoweringState.entries (state : LoweringState) : List ColumnEntry :=
  state.columns.map LoweringColumn.entry

/-! ## Operators -/

inductive CoverageAtomOp where
  | eq
  | lt
  | ltEq
  | gt
  | gtEq
  | isNull
  | isNotNull
  deriving DecidableEq, Repr

namespace CoverageAtomOp

def fromPredicateOp : PredicateOpV2 → Option CoverageAtomOp
  | .eq => some .eq
  | .lt => some .lt
  | .ltEq => some .ltEq
  | .gt => some .gt
  | .gtEq => some .gtEq
  | .isNull => some .isNull
  | .isNotNull => some .isNotNull
  | _ => none

def fromNumericOp : NumericPredicateOp → CoverageAtomOp
  | .eq => .eq
  | .lt => .lt
  | .ltEq => .ltEq
  | .gt => .gt
  | .gtEq => .gtEq

def fromNullKind : NullPredicateKind → CoverageAtomOp
  | .isNull => .isNull
  | .isNotNull => .isNotNull

end CoverageAtomOp

/-! ## Forms -/

/-- `PredicateFormMatch`. -/
structure PredicateFormMatch where
  predicateFormRef : Nat
  columnIndex : Nat
  columnId : Nat
  logical : CoveLogicalType
  physical : CovePhysicalKind
  op : CoverageAtomOp
  literal : Option (List UInt8)
  deriving DecidableEq, Repr

section

variable (payload : PredicateAstPayloadV2) (node : PredicateAstNodeV2)

/-- The first operand of a kind that names the node as its parent. -/
def firstOperand (kind : PredicateOperandKindV2) : Option PredicateAstOperandRefV2 :=
  payload.operandRefs.find? fun operand =>
    operand.parentNodeId == node.nodeId && operand.operandKind == kind

/-- `column_ref_for_node`. -/
def columnRefForNode : Option Nat :=
  if node.columnOrPathRef ≠ absentId then some node.columnOrPathRef
  else (firstOperand payload node .columnOrPath).map PredicateAstOperandRefV2.refId

/-- The literal a node refers to. -/
def literalIdForNode : Option Nat :=
  if node.literalRef ≠ absentId then some node.literalRef
  else (firstOperand payload node .literal).map PredicateAstOperandRefV2.refId

/-- `literal_ref_for_node`. -/
def literalRefForNode : Option PredicateLiteralV2 := do
  let literalRef ← literalIdForNode payload node
  payload.literals.find? fun candidate => candidate.literalId == literalRef

end

/-- The canonical bytes of a literal. -/
def literalBytes (rawPayload : List UInt8) (literal : PredicateLiteralV2) : Option (List UInt8) :=
  if literal.canonicalValueOffset + literal.canonicalValueLength ≤ rawPayload.length then
    some (fieldBytes rawPayload literal.canonicalValueOffset literal.canonicalValueLength)
  else none

/-- `PredicateFormMatch::from_ast`. -/
def PredicateFormMatch.fromAst (columns : List ColumnEntry) (predicateFormRef : Nat)
    (payload : PredicateAstPayloadV2) (rawPayload : List UInt8) : Option PredicateFormMatch := do
  let node ← payload.nodes.find? fun node => node.nodeId == payload.header.rootNodeId
  if node.flags ≠ 0 ∨ node.functionRef ≠ absentId ∨ node.auxRef ≠ absentId ∨
      node.nullPolicy ≠ .sqlWhere then none
  else
    let op ← CoverageAtomOp.fromPredicateOp node.op
    let columnId ← columnRefForNode payload node
    let columnIndex ← columns.findIdx? fun column => column.columnId == columnId
    let column ← columns[columnIndex]?
    if node.collationId ≠ column.collationId.toNat then none
    else
      match op with
      | .isNull | .isNotNull =>
        if node.literalRef ≠ absentId then none
        else
          some ⟨predicateFormRef, columnIndex, columnId, column.logical, column.physical, op, none⟩
      | _ => do
        let literal ← literalRefForNode payload node
        if literal.logicalType ≠ column.logical.code then none
        else
          let bytes ← literalBytes rawPayload literal
          some ⟨predicateFormRef, columnIndex, columnId, column.logical, column.physical, op,
            some bytes⟩

/-- `canonical_numeric_literal`. -/
def canonicalNumericLiteral (logical : CoveLogicalType) (literal : PredicateLiteral) :
    Option (List UInt8) :=
  match logical, literal with
  | .int64, .int64 value => (CanonicalValue.int 8 value.toInt).encode.toOption
  | .uint64, .uint64 value => (CanonicalValue.uint 8 value.toNat).encode.toOption
  | .float64, .float64 value => (CanonicalValue.float64 value).encode.toOption
  | _, _ => none

/-- The canonical bytes of a literal of variable length. -/
def canonicalVarBytesLiteral (logical : CoveLogicalType) (physical : CovePhysicalKind)
    (literal : List UInt8) : Option (List UInt8) :=
  match logical, physical with
  | .utf8, .varBytes =>
    (strFromUtf8 literal).bind fun value => (CanonicalValue.utf8 value).encode.toOption
  | .binary, .varBytes => (CanonicalValue.bytes literal).encode.toOption
  | _, _ => none

/-- `PredicateFormMatch::matches`. -/
def PredicateFormMatch.matchesPredicate (self : PredicateFormMatch) : CovePredicate → Bool
  | .null columnIndex kind =>
    self.columnIndex == columnIndex && self.literal.isNone &&
      self.op == CoverageAtomOp.fromNullKind kind
  | .numeric columnIndex op literal =>
    self.columnIndex == columnIndex && self.op == CoverageAtomOp.fromNumericOp op &&
      self.literal == canonicalNumericLiteral self.logical literal
  | .fileCodeIn columnIndex _ canonicalValues =>
    self.columnIndex == columnIndex && self.op == .eq && canonicalValues.length == 1 &&
      self.literal == canonicalValues.head?
  | .varBytesEq columnIndex literal =>
    self.columnIndex == columnIndex && self.op == .eq &&
      self.literal == canonicalVarBytesLiteral self.logical self.physical literal

/-! ## The index -/

/-- `CoveragePlanningIndex`. -/
structure CoveragePlanningIndex where
  forms : List PredicateFormMatch
  safeCandidateProviderIds : List Nat
  cacheRefs : Nat → List Nat

/-- The providers that some candidate lets prune, none of them under-inclusive. -/
def safeProviders (candidates : List CoveragePlanCandidateV2) : List Nat :=
  (candidates.filter fun candidate =>
    candidate.flags &&& coveragePlanFlagPruningCandidate != 0 &&
      candidate.flags &&& coveragePlanFlagMayUnderInclude == 0).map
        CoveragePlanCandidateV2.providerId

/-- `form_has_safe_candidate_provider`. -/
def formHasSafeCandidateProvider (proofs : List CoverageProofRecordV2) (predicateFormRef : Nat)
    (safeCandidateProviderIds : List Nat) : Bool :=
  proofs.any fun proof =>
    proof.predicateFormRef == predicateFormRef &&
      safeCandidateProviderIds.contains proof.providerId

section

/- The checksum of the records. -/
variable (crc32c : List UInt8 → Nat)

/-- What the index keeps of a form of the file. -/
def formMatch (state : FormPlanningState) (form : PredicateNormalFormWithPayloadV2) :
    Option PredicateFormMatch :=
  if form.payload.isEmpty then none
  else if form.logicalContextRef ≠ state.tableId then none
  else
    match PredicateAstPayloadV2.parse crc32c form.payload with
    | .error _ => none
    | .ok payload =>
      PredicateFormMatch.fromAst state.lowering.entries form.predicateFormId payload form.payload

/-- `CoveragePlanningIndex::build`: forms with a safe provider first, then by their ids. -/
def CoveragePlanningIndex.build (state : FormPlanningState) : CoveragePlanningIndex :=
  let safe := safeProviders state.coveragePlanCandidates
  let key : PredicateFormMatch → Bool ×ₗ Nat := fun form =>
    toLex (!formHasSafeCandidateProvider state.coverageProofs form.predicateFormRef safe,
      form.predicateFormRef)
  ⟨SortedList.sortBy key (state.predicateForms.filterMap (formMatch crc32c state)), safe,
    state.cacheRefs⟩

end

/-- `CoveragePredicateExpr::and`. -/
def CoveragePredicateExpr.conjunction (conjuncts : List CoveragePredicateExpr) :
    Option CoveragePredicateExpr :=
  let retained := conjuncts.filter fun expr =>
    match expr with
    | .and children => !children.isEmpty
    | _ => true
  match retained with
  | [] => none
  | [expr] => some expr
  | exprs => some (.and exprs)

namespace CoveragePlanningIndex

variable (self : CoveragePlanningIndex)

/-- `atom_for_predicate`: the first form that matches. -/
def atomForPredicate (predicate : CovePredicate) : Option CoveragePredicateAtom :=
  (self.forms.find? fun form => form.matchesPredicate predicate).map fun form =>
    ⟨form.predicateFormRef, form.columnIndex, form.columnId, self.cacheRefs form.predicateFormRef⟩

/-- `atom_for_filter`. -/
def atomForFilter (filter : LoweredFilter) : Option CoveragePredicateAtom :=
  filter.predicate.bind self.atomForPredicate

mutual

/-- `coverage_expr_for_predicate_expr`. -/
def coverageExprForPredicateExpr : CovePredicateExpr → Option CoveragePredicateExpr
  | .atom predicate => (self.atomForPredicate predicate).map .atom
  | .and children => (coverageExprs children).bind CoveragePredicateExpr.conjunction
  | .or children => (coverageExprs children).map .or

/-- The expressions of children that all have one. -/
def coverageExprs : List CovePredicateExpr → Option (List CoveragePredicateExpr)
  | [] => some []
  | child :: children => do
    let expr ← coverageExprForPredicateExpr child
    let exprs ← coverageExprs children
    some (expr :: exprs)

end

/-- `expr_for_filter`: the filter with the form it refers to, and its expression. -/
def exprForFilter (filter : LoweredFilter) : LoweredFilter × Option CoveragePredicateExpr :=
  match self.atomForFilter filter with
  | some atom =>
    ({ filter with coveragePredicateFormRef := some atom.predicateFormRef }, some (.atom atom))
  | none => (filter, filter.predicateExpr.bind self.coverageExprForPredicateExpr)

/-- `attach_to_filters`. -/
def attachToFilters (filters : List LoweredFilter) :
    List LoweredFilter × Option CoveragePredicateExpr :=
  let attached := filters.map self.exprForFilter
  (attached.map Prod.fst, CoveragePredicateExpr.conjunction (attached.filterMap Prod.snd))

end CoveragePlanningIndex

end Cove
