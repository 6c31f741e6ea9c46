import Cove.Core.Dictionary
import Cove.Coverage.Entry

/-!
# Predicate payloads

A file embeds predicates as tables of nodes, literals, literal lists, functions and operand
references. The operands of a node are a run of the operand table; the column, literal and
function of a node are mirrored in the node itself.

- `PredicateAstPayloadV2`: the tables.
- `PredicateAstPayloadV2.validate`: ids, operands, mirrors, arities, no cycles.
- `PredicateAstPayloadV2.parse`: **the payload of the bytes**, every record under a checksum.
- `PredicateNormalisedPayloadV2.parse`: the clauses of a normalised predicate, runs of its terms.
-/

namespace Cove

/-! ## Records -/

inductive PredicateOpV2 where
  | trueLiteral
  | falseLiteral
  | isNull
  | isNotNull
  | eq
  | notEq
  | lt
  | ltEq
  | gt
  | gtEq
  | between
  | inSet
  | and
  | or
  | not
  | likePrefix
  | contains
  | isNaN
  | isFinite
  | functionCall
  | literalValue
  | columnRef
  | extension
  deriving DecidableEq, Repr

/-- `PredicateOpV2::from_u16`. -/
def PredicateOpV2.fromU16 (value : Nat) : Option PredicateOpV2 :=
  if value = 255 then some .extension
  else
    [trueLiteral, falseLiteral, isNull, isNotNull, eq, notEq, lt, ltEq, gt, gtEq, between, inSet,
      and, or, not, likePrefix, contains, isNaN, isFinite, functionCall, literalValue,
      columnRef][value]?

inductive PredicateNullPolicyV2 where
  | sqlWhere
  | nullExcluded
  | nullIncluded
  | nullOnly
  | nullRejected
  | extensionDefined
  deriving DecidableEq, Repr

/-- `PredicateNullPolicyV2::from_u8`. -/
def PredicateNullPolicyV2.fromU8 (value : Nat) : Option PredicateNullPolicyV2 :=
  if value = 255 then some .extensionDefined
  else [sqlWhere, nullExcluded, nullIncluded, nullOnly, nullRejected][value]?

inductive PredicateOperandKindV2 where
  | node
  | literal
  | literalList
  | columnOrPath
  | function
  | intervalSet
  | extension
  deriving DecidableEq, Repr

/-- `PredicateOperandKindV2::from_u8`. -/
def PredicateOperandKindV2.fromU8 (value : Nat) : Option PredicateOperandKindV2 :=
  if value = 255 then some .extension
  else [node, literal, literalList, columnOrPath, function, intervalSet][value]?

structure PredicateAstPayloadHeaderV2 where
  rootNodeId : Nat
  nodeCount : Nat
  literalCount : Nat
  literalListCount : Nat
  functionCount : Nat
  operandRefCount : Nat
  nodeOffset : Nat
  literalOffset : Nat
  literalListOffset : Nat
  functionOffset : Nat
  operandRefOffset : Nat
  flags : Nat
  deriving DecidableEq, Repr

structure PredicateAstOperandRefV2 where
  parentNodeId : Nat
  ordinal : Nat
  operandKind : PredicateOperandKindV2
  flags : Nat
  refId : Nat
  deriving DecidableEq, Repr

structure PredicateAstNodeV2 where
  nodeId : Nat
  op : PredicateOpV2
  flags : Nat
  resultLogicalType : Nat
  collationId : Nat
  nullPolicy : PredicateNullPolicyV2
  operandCount : Nat
  firstOperandIndex : Nat
  columnOrPathRef : Nat
  literalRef : Nat
  functionRef : Nat
  auxRef : Nat
  deriving DecidableEq, Repr

structure PredicateLiteralV2 where
  literalId : Nat
  valueTag : Nat
  logicalType : Nat
  flags : Nat
  canonicalValueOffset : Nat
  canonicalValueLength : Nat
  deriving DecidableEq, Repr

structure PredicateLiteralListV2 where
  literalListId : Nat
  firstLiteralIndex : Nat
  literalCount : Nat
  flags : Nat
  deriving DecidableEq, Repr

structure PredicateFunctionRefV2 where
  functionRef : Nat
  functionNamespace : Str
  name : Str
  versionMajor : Nat
  versionMinor : Nat
  deterministic : Nat
  flags : Nat
  requiredExtensionRef : Nat
  deriving DecidableEq, Repr

structure PredicateAstPayloadV2 where
  header : PredicateAstPayloadHeaderV2
  nodes : List PredicateAstNodeV2
  literals : List PredicateLiteralV2
  literalLists : List PredicateLiteralListV2
  functions : List PredicateFunctionRefV2
  operandRefs : List PredicateAstOperandRefV2
  deriving DecidableEq, Repr

/-! ## Validation -/

section

variable (operands : List PredicateAstOperandRefV2) (node : PredicateAstNodeV2)

/-- The operands of a node. -/
def nodeOperands : List PredicateAstOperandRefV2 :=
  (operands.drop node.firstOperandIndex).take node.operandCount

/-- `validate_mirror`. -/
def validateMirror (kind : PredicateOperandKindV2) (mirrorRef : Nat) : Except CoveError Unit :=
  if mirrorRef = absentId then .ok ()
  else if (nodeOperands operands node).any fun operand =>
      operand.operandKind == kind && operand.refId == mirrorRef then .ok ()
  else .error .badCoverage

/-- `validate_node_operands`. -/
def validateNodeOperands : Except CoveError Unit := do
  if node.operandCount = 0 then
    if node.firstOperandIndex ≠ absentId then .error .badCoverage else .ok ()
  else if node.firstOperandIndex = absentId then .error .badCoverage
  else
    let stop ← checkedAdd node.firstOperandIndex node.operandCount
    if stop > operands.length then .error .badCoverage
    else if (nodeOperands operands node).zipIdx.any fun (operand, expected) =>
        operand.parentNodeId != node.nodeId || operand.ordinal != expected then
      .error .badCoverage
    else
      validateMirror operands node .columnOrPath node.columnOrPathRef
      validateMirror operands node .literal node.literalRef
      validateMirror operands node .function node.functionRef

/-- `validate_node_arity`. -/
def validateNodeArity : Except CoveError Unit :=
  let count := node.operandCount
  let valid :=
    match node.op with
    | .trueLiteral | .falseLiteral => count == 0
    | .literalValue | .columnRef => count == 1
    | .isNull | .isNotNull | .isNaN | .isFinite | .not => count == 1
    | .eq | .notEq | .lt | .ltEq | .gt | .gtEq | .likePrefix | .contains | .inSet => count == 2
    | .between => count == 3
    | .and | .or => decide (count ≥ 2)
    | .functionCall => decide (count ≥ 1)
    | .extension => false
  if valid then .ok () else .error .badCoverage

end

/-- `validate_unique_dense_ids`. -/
def validateUniqueDenseIds (ids : List Nat) : Except CoveError Unit :=
  if ids.zipIdx.any fun (id, index) => id != index then .error .badCoverage else .ok ()

section

variable (nodes : List PredicateAstNodeV2) (operands : List PredicateAstOperandRefV2)

/-- `visit` of `validate_ast_acyclic`, with the nodes that are visited and being visited. A path
without repetition is at most as long as there are nodes, which is fuel enough. -/
def visitNode : Nat → Nat → List Nat × List Nat → Except CoveError (List Nat × List Nat)
  | 0, _, _ => .error .badCoverage
  | fuel + 1, nodeId, (visiting, visited) =>
    if nodeId ∈ visited then .ok (visiting, visited)
    else if nodeId ∈ visiting then .error .badCoverage
    else
      match nodes[nodeId]? with
      | none => .error .badCoverage
      | some node =>
        if node.nodeId ≠ nodeId then .error .badCoverage
        else do
          let (visiting, visited) ← (nodeOperands operands node).foldlM (fun sets operand =>
            if operand.operandKind = .node then visitNode fuel operand.refId sets else .ok sets)
            (nodeId :: visiting, visited)
          .ok (visiting.erase nodeId, nodeId :: visited)

/-- `validate_ast_acyclic`. -/
def validateAstAcyclic (rootNodeId : Nat) : Except CoveError Unit := do
  let _ ← visitNode nodes operands (nodes.length + 1) rootNodeId ([], [])
  .ok ()

end

/-- `PredicateAstPayloadV2::validate`. -/
def PredicateAstPayloadV2.validate (payload : PredicateAstPayloadV2) : Except CoveError Unit := do
  validateUniqueDenseIds (payload.nodes.map PredicateAstNodeV2.nodeId)
  validateUniqueDenseIds (payload.literals.map PredicateLiteralV2.literalId)
  validateUniqueDenseIds (payload.literalLists.map PredicateLiteralListV2.literalListId)
  validateUniqueDenseIds (payload.functions.map PredicateFunctionRefV2.functionRef)
  if payload.header.rootNodeId ≥ payload.nodes.length then .error .badCoverage
  else
    payload.nodes.forM fun node => do
      validateNodeOperands payload.operandRefs node
      validateNodeArity node
    validateAstAcyclic payload.nodes payload.operandRefs payload.header.rootNodeId

/-! ## Accepted payloads -/

open Checked

/-- In dense ids each one is its position. -/
theorem getElem?_of_dense {α : Type} {items : List α} {id : α → Nat}
    (h : validateUniqueDenseIds (items.map id) = .ok ()) {item : α} (hmem : item ∈ items) :
    items[id item]? = some item := by
  unfold validateUniqueDenseIds at h
  split at h
  · cases h
  · next hdense =>
    obtain ⟨i, hi, rfl⟩ := List.getElem_of_mem hmem
    have hentry : (id items[i], i) ∈ (items.map id).zipIdx := by
      rw [List.mk_mem_zipIdx_iff_getElem?, List.getElem?_map, List.getElem?_eq_getElem hi]
      rfl
    have heq : id items[i] = i := by
      by_contra hne
      refine hdense (List.any_eq_true.mpr ⟨_, hentry, ?_⟩)
      exact bne_iff_ne.mpr hne
    rw [heq, List.getElem?_eq_getElem hi]

/-- Dense ids are unique. -/
theorem eq_of_dense {α : Type} {items : List α} {id : α → Nat}
    (h : validateUniqueDenseIds (items.map id) = .ok ()) {a b : α} (ha : a ∈ items)
    (hb : b ∈ items) (heq : id a = id b) : a = b := by
  have hget := getElem?_of_dense h ha
  rw [heq, getElem?_of_dense h hb] at hget
  exact (Option.some.inj hget).symm

/-- What `validate` says of a payload it accepts. -/
structure PredicateAstPayloadV2.Valid (payload : PredicateAstPayloadV2) : Prop where
  nodeIds : validateUniqueDenseIds (payload.nodes.map PredicateAstNodeV2.nodeId) = .ok ()
  literalIds : validateUniqueDenseIds (payload.literals.map PredicateLiteralV2.literalId) = .ok ()
  operands : ∀ node ∈ payload.nodes, validateNodeOperands payload.operandRefs node = .ok ()
  arity : ∀ node ∈ payload.nodes, validateNodeArity node = .ok ()

variable {payload : PredicateAstPayloadV2}

theorem PredicateAstPayloadV2.valid_of_validate
    (h : payload.validate = .ok ()) : payload.Valid := by
  unfold PredicateAstPayloadV2.validate at h
  obtain ⟨_, hnodes, h⟩ := bind_eq_ok.mp h
  obtain ⟨_, hliterals, h⟩ := bind_eq_ok.mp h
  obtain ⟨_, -, h⟩ := bind_eq_ok.mp h
  obtain ⟨_, -, h⟩ := bind_eq_ok.mp h
  split at h
  · cases h
  · obtain ⟨_, hforM, -⟩ := bind_eq_ok.mp h
    have heach := fun node hnode => bind_eq_ok.mp (forM_eq_ok.mp hforM node hnode)
    refine ⟨hnodes, hliterals, ?_, ?_⟩
    · intro node hnode
      obtain ⟨_, hoperands, -⟩ := heach node hnode
      exact hoperands
    · intro node hnode
      obtain ⟨_, -, harity⟩ := heach node hnode
      exact harity

/-- A node has as many operands as it counts. -/
theorem length_nodeOperands {operands : List PredicateAstOperandRefV2} {node : PredicateAstNodeV2}
    (h : validateNodeOperands operands node = .ok ()) :
    (nodeOperands operands node).length = node.operandCount := by
  unfold validateNodeOperands at h
  unfold nodeOperands
  by_cases hzero : node.operandCount = 0
  · rw [hzero]
    rfl
  · rw [if_neg hzero] at h
    split at h
    · cases h
    obtain ⟨stop, hstop, h⟩ := bind_eq_ok.mp h
    split at h
    · cases h
    next hle =>
    obtain ⟨-, rfl⟩ := addU64_eq_ok.mp hstop
    rw [List.length_take, List.length_drop]
    omega

/-! ## Parsing -/

variable {bytes : List UInt8}

section

/- The checksum of the records. -/
variable (crc32c : List UInt8 → Nat)

/-- `verify_crc`: the checksum field counts as zero. -/
def verifyCrc (bytes : List UInt8) (checksumOffset expected : Nat) : Except CoveError Unit :=
  let check := bytes.take checksumOffset ++ List.replicate 4 0 ++ bytes.drop (checksumOffset + 4)
  if crc32c check ≠ expected then .error .checksumMismatch else .ok ()

/-- A field that is one of an enumeration. -/
def fromCode {α : Type} (value : Option α) : Except CoveError α :=
  match value with
  | some value => .ok value
  | none => .error .badCoverage

def PredicateAstPayloadHeaderV2.parse (bytes : List UInt8) :
    Except CoveError PredicateAstPayloadHeaderV2 :=
  if bytes.length < 72 then .error .bufferTooShort
  else do
    verifyCrc crc32c (bytes.take 72) 68 (fieldNat bytes 68 4)
    .ok {
      rootNodeId := fieldNat bytes 0 4
      nodeCount := fieldNat bytes 4 4
      literalCount := fieldNat bytes 8 4
      literalListCount := fieldNat bytes 12 4
      functionCount := fieldNat bytes 16 4
      operandRefCount := fieldNat bytes 20 4
      nodeOffset := fieldNat bytes 24 8
      literalOffset := fieldNat bytes 32 8
      literalListOffset := fieldNat bytes 40 8
      functionOffset := fieldNat bytes 48 8
      operandRefOffset := fieldNat bytes 56 8
      flags := fieldNat bytes 64 4 }

def PredicateAstOperandRefV2.parse (bytes : List UInt8) :
    Except CoveError PredicateAstOperandRefV2 :=
  if bytes.length < 16 then .error .bufferTooShort
  else do
    let operandKind ← fromCode (PredicateOperandKindV2.fromU8 (fieldNat bytes 6 1))
    verifyCrc crc32c (bytes.take 16) 12 (fieldNat bytes 12 4)
    .ok {
      parentNodeId := fieldNat bytes 0 4
      ordinal := fieldNat bytes 4 2
      operandKind
      flags := fieldNat bytes 7 1
      refId := fieldNat bytes 8 4 }

def PredicateAstNodeV2.parse (bytes : List UInt8) : Except CoveError PredicateAstNodeV2 :=
  if bytes.length < 40 then .error .bufferTooShort
  else do
    let op ← fromCode (PredicateOpV2.fromU16 (fieldNat bytes 4 2))
    let nullPolicy ← fromCode (PredicateNullPolicyV2.fromU8 (fieldNat bytes 12 1))
    verifyCrc crc32c (bytes.take 40) 36 (fieldNat bytes 36 4)
    if fieldNat bytes 13 1 ≠ 0 then .error .badCoverage
    else
      .ok {
        nodeId := fieldNat bytes 0 4
        op
        flags := fieldNat bytes 6 2
        resultLogicalType := fieldNat bytes 8 2
        collationId := fieldNat bytes 10 2
        nullPolicy
        operandCount := fieldNat bytes 14 2
        firstOperandIndex := fieldNat bytes 16 4
        columnOrPathRef := fieldNat bytes 20 4
        literalRef := fieldNat bytes 24 4
        functionRef := fieldNat bytes 28 4
        auxRef := fieldNat bytes 32 4 }

def PredicateLiteralV2.parse (bytes : List UInt8) : Except CoveError PredicateLiteralV2 :=
  if bytes.length < 28 then .error .bufferTooShort
  else do
    verifyCrc crc32c (bytes.take 28) 24 (fieldNat bytes 24 4)
    let _ ← checkedAdd (fieldNat bytes 12 8) (fieldNat bytes 20 4)
    .ok {
      literalId := fieldNat bytes 0 4
      valueTag := fieldNat bytes 4 2
      logicalType := fieldNat bytes 6 2
      flags := fieldNat bytes 8 4
      canonicalValueOffset := fieldNat bytes 12 8
      canonicalValueLength := fieldNat bytes 20 4 }

def PredicateLiteralListV2.parse (bytes : List UInt8) : Except CoveError PredicateLiteralListV2 :=
  if bytes.length < 20 then .error .bufferTooShort
  else do
    verifyCrc crc32c (bytes.take 20) 16 (fieldNat bytes 16 4)
    .ok {
      literalListId := fieldNat bytes 0 4
      firstLiteralIndex := fieldNat bytes 4 4
      literalCount := fieldNat bytes 8 4
      flags := fieldNat bytes 12 4 }

/-- `Cursor::bytes`, and where it stands then. -/
def cursorBytes (bytes : List UInt8) (position len : Nat) :
    Except CoveError (List UInt8 × Nat) := do
  let stop ← checkedAdd position len
  if stop > bytes.length then .error .bufferTooShort else .ok (fieldBytes bytes position len, stop)

/-- A number under the cursor. -/
def cursorNat (bytes : List UInt8) (position len : Nat) : Except CoveError (Nat × Nat) := do
  let (field, position) ← cursorBytes bytes position len
  .ok (LittleEndian.ofLe field, position)

/-- `Cursor::string`, with its length in front. -/
def cursorString (bytes : List UInt8) (position : Nat) : Except CoveError (Str × Nat) := do
  let (len, position) ← cursorNat bytes position 2
  let (field, position) ← cursorBytes bytes position len
  .ok (← fromCode (strFromUtf8 field), position)

/-- `PredicateFunctionRefV2::parse_one`: the record and its length. -/
def PredicateFunctionRefV2.parseOne (bytes : List UInt8) :
    Except CoveError (PredicateFunctionRefV2 × Nat) := do
  let (functionRef, position) ← cursorNat bytes 0 4
  let (functionNamespace, position) ← cursorString bytes position
  let (name, position) ← cursorString bytes position
  let (versionMajor, position) ← cursorNat bytes position 2
  let (versionMinor, position) ← cursorNat bytes position 2
  let (deterministic, position) ← cursorNat bytes position 1
  let (flags, position) ← cursorNat bytes position 1
  let (requiredExtensionRef, checksumOffset) ← cursorNat bytes position 4
  let (checksum, consumed) ← cursorNat bytes checksumOffset 4
  verifyCrc crc32c (bytes.take consumed) checksumOffset checksum
  if deterministic > 1 then .error .badCoverage
  else
    .ok (⟨functionRef, functionNamespace, name, versionMajor, versionMinor, deterministic, flags,
      requiredExtensionRef⟩, consumed)

/-- `parse_fixed_table`. -/
def parseFixedTable {α : Type} (bytes : List UInt8) (offset count itemLen : Nat)
    (parse : List UInt8 → Except CoveError α) : Except CoveError (List α) :=
  if count = 0 then if offset ≠ 0 then .error .badCoverage else .ok []
  else do
    let len ← checkedMul count itemLen
    let stop ← checkedAdd offset len
    if stop > bytes.length then .error .offsetRange
    else (List.range count).mapM fun index => parse (fieldBytes bytes (offset + index * itemLen) itemLen)

/-- The loop of `parse_function_table`. -/
def parseFunctions (bytes : List UInt8) :
    Nat → Nat → Except CoveError (List PredicateFunctionRefV2)
  | 0, _ => .ok []
  | count + 1, cursor => do
    let (item, consumed) ← PredicateFunctionRefV2.parseOne crc32c (bytes.drop cursor)
    if consumed = 0 then .error .badCoverage
    else
      let cursor ← checkedAdd cursor consumed
      if cursor > bytes.length then .error .offsetRange
      else do .ok (item :: (← parseFunctions bytes count cursor))

/-- `parse_function_table`. -/
def parseFunctionTable (bytes : List UInt8) (offset count : Nat) :
    Except CoveError (List PredicateFunctionRefV2) :=
  if count = 0 then if offset ≠ 0 then .error .badCoverage else .ok []
  else parseFunctions crc32c bytes count offset

/-- `PredicateAstPayloadV2::parse`. -/
def PredicateAstPayloadV2.parse (bytes : List UInt8) : Except CoveError PredicateAstPayloadV2 := do
  let header ← PredicateAstPayloadHeaderV2.parse crc32c bytes
  let nodes ← parseFixedTable bytes header.nodeOffset header.nodeCount 40
    (PredicateAstNodeV2.parse crc32c)
  let literals ← parseFixedTable bytes header.literalOffset header.literalCount 28
    (PredicateLiteralV2.parse crc32c)
  let literalLists ← parseFixedTable bytes header.literalListOffset header.literalListCount 20
    (PredicateLiteralListV2.parse crc32c)
  let operandRefs ← parseFixedTable bytes header.operandRefOffset header.operandRefCount 16
    (PredicateAstOperandRefV2.parse crc32c)
  let functions ← parseFunctionTable crc32c bytes header.functionOffset header.functionCount
  let payload := ⟨header, nodes, literals, literalLists, functions, operandRefs⟩
  payload.validate
  .ok payload

theorem PredicateAstPayloadV2.validate_of_parse
    (h : PredicateAstPayloadV2.parse crc32c bytes = .ok payload) : payload.validate = .ok () := by
  unfold PredicateAstPayloadV2.parse at h
  obtain ⟨_, -, h⟩ := bind_eq_ok.mp h
  obtain ⟨_, -, h⟩ := bind_eq_ok.mp h
  obtain ⟨_, -, h⟩ := bind_eq_ok.mp h
  obtain ⟨_, -, h⟩ := bind_eq_ok.mp h
  obtain ⟨_, -, h⟩ := bind_eq_ok.mp h
  obtain ⟨_, -, h⟩ := bind_eq_ok.mp h
  obtain ⟨_, hvalid, h⟩ := bind_eq_ok.mp h
  obtain rfl := Except.ok.inj h
  exact hvalid

theorem PredicateAstPayloadV2.valid_of_parse
    (h : PredicateAstPayloadV2.parse crc32c bytes = .ok payload) : payload.Valid :=
  valid_of_validate (validate_of_parse crc32c h)

/-! ## Normalised predicates -/

inductive PredicateNormalisationKindV2 where
  | cnf
  | dnf
  | flatConjunction
  | flatDisjunction
  deriving DecidableEq, Repr

/-- `PredicateNormalisationKindV2::from_u8`. -/
def PredicateNormalisationKindV2.fromU8 (value : Nat) : Option PredicateNormalisationKindV2 :=
  [cnf, dnf, flatConjunction, flatDisjunction][value]?

structure PredicateNormalisedPayloadHeaderV2 where
  normalisationKind : PredicateNormalisationKindV2
  flags : Nat
  clauseCount : Nat
  termCount : Nat
  clauseOffset : Nat
  termOffset : Nat
  deriving DecidableEq, Repr

structure PredicateClauseEntryV2 where
  clauseId : Nat
  firstTermIndex : Nat
  termCount : Nat
  flags : Nat
  deriving DecidableEq, Repr

structure PredicateTermV2 where
  termId : Nat
  astNodeRef : Nat
  negated : Nat
  nullPolicy : PredicateNullPolicyV2
  proofSafe : Nat
  deriving DecidableEq, Repr

structure PredicateNormalisedPayloadV2 where
  header : PredicateNormalisedPayloadHeaderV2
  clauses : List PredicateClauseEntryV2
  terms : List PredicateTermV2
  deriving DecidableEq, Repr

def PredicateNormalisedPayloadHeaderV2.parse (bytes : List UInt8) :
    Except CoveError PredicateNormalisedPayloadHeaderV2 :=
  if bytes.length < 32 then .error .bufferTooShort
  else do
    let normalisationKind ← fromCode (PredicateNormalisationKindV2.fromU8 (fieldNat bytes 0 1))
    verifyCrc crc32c (bytes.take 32) 28 (fieldNat bytes 28 4)
    if fieldNat bytes 2 2 ≠ 0 then .error .badCoverage
    else
      .ok {
        normalisationKind
        flags := fieldNat bytes 1 1
        clauseCount := fieldNat bytes 4 4
        termCount := fieldNat bytes 8 4
        clauseOffset := fieldNat bytes 12 8
        termOffset := fieldNat bytes 20 8 }

def PredicateClauseEntryV2.parse (bytes : List UInt8) : Except CoveError PredicateClauseEntryV2 :=
  if bytes.length < 20 then .error .bufferTooShort
  else do
    verifyCrc crc32c (bytes.take 20) 16 (fieldNat bytes 16 4)
    .ok {
      clauseId := fieldNat bytes 0 4
      firstTermIndex := fieldNat bytes 4 4
      termCount := fieldNat bytes 8 4
      flags := fieldNat bytes 12 4 }

/-- `validate_bool`. -/
def validateBool (value : Nat) : Except CoveError Unit :=
  if value ≤ 1 then .ok () else .error .badCoverage

def PredicateTermV2.parse (bytes : List UInt8) : Except CoveError PredicateTermV2 :=
  if bytes.length < 16 then .error .bufferTooShort
  else do
    let nullPolicy ← fromCode (PredicateNullPolicyV2.fromU8 (fieldNat bytes 9 1))
    verifyCrc crc32c (bytes.take 16) 12 (fieldNat bytes 12 4)
    validateBool (fieldNat bytes 8 1)
    validateBool (fieldNat bytes 10 1)
    if fieldNat bytes 11 1 ≠ 0 then .error .badCoverage
    else
      .ok {
        termId := fieldNat bytes 0 4
        astNodeRef := fieldNat bytes 4 4
        negated := fieldNat bytes 8 1
        nullPolicy
        proofSafe := fieldNat bytes 10 1 }

/-- The terms of a clause are in the table. -/
def validateClause (terms : List PredicateTermV2) (clause : PredicateClauseEntryV2) :
    Except CoveError Unit := do
  let stop ← checkedAddU32 clause.firstTermIndex clause.termCount
  if stop > terms.length then .error .badCoverage else .ok ()

/-- `PredicateNormalisedPayloadV2::parse`, from the tables on. -/
def PredicateNormalisedPayloadV2.validate (payload : PredicateNormalisedPayloadV2) :
    Except CoveError Unit := do
  validateUniqueDenseIds (payload.clauses.map PredicateClauseEntryV2.clauseId)
  validateUniqueDenseIds (payload.terms.map PredicateTermV2.termId)
  payload.clauses.forM (validateClause payload.terms)

/-- `PredicateNormalisedPayloadV2::parse`. -/
def PredicateNormalisedPayloadV2.parse (bytes : List UInt8) :
    Except CoveError PredicateNormalisedPayloadV2 := do
  let header ← PredicateNormalisedPayloadHeaderV2.parse crc32c bytes
  let clauses ← parseFixedTable bytes header.clauseOffset header.clauseCount 20
    (PredicateClauseEntryV2.parse crc32c)
  let terms ← parseFixedTable bytes header.termOffset header.termCount 16
    (PredicateTermV2.parse crc32c)
  let payload := ⟨header, clauses, terms⟩
  payload.validate
  .ok payload

end

end Cove
