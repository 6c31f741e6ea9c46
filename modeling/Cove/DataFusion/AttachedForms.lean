import Cove.DataFusion.CoverageFormFaithful
import Cove.DataFusion.ExprLoweringSound

/-!
# Attached forms

A form the index attaches to a predicate is about it exactly when it is faithful to it.

- `Attaches.matched`: what the index checks of a form.
- `comparisonAccepts_iff`: what the root of a comparison accepts.
- `compares_iff`: where the rows of a predicate compare with the value of its literal.
- `attachedSoundly_iff`: **an attached form is about its predicate exactly when it is
  faithful to it**.
-/

namespace Cove

open Ieee754 (F32 F64)
open ThreeValued (Truth)

theorem CoveLogicalType.code_inj {a b : CoveLogicalType} (h : a.code = b.code) : a = b := by
  have hof : ∀ type : CoveLogicalType, ofNat type.code = type := by
    intro type
    cases type <;> rfl
  rw [← hof a, h, hof b]

/-! ## Roots -/

variable {op : NumericPredicateOp} {literal : PredicateLiteralV2}

section

variable {crc32c : List UInt8 → Nat} {form : PredicateNormalFormWithPayloadV2}
  {payload payload' : PredicateAstPayloadV2} {node node' : PredicateAstNodeV2}

theorem FormRoot.valid (h : FormRoot crc32c form payload node) : payload.Valid :=
  PredicateAstPayloadV2.valid_of_parse crc32c h.1

/-- A form has one root. -/
theorem FormRoot.unique (h : FormRoot crc32c form payload node)
    (h' : FormRoot crc32c form payload' node') : payload' = payload ∧ node' = node := by
  obtain ⟨hparse, hmem, hid⟩ := h
  obtain ⟨hparse', hmem', hid'⟩ := h'
  obtain rfl := Except.ok.inj (hparse'.symm.trans hparse)
  have hvalid := PredicateAstPayloadV2.valid_of_parse crc32c hparse
  exact ⟨rfl, eq_of_dense hvalid.nodeIds hmem' hmem (hid'.trans hid.symm)⟩

/-- A null test has one operand. -/
theorem FormRoot.one_operand (h : FormRoot crc32c form payload node)
    (hop : node.op = .isNull ∨ node.op = .isNotNull) :
    ∃ operand, nodeOperands payload.operandRefs node = [operand] := by
  have hlength := length_nodeOperands (h.valid.operands node h.2.1)
  have harity := h.valid.arity node h.2.1
  have hcount : node.operandCount = 1 := by
    unfold validateNodeArity at harity
    rcases hop with hop | hop <;>
    · rw [hop] at harity
      dsimp only at harity
      split at harity
      · next hvalid => exact beq_iff_eq.mp hvalid
      · cases harity
  exact List.length_eq_one_iff.mp (hlength.trans hcount)

/-- A comparison has two. -/
theorem FormRoot.two_operands (h : FormRoot crc32c form payload node)
    (hop : CoverageAtomOp.fromPredicateOp node.op = some (.fromNumericOp op)) :
    ∃ left right, nodeOperands payload.operandRefs node = [left, right] := by
  have hlength := length_nodeOperands (h.valid.operands node h.2.1)
  have harity := h.valid.arity node h.2.1
  have hcount : node.operandCount = 2 := by
    unfold validateNodeArity at harity
    cases hnode : node.op <;> rw [hnode] at harity hop <;>
      first
      | cases op <;> cases hop
        done
      | dsimp only at harity
        split at harity
        · next hvalid => exact beq_iff_eq.mp hvalid
        · cases harity
  exact List.length_eq_two.mp (hlength.trans hcount)

/-- Literals are told apart by their ids. -/
theorem FormRoot.literal_unique (h : FormRoot crc32c form payload node)
    {a b : PredicateLiteralV2} (ha : a ∈ payload.literals) (hb : b ∈ payload.literals)
    (heq : a.literalId = b.literalId) : a = b :=
  eq_of_dense h.valid.literalIds ha hb heq

end

/-! ## Operands -/

variable {i : Nat} {kind : NullPredicateKind}

section

variable {meaning : AstMeaning} {columns : List ColumnEntry} {payload : PredicateAstPayloadV2}
  {rawPayload : List UInt8} {node : PredicateAstNodeV2} {row : FilterRow}
  {operand : PredicateAstOperandRefV2} {x : Comparand}

/-- The value of an operand that is a column of the table. -/
theorem operandIs_column (hkind : operand.operandKind = .columnOrPath)
    (hi : (columns.findIdx? fun column => column.columnId == operand.refId) = some i) :
    OperandIs meaning columns payload rawPayload row operand x ↔
      ∃ cell, row i = some cell ∧ cell.comparand = x := by
  unfold OperandIs
  rw [hkind]
  dsimp only
  rw [hi]

/-- The value of an operand that is a literal. -/
theorem operandIs_literal {crc32c : List UInt8 → Nat} {form : PredicateNormalFormWithPayloadV2}
    (hroot : FormRoot crc32c form payload node)
    (hkind : operand.operandKind = .literal) (hmem : literal ∈ payload.literals)
    (hid : operand.refId = literal.literalId) :
    OperandIs meaning columns payload rawPayload row operand x ↔
      ∃ value, LiteralDenotes rawPayload literal value ∧ value.comparand = x := by
  unfold OperandIs
  rw [hkind]
  dsimp only
  constructor
  · rintro ⟨other, hother, hotherId, hvalue⟩
    rwa [hroot.literal_unique hmem hother (hid.symm.trans hotherId.symm)]
  · intro hvalue
    exact ⟨literal, hmem, hid.symm, hvalue⟩

theorem nodeAccepts_comparison
    (hop : CoverageAtomOp.fromPredicateOp node.op = some (.fromNumericOp op)) :
    NodeAccepts meaning columns payload rawPayload node row ↔
      ComparisonAccepts meaning columns payload rawPayload node row op := by
  unfold NodeAccepts
  cases hnode : node.op <;> rw [hnode] at hop <;> cases op <;>
    first
    | exact Iff.rfl
    | cases hop

/-- The literals of a type other than the booleans denote the values of their bytes. -/
theorem literalDenotes_iff {logical : CoveLogicalType}
    {bytes : List UInt8} {value other : CanonicalValue} (hbool : logical ≠ .bool)
    (htype : literal.logicalType = logical.code) (hvalue : value.HasType logical)
    (hencode : value.encode = .ok bytes) (hbytes : literalBytes rawPayload literal = some bytes)
    (htag : literal.valueTag ∈ logical.valueTags.map ValueTag.code) :
    LiteralDenotes rawPayload literal other ↔ other = value := by
  constructor
  · rintro ⟨logical', htype', hother, -, bytes', hbytes', hencode'⟩
    obtain rfl := CoveLogicalType.code_inj (htype.symm.trans htype')
    obtain rfl := Option.some.inj (hbytes.symm.trans hbytes')
    exact encode_inj hbool hother hvalue hencode' hencode
  · rintro rfl
    rw [valueTags_eq hbool hvalue, List.map_singleton, List.mem_singleton] at htag
    exact ⟨logical, htype, hvalue, htag.symm, bytes, hbytes, hencode⟩

end

/-! ## What the index checks -/

variable {columnOperand literalOperand : PredicateAstOperandRefV2}

section

variable {crc32c : List UInt8 → Nat} {state : FormPlanningState} {predicate : CovePredicate}
  {form : PredicateNormalFormWithPayloadV2}

/-- What the index checks of a form that it matches with a predicate. -/
structure Matched (crc32c : List UInt8 → Nat) (state : FormPlanningState)
    (predicate : CovePredicate) (form : PredicateNormalFormWithPayloadV2)
    (payload : PredicateAstPayloadV2) (node : PredicateAstNodeV2) (column : LoweringColumn) :
    Prop where
  root : FormRoot crc32c form payload node
  hcolumn : state.lowering.columns[predicateColumnIndex predicate]? = some column
  op : CoverageAtomOp.fromPredicateOp node.op = some (predicateAtomOp predicate)
  columnRef : ∃ id, columnRefForNode payload node = some id ∧
    (state.lowering.entries.findIdx? fun entry => entry.columnId == id) =
      some (predicateColumnIndex predicate)
  literal : ∀ bytes,
    predicatePayload column.entry.logical column.entry.physical predicate = some bytes →
      ∃ found, literalRefForNode payload node = some found ∧
        found.logicalType = column.entry.logical.code ∧
        literalBytes form.payload found = some bytes
  noLiteral : predicatePayload column.entry.logical column.entry.physical predicate = none →
    ∃ i kind, predicate = .null i kind

variable {columns : List ColumnEntry}

/-- The match of a root. -/
theorem fromAst_eq_some {ref : Nat} {payload : PredicateAstPayloadV2}
    {rawPayload : List UInt8} {m : PredicateFormMatch}
    (h : PredicateFormMatch.fromAst columns ref payload rawPayload = some m) :
    ∃ node entry,
      (payload.nodes.find? fun node => node.nodeId == payload.header.rootNodeId) = some node ∧
      CoverageAtomOp.fromPredicateOp node.op = some m.op ∧
      columnRefForNode payload node = some m.columnId ∧
      (columns.findIdx? fun column => column.columnId == m.columnId) = some m.columnIndex ∧
      columns[m.columnIndex]? = some entry ∧ m.logical = entry.logical ∧
      m.physical = entry.physical ∧ m.predicateFormRef = ref ∧
      (m.literal = none ∧ (m.op = .isNull ∨ m.op = .isNotNull) ∨
        ∃ found bytes, m.literal = some bytes ∧ literalRefForNode payload node = some found ∧
          found.logicalType = entry.logical.code ∧ literalBytes rawPayload found = some bytes) := by
  obtain ⟨node, hnode, h⟩ := Option.bind_eq_some_iff.mp h
  split at h
  · cases h
  obtain ⟨op, hop, h⟩ := Option.bind_eq_some_iff.mp h
  obtain ⟨columnId, hcolumnId, h⟩ := Option.bind_eq_some_iff.mp h
  obtain ⟨columnIndex, hcolumnIndex, h⟩ := Option.bind_eq_some_iff.mp h
  obtain ⟨entry, hentry, h⟩ := Option.bind_eq_some_iff.mp h
  split at h
  · cases h
  have hcomparison : ∀ {m : PredicateFormMatch},
      (do
        let literal ← literalRefForNode payload node
        if literal.logicalType ≠ entry.logical.code then none
        else
          let bytes ← literalBytes rawPayload literal
          some ⟨ref, columnIndex, columnId, entry.logical, entry.physical, op, some bytes⟩) =
        some m →
      ∃ found bytes, literalRefForNode payload node = some found ∧
        found.logicalType = entry.logical.code ∧ literalBytes rawPayload found = some bytes ∧
        m = ⟨ref, columnIndex, columnId, entry.logical, entry.physical, op, some bytes⟩ := by
    intro m h
    obtain ⟨found, hfound, h⟩ := Option.bind_eq_some_iff.mp h
    split at h
    · cases h
    next htype =>
    obtain ⟨bytes, hbytes, h⟩ := Option.bind_eq_some_iff.mp h
    exact ⟨found, bytes, hfound, not_not.mp htype, hbytes, (Option.some.inj h).symm⟩
  refine ⟨node, entry, hnode, ?_⟩
  cases op with
  | isNull | isNotNull =>
    dsimp only at h
    split at h
    · cases h
    · obtain rfl := Option.some.inj h
      exact ⟨hop, hcolumnId, hcolumnIndex, hentry, rfl, rfl, rfl, .inl ⟨rfl, by simp⟩⟩
  | eq | lt | ltEq | gt | gtEq =>
    obtain ⟨found, bytes, hfound, htype, hbytes, rfl⟩ := hcomparison h
    exact ⟨hop, hcolumnId, hcolumnIndex, hentry, rfl, rfl, rfl,
      .inr ⟨found, bytes, rfl, hfound, htype, hbytes⟩⟩

/-- **What the index checks of an attached form.** -/
theorem Attaches.matched (h : Attaches crc32c state predicate form) :
    ∃ payload node column, Matched crc32c state predicate form payload node column := by
  obtain ⟨-, m, hm, hfind⟩ := h
  have hmatch := List.find?_some hfind
  unfold formMatch at hm
  split at hm
  · cases hm
  split at hm
  · cases hm
  split at hm
  · cases hm
  next payload hparse =>
  obtain ⟨node, entry, hnode, hop, hcolumnId, hcolumnIndex, hentry, hlogical, hphysical, -,
    hliteral⟩ := fromAst_eq_some hm
  obtain ⟨hi, hopEq, hpayload⟩ := matchesPredicate_eq hmatch
  have hroot : FormRoot crc32c form payload node :=
    ⟨hparse, List.mem_of_find?_eq_some hnode, by simpa using List.find?_some hnode⟩
  rw [hi] at hcolumnIndex hentry
  unfold LoweringState.entries at hentry
  rw [List.getElem?_map] at hentry
  obtain ⟨column, hcolumn, rfl⟩ := Option.map_eq_some_iff.mp hentry
  rw [hlogical, hphysical] at hpayload
  rw [hopEq] at hop
  refine ⟨payload, node, column, hroot, hcolumn, hop, ⟨_, hcolumnId, hcolumnIndex⟩, ?_, ?_⟩
  · intro bytes hbytes
    rcases hliteral with ⟨hnone, -⟩ | ⟨found, bytes', hsome, hfound⟩
    · rw [hpayload, hbytes] at hnone
      cases hnone
    · rw [hpayload, hbytes] at hsome
      obtain rfl := Option.some.inj hsome
      exact ⟨found, hfound⟩
  · intro hnone
    rcases hliteral with ⟨-, hnull⟩ | ⟨found, bytes', hsome, -⟩
    · rw [hopEq] at hnull
      cases predicate with
      | null i kind => exact ⟨i, kind, rfl⟩
      | numeric i op value => cases op <;> rcases hnull with hnull | hnull <;> cases hnull
      | fileCodeIn | varBytesEq => rcases hnull with hnull | hnull <;> cases hnull
    · rw [hpayload, hnone] at hsome
      cases hsome

/-! ## The operands of a match -/

variable {meaning : AstMeaning} {row : FilterRow}

section

variable {payload : PredicateAstPayloadV2} {node : PredicateAstNodeV2} {column : LoweringColumn}
  {bytes : List UInt8}

/-- The column of a form is that of its predicate exactly when it is an operand of the root. -/
theorem Matched.readsColumn_iff
    (h : Matched crc32c state predicate form payload node column) :
    ReadsColumn state.lowering.entries payload node (predicateColumnIndex predicate) ↔
      ColumnKept payload node := by
  obtain ⟨id, hid, hindex⟩ := h.columnRef
  constructor
  · rintro ⟨operand, hmem, hkind, hoperand⟩
    refine ⟨operand, hmem, hkind, ?_⟩
    obtain ⟨_, hentry, -⟩ := List.findIdx?_eq_some_iff_getElem.mp hindex
    obtain ⟨_, hentry', -⟩ := List.findIdx?_eq_some_iff_getElem.mp hoperand
    rw [hid, ← beq_iff_eq.mp hentry, ← beq_iff_eq.mp hentry']
  · rintro ⟨operand, hmem, hkind, hoperand⟩
    refine ⟨operand, hmem, hkind, ?_⟩
    rw [hid] at hoperand
    rw [← Option.some.inj hoperand]
    exact hindex

theorem Matched.literalKept_of_testsFor
    (h : Matched crc32c state predicate form payload node column)
    (hbytes : predicatePayload column.entry.logical column.entry.physical predicate = some bytes)
    (htests : TestsFor payload form.payload node column.entry.logical bytes) :
    LiteralKept payload form.payload node column.entry.logical := by
  obtain ⟨found, hfound, hfoundType, hfoundBytes⟩ := h.literal bytes hbytes
  obtain ⟨literal, value, hown, htype, ⟨logical, htype', hvalue, htag, out, hout, hencode⟩,
    hencode'⟩ := htests
  obtain rfl := CoveLogicalType.code_inj (htype.symm.trans htype')
  obtain rfl := Except.ok.inj (hencode.symm.trans hencode')
  refine ⟨found, literal, hfound, hown, htype.trans hfoundType.symm, hout.trans hfoundBytes.symm,
    ?_⟩
  rw [← htag]
  exact List.mem_map_of_mem (valueTag_mem hvalue)

/-- What a kept literal denotes. -/
theorem Matched.exists_literal (h : Matched crc32c state predicate form payload node column)
    (hbytes : predicatePayload column.entry.logical column.entry.physical predicate = some bytes)
    (hbool : column.entry.logical ≠ .bool) {value : CanonicalValue}
    (hvalue : value.HasType column.entry.logical) (hencode : value.encode = .ok bytes)
    (hkept : LiteralKept payload form.payload node column.entry.logical) :
    ∃ literal, OwnLiteral payload node literal ∧
      literal.logicalType = column.entry.logical.code ∧
      ∀ other, LiteralDenotes form.payload literal other ↔ other = value := by
  obtain ⟨found, hfound, hfoundType, hfoundBytes⟩ := h.literal bytes hbytes
  obtain ⟨found', literal, hfound', hown, htype, hliteral, htag⟩ := hkept
  obtain rfl := Option.some.inj (hfound.symm.trans hfound')
  exact ⟨literal, hown, htype.trans hfoundType, fun other =>
    literalDenotes_iff hbool (htype.trans hfoundType) hvalue hencode
      (hliteral.trans hfoundBytes) htag⟩

theorem fromPredicateOp_null {op : PredicateOpV2}
    (h : CoverageAtomOp.fromPredicateOp op = some (.fromNullKind kind)) :
    kind = .isNull ∧ op = .isNull ∨ kind = .isNotNull ∧ op = .isNotNull := by
  cases kind <;> cases op <;> cases h
  · exact .inl ⟨rfl, rfl⟩
  · exact .inr ⟨rfl, rfl⟩

/-- The root of a null test tests the column. -/
theorem Matched.null_accepts (h : Matched crc32c state (.null i kind) form payload node column)
    (hreads : ReadsColumn state.lowering.entries payload node i)
    (heval : (CovePredicate.null i kind).eval row = .tt) :
    NodeAccepts meaning state.lowering.entries payload form.payload node row := by
  obtain ⟨operand, hmem, hkind, hindex⟩ := hreads
  have hcell : ∀ x, OperandIs meaning state.lowering.entries payload form.payload row operand x ↔
      ∃ cell, row i = some cell ∧ cell.comparand = x :=
    fun x => operandIs_column hkind hindex
  have honly : ∀ {only}, nodeOperands payload.operandRefs node = [only] → only = operand := by
    intro only honly
    rw [honly] at hmem
    exact (List.mem_singleton.mp hmem).symm
  unfold NodeAccepts
  rcases fromPredicateOp_null h.op with ⟨rfl, hop⟩ | ⟨rfl, hop⟩
  · obtain ⟨only, hoperands⟩ := h.root.one_operand (.inl hop)
    obtain rfl := honly hoperands
    rw [hop]
    refine ⟨only, hoperands, ?_⟩
    rintro ⟨x, hx⟩
    obtain ⟨cell, hrow, -⟩ := (hcell x).mp hx
    change Truth.ofBool (row i).isNone = .tt at heval
    rw [hrow] at heval
    cases heval
  · obtain ⟨only, hoperands⟩ := h.root.one_operand (.inr hop)
    obtain rfl := honly hoperands
    rw [hop]
    change Truth.ofBool (row i).isSome = .tt at heval
    cases hrow : row i with
    | none =>
      rw [hrow] at heval
      cases heval
    | some cell => exact ⟨only, hoperands, _, (hcell _).mpr ⟨cell, hrow, rfl⟩⟩

/-- A form accepts a row when its root does. -/
theorem formAccepts_iff (hroot : FormRoot crc32c form payload node) :
    FormAccepts crc32c state meaning form row ↔
      NodeAccepts meaning state.lowering.entries payload form.payload node row := by
  constructor
  · rintro ⟨payload', node', hroot', haccepts⟩
    obtain ⟨rfl, rfl⟩ := hroot.unique hroot'
    exact haccepts
  · intro haccepts
    exact ⟨payload, node, hroot, haccepts⟩

/-- The two sides of a comparison of a column with a literal. -/
theorem sides_of_operands (hroot : FormRoot crc32c form payload node)
    (hop : CoverageAtomOp.fromPredicateOp node.op = some (.fromNumericOp op))
    (hcolumn : columnOperand ∈ nodeOperands payload.operandRefs node)
    (hcolumnKind : columnOperand.operandKind = .columnOrPath)
    (hliteral : literalOperand ∈ nodeOperands payload.operandRefs node)
    (hliteralKind : literalOperand.operandKind = .literal) :
    nodeOperands payload.operandRefs node = [columnOperand, literalOperand] ∨
      nodeOperands payload.operandRefs node = [literalOperand, columnOperand] := by
  obtain ⟨left, right, hoperands⟩ := hroot.two_operands hop
  rw [hoperands] at hcolumn hliteral ⊢
  have hne : columnOperand ≠ literalOperand := by
    rintro rfl
    rw [hcolumnKind] at hliteralKind
    cases hliteralKind
  simp only [List.mem_cons, List.not_mem_nil, or_false] at hcolumn hliteral
  rcases hcolumn with rfl | rfl <;> rcases hliteral with rfl | rfl
  · exact absurd rfl hne
  · exact .inl rfl
  · exact .inr rfl
  · exact absurd rfl hne

end

/-! ## Comparisons -/

section

variable {payload : PredicateAstPayloadV2} {node : PredicateAstNodeV2}
  {bytes : List UInt8} {logical : CoveLogicalType} {value : CanonicalValue}

/-- A comparison with the column first, or with it last. -/
def Compares (swapped : Bool) (op : NumericPredicateOp) (cell value : Comparand) : Prop :=
  if swapped then compareOrdered compareComparands value op cell = true
  else compareOrdered compareComparands cell op value = true

/-- **What the root of a comparison accepts**: it compares the cell with the value of the
literal, in the order of its operands. -/
theorem comparisonAccepts_iff (hroot : FormRoot crc32c form payload node)
    (hcolumnKind : columnOperand.operandKind = .columnOrPath)
    (hindex : (columns.findIdx? fun column => column.columnId == columnOperand.refId) = some i)
    (hliteralKind : literalOperand.operandKind = .literal)
    (hmem : literal ∈ payload.literals) (hid : literalOperand.refId = literal.literalId)
    (hdenotes : ∀ other, LiteralDenotes form.payload literal other ↔ other = value)
    {swapped : Bool}
    (hoperands : nodeOperands payload.operandRefs node =
      if swapped then [literalOperand, columnOperand] else [columnOperand, literalOperand]) :
    ComparisonAccepts meaning columns payload form.payload node row op ↔
      ∃ cell, row i = some cell ∧ Compares swapped op cell.comparand value.comparand := by
  have hcell : ∀ x, OperandIs meaning columns payload form.payload row columnOperand x ↔
      ∃ cell, row i = some cell ∧ cell.comparand = x :=
    fun x => operandIs_column hcolumnKind hindex
  have hvalue : ∀ x, OperandIs meaning columns payload form.payload row literalOperand x ↔
      ∃ other, LiteralDenotes form.payload literal other ∧ other.comparand = x :=
    fun x => operandIs_literal hroot hliteralKind hmem hid
  simp only [hdenotes, exists_eq_left] at hvalue
  unfold ComparisonAccepts Compares
  rw [hoperands]
  cases swapped with
  | true =>
    simp only [if_true, List.cons.injEq, and_true]
    constructor
    · rintro ⟨_, _, ⟨rfl, rfl⟩, x, y, hx, hy, hcmp⟩
      obtain ⟨cell, hrow, rfl⟩ := (hcell y).mp hy
      obtain rfl := (hvalue x).mp hx
      exact ⟨cell, hrow, hcmp⟩
    · rintro ⟨cell, hrow, hcmp⟩
      exact ⟨_, _, ⟨rfl, rfl⟩, _, _, (hvalue _).mpr rfl, (hcell _).mpr ⟨cell, hrow, rfl⟩, hcmp⟩
  | false =>
    simp only [Bool.false_eq_true, if_false, List.cons.injEq, and_true]
    constructor
    · rintro ⟨_, _, ⟨rfl, rfl⟩, x, y, hx, hy, hcmp⟩
      obtain ⟨cell, hrow, rfl⟩ := (hcell x).mp hx
      obtain rfl := (hvalue y).mp hy
      exact ⟨cell, hrow, hcmp⟩
    · rintro ⟨cell, hrow, hcmp⟩
      exact ⟨_, _, ⟨rfl, rfl⟩, _, _, (hcell _).mpr ⟨cell, hrow, rfl⟩, (hvalue _).mpr rfl, hcmp⟩

/-- A NaN is told by its payload. -/
theorem payloadIsNaN_iff (htype : value.HasType logical) (hencode : value.encode = .ok bytes) :
    PayloadIsNaN logical bytes ↔ value.comparand = .number none := by
  cases logical with
  | float32 =>
    obtain ⟨v, hv⟩ := hasType_float32 (show CellValue.HasType .float32 (.scalar value) from htype)
    obtain rfl := CellValue.scalar.inj hv
    obtain rfl := Except.ok.inj hencode
    have hlt : v.bits.toNat < 256 ^ 4 := v.bits.isLt
    unfold PayloadIsNaN
    dsimp only
    rw [LittleEndian.ofLe_toLe hlt, BitVec.ofNat_toNat, BitVec.setWidth_eq]
    exact ⟨congrArg Comparand.number, Comparand.number.inj⟩
  | float64 =>
    obtain ⟨v, hv⟩ := hasType_float64 (show CellValue.HasType .float64 (.scalar value) from htype)
    obtain rfl := CellValue.scalar.inj hv
    obtain rfl := Except.ok.inj hencode
    have hlt : v.bits.toNat < 256 ^ 8 := v.bits.isLt
    unfold PayloadIsNaN
    dsimp only
    rw [LittleEndian.ofLe_toLe hlt, BitVec.ofNat_toNat, BitVec.setWidth_eq,
      ← F64.value_eq_none_iff]
    exact ⟨congrArg Comparand.number, Comparand.number.inj⟩
  | _ =>
    refine iff_of_false (fun h => h) fun h => ?_
    cases value <;>
      first
      | exact False.elim htype
      | cases h

/-- A value equals itself, unless it is a NaN. -/
theorem compares_self (htype : value.HasType logical) (hencode : value.encode = .ok bytes)
    (swapped : Bool) :
    Compares swapped .eq value.comparand value.comparand ↔ ¬ PayloadIsNaN logical bytes := by
  rw [payloadIsNaN_iff htype hencode]
  have hself : ∀ x : Comparand, x ≠ .nested →
      (compareOrdered compareComparands x .eq x = true ↔ ¬ x = .number none) := by
    intro x hx
    unfold compareOrdered
    cases x with
    | nested => exact absurd rfl hx
    | truth b => cases b <;> decide
    | number n =>
      cases n with
      | none => decide
      | some n => simp [compareComparands, partialCmpValues_eq]
    | text t | binary t | uuid t => simp [compareComparands, compareBytes_eq]
  have hscalar : value.comparand ≠ .nested := by
    intro h
    cases value with
    | null => cases logical <;> exact False.elim htype
    | _ => cases h
  unfold Compares
  cases swapped <;> exact hself _ hscalar

end

/-- The comparison of a predicate. -/
def comparisonOp : CovePredicate → NumericPredicateOp
  | .numeric _ op _ => op
  | _ => .eq

theorem predicateAtomOp_eq {logical : CoveLogicalType} {physical : CovePhysicalKind}
    {bytes : List UInt8} (h : predicatePayload logical physical predicate = some bytes) :
    predicateAtomOp predicate = .fromNumericOp (comparisonOp predicate) := by
  cases predicate with
  | null => cases h
  | numeric | fileCodeIn | varBytesEq => rfl

theorem rowOf_self (i : Nat) (cell : CellValue) : rowOf i cell i = some cell := if_pos rfl

section

variable {lowering : LoweringState} {column : LoweringColumn} {bytes : List UInt8}
  {value : CanonicalValue}

/-- Where each row a predicate accepts compares with the value of its literal. -/
theorem compares_iff (hlowered : LoweredPredicate lowering predicate)
    (hcolumn : lowering.columns[predicateColumnIndex predicate]? = some column)
    (hbytes : predicatePayload column.entry.logical column.entry.physical predicate = some bytes)
    (hbool : column.entry.logical ≠ .bool) (hvalue : value.HasType column.entry.logical)
    (hencode : value.encode = .ok bytes) (swapped : Bool) :
    (∀ row, lowering.HasRow row → predicate.eval row = .tt →
      ∃ cell, row (predicateColumnIndex predicate) = some cell ∧
        Compares swapped (comparisonOp predicate) cell.comparand value.comparand) ↔
      ¬ PayloadIsNaN column.entry.logical bytes ∧ (swapped = true → predicate.Symmetric) := by
  by_cases hkind : predicate.IsByBytes
  · -- an equality accepts the value of its literal and nothing else
    have hop : comparisonOp predicate = .eq := by
      cases predicate <;> first | rfl | exact False.elim hkind
    have hsymmetric : predicate.Symmetric := by
      cases predicate <;> trivial
    rw [hop, and_iff_left fun _ => hsymmetric, ← compares_self hvalue hencode swapped]
    constructor
    · intro himplied
      have hrow := hasRow_rowOf hcolumn
        (show CellValue.HasType column.entry.logical (.scalar value) from hvalue)
      have heval := (equality_eval hrow hlowered hkind hcolumn hbytes hbool hvalue hencode).mpr
        (rowOf_self _ _)
      obtain ⟨cell, hcell, hcmp⟩ := himplied _ hrow heval
      rw [rowOf_self] at hcell
      rwa [← Option.some.inj hcell] at hcmp
    · intro hcmp row hrow heval
      exact ⟨_, (equality_eval hrow hlowered hkind hcolumn hbytes hbool hvalue hencode).mp heval,
        hcmp⟩
  · cases predicate with
    | null => cases hbytes
    | fileCodeIn | varBytesEq => exact absurd trivial hkind
    | numeric i op «literal» =>
      change canonicalNumericLiteral _ _ = _ at hbytes
      change lowering.columns[i]? = _ at hcolumn
      have hnan : ∀ x, «literal» = .float64 x → x.isNaN = false := by
        rcases hlowered.shape hcolumn with ⟨_, _, heq⟩ | ⟨_, _, _, heq, hnan⟩ | ⟨_, _, hfilter⟩ |
          ⟨_, _, heq, -⟩
        · cases heq
        · cases heq
          exact hnan
        · unfold fileCodeInFilter at hfilter
          split at hfilter
          · cases hfilter
          · split at hfilter <;> cases hfilter
        · cases heq
      obtain ⟨other, hother, hencode', hcomparand⟩ := canonicalNumericLiteral_eq_some hbytes
      obtain rfl := encode_inj hbool hother hvalue hencode' hencode
      obtain ⟨-, -, l, -, hl, -⟩ := exists_numberRange hbytes hnan
      have hnotNaN : ¬ PayloadIsNaN column.entry.logical bytes := by
        rw [payloadIsNaN_iff hvalue hencode, hcomparand, hl]
        intro hnone
        cases hnone
      rw [and_iff_right hnotNaN]
      unfold Compares
      rw [hcomparand]
      cases swapped with
      | false =>
        refine iff_of_true (fun row _ heval => ?_) Bool.false_ne_true.elim
        simp only [Bool.false_eq_true, if_false]
        exact numeric_eval.mp heval
      | true =>
        simp only [if_true, true_imp_iff]
        refine Iff.trans ?_ (extreme_iff hbytes hnan).symm
        constructor
        · intro himplied cell hcell hcmp
          have heval := numeric_eval.mpr ⟨cell, rowOf_self i cell, hcmp⟩
          obtain ⟨cell', hcell', hcmp'⟩ := himplied _ (hasRow_rowOf hcolumn hcell) heval
          rw [show predicateColumnIndex _ = i from rfl, rowOf_self] at hcell'
          rwa [← Option.some.inj hcell'] at hcmp'
        · intro hflip row hrow heval
          obtain ⟨cell, hcell, hcmp⟩ := numeric_eval.mp heval
          exact ⟨cell, hcell, hflip cell (hrow i column cell hcolumn hcell) hcmp⟩

/-- The predicates of boolean columns accept both booleans. -/
theorem bool_eval (hlowered : LoweredPredicate lowering predicate)
    (hcolumn : lowering.columns[predicateColumnIndex predicate]? = some column)
    (hbytes : predicatePayload column.entry.logical column.entry.physical predicate = some bytes)
    (hbool : column.entry.logical = .bool) (b : Bool) :
    predicate.eval (rowOf (predicateColumnIndex predicate) (.scalar (.bool b))) = .tt := by
  obtain ⟨value, hvalue, hencode⟩ := hlowered.exists_value hcolumn hbytes
  rw [hbool] at hvalue hbytes
  obtain ⟨b', hb'⟩ := hasType_bool (show CellValue.HasType .bool (.scalar value) from hvalue)
  obtain rfl := CellValue.scalar.inj hb'
  obtain rfl : bytes = [] := (Except.ok.inj hencode).symm
  cases predicate with
  | null | numeric | varBytesEq => cases hbytes
  | fileCodeIn i codes values =>
    obtain rfl := predicatePayload_fileCodeIn hbytes
    show CovePredicate.eval _ _ = _
    unfold CovePredicate.eval
    dsimp only
    rw [show predicateColumnIndex _ = i from rfl, rowOf_self]
    rfl

end

/-! ## Attachments -/

section

variable {payload : PredicateAstPayloadV2} {node : PredicateAstNodeV2} {column : LoweringColumn}
  {bytes : List UInt8} {value : CanonicalValue}

/-- The root of a match compares its column with the value of the predicate, with the column
first or with it last. -/
theorem Matched.compares (h : Matched crc32c state predicate form payload node column)
    (hbytes : predicatePayload column.entry.logical column.entry.physical predicate = some bytes)
    (hbool : column.entry.logical ≠ .bool) (hvalue : value.HasType column.entry.logical)
    (hencode : value.encode = .ok bytes) (hcolumnKept : ColumnKept payload node)
    (hliteralKept : LiteralKept payload form.payload node column.entry.logical) :
    ∃ swapped, (∀ meaning row, FormAccepts crc32c state meaning form row ↔
        ∃ cell, row (predicateColumnIndex predicate) = some cell ∧
          Compares swapped (comparisonOp predicate) cell.comparand value.comparand) ∧
      (OrderKept payload node predicate ↔ (swapped = true → predicate.Symmetric)) := by
  have hop := h.op
  rw [predicateAtomOp_eq hbytes] at hop
  obtain ⟨columnOperand, hcolumnMem, hcolumnKind, hindex⟩ := h.readsColumn_iff.mpr hcolumnKept
  obtain ⟨literal, ⟨hliteralMem, literalOperand, hliteralOperand, hliteralKind, hid⟩, -,
    hdenotes⟩ := h.exists_literal hbytes hbool hvalue hencode hliteralKept
  have haccepts : ∀ {swapped : Bool}, nodeOperands payload.operandRefs node =
      (if swapped then [literalOperand, columnOperand] else [columnOperand, literalOperand]) →
      ∀ meaning row, FormAccepts crc32c state meaning form row ↔
        ∃ cell, row (predicateColumnIndex predicate) = some cell ∧
          Compares swapped (comparisonOp predicate) cell.comparand value.comparand := by
    intro swapped hoperands meaning row
    rw [formAccepts_iff h.root, nodeAccepts_comparison hop]
    exact comparisonAccepts_iff h.root hcolumnKind hindex hliteralKind hliteralMem hid hdenotes
      hoperands
  unfold OrderKept
  rcases sides_of_operands h.root hop hcolumnMem hcolumnKind hliteralOperand hliteralKind with
    hoperands | hoperands
  · refine ⟨false, haccepts hoperands, iff_of_true (.inl ?_) Bool.false_ne_true.elim⟩
    exact ⟨_, _, hoperands, hcolumnKind⟩
  · refine ⟨true, haccepts hoperands, ?_⟩
    refine (or_iff_right ?_).trans ⟨fun hsymmetric _ => hsymmetric, fun h => h rfl⟩
    rintro ⟨left, right, hoperands', hleft⟩
    rw [hoperands] at hoperands'
    obtain rfl := (List.cons.inj hoperands').1
    rw [hliteralKind] at hleft
    cases hleft

/-- A root that tests for a boolean accepts only one. -/
theorem Matched.bool_rejects (h : Matched crc32c state predicate form payload node column)
    (hbytes : predicatePayload column.entry.logical column.entry.physical predicate = some bytes)
    (hbool : column.entry.logical = .bool)
    (hreads : ReadsColumn state.lowering.entries payload node (predicateColumnIndex predicate))
    (htests : TestsFor payload form.payload node column.entry.logical bytes)
    (haccepts : ∀ b, FormAccepts crc32c state meaning form
      (rowOf (predicateColumnIndex predicate) (.scalar (.bool b)))) : False := by
  have hop := h.op
  rw [predicateAtomOp_eq hbytes] at hop
  obtain ⟨columnOperand, hcolumnMem, hcolumnKind, hindex⟩ := hreads
  obtain ⟨literal, value, ⟨hliteralMem, literalOperand, hliteralOperand, hliteralKind, hid⟩,
    htype, hvalue, hencode⟩ := htests
  rw [hbool] at htype hbytes
  have hdenotes : ∀ {x : CanonicalValue}, LiteralDenotes form.payload literal x →
      ∃ b, x = .bool b ∧ (CanonicalValue.bool b).valueTag.code = literal.valueTag := by
    rintro x ⟨logical, htype', hx, htag, -⟩
    obtain rfl := CoveLogicalType.code_inj (htype.symm.trans htype')
    obtain ⟨b, hb⟩ := hasType_bool (show CellValue.HasType .bool (.scalar x) from hx)
    obtain rfl := CellValue.scalar.inj hb
    exact ⟨b, rfl, htag⟩
  obtain ⟨b, rfl, htag⟩ := hdenotes hvalue
  have honly : ∀ other, LiteralDenotes form.payload literal other ↔ other = .bool b := by
    intro other
    constructor
    · intro hother
      obtain ⟨b', rfl, htag'⟩ := hdenotes hother
      have hcode := ValueTag.code_inj (htag'.trans htag.symm)
      cases b <;> cases b' <;> first | rfl | cases hcode
    · rintro rfl
      exact hvalue
  have hequality : comparisonOp predicate = .eq := by
    cases predicate <;> first | rfl | cases hbytes
  obtain ⟨swapped, hoperands⟩ : ∃ swapped : Bool, nodeOperands payload.operandRefs node =
      if swapped then [literalOperand, columnOperand] else [columnOperand, literalOperand] := by
    rcases sides_of_operands h.root hop hcolumnMem hcolumnKind hliteralOperand hliteralKind with
      hoperands | hoperands
    · exact ⟨false, hoperands⟩
    · exact ⟨true, hoperands⟩
  have hboth := haccepts (!b)
  rw [formAccepts_iff h.root, nodeAccepts_comparison hop, hequality,
    comparisonAccepts_iff h.root hcolumnKind hindex hliteralKind hliteralMem hid honly
      hoperands] at hboth
  obtain ⟨cell, hcell, hcmp⟩ := hboth
  rw [rowOf_self] at hcell
  obtain rfl := Option.some.inj hcell
  unfold Compares at hcmp
  cases b <;> cases swapped <;> exact absurd hcmp (by decide)

end

/-- **An attached form is about its predicate exactly when it is faithful to it.** -/
theorem attachedSoundly_iff (h : Attaches crc32c state predicate form)
    (hlowered : LoweredPredicate state.lowering predicate) :
    AttachedSoundly crc32c state predicate form ↔ Faithful crc32c state predicate form := by
  obtain ⟨payload, node, column, hm⟩ := h.matched
  have hsame : ∀ {payload' node'} {column' : LoweringColumn},
      FormRoot crc32c form payload' node' →
      state.lowering.columns[predicateColumnIndex predicate]? = some column' →
      payload' = payload ∧ node' = node ∧ column' = column := by
    intro payload' node' column' hroot' hcolumn'
    obtain ⟨rfl, rfl⟩ := hm.root.unique hroot'
    exact ⟨rfl, rfl, Option.some.inj (hcolumn'.symm.trans hm.hcolumn)⟩
  cases hpayload : predicatePayload column.entry.logical column.entry.physical predicate with
  | none =>
    obtain ⟨i, kind, rfl⟩ := hm.noLiteral hpayload
    have hnone : ∀ bytes, predicatePayload column.entry.logical column.entry.physical
        (.null i kind) ≠ some bytes := by
      intro bytes
      rw [hpayload]
      exact Option.some_ne_none _ ∘ Eq.symm
    constructor
    · rintro ⟨⟨payload', node', column', hroot', hcolumn', hreads, -⟩, -⟩
      obtain ⟨rfl, rfl, rfl⟩ := hsame hroot' hcolumn'
      exact ⟨_, _, _, hroot', hcolumn', hm.readsColumn_iff.mp hreads,
        fun bytes hbytes => absurd hbytes (hnone bytes)⟩
    · rintro ⟨payload', node', column', hroot', hcolumn', hkept, -⟩
      obtain ⟨rfl, rfl, rfl⟩ := hsame hroot' hcolumn'
      have hreads := hm.readsColumn_iff.mpr hkept
      refine ⟨⟨_, _, _, hroot', hcolumn', hreads,
        fun bytes hbytes => absurd hbytes (hnone bytes)⟩, ?_⟩
      intro meaning row _ heval
      exact (formAccepts_iff hroot').mpr (hm.null_accepts hreads heval)
  | some bytes =>
    obtain ⟨value, hvalue, hencode⟩ := hlowered.exists_value hm.hcolumn hpayload
    constructor
    · rintro ⟨⟨payload', node', column', hroot', hcolumn', hreads, htests⟩, himplied⟩
      obtain ⟨rfl, rfl, rfl⟩ := hsame hroot' hcolumn'
      have hcolumnKept := hm.readsColumn_iff.mp hreads
      have hliteralKept := hm.literalKept_of_testsFor hpayload (htests bytes hpayload)
      have hbool : column'.entry.logical ≠ .bool := by
        intro hbool
        have blind : AstMeaning := ⟨fun _ _ _ => none, fun _ _ _ => False⟩
        refine hm.bool_rejects hpayload hbool hreads (htests bytes hpayload)
          fun b => (?_ : FormAccepts crc32c state blind form (rowOf _ (.scalar (.bool b))))
        refine himplied blind _ (hasRow_rowOf hcolumn' ?_)
          (bool_eval hlowered hcolumn' hpayload hbool b)
        rw [hbool]
        trivial
      obtain ⟨swapped, haccepts, horder⟩ := hm.compares hpayload hbool hvalue hencode hcolumnKept
        hliteralKept
      have hcompares := (compares_iff hlowered hcolumn' hpayload hbool hvalue hencode
        swapped).mp fun row hrow heval =>
          (haccepts ⟨fun _ _ _ => none, fun _ _ _ => False⟩ row).mp (himplied _ row hrow heval)
      refine ⟨_, _, _, hroot', hcolumn', hcolumnKept, fun bytes' hbytes' => ?_⟩
      obtain rfl := Option.some.inj (hpayload.symm.trans hbytes')
      exact ⟨hliteralKept, hbool, hcompares.1, horder.mpr hcompares.2⟩
    · rintro ⟨payload', node', column', hroot', hcolumn', hcolumnKept, hkept⟩
      obtain ⟨rfl, rfl, rfl⟩ := hsame hroot' hcolumn'
      obtain ⟨hliteralKept, hbool, hnan, horderKept⟩ := hkept bytes hpayload
      obtain ⟨swapped, haccepts, horder⟩ := hm.compares hpayload hbool hvalue hencode hcolumnKept
        hliteralKept
      refine ⟨⟨_, _, _, hroot', hcolumn', hm.readsColumn_iff.mpr hcolumnKept,
        fun bytes' hbytes' => ?_⟩, ?_⟩
      · obtain rfl := Option.some.inj (hpayload.symm.trans hbytes')
        obtain ⟨literal, hown, htype, hdenotes⟩ := hm.exists_literal hpayload hbool hvalue hencode
          hliteralKept
        exact ⟨literal, value, hown, htype, (hdenotes value).mpr rfl, hencode⟩
      · intro meaning row hrow heval
        exact (haccepts meaning row).mpr ((compares_iff hlowered hcolumn' hpayload hbool hvalue
          hencode swapped).mpr ⟨hnan, horder.mp horderKept⟩ row hrow heval)

end

end Cove
