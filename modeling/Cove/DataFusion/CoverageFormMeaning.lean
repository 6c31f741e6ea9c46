import Cove.DataFusion.CoverageForms
import Cove.DataFusion.MembershipKept

/-!
# What a form means

The predicate of a form is read from the operands of its root. A literal is the value of its
type, its tag and its canonical bytes.

- `LiteralDenotes`: the value of a literal.
- `FormAccepts`: **a form accepts a row**.
- `encode_inj`: a value of a type other than the booleans is its payload.
-/

namespace Cove

open Ieee754 (F32 F64)

/-! ## Types, tags and payloads -/

/-- The tags of the values of a type. -/
def CoveLogicalType.valueTags : CoveLogicalType → List ValueTag
  | .bool => [.boolFalse, .boolTrue]
  | .int8 | .int16 | .int32 | .int64 => [.int64]
  | .uint8 | .uint16 | .uint32 | .uint64 => [.uint64]
  | .float32 => [.float32Bits]
  | .float64 => [.float64Bits]
  | .decimal64 => [.decimal64]
  | .decimal128 => [.decimal128]
  | .dateDays => [.dateDays]
  | .timestampMicros => [.timestampMicros]
  | .timestampNanos => [.timestampNanos]
  | .utf8 => [.utf8]
  | .binary => [.binary]
  | .uuid => [.uuid]
  | .json => [.json]
  | .null | .list | .struct | .map => []

variable {logical : CoveLogicalType}

variable {value a b : CanonicalValue} {w : Nat}

theorem valueTag_mem (h : value.HasType logical) : value.valueTag ∈ logical.valueTags := by
  unfold CanonicalValue.HasType at h
  split at h
  case h_1 b => cases b <;> decide
  case h_21 => exact h.elim
  all_goals exact List.mem_singleton_self _

theorem valueTags_eq (hbool : logical ≠ .bool)
    (h : value.HasType logical) : logical.valueTags = [value.valueTag] := by
  have hmem := valueTag_mem h
  have hlength : logical.valueTags.length ≤ 1 := by
    cases logical <;> first | exact absurd rfl hbool | decide
  obtain hnil | ⟨tag, hone⟩ : logical.valueTags = [] ∨ ∃ tag, logical.valueTags = [tag] := by
    rcases Nat.le_one_iff_eq_zero_or_eq_one.mp hlength with hzero | hone
    · exact .inl (List.length_eq_zero_iff.mp hzero)
    · exact .inr (List.length_eq_one_iff.mp hone)
  · rw [hnil] at hmem
    cases hmem
  · rw [hone] at hmem ⊢
    rw [List.mem_singleton.mp hmem]

theorem Str.eq_of_bytes {a b : Str} (h : a.bytes = b.bytes) : a = b := by
  obtain ⟨a, _⟩ := a
  obtain ⟨b, _⟩ := b
  obtain rfl : a = b := h
  rfl

theorem signed_encode_inj (hw : IntegerWidth w) {a b : Int}
    (ha : -2 ^ (8 * w - 1) ≤ a ∧ a < 2 ^ (8 * w - 1))
    (hb : -2 ^ (8 * w - 1) ≤ b ∧ b < 2 ^ (8 * w - 1)) {payload : List UInt8}
    (hea : (CanonicalValue.int w a).encode = .ok payload)
    (heb : (CanonicalValue.int w b).encode = .ok payload) : a = b := by
  obtain ⟨-, hpa⟩ := (encodeI64Width_eq_ok hw).mp hea
  obtain ⟨-, hpb⟩ := (encodeI64Width_eq_ok hw).mp heb
  obtain ⟨hlo, hhi⟩ := range_mono hw ha.1 ha.2
  obtain ⟨hlo', hhi'⟩ := range_mono hw hb.1 hb.2
  exact (signedLe_inj (by decide) hlo hhi hlo' hhi').mp (hpa.symm.trans hpb)

theorem unsigned_encode_inj (hw : IntegerWidth w) {a b : Nat} (ha : a < 2 ^ (8 * w))
    (hb : b < 2 ^ (8 * w)) {payload : List UInt8}
    (hea : (CanonicalValue.uint w a).encode = .ok payload)
    (heb : (CanonicalValue.uint w b).encode = .ok payload) : a = b := by
  obtain ⟨-, hpa⟩ := (encodeU64Width_eq_ok hw).mp hea
  obtain ⟨-, hpb⟩ := (encodeU64Width_eq_ok hw).mp heb
  have hwide : 2 ^ (8 * w) ≤ 256 ^ 8 := by
    rcases hw with rfl | rfl | rfl | rfl <;> decide
  exact LittleEndian.toLe_injective (ha.trans_le hwide) (hb.trans_le hwide) (hpa.symm.trans hpb)

theorem plain_encode_inj {make : Int → CanonicalValue} (hl : plainInteger logical = some (make, w))
    (ha : (CellValue.scalar a).HasType logical) (hb : (CellValue.scalar b).HasType logical)
    {payload : List UInt8} (hea : a.encode = .ok payload) (heb : b.encode = .ok payload) :
    a = b := by
  obtain ⟨x, hx, hxlo, hxhi⟩ := hasType_plain hl ha
  obtain ⟨y, hy, hylo, hyhi⟩ := hasType_plain hl hb
  obtain rfl := CellValue.scalar.inj hx
  obtain rfl := CellValue.scalar.inj hy
  rw [(plainInteger_encode hl x).1] at hea
  rw [(plainInteger_encode hl y).1] at heb
  rw [(signedLe_inj (plainInteger_width hl) hxlo hxhi hylo hyhi).mp
    (Except.ok.inj (hea.trans heb.symm))]

/-- **A value of a type other than the booleans is its payload.** -/
theorem encode_inj (hbool : logical ≠ .bool)
    (ha : a.HasType logical) (hb : b.HasType logical) {payload : List UInt8}
    (hea : a.encode = .ok payload) (heb : b.encode = .ok payload) : a = b := by
  have ha' : (CellValue.scalar a).HasType logical := ha
  have hb' : (CellValue.scalar b).HasType logical := hb
  cases logical with
  | bool => exact absurd rfl hbool
  | null | list | struct | map => cases ha
  | int8 | int16 | int32 | int64 =>
    obtain ⟨x, hx, hxr⟩ := hasType_signed (by simp) ha'
    obtain ⟨y, hy, hyr⟩ := hasType_signed (by simp) hb'
    obtain rfl := CellValue.scalar.inj hx
    obtain rfl := CellValue.scalar.inj hy
    rw [signed_encode_inj (integerWidth_integerWidth _) hxr hyr hea heb]
  | uint8 | uint16 | uint32 | uint64 =>
    obtain ⟨x, hx, hxr⟩ := hasType_unsigned (by simp) ha'
    obtain ⟨y, hy, hyr⟩ := hasType_unsigned (by simp) hb'
    obtain rfl := CellValue.scalar.inj hx
    obtain rfl := CellValue.scalar.inj hy
    rw [unsigned_encode_inj (integerWidth_integerWidth _) hxr hyr hea heb]
  | decimal64 | decimal128 | dateDays | timestampMicros | timestampNanos =>
    exact plain_encode_inj rfl ha' hb' hea heb
  | float32 =>
    obtain ⟨x, hx⟩ := hasType_float32 ha'
    obtain ⟨y, hy⟩ := hasType_float32 hb'
    obtain rfl := CellValue.scalar.inj hx
    obtain rfl := CellValue.scalar.inj hy
    have hbits := LittleEndian.toLe_injective x.bits.isLt y.bits.isLt
      (Except.ok.inj (hea.trans heb.symm))
    exact congrArg (CanonicalValue.float32 ∘ F32.mk) (BitVec.eq_of_toNat_eq hbits)
  | float64 =>
    obtain ⟨x, hx⟩ := hasType_float64 ha'
    obtain ⟨y, hy⟩ := hasType_float64 hb'
    obtain rfl := CellValue.scalar.inj hx
    obtain rfl := CellValue.scalar.inj hy
    have hbits := LittleEndian.toLe_injective x.bits.isLt y.bits.isLt
      (Except.ok.inj (hea.trans heb.symm))
    exact congrArg (CanonicalValue.float64 ∘ F64.mk) (BitVec.eq_of_toNat_eq hbits)
  | utf8 | json | binary | uuid =>
    cases a with
    | utf8 x | json x | bytes x | uuid x =>
      cases b with
      | utf8 y | json y | bytes y | uuid y =>
        first
        | exact congrArg _ (Subtype.ext (Except.ok.inj (hea.trans heb.symm)))
        | exact congrArg _ (lengthPrefixed_injective (Except.ok.inj (hea.trans heb.symm)))
        | exact congrArg _ (Str.eq_of_bytes
            (lengthPrefixed_injective (Except.ok.inj (hea.trans heb.symm))))
        | exact False.elim ha
        | exact False.elim hb
      | _ => cases hb
    | _ => cases ha

/-! ## Operands -/

/-- What the compound parts of a payload denote: the operands that are neither a column of the
table nor a literal, and the nodes that are neither a comparison nor a null test. -/
structure AstMeaning where
  operand : PredicateAstPayloadV2 → PredicateAstOperandRefV2 → FilterRow → Option Comparand
  node : PredicateAstPayloadV2 → PredicateAstNodeV2 → FilterRow → Prop

/-- The value of a literal: the one of its type, its tag and its canonical bytes. -/
def LiteralDenotes (rawPayload : List UInt8) (literal : PredicateLiteralV2)
    (value : CanonicalValue) : Prop :=
  ∃ logical, literal.logicalType = logical.code ∧ value.HasType logical ∧
    value.valueTag.code = literal.valueTag ∧
    ∃ bytes, literalBytes rawPayload literal = some bytes ∧ value.encode = .ok bytes

section

variable (meaning : AstMeaning) (columns : List ColumnEntry) (payload : PredicateAstPayloadV2)
  (rawPayload : List UInt8) (node : PredicateAstNodeV2) (row : FilterRow)

/-- An operand has a value on a row. One that has none is NULL. -/
def OperandIs (operand : PredicateAstOperandRefV2) (x : Comparand) : Prop :=
  match operand.operandKind with
  | .columnOrPath =>
    match columns.findIdx? fun column => column.columnId == operand.refId with
    | some i => ∃ cell, row i = some cell ∧ cell.comparand = x
    | none => meaning.operand payload operand row = some x
  | .literal =>
    ∃ literal ∈ payload.literals, literal.literalId = operand.refId ∧
      ∃ value, LiteralDenotes rawPayload literal value ∧ value.comparand = x
  | _ => meaning.operand payload operand row = some x

/-- A comparison of the two operands of a node is TRUE. -/
def ComparisonAccepts (op : NumericPredicateOp) : Prop :=
  ∃ left right, nodeOperands payload.operandRefs node = [left, right] ∧
    ∃ x y, OperandIs meaning columns payload rawPayload row left x ∧
      OperandIs meaning columns payload rawPayload row right y ∧
      compareOrdered compareComparands x op y = true

/-- A node is TRUE on a row. -/
def NodeAccepts : Prop :=
  match node.op with
  | .isNull =>
    ∃ operand, nodeOperands payload.operandRefs node = [operand] ∧
      ¬∃ x, OperandIs meaning columns payload rawPayload row operand x
  | .isNotNull =>
    ∃ operand, nodeOperands payload.operandRefs node = [operand] ∧
      ∃ x, OperandIs meaning columns payload rawPayload row operand x
  | .eq => ComparisonAccepts meaning columns payload rawPayload node row .eq
  | .lt => ComparisonAccepts meaning columns payload rawPayload node row .lt
  | .ltEq => ComparisonAccepts meaning columns payload rawPayload node row .ltEq
  | .gt => ComparisonAccepts meaning columns payload rawPayload node row .gt
  | .gtEq => ComparisonAccepts meaning columns payload rawPayload node row .gtEq
  | _ => meaning.node payload node row

end

/-! ## Forms -/

section

variable (crc32c : List UInt8 → Nat) (state : FormPlanningState)

/-- The root of the payload of a form. -/
def FormRoot (form : PredicateNormalFormWithPayloadV2) (payload : PredicateAstPayloadV2)
    (node : PredicateAstNodeV2) : Prop :=
  PredicateAstPayloadV2.parse crc32c form.payload = .ok payload ∧ node ∈ payload.nodes ∧
    node.nodeId = payload.header.rootNodeId

/-- **A form accepts a row**: its root is TRUE there. -/
def FormAccepts (meaning : AstMeaning) (form : PredicateNormalFormWithPayloadV2)
    (row : FilterRow) : Prop :=
  ∃ payload node, FormRoot crc32c form payload node ∧
    NodeAccepts meaning state.lowering.entries payload form.payload node row

/-- The index attaches a form of the file to a predicate. -/
def Attaches (predicate : CovePredicate) (form : PredicateNormalFormWithPayloadV2) : Prop :=
  form ∈ state.predicateForms ∧ ∃ m, formMatch crc32c state form = some m ∧
    ((CoveragePlanningIndex.build crc32c state).forms.find? fun m =>
      m.matchesPredicate predicate) = some m

end

/-! ## Predicates of lowered filters -/

/-- A predicate that lowering makes on a table. -/
inductive LoweredPredicate (state : LoweringState) : CovePredicate → Prop where
  | null (i : Nat) (kind : NullPredicateKind) (column : LoweringColumn)
    (hcolumn : state.columns[i]? = some column) : LoweredPredicate state (.null i kind)
  | comparison (i : Nat) (column : LoweringColumn) (op : LowerOperator) (literal : QueryLiteral)
    (predicate : CovePredicate) (hcolumn : state.columns[i]? = some column)
    (h : columnLiteralPredicate i column.entry op literal.val = some predicate) :
    LoweredPredicate state predicate
  | membership (i : Nat) (column : LoweringColumn) (literals : List QueryLiteral)
    (predicate : CovePredicate) (hcolumn : state.columns[i]? = some column)
    (h : fileCodeInFilter i column.entry (literals.map Subtype.val) = some predicate) :
    LoweredPredicate state predicate

mutual

/-- The predicates of an expression. -/
def CovePredicateExpr.predicates : CovePredicateExpr → List CovePredicate
  | .atom predicate => [predicate]
  | .and exprs => predicatesOfAll exprs
  | .or exprs => predicatesOfAll exprs

def predicatesOfAll : List CovePredicateExpr → List CovePredicate
  | [] => []
  | expr :: exprs => expr.predicates ++ predicatesOfAll exprs

end

/-- The predicates of a filter. -/
def LoweredFilter.predicates (filter : LoweredFilter) : List CovePredicate :=
  filter.predicate.toList ++ filter.predicateExpr.toList.flatMap CovePredicateExpr.predicates

end Cove
