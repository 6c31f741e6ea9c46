import Cove.DataFusion.CoverageFormMeaning
import Cove.DataFusion.PredicateStands

/-!
# Forms that are faithful to their predicates

The index compares the column, the operator and the bytes of the literal. Whether the form
then says what the predicate says is also a matter of the tag of the literal, of the order of
the operands, and of whose operands they are.

- `AttachedSoundly`: what an attached form has to be.
- `Faithful`: what the form has to satisfy for that.
- `exists_value`: the payload of a lowered predicate is one of a value of its column.
- `equality_eval`, `extreme_iff`: **the rows a lowered predicate accepts**.
-/

namespace Cove

open Checked
open Ieee754 (F32 F64 binary64 partialCmpValues)
open ThreeValued (Truth)

/-! ## What a predicate tests for -/

/-- The operator of a predicate. -/
def predicateAtomOp : CovePredicate → CoverageAtomOp
  | .null _ kind => .fromNullKind kind
  | .numeric _ op _ => .fromNumericOp op
  | .fileCodeIn _ _ _ | .varBytesEq _ _ => .eq

/-- The canonical bytes of the literal of a predicate. -/
def predicatePayload (logical : CoveLogicalType) (physical : CovePhysicalKind) :
    CovePredicate → Option (List UInt8)
  | .null _ _ => none
  | .numeric _ _ literal => canonicalNumericLiteral logical literal
  | .fileCodeIn _ _ canonicalValues =>
    if canonicalValues.length = 1 then canonicalValues.head? else none
  | .varBytesEq _ literal => canonicalVarBytesLiteral logical physical literal

/-- **The index compares the column, the operator and the bytes of the literal.** -/
theorem matchesPredicate_eq {m : PredicateFormMatch} {predicate : CovePredicate}
    (h : m.matchesPredicate predicate = true) :
    m.columnIndex = predicateColumnIndex predicate ∧ m.op = predicateAtomOp predicate ∧
      m.literal = predicatePayload m.logical m.physical predicate := by
  cases predicate with
  | null i kind =>
    simp only [PredicateFormMatch.matchesPredicate, Bool.and_eq_true, beq_iff_eq,
      Option.isNone_iff_eq_none] at h
    exact ⟨h.1.1, h.2, h.1.2⟩
  | numeric i op «literal» =>
    simp only [PredicateFormMatch.matchesPredicate, Bool.and_eq_true, beq_iff_eq] at h
    exact ⟨h.1.1, h.1.2, h.2⟩
  | fileCodeIn i codes values =>
    simp only [PredicateFormMatch.matchesPredicate, Bool.and_eq_true, beq_iff_eq] at h
    obtain ⟨⟨⟨hi, hop⟩, hone⟩, hliteral⟩ := h
    exact ⟨hi, hop, hliteral.trans (if_pos hone).symm⟩
  | varBytesEq i «literal» =>
    simp only [PredicateFormMatch.matchesPredicate, Bool.and_eq_true, beq_iff_eq] at h
    exact ⟨h.1.1, h.1.2, h.2⟩

/-! ## What an attached form has to be -/

section

variable (columns : List ColumnEntry) (payload : PredicateAstPayloadV2)
  (rawPayload : List UInt8) (node : PredicateAstNodeV2)

/-- A node has the column among its operands. -/
def ReadsColumn (columnIndex : Nat) : Prop :=
  ∃ operand ∈ nodeOperands payload.operandRefs node, operand.operandKind = .columnOrPath ∧
    (columns.findIdx? fun column => column.columnId == operand.refId) = some columnIndex

/-- A node has the literal among its operands. -/
def OwnLiteral (literal : PredicateLiteralV2) : Prop :=
  literal ∈ payload.literals ∧ ∃ operand ∈ nodeOperands payload.operandRefs node,
    operand.operandKind = .literal ∧ operand.refId = literal.literalId

/-- A node tests for a value of the type, of the canonical bytes. -/
def TestsFor (logical : CoveLogicalType) (bytes : List UInt8) : Prop :=
  ∃ literal value, OwnLiteral payload node literal ∧ literal.logicalType = logical.code ∧
    LiteralDenotes rawPayload literal value ∧ value.encode = .ok bytes

end

section

variable (crc32c : List UInt8 → Nat) (state : FormPlanningState)

/-- **An attached form is about its predicate**: it is about the column and the literal of the
predicate, and it accepts each row the predicate accepts. -/
structure AttachedSoundly (predicate : CovePredicate)
    (form : PredicateNormalFormWithPayloadV2) : Prop where
  about : ∃ payload node column, FormRoot crc32c form payload node ∧
    state.lowering.columns[predicateColumnIndex predicate]? = some column ∧
    ReadsColumn state.lowering.entries payload node (predicateColumnIndex predicate) ∧
    ∀ bytes, predicatePayload column.entry.logical column.entry.physical predicate = some bytes →
      TestsFor payload form.payload node column.entry.logical bytes
  implied : ∀ meaning row, state.lowering.HasRow row → predicate.eval row = .tt →
    FormAccepts crc32c state meaning form row

end

/-! ## What the form has to satisfy -/

/-- The payload is that of a NaN. -/
def PayloadIsNaN (logical : CoveLogicalType) (bytes : List UInt8) : Prop :=
  match logical with
  | .float32 => (F32.mk (BitVec.ofNat 32 (LittleEndian.ofLe bytes))).widen = none
  | .float64 => (F64.mk (BitVec.ofNat 64 (LittleEndian.ofLe bytes))).isNaN = true
  | _ => False

/-- No number of the type is less. -/
def PredicateLiteral.IsLeast : PredicateLiteral → Prop
  | .int64 v => v = BitVec.intMin 64
  | .uint64 v => v = 0#64
  | .float64 v => v = F64.negInfinity

/-- No number of the type is greater. -/
def PredicateLiteral.IsGreatest : PredicateLiteral → Prop
  | .int64 v => v = BitVec.intMax 64
  | .uint64 v => v = BitVec.allOnes 64
  | .float64 v => v = F64.posInfinity

/-- Nothing lies strictly on the side of the literal that the operator asks for. -/
def PredicateLiteral.Extreme (op : NumericPredicateOp) (literal : PredicateLiteral) : Prop :=
  match op with
  | .eq => True
  | .lt | .ltEq => literal.IsLeast
  | .gt | .gtEq => literal.IsGreatest

/-- A predicate whose sides can be exchanged. -/
def CovePredicate.Symmetric : CovePredicate → Prop
  | .numeric _ op literal => literal.Extreme op
  | _ => True

section

variable (payload : PredicateAstPayloadV2) (rawPayload : List UInt8) (node : PredicateAstNodeV2)

/-- The column the index takes is an operand of the node. -/
def ColumnKept : Prop :=
  ∃ operand ∈ nodeOperands payload.operandRefs node, operand.operandKind = .columnOrPath ∧
    columnRefForNode payload node = some operand.refId

/-- The literal the index takes is that of an operand of the node, whose tag is one of the
type. -/
def LiteralKept (logical : CoveLogicalType) : Prop :=
  ∃ found literal, literalRefForNode payload node = some found ∧ OwnLiteral payload node literal ∧
    literal.logicalType = found.logicalType ∧
    literalBytes rawPayload literal = literalBytes rawPayload found ∧
    literal.valueTag ∈ logical.valueTags.map ValueTag.code

/-- The node has its column first, or the order does not matter. -/
def OrderKept (predicate : CovePredicate) : Prop :=
  (∃ left right, nodeOperands payload.operandRefs node = [left, right] ∧
    left.operandKind = .columnOrPath) ∨ predicate.Symmetric

end

/-- What a form has to satisfy to be about a predicate it matches. Booleans have one payload,
and a NaN equals nothing. -/
def Faithful (crc32c : List UInt8 → Nat) (state : FormPlanningState) (predicate : CovePredicate)
    (form : PredicateNormalFormWithPayloadV2) : Prop :=
  ∃ payload node column, FormRoot crc32c form payload node ∧
    state.lowering.columns[predicateColumnIndex predicate]? = some column ∧
    ColumnKept payload node ∧
    ∀ bytes, predicatePayload column.entry.logical column.entry.physical predicate = some bytes →
      LiteralKept payload form.payload node column.entry.logical ∧
        column.entry.logical ≠ .bool ∧ ¬ PayloadIsNaN column.entry.logical bytes ∧
        OrderKept payload node predicate

/-! ## Values of lowered predicates -/

variable {literal : PredicateLiteral}

variable {w i : Nat} {value : CanonicalValue} {row : FilterRow} {op : NumericPredicateOp}

section

variable {logical : CoveLogicalType} {physical : CovePhysicalKind} {bytes : List UInt8}

theorem plain_hasType {make : Int → CanonicalValue}
    (hl : plainInteger logical = some (make, w)) {v : Int}
    (hv : -2 ^ (8 * w - 1) ≤ v ∧ v < 2 ^ (8 * w - 1)) : (make v).HasType logical := by
  cases logical <;> cases hl <;> exact hv

theorem int_range (hw : IntegerWidth w) {n : Int}
    (h : (CanonicalValue.int w n).encode = .ok bytes) :
    -2 ^ (8 * w - 1) ≤ n ∧ n < 2 ^ (8 * w - 1) :=
  ((encodeI64Width_eq_ok hw).mp h).1

theorem uint_range (hw : IntegerWidth w) {n : Nat}
    (h : (CanonicalValue.uint w n).encode = .ok bytes) : n < 2 ^ (8 * w) :=
  ((encodeU64Width_eq_ok hw).mp h).1

/-- The value of a literal is one of the type, if it has a payload. -/
theorem literalValue_hasType {literal : LowerLiteral}
    (hrange : literal.InRange) (h : literalValue logical literal = .ok (some value))
    (hencode : value.encode = .ok bytes) : value.HasType logical := by
  cases logical with
  | int8 | int16 | int32 | int64 =>
    obtain ⟨n, -, rfl⟩ := literalValue_signed (by simp) h
    exact ⟨rfl, int_range (integerWidth_integerWidth _) hencode⟩
  | uint8 | uint16 | uint32 | uint64 =>
    obtain ⟨n, -, rfl⟩ := literalValue_unsigned (by simp) h
    exact ⟨rfl, uint_range (integerWidth_integerWidth _) hencode⟩
  | decimal64 | decimal128 | dateDays | timestampMicros | timestampNanos =>
    obtain ⟨n, -, rfl, hn⟩ := literalValue_plain rfl hrange h
    exact plain_hasType rfl hn
  | null | list | struct | map => cases literal <;> cases h
  | bool | float32 | float64 | utf8 | json | binary =>
    cases literal <;> cases h
    trivial
  | uuid =>
    cases literal with
    | utf8 s =>
      obtain ⟨u, -, heq⟩ := bind_eq_ok.mp h
      obtain rfl := Option.some.inj (Except.ok.inj heq)
      trivial
    | binary s =>
      unfold literalValue at h
      dsimp only at h
      split at h
      · obtain rfl := Option.some.inj (Except.ok.inj h)
        trivial
      · cases h
    | _ => cases h

/-- The value of a number. -/
theorem canonicalNumericLiteral_eq_some (h : canonicalNumericLiteral logical literal = some bytes) :
    ∃ value : CanonicalValue, value.HasType logical ∧ value.encode = .ok bytes ∧
      value.comparand = literal.comparand := by
  unfold canonicalNumericLiteral at h
  split at h
  · next v => exact ⟨.int 8 v.toInt, ⟨rfl, v.le_toInt, v.toInt_lt⟩, toOption_eq_some.mp h, rfl⟩
  · next v => exact ⟨.uint 8 v.toNat, ⟨rfl, v.isLt⟩, toOption_eq_some.mp h, rfl⟩
  · next v => exact ⟨.float64 v, trivial, toOption_eq_some.mp h, rfl⟩
  · cases h

/-- The number of a numeric predicate is not a NaN. -/
theorem numericLiteral_not_isNaN {literal : LowerLiteral} {v : PredicateLiteral}
    (h : numericLiteral literal = some v) {x : F64} (hx : v.normalized = .float64 x) :
    x.isNaN = false := by
  cases literal with
  | float64 y =>
    unfold numericLiteral at h
    dsimp only at h
    split at h
    · cases h
    next hnan =>
    obtain rfl := Option.some.inj h
    -- normalizing keeps the value
    obtain ⟨w, hw, hwv⟩ := normalized_float64 y
    obtain ⟨z, hz, hzv⟩ := normalized_float64 w
    rw [hw, hz] at hx
    obtain rfl := PredicateLiteral.float64.inj hx
    by_contra hxnan
    rw [Bool.not_eq_false, ← F64.value_eq_none_iff, hzv, hwv, F64.value_eq_none_iff] at hxnan
    exact hnan hxnan
  | int128 n =>
    unfold numericLiteral at h
    dsimp only at h
    split at h
    · rw [← Option.some.inj h] at hx
      cases hx
    · cases h
  | int64 n | uint64 n =>
    rw [← Option.some.inj h] at hx
    cases hx
  | null | boolean b | binary b | utf8 s => cases h

/-- What a lowered predicate is. -/
theorem LoweredPredicate.shape {state : LoweringState} {predicate : CovePredicate}
    {column : LoweringColumn} (h : LoweredPredicate state predicate)
    (hcolumn : state.columns[predicateColumnIndex predicate]? = some column) :
    (∃ i kind, predicate = .null i kind) ∨
    (∃ i op v, predicate = .numeric i op v ∧ ∀ x, v = .float64 x → x.isNaN = false) ∨
    (∃ i, ∃ literals : List QueryLiteral,
      fileCodeInFilter i column.entry (literals.map Subtype.val) = some predicate) ∨
    ∃ i, ∃ s : Str, predicate = .varBytesEq i s.bytes ∧ column.entry.logical = .utf8 := by
  have hmember : ∀ (i : Nat) (column' : LoweringColumn) (literals : List QueryLiteral),
      state.columns[i]? = some column' →
      fileCodeInFilter i column'.entry (literals.map Subtype.val) = some predicate →
      column' = column := by
    intro i column' literals hcolumn' hfilter
    have hi : predicateColumnIndex predicate = i := by
      unfold fileCodeInFilter at hfilter
      split at hfilter
      · cases hfilter
      split at hfilter
      · rw [← Option.some.inj hfilter]
        rfl
      · cases hfilter
    rw [hi, hcolumn'] at hcolumn
    exact Option.some.inj hcolumn
  cases h with
  | null i kind => exact .inl ⟨i, kind, rfl⟩
  | membership i column' literals _ hcolumn' h =>
    obtain rfl := hmember i column' literals hcolumn' h
    exact .inr (.inr (.inl ⟨i, literals, h⟩))
  | comparison i column' op value _ hcolumn' h =>
    unfold columnLiteralPredicate at h
    split at h
    · obtain ⟨v, hv, rfl⟩ := Option.map_eq_some_iff.mp h
      exact .inr (.inl ⟨i, _, _, rfl, fun _ hx => numericLiteral_not_isNaN hv hx⟩)
    · split at h
      · have hfilter : fileCodeInFilter i column'.entry ([value].map Subtype.val) =
            some predicate := h
        obtain rfl := hmember i column' [value] hcolumn' hfilter
        exact .inr (.inr (.inl ⟨i, [value], hfilter⟩))
      · cases h
    · split at h
      · next hutf8 =>
        split at h
        · next s hs =>
          obtain rfl := Option.some.inj h
          change state.columns[i]? = _ at hcolumn
          rw [hcolumn'] at hcolumn
          obtain rfl := Option.some.inj hcolumn
          exact .inr (.inr (.inr ⟨i, s, rfl, hutf8.2⟩))
        · cases h
      · cases h
    · cases h

end

/-! ## The rows a predicate accepts -/

theorem predicatePayload_fileCodeIn {logical : CoveLogicalType} {physical : CovePhysicalKind}
    {codes : FileCodes} {values : List (List UInt8)} {bytes : List UInt8}
    (h : predicatePayload logical physical (.fileCodeIn i codes values) = some bytes) :
    values = [bytes] := by
  unfold predicatePayload at h
  dsimp only at h
  split at h
  · next hone =>
    obtain ⟨value, rfl⟩ := List.length_eq_one_iff.mp hone
    rw [Option.some.inj h]
  · cases h

theorem predicatePayload_varBytesEq {physical : CovePhysicalKind} {s : Str} {bytes : List UInt8}
    (h : predicatePayload .utf8 physical (.varBytesEq i s.bytes) = some bytes) :
    bytes = lengthPrefixed s.bytes := by
  unfold predicatePayload canonicalVarBytesLiteral at h
  dsimp only at h
  split at h
  · rw [strFromUtf8, dif_pos s.valid] at h
    exact (Option.some.inj h).symm
  · next heq => cases heq
  · cases h

section

variable {state : LoweringState} {predicate : CovePredicate} {column : LoweringColumn}
  {bytes : List UInt8}

/-- **The payload of a lowered predicate is one of a value of its column.** -/
theorem LoweredPredicate.exists_value (h : LoweredPredicate state predicate)
    (hcolumn : state.columns[predicateColumnIndex predicate]? = some column)
    (hbytes : predicatePayload column.entry.logical column.entry.physical predicate =
      some bytes) :
    ∃ value : CanonicalValue, value.HasType column.entry.logical ∧ value.encode = .ok bytes := by
  rcases h.shape hcolumn with ⟨i, kind, rfl⟩ | ⟨i, op, v, rfl, -⟩ | ⟨i, literals, hfilter⟩ |
    ⟨i, s, rfl, hutf8⟩
  · cases hbytes
  · obtain ⟨value, htype, hencode, -⟩ := canonicalNumericLiteral_eq_some hbytes
    exact ⟨value, htype, hencode⟩
  · unfold fileCodeInFilter at hfilter
    split at hfilter
    · cases hfilter
    split at hfilter
    · next payloads hpayloads =>
      obtain rfl := Option.some.inj hfilter
      have hvalues : (payloads.insertionSort (· ≤ ·)).dedup = [bytes] :=
        predicatePayload_fileCodeIn hbytes
      have hmem : bytes ∈ (payloads.insertionSort (· ≤ ·)).dedup := by
        rw [hvalues]
        exact List.mem_singleton_self _
      rw [List.mem_dedup, List.mem_insertionSort] at hmem
      obtain ⟨_, hliteral, hcanonical⟩ := (mem_canonicalLiterals hpayloads).mp hmem
      obtain ⟨q, -, rfl⟩ := List.mem_map.mp hliteral
      obtain ⟨value, hvalue, hencode⟩ := canonicalLiteral_eq_some.mp hcanonical
      exact ⟨value, literalValue_hasType q.property hvalue hencode, hencode⟩
    · cases hfilter
  · rw [hutf8] at hbytes ⊢
    exact ⟨.utf8 s, trivial, congrArg _ (predicatePayload_varBytesEq hbytes).symm⟩

/-- An equality that is lowered to bytes. -/
def CovePredicate.IsByBytes : CovePredicate → Prop
  | .fileCodeIn _ _ _ | .varBytesEq _ _ => True
  | _ => False

/-- **An equality by bytes accepts one value**, on a column that is not boolean. -/
theorem equality_eval (hrow : state.HasRow row)
    (h : LoweredPredicate state predicate) (hkind : predicate.IsByBytes)
    (hcolumn : state.columns[predicateColumnIndex predicate]? = some column)
    (hbytes : predicatePayload column.entry.logical column.entry.physical predicate = some bytes)
    (hbool : column.entry.logical ≠ .bool)
    (htype : value.HasType column.entry.logical) (hencode : value.encode = .ok bytes) :
    predicate.eval row = .tt ↔ row (predicateColumnIndex predicate) = some (.scalar value) := by
  have htruth : ∀ b : Bool, Truth.ofBool b = .tt ↔ b = true := by decide
  cases predicate with
  | null | numeric => exact False.elim hkind
  | fileCodeIn i codes values =>
    obtain rfl := predicatePayload_fileCodeIn hbytes
    change state.columns[i]? = _ at hcolumn
    show CovePredicate.eval row _ = _ ↔ row i = _
    unfold CovePredicate.eval
    dsimp only
    cases hcell : row i with
    | none => simp
    | some cell =>
      have hcellType := hrow i column cell hcolumn hcell
      simp only [htruth, List.any_cons, List.any_nil, Bool.or_false, beq_iff_eq,
        Option.some.injEq]
      constructor
      · intro hpayload
        cases cell with
        | nested => cases hpayload
        | scalar other =>
          exact congrArg _
            (encode_inj hbool hcellType htype (toOption_eq_some.mp hpayload) hencode)
      · rintro rfl
        exact scalar_payload hencode
  | varBytesEq i text =>
    rcases h.shape hcolumn with ⟨_, _, heq⟩ | ⟨_, _, _, heq, -⟩ | ⟨_, _, hfilter⟩ |
      ⟨_, s, heq, hutf8⟩
    · cases heq
    · cases heq
    · unfold fileCodeInFilter at hfilter
      split at hfilter
      · cases hfilter
      · split at hfilter
        · cases hfilter
        · cases hfilter
    · obtain ⟨rfl, rfl⟩ := CovePredicate.varBytesEq.inj heq
      rw [hutf8] at hbytes htype
      obtain rfl := predicatePayload_varBytesEq hbytes
      change state.columns[i]? = _ at hcolumn
      show CovePredicate.eval row _ = _ ↔ row i = _
      unfold CovePredicate.eval
      dsimp only
      cases hcell : row i with
      | none => simp
      | some cell =>
        have hcellType := hrow i column cell hcolumn hcell
        rw [hutf8] at hcellType
        obtain ⟨u, rfl⟩ := hasType_utf8 hcellType
        obtain ⟨t, ht⟩ := hasType_utf8 (show CellValue.HasType .utf8 (.scalar value) from htype)
        obtain rfl := CellValue.scalar.inj ht
        obtain hbytes' : t.bytes = s.bytes := lengthPrefixed_injective (Except.ok.inj hencode)
        simp only [htruth, beq_iff_eq, Option.some.injEq]
        constructor
        · intro hu
          have hu' : u.bytes = s.bytes := Comparand.text.inj hu
          rw [Str.eq_of_bytes (hu'.trans hbytes'.symm)]
        · intro hu
          obtain rfl := CanonicalValue.utf8.inj (CellValue.scalar.inj hu)
          exact congrArg Comparand.text hbytes'

/-- A numeric predicate compares the numbers. -/
theorem numeric_eval :
    (CovePredicate.numeric i op literal).eval row = .tt ↔
      ∃ cell, row i = some cell ∧
        compareOrdered compareComparands cell.comparand op literal.comparand = true := by
  have htruth : ∀ b : Bool, Truth.ofBool b = .tt ↔ b = true := by decide
  unfold CovePredicate.eval
  dsimp only
  cases row i with
  | none => simp
  | some cell => simp [htruth]

end

/-! ## The sides of a comparison -/

theorem compareOrdered_numbers (a b : Int) (op : NumericPredicateOp) :
    compareOrdered compareComparands (.number (some a)) op (.number (some b)) = true ↔
      match op with
      | .eq => a = b
      | .lt => a < b
      | .ltEq => a ≤ b
      | .gt => b < a
      | .gtEq => b ≤ a := by
  have hcmp : compareComparands (.number (some a)) (.number (some b)) = some (compare a b) := rfl
  unfold compareOrdered
  rw [hcmp]
  rcases lt_trichotomy a b with h | rfl | h
  · rw [compare_lt_iff_lt.mpr h]
    cases op <;> simp <;> omega
  · rw [compare_eq_iff_eq.mpr rfl]
    cases op <;> simp
  · rw [compare_gt_iff_gt.mpr h]
    cases op <;> simp <;> omega

theorem compareOrdered_nan (op : NumericPredicateOp) (b : Option Int) :
    compareOrdered compareComparands (.number none) op (.number b) = false := by
  cases op <;> rfl

/-- The numbers of a type are in a range, both ends included. -/
structure NumberRange (logical : CoveLogicalType) (lo hi : Int) : Prop where
  number : ∀ cell : CellValue, cell.HasType logical → ∃ n, cell.comparand = .number n
  bounds : ∀ cell : CellValue, cell.HasType logical → ∀ n, cell.comparand = .number (some n) →
    lo ≤ n ∧ n ≤ hi
  least : ∃ cell : CellValue, cell.HasType logical ∧ cell.comparand = .number (some lo)
  greatest : ∃ cell : CellValue, cell.HasType logical ∧ cell.comparand = .number (some hi)

theorem numberRange_int64 :
    NumberRange .int64 (-2 ^ 63 * binary64.one) ((2 ^ 63 - 1) * binary64.one) := by
  have hone := binary64.one_pos
  refine ⟨?_, ?_, ⟨.scalar (.int 8 (-2 ^ 63)), ⟨rfl, by norm_num, by norm_num⟩, rfl⟩,
    ⟨.scalar (.int 8 (2 ^ 63 - 1)), ⟨rfl, by norm_num, by norm_num⟩, rfl⟩⟩
  · intro cell hcell
    obtain ⟨v, rfl, -⟩ := hasType_signed (by simp) hcell
    exact ⟨_, rfl⟩
  · intro cell hcell n hn
    obtain ⟨v, rfl, hlo, hhi⟩ := hasType_signed (by simp) hcell
    obtain rfl := Option.some.inj (Comparand.number.inj hn)
    change -2 ^ 63 ≤ v at hlo
    change v < 2 ^ 63 at hhi
    exact ⟨Int.mul_le_mul_of_nonneg_right hlo hone.le,
      Int.mul_le_mul_of_nonneg_right (Int.le_sub_one_of_lt hhi) hone.le⟩

theorem numberRange_uint64 : NumberRange .uint64 0 ((2 ^ 64 - 1) * binary64.one) := by
  have hone := binary64.one_pos
  refine ⟨?_, ?_, ⟨.scalar (.uint 8 0), ⟨rfl, by norm_num⟩, ?_⟩,
    ⟨.scalar (.uint 8 (2 ^ 64 - 1)), ⟨rfl, by norm_num⟩, rfl⟩⟩
  · intro cell hcell
    obtain ⟨v, rfl, -⟩ := hasType_unsigned (by simp) hcell
    exact ⟨_, rfl⟩
  · intro cell hcell n hn
    obtain ⟨v, rfl, hhi⟩ := hasType_unsigned (by simp) hcell
    obtain rfl := Option.some.inj (Comparand.number.inj hn)
    change v < 2 ^ 64 at hhi
    exact ⟨mul_nonneg (by omega) hone.le,
      Int.mul_le_mul_of_nonneg_right (by omega) hone.le⟩
  · show Comparand.number (some (0 * binary64.one)) = _
    rw [Int.zero_mul]

theorem numberRange_float64 :
    NumberRange .float64 (-(Ieee754.binary64.infinity : Int)) Ieee754.binary64.infinity := by
  refine ⟨?_, ?_, ⟨.scalar (.float64 F64.negInfinity), trivial, ?_⟩,
    ⟨.scalar (.float64 F64.posInfinity), trivial, ?_⟩⟩
  · intro cell hcell
    obtain ⟨v, rfl⟩ := hasType_float64 hcell
    exact ⟨_, rfl⟩
  · intro cell hcell n hn
    obtain ⟨v, rfl⟩ := hasType_float64 hcell
    exact F64.value_bounds (Comparand.number.inj hn)
  · exact congrArg Comparand.number F64.value_negInfinity
  · exact congrArg Comparand.number F64.value_posInfinity

/-- A literal a form can be matched with is a number of the range of its type. -/
theorem exists_numberRange {logical : CoveLogicalType}
    {bytes : List UInt8} (h : canonicalNumericLiteral logical literal = some bytes)
    (hnan : ∀ x, literal = .float64 x → x.isNaN = false) :
    ∃ lo hi l, NumberRange logical lo hi ∧ literal.comparand = .number (some l) ∧
      (literal.IsLeast ↔ l = lo) ∧ (literal.IsGreatest ↔ l = hi) := by
  unfold canonicalNumericLiteral at h
  split at h
  · next v =>
    refine ⟨_, _, _, numberRange_int64, rfl, ?_, ?_⟩
    · rw [integer_inj]
      exact ⟨fun hv => by rw [hv]; decide, fun hv => BitVec.eq_of_toInt_eq (hv.trans (by decide))⟩
    · rw [integer_inj]
      exact ⟨fun hv => by rw [hv]; decide, fun hv => BitVec.eq_of_toInt_eq (hv.trans (by decide))⟩
  · next v =>
    refine ⟨_, _, _, numberRange_uint64, rfl, ?_, ?_⟩
    · rw [← Int.zero_mul binary64.one, integer_inj]
      exact ⟨fun hv => by rw [hv]; decide,
        fun hv => BitVec.eq_of_toNat_eq (Int.ofNat_inj.mp (hv.trans (by decide)))⟩
    · rw [integer_inj]
      exact ⟨fun hv => by rw [hv]; decide,
        fun hv => BitVec.eq_of_toNat_eq (Int.ofNat_inj.mp (hv.trans (by decide)))⟩
  · next v =>
    obtain ⟨l, hl⟩ := F64.value_isSome_of_not_isNaN (hnan v rfl)
    refine ⟨_, _, l, numberRange_float64, congrArg Comparand.number hl, ?_, ?_⟩
    · constructor
      · intro hv
        rw [show v = F64.negInfinity from hv, F64.value_negInfinity] at hl
        exact (Option.some.inj hl).symm
      · intro hv
        rw [hv] at hl
        exact F64.eq_negInfinity hl
    · constructor
      · intro hv
        rw [show v = F64.posInfinity from hv, F64.value_posInfinity] at hl
        exact (Option.some.inj hl).symm
      · intro hv
        rw [hv] at hl
        exact F64.eq_posInfinity hl
  · cases h

/-- **The sides of a comparison can be exchanged exactly when its literal is extreme.** -/
theorem extreme_iff {logical : CoveLogicalType} {bytes : List UInt8}
    (h : canonicalNumericLiteral logical literal = some bytes)
    (hnan : ∀ x, literal = .float64 x → x.isNaN = false) :
    literal.Extreme op ↔ ∀ cell : CellValue, cell.HasType logical →
      compareOrdered compareComparands cell.comparand op literal.comparand = true →
      compareOrdered compareComparands literal.comparand op cell.comparand = true := by
  obtain ⟨lo, hi, l, hrange, hl, hleast, hgreatest⟩ := exists_numberRange h hnan
  obtain ⟨low, hlowType, hlow⟩ := hrange.least
  obtain ⟨high, hhighType, hhigh⟩ := hrange.greatest
  obtain ⟨value, htype, -, hvalue⟩ := canonicalNumericLiteral_eq_some h
  have hbounds := hrange.bounds (.scalar value) htype l (hvalue.trans hl)
  unfold PredicateLiteral.Extreme
  rw [hl]
  constructor
  · intro hextreme cell hcell hcmp
    obtain ⟨n, hn⟩ := hrange.number cell hcell
    cases n with
    | none =>
      rw [hn, compareOrdered_nan] at hcmp
      cases hcmp
    | some n =>
      have hcellBounds := hrange.bounds cell hcell n hn
      rw [hn, compareOrdered_numbers] at hcmp
      rw [hn, compareOrdered_numbers]
      cases op <;> simp only [hleast, hgreatest] at hcmp hextreme ⊢ <;> omega
  · intro hflip
    have hlower := hflip low hlowType
    have hupper := hflip high hhighType
    rw [hlow, compareOrdered_numbers, compareOrdered_numbers] at hlower
    rw [hhigh, compareOrdered_numbers, compareOrdered_numbers] at hupper
    cases op <;> simp only [hleast, hgreatest] at hlower hupper ⊢ <;> omega

end Cove
