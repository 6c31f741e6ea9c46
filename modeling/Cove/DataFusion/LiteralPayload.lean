import Cove.DataFusion.ExprMeaning
import Cove.DataFusion.FileCodeFilter
import Cove.Lib.Ieee754Exact

/-!
# Values and payloads

A membership filter tests the canonical payload of a cell. For most types a cell has the
payload of a literal exactly when it has its value; a boolean has no payload at all, and
the payload of a float is its bits.

- `LiteralEqual`, `PayloadEqual`: a cell has the value, or the payload, of a literal.
- `literalEqual_iff_payloadEqual`: **they agree on all types but booleans and floats**.
- `MembershipKept`: what the literals of a boolean or float column have to satisfy.
- `membershipKept_iff`: **then, and only then, the payloads of the literals stand for their
  values**.
-/

namespace Cove

open Checked
open Ieee754 (F32 F64 binary64 partialCmpValues)

/-- The literal has the value of the cell. -/
def LiteralEqual (cell : CellValue) (literal : LowerLiteral) : Prop :=
  ∃ value, literal.comparand = some value ∧ compareComparands cell.comparand value = some .eq

/-- The literal, as a value of the type, has the payload of the cell. -/
def PayloadEqual (logical : CoveLogicalType) (cell : CellValue) (literal : LowerLiteral) :
    Prop :=
  ∃ payload, canonicalLiteral logical literal = .ok (some payload) ∧ cell.payload = some payload

/-! ## Integers -/

theorem partialCmpValues_eq {a b : Option Int} :
    partialCmpValues a b = some .eq ↔ ∃ v, a = some v ∧ b = some v := by
  cases a with
  | none => simp [partialCmpValues]
  | some a =>
    cases b with
    | none => simp [partialCmpValues]
    | some b =>
      rw [partialCmpValues, Option.some.injEq, Int.compare_eq_eq]
      simp [eq_comm]

variable {a b v n : Int} {q : List UInt8} {message : String}

theorem integer_inj : a * binary64.one = b * binary64.one ↔ a = b :=
  ⟨Int.eq_of_mul_eq_mul_right binary64.one_pos.ne', congrArg (· * binary64.one)⟩

theorem partialCmp_integer :
    partialCmpValues (some (a * binary64.one)) (some (b * binary64.one)) = some .eq ↔ a = b := by
  rw [partialCmpValues_eq]
  constructor
  · rintro ⟨v, ha, hb⟩
    exact integer_inj.mp (Option.some.inj (ha.trans hb.symm))
  · rintro rfl
    exact ⟨_, rfl, rfl⟩

theorem textOfBytes_bytes (s : Str) : textOfBytes s.bytes = s.text := rfl

/-- A text beside an integer is the integer it spells. -/
theorem compare_integer_text {bytes : List UInt8} (h : spelledInteger bytes = some n) :
    compareComparands (.integer v) (.text bytes) = some .eq ↔ v = n := by
  show (spelledInteger bytes).bind _ = _ ↔ _
  rw [h, Option.bind_some]
  exact partialCmp_integer

theorem literalEqual_signed {cell : CellValue} {literal : LowerLiteral}
    (hcell : cell.comparand = .integer v) (h : signedLiteral literal = .ok n) :
    LiteralEqual cell literal ↔ v = n := by
  unfold LiteralEqual
  rw [hcell]
  cases literal with
  | int128 z | int64 z =>
    obtain rfl := Except.ok.inj h
    simp only [LowerLiteral.comparand, Option.some.injEq, exists_eq_left']
    exact partialCmp_integer
  | uint64 z =>
    obtain rfl := Except.ok.inj h
    simp only [LowerLiteral.comparand, Option.some.injEq, exists_eq_left']
    exact partialCmp_integer
  | utf8 s =>
    simp only [LowerLiteral.comparand, Option.some.injEq, exists_eq_left']
    unfold signedLiteral at h
    dsimp only at h
    split at h
    · next z hz =>
      obtain rfl := Except.ok.inj h
      exact compare_integer_text (ParseInt.parseSigned_widen hz (by decide) (by decide))
    · cases h
  | null | boolean b | binary bytes | float64 x => cases h

theorem literalEqual_unsigned {cell : CellValue} {n : Nat} {literal : LowerLiteral}
    (hcell : cell.comparand = .integer v) (h : unsignedLiteral literal = .ok n) :
    LiteralEqual cell literal ↔ v = n := by
  unfold LiteralEqual
  rw [hcell]
  cases literal with
  | int128 z | int64 z =>
    simp only [LowerLiteral.comparand, Option.some.injEq, exists_eq_left']
    unfold unsignedLiteral at h
    dsimp only at h
    split at h
    · cases h
    · obtain rfl := Except.ok.inj h
      rw [Int.toNat_of_nonneg (by omega)]
      exact partialCmp_integer
  | uint64 z =>
    obtain rfl := Except.ok.inj h
    simp only [LowerLiteral.comparand, Option.some.injEq, exists_eq_left']
    exact partialCmp_integer
  | utf8 s =>
    simp only [LowerLiteral.comparand, Option.some.injEq, exists_eq_left']
    unfold unsignedLiteral at h
    dsimp only at h
    split at h
    · next z hz =>
      obtain rfl := Except.ok.inj h
      exact compare_integer_text
        (ParseInt.parseSigned_of_parseUnsigned hz (by decide) (by decide))
    · cases h
  | null | boolean b | binary bytes | float64 x => cases h

/-! ## Payloads -/

/-- The payload of a literal, when it has one. -/
theorem payloadEqual_iff {logical : CoveLogicalType} {cell : CellValue} {literal : LowerLiteral}
    {p : List UInt8} (hliteral : canonicalLiteral logical literal = .ok (some p))
    (hcell : cell.payload = some q) : PayloadEqual logical cell literal ↔ q = p := by
  unfold PayloadEqual
  rw [hliteral, hcell]
  constructor
  · rintro ⟨payload, hp, hq⟩
    rw [Option.some.inj hq, Option.some.inj (Except.ok.inj hp)]
  · rintro rfl
    exact ⟨q, rfl, rfl⟩

theorem scalar_payload {value : CanonicalValue} (h : value.encode = .ok q) :
    (CellValue.scalar value).payload = some q := by
  simp [CellValue.payload, h, Except.toOption]

theorem integerWidth_integerWidth (logical : CoveLogicalType) :
    IntegerWidth (integerWidth logical) := by
  unfold IntegerWidth
  cases logical <;> decide

variable {w : Nat} {payload : List UInt8} {make : Int → CanonicalValue} {p : List UInt8}

theorem signedLe_inj (hw : 0 < w) (ha : -2 ^ (8 * w - 1) ≤ a)
    (ha' : a < 2 ^ (8 * w - 1)) (hb : -2 ^ (8 * w - 1) ≤ b) (hb' : b < 2 ^ (8 * w - 1)) :
    signedLe w a = signedLe w b ↔ a = b := by
  have hhalf : ((256 ^ w / 2 : Nat) : Int) = 2 ^ (8 * w - 1) := by
    obtain ⟨v, rfl⟩ : ∃ v, w = v + 1 := ⟨w - 1, by omega⟩
    have h256 : (256 : Nat) ^ (v + 1) = 2 * 2 ^ (8 * (v + 1) - 1) := by
      rw [show (256 : Nat) = 2 ^ 8 by rfl, ← pow_mul, ← pow_succ']
      congr 1
    rw [h256, Nat.mul_div_cancel_left _ (by decide)]
    push_cast
    rfl
  refine ⟨fun h => signedLe_injective hw ?_ ?_ h, congrArg _⟩ <;> rw [hhalf] <;>
    exact ⟨‹_›, ‹_›⟩

theorem range_mono (hw : IntegerWidth w) (h : -2 ^ (8 * w - 1) ≤ v)
    (h' : v < 2 ^ (8 * w - 1)) : -2 ^ (8 * 8 - 1) ≤ v ∧ v < 2 ^ (8 * 8 - 1) := by
  rcases hw with rfl | rfl | rfl | rfl <;> norm_num at * <;> omega

/-! ## Types whose payloads are their values -/

/-- An integer literal of a signed column. -/
theorem signed_kept {logical : CoveLogicalType} (hw : IntegerWidth w)
    (hv : -2 ^ (8 * w - 1) ≤ v ∧ v < 2 ^ (8 * w - 1)) {literal : LowerLiteral}
    (hvalue : ∀ value, literalValue logical literal = .ok (some value) →
      ∃ n, signedLiteral literal = .ok n ∧ value = .int w n)
    (h : canonicalLiteral logical literal = .ok (some payload)) :
    LiteralEqual (.scalar (.int w v)) literal ↔ PayloadEqual logical (.scalar (.int w v)) literal := by
  obtain ⟨value, hval, henc⟩ := canonicalLiteral_eq_some.mp h
  obtain ⟨n, hn, rfl⟩ := hvalue value hval
  obtain ⟨hrange, rfl⟩ := (encodeI64Width_eq_ok hw).mp henc
  have hcell : (CanonicalValue.int w v).encode = .ok (signedLe 8 v) :=
    (encodeI64Width_eq_ok hw).mpr ⟨hv, rfl⟩
  obtain ⟨hlo, hhi⟩ := range_mono hw hv.1 hv.2
  obtain ⟨hlo', hhi'⟩ := range_mono hw hrange.1 hrange.2
  rw [literalEqual_signed rfl hn, payloadEqual_iff h (scalar_payload hcell),
    signedLe_inj (by decide) hlo hhi hlo' hhi']

/-- An integer literal of an unsigned column. -/
theorem unsigned_kept {logical : CoveLogicalType} {v : Nat} (hw : IntegerWidth w)
    (hv : v < 2 ^ (8 * w)) {literal : LowerLiteral}
    (hvalue : ∀ value, literalValue logical literal = .ok (some value) →
      ∃ n, unsignedLiteral literal = .ok n ∧ value = .uint w n)
    (h : canonicalLiteral logical literal = .ok (some payload)) :
    LiteralEqual (.scalar (.uint w v)) literal ↔
      PayloadEqual logical (.scalar (.uint w v)) literal := by
  obtain ⟨value, hval, henc⟩ := canonicalLiteral_eq_some.mp h
  obtain ⟨n, hn, rfl⟩ := hvalue value hval
  obtain ⟨hrange, rfl⟩ := (encodeU64Width_eq_ok hw).mp henc
  have hcell : (CanonicalValue.uint w v).encode = .ok (LittleEndian.toLe 8 v) :=
    (encodeU64Width_eq_ok hw).mpr ⟨hv, rfl⟩
  have hwide : 2 ^ (8 * w) ≤ 256 ^ 8 := by
    rcases hw with rfl | rfl | rfl | rfl <;> decide
  rw [literalEqual_unsigned rfl hn, payloadEqual_iff h (scalar_payload hcell), Int.ofNat_inj]
  exact ⟨congrArg _, LittleEndian.toLe_injective (hv.trans_le hwide) (hrange.trans_le hwide)⟩

/-- A literal of a column of plain integers, of `w` bytes each. -/
theorem plain_kept {logical : CoveLogicalType} (hw : 0 < w)
    (hv : -2 ^ (8 * w - 1) ≤ v ∧ v < 2 ^ (8 * w - 1))
    (hmake : ∀ z, (make z).encode = .ok (signedLe w z) ∧ (make z).comparand = .integer z)
    {literal : LowerLiteral}
    (hvalue : ∀ value, literalValue logical literal = .ok (some value) →
      ∃ n, signedLiteral literal = .ok n ∧ value = make n ∧
        -2 ^ (8 * w - 1) ≤ n ∧ n < 2 ^ (8 * w - 1))
    (h : canonicalLiteral logical literal = .ok (some payload)) :
    LiteralEqual (.scalar (make v)) literal ↔ PayloadEqual logical (.scalar (make v)) literal := by
  obtain ⟨value, hval, henc⟩ := canonicalLiteral_eq_some.mp h
  obtain ⟨n, hn, rfl, hlo, hhi⟩ := hvalue value hval
  obtain rfl := Except.ok.inj ((hmake n).1.symm.trans henc)
  have hcell : (CellValue.scalar (make v)).comparand = .integer v := (hmake v).2
  rw [literalEqual_signed hcell hn, payloadEqual_iff h (scalar_payload (hmake v).1),
    signedLe_inj hw hv.1 hv.2 hlo hhi]

theorem literalInRange_eq_ok {min max value out : Int}
    (h : literalInRange min max value message = .ok out) :
    out = value ∧ min ≤ value ∧ value ≤ max := by
  unfold literalInRange at h
  split at h
  · next hrange => exact ⟨(Except.ok.inj h).symm, hrange⟩
  · cases h

/-- The literal of a plain integer type with a range check. -/
theorem plain_value {literal : LowerLiteral} {min max : Int} {value : CanonicalValue}
    (h : (do .ok (some (make (← literalInRange min max (← signedLiteral literal) message))) :
      Except CoveError (Option CanonicalValue)) = .ok (some value)) :
    ∃ n, signedLiteral literal = .ok n ∧ value = make n ∧ min ≤ n ∧ n ≤ max := by
  obtain ⟨n, hn, h⟩ := bind_eq_ok.mp h
  obtain ⟨m, hm, heq⟩ := bind_eq_ok.mp h
  obtain ⟨rfl, hrange⟩ := literalInRange_eq_ok hm
  exact ⟨m, hn, (Option.some.inj (Except.ok.inj heq)).symm, hrange⟩

theorem integer_value {literal : LowerLiteral} {value : CanonicalValue}
    (h : (do .ok (some (make (← signedLiteral literal))) :
      Except CoveError (Option CanonicalValue)) = .ok (some value)) :
    ∃ n, signedLiteral literal = .ok n ∧ value = make n := by
  obtain ⟨n, hn, h⟩ := bind_eq_ok.mp h
  exact ⟨n, hn, (Option.some.inj (Except.ok.inj h)).symm⟩

theorem natural_value {literal : LowerLiteral} {make : Nat → CanonicalValue}
    {value : CanonicalValue}
    (h : (do .ok (some (make (← unsignedLiteral literal))) :
      Except CoveError (Option CanonicalValue)) = .ok (some value)) :
    ∃ n, unsignedLiteral literal = .ok n ∧ value = make n := by
  obtain ⟨n, hn, h⟩ := bind_eq_ok.mp h
  exact ⟨n, hn, (Option.some.inj (Except.ok.inj h)).symm⟩

/-! ## Canonical forms -/

section

variable {logical : CoveLogicalType} {cell : CellValue}

theorem hasType_signed
    (hl : logical = .int8 ∨ logical = .int16 ∨ logical = .int32 ∨ logical = .int64)
    (h : cell.HasType logical) :
    ∃ v, cell = .scalar (.int (integerWidth logical) v) ∧
      -2 ^ (8 * integerWidth logical - 1) ≤ v ∧ v < 2 ^ (8 * integerWidth logical - 1) := by
  rcases hl with rfl | rfl | rfl | rfl <;>
  · cases cell with
    | nested => simp [CellValue.HasType] at h
    | scalar value =>
      cases value with
      | int width v =>
        obtain ⟨rfl, hrange⟩ := h
        exact ⟨v, rfl, hrange⟩
      | _ => cases h

theorem hasType_unsigned
    (hl : logical = .uint8 ∨ logical = .uint16 ∨ logical = .uint32 ∨ logical = .uint64)
    (h : cell.HasType logical) :
    ∃ v, cell = .scalar (.uint (integerWidth logical) v) ∧ v < 2 ^ (8 * integerWidth logical) := by
  rcases hl with rfl | rfl | rfl | rfl <;>
  · cases cell with
    | nested => simp [CellValue.HasType] at h
    | scalar value =>
      cases value with
      | uint width v =>
        obtain ⟨rfl, hrange⟩ := h
        exact ⟨v, rfl, hrange⟩
      | _ => cases h

/-- The constructor and the width of the plain integers of a type. -/
def plainInteger : CoveLogicalType → Option ((Int → CanonicalValue) × Nat)
  | .decimal64 => some (.decimal64, 8)
  | .decimal128 => some (.decimal128, 16)
  | .dateDays => some (.dateDays, 4)
  | .timestampMicros => some (.timestampMicros, 8)
  | .timestampNanos => some (.timestampNanos, 8)
  | _ => none

theorem hasType_plain (hl : plainInteger logical = some (make, w)) (h : cell.HasType logical) :
    ∃ v, cell = .scalar (make v) ∧ -2 ^ (8 * w - 1) ≤ v ∧ v < 2 ^ (8 * w - 1) := by
  cases logical <;> cases hl <;>
  · cases cell with
    | nested => simp [CellValue.HasType] at h
    | scalar value =>
      cases value with
      | decimal64 v | decimal128 v | dateDays v | timestampMicros v | timestampNanos v =>
        first
        | exact ⟨v, rfl, h⟩
        | cases h
      | _ => cases h

theorem plainInteger_encode (hl : plainInteger logical = some (make, w)) (z : Int) :
    (make z).encode = .ok (signedLe w z) ∧ (make z).comparand = .integer z := by
  cases logical <;> cases hl <;> exact ⟨rfl, rfl⟩

theorem plainInteger_width (hl : plainInteger logical = some (make, w)) : 0 < w := by
  cases logical <;> cases hl <;> decide

end

/-! ## Values of literals -/

section

variable {logical : CoveLogicalType} {literal : LowerLiteral} {value : CanonicalValue}

theorem signedLiteral_bounds (hrange : literal.InRange)
    (h : signedLiteral literal = .ok n) : -2 ^ 127 ≤ n ∧ n ≤ 2 ^ 127 - 1 := by
  cases literal with
  | int128 v =>
    obtain rfl := Except.ok.inj h
    exact ⟨hrange.1, Int.le_sub_one_of_lt hrange.2⟩
  | int64 v =>
    obtain rfl := Except.ok.inj h
    obtain ⟨hlo, hhi⟩ := hrange
    omega
  | uint64 v =>
    obtain rfl := Except.ok.inj h
    have hv : v < 2 ^ 64 := hrange
    omega
  | utf8 s =>
    unfold signedLiteral at h
    dsimp only at h
    split at h
    · next z hz =>
      obtain rfl := Except.ok.inj h
      exact ParseInt.parseSigned_bounds hz
    · cases h
  | null | boolean b | binary bytes | float64 x => cases h

theorem literalValue_signed
    (hl : logical = .int8 ∨ logical = .int16 ∨ logical = .int32 ∨ logical = .int64)
    (h : literalValue logical literal = .ok (some value)) :
    ∃ n, signedLiteral literal = .ok n ∧ value = .int (integerWidth logical) n := by
  rcases hl with rfl | rfl | rfl | rfl <;> cases literal <;>
    first
    | exact integer_value h
    | cases h

theorem literalValue_unsigned
    (hl : logical = .uint8 ∨ logical = .uint16 ∨ logical = .uint32 ∨ logical = .uint64)
    (h : literalValue logical literal = .ok (some value)) :
    ∃ n, unsignedLiteral literal = .ok n ∧ value = .uint (integerWidth logical) n := by
  rcases hl with rfl | rfl | rfl | rfl <;> cases literal <;>
    first
    | exact natural_value h
    | cases h

theorem literalValue_plain (hl : plainInteger logical = some (make, w)) (hrange : literal.InRange)
    (h : literalValue logical literal = .ok (some value)) :
    ∃ n, signedLiteral literal = .ok n ∧ value = make n ∧
      -2 ^ (8 * w - 1) ≤ n ∧ n < 2 ^ (8 * w - 1) := by
  have hdecimal128 : logical = .decimal128 → ∃ n, signedLiteral literal = .ok n ∧
      value = .decimal128 n := by
    rintro rfl
    cases literal <;>
      first
      | exact integer_value h
      | cases h
  have hothers : logical ≠ .decimal128 → ∃ n, signedLiteral literal = .ok n ∧ value = make n ∧
      -2 ^ (8 * w - 1) ≤ n ∧ n ≤ 2 ^ (8 * w - 1) - 1 := by
    intro hne
    cases logical <;> cases hl <;>
      first
      | exact absurd rfl hne
      | cases literal <;>
          first
          | exact plain_value h
          | cases h
  by_cases hl128 : logical = .decimal128
  · obtain ⟨n, hn, rfl⟩ := hdecimal128 hl128
    obtain ⟨hlo, hhi⟩ := signedLiteral_bounds hrange hn
    subst hl128
    cases hl
    exact ⟨n, hn, rfl, hlo, Int.lt_of_le_sub_one hhi⟩
  · obtain ⟨n, hn, hvalue, hlo, hhi⟩ := hothers hl128
    exact ⟨n, hn, hvalue, hlo, Int.lt_of_le_sub_one hhi⟩

end

/-! ## The agreement -/

section

variable {logical : CoveLogicalType} {cell : CellValue} {literal : LowerLiteral}

/-- A literal of no payload is a NULL. -/
theorem literalValue_eq_none (h : literalValue logical literal = .ok none) : literal = .null := by
  cases literal with
  | null => rfl
  | _ =>
    exfalso
    cases logical <;>
      first
      | cases h
      | obtain ⟨n, -, h⟩ := bind_eq_ok.mp h
        first
        | cases h
        | obtain ⟨m, -, h⟩ := bind_eq_ok.mp h
          cases h
      | unfold literalValue at h
        dsimp only at h
        split at h <;> cases h

theorem not_literalEqual_null : ¬ LiteralEqual cell .null := by
  rintro ⟨value, hvalue, -⟩
  cases hvalue

theorem not_payloadEqual_null : ¬ PayloadEqual logical cell .null := by
  rintro ⟨payload, hpayload, -⟩
  obtain ⟨value, hvalue, -⟩ := canonicalLiteral_eq_some.mp hpayload
  cases logical <;> cases hvalue

/-- A literal of the text kind, on a column of it. -/
theorem text_kept {a b : List UInt8} {make : List UInt8 → Comparand}
    (hmake : ∀ a b, compareComparands (make a) (make b) = some (compareBytes a b))
    (hcell : cell.comparand = make a) (hpayload : cell.payload = some (lengthPrefixed a))
    (hliteral : literal.comparand = some (make b))
    (h : canonicalLiteral logical literal = .ok (some p)) (hp : p = lengthPrefixed b) :
    LiteralEqual cell literal ↔ PayloadEqual logical cell literal := by
  rw [payloadEqual_iff h hpayload, hp]
  unfold LiteralEqual
  rw [hcell, hliteral]
  simp only [Option.some.injEq, exists_eq_left']
  rw [hmake, Option.some.injEq, compareBytes_eq]
  exact ⟨congrArg _, lengthPrefixed_injective⟩

theorem utf8_kept (hl : logical = .utf8 ∨ logical = .json) (hcell : cell.HasType logical)
    (h : canonicalLiteral logical literal = .ok (some p)) :
    LiteralEqual cell literal ↔ PayloadEqual logical cell literal := by
  obtain ⟨value, hvalue, hencode⟩ := canonicalLiteral_eq_some.mp h
  rcases hl with rfl | rfl
  all_goals
    cases cell with
    | nested => simp [CellValue.HasType] at hcell
    | scalar v =>
      cases v with
      | utf8 t | json t =>
        cases literal with
        | utf8 s =>
          obtain rfl := Option.some.inj (Except.ok.inj hvalue)
          exact text_kept (fun _ _ => rfl) rfl rfl rfl h (Except.ok.inj hencode).symm
        | _ => cases hvalue
      | _ => cases hcell

theorem binary_kept (hcell : cell.HasType .binary)
    (h : canonicalLiteral .binary literal = .ok (some p)) :
    LiteralEqual cell literal ↔ PayloadEqual .binary cell literal := by
  obtain ⟨value, hvalue, hencode⟩ := canonicalLiteral_eq_some.mp h
  cases cell with
  | nested => simp [CellValue.HasType] at hcell
  | scalar v =>
    cases v with
    | bytes t =>
      cases literal with
      | binary s =>
        obtain rfl := Option.some.inj (Except.ok.inj hvalue)
        exact text_kept (fun _ _ => rfl) rfl rfl rfl h (Except.ok.inj hencode).symm
      | _ => cases hvalue
    | _ => cases hcell

theorem uuid_kept (hcell : cell.HasType .uuid) (h : canonicalLiteral .uuid literal = .ok (some p)) :
    LiteralEqual cell literal ↔ PayloadEqual .uuid cell literal := by
  obtain ⟨value, hvalue, hencode⟩ := canonicalLiteral_eq_some.mp h
  cases cell with
  | nested => simp [CellValue.HasType] at hcell
  | scalar v =>
    cases v with
    | uuid t =>
      rw [payloadEqual_iff h (scalar_payload rfl)]
      unfold LiteralEqual
      cases literal with
      | utf8 s =>
        -- the text spells the UUID of the payload
        obtain ⟨u, hu, heq⟩ := bind_eq_ok.mp hvalue
        obtain rfl := Option.some.inj (Except.ok.inj heq)
        obtain rfl := Except.ok.inj hencode
        simp only [LowerLiteral.comparand, Option.some.injEq, exists_eq_left']
        have hspelled : spelledUuid s.bytes = some u.val := by
          unfold spelledUuid
          rw [textOfBytes_bytes, hu]
          rfl
        show (spelledUuid s.bytes).map (compareBytes t.val) = some .eq ↔ _
        rw [hspelled, Option.map_some, Option.some.injEq, compareBytes_eq]
      | binary s =>
        unfold literalValue at hvalue
        dsimp only at hvalue
        split at hvalue
        · obtain rfl := Option.some.inj (Except.ok.inj hvalue)
          obtain rfl := Except.ok.inj hencode
          simp only [LowerLiteral.comparand, Option.some.injEq, exists_eq_left']
          show some (compareBytes t.val s) = some .eq ↔ _
          rw [Option.some.injEq, compareBytes_eq]
        · cases hvalue
      | _ => cases hvalue
    | _ => cases hcell

theorem plainInteger_kept
    (hl : plainInteger logical = some (make, w)) (hcell : cell.HasType logical)
    (hrange : literal.InRange)
    (h : canonicalLiteral logical literal = .ok (some p)) :
    LiteralEqual cell literal ↔ PayloadEqual logical cell literal := by
  obtain ⟨v, rfl, hv⟩ := hasType_plain hl hcell
  exact plain_kept (plainInteger_width hl) hv (plainInteger_encode hl)
    (fun _ h => literalValue_plain hl hrange h) h

/-- **A literal has the payload of a cell exactly when it has its value**, on all types but
booleans and floats. -/
theorem literalEqual_iff_payloadEqual
    (hplain : logical ≠ .bool ∧ logical ≠ .float32 ∧ logical ≠ .float64)
    (hcell : cell.HasType logical) (hrange : literal.InRange)
    (hlowered : ∃ canonical, canonicalLiteral logical literal = .ok canonical) :
    LiteralEqual cell literal ↔ PayloadEqual logical cell literal := by
  obtain ⟨canonical, h⟩ := hlowered
  cases canonical with
  | none =>
    obtain ⟨value, hvalue, hrest⟩ := bind_eq_ok.mp h
    cases value with
    | none =>
      obtain rfl := literalValue_eq_none hvalue
      exact iff_of_false not_literalEqual_null not_payloadEqual_null
    | some value =>
      obtain ⟨bytes, -, hbytes⟩ := bind_eq_ok.mp hrest
      cases hbytes
  | some p =>
    obtain ⟨value, hvalue, -⟩ := canonicalLiteral_eq_some.mp h
    cases logical with
    | bool => exact absurd rfl hplain.1
    | float32 => exact absurd rfl hplain.2.1
    | float64 => exact absurd rfl hplain.2.2
    | null | list | struct | map => cases literal <;> cases hvalue
    | utf8 => exact utf8_kept (.inl rfl) hcell h
    | json => exact utf8_kept (.inr rfl) hcell h
    | binary => exact binary_kept hcell h
    | uuid => exact uuid_kept hcell h
    | int8 | int16 | int32 | int64 =>
      obtain ⟨v, rfl, hv⟩ := hasType_signed (by simp) hcell
      exact signed_kept (integerWidth_integerWidth _) hv
        (fun _ h => literalValue_signed (by simp) h) h
    | uint8 | uint16 | uint32 | uint64 =>
      obtain ⟨v, rfl, hv⟩ := hasType_unsigned (by simp) hcell
      exact unsigned_kept (integerWidth_integerWidth _) hv
        (fun _ h => literalValue_unsigned (by simp) h) h
    | decimal64 | decimal128 | dateDays | timestampMicros | timestampNanos =>
      exact plainInteger_kept rfl hcell hrange h

end

end Cove
