import Cove.DataFusion.LiteralPayload

/-!
# Memberships by payload

A membership filter is kept by a list of literals when a cell has the payload of one of
them exactly when it has the value of one. Where the filter is not promoted, only the values
have to be found again.

- `LoweringState.Promotes`: the files let a membership filter be exact.
- `MembershipKept`: what the literals of a boolean or float column have to satisfy.
- `membershipKept_iff`: **then, and only then, the payloads of the literals stand for their
  values**.
-/

namespace Cove

open Checked
open Ieee754 (F32 F64 Format)

/-- No file is redacted, and each looks up the codes of payloads. -/
def LoweringState.Promotes (state : LoweringState) : Prop :=
  ∀ file ∈ state.files, file.hasRedaction = false ∧ file.hasReverseLookup = true

instance (state : LoweringState) : Decidable state.Promotes :=
  inferInstanceAs (Decidable (∀ file ∈ state.files, _))

/-- What the literals of a membership filter have to satisfy. Booleans have one payload. The
two zeros of a float have one value and two payloads, a NaN has a payload and no value, and
the value of a literal may be lost in a narrower float. -/
def MembershipKept (promotes : Prop) (logical : CoveLogicalType) (literals : List LowerLiteral) :
    Prop :=
  match logical with
  | .bool => promotes → (.boolean true ∈ literals ↔ .boolean false ∈ literals)
  | .float64 =>
    ((∃ v, .float64 v ∈ literals ∧ v.value = some 0) →
      .float64 ⟨0#64⟩ ∈ literals ∧ .float64 ⟨0x8000000000000000#64⟩ ∈ literals) ∧
    (promotes → ∀ v, .float64 v ∈ literals → v.isNaN = false)
  | .float32 =>
    ((∃ v, .float64 v ∈ literals ∧ v.value = some 0) →
      (∃ v, .float64 v ∈ literals ∧ v.toF32 = ⟨0#32⟩) ∧
        ∃ v, .float64 v ∈ literals ∧ v.toF32 = ⟨0x80000000#32⟩) ∧
    (promotes → ∀ v, .float64 v ∈ literals →
      ∃ x, v.toF32.widen = some x ∧ ∃ v', .float64 v' ∈ literals ∧ v'.value = some x)
  | _ => True

/-- The values of the literals are found by their payloads, and, if `promotes`, nothing
else is. -/
def PayloadsStandFor (promotes : Prop) (logical : CoveLogicalType)
    (literals : List LowerLiteral) : Prop :=
  ∀ cell : CellValue, cell.HasType logical →
    ((∃ literal ∈ literals, LiteralEqual cell literal) →
      ∃ literal ∈ literals, PayloadEqual logical cell literal) ∧
    (promotes → (∃ literal ∈ literals, PayloadEqual logical cell literal) →
      ∃ literal ∈ literals, LiteralEqual cell literal)

variable {cell : CellValue} {logical : CoveLogicalType}

variable {literal : LowerLiteral} {l : F64}

section

variable {promotes : Prop} {literals : List LowerLiteral}

/-! ## Booleans -/

theorem hasType_bool (h : cell.HasType .bool) :
    ∃ b, cell = .scalar (.bool b) := by
  cases cell with
  | nested => simp [CellValue.HasType] at h
  | scalar value =>
    cases value with
    | bool b => exact ⟨b, rfl⟩
    | _ => cases h

/-- The literals of a boolean column are booleans and NULLs. -/
theorem eq_boolean_of_lowered (h : ∃ canonical, canonicalLiteral .bool literal = .ok canonical) :
    literal = .null ∨ ∃ b, literal = .boolean b := by
  obtain ⟨canonical, h⟩ := h
  obtain ⟨value, hvalue, -⟩ := bind_eq_ok.mp h
  cases literal with
  | null => exact .inl rfl
  | boolean b => exact .inr ⟨b, rfl⟩
  | _ => cases hvalue

theorem literalEqual_boolean {a b : Bool} :
    LiteralEqual (.scalar (.bool a)) (.boolean b) ↔ a = b := by
  unfold LiteralEqual
  simp only [LowerLiteral.comparand, Option.some.injEq, exists_eq_left']
  cases a <;> cases b <;> decide

theorem payloadEqual_boolean {a b : Bool} :
    PayloadEqual .bool (.scalar (.bool a)) (.boolean b) := ⟨[], rfl, rfl⟩

theorem payloadsStandFor_bool
    (hlowered : ∀ literal ∈ literals, ∃ c, canonicalLiteral .bool literal = .ok c) :
    MembershipKept promotes .bool literals ↔ PayloadsStandFor promotes .bool literals := by
  have hvalue : ∀ a, (∃ literal ∈ literals, LiteralEqual (.scalar (.bool a)) literal) ↔
      .boolean a ∈ literals := by
    intro a
    constructor
    · rintro ⟨literal, hmem, heq⟩
      rcases eq_boolean_of_lowered (hlowered literal hmem) with rfl | ⟨b, rfl⟩
      · exact absurd heq not_literalEqual_null
      · rwa [literalEqual_boolean.mp heq]
    · intro hmem
      exact ⟨_, hmem, literalEqual_boolean.mpr rfl⟩
  have hpayload : ∀ a, (∃ literal ∈ literals, PayloadEqual .bool (.scalar (.bool a)) literal) ↔
      ∃ b, .boolean b ∈ literals := by
    intro a
    constructor
    · rintro ⟨literal, hmem, heq⟩
      rcases eq_boolean_of_lowered (hlowered literal hmem) with rfl | ⟨b, rfl⟩
      · exact absurd heq not_payloadEqual_null
      · exact ⟨b, hmem⟩
    · rintro ⟨b, hmem⟩
      exact ⟨_, hmem, payloadEqual_boolean⟩
  constructor
  · intro hkept cell hcell
    obtain ⟨a, rfl⟩ := hasType_bool hcell
    rw [hvalue, hpayload]
    refine ⟨fun hmem => ⟨a, hmem⟩, fun hpromotes => ?_⟩
    rintro ⟨b, hmem⟩
    -- with one boolean among the literals the other is there too
    have hboth := hkept hpromotes
    cases a <;> cases b
    · exact hmem
    · exact hboth.mp hmem
    · exact hboth.mpr hmem
    · exact hmem
  · intro hstand hpromotes
    have hback : ∀ a, (∃ b, .boolean b ∈ literals) → .boolean a ∈ literals := by
      intro a hb
      rw [← hvalue]
      refine (hstand (.scalar (.bool a)) trivial).2 hpromotes ?_
      rwa [hpayload]
    exact ⟨fun h => hback false ⟨_, h⟩, fun h => hback true ⟨_, h⟩⟩

/-! ## Floats -/

/-- The literals of a float column are floats and NULLs. -/
theorem eq_float_of_lowered (hl : logical = .float32 ∨ logical = .float64)
    (h : ∃ canonical, canonicalLiteral logical literal = .ok canonical) :
    literal = .null ∨ ∃ v, literal = .float64 v := by
  obtain ⟨canonical, h⟩ := h
  obtain ⟨value, hvalue, -⟩ := bind_eq_ok.mp h
  cases literal with
  | null => exact .inl rfl
  | float64 v => exact .inr ⟨v, rfl⟩
  | _ => rcases hl with rfl | rfl <;> cases hvalue

theorem exists_float_iff (hl : logical = .float32 ∨ logical = .float64)
    (hlowered : ∀ literal ∈ literals, ∃ c, canonicalLiteral logical literal = .ok c)
    {P : LowerLiteral → Prop} (hnull : ¬ P .null) :
    (∃ literal ∈ literals, P literal) ↔ ∃ v, .float64 v ∈ literals ∧ P (.float64 v) := by
  constructor
  · rintro ⟨literal, hmem, hp⟩
    rcases eq_float_of_lowered hl (hlowered literal hmem) with rfl | ⟨v, rfl⟩
    · exact absurd hp hnull
    · exact ⟨v, hmem, hp⟩
  · rintro ⟨v, hmem, hp⟩
    exact ⟨_, hmem, hp⟩

theorem hasType_float64 (h : cell.HasType .float64) :
    ∃ v, cell = .scalar (.float64 v) := by
  cases cell with
  | nested => simp [CellValue.HasType] at h
  | scalar value =>
    cases value with
    | float64 v => exact ⟨v, rfl⟩
    | _ => cases h

theorem hasType_float32 (h : cell.HasType .float32) :
    ∃ v, cell = .scalar (.float32 v) := by
  cases cell with
  | nested => simp [CellValue.HasType] at h
  | scalar value =>
    cases value with
    | float32 v => exact ⟨v, rfl⟩
    | _ => cases h

theorem literalEqual_float64 {v : F64} :
    LiteralEqual (.scalar (.float64 v)) (.float64 l) ↔
      ∃ x, v.value = some x ∧ l.value = some x := by
  unfold LiteralEqual
  simp only [LowerLiteral.comparand, Option.some.injEq, exists_eq_left']
  exact partialCmpValues_eq

theorem literalEqual_float32 {v : F32} :
    LiteralEqual (.scalar (.float32 v)) (.float64 l) ↔
      ∃ x, v.widen = some x ∧ l.value = some x := by
  unfold LiteralEqual
  simp only [LowerLiteral.comparand, Option.some.injEq, exists_eq_left']
  exact partialCmpValues_eq

theorem payloadEqual_float64 {v : F64} :
    PayloadEqual .float64 (.scalar (.float64 v)) (.float64 l) ↔ v = l := by
  rw [payloadEqual_iff (p := LittleEndian.toLe 8 l.bits.toNat)
    (q := LittleEndian.toLe 8 v.bits.toNat) rfl rfl]
  constructor
  · intro h
    have hbits := LittleEndian.toLe_injective v.bits.isLt l.bits.isLt h
    exact congrArg F64.mk (BitVec.eq_of_toNat_eq hbits)
  · rintro rfl
    rfl

theorem payloadEqual_float32 {v : F32} :
    PayloadEqual .float32 (.scalar (.float32 v)) (.float64 l) ↔ v = l.toF32 := by
  rw [payloadEqual_iff (p := LittleEndian.toLe 4 l.toF32.bits.toNat)
    (q := LittleEndian.toLe 4 v.bits.toNat) rfl rfl]
  constructor
  · intro h
    have hbits := LittleEndian.toLe_injective v.bits.isLt l.toF32.bits.isLt h
    exact congrArg F32.mk (BitVec.eq_of_toNat_eq hbits)
  · rintro rfl
    rfl

theorem payloadsStandFor_float64
    (hlowered : ∀ literal ∈ literals, ∃ c, canonicalLiteral .float64 literal = .ok c) :
    MembershipKept promotes .float64 literals ↔ PayloadsStandFor promotes .float64 literals := by
  have hvalue : ∀ v, (∃ literal ∈ literals, LiteralEqual (.scalar (.float64 v)) literal) ↔
      ∃ l, .float64 l ∈ literals ∧ ∃ x, v.value = some x ∧ l.value = some x := by
    intro v
    rw [exists_float_iff (.inr rfl) hlowered not_literalEqual_null]
    simp only [literalEqual_float64]
  have hpayload : ∀ v, (∃ literal ∈ literals, PayloadEqual .float64 (.scalar (.float64 v))
      literal) ↔ .float64 v ∈ literals := by
    intro v
    rw [exists_float_iff (.inr rfl) hlowered not_payloadEqual_null]
    simp only [payloadEqual_float64, exists_eq_right']
  constructor
  · rintro ⟨hzero, hnan⟩ cell hcell
    obtain ⟨v, rfl⟩ := hasType_float64 hcell
    rw [hvalue, hpayload]
    refine ⟨?_, fun hpromotes hmem => ?_⟩
    · rintro ⟨l, hmem, x, hv, hl⟩
      by_cases hx : x = 0
      · subst hx
        obtain ⟨hpos, hneg⟩ := hzero ⟨l, hmem, hl⟩
        rcases F64.value_eq_zero_iff.mp hv with rfl | rfl
        · exact hpos
        · exact hneg
      · rwa [F64.eq_of_value hx hv hl]
    · obtain ⟨x, hx⟩ := F64.value_isSome_of_not_isNaN (hnan hpromotes v hmem)
      exact ⟨v, hmem, x, hx, hx⟩
  · intro hstand
    refine ⟨?_, fun hpromotes v hmem => ?_⟩
    · rintro ⟨l, hmem, hl⟩
      have hfound : ∀ v : F64, v.value = some 0 → .float64 v ∈ literals := by
        intro v hv
        have h := (hstand (.scalar (.float64 v)) trivial).1
        rw [hvalue, hpayload] at h
        exact h ⟨l, hmem, 0, hv, hl⟩
      exact ⟨hfound _ (F64.value_eq_zero_iff.mpr (.inl rfl)),
        hfound _ (F64.value_eq_zero_iff.mpr (.inr rfl))⟩
    · have h := (hstand (.scalar (.float64 v)) trivial).2 hpromotes
      rw [hvalue, hpayload] at h
      obtain ⟨-, -, x, hx, -⟩ := h hmem
      exact (Format.value_eq_some hx).1

theorem payloadsStandFor_float32
    (hlowered : ∀ literal ∈ literals, ∃ c, canonicalLiteral .float32 literal = .ok c) :
    MembershipKept promotes .float32 literals ↔ PayloadsStandFor promotes .float32 literals := by
  have hvalue : ∀ v, (∃ literal ∈ literals, LiteralEqual (.scalar (.float32 v)) literal) ↔
      ∃ l, .float64 l ∈ literals ∧ ∃ x, v.widen = some x ∧ l.value = some x := by
    intro v
    rw [exists_float_iff (.inl rfl) hlowered not_literalEqual_null]
    simp only [literalEqual_float32]
  have hpayload : ∀ v, (∃ literal ∈ literals, PayloadEqual .float32 (.scalar (.float32 v))
      literal) ↔ ∃ l, .float64 l ∈ literals ∧ l.toF32 = v := by
    intro v
    rw [exists_float_iff (.inl rfl) hlowered not_payloadEqual_null]
    simp only [payloadEqual_float32, eq_comm]
  constructor
  · rintro ⟨hzero, hnarrow⟩ cell hcell
    obtain ⟨v, rfl⟩ := hasType_float32 hcell
    rw [hvalue, hpayload]
    refine ⟨?_, ?_⟩
    · rintro ⟨l, hmem, x, hv, hl⟩
      by_cases hx : x = 0
      · subst hx
        obtain ⟨hpos, hneg⟩ := hzero ⟨l, hmem, hl⟩
        rcases F32.widen_eq_zero_iff.mp hv with rfl | rfl
        · exact hpos
        · exact hneg
      · exact ⟨l, hmem, F64.toF32_of_widen hx hl hv⟩
    · rintro hpromotes ⟨l, hmem, rfl⟩
      obtain ⟨x, hx, l', hmem', hl'⟩ := hnarrow hpromotes l hmem
      exact ⟨l', hmem', x, hx, hl'⟩
  · intro hstand
    refine ⟨?_, fun hpromotes l hmem => ?_⟩
    · rintro ⟨l, hmem, hl⟩
      have hfound : ∀ v : F32, v.widen = some 0 → ∃ l, .float64 l ∈ literals ∧ l.toF32 = v := by
        intro v hv
        have h := (hstand (.scalar (.float32 v)) trivial).1
        rw [hvalue, hpayload] at h
        exact h ⟨l, hmem, 0, hv, hl⟩
      exact ⟨hfound _ (F32.widen_eq_zero_iff.mpr (.inl rfl)),
        hfound _ (F32.widen_eq_zero_iff.mpr (.inr rfl))⟩
    · have h := (hstand (.scalar (.float32 l.toF32)) trivial).2 hpromotes
      rw [hvalue, hpayload] at h
      obtain ⟨l', hmem', x, hx, hl'⟩ := h ⟨l, hmem, rfl⟩
      exact ⟨x, hx, l', hmem', hl'⟩

/-! ## All types -/

/-- **A membership is kept exactly when payloads stand for values.** -/
theorem membershipKept_iff (hrange : ∀ literal ∈ literals, literal.InRange)
    (hlowered : ∀ literal ∈ literals, ∃ c, canonicalLiteral logical literal = .ok c) :
    MembershipKept promotes logical literals ↔ PayloadsStandFor promotes logical literals := by
  by_cases hbool : logical = .bool
  · subst hbool
    exact payloadsStandFor_bool hlowered
  by_cases h32 : logical = .float32
  · subst h32
    exact payloadsStandFor_float32 hlowered
  by_cases h64 : logical = .float64
  · subst h64
    exact payloadsStandFor_float64 hlowered
  refine iff_of_true ?_ fun cell hcell => ?_
  · cases logical <;> trivial
  · have heq : ∀ literal ∈ literals,
        (LiteralEqual cell literal ↔ PayloadEqual logical cell literal) := fun literal hmem =>
      literalEqual_iff_payloadEqual ⟨hbool, h32, h64⟩ hcell (hrange literal hmem)
        (hlowered literal hmem)
    constructor
    · rintro ⟨literal, hmem, h⟩
      exact ⟨literal, hmem, (heq literal hmem).mp h⟩
    · rintro - ⟨literal, hmem, h⟩
      exact ⟨literal, hmem, (heq literal hmem).mpr h⟩

end

end Cove
