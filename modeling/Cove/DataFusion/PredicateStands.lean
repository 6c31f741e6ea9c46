import Cove.DataFusion.MembershipKept

/-!
# Predicates and the comparisons they stand for

A predicate stands for a truth when it is TRUE wherever that is, and on no other row when the
scan counts it exact.

- `compareComparands_swap`: comparisons in the other order.
- `numericLiteral_comparand`: the number of a numeric predicate.
- `TestKept`: the literals of a membership test stand for their values.
- `fileCodeIn_stands`, `columnLiteral_stands`: **the predicates of memberships and of
  comparisons stand for them**.
-/

namespace Cove

open Ieee754 (F32 F64 binary64 partialCmpValues)
open ThreeValued (Truth)

/-! ## Comparisons -/

theorem partialCmpValues_swap (a b : Option Int) :
    partialCmpValues b a = (partialCmpValues a b).map Ordering.swap := by
  cases a with
  | none => cases b <;> rfl
  | some a =>
    cases b with
    | none => rfl
    | some b =>
      show some (compare b a) = some (compare a b).swap
      rw [Int.compare_swap]

theorem compareBytes_swap (a b : List UInt8) : compareBytes b a = (compareBytes a b).swap := by
  unfold compareBytes
  rcases lt_trichotomy a b with h | rfl | h
  · rw [if_neg h.ne', if_neg h.not_gt, if_neg h.ne, if_pos h]
    rfl
  · simp
  · rw [if_neg h.ne, if_pos h, if_neg h.ne', if_neg h.not_gt]
    rfl

theorem compareComparands_swap (a b : Comparand) :
    compareComparands b a = (compareComparands a b).map Ordering.swap := by
  cases a <;> cases b <;> try rfl
  case truth.truth a b => cases a <;> cases b <;> rfl
  case number.number a b => exact partialCmpValues_swap a b
  case text.text a b | binary.binary a b | uuid.uuid a b | uuid.binary a b | binary.uuid a b =>
    exact congrArg some (compareBytes_swap a b)
  case number.text a t =>
    show (spelledInteger t).bind _ = ((spelledInteger t).bind _).map _
    cases spelledInteger t with
    | none => rfl
    | some n => exact partialCmpValues_swap a _
  case text.number t b =>
    show (spelledInteger t).bind _ = ((spelledInteger t).bind _).map _
    cases spelledInteger t with
    | none => rfl
    | some n => exact partialCmpValues_swap _ b
  case uuid.text a t =>
    show (spelledUuid t).map _ = ((spelledUuid t).map _).map _
    cases spelledUuid t with
    | none => rfl
    | some u => exact congrArg some (compareBytes_swap a u)
  case text.uuid t b =>
    show (spelledUuid t).map _ = ((spelledUuid t).map _).map _
    cases spelledUuid t with
    | none => rfl
    | some u => exact congrArg some (compareBytes_swap u b)

/-- A comparison with its sides exchanged. -/
theorem compareOrdered_flip (a b : Comparand) (op : LowerOperator) :
    compareOrdered compareComparands b (numericOp (flipOp op)) a =
      compareOrdered compareComparands a (numericOp op) b := by
  unfold compareOrdered
  rw [compareComparands_swap a b]
  cases op <;> rcases compareComparands a b with _ | (_ | _ | _) <;> rfl

theorem compareSql_flip (a b : Option Comparand) (op : LowerOperator) :
    compareSql b (flipOp op) a = compareSql a op b := by
  cases a with
  | none => cases b <;> rfl
  | some a =>
    cases b with
    | none => rfl
    | some b => exact congrArg Truth.ofBool (compareOrdered_flip a b op)

theorem compareSql_eq_tt {a b : Option Comparand} :
    compareSql a .eq b = .tt ↔
      ∃ x y, a = some x ∧ b = some y ∧ compareComparands x y = some .eq := by
  cases a with
  | none => simp [compareSql]
  | some x =>
    cases b with
    | none => simp [compareSql]
    | some y =>
      show Truth.ofBool (compareComparands x y == some .eq) = .tt ↔ _
      cases h : compareComparands x y == some .eq <;> simp_all [Truth.ofBool]

/-! ## Numbers -/

theorem normalized_float64 (v : F64) :
    ∃ w, (PredicateLiteral.float64 v).normalized = .float64 w ∧ w.value = v.value := by
  by_cases hv : v.value = some 0
  · exact ⟨⟨0#64⟩, if_pos hv, Ieee754.F64.value_zero.trans hv.symm⟩
  · exact ⟨v, if_neg hv, rfl⟩

variable {literal : LowerLiteral} {truth : Truth} {literals : List LowerLiteral}
  {entry : ColumnEntry}

/-- **The number of a numeric predicate has the value of its literal.** -/
theorem numericLiteral_comparand (hrange : literal.InRange)
    {p : PredicateLiteral} (h : numericLiteral literal = some p) :
    literal.comparand = some p.normalized.comparand := by
  have hint : ∀ v : Int, -2 ^ 63 ≤ v → v < 2 ^ 63 → (BitVec.ofInt 64 v).toInt = v := by
    intro v hlo hhi
    exact BitVec.toInt_ofInt_eq_self (by decide) hlo hhi
  cases literal with
  | int128 v =>
    unfold numericLiteral at h
    dsimp only at h
    split at h
    · next hv =>
      obtain rfl := Option.some.inj h
      show some (Comparand.integer v) = some (.integer (BitVec.ofInt 64 v).toInt)
      rw [hint v hv.1 hv.2]
    · cases h
  | int64 v =>
    obtain rfl := Option.some.inj h
    show some (Comparand.integer v) = some (.integer (BitVec.ofInt 64 v).toInt)
    rw [hint v hrange.1 hrange.2]
  | uint64 v =>
    obtain rfl := Option.some.inj h
    show some (Comparand.integer v) = some (.integer (BitVec.ofNat 64 v).toNat)
    rw [BitVec.toNat_ofNat, Nat.mod_eq_of_lt hrange]
  | float64 v =>
    unfold numericLiteral at h
    dsimp only at h
    split at h
    · cases h
    · obtain rfl := Option.some.inj h
      obtain ⟨w, hw, hvalue⟩ := normalized_float64 v
      obtain ⟨w', hw', hvalue'⟩ := normalized_float64 w
      rw [hw, hw']
      exact congrArg (some ∘ Comparand.number) (hvalue'.trans hvalue).symm
  | null | boolean b | binary bytes | utf8 s => cases h

/-! ## Predicates -/

/-- A membership test on a column: the literals stand for their values, if the test is
lowered at all. -/
def TestKept (state : LoweringState) (name : Text) (literals : List QueryLiteral) : Prop :=
  ∀ i column, topLevelColumnIndex state (.column name) = some i → state.columns[i]? = some column →
    Lowered column.entry (literals.map Subtype.val) →
      MembershipKept state.Promotes column.entry.logical (literals.map Subtype.val)

/-- A predicate stands for a truth on a row: it is TRUE where that is, and nowhere else when
it is exact. -/
structure Stands (state : LoweringState) (row : FilterRow) (truth : Truth)
    (predicate : CovePredicate) : Prop where
  kept : truth = .tt → predicate.eval row = .tt
  exact : predicateExactness state predicate = .fullRowPredicateExact →
    predicate.eval row = .tt → truth = .tt

variable {predicate : CovePredicate}

theorem Stands.of_eq {state : LoweringState} {row : FilterRow}
    (h : predicate.eval row = .tt ↔ truth = .tt) :
    Stands state row truth predicate := ⟨h.mpr, fun _ => h.mp⟩

section

variable {state : LoweringState} {row : FilterRow} {i : Nat} {column : LoweringColumn}

theorem fileCodeIn_eval (h : fileCodeInFilter i entry literals = some predicate) :
    predicate.eval row = .tt ↔
      ∃ cell, row i = some cell ∧ ∃ literal ∈ literals, PayloadEqual entry.logical cell literal := by
  unfold fileCodeInFilter at h
  split at h
  · cases h
  split at h
  · next payloads hpayloads =>
    obtain rfl := Option.some.inj h
    unfold pruningFileCodeInWithCanonical CovePredicate.eval
    dsimp only
    cases hrow : row i with
    | none => simp
    | some cell =>
      have htruth : ∀ b : Bool, Truth.ofBool b = .tt ↔ b = true := by decide
      simp only [htruth, List.any_eq_true, List.mem_dedup, List.mem_insertionSort,
        Option.some.injEq, exists_eq_left', beq_iff_eq]
      constructor
      · rintro ⟨payload, hmem, hcell⟩
        obtain ⟨literal, hliteral, hcanonical⟩ := (mem_canonicalLiterals hpayloads).mp hmem
        exact ⟨literal, hliteral, payload, hcanonical, hcell⟩
      · rintro ⟨literal, hliteral, payload, hcanonical, hcell⟩
        exact ⟨payload, (mem_canonicalLiterals hpayloads).mpr ⟨literal, hliteral, hcanonical⟩,
          hcell⟩
  · cases h

/-- An exact membership that is TRUE somewhere is in files that let it be exact. -/
theorem promotes_of_exact (h : fileCodeInFilter i entry literals = some predicate)
    (hexact : predicateExactness state predicate = .fullRowPredicateExact)
    (heval : predicate.eval row = .tt) : state.Promotes := by
  unfold fileCodeInFilter at h
  split at h
  · cases h
  split at h
  · next payloads hpayloads =>
    obtain rfl := Option.some.inj h
    unfold pruningFileCodeInWithCanonical at hexact heval
    generalize hvalues : (payloads.insertionSort (· ≤ ·)).dedup = values at hexact heval
    have hne : values.isEmpty = false := by
      cases values with
      | nil =>
        unfold CovePredicate.eval at heval
        dsimp only at heval
        split at heval <;> cases heval
      | cons => rfl
    unfold predicateExactness at hexact
    dsimp only at hexact
    rw [hne] at hexact
    split at hexact
    · cases hexact
    split at hexact
    · cases hexact
    split at hexact
    · cases hexact
    next hredaction =>
    split at hexact
    · cases hexact
    next hlookup =>
    intro file hfile
    simp only [List.any_eq_true, not_exists, not_and, Bool.not_eq_true] at hredaction
    refine ⟨hredaction file hfile, ?_⟩
    simp only [Bool.not_false, Bool.true_and, List.any_eq_true, not_exists, not_and,
      Bool.not_eq_true, Bool.not_eq_false'] at hlookup
    exact hlookup file hfile
  · cases h

/-- The truth of a membership. -/
theorem evalMember_literals {meaning : Text → FilterRow → Option Comparand}
    {value : Option Comparand} {literals : List QueryLiteral} :
    evalMember meaning state row value (literals.map .literal) = .tt ↔
      ∃ literal ∈ literals, compareSql value .eq literal.val.comparand = .tt := by
  induction literals with
  | nil => simp [evalMember]
  | cons literal literals ih =>
    rw [List.map_cons, evalMember, ThreeValued.Truth.or_eq_tt_iff, ih, List.exists_mem_cons_iff]
    rfl

theorem compareSql_literal {cell : Option CellValue} :
    compareSql (cell.map CellValue.comparand) .eq literal.comparand = .tt ↔
      ∃ v, cell = some v ∧ LiteralEqual v literal := by
  rw [compareSql_eq_tt]
  constructor
  · rintro ⟨x, y, hx, hy, heq⟩
    obtain ⟨v, hv, rfl⟩ := Option.map_eq_some_iff.mp hx
    exact ⟨v, hv, y, hy, heq⟩
  · rintro ⟨v, rfl, y, hy, heq⟩
    exact ⟨_, y, rfl, hy, heq⟩

/-- **A membership filter stands for its membership**, when the literals are kept. -/
theorem fileCodeIn_stands (hrow : state.HasRow row) (hcolumn : state.columns[i]? = some column)
    {literals : List QueryLiteral}
    (h : fileCodeInFilter i column.entry (literals.map Subtype.val) = some predicate)
    (hkept : MembershipKept state.Promotes column.entry.logical (literals.map Subtype.val))
    (htruth : truth = .tt ↔
      ∃ literal ∈ literals, compareSql ((row i).map CellValue.comparand) .eq
        literal.val.comparand = .tt) :
    Stands state row truth predicate := by
  have hlowered := (fileCodeInFilter_isSome.mp ⟨predicate, h⟩).2
  have hrange : ∀ literal ∈ literals.map Subtype.val, literal.InRange := by
    intro literal hmem
    obtain ⟨q, -, rfl⟩ := List.mem_map.mp hmem
    exact q.property
  have hstand := (membershipKept_iff hrange hlowered).mp hkept
  have hvalue : truth = .tt ↔ ∃ cell, row i = some cell ∧
      ∃ literal ∈ literals.map Subtype.val, LiteralEqual cell literal := by
    rw [htruth]
    constructor
    · rintro ⟨literal, hmem, hliteral⟩
      obtain ⟨cell, hcell, heq⟩ := compareSql_literal.mp hliteral
      exact ⟨cell, hcell, _, List.mem_map_of_mem hmem, heq⟩
    · rintro ⟨cell, hcell, _, hmem, heq⟩
      obtain ⟨literal, hliteral, rfl⟩ := List.mem_map.mp hmem
      exact ⟨literal, hliteral, compareSql_literal.mpr ⟨cell, hcell, heq⟩⟩
  constructor
  · intro htt
    obtain ⟨cell, hcell, hliteral⟩ := hvalue.mp htt
    exact (fileCodeIn_eval h).mpr ⟨cell, hcell,
      (hstand cell (hrow i column cell hcolumn hcell)).1 hliteral⟩
  · intro hexact htt
    obtain ⟨cell, hcell, hliteral⟩ := (fileCodeIn_eval h).mp htt
    exact hvalue.mpr ⟨cell, hcell, (hstand cell (hrow i column cell hcolumn hcell)).2
      (promotes_of_exact h hexact htt) hliteral⟩

theorem hasType_utf8 {cell : CellValue} (h : cell.HasType .utf8) :
    ∃ s, cell = .scalar (.utf8 s) := by
  cases cell with
  | nested => simp [CellValue.HasType] at h
  | scalar value =>
    cases value with
    | utf8 s => exact ⟨s, rfl⟩
    | _ => cases h

/-- **The predicate of a comparison stands for it.** -/
theorem columnLiteral_stands (hrow : state.HasRow row)
    (hcolumn : state.columns[i]? = some column) {op : LowerOperator} {literal : QueryLiteral}
    (h : columnLiteralPredicate i column.entry op literal.val = some predicate)
    (hkept : op = .eq → Lowered column.entry [literal.val] →
      MembershipKept state.Promotes column.entry.logical [literal.val]) :
    Stands state row
      (compareSql ((row i).map CellValue.comparand) op literal.val.comparand) predicate := by
  unfold columnLiteralPredicate at h
  split at h
  · -- numbers: the predicate has the number of the literal
    obtain ⟨p, hp, rfl⟩ := Option.map_eq_some_iff.mp h
    rw [numericLiteral_comparand literal.property hp]
    refine Stands.of_eq ?_
    unfold CovePredicate.eval
    dsimp only
    cases row i <;> exact Iff.rfl
  · -- dictionary codes: an equality is a membership among one
    split at h
    · next hop =>
      subst hop
      have hfilter : fileCodeInFilter i column.entry ([literal].map Subtype.val) =
          some predicate := h
      refine fileCodeIn_stands hrow hcolumn hfilter
        (hkept rfl (fileCodeInFilter_isSome.mp ⟨predicate, h⟩)) ?_
      simp
    · cases h
  · -- texts: both sides are the bytes of a string
    split at h
    · next hutf8 =>
      obtain ⟨rfl, hlogical⟩ := hutf8
      split at h
      · next s hs =>
        obtain rfl := Option.some.inj h
        refine Stands.of_eq ?_
        unfold CovePredicate.eval
        dsimp only
        rw [compareSql_literal]
        cases hcell : row i with
        | none => simp
        | some cell =>
          have htype := hrow i column cell hcolumn hcell
          rw [hlogical] at htype
          obtain ⟨t, rfl⟩ := hasType_utf8 htype
          rw [hs]
          have hequal : LiteralEqual (.scalar (.utf8 t)) (.utf8 s) ↔ t.bytes = s.bytes := by
            unfold LiteralEqual
            simp only [LowerLiteral.comparand, Option.some.injEq, exists_eq_left']
            show some (compareBytes t.bytes s.bytes) = some .eq ↔ _
            rw [Option.some.injEq, compareBytes_eq]
          simp only [Option.some.injEq, exists_eq_left', hequal]
          show Truth.ofBool (Comparand.text t.bytes == .text s.bytes) = .tt ↔ _
          by_cases hbytes : t.bytes = s.bytes
          · rw [hbytes]
            simp [Truth.ofBool]
          · rw [beq_eq_false_iff_ne.mpr fun heq => hbytes (Comparand.text.inj heq)]
            exact iff_of_false (by decide) hbytes
      · cases h
    · cases h
  · cases h

end

end Cove
