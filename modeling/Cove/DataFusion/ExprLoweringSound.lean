import Cove.DataFusion.PredicateStands

/-!
# Lowered filters keep the rows

A lowered filter is TRUE wherever its expression is, and the filters of an expression that
is lowered as a whole, all of them exact, are TRUE on no other row, provided that the
literals of each membership test stand for their values.

- `LowerExpr.memberships`: the membership tests of an expression.
- `lowerAtomFilter_stands`: the filter of an atom stands for it.
- `Lowers`, `lowerFiltersInto_lowers`: the filters a step of the lowering adds stand for its
  expression.
- `lowerFilters_sound_iff`: **the filters stand for their expressions exactly when each
  membership is kept**.
-/

namespace Cove

open ThreeValued (Truth)

/-! ## Atoms -/

/-- The membership tests of an expression that is not a conjunction or a disjunction. -/
def LowerExpr.atomMemberships : LowerExpr → List (Text × List QueryLiteral)
  | .binary (.column name) .eq (.literal value) => [(name, [value])]
  | .binary (.literal value) .eq (.column name) => [(name, [value])]
  | .inList (.column name) list false => (listLiterals list).toList.map fun literals =>
      (name, literals)
  | _ => []

mutual

/-- The membership tests of an expression: the column and the literals of each. -/
def LowerExpr.memberships : LowerExpr → List (Text × List QueryLiteral)
  | .and children => membershipsOfAll children
  | .or children => membershipsOfAll children
  | expr => expr.atomMemberships

def membershipsOfAll : List LowerExpr → List (Text × List QueryLiteral)
  | [] => []
  | child :: children => child.memberships ++ membershipsOfAll children

end

variable {left right : LowerExpr} {op : LowerOperator} {display : String} {p : CovePredicate}
  {filter : LoweredFilter}

variable {list : List LowerExpr} {literal : QueryLiteral} {lowering : FilterLowering}
  {predicate : CovePredicate} {cell : CellValue}

section

variable (meaning : Text → FilterRow → Option Comparand) {state : LoweringState} {row : FilterRow}

variable {i : Nat} {name : Text}

theorem topLevelColumnIndex_eq_some {expr : LowerExpr}
    (h : topLevelColumnIndex state expr = some i) : ∃ name, expr = .column name := by
  cases expr with
  | column name => exact ⟨name, rfl⟩
  | _ => cases h

theorem listLiterals_eq_some {literals : List QueryLiteral}
    (h : listLiterals list = some literals) : list = literals.map .literal := by
  induction list generalizing literals with
  | nil =>
    obtain rfl := Option.some.inj h
    rfl
  | cons item list ih =>
    cases item with
    | «literal» literal =>
      obtain ⟨rest, hrest, rfl⟩ := Option.map_eq_some_iff.mp h
      rw [ih hrest]
      rfl
    | _ => cases h

theorem eval_binary :
    (LowerExpr.binary left op right).eval meaning state row =
      ofTruth (compareSql (left.eval meaning state row) op (right.eval meaning state row)) := by
  rw [LowerExpr.eval]

/-- The value of a column of the table. -/
theorem eval_column (h : topLevelColumnIndex state (.column name) = some i) :
    (LowerExpr.column name).eval meaning state row = (row i).map CellValue.comparand := by
  rw [LowerExpr.eval, h]
  rfl

theorem ofPredicate_eq {predicate : Option CovePredicate}
    (h : (LoweredFilter.ofPredicate predicate display).useKind ≠ .unsupported) :
    ∃ p, predicate = some p ∧ LoweredFilter.ofPredicate predicate display = .pruning p display := by
  cases predicate with
  | none => exact absurd rfl h
  | some p => exact ⟨p, rfl, rfl⟩

theorem classifyNullFilter_eq {input : LowerExpr} {kind : NullPredicateKind}
    (h : (classifyNullFilter state input kind display).useKind ≠ .unsupported) :
    ∃ i, topLevelColumnIndex state input = some i ∧
      classifyNullFilter state input kind display = .pruning (.null i kind) display := by
  obtain ⟨p, hp, heq⟩ := ofPredicate_eq h
  obtain ⟨i, hi, hp⟩ := Option.bind_eq_some_iff.mp hp
  obtain ⟨column, -, hp⟩ := Option.bind_eq_some_iff.mp hp
  refine ⟨i, hi, heq.trans ?_⟩
  split at hp
  · cases hp
  split at hp
  · cases hp
  rw [← Option.some.inj hp]

/-- The predicate of a comparison of a column with a literal stands for it. -/
theorem classifyColumnLiteral_stands (hrow : state.HasRow row)
    (hi : topLevelColumnIndex state (.column name) = some i)
    (hkept : op = .eq → TestKept state name [literal])
    (h : (classifyColumnLiteral state i op literal.val display).useKind ≠ .unsupported) :
    ∃ p, classifyColumnLiteral state i op literal.val display = .pruning p display ∧
      Stands state row (truthOf ((LowerExpr.binary (.column name) op (.literal literal)).eval
        meaning state row)) p := by
  obtain ⟨p, hp, heq⟩ := ofPredicate_eq h
  obtain ⟨column, hcolumn, hp⟩ := Option.bind_eq_some_iff.mp hp
  refine ⟨p, heq, ?_⟩
  rw [LowerExpr.eval, truthOf_ofTruth, eval_column meaning hi, LowerExpr.eval]
  exact columnLiteral_stands hrow hcolumn hp fun hop => hkept hop i column hi hcolumn

theorem columnLiteralBinary_eq_some {op' : LowerOperator}
    (h : columnLiteralBinary state left op right = some (i, literal, op')) :
    ∃ name, left = .column name ∧ right = .literal literal ∧ op' = op ∧
      topLevelColumnIndex state (.column name) = some i := by
  obtain ⟨j, hj, hright⟩ := Option.bind_eq_some_iff.mp h
  obtain ⟨name, rfl⟩ := topLevelColumnIndex_eq_some hj
  cases right with
  | «literal» literal' =>
    obtain ⟨rfl, rfl, rfl⟩ : j = i ∧ literal' = literal ∧ op = op' := by
      simpa using Option.some.inj hright
    exact ⟨name, rfl, rfl, rfl, hj⟩
  | _ => cases hright

/-- **The predicate of a comparison stands for it, in either order of its operands.** -/
theorem classifyBinaryFilter_stands (hrow : state.HasRow row)
    (hkept : ∀ t ∈ (LowerExpr.binary left op right).atomMemberships, TestKept state t.1 t.2)
    (h : (classifyBinaryFilter state left op right display).useKind ≠ .unsupported) :
    ∃ p, classifyBinaryFilter state left op right display = .pruning p display ∧
      Stands state row (truthOf ((LowerExpr.binary left op right).eval meaning state row)) p := by
  unfold classifyBinaryFilter at h ⊢
  cases hleft : columnLiteralBinary state left op right with
  | some found =>
    obtain ⟨i, literal, op'⟩ := found
    obtain ⟨name, rfl, rfl, rfl, hi⟩ := columnLiteralBinary_eq_some hleft
    simp only [hleft] at h ⊢
    refine classifyColumnLiteral_stands meaning hrow hi ?_ h
    rintro rfl
    refine hkept (name, [literal]) ?_
    rw [LowerExpr.atomMemberships]
    exact List.mem_singleton_self _
  | none =>
    simp only [hleft] at h ⊢
    cases hright : columnLiteralBinary state right (flipOp op) left with
    | some found =>
      obtain ⟨i, literal, op'⟩ := found
      obtain ⟨name, rfl, rfl, rfl, hi⟩ := columnLiteralBinary_eq_some hright
      simp only [hright] at h ⊢
      -- the operands are exchanged, and so is the operator
      have hflip : (LowerExpr.binary (.literal literal) op (.column name)).eval meaning state row =
          (LowerExpr.binary (.column name) (flipOp op) (.literal literal)).eval meaning state
            row := by
        rw [eval_binary, eval_binary, compareSql_flip]
      rw [hflip]
      refine classifyColumnLiteral_stands meaning hrow hi ?_ h
      intro hop
      have heq : op = .eq := by
        cases op <;> first | rfl | cases hop
      subst heq
      refine hkept (name, [literal]) ?_
      rw [LowerExpr.atomMemberships]
      exact List.mem_singleton_self _
    | none =>
      simp only [hright] at h
      exact absurd rfl h

/-- The predicate of a list of literals stands for the membership. -/
theorem classifyInListFilter_stands (hrow : state.HasRow row) {expr : LowerExpr}
    (hkept : ∀ t ∈ (LowerExpr.inList expr list false).atomMemberships, TestKept state t.1 t.2)
    (h : (classifyInListFilter state expr list display).useKind ≠ .unsupported) :
    ∃ p, classifyInListFilter state expr list display = .pruning p display ∧
      Stands state row (truthOf ((LowerExpr.inList expr list false).eval meaning state row)) p := by
  obtain ⟨p, hp, heq⟩ := ofPredicate_eq h
  obtain ⟨i, hi, hcolumns⟩ := Option.bind_eq_some_iff.mp hp
  obtain ⟨column, hcolumn, hlist⟩ := Option.bind_eq_some_iff.mp hcolumns
  obtain ⟨literals, hliterals, hfilter⟩ := Option.bind_eq_some_iff.mp hlist
  obtain ⟨name, rfl⟩ := topLevelColumnIndex_eq_some hi
  have htest : TestKept state name literals := by
    refine hkept (name, literals) ?_
    rw [LowerExpr.atomMemberships, hliterals]
    exact List.mem_singleton_self _
  refine ⟨p, heq, fileCodeIn_stands hrow hcolumn hfilter
    (htest i column hi hcolumn (fileCodeInFilter_isSome.mp ⟨p, hfilter⟩)) ?_⟩
  rw [LowerExpr.eval, eval_column meaning hi, listLiterals_eq_some hliterals]
  rw [if_neg Bool.false_ne_true, truthOf_ofTruth]
  exact evalMember_literals

theorem promote_pruning :
    promoteFilterExactness state (.pruning p display) =
      { LoweredFilter.pruning p display with
        useKind :=
          match predicateExactness state p with
          | .fullRowPredicateExact => .fullRowPredicateExact
          | .pruningOnly => .pruningOnly } := rfl

theorem promote_supported (h : (promoteFilterExactness state filter).useKind ≠ .unsupported) :
    filter.useKind ≠ .unsupported := by
  intro hfilter
  unfold promoteFilterExactness at h
  rw [if_pos hfilter] at h
  exact h hfilter

/-- A filter of one predicate, and whether it is exact. -/
structure IsAtom (state : LoweringState) (filter : LoweredFilter) (p : CovePredicate) : Prop where
  expr : filter.predicateExpr = some (.atom p)
  exact : filter.useKind = .fullRowPredicateExact →
    predicateExactness state p = .fullRowPredicateExact

theorem isAtom_promote
    (h : filter = .pruning p display) : IsAtom state (promoteFilterExactness state filter) p := by
  subst h
  rw [promote_pruning]
  refine ⟨rfl, ?_⟩
  dsimp only
  cases predicateExactness state p with
  | pruningOnly => exact nofun
  | fullRowPredicateExact => exact fun _ => rfl

/-- **The filter of an atom stands for it.** -/
theorem lowerAtomFilter_stands (hrow : state.HasRow row) {expr : LowerExpr}
    (hkept : ∀ t ∈ expr.atomMemberships, TestKept state t.1 t.2)
    (h : (lowerAtomFilter state expr display).useKind ≠ .unsupported) :
    ∃ p, IsAtom state (lowerAtomFilter state expr display) p ∧
      Stands state row (truthOf (expr.eval meaning state row)) p := by
  have hsupported := promote_supported h
  cases expr with
  | isNull input =>
    obtain ⟨i, hi, heq⟩ := classifyNullFilter_eq hsupported
    obtain ⟨name, rfl⟩ := topLevelColumnIndex_eq_some hi
    refine ⟨_, isAtom_promote heq, Stands.of_eq ?_⟩
    rw [LowerExpr.eval, eval_column meaning hi, Option.isNone_map]
    rfl
  | isNotNull input =>
    obtain ⟨i, hi, heq⟩ := classifyNullFilter_eq hsupported
    obtain ⟨name, rfl⟩ := topLevelColumnIndex_eq_some hi
    refine ⟨_, isAtom_promote heq, Stands.of_eq ?_⟩
    rw [LowerExpr.eval, eval_column meaning hi, Option.isSome_map]
    rfl
  | binary left op right =>
    obtain ⟨p, heq, hstands⟩ := classifyBinaryFilter_stands meaning hrow hkept hsupported
    exact ⟨p, isAtom_promote heq, hstands⟩
  | inList expr list negated =>
    cases negated with
    | true => exact absurd rfl hsupported
    | false =>
      obtain ⟨p, heq, hstands⟩ := classifyInListFilter_stands meaning hrow hkept hsupported
      exact ⟨p, isAtom_promote heq, hstands⟩
  | column | «literal» | and | or | between | unsupported => exact absurd rfl hsupported

/-! ## The lowering -/

/-- The filters that a step of the lowering adds stand for a truth on the row, if it does not
fall back. -/
def Lowers (row : FilterRow) (truth : Truth) (before after : FilterLowering) : Prop :=
  ∃ added, after.filters = before.filters ++ added ∧ before.fallbacks ≤ after.fallbacks ∧
    (truth = .tt → ∀ filter ∈ added, filter.eval row = .tt) ∧
    (after.fallbacks = before.fallbacks →
      (∀ filter ∈ added, filter.useKind = .fullRowPredicateExact) →
      (∀ filter ∈ added, filter.eval row = .tt) → truth = .tt)

theorem Lowers.refl (lowering : FilterLowering) : Lowers row .tt lowering lowering :=
  ⟨[], (List.append_nil _).symm, le_rfl, fun _ => nofun, fun _ _ _ => rfl⟩

theorem Lowers.fallBack (truth : Truth) (lowering : FilterLowering) :
    Lowers row truth lowering lowering.fallBack :=
  ⟨[], (List.append_nil _).symm, Nat.le_succ _, fun _ => nofun,
    fun h => absurd h (Nat.succ_ne_self _)⟩

theorem Lowers.push {truth : Truth} (lowering : FilterLowering)
    (hkept : truth = .tt → filter.eval row = .tt)
    (hexact : filter.useKind = .fullRowPredicateExact → filter.eval row = .tt → truth = .tt) :
    Lowers row truth lowering (lowering.push filter) := by
  refine ⟨[filter], rfl, le_rfl, ?_, fun _ hkind heval => ?_⟩
  · rintro htruth _ hmem
    rw [List.mem_singleton.mp hmem]
    exact hkept htruth
  · exact hexact (hkind filter (List.mem_singleton_self _))
      (heval filter (List.mem_singleton_self _))

/-- Two steps, one after the other, lower a conjunction. -/
theorem Lowers.and {s t : Truth} {a b c : FilterLowering} (hs : Lowers row s a b)
    (ht : Lowers row t b c) : Lowers row (s.and t) a c := by
  obtain ⟨first, hfirst, hle, hkept, hexact⟩ := hs
  obtain ⟨second, hsecond, hle', hkept', hexact'⟩ := ht
  refine ⟨first ++ second, ?_, hle.trans hle', ?_, ?_⟩
  · rw [hsecond, hfirst, List.append_assoc]
  · intro hand filter hmem
    obtain ⟨rfl, rfl⟩ := ThreeValued.Truth.and_eq_tt_iff.mp hand
    rcases List.mem_append.mp hmem with hmem | hmem
    · exact hkept rfl filter hmem
    · exact hkept' rfl filter hmem
  · intro hsame hkind heval
    rw [List.forall_mem_append] at hkind heval
    exact ThreeValued.Truth.and_eq_tt_iff.mpr ⟨hexact (by omega) hkind.1 heval.1,
      hexact' (by omega) hkind.2 heval.2⟩

theorem eval_of_isAtom (h : IsAtom state filter p) :
    filter.eval row = p.eval row := by
  rw [LoweredFilter.eval, h.expr]
  rfl

theorem pushLoweredAtom_lowers (hrow : state.HasRow row) {expr : LowerExpr}
    (hkept : ∀ t ∈ expr.atomMemberships, TestKept state t.1 t.2) (lowering : FilterLowering) :
    Lowers row (truthOf (expr.eval meaning state row)) lowering
      (pushLoweredAtom state expr display lowering) := by
  unfold pushLoweredAtom
  dsimp only
  by_cases hsupported : (lowerAtomFilter state expr display).useKind = .unsupported
  · rw [if_pos hsupported]
    exact .fallBack _ lowering
  · rw [if_neg hsupported]
    obtain ⟨p, hatom, hstands⟩ := lowerAtomFilter_stands meaning hrow hkept hsupported
    refine .push lowering ?_ ?_ <;> rw [eval_of_isAtom hatom]
    · exact hstands.kept
    · exact fun hkind => hstands.exact (hatom.exact hkind)

theorem evalAllPredicates_eq_tt {exprs : List CovePredicateExpr} :
    evalAllPredicates row exprs = .tt ↔ ∀ expr ∈ exprs, expr.eval row = .tt := by
  induction exprs with
  | nil => simp [evalAllPredicates]
  | cons expr exprs ih =>
    rw [evalAllPredicates, ThreeValued.Truth.and_eq_tt_iff, ih, List.forall_mem_cons]

theorem exists_of_mapM_some {α β : Type} {f : α → Option β} {l : List α} {out : List β}
    (h : l.mapM f = some out) {b : β} (hb : b ∈ out) : ∃ a ∈ l, f a = some b := by
  induction l generalizing out with
  | nil =>
    obtain rfl := Option.some.inj h
    cases hb
  | cons a l ih =>
    rw [List.mapM_cons] at h
    obtain ⟨c, hc, h⟩ := Option.bind_eq_some_iff.mp h
    obtain ⟨rest, hrest, h⟩ := Option.bind_eq_some_iff.mp h
    obtain rfl := Option.some.inj h
    rcases List.mem_cons.mp hb with rfl | hb
    · exact ⟨a, List.mem_cons_self, hc⟩
    · obtain ⟨a', ha', hfa⟩ := ih hrest hb
      exact ⟨a', List.mem_cons_of_mem _ ha', hfa⟩

/-- The expression of filters that are TRUE is TRUE. -/
theorem predicateExprForFilters_eval {filters : List LoweredFilter} {expr : CovePredicateExpr}
    (h : predicateExprForFilters filters = some expr)
    (heval : ∀ filter ∈ filters, filter.eval row = .tt) : expr.eval row = .tt := by
  obtain ⟨exprs, hexprs, h⟩ := Option.bind_eq_some_iff.mp h
  have hall : ∀ expr ∈ exprs, expr.eval row = .tt := by
    intro expr hmem
    obtain ⟨filter, hfilter, hexpr⟩ := exists_of_mapM_some hexprs hmem
    have := heval filter hfilter
    rwa [LoweredFilter.eval, hexpr] at this
  match exprs, hall, h with
  | [e], hall, h =>
    obtain rfl := Option.some.inj h
    exact hall e (List.mem_singleton_self e)
  | e :: e' :: rest, hall, h =>
    obtain rfl := Option.some.inj h
    rw [CovePredicateExpr.eval]
    exact evalAllPredicates_eq_tt.mpr hall

theorem atomMemberships_of_ne (h : op ≠ .eq) :
    (LowerExpr.binary left op right).atomMemberships = [] := by
  unfold LowerExpr.atomMemberships
  split
  · next heq => cases heq; exact absurd rfl h
  · next heq => cases heq; exact absurd rfl h
  · next heq => cases heq
  · rfl

/-- An expression that is lowered as an atom. -/
theorem lowers_of_atom (hrow : state.HasRow row) {expr : LowerExpr}
    (hkept : ∀ t ∈ expr.memberships, TestKept state t.1 t.2)
    (hmemberships : expr.memberships = expr.atomMemberships)
    (hlowered : lowerFiltersInto state display expr lowering =
      pushLoweredAtom state expr display lowering) :
    Lowers row (truthOf (expr.eval meaning state row)) lowering
      (lowerFiltersInto state display expr lowering) := by
  rw [hlowered]
  rw [hmemberships] at hkept
  exact pushLoweredAtom_lowers meaning hrow hkept lowering

mutual

/-- **The filters of an expression stand for it.** -/
theorem lowerFiltersInto_lowers (hrow : state.HasRow row) (display : String) :
    ∀ (expr : LowerExpr) (lowering : FilterLowering),
      (∀ t ∈ expr.memberships, TestKept state t.1 t.2) →
        Lowers row (truthOf (expr.eval meaning state row)) lowering
          (lowerFiltersInto state display expr lowering)
  | .and children, lowering, hkept => by
    rw [LowerExpr.eval, truthOf_ofTruth, lowerFiltersInto]
    exact lowerEachInto_lowers hrow display children lowering hkept
  | .between expr low high, lowering, _ => by
    rw [LowerExpr.eval, truthOf_ofTruth, lowerFiltersInto]
    have hbound : ∀ (op : LowerOperator) (bound : LowerExpr) (display : String)
        (lowering : FilterLowering), op ≠ .eq →
        Lowers row (compareSql (expr.eval meaning state row) op (bound.eval meaning state row))
          lowering (pushLoweredAtom state (.binary expr op bound) display lowering) := by
      intro op bound display lowering hop
      rw [← truthOf_ofTruth (compareSql _ _ _), ← eval_binary]
      refine pushLoweredAtom_lowers meaning hrow ?_ lowering
      rw [atomMemberships_of_ne hop]
      exact fun _ => nofun
    exact (hbound .gtEq low _ lowering (by decide)).and (hbound .ltEq high _ _ (by decide))
  | .or children, lowering, hkept => by
    rw [LowerExpr.eval, truthOf_ofTruth, lowerFiltersInto]
    rw [LowerExpr.memberships] at hkept
    cases hdisjuncts : lowerDisjuncts state display children with
    | none => exact .fallBack _ lowering
    | some found =>
      obtain ⟨exprs, predicateColumns⟩ := found
      -- the filter of a disjunction is never exact
      refine .push lowering (fun htruth => ?_) nofun
      exact lowerDisjuncts_lowers hrow display children hkept hdisjuncts htruth
  | .unsupported text, lowering, _ => by
    rw [lowerFiltersInto]
    exact .fallBack _ lowering
  | .column name, lowering, hkept => lowers_of_atom meaning hrow hkept rfl rfl
  | .literal value, lowering, hkept => lowers_of_atom meaning hrow hkept rfl rfl
  | .isNull input, lowering, hkept => lowers_of_atom meaning hrow hkept rfl rfl
  | .isNotNull input, lowering, hkept => lowers_of_atom meaning hrow hkept rfl rfl
  | .binary left op right, lowering, hkept => lowers_of_atom meaning hrow hkept rfl rfl
  | .inList expr list negated, lowering, hkept => lowers_of_atom meaning hrow hkept rfl rfl

theorem lowerEachInto_lowers (hrow : state.HasRow row) (display : String) :
    ∀ (children : List LowerExpr) (lowering : FilterLowering),
      (∀ t ∈ membershipsOfAll children, TestKept state t.1 t.2) →
        Lowers row (evalAll meaning state row children) lowering
          (lowerEachInto state display children lowering)
  | [], lowering, _ => by
    rw [evalAll, lowerEachInto]
    exact .refl lowering
  | child :: children, lowering, hkept => by
    rw [membershipsOfAll, List.forall_mem_append] at hkept
    rw [evalAll, lowerEachInto]
    exact (lowerFiltersInto_lowers hrow display child lowering hkept.1).and
      (lowerEachInto_lowers hrow display children _ hkept.2)

/-- The disjuncts of a disjunction: each is TRUE where its expression is. -/
theorem lowerDisjuncts_lowers (hrow : state.HasRow row) (display : String) :
    ∀ (children : List LowerExpr) {exprs : List CovePredicateExpr} {predicateColumns : List Nat},
      (∀ t ∈ membershipsOfAll children, TestKept state t.1 t.2) →
        lowerDisjuncts state display children = some (exprs, predicateColumns) →
          evalAny meaning state row children = .tt → evalAnyPredicate row exprs = .tt
  | [], exprs, _, _, _, htruth => by
    rw [evalAny] at htruth
    cases htruth
  | child :: children, exprs, predicateColumns, hkept, h, htruth => by
    rw [membershipsOfAll, List.forall_mem_append] at hkept
    rw [lowerDisjuncts] at h
    dsimp only at h
    split at h
    · cases h
    · obtain ⟨expr, hexpr, h⟩ := Option.bind_eq_some_iff.mp h
      obtain ⟨⟨rest, columns⟩, hrest, heq⟩ := Option.map_eq_some_iff.mp h
      obtain rfl := (Prod.mk.inj heq).1
      obtain ⟨added, hadded, -, htrue, -⟩ :=
        lowerFiltersInto_lowers hrow display child .empty hkept.1
      rw [evalAny, ThreeValued.Truth.or_eq_tt_iff] at htruth
      rw [evalAnyPredicate, ThreeValued.Truth.or_eq_tt_iff]
      refine htruth.imp (fun hchild => ?_)
        (lowerDisjuncts_lowers hrow display children hkept.2 hrest)
      refine predicateExprForFilters_eval hexpr fun filter hfilter => ?_
      rw [hadded] at hfilter
      exact htrue hchild filter hfilter

end

end

/-! ## The filters of an expression -/

/-- What a lowering promises of an expression on a row: the filters are TRUE where the
expression is, and nowhere else when the whole expression is lowered to exact filters. -/
structure LowersSoundly (meaning : Text → FilterRow → Option Comparand) (state : LoweringState)
    (row : FilterRow) (expr : LowerExpr) (lowering : FilterLowering) : Prop where
  kept : truthOf (expr.eval meaning state row) = .tt →
    ∀ filter ∈ lowering.filters, filter.eval row = .tt
  exact : lowering.fallbacks = 0 →
    (∀ filter ∈ lowering.filters, filter.useKind = .fullRowPredicateExact) →
      (∀ filter ∈ lowering.filters, filter.eval row = .tt) →
        truthOf (expr.eval meaning state row) = .tt

theorem lowersSoundly_of_lowers {meaning : Text → FilterRow → Option Comparand}
    {state : LoweringState} {row : FilterRow} {expr : LowerExpr}
    (h : Lowers row (truthOf (expr.eval meaning state row)) .empty lowering) :
    LowersSoundly meaning state row expr lowering := by
  obtain ⟨added, hadded, -, hkept, hexact⟩ := h
  obtain rfl : lowering.filters = added := hadded
  exact ⟨hkept, hexact⟩

section

variable {state : LoweringState} {name : Text} {literals : List QueryLiteral} {i : Nat}
  {column : LoweringColumn}

theorem listLiterals_map (literals : List QueryLiteral) :
    listLiterals (literals.map .literal) = some literals := by
  induction literals with
  | nil => rfl
  | cons literal literals ih =>
    rw [List.map_cons, listLiterals, ih]
    rfl

/-- The lowering of a membership test on a column of dictionary codes. -/
theorem lowerFilters_membership (hi : topLevelColumnIndex state (.column name) = some i)
    (hcolumn : state.columns[i]? = some column)
    (h : fileCodeInFilter i column.entry (literals.map Subtype.val) = some predicate)
    (display : String) :
    lowerFilters state (.inList (.column name) (literals.map .literal) false) display =
      ⟨[promoteFilterExactness state (.pruning predicate display)], 0⟩ := by
  have hclassify : classifyInListFilter state (.column name) (literals.map .literal) display =
      .pruning predicate display := by
    unfold classifyInListFilter
    simp only [hi, hcolumn, listLiterals_map, h, Option.bind_eq_bind, Option.bind_some]
    rfl
  have hatom : lowerAtomFilter state (.inList (.column name) (literals.map .literal) false)
      display = promoteFilterExactness state (.pruning predicate display) := by
    unfold lowerAtomFilter
    dsimp only
    rw [hclassify]
  have hsupported : (promoteFilterExactness state (.pruning predicate display)).useKind ≠
      .unsupported := by
    rw [promote_pruning]
    dsimp only
    cases predicateExactness state predicate <;> decide
  show pushLoweredAtom state _ display .empty = _
  unfold pushLoweredAtom
  rw [hatom]
  dsimp only
  rw [if_neg hsupported]
  rfl

/-- Where the files let it, a membership is exact. -/
theorem exact_of_promotes (hcolumn : state.columns[i]? = some column)
    (h : fileCodeInFilter i column.entry (literals.map Subtype.val) = some predicate)
    (hpromotes : state.Promotes) :
    predicateExactness state predicate = .fullRowPredicateExact := by
  have hphysical := (fileCodeInFilter_isSome.mp ⟨predicate, h⟩).1
  have hredaction : (state.files.any fun file => file.hasRedaction) = false := by
    simp only [List.any_eq_false, Bool.not_eq_true]
    exact fun file hfile => (hpromotes file hfile).1
  have hlookup : (state.files.any fun file => !file.hasReverseLookup) = false := by
    simp only [List.any_eq_false, Bool.not_eq_true, Bool.not_eq_false']
    exact fun file hfile => (hpromotes file hfile).2
  unfold fileCodeInFilter at h
  split at h
  · cases h
  split at h
  · obtain rfl := Option.some.inj h
    unfold pruningFileCodeInWithCanonical predicateExactness
    simp only [hcolumn, hphysical, hredaction, hlookup]
    simp
  · cases h

/-- The row of one cell. -/
def rowOf (i : Nat) (cell : CellValue) : FilterRow := fun j => if j = i then some cell else none

theorem hasRow_rowOf (hcolumn : state.columns[i]? = some column)
    (hcell : cell.HasType column.entry.logical) : state.HasRow (rowOf i cell) := by
  intro j column' cell' hcolumn' hcell'
  unfold rowOf at hcell'
  split at hcell'
  · next hj =>
    subst hj
    obtain rfl := Option.some.inj (hcolumn.symm.trans hcolumn')
    obtain rfl := Option.some.inj hcell'
    exact hcell
  · cases hcell'

/-- A membership test that is lowered soundly on the rows of one cell is kept. -/
theorem membershipKept_of_sound (hi : topLevelColumnIndex state (.column name) = some i)
    (hcolumn : state.columns[i]? = some column)
    (hlowered : Lowered column.entry (literals.map Subtype.val))
    (hsound : ∀ row, state.HasRow row → LowersSoundly (fun _ _ => none) state row
      (.inList (.column name) (literals.map .literal) false)
      (lowerFilters state (.inList (.column name) (literals.map .literal) false) "")) :
    MembershipKept state.Promotes column.entry.logical (literals.map Subtype.val) := by
  have hrange : ∀ literal ∈ literals.map Subtype.val, literal.InRange := by
    intro literal hmem
    obtain ⟨q, -, rfl⟩ := List.mem_map.mp hmem
    exact q.property
  obtain ⟨predicate, hpredicate⟩ := fileCodeInFilter_isSome.mpr hlowered
  refine (membershipKept_iff hrange hlowered.2).mpr fun cell hcell => ?_
  have h := hsound _ (hasRow_rowOf hcolumn hcell)
  rw [lowerFilters_membership hi hcolumn hpredicate] at h
  have hatom : IsAtom state (promoteFilterExactness state (.pruning predicate "")) predicate :=
    isAtom_promote rfl
  have hcellAt : rowOf i cell i = some cell := if_pos rfl
  have hfilter : predicate.eval (rowOf i cell) = .tt ↔
      ∃ literal ∈ literals.map Subtype.val, PayloadEqual column.entry.logical cell literal := by
    rw [fileCodeIn_eval hpredicate]
    simp only [hcellAt, Option.some.injEq, exists_eq_left']
  have htruth : truthOf ((LowerExpr.inList (.column name) (literals.map .literal) false).eval
      (fun _ _ => none) state (rowOf i cell)) = .tt ↔
        ∃ literal ∈ literals.map Subtype.val, LiteralEqual cell literal := by
    rw [LowerExpr.eval, eval_column _ hi, hcellAt]
    rw [if_neg Bool.false_ne_true, truthOf_ofTruth, evalMember_literals]
    simp only [compareSql_literal, Option.some.injEq, exists_eq_left']
    constructor
    · rintro ⟨literal, hmem, heq⟩
      exact ⟨_, List.mem_map_of_mem hmem, heq⟩
    · rintro ⟨_, hmem, heq⟩
      obtain ⟨literal, hliteral, rfl⟩ := List.mem_map.mp hmem
      exact ⟨literal, hliteral, heq⟩
  constructor
  · intro hvalue
    have hkept := h.kept (htruth.mpr hvalue) _ (List.mem_singleton_self _)
    rw [eval_of_isAtom hatom] at hkept
    exact hfilter.mp hkept
  · intro hpromotes hpayload
    refine htruth.mp (h.exact rfl ?_ ?_)
    · intro filter hmem
      rw [List.mem_singleton.mp hmem, promote_pruning,
        exact_of_promotes hcolumn hpredicate hpromotes]
    · intro filter hmem
      rw [List.mem_singleton.mp hmem, eval_of_isAtom hatom]
      exact hfilter.mpr hpayload

end

/-- **The lowering is sound on all expressions over some membership tests exactly when each of
the tests is kept.** -/
theorem lowerFilters_sound_iff (state : LoweringState) (tests : Set (Text × List QueryLiteral)) :
    (∀ (meaning : Text → FilterRow → Option Comparand) (expr : LowerExpr) (display : String)
        (row : FilterRow), (∀ t ∈ expr.memberships, t ∈ tests) → state.HasRow row →
          LowersSoundly meaning state row expr (lowerFilters state expr display)) ↔
      ∀ t ∈ tests, TestKept state t.1 t.2 := by
  constructor
  · rintro hsound ⟨name, literals⟩ htest i column hi hcolumn hlowered
    refine membershipKept_of_sound hi hcolumn hlowered fun row hrow => hsound _ _ _ _ ?_ hrow
    intro t ht
    rw [LowerExpr.memberships, LowerExpr.atomMemberships, listLiterals_map] at ht
    · rwa [List.mem_singleton.mp ht]
    all_goals nofun
  · intro hkept meaning expr display row hmem hrow
    exact lowersSoundly_of_lowers
      (lowerFiltersInto_lowers meaning hrow display expr .empty fun t ht => hkept t (hmem t ht))

/-! ## Values without payloads of their own -/

/-- A table of one column of dictionary codes, in a file that looks up codes. -/
def codedColumn (logical : CoveLogicalType) : LoweringState :=
  ⟨[⟨['x'], true, ⟨0, logical, .fileCode, 0, 0⟩⟩], [⟨false, true⟩]⟩

theorem hasRow_codedColumn {logical : CoveLogicalType}
    (h : cell.HasType logical) : (codedColumn logical).HasRow (rowOf 0 cell) :=
  have hcolumn : (codedColumn logical).columns[0]? =
      some ⟨['x'], true, ⟨0, logical, .fileCode, 0, 0⟩⟩ := rfl
  hasRow_rowOf hcolumn h

/-- `x` equals a literal. -/
def equalsLiteral (literal : QueryLiteral) : LowerExpr :=
  .binary (.column ['x']) .eq (.literal literal)

/-- The row whose float is the negative zero. -/
def negativeZeroRow : FilterRow := rowOf 0 (.scalar (.float64 ⟨0x8000000000000000#64⟩))

/-- The row whose boolean is false. -/
def falseRow : FilterRow := rowOf 0 (.scalar (.bool false))

/-- **A row whose float is zero is lost to `x = 0.0` when the zero is negative, and a row
whose boolean is false is taken for one where `x` is true.** -/
theorem lowerFilters_by_payload :
    ((codedColumn .float64).HasRow negativeZeroRow ∧
      ¬ LowersSoundly (fun _ _ => none) (codedColumn .float64) negativeZeroRow
        (equalsLiteral ⟨.float64 ⟨0#64⟩, trivial⟩)
        (lowerFilters (codedColumn .float64) (equalsLiteral ⟨.float64 ⟨0#64⟩, trivial⟩) "")) ∧
    (codedColumn .bool).HasRow falseRow ∧
      ¬ LowersSoundly (fun _ _ => none) (codedColumn .bool) falseRow
        (equalsLiteral ⟨.boolean true, trivial⟩)
        (lowerFilters (codedColumn .bool) (equalsLiteral ⟨.boolean true, trivial⟩) "") := by
  refine ⟨⟨hasRow_codedColumn trivial, fun h => ?_⟩, hasRow_codedColumn trivial, fun h => ?_⟩
  · have htrue := h.kept (by decide +kernel) _ List.mem_cons_self
    revert htrue
    decide +kernel
  · have hfalse := h.exact rfl (by decide +kernel) (by decide +kernel)
    revert hfalse
    decide +kernel

end Cove
