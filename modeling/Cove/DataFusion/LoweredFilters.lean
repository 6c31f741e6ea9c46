import Cove.DataFusion.CoverageFormMeaning
import Cove.DataFusion.ExprLoweringSound

/-!
# The predicates of lowered filters

Each predicate of a lowered filter comes from a null test, a comparison or a membership test
on a column of the table.

- `IsLowered`: a filter of lowered predicates.
- `lowerAtomFilter_isLowered`: the filter of an atom is one.
- `lowerFilters_isLowered`: **the filters of an expression are**.
-/

namespace Cove

variable {display : String}

variable {predicate : CovePredicate} {expr : LowerExpr}

section

variable {lowering : LoweringState}

/-- A filter of lowered predicates. -/
structure IsLowered (lowering : LoweringState) (filter : LoweredFilter) : Prop where
  predicates : ∀ predicate ∈ filter.predicates, LoweredPredicate lowering predicate
  expr : ∀ predicate, filter.predicate = some predicate →
    filter.predicateExpr = some (.atom predicate)

theorem isLowered_pruning (h : LoweredPredicate lowering predicate) :
    IsLowered lowering (promoteFilterExactness lowering (.pruning predicate display)) := by
  rw [promote_pruning]
  constructor
  · intro other hother
    have heq : other = predicate := by
      simpa [LoweredFilter.predicates, LoweredFilter.pruning, CovePredicateExpr.predicates]
        using hother
    rwa [heq]
  · intro other hother
    obtain rfl := Option.some.inj hother
    rfl

theorem isLowered_ofPredicate {predicate : Option CovePredicate}
    (h : ∀ p, predicate = some p → LoweredPredicate lowering p)
    (hsupported : (LoweredFilter.ofPredicate predicate display).useKind ≠ .unsupported) :
    IsLowered lowering
      (promoteFilterExactness lowering (LoweredFilter.ofPredicate predicate display)) := by
  obtain ⟨p, hp, heq⟩ := ofPredicate_eq hsupported
  rw [heq]
  exact isLowered_pruning (h p hp)

theorem isLowered_null {input : LowerExpr} {kind : NullPredicateKind}
    (hsupported : (classifyNullFilter lowering input kind display).useKind ≠ .unsupported) :
    IsLowered lowering
      (promoteFilterExactness lowering (classifyNullFilter lowering input kind display)) := by
  refine isLowered_ofPredicate (fun p hp => ?_) hsupported
  obtain ⟨i, -, hp⟩ := Option.bind_eq_some_iff.mp hp
  obtain ⟨column, hcolumn, hp⟩ := Option.bind_eq_some_iff.mp hp
  split at hp
  · cases hp
  split at hp
  · cases hp
  obtain rfl := Option.some.inj hp
  exact .null i kind column hcolumn

theorem isLowered_columnLiteral {i : Nat} {op : LowerOperator} {literal : QueryLiteral}
    (hsupported : (classifyColumnLiteral lowering i op literal.val display).useKind ≠
      .unsupported) :
    IsLowered lowering (promoteFilterExactness lowering
      (classifyColumnLiteral lowering i op literal.val display)) := by
  refine isLowered_ofPredicate (fun p hp => ?_) hsupported
  obtain ⟨column, hcolumn, hp⟩ := Option.bind_eq_some_iff.mp hp
  exact .comparison i column op literal p hcolumn hp

/-- **The filter of an atom is one of lowered predicates.** -/
theorem lowerAtomFilter_isLowered
    (h : (lowerAtomFilter lowering expr display).useKind ≠ .unsupported) :
    IsLowered lowering (lowerAtomFilter lowering expr display) := by
  have hsupported := promote_supported h
  cases expr with
  | isNull input => exact isLowered_null hsupported
  | isNotNull input => exact isLowered_null hsupported
  | binary left op right =>
    unfold lowerAtomFilter
    dsimp only at hsupported ⊢
    unfold classifyBinaryFilter at hsupported ⊢
    split at hsupported
    · exact isLowered_columnLiteral hsupported
    · split at hsupported
      · exact isLowered_columnLiteral hsupported
      · exact absurd rfl hsupported
  | inList expr list negated =>
    cases negated with
    | true => exact absurd rfl hsupported
    | false =>
      refine isLowered_ofPredicate (fun p hp => ?_) hsupported
      obtain ⟨i, -, hp⟩ := Option.bind_eq_some_iff.mp hp
      obtain ⟨column, hcolumn, hp⟩ := Option.bind_eq_some_iff.mp hp
      obtain ⟨literals, -, hp⟩ := Option.bind_eq_some_iff.mp hp
      exact .membership i column literals p hcolumn hp
  | column | «literal» | and | or | between | unsupported => exact absurd rfl hsupported

theorem pushLoweredAtom_isLowered {before : FilterLowering}
    (h : ∀ filter ∈ before.filters, IsLowered lowering filter) :
    ∀ filter ∈ (pushLoweredAtom lowering expr display before).filters,
      IsLowered lowering filter := by
  unfold pushLoweredAtom
  dsimp only
  split
  · exact h
  · next hsupported =>
    intro filter hfilter
    rcases List.mem_append.mp hfilter with hfilter | hfilter
    · exact h filter hfilter
    · rw [List.mem_singleton.mp hfilter]
      exact lowerAtomFilter_isLowered hsupported

theorem mem_predicatesOfAll {exprs : List CovePredicateExpr} :
    predicate ∈ predicatesOfAll exprs ↔ ∃ expr ∈ exprs, predicate ∈ expr.predicates := by
  induction exprs with
  | nil => simp [predicatesOfAll]
  | cons expr exprs ih =>
    rw [predicatesOfAll, List.mem_append, ih, List.exists_mem_cons_iff]

/-- The expression of lowered filters is one of lowered predicates. -/
theorem predicateExprForFilters_isLowered {filters : List LoweredFilter}
    {expr : CovePredicateExpr} (h : predicateExprForFilters filters = some expr)
    (hfilters : ∀ filter ∈ filters, IsLowered lowering filter) :
    ∀ predicate ∈ expr.predicates, LoweredPredicate lowering predicate := by
  obtain ⟨exprs, hexprs, h⟩ := Option.bind_eq_some_iff.mp h
  have hall : ∀ e ∈ exprs, ∀ predicate ∈ e.predicates, LoweredPredicate lowering predicate := by
    intro e he predicate hpredicate
    obtain ⟨filter, hfilter, hexpr⟩ := exists_of_mapM_some hexprs he
    refine (hfilters filter hfilter).predicates predicate ?_
    unfold LoweredFilter.predicates
    rw [hexpr]
    exact List.mem_append_right _ (by simpa using hpredicate)
  split at h
  · cases h
  · obtain rfl := Option.some.inj h
    exact hall _ (List.mem_singleton_self _)
  · obtain rfl := Option.some.inj h
    intro predicate hpredicate
    rw [CovePredicateExpr.predicates, mem_predicatesOfAll] at hpredicate
    obtain ⟨e, he, hmem⟩ := hpredicate
    exact hall e he predicate hmem

mutual

/-- A step of the lowering adds filters of lowered predicates. -/
theorem lowerFiltersInto_isLowered (display : String) :
    ∀ (expr : LowerExpr) (before : FilterLowering),
      (∀ filter ∈ before.filters, IsLowered lowering filter) →
        ∀ filter ∈ (lowerFiltersInto lowering display expr before).filters,
          IsLowered lowering filter
  | .and children, before, h => by
    rw [lowerFiltersInto]
    exact lowerEachInto_isLowered display children before h
  | .between expr low high, before, h => by
    rw [lowerFiltersInto]
    exact pushLoweredAtom_isLowered (pushLoweredAtom_isLowered h)
  | .or children, before, h => by
    rw [lowerFiltersInto]
    cases hdisjuncts : lowerDisjuncts lowering display children with
    | none => exact h
    | some found =>
      obtain ⟨exprs, predicateColumns⟩ := found
      intro filter hfilter
      rcases List.mem_append.mp hfilter with hfilter | hfilter
      · exact h filter hfilter
      · rw [List.mem_singleton.mp hfilter]
        refine ⟨fun predicate hpredicate => ?_, nofun⟩
        have hmem : predicate ∈ predicatesOfAll exprs := by
          simpa [LoweredFilter.predicates, LoweredFilter.pruningExpr, CovePredicateExpr.predicates]
            using hpredicate
        exact lowerDisjuncts_isLowered display children hdisjuncts predicate hmem
  | .unsupported text, before, h => by
    rw [lowerFiltersInto]
    exact h
  | .column name, before, h => pushLoweredAtom_isLowered h
  | .literal value, before, h => pushLoweredAtom_isLowered h
  | .isNull input, before, h => pushLoweredAtom_isLowered h
  | .isNotNull input, before, h => pushLoweredAtom_isLowered h
  | .binary left op right, before, h => pushLoweredAtom_isLowered h
  | .inList expr list negated, before, h => pushLoweredAtom_isLowered h

theorem lowerEachInto_isLowered (display : String) :
    ∀ (children : List LowerExpr) (before : FilterLowering),
      (∀ filter ∈ before.filters, IsLowered lowering filter) →
        ∀ filter ∈ (lowerEachInto lowering display children before).filters,
          IsLowered lowering filter
  | [], before, h => by
    rw [lowerEachInto]
    exact h
  | child :: children, before, h => by
    rw [lowerEachInto]
    exact lowerEachInto_isLowered display children _
      (lowerFiltersInto_isLowered display child before h)

theorem lowerDisjuncts_isLowered (display : String) :
    ∀ (children : List LowerExpr) {exprs : List CovePredicateExpr} {predicateColumns : List Nat},
      lowerDisjuncts lowering display children = some (exprs, predicateColumns) →
        ∀ predicate ∈ predicatesOfAll exprs, LoweredPredicate lowering predicate
  | [], exprs, _, h => by
    rw [lowerDisjuncts] at h
    obtain rfl := (Prod.mk.inj (Option.some.inj h)).1
    exact nofun
  | child :: children, exprs, _, h => by
    rw [lowerDisjuncts] at h
    dsimp only at h
    split at h
    · cases h
    · obtain ⟨expr, hexpr, h⟩ := Option.bind_eq_some_iff.mp h
      obtain ⟨⟨rest, columns⟩, hrest, heq⟩ := Option.map_eq_some_iff.mp h
      obtain rfl := (Prod.mk.inj heq).1
      have hchild := lowerFiltersInto_isLowered display child .empty nofun
      intro predicate hpredicate
      rw [predicatesOfAll] at hpredicate
      rcases List.mem_append.mp hpredicate with hpredicate | hpredicate
      · exact predicateExprForFilters_isLowered hexpr hchild predicate hpredicate
      · exact lowerDisjuncts_isLowered display children hrest predicate hpredicate

end

/-- **The filters of an expression are filters of lowered predicates.** -/
theorem lowerFilters_isLowered (expr : LowerExpr) (display : String) :
    ∀ filter ∈ (lowerFilters lowering expr display).filters, IsLowered lowering filter :=
  lowerFiltersInto_isLowered display expr .empty nofun

end

end Cove
