import Cove.DataFusion.AttachedForms
import Cove.DataFusion.LoweredFilters

/-!
# Coverage expressions of filters

The coverage expression of lowered filters holds wherever the filters are TRUE, if the forms
attached to their predicates are about them.

- `AttachesSoundly`: what the forms attached to filters have to be.
- `coverageExprForPredicateExpr_holds`: the expression of a filter expression.
- `attachToFilters_sound_iff`: **the forms are attached soundly exactly when each is faithful
  to its predicate**.
-/

namespace Cove

open ThreeValued (Truth)

variable {expr : CoveragePredicateExpr}

variable {atom : CoveragePredicateAtom} {predicate : CovePredicate} {form : Nat → Prop}

section

variable {crc32c : List UInt8 → Nat} {state : FormPlanningState}

/-- The forms of an id accept a row. -/
def FormHolds (crc32c : List UInt8 → Nat) (state : FormPlanningState) (meaning : AstMeaning)
    (row : FilterRow) (ref : Nat) : Prop :=
  ∃ form ∈ state.predicateForms, form.predicateFormId = ref ∧
    FormAccepts crc32c state meaning form row

/-- The filters of expressions, each with its display. -/
def loweredFilters (lowering : LoweringState) (exprs : List (LowerExpr × String)) :
    List LoweredFilter :=
  exprs.flatMap fun expr => (lowerFilters lowering expr.1 expr.2).filters

/-- **What the forms attached to filters have to be**: each is about its predicate, and the
coverage expression holds on the rows on which the filters are TRUE. -/
structure AttachesSoundly (crc32c : List UInt8 → Nat) (state : FormPlanningState)
    (filters : List LoweredFilter) : Prop where
  attached : ∀ filter ∈ filters, ∀ predicate ∈ filter.predicates, ∀ form,
    Attaches crc32c state predicate form → AttachedSoundly crc32c state predicate form
  implied : ∀ expr,
    ((CoveragePlanningIndex.build crc32c state).attachToFilters filters).2 = some expr →
      ∀ meaning row, state.lowering.HasRow row → (∀ filter ∈ filters, filter.eval row = .tt) →
        expr.Holds (FormHolds crc32c state meaning row)

/-! ## Atoms -/

/-- The form of an atom is attached to its predicate. -/
theorem exists_attached
    (h : (CoveragePlanningIndex.build crc32c state).atomForPredicate predicate = some atom) :
    ∃ form, Attaches crc32c state predicate form ∧
      form.predicateFormId = atom.predicateFormRef := by
  obtain ⟨m, hfind, rfl⟩ := Option.map_eq_some_iff.mp h
  have hmem := List.mem_of_find?_eq_some hfind
  unfold CoveragePlanningIndex.build at hmem
  dsimp only at hmem
  rw [List.mem_insertionSort] at hmem
  obtain ⟨form, hform, hmatch⟩ := List.mem_filterMap.mp hmem
  refine ⟨form, ⟨hform, m, hmatch, hfind⟩, ?_⟩
  unfold formMatch at hmatch
  split at hmatch
  · cases hmatch
  split at hmatch
  · cases hmatch
  split at hmatch
  · cases hmatch
  obtain ⟨_, _, -, -, -, -, -, -, -, href, -⟩ := fromAst_eq_some hmatch
  exact href.symm

section

variable {meaning : AstMeaning} {row : FilterRow}

/-- The forms attached to a predicate accept the row, if the predicate does. -/
def Implies (crc32c : List UInt8 → Nat) (state : FormPlanningState) (meaning : AstMeaning)
    (row : FilterRow) (predicate : CovePredicate) : Prop :=
  ∀ form, Attaches crc32c state predicate form → predicate.eval row = .tt →
    FormAccepts crc32c state meaning form row

theorem atomForPredicate_holds
    (h : (CoveragePlanningIndex.build crc32c state).atomForPredicate predicate = some atom)
    (himplies : Implies crc32c state meaning row predicate) (heval : predicate.eval row = .tt) :
    FormHolds crc32c state meaning row atom.predicateFormRef := by
  obtain ⟨form, hattached, href⟩ := exists_attached h
  exact ⟨form, hattached.1, href, himplies form hattached heval⟩

/-! ## Expressions -/

theorem allHold_iff {exprs : List CoveragePredicateExpr} :
    CoveragePredicateExpr.AllHold form exprs ↔ ∀ expr ∈ exprs, expr.Holds form := by
  induction exprs with
  | nil => simp [CoveragePredicateExpr.AllHold]
  | cons expr exprs ih => rw [CoveragePredicateExpr.AllHold, ih, List.forall_mem_cons]

theorem conjunction_holds {conjuncts : List CoveragePredicateExpr}
    (h : CoveragePredicateExpr.conjunction conjuncts = some expr)
    (hconjuncts : ∀ c ∈ conjuncts, c.Holds form) : expr.Holds form := by
  unfold CoveragePredicateExpr.conjunction at h
  dsimp only at h
  generalize hretained : conjuncts.filter _ = retained at h
  have hall : ∀ c ∈ retained, c.Holds form := by
    intro c hc
    rw [← hretained] at hc
    exact hconjuncts c (List.mem_of_mem_filter hc)
  split at h
  · cases h
  · obtain rfl := Option.some.inj h
    exact hall _ (List.mem_singleton_self _)
  · obtain rfl := Option.some.inj h
    rw [CoveragePredicateExpr.Holds, allHold_iff]
    exact hall

mutual

/-- **The coverage expression of a filter expression holds where that is TRUE.** -/
theorem coverageExprForPredicateExpr_holds :
    ∀ (expr : CovePredicateExpr) {coverage : CoveragePredicateExpr},
      (∀ predicate ∈ expr.predicates, Implies crc32c state meaning row predicate) →
        (CoveragePlanningIndex.build crc32c state).coverageExprForPredicateExpr expr =
          some coverage →
        expr.eval row = .tt → coverage.Holds (FormHolds crc32c state meaning row)
  | .atom predicate, coverage, himplies, h, heval => by
    rw [CoveragePlanningIndex.coverageExprForPredicateExpr] at h
    rw [CovePredicateExpr.predicates] at himplies
    rw [CovePredicateExpr.eval] at heval
    obtain ⟨atom, hatom, rfl⟩ := Option.map_eq_some_iff.mp h
    rw [CoveragePredicateExpr.Holds]
    exact atomForPredicate_holds hatom (himplies _ (List.mem_singleton_self _)) heval
  | .and children, coverage, himplies, h, heval => by
    rw [CoveragePlanningIndex.coverageExprForPredicateExpr] at h
    rw [CovePredicateExpr.predicates] at himplies
    rw [CovePredicateExpr.eval] at heval
    obtain ⟨exprs, hexprs, hconjunction⟩ := Option.bind_eq_some_iff.mp h
    refine conjunction_holds hconjunction ?_
    rw [← allHold_iff]
    exact coverageExprs_allHold children himplies hexprs heval
  | .or children, coverage, himplies, h, heval => by
    rw [CoveragePlanningIndex.coverageExprForPredicateExpr] at h
    rw [CovePredicateExpr.predicates] at himplies
    rw [CovePredicateExpr.eval] at heval
    obtain ⟨exprs, hexprs, rfl⟩ := Option.map_eq_some_iff.mp h
    rw [CoveragePredicateExpr.Holds]
    exact coverageExprs_anyHolds children himplies hexprs heval

theorem coverageExprs_allHold :
    ∀ (children : List CovePredicateExpr) {exprs : List CoveragePredicateExpr},
      (∀ predicate ∈ predicatesOfAll children, Implies crc32c state meaning row predicate) →
        (CoveragePlanningIndex.build crc32c state).coverageExprs children = some exprs →
        evalAllPredicates row children = .tt →
          CoveragePredicateExpr.AllHold (FormHolds crc32c state meaning row) exprs
  | [], exprs, _, h, _ => by
    rw [CoveragePlanningIndex.coverageExprs] at h
    obtain rfl := Option.some.inj h
    trivial
  | child :: children, _, himplies, h, heval => by
    rw [CoveragePlanningIndex.coverageExprs] at h
    obtain ⟨expr, hexpr, h⟩ := Option.bind_eq_some_iff.mp h
    obtain ⟨exprs, hexprs, h⟩ := Option.bind_eq_some_iff.mp h
    obtain rfl := Option.some.inj h
    rw [predicatesOfAll, List.forall_mem_append] at himplies
    rw [evalAllPredicates, ThreeValued.Truth.and_eq_tt_iff] at heval
    exact ⟨coverageExprForPredicateExpr_holds child himplies.1 hexpr heval.1,
      coverageExprs_allHold children himplies.2 hexprs heval.2⟩

theorem coverageExprs_anyHolds :
    ∀ (children : List CovePredicateExpr) {exprs : List CoveragePredicateExpr},
      (∀ predicate ∈ predicatesOfAll children, Implies crc32c state meaning row predicate) →
        (CoveragePlanningIndex.build crc32c state).coverageExprs children = some exprs →
        evalAnyPredicate row children = .tt →
          CoveragePredicateExpr.AnyHolds (FormHolds crc32c state meaning row) exprs
  | [], exprs, _, _, heval => by
    rw [evalAnyPredicate] at heval
    cases heval
  | child :: children, _, himplies, h, heval => by
    rw [CoveragePlanningIndex.coverageExprs] at h
    obtain ⟨expr, hexpr, h⟩ := Option.bind_eq_some_iff.mp h
    obtain ⟨exprs, hexprs, h⟩ := Option.bind_eq_some_iff.mp h
    obtain rfl := Option.some.inj h
    rw [predicatesOfAll, List.forall_mem_append] at himplies
    rw [evalAnyPredicate, ThreeValued.Truth.or_eq_tt_iff] at heval
    exact heval.imp (coverageExprForPredicateExpr_holds child himplies.1 hexpr)
      (coverageExprs_anyHolds children himplies.2 hexprs)

end

/-! ## Filters -/

/-- The coverage expression of a filter holds where the filter is TRUE. -/
theorem exprForFilter_holds {filter : LoweredFilter} (hlowered : IsLowered state.lowering filter)
    (himplies : ∀ predicate ∈ filter.predicates, Implies crc32c state meaning row predicate)
    (h : ((CoveragePlanningIndex.build crc32c state).exprForFilter filter).2 = some expr)
    (heval : filter.eval row = .tt) : expr.Holds (FormHolds crc32c state meaning row) := by
  unfold CoveragePlanningIndex.exprForFilter at h
  unfold LoweredFilter.eval at heval
  split at h
  · next atom hatom =>
    obtain rfl := Option.some.inj h
    obtain ⟨predicate, hpredicate, hatom⟩ := Option.bind_eq_some_iff.mp hatom
    rw [hlowered.expr predicate hpredicate] at heval
    have hmem : predicate ∈ filter.predicates := by
      refine List.mem_append_left _ ?_
      rw [hpredicate]
      exact List.mem_singleton_self _
    rw [CoveragePredicateExpr.Holds]
    exact atomForPredicate_holds hatom (himplies predicate hmem) heval
  · obtain ⟨predicateExpr, hexpr, hcoverage⟩ := Option.bind_eq_some_iff.mp h
    rw [hexpr] at heval
    refine coverageExprForPredicateExpr_holds predicateExpr (fun predicate hmem => ?_) hcoverage
      heval
    refine himplies predicate (List.mem_append_right _ ?_)
    rw [hexpr]
    simpa using hmem

/-- The coverage expression of filters holds where they are all TRUE. -/
theorem attachToFilters_holds {filters : List LoweredFilter}
    (hlowered : ∀ filter ∈ filters, IsLowered state.lowering filter)
    (himplies : ∀ filter ∈ filters, ∀ predicate ∈ filter.predicates,
      Implies crc32c state meaning row predicate)
    (h : ((CoveragePlanningIndex.build crc32c state).attachToFilters filters).2 = some expr)
    (heval : ∀ filter ∈ filters, filter.eval row = .tt) :
    expr.Holds (FormHolds crc32c state meaning row) := by
  unfold CoveragePlanningIndex.attachToFilters at h
  dsimp only at h
  refine conjunction_holds h fun c hc => ?_
  obtain ⟨⟨_, coverage⟩, hmem, hcoverage⟩ := List.mem_filterMap.mp hc
  obtain ⟨filter, hfilter, heq⟩ := List.mem_map.mp hmem
  refine exprForFilter_holds (hlowered filter hfilter) (himplies filter hfilter) ?_
    (heval filter hfilter)
  rw [heq]
  exact hcoverage

end

/-- **The forms are attached soundly to the filters of expressions exactly when each is
faithful to its predicate.** -/
theorem attachToFilters_sound_iff (crc32c : List UInt8 → Nat) (state : FormPlanningState)
    (exprs : List (LowerExpr × String)) :
    AttachesSoundly crc32c state (loweredFilters state.lowering exprs) ↔
      ∀ filter ∈ loweredFilters state.lowering exprs, ∀ predicate ∈ filter.predicates, ∀ form,
        Attaches crc32c state predicate form → Faithful crc32c state predicate form := by
  have hlowered : ∀ filter ∈ loweredFilters state.lowering exprs,
      IsLowered state.lowering filter := by
    intro filter hfilter
    obtain ⟨⟨expr, display⟩, -, hmem⟩ := List.mem_flatMap.mp hfilter
    exact lowerFilters_isLowered expr display filter hmem
  have heach : ∀ filter ∈ loweredFilters state.lowering exprs, ∀ predicate ∈ filter.predicates,
      ∀ form, Attaches crc32c state predicate form →
        (AttachedSoundly crc32c state predicate form ↔ Faithful crc32c state predicate form) := by
    intro filter hfilter predicate hpredicate form hattached
    exact attachedSoundly_iff hattached ((hlowered filter hfilter).predicates predicate hpredicate)
  constructor
  · intro hsound filter hfilter predicate hpredicate form hattached
    exact (heach filter hfilter predicate hpredicate form hattached).mp
      (hsound.attached filter hfilter predicate hpredicate form hattached)
  · intro hfaithful
    have hattached : ∀ filter ∈ loweredFilters state.lowering exprs,
        ∀ predicate ∈ filter.predicates, ∀ form, Attaches crc32c state predicate form →
          AttachedSoundly crc32c state predicate form := by
      intro filter hfilter predicate hpredicate form hattached
      exact (heach filter hfilter predicate hpredicate form hattached).mpr
        (hfaithful filter hfilter predicate hpredicate form hattached)
    refine ⟨hattached, fun expr hexpr meaning row hrow heval => ?_⟩
    refine attachToFilters_holds hlowered ?_ hexpr heval
    intro filter hfilter predicate hpredicate form hform htruth
    exact (hattached filter hfilter predicate hpredicate form hform).implied meaning row hrow
      htruth

end

/-! ## A form about the other boolean -/

/-- CRC-32C, bit by bit. -/
def castagnoli (bytes : List UInt8) : Nat :=
  bytes.foldl (fun register byte =>
    (List.range 8).foldl (fun register _ =>
      if register &&& 1 = 1 then (register >>> 1) ^^^ 0x82F63B78 else register >>> 1)
      (register ^^^ byte.toNat)) 0xFFFFFFFF ^^^ 0xFFFFFFFF

/-- A record with its checksum at the end. -/
def checkedRecord (fields : List (Nat × Nat)) : List UInt8 :=
  let body := fields.flatMap fun (width, value) => LittleEndian.toLe width value
  body ++ LittleEndian.toLe 4 (castagnoli (body ++ [0, 0, 0, 0]))

/-- The predicate `x = true`, its literal being the empty payload under the tag of `true`. -/
def equalsTruePayload : List UInt8 :=
  checkedRecord [(4, 0), (4, 1), (4, 1), (4, 0), (4, 0), (4, 2), (8, 72), (8, 112), (8, 0), (8, 0),
      (8, 140), (4, 0)] ++
    checkedRecord [(4, 0), (2, 4), (2, 0), (2, 1), (2, 0), (1, 0), (1, 0), (2, 2), (4, 0),
      (4, absentId), (4, absentId), (4, absentId), (4, absentId)] ++
    checkedRecord [(4, 0), (2, ValueTag.boolTrue.code), (2, 1), (4, 0), (8, 0), (4, 0)] ++
    checkedRecord [(4, 0), (2, 0), (1, 3), (1, 0), (4, 0)] ++
    checkedRecord [(4, 0), (2, 1), (1, 1), (1, 0), (4, 0)]

def equalsTrueForm : PredicateNormalFormWithPayloadV2 := ⟨7, 0, equalsTruePayload⟩

/-- A file of one boolean column in codes, with that predicate embedded. -/
def equalsTrueState : FormPlanningState :=
  ⟨codedColumn .bool, 0, [equalsTrueForm], [], [], fun _ => []⟩

/-- `x = false`. -/
def equalsFalse : LowerExpr := equalsLiteral ⟨.boolean false, trivial⟩

example : castagnoli [0x31, 0x32, 0x33, 0x34, 0x35, 0x36, 0x37, 0x38, 0x39] = 0xE3069283 := by
  decide +kernel

/-- **The form of `x = true` is attached to the filter `x = false`.** -/
theorem equalsTrue_attached_to_equalsFalse :
    ¬ AttachesSoundly castagnoli equalsTrueState
      (loweredFilters equalsTrueState.lowering [(equalsFalse, "")]) := by
  intro hsound
  have hpredicates : [CovePredicate.fileCodeIn 0 (.ofList []) [[]],
      .fileCodeIn 0 (.ofList []) [[]]] ∈
        (loweredFilters equalsTrueState.lowering [(equalsFalse, "")]).map
          LoweredFilter.predicates := by decide +kernel
  obtain ⟨filter, hfilter, hpredicate⟩ := List.mem_map.mp hpredicates
  have hmem : .fileCodeIn 0 (.ofList []) [[]] ∈ filter.predicates := by
    rw [hpredicate]
    exact List.mem_cons_self
  have hmatch : formMatch castagnoli equalsTrueState equalsTrueForm =
      some ⟨7, 0, 0, .bool, .fileCode, .eq, some []⟩ := by decide +kernel
  have hattached : Attaches castagnoli equalsTrueState (.fileCodeIn 0 (.ofList []) [[]])
      equalsTrueForm := ⟨List.mem_singleton_self _, _, hmatch, by decide +kernel⟩
  obtain ⟨⟨expr, display⟩, -, hlowered⟩ := List.mem_flatMap.mp hfilter
  obtain ⟨_, _, column, -, hcolumn, -, hfaithful⟩ := (attachedSoundly_iff hattached
    ((lowerFilters_isLowered _ _ filter hlowered).predicates _ hmem)).mp
      (hsound.attached filter hfilter _ hmem _ hattached)
  obtain rfl := Option.some.inj hcolumn
  -- the column is boolean
  exact (hfaithful [] rfl).2.1 rfl

end Cove
