import Cove.DataFusion.FileCodeLiteral

/-!
# Lowering filter expressions

A filter expression of the query is split into the predicates a scan evaluates itself. A
part that is not lowered counts as a fallback, and a lowered predicate is promoted to an
exact one when the scan answers it for every row.

- `LowerExpr`, `LoweredFilter`, `FilterLowering`.
- `classifyColumnLiteral` and its siblings: the predicate of a comparison.
- `filterExactness`, `promoteFilterExactness`.
- `lowerFilters`: **the predicates of an expression**.
-/

namespace Cove

open Ieee754 (F64)

/-! ## Expressions -/

/-- The literal is of its type. -/
def LowerLiteral.InRange : LowerLiteral → Prop
  | .int128 v => -2 ^ 127 ≤ v ∧ v < 2 ^ 127
  | .int64 v => -2 ^ 63 ≤ v ∧ v < 2 ^ 63
  | .uint64 v => v < 2 ^ 64
  | _ => True

abbrev QueryLiteral := { literal : LowerLiteral // literal.InRange }

inductive LowerOperator where
  | eq
  | lt
  | ltEq
  | gt
  | gtEq
  deriving DecidableEq, Repr

/-- A filter expression of the query. -/
inductive LowerExpr where
  | column (name : Text)
  | literal (literal : QueryLiteral)
  | isNull (input : LowerExpr)
  | isNotNull (input : LowerExpr)
  | and (children : List LowerExpr)
  | or (children : List LowerExpr)
  | binary (left : LowerExpr) (op : LowerOperator) (right : LowerExpr)
  | between (expr low high : LowerExpr)
  | inList (expr : LowerExpr) (list : List LowerExpr) (negated : Bool)
  | unsupported (text : Text)

/-! ## What the lowering knows of the table -/

structure LoweringColumn where
  name : Text
  nullable : Bool
  entry : ColumnEntry
  deriving DecidableEq, Repr

structure LoweringFile where
  hasRedaction : Bool
  hasReverseLookup : Bool
  deriving DecidableEq, Repr

/-- The part of the dataset state that lowering reads. -/
structure LoweringState where
  columns : List LoweringColumn
  files : List LoweringFile
  deriving DecidableEq, Repr

/-! ## Filters -/

inductive CoveFilterUse where
  | unsupported
  | pruningOnly
  | fullRowPredicateExact
  deriving DecidableEq, Repr

inductive CovePredicateExpr where
  | atom (predicate : CovePredicate)
  | and (exprs : List CovePredicateExpr)
  | or (exprs : List CovePredicateExpr)

/-- `FilterPlan`, as the lowering makes it. -/
structure LoweredFilter where
  useKind : CoveFilterUse
  predicateColumns : List Nat
  display : String
  predicate : Option CovePredicate
  predicateExpr : Option CovePredicateExpr
  coveragePredicateFormRef : Option Nat

/-- `FilterPlan::unsupported`. -/
def LoweredFilter.unsupported (display : String) : LoweredFilter :=
  ⟨.unsupported, [], display, none, none, none⟩

/-- `FilterPlan::pruning_expr`. -/
def LoweredFilter.pruningExpr (predicateColumns : List Nat) (expr : CovePredicateExpr)
    (display : String) : LoweredFilter :=
  ⟨.pruningOnly, predicateColumns, display, none, some expr, none⟩

/-- `FilterPlan::pruning_null` and its siblings: a filter of one predicate. -/
def LoweredFilter.pruning (predicate : CovePredicate) (display : String) : LoweredFilter :=
  ⟨.pruningOnly, [predicateColumnIndex predicate], display, some predicate,
    some (.atom predicate), none⟩

/-- `FilterLowering`. -/
structure FilterLowering where
  filters : List LoweredFilter
  fallbacks : Nat

def FilterLowering.empty : FilterLowering := ⟨[], 0⟩

namespace FilterLowering

def push (lowering : FilterLowering) (filter : LoweredFilter) : FilterLowering :=
  { lowering with filters := lowering.filters ++ [filter] }

def fallBack (lowering : FilterLowering) : FilterLowering :=
  { lowering with fallbacks := lowering.fallbacks + 1 }

end FilterLowering

/-! ## Comparisons -/

/-- `top_level_column_index`. -/
def topLevelColumnIndex (state : LoweringState) : LowerExpr → Option Nat
  | .column name => state.columns.findIdx? fun candidate => candidate.name == name
  | _ => none

/-- `flip_op`. -/
def flipOp : LowerOperator → LowerOperator
  | .eq => .eq
  | .lt => .gt
  | .ltEq => .gtEq
  | .gt => .lt
  | .gtEq => .ltEq

/-- `numeric_op`. -/
def numericOp : LowerOperator → NumericPredicateOp
  | .eq => .eq
  | .lt => .lt
  | .ltEq => .ltEq
  | .gt => .gt
  | .gtEq => .gtEq

/-- `PredicateLiteral::normalized`: a negative zero counts as zero. -/
def PredicateLiteral.normalized : PredicateLiteral → PredicateLiteral
  | .float64 v => if v.value = some 0 then .float64 ⟨0#64⟩ else .float64 v
  | literal => literal

/-- `numeric_literal`. -/
def numericLiteral : LowerLiteral → Option PredicateLiteral
  | .int128 v =>
    if -2 ^ 63 ≤ v ∧ v < 2 ^ 63 then some (.int64 (BitVec.ofInt 64 v)) else none
  | .int64 v => some (.int64 (BitVec.ofInt 64 v))
  | .uint64 v => some (.uint64 (BitVec.ofNat 64 v))
  | .float64 v => if v.isNaN then none else some (PredicateLiteral.normalized (.float64 v))
  | _ => none

/-- `is_top_level_scalar`. -/
def isTopLevelScalar (logical : CoveLogicalType) (physical : CovePhysicalKind) : Bool :=
  (match logical with
    | .list | .struct | .map => false
    | _ => true) &&
  (match physical with
    | .list | .struct | .map => false
    | _ => true)

/-- A filter of a predicate, or none. -/
def LoweredFilter.ofPredicate (predicate : Option CovePredicate) (display : String) :
    LoweredFilter :=
  match predicate with
  | some predicate => .pruning predicate display
  | none => .unsupported display

/-- `classify_null_filter`. -/
def classifyNullFilter (state : LoweringState) (input : LowerExpr) (kind : NullPredicateKind)
    (display : String) : LoweredFilter :=
  .ofPredicate (do
    let columnIndex ← topLevelColumnIndex state input
    let column ← state.columns[columnIndex]?
    if !isTopLevelScalar column.entry.logical column.entry.physical then none
    else if kind = .isNotNull ∧ !column.nullable then none
    else some (.null columnIndex kind)) display

/-- The predicate of `classify_column_literal`. -/
def columnLiteralPredicate (columnIndex : Nat) (column : ColumnEntry) (op : LowerOperator)
    (literal : LowerLiteral) : Option CovePredicate :=
  match column.physical with
  | .numCode =>
    (numericLiteral literal).map fun literal =>
      .numeric columnIndex (numericOp op) literal.normalized
  | .fileCode => if op = .eq then fileCodeInFilter columnIndex column [literal] else none
  | .varBytes =>
    if op = .eq ∧ column.logical = .utf8 then
      match literal with
      | .utf8 value => some (.varBytesEq columnIndex value.bytes)
      | _ => none
    else none
  | _ => none

/-- `classify_column_literal`. -/
def classifyColumnLiteral (state : LoweringState) (columnIndex : Nat) (op : LowerOperator)
    (literal : LowerLiteral) (display : String) : LoweredFilter :=
  .ofPredicate (do
    let column ← state.columns[columnIndex]?
    columnLiteralPredicate columnIndex column.entry op literal) display

/-- `column_literal_binary`. -/
def columnLiteralBinary (state : LoweringState) (column : LowerExpr) (op : LowerOperator)
    (literal : LowerExpr) : Option (Nat × QueryLiteral × LowerOperator) := do
  let columnIndex ← topLevelColumnIndex state column
  match literal with
  | .literal literal => some (columnIndex, literal, op)
  | _ => none

/-- `classify_binary_filter`: a column compared with a literal, in either order. -/
def classifyBinaryFilter (state : LoweringState) (left : LowerExpr) (op : LowerOperator)
    (right : LowerExpr) (display : String) : LoweredFilter :=
  match columnLiteralBinary state left op right with
  | some (columnIndex, literal, op) => classifyColumnLiteral state columnIndex op literal display
  | none =>
    match columnLiteralBinary state right (flipOp op) left with
    | some (columnIndex, literal, op) =>
      classifyColumnLiteral state columnIndex op literal display
    | none => .unsupported display

/-- The items of a list, when they are all literals. -/
def listLiterals : List LowerExpr → Option (List QueryLiteral)
  | [] => some []
  | .literal literal :: list => (listLiterals list).map (literal :: ·)
  | _ :: _ => none

/-- `classify_in_list_filter`. -/
def classifyInListFilter (state : LoweringState) (expr : LowerExpr) (list : List LowerExpr)
    (display : String) : LoweredFilter :=
  .ofPredicate (do
    let columnIndex ← topLevelColumnIndex state expr
    let column ← state.columns[columnIndex]?
    let literals ← listLiterals list
    fileCodeInFilter columnIndex column.entry (literals.map Subtype.val)) display

/-! ## Exactness -/

inductive PredicateExactness where
  | pruningOnly
  | fullRowPredicateExact
  deriving DecidableEq, Repr

/-- What `filter_exactness` says of a predicate. -/
def predicateExactness (state : LoweringState) : CovePredicate → PredicateExactness
  | .null _ _ => .pruningOnly
  | .numeric columnIndex _ _ =>
    match state.columns[columnIndex]? with
    | none => .pruningOnly
    | some column =>
      if column.entry.physical = .numCode then .fullRowPredicateExact else .pruningOnly
  | .fileCodeIn columnIndex _ canonicalValues =>
    match state.columns[columnIndex]? with
    | none => .pruningOnly
    | some column =>
      if column.entry.physical ≠ .fileCode then .pruningOnly
      else if state.files.any fun file => file.hasRedaction then .pruningOnly
      else if !canonicalValues.isEmpty && state.files.any fun file => !file.hasReverseLookup then
        .pruningOnly
      else .fullRowPredicateExact
  | .varBytesEq columnIndex _ =>
    match state.columns[columnIndex]? with
    | none => .pruningOnly
    | some column =>
      if column.entry.physical = .varBytes ∧ column.entry.logical = .utf8 then
        .fullRowPredicateExact
      else .pruningOnly

/-- `filter_exactness`. -/
def filterExactness (state : LoweringState) (filter : LoweredFilter) : PredicateExactness :=
  match filter.predicate with
  | none => .pruningOnly
  | some predicate => predicateExactness state predicate

/-- `promote_filter_exactness`. -/
def promoteFilterExactness (state : LoweringState) (filter : LoweredFilter) : LoweredFilter :=
  if filter.useKind = .unsupported then filter
  else
    { filter with
      useKind :=
        match filterExactness state filter with
        | .fullRowPredicateExact => .fullRowPredicateExact
        | .pruningOnly => .pruningOnly }

/-! ## Expressions to filters -/

/-- `lower_atom_filter`. -/
def lowerAtomFilter (state : LoweringState) (expr : LowerExpr) (display : String) :
    LoweredFilter :=
  promoteFilterExactness state
    (match expr with
      | .isNull input => classifyNullFilter state input .isNull display
      | .isNotNull input => classifyNullFilter state input .isNotNull display
      | .binary left op right => classifyBinaryFilter state left op right display
      | .inList expr list false => classifyInListFilter state expr list display
      | _ => .unsupported display)

/-- `push_lowered_atom`. -/
def pushLoweredAtom (state : LoweringState) (expr : LowerExpr) (display : String)
    (lowering : FilterLowering) : FilterLowering :=
  let filter := lowerAtomFilter state expr display
  if filter.useKind = .unsupported then lowering.fallBack else lowering.push filter

/-- `predicate_expr_for_filters`. -/
def predicateExprForFilters (filters : List LoweredFilter) : Option CovePredicateExpr := do
  match ← filters.mapM LoweredFilter.predicateExpr with
  | [] => none
  | [expr] => some expr
  | exprs => some (.and exprs)

mutual

/-- `lower_filters_into`. -/
def lowerFiltersInto (state : LoweringState) (display : String) :
    LowerExpr → FilterLowering → FilterLowering
  | .and children, lowering => lowerEachInto state display children lowering
  | .between expr low high, lowering =>
    pushLoweredAtom state (.binary expr .ltEq high) (display ++ " upper")
      (pushLoweredAtom state (.binary expr .gtEq low) (display ++ " lower") lowering)
  | .or children, lowering =>
    match lowerDisjuncts state display children with
    | some (exprs, predicateColumns) =>
      lowering.push (.pruningExpr (predicateColumns.insertionSort (· ≤ ·)).dedup (.or exprs)
        display)
    | none => lowering.fallBack
  | .unsupported _, lowering => lowering.fallBack
  | expr, lowering => pushLoweredAtom state expr display lowering

/-- The loop over the children of a conjunction. -/
def lowerEachInto (state : LoweringState) (display : String) :
    List LowerExpr → FilterLowering → FilterLowering
  | [], lowering => lowering
  | child :: children, lowering =>
    lowerEachInto state display children (lowerFiltersInto state display child lowering)

/-- The loop over the children of a disjunction: none when one of them is not lowered. -/
def lowerDisjuncts (state : LoweringState) (display : String) :
    List LowerExpr → Option (List CovePredicateExpr × List Nat)
  | [] => some ([], [])
  | child :: children =>
    let childLowering := lowerFiltersInto state display child .empty
    if childLowering.fallbacks ≠ 0 ∨ childLowering.filters.isEmpty then none
    else
      (predicateExprForFilters childLowering.filters).bind fun expr =>
        (lowerDisjuncts state display children).map fun (exprs, predicateColumns) =>
          (expr :: exprs,
            childLowering.filters.flatMap LoweredFilter.predicateColumns ++ predicateColumns)

end

/-- `lower_filters`. -/
def lowerFilters (state : LoweringState) (expr : LowerExpr) (display : String) :
    FilterLowering :=
  lowerFiltersInto state display expr .empty

end Cove
