import Mathlib.Data.List.GetD
import Cove.Arrow.ConvertedColumn

/-!
# Stable clustering

The rows of a conversion are sorted by declared columns, and every column is put in the new order,
nested ones with all of their children.

- `NestedColumn.reorder`, `ConvertedColumn.reorder`: a column in a new order.
- `applyStableClustering`: **the clustering of a conversion**.
- `cellAt`: a row of a column with all that it holds.
- `reorder_spec`: **the cells of a reordered column are those of the order**.
- `applyStableClustering_spec`: one order for all columns, ascending in the clustered ones.
-/

namespace Cove.Conversion

open Checked

/-! ## Reordering -/

/-- `reorder_copy`, `reorder_clone`. -/
def pick {α : Type} (values : List α) (order : List Nat) : Except Fault (List α) :=
  order.mapM fun index =>
    match values[index]? with
    | some value => .ok value
    | none => .error .panic

/-- `MaterializedValues::reorder`. -/
def MaterializedValues.reorder (order : List Nat) :
    MaterializedValues → Except Fault MaterializedValues
  | boolean values => (pick values order).map boolean
  | fileCode values => (pick values order).map fileCode
  | numCode values => (pick values order).map numCode
  | varBytes values => (pick values order).map varBytes
  | fixedBytes width values => (pick values order).map (fixedBytes width)

/-- An offset, or the error of a row out of range. -/
def offsetAt (offsets : List Nat) (row : Nat) : Except CoveError Nat :=
  match offsets[row]? with
  | some offset => .ok offset
  | none => .error (.badSchema "nested reorder row out of range")

/-- The loop of `reordered_child_order`: the ends of the rows in the new order, and their child
rows. -/
def reorderedChildren (offsets : List Nat) : List Nat → Nat → Except CoveError (List Nat × List Nat)
  | [], _ => .ok ([], [])
  | row :: order, nextOffset => do
    let start ← offsetAt offsets row
    let stop ← offsetAt offsets (row + 1)
    let len ← checkedSub stop start
    let nextOffset ← checkedAddU32 nextOffset len
    let (ends, children) ← reorderedChildren offsets order nextOffset
    .ok (nextOffset :: ends, List.range' start len ++ children)

/-- `reordered_child_order`. -/
def reorderedChildOrder (offsets order : List Nat) : Except CoveError (List Nat × List Nat) :=
  (reorderedChildren offsets order 0).map fun (ends, children) => (0 :: ends, children)

mutual

/-- `NestedColumnData::reorder`. -/
def NestedColumn.reorder : NestedColumn → List Nat → Except Fault NestedColumn
  | .scalar values nulls, order => do
    let values ← values.reorder order
    let nulls ← pick nulls order
    .ok (.scalar values nulls)
  | .struct fields nulls, order => do
    let nulls ← pick nulls order
    let fields ← reorderFields fields order
    .ok (.struct fields nulls)
  | .list offsets child nulls, order => do
    let (offsets, childOrder) ← Fault.lift (reorderedChildOrder offsets order)
    let nulls ← pick nulls order
    let child ← child.reorder childOrder
    .ok (.list offsets child nulls)
  | .map offsets keys values canonicalKeys nulls, order => do
    let (offsets, childOrder) ← Fault.lift (reorderedChildOrder offsets order)
    let nulls ← pick nulls order
    let keys ← keys.reorder childOrder
    let values ← values.reorder childOrder
    let canonicalKeys ← pick canonicalKeys childOrder
    .ok (.map offsets keys values canonicalKeys nulls)

def reorderFields : List NestedColumn → List Nat → Except Fault (List NestedColumn)
  | [], _ => .ok []
  | field :: fields, order => do
    let field ← field.reorder order
    let fields ← reorderFields fields order
    .ok (field :: fields)

end

/-- The body of the last loop of `apply_stable_clustering`. -/
def ConvertedColumn.reorder (self : ConvertedColumn) (order : List Nat) :
    Except Fault ConvertedColumn :=
  match self.nested with
  | some nested => do
    let nested ← nested.reorder order
    .ok { self with nested := some nested }
  | none => do
    let values ← self.values.reorder order
    let nulls ← pick self.nulls order
    .ok { self with values, nulls }

/-! ## Clustering -/

inductive ParquetClusteringPolicy where
  | preserveSourceOrder
  | stableClusterDeclaredColumns
  deriving DecidableEq, Repr

structure ClusteringOptions where
  clusteringPolicy : ParquetClusteringPolicy
  clusterColumns : List String
  deriving DecidableEq, Repr

/-- The column of a name. -/
def clusterColumn (columns : List ConvertedColumn) (name : String) :
    Except CoveError ConvertedColumn :=
  match columns.find? fun column => column.name == name with
  | some column => .ok column
  | none => .error (.badSchema s!"stable clustering references unknown column '{name}'")

/-- `apply_stable_clustering`. -/
def applyStableClustering (columns : List ConvertedColumn) (options : ClusteringOptions) :
    Except Fault (List ConvertedColumn × Option String) :=
  if options.clusteringPolicy = .preserveSourceOrder then
    if options.clusterColumns.isEmpty then .ok (columns, none)
    else .ok (columns, some ("Cluster columns were declared, but stable clustering was not " ++
      "enabled; source row order was preserved"))
  else if options.clusterColumns.isEmpty then
    .ok (columns, some ("Stable clustering was requested without declared cluster columns; " ++
      "source row order was preserved"))
  else do
    let keys ← Fault.lift (options.clusterColumns.mapM (clusterColumn columns))
    let rowCount := (columns.head?.map ConvertedColumn.rowCount).getD 0
    let order := StableSort.stableOrder (keys.map compareRowsForCluster) rowCount
    let columns ← columns.mapM fun column => column.reorder order
    .ok (columns, some ("Applied stable clustering by declared columns: " ++
      ",".intercalate options.clusterColumns))

/-! ## Cells -/

/-- A row of a column, with all that it holds. -/
inductive Cell where
  | scalar (null : Bool) (value : StoredScalar)
  | list (null : Bool) (items : List Cell)
  | struct (null : Bool) (fields : List Cell)
  | map (null : Bool) (keys values : List Cell) (canonicalKeys : List (List UInt8))

/-- The child rows of a row. -/
def childRows (offsets : List Nat) (row : Nat) : List Nat :=
  List.range' (offsets.getD row 0) (offsets.getD (row + 1) 0 - offsets.getD row 0)

mutual

def NestedColumn.cellAt : NestedColumn → Nat → Cell
  | .scalar values nulls, row => .scalar (nulls.getD row false) (values.valueAt row)
  | .list offsets child nulls, row =>
    .list (nulls.getD row false) ((childRows offsets row).map fun r => child.cellAt r)
  | .struct fields nulls, row => .struct (nulls.getD row false) (fieldCells fields row)
  | .map offsets keys values canonicalKeys nulls, row =>
    .map (nulls.getD row false) ((childRows offsets row).map fun r => keys.cellAt r)
      ((childRows offsets row).map fun r => values.cellAt r)
      ((childRows offsets row).map fun r => canonicalKeys.getD r [])

def fieldCells : List NestedColumn → Nat → List Cell
  | [], _ => []
  | field :: fields, row => field.cellAt row :: fieldCells fields row

end

def ConvertedColumn.cellAt (self : ConvertedColumn) (row : Nat) : Cell :=
  match self.nested with
  | some nested => nested.cellAt row
  | none => .scalar (self.nulls.getD row false) (self.values.valueAt row)

/-! ## Well-formed columns -/

/-- Offsets of `n` rows into `m` child rows. -/
structure Offsets (offsets : List Nat) (n m : Nat) : Prop where
  length : offsets.length = n + 1
  ascending : ∀ row < n, offsets.getD row 0 ≤ offsets.getD (row + 1) 0
  last : offsets.getD n 0 ≤ m
  small : m < 2 ^ 32

mutual

/-- A nested column of `n` rows: flags, values, fields and offsets are there for every row. -/
def NestedColumn.WellFormed : NestedColumn → Nat → Prop
  | .scalar values nulls, n => values.rowCount = n ∧ nulls.length = n
  | .list offsets child nulls, n =>
    nulls.length = n ∧ ∃ m, Offsets offsets n m ∧ child.WellFormed m
  | .struct fields nulls, n => nulls.length = n ∧ FieldsWellFormed fields n
  | .map offsets keys values canonicalKeys nulls, n =>
    nulls.length = n ∧ ∃ m, Offsets offsets n m ∧ keys.WellFormed m ∧ values.WellFormed m ∧
      canonicalKeys.length = m

def FieldsWellFormed : List NestedColumn → Nat → Prop
  | [], _ => True
  | field :: fields, n => field.WellFormed n ∧ FieldsWellFormed fields n

end

/-- A column of `n` rows. -/
def ConvertedColumn.WellFormed (self : ConvertedColumn) (n : Nat) : Prop :=
  match self.nested with
  | some nested => nested.WellFormed n
  | none => self.values.rowCount = n ∧ self.nulls.length = n

/-! ## Columns in a new order -/

/-- Rows of a column, none of them twice. -/
structure Rows (order : List Nat) (n : Nat) : Prop where
  nodup : order.Nodup
  lt : ∀ row ∈ order, row < n

variable {order offsets : List Nat} {n m : Nat}

theorem pick_spec {α : Type} {values : List α} (hrows : ∀ row ∈ order, row < values.length) :
    ∃ picked, pick values order = .ok picked ∧ picked.length = order.length ∧
      ∀ p (hp : p < order.length) d, picked.getD p d = values.getD order[p] d := by
  induction order with
  | nil => exact ⟨[], rfl, rfl, fun p hp => absurd hp (Nat.not_lt_zero p)⟩
  | cons row order ih =>
    obtain ⟨hrow, hrest⟩ := List.forall_mem_cons.mp hrows
    obtain ⟨picked, hpick, hlength, hget⟩ := ih hrest
    have hvalue : values[row]? = some values[row] := List.getElem?_eq_getElem hrow
    refine ⟨values[row] :: picked, ?_, ?_, ?_⟩
    · unfold pick at hpick ⊢
      rw [List.mapM_cons, hpick, hvalue]
      rfl
    · rw [List.length_cons, List.length_cons, hlength]
    · intro p hp d
      cases p with
      | zero => exact (List.getD_eq_getElem _ _ hrow).symm
      | succ p => exact hget p (Nat.lt_of_succ_lt_succ hp) d

/-- There are no more rows in an order than in the column. -/
theorem Rows.length_le (h : Rows order n) : order.length ≤ n := by
  have hsub : order ⊆ List.range n := fun row hrow => List.mem_range.mpr (h.lt row hrow)
  have := (h.nodup.subperm hsub).length_le
  rwa [List.length_range] at this

theorem Offsets.mono (h : Offsets offsets n m) {i j : Nat} (hij : i ≤ j) (hj : j ≤ n) :
    offsets.getD i 0 ≤ offsets.getD j 0 := by
  induction j with
  | zero =>
    obtain rfl := Nat.le_zero.mp hij
    exact le_refl _
  | succ j ih =>
    rcases Nat.lt_or_eq_of_le hij with hlt | rfl
    · exact (ih (Nat.le_of_lt_succ hlt) (by omega)).trans (h.ascending j (by omega))
    · exact le_refl _

theorem mem_childRows {row r : Nat} : r ∈ childRows offsets row ↔
    offsets.getD row 0 ≤ r ∧ r < offsets.getD (row + 1) 0 := by
  unfold childRows
  rw [List.mem_range'_1]
  omega

/-- The child rows of different rows are different. -/
theorem Offsets.rows_children (h : Offsets offsets n m) (hrows : Rows order n) :
    Rows (order.flatMap (childRows offsets)) m where
  nodup := by
    rw [List.nodup_flatMap]
    refine ⟨fun row _ => List.nodup_range' .., hrows.nodup.imp_of_mem ?_⟩
    intro a b ha hb hne r hra hrb
    rw [mem_childRows] at hra hrb
    rcases Nat.lt_or_gt_of_ne hne with hlt | hlt
    · have := h.mono (show a + 1 ≤ b from hlt) (hrows.lt b hb).le
      omega
    · have := h.mono (show b + 1 ≤ a from hlt) (hrows.lt a ha).le
      omega
  lt r hr := by
    obtain ⟨row, hrow, hr⟩ := List.mem_flatMap.mp hr
    have := h.mono (show row + 1 ≤ n from hrows.lt row hrow) (le_refl n)
    have := h.last
    rw [mem_childRows] at hr
    omega

/-! ## Offsets -/

/-- The ends of rows in a new order. -/
def endsFrom (offsets : List Nat) : Nat → List Nat → List Nat
  | _, [] => []
  | next, row :: order =>
    (next + (childRows offsets row).length) ::
      endsFrom offsets (next + (childRows offsets row).length) order

@[simp] theorem length_childRows (offsets : List Nat) (row : Nat) :
    (childRows offsets row).length = offsets.getD (row + 1) 0 - offsets.getD row 0 :=
  List.length_range'

theorem length_endsFrom (next : Nat) : (endsFrom offsets next order).length = order.length := by
  induction order generalizing next with
  | nil => rfl
  | cons row order ih => rw [endsFrom, List.length_cons, ih, List.length_cons]

variable {p : Nat}

/-- The offset of a place is behind the child rows of the places before it. -/
theorem getD_endsFrom (next : Nat) (hp : p ≤ order.length) :
    (next :: endsFrom offsets next order).getD p 0 =
      next + ((order.take p).flatMap (childRows offsets)).length := by
  induction order generalizing next p with
  | nil =>
    obtain rfl := Nat.le_zero.mp hp
    rfl
  | cons row order ih =>
    cases p with
    | zero => rfl
    | succ p =>
      have := ih (next + (childRows offsets row).length) (Nat.le_of_succ_le_succ hp)
      rw [endsFrom, List.getD_cons_succ, this, List.take_succ_cons, List.flatMap_cons,
        List.length_append, Nat.add_assoc]

theorem offsetAt_eq {row : Nat} (h : row < offsets.length) :
    offsetAt offsets row = .ok (offsets.getD row 0) := by
  unfold offsetAt
  rw [List.getElem?_eq_getElem h, List.getD_eq_getElem _ _ h]

/-- **The loop gives the ends of the rows, and their child rows in order.** -/
theorem reorderedChildren_eq (h : Offsets offsets n m) (hlt : ∀ row ∈ order, row < n) {next : Nat}
    (hsmall : next + (order.flatMap (childRows offsets)).length < 2 ^ 32) :
    reorderedChildren offsets order next =
      .ok (endsFrom offsets next order, order.flatMap (childRows offsets)) := by
  induction order generalizing next with
  | nil => rfl
  | cons row order ih =>
    obtain ⟨hrow, hrest⟩ := List.forall_mem_cons.mp hlt
    rw [List.flatMap_cons, List.length_append, ← Nat.add_assoc] at hsmall
    have hlength := h.length
    have hsub : checkedSub (offsets.getD (row + 1) 0) (offsets.getD row 0) =
        .ok (childRows offsets row).length :=
      sub_eq_ok.mpr ⟨h.ascending row hrow, length_childRows offsets row⟩
    have hadd : checkedAddU32 next (childRows offsets row).length =
        .ok (next + (childRows offsets row).length) :=
      addU32_eq_ok.mpr ⟨by omega, rfl⟩
    unfold reorderedChildren
    rw [offsetAt_eq (by omega), ok_bind, offsetAt_eq (by omega), ok_bind, hsub, ok_bind, hadd,
      ok_bind, ih hrest hsmall, ok_bind, endsFrom, List.flatMap_cons, length_childRows]
    rfl

/-- The rows of an order with their child rows: new offsets, and the child rows in order. -/
theorem reorderedChildOrder_spec (h : Offsets offsets n m) (hrows : Rows order n) :
    ∃ newOffsets, reorderedChildOrder offsets order =
        .ok (newOffsets, order.flatMap (childRows offsets)) ∧
      Offsets newOffsets order.length (order.flatMap (childRows offsets)).length ∧
      ∀ p (hp : p < order.length), childRows newOffsets p =
        List.range' ((order.take p).flatMap (childRows offsets)).length
          (childRows offsets order[p]).length := by
  have hchildren := h.rows_children hrows
  have hle := hchildren.length_le
  have hsmall := h.small
  have hget : ∀ p ≤ order.length, (0 :: endsFrom offsets 0 order).getD p 0 =
      ((order.take p).flatMap (childRows offsets)).length := fun p hp => by
    rw [getD_endsFrom 0 hp, Nat.zero_add]
  have htake : ∀ p (hp : p < order.length),
      ((order.take (p + 1)).flatMap (childRows offsets)).length =
        ((order.take p).flatMap (childRows offsets)).length +
          (childRows offsets order[p]).length := fun p hp => by
    rw [List.take_succ_eq_append_getElem hp, List.flatMap_append, List.length_append,
      List.flatMap_singleton]
  refine ⟨0 :: endsFrom offsets 0 order, ?_, ⟨?_, ?_, ?_, by omega⟩, ?_⟩
  · unfold reorderedChildOrder
    rw [reorderedChildren_eq h hrows.lt (by omega)]
    rfl
  · rw [List.length_cons, length_endsFrom]
  · intro p hp
    rw [hget p hp.le, hget (p + 1) hp, htake p hp]
    omega
  · rw [hget _ (le_refl _), List.take_length]
  · intro p hp
    show List.range' _ (_ - _) = _
    rw [hget p hp.le, hget (p + 1) hp, htake p hp, Nat.add_sub_cancel_left]

/-! ## Reordered columns -/

theorem MaterializedValues.reorder_spec (values : MaterializedValues)
    (hlt : ∀ row ∈ order, row < values.rowCount) :
    ∃ reordered, values.reorder order = .ok reordered ∧ reordered.rowCount = order.length ∧
      ∀ p (hp : p < order.length), reordered.valueAt p = values.valueAt order[p] := by
  cases values with
  | boolean values =>
    obtain ⟨picked, hpick, hlength, hget⟩ := pick_spec hlt
    exact ⟨.boolean picked, by simp only [reorder, hpick]; rfl, hlength,
      fun p hp => congrArg StoredScalar.boolean (hget p hp 0)⟩
  | fileCode values =>
    obtain ⟨picked, hpick, hlength, hget⟩ := pick_spec hlt
    exact ⟨.fileCode picked, by simp only [reorder, hpick]; rfl, hlength,
      fun p hp => congrArg StoredScalar.fileCode (hget p hp 0)⟩
  | numCode values =>
    obtain ⟨picked, hpick, hlength, hget⟩ := pick_spec hlt
    exact ⟨.numCode picked, by simp only [reorder, hpick]; rfl, hlength,
      fun p hp => congrArg StoredScalar.numCode (hget p hp 0)⟩
  | varBytes values =>
    obtain ⟨picked, hpick, hlength, hget⟩ := pick_spec hlt
    exact ⟨.varBytes picked, by simp only [reorder, hpick]; rfl, hlength,
      fun p hp => congrArg StoredScalar.bytes (hget p hp [])⟩
  | fixedBytes width values =>
    obtain ⟨picked, hpick, hlength, hget⟩ := pick_spec hlt
    exact ⟨.fixedBytes width picked, by simp only [reorder, hpick]; rfl, hlength,
      fun p hp => congrArg StoredScalar.bytes (hget p hp [])⟩

theorem flatMap_split {α β : Type} {l : List α} (f : α → List β) (hp : p < l.length) :
    l.flatMap f = (l.take p).flatMap f ++ (f l[p] ++ (l.drop (p + 1)).flatMap f) := by
  calc l.flatMap f
    _ = (l.take p ++ l.drop p).flatMap f := by rw [List.take_append_drop]
    _ = (l.take p).flatMap f ++ (f l[p] ++ (l.drop (p + 1)).flatMap f) := by
        rw [List.drop_eq_getElem_cons hp, List.flatMap_append, List.flatMap_cons]

/-- What stands for each row of all lists, read over the places of one list. -/
theorem map_range'_flatMap {α : Type} {rows : Nat → List Nat} {f f' : Nat → α}
    (h : ∀ r (hr : r < (order.flatMap rows).length), f' r = f (order.flatMap rows)[r])
    (hp : p < order.length) :
    (List.range' ((order.take p).flatMap rows).length (rows order[p]).length).map f' =
      (rows order[p]).map f := by
  refine List.ext_getElem (by simp) fun i h₁ h₂ => ?_
  have hi : i < (rows order[p]).length := by simpa using h₂
  have hsplit := flatMap_split rows hp
  have hr : ((order.take p).flatMap rows).length + i < (order.flatMap rows).length := by
    rw [hsplit, List.length_append, List.length_append]
    omega
  rw [List.getElem_map, List.getElem_map, List.getElem_range', Nat.one_mul, h _ hr,
    List.getElem_of_eq hsplit hr, List.getElem_append_right (by omega),
    List.getElem_append_left (by omega)]
  congr 1
  simp only [Nat.add_sub_cancel_left]

mutual

/-- **The rows of a reordered nested column are those of the order**, with all of their children. -/
theorem NestedColumn.reorder_spec : ∀ (column : NestedColumn) {n : Nat} {order : List Nat},
    column.WellFormed n → Rows order n →
    ∃ reordered, column.reorder order = .ok reordered ∧ reordered.WellFormed order.length ∧
      ∀ p (hp : p < order.length), reordered.cellAt p = column.cellAt order[p]
  | .scalar values nulls, n, order, h, hrows => by
    obtain ⟨hvalues, hnulls⟩ := h
    obtain ⟨values', hreorder, hcount, hget⟩ :=
      values.reorder_spec fun row hrow => hvalues ▸ hrows.lt row hrow
    obtain ⟨nulls', hpick, hlength, hnull⟩ := pick_spec fun row hrow => hnulls ▸ hrows.lt row hrow
    refine ⟨.scalar values' nulls', ?_, ⟨hcount, hlength⟩, fun p hp => ?_⟩
    · simp only [NestedColumn.reorder, hreorder, hpick, ok_bind]
    · simp only [NestedColumn.cellAt, hnull p hp, hget p hp]
  | .list offsets child nulls, n, order, h, hrows => by
    obtain ⟨hnulls, m, hoffsets, hchild⟩ := h
    obtain ⟨offsets', horder, hoffsets', hrows'⟩ := reorderedChildOrder_spec hoffsets hrows
    obtain ⟨nulls', hpick, hlength, hnull⟩ := pick_spec fun row hrow => hnulls ▸ hrows.lt row hrow
    obtain ⟨child', hreorder, hwf, hcell⟩ :=
      child.reorder_spec hchild (hoffsets.rows_children hrows)
    refine ⟨.list offsets' child' nulls', ?_, ⟨hlength, _, hoffsets', hwf⟩, fun p hp => ?_⟩
    · simp only [NestedColumn.reorder, horder, Fault.lift, Except.mapError, hpick, hreorder,
        ok_bind]
    · simp only [NestedColumn.cellAt, hnull p hp, hrows' p hp, map_range'_flatMap hcell hp]
  | .struct fields nulls, n, order, h, hrows => by
    obtain ⟨hnulls, hfields⟩ := h
    obtain ⟨nulls', hpick, hlength, hnull⟩ := pick_spec fun row hrow => hnulls ▸ hrows.lt row hrow
    obtain ⟨fields', hreorder, hwf, hcell⟩ := reorderFields_spec fields hfields hrows
    refine ⟨.struct fields' nulls', ?_, ⟨hlength, hwf⟩, fun p hp => ?_⟩
    · simp only [NestedColumn.reorder, hpick, hreorder, ok_bind]
    · simp only [NestedColumn.cellAt, hnull p hp, hcell p hp]
  | .map offsets keys values canonicalKeys nulls, n, order, h, hrows => by
    obtain ⟨hnulls, m, hoffsets, hkeys, hvalues, hcanonical⟩ := h
    have hchildren := hoffsets.rows_children hrows
    obtain ⟨offsets', horder, hoffsets', hrows'⟩ := reorderedChildOrder_spec hoffsets hrows
    obtain ⟨nulls', hpick, hlength, hnull⟩ := pick_spec fun row hrow => hnulls ▸ hrows.lt row hrow
    obtain ⟨keys', hreorder, hwf, hcell⟩ := keys.reorder_spec hkeys hchildren
    obtain ⟨values', hvalues', hwfv, hcellv⟩ := values.reorder_spec hvalues hchildren
    obtain ⟨canonical', hpickc, hlengthc, hgetc⟩ :=
      pick_spec fun row hrow => hcanonical ▸ hchildren.lt row hrow
    refine ⟨.map offsets' keys' values' canonical' nulls', ?_,
      ⟨hlength, _, hoffsets', hwf, hwfv, hlengthc⟩, fun p hp => ?_⟩
    · simp only [NestedColumn.reorder, horder, Fault.lift, Except.mapError, hpick, hreorder,
        hvalues', hpickc, ok_bind]
    · have hcanon : (childRows offsets' p).map (fun r => canonical'.getD r []) =
          (childRows offsets order[p]).map fun r => canonicalKeys.getD r [] := by
        rw [hrows' p hp]
        exact map_range'_flatMap (fun r hr => hgetc r hr []) hp
      simp only [NestedColumn.cellAt, hcanon]
      simp only [hnull p hp, hrows' p hp, map_range'_flatMap hcell hp, map_range'_flatMap hcellv hp]

theorem reorderFields_spec : ∀ (fields : List NestedColumn) {n : Nat} {order : List Nat},
    FieldsWellFormed fields n → Rows order n →
    ∃ reordered, reorderFields fields order = .ok reordered ∧
      FieldsWellFormed reordered order.length ∧
      ∀ p (hp : p < order.length), fieldCells reordered p = fieldCells fields order[p]
  | [], n, order, _, _ => ⟨[], rfl, trivial, fun _ _ => rfl⟩
  | field :: fields, n, order, h, hrows => by
    obtain ⟨field', hreorder, hwf, hcell⟩ := field.reorder_spec h.1 hrows
    obtain ⟨fields', hrest, hwfs, hcells⟩ := reorderFields_spec fields h.2 hrows
    refine ⟨field' :: fields', ?_, ⟨hwf, hwfs⟩, fun p hp => ?_⟩
    · simp only [reorderFields, hreorder, hrest, ok_bind]
    · simp only [fieldCells, hcell p hp, hcells p hp]

end

/-- A column in a new order: the same column, with the cells of the order. -/
structure Reordered (order : List Nat) (column reordered : ConvertedColumn) : Prop where
  columnId : reordered.columnId = column.columnId
  name : reordered.name = column.name
  logical : reordered.logical = column.logical
  sourceKind : reordered.sourceKind = column.sourceKind
  wellFormed : reordered.WellFormed order.length
  cells : ∀ p (hp : p < order.length), reordered.cellAt p = column.cellAt order[p]

variable {column : ConvertedColumn}

theorem ConvertedColumn.reorder_spec (h : column.WellFormed n) (hrows : Rows order n) :
    ∃ reordered, column.reorder order = .ok reordered ∧ Reordered order column reordered := by
  unfold ConvertedColumn.WellFormed at h
  cases hnested : column.nested with
  | some nested =>
    rw [hnested] at h
    obtain ⟨nested', hreorder, hwf, hcell⟩ := nested.reorder_spec h hrows
    refine ⟨{ column with nested := some nested' }, ?_, rfl, rfl, rfl, rfl, hwf, fun p hp => ?_⟩
    · simp only [ConvertedColumn.reorder, hnested, hreorder, ok_bind]
    · simp only [ConvertedColumn.cellAt, hnested, hcell p hp]
  | none =>
    rw [hnested] at h
    obtain ⟨hvalues, hnulls⟩ := h
    obtain ⟨values', hreorder, hcount, hget⟩ :=
      column.values.reorder_spec fun row hrow => hvalues ▸ hrows.lt row hrow
    obtain ⟨nulls', hpick, hlength, hnull⟩ := pick_spec fun row hrow => hnulls ▸ hrows.lt row hrow
    refine ⟨{ column with values := values', nulls := nulls' }, ?_, rfl, rfl, rfl, rfl, ?_,
      fun p hp => ?_⟩
    · simp only [ConvertedColumn.reorder, hnested, hreorder, hpick, ok_bind]
    · simp only [ConvertedColumn.WellFormed, hnested, hcount, hlength, and_self]
    · simp only [ConvertedColumn.cellAt, hnested, hnull p hp, hget p hp]

theorem NestedColumn.WellFormed.length_nulls {column : NestedColumn} (h : column.WellFormed n) :
    column.nulls.length = n := by
  cases column with
  | scalar values nulls => exact h.2
  | list offsets child nulls => exact h.1
  | struct fields nulls => exact h.1
  | map offsets keys values canonicalKeys nulls => exact h.1

theorem ConvertedColumn.WellFormed.rowCount_eq (h : column.WellFormed n) : column.rowCount = n := by
  unfold ConvertedColumn.WellFormed at h
  unfold ConvertedColumn.rowCount
  cases hnested : column.nested with
  | some nested =>
    rw [hnested] at h
    exact h.length_nulls
  | none =>
    rw [hnested] at h
    exact h.1

/-- A column in the order it has. -/
theorem reordered_range (h : column.WellFormed n) :
    Reordered (List.range n) column column where
  columnId := rfl
  name := rfl
  logical := rfl
  sourceKind := rfl
  wellFormed := by rwa [List.length_range]
  cells p hp := by rw [List.getElem_range]

variable {columns : List ConvertedColumn}

theorem mapM_reorder (hcolumns : ∀ column ∈ columns, column.WellFormed n) (hrows : Rows order n) :
    ∃ reordered, (columns.mapM fun column => column.reorder order) = .ok reordered ∧
      List.Forall₂ (Reordered order) columns reordered := by
  obtain ⟨reordered, hall⟩ := exists_forall₂ fun column hcolumn =>
    ConvertedColumn.reorder_spec (hcolumns column hcolumn) hrows
  exact ⟨reordered, mapM_eq_ok.mpr (hall.imp fun _ _ h => h.1), hall.imp fun _ _ h => h.2⟩

theorem mem_of_clusterColumn {name : String}
    {key : ConvertedColumn} (h : clusterColumn columns name = .ok key) : key ∈ columns := by
  unfold clusterColumn at h
  cases hfind : columns.find? fun column => column.name == name with
  | none => simp [hfind] at h
  | some column =>
    rw [hfind] at h
    obtain rfl := Except.ok.inj h
    exact List.mem_of_find?_eq_some hfind

/-- The rows in a sorted order are every row once. -/
theorem rows_stableOrder (cmps : List (Nat → Nat → Ordering)) (n : Nat) :
    Rows (StableSort.stableOrder cmps n) n where
  nodup := StableSort.stableOrder_perm.nodup_iff.mpr List.nodup_range
  lt _ hrow := List.mem_range.mp (StableSort.stableOrder_perm.mem_iff.mp hrow)

/-- **Clustering puts all columns in one order of the rows**, which is ascending in the cluster
columns, each in its logical order with NULL first, and keeps the order of rows alike. Decimals are
left out, and a nested cluster column keeps its rows as they come. -/
theorem applyStableClustering_spec {columns keys : List ConvertedColumn}
    {options : ClusteringOptions} (hcolumns : ∀ column ∈ columns, column.WellFormed n)
    (hpolicy : options.clusteringPolicy = .stableClusterDeclaredColumns)
    (hkeys : options.clusterColumns.mapM (clusterColumn columns) = .ok keys)
    (hproduced : ∀ key ∈ keys, key.nested = none → Produced key)
    (hdecimal : ∀ key ∈ keys, key.logical ≠ .decimal128) :
    ∃ reordered note order, applyStableClustering columns options = .ok (reordered, note) ∧
      order.Perm (List.range n) ∧ List.Forall₂ (Reordered order) columns reordered ∧
      order.Pairwise fun i j =>
        StableSort.placeCmp (keys.map logicalCompareRows) i j = .lt := by
  have hnotpreserve : options.clusteringPolicy ≠ .preserveSourceOrder := by
    rw [hpolicy]
    decide
  rw [mapM_eq_ok] at hkeys
  unfold applyStableClustering
  rw [if_neg hnotpreserve]
  by_cases hempty : options.clusterColumns.isEmpty
  · -- Without cluster columns the rows stay as they come.
    rw [List.isEmpty_iff.mp hempty] at hkeys
    obtain rfl := List.forall₂_nil_left_iff.mp hkeys
    rw [if_pos hempty]
    refine ⟨columns, _, List.range n, rfl, List.Perm.refl _, ?_, ?_⟩
    · exact List.forall₂_same.mpr fun column hcolumn => reordered_range (hcolumns column hcolumn)
    · exact List.pairwise_lt_range.imp fun hlt => Nat.compare_eq_lt.mpr hlt
  · rw [if_neg hempty, mapM_eq_ok.mpr hkeys]
    have hcount : (columns.head?.map ConvertedColumn.rowCount).getD 0 = n := by
      cases columns with
      | nil =>
        obtain ⟨name, hname⟩ := List.exists_mem_of_ne_nil _ (mt List.isEmpty_iff.mpr hempty)
        obtain ⟨key, -, hkey⟩ := exists_of_forall₂_left hkeys hname
        cases mem_of_clusterColumn hkey
      | cons column columns => exact (hcolumns column List.mem_cons_self).rowCount_eq
    have hcmps : keys.map compareRowsForCluster = keys.map logicalCompareRows :=
      List.map_congr_left fun key hkey => compareRows_eq (hproduced key hkey) (hdecimal key hkey)
    obtain ⟨reordered, hmap, hall⟩ :=
      mapM_reorder hcolumns (rows_stableOrder (keys.map compareRowsForCluster) n)
    refine ⟨reordered, some ("Applied stable clustering by declared columns: " ++
      ",".intercalate options.clusterColumns), _, ?_, StableSort.stableOrder_perm, hall, ?_⟩
    · show ((columns.mapM fun column => column.reorder (StableSort.stableOrder
        (keys.map compareRowsForCluster) ((columns.head?.map ConvertedColumn.rowCount).getD 0)))
          >>= _) = _
      rw [hcount, hmap]
      rfl
    · rw [← hcmps]
      exact StableSort.stableOrder_pairwise (List.forall_mem_map.mpr fun key _ =>
        transCmp_compareRows key)

/-- A text column, and a list column. -/
def townColumn : ConvertedColumn :=
  { columnId := 1, name := "town", logical := .utf8, sourceKind := .utf8,
    values := .varBytes [[98], [], [97]], nested := none, nulls := [false, true, false] }

def tagsColumn : ConvertedColumn :=
  { columnId := 2, name := "tags", logical := .list, sourceKind := .list,
    values := .numCode [], nulls := [],
    nested := some (.list [0, 2, 2, 3] (.scalar (.numCode [1, 2, 3]) [false, false, false])
      [false, true, false]) }

theorem town_clustered :
    ∃ reordered note order,
      applyStableClustering [townColumn, tagsColumn] ⟨.stableClusterDeclaredColumns, ["town"]⟩ =
        .ok (reordered, note) ∧
      order.Perm (List.range 3) ∧
      List.Forall₂ (Reordered order) [townColumn, tagsColumn] reordered ∧
      order.Pairwise fun i j =>
        StableSort.placeCmp ([townColumn].map logicalCompareRows) i j = .lt :=
  applyStableClustering_spec
    (List.forall_mem_cons.mpr ⟨⟨rfl, rfl⟩, List.forall_mem_singleton.mpr
      ⟨rfl, 3, ⟨rfl, by decide, by decide, by decide⟩, rfl, rfl⟩⟩)
    rfl (show (["town"].mapM (clusterColumn [townColumn, tagsColumn])) = .ok [townColumn] by rfl)
    (List.forall_mem_singleton.mpr fun _ => Or.inl rfl)
    (List.forall_mem_singleton.mpr (by decide))

/-- **Clustered by a nested column, a NULL row stays behind a row that is not NULL.** -/
theorem nestedCluster_null_last :
    (applyStableClustering
        [{ tagsColumn with nested := some (.list [0, 1, 1] (.scalar (.numCode [1]) [false])
          [false, true]) }]
        ⟨.stableClusterDeclaredColumns, ["tags"]⟩).toOption.map
      (fun result => result.1.map fun column => (column.isNull 0, column.isNull 1)) =
        some [(false, true)] := by
  have horder : StableSort.stableOrder [compare] 2 = [0, 1] :=
    StableSort.stableOrder_eq_range (by decide)
  show (Except.toOption (([_].mapM fun column => ConvertedColumn.reorder column
    (StableSort.stableOrder [compare] 2)) >>= fun columns => .ok (columns, some _))).map _ = _
  rw [horder]
  rfl

end Cove.Conversion
