import Mathlib.Algebra.Order.BigOperators.Group.List
import Cove.Core.Error
import Cove.Lib.Grouping
import Cove.Lib.SortedList

/-!
# The index of table segments

The segments of the tables of a file, each with its rows. The rows of a table's segments are to
follow one another from row 0.

- `TableSegmentIndex.validate`: the check of the whole index.
- `rowsBefore`: the rows of the segments of a table that start before a row.
- `validate_eq_ok_iff`: **what the check accepts**: it sorts the segments of a table by their
  first row alone, so an empty one has to be listed before the one that starts on the same row.
- `validate_permuted_iff`: when the order of the list does not matter.
- `validate_disjoint`: **accepted segments share no row**.
-/

namespace Cove.Segment

open Checked SortedList

structure TableSegmentIndexEntryV1 where
  tableId : Nat
  segmentId : Nat
  rowStart : Nat
  rowCount : Nat
  morselCount : Nat
  morselRowCount : Nat
  length : Nat
  statsRef : Nat
  deriving DecidableEq, Repr

/-! ## The check -/

/-- The pairs of table and segment are distinct. -/
def validateIds (seen : List (Nat × Nat)) : List TableSegmentIndexEntryV1 → Except CoveError Unit
  | [] => .ok ()
  | e :: entries =>
    if (e.tableId, e.segmentId) ∈ seen then .error .segmentCorrupt
    else validateIds ((e.tableId, e.segmentId) :: seen) entries

/-- The loop over the sorted segments of a table. -/
def validateRows (nextRow : Nat) : List TableSegmentIndexEntryV1 → Except CoveError Unit
  | [] => .ok ()
  | e :: entries =>
    if e.rowStart ≠ nextRow then .error .segmentCorrupt
    else do
      let stop ← checkedAdd e.rowStart e.rowCount
      validateRows stop entries

/-- `validate`. -/
def TableSegmentIndex.validate (entries : List TableSegmentIndexEntryV1) :
    Except CoveError Unit := do
  validateIds [] entries
  (Grouping.grouped TableSegmentIndexEntryV1.tableId entries).forM fun group =>
    validateRows 0 (sortBy TableSegmentIndexEntryV1.rowStart group.2)

/-! ## What it accepts -/

/-- The rows of the segments that start before a row. -/
def rowsBefore (row : Nat) (entries : List TableSegmentIndexEntryV1) : Nat :=
  ((entries.filter fun e => e.rowStart < row).map TableSegmentIndexEntryV1.rowCount).sum

/-- The segments of a table. -/
def ofTable (tableId : Nat) (entries : List TableSegmentIndexEntryV1) :
    List TableSegmentIndexEntryV1 :=
  entries.filter fun e => e.tableId = tableId

/-- The pairs of table and segment are distinct, and every segment starts where those that start
before it end. -/
structure FollowOn (entries : List TableSegmentIndexEntryV1) : Prop where
  ids : (entries.map fun e => (e.tableId, e.segmentId)).Nodup
  starts : ∀ e ∈ entries, e.rowStart = rowsBefore e.rowStart (ofTable e.tableId entries)
  fits : ∀ e ∈ entries, e.rowStart + e.rowCount < 2 ^ 64

/-- Of two segments of a table that start on one row, the first listed is empty. -/
def EmptyFirst (entries : List TableSegmentIndexEntryV1) : Prop :=
  entries.Pairwise fun a b => a.tableId = b.tableId → a.rowStart = b.rowStart → a.rowCount = 0

variable {entries : List TableSegmentIndexEntryV1}

theorem validateIds_eq_ok {seen : List (Nat × Nat)} :
    validateIds seen entries = .ok () ↔
      (entries.map fun e => (e.tableId, e.segmentId)).Nodup ∧
        ∀ e ∈ entries, (e.tableId, e.segmentId) ∉ seen := by
  induction entries generalizing seen with
  | nil => exact iff_of_true rfl ⟨.nil, nofun⟩
  | cons e entries ih =>
    unfold validateIds
    rw [ite_error_eq_ok, ih, List.map_cons, List.nodup_cons, List.forall_mem_cons, List.mem_map]
    simp only [List.mem_cons, not_or, not_exists, not_and]
    constructor
    · rintro ⟨hseen, hnodup, hall⟩
      exact ⟨⟨fun f hf h => (hall f hf).1 h, hnodup⟩, hseen, fun f hf => (hall f hf).2⟩
    · rintro ⟨⟨hnew, hnodup⟩, hseen, hall⟩
      exact ⟨hseen, hnodup, fun f hf => ⟨hnew f hf, hall f hf⟩⟩

theorem rowsBefore_cons (row : Nat) (e : TableSegmentIndexEntryV1) :
    rowsBefore row (e :: entries) =
      (if e.rowStart < row then e.rowCount else 0) + rowsBefore row entries := by
  unfold rowsBefore
  by_cases h : e.rowStart < row
  · rw [List.filter_cons_of_pos (by simpa using h), if_pos h, List.map_cons, List.sum_cons]
  · rw [List.filter_cons_of_neg (by simpa using h), if_neg h, Nat.zero_add]

variable {entries' : List TableSegmentIndexEntryV1}

theorem rowsBefore_perm (h : entries.Perm entries')
    (row : Nat) : rowsBefore row entries = rowsBefore row entries' :=
  ((h.filter _).map _).sum_eq

theorem rowsBefore_eq_zero {row : Nat} (h : ∀ e ∈ entries, row ≤ e.rowStart) :
    rowsBefore row entries = 0 := by
  unfold rowsBefore
  rw [List.filter_eq_nil_iff.mpr]
  · rfl
  · intro e he
    simpa using h e he

/-- A segment that starts before a row counts in full. -/
theorem rowsBefore_add_le {e : TableSegmentIndexEntryV1} (he : e ∈ entries) {row : Nat}
    (hrow : e.rowStart < row) :
    rowsBefore e.rowStart entries + e.rowCount ≤ rowsBefore row entries := by
  have hmono : ∀ l : List TableSegmentIndexEntryV1,
      rowsBefore e.rowStart l ≤ rowsBefore row l := by
    intro l
    induction l with
    | nil => exact le_refl _
    | cons f l ih =>
      rw [rowsBefore_cons, rowsBefore_cons]
      split <;> split <;> omega
  induction entries with
  | nil => cases he
  | cons f entries ih =>
    rw [rowsBefore_cons, rowsBefore_cons]
    rcases List.mem_cons.mp he with rfl | he
    · have := hmono entries
      rw [if_neg (lt_irrefl _), if_pos hrow]
      omega
    · have := ih he
      split <;> split <;> omega

/-- The loop over segments sorted by their first rows. The induction is on the list, each segment
starting where the one before it ended. -/
theorem validateRows_eq_ok {nextRow : Nat}
    (hsorted : entries.Pairwise fun a b => a.rowStart ≤ b.rowStart) :
    validateRows nextRow entries = .ok () ↔
      (∀ e ∈ entries, e.rowStart = nextRow + rowsBefore e.rowStart entries) ∧
      (∀ e ∈ entries, e.rowStart + e.rowCount < 2 ^ 64) ∧
      entries.Pairwise fun a b => a.rowStart = b.rowStart → a.rowCount = 0 := by
  induction entries generalizing nextRow with
  | nil => exact iff_of_true rfl ⟨nofun, nofun, .nil⟩
  | cons e entries ih =>
    obtain ⟨hle, hsorted⟩ := List.pairwise_cons.mp hsorted
    have hfirst : rowsBefore e.rowStart (e :: entries) = 0 :=
      rowsBefore_eq_zero (List.forall_mem_cons.mpr ⟨le_refl _, hle⟩)
    unfold validateRows
    rw [ite_error_eq_ok, not_not, bind_eq_ok, List.forall_mem_cons, List.forall_mem_cons,
      List.pairwise_cons, hfirst]
    constructor
    · rintro ⟨hstart, stop, hstop, hrest⟩
      obtain ⟨hfits, rfl⟩ := addU64_eq_ok.mp hstop
      obtain ⟨hstarts, hall, hties⟩ := (ih hsorted).mp hrest
      have hempty : ∀ f ∈ entries, e.rowStart = f.rowStart → e.rowCount = 0 := by
        intro f hf heq
        have := hstarts f hf
        omega
      refine ⟨⟨hstart, fun f hf => ?_⟩, ⟨hfits, hall⟩, hempty, hties⟩
      have := hstarts f hf
      have := hle f hf
      have := hempty f hf
      rw [rowsBefore_cons]
      split <;> omega
    · rintro ⟨⟨hstart, hstarts⟩, ⟨hfits, hall⟩, hempty, hties⟩
      refine ⟨hstart, _, addU64_eq_ok.mpr ⟨hfits, rfl⟩, (ih hsorted).mpr ⟨?_, hall, hties⟩⟩
      intro f hf
      have hf' := hstarts f hf
      have := hle f hf
      have := hempty f hf
      rw [rowsBefore_cons] at hf'
      split at hf' <;> omega

theorem mem_ofTable {tableId : Nat} {e : TableSegmentIndexEntryV1} :
    e ∈ ofTable tableId entries ↔ e ∈ entries ∧ e.tableId = tableId := by
  unfold ofTable
  rw [List.mem_filter, decide_eq_true_eq]

theorem emptyFirst_iff :
    EmptyFirst entries ↔ ∀ tableId, (ofTable tableId entries).Pairwise
      fun a b => a.rowStart = b.rowStart → a.rowCount = 0 := by
  unfold EmptyFirst ofTable
  induction entries with
  | nil => simp
  | cons e entries ih =>
    rw [List.pairwise_cons, ih]
    constructor
    · rintro ⟨he, hrest⟩ tableId
      by_cases h : e.tableId = tableId
      · rw [List.filter_cons_of_pos (by simpa using h), List.pairwise_cons]
        refine ⟨fun f hf => ?_, hrest tableId⟩
        obtain ⟨hf, htable⟩ := mem_ofTable.mp hf
        exact he f hf (h.trans htable.symm)
      · rw [List.filter_cons_of_neg (by simpa using h)]
        exact hrest tableId
    · intro h
      refine ⟨fun f hf htable => ?_, fun tableId => ?_⟩
      · have := h e.tableId
        rw [List.filter_cons_of_pos (by simp), List.pairwise_cons] at this
        exact this.1 f (mem_ofTable.mpr ⟨hf, htable.symm⟩)
      · exact (h tableId).sublist ((List.sublist_cons_self e entries).filter _)

/-- The check of one table. -/
theorem validateRows_sorted (tableId : Nat) :
    validateRows 0 (sortBy TableSegmentIndexEntryV1.rowStart (ofTable tableId entries)) = .ok () ↔
      (∀ e ∈ ofTable tableId entries,
        e.rowStart = rowsBefore e.rowStart (ofTable tableId entries) ∧
          e.rowStart + e.rowCount < 2 ^ 64) ∧
      (ofTable tableId entries).Pairwise fun a b => a.rowStart = b.rowStart → a.rowCount = 0 := by
  have hperm := List.perm_insertionSort
    (fun a b : TableSegmentIndexEntryV1 => a.rowStart ≤ b.rowStart) (ofTable tableId entries)
  rw [validateRows_eq_ok (List.pairwise_insertionSort _ _), pairwise_sortBy_iff]
  simp only [hperm.mem_iff, rowsBefore_perm hperm, Nat.zero_add]
  rw [← and_assoc, ← forall₂_and]

/-- **What the check accepts:** segments that follow on, in each table those that are empty before
those that start on the same row. -/
theorem validate_eq_ok_iff :
    TableSegmentIndex.validate entries = .ok () ↔ FollowOn entries ∧ EmptyFirst entries := by
  have hgroups : (∀ group ∈ Grouping.grouped TableSegmentIndexEntryV1.tableId entries,
      validateRows 0 (sortBy TableSegmentIndexEntryV1.rowStart group.2) = .ok ()) ↔
        ∀ tableId, validateRows 0 (sortBy TableSegmentIndexEntryV1.rowStart
          (ofTable tableId entries)) = .ok () := by
    constructor
    · intro h tableId
      by_cases hne : ofTable tableId entries = []
      · rw [hne]
        rfl
      · exact h (tableId, _) (Grouping.mem_grouped.mpr ⟨rfl, hne⟩)
    · rintro h ⟨tableId, group⟩ hgroup
      rw [(Grouping.mem_grouped.mp hgroup).1]
      exact h tableId
  have hown : ∀ e ∈ entries, e ∈ ofTable e.tableId entries := fun e he => mem_ofTable.mpr ⟨he, rfl⟩
  unfold TableSegmentIndex.validate
  rw [bind_eq_ok, emptyFirst_iff]
  constructor
  · rintro ⟨_, hids, hgroup⟩
    have hrows := fun tableId => (validateRows_sorted tableId).mp
      (hgroups.mp (forM_eq_ok.mp hgroup) tableId)
    exact ⟨⟨(validateIds_eq_ok.mp hids).1, fun e he => ((hrows e.tableId).1 e (hown e he)).1,
      fun e he => ((hrows e.tableId).1 e (hown e he)).2⟩, fun tableId => (hrows tableId).2⟩
  · rintro ⟨⟨hids, hstarts, hfits⟩, hties⟩
    refine ⟨(), validateIds_eq_ok.mpr ⟨hids, fun e _ => List.not_mem_nil⟩,
      forM_eq_ok.mpr (hgroups.mpr fun tableId => (validateRows_sorted tableId).mpr
        ⟨fun e he => ?_, hties tableId⟩)⟩
    obtain ⟨hmem, rfl⟩ := mem_ofTable.mp he
    exact ⟨hstarts e hmem, hfits e hmem⟩

/-! ## The order of the list -/

theorem FollowOn.perm (h : FollowOn entries)
    (hperm : entries.Perm entries') : FollowOn entries' := by
  refine ⟨(hperm.map _).nodup_iff.mp h.ids, fun e he => ?_, fun e he => ?_⟩
  · have htable : (ofTable e.tableId entries).Perm (ofTable e.tableId entries') := hperm.filter _
    rw [← rowsBefore_perm htable]
    exact h.starts e (hperm.mem_iff.mpr he)
  · exact h.fits e (hperm.mem_iff.mpr he)

/-- Of two segments of a table that start on one row, one is empty. -/
def OneEmpty (entries : List TableSegmentIndexEntryV1) : Prop :=
  entries.Pairwise fun a b =>
    a.tableId = b.tableId → a.rowStart = b.rowStart → a.rowCount = 0 ∨ b.rowCount = 0

/-- Some empty segment starts on the row where a segment of its table with rows starts. -/
def EmptyBeside (entries : List TableSegmentIndexEntryV1) : Prop :=
  ∃ a ∈ entries, ∃ b ∈ entries,
    a.tableId = b.tableId ∧ a.rowStart = b.rowStart ∧ a.rowCount = 0 ∧ b.rowCount ≠ 0

/-- The row is one of the segment's. -/
def TableSegmentIndexEntryV1.Holds (e : TableSegmentIndexEntryV1) (row : Nat) : Prop :=
  e.rowStart ≤ row ∧ row < e.rowStart + e.rowCount

theorem OneEmpty.perm (h : OneEmpty entries) (hperm : entries.Perm entries') : OneEmpty entries' :=
  (hperm.pairwise_iff fun hab htable hstart => (hab htable.symm hstart.symm).symm).mp h

theorem EmptyFirst.oneEmpty (h : EmptyFirst entries) : OneEmpty entries :=
  h.imp fun hab htable hstart => .inl (hab htable hstart)

/-- Without an empty segment beside another, any order will do. -/
theorem OneEmpty.emptyFirst (h : OneEmpty entries) (hbeside : ¬EmptyBeside entries) :
    EmptyFirst entries := by
  refine List.Pairwise.imp_of_mem ?_ h
  intro a b ha hb hab htable hstart
  rcases hab htable hstart with hzero | hzero
  · exact hzero
  · by_contra hne
    exact hbeside ⟨b, hb, a, ha, htable.symm, hstart.symm, hzero, hne⟩

/-- The empty segments first, or those with rows first. -/
def emptyBefore (entries : List TableSegmentIndexEntryV1) : List TableSegmentIndexEntryV1 :=
  entries.filter (fun e => e.rowCount = 0) ++ entries.filter fun e => !decide (e.rowCount = 0)

def emptyAfter (entries : List TableSegmentIndexEntryV1) : List TableSegmentIndexEntryV1 :=
  entries.filter (fun e => !decide (e.rowCount = 0)) ++ entries.filter fun e => e.rowCount = 0

theorem perm_emptyBefore : entries.Perm (emptyBefore entries) :=
  (List.filter_append_perm _ _).symm

theorem perm_emptyAfter : entries.Perm (emptyAfter entries) :=
  perm_emptyBefore.trans List.perm_append_comm

theorem OneEmpty.emptyBefore (h : OneEmpty entries) : EmptyFirst (emptyBefore entries) := by
  refine List.pairwise_append.mpr ⟨?_, ?_, ?_⟩
  · refine List.pairwise_of_forall_mem_list fun a ha _ _ _ _ => ?_
    simpa using (List.mem_filter.mp ha).2
  · refine List.Pairwise.imp_of_mem ?_ (h.sublist List.filter_sublist)
    intro a b ha hb hab htable hstart
    have hb : b.rowCount ≠ 0 := by simpa using (List.mem_filter.mp hb).2
    exact (hab htable hstart).resolve_right hb
  · intro a ha _ _ _ _
    simpa using (List.mem_filter.mp ha).2

theorem EmptyBeside.not_emptyAfter (h : EmptyBeside entries) :
    ¬EmptyFirst (emptyAfter entries) := by
  obtain ⟨a, ha, b, hb, htable, hstart, hzero, hne⟩ := h
  intro hfirst
  refine hne ((List.pairwise_append.mp hfirst).2.2 b ?_ a ?_ htable.symm hstart.symm)
  · exact List.mem_filter.mpr ⟨hb, by simpa using hne⟩
  · exact List.mem_filter.mpr ⟨ha, by simpa using hzero⟩

/-- No two of the segments of a table share a row. -/
def Disjoint (entries : List TableSegmentIndexEntryV1) : Prop :=
  entries.Pairwise fun a b => a.tableId = b.tableId → ∀ row, ¬(a.Holds row ∧ b.Holds row)

/-- **Accepted segments share no row.** -/
theorem validate_disjoint (h : TableSegmentIndex.validate entries = .ok ()) :
    Disjoint entries := by
  obtain ⟨hfollow, hfirst⟩ := validate_eq_ok_iff.mp h
  -- the later of two segments with rows starts at or after the end of the earlier one
  have hafter : ∀ a ∈ entries, ∀ b ∈ entries, a.tableId = b.tableId → a.rowStart < b.rowStart →
      a.rowStart + a.rowCount ≤ b.rowStart := by
    intro a ha b hb htable hlt
    have hle := rowsBefore_add_le (mem_ofTable.mpr ⟨ha, htable⟩) hlt
    rw [← hfollow.starts b hb, ← htable, ← hfollow.starts a ha] at hle
    exact hle
  refine List.Pairwise.imp_of_mem ?_ hfirst
  rintro a b ha hb hab htable row ⟨⟨ha1, ha2⟩, hb1, hb2⟩
  rcases Nat.lt_trichotomy a.rowStart b.rowStart with hlt | heq | hlt
  · have := hafter a ha b hb htable hlt
    omega
  · have := hab htable heq
    omega
  · have := hafter b hb a ha htable.symm hlt
    omega

/-- **When the order of the list does not matter.** A list is accepted in every order or in none,
and disjoint where it is accepted, unless its segments follow on and an empty one starts on the
same row as one with rows. -/
theorem validate_permuted_iff (entries : List TableSegmentIndexEntryV1) :
    ((∀ entries', entries.Perm entries' →
        (TableSegmentIndex.validate entries = .ok () ↔
          TableSegmentIndex.validate entries' = .ok ())) ∧
      (TableSegmentIndex.validate entries = .ok () → Disjoint entries)) ↔
    ¬(FollowOn entries ∧ OneEmpty entries ∧ EmptyBeside entries) := by
  rw [and_iff_left validate_disjoint]
  simp only [validate_eq_ok_iff]
  constructor
  · rintro h ⟨hfollow, hone, hbeside⟩
    have hbefore := (h _ perm_emptyBefore).mpr ⟨hfollow.perm perm_emptyBefore, hone.emptyBefore⟩
    exact hbeside.not_emptyAfter ((h _ perm_emptyAfter).mp hbefore).2
  · intro h entries' hperm
    have hgood : ∀ l : List TableSegmentIndexEntryV1, entries.Perm l →
        (FollowOn l ∧ EmptyFirst l ↔ FollowOn entries ∧ OneEmpty entries) := by
      intro l hl
      constructor
      · rintro ⟨hfollow, hfirst⟩
        exact ⟨hfollow.perm hl.symm, hfirst.oneEmpty.perm hl.symm⟩
      · rintro ⟨hfollow, hone⟩
        refine ⟨hfollow.perm hl, (hone.perm hl).emptyFirst fun hbeside => ?_⟩
        obtain ⟨a, ha, b, hb, hab⟩ := hbeside
        exact h ⟨hfollow, hone, a, hl.mem_iff.mpr ha, b, hl.mem_iff.mpr hb, hab⟩
    rw [hgood entries (List.Perm.refl _), hgood entries' hperm]

/-- Five rows, and an empty segment at their start. -/
def fiveRows : TableSegmentIndexEntryV1 := ⟨1, 1, 0, 5, 1, 5, 0, 0⟩

def noRows : TableSegmentIndexEntryV1 := ⟨1, 2, 0, 0, 0, 5, 0, 0⟩

/-- Listed first, the empty segment is accepted; listed last, the index is corrupt. -/
theorem validate_swapped :
    [noRows, fiveRows].Perm [fiveRows, noRows] ∧
      TableSegmentIndex.validate [noRows, fiveRows] = .ok () ∧
      TableSegmentIndex.validate [fiveRows, noRows] = .error .segmentCorrupt :=
  ⟨.swap _ _ _, by decide, by decide⟩

end Cove.Segment
