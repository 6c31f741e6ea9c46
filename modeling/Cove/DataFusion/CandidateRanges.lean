import Cove.DataFusion.TaskGraph
import Cove.Lib.ChainMerge

/-!
# Normalising candidate ranges

The row ranges a lookup index proposes for a scan are sorted by segment, morsel and first row, and
merged in one pass: a range that starts no later than the last one ends gives that one its end.

- `normalizeScanCandidateRanges`: the pass.
- `Covers`: the rows of a list of ranges.
- `Nested`: **a range that ends inside an earlier one of its run**.
- `normalizeScanCandidateRanges_covers_iff`: **what the normalised ranges cover**.
-/

namespace Cove

open Checked ChainMerge

namespace ScanCandidateRowRange

/-- The segment and morsel of a range. -/
def scope (self : ScanCandidateRowRange) : List Nat := [self.segmentId, self.morselId]

/-- The first row past a range. -/
def rowEnd (self : ScanCandidateRowRange) : Nat := self.rowStart + self.rowCount

/-- The key that ranges are sorted by. -/
def sortKey (self : ScanCandidateRowRange) : List Nat := self.scope ++ [self.rowStart]

/-- The scope, first row and end of a range. -/
def parts : Parts ScanCandidateRowRange (List Nat) := ⟨scope, rowStart, rowEnd⟩

end ScanCandidateRowRange

open ScanCandidateRowRange

/-! ## The pass -/

/-- The ranges in order, equal keys in the order they came in. -/
def sortCandidateRanges (rows : List ScanCandidateRowRange) : List ScanCandidateRowRange :=
  rows.insertionSort fun a b => a.sortKey ≤ b.sortKey

/-- A range against the last one of the output. The end of the last one is computed whether or
not the scopes agree. -/
def joinCandidateRange (last row : ScanCandidateRowRange) :
    Except CoveError (Option ScanCandidateRowRange) :=
  if row.rowCount = 0 then .error .badCovi
  else do
    let lastEnd ← checkedAdd last.rowStart last.rowCount
    if last.scope = row.scope ∧ row.rowStart ≤ lastEnd then do
      let rowEnd ← checkedAdd row.rowStart row.rowCount
      let rowCount ← checkedSub rowEnd last.rowStart
      .ok (some { last with rowCount := rowCount })
    else .ok none

/-- `normalize_scan_candidate_ranges`. -/
def normalizeScanCandidateRanges (rows : List ScanCandidateRowRange) :
    Except CoveError (List ScanCandidateRowRange) :=
  match sortCandidateRanges rows with
  | [] => .ok []
  | row :: rest =>
    if row.rowCount = 0 then .error .badCovi
    else MergeRuns.mergeRuns joinCandidateRange row rest

/-! ## What the ranges cover -/

/-- Some range of a segment and morsel holds a row. -/
def CandidateCovers (rows : List ScanCandidateRowRange) (scope : List Nat) (row : Nat) : Prop :=
  parts.Covers rows scope row

/-- In order of segments and morsels, and within a morsel in order of rows and disjoint. -/
def CandidatesDisjoint (rows : List ScanCandidateRowRange) : Prop :=
  rows.Pairwise fun a b => a.scope < b.scope ∨ a.scope = b.scope ∧ a.rowEnd < b.rowStart

/-- The runs of the sorted ranges, each range starting in the morsel of the one before it and no
later than that one ends. -/
def candidateRuns (rows : List ScanCandidateRowRange) : List (List ScanCandidateRowRange) :=
  parts.chains (sortCandidateRanges rows)

/-- The last range of a run ends before another range of the run. -/
def Nested (run : List ScanCandidateRowRange) : Prop :=
  ∃ last ∈ run.getLast?, ∃ range ∈ run, last.rowEnd < range.rowEnd

theorem not_nested_iff {run : List ScanCandidateRowRange} :
    ¬Nested run ↔ parts.EndsLast run := by
  unfold Nested Parts.EndsLast
  push Not
  exact Iff.rfl

variable (rows : List ScanCandidateRowRange)

theorem sorted_sortCandidateRanges :
    (sortCandidateRanges rows).Pairwise parts.Ordered := by
  have htotal : Std.Total fun a b : ScanCandidateRowRange => a.sortKey ≤ b.sortKey :=
    ⟨fun a b => le_total a.sortKey b.sortKey⟩
  have htrans : IsTrans ScanCandidateRowRange fun a b => a.sortKey ≤ b.sortKey :=
    ⟨fun _ _ _ => le_trans⟩
  refine (List.pairwise_insertionSort _ rows).imp ?_
  intro a b hle
  exact ordered_of_key_le rfl hle

theorem candidateCovers_sort (scope : List Nat) (row : Nat) :
    CandidateCovers (sortCandidateRanges rows) scope row ↔ CandidateCovers rows scope row := by
  simp only [CandidateCovers, Parts.Covers, sortCandidateRanges, List.mem_insertionSort]

/-! ## One join -/

section

variable {last row joined : ScanCandidateRowRange}

/-- A joined range keeps the start of the last one and takes the end of the row. -/
theorem joinCandidateRange_some (h : joinCandidateRange last row = .ok (some joined)) :
    parts.continues last row = true ∧ parts.scope joined = parts.scope last ∧
      parts.start joined = parts.start last ∧ parts.stop joined = parts.stop row := by
  unfold joinCandidateRange at h
  obtain ⟨-, h⟩ := ite_error_eq_ok.mp h
  obtain ⟨lastEnd, hend, h⟩ := bind_eq_ok.mp h
  obtain ⟨-, rfl⟩ := addU64_eq_ok.mp hend
  by_cases htouch : last.scope = row.scope ∧ row.rowStart ≤ last.rowStart + last.rowCount
  · rw [if_pos htouch] at h
    obtain ⟨rowEnd, hrow, h⟩ := bind_eq_ok.mp h
    obtain ⟨-, rfl⟩ := addU64_eq_ok.mp hrow
    obtain ⟨rowCount, hcount, h⟩ := bind_eq_ok.mp h
    obtain ⟨hle, rfl⟩ := sub_eq_ok.mp hcount
    obtain rfl := Option.some.inj (Except.ok.inj h)
    refine ⟨Parts.continues_iff.mpr htouch, rfl, rfl, ?_⟩
    show last.rowStart + (row.rowStart + row.rowCount - last.rowStart) = row.rowStart + row.rowCount
    omega
  · rw [if_neg htouch] at h
    cases h

theorem joinCandidateRange_none (h : joinCandidateRange last row = .ok none) :
    parts.continues last row = false := by
  unfold joinCandidateRange at h
  obtain ⟨-, h⟩ := ite_error_eq_ok.mp h
  obtain ⟨lastEnd, hend, h⟩ := bind_eq_ok.mp h
  obtain ⟨-, rfl⟩ := addU64_eq_ok.mp hend
  by_cases htouch : last.scope = row.scope ∧ row.rowStart ≤ last.rowStart + last.rowCount
  · rw [if_pos htouch] at h
    obtain ⟨rowEnd, -, h⟩ := bind_eq_ok.mp h
    obtain ⟨rowCount, -, h⟩ := bind_eq_ok.mp h
    cases h
  · rw [Bool.eq_false_iff]
    exact fun hcont => htouch (Parts.continues_iff.mp hcont)

theorem rowStart_lt_rowEnd (h : row.rowCount ≠ 0) : parts.start row < parts.stop row := by
  show row.rowStart < row.rowStart + row.rowCount
  omega

/-- An empty range is refused. -/
theorem joinCandidateRange_nonempty {o : Option ScanCandidateRowRange}
    (h : joinCandidateRange last row = .ok o) : parts.start row < parts.stop row :=
  rowStart_lt_rowEnd (ite_error_eq_ok.mp h).1

end

/-! ## The whole pass -/

/-- **What the normalised ranges cover.** They are always sorted and disjoint; they cover exactly
the rows of the given ranges when no run has a range nested over its last, and otherwise they
lose rows. -/
theorem normalizeScanCandidateRanges_covers_iff {rows out : List ScanCandidateRowRange}
    (h : normalizeScanCandidateRanges rows = .ok out) :
    ((∀ scope row, CandidateCovers out scope row ↔ CandidateCovers rows scope row) ∧
        CandidatesDisjoint out) ↔
      ∀ run ∈ candidateRuns rows, ¬Nested run := by
  have hsorted := sorted_sortCandidateRanges rows
  simp only [not_nested_iff, candidateRuns, ← candidateCovers_sort rows]
  unfold normalizeScanCandidateRanges at h
  -- From here on only the sorted list matters.
  generalize sortCandidateRanges rows = sorted at *
  cases sorted with
  | nil =>
    obtain rfl := Except.ok.inj h
    refine iff_of_true ⟨fun _ _ => Iff.rfl, .nil⟩ ?_
    intro run hrun
    cases hrun
  | cons first rest =>
    obtain ⟨hfirst, hmerge⟩ := ite_error_eq_ok.mp h
    exact covers_merged_iff (fun _ _ _ => joinCandidateRange_some)
      (fun _ _ => joinCandidateRange_none) (fun _ _ _ => joinCandidateRange_nonempty)
      (rowStart_lt_rowEnd hfirst) hsorted hmerge

/-- Rows 0 to 9 of a morsel, and rows 2 to 4: the second range ends the first one. -/
theorem normalizeScanCandidateRanges_loses_rows :
    normalizeScanCandidateRanges [⟨0, 0, 0, 10⟩, ⟨0, 0, 2, 3⟩] = .ok [⟨0, 0, 0, 5⟩] ∧
      CandidateCovers [⟨0, 0, 0, 10⟩, ⟨0, 0, 2, 3⟩] [0, 0] 7 ∧
      ¬CandidateCovers [⟨0, 0, 0, 5⟩] [0, 0] 7 := by
  refine ⟨by decide, ⟨⟨0, 0, 0, 10⟩, List.mem_cons_self, rfl, ?_⟩, ?_⟩
  · show 0 ≤ 7 ∧ 7 < 0 + 10
    decide
  · rintro ⟨range, hrange, -, -, hstop⟩
    obtain rfl := List.mem_singleton.mp hrange
    exact absurd hstop (by decide)

/-- Two ranges that overlap, in any order, are joined. -/
theorem normalizeScanCandidateRanges_overlapping :
    ((∀ scope row, CandidateCovers [⟨0, 0, 0, 15⟩] scope row ↔
          CandidateCovers [⟨0, 0, 5, 10⟩, ⟨0, 0, 0, 10⟩] scope row) ∧
        CandidatesDisjoint [⟨0, 0, 0, 15⟩]) ↔
      ∀ run ∈ candidateRuns [⟨0, 0, 5, 10⟩, ⟨0, 0, 0, 10⟩], ¬Nested run :=
  normalizeScanCandidateRanges_covers_iff (by decide)

end Cove
