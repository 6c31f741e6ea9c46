import Mathlib.Data.List.Sort
import Mathlib.Data.List.TakeWhile
import Cove.Core.Error
import Cove.Lib.BitWords
import Cove.Lib.MergeRuns
import Cove.Lib.Spans

/-!
# Row visibility overlays

An overlay hides rows of a file: it names the visible ranges, the deleted ranges, or
carries a bitmap of deleted rows.

- `RowVisibility`, `RowVisibility.isRowVisible`.
- `normalizedRanges`: ranges as the queries use them, separated by gaps.
- `RowVisibility.hiddenRowsInRange`: how many rows of a range are hidden.
- `isRowVisible_eq_false`: **when as many rows of a range are hidden as it has, every
  row of it is**.
-/

namespace Cove

open Checked MergeRuns Spans

/-- A range of rows. -/
abbrev RowRange := Span

/-- `RowRange::end`. -/
def RowRange.checkedEnd (range : RowRange) : Except CoveError Nat :=
  checkedAdd range.start range.len

/-- Which rows of a file are visible. -/
inductive RowVisibility where
  | all
  | visibleRanges (ranges : List RowRange)
  | deletedRanges (ranges : List RowRange)
  | deletedBitmap (rowCount : Nat) (bits : List Nat)
  deriving DecidableEq, Repr

/-! ## Normalised ranges -/

/-- `validate_ranges`: every range lies within the file. -/
def validateRanges (totalRows : Nat) : List RowRange → Except CoveError Unit
  | [] => .ok ()
  | range :: ranges =>
    if range.len = 0 then validateRanges totalRows ranges
    else do
      let stop ← range.checkedEnd
      if stop > totalRows then .error .offsetRange else validateRanges totalRows ranges

/-- `ranges_are_normalized`, with the end of the previous range. -/
def rangesAreNormalized (totalRows : Nat) : Option Nat → List RowRange → Except CoveError Bool
  | _, [] => .ok true
  | previousEnd, range :: ranges =>
    if range.len = 0 then .ok false
    else do
      let stop ← range.checkedEnd
      if stop > totalRows then .error .offsetRange
      else if previousEnd.any fun p => decide (range.start ≤ p) then .ok false
      else rangesAreNormalized totalRows (some stop) ranges

/-- Merge a range into the active one when they touch. -/
def joinRanges (active range : RowRange) : Except CoveError (Option RowRange) := do
  let activeEnd ← active.checkedEnd
  let rangeEnd ← range.checkedEnd
  if range.start ≤ activeEnd then
    let mergedLen ← checkedSub (max activeEnd rangeEnd) active.start
    .ok (some ⟨active.start, mergedLen⟩)
  else .ok none

/-- The order of `sort_by_key` on start and length. -/
def rangeLe (a b : RowRange) : Bool := a.start < b.start ∨ (a.start = b.start ∧ a.len ≤ b.len)

/-- `normalize_ranges`: drop empty ranges, sort, merge what touches. -/
def normalizeRanges (ranges : List RowRange) (totalRows : Nat) :
    Except CoveError (List RowRange) := do
  validateRanges totalRows ranges
  match (ranges.filter fun range => range.len != 0).insertionSort (rangeLe · ·) with
  | [] => .ok []
  | range :: rest => mergeRuns joinRanges range rest

/-- `normalized_ranges`: the ranges themselves when they are normalised already. -/
def normalizedRanges (ranges : List RowRange) (totalRows : Nat) :
    Except CoveError (List RowRange) := do
  if ← rangesAreNormalized totalRows none ranges then .ok ranges
  else normalizeRanges ranges totalRows

/-! ## Queries -/

/-- The range ends no later than `row`; a range past the last number does not. -/
def endsBy (row : Nat) (range : RowRange) : Bool :=
  match range.checkedEnd with
  | .ok stop => stop ≤ row
  | .error _ => false

/-- `range_set_contains`: the first range not ending by the row decides. -/
def rangeSetContains (ranges : List RowRange) (row : Nat) : Bool :=
  match ranges.dropWhile (endsBy row) with
  | [] => false
  | range :: _ => row ≥ range.start && row < min (range.start + range.len) (2 ^ 64 - 1)

/-- The loop of `covered_rows_in_range`. -/
def coveredLoop (start stop : Nat) : List RowRange → Nat → Except CoveError Nat
  | [], covered => .ok covered
  | range :: ranges, covered =>
    if range.start ≥ stop then .ok covered
    else do
      let rangeEnd ← range.checkedEnd
      let overlapStart := max start range.start
      let overlapEnd := min stop rangeEnd
      if overlapEnd > overlapStart then
        let covered ← checkedAdd covered (overlapEnd - overlapStart)
        coveredLoop start stop ranges covered
      else coveredLoop start stop ranges covered

def coveredRowsInRange (ranges : List RowRange) (start stop : Nat) : Except CoveError Nat :=
  coveredLoop start stop (ranges.dropWhile (endsBy start)) 0

def validateBitmapShape (rowCount : Nat) (bits : List Nat) (totalRows : Nat) :
    Except CoveError Unit :=
  if rowCount ≠ totalRows then
    .error (.badSection
      s!"overlay bitmap row_count {rowCount} does not match file row_count {totalRows}")
  else if bits.length < (totalRows + 63) / 64 then
    .error (.badSection "overlay deleted bitmap is shorter than row_count")
  else .ok ()

/-- The deleted rows of one word of the bitmap. -/
def deletedInWord (bits : List Nat) (start stop wordIndex : Nat) : Except CoveError Nat := do
  let wordStart ← checkedMul wordIndex 64
  let wordEnd ← checkedAdd wordStart 64
  let overlapStart := max start wordStart
  let overlapEnd := min stop wordEnd
  let startBit ← checkedSub overlapStart wordStart
  let bitLen ← checkedSub overlapEnd overlapStart
  let mask := if bitLen = 64 then 2 ^ 64 - 1 else BitWords.mask startBit bitLen
  .ok (BitWords.countOnes (BitWords.word bits wordIndex &&& mask))

/-- `bitmap_count_deleted_in_range`. -/
def bitmapCountDeletedInRange (bits : List Nat) (start stop : Nat) : Except CoveError Nat :=
  if start ≥ stop then .ok 0
  else
    let startWord := start / 64
    let endWord := (stop - 1) / 64
    (List.range' startWord (endWord + 1 - startWord)).foldlM
      (fun deleted wordIndex => do .ok (deleted + (← deletedInWord bits start stop wordIndex))) 0

namespace RowVisibility

/-- `is_row_visible`. -/
def isRowVisible (self : RowVisibility) (row totalRows : Nat) : Except CoveError Bool :=
  if row ≥ totalRows then .error .offsetRange
  else
    match self with
    | all => .ok true
    | visibleRanges ranges => do .ok (rangeSetContains (← normalizedRanges ranges totalRows) row)
    | deletedRanges ranges => do .ok (!rangeSetContains (← normalizedRanges ranges totalRows) row)
    | deletedBitmap rowCount bits => do
      validateBitmapShape rowCount bits totalRows
      .ok (!BitWords.get bits row)

/-- How many rows of `[start, start + len)` are hidden, before it is cut to 32 bits. -/
def hiddenCount (self : RowVisibility) (start len totalRows : Nat) : Except CoveError Nat :=
  match self with
  | all => .ok 0
  | visibleRanges ranges => do
    checkedSub len (← coveredRowsInRange (← normalizedRanges ranges totalRows) start (start + len))
  | deletedRanges ranges => do
    coveredRowsInRange (← normalizedRanges ranges totalRows) start (start + len)
  | deletedBitmap rowCount bits => do
    validateBitmapShape rowCount bits totalRows
    bitmapCountDeletedInRange bits start (start + len)

/-- `hidden_rows_in_range`. -/
def hiddenRowsInRange (self : RowVisibility) (start len totalRows : Nat) :
    Except CoveError Nat := do
  let stop ← checkedAdd start len
  if stop > totalRows then .error .offsetRange
  else
    let hidden ← self.hiddenCount start len totalRows
    if hidden < 2 ^ 32 then .ok hidden else .error .arithOverflow

/-- `morsel_all_hidden`. -/
def morselAllHidden (self : RowVisibility) (start len totalRows : Nat) :
    Except CoveError Bool := do
  .ok ((← self.hiddenRowsInRange start len totalRows) == len)

end RowVisibility

/-! ## Normalised ranges are separated -/

variable {a b m : RowRange}

section Normalised

variable {ranges out : List RowRange} {totalRows : Nat}

theorem checkedEnd_eq_ok {range : RowRange} {stop : Nat} :
    range.checkedEnd = .ok stop ↔ range.stop < 2 ^ 64 ∧ stop = range.stop :=
  addU64_eq_ok

theorem separated_of_rangesAreNormalized {previousEnd : Option Nat}
    (h : rangesAreNormalized totalRows previousEnd ranges = .ok true) :
    Separated ranges ∧ ∀ p ∈ previousEnd, ∀ range ∈ ranges, p < range.start := by
  induction ranges generalizing previousEnd with
  | nil => exact ⟨.nil, fun _ _ _ h => absurd h List.not_mem_nil⟩
  | cons range ranges ih =>
    unfold rangesAreNormalized at h
    split at h
    · cases h
    obtain ⟨stop, hstop, h⟩ := bind_eq_ok.mp h
    obtain ⟨_, rfl⟩ := checkedEnd_eq_ok.mp hstop
    split at h
    · cases h
    split at h
    · cases h
    next hprev =>
    obtain ⟨hsep, hlater⟩ := ih h
    have hafter : ∀ r ∈ ranges, range.stop < r.start := hlater _ rfl
    refine ⟨.cons hafter hsep, fun p hp r hr => ?_⟩
    have hlt : p < range.start := by
      obtain rfl := Option.mem_def.mp hp
      simpa using hprev
    rcases List.mem_cons.mp hr with rfl | hr
    · exact hlt
    · have := hafter r hr
      simp only [Span.stop] at this
      omega

theorem joinRanges_eq_none (h : joinRanges a b = .ok none) :
    a.stop < b.start := by
  obtain ⟨_, ha, h⟩ := bind_eq_ok.mp h
  obtain ⟨_, rfl⟩ := checkedEnd_eq_ok.mp ha
  obtain ⟨_, _, h⟩ := bind_eq_ok.mp h
  split at h
  · obtain ⟨_, _, h⟩ := bind_eq_ok.mp h
    cases h
  · next hle => exact Nat.lt_of_not_le hle

/-- A merged range starts where its first operand does. -/
theorem joinRanges_eq_some (h : joinRanges a b = .ok (some m)) :
    m.start = a.start ∧ b.stop < 2 ^ 64 ∧ m.stop < 2 ^ 64 := by
  obtain ⟨_, ha, h⟩ := bind_eq_ok.mp h
  obtain ⟨hlt, rfl⟩ := checkedEnd_eq_ok.mp ha
  obtain ⟨_, hb, h⟩ := bind_eq_ok.mp h
  obtain ⟨hlt', rfl⟩ := checkedEnd_eq_ok.mp hb
  split at h
  · obtain ⟨_, hm, h⟩ := bind_eq_ok.mp h
    obtain ⟨hle, rfl⟩ := sub_eq_ok.mp hm
    obtain rfl := Option.some.inj (Except.ok.inj h)
    refine ⟨rfl, hlt', ?_⟩
    simp only [Span.stop] at *
    omega
  · cases h

theorem joinRanges_stable {c : RowRange} (h : joinRanges a b = .ok none)
    (hm : joinRanges b c = .ok (some m)) : joinRanges a m = .ok none := by
  have hlt := joinRanges_eq_none h
  obtain ⟨_, ha, _⟩ := bind_eq_ok.mp h
  obtain ⟨hstart, _, hstop⟩ := joinRanges_eq_some hm
  refine bind_eq_ok.mpr ⟨_, ha, bind_eq_ok.mpr ⟨_, checkedEnd_eq_ok.mpr ⟨hstop, rfl⟩, ?_⟩⟩
  obtain ⟨_, rfl⟩ := checkedEnd_eq_ok.mp ha
  exact if_neg (by omega)

theorem separated_of_mergeRuns {range : RowRange}
    (h : mergeRuns joinRanges range ranges = .ok out) : Separated out := by
  have hchain := mergeRuns_chain (fun _ _ _ _ => joinRanges_stable) h
  have : IsTrans RowRange fun a b => a.stop < b.start :=
    ⟨fun a b c hab hbc => by simp only [Span.stop] at *; omega⟩
  exact (hchain.imp fun _ _ => joinRanges_eq_none).pairwise

/-- **Normalised ranges are separated**, whichever way they were normalised. -/
theorem separated_of_normalizedRanges (h : normalizedRanges ranges totalRows = .ok out) :
    Separated out := by
  obtain ⟨b, hb, h⟩ := bind_eq_ok.mp h
  cases b with
  | true =>
    obtain rfl := Except.ok.inj h
    exact (separated_of_rangesAreNormalized hb).1
  | false =>
    obtain ⟨_, _, h⟩ := bind_eq_ok.mp h
    split at h
    · obtain rfl := Except.ok.inj h
      exact .nil
    · exact separated_of_mergeRuns h

end Normalised

/-! ## Counting hidden rows -/

variable {row n : Nat} {bits : List Nat}

section Counting

variable {ranges : List RowRange} {start stop : Nat}

theorem endsBy_iff {range : RowRange} :
    endsBy row range = true ↔ range.stop < 2 ^ 64 ∧ range.stop ≤ row := by
  unfold endsBy
  split
  · next h =>
    obtain ⟨hlt, rfl⟩ := checkedEnd_eq_ok.mp h
    rw [decide_eq_true_eq]
    exact ⟨fun hle => ⟨hlt, hle⟩, And.right⟩
  · next h =>
    have : ¬ range.stop < 2 ^ 64 := fun hlt => by
      rw [checkedEnd_eq_ok.mpr ⟨hlt, rfl⟩] at h
      cases h
    exact ⟨nofun, fun hle => absurd hle.1 this⟩

/-- The loop adds up the rows of the window, range by range. -/
theorem coveredLoop_eq_card (hsep : Separated ranges) {covered : Nat}
    (h : coveredLoop start stop ranges covered = .ok n) :
    n = covered + (window ranges start stop).card := by
  induction ranges generalizing covered with
  | nil =>
    obtain rfl := Except.ok.inj h
    rw [window_eq_empty (by simp)]
    rfl
  | cons range ranges ih =>
    have hsep' : Separated ranges := (List.pairwise_cons.mp hsep).2
    unfold coveredLoop at h
    split at h
    · next hge =>
      obtain rfl := Except.ok.inj h
      rw [window_eq_empty]
      · rfl
      · intro s hs
        rcases List.mem_cons.mp hs with rfl | hs
        · exact .inl hge
        · have := (List.pairwise_cons.mp hsep).1 s hs
          simp only [Span.stop] at this
          omega
    · obtain ⟨_, hend, h⟩ := bind_eq_ok.mp h
      obtain ⟨_, rfl⟩ := checkedEnd_eq_ok.mp hend
      rw [card_window_cons hsep]
      dsimp only at h
      split at h
      · obtain ⟨_, hadd, h⟩ := bind_eq_ok.mp h
        obtain ⟨_, rfl⟩ := addU64_eq_ok.mp hadd
        have := ih hsep' h
        omega
      · have := ih hsep' h
        omega

/-- **Counting covered rows** counts the rows of the window that some range holds. -/
theorem coveredRowsInRange_eq_card (hsep : Separated ranges)
    (h : coveredRowsInRange ranges start stop = .ok n) :
    n = (window ranges start stop).card := by
  have hdrop := List.takeWhile_append_dropWhile (p := endsBy start) (l := ranges)
  have hloop := coveredLoop_eq_card (hsep.sublist (List.dropWhile_sublist _)) h
  rw [hloop, Nat.zero_add]
  congr 1
  ext r
  simp only [mem_window]
  refine and_congr_right fun hr => ⟨fun ⟨s, hs, hmem⟩ =>
    ⟨s, (List.dropWhile_sublist _).subset hs, hmem⟩, fun ⟨s, hs, hmem⟩ => ⟨s, ?_, hmem⟩⟩
  rw [← hdrop] at hs
  rcases List.mem_append.mp hs with hs | hs
  · -- a skipped range ends before the window begins
    have := (endsBy_iff.mp (List.mem_takeWhile_imp hs)).2
    exact absurd hmem.2 (by omega)
  · exact hs

/-- A row is found in separated ranges exactly when one of them holds it. -/
theorem rangeSetContains_iff (hsep : Separated ranges) (hrow : row < 2 ^ 64 - 1) :
    rangeSetContains ranges row = true ↔ Covered ranges row := by
  have hdrop := List.takeWhile_append_dropWhile (p := endsBy row) (l := ranges)
  have hskip : ∀ s ∈ ranges.takeWhile (endsBy row), ¬ s.Mem row := fun s hs hmem => by
    have := (endsBy_iff.mp (List.mem_takeWhile_imp hs)).2
    exact absurd hmem.2 (by omega)
  unfold rangeSetContains
  cases hd : ranges.dropWhile (endsBy row) with
  | nil =>
    rw [hd, List.append_nil] at hdrop
    simp only [Bool.false_eq_true, false_iff]
    rintro ⟨s, hs, hmem⟩
    rw [← hdrop] at hs
    exact hskip s hs hmem
  | cons range rest =>
    rw [hd] at hdrop
    have hin : range ∈ ranges :=
      (List.dropWhile_sublist _).subset (hd ▸ List.mem_cons_self : range ∈ _)
    have hnot : endsBy row range = false := by
      have := List.head?_dropWhile_not (endsBy row) ranges
      rw [hd] at this
      simpa using this
    have hpast : row < range.stop := by
      by_contra hle
      rw [endsBy_iff.mpr ⟨by omega, by omega⟩] at hnot
      cases hnot
    have hval : (decide (row ≥ range.start) && decide (row < min (range.start + range.len)
        (2 ^ 64 - 1))) = true ↔ range.start ≤ row := by
      simp only [Span.stop] at hpast
      simp only [ge_iff_le, Bool.and_eq_true, decide_eq_true_eq]
      omega
    rw [hval]
    refine ⟨fun hle => ⟨range, hin, hle, hpast⟩, fun ⟨s, hs, hmem⟩ => ?_⟩
    rcases List.mem_append.mp (hdrop.symm ▸ hs : s ∈ _ ++ range :: rest) with hs | hs
    · exact absurd hmem (hskip s hs)
    · rcases List.mem_cons.mp hs with rfl | hs
      · exact hmem.1
      · have hsep' : Separated (range :: rest) := hd ▸ hsep.sublist (List.dropWhile_sublist _)
        have := (List.pairwise_cons.mp hsep').1 s hs
        exact absurd hmem.1 (by omega)

/-- One word counts the deleted rows of its part of the window. -/
theorem deletedInWord_eq_card {k : Nat} (h : deletedInWord bits start stop k = .ok n) :
    n = (BitWords.window bits (max start (64 * k)) (min stop (64 * k + 64))).card := by
  obtain ⟨_, h1, h⟩ := bind_eq_ok.mp h
  obtain ⟨_, rfl⟩ := mulU64_eq_ok.mp h1
  obtain ⟨_, h2, h⟩ := bind_eq_ok.mp h
  obtain ⟨_, rfl⟩ := addU64_eq_ok.mp h2
  obtain ⟨_, h3, h⟩ := bind_eq_ok.mp h
  obtain ⟨hlo, rfl⟩ := sub_eq_ok.mp h3
  obtain ⟨_, h4, h⟩ := bind_eq_ok.mp h
  obtain ⟨hhi, rfl⟩ := sub_eq_ok.mp h4
  obtain rfl := Except.ok.inj h
  rw [Nat.mul_comm k 64] at *
  have hmask : ∀ lo len, lo + len ≤ 64 →
      (if len = 64 then 2 ^ 64 - 1 else BitWords.mask lo len) = BitWords.mask lo len := by
    intro lo len hle
    split
    · next h64 =>
      obtain ⟨rfl, rfl⟩ : lo = 0 ∧ len = 64 := by omega
      rfl
    · rfl
  rw [hmask _ _ (by omega)]
  exact BitWords.countOnes_mask bits (by omega) (by omega)

/-- **Counting deleted rows** counts the rows of the window that the bitmap holds. -/
theorem bitmapCountDeletedInRange_eq_card (h : bitmapCountDeletedInRange bits start stop = .ok n) :
    n = (BitWords.window bits start stop).card := by
  unfold bitmapCountDeletedInRange at h
  split at h
  · next hge =>
    obtain rfl := Except.ok.inj h
    symm
    rw [Finset.card_eq_zero]
    refine Finset.eq_empty_of_forall_notMem fun r hr => ?_
    have := (BitWords.mem_window.mp hr).1
    omega
  next hlt =>
  -- after the words below `k`, the rows below `64 * k` have been counted
  have key : ∀ m k acc, start / 64 ≤ k → k + m = (stop - 1) / 64 + 1 →
      acc = (BitWords.window bits start (max start (min stop (64 * k)))).card →
      (List.range' k m).foldlM
        (fun deleted wordIndex => do
          .ok (deleted + (← deletedInWord bits start stop wordIndex))) acc = .ok n →
      n = (BitWords.window bits start stop).card := by
    intro m
    induction m with
    | zero =>
      intro k acc _ hk hacc h
      obtain rfl := Except.ok.inj h
      rw [hacc]
      congr 2
      omega
    | succ m ih =>
      intro k acc hlo hk hacc h
      rw [List.range'_succ, List.foldlM_cons] at h
      obtain ⟨acc', hstep, h⟩ := bind_eq_ok.mp h
      obtain ⟨d, hd, hstep⟩ := bind_eq_ok.mp hstep
      obtain rfl := Except.ok.inj hstep
      refine ih (k + 1) _ (by omega) (by omega) ?_ h
      have hlo' : start ≤ max start (min stop (64 * k)) := by omega
      have hhi : max start (min stop (64 * k)) ≤ max start (min stop (64 * (k + 1))) := by
        omega
      rw [hacc, deletedInWord_eq_card hd, BitWords.card_window_append bits hlo' hhi]
      congr 3 <;> omega
  refine key _ (start / 64) 0 (Nat.le_refl _) (by omega) ?_ h
  symm
  rw [Finset.card_eq_zero]
  refine Finset.eq_empty_of_forall_notMem fun r hr => ?_
  have := (BitWords.mem_window.mp hr).1
  omega

/-- **A range hidden as often as it has rows is hidden row by row.** -/
theorem RowVisibility.isRowVisible_eq_false {v : RowVisibility} {len totalRows : Nat}
    (h : v.hiddenRowsInRange start len totalRows = .ok len) (hlo : start ≤ row)
    (hhi : row < start + len) : v.isRowVisible row totalRows = .ok false := by
  obtain ⟨_, hstop, h⟩ := bind_eq_ok.mp h
  obtain ⟨hfit, rfl⟩ := addU64_eq_ok.mp hstop
  split at h
  · cases h
  next htotal =>
  obtain ⟨_, hcount, h⟩ := bind_eq_ok.mp h
  split at h
  swap
  · cases h
  obtain rfl := Except.ok.inj h
  unfold isRowVisible
  rw [if_neg (by omega)]
  cases v with
  | all =>
    have := Except.ok.inj hcount
    omega
  | visibleRanges ranges =>
    obtain ⟨ns, hns, hcount⟩ := bind_eq_ok.mp hcount
    obtain ⟨c, hc, hcount⟩ := bind_eq_ok.mp hcount
    obtain ⟨hle, hlen⟩ := sub_eq_ok.mp hcount
    have hsep := separated_of_normalizedRanges hns
    have hzero : c = 0 := by omega
    have hnot : ¬ Covered ns row := not_covered_of_card_zero
      ((coveredRowsInRange_eq_card hsep hc).symm.trans hzero) hlo hhi
    rw [← rangeSetContains_iff hsep (by omega), Bool.not_eq_true] at hnot
    exact bind_eq_ok.mpr ⟨ns, hns, by rw [hnot]⟩
  | deletedRanges ranges =>
    obtain ⟨ns, hns, hcount⟩ := bind_eq_ok.mp hcount
    have hsep := separated_of_normalizedRanges hns
    have hall := covered_of_card_eq (coveredRowsInRange_eq_card hsep hcount).symm hlo hhi
    rw [← rangeSetContains_iff hsep (by omega)] at hall
    exact bind_eq_ok.mpr ⟨ns, hns, by rw [hall]; rfl⟩
  | deletedBitmap rowCount bits =>
    obtain ⟨u, hu, hcount⟩ := bind_eq_ok.mp hcount
    have hall := BitWords.get_of_card_eq (bitmapCountDeletedInRange_eq_card hcount).symm hlo hhi
    exact bind_eq_ok.mpr ⟨u, hu, by rw [hall]; rfl⟩

end Counting

end Cove
