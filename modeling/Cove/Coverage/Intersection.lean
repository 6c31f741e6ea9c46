import Cove.Coverage.Union

/-!
# Intersection and refinement of coverage

The intersection keeps the entries of the left list that the right list has too, field for field.
Two ranges that overlap without being equal are in neither's favour: both are dropped.

- `coverageIntersection`, `coverageRefine`.
- `SharesRow`: two row ranges of one scope with a common row.
- `eq_of_sharesRow`: the ranges of one accepted list share no rows.
- `coverageIntersection_covers_iff`: **when every commonly covered row is kept**.
-/

namespace Cove

open CoverageSetEntryV2

/-! ## The operations -/

/-- `coverage_intersection`. -/
def coverageIntersection (left right : List CoverageSetEntryV2) :
    Except CoveError (List CoverageSetEntryV2) := do
  let out := left.filter fun entry => decide (entry ∈ right)
  validateCoverageEntries out
  .ok out

/-- `coverage_refine`. -/
def coverageRefine (entries refinement : List CoverageSetEntryV2) :
    Except CoveError (List CoverageSetEntryV2) :=
  coverageIntersection entries refinement

/-! ## Rows in common -/

/-- Row ranges of one scope that have a row in common. -/
def SharesRow (e f : CoverageSetEntryV2) : Prop :=
  SameScope e f ∧ max e.rowStart f.rowStart < min e.rowEnd f.rowEnd

variable {e f : CoverageSetEntryV2}

theorem sharesRow_iff :
    SharesRow e f ↔ ∃ scope r, e.Covers (.row scope r) ∧ f.Covers (.row scope r) := by
  constructor
  · rintro ⟨⟨he, hf, hscope⟩, hrows⟩
    refine ⟨e.scope, max e.rowStart f.rowStart, ⟨he, rfl, ?_, ?_⟩, ⟨hf, hscope.symm, ?_, ?_⟩⟩
    all_goals omega
  · rintro ⟨scope, r, ⟨he, rfl, hes, hee⟩, ⟨hf, hscope, hfs, hfe⟩⟩
    exact ⟨⟨he, hf, hscope.symm⟩, by omega⟩

section

variable {left right entries : List CoverageSetEntryV2}

/-- In an accepted list a row is in one range. -/
theorem eq_of_sharesRow (hv : validateCoverageEntries entries = .ok ())
    (he : e ∈ entries) (hf : f ∈ entries) (h : SharesRow e f) : e = f := by
  obtain ⟨hscope, hrows⟩ := h
  -- Of two ranges in one scope the later one starts past the end of the earlier.
  rcases lt_trichotomy e f with hlt | heq | hgt
  · have := ((inOrder_of_lt hv he hf hlt).2 hscope).2
    omega
  · exact heq
  · have := ((inOrder_of_lt hv hf he hgt).2 hscope.symm).2
    omega

/-- An accepted list keeps being accepted when entries are left out. -/
theorem coverageIntersection_eq_ok (hl : validateCoverageEntries left = .ok ()) :
    coverageIntersection left right = .ok (left.filter fun entry => decide (entry ∈ right)) := by
  have hv : validateCoverageEntries (left.filter fun entry => decide (entry ∈ right)) = .ok () :=
    validateCoverageEntries_ok_iff.mpr ((validateCoverageEntries_ok_iff.mp hl).filter _)
  unfold coverageIntersection
  dsimp only
  rw [hv]
  rfl

/-- A row the intersection covers is covered by both lists, in one and the same range. -/
theorem covers_intersection_iff {scope : Nat × Nat × Nat × Nat} {r : Nat} :
    Covers (left.filter fun entry => decide (entry ∈ right)) (.row scope r) ↔
      ∃ e ∈ left, e ∈ right ∧ e.Covers (.row scope r) := by
  simp only [Covers, List.mem_filter, decide_eq_true_eq, and_assoc]

/-- **When nothing is lost.** The intersection, and the refinement, cover every row that both
accepted lists cover exactly when two ranges of the lists that share a row are equal. -/
theorem coverageIntersection_covers_iff (hl : validateCoverageEntries left = .ok ())
    (hr : validateCoverageEntries right = .ok ()) :
    (∃ out, coverageIntersection left right = .ok out ∧ coverageRefine left right = .ok out ∧
        ∀ scope r, Covers left (.row scope r) → Covers right (.row scope r) →
          Covers out (.row scope r)) ↔
      ∀ e ∈ left, ∀ f ∈ right, SharesRow e f → e = f := by
  constructor
  · rintro ⟨out, hout, -, hkept⟩ e he f hf hshare
    obtain rfl := Except.ok.inj ((coverageIntersection_eq_ok hl).symm.trans hout)
    obtain ⟨scope, r, her, hfr⟩ := sharesRow_iff.mp hshare
    obtain ⟨g, hgl, hgr, hg⟩ := covers_intersection_iff.mp (hkept scope r ⟨e, he, her⟩ ⟨f, hf, hfr⟩)
    have heg : e = g := eq_of_sharesRow hl he hgl (sharesRow_iff.mpr ⟨scope, r, her, hg⟩)
    have hgf : g = f := eq_of_sharesRow hr hgr hf (sharesRow_iff.mpr ⟨scope, r, hg, hfr⟩)
    exact heg.trans hgf
  · intro hequal
    refine ⟨_, coverageIntersection_eq_ok hl, coverageIntersection_eq_ok hl, ?_⟩
    rintro scope r ⟨e, he, her⟩ ⟨f, hf, hfr⟩
    obtain rfl := hequal e he f hf (sharesRow_iff.mpr ⟨scope, r, her, hfr⟩)
    exact covers_intersection_iff.mpr ⟨e, he, hf, her⟩

end

/-! ## The defect -/

/-- The rows 0 to 9 against the rows 5 to 14: the common rows are lost. -/
theorem coverageIntersection_loses_rows :
    validateCoverageEntries [rowRangeEntry 0 0 10] = .ok () ∧
      validateCoverageEntries [rowRangeEntry 0 5 10] = .ok () ∧
      coverageIntersection [rowRangeEntry 0 0 10] [rowRangeEntry 0 5 10] = .ok [] ∧
      coverageRefine [rowRangeEntry 0 0 10] [rowRangeEntry 0 5 10] = .ok [] ∧
      Covers [rowRangeEntry 0 0 10] (.row (0, 1, 2, 3) 7) ∧
      Covers [rowRangeEntry 0 5 10] (.row (0, 1, 2, 3) 7) ∧
      ¬Covers [] (.row (0, 1, 2, 3) 7) := by
  refine ⟨valid_singleton _, valid_singleton _, by decide, by decide,
    ⟨_, List.mem_singleton_self _, rfl, rfl, by decide, by decide⟩,
    ⟨_, List.mem_singleton_self _, rfl, rfl, by decide, by decide⟩, ?_⟩
  rintro ⟨e, he, -⟩
  cases he

/-- Two lists that agree on the ranges they share. -/
theorem coverageIntersection_covers_equal :
    (∃ out, coverageIntersection [rowRangeEntry 0 0 10] [rowRangeEntry 0 0 10] = .ok out ∧
        coverageRefine [rowRangeEntry 0 0 10] [rowRangeEntry 0 0 10] = .ok out ∧
        ∀ scope r, Covers [rowRangeEntry 0 0 10] (.row scope r) →
          Covers [rowRangeEntry 0 0 10] (.row scope r) → Covers out (.row scope r)) ↔
      ∀ e ∈ [rowRangeEntry 0 0 10], ∀ f ∈ [rowRangeEntry 0 0 10], SharesRow e f → e = f :=
  coverageIntersection_covers_iff (valid_singleton _) (valid_singleton _)

end Cove
