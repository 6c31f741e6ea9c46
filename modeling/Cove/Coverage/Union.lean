import Cove.Lib.MergeRuns
import Cove.Lib.SortedList
import Cove.Coverage.Entry

/-!
# Union and coarsening of coverage

Both operations sort the entries and then merge, in one pass, each row range into the
one before it when they are of one scope and touch. The order puts the flags and the
page reference before the start of a range, while the merge looks at neither.

- `coalesceRowRanges`, `coverageUnion`, `coverageCoarsen`.
- `Covers`: the rows and other fragments a list of entries covers.
- `NoneBelow`: no range loses rows below an earlier range of its scope.
- `coalesceRowRanges_covers_iff`: **merging is exact** exactly under `NoneBelow`.
- `coverageCoarsen_covers`, `coverageCoarsen_idem`: coarsening accepted entries.
- `coverageUnion_exact_iff`: when the union of two accepted lists is exact.
-/

namespace Cove

open CoverageSetEntryV2 MergeRuns SortedList

/-! ## The operations -/

/-- Offer an entry to the last one of the output: a row range absorbs a range of its
scope that starts no later than it ends. -/
def joinRowRanges (last entry : CoverageSetEntryV2) :
    Except CoveError (Option CoverageSetEntryV2) :=
  if SameScope last entry then do
    let lastEnd ← checkedAdd last.rowStart last.rowCount
    if entry.rowStart ≤ lastEnd then do
      let entryEnd ← checkedAdd entry.rowStart entry.rowCount
      .ok (some { last with rowCount := max (entryEnd - last.rowStart) last.rowCount })
    else .ok none
  else .ok none

/-- The merging pass over sorted entries. -/
def mergeRowRanges : List CoverageSetEntryV2 → Except CoveError (List CoverageSetEntryV2)
  | [] => .ok []
  | entry :: entries => mergeRuns joinRowRanges entry entries

def coalesceRowRanges (entries : List CoverageSetEntryV2) :
    Except CoveError (List CoverageSetEntryV2) := do
  let out ← mergeRowRanges (entries.insertionSort (· ≤ ·))
  validateCoverageEntries out
  .ok out

def coverageUnion (left right : List CoverageSetEntryV2) :
    Except CoveError (List CoverageSetEntryV2) :=
  coalesceRowRanges (dedup ((left ++ right).insertionSort (· ≤ ·)))

def coverageCoarsen (entries : List CoverageSetEntryV2) :
    Except CoveError (List CoverageSetEntryV2) :=
  coalesceRowRanges entries

/-! ## What is covered -/

/-- A fragment of a data set: a row of a scope, or what an entry of another kind names. -/
inductive Fragment where
  | row (scope : Nat × Nat × Nat × Nat) (r : Nat)
  | other (entry : CoverageSetEntryV2)

/-- The fragments an entry covers. -/
def CoverageSetEntryV2.Covers (e : CoverageSetEntryV2) : Fragment → Prop
  | .row scope r => e.isRowRange = true ∧ e.scope = scope ∧ e.rowStart ≤ r ∧ r < e.rowEnd
  | .other f => e = f ∧ e.isRowRange = false

/-- The fragments a list of entries covers. -/
def Covers (entries : List CoverageSetEntryV2) (x : Fragment) : Prop :=
  ∃ e ∈ entries, e.Covers x

/-- No range loses rows to the order: what a range has below an earlier range of its
scope, ranges of the scope from before that one have too. -/
def NoneBelow (entries : List CoverageSetEntryV2) : Prop :=
  ∀ e ∈ entries, ∀ f ∈ entries, e < f → SameScope e f →
    ∀ r, f.Covers (.row f.scope r) → r < e.rowStart →
      ∃ g ∈ entries, g < e ∧ g.Covers (.row f.scope r)

/-! ## One merge -/

variable {x : Fragment}

variable {b : CoverageSetEntryV2}

section Join

variable {a c m : CoverageSetEntryV2}

theorem joinRowRanges_eq_some :
    joinRowRanges a c = .ok (some m) ↔
      SameScope a c ∧ a.rowEnd < 2 ^ 64 ∧ c.rowStart ≤ a.rowEnd ∧ c.rowEnd < 2 ^ 64 ∧
        m = { a with rowCount := max (c.rowEnd - a.rowStart) a.rowCount } := by
  unfold joinRowRanges
  by_cases hs : SameScope a c
  · simp only [hs, if_true, Checked.bind_eq_ok, Checked.addU64_eq_ok, true_and]
    constructor
    · rintro ⟨_, ⟨ha, rfl⟩, h⟩
      split at h
      · next hle =>
        obtain ⟨_, ⟨hc, rfl⟩, h⟩ := Checked.bind_eq_ok.mp h |>.imp fun _ h =>
          And.imp_left Checked.addU64_eq_ok.mp h
        exact ⟨ha, hle, hc, (Option.some.inj (Except.ok.inj h)).symm⟩
      · cases h
    · rintro ⟨ha, hle, hc, rfl⟩
      refine ⟨_, ⟨ha, rfl⟩, (if_pos hle).trans ?_⟩
      exact Checked.bind_eq_ok.mpr ⟨_, Checked.addU64_eq_ok.mpr ⟨hc, rfl⟩, rfl⟩
  · simp [hs]

theorem joinRowRanges_eq_none :
    joinRowRanges a c = .ok none ↔
      SameScope a c → a.rowEnd < 2 ^ 64 ∧ a.rowEnd < c.rowStart := by
  unfold joinRowRanges
  by_cases hs : SameScope a c
  · simp only [hs, if_true, Checked.bind_eq_ok, Checked.addU64_eq_ok, true_implies]
    constructor
    · rintro ⟨_, ⟨ha, rfl⟩, h⟩
      split at h
      · obtain ⟨_, _, h⟩ := Checked.bind_eq_ok.mp h
        cases h
      · next hgt => exact ⟨ha, Nat.lt_of_not_le hgt⟩
    · rintro ⟨ha, hlt⟩
      exact ⟨_, ⟨ha, rfl⟩, if_neg (Nat.not_le.mpr hlt)⟩
  · simp [hs]

/-- A merged range keeps kind, scope and start, and never gets shorter. -/
structure Extends (a m : CoverageSetEntryV2) : Prop where
  isRowRange : m.isRowRange = a.isRowRange
  scope : m.scope = a.scope
  rowStart : m.rowStart = a.rowStart
  rowEnd : a.rowEnd ≤ m.rowEnd
  other : a.isRowRange = false → m = a

theorem Extends.refl (a : CoverageSetEntryV2) : Extends a a :=
  ⟨rfl, rfl, rfl, Nat.le_refl _, fun _ => rfl⟩

theorem Extends.trans (h : Extends a b) (h' : Extends b c) :
    Extends a c where
  isRowRange := h'.isRowRange.trans h.isRowRange
  scope := h'.scope.trans h.scope
  rowStart := h'.rowStart.trans h.rowStart
  rowEnd := h.rowEnd.trans h'.rowEnd
  other ha := (h'.other (h.isRowRange.trans ha)).trans (h.other ha)

theorem Extends.covers (h : Extends a m) (hx : a.Covers x) : m.Covers x := by
  cases x with
  | row scope r =>
    obtain ⟨hr, hs, hlo, hhi⟩ := hx
    exact ⟨h.isRowRange.trans hr, h.scope.trans hs, h.rowStart.le.trans hlo,
      hhi.trans_le h.rowEnd⟩
  | other f => rwa [h.other hx.2]

theorem joinRowRanges_extends (h : joinRowRanges a c = .ok (some m)) : Extends a m := by
  obtain ⟨hs, _, _, _, rfl⟩ := joinRowRanges_eq_some.mp h
  refine ⟨rfl, rfl, rfl, ?_, fun ha => ?_⟩
  · simp only [rowEnd]
    omega
  · rw [hs.1] at ha
    cases ha

/-- A merge covers no more than its operands: they touch. -/
theorem joinRowRanges_sub (h : joinRowRanges a c = .ok (some m)) (x : Fragment)
    (hx : m.Covers x) : a.Covers x ∨ c.Covers x := by
  obtain ⟨⟨ha, hc, hs⟩, _, hle, _, rfl⟩ := joinRowRanges_eq_some.mp h
  cases x with
  | row scope r =>
    obtain ⟨_, hscope, hlo, hhi⟩ := hx
    simp only [rowEnd] at hhi hle
    by_cases hr : r < a.rowEnd
    · exact .inl ⟨ha, hscope, hlo, hr⟩
    · refine .inr ⟨hc, hs.symm.trans hscope, ?_, ?_⟩ <;>
      · simp only [rowEnd] at hr ⊢
        omega
  | other f =>
    have : a.isRowRange = false := hx.2
    rw [ha] at this
    cases this

/-- What a merge loses of the absorbed range lies below the range that absorbs it. -/
theorem joinRowRanges_sup (h : joinRowRanges a c = .ok (some m)) {r : Nat}
    (hx : c.Covers (.row c.scope r)) (hr : a.rowStart ≤ r) : m.Covers (.row c.scope r) := by
  obtain ⟨⟨ha, _, hs⟩, _, _, _, rfl⟩ := joinRowRanges_eq_some.mp h
  obtain ⟨_, _, _, hhi⟩ := hx
  refine ⟨ha, hs, hr, ?_⟩
  simp only [rowEnd] at hhi ⊢
  omega

end Join

/-! ## The merging pass -/

section Pass

variable {entry : CoverageSetEntryV2} {entries out : List CoverageSetEntryV2}

theorem mergeRowRanges_sub (h : mergeRowRanges entries = .ok out)
    (hx : Covers out x) : Covers entries x := by
  cases entries with
  | nil =>
    obtain rfl := Except.ok.inj h
    exact hx
  | cons entry entries => exact mergeRuns_sub (fun _ _ _ => joinRowRanges_sub) h hx

theorem mergeRuns_covers_last (h : mergeRuns joinRowRanges entry entries = .ok out)
    (hx : entry.Covers x) : Covers out x :=
  mergeRuns_last (fun _ _ _ hj _ => (joinRowRanges_extends hj).covers) h hx

/-- The row ranges of an ordered output reach the open range, below its end, nowhere but
in that range itself. -/
theorem rowStart_le_of_covers (h : mergeRuns joinRowRanges entry entries = .ok out)
    (hord : out.Pairwise InOrder) {r : Nat} (hx : Covers out (.row entry.scope r))
    (hr : r < entry.rowEnd) (hrange : entry.isRowRange = true) : entry.rowStart ≤ r := by
  obtain ⟨o, tl, rfl, hext⟩ := mergeRuns_head Extends.refl (fun _ _ _ => Extends.trans)
    (fun _ _ _ => joinRowRanges_extends) h
  obtain ⟨e, he, her, hes, hlo, _⟩ := hx
  rcases List.mem_cons.mp he with rfl | he
  · exact hext.rowStart ▸ hlo
  · have hs : SameScope o e :=
      ⟨hext.isRowRange.trans hrange, her, hext.scope.trans hes.symm⟩
    have := ((List.pairwise_cons.mp hord).1 e he).2 hs
    have := hext.rowEnd
    omega

/-- Cut the pass in front of `g`: it is the first entry, or it meets an open entry that
the entries before it led to. -/
theorem mergeRowRanges_cut {pre post : List CoverageSetEntryV2} {g : CoverageSetEntryV2}
    (h : mergeRowRanges (pre ++ g :: post) = .ok out) :
    (pre = [] ∧ mergeRuns joinRowRanges g post = .ok out) ∨
      ∃ closed last out', mergeRowRanges pre = .ok (closed ++ [last]) ∧
        mergeRuns joinRowRanges last (g :: post) = .ok out' ∧ out = closed ++ out' := by
  cases pre with
  | nil => exact .inl ⟨rfl, h⟩
  | cons a pre => exact .inr (mergeRuns_append h)

/-- An open range begins where one of the ranges that led to it does. -/
theorem mergeRowRanges_anchor (h : mergeRowRanges entries = .ok out)
    {o : CoverageSetEntryV2} (ho : o ∈ out) :
    ∃ e ∈ entries, e.isRowRange = o.isRowRange ∧ e.scope = o.scope ∧
      e.rowStart = o.rowStart := by
  cases entries with
  | nil =>
    obtain rfl := Except.ok.inj h
    cases ho
  | cons entry entries =>
    let start (e : CoverageSetEntryV2) := (e.isRowRange, e.scope, e.rowStart)
    have hstart : ∀ a c m, joinRowRanges a c = .ok (some m) → start m = start a := by
      intro a c m hj
      have hext := joinRowRanges_extends hj
      simp only [start, hext.isRowRange, hext.scope, hext.rowStart]
    obtain ⟨e, he, heq⟩ := mergeRuns_anchor hstart h ho
    simp only [start, Prod.mk.injEq] at heq
    exact ⟨e, he, heq⟩

/-- Under `NoneBelow` every entry of a strictly ascending list stays covered. The
induction is on the number of entries before it: the rows a merge drops are, by
`NoneBelow`, rows of an earlier range. -/
theorem mergeRowRanges_sup (hsorted : entries.Pairwise (· < ·)) (hnb : NoneBelow entries)
    (h : mergeRowRanges entries = .ok out) (hx : Covers entries x) :
    Covers out x := by
  have key : ∀ n, ∀ pre g post, entries = pre ++ g :: post → pre.length = n →
      g.Covers x → Covers out x := by
    intro n
    induction n using Nat.strong_induction_on with
    | _ n ih =>
      rintro pre g post rfl rfl hg
      rcases mergeRowRanges_cut h with ⟨rfl, hrest⟩ | ⟨closed, last, out', hpre, hrest, rfl⟩
      · exact mergeRuns_covers_last hrest hg
      rcases mergeRuns_cons hrest with ⟨m, hm, hrest⟩ | ⟨_, tl, htl, rfl⟩
      · obtain ⟨hs, _⟩ := joinRowRanges_eq_some.mp hm
        cases x with
        | other f =>
          have := hg.2
          rw [hs.2.1] at this
          cases this
        | row scope r =>
          obtain rfl := hg.2.1
          by_cases hr : last.rowStart ≤ r
          · obtain ⟨o, ho, hcov⟩ := mergeRuns_covers_last hrest (joinRowRanges_sup hm hg hr)
            exact ⟨o, List.mem_append_right _ ho, hcov⟩
          · -- the row lies below the range `e` that opened the run of `g`
            obtain ⟨e, he, her, hes, heq⟩ :=
              mergeRowRanges_anchor hpre (List.mem_append_right _ (List.mem_singleton_self _))
            have hlt : e < g := lt_of_mem_before hsorted he
            obtain ⟨g', hg', hlt', hcov⟩ := hnb e (List.mem_append_left _ he) g (by simp) hlt
              ⟨her.trans hs.1, hs.2.1, hes.trans hs.2.2⟩ r hg (by omega)
            have hmem := mem_before_of_lt hsorted hg' (hlt'.trans hlt)
            obtain ⟨pre₁, pre₂, rfl⟩ := List.append_of_mem hmem
            exact ih pre₁.length (by simp) pre₁ g' (pre₂ ++ g :: post) (by simp) rfl
              hcov
      · obtain ⟨o, ho, hcov⟩ := mergeRuns_covers_last htl hg
        exact ⟨o, by simp [ho], hcov⟩
  obtain ⟨g, hg, hcov⟩ := hx
  obtain ⟨pre, post, rfl⟩ := List.append_of_mem hg
  exact key _ pre g post rfl rfl hcov

/-- If everything stays covered, `NoneBelow` holds: a row below an earlier range can
only be covered by what came before that range. -/
theorem noneBelow_of_covers (hsorted : entries.Pairwise (· < ·))
    (h : mergeRowRanges entries = .ok out) (hord : out.Pairwise InOrder)
    (hsup : ∀ x, Covers entries x → Covers out x) : NoneBelow entries := by
  intro e he f hf hlt hs r hr hbelow
  have hx : Covers out (.row e.scope r) := hs.2.2 ▸ hsup _ ⟨f, hf, hr⟩
  obtain ⟨pre, post, rfl⟩ := List.append_of_mem he
  have hend : r < e.rowEnd := by
    simp only [rowEnd]
    omega
  rcases mergeRowRanges_cut h with ⟨rfl, hrest⟩ | ⟨closed, last, out', hpre, hrest, rfl⟩
  · have := rowStart_le_of_covers hrest hord hx hend hs.1
    omega
  -- it is enough that the row is covered before `e` is reached
  suffices hbefore : Covers (closed ++ [last]) (.row e.scope r) by
    obtain ⟨g, hg, hcov⟩ := mergeRowRanges_sub hpre hbefore
    exact ⟨g, List.mem_append_left _ hg, lt_of_mem_before hsorted hg, hs.2.2 ▸ hcov⟩
  obtain ⟨o, ho, hcov⟩ := hx
  have hord' := (List.pairwise_append.mp hord).2.1
  rcases List.mem_append.mp ho with ho | ho
  · exact ⟨o, List.mem_append_left _ ho, hcov⟩
  rcases mergeRuns_cons hrest with ⟨m, hm, hrest⟩ | ⟨_, tl, htl, rfl⟩
  · obtain ⟨hsl, _, hle, _⟩ := joinRowRanges_eq_some.mp hm
    have hext := joinRowRanges_extends hm
    have hxm : Covers out' (.row m.scope r) := by
      rw [hext.scope, hsl.2.2]
      exact ⟨o, ho, hcov⟩
    have := rowStart_le_of_covers hrest hord' hxm (by have := hext.rowEnd; omega)
      (hext.isRowRange.trans hsl.1)
    exact ⟨last, by simp, hsl.1, hsl.2.2, hext.rowStart ▸ this, by omega⟩
  · rcases List.mem_cons.mp ho with rfl | ho
    · exact ⟨o, by simp, hcov⟩
    · have := rowStart_le_of_covers htl (List.pairwise_cons.mp hord').2 ⟨o, ho, hcov⟩ hend hs.1
      omega

end Pass

/-! ## Coalescing, coarsening and union -/

variable {e : CoverageSetEntryV2}

section Coalesce

variable {entries left right out : List CoverageSetEntryV2}

theorem coalesceRowRanges_eq_ok (hsorted : entries.Pairwise (· < ·)) :
    coalesceRowRanges entries = .ok out ↔
      mergeRowRanges entries = .ok out ∧ out.Pairwise InOrder := by
  unfold coalesceRowRanges
  rw [insertionSort_of_lt hsorted]
  simp only [Checked.bind_eq_ok, ← validateCoverageEntries_ok_iff]
  constructor
  · rintro ⟨_, hm, ⟨⟩, hv, h⟩
    obtain rfl := Except.ok.inj h
    exact ⟨hm, hv⟩
  · rintro ⟨hm, hv⟩
    exact ⟨out, hm, (), hv, rfl⟩

/-- **Merging is exact** exactly when no range loses rows to the order. -/
theorem coalesceRowRanges_covers_iff (hsorted : entries.Pairwise (· < ·))
    (h : coalesceRowRanges entries = .ok out) :
    (∀ x, Covers out x ↔ Covers entries x) ↔ NoneBelow entries := by
  obtain ⟨hm, hord⟩ := (coalesceRowRanges_eq_ok hsorted).mp h
  exact ⟨fun hx => noneBelow_of_covers hsorted hm hord fun x => (hx x).mpr,
    fun hnb x => ⟨mergeRowRanges_sub hm, mergeRowRanges_sup hsorted hnb hm⟩⟩

/-- Accepted entries are strictly ascending, and no range of a scope begins below an
earlier one. -/
theorem pairwise_lt_of_valid (h : validateCoverageEntries entries = .ok ()) :
    entries.Pairwise (· < ·) :=
  (validateCoverageEntries_ok_iff.mp h).imp And.left

theorem inOrder_of_lt (h : validateCoverageEntries entries = .ok ()) {f : CoverageSetEntryV2}
    (he : e ∈ entries) (hf : f ∈ entries) (hlt : e < f) : InOrder e f := by
  have hpw := validateCoverageEntries_ok_iff.mp h
  obtain ⟨pre, post, rfl⟩ := List.append_of_mem hf
  have hmem := mem_before_of_lt (pairwise_lt_of_valid h) he hlt
  exact (List.pairwise_append.mp hpw).2.2 e hmem f List.mem_cons_self

theorem noneBelow_of_valid (h : validateCoverageEntries entries = .ok ()) :
    NoneBelow entries := by
  intro e he f hf hlt hs r hr hbelow
  have h1 := ((inOrder_of_lt h he hf hlt).2 hs).2
  have h2 := hr.2.2.1
  simp only [rowEnd] at h1
  omega

/-- **Coarsening** accepted entries covers what they cover. -/
theorem coverageCoarsen_covers (hv : validateCoverageEntries entries = .ok ())
    (h : coverageCoarsen entries = .ok out) (x : Fragment) :
    Covers out x ↔ Covers entries x :=
  (coalesceRowRanges_covers_iff (pairwise_lt_of_valid hv) h).mpr (noneBelow_of_valid hv) x

/-- A merged range does not move away from the range before it. -/
theorem joinRowRanges_stable {a c m : CoverageSetEntryV2}
    (h : joinRowRanges a b = .ok none) (hm : joinRowRanges b c = .ok (some m)) :
    joinRowRanges a m = .ok none := by
  have hext := joinRowRanges_extends hm
  rw [joinRowRanges_eq_none] at h ⊢
  intro hs
  rw [hext.rowStart]
  exact h ⟨hs.1, hext.isRowRange ▸ hs.2.1, hs.2.2.trans hext.scope⟩

/-- **Coarsening is idempotent**. -/
theorem coverageCoarsen_idem (hv : validateCoverageEntries entries = .ok ())
    (h : coverageCoarsen entries = .ok out) : coverageCoarsen out = .ok out := by
  obtain ⟨hm, hord⟩ := (coalesceRowRanges_eq_ok (pairwise_lt_of_valid hv)).mp h
  refine (coalesceRowRanges_eq_ok (hord.imp And.left)).mpr ⟨?_, hord⟩
  cases entries with
  | nil =>
    obtain rfl := Except.ok.inj hm
    rfl
  | cons entry entries =>
    have hchain := mergeRuns_chain (fun _ _ _ _ => joinRowRanges_stable) hm
    cases out with
    | nil => rfl
    | cons o out => exact mergeRuns_self hchain

/-- What the union merges: the entries of both lists, sorted, each once. -/
theorem sorted_union (left right : List CoverageSetEntryV2) :
    (dedup ((left ++ right).insertionSort (· ≤ ·))).Pairwise (· < ·) :=
  pairwise_lt_dedup (List.pairwise_insertionSort _ _)

theorem mem_union :
    e ∈ dedup ((left ++ right).insertionSort (· ≤ ·)) ↔ e ∈ left ++ right := by
  rw [mem_dedup, List.mem_insertionSort]

/-- A successful union is accepted, whatever it merged. -/
theorem coverageUnion_valid (h : coverageUnion left right = .ok out) :
    validateCoverageEntries out = .ok () :=
  validateCoverageEntries_ok_iff.mpr
    ((coalesceRowRanges_eq_ok (sorted_union left right)).mp h).2

/-- The union covers what either list covers exactly when no range of the two lists
loses rows to the order. -/
theorem coverageUnion_covers_iff (h : coverageUnion left right = .ok out) :
    (∀ x, Covers out x ↔ Covers left x ∨ Covers right x) ↔ NoneBelow (left ++ right) := by
  have hcov : ∀ x, Covers (dedup ((left ++ right).insertionSort (· ≤ ·))) x ↔
      Covers left x ∨ Covers right x := by
    intro x
    simp only [Covers, mem_union, List.mem_append, or_and_right, exists_or]
  have hnb : NoneBelow (dedup ((left ++ right).insertionSort (· ≤ ·))) ↔
      NoneBelow (left ++ right) := by
    simp only [NoneBelow, mem_union]
  rw [← hnb, ← coalesceRowRanges_covers_iff (sorted_union left right) h]
  exact forall_congr' fun x => by rw [hcov x]

/-- Coarsening a list loses nothing and is idempotent. -/
def CoarsenExact (entries : List CoverageSetEntryV2) : Prop :=
  ∀ out, coverageCoarsen entries = .ok out →
    (∀ x, Covers entries x → Covers out x) ∧ coverageCoarsen out = .ok out

/-- **Exactly when the algebra of coverage holds**. For two accepted lists whose union
succeeds: the union is accepted, covers exactly what either list covers, and coarsening
either list is lossless and idempotent, if and only if no range of the two lists loses
rows to the order. -/
theorem coverageUnion_exact_iff (hl : validateCoverageEntries left = .ok ())
    (hr : validateCoverageEntries right = .ok ()) (h : coverageUnion left right = .ok out) :
    (validateCoverageEntries out = .ok () ∧
      (∀ x, Covers out x ↔ Covers left x ∨ Covers right x) ∧
        CoarsenExact left ∧ CoarsenExact right) ↔ NoneBelow (left ++ right) := by
  rw [← coverageUnion_covers_iff h]
  refine ⟨fun hx => hx.2.1, fun hx => ⟨coverageUnion_valid h, hx, ?_, ?_⟩⟩
  · exact fun _ ho => ⟨fun x => (coverageCoarsen_covers hl ho x).mpr,
      coverageCoarsen_idem hl ho⟩
  · exact fun _ ho => ⟨fun x => (coverageCoarsen_covers hr ho x).mpr,
      coverageCoarsen_idem hr ho⟩

end Coalesce

/-! ## The defect -/

/-- A row range of file 0, table 1, segment 2, morsel 3. -/
def rowRangeEntry (flags rowStart rowCount : Nat) : CoverageSetEntryV2 where
  targetKind := .rowRange
  flags := flags
  fileRef := 0
  tableId := 1
  segmentId := 2
  morselId := 3
  pageRef := absentId
  objectTypeId := absentId
  pathRef := absentId
  dimensionalBucketRef := absentId
  rowStart := rowStart
  rowCount := rowCount
  rowOrdinalBitmapRef := absentId
  byteRangeRef := absentId
  checksum := 0

/-- A singleton is accepted. -/
theorem valid_singleton (e : CoverageSetEntryV2) : validateCoverageEntries [e] = .ok () :=
  validateCoverageEntries_ok_iff.mpr (List.pairwise_singleton _ _)

/-- The rows 0 to 9 under other flags are absorbed by the rows 100 to 109 and lost. -/
theorem coverageUnion_loses_rows :
    validateCoverageEntries [rowRangeEntry 0 100 10] = .ok () ∧
      validateCoverageEntries [rowRangeEntry 1 0 10] = .ok () ∧
      coverageUnion [rowRangeEntry 0 100 10] [rowRangeEntry 1 0 10] =
        .ok [rowRangeEntry 0 100 10] ∧
      Covers [rowRangeEntry 1 0 10] (.row (0, 1, 2, 3) 0) ∧
      ¬ Covers [rowRangeEntry 0 100 10] (.row (0, 1, 2, 3) 0) := by
  refine ⟨valid_singleton _, valid_singleton _, by decide, ⟨_, List.mem_singleton_self _, ?_⟩, ?_⟩
  · exact ⟨rfl, rfl, Nat.le_refl _, by decide⟩
  · rintro ⟨e, he, _, _, hlo, _⟩
    obtain rfl := List.mem_singleton.mp he
    exact absurd hlo (by decide)

/-- Two ranges that touch, in order: the union is exact. -/
theorem coverageUnion_exact_touching :
    (validateCoverageEntries [rowRangeEntry 0 0 20] = .ok () ∧
      (∀ x, Covers [rowRangeEntry 0 0 20] x ↔
        Covers [rowRangeEntry 0 0 10] x ∨ Covers [rowRangeEntry 0 10 10] x) ∧
      CoarsenExact [rowRangeEntry 0 0 10] ∧ CoarsenExact [rowRangeEntry 0 10 10]) ↔
    NoneBelow ([rowRangeEntry 0 0 10] ++ [rowRangeEntry 0 10 10]) :=
  coverageUnion_exact_iff (valid_singleton _) (valid_singleton _) (by decide)

end Cove
