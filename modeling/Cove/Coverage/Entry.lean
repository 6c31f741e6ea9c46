import Mathlib.Data.List.Lex
import Mathlib.Order.Lattice
import Cove.Core.Error

/-!
# Coverage entries

A coverage entry names one fragment of a data set: a file, a segment, a range of rows
and so on. Lists of entries are kept in the derived order of the structure, which
compares the fields one after the other as they are declared.

- `CoverageSetEntryV2`, ordered by `CoverageSetEntryV2.key`.
- `CoverageSetEntryV2.scope`: where the rows of a row range live.
- `validateCoverageEntries`: strictly ascending, and the row ranges of one scope do not
  overlap; `validateCoverageEntries_ok_iff` says it of all pairs.
-/

namespace Cove

/-- Absent references. -/
def absentId : Nat := 2 ^ 32 - 1

/-- What a coverage entry names. -/
inductive CoverageGranularityV2 where
  | dataset
  | object
  | file
  | segment
  | rowGroup
  | page
  | morsel
  | rowRange
  | rowOrdinalSet
  | mapNode
  | dimensionalBucket
  | objectPath
  | association
  | projectionFragment
  | externalFragment
  deriving DecidableEq, Repr

/-- The discriminant. -/
def CoverageGranularityV2.code : CoverageGranularityV2 → Nat
  | dataset => 0
  | object => 1
  | file => 2
  | segment => 3
  | rowGroup => 4
  | page => 5
  | morsel => 6
  | rowRange => 7
  | rowOrdinalSet => 8
  | mapNode => 9
  | dimensionalBucket => 10
  | objectPath => 11
  | association => 12
  | projectionFragment => 13
  | externalFragment => 255

theorem CoverageGranularityV2.code_injective : Function.Injective code := by
  have hof : ∀ granularity : CoverageGranularityV2, ofNat granularity.code = granularity := by
    intro granularity
    cases granularity <;> rfl
  intro x y h
  rw [← hof x, h, hof y]

/-- One coverage entry. -/
structure CoverageSetEntryV2 where
  targetKind : CoverageGranularityV2
  flags : Nat
  fileRef : Nat
  tableId : Nat
  segmentId : Nat
  morselId : Nat
  pageRef : Nat
  objectTypeId : Nat
  pathRef : Nat
  dimensionalBucketRef : Nat
  rowStart : Nat
  rowCount : Nat
  rowOrdinalBitmapRef : Nat
  byteRangeRef : Nat
  checksum : Nat
  deriving DecidableEq, Repr

namespace CoverageSetEntryV2

/-- The fields in declaration order, which the derived order compares. -/
def key (e : CoverageSetEntryV2) : List Nat :=
  [e.targetKind.code, e.flags, e.fileRef, e.tableId, e.segmentId, e.morselId, e.pageRef,
    e.objectTypeId, e.pathRef, e.dimensionalBucketRef, e.rowStart, e.rowCount,
    e.rowOrdinalBitmapRef, e.byteRangeRef, e.checksum]

theorem key_injective : Function.Injective key := by
  rintro ⟨⟩ ⟨⟩ h
  simp only [key, List.cons.injEq, and_true] at h
  obtain ⟨hk, h⟩ := h
  obtain rfl := CoverageGranularityV2.code_injective hk
  simp only [mk.injEq, true_and]
  exact h

/-- The derived order. -/
instance : LinearOrder CoverageSetEntryV2 := LinearOrder.lift' key key_injective

/-- Where the rows of a row range live. -/
def scope (e : CoverageSetEntryV2) : Nat × Nat × Nat × Nat :=
  (e.fileRef, e.tableId, e.segmentId, e.morselId)

def isRowRange (e : CoverageSetEntryV2) : Bool := e.targetKind == .rowRange

/-- The first row after the range. -/
def rowEnd (e : CoverageSetEntryV2) : Nat := e.rowStart + e.rowCount

/-- Row ranges of one scope. -/
def SameScope (e f : CoverageSetEntryV2) : Prop :=
  e.isRowRange = true ∧ f.isRowRange = true ∧ e.scope = f.scope

instance (e f : CoverageSetEntryV2) : Decidable (SameScope e f) :=
  inferInstanceAs (Decidable (_ ∧ _ ∧ _))

theorem SameScope.symm {e f : CoverageSetEntryV2} (h : SameScope e f) : SameScope f e :=
  ⟨h.2.1, h.1, h.2.2.symm⟩

end CoverageSetEntryV2

/-! ## Validation -/

/-- The state of validation: the previous entry, and the last row range of each scope,
newest first. -/
structure CoverageScan where
  prev : Option CoverageSetEntryV2
  byRangeScope : List CoverageSetEntryV2

/-- The last row range of the scope of `e`: `BTreeMap::insert` returns the one it
replaces. -/
def CoverageScan.lastRange (s : CoverageScan) (e : CoverageSetEntryV2) :
    Option CoverageSetEntryV2 :=
  s.byRangeScope.find? fun f => f.scope == e.scope

/-- Check one entry against the entries before it. -/
def validateCoverageEntry (s : CoverageScan) (entry : CoverageSetEntryV2) :
    Except CoveError CoverageScan :=
  if s.prev.any fun previous => decide (entry ≤ previous) then .error .badCoverage
  else if entry.isRowRange then
    match s.lastRange entry with
    | none => .ok ⟨some entry, entry :: s.byRangeScope⟩
    | some range => do
      let previousEnd ← checkedAdd range.rowStart range.rowCount
      if entry.rowStart < previousEnd then .error .badCoverage
      else .ok ⟨some entry, entry :: s.byRangeScope⟩
  else .ok ⟨some entry, s.byRangeScope⟩

/-- **Validation** of a list of entries. -/
def validateCoverageEntries (entries : List CoverageSetEntryV2) : Except CoveError Unit := do
  let _ ← entries.foldlM validateCoverageEntry ⟨none, []⟩

open CoverageSetEntryV2

/-- What validation demands of an entry and a later one. -/
def InOrder (e f : CoverageSetEntryV2) : Prop :=
  e < f ∧ (SameScope e f → e.rowEnd < 2 ^ 64 ∧ e.rowEnd ≤ f.rowStart)

/-- The state after the entries of `done`. -/
def scanOf (done : List CoverageSetEntryV2) : CoverageScan :=
  ⟨done.getLast?, (done.filter isRowRange).reverse⟩

theorem scanOf_concat (done : List CoverageSetEntryV2) (e : CoverageSetEntryV2) :
    scanOf (done ++ [e]) =
      ⟨some e, if e.isRowRange then e :: (scanOf done).byRangeScope
        else (scanOf done).byRangeScope⟩ := by
  cases h : e.isRowRange <;> simp [scanOf, List.filter_append, h]

section Validation

variable {done : List CoverageSetEntryV2} {e : CoverageSetEntryV2}

/-- The range found for an entry is of its scope and the latest such. -/
theorem lastRange_eq_some (hd : done.Pairwise InOrder) {range : CoverageSetEntryV2}
    (h : (scanOf done).lastRange e = some range) :
    range ∈ done ∧ range.isRowRange = true ∧ range.scope = e.scope ∧
      ∀ p ∈ done, SameScope p range → p = range ∨ InOrder p range := by
  obtain ⟨hscope, l₁, l₂, hsplit, hl₁⟩ := List.find?_eq_some_iff_append.mp h
  simp only [scanOf] at hsplit
  have hmem : range ∈ (done.filter isRowRange).reverse := by simp [hsplit]
  obtain ⟨hin, hrange⟩ := List.mem_filter.mp (List.mem_reverse.mp hmem)
  refine ⟨hin, hrange, by simpa using hscope, fun p hp hs => ?_⟩
  have hpf : p ∈ (done.filter isRowRange).reverse := by
    simp [List.mem_filter, hp, hs.1]
  have hpw : ((done.filter isRowRange).reverse).Pairwise fun x y => InOrder y x :=
    List.pairwise_reverse.mpr (hd.filter _)
  rw [hsplit] at hpf hpw
  rcases List.mem_append.mp hpf with hp₁ | hp₂
  · have := hl₁ p hp₁
    simp only [beq_iff_eq, Bool.not_eq_true', beq_eq_false_iff_ne] at this hscope
    exact absurd (hs.2.2.trans hscope) this
  · rcases List.mem_cons.mp hp₂ with rfl | hp₂
    · exact .inl rfl
    · exact .inr (List.rel_of_pairwise_cons (List.pairwise_append.mp hpw).2.1 hp₂)

theorem lastRange_eq_none (h : (scanOf done).lastRange e = none) {p : CoverageSetEntryV2}
    (hp : p ∈ done) : ¬ SameScope p e := by
  rintro ⟨hr, _, hs⟩
  have := List.find?_eq_none.mp h p (by simp [scanOf, hp, hr])
  simp [hs] at this

/-- The entry is past the previous one exactly when it is past all of them. -/
theorem prev_any_eq_false_iff (hd : done.Pairwise InOrder) :
    ((scanOf done).prev.any fun previous => decide (e ≤ previous)) = false ↔
      ∀ p ∈ done, p < e := by
  rcases List.eq_nil_or_concat done with rfl | ⟨l, a, rfl⟩
  · simp [scanOf]
  · simp only [scanOf, List.concat_eq_append, List.getLast?_concat, Option.any_some,
      decide_eq_false_iff_not, not_le]
    constructor
    · intro h p hp
      rcases List.mem_append.mp hp with hp | hp
      · rw [List.concat_eq_append] at hd
        have := (List.pairwise_append.mp hd).2.2 p hp a (List.mem_singleton_self a)
        exact this.1.trans h
      · rwa [List.mem_singleton.mp hp]
    · exact fun h => h a (by simp)

/-- **One step of validation** accepts an entry exactly when it is in order with every
entry before it. -/
theorem validateCoverageEntry_ok_iff (hd : done.Pairwise InOrder) {s : CoverageScan} :
    validateCoverageEntry (scanOf done) e = .ok s ↔
      (∀ p ∈ done, InOrder p e) ∧ s = scanOf (done ++ [e]) := by
  have hprev := prev_any_eq_false_iff (e := e) hd
  unfold validateCoverageEntry
  by_cases hany : ((scanOf done).prev.any fun previous => decide (e ≤ previous)) = true
  · rw [if_pos hany]
    refine ⟨nofun, fun ⟨h, _⟩ => ?_⟩
    rw [hprev.mpr fun p hp => (h p hp).1] at hany
    cases hany
  rw [if_neg hany]
  have hlt := hprev.mp (by simpa using hany)
  cases hr : e.isRowRange with
  | false =>
    have hno : ∀ p, ¬ SameScope p e := fun p hs => by
      have := hs.2.1
      rw [hr] at this
      cases this
    simp only [scanOf_concat, hr, Bool.false_eq_true, if_false, Except.ok.injEq]
    exact ⟨fun h => ⟨fun p hp => ⟨hlt p hp, fun hs => absurd hs (hno p)⟩, h.symm⟩,
      fun h => h.2.symm⟩
  | true =>
    simp only [scanOf_concat, hr, if_true]
    cases hlast : (scanOf done).lastRange e with
    | none =>
      simp only [Except.ok.injEq]
      exact ⟨fun h => ⟨fun p hp => ⟨hlt p hp, fun hs =>
        absurd hs (lastRange_eq_none hlast hp)⟩, h.symm⟩, fun h => h.2.symm⟩
    | some range =>
      obtain ⟨hin, hrr, hrs, hlatest⟩ := lastRange_eq_some hd hlast
      simp only [Checked.bind_eq_ok, Checked.addU64_eq_ok]
      constructor
      · rintro ⟨_, ⟨hov, rfl⟩, h⟩
        split at h
        · cases h
        · next hge =>
          refine ⟨fun p hp => ⟨hlt p hp, fun hs => ?_⟩, (Except.ok.inj h).symm⟩
          have hpr : SameScope p range := ⟨hs.1, hrr, hs.2.2.trans hrs.symm⟩
          rcases hlatest p hp hpr with rfl | hord
          · exact ⟨hov, Nat.le_of_not_lt hge⟩
          · -- an earlier range ends where the latest begins
            have := hord.2 hpr
            exact ⟨this.1, by simp only [rowEnd] at this ⊢; omega⟩
      · rintro ⟨hall, rfl⟩
        have := (hall range hin).2 ⟨hrr, hr, hrs⟩
        exact ⟨_, ⟨this.1, rfl⟩, if_neg (Nat.not_lt.mpr this.2)⟩

/-- **Validation accepts** exactly the lists whose entries are pairwise in order. -/
theorem validateCoverageEntries_ok_iff {entries : List CoverageSetEntryV2} :
    validateCoverageEntries entries = .ok () ↔ entries.Pairwise InOrder := by
  have key : ∀ {done entries : List CoverageSetEntryV2}, done.Pairwise InOrder →
      ((∃ s, entries.foldlM validateCoverageEntry (scanOf done) = .ok s) ↔
        (done ++ entries).Pairwise InOrder) := by
    intro done entries hd
    induction entries generalizing done with
    | nil => simpa [pure, Except.pure] using hd
    | cons e es ih =>
      simp only [List.foldlM_cons, Checked.bind_eq_ok, validateCoverageEntry_ok_iff hd]
      have hsnoc : (∀ p ∈ done, InOrder p e) ↔ (done ++ [e]).Pairwise InOrder := by
        simp [List.pairwise_append, hd]
      rw [List.append_cons done e es]
      constructor
      · rintro ⟨s, _, ⟨hall, rfl⟩, h⟩
        exact (ih (hsnoc.mp hall)).mp ⟨s, h⟩
      · intro h
        have hd' := (List.pairwise_append.mp h).1
        obtain ⟨s, hs⟩ := (ih hd').mpr h
        exact ⟨s, _, ⟨hsnoc.mpr hd', rfl⟩, hs⟩
  have := @key [] entries .nil
  rw [List.nil_append] at this
  rw [← this]
  unfold validateCoverageEntries
  simp only [Checked.bind_eq_ok]
  exact ⟨fun ⟨s, hs, _⟩ => ⟨s, hs⟩, fun ⟨s, hs⟩ => ⟨s, hs, rfl⟩⟩

end Validation

end Cove
