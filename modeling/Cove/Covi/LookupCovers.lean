import Cove.Covi.Lookup

/-!
# The rows of a lookup

- `lookup_covers_iff`: **when a lookup covers exactly the rows of the postings that match**.
- `nestedRanges`: two keys, the range of one within that of the other.
- `lookup_loses_rows`: looking up both loses rows of the first.
-/

namespace Cove

namespace ValidatedCoviArtifactV2

/-- **When a lookup covers exactly the rows of the postings that match.** Its ranges are always in
order, and those of one scope apart; a chain of ranges is cut where its last one ends. -/
theorem lookup_covers_iff {self : ValidatedCoviArtifactV2} {request : CoviLookupRequestV2}
    {candidates : CoviCandidateSetV2} (h : self.lookup request = .ok candidates) :
    ((∀ scope row, CoversRow candidates.rowRanges scope row ↔
        CoversRow (self.matchedRowRanges request) scope row) ∧
      RowRangesApart candidates.rowRanges) ↔
      EveryChainEndsLast (self.matchedRowRanges request) := by
  have hrows : normalizeRowRanges (self.matchedRowRanges request) = .ok candidates.rowRanges :=
    rowRanges_of_lookup h
  exact normalizeRowRanges_covers_iff hrows

/-! ## A range within another -/

/-- The bytes of one range of the first morsel. -/
def rangeBytes (rowStart rowCount : Nat) : List UInt8 :=
  ((CoviRowRangePostingV2.mk 0 1 0 0 rowStart rowCount 0 0).serialize.toOption).getD []

/-- One root over the keys `a` and `b`, the second range given. -/
def twoKeys (rowStart rowCount : Nat)
    (valid : validateRootBlocks
      ⟨0, .tableColumn, .hash, 1, 2, 0, 0, 0, 0, 2, 0, 10, 11, 12, absentU32, 0⟩ [⟨0, 4096⟩]
      ⟨[(0, ⟨0, 0, 1, 1, 1, .exact, .exactTight⟩)], .cons nofun .nil⟩
      ⟨[(10, ⟨⟨0, 0, 2, 2, 0⟩, [97, 98]⟩)], .cons nofun .nil⟩
      ⟨[(11, ⟨⟨0, 0, 0⟩,
        [⟨0, 0, 2, 0, 0, 1, 0, 0, absentU32, absentU32⟩,
          ⟨1, 0, 2, 0, 1, 1, 0, 1, absentU32, absentU32⟩]⟩)], .cons nofun .nil⟩
      ⟨[(12, ⟨⟨0, 0⟩, [⟨0, .rowRangeList, 0, 40⟩, ⟨0, .rowRangeList, 40, 40⟩],
        rangeBytes 0 100 ++ rangeBytes rowStart rowCount⟩)], .cons nofun .nil⟩ = .ok ()) :
    ValidatedCoviArtifactV2 where
  referencedFiles := _
  roots := ⟨[(0, _)], .cons nofun .nil⟩
  capabilities := _
  keyBlocks := _
  entryBlocks := _
  postingsBlocks := _
  valid := by
    intro root hroot
    obtain rfl := List.mem_singleton.mp hroot
    exact valid

/-- A request for both keys. -/
def bothKeys : CoviLookupRequestV2 where
  target := .tableColumn 1 2
  op := .membership
  lowerKey := .canonicalValueBytes [97]
  upperKey := none
  membershipKeys := [.canonicalValueBytes [98]]
  requireExact := true

/-- The rows 10 to 20 within the rows 0 to 100. -/
def nestedRanges : ValidatedCoviArtifactV2 := twoKeys 10 10 (by decide +kernel)

/-- What a lookup of the nested ranges gives, and what it was given. -/
theorem nestedRanges_lookup :
    (nestedRanges.lookup bothKeys).toOption.map (fun candidates =>
        candidates.rowRanges.map fun row => (row.scope, row.rowStart, row.rowEnd)) =
      some [([0, 1, 0, 0], 0, 20)] ∧
    (nestedRanges.matchedRowRanges bothKeys).map
        (fun row => (row.scope, row.rowStart, row.rowEnd)) =
      [([0, 1, 0, 0], 0, 100), ([0, 1, 0, 0], 10, 20)] := by
  decide +kernel

theorem nestedRanges_isOk : ∃ candidates, nestedRanges.lookup bothKeys = .ok candidates := by
  have hsome := nestedRanges_lookup.1
  cases h : nestedRanges.lookup bothKeys with
  | error e =>
    rw [h] at hsome
    cases hsome
  | ok candidates => exact ⟨candidates, rfl⟩

theorem lookup_covers_iff_nested : ∃ candidates, nestedRanges.lookup bothKeys = .ok candidates ∧
    (((∀ scope row, CoversRow candidates.rowRanges scope row ↔
        CoversRow (nestedRanges.matchedRowRanges bothKeys) scope row) ∧
      RowRangesApart candidates.rowRanges) ↔
      EveryChainEndsLast (nestedRanges.matchedRowRanges bothKeys)) := by
  obtain ⟨candidates, h⟩ := nestedRanges_isOk
  exact ⟨candidates, h, lookup_covers_iff h⟩

/-- The row 50 belongs to the first key and is lost. -/
theorem lookup_loses_rows : ¬∀ (self : ValidatedCoviArtifactV2) (request : CoviLookupRequestV2)
    (candidates : CoviCandidateSetV2), self.lookup request = .ok candidates →
      (∀ scope row, CoversRow candidates.rowRanges scope row ↔
        CoversRow (self.matchedRowRanges request) scope row) ∧
      RowRangesApart candidates.rowRanges := by
  intro hall
  obtain ⟨candidates, h⟩ := nestedRanges_isOk
  obtain ⟨hcovers, -⟩ := hall _ _ _ h
  obtain ⟨hout, hin⟩ := nestedRanges_lookup
  rw [h] at hout
  have hspans : candidates.rowRanges.map (fun row => (row.scope, row.rowStart, row.rowEnd)) =
      [([0, 1, 0, 0], 0, 20)] := Option.some.inj hout
  have hmatched : CoversRow (nestedRanges.matchedRowRanges bothKeys) [0, 1, 0, 0] 50 := by
    have hmem : (([0, 1, 0, 0], 0, 100) : List Nat × Nat × Nat) ∈
        (nestedRanges.matchedRowRanges bothKeys).map
          fun row => (row.scope, row.rowStart, row.rowEnd) := by
      rw [hin]
      exact List.mem_cons_self
    obtain ⟨row, hrow, heq⟩ := List.mem_map.mp hmem
    obtain ⟨hscope, hparts⟩ := Prod.mk.inj heq
    obtain ⟨hstart, hstop⟩ := Prod.mk.inj hparts
    refine ⟨row, hrow, hscope, ?_, ?_⟩
    · show row.rowStart ≤ 50
      omega
    · show 50 < row.rowEnd
      omega
  obtain ⟨row, hrow, -, -, hlt⟩ := (hcovers _ _).mpr hmatched
  have hmem := List.mem_map_of_mem (f := fun row : CoviRowRangePostingV2 =>
    (row.scope, row.rowStart, row.rowEnd)) hrow
  rw [hspans, List.mem_singleton] at hmem
  have hstop : row.rowEnd = 20 := (Prod.mk.inj (Prod.mk.inj hmem).2).2
  have hpast : 50 < row.rowEnd := hlt
  omega

end ValidatedCoviArtifactV2

end Cove
