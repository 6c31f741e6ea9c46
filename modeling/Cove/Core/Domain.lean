import Mathlib.Algebra.Ring.Nat

/-!
# Column domains

A column domain ranks the file codes of a column. A code without a rank does not occur
in the column, provided the domain is safe.
-/

namespace Cove

/-- `INVALID_RANK`. -/
def invalidRank : Nat := 2 ^ 32 - 1

/-- A column domain: its owner and the two rank maps. -/
structure ColumnDomain where
  tableOrObjectId : Nat
  columnOrPropertyId : Nat
  sortedFileCodes : List Nat
  fileCodeToRank : List Nat
  deriving DecidableEq, Repr

namespace ColumnDomain

/-- The rank of a file code, if it has one. -/
def rankOf (self : ColumnDomain) (fileCode : Nat) : Option Nat :=
  match self.fileCodeToRank[fileCode]? with
  | none => none
  | some r => if r = invalidRank then none else some r

/-- `is_safe`: every rank is in bounds and maps back to its file code. -/
def isSafe (self : ColumnDomain) : Bool :=
  let n := self.sortedFileCodes.length
  self.fileCodeToRank.zipIdx.all fun (rank, fileCode) =>
    rank == invalidRank ||
      (decide (rank < n) && self.sortedFileCodes[rank]? == some fileCode)

/-- In a safe domain a ranked code stands at its rank. -/
theorem getElem?_of_rankOf {d : ColumnDomain} (hs : d.isSafe = true) {c r : Nat}
    (h : d.rankOf c = some r) : d.sortedFileCodes[r]? = some c := by
  unfold rankOf at h
  split at h
  · cases h
  next q hq =>
  split at h
  · cases h
  next hne =>
  obtain rfl := Option.some.inj h
  have hmem : (q, c) ∈ d.fileCodeToRank.zipIdx := by
    rw [List.mem_zipIdx_iff_getElem?]
    exact hq
  have hcheck := List.all_eq_true.mp hs _ hmem
  simp only [Bool.or_eq_true, beq_iff_eq, Bool.and_eq_true, decide_eq_true_eq] at hcheck
  rcases hcheck with hinvalid | ⟨-, hcode⟩
  · exact absurd hinvalid hne
  · exact hcode

end ColumnDomain

end Cove
