import Cove.Core.SealedRecord
import Cove.Lib.ChainMerge
import Cove.Lib.Digests
import Cove.Lib.SortedList

/-!
# Postings of a covering index

A posting lists places of one kind, each a record of fixed width with a checksum.

- `FixedPosting`: the layout of a kind of place, `parseFixedPayload`: the places of a posting.
- `CoviRowRangePostingV2`: a range of rows, `parseCoviRowRangePostings`: the ranges of a posting.
- `normalizeRowRanges`: the ranges of several postings, put in order and merged.
- `normalizeRowRanges_covers_iff`: **what the merged ranges cover**.
-/

namespace Cove

open Checked ChainMerge

/-- `CoviPostingRepresentationV2`. -/
inductive CoviPostingRepresentationV2 where
  | sortedFileRefs
  | sortedSegmentRefs
  | sortedPageRefs
  | sortedMorselRefs
  | rowRangeList
  | rowOrdinalBitmap
  | rowOrdinalDeltaVarint
  | byteRangeList
  | objectPathRefs
  | dimensionalBucketRefs
  | coverageSetRef
  | extension
  deriving DecidableEq, Repr

/-! ## Places of fixed width -/

/-- The layout of a kind of place: the widths of its fields, of which the checksum is the last, and
what is checked of the fields. -/
structure FixedPosting where
  widths : List Nat
  check : List Nat → Except CoveError Unit

/-- The fields of a record, by their widths. -/
def readFields : List Nat → List UInt8 → List Nat
  | [], _ => []
  | width :: widths, bytes =>
    LittleEndian.ofLe (bytes.take width) :: readFields widths (bytes.drop width)

namespace FixedPosting

/-- `LEN`. -/
def len (layout : FixedPosting) : Nat := layout.widths.sum

/-- `parse`. -/
def parse (layout : FixedPosting) (bytes : List UInt8) : Except CoveError (List Nat) :=
  if bytes.length < layout.len then .error .bufferTooShort
  else if !checksumHolds Crc32c.crc32c bytes layout.len then .error .checksumMismatch
  else do
    let item := readFields layout.widths bytes
    layout.check item
    .ok item

/-- Nothing is checked of the fields. -/
def unchecked (widths : List Nat) : FixedPosting := ⟨widths, fun _ => .ok ()⟩

/-- The place is a range of the fields `start` and `start + 1`: it is not empty, and has an end. -/
def ranged (widths : List Nat) (start : Nat) : FixedPosting where
  widths := widths
  check item :=
    let length := (item[start + 1]?).getD 0
    if length = 0 then .error .badCovi
    else do
      let _ ← checkedAdd ((item[start]?).getD 0) length
      .ok ()

end FixedPosting

/-- `CoviFileRefPostingV2`. -/
def coviFileRefPosting : FixedPosting := .unchecked [4, 4, 4]

/-- `CoviSegmentRefPostingV2`. -/
def coviSegmentRefPosting : FixedPosting := .unchecked [4, 4, 4, 4, 4]

/-- `CoviMorselRefPostingV2`. -/
def coviMorselRefPosting : FixedPosting := .unchecked [4, 4, 4, 4, 4, 4]

/-- `CoviPageRefPostingV2`. -/
def coviPageRefPosting : FixedPosting := .unchecked [4, 4, 4, 4, 4, 4, 4]

/-- `CoviDimensionalBucketPostingV2`. -/
def coviDimensionalBucketPosting : FixedPosting := .unchecked [4, 4, 4, 4, 4, 4, 4]

/-- `CoviByteRangePostingV2`: its offset and length are the fields 2 and 3. -/
def coviByteRangePosting : FixedPosting := .ranged [4, 4, 8, 8, 4, 4] 2

/-- `CoviObjectPathPostingV2`: its first row and row count are the fields 4 and 5. -/
def coviObjectPathPosting : FixedPosting := .ranged [4, 4, 4, 4, 8, 8, 4, 4] 4

/-- `parse_fixed_payload`. -/
def parseFixedPayload (layout : FixedPosting) (payload : List UInt8) :
    Except CoveError (List (List Nat)) :=
  if payload.length % layout.len ≠ 0 then .error .badCovi
  else (chunksExact layout.len payload).mapM layout.parse

/-- `parse_u32_refs`. -/
def parseU32Refs (payload : List UInt8) : Except CoveError (List Nat) :=
  if payload.length % 4 ≠ 0 then .error .badCovi
  else .ok ((chunksExact 4 payload).map LittleEndian.ofLe)

/-! ## Row ranges -/

/-- `CoviRowRangePostingV2`. -/
@[ext]
structure CoviRowRangePostingV2 where
  fileRef : Nat
  tableId : Nat
  segmentId : Nat
  morselId : Nat
  rowStart : Nat
  rowCount : Nat
  flags : Nat
  checksum : Nat
  deriving DecidableEq, Repr

namespace CoviRowRangePostingV2

/-- `LEN`. -/
def len : Nat := 40

/-- `parse`. -/
def parse (bytes : List UInt8) : Except CoveError CoviRowRangePostingV2 :=
  if bytes.length < len then .error .bufferTooShort
  else if !checksumHolds Crc32c.crc32c bytes len then .error .checksumMismatch
  else if fieldNat bytes 24 8 = 0 then .error .badCovi
  else do
    let _ ← checkedAdd (fieldNat bytes 16 8) (fieldNat bytes 24 8)
    .ok ⟨fieldNat bytes 0 4, fieldNat bytes 4 4, fieldNat bytes 8 4, fieldNat bytes 12 4,
      fieldNat bytes 16 8, fieldNat bytes 24 8, fieldNat bytes 32 4, fieldNat bytes 36 4⟩

/-- The fields before the checksum. -/
def fields (self : CoviRowRangePostingV2) : List (Nat × Nat) :=
  [(4, self.fileRef), (4, self.tableId), (4, self.segmentId), (4, self.morselId),
    (8, self.rowStart), (8, self.rowCount), (4, self.flags)]

/-- `serialize`. -/
def serialize (self : CoviRowRangePostingV2) : Except CoveError (List UInt8) :=
  if self.rowCount = 0 then .error .badCovi
  else do
    let _ ← checkedAdd self.rowStart self.rowCount
    .ok (FieldRecord.encode (sealRecord Crc32c.crc32c self.fields))

/-- The file, table, segment and morsel of a range. -/
def scope (self : CoviRowRangePostingV2) : List Nat :=
  [self.fileRef, self.tableId, self.segmentId, self.morselId]

/-- The first row past a range. -/
def rowEnd (self : CoviRowRangePostingV2) : Nat := self.rowStart + self.rowCount

end CoviRowRangePostingV2

/-- The checks of a range against the one before it. -/
def checkNextRowRange (previous row : CoviRowRangePostingV2) : Except CoveError Unit :=
  if row.scope < previous.scope then .error .badCovi
  else if row.scope = previous.scope then do
    let prevEnd ← checkedAdd previous.rowStart previous.rowCount
    if row.rowStart ≤ prevEnd then .error .badCovi else .ok ()
  else .ok ()

/-- `validate_row_range_postings`, from the range before on. -/
def validateRowRangePostings (previous : Option CoviRowRangePostingV2) :
    List CoviRowRangePostingV2 → Except CoveError Unit
  | [] => .ok ()
  | row :: rows => do
    let _ ← checkedAdd row.rowStart row.rowCount
    if row.rowCount = 0 then .error .badCovi
    else do
      match previous with
      | none => .ok ()
      | some previous => checkNextRowRange previous row
      validateRowRangePostings (some row) rows

/-- `parse_covi_row_range_postings`. -/
def parseCoviRowRangePostings (bytes : List UInt8) : Except CoveError (List CoviRowRangePostingV2) :=
  if bytes.length % CoviRowRangePostingV2.len ≠ 0 then .error .badCovi
  else do
    let rows ← (chunksExact CoviRowRangePostingV2.len bytes).mapM CoviRowRangePostingV2.parse
    validateRowRangePostings none rows
    .ok rows

/-! ## Merging -/

/-- The key that ranges are sorted by. -/
def CoviRowRangePostingV2.sortKey (self : CoviRowRangePostingV2) : List Nat :=
  self.scope ++ [self.rowStart]

/-- The ranges in order, equal keys in the order they came in. -/
def sortRowRanges (rows : List CoviRowRangePostingV2) : List CoviRowRangePostingV2 :=
  rows.insertionSort fun a b => a.sortKey ≤ b.sortKey

/-- A range against the last one of the output: the last takes its end when it starts in the same
scope, no later than the last ends. -/
def joinNormalized (last row : CoviRowRangePostingV2) :
    Except CoveError (Option CoviRowRangePostingV2) :=
  if row.rowCount = 0 then .error .badCovi
  else do
    let lastEnd ← checkedAdd last.rowStart last.rowCount
    if last.scope = row.scope ∧ row.rowStart ≤ lastEnd then do
      let rowEnd ← checkedAdd row.rowStart row.rowCount
      let rowCount ← checkedSub rowEnd last.rowStart
      .ok (some { last with rowCount := rowCount })
    else .ok none

/-- `normalize_row_ranges`. -/
def normalizeRowRanges (rows : List CoviRowRangePostingV2) :
    Except CoveError (List CoviRowRangePostingV2) :=
  match sortRowRanges rows with
  | [] => .ok []
  | row :: rest =>
    if row.rowCount = 0 then .error .badCovi
    else MergeRuns.mergeRuns joinNormalized row rest

/-! ## What the merged ranges cover -/

/-- The scope, first row and end of a range. -/
def rowParts : Parts CoviRowRangePostingV2 (List Nat) where
  scope := CoviRowRangePostingV2.scope
  start := CoviRowRangePostingV2.rowStart
  stop := CoviRowRangePostingV2.rowEnd

/-- Some range of a scope holds a row. -/
def CoversRow (rows : List CoviRowRangePostingV2) (scope : List Nat) (row : Nat) : Prop :=
  rowParts.Covers rows scope row

/-- In order of scopes, and within a scope in order of rows and apart from each other. -/
def RowRangesApart (rows : List CoviRowRangePostingV2) : Prop :=
  rows.Pairwise fun a b => a.scope < b.scope ∨ a.scope = b.scope ∧ a.rowEnd < b.rowStart

/-- Cut the ranges in order into chains, each range starting in the scope of the one before it and
no later than that one ends: in every chain the last range ends no earlier than any other. -/
def EveryChainEndsLast (rows : List CoviRowRangePostingV2) : Prop :=
  ∀ chain ∈ rowParts.chains (sortRowRanges rows), rowParts.EndsLast chain

theorem ordered_of_sortKey_le {a b : CoviRowRangePostingV2} (h : a.sortKey ≤ b.sortKey) :
    rowParts.Ordered a b := ordered_of_key_le rfl h

theorem sorted_sortRowRanges (rows : List CoviRowRangePostingV2) :
    (sortRowRanges rows).Pairwise rowParts.Ordered := by
  have htotal : Std.Total fun a b : CoviRowRangePostingV2 => a.sortKey ≤ b.sortKey :=
    ⟨fun a b => le_total a.sortKey b.sortKey⟩
  have htrans : IsTrans CoviRowRangePostingV2 fun a b => a.sortKey ≤ b.sortKey :=
    ⟨fun _ _ _ => le_trans⟩
  exact (List.pairwise_insertionSort _ rows).imp ordered_of_sortKey_le

variable {last : CoviRowRangePostingV2}

theorem joinNormalized_some {row joined : CoviRowRangePostingV2}
    (h : joinNormalized last row = .ok (some joined)) :
    rowParts.continues last row = true ∧ rowParts.scope joined = rowParts.scope last ∧
      rowParts.start joined = rowParts.start last ∧ rowParts.stop joined = rowParts.stop row := by
  unfold joinNormalized at h
  obtain ⟨-, h⟩ := ite_error_eq_ok.mp h
  obtain ⟨lastEnd, hend, h⟩ := bind_eq_ok.mp h
  obtain ⟨-, rfl⟩ := addU64_eq_ok.mp hend
  split at h
  next htouch =>
    obtain ⟨rowEnd, hrow, h⟩ := bind_eq_ok.mp h
    obtain ⟨-, rfl⟩ := addU64_eq_ok.mp hrow
    obtain ⟨rowCount, hcount, h⟩ := bind_eq_ok.mp h
    obtain ⟨hle, rfl⟩ := sub_eq_ok.mp hcount
    obtain rfl := Option.some.inj (Except.ok.inj h)
    refine ⟨Parts.continues_iff.mpr htouch, rfl, rfl, ?_⟩
    show last.rowStart + (row.rowStart + row.rowCount - last.rowStart) = row.rowStart + row.rowCount
    omega
  next => cases h

theorem joinNormalized_none {row : CoviRowRangePostingV2}
    (h : joinNormalized last row = .ok none) : rowParts.continues last row = false := by
  unfold joinNormalized at h
  obtain ⟨-, h⟩ := ite_error_eq_ok.mp h
  obtain ⟨lastEnd, hend, h⟩ := bind_eq_ok.mp h
  obtain ⟨-, rfl⟩ := addU64_eq_ok.mp hend
  split at h
  next =>
    obtain ⟨rowEnd, -, h⟩ := bind_eq_ok.mp h
    obtain ⟨rowCount, -, h⟩ := bind_eq_ok.mp h
    cases h
  next htouch =>
    rw [Bool.eq_false_iff]
    exact fun hcont => htouch (Parts.continues_iff.mp hcont)

theorem joinNormalized_rowCount {row : CoviRowRangePostingV2}
    {joined : Option CoviRowRangePostingV2} (h : joinNormalized last row = .ok joined) :
    row.rowCount ≠ 0 := (ite_error_eq_ok.mp h).1

/-- **What the merged ranges cover.** They are always in order and apart; they cover exactly the
rows of the given ranges when every chain ends last, and otherwise lose rows. -/
theorem normalizeRowRanges_covers_iff {rows out : List CoviRowRangePostingV2}
    (h : normalizeRowRanges rows = .ok out) :
    ((∀ scope row, CoversRow out scope row ↔ CoversRow rows scope row) ∧ RowRangesApart out) ↔
      EveryChainEndsLast rows := by
  have hperm : ∀ scope row, CoversRow (sortRowRanges rows) scope row ↔ CoversRow rows scope row := by
    intro scope row
    simp only [CoversRow, Parts.Covers, sortRowRanges, List.mem_insertionSort]
  have hsorted := sorted_sortRowRanges rows
  unfold EveryChainEndsLast
  simp only [← hperm]
  unfold normalizeRowRanges at h
  generalize sortRowRanges rows = sorted at *
  cases sorted with
  | nil =>
    obtain rfl := Except.ok.inj h
    refine iff_of_true ⟨fun _ _ => Iff.rfl, .nil⟩ ?_
    intro chain hchain
    cases hchain
  | cons first rest =>
    obtain ⟨hfirst, hmerge⟩ := ite_error_eq_ok.mp h
    have hnonempty : ∀ row : CoviRowRangePostingV2, row.rowCount ≠ 0 →
        rowParts.start row < rowParts.stop row := by
      intro row hcount
      show row.rowStart < row.rowStart + row.rowCount
      omega
    exact covers_merged_iff (fun _ _ _ => joinNormalized_some) (fun _ _ => joinNormalized_none)
      (fun _ _ _ h => hnonempty _ (joinNormalized_rowCount h)) (hnonempty _ hfirst) hsorted hmerge

end Cove
