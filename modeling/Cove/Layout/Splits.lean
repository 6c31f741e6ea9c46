import Cove.Core.SegmentIndex
import Cove.DataFusion.ScanSplits

/-!
# Scan splits against the segment index

A scan split names morsels: from the first one on, over segments with consecutive ids. Its rows are
given too, by a start and a count, and the check compares them with the morsels it walks over. The
walk ends as soon as it has met enough morsels, and it adds up rows wherever they are.

- `ScanSplitIndexV2`, `validateScanSplitAuthority`: the index, checked against the index of segments.
- `namedMorsels`, `NamesItsRows`: the morsels a split names, and that they are its rows.
- `SegmentsAdjoin`: the segments that a split names lie side by side, and it reaches the last.
- `walkSplit_spec`: what the walk meets.
- `namesItsRows_iff`: **which accepted splits name their rows**.
-/

namespace Cove.Layout

open Checked Spans

/-- An entry with all its fields; the checks read those of `Cove.ScanSplitEntryV2`. -/
structure ScanSplitEntryV2 extends Cove.ScanSplitEntryV2 where
  statsRef : Nat
  estimatedUncompressedBytes : Nat
  estimatedEncodedBytes : Nat
  flags : Nat
  checksum : Nat
  deriving DecidableEq, Repr

structure ScanSplitIndexHeaderV2 where
  splitCount : Nat
  flags : Nat
  checksum : Nat
  deriving DecidableEq, Repr

structure ScanSplitIndexV2 where
  header : ScanSplitIndexHeaderV2
  entries : List ScanSplitEntryV2
  deriving DecidableEq, Repr

/-- What the checks read of an index. -/
def ScanSplitIndexV2.checked (self : ScanSplitIndexV2) : Cove.ScanSplitIndexV2 :=
  ⟨self.header.splitCount, self.entries.map ScanSplitEntryV2.toScanSplitEntryV2⟩

/-- What the checks read of a segment. -/
def checkedSegment (segment : Segment.TableSegmentIndexEntryV1) : TableSegmentIndexEntryV1 where
  segmentId := segment.segmentId
  rowStart := segment.rowStart
  rowCount := segment.rowCount
  morselCount := segment.morselCount
  morselRowCount := segment.morselRowCount

/-- The segments of a table, among which `segment_by_id` looks. -/
def tableSegments (tableId : Nat) (segments : List Segment.TableSegmentIndexEntryV1) :
    List TableSegmentIndexEntryV1 := (Segment.ofTable tableId segments).map checkedSegment

/-- `validate_scan_split_authority`, with the ids of the page clusters. -/
def validateScanSplitAuthority (index : ScanSplitIndexV2) (table : TableEntry)
    (segments : List Segment.TableSegmentIndexEntryV1) (pageClusters : Option (List Nat)) :
    Except CoveError Unit :=
  Cove.validateScanSplitAuthority index.checked table (tableSegments table.tableId segments)
    pageClusters

/-! ## What a split names -/

section

variable (segments : List TableSegmentIndexEntryV1) (split : Cove.ScanSplitEntryV2)

/-- The morsels of a segment that the split may name: in its first segment from its first morsel
on. -/
def availableMorsels (segmentId : Nat) : List (TableSegmentIndexEntryV1 × Nat) :=
  match segments.find? fun segment => segment.segmentId == segmentId with
  | none => []
  | some segment =>
    let startMorsel := if segmentId = split.firstSegmentId then split.firstMorselId else 0
    (List.range' startMorsel (segment.morselCount - startMorsel)).map fun morselId =>
      (segment, morselId)

/-- The ids of the segments that the split names. -/
def namedSegments : List Nat := List.range' split.firstSegmentId split.segmentCount

/-- The morsels that the split names. -/
def namedMorsels : List (TableSegmentIndexEntryV1 × Nat) :=
  ((namedSegments split).flatMap (availableMorsels segments split)).take split.morselCount

/-- The rows of a morsel; the last one of a segment may be short. -/
def morselSpan (morsel : TableSegmentIndexEntryV1 × Nat) : Span where
  start := morsel.1.rowStart + morsel.2 * morsel.1.morselRowCount
  len := min (morsel.1.rowCount - morsel.2 * morsel.1.morselRowCount) morsel.1.morselRowCount

/-- **The morsels that a split names are its rows**, and each of its segments has one. -/
structure NamesItsRows : Prop where
  rows : ∀ row, Covered ((namedMorsels segments split).map morselSpan) row ↔
    split.rowStart ≤ row ∧ row < split.rowStart + split.rowCount
  contributes : ∀ segmentId ∈ namedSegments split,
    ∃ morsel ∈ namedMorsels segments split, morsel.1.segmentId = segmentId

/-- The segments before the last have fewer morsels than the split names, and every named morsel
with rows starts on the first row of the split or where another one with rows ends. -/
structure SegmentsAdjoin : Prop where
  reached : ((List.range' split.firstSegmentId (split.segmentCount - 1)).flatMap
    (availableMorsels segments split)).length < split.morselCount
  adjoin : Adjoin split.rowStart ((namedMorsels segments split).map morselSpan)

end

/-! ## The walk -/

variable {segmentId : Nat} {segment : TableSegmentIndexEntryV1} {segmentIds : List Nat}

variable {morsel : TableSegmentIndexEntryV1 × Nat}

variable {walk' walk : SplitWalk}

section

variable {segments : List TableSegmentIndexEntryV1} {split : Cove.ScanSplitEntryV2}

/-- The first morsel of a segment that the split may name. -/
theorem head_availableMorsels (h : availableMorsels segments split segmentId ≠ []) :
    ∃ found, segments.find? (fun segment => segment.segmentId == segmentId) = some found ∧
      ∃ first < found.morselCount,
        first = (if segmentId = split.firstSegmentId then split.firstMorselId else 0) ∧
        (availableMorsels segments split segmentId).head? = some (found, first) := by
  unfold availableMorsels at h ⊢
  cases hfind : segments.find? fun segment => segment.segmentId == segmentId with
  | none =>
    rw [hfind] at h
    exact absurd rfl h
  | some found =>
    rw [hfind] at h
    dsimp only at h ⊢
    generalize (if segmentId = split.firstSegmentId then split.firstMorselId else 0) = first at *
    have hlt : first < found.morselCount := by
      by_contra hge
      rw [Nat.sub_eq_zero_of_le (Nat.le_of_not_lt hge)] at h
      exact h rfl
    obtain ⟨count, hcount⟩ : ∃ count, found.morselCount - first = count + 1 :=
      ⟨found.morselCount - first - 1, by omega⟩
    refine ⟨found, rfl, first, hlt, rfl, ?_⟩
    rw [hcount, List.range'_succ]
    rfl

/-- Adding up with checks. -/
theorem sum_of_foldlM {f : Nat → Except CoveError Nat} {g : Nat → Nat} {l : List Nat} {acc n : Nat}
    (hf : ∀ m k, f m = .ok k → k = g m)
    (h : l.foldlM (fun rows m => do checkedAdd rows (← f m)) acc = .ok n) :
    n = acc + (l.map g).sum := by
  induction l generalizing acc with
  | nil => exact (Except.ok.inj h).symm
  | cons m l ih =>
    rw [List.foldlM_cons] at h
    obtain ⟨acc', hstep, h⟩ := bind_eq_ok.mp h
    obtain ⟨k, hk, hadd⟩ := bind_eq_ok.mp hstep
    obtain ⟨-, rfl⟩ := addU64_eq_ok.mp hadd
    obtain rfl := hf m k hk
    rw [ih h, List.map_cons, List.sum_cons, Nat.add_assoc]

theorem rows_of_segmentMorselRowCount {morselId rows : Nat}
    (h : segmentMorselRowCount segment morselId = .ok rows) :
    rows = (morselSpan (segment, morselId)).len := by
  unfold segmentMorselRowCount at h
  obtain ⟨start, hstart, h⟩ := bind_eq_ok.mp h
  obtain ⟨-, rfl⟩ := mulU64_eq_ok.mp hstart
  obtain ⟨-, h⟩ := ite_error_eq_ok.mp h
  obtain ⟨remaining, hremaining, h⟩ := bind_eq_ok.mp h
  obtain ⟨-, rfl⟩ := sub_eq_ok.mp hremaining
  exact (Except.ok.inj h).symm

/-- The rows of some morsels of a segment. -/
theorem rows_of_segmentMorselSpanRows {firstMorselId morselCount rows : Nat}
    (h : segmentMorselSpanRows segment firstMorselId morselCount = .ok rows) :
    rows = total (((List.range' firstMorselId morselCount).map fun morselId =>
      (segment, morselId)).map morselSpan) := by
  unfold segmentMorselSpanRows at h
  obtain ⟨stop, -, h⟩ := bind_eq_ok.mp h
  obtain ⟨-, h⟩ := ite_error_eq_ok.mp h
  rw [sum_of_foldlM (fun m k hk => rows_of_segmentMorselRowCount hk) h, Nat.zero_add, total,
    List.map_map, List.map_map]
  rfl

theorem total_append (spans spans' : List Span) :
    total (spans ++ spans') = total spans + total spans' := by
  rw [total, List.map_append, List.sum_append, total, total]

/-- A step of the walk: the morsels of a segment that are left to name. -/
theorem walkSplit_cons (h : walkSplit segments split (segmentId :: segmentIds) walk = .ok walk') :
    ∃ next, availableMorsels segments split segmentId ≠ [] ∧
      next.remainingMorsels =
        walk.remainingMorsels - (availableMorsels segments split segmentId).length ∧
      next.actualRowCount = walk.actualRowCount +
        total (((availableMorsels segments split segmentId).take walk.remainingMorsels).map
          morselSpan) ∧
      next.actualRowStart = walk.actualRowStart.or
        ((availableMorsels segments split segmentId).head?.map fun morsel =>
          (morselSpan morsel).start) ∧
      (if next.remainingMorsels = 0 then Except.ok next
        else walkSplit segments split segmentIds next) = .ok walk' := by
  rw [walkSplit] at h
  obtain ⟨segment, hfind⟩ : ∃ segment,
      segments.find? (fun segment => segment.segmentId == segmentId) = some segment := by
    cases hfind : segments.find? fun segment => segment.segmentId == segmentId with
    | none =>
      rw [hfind] at h
      cases h
    | some segment => exact ⟨segment, rfl⟩
  unfold availableMorsels
  rw [hfind] at h ⊢
  dsimp only at h ⊢
  generalize (if segmentId = split.firstSegmentId then split.firstMorselId else 0) = startMorsel at *
  obtain ⟨hstart, h⟩ := ite_error_eq_ok.mp h
  obtain ⟨available, havailable, h⟩ := bind_eq_ok.mp h
  obtain ⟨-, rfl⟩ := sub_eq_ok.mp havailable
  obtain ⟨-, h⟩ := ite_error_eq_ok.mp h
  obtain ⟨startRow, hstartRow, h⟩ := bind_eq_ok.mp h
  obtain ⟨rows, hrows, h⟩ := bind_eq_ok.mp h
  obtain ⟨actualRowCount, hcount, h⟩ := bind_eq_ok.mp h
  obtain ⟨-, rfl⟩ := addU64_eq_ok.mp hcount
  obtain ⟨remaining, hremaining, h⟩ := bind_eq_ok.mp h
  obtain ⟨-, rfl⟩ := sub_eq_ok.mp hremaining
  refine ⟨⟨walk.remainingMorsels - min (segment.morselCount - startMorsel) walk.remainingMorsels,
    walk.actualRowStart.or (some startRow), walk.actualRowCount + rows⟩, ?_, ?_, ?_, ?_, h⟩
  · intro hnil
    have hlength := congrArg List.length hnil
    rw [List.length_map, List.length_range', List.length_nil] at hlength
    omega
  · rw [List.length_map, List.length_range']
    dsimp only
    omega
  · rw [rows_of_segmentMorselSpanRows hrows, ← List.map_take]
    by_cases hle : segment.morselCount - startMorsel ≤ walk.remainingMorsels
    · rw [List.take_range'_of_length_le hle, Nat.min_eq_left hle]
    · have hge : walk.remainingMorsels ≤ segment.morselCount - startMorsel := by omega
      rw [List.take_range'_of_length_ge hge, Nat.min_eq_right hge]
  · unfold segmentMorselRowStart at hstartRow
    obtain ⟨-, hstartRow⟩ := ite_error_eq_ok.mp hstartRow
    obtain ⟨rowsBefore, hmul, hadd⟩ := bind_eq_ok.mp hstartRow
    obtain ⟨-, rfl⟩ := mulU64_eq_ok.mp hmul
    obtain ⟨-, rfl⟩ := addU64_eq_ok.mp hadd
    obtain ⟨count, hcount⟩ : ∃ count, segment.morselCount - startMorsel = count + 1 :=
      ⟨segment.morselCount - startMorsel - 1, by omega⟩
    rw [hcount, List.range'_succ]
    rfl

/-- **What the walk meets** when it names all its morsels: as many as there are to name, their rows,
and a morsel in every segment that comes before the end. The induction is on the segments that are
left. -/
theorem walkSplit_spec
    (h : walkSplit segments split segmentIds walk = .ok walk') (hpos : 0 < walk.remainingMorsels)
    (hdone : walk'.remainingMorsels = 0) :
    walk.remainingMorsels ≤ (segmentIds.flatMap (availableMorsels segments split)).length ∧
    walk'.actualRowCount = walk.actualRowCount +
      total (((segmentIds.flatMap (availableMorsels segments split)).take
        walk.remainingMorsels).map morselSpan) ∧
    ∀ before segmentId after, segmentIds = before ++ segmentId :: after →
      (before.flatMap (availableMorsels segments split)).length < walk.remainingMorsels →
        availableMorsels segments split segmentId ≠ [] := by
  induction segmentIds generalizing walk with
  | nil =>
    obtain rfl := Except.ok.inj h
    omega
  | cons segmentId segmentIds ih =>
    obtain ⟨next, hsome, hremaining, hcount, -, h⟩ := walkSplit_cons h
    rw [List.flatMap_cons, List.length_append, List.take_append]
    by_cases hend : next.remainingMorsels = 0
    · -- enough morsels are met, and the segments after this one are not looked at
      rw [if_pos hend] at h
      obtain rfl := Except.ok.inj h
      have hnone : walk.remainingMorsels - (availableMorsels segments split segmentId).length = 0 := by
        omega
      rw [hnone, List.take_zero, List.append_nil]
      refine ⟨by omega, hcount, ?_⟩
      intro before segmentId' after heq hlt
      cases before with
      | nil =>
        obtain ⟨rfl, -⟩ := List.cons.inj heq
        exact hsome
      | cons _ before =>
        obtain ⟨rfl, -⟩ := List.cons.inj heq
        rw [List.flatMap_cons, List.length_append] at hlt
        omega
    · rw [if_neg hend] at h
      obtain ⟨hle, hrows, hmet⟩ := ih h (Nat.pos_of_ne_zero hend)
      rw [hremaining] at hle hrows hmet
      refine ⟨by omega, ?_, ?_⟩
      · rw [hrows, hcount, List.map_append, total_append, Nat.add_assoc]
      · intro before segmentId' after heq hlt
        cases before with
        | nil =>
          obtain ⟨rfl, -⟩ := List.cons.inj heq
          exact hsome
        | cons _ before =>
          obtain ⟨rfl, htail⟩ := List.cons.inj heq
          rw [List.flatMap_cons, List.length_append] at hlt
          exact hmet before segmentId' after htail (by omega)

/-! ## The morsels share no row -/

/-- The rows of a segment. -/
def segmentSpan (segment : TableSegmentIndexEntryV1) : Span := ⟨segment.rowStart, segment.rowCount⟩

theorem mem_segmentSpan_of_mem_morselSpan {row : Nat}
    (h : (morselSpan morsel).Mem row) : (segmentSpan morsel.1).Mem row := by
  obtain ⟨hlo, hhi⟩ := h
  unfold Span.stop morselSpan at hhi
  unfold morselSpan at hlo
  dsimp only at hlo hhi
  refine ⟨?_, ?_⟩
  · show morsel.1.rowStart ≤ row
    omega
  · show row < morsel.1.rowStart + morsel.1.rowCount
    omega

theorem apart_of_lt {m m' : Nat} (h : m < m') (row : Nat) :
    ¬ ((morselSpan (segment, m)).Mem row ∧ (morselSpan (segment, m')).Mem row) := by
  rintro ⟨⟨-, hhi⟩, hlo, -⟩
  have hmul : (m + 1) * segment.morselRowCount ≤ m' * segment.morselRowCount :=
    Nat.mul_le_mul_right _ h
  unfold Span.stop morselSpan at hhi
  unfold morselSpan at hlo
  dsimp only at hhi hlo
  rw [Nat.add_mul] at hmul
  omega

theorem mem_availableMorsels (h : morsel ∈ availableMorsels segments split segmentId) :
    morsel.1 ∈ segments ∧ morsel.1.segmentId = segmentId := by
  unfold availableMorsels at h
  split at h
  · cases h
  next segment hfind =>
  obtain ⟨morselId, -, rfl⟩ := List.mem_map.mp h
  have hid := List.find?_some hfind
  exact ⟨List.mem_of_find?_eq_some hfind, eq_of_beq hid⟩

/-- Morsels of segments that share no row share none. -/
theorem apart_availableMorsels (hsegments : Apart (segments.map segmentSpan))
    (hnodup : segmentIds.Nodup) :
    Apart ((segmentIds.flatMap (availableMorsels segments split)).map morselSpan) := by
  unfold Apart
  rw [List.pairwise_map, List.pairwise_flatMap]
  refine ⟨fun segmentId _ => ?_, hnodup.imp fun {a b} hne x hx y hy row => ?_⟩
  · unfold availableMorsels
    split
    · exact .nil
    next segment _ =>
    rw [List.pairwise_map]
    exact (List.pairwise_lt_range' _).imp fun h row => apart_of_lt h row
  · obtain ⟨hxmem, hxid⟩ := mem_availableMorsels hx
    obtain ⟨hymem, hyid⟩ := mem_availableMorsels hy
    have hdistinct : x.1 ≠ y.1 := by
      intro heq
      exact hne (hxid.symm.trans ((congrArg _ heq).trans hyid))
    have hsymm : Std.Symm fun a b : TableSegmentIndexEntryV1 =>
        ∀ row, ¬ ((segmentSpan a).Mem row ∧ (segmentSpan b).Mem row) :=
      ⟨fun a b hab row hrow => hab row hrow.symm⟩
    have hapart := (List.pairwise_map.mp hsegments).forall hxmem hymem hdistinct row
    rintro ⟨hxrow, hyrow⟩
    exact hapart ⟨mem_segmentSpan_of_mem_morselSpan hxrow, mem_segmentSpan_of_mem_morselSpan hyrow⟩

theorem apart_namedMorsels (hsegments : Apart (segments.map segmentSpan)) :
    Apart ((namedMorsels segments split).map morselSpan) := by
  have hall : Apart (((namedSegments split).flatMap (availableMorsels segments split)).map
      morselSpan) := apart_availableMorsels hsegments List.nodup_range'
  exact hall.sublist ((List.take_sublist _ _).map _)

/-- The segments of a table in an accepted index share no row. -/
theorem apart_tableSegments {entries : List Segment.TableSegmentIndexEntryV1}
    (h : Segment.TableSegmentIndex.validate entries = .ok ()) (tableId : Nat) :
    Apart ((tableSegments tableId entries).map segmentSpan) := by
  have hdisjoint := (Segment.validate_disjoint h).sublist
    (List.filter_sublist (p := fun e => e.tableId = tableId))
  unfold Apart tableSegments Segment.ofTable
  rw [List.pairwise_map, List.pairwise_map]
  refine hdisjoint.imp_of_mem fun {a b} ha hb hab row => ?_
  have hatable := of_decide_eq_true (List.mem_filter.mp ha).2
  have hbtable := of_decide_eq_true (List.mem_filter.mp hb).2
  exact hab (hatable.trans hbtable.symm) row

/-! ## What an accepted split names -/

/-- Every named segment has a named morsel exactly when those before the last have too few. -/
theorem contributes_iff (hcount : 0 < split.segmentCount)
    (hmet : ∀ before segmentId after, namedSegments split = before ++ segmentId :: after →
      (before.flatMap (availableMorsels segments split)).length < split.morselCount →
        availableMorsels segments split segmentId ≠ []) :
    (∀ segmentId ∈ namedSegments split,
      ∃ morsel ∈ namedMorsels segments split, morsel.1.segmentId = segmentId) ↔
    ((List.range' split.firstSegmentId (split.segmentCount - 1)).flatMap
      (availableMorsels segments split)).length < split.morselCount := by
  obtain ⟨count, hsucc⟩ : ∃ count, split.segmentCount = count + 1 :=
    ⟨split.segmentCount - 1, by omega⟩
  have hsplit : namedSegments split = List.range' split.firstSegmentId count ++
      [split.firstSegmentId + count] := by
    rw [namedSegments, hsucc, List.range'_concat, Nat.one_mul]
  rw [hsucc, Nat.add_sub_cancel]
  constructor
  · intro h
    obtain ⟨morsel, hmorsel, hid⟩ := h (split.firstSegmentId + count) (by rw [hsplit]; simp)
    by_contra hmany
    -- otherwise the named morsels are all in the segments before the last
    rw [namedMorsels, hsplit, List.flatMap_append,
      List.take_append_of_le_length (Nat.le_of_not_lt hmany)] at hmorsel
    obtain ⟨segmentId, hsegment, hin⟩ := List.mem_flatMap.mp (List.mem_of_mem_take hmorsel)
    have hlt := (List.mem_range'_1.mp hsegment).2
    rw [(mem_availableMorsels hin).2] at hid
    omega
  · intro hfew segmentId hsegment
    obtain ⟨before, after, heq⟩ := List.append_of_mem hsegment
    have hbefore : (before.flatMap (availableMorsels segments split)).length < split.morselCount := by
      rw [hsplit] at heq
      have hlength : before.length ≤ (List.range' split.firstSegmentId count).length := by
        have := congrArg List.length heq
        simp only [List.length_append, List.length_cons, List.length_nil] at this
        omega
      obtain ⟨tail, htail⟩ := List.prefix_of_prefix_length_le ⟨_, heq.symm⟩ ⟨_, rfl⟩ hlength
      rw [← htail, List.flatMap_append, List.length_append] at hfew
      omega
    have hsome := hmet before segmentId after heq hbefore
    obtain ⟨morsel, rest, hmorsel⟩ := List.exists_cons_of_ne_nil hsome
    refine ⟨morsel, ?_, (mem_availableMorsels (hmorsel ▸ List.mem_cons_self)).2⟩
    obtain ⟨room, hroom⟩ : ∃ room, split.morselCount =
        (before.flatMap (availableMorsels segments split)).length + (room + 1) :=
      ⟨split.morselCount - (before.flatMap (availableMorsels segments split)).length - 1, by omega⟩
    rw [namedMorsels, heq, List.flatMap_append, List.flatMap_cons, hmorsel, hroom,
      List.take_length_add_append, List.cons_append, List.take_succ_cons]
    exact List.mem_append_right _ List.mem_cons_self

/-- **An accepted split names its rows exactly when** its segments adjoin. -/
theorem namesItsRows_iff {table : TableEntry} {clusters : Option (List Nat)}
    (hsegments : Apart (segments.map segmentSpan))
    (h : validateSplit table segments clusters split = .ok ()) :
    NamesItsRows segments split ↔ SegmentsAdjoin segments split := by
  unfold validateSplit at h
  obtain ⟨hfields, h⟩ := ite_error_eq_ok.mp h
  obtain ⟨_, -, h⟩ := bind_eq_ok.mp h
  obtain ⟨walk, hwalk, h⟩ := bind_eq_ok.mp h
  obtain ⟨hdone, h⟩ := ite_error_eq_ok.mp h
  obtain ⟨hrows, -⟩ := ite_error_eq_ok.mp h
  simp only [not_or] at hfields hrows
  obtain ⟨-, hsegmentCount, hmorselCount⟩ := hfields
  obtain ⟨-, hcount, hmet⟩ := walkSplit_spec hwalk (Nat.pos_of_ne_zero hmorselCount)
    (Decidable.of_not_not hdone)
  have htotal : total ((namedMorsels segments split).map morselSpan) = split.rowCount := by
    rw [← Decidable.of_not_not hrows.2, hcount, Nat.zero_add]
    rfl
  have hcontributes := contributes_iff (Nat.pos_of_ne_zero hsegmentCount) hmet
  have hadjoin := @covered_iff_adjoin ((namedMorsels segments split).map morselSpan)
    (apart_namedMorsels hsegments) split.rowStart
  rw [htotal] at hadjoin
  constructor
  · rintro ⟨hcovered, hsome⟩
    exact ⟨hcontributes.mp hsome, hadjoin.mp hcovered⟩
  · rintro ⟨hreached, hspans⟩
    exact ⟨hadjoin.mpr hspans, hcontributes.mpr hreached⟩

end

/-- **Which splits of an accepted index name their rows**, over an accepted index of segments. -/
theorem accepted_namesItsRows_iff {index : ScanSplitIndexV2} {table : TableEntry}
    {segments : List Segment.TableSegmentIndexEntryV1} {pageClusters : Option (List Nat)}
    (hsegments : Segment.TableSegmentIndex.validate segments = .ok ())
    (h : validateScanSplitAuthority index table segments pageClusters = .ok ()) :
    ∀ split ∈ index.entries,
      NamesItsRows (tableSegments table.tableId segments) split.toScanSplitEntryV2 ↔
        SegmentsAdjoin (tableSegments table.tableId segments) split.toScanSplitEntryV2 := by
  intro split hsplit
  obtain ⟨_, -, h⟩ := bind_eq_ok.mp h
  exact namesItsRows_iff (apart_tableSegments hsegments table.tableId)
    (forM_eq_ok.mp h _ (List.mem_map_of_mem hsplit))

/-- Three segments of ten rows, in one morsel each; the third lies between the others. -/
def threeSegments : List Segment.TableSegmentIndexEntryV1 :=
  [⟨1, 1, 0, 10, 1, 10, 0, 0⟩, ⟨1, 2, 20, 10, 1, 10, 0, 0⟩, ⟨1, 3, 10, 10, 1, 10, 0, 0⟩]

def thirtyRows : TableEntry := ⟨1, 30, []⟩

/-- A split over some segments from one on, with some morsels and the first rows from a row on. -/
def splitOver (firstSegmentId segmentCount morselCount rowStart rowCount : Nat) :
    ScanSplitIndexV2 where
  header := ⟨1, 0, 0⟩
  entries := [⟨⟨1, 1, rowStart, rowCount, firstSegmentId, segmentCount, 0, morselCount, 0, 0⟩,
    0, 0, 0, 0, 0⟩]

/-- Two segments side by side, the last morsel short. -/
def twoSegments : List Segment.TableSegmentIndexEntryV1 :=
  [⟨1, 1, 0, 10, 1, 10, 0, 0⟩, ⟨1, 2, 10, 17, 2, 10, 0, 0⟩]

theorem splitOver_namesItsRows : (splitOver 1 2 3 0 27).entries ≠ [] ∧
    ∀ split ∈ (splitOver 1 2 3 0 27).entries,
      NamesItsRows (tableSegments 1 twoSegments) split.toScanSplitEntryV2 := by
  have haccepted : validateScanSplitAuthority (splitOver 1 2 3 0 27) thirtyRows twoSegments none =
      .ok () := by decide
  refine ⟨by decide, fun split hsplit => ?_⟩
  refine (accepted_namesItsRows_iff (by decide) haccepted split hsplit).mpr ?_
  obtain rfl := List.mem_singleton.mp hsplit
  exact ⟨by decide, by unfold Adjoin; decide⟩

/-- The segments 1 and 2 have a gap between them, and the walk over 1 to 3 can end at 1: both splits
are accepted, and neither names its rows. -/
theorem splitOver_not_namesItsRows :
    Segment.TableSegmentIndex.validate threeSegments = .ok () ∧
    (validateScanSplitAuthority (splitOver 1 2 2 0 20) thirtyRows threeSegments none = .ok () ∧
      ∀ split ∈ (splitOver 1 2 2 0 20).entries,
        ¬ NamesItsRows (tableSegments 1 threeSegments) split.toScanSplitEntryV2) ∧
    (validateScanSplitAuthority (splitOver 1 3 1 0 10) thirtyRows threeSegments none = .ok () ∧
      ∀ split ∈ (splitOver 1 3 1 0 10).entries,
        ¬ NamesItsRows (tableSegments 1 threeSegments) split.toScanSplitEntryV2) := by
  refine ⟨by decide, ⟨by decide, ?_⟩, by decide, ?_⟩
  · intro split hsplit hnames
    obtain rfl := List.mem_singleton.mp hsplit
    have hrow := (hnames.rows 15).mpr (by decide)
    exact absurd hrow (by decide)
  · intro split hsplit hnames
    obtain rfl := List.mem_singleton.mp hsplit
    have hthird := hnames.contributes 3 (by decide)
    exact absurd hthird (by decide)

end Cove.Layout
