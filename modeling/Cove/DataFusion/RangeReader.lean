import Mathlib.Data.List.Sort
import Cove.Core.Error
import Cove.Lib.MergeRuns

/-!
# Reading byte ranges together

Requested ranges are sorted and merged into groups, every group is read once, and the
requests are cut out of the groups.

- `ByteRange`, `RangeReader`: an immutable source of bytes and its direct reads, with
  `localFileRangeReader` and `memoryRangeReader`.
- `coalesceRanges`, `layoutAwareGroups`: the groups, without and with layout hints.
- `buildCoalescedRangePlan`, `buildLayoutAwareCoalescedRangePlan`: the plans.
- `readForPlan`, `readCoalescedRanges`: the reads of a plan.
-/

namespace Cove

open Checked MergeRuns

/-! ## Sources -/

/-- `Range<u64>`. -/
structure ByteRange where
  start : Nat
  stop : Nat
  deriving DecidableEq, Repr

/-- `range_len`. -/
def rangeLen (range : ByteRange) : Except CoveError Nat :=
  Checked.sub .offsetRange range.stop range.start

/-- The bytes of a range. -/
def ByteRange.of (range : ByteRange) (bytes : List UInt8) : List UInt8 :=
  (bytes.drop range.start).take (range.stop - range.start)

/-- An immutable source and how it reads one range. Whether an empty range past the end is
read is left to the source. -/
structure RangeReader where
  bytes : List UInt8
  small : bytes.length < 2 ^ 64
  readRange : ByteRange → Except CoveError (List UInt8)
  inside : ∀ range, range.start ≤ range.stop → range.stop ≤ bytes.length →
    readRange range = .ok (range.of bytes)
  past : ∀ range, range.start < range.stop → bytes.length < range.stop →
    ∀ out, readRange range ≠ .ok out
  inverted : ∀ range, range.stop < range.start → ∀ out, readRange range ≠ .ok out
  empty : ∀ range out, range.start = range.stop → readRange range = .ok out → out = []

/-- `LocalFileRangeReader`: nothing is read for an empty range. -/
def localFileRangeReader (bytes : List UInt8) (hbytes : bytes.length < 2 ^ 64) :
    RangeReader where
  bytes := bytes
  small := hbytes
  readRange := fun range => do
    let len ← rangeLen range
    if len = 0 then .ok []
    else if range.stop ≤ bytes.length then .ok (range.of bytes)
    else .error .bufferTooShort
  inside := by
    intro range hle hstop
    have hlen : rangeLen range = .ok (range.stop - range.start) := sub_eq_ok.mpr ⟨hle, rfl⟩
    rw [hlen, ok_bind]
    by_cases hzero : range.stop - range.start = 0
    · rw [if_pos hzero, ByteRange.of, hzero, List.take_zero]
    · rw [if_neg hzero, if_pos hstop]
  past := by
    intro range hlt hpast out h
    obtain ⟨len, hlen, h⟩ := bind_eq_ok.mp h
    obtain ⟨-, rfl⟩ := sub_eq_ok.mp hlen
    rw [if_neg (by omega), if_neg (by omega)] at h
    cases h
  inverted := by
    intro range hlt out h
    obtain ⟨len, hlen, -⟩ := bind_eq_ok.mp h
    obtain ⟨hle, -⟩ := sub_eq_ok.mp hlen
    omega
  empty := by
    intro range out heq h
    obtain ⟨len, hlen, h⟩ := bind_eq_ok.mp h
    obtain ⟨-, rfl⟩ := sub_eq_ok.mp hlen
    rw [if_pos (by omega)] at h
    exact (Except.ok.inj h).symm

/-- `MemoryRangeReader`, and `MmapFileRangeReader`: every range is checked against the end. -/
def memoryRangeReader (bytes : List UInt8) (hbytes : bytes.length < 2 ^ 64) : RangeReader where
  bytes := bytes
  small := hbytes
  readRange := fun range => do
    let len ← rangeLen range
    let stop ← checkedAdd range.start len
    if stop > bytes.length then .error .offsetRange else .ok (range.of bytes)
  inside := by
    intro range hle hstop
    have hlen : rangeLen range = .ok (range.stop - range.start) := sub_eq_ok.mpr ⟨hle, rfl⟩
    have hadd : checkedAdd range.start (range.stop - range.start) = .ok range.stop :=
      addU64_eq_ok.mpr ⟨by omega, by omega⟩
    rw [hlen, ok_bind, hadd, ok_bind, if_neg (by omega)]
  past := by
    intro range hlt hpast out h
    obtain ⟨len, hlen, h⟩ := bind_eq_ok.mp h
    obtain ⟨-, rfl⟩ := sub_eq_ok.mp hlen
    obtain ⟨stop, hadd, h⟩ := bind_eq_ok.mp h
    obtain ⟨-, rfl⟩ := addU64_eq_ok.mp hadd
    rw [if_pos (by omega)] at h
    cases h
  inverted := by
    intro range hlt out h
    obtain ⟨len, hlen, -⟩ := bind_eq_ok.mp h
    obtain ⟨hle, -⟩ := sub_eq_ok.mp hlen
    omega
  empty := by
    intro range out heq h
    obtain ⟨len, hlen, h⟩ := bind_eq_ok.mp h
    obtain ⟨stop, hadd, h⟩ := bind_eq_ok.mp h
    split at h
    · cases h
    · obtain rfl := Except.ok.inj h
      rw [ByteRange.of, heq, Nat.sub_self, List.take_zero]

/-! ## Groups -/

structure RangeCoalescingOptions where
  maxGap : Nat
  maxSpan : Nat
  deriving DecidableEq, Repr

/-- `RangeCoalescingOptions::default`. -/
def RangeCoalescingOptions.default : RangeCoalescingOptions := ⟨4096, 1024 * 1024⟩

structure RangeClusterHint where
  clusterStart : Nat
  clusterEnd : Nat
  preferredCoalesceDistance : Nat
  deriving DecidableEq, Repr

structure OriginalRange where
  index : Nat
  start : Nat
  stop : Nat
  deriving DecidableEq, Repr

structure CoalescedRange where
  start : Nat
  stop : Nat
  originals : List OriginalRange
  deriving DecidableEq, Repr

/-- A group that is one request. -/
def OriginalRange.alone (original : OriginalRange) : CoalescedRange :=
  ⟨original.start, original.stop, [original]⟩

/-- The requests with their places; a range that ends before it starts is refused. -/
def originalRanges (ranges : List ByteRange) : Except CoveError (List OriginalRange) :=
  ranges.zipIdx.mapM fun (range, index) =>
    if range.start > range.stop then .error .offsetRange
    else .ok ⟨index, range.start, range.stop⟩

/-- The body of the loop of `coalesce_ranges`: a request joins the last group or opens one. -/
def joinCoalesced (maxGap maxSpan : Nat) (last range : CoalescedRange) :
    Except CoveError (Option CoalescedRange) := do
  let gap := range.start - last.stop
  let mergedEnd := max last.stop range.stop
  let mergedSpan ← Checked.sub .offsetRange mergedEnd last.start
  if gap ≤ maxGap ∧ mergedSpan ≤ maxSpan then
    .ok (some ⟨last.start, mergedEnd, last.originals ++ range.originals⟩)
  else .ok none

/-- The order of `sort_by_key` on start and end. -/
def OriginalRange.le (a b : OriginalRange) : Bool :=
  a.start < b.start ∨ (a.start = b.start ∧ a.stop ≤ b.stop)

/-- `coalesce_ranges`. -/
def coalesceRanges (ranges : List ByteRange) (options : RangeCoalescingOptions) :
    Except CoveError (List CoalescedRange) := do
  match (← originalRanges ranges).insertionSort (OriginalRange.le · ·) with
  | [] => .ok []
  | first :: rest =>
    mergeRuns (joinCoalesced options.maxGap options.maxSpan) first.alone
      (rest.map OriginalRange.alone)

/-! ## Groups with hints -/

/-- A group with the hint of its requests. -/
structure HintedGroup where
  range : CoalescedRange
  hint : Option RangeClusterHint
  deriving DecidableEq, Repr

/-- The hint's cluster does not hold the request. -/
def HintedGroup.outside (group : HintedGroup) : Bool :=
  group.hint.any fun hint =>
    group.range.start < hint.clusterStart ∨ group.range.stop > hint.clusterEnd

/-- The distance a request may keep to the last group. -/
def hintedMaxGap (options : RangeCoalescingOptions) (hint : Option RangeClusterHint) : Nat :=
  match hint with
  | some hint => max options.maxGap hint.preferredCoalesceDistance
  | none => options.maxGap

/-- The span a merged group may have. -/
def hintedMaxSpan (options : RangeCoalescingOptions) (hint : Option RangeClusterHint) : Nat :=
  match hint with
  | some hint =>
    if hint.clusterStart ≤ hint.clusterEnd then
      min options.maxSpan (hint.clusterEnd - hint.clusterStart)
    else options.maxSpan
  | none => options.maxSpan

/-- The merged group stays in the cluster. -/
def insideCluster (hint : Option RangeClusterHint) (start mergedEnd : Nat) : Bool :=
  hint.all fun hint => start ≥ hint.clusterStart ∧ mergedEnd ≤ hint.clusterEnd

/-- The body of the loop of `build_layout_aware_coalesced_range_plan`. The error `none` falls
back to the plan without hints. -/
def joinHinted (options : RangeCoalescingOptions) (last next : HintedGroup) :
    Except (Option CoveError) (Option HintedGroup) := do
  if next.outside then .error none
  else
    let gap := next.range.start - last.range.stop
    let mergedEnd := max last.range.stop next.range.stop
    let mergedSpan ← Checked.sub (some .offsetRange) mergedEnd last.range.start
    if last.hint = next.hint ∧ insideCluster next.hint last.range.start mergedEnd = true ∧
        gap ≤ hintedMaxGap options next.hint ∧ mergedSpan ≤ hintedMaxSpan options next.hint then
      .ok (some ⟨⟨last.range.start, mergedEnd, last.range.originals ++ next.range.originals⟩,
        last.hint⟩)
    else .ok none

/-- The sort key of a request with a hint: its cluster, start and end. -/
def HintedGroup.le (a b : HintedGroup) : Bool :=
  let cluster (g : HintedGroup) : Nat := (g.hint.map (·.clusterStart)).getD (2 ^ 64 - 1)
  cluster a < cluster b ∨ (cluster a = cluster b ∧
    (a.range.start < b.range.start ∨
      (a.range.start = b.range.start ∧ a.range.stop ≤ b.range.stop)))

/-- The groups of sorted requests with hints. -/
def hintedGroups (options : RangeCoalescingOptions) :
    List HintedGroup → Except (Option CoveError) (List HintedGroup)
  | [] => .ok []
  | first :: rest =>
    if first.outside then .error none else mergeRuns (joinHinted options) first rest

/-- The groups `build_layout_aware_coalesced_range_plan` makes. -/
def layoutAwareGroups (ranges : List ByteRange) (hints : List (Option RangeClusterHint))
    (options : RangeCoalescingOptions) : Except CoveError (List CoalescedRange) :=
  if hints.length ≠ ranges.length ∨ hints.all Option.isNone then coalesceRanges ranges options
  else do
    let originals ← originalRanges ranges
    let hinted := List.zipWith (fun original hint => HintedGroup.mk original.alone hint)
      originals hints
    match hintedGroups options (hinted.insertionSort (HintedGroup.le · ·)) with
    | .ok groups => .ok (groups.map HintedGroup.range)
    | .error none => coalesceRanges ranges options
    | .error (some e) => .error e

/-! ## Plans -/

structure CoalescedRangeStats where
  originalRanges : Nat
  coalescedRanges : Nat
  originalBytes : Nat
  coalescedBytes : Nat
  deriving DecidableEq, Repr

structure CoalescedRangePlan where
  stats : CoalescedRangeStats
  coalesced : List CoalescedRange
  deriving DecidableEq, Repr

/-- The lengths of ranges, added up. -/
def totalLen (ranges : List ByteRange) : Except CoveError Nat :=
  ranges.foldlM (fun total range => do checkedAdd total (← rangeLen range)) 0

/-- The range a group reads. -/
def CoalescedRange.span (group : CoalescedRange) : ByteRange := ⟨group.start, group.stop⟩

/-- The plan of groups, with its statistics. -/
def planOfGroups (ranges : List ByteRange) (coalesced : List CoalescedRange) :
    Except CoveError CoalescedRangePlan := do
  let originalBytes ← totalLen ranges
  let coalescedBytes ← totalLen (coalesced.map CoalescedRange.span)
  .ok ⟨⟨ranges.length, coalesced.length, originalBytes, coalescedBytes⟩, coalesced⟩

/-- `build_coalesced_range_plan`. -/
def buildCoalescedRangePlan (ranges : List ByteRange) (options : RangeCoalescingOptions) :
    Except CoveError CoalescedRangePlan := do
  planOfGroups ranges (← coalesceRanges ranges options)

/-- `build_layout_aware_coalesced_range_plan`. -/
def buildLayoutAwareCoalescedRangePlan (ranges : List ByteRange)
    (hints : List (Option RangeClusterHint)) (options : RangeCoalescingOptions) :
    Except CoveError CoalescedRangePlan := do
  planOfGroups ranges (← layoutAwareGroups ranges hints options)

/-! ## Reads -/

/-- `RetainedBytes::slice`. -/
def sliceBytes (bytes : List UInt8) (offset len : Nat) : Except CoveError (List UInt8) := do
  let localEnd ← checkedAdd offset len
  if localEnd > bytes.length then .error .offsetRange
  else .ok ((bytes.drop offset).take len)

/-- Cut one request out of the bytes of its group. -/
def placeOriginal (group : CoalescedRange) (bytes : List UInt8)
    (out : List (Option (List UInt8))) (original : OriginalRange) :
    Except CoveError (List (Option (List UInt8))) := do
  let offset ← Checked.sub .offsetRange original.start group.start
  let len ← Checked.sub .offsetRange original.stop original.start
  .ok (out.set original.index (some (← sliceBytes bytes offset len)))

/-- Cut the requests out of the groups. -/
def placeGroups (out : List (Option (List UInt8))) :
    List (CoalescedRange × List UInt8) → Except CoveError (List (Option (List UInt8)))
  | [] => .ok out
  | (group, bytes) :: groups => do
    placeGroups (← group.originals.foldlM (placeOriginal group bytes) out) groups

/-- The bytes of a place that was filled. -/
def placed : Option (List UInt8) → Except CoveError (List UInt8)
  | some bytes => .ok bytes
  | none => .error .bufferTooShort

/-- `read_coalesced_range_buffers_for_plan`. -/
def readForPlan (reader : RangeReader) (plan : CoalescedRangePlan) :
    Except CoveError (List (List UInt8)) :=
  if plan.stats.originalRanges = 0 then .ok []
  else do
    let coalescedBytes ← (plan.coalesced.map CoalescedRange.span).mapM reader.readRange
    if coalescedBytes.length ≠ plan.coalesced.length then .error .bufferTooShort
    else
      let out ← placeGroups (List.replicate plan.stats.originalRanges none)
        (plan.coalesced.zip coalescedBytes)
      out.mapM placed

/-- `read_coalesced_ranges_with_options`. -/
def readCoalescedRanges (reader : RangeReader) (ranges : List ByteRange)
    (options : RangeCoalescingOptions) : Except CoveError (List (List UInt8)) := do
  readForPlan reader (← buildCoalescedRangePlan ranges options)

/-- A read by the plan with layout hints. -/
def readLayoutAware (reader : RangeReader) (ranges : List ByteRange)
    (hints : List (Option RangeClusterHint)) (options : RangeCoalescingOptions) :
    Except CoveError (List (List UInt8)) := do
  readForPlan reader (← buildLayoutAwareCoalescedRangePlan ranges hints options)

end Cove
