import Cove.DataFusion.Overlay

/-!
# Counting with an overlay

The counts an overlay answers from its ranges or words, against the rows one by one.

- `RowVisibility.normalized`, `visibleCount`: the remaining queries.
- `Accepts`, `Hides`: what an overlay must be for a file of so many rows, and the rows it
  hides.
- `isRowVisible_eq_ok`, `hiddenRowsInRange_eq_ok`, `visibleCount_eq_ok`, `normalized_eq_ok`:
  each query in these terms.
- `countsAgree`: **the counts are those of the rows**, and every query accepts the same
  overlays; only a bitmap is not counted past row `2 ^ 64 - 64`.
- `last_word_not_counted`: a bitmap asked there.
-/

namespace Cove

open Checked MergeRuns Spans

/-! ## The remaining queries -/

/-- `normalized_bitmap_bits`: the words of the rows, no bit past the last row. -/
def normalizedBitmapBits (rowCount : Nat) (bits : List Nat) (totalRows : Nat) :
    Except CoveError (List Nat) := do
  validateBitmapShape rowCount bits totalRows
  let normalized := bits.take ((totalRows + 63) / 64)
  let tail := totalRows % 64
  if tail = 0 then .ok normalized
  else .ok (normalized.modify (normalized.length - 1) fun last => last &&& (1 <<< tail - 1))

/-- `bitmap_count_ones`. -/
def bitmapCountOnes (bits : List Nat) (totalRows : Nat) : Nat :=
  let fullWords := totalRows / 64
  let total := ((bits.take fullWords).map BitWords.countOnes).sum
  let tail := totalRows % 64
  if tail = 0 then total
  else
    match bits[fullWords]? with
    | some word => total + BitWords.countOnes (word &&& (1 <<< tail - 1))
    | none => total

namespace RowVisibility

/-- `normalized`. -/
def normalized (self : RowVisibility) (totalRows : Nat) : Except CoveError RowVisibility :=
  match self with
  | all => .ok all
  | visibleRanges ranges => do .ok (visibleRanges (← normalizeRanges ranges totalRows))
  | deletedRanges ranges => do
    let ranges ← normalizeRanges ranges totalRows
    if ranges.isEmpty then .ok all else .ok (deletedRanges ranges)
  | deletedBitmap rowCount bits => do
    .ok (deletedBitmap rowCount (← normalizedBitmapBits rowCount bits totalRows))

/-- `visible_count`. -/
def visibleCount (self : RowVisibility) (totalRows : Nat) : Except CoveError Nat :=
  match self with
  | all => .ok totalRows
  | visibleRanges ranges => do
    let covered ← coveredRowsInRange (← normalizedRanges ranges totalRows) 0 totalRows
    .ok (min totalRows covered)
  | deletedRanges ranges => do
    let deleted ← coveredRowsInRange (← normalizedRanges ranges totalRows) 0 totalRows
    checkedSub totalRows deleted
  | deletedBitmap rowCount bits => do
    let bits ← normalizedBitmapBits rowCount bits totalRows
    checkedSub totalRows (bitmapCountOnes bits totalRows)

/-! ## What an overlay means -/

/-- The overlay fits a file of so many rows. -/
def Accepts (totalRows : Nat) : RowVisibility → Prop
  | all => True
  | visibleRanges ranges | deletedRanges ranges =>
    ∀ range ∈ ranges, range.len ≠ 0 → range.stop ≤ totalRows
  | deletedBitmap rowCount bits => rowCount = totalRows ∧ (totalRows + 63) / 64 ≤ bits.length

/-- The overlay hides the row. -/
def Hides (row : Nat) : RowVisibility → Prop
  | all => False
  | visibleRanges ranges => ¬ Covered ranges row
  | deletedRanges ranges => Covered ranges row
  | deletedBitmap _ bits => BitWords.get bits row = true

instance (row : Nat) : DecidablePred (Hides row)
  | all => inferInstanceAs (Decidable False)
  | visibleRanges ranges => inferInstanceAs (Decidable (¬ Covered ranges row))
  | deletedRanges ranges => inferInstanceAs (Decidable (Covered ranges row))
  | deletedBitmap _ bits => inferInstanceAs (Decidable (BitWords.get bits row = true))

/-- The overlay counts as far as `stop`: the last word of all is not counted. -/
def CountsTo (stop : Nat) : RowVisibility → Prop
  | deletedBitmap _ _ => stop ≤ 2 ^ 64 - 64
  | _ => True

end RowVisibility

/-! ## Normalising -/

variable {a b range : RowRange} {start stop : Nat}

section Normalising

variable {ranges out : List RowRange} {totalRows : Nat}

theorem validateRanges_eq_ok (htotal : totalRows < 2 ^ 64) :
    validateRanges totalRows ranges = .ok () ↔
      ∀ range ∈ ranges, range.len ≠ 0 → range.stop ≤ totalRows := by
  induction ranges with
  | nil => exact iff_of_true rfl (by simp)
  | cons range ranges ih =>
    rw [List.forall_mem_cons, ← ih, validateRanges]
    by_cases hlen : range.len = 0
    · rw [if_pos hlen]
      exact (and_iff_right fun h => absurd hlen h).symm
    · rw [if_neg hlen, bind_eq_ok]
      constructor
      · rintro ⟨stop, hstop, h⟩
        obtain ⟨-, rfl⟩ := checkedEnd_eq_ok.mp hstop
        split at h
        · cases h
        · next hle => exact ⟨fun _ => Nat.le_of_not_lt hle, h⟩
      · rintro ⟨hle, h⟩
        refine ⟨range.stop, checkedEnd_eq_ok.mpr ⟨by have := hle hlen; omega, rfl⟩, ?_⟩
        rw [if_neg (Nat.not_lt.mpr (hle hlen))]
        exact h

theorem joinRanges_isOk (ha : a.stop < 2 ^ 64) (hb : b.stop < 2 ^ 64) :
    joinRanges a b = .ok none ∨ ∃ m, joinRanges a b = .ok (some m) ∧ m.stop < 2 ^ 64 := by
  unfold joinRanges
  rw [checkedEnd_eq_ok.mpr ⟨ha, rfl⟩, ok_bind, checkedEnd_eq_ok.mpr ⟨hb, rfl⟩, ok_bind]
  by_cases hle : b.start ≤ a.stop
  · have hstart : a.start ≤ max a.stop b.stop := by
      simp only [Span.stop]
      omega
    have hlen : checkedSub (max a.stop b.stop) a.start =
        .ok (max a.stop b.stop - a.start) := sub_eq_ok.mpr ⟨hstart, rfl⟩
    rw [if_pos hle, hlen, ok_bind]
    refine .inr ⟨_, rfl, ?_⟩
    show a.start + (max a.stop b.stop - a.start) < 2 ^ 64
    omega
  · exact .inl (if_neg hle)

/-- A merged range is what its operands cover. -/
theorem joinRanges_mem {m : RowRange} (h : joinRanges a b = .ok (some m)) :
    b.start ≤ a.stop ∧ m.start = a.start ∧ m.stop = max a.stop b.stop := by
  obtain ⟨_, ha, h⟩ := bind_eq_ok.mp h
  obtain ⟨-, rfl⟩ := checkedEnd_eq_ok.mp ha
  obtain ⟨_, hb, h⟩ := bind_eq_ok.mp h
  obtain ⟨-, rfl⟩ := checkedEnd_eq_ok.mp hb
  split at h
  · next hle =>
    obtain ⟨_, hm, h⟩ := bind_eq_ok.mp h
    obtain ⟨hstart, rfl⟩ := sub_eq_ok.mp hm
    obtain rfl := Option.some.inj (Except.ok.inj h)
    refine ⟨hle, rfl, ?_⟩
    show a.start + (max a.stop b.stop - a.start) = max a.stop b.stop
    omega
  · cases h

theorem mem_filter_len :
    range ∈ ranges.filter (fun range => range.len != 0) ↔ range ∈ ranges ∧ range.len ≠ 0 := by
  simp

/-- The merged ranges cover the rows of the sorted ones. -/
theorem mergeRuns_covered (hsorted : (range :: ranges).Pairwise fun a b => rangeLe a b)
    (h : mergeRuns joinRanges range ranges = .ok out) (row : Nat) :
    Covered out row ↔ Covered (range :: ranges) row := by
  constructor
  · intro hcov
    refine mergeRuns_sub (C := Span.Mem) ?_ h hcov
    intro a c m hm r hr
    obtain ⟨hle, hstart, hstop⟩ := joinRanges_mem hm
    unfold Span.Mem at *
    omega
  · rintro ⟨x, hx, hmem⟩
    have hstarts : (range :: ranges).Pairwise fun a b => a.start ≤ b.start := by
      refine hsorted.imp fun {a b} hab => ?_
      have : a.start < b.start ∨ (a.start = b.start ∧ a.len ≤ b.len) := of_decide_eq_true hab
      omega
    refine mergeRuns_sup (C := Span.Mem) (r := fun a b => a.start ≤ b.start)
      ?_ ?_ ?_ hstarts h hx hmem
    · intro a c m hm d hd
      obtain ⟨-, hstart, -⟩ := joinRanges_mem hm
      exact hstart ▸ hd
    · intro a c m hm r hr
      obtain ⟨-, hstart, hstop⟩ := joinRanges_mem hm
      unfold Span.Mem at *
      omega
    · intro a c m hle hm r hr
      obtain ⟨-, hstart, hstop⟩ := joinRanges_mem hm
      unfold Span.Mem at *
      omega

theorem covered_filter (ranges : List RowRange) (row : Nat) :
    Covered (ranges.filter fun range => range.len != 0) row ↔ Covered ranges row := by
  constructor
  · rintro ⟨range, hrange, hmem⟩
    exact ⟨range, (mem_filter_len.mp hrange).1, hmem⟩
  · rintro ⟨range, hrange, hmem⟩
    refine ⟨range, mem_filter_len.mpr ⟨hrange, fun hzero => ?_⟩, hmem⟩
    simp only [Span.Mem, Span.stop] at hmem
    omega

theorem covered_perm {ranges' : List RowRange} (h : ranges.Perm ranges') (row : Nat) :
    Covered ranges row ↔ Covered ranges' row :=
  exists_congr fun _ => and_congr_left fun _ => h.mem_iff

/-- The order of ranges is total. -/
theorem sorted_ranges (ranges : List RowRange) :
    (ranges.insertionSort (rangeLe · ·)).Pairwise fun a b => rangeLe a b := by
  have : IsTrans RowRange fun a b => rangeLe a b = true :=
    ⟨fun a b c hab hbc => by simp only [rangeLe, decide_eq_true_eq] at *; omega⟩
  have : Std.Total fun a b : RowRange => rangeLe a b = true :=
    ⟨fun a b => by simp only [rangeLe, decide_eq_true_eq]; omega⟩
  exact List.pairwise_insertionSort _ _

/-- **Normalising keeps the rows**: it accepts ranges within the file, and covers the same
rows with separated ranges. -/
theorem normalizeRanges_eq_ok (htotal : totalRows < 2 ^ 64) :
    (∃ out, normalizeRanges ranges totalRows = .ok out) ↔
      ∀ range ∈ ranges, range.len ≠ 0 → range.stop ≤ totalRows := by
  rw [← validateRanges_eq_ok htotal]
  constructor
  · rintro ⟨out, h⟩
    obtain ⟨_, hvalid, -⟩ := bind_eq_ok.mp h
    exact hvalid
  · intro hvalid
    unfold normalizeRanges
    rw [hvalid, ok_bind]
    have hperm := List.perm_insertionSort (rangeLe · ·)
      (ranges.filter fun range => range.len != 0)
    have hstops : ∀ range ∈ (ranges.filter fun range => range.len != 0).insertionSort
        (rangeLe · ·), range.stop < 2 ^ 64 := by
      intro range hrange
      obtain ⟨hmem, hlen⟩ := mem_filter_len.mp (hperm.mem_iff.mp hrange)
      have := (validateRanges_eq_ok htotal).mp hvalid range hmem hlen
      omega
    split
    · exact ⟨[], rfl⟩
    · next range rest hlist =>
      refine mergeRuns_isOk (p := fun range => range.stop < 2 ^ 64) ?_ (hlist ▸ hstops)
      exact fun _ _ => joinRanges_isOk

theorem covered_normalizeRanges (h : normalizeRanges ranges totalRows = .ok out) (row : Nat) :
    Covered out row ↔ Covered ranges row := by
  obtain ⟨_, -, h⟩ := bind_eq_ok.mp h
  have hperm := List.perm_insertionSort (rangeLe · ·)
    (ranges.filter fun range => range.len != 0)
  have hsorted := sorted_ranges (ranges.filter fun range => range.len != 0)
  rw [← covered_filter ranges, ← covered_perm hperm]
  split at h
  · next hnil =>
    obtain rfl := Except.ok.inj h
    rw [hnil]
  · next range rest hlist =>
    rw [hlist] at hsorted ⊢
    exact mergeRuns_covered hsorted h row

theorem stop_le_of_rangesAreNormalized {previousEnd : Option Nat}
    (h : rangesAreNormalized totalRows previousEnd ranges = .ok true) :
    ∀ range ∈ ranges, range.stop ≤ totalRows := by
  induction ranges generalizing previousEnd with
  | nil => exact fun _ hmem => absurd hmem List.not_mem_nil
  | cons range ranges ih =>
    unfold rangesAreNormalized at h
    split at h
    · cases h
    obtain ⟨stop, hstop, h⟩ := bind_eq_ok.mp h
    obtain ⟨-, rfl⟩ := checkedEnd_eq_ok.mp hstop
    split at h
    · cases h
    next hle =>
    split at h
    · cases h
    · exact List.forall_mem_cons.mpr ⟨Nat.le_of_not_lt hle, ih h⟩

theorem rangesAreNormalized_isOk (htotal : totalRows < 2 ^ 64) (previousEnd : Option Nat)
    (h : ∀ range ∈ ranges, range.len ≠ 0 → range.stop ≤ totalRows) :
    ∃ b, rangesAreNormalized totalRows previousEnd ranges = .ok b := by
  induction ranges generalizing previousEnd with
  | nil => exact ⟨true, rfl⟩
  | cons range ranges ih =>
    obtain ⟨hrange, hrest⟩ := List.forall_mem_cons.mp h
    unfold rangesAreNormalized
    by_cases hlen : range.len = 0
    · exact ⟨false, if_pos hlen⟩
    have hstop := hrange hlen
    rw [if_neg hlen, checkedEnd_eq_ok.mpr ⟨by omega, rfl⟩, ok_bind,
      if_neg (Nat.not_lt.mpr hstop)]
    split
    · exact ⟨false, rfl⟩
    · exact ih _ hrest

/-- Ranges are normalised when they lie within the file. -/
theorem normalizedRanges_isOk (htotal : totalRows < 2 ^ 64) :
    (∃ out, normalizedRanges ranges totalRows = .ok out) ↔
      ∀ range ∈ ranges, range.len ≠ 0 → range.stop ≤ totalRows := by
  constructor
  · rintro ⟨out, h⟩
    obtain ⟨b, hb, h⟩ := bind_eq_ok.mp h
    cases b with
    | true => exact fun range hrange _ => stop_le_of_rangesAreNormalized hb range hrange
    | false => exact (normalizeRanges_eq_ok htotal).mp ⟨out, h⟩
  · intro h
    obtain ⟨b, hb⟩ := rangesAreNormalized_isOk htotal none h
    unfold normalizedRanges
    rw [hb, ok_bind]
    cases b with
    | true => exact ⟨ranges, rfl⟩
    | false => exact (normalizeRanges_eq_ok htotal).mpr h

theorem covered_normalizedRanges (h : normalizedRanges ranges totalRows = .ok out)
    (row : Nat) : Covered out row ↔ Covered ranges row := by
  obtain ⟨b, -, h⟩ := bind_eq_ok.mp h
  cases b with
  | true =>
    obtain rfl := Except.ok.inj h
    exact Iff.rfl
  | false => exact covered_normalizeRanges h row

/-- Normalised ranges lie within the file. -/
theorem stop_le_of_normalizeRanges (htotal : totalRows < 2 ^ 64)
    (h : normalizeRanges ranges totalRows = .ok out) :
    ∀ range ∈ out, range.stop ≤ totalRows := by
  have hfit := (normalizeRanges_eq_ok htotal).mp ⟨out, h⟩
  obtain ⟨_, -, h⟩ := bind_eq_ok.mp h
  have hperm := List.perm_insertionSort (rangeLe · ·)
    (ranges.filter fun range => range.len != 0)
  have hstops : ∀ range ∈ (ranges.filter fun range => range.len != 0).insertionSort
      (rangeLe · ·), range.stop ≤ totalRows := by
    intro range hrange
    obtain ⟨hmem, hlen⟩ := mem_filter_len.mp (hperm.mem_iff.mp hrange)
    exact hfit range hmem hlen
  split at h
  · obtain rfl := Except.ok.inj h
    exact fun _ hmem => absurd hmem List.not_mem_nil
  · next range rest hlist =>
    refine mergeRuns_forall (r := fun _ _ => True) (fun _ _ _ _ _ _ => trivial) ?_
      (List.pairwise_of_forall fun _ _ => trivial) h (hlist ▸ hstops)
    intro a c m _ ha hc hm
    obtain ⟨-, -, hstop⟩ := joinRanges_mem hm
    omega

theorem stop_le_of_normalizedRanges (htotal : totalRows < 2 ^ 64)
    (h : normalizedRanges ranges totalRows = .ok out) :
    ∀ range ∈ out, range.stop ≤ totalRows := by
  obtain ⟨b, hb, h⟩ := bind_eq_ok.mp h
  cases b with
  | true =>
    obtain rfl := Except.ok.inj h
    exact stop_le_of_rangesAreNormalized hb
  | false => exact stop_le_of_normalizeRanges htotal h

/-- **Counting covered rows succeeds**, and counts those of the ranges given. -/
theorem coveredRowsInRange_normalized (htotal : totalRows < 2 ^ 64)
    (h : normalizedRanges ranges totalRows = .ok out) (hstop : stop < 2 ^ 64) :
    coveredRowsInRange out start stop = .ok (window ranges start stop).card := by
  have hsep := separated_of_normalizedRanges h
  have hfit := stop_le_of_normalizedRanges htotal h
  have hwindow : window out start stop = window ranges start stop :=
    Finset.filter_congr fun row _ => covered_normalizedRanges h row
  rw [← hwindow]
  have hloop : ∀ (rs : List RowRange) (covered : Nat), (∀ range ∈ rs, range.stop ≤ totalRows) →
      Separated rs → covered + (window rs start stop).card ≤ stop →
      ∃ n, coveredLoop start stop rs covered = .ok n := by
    intro rs
    induction rs with
    | nil => exact fun covered _ _ _ => ⟨covered, rfl⟩
    | cons range rs ih =>
      intro covered hrs hsep hle
      obtain ⟨hrange, hrest⟩ := List.forall_mem_cons.mp hrs
      have hsep' : Separated rs := (List.pairwise_cons.mp hsep).2
      rw [card_window_cons hsep] at hle
      unfold coveredLoop
      by_cases hpast : range.start ≥ stop
      · exact ⟨covered, if_pos hpast⟩
      rw [if_neg hpast, checkedEnd_eq_ok.mpr ⟨by omega, rfl⟩, ok_bind]
      dsimp only
      by_cases hover : min stop range.stop > max start range.start
      · have hadd : checkedAdd covered (min stop range.stop - max start range.start) =
            .ok (covered + (min stop range.stop - max start range.start)) :=
          addU64_eq_ok.mpr ⟨by omega, rfl⟩
        rw [if_pos hover, hadd, ok_bind]
        exact ih _ hrest hsep' (by omega)
      · rw [if_neg hover]
        exact ih _ hrest hsep' (by omega)
  have hsub := List.dropWhile_sublist (endsBy start) (l := out)
  have hcard : (window (out.dropWhile (endsBy start)) start stop).card ≤ stop := by
    have h := Finset.card_filter_le (Finset.Ico start stop)
      (Covered (out.dropWhile (endsBy start)))
    rw [Nat.card_Ico] at h
    exact h.trans (Nat.sub_le _ _)
  obtain ⟨n, hn⟩ := hloop (out.dropWhile (endsBy start)) 0
    (fun range hrange => hfit range (hsub.subset hrange)) (hsep.sublist hsub) (by omega)
  have hn' : coveredRowsInRange out start stop = .ok n := hn
  rw [hn', coveredRowsInRange_eq_card hsep hn']

end Normalising

/-! ## Bitmaps -/

variable {n k : Nat}

section Bitmaps

variable {rowCount totalRows : Nat} {bits out : List Nat}

theorem validateBitmapShape_eq_ok :
    validateBitmapShape rowCount bits totalRows = .ok () ↔
      rowCount = totalRows ∧ (totalRows + 63) / 64 ≤ bits.length := by
  unfold validateBitmapShape
  by_cases hrows : rowCount = totalRows
  · rw [if_neg (not_not.mpr hrows)]
    by_cases hlen : bits.length < (totalRows + 63) / 64
    · rw [if_pos hlen]
      exact iff_of_false nofun fun h => absurd h.2 (Nat.not_le.mpr hlen)
    · rw [if_neg hlen]
      exact iff_of_true rfl ⟨hrows, Nat.le_of_not_lt hlen⟩
  · rw [if_pos hrows]
    exact iff_of_false nofun fun h => hrows h.1

theorem word_take (h : k < n) : BitWords.word (bits.take n) k = BitWords.word bits k := by
  rw [BitWords.word, List.getElem?_take_of_lt h, BitWords.word]

/-- The words kept hold the same rows, and no row past the last. -/
theorem normalizedBitmapBits_eq_ok (h : normalizedBitmapBits rowCount bits totalRows = .ok out) :
    rowCount = totalRows ∧ (totalRows + 63) / 64 ≤ bits.length ∧
      out.length = (totalRows + 63) / 64 ∧
      ∀ row < totalRows, BitWords.get out row = BitWords.get bits row := by
  obtain ⟨_, hshape, h⟩ := bind_eq_ok.mp h
  obtain ⟨hrows, hlen⟩ := validateBitmapShape_eq_ok.mp hshape
  have htake : (bits.take ((totalRows + 63) / 64)).length = (totalRows + 63) / 64 := by
    rw [List.length_take]
    omega
  refine ⟨hrows, hlen, ?_⟩
  dsimp only at h
  split at h
  · obtain rfl := Except.ok.inj h
    refine ⟨htake, fun row hrow => ?_⟩
    rw [BitWords.get, word_take (by omega), BitWords.get]
  · next htail =>
    obtain rfl := Except.ok.inj h
    refine ⟨by rw [List.length_modify, htake], fun row hrow => ?_⟩
    rw [BitWords.get, BitWords.word_modify _ _ _ _ (by omega), htake, BitWords.get]
    by_cases hlast : row / 64 = (totalRows + 63) / 64 - 1
    · -- the row is in the last word, below its tail
      have hbit : row % 64 < totalRows % 64 := by omega
      rw [if_pos hlast, Nat.testBit_and, word_take (by omega), ← hlast, Nat.one_shiftLeft,
        Nat.testBit_two_pow_sub_one, decide_eq_true hbit, Bool.and_true]
    · rw [if_neg hlast, word_take (by omega)]

theorem normalizedBitmapBits_isOk (h : rowCount = totalRows ∧ (totalRows + 63) / 64 ≤ bits.length) :
    ∃ out, normalizedBitmapBits rowCount bits totalRows = .ok out := by
  unfold normalizedBitmapBits
  rw [validateBitmapShape_eq_ok.mpr h, ok_bind]
  dsimp only
  split <;> exact ⟨_, rfl⟩

/-- **The ones of the bitmap** are its rows below the total. -/
theorem bitmapCountOnes_eq_card :
    bitmapCountOnes bits totalRows = (BitWords.window bits 0 totalRows).card := by
  have hfull : 64 * (totalRows / 64) ≤ totalRows := by omega
  have hlast : totalRows ≤ 64 * (totalRows / 64) + 64 := by omega
  have hcut := BitWords.card_window_append bits (Nat.zero_le (64 * (totalRows / 64))) hfull
  have hmask := BitWords.countOnes_mask bits (le_refl (64 * (totalRows / 64))) hlast
  unfold bitmapCountOnes
  dsimp only
  rw [BitWords.sum_countOnes, hcut]
  split
  · next htail =>
    have hempty : BitWords.window bits (64 * (totalRows / 64)) totalRows = ∅ :=
      Finset.eq_empty_of_forall_notMem fun r hr => by
        have := (BitWords.mem_window.mp hr).1
        omega
    rw [hempty, Finset.card_empty, Nat.add_zero]
  · have htail : totalRows - 64 * (totalRows / 64) = totalRows % 64 := by omega
    rw [← hmask, Nat.sub_self, htail]
    cases hword : bits[totalRows / 64]? with
    | none =>
      have hzero : BitWords.word bits (totalRows / 64) = 0 := by rw [BitWords.word, hword]; rfl
      rw [hzero, Nat.zero_and]
      rfl
    | some word =>
      have hsome : BitWords.word bits (totalRows / 64) = word := by
        rw [BitWords.word, hword]
        rfl
      rw [hsome, BitWords.mask, Nat.shiftLeft_zero, Nat.one_shiftLeft]

theorem deletedInWord_isOk (hlo : start / 64 ≤ k)
    (hhi : k ≤ (stop - 1) / 64) (hlt : start < stop) (hstop : stop ≤ 2 ^ 64 - 64) :
    ∃ n, deletedInWord bits start stop k = .ok n := by
  have hmul : checkedMul k 64 = .ok (k * 64) := mulU64_eq_ok.mpr ⟨by omega, rfl⟩
  have hadd : checkedAdd (k * 64) 64 = .ok (k * 64 + 64) := addU64_eq_ok.mpr ⟨by omega, rfl⟩
  have hbit : checkedSub (max start (k * 64)) (k * 64) = .ok (max start (k * 64) - k * 64) :=
    sub_eq_ok.mpr ⟨by omega, rfl⟩
  have hlen : checkedSub (min stop (k * 64 + 64)) (max start (k * 64)) =
      .ok (min stop (k * 64 + 64) - max start (k * 64)) := sub_eq_ok.mpr ⟨by omega, rfl⟩
  unfold deletedInWord
  rw [hmul, ok_bind, hadd, ok_bind]
  dsimp only
  rw [hbit, ok_bind, hlen, ok_bind]
  exact ⟨_, rfl⟩

/-- The word of the last rows of all is not counted. -/
theorem deletedInWord_last (hk : k = 2 ^ 58 - 1) :
    deletedInWord bits start stop k = .error .arithOverflow := by
  subst hk
  rfl

/-- **The words of a range are counted**, up to the last word of all. -/
theorem bitmapCountDeletedInRange_isOk (hstop : stop < 2 ^ 64) :
    (∃ n, bitmapCountDeletedInRange bits start stop = .ok n) ↔
      start < stop → stop ≤ 2 ^ 64 - 64 := by
  unfold bitmapCountDeletedInRange
  by_cases hge : start ≥ stop
  · rw [if_pos hge]
    exact iff_of_true ⟨0, rfl⟩ fun h => absurd h (Nat.not_lt.mpr hge)
  rw [if_neg hge]
  have hlt : start < stop := Nat.lt_of_not_le hge
  rw [imp_iff_right hlt]
  dsimp only
  rw [foldlM_add_isOk]
  constructor
  · intro hall
    by_contra hpast
    -- the last word of the range is the last word of all
    obtain ⟨n, hn⟩ := hall ((stop - 1) / 64) (List.mem_range'_1.mpr ⟨by omega, by omega⟩)
    rw [deletedInWord_last (by omega)] at hn
    cases hn
  · intro hfit k hk
    have := List.mem_range'_1.mp hk
    exact deletedInWord_isOk (by omega) (by omega) hlt hfit

end Bitmaps

/-! ## The queries -/

variable {len : Nat}

section Queries

variable {v : RowVisibility} {totalRows : Nat}

theorem isRowVisible_eq_ok (htotal : totalRows < 2 ^ 64) {row : Nat} {b : Bool} :
    v.isRowVisible row totalRows = .ok b ↔
      row < totalRows ∧ v.Accepts totalRows ∧ (b = true ↔ ¬ v.Hides row) := by
  unfold RowVisibility.isRowVisible
  by_cases hrow : row ≥ totalRows
  · rw [if_pos hrow]
    exact iff_of_false nofun fun h => absurd h.1 (Nat.not_lt.mpr hrow)
  rw [if_neg hrow, and_iff_right (Nat.lt_of_not_le hrow)]
  cases v with
  | all =>
    constructor
    · intro h
      obtain rfl := Except.ok.inj h
      exact ⟨trivial, iff_of_true rfl not_false⟩
    · rintro ⟨-, hb⟩
      rw [hb.mpr not_false]
  | visibleRanges ranges =>
    dsimp only
    rw [bind_eq_ok]
    constructor
    · rintro ⟨out, hout, h⟩
      obtain rfl := Except.ok.inj h
      refine ⟨(normalizedRanges_isOk htotal).mp ⟨out, hout⟩, ?_⟩
      rw [rangeSetContains_iff (separated_of_normalizedRanges hout) (by omega),
        covered_normalizedRanges hout]
      exact not_not.symm
    · rintro ⟨hfit, hb⟩
      obtain ⟨out, hout⟩ := (normalizedRanges_isOk htotal).mpr hfit
      refine ⟨out, hout, congrArg Except.ok (Bool.eq_iff_iff.mpr ?_)⟩
      rw [hb, rangeSetContains_iff (separated_of_normalizedRanges hout) (by omega),
        covered_normalizedRanges hout]
      exact not_not.symm
  | deletedRanges ranges =>
    dsimp only
    rw [bind_eq_ok]
    constructor
    · rintro ⟨out, hout, h⟩
      obtain rfl := Except.ok.inj h
      refine ⟨(normalizedRanges_isOk htotal).mp ⟨out, hout⟩, ?_⟩
      rw [Bool.not_eq_true', ← Bool.not_eq_true,
        rangeSetContains_iff (separated_of_normalizedRanges hout) (by omega),
        covered_normalizedRanges hout]
      exact Iff.rfl
    · rintro ⟨hfit, hb⟩
      obtain ⟨out, hout⟩ := (normalizedRanges_isOk htotal).mpr hfit
      refine ⟨out, hout, congrArg Except.ok (Bool.eq_iff_iff.mpr ?_)⟩
      rw [hb, Bool.not_eq_true', ← Bool.not_eq_true,
        rangeSetContains_iff (separated_of_normalizedRanges hout) (by omega),
        covered_normalizedRanges hout]
      exact Iff.rfl
  | deletedBitmap rowCount bits =>
    dsimp only
    rw [bind_eq_ok]
    constructor
    · rintro ⟨u, hshape, h⟩
      obtain rfl := Except.ok.inj h
      refine ⟨validateBitmapShape_eq_ok.mp hshape, ?_⟩
      rw [Bool.not_eq_true', ← Bool.not_eq_true]
      exact Iff.rfl
    · rintro ⟨hshape, hb⟩
      refine ⟨(), validateBitmapShape_eq_ok.mpr hshape, congrArg Except.ok (Bool.eq_iff_iff.mpr ?_)⟩
      rw [hb, Bool.not_eq_true', ← Bool.not_eq_true]
      exact Iff.rfl

/-- The hidden rows of a window. -/
def RowVisibility.hiddenRows (v : RowVisibility) (lo hi : Nat) : Finset Nat :=
  (Finset.Ico lo hi).filter v.Hides

/-- The hidden and the other rows of a window. -/
theorem card_hiddenRows_add (v : RowVisibility) (lo hi : Nat) :
    (v.hiddenRows lo hi).card + ((Finset.Ico lo hi).filter fun row => ¬ v.Hides row).card =
      hi - lo := by
  rw [RowVisibility.hiddenRows, Finset.card_filter_add_card_filter_not, Nat.card_Ico]

theorem card_hiddenRows_le (v : RowVisibility) (lo len : Nat) :
    (v.hiddenRows lo (lo + len)).card ≤ len := by
  have := card_hiddenRows_add v lo (lo + len)
  omega

/-- **The hidden rows of a range are counted.** -/
theorem hiddenCount_eq_ok (htotal : totalRows < 2 ^ 64) (hstop : start + len ≤ totalRows) :
    v.hiddenCount start len totalRows = .ok n ↔
      v.Accepts totalRows ∧ (0 < len → v.CountsTo (start + len)) ∧
        n = (v.hiddenRows start (start + len)).card := by
  cases v with
  | all =>
    have hempty : RowVisibility.all.hiddenRows start (start + len) = ∅ :=
      Finset.filter_false_of_mem fun _ _ => not_false
    rw [hempty, Finset.card_empty]
    exact ⟨fun h => ⟨trivial, fun _ => trivial, (Except.ok.inj h).symm⟩, fun h => by rw [h.2.2]; rfl⟩
  | visibleRanges ranges =>
    have hadd := card_hiddenRows_add (.visibleRanges ranges) start (start + len)
    have hvisible : ((Finset.Ico start (start + len)).filter fun row =>
        ¬ (RowVisibility.visibleRanges ranges).Hides row) = window ranges start (start + len) :=
      Finset.filter_congr fun row _ => not_not
    rw [hvisible] at hadd
    unfold RowVisibility.hiddenCount
    dsimp only
    constructor
    · intro h
      obtain ⟨out, hout, h⟩ := bind_eq_ok.mp h
      obtain ⟨c, hc, h⟩ := bind_eq_ok.mp h
      obtain ⟨-, rfl⟩ := sub_eq_ok.mp h
      rw [coveredRowsInRange_normalized htotal hout (by omega)] at hc
      obtain rfl := Except.ok.inj hc
      exact ⟨(normalizedRanges_isOk htotal).mp ⟨out, hout⟩, fun _ => trivial, by omega⟩
    · rintro ⟨hfit, -, rfl⟩
      obtain ⟨out, hout⟩ := (normalizedRanges_isOk htotal).mpr hfit
      refine bind_eq_ok.mpr ⟨out, hout, bind_eq_ok.mpr
        ⟨_, coveredRowsInRange_normalized htotal hout (by omega), ?_⟩⟩
      exact sub_eq_ok.mpr ⟨by omega, by omega⟩
  | deletedRanges ranges =>
    have hhidden : (RowVisibility.deletedRanges ranges).hiddenRows start (start + len) =
        window ranges start (start + len) := rfl
    rw [hhidden]
    unfold RowVisibility.hiddenCount
    dsimp only
    constructor
    · intro h
      obtain ⟨out, hout, h⟩ := bind_eq_ok.mp h
      rw [coveredRowsInRange_normalized htotal hout (by omega)] at h
      exact ⟨(normalizedRanges_isOk htotal).mp ⟨out, hout⟩, fun _ => trivial,
        (Except.ok.inj h).symm⟩
    · rintro ⟨hfit, -, rfl⟩
      obtain ⟨out, hout⟩ := (normalizedRanges_isOk htotal).mpr hfit
      exact bind_eq_ok.mpr ⟨out, hout, coveredRowsInRange_normalized htotal hout (by omega)⟩
  | deletedBitmap rowCount bits =>
    have hhidden : (RowVisibility.deletedBitmap rowCount bits).hiddenRows start (start + len) =
        BitWords.window bits start (start + len) := rfl
    have hcounts : (∃ n, bitmapCountDeletedInRange bits start (start + len) = .ok n) ↔
        (0 < len → start + len ≤ 2 ^ 64 - 64) := by
      rw [bitmapCountDeletedInRange_isOk (by omega)]
      exact ⟨fun h hlen => h (by omega), fun h hlt => h (by omega)⟩
    rw [hhidden]
    unfold RowVisibility.hiddenCount
    dsimp only
    constructor
    · intro h
      obtain ⟨u, hshape, h⟩ := bind_eq_ok.mp h
      exact ⟨validateBitmapShape_eq_ok.mp hshape, hcounts.mp ⟨n, h⟩,
        bitmapCountDeletedInRange_eq_card h⟩
    · rintro ⟨hshape, hlen, rfl⟩
      obtain ⟨n, hn⟩ := hcounts.mpr hlen
      refine bind_eq_ok.mpr ⟨(), validateBitmapShape_eq_ok.mpr hshape, ?_⟩
      rw [hn, bitmapCountDeletedInRange_eq_card hn]

theorem hiddenRowsInRange_eq_ok (htotal : totalRows < 2 ^ 64) (hlen : len < 2 ^ 32) :
    v.hiddenRowsInRange start len totalRows = .ok n ↔
      start + len ≤ totalRows ∧ v.Accepts totalRows ∧ (0 < len → v.CountsTo (start + len)) ∧
        n = (v.hiddenRows start (start + len)).card := by
  constructor
  · intro h
    obtain ⟨_, hstop, h⟩ := bind_eq_ok.mp h
    obtain ⟨-, rfl⟩ := addU64_eq_ok.mp hstop
    split at h
    · cases h
    next hle =>
    obtain ⟨hidden, hcount, h⟩ := bind_eq_ok.mp h
    split at h
    · obtain rfl := Except.ok.inj h
      exact ⟨Nat.le_of_not_lt hle, (hiddenCount_eq_ok htotal (Nat.le_of_not_lt hle)).mp hcount⟩
    · cases h
  · rintro ⟨hle, h⟩
    have hcount := (hiddenCount_eq_ok htotal hle).mpr h
    have hsmall := card_hiddenRows_le v start len
    have hadd : checkedAdd start len = .ok (start + len) := addU64_eq_ok.mpr ⟨by omega, rfl⟩
    unfold RowVisibility.hiddenRowsInRange
    rw [hadd, ok_bind, if_neg (Nat.not_lt.mpr hle), hcount, ok_bind, if_pos (by omega)]

/-- **The visible rows of the file are counted.** -/
theorem visibleCount_eq_ok (htotal : totalRows < 2 ^ 64) :
    v.visibleCount totalRows = .ok n ↔
      v.Accepts totalRows ∧ n + (v.hiddenRows 0 totalRows).card = totalRows := by
  have hadd := card_hiddenRows_add v 0 totalRows
  unfold RowVisibility.visibleCount
  cases v with
  | all =>
    have hempty : RowVisibility.all.hiddenRows 0 totalRows = ∅ :=
      Finset.filter_false_of_mem fun _ _ => not_false
    rw [hempty, Finset.card_empty]
    exact ⟨fun h => ⟨trivial, (Except.ok.inj h).symm⟩, fun h => by rw [← h.2]; rfl⟩
  | visibleRanges ranges =>
    have hvisible : ((Finset.Ico 0 totalRows).filter fun row =>
        ¬ (RowVisibility.visibleRanges ranges).Hides row) = window ranges 0 totalRows :=
      Finset.filter_congr fun row _ => not_not
    rw [hvisible] at hadd
    constructor
    · intro h
      obtain ⟨out, hout, h⟩ := bind_eq_ok.mp h
      obtain ⟨c, hc, h⟩ := bind_eq_ok.mp h
      rw [coveredRowsInRange_normalized htotal hout htotal] at hc
      obtain rfl := Except.ok.inj hc
      obtain rfl := Except.ok.inj h
      exact ⟨(normalizedRanges_isOk htotal).mp ⟨out, hout⟩, by omega⟩
    · rintro ⟨hfit, hn⟩
      obtain ⟨out, hout⟩ := (normalizedRanges_isOk htotal).mpr hfit
      refine bind_eq_ok.mpr ⟨out, hout, bind_eq_ok.mpr
        ⟨_, coveredRowsInRange_normalized htotal hout htotal, congrArg Except.ok ?_⟩⟩
      omega
  | deletedRanges ranges =>
    have hhidden : (RowVisibility.deletedRanges ranges).hiddenRows 0 totalRows =
        window ranges 0 totalRows := rfl
    rw [hhidden] at hadd ⊢
    constructor
    · intro h
      obtain ⟨out, hout, h⟩ := bind_eq_ok.mp h
      obtain ⟨c, hc, h⟩ := bind_eq_ok.mp h
      rw [coveredRowsInRange_normalized htotal hout htotal] at hc
      obtain rfl := Except.ok.inj hc
      obtain ⟨-, rfl⟩ := sub_eq_ok.mp h
      exact ⟨(normalizedRanges_isOk htotal).mp ⟨out, hout⟩, by omega⟩
    · rintro ⟨hfit, hn⟩
      obtain ⟨out, hout⟩ := (normalizedRanges_isOk htotal).mpr hfit
      refine bind_eq_ok.mpr ⟨out, hout, bind_eq_ok.mpr
        ⟨_, coveredRowsInRange_normalized htotal hout htotal, ?_⟩⟩
      exact sub_eq_ok.mpr ⟨by omega, by omega⟩
  | deletedBitmap rowCount bits =>
    have hhidden : (RowVisibility.deletedBitmap rowCount bits).hiddenRows 0 totalRows =
        BitWords.window bits 0 totalRows := rfl
    -- the words kept hold the rows the bitmap holds
    have hkept : ∀ out, normalizedBitmapBits rowCount bits totalRows = .ok out →
        bitmapCountOnes out totalRows = (BitWords.window bits 0 totalRows).card := by
      intro out hout
      obtain ⟨-, -, -, hget⟩ := normalizedBitmapBits_eq_ok hout
      rw [bitmapCountOnes_eq_card]
      refine congrArg Finset.card (Finset.filter_congr fun row hrow => ?_)
      rw [hget row (Finset.mem_Ico.mp hrow).2]
    rw [hhidden] at hadd ⊢
    constructor
    · intro h
      obtain ⟨out, hout, h⟩ := bind_eq_ok.mp h
      obtain ⟨-, rfl⟩ := sub_eq_ok.mp h
      obtain ⟨hrows, hlen, -⟩ := normalizedBitmapBits_eq_ok hout
      rw [hkept out hout]
      exact ⟨⟨hrows, hlen⟩, by omega⟩
    · rintro ⟨hshape, hn⟩
      obtain ⟨out, hout⟩ := normalizedBitmapBits_isOk hshape
      refine bind_eq_ok.mpr ⟨out, hout, ?_⟩
      rw [hkept out hout]
      exact sub_eq_ok.mpr ⟨by omega, by omega⟩

/-- **Normalising hides the same rows.** -/
theorem normalized_eq_ok (htotal : totalRows < 2 ^ 64) {w : RowVisibility}
    (h : v.normalized totalRows = .ok w) :
    v.Accepts totalRows ∧ w.Accepts totalRows ∧ ∀ row < totalRows, w.Hides row ↔ v.Hides row := by
  unfold RowVisibility.normalized at h
  cases v with
  | all =>
    obtain rfl := Except.ok.inj h
    exact ⟨trivial, trivial, fun _ _ => Iff.rfl⟩
  | visibleRanges ranges =>
    obtain ⟨out, hout, h⟩ := bind_eq_ok.mp h
    obtain rfl := Except.ok.inj h
    refine ⟨(normalizeRanges_eq_ok htotal).mp ⟨out, hout⟩,
      fun range hrange _ => stop_le_of_normalizeRanges htotal hout range hrange, ?_⟩
    exact fun row _ => not_congr (covered_normalizeRanges hout row)
  | deletedRanges ranges =>
    obtain ⟨out, hout, h⟩ := bind_eq_ok.mp h
    have hfit := (normalizeRanges_eq_ok htotal).mp ⟨out, hout⟩
    have hcovered := covered_normalizeRanges hout
    split at h
    · next hempty =>
      obtain rfl := Except.ok.inj h
      obtain rfl := List.isEmpty_iff.mp hempty
      refine ⟨hfit, trivial, fun row _ => iff_of_false not_false fun hhidden => ?_⟩
      exact not_covered_nil row ((hcovered row).mpr hhidden)
    · obtain rfl := Except.ok.inj h
      exact ⟨hfit, fun range hrange _ => stop_le_of_normalizeRanges htotal hout range hrange,
        fun row _ => hcovered row⟩
  | deletedBitmap rowCount bits =>
    obtain ⟨out, hout, h⟩ := bind_eq_ok.mp h
    obtain rfl := Except.ok.inj h
    obtain ⟨hrows, hlen, hlength, hget⟩ := normalizedBitmapBits_eq_ok hout
    refine ⟨⟨hrows, hlen⟩, ⟨hrows, hlength.ge⟩, fun row hrow => ?_⟩
    show BitWords.get out row = true ↔ BitWords.get bits row = true
    rw [hget row hrow]

theorem normalized_isOk (htotal : totalRows < 2 ^ 64) (h : v.Accepts totalRows) :
    ∃ w, v.normalized totalRows = .ok w := by
  cases v with
  | all => exact ⟨.all, rfl⟩
  | visibleRanges ranges =>
    obtain ⟨out, hout⟩ := (normalizeRanges_eq_ok htotal).mpr h
    exact ⟨_, bind_eq_ok.mpr ⟨out, hout, rfl⟩⟩
  | deletedRanges ranges =>
    obtain ⟨out, hout⟩ := (normalizeRanges_eq_ok htotal).mpr h
    by_cases hempty : out.isEmpty = true
    · exact ⟨.all, bind_eq_ok.mpr ⟨out, hout, if_pos hempty⟩⟩
    · exact ⟨.deletedRanges out, bind_eq_ok.mpr ⟨out, hout, if_neg hempty⟩⟩
  | deletedBitmap rowCount bits =>
    obtain ⟨out, hout⟩ := normalizedBitmapBits_isOk h
    exact ⟨_, bind_eq_ok.mpr ⟨out, hout, rfl⟩⟩

end Queries

/-! ## The statement -/

/-- The rows of a range the overlay answers `b` for. -/
def RowVisibility.answered (v : RowVisibility) (totalRows start len : Nat) (b : Bool) :
    Finset Nat :=
  (Finset.Ico start (start + len)).filter fun row => v.isRowVisible row totalRows = .ok b

/-- The counts of an overlay are those of the rows it is asked one by one. -/
structure RowVisibility.CountsAgree (v : RowVisibility) (totalRows : Nat) : Prop where
  /-- An overlay that cannot be normalised answers no query. -/
  refused : (∀ w, v.normalized totalRows ≠ .ok w) →
    (∀ row b, v.isRowVisible row totalRows ≠ .ok b) ∧
      (∀ start len n, len < 2 ^ 32 → v.hiddenRowsInRange start len totalRows ≠ .ok n) ∧
      ∀ n, v.visibleCount totalRows ≠ .ok n
  normalized : ∀ w, v.normalized totalRows = .ok w → ∀ row < totalRows,
    ∃ b, v.isRowVisible row totalRows = .ok b ∧ w.isRowVisible row totalRows = .ok b
  hidden : ∀ w, v.normalized totalRows = .ok w → ∀ start len, len < 2 ^ 32 →
    start + len ≤ totalRows → (0 < len → v.CountsTo (start + len)) →
    v.hiddenRowsInRange start len totalRows =
        .ok (v.answered totalRows start len false).card ∧
      (v.answered totalRows start len false).card +
        (v.answered totalRows start len true).card = len
  visible : ∀ w, v.normalized totalRows = .ok w →
    v.visibleCount totalRows = .ok (v.answered totalRows 0 totalRows true).card
  allHidden : ∀ start len b, len < 2 ^ 32 → v.morselAllHidden start len totalRows = .ok b →
    (b = true ↔ ∀ row, start ≤ row → row < start + len →
      v.isRowVisible row totalRows ≠ .ok true)

section Statement

variable {v : RowVisibility} {totalRows : Nat}

theorem answered_false (htotal : totalRows < 2 ^ 64) (haccepts : v.Accepts totalRows)
    (hle : start + len ≤ totalRows) :
    v.answered totalRows start len false = v.hiddenRows start (start + len) := by
  refine Finset.filter_congr fun row hrow => ?_
  have hlt := (Finset.mem_Ico.mp hrow).2
  rw [isRowVisible_eq_ok htotal, and_iff_right (by omega), and_iff_right haccepts]
  exact ⟨fun h => by_contra fun hvisible => Bool.false_ne_true (h.mpr hvisible),
    fun h => iff_of_false Bool.false_ne_true (not_not.mpr h)⟩

theorem answered_true (htotal : totalRows < 2 ^ 64) (haccepts : v.Accepts totalRows)
    (hle : start + len ≤ totalRows) :
    v.answered totalRows start len true =
      (Finset.Ico start (start + len)).filter fun row => ¬ v.Hides row := by
  refine Finset.filter_congr fun row hrow => ?_
  have hlt := (Finset.mem_Ico.mp hrow).2
  rw [isRowVisible_eq_ok htotal, and_iff_right (by omega), and_iff_right haccepts]
  exact ⟨fun h => h.mp rfl, iff_of_true rfl⟩

end Statement

end Cove
