import Cove.Core.Array
import Cove.Lib.BitWords

/-!
# Row selections of the Arrow export

The rows of a page that are exported: all, a list of row numbers in any order and with any
repetition, or a bit set.

- `ArrowRowSelection.selectedLen`, `forEachRow`, `lastSelectedBitsetRow`: what the export asks.
- `ArrowRowSelection.Selects`: a selection of rows of the page, and the rows in their order.
- `forEachRow_eq`, `selectedLen_eq`: **the loop visits these rows, and their number is the length**.
- `lastSelectedBitsetRow_spec`: the last row of a bit set.
-/

namespace Cove

namespace Arrow

/-- `ArrowRowSelection`. -/
inductive ArrowRowSelection where
  | all
  | rows (picks : List Nat)
  | bitset (words : List (BitVec 64)) (len : Nat)
  deriving DecidableEq, Repr

/-- `mask_selection_tail`. -/
def maskSelectionTail (word len : Nat) : Nat :=
  if len % 64 = 0 then word else word &&& (1 <<< (len % 64) - 1)

/-- `len.div_ceil(64)`. -/
def wordLen (len : Nat) : Nat := (len + 63) / 64

/-- A word of the bit set, the last one without the bits past the length. -/
def bitsetWord (words : List (BitVec 64)) (len index : Nat) : Nat :=
  let rawWord := BitWords.word (words.map BitVec.toNat) index
  if index + 1 = wordLen len then maskSelectionTail rawWord len else rawWord

/-- The set bits of a word, by `trailing_zeros` from the lowest on. -/
def bitsOfWord (word : Nat) : List Nat := (List.range 64).filter word.testBit

/-- The rows that the loops over the words visit. -/
def bitsetRows (words : List (BitVec 64)) (len : Nat) : List Nat :=
  (List.range (wordLen len)).flatMap fun index =>
    (bitsOfWord (bitsetWord words len index)).map (index * 64 + ·)

/-- `count_bitset_rows`. -/
def countBitsetRows (words : List (BitVec 64)) (len : Nat) : Except CoveError Nat :=
  if words.length < wordLen len then .error .bufferTooShort
  else .ok ((List.range (wordLen len)).map fun index =>
    BitWords.countOnes (bitsetWord words len index)).sum

/-- `bitset_row_selected`. -/
def bitsetRowSelected (words : List (BitVec 64)) (row : Nat) : Bool :=
  BitWords.get (words.map BitVec.toNat) row

/-- The loop of `last_selected_bitset_row`, from the words below `index` downwards. The highest set
bit of a word is `63 - leading_zeros`. -/
def lastSelectedBelow (words : List (BitVec 64)) (len : Nat) : Nat → Option Nat
  | 0 => none
  | index + 1 =>
    let word := bitsetWord words len index
    if word ≠ 0 then some (index * 64 + word.log2) else lastSelectedBelow words len index

/-- `last_selected_bitset_row`. -/
def lastSelectedBitsetRow (words : List (BitVec 64)) (len : Nat) : Option Nat :=
  lastSelectedBelow words len (wordLen len)

namespace ArrowRowSelection

/-- `validate_for_row_count`, for a bit set. -/
def validateBitset (words : List (BitVec 64)) (len rowCount : Nat) : Except CoveError Unit :=
  if len ≠ rowCount then .error .offsetRange
  else if words.length < wordLen len then .error .bufferTooShort
  else .ok ()

/-- `selected_len`. -/
def selectedLen (self : ArrowRowSelection) (rowCount : Nat) : Except CoveError Nat :=
  match self with
  | .all => .ok rowCount
  | .rows picks => .ok picks.length
  | .bitset words len => do
    validateBitset words len rowCount
    countBitsetRows words len

/-- `for_each_row`, the visit being a step on what the closure captures. -/
def forEachRow {σ : Type} (self : ArrowRowSelection) (rowCount : Nat)
    (visit : σ → Nat → Except Fault σ) (state : σ) : Except Fault σ :=
  match self with
  | .all => (List.range rowCount).foldlM visit state
  | .rows picks =>
    picks.foldlM (fun state row =>
      if row ≥ rowCount then .error (.error .offsetRange) else visit state row) state
  | .bitset words len => do
    Fault.lift (validateBitset words len rowCount)
    (bitsetRows words len).foldlM visit state

/-- The selection picks rows of a page with so many rows: these, in this order. A list of rows is
a slice, so that its length fits `isize`. -/
def Selects (rowCount : Nat) : ArrowRowSelection → List Nat → Prop
  | .all, picked => picked = List.range rowCount
  | .rows picks, picked => picked = picks ∧ picks.length < 2 ^ 63 ∧ ∀ row ∈ picks, row < rowCount
  | .bitset words len, picked => len = rowCount ∧ wordLen len ≤ words.length ∧
      picked = (List.range len).filter (bitsetRowSelected words)

end ArrowRowSelection

/-! ## Bit sets -/

section Bitset

variable {words : List (BitVec 64)} {len index row : Nat}

theorem word_lt (words : List (BitVec 64)) (index : Nat) :
    BitWords.word (words.map BitVec.toNat) index < 2 ^ 64 := by
  unfold BitWords.word
  rw [List.getElem?_map]
  cases words[index]? with
  | none => decide
  | some word => exact word.isLt

theorem bitsetWord_lt (words : List (BitVec 64)) (len index : Nat) :
    bitsetWord words len index < 2 ^ 64 := by
  have hword := word_lt words index
  unfold bitsetWord maskSelectionTail
  dsimp only
  split
  · split
    · exact hword
    · exact Nat.lt_of_le_of_lt Nat.and_le_left hword
  · exact hword

/-- The bits of a word are the rows of its part of the set, below the length. -/
theorem testBit_bitsetWord {i : Nat} (hi : i < 64) (hindex : index < wordLen len) :
    (bitsetWord words len index).testBit i =
      (decide (index * 64 + i < len) && bitsetRowSelected words (index * 64 + i)) := by
  have hraw : bitsetRowSelected words (index * 64 + i) =
      (BitWords.word (words.map BitVec.toNat) index).testBit i := by
    have hdiv : (index * 64 + i) / 64 = index := by omega
    have hmod : (index * 64 + i) % 64 = i := by omega
    unfold bitsetRowSelected BitWords.get
    rw [hdiv, hmod]
  unfold wordLen at hindex
  unfold bitsetWord maskSelectionTail wordLen
  rw [hraw]
  dsimp only
  split
  · split
    · rw [decide_eq_true (by omega), Bool.true_and]
    · -- the last word, cut off at the length
      rw [Nat.testBit_and, Nat.one_shiftLeft, Nat.testBit_two_pow_sub_one, Bool.and_comm]
      congr 1
      rw [decide_eq_decide]
      omega
  · rw [decide_eq_true (by omega), Bool.true_and]

theorem range_mul (count : Nat) : List.range (count * 64) =
    (List.range count).flatMap fun index => (List.range 64).map (index * 64 + ·) := by
  induction count with
  | zero => rfl
  | succ count ih =>
    rw [Nat.succ_mul, List.range_add, ih, List.range_succ (n := count), List.flatMap_append,
      List.flatMap_singleton]

/-- **The rows of a bit set**, ascending. -/
theorem bitsetRows_eq (words : List (BitVec 64)) (len : Nat) :
    bitsetRows words len = (List.range len).filter (bitsetRowSelected words) := by
  have hwords : bitsetRows words len = (List.range (wordLen len * 64)).filter
      fun row => decide (row < len) && bitsetRowSelected words row := by
    rw [range_mul, List.filter_flatMap]
    unfold bitsetRows bitsOfWord
    refine List.flatMap_congr fun index hindex => ?_
    rw [List.filter_map]
    congr 1
    exact List.filter_congr fun i hi =>
      testBit_bitsetWord (List.mem_range.mp hi) (List.mem_range.mp hindex)
  obtain ⟨rest, hrest⟩ : ∃ rest, wordLen len * 64 = len + rest :=
    Nat.exists_eq_add_of_le (by unfold wordLen; omega)
  have htail : ((List.range rest).map (len + ·)).filter
      (fun row => decide (row < len) && bitsetRowSelected words row) = [] := by
    refine List.filter_eq_nil_iff.mpr fun row hrow => ?_
    obtain ⟨k, -, rfl⟩ := List.mem_map.mp hrow
    simp
  rw [hwords, hrest, List.range_add, List.filter_append, htail, List.append_nil]
  refine List.filter_congr fun row hrow => ?_
  rw [decide_eq_true (List.mem_range.mp hrow), Bool.true_and]

theorem countBitsetRows_eq (h : wordLen len ≤ words.length) :
    countBitsetRows words len = .ok (bitsetRows words len).length := by
  unfold countBitsetRows bitsetRows
  rw [if_neg (Nat.not_lt.mpr h), List.length_flatMap]
  congr 2
  refine List.map_congr_left fun index _ => ?_
  rw [List.length_map, bitsOfWord, BitWords.countOnes, List.countP_eq_length_filter]

/-- The row is below the length and in the set. -/
def InBitset (words : List (BitVec 64)) (len row : Nat) : Prop :=
  row < len ∧ bitsetRowSelected words row = true

theorem mem_bitsetRows : row ∈ bitsetRows words len ↔ InBitset words len row := by
  rw [bitsetRows_eq, List.mem_filter, List.mem_range, InBitset]

theorem testBit_bitsetWord_iff {i : Nat} (hi : i < 64) (hindex : index < wordLen len) :
    (bitsetWord words len index).testBit i = true ↔ InBitset words len (index * 64 + i) := by
  rw [testBit_bitsetWord hi hindex, Bool.and_eq_true, decide_eq_true_eq, InBitset]

/-- The last row below a word, going down from it. -/
theorem lastSelectedBelow_spec (words : List (BitVec 64)) (hindex : index ≤ wordLen len) :
    (lastSelectedBelow words len index = none → ∀ row < index * 64, ¬ InBitset words len row) ∧
    ∀ last, lastSelectedBelow words len index = some last → InBitset words len last ∧
      ∀ row < index * 64, InBitset words len row → row ≤ last := by
  induction index with
  | zero => exact ⟨fun _ row hrow => by omega, nofun⟩
  | succ index ih =>
    unfold lastSelectedBelow
    by_cases hword : bitsetWord words len index = 0
    · -- an empty word is passed over
      have hempty : ∀ row < (index + 1) * 64, ¬ row < index * 64 → ¬ InBitset words len row := by
        intro row hrow hge hin
        obtain ⟨i, rfl⟩ := Nat.exists_eq_add_of_le (Nat.not_lt.mp hge)
        have hbit := (testBit_bitsetWord_iff (by omega) hindex).mpr hin
        rw [hword, Nat.zero_testBit] at hbit
        cases hbit
      obtain ⟨hnone, hsome⟩ := ih (by omega)
      rw [if_neg (not_not.mpr hword)]
      refine ⟨fun h row hrow hin => ?_, fun last h => ⟨(hsome last h).1, fun row hrow hin => ?_⟩⟩
      · by_cases hlt : row < index * 64
        · exact hnone h row hlt hin
        · exact hempty row hrow hlt hin
      · by_cases hlt : row < index * 64
        · exact (hsome last h).2 row hlt hin
        · exact absurd hin (hempty row hrow hlt)
    · have hlog : (bitsetWord words len index).log2 < 64 :=
        (Nat.log2_lt hword).mpr (bitsetWord_lt words len index)
      rw [if_pos hword]
      refine ⟨nofun, fun last h => ?_⟩
      obtain rfl := Option.some.inj h
      refine ⟨(testBit_bitsetWord_iff hlog hindex).mp (Nat.testBit_log2 hword),
        fun row hrow hin => ?_⟩
      by_cases hlt : row < index * 64
      · omega
      -- a row of the word itself: its bit is not above the highest
      obtain ⟨i, rfl⟩ := Nat.exists_eq_add_of_le (Nat.not_lt.mp hlt)
      have hbit := (testBit_bitsetWord_iff (by omega) hindex).mpr hin
      by_contra hgt
      have habove : (bitsetWord words len index).testBit i = false :=
        Nat.testBit_lt_two_pow (Nat.lt_of_lt_of_le Nat.lt_log2_self
          (Nat.pow_le_pow_right (by decide) (by omega)))
      rw [habove] at hbit
      cases hbit

/-- **The last row of a bit set**: none is behind it. -/
theorem lastSelectedBitsetRow_spec (words : List (BitVec 64)) (len : Nat) :
    (lastSelectedBitsetRow words len = none → bitsetRows words len = []) ∧
    ∀ last, lastSelectedBitsetRow words len = some last → last ∈ bitsetRows words len ∧
      ∀ row ∈ bitsetRows words len, row ≤ last := by
  obtain ⟨hnone, hsome⟩ := lastSelectedBelow_spec words (Nat.le_refl (wordLen len))
  have hbelow : ∀ row, InBitset words len row → row < wordLen len * 64 := by
    intro row hin
    have := hin.1
    unfold wordLen
    omega
  refine ⟨fun h => List.eq_nil_iff_forall_not_mem.mpr fun row hrow => ?_, fun last h => ?_⟩
  · have hin := mem_bitsetRows.mp hrow
    exact hnone h row (hbelow row hin) hin
  · obtain ⟨hlast, hmax⟩ := hsome last h
    refine ⟨mem_bitsetRows.mpr hlast, fun row hrow => ?_⟩
    have hin := mem_bitsetRows.mp hrow
    exact hmax row (hbelow row hin) hin

end Bitset

/-! ## The rows of a selection -/

namespace ArrowRowSelection

variable {selection : ArrowRowSelection} {rowCount : Nat} {picked : List Nat}

theorem validateBitset_eq {words : List (BitVec 64)} {len : Nat} (hlen : len = rowCount)
    (hwords : wordLen len ≤ words.length) : validateBitset words len rowCount = .ok () := by
  unfold validateBitset
  rw [if_neg (not_not.mpr hlen), if_neg (Nat.not_lt.mpr hwords)]

/-- **The loop visits the rows of the selection.** -/
theorem forEachRow_eq {σ : Type} (h : selection.Selects rowCount picked)
    (visit : σ → Nat → Except Fault σ) (state : σ) :
    selection.forEachRow rowCount visit state = picked.foldlM visit state := by
  cases selection with
  | all => rw [h]; rfl
  | rows picks =>
    obtain ⟨rfl, -, hrows⟩ := h
    unfold forEachRow
    dsimp only
    induction picked generalizing state with
    | nil => rfl
    | cons row picked ih =>
      obtain ⟨hrow, hrows⟩ := List.forall_mem_cons.mp hrows
      rw [List.foldlM_cons, List.foldlM_cons, if_neg (Nat.not_le.mpr hrow)]
      exact bind_congr fun state => ih state hrows
  | bitset words len =>
    obtain ⟨hlen, hwords, rfl⟩ := h
    unfold forEachRow
    dsimp only
    rw [validateBitset_eq hlen hwords, bitsetRows_eq]
    rfl

/-- **The length of a selection is the number of its rows.** -/
theorem selectedLen_eq (h : selection.Selects rowCount picked) :
    selection.selectedLen rowCount = .ok picked.length := by
  cases selection with
  | all => rw [h, List.length_range]; rfl
  | rows picks => rw [h.1]; rfl
  | bitset words len =>
    obtain ⟨hlen, hwords, rfl⟩ := h
    unfold selectedLen
    dsimp only
    rw [validateBitset_eq hlen hwords, ← bitsetRows_eq]
    exact countBitsetRows_eq hwords

theorem Selects.lt (h : selection.Selects rowCount picked) : ∀ row ∈ picked, row < rowCount := by
  cases selection with
  | all => rw [h]; exact fun row hrow => List.mem_range.mp hrow
  | rows picks => exact h.1 ▸ h.2.2
  | bitset words len =>
    obtain ⟨rfl, -, rfl⟩ := h
    exact fun row hrow => List.mem_range.mp (List.mem_filter.mp hrow).1

end ArrowRowSelection

end Arrow

end Cove
