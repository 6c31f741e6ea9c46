import Cove.Core.Array
import Cove.Lib.BitWords
import Cove.Lib.ByteBits
import Cove.Lib.ByteCopy

/-!
# The null count of a bitmap

The set bits are counted a word of eight bytes at a time. The bytes behind the last whole word are
counted under a mask of the rows, a whole last word is not.

- `ValidityBitmap.nullCount`: the count.
- `countOnes_window`: **the bits that a word loaded from the bytes counts**.
- `countedRows`: how far the count looks; `nullCount_eq`: **the count is the number of set bits
  below it**.
- `nullCount_counts_iff`: when these are the null rows.
-/

namespace Cove

open Checked ByteCopy LittleEndian

/-- The number of set bits of a stretch of at most eight bytes, as one word. -/
def countWord (bytes : List UInt8) : Nat := BitWords.countOnes (ofLe bytes)

/-- `ValidityBitmap::null_count`. -/
def ValidityBitmap.nullCount (self : ValidityBitmap) : Except CoveError Nat := do
  let padded ← checkedAdd self.rowCount 7
  let neededBytes := padded / 8
  if self.bytes.length < neededBytes then .error .bufferTooShort
  else
    let fullWords := neededBytes / 8
    let count := ((List.range fullWords).map fun k => countWord (readAt self.bytes (8 * k) 8)).sum
    let tail := readAt self.bytes (8 * fullWords) (neededBytes - 8 * fullWords)
    let tailBits := self.rowCount - 64 * fullWords
    if tail.isEmpty then .ok count
    else if tailBits < 64 then
      .ok (count + BitWords.countOnes (ofLe tail &&& (1 <<< tailBits - 1)))
    else .ok (count + countWord tail)

/-! ## Words -/

variable {n rowCount : Nat}

/-- The set bits of a word under a mask of the bits below one. -/
theorem countOnes_and_mask (word : Nat) (h : n ≤ 64) :
    BitWords.countOnes (word &&& (1 <<< n - 1)) = (List.range n).countP word.testBit := by
  obtain ⟨k, hk⟩ := Nat.exists_eq_add_of_le h
  have hlow : (List.range n).countP (word &&& (1 <<< n - 1)).testBit =
      (List.range n).countP word.testBit := by
    refine List.countP_congr fun i hi => ?_
    rw [Nat.testBit_and, Nat.one_shiftLeft, Nat.testBit_two_pow_sub_one,
      decide_eq_true (List.mem_range.mp hi), Bool.and_true]
  have hhigh : ((List.range k).map (n + ·)).countP (word &&& (1 <<< n - 1)).testBit = 0 := by
    refine List.countP_eq_zero.mpr fun i hi => ?_
    obtain ⟨j, -, rfl⟩ := List.mem_map.mp hi
    rw [Nat.testBit_and, Nat.one_shiftLeft, Nat.testBit_two_pow_sub_one,
      decide_eq_false (by omega), Bool.and_false]
    exact Bool.false_ne_true
  rw [BitWords.countOnes, hk, List.range_add, List.countP_append, hlow, hhigh, Nat.add_zero]

/-- The set bits among the rows from one on. -/
def setBits (bytes : List UInt8) (start n : Nat) : Nat :=
  (List.range n).countP fun i => ByteBits.get bytes (start + i)

variable (bytes : List UInt8)

/-- **The bits that a word loaded from the bytes counts**, under a mask of `n` bits. -/
theorem countOnes_window {k w : Nat} (hn : n ≤ 8 * w) :
    (List.range n).countP (ofLe (readAt bytes k w)).testBit = setBits bytes (8 * k) n := by
  refine List.countP_congr fun i hi => ?_
  have hlt := List.mem_range.mp hi
  rw [readAt, ByteBits.testBit_ofLe_window _ (by omega)]

theorem setBits_add (start m n : Nat) :
    setBits bytes start (m + n) = setBits bytes start m + setBits bytes (start + m) n := by
  unfold setBits
  rw [List.range_add, List.countP_append, List.countP_map]
  simp only [Function.comp_def, Nat.add_assoc]

/-- The whole words count the bits of their bytes. -/
theorem sum_countWord (words : Nat) :
    ((List.range words).map fun k => countWord (readAt bytes (8 * k) 8)).sum =
      setBits bytes 0 (64 * words) := by
  induction words with
  | zero => rfl
  | succ words ih =>
    have hword : countWord (readAt bytes (8 * words) 8) = setBits bytes (64 * words) 64 := by
      rw [countWord, BitWords.countOnes, countOnes_window bytes (Nat.le_refl 64), ← Nat.mul_assoc]
    rw [List.range_succ, List.map_append, List.sum_append, ih, List.map_singleton,
      List.sum_singleton, hword, Nat.mul_succ, setBits_add, Nat.zero_add]

/-! ## The count -/

/-- How far the count looks: behind the rows, when the last word is whole. -/
def countedRows (rowCount : Nat) : Nat :=
  if (rowCount + 7) / 8 % 8 = 0 then 64 * ((rowCount + 7) / 8 / 8) else rowCount

theorem le_countedRows (rowCount : Nat) : rowCount ≤ countedRows rowCount := by
  unfold countedRows
  split <;> omega

variable {bm : ValidityBitmap}

/-- **The count is the number of set bits** as far as it looks. -/
theorem nullCount_eq (hpad : bm.rowCount + 7 < 2 ^ 64)
    (hbytes : (bm.rowCount + 7) / 8 ≤ bm.bytes.length) :
    bm.nullCount = .ok (setBits bm.bytes 0 (countedRows bm.rowCount)) := by
  have hpadded : checkedAdd bm.rowCount 7 = .ok (bm.rowCount + 7) := addU64_eq_ok.mpr ⟨hpad, rfl⟩
  have htail : (readAt bm.bytes (8 * ((bm.rowCount + 7) / 8 / 8))
      ((bm.rowCount + 7) / 8 - 8 * ((bm.rowCount + 7) / 8 / 8))).length = (bm.rowCount + 7) / 8 % 8 := by
    rw [length_readAt (by omega)]
    omega
  unfold ValidityBitmap.nullCount countedRows
  rw [hpadded, ok_bind]
  dsimp only
  rw [if_neg (Nat.not_lt.mpr hbytes), sum_countWord]
  by_cases hwhole : (bm.rowCount + 7) / 8 % 8 = 0
  · rw [if_pos (List.isEmpty_iff_length_eq_zero.mpr (htail.trans hwhole)), if_pos hwhole]
  · have hempty : ¬ (readAt bm.bytes (8 * ((bm.rowCount + 7) / 8 / 8))
        ((bm.rowCount + 7) / 8 - 8 * ((bm.rowCount + 7) / 8 / 8))).isEmpty = true := by
      rwa [List.isEmpty_iff_length_eq_zero, htail]
    have hrows : bm.rowCount = 64 * ((bm.rowCount + 7) / 8 / 8) +
        (bm.rowCount - 64 * ((bm.rowCount + 7) / 8 / 8)) := by omega
    rw [if_neg hempty, if_pos (by omega), if_neg hwhole, countOnes_and_mask _ (by omega),
      countOnes_window _ (by omega), ← Nat.mul_assoc]
    conv_rhs => rw [hrows, setBits_add, Nat.zero_add]

theorem nullCount_overflow (hpad : ¬bm.rowCount + 7 < 2 ^ 64) :
    bm.nullCount = .error .arithOverflow := by
  have hpadded : checkedAdd bm.rowCount 7 = .error .arithOverflow := if_neg hpad
  unfold ValidityBitmap.nullCount
  rw [hpadded]
  rfl

/-! ## The null rows -/

/-- The rows that are null. -/
def ValidityBitmap.nullRows (self : ValidityBitmap) : List Nat :=
  (List.range self.rowCount).filter fun row => self.isNull row = .ok true

theorem isNull_eq {row : Nat} (hrow : row < bm.rowCount)
    (hbytes : (bm.rowCount + 7) / 8 ≤ bm.bytes.length) :
    bm.isNull row = .ok (ByteBits.get bm.bytes row) := by
  have hbyte : row / 8 < bm.bytes.length := by omega
  unfold ValidityBitmap.isNull
  rw [if_neg (by omega), ByteBits.get_eq_testBit, List.getElem?_eq_getElem hbyte]
  rfl

theorem length_nullRows (hbytes : (bm.rowCount + 7) / 8 ≤ bm.bytes.length) :
    bm.nullRows.length = setBits bm.bytes 0 bm.rowCount := by
  rw [ValidityBitmap.nullRows, ← List.countP_eq_length_filter, setBits]
  refine List.countP_congr fun row hrow => ?_
  rw [isNull_eq (List.mem_range.mp hrow) hbytes, Nat.zero_add]
  simp

/-- The set bits behind the rows, as far as the count looks. -/
theorem setBits_countedRows (bm : ValidityBitmap) :
    setBits bm.bytes 0 (countedRows bm.rowCount) = setBits bm.bytes 0 bm.rowCount +
      setBits bm.bytes bm.rowCount (countedRows bm.rowCount - bm.rowCount) := by
  obtain ⟨k, hk⟩ := Nat.exists_eq_add_of_le (le_countedRows bm.rowCount)
  rw [hk, setBits_add, Nat.zero_add, Nat.add_sub_cancel_left]

theorem setBits_eq_zero_iff {bytes : List UInt8} {start : Nat} :
    setBits bytes start n = 0 ↔ ∀ row, start ≤ row → row < start + n → ByteBits.get bytes row = false := by
  unfold setBits
  rw [List.countP_eq_zero]
  constructor
  · intro h row hle hlt
    have hrow := h (row - start) (List.mem_range.mpr (by omega))
    rw [Nat.add_sub_cancel' hle] at hrow
    exact Bool.eq_false_iff.mpr hrow
  · intro h i hi
    have := List.mem_range.mp hi
    rw [h (start + i) (by omega) (by omega)]
    exact Bool.false_ne_true

/-- The count looks behind the rows when their last byte ends a word and they do not. -/
theorem lt_countedRows_iff {row : Nat} (hrow : rowCount ≤ row) :
    row < countedRows rowCount ↔ 57 ≤ rowCount % 64 ∧ row / 64 = rowCount / 64 := by
  unfold countedRows
  split <;> omega

/-- Bytes that hold just some places. -/
def bytesOf (rowCount : Nat) (places : List Nat) : List UInt8 :=
  places.foldl ByteBits.insert (List.replicate ((rowCount + 7) / 8) 0)

theorem get_bytesOf {places : List Nat}
    (h : ∀ row ∈ places, row / 8 < (rowCount + 7) / 8) (row : Nat) :
    ByteBits.get (bytesOf rowCount places) row = decide (row ∈ places) := by
  have hzero : ByteBits.get (List.replicate ((rowCount + 7) / 8) 0) row = false := by
    rw [ByteBits.get_eq_testBit, List.getElem?_replicate]
    split <;> exact Nat.zero_testBit _
  rw [Bool.eq_iff_iff, decide_eq_true_iff, bytesOf,
    ByteBits.get_foldl_insert (by rwa [List.length_replicate]), hzero]
  simp

/-- Where the count looks behind the rows, other bits there change it. -/
theorem exists_influence (hrows : 57 ≤ rowCount % 64)
    (hpad : rowCount + 7 < 2 ^ 64) (bytes : List UInt8) :
    ∃ changed, (rowCount + 7) / 8 ≤ changed.length ∧
      (∀ row < rowCount, ByteBits.get changed row = ByteBits.get bytes row) ∧
      ValidityBitmap.nullCount ⟨changed, rowCount⟩ ≠ ValidityBitmap.nullCount ⟨bytes, rowCount⟩ := by
  -- the rows' own bits, without and with the bit behind the last row
  let rows := (List.range rowCount).filter (ByteBits.get bytes)
  have hlength : ∀ places, (rowCount + 7) / 8 ≤ (bytesOf rowCount places).length := fun places => by
    rw [bytesOf, ByteBits.length_foldl_insert, List.length_replicate]
  have hrowsIn : ∀ row ∈ rows, row < rowCount := fun row hrow =>
    List.mem_range.mp (List.mem_filter.mp hrow).1
  have hclear : ∀ row, ByteBits.get (bytesOf rowCount rows) row = decide (row ∈ rows) :=
    get_bytesOf fun row hrow => by
      have := hrowsIn row hrow
      omega
  have hset : ∀ row, ByteBits.get (bytesOf rowCount (rowCount :: rows)) row =
      decide (row ∈ rowCount :: rows) :=
    get_bytesOf (List.forall_mem_cons.mpr ⟨by omega, fun row hrow => by have := hrowsIn row hrow; omega⟩)
  have hagree : ∀ row < rowCount, decide (row ∈ rows) = ByteBits.get bytes row := by
    intro row hrow
    rw [Bool.eq_iff_iff, decide_eq_true_iff, List.mem_filter, List.mem_range]
    exact and_iff_right hrow
  have hagree' : ∀ row < rowCount, decide (row ∈ rowCount :: rows) = ByteBits.get bytes row := by
    intro row hrow
    rw [← hagree row hrow, decide_eq_decide, List.mem_cons]
    exact or_iff_right (Nat.ne_of_lt hrow)
  have hcounted : rowCount < countedRows rowCount :=
    (lt_countedRows_iff (Nat.le_refl _)).mpr ⟨hrows, rfl⟩
  have hbelow : ∀ a b : List UInt8,
      (∀ row < rowCount, ByteBits.get a row = ByteBits.get b row) →
        setBits a 0 rowCount = setBits b 0 rowCount := by
    intro a b h
    refine List.countP_congr fun row hrow => ?_
    rw [Nat.zero_add, h row (List.mem_range.mp hrow)]
  by_contra hnone
  have hsame : ∀ changed, (rowCount + 7) / 8 ≤ changed.length →
      (∀ row < rowCount, ByteBits.get changed row = ByteBits.get bytes row) →
        ValidityBitmap.nullCount ⟨changed, rowCount⟩ = ValidityBitmap.nullCount ⟨bytes, rowCount⟩ :=
    fun changed hlen hget => by
      by_contra hne
      exact hnone ⟨changed, hlen, hget, hne⟩
  have hboth := (hsame _ (hlength rows) fun row hrow => (hclear row).trans (hagree row hrow)).trans
    (hsame _ (hlength (rowCount :: rows)) fun row hrow =>
      (hset row).trans (hagree' row hrow)).symm
  rw [nullCount_eq hpad (hlength _), nullCount_eq hpad (hlength _)] at hboth
  have hcount := Except.ok.inj hboth
  rw [setBits_countedRows ⟨_, rowCount⟩, setBits_countedRows ⟨_, rowCount⟩] at hcount
  dsimp only at hcount
  rw [hbelow _ (bytesOf rowCount (rowCount :: rows)) fun row hrow => by
    rw [hclear, hset, hagree row hrow, hagree' row hrow]] at hcount
  have hzero : setBits (bytesOf rowCount rows) rowCount (countedRows rowCount - rowCount) = 0 :=
    setBits_eq_zero_iff.mpr fun row hle _ => by
      rw [hclear]
      exact decide_eq_false fun hmem => absurd (hrowsIn row hmem) (Nat.not_lt.mpr hle)
  rw [hzero] at hcount
  have hset' := setBits_eq_zero_iff.mp (Nat.add_left_cancel hcount).symm rowCount (Nat.le_refl _)
    (by omega)
  rw [hset] at hset'
  exact absurd hset' (by simp)

/-- **The null count is the number of null rows** exactly when no bit behind the rows is set in a
last word that the rows reach the last byte of, and such bits have an influence exactly there. -/
theorem nullCount_counts_iff (bm : ValidityBitmap)
    (hbytes : (bm.rowCount + 7) / 8 ≤ bm.bytes.length) :
    (bm.nullCount = .ok bm.nullRows.length ↔
      bm.rowCount + 7 < 2 ^ 64 ∧ (57 ≤ bm.rowCount % 64 →
        ∀ row, bm.rowCount ≤ row → row / 64 = bm.rowCount / 64 →
          ByteBits.get bm.bytes row = false)) ∧
    ((∀ bytes, (bm.rowCount + 7) / 8 ≤ bytes.length →
        (∀ row < bm.rowCount, ByteBits.get bytes row = ByteBits.get bm.bytes row) →
        ValidityBitmap.nullCount ⟨bytes, bm.rowCount⟩ = bm.nullCount) ↔
      2 ^ 64 ≤ bm.rowCount + 7 ∨ bm.rowCount % 64 ≤ 56) := by
  constructor
  · by_cases hpad : bm.rowCount + 7 < 2 ^ 64
    · rw [nullCount_eq hpad hbytes, length_nullRows hbytes, setBits_countedRows, and_iff_right hpad]
      have hcount : (.ok (setBits bm.bytes 0 bm.rowCount +
          setBits bm.bytes bm.rowCount (countedRows bm.rowCount - bm.rowCount)) :
            Except CoveError Nat) = .ok (setBits bm.bytes 0 bm.rowCount) ↔
          setBits bm.bytes bm.rowCount (countedRows bm.rowCount - bm.rowCount) = 0 := by
        rw [Except.ok.injEq]
        omega
      rw [hcount, setBits_eq_zero_iff, Nat.add_sub_cancel' (le_countedRows _)]
      constructor
      · exact fun h hreach row hrow hword =>
          h row hrow ((lt_countedRows_iff hrow).mpr ⟨hreach, hword⟩)
      · intro h row hrow hlt
        obtain ⟨hreach, hword⟩ := (lt_countedRows_iff hrow).mp hlt
        exact h hreach row hrow hword
    · rw [nullCount_overflow hpad]
      exact ⟨nofun, fun h => absurd h.1 hpad⟩
  · constructor
    · intro h
      by_contra hno
      obtain ⟨hpad, hreach⟩ := not_or.mp hno
      obtain ⟨changed, hlength, hrows, hne⟩ :=
        exists_influence (by omega) (Nat.not_le.mp hpad) bm.bytes
      exact hne (h changed hlength hrows)
    · rintro h bytes hlength hrows
      by_cases hpad : bm.rowCount + 7 < 2 ^ 64
      · have hcounted : countedRows bm.rowCount = bm.rowCount := by
          refine Nat.le_antisymm (Nat.not_lt.mp fun hlt => ?_) (le_countedRows _)
          have := ((lt_countedRows_iff (Nat.le_refl _)).mp hlt).1
          omega
        have hother : ValidityBitmap.nullCount ⟨bytes, bm.rowCount⟩ =
            .ok (setBits bytes 0 (countedRows bm.rowCount)) := nullCount_eq hpad hlength
        rw [hother, nullCount_eq hpad hbytes, hcounted]
        refine congrArg _ (List.countP_congr fun row hrow => ?_)
        rw [Nat.zero_add, hrows row (List.mem_range.mp hrow)]
      · rw [nullCount_overflow hpad]
        exact nullCount_overflow hpad

/-- Sixty rows of a word with all bits set: the four bits behind them are counted. -/
theorem nullCount_word :
    ValidityBitmap.nullCount ⟨List.replicate 8 255, 60⟩ = .ok 64 ∧
      (ValidityBitmap.nullRows ⟨List.replicate 8 255, 60⟩).length = 60 := by
  decide +kernel

theorem nullCount_counts_iff_ten :
    (ValidityBitmap.nullCount ⟨[255, 255], 10⟩ =
        .ok (ValidityBitmap.nullRows ⟨[255, 255], 10⟩).length ↔
      10 + 7 < 2 ^ 64 ∧ (57 ≤ 10 % 64 → ∀ row, 10 ≤ row → row / 64 = 10 / 64 →
        ByteBits.get [255, 255] row = false)) ∧
    ((∀ bytes, (10 + 7) / 8 ≤ bytes.length →
        (∀ row < 10, ByteBits.get bytes row = ByteBits.get [255, 255] row) →
        ValidityBitmap.nullCount ⟨bytes, 10⟩ = ValidityBitmap.nullCount ⟨[255, 255], 10⟩) ↔
      2 ^ 64 ≤ 10 + 7 ∨ 10 % 64 ≤ 56) :=
  nullCount_counts_iff ⟨[255, 255], 10⟩ (by decide)

end Cove
