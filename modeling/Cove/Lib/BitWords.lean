import Mathlib.Algebra.Ring.Nat
import Mathlib.Data.Finset.Card
import Mathlib.Order.Interval.Finset.Nat

/-!
# Bit sets over 64-bit words

A set of naturals as a list of 64-bit words, bit `i % 64` of word `i / 64` for `i`.
Words past the end are zero.

- `get`: membership.
- `mask lo n`: the word with the `n` bits from `lo` on.
- `countOnes`: the number of set bits of a word.
- `countOnes_mask`: a masked word counts the members of its part of the set.
- `insert`, `erase`, `inter`, `full`: updates, each with its law under `get`.
-/

namespace BitWords

/-- The word with the `n` bits from bit `lo` on. -/
def mask (lo n : Nat) : Nat := (2 ^ n - 1) <<< lo

/-- The number of set bits of a 64-bit word. -/
def countOnes (word : Nat) : Nat := (List.range 64).countP word.testBit

/-- Word `k` of a list of words. -/
def word (bits : List Nat) (k : Nat) : Nat := (bits[k]?).getD 0

/-- Membership. -/
def get (bits : List Nat) (i : Nat) : Bool := (word bits (i / 64)).testBit (i % 64)

theorem testBit_mask (lo n i : Nat) :
    (mask lo n).testBit i = decide (lo ≤ i ∧ i < lo + n) := by
  rw [mask, Nat.testBit_shiftLeft, Nat.testBit_two_pow_sub_one, Bool.eq_iff_iff]
  simp only [Bool.and_eq_true, decide_eq_true_eq]
  omega

/-- The members of the window `[lo, hi)`. -/
def window (bits : List Nat) (lo hi : Nat) : Finset Nat :=
  (Finset.Ico lo hi).filter (get bits · = true)

variable {bits : List Nat}

variable {lo hi i : Nat} {bs : List Nat}

theorem mem_window {r : Nat} :
    r ∈ window bits lo hi ↔ (lo ≤ r ∧ r < hi) ∧ get bits r = true := by
  simp [window]

theorem countOnes_eq_card (w : Nat) :
    countOnes w = ((Finset.range 64).filter (w.testBit · = true)).card := by
  rw [countOnes, List.countP_eq_length_filter,
    ← List.toFinset_card_of_nodup (List.nodup_range.filter _)]
  congr 1
  ext i
  simp

/-- **A masked word counts** the members of its part of the set. -/
theorem countOnes_mask (bits : List Nat) {k : Nat} (hlo : 64 * k ≤ lo) (hhi : hi ≤ 64 * k + 64) :
    countOnes (word bits k &&& mask (lo - 64 * k) (hi - lo)) = (window bits lo hi).card := by
  rw [countOnes_eq_card]
  refine Finset.card_bij (fun i _ => 64 * k + i) (fun i hi' => ?_) (fun i _ j _ h => by omega)
    (fun r hr => ?_)
  · simp only [Finset.mem_filter, Finset.mem_range, Nat.testBit_and, testBit_mask,
      Bool.and_eq_true, decide_eq_true_eq] at hi'
    obtain ⟨hlt, hbit, hmask⟩ := hi'
    have hdiv : (64 * k + i) / 64 = k := by omega
    have hmod : (64 * k + i) % 64 = i := by omega
    refine mem_window.mpr ⟨by omega, ?_⟩
    simp only [get, hdiv, hmod, hbit]
  · obtain ⟨hwin, hget⟩ := mem_window.mp hr
    have hdiv : r / 64 = k := by omega
    refine ⟨r % 64, ?_, by omega⟩
    simp only [Finset.mem_filter, Finset.mem_range, Nat.testBit_and, testBit_mask,
      Bool.and_eq_true, decide_eq_true_eq]
    simp only [get, hdiv] at hget
    exact ⟨by omega, hget, by omega⟩

/-- A whole word counts the members of its part of the set. -/
theorem countOnes_word (bits : List Nat) (k : Nat) :
    countOnes (word bits k) = (window bits (64 * k) (64 * k + 64)).card := by
  rw [← countOnes_mask bits (Nat.le_refl _) (Nat.le_refl _), countOnes, countOnes]
  refine List.countP_congr fun i hi => ?_
  have hlt : i < 64 := List.mem_range.mp hi
  rw [Nat.testBit_and, testBit_mask, Bool.and_eq_true, decide_eq_true_eq]
  exact (and_iff_left (by omega)).symm

/-- Two adjacent windows count together. -/
theorem card_window_append (bits : List Nat) {mid : Nat} (h1 : lo ≤ mid) (h2 : mid ≤ hi) :
    (window bits lo hi).card = (window bits lo mid).card + (window bits mid hi).card := by
  rw [← Finset.card_union_of_disjoint]
  · congr 1
    ext r
    simp only [Finset.mem_union, mem_window]
    have : (lo ≤ r ∧ r < hi) ↔ (lo ≤ r ∧ r < mid) ∨ (mid ≤ r ∧ r < hi) := by omega
    rw [this, or_and_right]
  · refine Finset.disjoint_left.mpr fun r h1 h2 => ?_
    have := (mem_window.mp h1).1
    have := (mem_window.mp h2).1
    omega

/-- The first words of a set count the numbers below them. -/
theorem sum_countOnes (bits : List Nat) (k : Nat) :
    ((bits.take k).map countOnes).sum = (window bits 0 (64 * k)).card := by
  induction k with
  | zero => simp [window]
  | succ k ih =>
    rw [List.take_add_one, List.map_append, List.sum_append, ih,
      card_window_append bits (Nat.zero_le (64 * k)) (Nat.mul_le_mul_left 64 k.le_succ),
      Nat.mul_succ, ← countOnes_word, word]
    congr 1
    cases bits[k]? with
    | none => rfl
    | some word => simp

/-- All of the window is in the set when as many numbers are. -/
theorem get_of_card_eq {len : Nat}
    (h : (window bits lo (lo + len)).card = len) {r : Nat} (hlo : lo ≤ r)
    (hhi : r < lo + len) : get bits r = true := by
  have hfull : window bits lo (lo + len) = Finset.Ico lo (lo + len) :=
    Finset.eq_of_subset_of_card_le (Finset.filter_subset _ _) (by simp [h])
  have : r ∈ window bits lo (lo + len) := by
    rw [hfull]
    exact Finset.mem_Ico.mpr ⟨hlo, hhi⟩
  exact (mem_window.mp this).2

/-! ## Updates -/

/-- The all-ones word. -/
def ones : Nat := 2 ^ 64 - 1

/-- `words[i / 64] |= 1 << (i % 64)`. -/
def insert (bits : List Nat) (i : Nat) : List Nat :=
  bits.modify (i / 64) fun w => w ||| 1 <<< (i % 64)

/-- `words[i / 64] &= !(1 << (i % 64))`. -/
def erase (bits : List Nat) (i : Nat) : List Nat :=
  bits.modify (i / 64) fun w => w &&& (ones ^^^ 1 <<< (i % 64))

/-- Word by word, as far as the second operand goes. -/
def inter : List Nat → List Nat → List Nat
  | a :: as, b :: bs => (a &&& b) :: inter as bs
  | as, _ => as

/-- The set of all naturals below `n`. -/
def full (n : Nat) : List Nat :=
  let words := List.replicate ((n + 63) / 64) ones
  if n % 64 = 0 then words
  else words.modify (words.length - 1) fun w => w &&& (1 <<< (n % 64) - 1)

@[simp]
theorem length_insert (bits : List Nat) (i : Nat) : (insert bits i).length = bits.length :=
  List.length_modify _ _ _

@[simp]
theorem length_erase (bits : List Nat) (i : Nat) : (erase bits i).length = bits.length :=
  List.length_modify _ _ _

@[simp]
theorem length_inter (as bs : List Nat) : (inter as bs).length = as.length := by
  fun_induction inter as bs with
  | case1 a as b bs ih => simp [ih]
  | case2 => rfl

@[simp]
theorem length_full (n : Nat) : (full n).length = (n + 63) / 64 := by
  unfold full
  dsimp only
  split <;> simp

theorem testBit_one_shiftLeft (k i : Nat) : (1 <<< k).testBit i = decide (i = k) := by
  rw [Nat.one_shiftLeft, Nat.testBit_two_pow, decide_eq_decide, eq_comm]

theorem word_modify (bits : List Nat) (k j : Nat) (f : Nat → Nat) (h : k < bits.length) :
    word (bits.modify k f) j = if j = k then f (word bits k) else word bits j := by
  unfold word
  rw [List.getElem?_modify]
  by_cases hj : j = k
  · subst hj
    simp [List.getElem?_eq_getElem h]
  · simp [hj, Ne.symm hj]

theorem get_insert (h : i / 64 < bits.length) (j : Nat) :
    get (insert bits i) j = (decide (j = i) || get bits j) := by
  unfold get insert
  rw [word_modify _ _ _ _ h]
  by_cases hj : j / 64 = i / 64
  · rw [if_pos hj, Nat.testBit_or, testBit_one_shiftLeft, Bool.or_comm, ← hj]
    congr 1
    rw [decide_eq_decide]
    omega
  · have hne : j ≠ i := by rintro rfl; exact hj rfl
    simp [hj, hne]

theorem get_erase (h : i / 64 < bits.length) (j : Nat) :
    get (erase bits i) j = (!decide (j = i) && get bits j) := by
  unfold get erase
  rw [word_modify _ _ _ _ h]
  by_cases hj : j / 64 = i / 64
  · have hlt : j % 64 < 64 := Nat.mod_lt _ (by decide)
    rw [if_pos hj, Nat.testBit_and, Nat.testBit_xor, testBit_one_shiftLeft, ones,
      Nat.testBit_two_pow_sub_one, decide_eq_true hlt, Bool.true_xor, Bool.and_comm, ← hj]
    congr 2
    rw [decide_eq_decide]
    omega
  · have hne : j ≠ i := by rintro rfl; exact hj rfl
    simp [hj, hne]

theorem word_inter {as : List Nat} (h : as.length = bs.length) (k : Nat) :
    word (inter as bs) k = word as k &&& word bs k := by
  induction as generalizing bs k with
  | nil => simp [inter, word]
  | cons a as ih =>
    cases bs with
    | nil => cases h
    | cons b bs =>
      cases k with
      | zero => rfl
      | succ k => exact ih (Nat.succ.inj h) k

theorem get_inter {as : List Nat} (h : as.length = bs.length) (i : Nat) :
    get (inter as bs) i = (get as i && get bs i) := by
  rw [get, word_inter h, Nat.testBit_and, get, get]

theorem get_full {n : Nat} (h : i < n) : get (full n) i = true := by
  have hword : ∀ k, k < (n + 63) / 64 →
      word (List.replicate ((n + 63) / 64) ones) k = ones := by
    intro k hk
    simp [word, hk]
  have hones : ones.testBit (i % 64) = true := by
    rw [ones, Nat.testBit_two_pow_sub_one]
    exact decide_eq_true (Nat.mod_lt _ (by decide))
  unfold get full
  dsimp only
  split
  · rw [hword _ (by omega), hones]
  · rw [List.length_replicate, word_modify _ _ _ _ (by simp; omega)]
    split
    · rw [Nat.testBit_and, hword _ (by omega), hones, Nat.one_shiftLeft,
        Nat.testBit_two_pow_sub_one, Bool.true_and]
      exact decide_eq_true (by omega)
    · rw [hword _ (by omega), hones]

theorem get_replicate_zero (n i : Nat) : get (List.replicate n 0) i = false := by
  have : word (List.replicate n 0) (i / 64) = 0 := by
    simp only [word, List.getElem?_replicate]
    split <;> rfl
  rw [get, this, Nat.zero_testBit]

theorem get_of_all_zero (h : bits.all (· == 0) = true) (i : Nat) :
    get bits i = false := by
  have : word bits (i / 64) = 0 := by
    unfold word
    cases hw : bits[i / 64]? with
    | none => rfl
    | some w => simpa using List.all_eq_true.mp h w (List.mem_of_getElem? hw)
  rw [get, this, Nat.zero_testBit]

end BitWords
