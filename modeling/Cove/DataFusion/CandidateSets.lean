import Mathlib.Data.Nat.Bitwise
import Cove.Lib.BinarySearch
import Cove.Lib.BitWords
import Cove.Lib.SortedList

/-!
# Candidate sets

The files, segments or morsels a scan has to look at, as all of a range, as a sparse list of 32-bit
indexes, or as a bitmap of 64-bit words.

- `CandidateSet`, its `contains`, `len`, `intersect` and `union`.
- `mem_intersectSparseSparse`, `mem_unionSparseSparse`: what the loops over sorted lists keep.
- `get_clampBitmap`: what clamping a bitmap leaves of it.
- `get_combineBitmaps`, `get_unionBitmapSparse`: what the operations on words hold.
- `sparseLen_eq_card`, `bitmapLen_eq_card`: what the lengths count.
-/

namespace Cove

open SortedList

/-! ## Sparse lists -/

/-- `sparse_is_normalized`. -/
def sparseIsNormalized (values : List Nat) : Bool := strictWindows values

/-- `normalize_sparse`. -/
def normalizeSparse (values : List Nat) : List Nat := dedup (values.insertionSort (· ≤ ·))

/-- `sparse_contains`. -/
def sparseContains (values : List Nat) (needle : Nat) : Bool :=
  if sparseIsNormalized values then (BinarySearch.binarySearchByKey needle id values).isSome
  else decide (needle ∈ values)

/-- `sparse_len`. -/
def sparseLen (values : List Nat) : Nat :=
  if sparseIsNormalized values then values.length else (normalizeSparse values).length

/-- `sparse_domain_len`. -/
def sparseDomainLen (values : List Nat) : Nat :=
  if sparseIsNormalized values then (values.getLast?.map (· + 1)).getD 0
  else (values.max?.map (· + 1)).getD 0

/-- `clamp_sparse`. -/
def clampSparse (values : List Nat) (len : Nat) : List Nat :=
  (normalizeSparse values).filter fun value => decide (value < len)

/-- What a loop over sorted lists puts out of one value. -/
def pushBelow (maxLen value : Nat) : List Nat := if value < maxLen then [value] else []

/-- The loop of `intersect_sparse_sparse`. -/
def intersectLoop (maxLen : Nat) : List Nat → List Nat → List Nat
  | left :: ls, right :: rs =>
    if left < right then intersectLoop maxLen ls (right :: rs)
    else if right < left then intersectLoop maxLen (left :: ls) rs
    else pushBelow maxLen left ++ intersectLoop maxLen ls rs
  | _, _ => []
  termination_by left right => left.length + right.length

/-- `intersect_sparse_sparse`. -/
def intersectSparseSparse (left right : List Nat) (maxLen : Nat) : List Nat :=
  intersectLoop maxLen (normalizeSparse left) (normalizeSparse right)

/-- The loop of `union_sparse_sparse`, with the rest of the list that is left over. -/
def unionLoop (maxLen : Nat) : List Nat → List Nat → List Nat
  | left :: ls, right :: rs =>
    if left < right then pushBelow maxLen left ++ unionLoop maxLen ls (right :: rs)
    else if right < left then pushBelow maxLen right ++ unionLoop maxLen (left :: ls) rs
    else pushBelow maxLen left ++ unionLoop maxLen ls rs
  | left, right => (left ++ right).filter fun value => decide (value < maxLen)
  termination_by left right => left.length + right.length

/-- `union_sparse_sparse`. -/
def unionSparseSparse (left right : List Nat) (maxLen : Nat) : List Nat :=
  unionLoop maxLen (normalizeSparse left) (normalizeSparse right)

/-! ## Bitmaps -/

/-- `bitmap_word_len`. -/
def bitmapWordLen (len : Nat) : Nat := (len + 63) / 64

/-- `candidate_bitmap_contains`. -/
def candidateBitmapContains (bits : List Nat) (index : Nat) : Bool :=
  (bits[index / 64]?).any fun value => value &&& 1 <<< (index % 64) != 0

/-- `bitmap_len`. -/
def bitmapLen (len : Nat) (bits : List Nat) : Nat :=
  let total := ((bits.take (len / 64)).map BitWords.countOnes).sum
  if len % 64 ≠ 0 then
    match bits[len / 64]? with
    | some word => total + BitWords.countOnes (word &&& (1 <<< (len % 64) - 1))
    | none => total
  else total

/-- `clamp_bitmap`: the mask goes to the last word there is. -/
def clampBitmap (bits : List Nat) (len : Nat) : List Nat :=
  let clamped := bits.take (bitmapWordLen len)
  if len % 64 ≠ 0 then
    clamped.modify (clamped.length - 1) fun last => last &&& (1 <<< (len % 64) - 1)
  else clamped

/-- `intersect_bitmap_bitmap` and `union_bitmap_bitmap`, with their operation on words. -/
def combineBitmaps (op : Nat → Nat → Nat) (leftBits rightBits : List Nat) (len : Nat) : List Nat :=
  let out := (List.range (bitmapWordLen len)).map fun word =>
    op (BitWords.word leftBits word) (BitWords.word rightBits word)
  clampBitmap out len

def intersectBitmapBitmap (leftBits rightBits : List Nat) (len : Nat) : List Nat :=
  combineBitmaps (· &&& ·) leftBits rightBits len

def unionBitmapBitmap (leftBits rightBits : List Nat) (len : Nat) : List Nat :=
  combineBitmaps (· ||| ·) leftBits rightBits len

/-- `intersect_sparse_bitmap`. -/
def intersectSparseBitmap (values : List Nat) (bitmapLen : Nat) (bits : List Nat) (maxLen : Nat) :
    List Nat :=
  (normalizeSparse values).filter fun index =>
    decide (index < maxLen) && decide (index < bitmapLen) && candidateBitmapContains bits index

/-- `union_bitmap_sparse`. -/
def unionBitmapSparse (bits values : List Nat) (len : Nat) : List Nat :=
  let out := clampBitmap bits len
  let out := out ++ List.replicate (bitmapWordLen len - out.length) 0
  (normalizeSparse values).foldl
    (fun out index => if index ≥ len then out else BitWords.insert out index) out

/-! ## The sets -/

/-- `CandidateSet`. -/
inductive CandidateSet where
  | all (len : Nat)
  | sparse (values : List Nat)
  | bitmap (len : Nat) (bits : List Nat)
  deriving DecidableEq, Repr

namespace CandidateSet

/-- `CandidateSet::contains`: a sparse list is asked for the low 32 bits of the index. -/
def contains (set : CandidateSet) (index : Nat) : Bool :=
  match set with
  | all len => decide (index < len)
  | sparse values => sparseContains values (index % 2 ^ 32)
  | bitmap len bits => if index ≥ len then false else candidateBitmapContains bits index

/-- `CandidateSet::len`. -/
def len : CandidateSet → Nat
  | all len => len
  | sparse values => sparseLen values
  | bitmap len bits => bitmapLen len bits

def isEmpty (set : CandidateSet) : Bool := set.len == 0

def domainLen : CandidateSet → Nat
  | all len => len
  | sparse values => sparseDomainLen values
  | bitmap len _ => len

def clamp (set : CandidateSet) (len : Nat) : CandidateSet :=
  match set with
  | all _ => all len
  | sparse values => sparse (clampSparse values len)
  | bitmap _ bits => bitmap len (clampBitmap bits len)

/-- `CandidateSet::intersect`. -/
def intersect (set other : CandidateSet) : CandidateSet :=
  let maxLen := min set.domainLen other.domainLen
  if set.isEmpty || other.isEmpty || maxLen == 0 then sparse []
  else
    match set, other with
    | all _, other => other.clamp maxLen
    | set, all _ => set.clamp maxLen
    | sparse left, sparse right => sparse (intersectSparseSparse left right maxLen)
    | bitmap _ leftBits, bitmap _ rightBits =>
      bitmap maxLen (intersectBitmapBitmap leftBits rightBits maxLen)
    | sparse values, bitmap len bits => sparse (intersectSparseBitmap values len bits maxLen)
    | bitmap len bits, sparse values => sparse (intersectSparseBitmap values len bits maxLen)

/-- `CandidateSet::union`. -/
def union (set other : CandidateSet) : CandidateSet :=
  let maxLen := max set.domainLen other.domainLen
  match set, other with
  | all _, _ => all maxLen
  | _, all _ => all maxLen
  | sparse left, sparse right => sparse (unionSparseSparse left right maxLen)
  | bitmap _ leftBits, bitmap _ rightBits =>
    bitmap maxLen (unionBitmapBitmap leftBits rightBits maxLen)
  | sparse values, bitmap _ bits => bitmap maxLen (unionBitmapSparse bits values maxLen)
  | bitmap _ bits, sparse values => bitmap maxLen (unionBitmapSparse bits values maxLen)

end CandidateSet

/-! ## What sparse lists hold -/

section Sparse

variable {values left right : List Nat} {maxLen v : Nat}

theorem mem_normalizeSparse : v ∈ normalizeSparse values ↔ v ∈ values := by
  simp [normalizeSparse, mem_dedup]

theorem ascending_normalizeSparse (values : List Nat) :
    (normalizeSparse values).Pairwise (· < ·) := by
  have hsorted : (values.insertionSort (· ≤ ·)).Pairwise (· ≤ ·) :=
    List.pairwise_insertionSort (· ≤ ·) values
  exact pairwise_lt_dedup hsorted

theorem sparseContains_iff : sparseContains values v = true ↔ v ∈ values := by
  unfold sparseContains
  by_cases hnorm : sparseIsNormalized values = true
  · rw [if_pos hnorm]
    have hasc : values.Pairwise fun x y => id x < id y := strictWindows_iff.mp hnorm
    rw [BinarySearch.binarySearchByKey_isSome_iff hasc, List.map_id]
  · rw [if_neg hnorm, decide_eq_true_eq]

/-- The length of a list is the number of values in it, repeats not counted. -/
theorem sparseLen_eq_card (values : List Nat) : sparseLen values = values.toFinset.card := by
  unfold sparseLen
  by_cases hnorm : sparseIsNormalized values = true
  · rw [if_pos hnorm]
    have hasc : values.Pairwise (· < ·) := strictWindows_iff.mp hnorm
    exact (List.toFinset_card_of_nodup (hasc.imp ne_of_lt)).symm
  · rw [if_neg hnorm,
      ← List.toFinset_card_of_nodup ((ascending_normalizeSparse values).imp ne_of_lt)]
    congr 1
    ext x
    simp only [List.mem_toFinset, mem_normalizeSparse]

/-- The domain of a list ends with its greatest value. -/
theorem sparseDomainLen_spec (values : List Nat) :
    (∀ v ∈ values, v < sparseDomainLen values) ∧
      (sparseDomainLen values = 0 ∨ ∃ v ∈ values, sparseDomainLen values = v + 1) := by
  unfold sparseDomainLen
  by_cases hnorm : sparseIsNormalized values = true
  · rw [if_pos hnorm]
    have hasc : values.Pairwise (· < ·) := strictWindows_iff.mp hnorm
    rcases List.eq_nil_or_concat values with rfl | ⟨front, last, rfl⟩
    · exact ⟨nofun, .inl rfl⟩
    · rw [List.concat_eq_append] at hasc ⊢
      rw [List.getLast?_concat]
      refine ⟨?_, .inr ⟨last, by simp, rfl⟩⟩
      intro v hv
      show v < last + 1
      rcases List.mem_append.mp hv with hv | hv
      · have := (List.pairwise_append.mp hasc).2.2 v hv last (List.mem_singleton_self _)
        omega
      · rw [List.mem_singleton.mp hv]
        omega
  · rw [if_neg hnorm]
    cases hmax : values.max? with
    | none =>
      rw [List.max?_eq_none_iff] at hmax
      subst hmax
      exact ⟨nofun, .inl rfl⟩
    | some top =>
      obtain ⟨hmem, htop⟩ := List.max?_eq_some_iff.mp hmax
      refine ⟨?_, .inr ⟨top, hmem, rfl⟩⟩
      intro v hv
      show v < top + 1
      exact Nat.lt_succ_of_le (htop v hv)

theorem lt_sparseDomainLen (h : v ∈ values) : v < sparseDomainLen values :=
  (sparseDomainLen_spec values).1 v h

theorem mem_clampSparse : v ∈ clampSparse values maxLen ↔ v ∈ values ∧ v < maxLen := by
  simp [clampSparse, mem_normalizeSparse]

theorem mem_pushBelow {value : Nat} : v ∈ pushBelow maxLen value ↔ v = value ∧ v < maxLen := by
  unfold pushBelow
  by_cases hlt : value < maxLen
  · rw [if_pos hlt, List.mem_singleton]
    exact ⟨fun h => ⟨h, h ▸ hlt⟩, And.left⟩
  · rw [if_neg hlt]
    simp only [List.not_mem_nil, false_iff, not_and]
    rintro rfl
    exact hlt

/-- The smaller of two heads is in one list only. -/
theorem notMem_of_lt_head {l r : Nat} {rs : List Nat} (hr : (r :: rs).Pairwise (· < ·))
    (h : l < r) : l ∉ r :: rs := by
  intro hmem
  rcases List.mem_cons.mp hmem with rfl | hmem
  · exact lt_irrefl _ h
  · exact lt_asymm h ((List.pairwise_cons.mp hr).1 l hmem)

theorem mem_intersectLoop (hl : left.Pairwise (· < ·)) (hr : right.Pairwise (· < ·)) :
    v ∈ intersectLoop maxLen left right ↔ (v ∈ left ∧ v ∈ right) ∧ v < maxLen := by
  fun_induction intersectLoop maxLen left right with
  | case1 l ls r rs hlt ih =>
    rw [ih (List.pairwise_cons.mp hl).2 hr]
    have hout : l ∉ r :: rs := notMem_of_lt_head hr hlt
    grind
  | case2 l ls r rs _ hlt ih =>
    rw [ih hl (List.pairwise_cons.mp hr).2]
    have hout : r ∉ l :: ls := notMem_of_lt_head hl hlt
    grind
  | case3 l ls r rs hle hge ih =>
    rw [List.mem_append, mem_pushBelow,
      ih (List.pairwise_cons.mp hl).2 (List.pairwise_cons.mp hr).2]
    obtain rfl : l = r := by omega
    have hout : l ∉ ls := fun h => lt_irrefl _ ((List.pairwise_cons.mp hl).1 l h)
    grind
  | case4 left right hempty =>
    match left, right, hempty with
    | [], _, _ => simp
    | _ :: _, [], _ => simp
    | l :: ls, r :: rs, hempty => exact absurd rfl (hempty l ls r rs rfl)

theorem mem_intersectSparseSparse :
    v ∈ intersectSparseSparse left right maxLen ↔ (v ∈ left ∧ v ∈ right) ∧ v < maxLen := by
  unfold intersectSparseSparse
  rw [mem_intersectLoop (ascending_normalizeSparse left) (ascending_normalizeSparse right),
    mem_normalizeSparse, mem_normalizeSparse]

theorem mem_unionLoop :
    v ∈ unionLoop maxLen left right ↔ (v ∈ left ∨ v ∈ right) ∧ v < maxLen := by
  fun_induction unionLoop maxLen left right with
  | case1 l ls r rs hlt ih =>
    rw [List.mem_append, mem_pushBelow, ih, List.mem_cons (a := v) (b := l)]
    tauto
  | case2 l ls r rs _ hlt ih =>
    rw [List.mem_append, mem_pushBelow, ih, List.mem_cons (a := v) (b := r)]
    tauto
  | case3 l ls r rs hle hge ih =>
    obtain rfl : l = r := by omega
    rw [List.mem_append, mem_pushBelow, ih, List.mem_cons, List.mem_cons]
    tauto
  | case4 left right =>
    rw [List.mem_filter, List.mem_append, decide_eq_true_eq]

theorem mem_unionSparseSparse :
    v ∈ unionSparseSparse left right maxLen ↔ (v ∈ left ∨ v ∈ right) ∧ v < maxLen := by
  unfold unionSparseSparse
  rw [mem_unionLoop, mem_normalizeSparse, mem_normalizeSparse]

end Sparse

/-! ## What bitmaps hold -/

variable {out : List Nat}

section Bitmap

variable {bits values : List Nat} {len i : Nat}

theorem candidateBitmapContains_eq (bits : List Nat) (index : Nat) :
    candidateBitmapContains bits index = BitWords.get bits index := by
  unfold candidateBitmapContains BitWords.get BitWords.word
  cases bits[index / 64]? with
  | none => simp
  | some value =>
    rw [Option.any_some, Option.getD_some, Nat.one_shiftLeft, Nat.and_two_pow]
    cases value.testBit (index % 64) <;> simp

theorem get_take (bits : List Nat) (k i : Nat) :
    BitWords.get (bits.take k) i = (decide (i / 64 < k) && BitWords.get bits i) := by
  unfold BitWords.get BitWords.word
  by_cases hlt : i / 64 < k
  · simp [hlt]
  · simp [hlt]

/-- Clamping keeps the bits of the first words, and of the last of them those below the end. -/
theorem get_clampBitmap :
    BitWords.get (clampBitmap bits len) i = true ↔ BitWords.get bits i = true ∧
      i / 64 < bitmapWordLen len ∧ (len % 64 ≠ 0 →
        i / 64 + 1 = min (bitmapWordLen len) bits.length → i % 64 < len % 64) := by
  unfold clampBitmap
  dsimp only
  by_cases htail : len % 64 ≠ 0
  · rw [if_pos htail, List.length_take]
    rcases List.eq_nil_or_concat bits with rfl | ⟨front, last, hbits⟩
    · simp [BitWords.get, BitWords.word]
    · have hwords : 0 < bits.length := by simp [hbits]
      have hword : 0 < bitmapWordLen len := by
        unfold bitmapWordLen
        omega
      have htake := get_take bits (bitmapWordLen len) i
      unfold BitWords.get at htake ⊢
      rw [BitWords.word_modify _ _ _ _ (by rw [List.length_take]; omega)]
      by_cases hlast : i / 64 = min (bitmapWordLen len) bits.length - 1
      · rw [if_pos hlast, Nat.testBit_and, Nat.one_shiftLeft, Nat.testBit_two_pow_sub_one, ← hlast,
          htake, Bool.and_eq_true, Bool.and_eq_true, decide_eq_true_eq, decide_eq_true_eq]
        have : i / 64 + 1 = min (bitmapWordLen len) bits.length := by omega
        tauto
      · rw [if_neg hlast, htake, Bool.and_eq_true, decide_eq_true_eq]
        have : ¬i / 64 + 1 = min (bitmapWordLen len) bits.length := by omega
        tauto
  · rw [if_neg htail, get_take, Bool.and_eq_true, decide_eq_true_eq]
    tauto

/-- With enough words, clamping keeps the bits below the end. -/
theorem get_clampBitmap_of_le (h : bitmapWordLen len ≤ bits.length) :
    BitWords.get (clampBitmap bits len) i = true ↔ BitWords.get bits i = true ∧ i < len := by
  rw [get_clampBitmap, Nat.min_eq_left h]
  unfold bitmapWordLen
  refine and_congr_right fun _ => ?_
  omega

/-- Past its words a bitmap holds nothing. -/
theorem lt_of_get (h : BitWords.get bits i = true) : i / 64 < bits.length := by
  by_contra hge
  unfold BitWords.get BitWords.word at h
  rw [List.getElem?_eq_none (by omega)] at h
  simp at h

theorem length_clampBitmap : (clampBitmap bits len).length = min (bitmapWordLen len) bits.length := by
  unfold clampBitmap
  dsimp only
  split <;> simp

theorem get_combineBitmaps {op : Nat → Nat → Nat} {f : Bool → Bool → Bool}
    (hop : ∀ a b k, (op a b).testBit k = f (a.testBit k) (b.testBit k)) (leftBits rightBits : List Nat) :
    BitWords.get (combineBitmaps op leftBits rightBits len) i = true ↔
      f (BitWords.get leftBits i) (BitWords.get rightBits i) = true ∧ i < len := by
  unfold combineBitmaps
  dsimp only
  rw [get_clampBitmap_of_le (by simp)]
  refine and_congr_left fun hlt => ?_
  have hword : i / 64 < bitmapWordLen len := by
    unfold bitmapWordLen
    omega
  unfold BitWords.get
  rw [BitWords.word, List.getElem?_map, List.getElem?_range hword, Option.map_some,
    Option.getD_some, hop]

/-- The values of a sparse list, one after the other put into a bitmap. -/
theorem get_foldl_insert (hlen : out.length = bitmapWordLen len) :
    BitWords.get (values.foldl
        (fun out index => if index ≥ len then out else BitWords.insert out index) out) i = true ↔
      BitWords.get out i = true ∨ i ∈ values ∧ i < len := by
  induction values generalizing out with
  | nil => simp
  | cons index values ih =>
    rw [List.foldl_cons]
    by_cases hout : index ≥ len
    · rw [if_pos hout, ih hlen, List.mem_cons]
      refine or_congr_right (and_congr_left fun hlt => ?_)
      have : i ≠ index := by omega
      tauto
    · rw [if_neg hout, ih (by rw [BitWords.length_insert, hlen])]
      have hword : index / 64 < out.length := by
        rw [hlen]
        unfold bitmapWordLen
        omega
      rw [BitWords.get_insert hword, Bool.or_eq_true, decide_eq_true_eq, List.mem_cons]
      constructor
      · rintro ((rfl | hget) | ⟨hmem, hlt⟩)
        · exact .inr ⟨.inl rfl, by omega⟩
        · exact .inl hget
        · exact .inr ⟨.inr hmem, hlt⟩
      · rintro (hget | ⟨rfl | hmem, hlt⟩)
        · exact .inl (.inr hget)
        · exact .inl (.inl rfl)
        · exact .inr ⟨hmem, hlt⟩

theorem length_combineBitmaps (op : Nat → Nat → Nat) (leftBits rightBits : List Nat) :
    (combineBitmaps op leftBits rightBits len).length = bitmapWordLen len := by
  unfold combineBitmaps
  dsimp only
  rw [length_clampBitmap, List.length_map, List.length_range, min_self]

theorem length_foldl_insert :
    (values.foldl (fun out index => if index ≥ len then out else BitWords.insert out index)
      out).length = out.length := by
  induction values generalizing out with
  | nil => rfl
  | cons index values ih =>
    rw [List.foldl_cons, ih]
    split
    · rfl
    · exact BitWords.length_insert _ _

theorem get_append_zeros (bits : List Nat) (n i : Nat) :
    BitWords.get (bits ++ List.replicate n 0) i = BitWords.get bits i := by
  unfold BitWords.get BitWords.word
  by_cases hlt : i / 64 < bits.length
  · rw [List.getElem?_append_left hlt]
  · rw [List.getElem?_append_right (by omega), List.getElem?_eq_none (l := bits) (by omega)]
    cases hword : (List.replicate n 0)[i / 64 - bits.length]? with
    | none => rfl
    | some w =>
      obtain rfl := List.eq_of_mem_replicate (List.mem_of_getElem? hword)
      rfl

/-- **A union with a sparse list** holds the list, and what clamping leaves of the bitmap. -/
theorem get_unionBitmapSparse :
    BitWords.get (unionBitmapSparse bits values len) i = true ↔
      BitWords.get (clampBitmap bits len) i = true ∨ i ∈ values ∧ i < len := by
  unfold unionBitmapSparse
  dsimp only
  rw [get_foldl_insert, get_append_zeros, mem_normalizeSparse]
  rw [List.length_append, List.length_replicate, length_clampBitmap]
  omega

theorem length_unionBitmapSparse : (unionBitmapSparse bits values len).length = bitmapWordLen len := by
  unfold unionBitmapSparse
  dsimp only
  rw [length_foldl_insert, List.length_append, List.length_replicate, length_clampBitmap]
  omega

/-- Nothing is put past the end of a union. -/
theorem lt_of_get_unionBitmapSparse (h : BitWords.get (unionBitmapSparse bits values len) i = true) :
    i < len := by
  rcases get_unionBitmapSparse.mp h with hget | ⟨-, hlt⟩
  · obtain ⟨hbit, hword, htail⟩ := get_clampBitmap.mp hget
    have hin := lt_of_get hbit
    unfold bitmapWordLen at hword htail
    omega
  · exact hlt

/-- **The length of a bitmap** is the number of its members below its end. -/
theorem bitmapLen_eq_card (len : Nat) (bits : List Nat) :
    bitmapLen len bits = (BitWords.window bits 0 len).card := by
  have hmask : 1 <<< (len % 64) - 1 = BitWords.mask (64 * (len / 64) - 64 * (len / 64))
      (len - 64 * (len / 64)) := by
    rw [Nat.sub_self, BitWords.mask, Nat.shiftLeft_zero, Nat.one_shiftLeft,
      show len - 64 * (len / 64) = len % 64 by omega]
  have hcount := BitWords.countOnes_mask bits (Nat.le_refl (64 * (len / 64)))
    (show len ≤ 64 * (len / 64) + 64 by omega)
  unfold bitmapLen
  dsimp only
  rw [BitWords.sum_countOnes]
  by_cases htail : len % 64 ≠ 0
  · rw [if_pos htail, BitWords.card_window_append bits (Nat.zero_le (64 * (len / 64)))
        (show 64 * (len / 64) ≤ len by omega),
      ← hcount, ← hmask, BitWords.word]
    cases bits[len / 64]? with
    | none => simp [BitWords.countOnes]
    | some word => rfl
  · rw [if_neg htail, show 64 * (len / 64) = len by omega]

theorem mem_intersectSparseBitmap {maxLen v : Nat} :
    v ∈ intersectSparseBitmap values len bits maxLen ↔
      v ∈ values ∧ v < maxLen ∧ v < len ∧ BitWords.get bits v = true := by
  unfold intersectSparseBitmap
  simp only [List.mem_filter, mem_normalizeSparse, Bool.and_eq_true, decide_eq_true_eq,
    candidateBitmapContains_eq, and_assoc]

end Bitmap

end Cove
