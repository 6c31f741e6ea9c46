import Cove.DataFusion.CandidateSets

/-!
# The laws of candidate sets

- `CandidateSet.Denotes`: **the indexes a set stands for**.
- `denotes_intersect`, `denotes_union`: what the operations do to them; `CutTail` is what a union
  of a bitmap and a longer sparse list loses.
- `wellFormed_intersect`, `wellFormed_union`: the operations keep the sets well formed.
- `len_eq_card`: what `len` counts.
- `Wraps`: an index past 32 bits that a sparse list takes for one of its own.
- `candidateSet_laws_iff`: **when the operations keep their laws**.
-/

namespace Cove

/-! ## What sets stand for -/

namespace CandidateSet

/-- The indexes a set stands for. -/
def Denotes (set : CandidateSet) (i : Nat) : Prop :=
  match set with
  | all len => i < len
  | sparse values => i ∈ values
  | bitmap len bits => i < len ∧ BitWords.get bits i = true

instance (set : CandidateSet) : DecidablePred set.Denotes := fun i =>
  match set with
  | all len => inferInstanceAs (Decidable (i < len))
  | sparse values => inferInstanceAs (Decidable (i ∈ values))
  | bitmap len bits => inferInstanceAs (Decidable (i < len ∧ BitWords.get bits i = true))

/-- Sparse indexes have 32 bits; a bitmap has one word for every 64 indexes, and no bit past its
end. -/
def WellFormed : CandidateSet → Prop
  | all _ => True
  | sparse values => ∀ v ∈ values, v < 2 ^ 32
  | bitmap len bits => bits.length = bitmapWordLen len ∧
      ∀ i, BitWords.get bits i = true → i < len

/-- Below `n` there is an index past 32 bits that a sparse list takes for one of its own. -/
def Wraps (set : CandidateSet) (n : Nat) : Prop :=
  match set with
  | sparse values => ∃ v ∈ values, v + 2 ^ 32 < n
  | _ => False

/-- A bit that a union with a longer sparse list masks away: the mask for the end of the union
goes to the last word of the shorter bitmap. -/
def CutAt (bits values : List Nat) (i : Nat) : Prop :=
  bits.length < bitmapWordLen (sparseDomainLen values) ∧ sparseDomainLen values % 64 ≠ 0 ∧
    i / 64 + 1 = bits.length ∧ sparseDomainLen values % 64 ≤ i % 64 ∧
      BitWords.get bits i = true ∧ i ∉ values

/-- One set is a bitmap, and a union with the other cuts a bit of it. -/
def CutTail (set other : CandidateSet) : Prop :=
  match set, other with
  | bitmap _ bits, sparse values => ∃ i, CutAt bits values i
  | sparse values, bitmap _ bits => ∃ i, CutAt bits values i
  | _, _ => False

section

variable {a b : CandidateSet} {i n : Nat}

theorem lt_domainLen (h : a.Denotes i) : i < a.domainLen := by
  cases a with
  | all len => exact h
  | sparse values => exact lt_sparseDomainLen h
  | bitmap len bits => exact h.1

/-- Below a bound without wrapping, `contains` tells what a set stands for. -/
theorem contains_iff (ha : a.WellFormed) (hw : ¬a.Wraps n) (hi : i < n) :
    a.contains i = true ↔ a.Denotes i := by
  cases a with
  | all len => exact decide_eq_true_iff
  | sparse values =>
    show sparseContains values (i % 2 ^ 32) = true ↔ i ∈ values
    rw [sparseContains_iff]
    by_cases hsmall : i < 2 ^ 32
    · rw [Nat.mod_eq_of_lt hsmall]
    · refine iff_of_false (fun hmem => hw ⟨_, hmem, ?_⟩) (fun hmem => hsmall (ha i hmem))
      have := Nat.div_add_mod i (2 ^ 32)
      omega
  | bitmap len bits =>
    show (if i ≥ len then false else candidateBitmapContains bits i) = true ↔
      i < len ∧ BitWords.get bits i = true
    rw [candidateBitmapContains_eq]
    by_cases hlt : i < len
    · rw [if_neg (by omega)]
      exact (and_iff_right hlt).symm
    · rw [if_pos (by omega)]
      exact iff_of_false nofun fun h => hlt h.1

/-- **What `len` counts**: the indexes a set stands for. -/
theorem len_eq_card (hn : a.domainLen ≤ n) :
    a.len = ((Finset.range n).filter a.Denotes).card := by
  have hbelow : ∀ i, a.Denotes i → i < n := fun i h => lt_of_lt_of_le (lt_domainLen h) hn
  cases a with
  | all len =>
    show len = _
    refine (Finset.card_range len).symm.trans (congrArg Finset.card ?_)
    ext i
    rw [Finset.mem_filter, Finset.mem_range, Finset.mem_range]
    exact ⟨fun h => ⟨hbelow i h, h⟩, And.right⟩
  | sparse values =>
    show sparseLen values = _
    rw [sparseLen_eq_card]
    congr 1
    ext i
    rw [Finset.mem_filter, Finset.mem_range, List.mem_toFinset]
    exact ⟨fun h => ⟨hbelow i h, h⟩, And.right⟩
  | bitmap len bits =>
    show bitmapLen len bits = _
    rw [bitmapLen_eq_card]
    congr 1
    ext i
    rw [Finset.mem_filter, Finset.mem_range, BitWords.mem_window]
    exact ⟨fun h => ⟨hbelow i ⟨h.1.2, h.2⟩, h.1.2, h.2⟩, fun h => ⟨⟨Nat.zero_le _, h.2.1⟩, h.2.2⟩⟩

theorem isEmpty_iff : a.isEmpty = true ↔ ∀ i, ¬a.Denotes i := by
  unfold isEmpty
  rw [beq_iff_eq, len_eq_card (Nat.le_refl _), Finset.card_eq_zero, Finset.filter_eq_empty_iff]
  constructor
  · intro h i hi
    exact h (Finset.mem_range.mpr (lt_domainLen hi)) hi
  · exact fun h i _ => h i

/-- Clamping a set, to no more than its domain, leaves what is below the end. -/
theorem denotes_clamp (ha : a.WellFormed) (hn : n ≤ a.domainLen) :
    (a.clamp n).Denotes i ↔ a.Denotes i ∧ i < n := by
  cases a with
  | all len =>
    show i < n ↔ i < len ∧ i < n
    have : n ≤ len := hn
    omega
  | sparse values => exact mem_clampSparse
  | bitmap len bits =>
    show i < n ∧ BitWords.get (clampBitmap bits n) i = true ↔
      (i < len ∧ BitWords.get bits i = true) ∧ i < n
    have hwords : bitmapWordLen n ≤ bits.length := by
      have hle : n ≤ len := hn
      rw [ha.1]
      unfold bitmapWordLen
      omega
    rw [get_clampBitmap_of_le hwords]
    have := ha.2 i
    tauto

/-- **An intersection stands for the common indexes.** -/
theorem denotes_intersect (ha : a.WellFormed) (hb : b.WellFormed) :
    (a.intersect b).Denotes i ↔ a.Denotes i ∧ b.Denotes i := by
  have hbelow : a.Denotes i ∧ b.Denotes i → i < min a.domainLen b.domainLen := fun h =>
    lt_min (lt_domainLen h.1) (lt_domainLen h.2)
  unfold intersect
  dsimp only
  by_cases hempty : (a.isEmpty || b.isEmpty || min a.domainLen b.domainLen == 0) = true
  · rw [if_pos hempty]
    refine iff_of_false (List.not_mem_nil) fun h => ?_
    simp only [Bool.or_eq_true, beq_iff_eq, isEmpty_iff] at hempty
    rcases hempty with (hempty | hempty) | hzero
    · exact hempty i h.1
    · exact hempty i h.2
    · have := hbelow h
      omega
  · rw [if_neg hempty]
    have hle : min a.domainLen b.domainLen ≤ a.domainLen := min_le_left _ _
    have hle' : min a.domainLen b.domainLen ≤ b.domainLen := min_le_right _ _
    generalize min a.domainLen b.domainLen = maxLen at *
    cases a with
    | all len =>
      have hclamp := denotes_clamp (i := i) hb hle'
      refine hclamp.trans ⟨fun h => ⟨lt_of_lt_of_le h.2 hle, h.1⟩, fun h => ⟨h.2, hbelow h⟩⟩
    | sparse values =>
      cases b with
      | all len =>
        have hclamp := denotes_clamp (i := i) ha hle
        refine hclamp.trans ⟨fun h => ⟨h.1, lt_of_lt_of_le h.2 hle'⟩, fun h => ⟨h.1, hbelow h⟩⟩
      | sparse right =>
        show i ∈ intersectSparseSparse values right maxLen ↔ i ∈ values ∧ i ∈ right
        rw [mem_intersectSparseSparse]
        exact and_iff_left_of_imp hbelow
      | bitmap len bits =>
        show i ∈ intersectSparseBitmap values len bits maxLen ↔
          i ∈ values ∧ i < len ∧ BitWords.get bits i = true
        rw [mem_intersectSparseBitmap]
        have := hbelow
        tauto
    | bitmap len bits =>
      cases b with
      | all other =>
        have hclamp := denotes_clamp (i := i) ha hle
        refine hclamp.trans ⟨fun h => ⟨h.1, lt_of_lt_of_le h.2 hle'⟩, fun h => ⟨h.1, hbelow h⟩⟩
      | sparse values =>
        show i ∈ intersectSparseBitmap values len bits maxLen ↔
          (i < len ∧ BitWords.get bits i = true) ∧ i ∈ values
        rw [mem_intersectSparseBitmap]
        have := hbelow
        tauto
      | bitmap other right =>
        show i < maxLen ∧ BitWords.get (intersectBitmapBitmap bits right maxLen) i = true ↔
          (i < len ∧ BitWords.get bits i = true) ∧ i < other ∧ BitWords.get right i = true
        unfold intersectBitmapBitmap
        rw [get_combineBitmaps (f := and) fun _ _ _ => Nat.testBit_and _ _ _, Bool.and_eq_true]
        have := ha.2 i
        have := hb.2 i
        have := hbelow
        tauto

/-- A union of anything with all of a range holds what either does. -/
theorem denotes_union_of_all (h : (∃ len, a = all len) ∨ ∃ len, b = all len)
    (hi : a.Denotes i ∨ b.Denotes i) : (a.union b).Denotes i := by
  have hbelow : i < max a.domainLen b.domainLen := by
    rcases hi with hi | hi
    · exact lt_max_of_lt_left (lt_domainLen hi)
    · exact lt_max_of_lt_right (lt_domainLen hi)
  rcases h with ⟨len, rfl⟩ | ⟨len, rfl⟩
  · exact hbelow
  · cases a <;> exact hbelow

/-- What a bitmap and a sparse list make. -/
theorem denotes_union_sparse {len : Nat} {bits : List Nat} (ha : (bitmap len bits).WellFormed)
    (values : List Nat) (i : Nat) :
    i < max len (sparseDomainLen values) ∧
        BitWords.get (unionBitmapSparse bits values (max len (sparseDomainLen values))) i = true ↔
      ((i < len ∧ BitWords.get bits i = true) ∨ i ∈ values) ∧ ¬CutAt bits values i := by
  rw [get_unionBitmapSparse, get_clampBitmap]
  have hwords : bits.length = bitmapWordLen len := ha.1
  have hbit := ha.2 i
  have hvalue : i ∈ values → i < sparseDomainLen values := lt_sparseDomainLen
  unfold CutAt
  rw [hwords]
  unfold bitmapWordLen
  generalize sparseDomainLen values = d at *
  by_cases hmem : i ∈ values
  · have := hvalue hmem
    refine iff_of_true ⟨by omega, .inr ⟨hmem, by omega⟩⟩ ⟨.inr hmem, ?_⟩
    exact fun h => h.2.2.2.2.2 hmem
  · by_cases hget : BitWords.get bits i = true
    · have hlt := hbit hget
      simp only [hget, hmem, hlt, true_and, false_and, or_false, and_true, not_false_eq_true]
      -- The end of the union is that of the bitmap, unless the list is longer.
      rcases le_total d len with hle | hle
      · rw [max_eq_left hle]
        omega
      · rw [max_eq_right hle]
        omega
    · simp [hget, hmem]

/-- **What a union stands for**, when neither set is all of a range. -/
theorem denotes_union (ha : a.WellFormed) (hb : b.WellFormed) (hna : ∀ len, a ≠ all len)
    (hnb : ∀ len, b ≠ all len) (hcut : ¬CutTail a b) :
    (a.union b).Denotes i ↔ a.Denotes i ∨ b.Denotes i := by
  cases a with
  | all len => exact absurd rfl (hna len)
  | sparse values =>
    cases b with
    | all len => exact absurd rfl (hnb len)
    | sparse right =>
      show i ∈ unionSparseSparse values right _ ↔ i ∈ values ∨ i ∈ right
      rw [mem_unionSparseSparse]
      refine and_iff_left_of_imp fun h => ?_
      rcases h with h | h
      · exact lt_max_of_lt_left (lt_sparseDomainLen h)
      · exact lt_max_of_lt_right (lt_sparseDomainLen h)
    | bitmap len bits =>
      have hunion := denotes_union_sparse hb values i
      rw [max_comm] at hunion
      refine hunion.trans ((and_iff_left fun h => hcut ⟨i, h⟩).trans or_comm)
  | bitmap len bits =>
    cases b with
    | all len => exact absurd rfl (hnb len)
    | sparse values =>
      have hunion := denotes_union_sparse ha values i
      exact hunion.trans (and_iff_left fun h => hcut ⟨i, h⟩)
    | bitmap other right =>
      show i < max len other ∧ BitWords.get (unionBitmapBitmap bits right (max len other)) i = true ↔
        (i < len ∧ BitWords.get bits i = true) ∨ i < other ∧ BitWords.get right i = true
      unfold unionBitmapBitmap
      rw [get_combineBitmaps (f := or) fun _ _ _ => Nat.testBit_or _ _ _, Bool.or_eq_true]
      have := ha.2 i
      have := hb.2 i
      have := @lt_max_iff Nat _ i len other
      tauto

theorem wellFormed_clamp (ha : a.WellFormed) (hn : n ≤ a.domainLen) : (a.clamp n).WellFormed := by
  cases a with
  | all len => trivial
  | sparse values => exact fun v hv => ha v (mem_clampSparse.mp hv).1
  | bitmap len bits =>
    have hwords : bitmapWordLen n ≤ bits.length := by
      have hle : n ≤ len := hn
      rw [ha.1]
      unfold bitmapWordLen
      omega
    refine ⟨?_, fun i hget => ((get_clampBitmap_of_le hwords).mp hget).2⟩
    rw [length_clampBitmap, Nat.min_eq_left hwords]

/-- **An intersection is well formed.** -/
theorem wellFormed_intersect (ha : a.WellFormed) (hb : b.WellFormed) :
    (a.intersect b).WellFormed := by
  unfold intersect
  dsimp only
  by_cases hempty : (a.isEmpty || b.isEmpty || min a.domainLen b.domainLen == 0) = true
  · rw [if_pos hempty]
    exact nofun
  · rw [if_neg hempty]
    have hle : min a.domainLen b.domainLen ≤ a.domainLen := min_le_left _ _
    have hle' : min a.domainLen b.domainLen ≤ b.domainLen := min_le_right _ _
    generalize min a.domainLen b.domainLen = maxLen at *
    cases a with
    | all len => exact wellFormed_clamp hb hle'
    | sparse values =>
      cases b with
      | all len => exact wellFormed_clamp ha hle
      | sparse right => exact fun v hv => ha v (mem_intersectSparseSparse.mp hv).1.1
      | bitmap len bits => exact fun v hv => ha v (mem_intersectSparseBitmap.mp hv).1
    | bitmap len bits =>
      cases b with
      | all other => exact wellFormed_clamp ha hle
      | sparse values => exact fun v hv => hb v (mem_intersectSparseBitmap.mp hv).1
      | bitmap other right =>
        refine ⟨length_combineBitmaps _ _ _, fun i hget => ?_⟩
        exact ((get_combineBitmaps (f := and) (fun _ _ _ => Nat.testBit_and _ _ _) _ _).mp hget).2

/-- **A union is well formed.** -/
theorem wellFormed_union (ha : a.WellFormed) (hb : b.WellFormed) : (a.union b).WellFormed := by
  have hsparse : ∀ {bits values : List Nat} {maxLen : Nat},
      (bitmap maxLen (unionBitmapSparse bits values maxLen)).WellFormed :=
    ⟨length_unionBitmapSparse, fun _ hget => lt_of_get_unionBitmapSparse hget⟩
  cases a with
  | all len => cases b <;> trivial
  | sparse values =>
    cases b with
    | all len => trivial
    | sparse right =>
      intro v hv
      rcases (mem_unionSparseSparse.mp hv).1 with hv | hv
      · exact ha v hv
      · exact hb v hv
    | bitmap len bits => exact hsparse
  | bitmap len bits =>
    cases b with
    | all other => trivial
    | sparse values => exact hsparse
    | bitmap other right =>
      refine ⟨length_combineBitmaps _ _ _, fun i hget => ?_⟩
      exact ((get_combineBitmaps (f := or) (fun _ _ _ => Nat.testBit_or _ _ _) _ _).mp hget).2

/-- A bit that is cut is in the bitmap, and not in the union. -/
theorem exists_of_cutTail (ha : a.WellFormed) (hb : b.WellFormed) (h : CutTail a b) :
    ∃ i, (a.Denotes i ∨ b.Denotes i) ∧ ¬(a.union b).Denotes i := by
  cases a with
  | all len => cases h
  | sparse values =>
    cases b with
    | all len => cases h
    | sparse right => cases h
    | bitmap len bits =>
      obtain ⟨i, hi⟩ := h
      have hget := hi.2.2.2.2.1
      have hunion := denotes_union_sparse hb values i
      rw [max_comm] at hunion
      exact ⟨i, .inr ⟨hb.2 i hget, hget⟩, fun hd => (hunion.mp hd).2 hi⟩
  | bitmap len bits =>
    cases b with
    | all len => cases h
    | sparse values =>
      obtain ⟨i, hi⟩ := h
      have hget := hi.2.2.2.2.1
      have hunion := denotes_union_sparse ha values i
      exact ⟨i, .inl ⟨ha.2 i hget, hget⟩, fun hd => (hunion.mp hd).2 hi⟩
    | bitmap other right => cases h

/-! ## The laws -/

/-- An intersection is a list with members only if one of the sets is a list. -/
theorem intersect_eq_sparse {out : List Nat} (h : a.intersect b = sparse out) :
    out = [] ∨ (∃ values, a = sparse values) ∨ ∃ values, b = sparse values := by
  unfold intersect at h
  dsimp only at h
  by_cases hempty : (a.isEmpty || b.isEmpty || min a.domainLen b.domainLen == 0) = true
  · rw [if_pos hempty] at h
    cases h
    exact .inl rfl
  · rw [if_neg hempty] at h
    cases a with
    | sparse values => exact .inr (.inl ⟨values, rfl⟩)
    | all len =>
      cases b with
      | sparse values => exact .inr (.inr ⟨values, rfl⟩)
      | all other => cases h
      | bitmap other bits => cases h
    | bitmap len bits =>
      cases b with
      | sparse values => exact .inr (.inr ⟨values, rfl⟩)
      | all other => cases h
      | bitmap other right => cases h

/-- The operations take the indexes of a list from their operands, and wrap where these do. -/
theorem wraps_intersect (ha : a.WellFormed) (hb : b.WellFormed) (h : (a.intersect b).Wraps n) :
    a.Wraps n ∨ b.Wraps n := by
  have hboth := fun v => denotes_intersect (i := v) ha hb
  cases hout : a.intersect b with
  | all len =>
    rw [hout] at h
    cases h
  | bitmap len bits =>
    rw [hout] at h
    cases h
  | sparse out =>
    rw [hout] at h hboth
    obtain ⟨v, hv, hlt⟩ := h
    obtain ⟨hav, hbv⟩ := (hboth v).mp hv
    rcases intersect_eq_sparse hout with rfl | ⟨values, rfl⟩ | ⟨values, rfl⟩
    · cases hv
    · exact .inl ⟨v, hav, hlt⟩
    · exact .inr ⟨v, hbv, hlt⟩

theorem wraps_union (h : (a.union b).Wraps n) : a.Wraps n ∨ b.Wraps n := by
  cases a with
  | all len => cases b <;> cases h
  | sparse values =>
    cases b with
    | all len => cases h
    | bitmap len bits => cases h
    | sparse right =>
      obtain ⟨v, hv, hlt⟩ := h
      rcases (mem_unionSparseSparse.mp hv).1 with hmem | hmem
      · exact .inl ⟨v, hmem, hlt⟩
      · exact .inr ⟨v, hmem, hlt⟩
  | bitmap len bits => cases b <;> cases h

/-- **A list that wraps counts too few.** -/
theorem len_ne_of_wraps (ha : a.WellFormed) (h : a.Wraps n) :
    a.len ≠ ((Finset.range n).filter (a.contains · = true)).card := by
  cases a with
  | all len => cases h
  | bitmap len bits => cases h
  | sparse values =>
    obtain ⟨v, hv, hlt⟩ := h
    have hsmall := ha v hv
    have hsub : insert (v + 2 ^ 32) values.toFinset ⊆
        (Finset.range n).filter ((sparse values).contains · = true) := by
      intro i hi
      rw [Finset.mem_filter, Finset.mem_range]
      show i < n ∧ sparseContains values (i % 2 ^ 32) = true
      rw [sparseContains_iff]
      rcases Finset.mem_insert.mp hi with rfl | hi
      · refine ⟨hlt, ?_⟩
        rwa [Nat.add_mod_right, Nat.mod_eq_of_lt hsmall]
      · have hmem := List.mem_toFinset.mp hi
        have := ha i hmem
        refine ⟨by omega, ?_⟩
        rwa [Nat.mod_eq_of_lt this]
    have hnew : v + 2 ^ 32 ∉ values.toFinset := fun hmem => by
      have := ha _ (List.mem_toFinset.mp hmem)
      omega
    have hcard := Finset.card_le_card hsub
    rw [Finset.card_insert_of_notMem hnew, ← sparseLen_eq_card] at hcard
    show sparseLen values ≠ _
    omega

/-- What the operations promise of the indexes below `n`: an intersection contains what both sets
contain; a union contains what either does, and nothing else unless one of the sets is all of a
range; and a set is as long as the number of indexes it contains. -/
structure Laws (a b : CandidateSet) (n : Nat) : Prop where
  intersect : ∀ i < n, (a.intersect b).contains i = true ↔
    a.contains i = true ∧ b.contains i = true
  union : ∀ i < n, a.contains i = true ∨ b.contains i = true → (a.union b).contains i = true
  unionOnly : (∀ len, a ≠ all len) → (∀ len, b ≠ all len) → ∀ i < n,
    (a.union b).contains i = true → a.contains i = true ∨ b.contains i = true
  leftLen : a.len = ((Finset.range n).filter (a.contains · = true)).card
  rightLen : b.len = ((Finset.range n).filter (b.contains · = true)).card

theorem len_eq_card_contains (ha : a.WellFormed) (hn : a.domainLen ≤ n) (hw : ¬a.Wraps n) :
    a.len = ((Finset.range n).filter (a.contains · = true)).card := by
  rw [len_eq_card hn]
  congr 1
  refine Finset.filter_congr fun i hi => ?_
  exact (contains_iff ha hw (Finset.mem_range.mp hi)).symm

/-- **When the operations keep their laws.** For well-formed sets within the first `n` indexes the
laws hold exactly when no list wraps below `n` and the union cuts no bit of a bitmap. -/
theorem candidateSet_laws_iff (ha : a.WellFormed) (hb : b.WellFormed) (hna : a.domainLen ≤ n)
    (hnb : b.domainLen ≤ n) :
    Laws a b n ↔ ¬a.Wraps n ∧ ¬b.Wraps n ∧ ¬CutTail a b := by
  constructor
  · intro h
    have hwa : ¬a.Wraps n := fun hw => len_ne_of_wraps ha hw h.leftLen
    have hwb : ¬b.Wraps n := fun hw => len_ne_of_wraps hb hw h.rightLen
    have hwu : ¬(a.union b).Wraps n := fun hw => (wraps_union hw).elim hwa hwb
    refine ⟨hwa, hwb, fun hcut => ?_⟩
    obtain ⟨i, hi, hlost⟩ := exists_of_cutTail ha hb hcut
    have hlt : i < n := by
      rcases hi with hi | hi
      · exact lt_of_lt_of_le (lt_domainLen hi) hna
      · exact lt_of_lt_of_le (lt_domainLen hi) hnb
    rw [← contains_iff ha hwa hlt, ← contains_iff hb hwb hlt] at hi
    rw [← contains_iff (wellFormed_union ha hb) hwu hlt] at hlost
    exact hlost (h.union i hlt hi)
  · rintro ⟨hwa, hwb, hcut⟩
    have hwu : ¬(a.union b).Wraps n := fun hw => (wraps_union hw).elim hwa hwb
    have hwi : ¬(a.intersect b).Wraps n := fun hw => (wraps_intersect ha hb hw).elim hwa hwb
    -- Each membership below the bound is what the sets stand for.
    refine ⟨fun i hi => ?_, fun i hi => ?_, fun hna' hnb' i hi => ?_, ?_, ?_⟩
    · rw [contains_iff ha hwa hi, contains_iff hb hwb hi,
        contains_iff (wellFormed_intersect ha hb) hwi hi]
      exact denotes_intersect ha hb
    · rw [contains_iff ha hwa hi, contains_iff hb hwb hi,
        contains_iff (wellFormed_union ha hb) hwu hi]
      by_cases hall : (∃ len, a = all len) ∨ ∃ len, b = all len
      · exact denotes_union_of_all hall
      · push Not at hall
        exact (denotes_union ha hb hall.1 hall.2 hcut).mpr
    · rw [contains_iff ha hwa hi, contains_iff hb hwb hi,
        contains_iff (wellFormed_union ha hb) hwu hi]
      exact (denotes_union ha hb hna' hnb' hcut).mp
    · exact len_eq_card_contains ha hna hwa
    · exact len_eq_card_contains hb hnb hwb

end

/-- A bitmap of 64 indexes and a list with index 69: the mask for the end of their union clears
the bits from 6 on of the only word of the bitmap. -/
theorem union_loses_candidates :
    (bitmap 64 [BitWords.ones]).contains 10 = true ∧
      ((bitmap 64 [BitWords.ones]).union (sparse [69])).contains 10 = false ∧
      ¬Laws (bitmap 64 [BitWords.ones]) (sparse [69]) (2 ^ 32) := by
  have hin : (bitmap 64 [BitWords.ones]).contains 10 = true := by decide +kernel
  have hout : ((bitmap 64 [BitWords.ones]).union (sparse [69])).contains 10 = false := by
    decide +kernel
  refine ⟨hin, hout, fun h => ?_⟩
  have hkept := h.union 10 (by decide) (.inl hin)
  rw [hout] at hkept
  cases hkept

/-- Sets whose lists end within the words of the bitmap keep the laws. -/
theorem candidateSet_laws_within :
    Laws (bitmap 70 [5, 3]) (sparse [4, 2, 2, 69]) (2 ^ 32) ↔
      ¬(bitmap 70 [5, 3]).Wraps (2 ^ 32) ∧ ¬(sparse [4, 2, 2, 69]).Wraps (2 ^ 32) ∧
        ¬CutTail (bitmap 70 [5, 3]) (sparse [4, 2, 2, 69]) := by
  have hbitmap : (bitmap 70 [5, 3]).WellFormed := by
    have hfew : ∀ i < 128, BitWords.get [5, 3] i = true → i < 70 := by decide +kernel
    refine ⟨rfl, fun i hget => ?_⟩
    have hword : i / 64 < 2 := lt_of_get hget
    exact hfew i (by omega) hget
  have hlist : (sparse [4, 2, 2, 69]).WellFormed := by
    show ∀ v ∈ [4, 2, 2, 69], v < 2 ^ 32
    decide
  exact candidateSet_laws_iff hbitmap hlist (by decide) (by decide)

end CandidateSet

end Cove
