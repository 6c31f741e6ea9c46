import Mathlib.Data.List.Sort

/-!
# Grouping a list by key

Collecting the elements of a list under their keys, keys ascending and each group in
the order of the list: what inserting into an ordered map of vectors leaves behind.

- `grouped`: the groups.
- `mem_grouped`: **a group is the sublist of its key**, and every key of the list has one.
- `sorted_grouped`: the keys are strictly ascending.
- `keys_grouped_perm`: the keys do not depend on the order of the list.
- `flatMap_grouped_perm`: the groups hold the elements of the list.
- `grouped_map`: grouping commutes with a map that keeps the keys.
-/

namespace Grouping

variable {κ : Type u} {α : Type v} [LinearOrder κ]

/-- Push an element onto the group of its key. -/
def insertGroup (k : κ) (a : α) : List (κ × List α) → List (κ × List α)
  | [] => [(k, [a])]
  | g :: gs =>
    if k < g.1 then (k, [a]) :: g :: gs
    else if k = g.1 then (k, g.2 ++ [a]) :: gs
    else g :: insertGroup k a gs

/-- Push the elements one after the other. -/
def groupOnto (key : α → κ) (l : List α) (gs : List (κ × List α)) : List (κ × List α) :=
  l.foldl (fun gs a => insertGroup (key a) a gs) gs

/-- The groups of a list. -/
def grouped (key : α → κ) (l : List α) : List (κ × List α) := groupOnto key l []

/-! ## One insertion -/

variable {gs : List (κ × List α)} {l : List α}

variable {k : κ} {a : α}

theorem mem_keys_insertGroup {k' : κ} :
    k' ∈ (insertGroup k a gs).map Prod.fst ↔ k' = k ∨ k' ∈ gs.map Prod.fst := by
  induction gs with
  | nil => simp [insertGroup]
  | cons g gs ih =>
    unfold insertGroup
    split
    · simp
    · split
      · next heq => simp [heq]
      · rw [List.map_cons, List.mem_cons, ih, List.map_cons, List.mem_cons]
        tauto

theorem sorted_insertGroup (hs : (gs.map Prod.fst).Pairwise (· < ·)) :
    ((insertGroup k a gs).map Prod.fst).Pairwise (· < ·) := by
  induction gs with
  | nil => exact List.pairwise_singleton _ _
  | cons g gs ih =>
    obtain ⟨hg, hgs⟩ := List.pairwise_cons.mp hs
    unfold insertGroup
    split
    · next hlt =>
      refine List.pairwise_cons.mpr ⟨fun k' hk' => ?_, hs⟩
      rcases List.mem_cons.mp hk' with rfl | hk'
      · exact hlt
      · exact hlt.trans (hg k' hk')
    · next hge =>
      split
      · next heq => exact List.pairwise_cons.mpr ⟨heq ▸ hg, hgs⟩
      · next hne =>
        refine List.pairwise_cons.mpr ⟨fun k' hk' => ?_, ih hgs⟩
        rcases mem_keys_insertGroup.mp hk' with rfl | hk'
        · exact lt_of_le_of_ne (not_lt.mp hge) fun h => hne h.symm
        · exact hg k' hk'

/-- The group of a key, empty when there is none. -/
def groupOf (k : κ) (gs : List (κ × List α)) : List α :=
  ((gs.find? fun g => g.1 = k).map Prod.snd).getD []

theorem groupOf_cons (k : κ) (g : κ × List α) (gs : List (κ × List α)) :
    groupOf k (g :: gs) = if g.1 = k then g.2 else groupOf k gs := by
  by_cases h : g.1 = k <;> simp [groupOf, h]

/-- Only the group of the element's key grows. -/
theorem groupOf_insertGroup {k' : κ} (hs : (gs.map Prod.fst).Pairwise (· < ·)) :
    groupOf k' (insertGroup k a gs) = groupOf k' gs ++ if k = k' then [a] else [] := by
  induction gs with
  | nil => by_cases h : k = k' <;> simp [insertGroup, groupOf, h]
  | cons g gs ih =>
    obtain ⟨hg, hgs⟩ := List.pairwise_cons.mp hs
    unfold insertGroup
    split
    · next hlt =>
      rw [groupOf_cons]
      by_cases h : k = k'
      · -- the key is below all present ones, so its group is new
        have hnone : groupOf k' (g :: gs) = [] := by
          have : (g :: gs).find? (fun g => g.1 = k') = none := by
            refine List.find?_eq_none.mpr fun g' hg' => ?_
            rcases List.mem_cons.mp hg' with rfl | hg'
            · simpa [← h] using hlt.ne'
            · simpa [← h] using (hlt.trans (hg _ (List.mem_map_of_mem hg'))).ne'
          unfold groupOf
          rw [this]
          rfl
        rw [if_pos h, hnone, if_pos h]
        rfl
      · rw [if_neg h, if_neg h, List.append_nil]
    · split
      · next heq =>
        rw [groupOf_cons, groupOf_cons]
        by_cases h : k = k'
        · rw [if_pos h, if_pos (heq ▸ h), if_pos h]
        · rw [if_neg h, if_neg (heq ▸ h), if_neg h, List.append_nil]
      · next hne =>
        rw [groupOf_cons, groupOf_cons, ih hgs]
        by_cases h : g.1 = k'
        · rw [if_pos h, if_pos h, if_neg fun hk => hne (hk.trans h.symm), List.append_nil]
        · rw [if_neg h, if_neg h]

/-! ## The whole list -/

section

variable (key : α → κ)

theorem sorted_groupOnto (hs : (gs.map Prod.fst).Pairwise (· < ·)) :
    ((groupOnto key l gs).map Prod.fst).Pairwise (· < ·) := by
  induction l generalizing gs with
  | nil => exact hs
  | cons a l ih => exact ih (sorted_insertGroup hs)

theorem groupOf_groupOnto (k : κ) (hs : (gs.map Prod.fst).Pairwise (· < ·)) :
    groupOf k (groupOnto key l gs) = groupOf k gs ++ l.filter fun a => key a = k := by
  induction l generalizing gs with
  | nil => simp [groupOnto]
  | cons a l ih =>
    show groupOf k (groupOnto key l (insertGroup (key a) a gs)) = _
    rw [ih (sorted_insertGroup hs), groupOf_insertGroup hs, List.append_assoc]
    by_cases h : key a = k <;> simp [h]

theorem mem_keys_groupOnto :
    k ∈ (groupOnto key l gs).map Prod.fst ↔ k ∈ gs.map Prod.fst ∨ ∃ a ∈ l, key a = k := by
  induction l generalizing gs with
  | nil => simp [groupOnto]
  | cons a l ih =>
    show k ∈ (groupOnto key l (insertGroup (key a) a gs)).map Prod.fst ↔ _
    rw [ih, mem_keys_insertGroup]
    simp only [List.mem_cons, exists_eq_or_imp]
    tauto

theorem sorted_grouped (l : List α) : ((grouped key l).map Prod.fst).Pairwise (· < ·) :=
  sorted_groupOnto key .nil

variable {key}

/-- In a list with distinct keys, a listed group is the group of its key. -/
theorem groupOf_of_mem (hs : (gs.map Prod.fst).Pairwise (· < ·))
    {g : κ × List α} (hg : g ∈ gs) : groupOf g.1 gs = g.2 := by
  induction gs with
  | nil => cases hg
  | cons g' gs ih =>
    obtain ⟨hlt, hgs⟩ := List.pairwise_cons.mp hs
    rw [groupOf_cons]
    rcases List.mem_cons.mp hg with rfl | hg
    · rw [if_pos rfl]
    · rw [if_neg (hlt _ (List.mem_map_of_mem hg)).ne, ih hgs hg]

/-- Every element has a group. -/
theorem mem_keys_grouped :
    k ∈ (grouped key l).map Prod.fst ↔ ∃ a ∈ l, key a = k := by
  unfold grouped
  rw [mem_keys_groupOnto]
  simp

/-- **A group is the sublist of its key.** -/
theorem mem_grouped {as : List α} :
    (k, as) ∈ grouped key l ↔ as = (l.filter fun a => key a = k) ∧ as ≠ [] := by
  have hs := sorted_grouped key l
  have hof : ∀ k, groupOf k (grouped key l) = l.filter fun a => key a = k := fun k =>
    groupOf_groupOnto key k .nil
  have hkeys : ∀ k, k ∈ (grouped key l).map Prod.fst ↔ ∃ a ∈ l, key a = k := fun k =>
    mem_keys_grouped
  constructor
  · intro h
    have has : as = l.filter fun a => key a = k := by rw [← hof, groupOf_of_mem hs h]
    refine ⟨has, ?_⟩
    obtain ⟨a, ha, hk⟩ := (hkeys k).mp (List.mem_map_of_mem (f := Prod.fst) h)
    exact List.ne_nil_of_mem (has ▸ List.mem_filter.mpr ⟨ha, by simpa using hk⟩)
  · rintro ⟨rfl, hne⟩
    obtain ⟨a, ha⟩ := List.exists_mem_of_ne_nil _ hne
    obtain ⟨hal, hk⟩ := List.mem_filter.mp ha
    obtain ⟨⟨k', as⟩, hg, rfl⟩ := List.mem_map.mp ((hkeys k).mpr ⟨a, hal, by simpa using hk⟩)
    have := groupOf_of_mem hs hg
    rw [hof] at this
    exact this ▸ hg

/-- The groups, key by key. -/
theorem grouped_eq_map (l : List α) :
    grouped key l = ((grouped key l).map Prod.fst).map fun k => (k, l.filter fun a => key a = k) := by
  rw [List.map_map]
  conv_lhs => rw [← List.map_id (grouped key l)]
  refine List.map_congr_left fun g hg => ?_
  obtain ⟨k, as⟩ := g
  rw [(mem_grouped.mp hg).1]
  rfl

/-- The keys do not depend on the order of the list. -/
theorem keys_grouped_perm {l' : List α} (h : l.Perm l') :
    (grouped key l).map Prod.fst = (grouped key l').map Prod.fst := by
  have hs := sorted_grouped key l
  have hs' := sorted_grouped key l'
  refine List.Perm.eq_of_pairwise (fun a b _ _ hab hba => absurd hab hba.not_gt) hs hs' ?_
  refine (List.perm_ext_iff_of_nodup (hs.imp ne_of_lt) (hs'.imp ne_of_lt)).mpr fun k => ?_
  rw [mem_keys_grouped, mem_keys_grouped]
  exact exists_congr fun a => and_congr_left fun _ => h.mem_iff

end

/-! ## All groups -/

theorem insertGroup_perm (k : κ) (a : α) (gs : List (κ × List α)) :
    ((insertGroup k a gs).flatMap Prod.snd).Perm (gs.flatMap Prod.snd ++ [a]) := by
  induction gs with
  | nil => rfl
  | cons g gs ih =>
    unfold insertGroup
    split
    · exact (List.perm_append_singleton a _).symm
    · split
      · simp only [List.flatMap_cons, List.append_assoc]
        exact List.perm_append_comm.append_left g.2
      · rw [List.flatMap_cons, List.flatMap_cons, List.append_assoc]
        exact ih.append_left g.2

/-- The groups hold the elements of the list. -/
theorem flatMap_grouped_perm (key : α → κ) (l : List α) :
    ((grouped key l).flatMap Prod.snd).Perm l := by
  have hgen : ∀ gs : List (κ × List α),
      ((groupOnto key l gs).flatMap Prod.snd).Perm (gs.flatMap Prod.snd ++ l) := by
    induction l with
    | nil => exact fun gs => (List.append_nil _).symm ▸ .refl _
    | cons a l ih =>
      intro gs
      refine (ih (insertGroup (key a) a gs)).trans ?_
      refine ((insertGroup_perm (key a) a gs).append_right l).trans ?_
      rw [List.append_assoc]
      rfl
  exact hgen []

/-! ## Mapping the elements -/

variable {β : Type w}

theorem insertGroup_map (f : α → β) (k : κ) (a : α) (gs : List (κ × List α)) :
    insertGroup k (f a) (gs.map fun g => (g.1, g.2.map f)) =
      (insertGroup k a gs).map fun g => (g.1, g.2.map f) := by
  induction gs with
  | nil => rfl
  | cons g gs ih =>
    unfold insertGroup
    simp only [List.map_cons]
    split
    · rfl
    · split
      · simp
      · rw [ih, List.map_cons]

/-- Grouping commutes with a map that keeps the keys. -/
theorem grouped_map {key : α → κ} {key' : β → κ} (f : α → β) (h : ∀ a, key' (f a) = key a)
    (l : List α) : grouped key' (l.map f) = (grouped key l).map fun g => (g.1, g.2.map f) := by
  have hgen : ∀ gs : List (κ × List α),
      groupOnto key' (l.map f) (gs.map fun g => (g.1, g.2.map f)) =
        (groupOnto key l gs).map fun g => (g.1, g.2.map f) := by
    induction l with
    | nil => exact fun gs => rfl
    | cons a l ih =>
      intro gs
      show groupOnto key' (l.map f) (insertGroup (key' (f a)) (f a) _) = _
      rw [h, insertGroup_map]
      exact ih _
  exact hgen []

end Grouping
