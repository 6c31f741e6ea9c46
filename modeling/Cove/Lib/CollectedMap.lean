import Mathlib.Data.List.Nodup
import Cove.Lib.AssocMap

/-!
# Collecting entries into a map

A map collected from a list of entries keeps one entry a key.

- `sorted_collect`, `mem_keys_collect`: its keys are those of the entries, strictly ascending.
- `collect_perm`: **with distinct keys every entry is kept**.
- `length_collect_lt`: **with a repeated key an entry is lost**.
-/

namespace AssocMap

variable {κ : Type u} {υ : Type v} [LinearOrder κ]

variable {v : υ} {k : κ} {m entries : List (κ × υ)}

theorem mem_keys_insert {k' : κ} :
    k' ∈ (insert k v m).map Prod.fst ↔ k' = k ∨ k' ∈ m.map Prod.fst := by
  rw [← get_isSome, get_insert, ← get_isSome]
  by_cases h : k = k'
  · simp [h]
  · simp [h, Ne.symm h]

theorem sorted_insert (hs : (m.map Prod.fst).Pairwise (· < ·)) :
    ((insert k v m).map Prod.fst).Pairwise (· < ·) := by
  induction m with
  | nil => exact List.pairwise_singleton _ _
  | cons e m ih =>
    obtain ⟨he, hm⟩ := List.pairwise_cons.mp hs
    unfold insert
    split
    · next hlt =>
      refine List.pairwise_cons.mpr ⟨fun k' hk' => ?_, hs⟩
      rcases List.mem_cons.mp hk' with rfl | hk'
      · exact hlt
      · exact hlt.trans (he k' hk')
    · next hge =>
      split
      · next hlt =>
        refine List.pairwise_cons.mpr ⟨fun k' hk' => ?_, ih hm⟩
        rcases mem_keys_insert.mp hk' with rfl | hk'
        · exact hlt
        · exact he k' hk'
      · next hle =>
        have heq : k = e.1 := le_antisymm (not_lt.mp hle) (not_lt.mp hge)
        exact List.pairwise_cons.mpr ⟨heq ▸ he, hm⟩

/-- A new key adds its entry. -/
theorem insert_perm (h : k ∉ m.map Prod.fst) :
    (insert k v m).Perm ((k, v) :: m) := by
  induction m with
  | nil => exact .refl _
  | cons e m ih =>
    obtain ⟨hne, hrest⟩ := not_or.mp fun hor => h (List.mem_cons.mpr hor)
    unfold insert
    split
    · exact .refl _
    · next hge =>
      split
      · exact ((ih hrest).cons e).trans (.swap _ _ _)
      · next hle => exact absurd (le_antisymm (not_lt.mp hle) (not_lt.mp hge)) hne

theorem length_insert_of_mem (hs : (m.map Prod.fst).Pairwise (· < ·)) (h : k ∈ m.map Prod.fst) :
    (insert k v m).length = m.length := by
  induction m with
  | nil => cases h
  | cons e m ih =>
    obtain ⟨he, hm⟩ := List.pairwise_cons.mp hs
    unfold insert
    split
    · next hlt =>
      -- a smaller key is not in the map
      rcases List.mem_cons.mp h with rfl | h
      · exact absurd hlt (lt_irrefl _)
      · exact absurd hlt (he k h).not_gt
    · split
      · next hlt =>
        rcases List.mem_cons.mp h with rfl | h
        · exact absurd hlt (lt_irrefl _)
        · rw [List.length_cons, ih hm h, List.length_cons]
      · rfl

/-! ## The whole list -/

theorem sorted_foldl_insert (hs : (m.map Prod.fst).Pairwise (· < ·)) :
    ((entries.foldl (fun m e => insert e.1 e.2 m) m).map Prod.fst).Pairwise (· < ·) := by
  induction entries generalizing m with
  | nil => exact hs
  | cons e entries ih => exact ih (sorted_insert hs)

theorem mem_keys_foldl_insert :
    k ∈ (entries.foldl (fun m e => insert e.1 e.2 m) m).map Prod.fst ↔
      k ∈ m.map Prod.fst ∨ k ∈ entries.map Prod.fst := by
  induction entries generalizing m with
  | nil => simp
  | cons e entries ih =>
    rw [List.foldl_cons, ih, mem_keys_insert, List.map_cons, List.mem_cons]
    tauto

/-- The keys of a collected map are those of the entries. -/
theorem mem_keys_collect :
    k ∈ (collect entries).map Prod.fst ↔ k ∈ entries.map Prod.fst :=
  mem_keys_foldl_insert.trans (or_iff_right List.not_mem_nil)

/-- The keys of a collected map ascend. -/
theorem sorted_collect (entries : List (κ × υ)) :
    ((collect entries).map Prod.fst).Pairwise (· < ·) := sorted_foldl_insert .nil

theorem nodup_collect (entries : List (κ × υ)) : ((collect entries).map Prod.fst).Nodup :=
  (sorted_collect entries).imp ne_of_lt

/-- The keys do not depend on the order of the entries. -/
theorem keys_collect_perm {entries' : List (κ × υ)} (h : entries.Perm entries') :
    (collect entries).map Prod.fst = (collect entries').map Prod.fst := by
  have hs := sorted_collect entries
  have hs' := sorted_collect entries'
  refine List.Perm.eq_of_pairwise (fun a b _ _ hab hba => absurd hab hba.not_gt) hs hs' ?_
  refine (List.perm_ext_iff_of_nodup (hs.imp ne_of_lt) (hs'.imp ne_of_lt)).mpr fun k => ?_
  rw [mem_keys_collect, mem_keys_collect, (h.map Prod.fst).mem_iff]

theorem foldl_insert_perm (h : ((m ++ entries).map Prod.fst).Nodup) :
    (entries.foldl (fun m e => insert e.1 e.2 m) m).Perm (m ++ entries) := by
  induction entries generalizing m with
  | nil => rw [List.append_nil]; rfl
  | cons e entries ih =>
    have hperm : ((e :: m) ++ entries).Perm (m ++ e :: entries) := List.perm_middle.symm
    have hnodup := (hperm.map Prod.fst).nodup_iff.mpr h
    have hnew : e.1 ∉ m.map Prod.fst := fun hmem =>
      (List.nodup_cons.mp hnodup).1 (List.map_append ▸ List.mem_append_left _ hmem)
    have hinsert : (insert e.1 e.2 m).Perm (e :: m) := insert_perm hnew
    refine (ih ?_).trans ((hinsert.append_right entries).trans hperm)
    exact ((hinsert.append_right entries).map Prod.fst).nodup_iff.mpr hnodup

/-- **With distinct keys every entry is kept.** -/
theorem collect_perm (h : (entries.map Prod.fst).Nodup) :
    (collect entries).Perm entries := foldl_insert_perm h

theorem length_insert_le
    (hs : (m.map Prod.fst).Pairwise (· < ·)) : (insert k v m).length ≤ m.length + 1 := by
  by_cases h : k ∈ m.map Prod.fst
  · exact (length_insert_of_mem hs h).trans_le (Nat.le_succ _)
  · exact (insert_perm h).length_eq.le

theorem length_foldl_insert_le (hs : (m.map Prod.fst).Pairwise (· < ·)) :
    (entries.foldl (fun m e => insert e.1 e.2 m) m).length ≤ m.length + entries.length := by
  induction entries generalizing m with
  | nil => exact le_rfl
  | cons e entries ih =>
    have hlength := length_insert_le (k := e.1) (v := e.2) hs
    have hrest := ih (sorted_insert (k := e.1) (v := e.2) hs)
    simp only [List.foldl_cons, List.length_cons]
    omega

theorem length_collect_le (entries : List (κ × υ)) :
    (collect entries).length ≤ entries.length :=
  (length_foldl_insert_le .nil).trans_eq (Nat.zero_add _)

theorem length_foldl_insert_lt
    (hs : (m.map Prod.fst).Pairwise (· < ·)) (h : ¬ ((m ++ entries).map Prod.fst).Nodup) :
    (entries.foldl (fun m e => insert e.1 e.2 m) m).length < m.length + entries.length := by
  induction entries generalizing m with
  | nil =>
    rw [List.append_nil] at h
    exact absurd (hs.imp ne_of_lt) h
  | cons e entries ih =>
    simp only [List.foldl_cons, List.length_cons]
    have hs' := sorted_insert (k := e.1) (v := e.2) hs
    by_cases hmem : e.1 ∈ m.map Prod.fst
    · have hlength := length_insert_of_mem (v := e.2) hs hmem
      have hrest : (entries.foldl (fun m e => insert e.1 e.2 m) (insert e.1 e.2 m)).length ≤
          (insert e.1 e.2 m).length + entries.length := length_foldl_insert_le hs'
      omega
    · have hperm : (insert e.1 e.2 m ++ entries).Perm (m ++ e :: entries) :=
        ((insert_perm hmem).append_right entries).trans List.perm_middle.symm
      have hlength := (insert_perm (v := e.2) hmem).length_eq
      have hrest := ih hs' fun hnodup => h ((hperm.map Prod.fst).nodup_iff.mp hnodup)
      rw [hlength, List.length_cons] at hrest
      omega

/-- **With a repeated key an entry is lost.** -/
theorem length_collect_lt (h : ¬ (entries.map Prod.fst).Nodup) :
    (collect entries).length < entries.length :=
  (length_foldl_insert_lt .nil h).trans_eq (Nat.zero_add _)

end AssocMap
