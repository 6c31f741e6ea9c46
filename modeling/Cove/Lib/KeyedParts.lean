import Mathlib.Data.List.Nodup
import Cove.Lib.SortedList

/-!
# Joining parts that a key keeps apart

A list put together from parts, where the key of an element tells which part it is from.

- `filter_flatMap`: **the elements of one key are the part of that key**.
- `filter_flatMap_perm`: so the order of the parts does not matter within a key.
- `sortBy_flatMap_perm`: **sorting forgets the order of the parts**.
- `count_flatMap`, `nodup_flatMap`: counting in the list is counting in the part.
- `perm_of_perm_flatMap`: two such lists with the same elements have the same parts.
- `flatMap_perm`: dropping empty parts changes nothing.
-/

namespace KeyedParts

variable {α : Type u} {β : Type v} {κ : Type w} [DecidableEq κ] {k : α → κ} {q : β → κ}
  {l : List α} {f : α → List β}

theorem filter_flatMap_eq_nil (hkey : ∀ a ∈ l, ∀ b ∈ f a, q b = k a) {x : κ}
    (hx : x ∉ l.map k) : (l.flatMap f).filter (fun b => q b = x) = [] := by
  refine List.filter_eq_nil_iff.mpr fun b hb => ?_
  obtain ⟨a, ha, hb⟩ := List.mem_flatMap.mp hb
  rw [decide_eq_true_iff, hkey a ha b hb]
  rintro rfl
  exact hx (List.mem_map_of_mem ha)

variable {a : α} {l' : List α}

/-- The elements of one key are the part of that key. -/
theorem filter_flatMap (hl : (l.map k).Nodup) (hkey : ∀ a ∈ l, ∀ b ∈ f a, q b = k a)
    (ha : a ∈ l) : (l.flatMap f).filter (fun b => q b = k a) = f a := by
  induction l with
  | nil => cases ha
  | cons c l ih =>
    obtain ⟨hc, hrest⟩ := List.nodup_cons.mp hl
    obtain ⟨hhead, htail⟩ := List.forall_mem_cons.mp hkey
    rw [List.flatMap_cons, List.filter_append]
    rcases List.mem_cons.mp ha with rfl | ha
    · rw [filter_flatMap_eq_nil htail hc, List.append_nil]
      exact List.filter_eq_self.mpr fun b hb => decide_eq_true (hhead b hb)
    · have hnil : (f c).filter (fun b => q b = k a) = [] := by
        refine List.filter_eq_nil_iff.mpr fun b hb => ?_
        rw [decide_eq_true_iff, hhead b hb]
        exact fun h => hc (h ▸ List.mem_map_of_mem ha)
      rw [hnil, List.nil_append, ih hrest htail ha]

/-- Counting an element is counting it in the part of its key. -/
theorem count_flatMap [DecidableEq β] (hl : (l.map k).Nodup)
    (hkey : ∀ a ∈ l, ∀ b ∈ f a, q b = k a) (ha : a ∈ l) {b : β} (hb : q b = k a) :
    (l.flatMap f).count b = (f a).count b := by
  have hcount : ((l.flatMap f).filter fun b => q b = k a).count b = (l.flatMap f).count b :=
    List.count_filter (decide_eq_true hb)
  rw [← hcount, filter_flatMap hl hkey ha]

omit [DecidableEq κ] in
theorem nodup_flatMap (hl : (l.map k).Nodup) (hkey : ∀ a ∈ l, ∀ b ∈ f a, q b = k a)
    (hf : ∀ a ∈ l, (f a).Nodup) : (l.flatMap f).Nodup := by
  refine List.nodup_flatMap.mpr ⟨hf, ?_⟩
  refine (List.pairwise_map.mp hl).imp_of_mem fun ha hc hne b hb hb' => hne ?_
  rw [← hkey _ ha b hb, hkey _ hc b hb']

/-- The elements of one key do not depend on the order of the parts. -/
theorem filter_flatMap_perm (hl : (l.map k).Nodup) (hperm : l'.Perm l)
    (hkey : ∀ a ∈ l, ∀ b ∈ f a, q b = k a) (x : κ) :
    (l'.flatMap f).filter (fun b => q b = x) = (l.flatMap f).filter fun b => q b = x := by
  have hl' : (l'.map k).Nodup := (hperm.map k).nodup_iff.mpr hl
  have hkey' : ∀ a ∈ l', ∀ b ∈ f a, q b = k a := fun a ha => hkey a (hperm.mem_iff.mp ha)
  by_cases hx : x ∈ l.map k
  · obtain ⟨a, ha, rfl⟩ := List.mem_map.mp hx
    rw [filter_flatMap hl hkey ha, filter_flatMap hl' hkey' (hperm.mem_iff.mpr ha)]
  · rw [filter_flatMap_eq_nil hkey hx,
      filter_flatMap_eq_nil hkey' fun h => hx ((hperm.map k).mem_iff.mp h)]

/-- **Sorting forgets the order of the parts** when elements of one key are of one part. -/
theorem sortBy_flatMap_perm {κ' : Type w'} [LinearOrder κ'] (sortKey : β → κ')
    (hl : (l.map k).Nodup) (hperm : l'.Perm l) (hkey : ∀ a ∈ l, ∀ b ∈ f a, q b = k a)
    (hfine : ∀ b b', sortKey b = sortKey b' → q b = q b') :
    SortedList.sortBy sortKey (l'.flatMap f) = SortedList.sortBy sortKey (l.flatMap f) := by
  refine SortedList.sortBy_eq_of_filter_eq sortKey fun v => ?_
  by_cases hv : ∃ b, sortKey b = v
  · obtain ⟨b, rfl⟩ := hv
    have hsplit : ∀ m : List β, m.filter (fun c => sortKey c = sortKey b) =
        (m.filter fun c => q c = q b).filter fun c => sortKey c = sortKey b := by
      intro m
      rw [List.filter_filter]
      refine List.filter_congr fun c _ => ?_
      by_cases hc : sortKey c = sortKey b
      · simp [hc, hfine c b hc]
      · simp [hc]
    rw [hsplit, filter_flatMap_perm hl hperm hkey, ← hsplit]
  · have hnil : ∀ m : List β, m.filter (fun c => sortKey c = v) = [] := fun m =>
      List.filter_eq_nil_iff.mpr fun c _ hc => hv ⟨c, of_decide_eq_true hc⟩
    rw [hnil, hnil]

/-- Two lists with the same elements have the same parts. -/
theorem perm_of_perm_flatMap {α' : Type u'} {k' : α' → κ} {l' : List α'} {g : α' → List β}
    (hl : (l.map k).Nodup) (hl' : (l'.map k').Nodup) (hkey : ∀ a ∈ l, ∀ b ∈ f a, q b = k a)
    (hkey' : ∀ a ∈ l', ∀ b ∈ g a, q b = k' a) (h : (l.flatMap f).Perm (l'.flatMap g))
    {a' : α'} (ha : a ∈ l) (ha' : a' ∈ l') (heq : k a = k' a') : (f a).Perm (g a') := by
  have hparts := h.filter fun b => q b = k a
  rwa [filter_flatMap hl hkey ha, heq, filter_flatMap hl' hkey' ha'] at hparts

omit [DecidableEq κ] in
/-- Joining over two lists of parts that differ by empty ones. -/
theorem flatMap_perm [DecidableEq α] (hl : l.Nodup) (hl' : l'.Nodup)
    (h : ∀ a ∈ l, a ∉ l' → f a = []) (h' : ∀ a ∈ l', a ∉ l → f a = []) :
    (l.flatMap f).Perm (l'.flatMap f) := by
  have hdrop : ∀ {x y : List α}, (∀ a ∈ x, a ∉ y → f a = []) →
      x.flatMap f = (x.filter (· ∈ y)).flatMap f := by
    intro x y hxy
    induction x with
    | nil => rfl
    | cons a x ih =>
      obtain ⟨ha, hx⟩ := List.forall_mem_cons.mp hxy
      by_cases hmem : a ∈ y
      · rw [List.filter_cons_of_pos (by simpa using hmem), List.flatMap_cons, List.flatMap_cons,
          ih hx]
      · rw [List.filter_cons_of_neg (by simpa using hmem), List.flatMap_cons, ha hmem,
          List.nil_append, ih hx]
  rw [hdrop h, hdrop h']
  refine List.Perm.flatMap_right f ?_
  refine (List.perm_ext_iff_of_nodup (hl.filter _) (hl'.filter _)).mpr fun a => ?_
  simp only [List.mem_filter, decide_eq_true_iff]
  exact and_comm

end KeyedParts
