import Mathlib.Data.List.Perm.Basic
import Mathlib.Data.List.Nodup

/-!
# Lists with keys

A list whose elements carry a key, at most one element a key, updated in place.

- `find`, `set`, `merge`: the element of a key, setting one, setting several in turn.
- `find_merge`: **what was set last wins**.
- `perm_iff_find`: with distinct keys, such lists hold the same elements exactly when
  lookup agrees.
-/

namespace KeyedList

variable {κ : Type w} [DecidableEq κ] {α : Type u} {β : Type v} (key : α → κ)

/-- The element of a key. -/
def find (k : κ) (xs : List α) : Option α := xs.find? fun x => key x == k

/-- Replace the element of the key of `x`, or append `x`. -/
def set (x : α) : List α → List α
  | [] => [x]
  | y :: xs => if key y = key x then x :: xs else y :: set x xs

/-- Set the elements of `ys` one after the other. -/
def merge (xs ys : List α) : List α := ys.foldl (fun xs y => set key y xs) xs

theorem find_cons (k : κ) (p : α) (xs : List α) :
    find key k (p :: xs) =
      if key p = k then some p else find key k xs := by
  by_cases h : key p = k <;> simp [find, h]

variable {xs : List α}

variable {k : κ} {p : α} {ys : List α} {key' : β → κ}

theorem find_isSome : (find key k xs).isSome ↔ k ∈ xs.map key := by
  induction xs with
  | nil => simp [find]
  | cons p xs ih =>
    rw [find_cons, List.map_cons, List.mem_cons, ← ih]
    by_cases h : key p = k
    · simp [h]
    · simp [h, Ne.symm h]

theorem find_set (k : κ) (p : α) (xs : List α) :
    find key k (set key p xs) = if key p = k then some p else find key k xs := by
  induction xs with
  | nil => rw [set, find_cons]
  | cons q xs ih =>
    unfold set
    split
    · next heq =>
      rw [find_cons, find_cons]
      by_cases h : key p = k <;> simp [h, heq]
    · next hne =>
      rw [find_cons, find_cons, ih]
      by_cases h : key p = k
      · have : key q ≠ k := fun hq => hne (hq.trans h.symm)
        simp [h, this]
      · simp [h]

theorem mem_keys_set :
    k ∈ (set key p xs).map key ↔ k = key p ∨ k ∈ xs.map key := by
  rw [← find_isSome, find_set, ← find_isSome]
  by_cases h : key p = k
  · simp [h]
  · simp [h, Ne.symm h]

theorem nodup_set (h : (xs.map key).Nodup) :
    ((set key p xs).map key).Nodup := by
  induction xs with
  | nil => simp [set]
  | cons q xs ih =>
    obtain ⟨hq, hrest⟩ := List.nodup_cons.mp h
    unfold set
    split
    · next heq => exact List.nodup_cons.mpr ⟨heq ▸ hq, hrest⟩
    · next hne =>
      refine List.nodup_cons.mpr ⟨fun hmem => ?_, ih hrest⟩
      rcases (mem_keys_set key).mp hmem with h | h
      · exact hne h
      · exact hq h

theorem nodup_merge (h : (xs.map key).Nodup) :
    ((merge key xs ys).map key).Nodup := by
  induction ys generalizing xs with
  | nil => exact h
  | cons p ys ih => exact ih (nodup_set key h)

/-- **What was set last wins.** -/
theorem find_merge (k : κ) (h : (ys.map key).Nodup) :
    find key k (merge key xs ys) = (find key k ys).or (find key k xs) := by
  induction ys generalizing xs with
  | nil => simp [merge, find]
  | cons p ys ih =>
    obtain ⟨hp, hys⟩ := List.nodup_cons.mp h
    show find key k (merge key (set key p xs) ys) = _
    rw [ih hys, find_set, find_cons]
    by_cases heq : key p = k
    · -- this key is set only once
      have hnone : find key k ys = none := by
        rw [← Option.not_isSome_iff_eq_none, find_isSome]
        exact heq ▸ hp
      simp [heq, hnone]
    · simp [heq]

theorem mem_keys_merge :
    k ∈ (merge key xs ys).map key ↔ k ∈ ys.map key ∨ k ∈ xs.map key := by
  induction ys generalizing xs with
  | nil => simp [merge]
  | cons p ys ih =>
    show k ∈ (merge key (set key p xs) ys).map key ↔ _
    rw [ih, mem_keys_set, List.map_cons, List.mem_cons]
    tauto

/-! ## Keeping some keys -/

/-- Whether an element is kept depends on its key alone, so setting commutes with it. -/
theorem filter_set (keep : κ → Bool) (x : α) (xs : List α) :
    (set key x xs).filter (fun y => keep (key y)) =
      if keep (key x) then set key x (xs.filter fun y => keep (key y))
      else xs.filter fun y => keep (key y) := by
  induction xs with
  | nil => by_cases h : keep (key x) = true <;> simp [set, h]
  | cons y xs ih =>
    by_cases hkey : key y = key x
    · by_cases h : keep (key x) = true <;> simp [set, hkey, h]
    · by_cases hy : keep (key y) = true
      · by_cases h : keep (key x) = true <;> simp_all [set]
      · by_cases h : keep (key x) = true <;> simp_all [set]

/-- **Merging and then keeping some keys** is merging what is kept. -/
theorem filter_merge (keep : κ → Bool) (xs ys : List α) :
    (merge key xs ys).filter (fun y => keep (key y)) =
      merge key (xs.filter fun y => keep (key y)) (ys.filter fun y => keep (key y)) := by
  induction ys generalizing xs with
  | nil => rfl
  | cons y ys ih =>
    show (merge key (set key y xs) ys).filter _ = _
    rw [ih, filter_set]
    by_cases h : keep (key y) = true
    · rw [if_pos h, List.filter_cons_of_pos (by simpa using h)]
      rfl
    · rw [if_neg h, List.filter_cons_of_neg (by simpa using h)]

theorem mem_of_mem_set {x y : α} (h : y ∈ set key x xs) : y = x ∨ y ∈ xs := by
  induction xs with
  | nil => exact .inl (List.mem_singleton.mp h)
  | cons z xs ih =>
    unfold set at h
    split at h
    · rcases List.mem_cons.mp h with h | h
      · exact .inl h
      · exact .inr (List.mem_cons_of_mem _ h)
    · rcases List.mem_cons.mp h with rfl | h
      · exact .inr List.mem_cons_self
      · exact (ih h).imp_right (List.mem_cons_of_mem _)

theorem mem_of_mem_merge {y : α} (h : y ∈ merge key xs ys) :
    y ∈ ys ∨ y ∈ xs := by
  induction ys generalizing xs with
  | nil => exact .inr h
  | cons z ys ih =>
    rcases ih h with h | h
    · exact .inl (List.mem_cons_of_mem _ h)
    · rcases mem_of_mem_set key h with rfl | h
      · exact .inl List.mem_cons_self
      · exact .inr h

variable {key}

theorem set_map (f : α → β) (hf : ∀ p, key' (f p) = key p) (p : α)
    (xs : List α) : set key' (f p) (xs.map f) = (set key p xs).map f := by
  induction xs with
  | nil => rfl
  | cons q xs ih =>
    rw [List.map_cons]
    unfold set
    rw [hf, hf]
    split
    · rfl
    · rw [ih, List.map_cons]

theorem merge_map (f : α → β) (hf : ∀ p, key' (f p) = key p) (xs ys : List α) :
    merge key' (xs.map f) (ys.map f) = (merge key xs ys).map f := by
  induction ys generalizing xs with
  | nil => rfl
  | cons p ys ih =>
    show merge key' (set key' (f p) (xs.map f)) (ys.map f) = _
    rw [set_map f hf]
    exact ih _

theorem mem_iff_find (h : (xs.map key).Nodup) :
    p ∈ xs ↔ find key (key p) xs = some p := by
  induction xs with
  | nil => simp [find]
  | cons q xs ih =>
    obtain ⟨hq, hrest⟩ := List.nodup_cons.mp h
    rw [find_cons, List.mem_cons]
    by_cases heq : key q = key p
    · rw [if_pos heq]
      constructor
      · rintro (rfl | hmem)
        · rfl
        · exact absurd (heq ▸ List.mem_map_of_mem hmem) hq
      · exact fun h => .inl (Option.some.inj h).symm
    · rw [if_neg heq, ← ih hrest]
      exact or_iff_right fun h => heq (h ▸ rfl)

/-- With distinct keys, an element is the only one with its key. -/
theorem filter_key (h : (xs.map key).Nodup) (hp : p ∈ xs) :
    xs.filter (fun x => key x == key p) = [p] := by
  induction xs with
  | nil => cases hp
  | cons q xs ih =>
    obtain ⟨hq, hrest⟩ := List.nodup_cons.mp h
    rcases List.mem_cons.mp hp with rfl | hp
    · have hnone : xs.filter (fun x => key x == key p) = [] := by
        refine List.filter_eq_nil_iff.mpr fun x hx heq => hq ?_
        exact eq_of_beq heq ▸ List.mem_map_of_mem hx
      rw [List.filter_cons_of_pos (by simp), hnone]
    · have hne : key q ≠ key p := fun heq => hq (heq ▸ List.mem_map_of_mem hp)
      rw [List.filter_cons_of_neg (by simpa using hne), ih hrest hp]

/-- With distinct keys, lists hold the same elements exactly when lookup agrees. -/
theorem perm_iff_find {as bs : List α} (ha : (as.map key).Nodup)
    (hb : (bs.map key).Nodup) :
    as.Perm bs ↔ ∀ k, find key k as = find key k bs := by
  constructor
  · intro h k
    have hsome : ∀ {cs ds : List α}, (cs.map key).Nodup → (ds.map key).Nodup → cs.Perm ds →
        ∀ p, find key k cs = some p → find key k ds = some p := by
      intro cs ds hc hd hperm p hp
      have hid : key p = k := by simpa using List.find?_some hp
      subst hid
      exact (mem_iff_find hd).mp (hperm.mem_iff.mp ((mem_iff_find hc).mpr hp))
    exact Option.ext fun p => ⟨hsome ha hb h p, hsome hb ha h.symm p⟩
  · intro h
    refine (List.perm_ext_iff_of_nodup ha.of_map hb.of_map).mpr fun p => ?_
    rw [mem_iff_find ha, mem_iff_find hb, h]

end KeyedList
