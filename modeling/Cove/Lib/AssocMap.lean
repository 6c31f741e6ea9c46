import Mathlib.Data.List.Basic
import Mathlib.Data.List.Perm.Basic
import Mathlib.Order.Lattice

/-!
# Association lists in key order

An ordered map as the list of its entries, ascending by key.

- `get`, `insert`, `erase`: lookup, insertion in place, removal.
- `collect`, `collected`: a map from a list of entries; the last entry of a key counts.
- `get_insert`: **lookup after insertion**.
- `collected_eq_some`: with distinct keys, lookup is membership.
-/

namespace AssocMap

variable {κ : Type u} {υ : Type v}

variable {m : List (κ × υ)}

variable {k : κ} {v : υ}

section Get

variable [DecidableEq κ]

/-- The value of a key. -/
def get (k : κ) (m : List (κ × υ)) : Option υ := (m.find? fun e => e.1 = k).map Prod.snd

/-- The value of a key in the map collected from a list of entries: the last one counts. -/
def collected (k : κ) (entries : List (κ × υ)) : Option υ := get k entries.reverse

/-- Remove a key. -/
def erase (k : κ) (m : List (κ × υ)) : List (κ × υ) := m.filter fun e => e.1 ≠ k

@[simp] theorem get_nil (k : κ) : get k ([] : List (κ × υ)) = none := rfl

theorem get_cons (k : κ) (e : κ × υ) (m : List (κ × υ)) :
    get k (e :: m) = if e.1 = k then some e.2 else get k m := by
  by_cases h : e.1 = k <;> simp [get, h]

theorem mem_of_get (h : get k m = some v) : (k, v) ∈ m := by
  obtain ⟨e, he, rfl⟩ := Option.map_eq_some_iff.mp h
  have hk : e.1 = k := by simpa using List.find?_some he
  exact hk ▸ List.mem_of_find?_eq_some he

theorem get_isSome : (get k m).isSome ↔ k ∈ m.map Prod.fst := by
  simp [get]

/-- With distinct keys, lookup finds every entry. -/
theorem get_of_mem (hm : (m.map Prod.fst).Nodup) (h : (k, v) ∈ m) : get k m = some v := by
  induction m with
  | nil => cases h
  | cons e m ih =>
    obtain ⟨he, hrest⟩ := List.nodup_cons.mp hm
    rw [get_cons]
    rcases List.mem_cons.mp h with rfl | h
    · rw [if_pos rfl]
    · have hne : e.1 ≠ k := fun heq => he (heq ▸ List.mem_map_of_mem (f := Prod.fst) h)
      rw [if_neg hne, ih hrest h]

/-- With distinct keys, the collected map holds exactly the entries. -/
theorem collected_eq_some {entries : List (κ × υ)}
    (h : (entries.map Prod.fst).Nodup) : collected k entries = some v ↔ (k, v) ∈ entries := by
  have hrev : (entries.reverse.map Prod.fst).Nodup := by
    rw [List.map_reverse]
    exact (List.reverse_perm _).nodup_iff.mpr h
  exact ⟨fun hget => List.mem_reverse.mp (mem_of_get hget),
    fun hmem => get_of_mem hrev (List.mem_reverse.mpr hmem)⟩

/-- With distinct keys, a search by key finds its element. -/
theorem find?_key {k : υ → κ} {l : List υ} (h : (l.map k).Nodup) {a : υ} (ha : a ∈ l) :
    (l.find? fun b => k b == k a) = some a := by
  induction l with
  | nil => cases ha
  | cons b l ih =>
    obtain ⟨hb, hrest⟩ := List.nodup_cons.mp h
    rcases List.mem_cons.mp ha with rfl | ha
    · rw [List.find?_cons, beq_self_eq_true]
    · have hne : (k b == k a) = false :=
        beq_eq_false_iff_ne.mpr fun heq => hb (heq ▸ List.mem_map_of_mem ha)
      rw [List.find?_cons, hne]
      exact ih hrest ha

end Get

variable [LinearOrder κ]

/-- Insert a key in place, replacing its value. -/
def insert (k : κ) (v : υ) : List (κ × υ) → List (κ × υ)
  | [] => [(k, v)]
  | e :: m =>
    if k < e.1 then (k, v) :: e :: m
    else if e.1 < k then e :: insert k v m
    else (k, v) :: m

/-- A map from its entries: a later entry of a key replaces the earlier one. -/
def collect (entries : List (κ × υ)) : List (κ × υ) :=
  entries.foldl (fun m e => insert e.1 e.2 m) []

section

variable [DecidableEq κ]

theorem get_insert (k k' : κ) (v : υ) (m : List (κ × υ)) :
    get k' (insert k v m) = if k = k' then some v else get k' m := by
  induction m with
  | nil => rw [insert, get_cons]
  | cons e m ih =>
    unfold insert
    split
    · rw [get_cons]
    · next hge =>
      split
      · next hlt =>
        rw [get_cons, get_cons, ih]
        by_cases h : k = k'
        · rw [if_pos h, if_pos h, if_neg fun he => hlt.ne (he.trans h.symm)]
        · rw [if_neg h, if_neg h]
      · next hle =>
        have heq : e.1 = k := le_antisymm (not_lt.mp hge) (not_lt.mp hle)
        rw [get_cons, get_cons, heq]
        by_cases h : k = k' <;> simp [h]

end

end AssocMap
