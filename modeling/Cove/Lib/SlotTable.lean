import Mathlib.Data.List.Basic
import Cove.Lib.Checked

/-!
# Tables of slots

A list of slots indexed by a number: every item is checked and its position is put into the slot
of its key, and a slot may be filled only once.

- `look`: the position in a slot.
- `place`: the loop that fills the slots.
- `place_isOk_iff`: **it succeeds exactly when every item passes its check and no two items have
  the same key**.
- `look_place`: what the slots hold afterwards.
-/

namespace SlotTable

open Checked

variable {α : Type u} {ε : Type v}

/-- The position in a slot; none for a slot beyond the table. -/
def look (slots : List (Option Nat)) (k : Nat) : Option Nat := slots[k]?.join

/-- Put the positions of the items into the slots of their keys. -/
def place (check : α → Except ε Unit) (repeated : ε) (key : α → Nat) :
    List (α × Nat) → List (Option Nat) → Except ε (List (Option Nat))
  | [], slots => .ok slots
  | (a, i) :: items, slots => do
    check a
    if (look slots (key a)).isSome then .error repeated
    else place check repeated key items (slots.set (key a) (some i))

@[simp] theorem look_replicate (n k : Nat) : look (List.replicate n none) k = none := by
  unfold look
  rw [List.getElem?_replicate]
  split <;> rfl

variable {slots : List (Option Nat)}

theorem look_set {k i : Nat} (h : k < slots.length) (k' : Nat) :
    look (slots.set k (some i)) k' = if k = k' then some i else look slots k' := by
  unfold look
  by_cases hk : k = k'
  · subst hk
    rw [List.getElem?_set_self h, if_pos rfl]
    rfl
  · rw [List.getElem?_set_ne hk, if_neg hk]

variable {check : α → Except ε Unit} {repeated : ε} {key : α → Nat}

/-- The loop succeeds exactly when every item passes its check and finds its slot free. The
induction is on the items; a slot that was filled is one more key not to be met again. -/
theorem place_isOk_iff {items : List (α × Nat)}
    (hlt : ∀ p ∈ items, check p.1 = .ok () → key p.1 < slots.length) :
    (∃ out, place check repeated key items slots = .ok out) ↔
      (∀ p ∈ items, check p.1 = .ok ()) ∧ (items.map fun p => key p.1).Nodup ∧
        ∀ p ∈ items, look slots (key p.1) = none := by
  induction items generalizing slots with
  | nil => simp [place]
  | cons p items ih =>
    obtain ⟨a, i⟩ := p
    obtain ⟨hhead, htail⟩ := List.forall_mem_cons.mp hlt
    rw [List.forall_mem_cons, List.forall_mem_cons, List.map_cons, List.nodup_cons]
    unfold place
    cases hcheck : check a with
    | error e =>
      refine iff_of_false ?_ ?_
      · rintro ⟨out, h⟩
        cases h
      · rintro ⟨⟨h, -⟩, -⟩
        cases h
    | ok _ =>
      rw [ok_bind]
      by_cases hfree : look slots (key a) = none
      · rw [hfree, if_neg (by simp)]
        have hlt' : ∀ q ∈ items, check q.1 = .ok () →
            key q.1 < (slots.set (key a) (some i)).length := by
          intro q hq hc
          rw [List.length_set]
          exact htail q hq hc
        rw [ih hlt']
        have hslot : ∀ q : α × Nat, look (slots.set (key a) (some i)) (key q.1) = none ↔
            key q.1 ≠ key a ∧ look slots (key q.1) = none := by
          intro q
          rw [look_set (hhead hcheck)]
          by_cases hk : key a = key q.1
          · rw [if_pos hk]
            simp [hk]
          · rw [if_neg hk]
            exact ⟨fun h => ⟨fun heq => hk heq.symm, h⟩, fun h => h.2⟩
        have hmem : key a ∉ items.map (fun q => key q.1) ↔ ∀ q ∈ items, key q.1 ≠ key a := by
          rw [List.mem_map]
          exact ⟨fun h q hq heq => h ⟨q, hq, heq⟩, fun h ⟨q, hq, heq⟩ => h q hq heq⟩
        rw [hmem]
        simp only [hslot]
        constructor
        · rintro ⟨hall, hnodup, hrest⟩
          exact ⟨⟨trivial, hall⟩, ⟨fun q hq => (hrest q hq).1, hnodup⟩, trivial,
            fun q hq => (hrest q hq).2⟩
        · rintro ⟨⟨-, hall⟩, ⟨hne, hnodup⟩, -, hrest⟩
          exact ⟨hall, hnodup, fun q hq => ⟨hne q hq, hrest q hq⟩⟩
      · rw [if_pos (Option.isSome_iff_ne_none.mpr hfree)]
        refine iff_of_false ?_ ?_
        · rintro ⟨out, h⟩
          cases h
        · rintro ⟨-, -, h, -⟩
          exact hfree h

/-- What the slots hold: what they held before, and the positions of the items. -/
theorem look_place {items : List (α × Nat)} {out : List (Option Nat)}
    (hlt : ∀ p ∈ items, check p.1 = .ok () → key p.1 < slots.length)
    (h : place check repeated key items slots = .ok out) (k i : Nat) :
    look out k = some i ↔ look slots k = some i ∨ ∃ a, (a, i) ∈ items ∧ key a = k := by
  induction items generalizing slots with
  | nil =>
    obtain rfl := Except.ok.inj h
    simp
  | cons p items ih =>
    obtain ⟨a, j⟩ := p
    obtain ⟨hhead, htail⟩ := List.forall_mem_cons.mp hlt
    unfold place at h
    obtain ⟨⟨⟩, hcheck, h⟩ := bind_eq_ok.mp h
    split at h
    · cases h
    next hfree =>
    rw [Option.isSome_iff_ne_none, Classical.not_not] at hfree
    have hlt' : ∀ q ∈ items, check q.1 = .ok () →
        key q.1 < (slots.set (key a) (some j)).length := by
      intro q hq hc
      rw [List.length_set]
      exact htail q hq hc
    rw [ih hlt' h, look_set (hhead hcheck)]
    by_cases hk : key a = k
    · subst hk
      rw [if_pos rfl, hfree]
      constructor
      · rintro (hj | ⟨b, hb, hkey⟩)
        · obtain rfl := Option.some.inj hj
          exact .inr ⟨a, List.mem_cons_self, rfl⟩
        · exact .inr ⟨b, List.mem_cons_of_mem _ hb, hkey⟩
      · rintro (hnone | ⟨b, hb, hkey⟩)
        · cases hnone
        · rcases List.mem_cons.mp hb with heq | hb
          · obtain ⟨-, rfl⟩ := Prod.mk.inj heq
            exact .inl rfl
          · exact .inr ⟨b, hb, hkey⟩
    · rw [if_neg hk]
      refine or_congr_right (exists_congr fun b => and_congr_left fun hkey => ?_)
      rw [List.mem_cons]
      constructor
      · exact Or.inr
      · rintro (heq | hb)
        · obtain ⟨rfl, -⟩ := Prod.mk.inj heq
          exact absurd hkey hk
        · exact hb

section Whole

variable {items : List α} {n : Nat} {out : List (Option Nat)}

/-- Placing a list by its positions in an empty table. -/
theorem place_zipIdx_isOk_iff (hlt : ∀ a ∈ items, check a = .ok () → key a < n) :
    (∃ out, place check repeated key items.zipIdx (List.replicate n none) = .ok out) ↔
      (∀ a ∈ items, check a = .ok ()) ∧ (items.map key).Nodup := by
  have hmem : ∀ {p : α × Nat}, p ∈ items.zipIdx → p.1 ∈ items := fun hp =>
    List.mem_of_getElem? (List.mem_zipIdx_iff_getElem?.mp hp)
  have hmap : (items.zipIdx.map fun p => key p.1) = items.map key := by
    rw [show (fun p : α × Nat => key p.1) = key ∘ Prod.fst from rfl, ← List.map_map,
      List.zipIdx_map_fst]
  rw [place_isOk_iff, hmap]
  · constructor
    · rintro ⟨hall, hnodup, -⟩
      refine ⟨fun a ha => ?_, hnodup⟩
      obtain ⟨i, hi⟩ := List.mem_iff_getElem?.mp ha
      exact hall (a, i) (List.mem_zipIdx_iff_getElem?.mpr hi)
    · rintro ⟨hall, hnodup⟩
      exact ⟨fun p hp => hall p.1 (hmem hp), hnodup, fun p _ => look_replicate _ _⟩
  · intro p hp hc
    rw [List.length_replicate]
    exact hlt p.1 (hmem hp) hc

theorem look_place_zipIdx (hlt : ∀ a ∈ items, check a = .ok () → key a < n)
    (h : place check repeated key items.zipIdx (List.replicate n none) = .ok out) (k i : Nat) :
    look out k = some i ↔ ∃ a, items[i]? = some a ∧ key a = k := by
  have hmem : ∀ {p : α × Nat}, p ∈ items.zipIdx → p.1 ∈ items := fun hp =>
    List.mem_of_getElem? (List.mem_zipIdx_iff_getElem?.mp hp)
  rw [look_place _ h]
  · simp only [look_replicate, reduceCtorEq, false_or, List.mem_zipIdx_iff_getElem?]
  · intro p hp hc
    rw [List.length_replicate]
    exact hlt p.1 (hmem hp) hc

end Whole

end SlotTable
