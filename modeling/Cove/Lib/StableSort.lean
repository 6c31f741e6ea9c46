import Mathlib.Order.Compare
import Mathlib.Data.List.Basic

/-!
# Sorting places by several comparisons

Places `0 .. n` are sorted by a list of comparisons, the first that tells two places apart deciding,
and places that none tells apart stay in order.

- `nullsFirst`: a comparison with some elements before all others.
- `lexAll`: a list of comparisons, one after the other.
- `stableOrder`: the sorted places.
- `stableOrder_perm`, `stableOrder_pairwise`: **every place once, strictly ascending**.
-/

namespace StableSort

open Std (TransCmp)

variable {α : Type u}

/-- A comparison by keys. -/
theorem transCmp_key {κ : Type v} [LinearOrder κ] (key : α → κ) :
    TransCmp fun a b => compare (key a) (key b) where
  eq_swap {a b} := by
    rcases lt_trichotomy (key a) (key b) with h | h | h
    · rw [compare_lt_iff_lt.mpr h, compare_gt_iff_gt.mpr h]
      rfl
    · rw [compare_eq_iff_eq.mpr h, compare_eq_iff_eq.mpr h.symm]
      rfl
    · rw [compare_gt_iff_gt.mpr h, compare_lt_iff_lt.mpr h]
      rfl
  isLE_trans {a b c} hab hbc := by
    have hle : ∀ {x y : κ}, (compare x y).isLE = true ↔ x ≤ y := by
      intro x y
      rw [← compare_le_iff_le]
      cases compare x y <;> simp
    exact hle.mpr ((hle.mp hab).trans (hle.mp hbc))

/-- A comparison with the marked elements before all others, which are alike among themselves. -/
def nullsFirst (null : α → Bool) (cmp : α → α → Ordering) (a b : α) : Ordering :=
  match null a, null b with
  | true, true => .eq
  | true, false => .lt
  | false, true => .gt
  | false, false => cmp a b

theorem transCmp_nullsFirst (null : α → Bool) {cmp : α → α → Ordering} (h : TransCmp cmp) :
    TransCmp (nullsFirst null cmp) where
  eq_swap {a b} := by
    unfold nullsFirst
    cases null a <;> cases null b <;> first | rfl | exact h.eq_swap
  isLE_trans {a b c} hab hbc := by
    unfold nullsFirst at *
    cases hx : null a <;> cases hy : null b <;> cases hz : null c <;> simp_all
    exact TransCmp.isLE_trans hab hbc

/-- The comparisons one after the other. -/
def lexAll : List (α → α → Ordering) → α → α → Ordering
  | [], _, _ => .eq
  | cmp :: cmps, a, b => (cmp a b).then (lexAll cmps a b)

/-- Two comparisons one after the other. -/
theorem transCmp_then {cmp cmp' : α → α → Ordering} (h : TransCmp cmp) (h' : TransCmp cmp') :
    TransCmp fun a b => (cmp a b).then (cmp' a b) where
  eq_swap {a b} := by
    rw [Ordering.swap_then, ← h.eq_swap, ← h'.eq_swap]
  isLE_trans {a b c} hab hbc := by
    rw [Ordering.isLE_then_iff_or] at *
    rcases hab with hab | ⟨hab, hab'⟩ <;> rcases hbc with hbc | ⟨hbc, hbc'⟩
    · exact .inl (TransCmp.lt_trans hab hbc)
    · exact .inl (TransCmp.lt_of_lt_of_eq hab hbc)
    · exact .inl (TransCmp.lt_of_eq_of_lt hab hbc)
    · exact .inr ⟨TransCmp.eq_trans hab hbc, TransCmp.isLE_trans hab' hbc'⟩

theorem transCmp_lexAll {cmps : List (α → α → Ordering)} (h : ∀ cmp ∈ cmps, TransCmp cmp) :
    TransCmp (lexAll cmps) := by
  induction cmps with
  | nil => exact { eq_swap := rfl, isLE_trans := fun _ _ => rfl }
  | cons cmp cmps ih =>
    exact transCmp_then (h cmp List.mem_cons_self) (ih fun c hc => h c (List.mem_cons_of_mem _ hc))

/-- The comparisons one after the other, and the places themselves last. -/
def placeCmp (cmps : List (Nat → Nat → Ordering)) (a b : Nat) : Ordering :=
  (lexAll cmps a b).then (compare a b)

/-- The places sorted by the comparisons. -/
def stableOrder (cmps : List (Nat → Nat → Ordering)) (n : Nat) : List Nat :=
  (List.range n).mergeSort fun a b => (placeCmp cmps a b).isLE

variable {cmps : List (Nat → Nat → Ordering)} {n : Nat}

theorem stableOrder_perm : (stableOrder cmps n).Perm (List.range n) := List.mergeSort_perm _ _

/-- Places in order already stay where they are. -/
theorem stableOrder_eq_range
    (h : (List.range n).Pairwise fun a b => (placeCmp cmps a b).isLE = true) :
    stableOrder cmps n = List.range n := List.mergeSort_of_pairwise h

/-- **The places are strictly ascending**: no two of them are alike. -/
theorem stableOrder_pairwise (h : ∀ cmp ∈ cmps, TransCmp cmp) :
    (stableOrder cmps n).Pairwise fun a b => placeCmp cmps a b = .lt := by
  have htrans : TransCmp (placeCmp cmps) :=
    transCmp_then (transCmp_lexAll h) (inferInstanceAs (TransCmp (compare : Nat → Nat → Ordering)))
  have hsorted : (stableOrder cmps n).Pairwise fun a b => (placeCmp cmps a b).isLE = true :=
    List.pairwise_mergeSort (fun _ _ _ => TransCmp.isLE_trans)
      (fun a b => by
        rw [htrans.eq_swap (a := b)]
        cases placeCmp cmps a b <;> rfl) _
  have hnodup : (stableOrder cmps n).Nodup := stableOrder_perm.nodup_iff.mpr List.nodup_range
  refine (hsorted.and hnodup).imp fun {a b} hab => ?_
  obtain ⟨hle, hne⟩ := hab
  rcases Ordering.isLE_iff_eq_lt_or_eq_eq.mp hle with hlt | heq
  · exact hlt
  · exact absurd (Nat.compare_eq_eq.mp (Ordering.then_eq_eq.mp heq).2) hne

end StableSort
