import Mathlib.Data.List.Basic

/-!
# SQL three-valued logic over predicate trees

A predicate is a tree of comparison leaves under `NOT`, `AND` and `OR`, each leaf
TRUE, FALSE or UNKNOWN on a row; a `WHERE` clause keeps a row only when the tree is
TRUE on it. Nothing here knows what a leaf compares.

- `Truth`, `Truth.not/and/or`: the Kleene tables of SQL.
- `Pred ι`, `Pred.eval`: predicate trees and their value under a leaf valuation.
- `Pred.atPolarity b`: the leaves under an even (`b = true`) or odd (`b = false`)
  number of `NOT`s.
- `Pred.Rel R`: trees of one shape with related leaves.
-/

namespace ThreeValued

/-- SQL truth values. -/
inductive Truth where
  | tt
  | ff
  | unknown
  deriving DecidableEq, Repr

variable {s t : Truth}

namespace Truth

/-- `NOT`: UNKNOWN stays UNKNOWN. -/
def not : Truth → Truth
  | tt => ff
  | ff => tt
  | unknown => unknown

/-- `AND`: FALSE dominates, then UNKNOWN. -/
def and : Truth → Truth → Truth
  | ff, _ => ff
  | _, ff => ff
  | tt, tt => tt
  | _, _ => unknown

/-- `OR`: TRUE dominates, then UNKNOWN. -/
def or : Truth → Truth → Truth
  | tt, _ => tt
  | _, tt => tt
  | ff, ff => ff
  | _, _ => unknown

/-- The two-valued truths. -/
def ofBool : Bool → Truth
  | true => tt
  | false => ff

@[simp] theorem not_ofBool (b : Bool) : (ofBool b).not = ofBool !b := by
  cases b <;> rfl

@[simp] theorem not_unknown : unknown.not = unknown := rfl

@[simp] theorem not_not (t : Truth) : t.not.not = t := by
  cases t <;> rfl

theorem not_eq_ofBool_iff {t : Truth} {b : Bool} : t.not = ofBool b ↔ t = ofBool !b := by
  cases t <;> cases b <;> simp [not, ofBool]

@[simp] theorem and_eq_tt_iff : s.and t = tt ↔ s = tt ∧ t = tt := by
  cases s <;> cases t <;> simp [and]

@[simp] theorem and_eq_ff_iff : s.and t = ff ↔ s = ff ∨ t = ff := by
  cases s <;> cases t <;> simp [and]

@[simp] theorem or_eq_tt_iff : s.or t = tt ↔ s = tt ∨ t = tt := by
  cases s <;> cases t <;> simp [or]

@[simp] theorem or_eq_ff_iff : s.or t = ff ↔ s = ff ∧ t = ff := by
  cases s <;> cases t <;> simp [or]

/-- UNKNOWN beside TRUE under `AND` is UNKNOWN. -/
@[simp] theorem unknown_and_tt : unknown.and tt = unknown := rfl

@[simp] theorem tt_and_unknown : tt.and unknown = unknown := rfl

/-- UNKNOWN beside FALSE under `OR` is UNKNOWN. -/
@[simp] theorem unknown_or_ff : unknown.or ff = unknown := rfl

@[simp] theorem ff_or_unknown : ff.or unknown = unknown := rfl

end Truth

/-- Predicate trees over leaves of type `ι`. -/
inductive Pred (ι : Type u) where
  | leaf (i : ι)
  | not (p : Pred ι)
  | and (p q : Pred ι)
  | or (p q : Pred ι)
  deriving DecidableEq, Repr

namespace Pred

variable {ι : Type u} {κ : Type v}

/-- The value of a tree when leaf `i` has value `v i`. -/
def eval (v : ι → Truth) : Pred ι → Truth
  | leaf i => v i
  | not p => (p.eval v).not
  | and p q => (p.eval v).and (q.eval v)
  | or p q => (p.eval v).or (q.eval v)

/-- Relabel the leaves, keeping the tree. -/
def map (f : ι → κ) : Pred ι → Pred κ
  | leaf i => leaf (f i)
  | not p => not (p.map f)
  | and p q => and (p.map f) (q.map f)
  | or p q => or (p.map f) (q.map f)

/-- The leaves of a tree, left to right. -/
def leaves : Pred ι → List ι
  | leaf i => [i]
  | not p => p.leaves
  | and p q => p.leaves ++ q.leaves
  | or p q => p.leaves ++ q.leaves

/-- The leaves of positive (`b = true`: under an even number of `NOT`s) or negative
(`b = false`: under an odd number) polarity. -/
def atPolarity : Bool → Pred ι → List ι
  | b, leaf i => if b then [i] else []
  | b, not p => p.atPolarity !b
  | b, and p q => p.atPolarity b ++ q.atPolarity b
  | b, or p q => p.atPolarity b ++ q.atPolarity b

/-- Two trees of one shape whose leaves are related pairwise. -/
inductive Rel (R : ι → κ → Prop) : Pred ι → Pred κ → Prop
  | leaf {i k} : R i k → Rel R (leaf i) (leaf k)
  | not {p q} : Rel R p q → Rel R (not p) (not q)
  | and {p p' q q'} : Rel R p q → Rel R p' q' → Rel R (and p p') (and q q')
  | or {p p' q q'} : Rel R p q → Rel R p' q' → Rel R (or p p') (or q q')

/-- Related trees have related leaves at each polarity. -/
theorem Rel.exists_of_mem {R : ι → κ → Prop} {p : Pred ι} {q : Pred κ} (h : Rel R p q)
    {b : Bool} {i : ι} (hi : i ∈ p.atPolarity b) : ∃ k ∈ q.atPolarity b, R i k := by
  induction h generalizing b with
  | leaf hR =>
    cases b with
    | false => cases hi
    | true =>
      obtain rfl := List.mem_singleton.mp hi
      exact ⟨_, List.mem_singleton_self _, hR⟩
  | not _ ih => exact ih hi
  | and _ _ ih ih' =>
    rcases List.mem_append.mp hi with hi | hi
    · obtain ⟨k, hk, hR⟩ := ih hi
      exact ⟨k, List.mem_append_left _ hk, hR⟩
    · obtain ⟨k, hk, hR⟩ := ih' hi
      exact ⟨k, List.mem_append_right _ hk, hR⟩
  | or _ _ ih ih' =>
    rcases List.mem_append.mp hi with hi | hi
    · obtain ⟨k, hk, hR⟩ := ih hi
      exact ⟨k, List.mem_append_left _ hk, hR⟩
    · obtain ⟨k, hk, hR⟩ := ih' hi
      exact ⟨k, List.mem_append_right _ hk, hR⟩

theorem Rel.exists_of_mem_leaves {R : ι → κ → Prop} {p : Pred ι} {q : Pred κ}
    (h : Rel R p q) {i : ι} (hi : i ∈ p.leaves) : ∃ k ∈ q.leaves, R i k := by
  induction h with
  | leaf hR =>
    obtain rfl := List.mem_singleton.mp hi
    exact ⟨_, List.mem_singleton_self _, hR⟩
  | not _ ih => exact ih hi
  | and _ _ ih ih' =>
    rcases List.mem_append.mp hi with hi | hi
    · obtain ⟨k, hk, hR⟩ := ih hi
      exact ⟨k, List.mem_append_left _ hk, hR⟩
    · obtain ⟨k, hk, hR⟩ := ih' hi
      exact ⟨k, List.mem_append_right _ hk, hR⟩
  | or _ _ ih ih' =>
    rcases List.mem_append.mp hi with hi | hi
    · obtain ⟨k, hk, hR⟩ := ih hi
      exact ⟨k, List.mem_append_left _ hk, hR⟩
    · obtain ⟨k, hk, hR⟩ := ih' hi
      exact ⟨k, List.mem_append_right _ hk, hR⟩

end Pred

end ThreeValued
