import Cove.Lib.Checked
import Cove.Lib.Grouping

/-!
# Two runs side by side

A computation run on two related inputs: both runs fail alike, or both succeed with related
results.

- `Agrees`: the relation of two runs, from a relation of their results.
- `Agrees.bind`: **a step on related results keeps it**.
- `forall₂_insertionSort`, `forall₂_grouped`: sorting and grouping related lists by keys that
  related elements share.
-/

namespace Checked

/-- Both fail with the same error, or both succeed with related results. -/
inductive Agrees {ε : Type u} {α : Type v} {β : Type w} (R : α → β → Prop) :
    Except ε α → Except ε β → Prop where
  | ok {a : α} {b : β} (h : R a b) : Agrees R (.ok a) (.ok b)
  | error (e : ε) : Agrees R (.error e) (.error e)

section

variable {ε : Type u} {α β γ δ : Type v} {R : α → β → Prop} {S : γ → δ → Prop}

theorem Agrees.bind {x : Except ε α} {y : Except ε β} {f : α → Except ε γ} {g : β → Except ε δ}
    (h : Agrees R x y) (hstep : ∀ a b, R a b → Agrees S (f a) (g b)) :
    Agrees S (x >>= f) (y >>= g) := by
  cases h with
  | ok h => exact hstep _ _ h
  | error e => exact .error e

/-- The same check before two runs. -/
theorem Agrees.bind_same {x : Except ε α} {f : α → Except ε γ} {g : α → Except ε δ}
    (hstep : ∀ a, Agrees S (f a) (g a)) : Agrees S (x >>= f) (x >>= g) := by
  cases x with
  | ok a => exact hstep a
  | error e => exact .error e

/-- Results that are one the image of the other. -/
theorem Agrees.eq_map {f : α → β} {x : Except ε α} {y : Except ε β} (h : Agrees R x y)
    (hf : ∀ a b, R a b → b = f a) : y = x.map f := by
  cases h with
  | ok h => rw [hf _ _ h]; rfl
  | error e => rfl

end

/-! ## Related lists -/

section

variable {α : Type u} {β : Type v} {R : α → β → Prop} {l : List α} {l' : List β}

/-- Related lists are the two sides of a list of related pairs. -/
theorem exists_pairs (h : List.Forall₂ R l l') :
    ∃ z : List { p : α × β // R p.1 p.2 }, l = z.map (·.1.1) ∧ l' = z.map (·.1.2) := by
  induction h with
  | nil => exact ⟨[], rfl, rfl⟩
  | @cons a b _ _ hR _ ih =>
    obtain ⟨z, rfl, rfl⟩ := ih
    exact ⟨⟨(a, b), hR⟩ :: z, rfl, rfl⟩

/-- The two sides of a list of related pairs are related. -/
theorem forall₂_of_pairs (z : List { p : α × β // R p.1 p.2 }) :
    List.Forall₂ R (z.map (·.1.1)) (z.map (·.1.2)) := by
  induction z with
  | nil => exact .nil
  | cons p z ih => exact .cons p.2 ih

theorem forall₂_filter {p : α → Bool} {q : β → Bool} (hpq : ∀ a b, R a b → p a = q b)
    (h : List.Forall₂ R l l') : List.Forall₂ R (l.filter p) (l'.filter q) := by
  induction h with
  | nil => exact .nil
  | @cons a b l l' hR _ ih =>
    by_cases hp : p a = true
    · rw [List.filter_cons_of_pos hp, List.filter_cons_of_pos ((hpq a b hR) ▸ hp)]
      exact .cons hR ih
    · rw [List.filter_cons_of_neg hp, List.filter_cons_of_neg ((hpq a b hR) ▸ hp)]
      exact ih

variable {κ : Type w} [LinearOrder κ] {key : α → κ} {key' : β → κ}

theorem forall₂_insertionSort (hkey : ∀ a b, R a b → key' b = key a)
    (h : List.Forall₂ R l l') :
    List.Forall₂ R (l.insertionSort fun a b => key a ≤ key b)
      (l'.insertionSort fun a b => key' a ≤ key' b) := by
  obtain ⟨z, rfl, rfl⟩ := exists_pairs h
  -- sort the pairs once; both sides are its images
  rw [← List.map_insertionSort (fun p q => key p.1.1 ≤ key q.1.1) _ _ _
      (fun _ _ _ _ => Iff.rfl),
    ← List.map_insertionSort (fun p q => key p.1.1 ≤ key q.1.1) _ _ _
      (fun p _ q _ => by rw [hkey _ _ p.2, hkey _ _ q.2])]
  exact forall₂_of_pairs _

theorem forall₂_grouped (hkey : ∀ a b, R a b → key' b = key a) (h : List.Forall₂ R l l') :
    List.Forall₂ (fun g g' => g'.1 = g.1 ∧ List.Forall₂ R g.2 g'.2)
      (Grouping.grouped key l) (Grouping.grouped key' l') := by
  obtain ⟨z, rfl, rfl⟩ := exists_pairs h
  let pairKey : { p : α × β // R p.1 p.2 } → κ := fun p => key p.1.1
  have hfst : Grouping.grouped key (z.map (·.1.1)) =
      (Grouping.grouped pairKey z).map fun g => (g.1, g.2.map (·.1.1)) :=
    Grouping.grouped_map _ (fun _ => rfl) z
  have hsnd : Grouping.grouped key' (z.map (·.1.2)) =
      (Grouping.grouped pairKey z).map fun g => (g.1, g.2.map (·.1.2)) :=
    Grouping.grouped_map _ (fun p => hkey _ _ p.2) z
  rw [hfst, hsnd, List.forall₂_map_left_iff, List.forall₂_map_right_iff, List.forall₂_same]
  exact fun g _ => ⟨rfl, forall₂_of_pairs g.2⟩

end

end Checked
