import Mathlib.Algebra.Ring.Nat
import Mathlib.Data.Finset.Card
import Mathlib.Order.Interval.Finset.Nat

/-!
# Spans of natural numbers

Half-open spans given by a start and a length, and lists of spans in ascending order
with gaps between them.

- `Span.Mem`, `Covered`: the numbers a span, or some span of a list, holds.
- `Separated`: each span ends before the next one starts.
- `Chain`: each span starts where the one before it ends.
- `chain_iff_sum`: **ascending spans are a chain exactly when their lengths add up**.
- `card_covered_cons`: a list of separated spans holds as many numbers of a window as
  its spans do one by one.
- `Apart`, `covered_iff_adjoin`: **spans with no number in common fill an interval exactly when**
  each starts where the interval or another ends.
-/

namespace Spans

/-- A half-open span. -/
structure Span where
  start : Nat
  len : Nat
  deriving DecidableEq, Repr

namespace Span

/-- The first number past the span. -/
def stop (s : Span) : Nat := s.start + s.len

def Mem (s : Span) (r : Nat) : Prop := s.start ≤ r ∧ r < s.stop

instance (s : Span) (r : Nat) : Decidable (s.Mem r) := inferInstanceAs (Decidable (_ ∧ _))

end Span

/-- Some span of the list holds the number. -/
def Covered (spans : List Span) (r : Nat) : Prop := ∃ s ∈ spans, s.Mem r

instance (spans : List Span) (r : Nat) : Decidable (Covered spans r) :=
  inferInstanceAs (Decidable (∃ s ∈ spans, s.Mem r))

@[simp] theorem not_covered_nil (r : Nat) : ¬ Covered [] r := by
  simp [Covered]

variable {r : Nat} {spans : List Span}

@[simp] theorem covered_cons {s : Span} :
    Covered (s :: spans) r ↔ s.Mem r ∨ Covered spans r := by
  simp [Covered]

/-- Each span ends before the next one starts. -/
def Separated (spans : List Span) : Prop := spans.Pairwise fun a b => a.stop < b.start

/-- The numbers of the window `[lo, hi)` that the spans hold. -/
def window (spans : List Span) (lo hi : Nat) : Finset Nat :=
  (Finset.Ico lo hi).filter (Covered spans)

variable {lo hi start : Nat}

theorem mem_window :
    r ∈ window spans lo hi ↔ (lo ≤ r ∧ r < hi) ∧ Covered spans r := by
  simp [window]

/-- One span holds its overlap with the window. -/
theorem card_window_singleton (s : Span) (lo hi : Nat) :
    (window [s] lo hi).card = min hi s.stop - max lo s.start := by
  rw [← Nat.card_Ico]
  congr 1
  ext r
  simp only [mem_window, covered_cons, not_covered_nil, or_false, Span.Mem, Finset.mem_Ico]
  omega

/-- **Separated spans count one by one**. -/
theorem card_window_cons {s : Span} (h : Separated (s :: spans)) (lo hi : Nat) :
    (window (s :: spans) lo hi).card =
      min hi s.stop - max lo s.start + (window spans lo hi).card := by
  rw [← card_window_singleton, ← Finset.card_union_of_disjoint]
  · congr 1
    ext r
    simp only [Finset.mem_union, mem_window, covered_cons, not_covered_nil, or_false]
    tauto
  · refine Finset.disjoint_left.mpr fun r h1 h2 => ?_
    obtain ⟨_, s', hs', hlo, _⟩ := mem_window.mp h2
    obtain ⟨_, hs⟩ := mem_window.mp h1
    have hmem : s.Mem r := by simpa using hs
    have := (List.pairwise_cons.mp h).1 s' hs'
    exact absurd hmem.2 (by omega)

/-- A window nothing of which is held. -/
theorem window_eq_empty (h : ∀ s ∈ spans, hi ≤ s.start ∨ s.stop ≤ lo) : window spans lo hi = ∅ := by
  refine Finset.eq_empty_of_forall_notMem fun r hr => ?_
  obtain ⟨⟨hlo, hhi⟩, s, hs, hmem⟩ := mem_window.mp hr
  rcases h s hs with h | h
  · exact absurd hmem.1 (by omega)
  · exact absurd hmem.2 (by omega)

/-- All of the window is held when as many numbers are. -/
theorem covered_of_card_eq {len : Nat} (h : (window spans lo (lo + len)).card = len) (hlo : lo ≤ r)
    (hhi : r < lo + len) : Covered spans r := by
  have hfull : window spans lo (lo + len) = Finset.Ico lo (lo + len) :=
    Finset.eq_of_subset_of_card_le (Finset.filter_subset _ _) (by simp [h])
  have : r ∈ window spans lo (lo + len) := by
    rw [hfull]
    exact Finset.mem_Ico.mpr ⟨hlo, hhi⟩
  exact (mem_window.mp this).2

/-- None of the window is held when no number is. -/
theorem not_covered_of_card_zero (h : (window spans lo hi).card = 0) (hlo : lo ≤ r) (hhi : r < hi) :
    ¬ Covered spans r := fun hc => by
  have : r ∈ window spans lo hi := mem_window.mpr ⟨⟨hlo, hhi⟩, hc⟩
  rw [Finset.card_eq_zero.mp h] at this
  simp at this

/-! ## Chains -/

/-- Each span starts where the one before it ends, from a start to a stop. -/
def Chain (start : Nat) : List Span → Nat → Prop
  | [], stop => start = stop
  | s :: spans, stop => s.start = start ∧ Chain s.stop spans stop

/-- Each span starts at or after the end of the one before it, from a start to a stop. -/
def Ascending (start : Nat) : List Span → Nat → Prop
  | [], stop => start = stop
  | s :: spans, stop => start ≤ s.start ∧ Ascending s.stop spans stop

/-- The sum of the lengths. -/
def total (spans : List Span) : Nat := (spans.map Span.len).sum

theorem total_cons (s : Span) (spans : List Span) : total (s :: spans) = s.len + total spans := by
  rw [total, List.map_cons, List.sum_cons, total]

/-- Gaps only add to the lengths. -/
theorem Ascending.total_le {stop : Nat}
    (h : Ascending start spans stop) : start + total spans ≤ stop := by
  induction spans generalizing start with
  | nil => exact Nat.le_of_eq h
  | cons s spans ih =>
    obtain ⟨hstart, hrest⟩ := h
    have := ih hrest
    unfold Span.stop at this
    rw [total_cons]
    omega

/-- The stop is that of a span, or there is none. -/
theorem Ascending.stop_mem {stop : Nat} (h : Ascending start spans stop) :
    spans = [] ∧ start = stop ∨ ∃ s ∈ spans, s.stop = stop := by
  induction spans generalizing start with
  | nil => exact .inl ⟨rfl, h⟩
  | cons s spans ih =>
    rcases ih h.2 with ⟨rfl, hstop⟩ | ⟨s', hs', hstop⟩
    · exact .inr ⟨s, List.mem_cons_self, hstop⟩
    · exact .inr ⟨s', List.mem_cons_of_mem _ hs', hstop⟩

/-- **Ascending spans are a chain exactly when their lengths add up.** -/
theorem Ascending.chain_iff_sum {stop : Nat}
    (h : Ascending start spans stop) : Chain start spans stop ↔ start + total spans = stop := by
  induction spans generalizing start with
  | nil => exact Iff.rfl
  | cons s spans ih =>
    obtain ⟨hstart, hrest⟩ := h
    have hle := hrest.total_le
    rw [total_cons]
    unfold Chain
    rw [ih hrest]
    unfold Span.stop at hle ⊢
    constructor
    · rintro ⟨rfl, hsum⟩
      omega
    · intro hsum
      constructor <;> omega

/-- What stands in the spans of a chain, one after the other. -/
theorem Chain.flatten_slices {α : Type u} (whole : List α) {stop : Nat}
    (h : Chain start spans stop) :
    (spans.map fun s => (whole.drop s.start).take s.len).flatten =
      (whole.drop start).take (stop - start) ∧ start ≤ stop := by
  induction spans generalizing start with
  | nil =>
    obtain rfl : start = stop := h
    rw [Nat.sub_self]
    exact ⟨rfl, le_refl _⟩
  | cons s spans ih =>
    obtain ⟨rfl, hrest⟩ := h
    obtain ⟨hslices, hle⟩ := ih hrest
    unfold Span.stop at hslices hle
    have hlen : stop - s.start = s.len + (stop - (s.start + s.len)) := by omega
    rw [List.map_cons, List.flatten_cons, hslices, hlen, List.take_add, List.drop_drop]
    exact ⟨rfl, by omega⟩

/-! ## Spans in any order -/

/-- No two spans of the list have a number in common. -/
def Apart (spans : List Span) : Prop := spans.Pairwise fun a b => ∀ r, ¬ (a.Mem r ∧ b.Mem r)

/-- The numbers that the spans hold. -/
def held : List Span → Finset Nat
  | [] => ∅
  | s :: spans => Finset.Ico s.start s.stop ∪ held spans

theorem mem_held : r ∈ held spans ↔ Covered spans r := by
  induction spans with
  | nil => exact iff_of_false (Finset.notMem_empty r) (not_covered_nil r)
  | cons s spans ih => rw [held, Finset.mem_union, Finset.mem_Ico, ih, covered_cons, Span.Mem]

/-- Spans with no number in common hold as many numbers as their lengths say. -/
theorem card_held (h : Apart spans) : (held spans).card = total spans := by
  induction spans with
  | nil => rfl
  | cons s spans ih =>
    obtain ⟨hs, hrest⟩ := List.pairwise_cons.mp h
    have hdisjoint : Disjoint (Finset.Ico s.start s.stop) (held spans) := by
      refine Finset.disjoint_left.mpr fun r hr hheld => ?_
      obtain ⟨s', hs', hmem⟩ := mem_held.mp hheld
      exact hs s' hs' r ⟨Finset.mem_Ico.mp hr, hmem⟩
    have hlen : s.stop - s.start = s.len := by
      unfold Span.stop
      omega
    rw [held, Finset.card_union_of_disjoint hdisjoint, Nat.card_Ico, ih hrest, total_cons, hlen]

/-- A finite set that goes down to a number without a gap is the interval from there on. -/
theorem mem_iff_of_closed {U : Finset Nat} (h : ∀ u ∈ U, lo ≤ u ∧ ∀ r, lo ≤ r → r ≤ u → r ∈ U) :
    r ∈ U ↔ lo ≤ r ∧ r < lo + U.card := by
  constructor
  · intro hr
    obtain ⟨hlo, hdown⟩ := h r hr
    have hsub : Finset.Ico lo (r + 1) ⊆ U := by
      intro x hx
      obtain ⟨hx1, hx2⟩ := Finset.mem_Ico.mp hx
      exact hdown x hx1 (Nat.le_of_lt_succ hx2)
    have := Finset.card_le_card hsub
    rw [Nat.card_Ico] at this
    omega
  · rintro ⟨hlo, hlt⟩
    by_contra hr
    -- everything in the set is then below the number, and there is too little room for it
    have hsub : U ⊆ Finset.Ico lo r := by
      intro u hu
      obtain ⟨hulo, hdown⟩ := h u hu
      refine Finset.mem_Ico.mpr ⟨hulo, Nat.lt_of_not_le fun hru => hr (hdown r hlo hru)⟩
    have := Finset.card_le_card hsub
    rw [Nat.card_Ico] at this
    omega

/-- Each span that is not empty starts at a number or where another that is not empty stops. -/
def Adjoin (lo : Nat) (spans : List Span) : Prop :=
  ∀ s ∈ spans, 0 < s.len → s.start = lo ∨ ∃ s' ∈ spans, 0 < s'.len ∧ s'.stop = s.start

/-- **Spans with no number in common fill the interval from a number on exactly when** each adjoins
it or another one. -/
theorem covered_iff_adjoin {spans : List Span} (h : Apart spans) {lo : Nat} :
    (∀ r, Covered spans r ↔ lo ≤ r ∧ r < lo + total spans) ↔ Adjoin lo spans := by
  constructor
  · intro hfill s hs hlen
    have hmem : s.Mem s.start := ⟨Nat.le_refl _, by unfold Span.stop; omega⟩
    obtain ⟨hlo, hhi⟩ := (hfill s.start).mp ⟨s, hs, hmem⟩
    by_cases heq : s.start = lo
    · exact .inl heq
    · obtain ⟨s', hs', hbefore⟩ := (hfill (s.start - 1)).mpr ⟨by omega, by omega⟩
      obtain ⟨hstart, hstop⟩ := hbefore
      have hne : s' ≠ s := by
        rintro rfl
        omega
      have hsymm : Std.Symm fun a b : Span => ∀ r, ¬ (a.Mem r ∧ b.Mem r) :=
        ⟨fun a b hab r hr => hab r hr.symm⟩
      have hapart := h.forall hs' hs hne s.start
      refine .inr ⟨s', hs', by unfold Span.stop at hstop; omega, ?_⟩
      by_contra hpast
      exact hapart ⟨⟨by omega, by omega⟩, hmem⟩
  · intro hadjoin r
    have hdown : ∀ u, Covered spans u → lo ≤ u ∧ ∀ r, lo ≤ r → r ≤ u → Covered spans r := by
      intro u
      induction u using Nat.strong_induction_on with
      | _ u ih =>
        rintro ⟨s, hs, hstart, hstop⟩
        have hlen : 0 < s.len := by
          unfold Span.stop at hstop
          omega
        have hhere : Covered spans u := ⟨s, hs, hstart, hstop⟩
        -- unless it is the first of all, the number before it is held
        have hcases : u = lo ∨ ∃ v, v + 1 = u ∧ Covered spans v := by
          by_cases hfirst : s.start = u
          · rcases hadjoin s hs hlen with heq | ⟨s', hs', hlen', hstop'⟩
            · exact .inl (hfirst.symm.trans heq)
            · unfold Span.stop at hstop'
              exact .inr ⟨u - 1, by omega, s', hs', by omega, by unfold Span.stop; omega⟩
          · exact .inr ⟨u - 1, by omega, s, hs, by omega, by omega⟩
        rcases hcases with rfl | ⟨v, rfl, hv⟩
        · exact ⟨Nat.le_refl _, fun r hlo hr => Nat.le_antisymm hr hlo ▸ hhere⟩
        · obtain ⟨hlo, hv⟩ := ih v (Nat.lt_succ_self v) hv
          refine ⟨by omega, fun r hr hle => ?_⟩
          by_cases hlast : r = v + 1
          · exact hlast ▸ hhere
          · exact hv r hr (by omega)
    rw [← mem_held, ← card_held h]
    refine mem_iff_of_closed fun u hu => ?_
    obtain ⟨hlo, hall⟩ := hdown u (mem_held.mp hu)
    exact ⟨hlo, fun r hr hle => mem_held.mpr (hall r hr hle)⟩

end Spans
