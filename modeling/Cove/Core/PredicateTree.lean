import Cove.Lib.ThreeValued
import Cove.Core.Pruning

/-!
# Soundness of combined pruning verdicts

A predicate tree is pruned by explaining its leaves and folding the explanations with
the combinators. The verdict on the whole tree is compared with the three-valued truth
of the tree on the rows of the zone.

- `explain`: the combined explanation of a tree.
- `PredicateZoneOutcome.Sound`: all-match only over TRUE rows, no-match over none.
- `Leaf.NullRefuted`: a leaf refuted over a zone on one of whose rows it is UNKNOWN.
- `explain_noMatch_sound`: **a combined no-match never skips a row**.
- `explain_sound`: **the combined verdict is sound** when no null-refuted leaf stands
  under an odd number of `NOT`s.
- `explain_sound_iff`: that condition is exact, for every shape of predicate.
-/

namespace Cove

open ThreeValued ThreeValued.Truth PredicateZoneOutcome

/-! ## Explaining a tree -/

/-- The combined explanation of a predicate, from those of its leaves. -/
def explain : Pred PruningExplanation → PruningExplanation
  | .leaf e => e
  | .not p => (explain p).negate
  | .and p q => (explain p).and (explain q)
  | .or p q => (explain p).or (explain q)

/-- The verdict over a zone, for a predicate with the given truth on each row. -/
def PredicateZoneOutcome.Sound {ρ : Type u} (o : PredicateZoneOutcome) (zone : List ρ)
    (holds : ρ → Truth) : Prop :=
  (o = allMatch → ∀ r ∈ zone, holds r = tt) ∧ (o = noMatch → ∀ r ∈ zone, holds r ≠ tt)

/-- A comparison leaf: what its explainer reported, and its truth on each row. -/
structure Leaf (ρ : Type u) where
  explanation : PruningExplanation
  steps_ne : explanation.steps ≠ []
  holds : ρ → Truth

namespace Leaf

variable {ρ : Type u}

/-- The verdict a leaf explainer reported. -/
def outcome (l : Leaf ρ) : PredicateZoneOutcome := l.explanation.finalOutcome

def Sound (zone : List ρ) (l : Leaf ρ) : Prop := l.outcome.Sound zone l.holds

/-- The explainer refuted the leaf, though it is UNKNOWN on a row of the zone. -/
def NullRefuted (zone : List ρ) (l : Leaf ρ) : Prop :=
  l.outcome = noMatch ∧ ∃ r ∈ zone, l.holds r = Truth.unknown

/-- A leaf with one piece of evidence. -/
def ofStep (evidence : PruningEvidence) (outcome : PredicateZoneOutcome)
    (specSection : String) (holds : ρ → Truth) : Leaf ρ where
  explanation := singleStep evidence outcome specSection
  steps_ne := by simp
  holds := holds

@[simp] theorem outcome_ofStep (e : PruningEvidence) (o : PredicateZoneOutcome)
    (s : String) (t : ρ → Truth) : (ofStep e o s t).outcome = o := rfl

end Leaf

section Soundness

variable {ρ : Type u} {zone : List ρ} {p : Pred (Leaf ρ)}

/-- The verdict on a tree of leaves. -/
def treeOutcome (p : Pred (Leaf ρ)) : PredicateZoneOutcome :=
  (explain (p.map Leaf.explanation)).finalOutcome

/-- The truth of a tree on one row. -/
def treeHolds (p : Pred (Leaf ρ)) (r : ρ) : Truth := p.eval fun l => l.holds r

theorem explain_steps_ne (p : Pred (Leaf ρ)) : (explain (p.map Leaf.explanation)).steps ≠ [] := by
  induction p with
  | leaf l => exact l.steps_ne
  | not p ih => exact ih
  | and p q ihp ihq => simp [Pred.map, explain, PruningExplanation.and, ihp, ihq]
  | or p q ihp ihq => simp [Pred.map, explain, PruningExplanation.or, ihp, ihq]

@[simp] theorem treeOutcome_leaf (l : Leaf ρ) : treeOutcome (.leaf l) = l.outcome := rfl

@[simp] theorem treeOutcome_not (p : Pred (Leaf ρ)) :
    treeOutcome (.not p) = (treeOutcome p).negate := rfl

/-- Leaves always carry evidence, so the neutral branch of `and` is never taken. -/
@[simp] theorem treeOutcome_and (p q : Pred (Leaf ρ)) :
    treeOutcome (.and p q) = (treeOutcome p).and (treeOutcome q) := by
  simp [treeOutcome, Pred.map, explain, PruningExplanation.and, explain_steps_ne]

@[simp] theorem treeOutcome_or (p q : Pred (Leaf ρ)) :
    treeOutcome (.or p q) = (treeOutcome p).or (treeOutcome q) := by
  simp [treeOutcome, Pred.map, explain, PruningExplanation.or, explain_steps_ne]

@[simp] theorem treeHolds_leaf (l : Leaf ρ) (r : ρ) : treeHolds (.leaf l) r = l.holds r := rfl

@[simp] theorem treeHolds_not (p : Pred (Leaf ρ)) (r : ρ) :
    treeHolds (.not p) r = (treeHolds p r).not := rfl

@[simp] theorem treeHolds_and (p q : Pred (Leaf ρ)) (r : ρ) :
    treeHolds (.and p q) r = (treeHolds p r).and (treeHolds q r) := rfl

@[simp] theorem treeHolds_or (p q : Pred (Leaf ρ)) (r : ρ) :
    treeHolds (.or p q) r = (treeHolds p r).or (treeHolds q r) := rfl

/-- A definite verdict is never contradicted by a row: all-match excludes FALSE and
no-match excludes TRUE, whatever the nesting. -/
theorem treeHolds_ne_of_decided (hs : ∀ l ∈ p.leaves, l.Sound zone) {b : Bool}
    (h : treeOutcome p = decided b) {r : ρ} (hr : r ∈ zone) :
    treeHolds p r ≠ ofBool !b := by
  induction p generalizing b with
  | leaf l =>
    obtain ⟨hall, hno⟩ := hs l (List.mem_singleton_self l)
    cases b with
    | true =>
      have := hall h r hr
      simp [this, ofBool]
    | false => exact hno h r hr
  | not p ih =>
    rw [treeOutcome_not, negate_eq_decided_iff] at h
    have := ih hs h
    rw [treeHolds_not]
    rwa [Ne, not_eq_ofBool_iff]
  | and p q ihp ihq =>
    have hp := fun l hl => hs l (List.mem_append_left _ hl)
    have hq := fun l hl => hs l (List.mem_append_right _ hl)
    cases b with
    | true =>
      simp only [treeOutcome_and, decided_true, and_eq_allMatch_iff] at h
      have h1 := ihp hp (b := true) h.1
      have h2 := ihq hq (b := true) h.2
      simp only [Bool.not_true, ofBool, treeHolds_and, Ne, and_eq_ff_iff] at h1 h2 ⊢
      exact fun h => h.elim h1 h2
    | false =>
      simp only [treeOutcome_and, decided_false, and_eq_noMatch_iff] at h
      simp only [Bool.not_false, ofBool, treeHolds_and, Ne, and_eq_tt_iff]
      rintro ⟨h1, h2⟩
      rcases h with h | h
      · exact ihp hp (b := false) h h1
      · exact ihq hq (b := false) h h2
  | or p q ihp ihq =>
    have hp := fun l hl => hs l (List.mem_append_left _ hl)
    have hq := fun l hl => hs l (List.mem_append_right _ hl)
    cases b with
    | true =>
      simp only [treeOutcome_or, decided_true, or_eq_allMatch_iff] at h
      simp only [Bool.not_true, ofBool, treeHolds_or, Ne, or_eq_ff_iff]
      rintro ⟨h1, h2⟩
      rcases h with h | h
      · exact ihp hp (b := true) h h1
      · exact ihq hq (b := true) h h2
    | false =>
      simp only [treeOutcome_or, decided_false, or_eq_noMatch_iff] at h
      have h1 := ihp hp (b := false) h.1
      have h2 := ihq hq (b := false) h.2
      simp only [Bool.not_false, ofBool, treeHolds_or, Ne, or_eq_tt_iff] at h1 h2 ⊢
      exact fun h => h.elim h1 h2

/-- **A combined no-match never skips a row** the predicate accepts, NULLs or not. -/
theorem explain_noMatch_sound (hs : ∀ l ∈ p.leaves, l.Sound zone)
    (h : treeOutcome p = noMatch) : ∀ r ∈ zone, treeHolds p r ≠ tt :=
  fun _ hr => treeHolds_ne_of_decided hs (b := false) h hr

/-- A definite verdict `b` is exact when no leaf of the other polarity was refuted over
a NULL: `NOT` turns such a refutation into a false all-match. -/
theorem treeHolds_of_decided (hs : ∀ l ∈ p.leaves, l.Sound zone) {b : Bool}
    (hn : ∀ l ∈ p.atPolarity !b, ¬ l.NullRefuted zone)
    (h : treeOutcome p = decided b) {r : ρ} (hr : r ∈ zone) : treeHolds p r = ofBool b := by
  induction p generalizing b with
  | leaf l =>
    obtain ⟨hall, hno⟩ := hs l (List.mem_singleton_self l)
    cases b with
    | true => exact hall h r hr
    | false =>
      have hnn := hn l (by simp [Pred.atPolarity])
      cases ht : l.holds r with
      | tt => exact absurd ht (hno h r hr)
      | ff => exact ht
      | unknown => exact absurd ⟨h, r, hr, ht⟩ hnn
  | not p ih =>
    rw [treeOutcome_not, negate_eq_decided_iff] at h
    rw [treeHolds_not, not_eq_ofBool_iff]
    exact ih hs hn h
  | and p q ihp ihq =>
    have hp := fun l hl => hs l (List.mem_append_left _ hl)
    have hq := fun l hl => hs l (List.mem_append_right _ hl)
    have hnp := fun l hl => hn l (List.mem_append_left _ hl)
    have hnq := fun l hl => hn l (List.mem_append_right _ hl)
    cases b with
    | true =>
      simp only [treeOutcome_and, decided_true, and_eq_allMatch_iff] at h
      exact and_eq_tt_iff.mpr ⟨ihp hp hnp h.1, ihq hq hnq h.2⟩
    | false =>
      simp only [treeOutcome_and, decided_false, and_eq_noMatch_iff] at h
      exact and_eq_ff_iff.mpr (h.imp (ihp hp hnp) (ihq hq hnq))
  | or p q ihp ihq =>
    have hp := fun l hl => hs l (List.mem_append_left _ hl)
    have hq := fun l hl => hs l (List.mem_append_right _ hl)
    have hnp := fun l hl => hn l (List.mem_append_left _ hl)
    have hnq := fun l hl => hn l (List.mem_append_right _ hl)
    cases b with
    | true =>
      simp only [treeOutcome_or, decided_true, or_eq_allMatch_iff] at h
      exact or_eq_tt_iff.mpr (h.imp (ihp hp hnp) (ihq hq hnq))
    | false =>
      simp only [treeOutcome_or, decided_false, or_eq_noMatch_iff] at h
      exact or_eq_ff_iff.mpr ⟨ihp hp hnp h.1, ihq hq hnq h.2⟩

/-- **The combined verdict is sound** when no null-refuted leaf stands under an odd
number of `NOT`s. -/
theorem explain_sound (hs : ∀ l ∈ p.leaves, l.Sound zone)
    (hn : ∀ l ∈ p.atPolarity false, ¬ l.NullRefuted zone) :
    (treeOutcome p).Sound zone (treeHolds p) :=
  ⟨fun h _ hr => treeHolds_of_decided hs (b := true) hn h hr, explain_noMatch_sound hs⟩

end Soundness

/-! ## The condition is exact

A shape is a tree whose leaves say whether they may be refuted over NULLs. When such a
leaf stands under an odd number of `NOT`s, the siblings on the way up can be chosen so
that its refutation decides the whole tree. -/

/-- A leaf that was decided `b` and is `b` on the one row. -/
def decidedLeaf (b : Bool) : Leaf Unit :=
  .ofStep .zoneStats (decided b) "" fun _ => ofBool b

/-- A leaf that was refuted and is UNKNOWN on the one row. -/
def nullLeaf : Leaf Unit := .ofStep .zoneStats .noMatch "" fun _ => Truth.unknown

/-- Leaves chosen so that a tree is `b` and so decided. -/
def decidedTree : Bool → Pred Bool → Pred (Leaf Unit)
  | b, .leaf _ => .leaf (decidedLeaf b)
  | b, .not p => .not (decidedTree (!b) p)
  | b, .and p q => .and (decidedTree b p) (decidedTree b q)
  | b, .or p q => .or (decidedTree b p) (decidedTree b q)

/-- Leaves chosen so that a tree with a marked leaf of polarity `!b` is decided `b`
though it is UNKNOWN: the marked leaf is null-refuted, the siblings are neutral. -/
def spoiledTree : Bool → Pred Bool → Pred (Leaf Unit)
  | _, .leaf _ => .leaf nullLeaf
  | b, .not p => .not (spoiledTree (!b) p)
  | b, .and p q =>
    if true ∈ p.atPolarity !b then .and (spoiledTree b p) (decidedTree true q)
    else .and (decidedTree true p) (spoiledTree b q)
  | b, .or p q =>
    if true ∈ p.atPolarity !b then .or (spoiledTree b p) (decidedTree false q)
    else .or (decidedTree false p) (spoiledTree b q)

/-- A leaf fits its mark: only a marked leaf is null-refuted, and every leaf is sound. -/
def Leaf.Fits {ρ : Type u} (zone : List ρ) (l : Leaf ρ) (mark : Bool) : Prop :=
  l.Sound zone ∧ (l.NullRefuted zone → mark = true)

theorem decidedLeaf_fits (b m : Bool) : (decidedLeaf b).Fits [()] m := by
  cases b <;> simp [decidedLeaf, Leaf.Fits, Leaf.Sound, Leaf.NullRefuted, Leaf.ofStep,
    Leaf.outcome, Sound, ofBool]

theorem nullLeaf_fits : nullLeaf.Fits [()] true := by
  simp [nullLeaf, Leaf.Fits, Leaf.Sound, Leaf.ofStep, Leaf.outcome, Sound]

theorem decidedTree_spec (b : Bool) (p : Pred Bool) :
    Pred.Rel (Leaf.Fits [()]) (decidedTree b p) p ∧
      treeOutcome (decidedTree b p) = decided b ∧
      treeHolds (decidedTree b p) () = ofBool b := by
  induction p generalizing b with
  | leaf m => exact ⟨.leaf (decidedLeaf_fits b m), rfl, rfl⟩
  | not p ih =>
    obtain ⟨hf, ho, ht⟩ := ih (!b)
    exact ⟨.not hf, by simp [decidedTree, ho], by simp [decidedTree, ht]⟩
  | and p q ihp ihq =>
    obtain ⟨hf, ho, ht⟩ := ihp b
    obtain ⟨hf', ho', ht'⟩ := ihq b
    refine ⟨.and hf hf', ?_, ?_⟩
    · cases b <;> simp [decidedTree, ho, ho']
    · cases b <;> simp [decidedTree, ht, ht', ofBool]
  | or p q ihp ihq =>
    obtain ⟨hf, ho, ht⟩ := ihp b
    obtain ⟨hf', ho', ht'⟩ := ihq b
    refine ⟨.or hf hf', ?_, ?_⟩
    · cases b <;> simp [decidedTree, ho, ho']
    · cases b <;> simp [decidedTree, ht, ht', ofBool]

theorem spoiledTree_spec {b : Bool} {p : Pred Bool} (h : true ∈ p.atPolarity !b) :
    Pred.Rel (Leaf.Fits [()]) (spoiledTree b p) p ∧
      treeOutcome (spoiledTree b p) = decided b ∧
      treeHolds (spoiledTree b p) () = Truth.unknown := by
  induction p generalizing b with
  | leaf m =>
    cases b with
    | true => cases h
    | false =>
      obtain rfl := List.mem_singleton.mp h
      exact ⟨.leaf nullLeaf_fits, rfl, rfl⟩
  | not p ih =>
    obtain ⟨hf, ho, ht⟩ := ih (b := !b) h
    exact ⟨.not hf, by simp [spoiledTree, ho], by simp [spoiledTree, ht]⟩
  | and p q ihp ihq =>
    unfold spoiledTree
    by_cases hp : true ∈ p.atPolarity !b
    · obtain ⟨hf, ho, ht⟩ := ihp hp
      obtain ⟨hf', ho', ht'⟩ := decidedTree_spec true q
      rw [if_pos hp]
      refine ⟨.and hf hf', ?_, by simp [ht, ht', ofBool]⟩
      cases b <;> simp [ho, ho']
    · obtain ⟨hf, ho, ht⟩ := ihq ((List.mem_append.mp h).resolve_left hp)
      obtain ⟨hf', ho', ht'⟩ := decidedTree_spec true p
      rw [if_neg hp]
      refine ⟨.and hf' hf, ?_, by simp [ht, ht', ofBool]⟩
      cases b <;> simp [ho, ho']
  | or p q ihp ihq =>
    unfold spoiledTree
    by_cases hp : true ∈ p.atPolarity !b
    · obtain ⟨hf, ho, ht⟩ := ihp hp
      obtain ⟨hf', ho', ht'⟩ := decidedTree_spec false q
      rw [if_pos hp]
      refine ⟨.or hf hf', ?_, by simp [ht, ht', ofBool]⟩
      cases b <;> simp [ho, ho']
    · obtain ⟨hf, ho, ht⟩ := ihq ((List.mem_append.mp h).resolve_left hp)
      obtain ⟨hf', ho', ht'⟩ := decidedTree_spec false p
      rw [if_neg hp]
      refine ⟨.or hf' hf, ?_, by simp [ht, ht', ofBool]⟩
      cases b <;> simp [ho, ho']

/-- **Exactly when combination is sound.** For every shape of predicate, with the leaves
marked that may be refuted over NULLs: every predicate of that shape with sound leaves is
soundly combined over every zone, if and only if no marked leaf stands under an odd
number of `NOT`s. -/
theorem explain_sound_iff (p : Pred Bool) :
    (∀ (ρ : Type) (zone : List ρ) (q : Pred (Leaf ρ)), Pred.Rel (Leaf.Fits zone) q p →
      (treeOutcome q).Sound zone (treeHolds q)) ↔ true ∉ p.atPolarity false := by
  constructor
  · intro h hmem
    obtain ⟨hfits, ho, ht⟩ := spoiledTree_spec (b := true) (p := p) hmem
    have := (h Unit [()] _ hfits).1 ho () (List.mem_singleton_self _)
    rw [ht] at this
    cases this
  · intro hmem ρ zone q hfits
    refine explain_sound (fun l hl => ?_) (fun l hl hnull => ?_)
    · obtain ⟨_, _, hfit⟩ := hfits.exists_of_mem_leaves hl
      exact hfit.1
    · obtain ⟨m, hm, hfit⟩ := hfits.exists_of_mem hl
      obtain rfl := hfit.2 hnull
      exact hmem hm

/-! ## The defect -/

/-- SQL equality of a nullable file code with a literal. -/
def fileCodeEq (fileCode : Nat) : Option Nat → Truth
  | none => Truth.unknown
  | some c => ofBool (c == fileCode)

/-- Statistics of a zone with one row, which is NULL. -/
def nullOnlyZone : ZoneStatsEntry where
  tableId := 1
  segmentId := 0
  morselId := 0
  columnId := 0
  stats := ⟨1, 1, none, none, .empty⟩
  minDomainRank := 0
  maxDomainRank := 0

/-- `column = 5` over the null-only zone, as its explainer reports it. -/
def nullOnlyLeaf : Leaf (Option Nat) where
  explanation := explainFileCodeEquality 5 (some nullOnlyZone) none none
  steps_ne := by decide
  holds := fileCodeEq 5

/-- `NOT (column = 5)` over one NULL row: the leaf is soundly refuted, the negation is
reported to match everywhere, and it is UNKNOWN on the row. -/
theorem explain_not_nullOnly :
    nullOnlyLeaf.Sound [none] ∧ treeOutcome (.not (.leaf nullOnlyLeaf)) = allMatch ∧
      treeHolds (.not (.leaf nullOnlyLeaf)) none = Truth.unknown ∧
      ¬ (treeOutcome (.not (.leaf nullOnlyLeaf))).Sound [none]
        (treeHolds (.not (.leaf nullOnlyLeaf))) := by
  have ho : nullOnlyLeaf.outcome = noMatch := by decide
  have ht : nullOnlyLeaf.holds none = Truth.unknown := rfl
  refine ⟨⟨fun h => ?_, fun _ r hr => ?_⟩, by simp [ho, negate], by simp [ht], fun h => ?_⟩
  · rw [ho] at h
    cases h
  · obtain rfl := List.mem_singleton.mp hr
    simp [ht]
  · have := h.1 (by simp [ho, negate]) none (List.mem_singleton_self _)
    simp [ht] at this

end Cove
