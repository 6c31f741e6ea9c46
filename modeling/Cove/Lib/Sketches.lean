import Mathlib.Data.List.Basic
import Mathlib.Data.List.Perm.Subperm
import Mathlib.Data.Set.Lattice
import Mathlib.Order.MinMax

/-!
# Sketches

Three ways to keep a summary of many items in a little space.

- `ProbeSet`: a set of places stands for a set of keys. A key marks the places of its first probes,
  and is reported when all of its probes are marked. **No key that was inserted is missed**
  (`reports_foldl_insert`); nothing is assumed of the probes.
- `MaxRegisters`: each item is routed to a register, which keeps the greatest rank it has seen.
  **Neither order nor repetition matters** (`raised_eq_of_mem_iff`).
- `Compactors`: levels of items, each with room for a number of them. A level that is too full is
  emptied, fewer of its items are added to the next level, and the cascade goes one level back. It
  **ends**, since every step loses an item (`compact`), **every level of the result has room**
  (`compact_le`), and **its items are among the given ones** (`compact_subperm`).
-/

/-! ## Probe sets -/

namespace ProbeSet

variable {κ ι : Type*} (probe : κ → ℕ → ι)

/-- The places after a key has marked its own. -/
def insert (rounds : ℕ) (places : Set ι) (key : κ) : Set ι :=
  places ∪ {i | ∃ r < rounds, probe key r = i}

/-- Every probe of the key is marked. -/
def Reports (rounds : ℕ) (places : Set ι) (key : κ) : Prop :=
  ∀ r < rounds, probe key r ∈ places

variable {probe} {rounds : ℕ} {places : Set ι} {keys : List κ}

theorem mem_foldl_insert {i : ι} : i ∈ keys.foldl (insert probe rounds) places ↔
    i ∈ places ∨ ∃ key ∈ keys, ∃ r < rounds, probe key r = i := by
  induction keys generalizing places with
  | nil => simp
  | cons key keys ih =>
    rw [List.foldl_cons, ih]
    show (i ∈ places ∨ ∃ r < rounds, probe key r = i) ∨ _ ↔ _
    simp [or_assoc]

/-- **No key that was inserted is missed.** -/
theorem reports_foldl_insert {key : κ} (hkey : key ∈ keys) :
    Reports probe rounds (keys.foldl (insert probe rounds) places) key := by
  intro r hr
  exact mem_foldl_insert.mpr (.inr ⟨key, hkey, r, hr, rfl⟩)

/-- With another number of rounds, an inserted key is reported exactly when each of the rounds
that it was not inserted with meets a place marked all the same. -/
theorem reports_foldl_insert_iff {rounds' : ℕ} {key : κ} (hkey : key ∈ keys) :
    Reports probe rounds' (keys.foldl (insert probe rounds) places) key ↔
      ∀ r, rounds ≤ r → r < rounds' →
        probe key r ∈ places ∨ ∃ other ∈ keys, ∃ r' < rounds, probe other r' = probe key r := by
  constructor
  · intro h r _ hr
    exact mem_foldl_insert.mp (h r hr)
  · intro h r hr
    by_cases hown : r < rounds
    · exact reports_foldl_insert hkey r hown
    · exact mem_foldl_insert.mpr (h r (Nat.le_of_not_lt hown) hr)

end ProbeSet

/-! ## Registers that keep a maximum -/

namespace MaxRegisters

variable {α β : Type} [LinearOrder β]

/-- `registers[index] = registers[index].max(rank)`. -/
def raise (registers : List β) (index : Nat) (rank : β) : List β :=
  registers.modify index fun register => max register rank

@[simp] theorem length_raise (registers : List β) (index : Nat) (rank : β) :
    (raise registers index rank).length = registers.length := List.length_modify _ _ _

/-- The registers after items. -/
def raised (route : α → Nat) (rank : α → β) (registers : List β) (items : List α) : List β :=
  items.foldl (fun registers item => raise registers (route item) (rank item)) registers

theorem raised_cons (route : α → Nat) (rank : α → β) (registers : List β) (item : α)
    (items : List α) : raised route rank registers (item :: items) =
      raised route rank (raise registers (route item) (rank item)) items := rfl

variable {route : α → Nat} {rank : α → β} {registers : List β} {items : List α}

@[simp] theorem length_raised : (raised route rank registers items).length = registers.length := by
  induction items generalizing registers with
  | nil => rfl
  | cons item items ih => rw [raised_cons, ih, length_raise]

theorem raise_le_iff {index i : Nat} {r : β} (hi : i < registers.length)
    (hraise : i < (raise registers index r).length) (bound : β) :
    (raise registers index r)[i] ≤ bound ↔
      registers[i] ≤ bound ∧ (index = i → r ≤ bound) := by
  have hget : (raise registers index r)[i] =
      if index = i then max registers[i] r else registers[i] := List.getElem_modify _ _ _ _ _
  rw [hget]
  split
  · next heq => rw [max_le_iff, and_congr_right_iff]; exact fun _ => ⟨fun h _ => h, fun h => h heq⟩
  · next hne => exact (and_iff_left fun h => absurd h hne).symm

/-- **What bounds a register after some items.** -/
theorem raised_le_iff {i : Nat} (hi : i < registers.length)
    (hraised : i < (raised route rank registers items).length) (bound : β) :
    (raised route rank registers items)[i] ≤ bound ↔
      registers[i] ≤ bound ∧ ∀ item ∈ items, route item = i → rank item ≤ bound := by
  induction items generalizing registers with
  | nil => exact (and_iff_left nofun).symm
  | cons item items ih =>
    have hlen : i < (raise registers (route item) (rank item)).length := by rwa [length_raise]
    rw [List.forall_mem_cons, ← and_assoc, ← raise_le_iff hi hlen]
    exact ih hlen hraised

/-- **Neither order nor repetition matters.** -/
theorem raised_eq_of_mem_iff {others : List α} (h : ∀ item, item ∈ items ↔ item ∈ others) :
    raised route rank registers items = raised route rank registers others := by
  refine List.ext_getElem (by rw [length_raised, length_raised]) fun i hraised hothers => ?_
  have hi : i < registers.length := by rwa [length_raised] at hraised
  refine eq_of_forall_ge_iff fun bound => ?_
  rw [raised_le_iff hi hraised, raised_le_iff hi hothers]
  simp only [h]

end MaxRegisters

/-! ## Cascades of compactors -/

namespace Compactors

variable {α : Type} {capacity : Nat} {promote : Nat → List α → List α}

/-- What is promoted from a level that is too full is fewer items. -/
def Shrinks (capacity : Nat) (promote : Nat → List α → List α) : Prop :=
  ∀ i level, capacity < level.length → (promote i level).length < level.length

/-- Level `i` is emptied and what is promoted of it added to the next level, which is made when
there is none. -/
def compactStep (promote : Nat → List α → List α) (levels : List (List α)) (i : Nat)
    (level : List α) : List (List α) :=
  let emptied := levels.set i []
  let extended := if i + 1 = levels.length then emptied ++ [[]] else emptied
  extended.modify (i + 1) (· ++ promote i level)

/-- Items added to the first of some levels. -/
def addToFirst (items : List α) : List (List α) → List (List α)
  | [] => [items]
  | level :: levels => (level ++ items) :: levels

theorem modify_after (before rest : List (List α)) (level : List α) (f : List α → List α) :
    (before ++ level :: rest).modify (before.length + 1) f = before ++ level :: rest.modify 0 f := by
  induction before with
  | nil => rfl
  | cons first before ih => exact congrArg (first :: ·) ih

theorem compactStep_eq (promote : Nat → List α → List α) (before after : List (List α))
    (level : List α) : compactStep promote (before ++ level :: after) before.length level =
      before ++ [] :: addToFirst (promote before.length level) after := by
  have hset : (before ++ level :: after).set before.length [] = before ++ [] :: after := by
    rw [List.set_append_right _ _ (Nat.le_refl _), Nat.sub_self, List.set_cons_zero]
  unfold compactStep
  dsimp only
  rw [hset]
  cases after with
  | nil =>
    rw [if_pos (by simp), List.append_assoc, List.cons_append, modify_after]
    rfl
  | cons next after => rw [if_neg (by simp), modify_after]; rfl

theorem length_flatten_addToFirst (items : List α) (levels : List (List α)) :
    (addToFirst items levels).flatten.length = items.length + levels.flatten.length := by
  cases levels with
  | nil => simp [addToFirst]
  | cons level levels => simp [addToFirst]; omega

variable {levels : List (List α)}

variable {i : Nat}

/-- A level among its neighbours. -/
theorem split_of_lt (hi : i < levels.length) :
    ∃ before after, levels = before ++ levels[i] :: after ∧ before.length = i :=
  ⟨levels.take i, levels.drop (i + 1), by
    rw [← List.drop_eq_getElem_cons hi, List.take_append_drop], by
    rw [List.length_take, Nat.min_eq_left (Nat.le_of_lt hi)]⟩

/-- A step loses an item. -/
theorem length_compactStep_lt (hshrinks : Shrinks capacity promote)
    (hi : i < levels.length) (hfull : capacity < levels[i].length) :
    (compactStep promote levels i levels[i]).flatten.length < levels.flatten.length := by
  have hless := hshrinks i _ hfull
  obtain ⟨before, after, hsplit, rfl⟩ := split_of_lt hi
  generalize levels[before.length] = level at *
  subst hsplit
  rw [compactStep_eq]
  simp only [List.flatten_append, List.flatten_cons, List.length_append,
    length_flatten_addToFirst, List.length_nil]
  omega

/-- The cascade, from level `i` on. -/
def compact (hshrinks : Shrinks capacity promote) (levels : List (List α)) (i : Nat) :
    List (List α) :=
  if hi : i < levels.length then
    if hfull : levels[i].length ≤ capacity then compact hshrinks levels (i + 1)
    else compact hshrinks (compactStep promote levels i levels[i]) (i - 1)
  else levels
termination_by (levels.flatten.length, levels.length - i)
decreasing_by
  · exact Prod.Lex.right _ (by omega)
  · exact Prod.Lex.left _ _ (length_compactStep_lt hshrinks hi (Nat.not_le.mp hfull))

/-! ## The result -/

variable (hshrinks : Shrinks capacity promote)

/-- **Every level of the result has room.** The levels before the one the cascade is at do. -/
theorem compact_le (hbefore : ∀ level ∈ levels.take i, level.length ≤ capacity) :
    ∀ level ∈ compact hshrinks levels i, level.length ≤ capacity := by
  induction levels, i using compact.induct hshrinks with
  | case1 levels i hi hroom ih =>
    rw [compact, dif_pos hi, dif_pos hroom]
    refine ih fun level hlevel => ?_
    rw [List.take_succ_eq_append_getElem hi, List.mem_append, List.mem_singleton] at hlevel
    rcases hlevel with hlevel | rfl
    · exact hbefore level hlevel
    · exact hroom
  | case2 levels i hi hfull ih =>
    rw [compact, dif_pos hi, dif_neg hfull]
    refine ih fun level hlevel => hbefore level ?_
    -- the levels before stay as they are
    obtain ⟨before, after, hsplit, rfl⟩ := split_of_lt hi
    generalize levels[before.length] = level at *
    subst hsplit
    rw [compactStep_eq, List.take_append_of_le_length (Nat.sub_le _ _)] at hlevel
    rw [List.take_left]
    exact List.mem_of_mem_take hlevel
  | case3 levels i hi =>
    rw [compact, dif_neg hi]
    rwa [List.take_of_length_le (Nat.not_lt.mp hi)] at hbefore

/-- **The items of the result are among the given ones.** -/
theorem compact_subperm
    (hsub : ∀ i level, (promote i level).Subperm level) (levels : List (List α)) (i : Nat) :
    (compact hshrinks levels i).flatten.Subperm levels.flatten := by
  induction levels, i using compact.induct hshrinks with
  | case1 levels i hi hroom ih => rwa [compact, dif_pos hi, dif_pos hroom]
  | case2 levels i hi hfull ih =>
    rw [compact, dif_pos hi, dif_neg hfull]
    refine ih.trans ?_
    obtain ⟨before, after, hsplit, rfl⟩ := split_of_lt hi
    generalize levels[before.length] = level at *
    subst hsplit
    have hadd : (addToFirst (promote before.length level) after).flatten.Perm
        (promote before.length level ++ after.flatten) := by
      cases after with
      | nil => rw [addToFirst, List.flatten_singleton, List.flatten_nil, List.append_nil]
      | cons next after =>
        rw [addToFirst, List.flatten_cons, List.flatten_cons, ← List.append_assoc]
        exact List.Perm.append_right _ List.perm_append_comm
    rw [compactStep_eq, List.flatten_append, List.flatten_append, List.flatten_cons,
      List.flatten_cons, List.nil_append]
    exact (List.Subperm.refl _).append
      (hadd.subperm.trans ((hsub _ level).append (List.Subperm.refl _)))
  | case3 levels i hi => rw [compact, dif_neg hi]

/-- From levels of which only the last one has items, **only the last level has items** in the
end. -/
theorem compact_last (hlast : ∀ level ∈ levels.dropLast, level = []) (hlevels : levels ≠ []) :
    (∀ level ∈ (compact hshrinks levels i).dropLast, level = []) ∧
      compact hshrinks levels i ≠ [] := by
  induction levels, i using compact.induct hshrinks with
  | case1 levels i hi hroom ih =>
    rw [compact, dif_pos hi, dif_pos hroom]
    exact ih hlast hlevels
  | case2 levels i hi hfull ih =>
    rw [compact, dif_pos hi, dif_neg hfull]
    obtain ⟨before, after, hsplit, rfl⟩ := split_of_lt hi
    generalize levels[before.length] = level at *
    subst hsplit
    cases after with
    | cons next after =>
      -- a level before the last one is empty, so it has room
      have hempty : level = [] := hlast level (by
        rw [List.dropLast_append_of_ne_nil (List.cons_ne_nil _ _), List.dropLast_cons_cons]
        exact List.mem_append_right _ List.mem_cons_self)
      exact absurd (hempty ▸ Nat.zero_le _) hfull
    | nil =>
      rw [List.dropLast_concat] at hlast
      rw [compactStep_eq] at ih ⊢
      refine ih (fun level' hlevel' => ?_) (by simp)
      rw [addToFirst, List.append_cons, List.dropLast_concat, List.mem_append,
        List.mem_singleton] at hlevel'
      exact hlevel'.elim (hlast level') id
  | case3 levels i hi =>
    rw [compact, dif_neg hi]
    exact ⟨hlast, hlevels⟩

theorem flatten_of_last (hlast : ∀ level ∈ levels.dropLast, level = [])
    (hlevels : levels ≠ []) : levels.flatten = levels.getLast hlevels := by
  have hempty : levels.dropLast.flatten = [] := List.flatten_eq_nil_iff.mpr hlast
  conv_lhs => rw [← List.dropLast_append_getLast hlevels]
  rw [List.flatten_append, hempty, List.nil_append, List.flatten_singleton]

end Compactors
