import Mathlib.Data.List.Nodup
import Mathlib.Data.List.Perm.Subperm
import Mathlib.Data.List.Forall2

/-!
# Rooted trees by parents and by children

The nodes of a tree, each with the node above it and with a list of nodes below it. The two agree
when every list names children of its node and the lists are long enough together.

- `climb`: some steps up. `walk`: the nodes below a node, each before those below it.
- `Climbs`: every node is some steps below one root.
- `climb_lt_length`: **the steps up are fewer than the nodes**.
- `listed_iff`: **the lists name every child exactly when their lengths add up**.
- `walk_perm`: **the walk from the root meets every node once**.
-/

namespace RootedTree

variable {α : Type u}

/-- Some steps up. -/
def climb (parent : α → Option α) : Nat → α → Option α
  | 0, a => some a
  | k + 1, a => (parent a).bind (climb parent k)

/-- The node and the nodes below it, to some depth; none when there are deeper ones. -/
def walk (children : α → List α) : Nat → α → Option (List α)
  | 0, _ => none
  | depth + 1, a => ((children a).mapM (walk children depth)).map fun parts => a :: parts.flatten

/-- Every node is some steps below the root. -/
structure Climbs (all : List α) (parent : α → Option α) (root : α) : Prop where
  nodup : all.Nodup
  root_mem : root ∈ all
  root_parent : parent root = none
  parent_mem : ∀ a ∈ all, ∀ b, parent a = some b → b ∈ all
  reaches : ∀ a ∈ all, ∃ k, climb parent k a = some root

/-- Every list names children of its node, each once. -/
structure Points (all : List α) (parent : α → Option α) (children : α → List α) : Prop where
  nodup : ∀ a ∈ all, (children a).Nodup
  mem : ∀ a ∈ all, ∀ b ∈ children a, b ∈ all ∧ parent b = some a

/-- Every list names exactly the children of its node. -/
def Listed (all : List α) (parent : α → Option α) (children : α → List α) : Prop :=
  ∀ a ∈ all, ∀ b, b ∈ children a ↔ b ∈ all ∧ parent b = some a

variable {all : List α} {parent : α → Option α} {children : α → List α} {root : α}

/-! ## Steps up -/

/-- The last step up. -/
theorem climb_succ (k : Nat) (a : α) : climb parent (k + 1) a = (climb parent k a).bind parent := by
  induction k generalizing a with
  | zero =>
    rw [climb, climb, Option.bind_some]
    cases parent a <;> rfl
  | succ k ih =>
    rw [climb]
    cases h : parent a with
    | none =>
      rw [climb, h]
      rfl
    | some b =>
      rw [Option.bind_some, ih, climb, h, Option.bind_some]

variable {a : α}

/-- A node is as many steps below the root whichever way they are counted. -/
theorem climb_unique (hroot : parent root = none) {k k' : Nat}
    (h : climb parent k a = some root) (h' : climb parent k' a = some root) : k = k' := by
  induction k generalizing k' a with
  | zero =>
    obtain rfl := Option.some.inj h
    cases k' with
    | zero => rfl
    | succ k' =>
      rw [climb, hroot] at h'
      cases h'
  | succ k ih =>
    cases k' with
    | zero =>
      obtain rfl := Option.some.inj h'
      rw [climb, hroot] at h
      cases h
    | succ k' =>
      obtain ⟨b, hb, h⟩ := Option.bind_eq_some_iff.mp h
      obtain ⟨b', hb', h'⟩ := Option.bind_eq_some_iff.mp h'
      obtain rfl := Option.some.inj (hb.symm.trans hb')
      rw [ih h h']

theorem climb_add {j k : Nat} {b c : α} (h : climb parent j a = some b)
    (h' : climb parent k b = some c) : climb parent (j + k) a = some c := by
  induction j generalizing a with
  | zero =>
    obtain rfl := Option.some.inj h
    rwa [Nat.zero_add]
  | succ j ih =>
    obtain ⟨p, hp, h⟩ := Option.bind_eq_some_iff.mp h
    rw [Nat.succ_add, climb, hp, Option.bind_some]
    exact ih h

theorem mem_of_climb (h : Climbs all parent root) {k : Nat} {b : α} (ha : a ∈ all)
    (hclimb : climb parent k a = some b) : b ∈ all := by
  induction k generalizing a with
  | zero =>
    obtain rfl := Option.some.inj hclimb
    exact ha
  | succ k ih =>
    obtain ⟨p, hp, hrest⟩ := Option.bind_eq_some_iff.mp hclimb
    exact ih (h.parent_mem a ha p hp) hrest

/-- The nodes on the way up are distinct: each is nearer to the root than the one before. -/
theorem exists_path (h : Climbs all parent root) {k : Nat} (ha : a ∈ all)
    (hclimb : climb parent k a = some root) :
    ∃ path : List α, path.length = k + 1 ∧ path.Nodup ∧
      ∀ b ∈ path, b ∈ all ∧ ∃ j ≤ k, climb parent j b = some root := by
  induction k generalizing a with
  | zero =>
    obtain rfl := Option.some.inj hclimb
    refine ⟨[a], rfl, List.nodup_singleton a, fun b hb => ?_⟩
    obtain rfl := List.mem_singleton.mp hb
    exact ⟨ha, 0, Nat.le_refl 0, rfl⟩
  | succ k ih =>
    obtain ⟨b, hb, hrest⟩ := Option.bind_eq_some_iff.mp hclimb
    obtain ⟨path, hlength, hnodup, hpath⟩ := ih (h.parent_mem a ha b hb) hrest
    refine ⟨a :: path, by rw [List.length_cons, hlength], List.nodup_cons.mpr ⟨?_, hnodup⟩,
      List.forall_mem_cons.mpr ⟨⟨ha, k + 1, Nat.le_refl _, hclimb⟩, ?_⟩⟩
    · intro hmem
      obtain ⟨-, j, hj, hagain⟩ := hpath a hmem
      have := climb_unique h.root_parent hclimb hagain
      omega
    · intro c hc
      obtain ⟨hall, j, hj, hreach⟩ := hpath c hc
      exact ⟨hall, j, by omega, hreach⟩

/-- **The steps up to the root are fewer than the nodes.** -/
theorem climb_lt_length (h : Climbs all parent root) {k : Nat} (ha : a ∈ all)
    (hclimb : climb parent k a = some root) : k < all.length := by
  obtain ⟨path, hlength, hnodup, hpath⟩ := exists_path h ha hclimb
  have hle := (hnodup.subperm fun b hb => (hpath b hb).1).length_le
  omega

/-! ## Lists of children -/

/-- The root is the one node with no parent. -/
theorem eq_root_of_parent_eq_none (h : Climbs all parent root) (ha : a ∈ all)
    (hnone : parent a = none) : a = root := by
  obtain ⟨k, hk⟩ := h.reaches a ha
  cases k with
  | zero => exact Option.some.inj hk
  | succ k =>
    rw [climb, hnone] at hk
    cases hk

theorem nodup_flatMap_children (hnodup : all.Nodup) (h : Points all parent children) :
    (all.flatMap children).Nodup := by
  refine List.nodup_flatMap.mpr ⟨h.nodup, ?_⟩
  refine hnodup.imp_of_mem fun {a b} ha hb hne => ?_
  intro c hca hcb
  have hparent := (h.mem a ha c hca).2
  have hparent' := (h.mem b hb c hcb).2
  exact hne (Option.some.inj (hparent.symm.trans hparent'))

/-- **The lists name every child exactly when** there are as many places in them as nodes below the
root. -/
theorem listed_iff [DecidableEq α] (h : Climbs all parent root) (hpoints : Points all parent children) :
    Listed all parent children ↔ (all.flatMap children).length + 1 = all.length := by
  have hnodup := nodup_flatMap_children h.nodup hpoints
  have hsub : all.flatMap children ⊆ all.erase root := by
    intro b hb
    obtain ⟨a, ha, hba⟩ := List.mem_flatMap.mp hb
    obtain ⟨hball, hparent⟩ := hpoints.mem a ha b hba
    refine (List.mem_erase_of_ne ?_).mpr hball
    rintro rfl
    rw [h.root_parent] at hparent
    cases hparent
  have hsubperm := hnodup.subperm hsub
  have hbelow : (all.erase root).length + 1 = all.length := by
    rw [List.length_erase_of_mem h.root_mem]
    have := List.length_pos_of_mem h.root_mem
    omega
  rw [← hbelow, Nat.add_right_cancel_iff]
  constructor
  · intro hlisted
    refine Nat.le_antisymm hsubperm.length_le (List.Subperm.length_le ?_)
    refine (h.nodup.erase root).subperm fun b hb => ?_
    obtain ⟨hne, hball⟩ := (h.nodup.mem_erase_iff).mp hb
    cases hparent : parent b with
    | none => exact absurd (eq_root_of_parent_eq_none h hball hparent) hne
    | some a =>
      have ha := h.parent_mem b hball a hparent
      exact List.mem_flatMap.mpr ⟨a, ha, (hlisted a ha b).mpr ⟨hball, hparent⟩⟩
  · intro hlength a ha b
    refine ⟨hpoints.mem a ha b, ?_⟩
    rintro ⟨hball, hparent⟩
    have hne : b ≠ root := by
      rintro rfl
      rw [h.root_parent] at hparent
      cases hparent
    -- no room is left for a node that is in no list
    have hperm := hsubperm.perm_of_length_le (Nat.le_of_eq hlength.symm)
    have hmem := hperm.mem_iff.mpr ((List.mem_erase_of_ne hne).mpr hball)
    obtain ⟨a', ha', hba'⟩ := List.mem_flatMap.mp hmem
    have hparent' := (hpoints.mem a' ha' b hba').2
    obtain rfl := Option.some.inj (hparent.symm.trans hparent')
    exact hba'

/-! ## The walk -/

theorem mapM_eq_some_of_forall₂ {β : Type u} {f : α → Option β} {l : List α} {out : List β}
    (h : List.Forall₂ (fun a b => f a = some b) l out) : l.mapM f = some out := by
  induction h with
  | nil => rfl
  | cons hab _ ih =>
    rw [List.mapM_cons, hab, ih]
    rfl

/-- The walk from a node meets the nodes below it, each once. The induction is on the depth that is
left, which is more than the nodes that can still come. -/
theorem exists_walk (h : Climbs all parent root) (hnodup : ∀ a ∈ all, (children a).Nodup)
    (hlisted : Listed all parent children) {depth level : Nat} (ha : a ∈ all)
    (hlevel : climb parent level a = some root) (hdepth : all.length ≤ depth + level) :
    ∃ visited, walk children depth a = some visited ∧ visited.Nodup ∧
      ∀ b, b ∈ visited ↔ b ∈ all ∧ ∃ j, climb parent j b = some a := by
  induction depth generalizing level a with
  | zero =>
    have := climb_lt_length h ha hlevel
    omega
  | succ depth ih =>
    have hchildren : ∀ c ∈ children a, c ∈ all ∧ parent c = some a :=
      fun c hc => (hlisted a ha c).mp hc
    have hclimb : ∀ c ∈ children a, climb parent (level + 1) c = some root := by
      intro c hc
      rw [climb, (hchildren c hc).2, Option.bind_some]
      exact hlevel
    have hvisits : ∀ c ∈ children a, ∃ part, walk children depth c = some part ∧ part.Nodup ∧
        ∀ b, b ∈ part ↔ b ∈ all ∧ ∃ j, climb parent j b = some c :=
      fun c hc => ih (hchildren c hc).1 (hclimb c hc) (by omega)
    choose! part hwalk hpart hmem using hvisits
    have hmapM : (children a).mapM (walk children depth) = some ((children a).map part) :=
      mapM_eq_some_of_forall₂ (List.forall₂_map_right_iff.mpr (List.forall₂_same.mpr hwalk))
    refine ⟨a :: ((children a).map part).flatten, ?_, List.nodup_cons.mpr ⟨?_, ?_⟩, fun b => ?_⟩
    · rw [walk, hmapM]
      rfl
    · -- the node is not below one of its children
      intro hbelow
      obtain ⟨_, hpartMem, hin⟩ := List.mem_flatten.mp hbelow
      obtain ⟨c, hc, rfl⟩ := List.mem_map.mp hpartMem
      obtain ⟨-, j, hj⟩ := (hmem c hc a).mp hin
      have := climb_unique h.root_parent hlevel (climb_add hj (hclimb c hc))
      omega
    · rw [← List.flatMap_def]
      refine List.nodup_flatMap.mpr ⟨hpart, (hnodup a ha).imp_of_mem fun {c c'} hc hc' hne => ?_⟩
      -- a node is below one child only, since both are on one level
      intro b hb hb'
      obtain ⟨-, j, hj⟩ := (hmem c hc b).mp hb
      obtain ⟨-, j', hj'⟩ := (hmem c' hc' b).mp hb'
      have := climb_unique h.root_parent (climb_add hj (hclimb c hc))
        (climb_add hj' (hclimb c' hc'))
      obtain rfl : j = j' := by omega
      exact hne (Option.some.inj (hj.symm.trans hj'))
    · rw [List.mem_cons, ← List.flatMap_def, List.mem_flatMap]
      constructor
      · rintro (rfl | ⟨c, hc, hb⟩)
        · exact ⟨ha, 0, rfl⟩
        · obtain ⟨hball, j, hj⟩ := (hmem c hc b).mp hb
          refine ⟨hball, j + 1, ?_⟩
          rw [climb_succ, hj, Option.bind_some]
          exact (hchildren c hc).2
      · rintro ⟨hball, j, hj⟩
        cases j with
        | zero => exact .inl (Option.some.inj hj)
        | succ j =>
          rw [climb_succ] at hj
          obtain ⟨c, hc, hparent⟩ := Option.bind_eq_some_iff.mp hj
          have hcall : c ∈ all := mem_of_climb h hball hc
          have hcmem := (hlisted a ha c).mpr ⟨hcall, hparent⟩
          exact .inr ⟨c, hcmem, (hmem c hcmem b).mpr ⟨hball, j, hc⟩⟩

/-- **The walk from the root ends and meets every node once.** -/
theorem walk_perm (h : Climbs all parent root) (hnodup : ∀ a ∈ all, (children a).Nodup)
    (hlisted : Listed all parent children) :
    ∃ visited, walk children all.length root = some visited ∧ visited.Perm all := by
  obtain ⟨visited, hwalk, hvisited, hmem⟩ := exists_walk h hnodup hlisted h.root_mem
    (show climb parent 0 root = some root from rfl) (Nat.le_refl all.length)
  refine ⟨visited, hwalk, (List.perm_ext_iff_of_nodup hvisited h.nodup).mpr fun b => ?_⟩
  rw [hmem]
  exact ⟨And.left, fun hb => ⟨hb, h.reaches b hb⟩⟩

end RootedTree
