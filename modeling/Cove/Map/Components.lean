import Mathlib.Logic.Relation
import Cove.Map.Identity

/-!
# The components of the merge groups

The union-find of `planIdentities`: parents never point upwards, so every index has a root,
and uniting two indexes adds exactly their pair to the relation of having one root.

- `rootOf_unionRoots`, `sameRoot_unionRoots`: one union.
- `sameRoot_foldl_unionRoots`: **a run of unions generates the equivalence of its pairs**.
- `componentsOf_eq`, `componentRoot_eq_iff`: **two keys are of one component exactly when
  they are one key or of one merge group**.
-/

namespace Cove

open Relation

/-! ## Roots -/

/-- Parents never point upwards. -/
def Forest (parent : List Nat) : Prop := ∀ i, parent.getD i i ≤ i

/-- `find`. -/
def rootOf (parent : List Nat) (index : Nat) : Nat := findRoot parent parent.length index

variable {i : Nat} {keys : List IdentityKey}

section

variable {parent : List Nat}

theorem getD_of_length_le (h : parent.length ≤ i) : parent.getD i i = i := by
  rw [List.getD_eq_getElem?_getD, List.getElem?_eq_none h]
  rfl

theorem findRoot_add_one (fuel i : Nat) : findRoot parent (fuel + 1) i =
    if parent.getD i i = i then i else findRoot parent fuel (parent.getD i i) := rfl

/-- More fuel than the index changes nothing. -/
theorem findRoot_succ (hf : Forest parent) {fuel : Nat} (hi : i ≤ fuel) :
    findRoot parent (fuel + 1) i = findRoot parent fuel i := by
  induction fuel generalizing i with
  | zero =>
    obtain rfl := Nat.le_zero.mp hi
    have hzero : parent.getD 0 0 = 0 := Nat.le_zero.mp (hf 0)
    rw [findRoot_add_one, if_pos hzero]
    rfl
  | succ fuel ih =>
    rw [findRoot_add_one, findRoot_add_one fuel i]
    by_cases hp : parent.getD i i = i
    · rw [if_pos hp, if_pos hp]
    · have hlt := lt_of_le_of_ne (hf i) hp
      rw [if_neg hp, if_neg hp]
      exact ih (by omega)

theorem rootOf_of_fixed (h : parent.getD i i = i) : rootOf parent i = i := by
  unfold rootOf
  cases parent.length with
  | zero => rfl
  | succ n => rw [findRoot_add_one, if_pos h]

theorem rootOf_step (hf : Forest parent) (i : Nat) :
    rootOf parent i = rootOf parent (parent.getD i i) := by
  by_cases hp : parent.getD i i = i
  · rw [hp]
  · have hlt := lt_of_le_of_ne (hf i) hp
    have hlen : i < parent.length := by
      by_contra h
      exact hp (getD_of_length_le (not_lt.mp h))
    obtain ⟨n, hn⟩ : ∃ n, parent.length = n + 1 := ⟨parent.length - 1, by omega⟩
    unfold rootOf
    rw [hn, findRoot_add_one, if_neg hp, findRoot_succ hf (by omega)]

theorem rootOf_spec (hf : Forest parent) (i : Nat) :
    rootOf parent i ≤ i ∧ parent.getD (rootOf parent i) (rootOf parent i) = rootOf parent i := by
  induction i using Nat.strong_induction_on with
  | _ i ih =>
    by_cases hp : parent.getD i i = i
    · rw [rootOf_of_fixed hp]
      exact ⟨le_rfl, hp⟩
    · have hlt := lt_of_le_of_ne (hf i) hp
      obtain ⟨hle, hfixed⟩ := ih _ hlt
      rw [rootOf_step hf]
      exact ⟨hle.trans hlt.le, hfixed⟩

theorem rootOf_rootOf (hf : Forest parent) (i : Nat) :
    rootOf parent (rootOf parent i) = rootOf parent i :=
  rootOf_of_fixed (rootOf_spec hf i).2

/-! ## One union -/

section

variable {left right : Nat} (hf : Forest parent) (hleft : left < parent.length)
  (hright : right < parent.length)

include hf hleft hright

theorem getD_unionRoots (i : Nat) : (unionRoots parent left right).getD i i =
    if i = max (rootOf parent left) (rootOf parent right) then
      min (rootOf parent left) (rootOf parent right) else parent.getD i i := by
  have hl := (rootOf_spec hf left).1
  have hr := (rootOf_spec hf right).1
  have hmax : max (rootOf parent left) (rootOf parent right) < parent.length := by omega
  show (parent.set (max (rootOf parent left) (rootOf parent right))
    (min (rootOf parent left) (rootOf parent right))).getD i i = _
  by_cases hi : i = max (rootOf parent left) (rootOf parent right)
  · rw [if_pos hi, List.getD_eq_getElem?_getD, hi]
    exact congrArg (Option.getD · _) (List.getElem?_set_self hmax)
  · rw [if_neg hi, List.getD_eq_getElem?_getD, List.getElem?_set_ne (Ne.symm hi),
      List.getD_eq_getElem?_getD]

theorem forest_unionRoots : Forest (unionRoots parent left right) := by
  intro i
  rw [getD_unionRoots hf hleft hright]
  by_cases hi : i = max (rootOf parent left) (rootOf parent right)
  · rw [if_pos hi, hi]
    exact min_le_max
  · rw [if_neg hi]
    exact hf i

/-- **The larger root gives way to the smaller one**, and no other root moves. -/
theorem rootOf_unionRoots (i : Nat) : rootOf (unionRoots parent left right) i =
    if rootOf parent i = max (rootOf parent left) (rootOf parent right) then
      min (rootOf parent left) (rootOf parent right) else rootOf parent i := by
  have hf' := forest_unionRoots hf hleft hright
  have hget := getD_unionRoots hf hleft hright
  have hfixed : ∀ j, j = rootOf parent left ∨ j = rootOf parent right → parent.getD j j = j := by
    rintro j (rfl | rfl)
    · exact (rootOf_spec hf left).2
    · exact (rootOf_spec hf right).2
  induction i using Nat.strong_induction_on with
  | _ i ih =>
    by_cases hi : i = max (rootOf parent left) (rootOf parent right)
    · have hroot : rootOf parent i = i := rootOf_of_fixed (hfixed i (by omega))
      rw [hroot, if_pos hi, rootOf_step hf', hget, if_pos hi]
      refine rootOf_of_fixed ?_
      rw [hget]
      split
      · rfl
      · exact hfixed _ (by omega)
    · by_cases hp : parent.getD i i = i
      · have hp' := hget i
        rw [if_neg hi, hp] at hp'
        rw [rootOf_of_fixed hp, rootOf_of_fixed hp', if_neg hi]
      · have hlt := lt_of_le_of_ne (hf i) hp
        rw [rootOf_step hf' i, hget, if_neg hi, ih _ hlt, ← rootOf_step hf i]

end

/-- The indexes have one root. -/
def SameRoot (parent : List Nat) (i j : Nat) : Prop := rootOf parent i = rootOf parent j

theorem sameRoot_equivalence (parent : List Nat) : Equivalence (SameRoot parent) :=
  ⟨fun _ => rfl, fun h => h.symm, fun h h' => h.trans h'⟩

/-- What generates an equivalence stays in any other one that holds of it. -/
theorem eqvGen_le {α : Type u} {r s : α → α → Prop} (hs : Equivalence s)
    (h : ∀ a b, r a b → s a b) {a b : α} (hab : EqvGen r a b) : s a b :=
  hs.eqvGen_iff.mp (hab.mono h)

/-- **One union adds one pair.** -/
theorem sameRoot_unionRoots {left right : Nat} (hf : Forest parent) (hleft : left < parent.length)
    (hright : right < parent.length) (i j : Nat) :
    SameRoot (unionRoots parent left right) i j ↔
      EqvGen (fun a b => SameRoot parent a b ∨ (a, b) = (left, right)) i j := by
  have hroot := rootOf_unionRoots hf hleft hright
  constructor
  · intro h
    have hedge : EqvGen (fun a b => SameRoot parent a b ∨ (a, b) = (left, right)) left right :=
      .rel _ _ (.inr rfl)
    have hin : ∀ {a b}, rootOf parent a = rootOf parent b →
        EqvGen (fun a b => SameRoot parent a b ∨ (a, b) = (left, right)) a b :=
      fun h => .rel _ _ (.inl h)
    have h' : rootOf parent i = rootOf parent j ∨
        (rootOf parent i = rootOf parent left ∧ rootOf parent j = rootOf parent right) ∨
        (rootOf parent i = rootOf parent right ∧ rootOf parent j = rootOf parent left) := by
      unfold SameRoot at h
      rw [hroot, hroot] at h
      split at h <;> split at h <;> omega
    rcases h' with h' | ⟨hi, hj⟩ | ⟨hi, hj⟩
    · exact hin h'
    · exact ((hin hi).trans _ _ _ hedge).trans _ _ _ (hin hj.symm)
    · exact ((hin hi).trans _ _ _ (hedge.symm _ _)).trans _ _ _ (hin hj.symm)
  · refine eqvGen_le (sameRoot_equivalence _) ?_
    rintro a b (h | h)
    · unfold SameRoot at h ⊢
      rw [hroot, hroot, h]
    · obtain ⟨rfl, rfl⟩ := Prod.mk.inj h
      unfold SameRoot
      rw [hroot, hroot]
      split <;> split <;> omega

/-! ## A run of unions -/

/-- Unite the indexes of each pair. -/
def uniteAll (parent : List Nat) (edges : List (Nat × Nat)) : List Nat :=
  edges.foldl (fun parent edge => unionRoots parent edge.1 edge.2) parent

/-- **A run of unions generates the equivalence of its pairs.** -/
theorem sameRoot_uniteAll {edges : List (Nat × Nat)} (hf : Forest parent)
    (hedges : ∀ e ∈ edges, e.1 < parent.length ∧ e.2 < parent.length) :
    Forest (uniteAll parent edges) ∧ ∀ i j, SameRoot (uniteAll parent edges) i j ↔
      EqvGen (fun a b => SameRoot parent a b ∨ (a, b) ∈ edges) i j := by
  induction edges generalizing parent with
  | nil =>
    refine ⟨hf, fun i j => ⟨fun h => .rel _ _ (.inl h), ?_⟩⟩
    refine eqvGen_le (sameRoot_equivalence _) ?_
    rintro a b (h | h)
    · exact h
    · cases h
  | cons edge edges ih =>
    obtain ⟨left, right⟩ := edge
    obtain ⟨⟨hleft, hright⟩, hrest⟩ := List.forall_mem_cons.mp hedges
    have hlen : (unionRoots parent left right).length = parent.length := List.length_set
    obtain ⟨hforest, hsame⟩ := ih (forest_unionRoots hf hleft hright)
      fun e he => by simpa only [hlen] using hrest e he
    refine ⟨hforest, fun i j => (hsame i j).trans ⟨?_, ?_⟩⟩
    · refine eqvGen_le (EqvGen.is_equivalence _) ?_
      rintro a b (h | h)
      · refine ((sameRoot_unionRoots hf hleft hright a b).mp h).mono ?_
        rintro c d (h | h)
        · exact .inl h
        · exact .inr (h ▸ List.mem_cons_self)
      · exact .rel _ _ (.inr (List.mem_cons_of_mem _ h))
    · intro h
      refine h.mono ?_
      rintro a b (h | h)
      · exact .inl ((sameRoot_unionRoots hf hleft hright a b).mpr (.rel _ _ (.inl h)))
      · rcases List.mem_cons.mp h with h | h
        · exact .inl ((sameRoot_unionRoots hf hleft hright a b).mpr (.rel _ _ (.inr h)))
        · exact .inr h

end

/-! ## The components -/

/-- The first index with each of the others. -/
def starEdges : List Nat → List (Nat × Nat)
  | [] => []
  | first :: rest => rest.map fun index => (first, index)

/-- The indexes of the keys with their merge groups. -/
def groupedIndexes (keys : List IdentityKey) : List (List Nat × Nat) :=
  keys.zipIdx.filterMap fun (key, index) =>
    key.mergeGroupKey.map fun group => (group.map UInt8.toNat, index)

def mergeEdges (keys : List IdentityKey) : List (Nat × Nat) :=
  (Grouping.grouped Prod.fst (groupedIndexes keys)).flatMap fun group =>
    starEdges (group.2.map Prod.snd)

/-- The root of a key among the keys. -/
def componentRoot (keys : List IdentityKey) : Nat → Nat :=
  rootOf (uniteAll (List.range keys.length) (mergeEdges keys))

/-- The merge group of the key at an index. -/
def mergeGroupAt (keys : List IdentityKey) (index : Nat) : Option (List UInt8) :=
  keys[index]?.bind IdentityKey.mergeGroupKey

/-- The first index of a group, united with the others. -/
def uniteGroup (parent indexes : List Nat) : List Nat :=
  match indexes with
  | [] => parent
  | first :: rest => rest.foldl (fun parent index => unionRoots parent first index) parent

theorem uniteAll_starEdges (parent indexes : List Nat) :
    uniteAll parent (starEdges indexes) = uniteGroup parent indexes := by
  cases indexes with
  | nil => rfl
  | cons first rest =>
    show (rest.map fun index => (first, index)).foldl _ parent = _
    rw [List.foldl_map]
    rfl

theorem uniteAll_flatMap {α : Type u} (indexesOf : α → List Nat) (groups : List α)
    (parent : List Nat) : uniteAll parent (groups.flatMap fun group => starEdges (indexesOf group)) =
      groups.foldl (fun parent group => uniteGroup parent (indexesOf group)) parent := by
  induction groups generalizing parent with
  | nil => rfl
  | cons group groups ih =>
    rw [List.flatMap_cons, List.foldl_cons, ← ih, ← uniteAll_starEdges]
    exact List.foldl_append

theorem componentsOf_eq (keys : List IdentityKey) :
    componentsOf keys = Grouping.grouped (componentRoot keys) (List.range keys.length) := by
  unfold componentsOf componentRoot rootOf mergeEdges
  rw [uniteAll_flatMap]
  rfl

variable {group : List Nat} {bytes : List UInt8} {j : Nat}

theorem mem_groupedIndexes {index : Nat} :
    (group, index) ∈ groupedIndexes keys ↔
      ∃ bytes, mergeGroupAt keys index = some bytes ∧ bytes.map UInt8.toNat = group := by
  unfold groupedIndexes mergeGroupAt
  simp only [List.mem_filterMap, Prod.exists, List.mem_zipIdx_iff_getElem?, Option.map_eq_some_iff,
    Prod.mk.injEq, Option.bind_eq_some_iff]
  constructor
  · rintro ⟨key, i, hkey, bytes, hbytes, hgroup, rfl⟩
    exact ⟨bytes, ⟨key, hkey, hbytes⟩, hgroup⟩
  · rintro ⟨bytes, ⟨key, hkey, hbytes⟩, hgroup⟩
    exact ⟨key, index, hkey, bytes, hbytes, hgroup, rfl⟩

theorem map_toNat_injective : Function.Injective (List.map UInt8.toNat) :=
  List.map_injective_iff.mpr fun _ _ h => UInt8.toNat_inj.mp h

/-- The keys are one, or of one merge group. -/
def Merged (keys : List IdentityKey) (i j : Nat) : Prop :=
  i = j ∨ ∃ bytes, mergeGroupAt keys i = some bytes ∧ mergeGroupAt keys j = some bytes

theorem merged_equivalence (keys : List IdentityKey) : Equivalence (Merged keys) := by
  refine ⟨fun _ => .inl rfl, ?_, ?_⟩
  · rintro i j (rfl | ⟨bytes, hi, hj⟩)
    · exact .inl rfl
    · exact .inr ⟨bytes, hj, hi⟩
  · rintro i j k (rfl | ⟨bytes, hi, hj⟩) hjk
    · exact hjk
    · rcases hjk with rfl | ⟨bytes', hj', hk⟩
      · exact .inr ⟨bytes, hi, hj⟩
      · obtain rfl := Option.some.inj (hj.symm.trans hj')
        exact .inr ⟨bytes, hi, hk⟩

theorem lt_length_of_mergeGroupAt (h : mergeGroupAt keys i = some bytes) : i < keys.length := by
  obtain ⟨key, hkey, -⟩ := Option.bind_eq_some_iff.mp h
  exact (List.getElem?_eq_some_iff.mp hkey).1

/-- The indexes of one merge group. -/
theorem mem_group_indexes {members : List (List Nat × Nat)}
    (h : (group, members) ∈ Grouping.grouped Prod.fst (groupedIndexes keys)) :
    i ∈ members.map Prod.snd ↔
      ∃ bytes, mergeGroupAt keys i = some bytes ∧ bytes.map UInt8.toNat = group := by
  rw [(Grouping.mem_grouped.mp h).1]
  simp only [List.mem_map, List.mem_filter, decide_eq_true_iff, Prod.exists]
  constructor
  · rintro ⟨group', i', ⟨hmem, rfl⟩, rfl⟩
    exact mem_groupedIndexes.mp hmem
  · intro hi
    exact ⟨group, i, ⟨mem_groupedIndexes.mpr hi, rfl⟩, rfl⟩

theorem merged_of_mem_mergeEdges (h : (i, j) ∈ mergeEdges keys) :
    ∃ bytes, mergeGroupAt keys i = some bytes ∧ mergeGroupAt keys j = some bytes := by
  obtain ⟨⟨group, members⟩, hgroup, hedge⟩ := List.mem_flatMap.mp h
  have hmem := fun {k} => mem_group_indexes (i := k) hgroup
  dsimp only at hedge
  generalize members.map Prod.snd = indexes at hedge hmem
  cases indexes with
  | nil => cases hedge
  | cons first rest =>
    obtain ⟨index, hindex, heq⟩ := List.mem_map.mp hedge
    obtain ⟨rfl, rfl⟩ := Prod.mk.inj heq
    obtain ⟨bytes, hi, hb⟩ := hmem.mp (List.mem_cons_self (a := first))
    obtain ⟨bytes', hj, hb'⟩ := hmem.mp (List.mem_cons_of_mem _ hindex)
    obtain rfl := map_toNat_injective (hb.trans hb'.symm)
    exact ⟨bytes, hi, hj⟩

/-- Both indexes of a merge group hang on its first one. -/
theorem eqvGen_of_mergeGroup
    (hi : mergeGroupAt keys i = some bytes) (hj : mergeGroupAt keys j = some bytes) :
    EqvGen (fun a b => (a, b) ∈ mergeEdges keys) i j := by
  have hkey : bytes.map UInt8.toNat ∈
      (Grouping.grouped Prod.fst (groupedIndexes keys)).map Prod.fst :=
    Grouping.mem_keys_grouped.mpr ⟨_, mem_groupedIndexes.mpr ⟨bytes, hi, rfl⟩, rfl⟩
  obtain ⟨⟨group, members⟩, hgroup, hname⟩ := List.mem_map.mp hkey
  have hmem := fun {k} => mem_group_indexes (i := k) hgroup
  have hedges : ∀ e ∈ starEdges (members.map Prod.snd), e ∈ mergeEdges keys :=
    fun e he => List.mem_flatMap.mpr ⟨_, hgroup, he⟩
  have hiIn := hmem.mpr ⟨bytes, hi, hname.symm⟩
  have hjIn := hmem.mpr ⟨bytes, hj, hname.symm⟩
  generalize members.map Prod.snd = indexes at hedges hiIn hjIn
  cases indexes with
  | nil => cases hiIn
  | cons first rest =>
    have hfirst : ∀ k ∈ first :: rest, EqvGen (fun a b => (a, b) ∈ mergeEdges keys) first k := by
      intro k hk
      rcases List.mem_cons.mp hk with rfl | hk
      · exact .refl _
      · exact .rel _ _ (hedges _ (List.mem_map_of_mem hk))
    exact ((hfirst i hiIn).symm _ _).trans _ _ _ (hfirst j hjIn)

theorem rootOf_range (n i : Nat) : rootOf (List.range n) i = i := by
  refine rootOf_of_fixed ?_
  by_cases hi : i < n
  · rw [List.getD_eq_getElem?_getD, List.getElem?_range hi]
    rfl
  · exact getD_of_length_le (by simpa using not_lt.mp hi)

theorem componentRoot_spec (keys : List IdentityKey) :
    Forest (uniteAll (List.range keys.length) (mergeEdges keys)) ∧
      ∀ i j, componentRoot keys i = componentRoot keys j ↔ Merged keys i j := by
  have hstart : Forest (List.range keys.length) := by
    intro i
    by_cases hi : i < keys.length
    · rw [List.getD_eq_getElem?_getD, List.getElem?_range hi]
      exact le_rfl
    · exact (getD_of_length_le (by simpa using not_lt.mp hi)).le
  have hedges : ∀ e ∈ mergeEdges keys, e.1 < (List.range keys.length).length ∧
      e.2 < (List.range keys.length).length := by
    rintro ⟨i, j⟩ he
    obtain ⟨bytes, hi, hj⟩ := merged_of_mem_mergeEdges he
    rw [List.length_range]
    exact ⟨lt_length_of_mergeGroupAt hi, lt_length_of_mergeGroupAt hj⟩
  obtain ⟨hforest, hsame⟩ := sameRoot_uniteAll hstart hedges
  refine ⟨hforest, fun i j => (hsame i j).trans ⟨?_, ?_⟩⟩
  · refine eqvGen_le (merged_equivalence keys) ?_
    rintro a b (h | h)
    · unfold SameRoot at h
      rw [rootOf_range, rootOf_range] at h
      exact .inl h
    · exact .inr (merged_of_mem_mergeEdges h)
  · rintro (rfl | ⟨bytes, hi, hj⟩)
    · exact .refl _
    · exact (eqvGen_of_mergeGroup hi hj).mono fun _ _ h => .inr h

/-- **Two keys are of one component exactly when** they are one key or of one merge group. -/
theorem componentRoot_eq_iff :
    componentRoot keys i = componentRoot keys j ↔ Merged keys i j :=
  (componentRoot_spec keys).2 i j

/-- A key without a merge group is its own root. -/
theorem componentRoot_of_singleton (h : mergeGroupAt keys i = none) : componentRoot keys i = i := by
  have hroot : componentRoot keys (componentRoot keys i) = componentRoot keys i :=
    rootOf_rootOf (componentRoot_spec keys).1 i
  rcases componentRoot_eq_iff.mp hroot with h' | ⟨bytes, -, hi⟩
  · exact h'
  · rw [h] at hi
    cases hi

end Cove
