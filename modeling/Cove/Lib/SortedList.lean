import Mathlib.Data.List.Sort

/-!
# Sorting and removing repeats

- `dedup`: drop every element equal to the one before it.
- `pairwise_lt_dedup`, `mem_dedup`: after sorting, what remains is strictly ascending
  and has the same elements.
- `strictWindows`, `hasRepeat`: the checks of every two neighbours, and what they tell.
- `mem_before_of_lt`: a member of a strictly ascending list below another one comes before it.
- `filter_insertionSort`, `insertionSort_eq_of_perm`: sorting by a key commutes with a
  filter, and forgets the order of elements with distinct keys.
- `sortBy_eq_of_filter_eq`: a sorted list is told by its elements of each key.
- `pairwise_sortBy_iff`: **sorting keeps the order of elements with one key**.
-/

namespace SortedList

variable {α : Type u}

variable {l : List α}

section Windows

variable [LinearOrder α]

/-- Every two neighbours ascend. -/
def strictWindows : List α → Bool
  | a :: b :: l => decide (a < b) && strictWindows (b :: l)
  | _ => true

/-- Ascending neighbours are all it takes to be strictly ascending. -/
theorem strictWindows_iff : strictWindows l = true ↔ l.Pairwise (· < ·) := by
  fun_induction strictWindows l with
  | case1 a b l ih =>
    rw [Bool.and_eq_true, decide_eq_true_eq, ih, List.pairwise_cons (a := a)]
    refine and_congr_left fun htail => ⟨fun hab x hx => ?_, fun hall => hall b List.mem_cons_self⟩
    rcases List.mem_cons.mp hx with rfl | hx
    · exact hab
    · exact hab.trans ((List.pairwise_cons.mp htail).1 x hx)
  | case2 l hl =>
    refine iff_of_true rfl ?_
    match l, hl with
    | [], _ => exact .nil
    | [a], _ => exact List.pairwise_singleton _ _
    | a :: b :: l, hl => exact absurd rfl (hl a b l)

/-- Some two neighbours are equal. -/
def hasRepeat : List α → Bool
  | a :: b :: l => decide (a = b) || hasRepeat (b :: l)
  | _ => false

/-- A sorted list without equal neighbours is strictly ascending. -/
theorem hasRepeat_eq_false_iff (h : l.Pairwise (· ≤ ·)) :
    hasRepeat l = false ↔ l.Pairwise (· < ·) := by
  rw [← strictWindows_iff]
  fun_induction strictWindows l with
  | case1 a b l ih =>
    obtain ⟨ha, htail⟩ := List.pairwise_cons.mp h
    have hab := ha b List.mem_cons_self
    rw [hasRepeat, Bool.or_eq_false_iff, Bool.and_eq_true, ih htail, decide_eq_false_iff_not,
      decide_eq_true_eq]
    exact and_congr_left fun _ => ⟨hab.lt_of_ne, ne_of_lt⟩
  | case2 l hl =>
    refine iff_of_true ?_ rfl
    match l, hl with
    | [], _ => rfl
    | [a], _ => rfl
    | a :: b :: l, hl => exact absurd rfl (hl a b l)

end Windows

variable {x : α}

section Dedup

variable [DecidableEq α]

/-- Drop every element equal to the one before it. -/
def dedup : List α → List α
  | [] => []
  | [a] => [a]
  | a :: b :: l => if a = b then dedup (b :: l) else a :: dedup (b :: l)

@[simp] theorem mem_dedup : x ∈ dedup l ↔ x ∈ l := by
  fun_induction dedup l with
  | case1 => rfl
  | case2 a => rfl
  | case3 a l ih =>
    rw [ih]
    simp
  | case4 a b l _ ih => simp [ih]

end Dedup

variable {post pre : List α}

section Order

variable [LinearOrder α]

/-- A weakly ascending list is strictly ascending once its repeats are gone. -/
theorem pairwise_lt_dedup [DecidableEq α] (h : l.Pairwise (· ≤ ·)) :
    (dedup l).Pairwise (· < ·) := by
  fun_induction dedup l with
  | case1 => exact .nil
  | case2 a => exact .cons nofun .nil
  | case3 a l ih => exact ih (List.pairwise_cons.mp h).2
  | case4 a b l hne ih =>
    obtain ⟨ha, hl⟩ := List.pairwise_cons.mp h
    refine .cons (fun x hx => ?_) (ih hl)
    have hab : a < b := lt_of_le_of_ne (ha b List.mem_cons_self) hne
    rcases List.mem_cons.mp (mem_dedup.mp hx) with rfl | hx
    · exact hab
    · exact hab.trans_le ((List.pairwise_cons.mp hl).1 x hx)

/-- Sorting a strictly ascending list changes nothing. -/
theorem insertionSort_of_lt (h : l.Pairwise (· < ·)) :
    l.insertionSort (· ≤ ·) = l :=
  (h.imp le_of_lt).insertionSort_eq

/-- In a strictly ascending list, what is below an element stands before it. -/
theorem mem_before_of_lt {g : α}
    (h : (pre ++ g :: post).Pairwise (· < ·)) (hx : x ∈ pre ++ g :: post) (hlt : x < g) :
    x ∈ pre := by
  obtain ⟨_, hpost, _⟩ := List.pairwise_append.mp h
  rcases List.mem_append.mp hx with hx | hx
  · exact hx
  · rcases List.mem_cons.mp hx with rfl | hx
    · exact absurd hlt (lt_irrefl _)
    · exact absurd (hlt.trans ((List.pairwise_cons.mp hpost).1 x hx)) (lt_irrefl _)

theorem lt_of_mem_before {g : α} (h : (pre ++ g :: post).Pairwise (· < ·)) (hx : x ∈ pre) : x < g :=
  (List.pairwise_append.mp h).2.2 x hx g List.mem_cons_self

end Order

/-! ## Sorting by a key -/

variable {l' : List α}

section Key

variable {κ : Type v} [LinearOrder κ] (key : α → κ)

/-- Sort by a key, keeping the order of elements with the same key. -/
abbrev sortBy (l : List α) : List α := l.insertionSort fun a b => key a ≤ key b

/-- Inserting into a sorted list, seen through a filter. -/
theorem filter_orderedInsert (p : α → Bool) (a : α) (h : l.Pairwise fun a b => key a ≤ key b) :
    (l.orderedInsert (fun a b => key a ≤ key b) a).filter p =
      if p a then (l.filter p).orderedInsert (fun a b => key a ≤ key b) a else l.filter p := by
  induction l with
  | nil => by_cases hp : p a <;> simp [hp]
  | cons b l ih =>
    obtain ⟨hb, hl⟩ := List.pairwise_cons.mp h
    rw [List.orderedInsert_cons]
    by_cases hab : key a ≤ key b
    · rw [if_pos hab]
      by_cases hp : p a
      · -- every later element is above `a` as well
        have hhead : ∀ x ∈ (b :: l).filter p, key a ≤ key x := by
          intro x hx
          rcases List.mem_cons.mp (List.mem_filter.mp hx).1 with rfl | hx
          · exact hab
          · exact hab.trans (hb x hx)
        rw [List.filter_cons_of_pos hp, if_pos hp]
        cases hf : (b :: l).filter p with
        | nil => rfl
        | cons x xs => rw [List.orderedInsert_cons, if_pos (hhead x (by simp [hf]))]
      · rw [List.filter_cons_of_neg hp, if_neg hp]
    · rw [if_neg hab, List.filter_cons, ih hl]
      by_cases hp : p a
      · by_cases hpb : p b
        · simp [hp, hpb, hab]
        · simp [hp, hpb]
      · simp [hp, List.filter_cons]

/-- Sorting commutes with a filter. -/
theorem filter_insertionSort (p : α → Bool) (l : List α) :
    (sortBy key l).filter p = sortBy key (l.filter p) := by
  induction l with
  | nil => rfl
  | cons a l ih =>
    show ((sortBy key l).orderedInsert _ a).filter p = _
    rw [filter_orderedInsert key p a (List.pairwise_insertionSort _ _), ih, List.filter_cons]
    by_cases hp : p a <;> simp [hp]

/-- Sorting forgets the order of elements with distinct keys. -/
theorem insertionSort_eq_of_perm (h : l.Perm l')
    (hkey : ∀ a ∈ l, ∀ b ∈ l, key a = key b → a = b) : sortBy key l = sortBy key l' := by
  refine List.Perm.eq_of_pairwise (fun a b ha hb hab hba => ?_)
    (List.pairwise_insertionSort _ _) (List.pairwise_insertionSort _ _)
    (((List.perm_insertionSort _ _).trans h).trans (List.perm_insertionSort _ _).symm)
  exact hkey a ((List.mem_insertionSort _).mp ha) b
    (h.mem_iff.mpr ((List.mem_insertionSort _).mp hb)) (le_antisymm hab hba)

/-- Lists sorted by a key are told by their elements of each key. -/
theorem eq_of_filter_eq (hl : l.Pairwise fun a b => key a ≤ key b)
    (hl' : l'.Pairwise fun a b => key a ≤ key b)
    (h : ∀ k, l.filter (fun a => key a = k) = l'.filter fun a => key a = k) : l = l' := by
  have hmem : ∀ {a : α} {m m' : List α},
      (∀ k, m.filter (fun a => key a = k) = m'.filter fun a => key a = k) → a ∈ m → a ∈ m' := by
    intro a m m' hk ha
    have hin : a ∈ m.filter fun b => key b = key a := List.mem_filter.mpr ⟨ha, by simp⟩
    exact (List.mem_filter.mp (hk (key a) ▸ hin)).1
  induction l generalizing l' with
  | nil =>
    cases l' with
    | nil => rfl
    | cons b l' => cases hmem (fun k => (h k).symm) (List.mem_cons_self (a := b))
  | cons a l ih =>
    cases l' with
    | nil => cases hmem h (List.mem_cons_self (a := a))
    | cons b l' =>
      obtain ⟨ha, htail⟩ := List.pairwise_cons.mp hl
      obtain ⟨hb, htail'⟩ := List.pairwise_cons.mp hl'
      -- either head is below every element of the other list
      have hba : key b ≤ key a := by
        rcases List.mem_cons.mp (hmem h (List.mem_cons_self (a := a))) with rfl | hin
        · exact le_rfl
        · exact hb a hin
      have hab : key a ≤ key b := by
        rcases List.mem_cons.mp (hmem (fun k => (h k).symm) (List.mem_cons_self (a := b)))
          with rfl | hin
        · exact le_rfl
        · exact ha b hin
      have hkey := le_antisymm hab hba
      have hheads := h (key a)
      rw [List.filter_cons_of_pos (by simp), List.filter_cons_of_pos (by simp [hkey])] at hheads
      obtain ⟨rfl, -⟩ := List.cons.inj hheads
      refine congrArg (a :: ·) (ih htail htail' fun k => ?_)
      have htails := h k
      rw [List.filter_cons, List.filter_cons] at htails
      split at htails
      · exact (List.cons.inj htails).2
      · exact htails

/-- **Sorting keeps what there is of each key, in its order**, and depends on nothing else. -/
theorem sortBy_eq_of_filter_eq
    (h : ∀ k, l.filter (fun a => key a = k) = l'.filter fun a => key a = k) :
    sortBy key l = sortBy key l' := by
  have hsame : ∀ (m : List α) (k : κ),
      (sortBy key m).filter (fun a => key a = k) = m.filter fun a => key a = k := by
    intro m k
    rw [filter_insertionSort]
    refine List.Pairwise.insertionSort_eq ?_
    refine List.Pairwise.imp_of_mem ?_ (List.pairwise_of_forall (R := fun _ _ => True)
      fun _ _ => trivial)
    intro a b ha hb _
    have hka : key a = k := of_decide_eq_true (List.mem_filter.mp ha).2
    have hkb : key b = k := of_decide_eq_true (List.mem_filter.mp hb).2
    exact (hka.trans hkb.symm).le
  refine eq_of_filter_eq key (List.pairwise_insertionSort _ _) (List.pairwise_insertionSort _ _)
    fun k => ?_
  rw [hsame, hsame, h]

section Ties

variable {key} {R : α → α → Prop}

theorem pairwise_orderedInsert_iff {a : α} (hl : l.Pairwise fun a b => key a ≤ key b) :
    (l.orderedInsert (fun a b => key a ≤ key b) a).Pairwise (fun a b => key a = key b → R a b) ↔
      (a :: l).Pairwise fun a b => key a = key b → R a b := by
  induction l with
  | nil => rfl
  | cons b l ih =>
    obtain ⟨hb, hl⟩ := List.pairwise_cons.mp hl
    rw [List.orderedInsert_cons]
    by_cases hab : key a ≤ key b
    · rw [if_pos hab]
    · -- `b` stays in front and has another key than `a`
      have hne : key b ≠ key a := fun h => hab h.ge
      have hperm := List.perm_orderedInsert (fun a b => key a ≤ key b) a l
      have hall : (∀ x ∈ l.orderedInsert (fun a b => key a ≤ key b) a, key b = key x → R b x) ↔
          ∀ x ∈ l, key b = key x → R b x := by
        simp only [hperm.mem_iff, List.forall_mem_cons]
        exact and_iff_right fun h => absurd h hne
      rw [if_neg hab, List.pairwise_cons, hall, ih hl]
      simp only [List.pairwise_cons, List.forall_mem_cons]
      have hskip : key a = key b → R a b := fun h => absurd h.symm hne
      tauto

/-- **Sorting keeps the order of elements with one key.** -/
theorem pairwise_sortBy_iff :
    (sortBy key l).Pairwise (fun a b => key a = key b → R a b) ↔
      l.Pairwise fun a b => key a = key b → R a b := by
  induction l with
  | nil => rfl
  | cons a l ih =>
    show ((sortBy key l).orderedInsert _ a).Pairwise _ ↔ _
    rw [pairwise_orderedInsert_iff (List.pairwise_insertionSort _ _), List.pairwise_cons, ih,
      List.pairwise_cons]
    simp only [List.mem_insertionSort]

end Ties

end Key

/-! ## Pairs sorted by their first components -/

/-- What ascends strictly is what any reordering of it is sorted to. -/
theorem sortBy_eq_of_ascending {κ β : Type} [LinearOrder κ] {items sorted : List (κ × β)}
    (hperm : sorted.Perm items) (hkeys : (sorted.map Prod.fst).Pairwise (· < ·)) :
    sortBy Prod.fst items = sorted := by
  have hnodup : (sorted.map Prod.fst).Nodup := hkeys.imp ne_of_lt
  have hsorted : sortBy Prod.fst sorted = sorted :=
    (List.pairwise_map.mp (hkeys.imp le_of_lt)).insertionSort_eq
  rw [← hsorted]
  refine (SortedList.insertionSort_eq_of_perm Prod.fst hperm ?_).symm
  intro a ha b hb hab
  exact List.inj_on_of_nodup_map hnodup ha hb hab

/-- The fields or entries of an encoded value have distinct keys, so their order is forgotten. -/
theorem sortBy_eq_of_perm {κ β : Type} [LinearOrder κ] {items items' : List (κ × β)}
    (hperm : items.Perm items')
    (hkeys : ((sortBy Prod.fst items).map Prod.fst).Pairwise (· < ·)) :
    sortBy Prod.fst items = sortBy Prod.fst items' :=
  (sortBy_eq_of_ascending ((List.perm_insertionSort _ _).trans hperm) hkeys).symm

/-- Sorted by their first components. -/
theorem pairwise_sortBy_fst {κ β : Type} [LinearOrder κ] (items : List (κ × β)) :
    ((sortBy Prod.fst items).map Prod.fst).Pairwise (· ≤ ·) :=
  List.pairwise_map.mpr (List.pairwise_insertionSort _ _)

end SortedList
