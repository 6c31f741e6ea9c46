import Mathlib.Data.List.Basic
import Mathlib.Order.Basic

/-!
# Binary search over a sorted list

The branch-light binary search of a standard library: the window is halved until one
candidate remains, and only that candidate is compared for equality.

- `binarySearchBy cmp xs`: the index of an element that `cmp` maps to `eq`.
- `Ascending cmp xs`: `cmp` maps `xs` to a run of `lt`, then `eq`, then `gt`.
- `binarySearchBy_isSome_iff`: on an ascending list the search finds an element exactly
  when there is one.
-/

namespace BinarySearch

variable {α : Type u} {cmp : α → Ordering} {xs : List α}

/-- How position `i` compares; past the end everything is greater. -/
def probe (cmp : α → Ordering) (xs : List α) (i : Nat) : Ordering :=
  match xs[i]? with
  | some x => cmp x
  | none => .gt

/-- Halve the window `[base, base + size)` until at most one position remains. -/
def searchLoop (cmp : α → Ordering) (xs : List α) : Nat → Nat → Nat → Nat
  | 0, _, base => base
  | fuel + 1, size, base =>
    if size ≤ 1 then base
    else
      let half := size / 2
      let mid := base + half
      searchLoop cmp xs fuel (size - half) (if probe cmp xs mid = .gt then base else mid)

/-- The index of an element that compares equal, if the search meets one. -/
def binarySearchBy (cmp : α → Ordering) (xs : List α) : Option Nat :=
  let base := searchLoop cmp xs xs.length xs.length 0
  if probe cmp xs base = .eq then some base else none

/-- `cmp` never goes down along the list. -/
def Ascending (cmp : α → Ordering) (xs : List α) : Prop :=
  ∀ i j, i < j → (probe cmp xs i = .gt → probe cmp xs j = .gt) ∧
    (probe cmp xs j = .lt → probe cmp xs i = .lt)

/-- The loop keeps the last position that is not greater: everything past it is, and
it is not unless it is the first. -/
theorem searchLoop_spec (hasc : Ascending cmp xs) {fuel size base : Nat}
    (hfuel : size ≤ fuel) (hsize : 0 < size)
    (habove : ∀ i, base + size ≤ i → probe cmp xs i = .gt)
    (hbase : base = 0 ∨ probe cmp xs base ≠ .gt) :
    (∀ i, searchLoop cmp xs fuel size base < i → probe cmp xs i = .gt) ∧
      (searchLoop cmp xs fuel size base = 0 ∨
        probe cmp xs (searchLoop cmp xs fuel size base) ≠ .gt) := by
  induction fuel generalizing size base with
  | zero => omega
  | succ fuel ih =>
    unfold searchLoop
    by_cases h1 : size ≤ 1
    · rw [if_pos h1]
      exact ⟨fun i hi => habove i (by omega), hbase⟩
    · rw [if_neg h1]
      by_cases hgt : probe cmp xs (base + size / 2) = .gt
      · simp only [hgt, if_true]
        refine ih (by omega) (by omega) (fun i hi => ?_) hbase
        rcases Nat.lt_or_ge (base + size / 2) i with hlt | hle
        · exact (hasc _ _ hlt).1 hgt
        · have : i = base + size / 2 := by omega
          rwa [this]
      · simp only [hgt, if_false]
        exact ih (by omega) (by omega) (fun i hi => habove i (by omega)) (Or.inr hgt)

variable {i : Nat} {x : α}

theorem probe_eq_some {o : Ordering} (ho : o ≠ .gt) (h : probe cmp xs i = o) :
    ∃ x, xs[i]? = some x ∧ cmp x = o := by
  unfold probe at h
  cases hx : xs[i]? with
  | some x => exact ⟨x, rfl, by rw [hx] at h; exact h⟩
  | none => rw [hx] at h; exact absurd h.symm ho

/-- A found index holds an element that compares equal. -/
theorem binarySearchBy_eq_some (h : binarySearchBy cmp xs = some i) :
    ∃ x, xs[i]? = some x ∧ cmp x = .eq := by
  unfold binarySearchBy at h
  simp only at h
  split at h
  · next heq =>
    obtain rfl := Option.some.inj h
    exact probe_eq_some (by decide) heq
  · cases h

/-- **Completeness**: on an ascending list nothing that compares equal is missed. -/
theorem binarySearchBy_isSome (hasc : Ascending cmp xs) (hx : x ∈ xs)
    (heq : cmp x = .eq) : (binarySearchBy cmp xs).isSome := by
  obtain ⟨j, hj⟩ := List.mem_iff_getElem?.mp hx
  have hpj : probe cmp xs j = .eq := by simp [probe, hj, heq]
  have hne : 0 < xs.length := List.length_pos_of_mem hx
  obtain ⟨habove, hbase⟩ := searchLoop_spec hasc (Nat.le_refl _) hne
    (fun i hi => by simp [probe, List.getElem?_eq_none (by omega : xs.length ≤ i)])
    (Or.inl rfl)
  unfold binarySearchBy
  generalize searchLoop cmp xs xs.length xs.length 0 = b at habove hbase
  have hjb : j ≤ b := by
    by_contra hlt
    have := habove j (by omega)
    rw [hpj] at this
    cases this
  rcases Nat.eq_or_lt_of_le hjb with rfl | hlt
  · simp [hpj]
  · -- `b` is past an equal element, so it is neither below it nor, by the loop, above
    have hb : probe cmp xs b = .eq := by
      cases h : probe cmp xs b with
      | lt => rw [(hasc _ _ hlt).2 h] at hpj; cases hpj
      | eq => rfl
      | gt => exact absurd h (hbase.resolve_left (by omega))
    simp [hb]

theorem binarySearchBy_isSome_iff (hasc : Ascending cmp xs) :
    (binarySearchBy cmp xs).isSome ↔ ∃ x ∈ xs, cmp x = .eq := by
  constructor
  · intro h
    obtain ⟨i, hi⟩ := Option.isSome_iff_exists.mp h
    obtain ⟨x, hx, heq⟩ := binarySearchBy_eq_some hi
    exact ⟨x, List.mem_of_getElem? hx, heq⟩
  · rintro ⟨x, hx, heq⟩
    exact binarySearchBy_isSome hasc hx heq

/-! ## Searching by a natural-number key -/

variable {key : α → Nat} {k : Nat}

/-- `binary_search_by_key`. -/
def binarySearchByKey (k : Nat) (key : α → Nat) (xs : List α) : Option Nat :=
  binarySearchBy (fun x => compare (key x) k) xs

theorem ascending_of_sorted (h : xs.Pairwise (fun x y => key x < key y)) :
    Ascending (fun x => compare (key x) k) xs := by
  intro i j hij
  rw [List.pairwise_iff_getElem] at h
  unfold probe
  rcases Nat.lt_or_ge j xs.length with hj | hj
  · have hi : i < xs.length := by omega
    have hlt := h i j hi hj hij
    simp only [List.getElem?_eq_getElem hi, List.getElem?_eq_getElem hj, Nat.compare_eq_gt,
      Nat.compare_eq_lt]
    omega
  · simp [List.getElem?_eq_none hj]

/-- On a list sorted by its keys, the search finds `k` exactly when it is a key. -/
theorem binarySearchByKey_isSome_iff (h : xs.Pairwise (fun x y => key x < key y)) :
    (binarySearchByKey k key xs).isSome ↔ k ∈ xs.map key := by
  unfold binarySearchByKey
  rw [binarySearchBy_isSome_iff (ascending_of_sorted h)]
  simp

theorem binarySearchByKey_eq_some (h : binarySearchByKey k key xs = some i) :
    ∃ x, xs[i]? = some x ∧ key x = k := by
  obtain ⟨x, hx, heq⟩ := binarySearchBy_eq_some h
  exact ⟨x, hx, Nat.compare_eq_eq.mp heq⟩

/-- Elements of a sorted list with one key are one element. -/
theorem eq_of_key (h : xs.Pairwise (fun x y => key x < key y)) {y : α} (hx : x ∈ xs)
    (hy : y ∈ xs) (hk : key x = key y) : x = y := by
  obtain ⟨i, hi, rfl⟩ := List.mem_iff_getElem.mp hx
  obtain ⟨j, hj, rfl⟩ := List.mem_iff_getElem.mp hy
  have hsorted := List.pairwise_iff_getElem.mp h
  rcases Nat.lt_trichotomy i j with hlt | rfl | hlt
  · have := hsorted i j hi hj hlt
    omega
  · rfl
  · have := hsorted j i hj hi hlt
    omega

/-- **Every element of a sorted list is found** under its key. -/
theorem binarySearchByKey_of_mem (h : xs.Pairwise (fun x y => key x < key y))
    (hx : x ∈ xs) : ∃ i, binarySearchByKey (key x) key xs = some i ∧ xs[i]? = some x := by
  have hsome := (@binarySearchByKey_isSome_iff _ xs key (key x) h).mpr (List.mem_map_of_mem hx)
  obtain ⟨i, hi⟩ := Option.isSome_iff_exists.mp hsome
  obtain ⟨y, hy, hkey⟩ := binarySearchByKey_eq_some hi
  exact ⟨i, hi, hy.trans (congrArg some (eq_of_key h (List.mem_of_getElem? hy) hx hkey))⟩

end BinarySearch
