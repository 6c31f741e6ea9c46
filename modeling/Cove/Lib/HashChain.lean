import Mathlib.Data.List.Induction

/-!
# Chains of hashes

Records are linked in turn to the hash before them.

- `heads`, `links`: the hashes a chain runs through, and the pairs of a hash and a record that a chain links.
- `Clash`: two different links of two chains give one hash.
- `Committed`, `committed_of_foldl_eq`: **the last hash commits to the records**, back to where a
  chain starts.
-/

namespace HashChain

variable {H : Type u} {R : Type v} {link : H → R → H}

/-- What is linked, from a first hash on. -/
def links (link : H → R → H) : H → List R → List (H × R)
  | _, [] => []
  | h, r :: rs => (h, r) :: links link (link h r) rs

/-- The hashes that a chain runs through, after the first one. -/
def heads (link : H → R → H) : H → List R → List H
  | _, [] => []
  | h, r :: rs => link h r :: heads link (link h r) rs

theorem getLastD_heads (h : H) (rs : List R) : (heads link h rs).getLastD h = rs.foldl link h := by
  induction rs generalizing h with
  | nil => rfl
  | cons r rs ih => rw [heads, List.getLastD_cons, ih, List.foldl_cons]

theorem links_concat (h : H) (rs : List R) (r : R) :
    links link h (rs ++ [r]) = links link h rs ++ [(rs.foldl link h, r)] := by
  induction rs generalizing h with
  | nil => rfl
  | cons r' rs ih => exact congrArg _ (ih _)

/-- Two different links of the chains give one hash. -/
def Clash (link : H → R → H) (g : H) (xs : List R) (g' : H) (ys : List R) : Prop :=
  ∃ p ∈ links link g xs, ∃ q ∈ links link g' ys, p ≠ q ∧ link p.1 p.2 = link q.1 q.2

/-- Two chains have the same records, back to where one of them starts, unless links clash. -/
def Committed (link : H → R → H) (g : H) (xs : List R) (g' : H) (ys : List R) : Prop :=
  (∃ zs, xs = zs ++ ys ∧ zs.foldl link g = g') ∨ (∃ zs, ys = zs ++ xs ∧ zs.foldl link g' = g) ∨
    Clash link g xs g' ys

/-- **The last hash commits to the records.** -/
theorem committed_of_foldl_eq {g g' : H} {xs ys : List R}
    (h : xs.foldl link g = ys.foldl link g') : Committed link g xs g' ys := by
  induction xs using List.reverseRecOn generalizing ys with
  | nil => exact .inr (.inl ⟨ys, (List.append_nil ys).symm, h.symm⟩)
  | append_singleton xs x ih =>
    rcases List.eq_nil_or_concat ys with rfl | ⟨ys, y, rfl⟩
    · exact .inl ⟨_, (List.append_nil _).symm, h⟩
    rw [List.concat_eq_append] at h ⊢
    have hends : link (xs.foldl link g) x = link (ys.foldl link g') y := by simpa using h
    rw [Committed, Clash, links_concat, links_concat]
    by_cases hlast : (xs.foldl link g, x) = (ys.foldl link g', y)
    · -- the last links are one: go on with the chains before them
      obtain ⟨hbefore, rfl⟩ := Prod.mk.inj hlast
      rcases ih hbefore with ⟨zs, rfl, hz⟩ | ⟨zs, rfl, hz⟩ | ⟨p, hp, q, hq, hclash⟩
      · exact .inl ⟨zs, List.append_assoc .., hz⟩
      · exact .inr (.inl ⟨zs, List.append_assoc .., hz⟩)
      · exact .inr (.inr ⟨p, List.mem_append_left _ hp, q, List.mem_append_left _ hq, hclash⟩)
    · exact .inr (.inr ⟨_, List.mem_append_right _ (List.mem_singleton.mpr rfl), _,
        List.mem_append_right _ (List.mem_singleton.mpr rfl), hlast, hends⟩)

end HashChain
