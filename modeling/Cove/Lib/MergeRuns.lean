import Mathlib.Data.List.Basic

/-!
# Merging runs of a list

One pass over a list keeps an open element and offers it every next one: `join` absorbs
the next element into the open one, or closes it and opens the next.

- `mergeRuns join last xs`: the pass, with `last` open.
- `mergeRuns_append`: the pass over a concatenation, cut where the first part ends.
- `mergeRuns_checked`: what `join` checks of the elements.
- `mergeRuns_sub`: what the output covers was covered, when `join` adds nothing.
- `mergeRuns_last`: what the open element covers stays covered.
- `mergeRuns_sup`: what the elements of a sorted list cover stays covered.
- `mergeRuns_forall`, `mergeRuns_flatMap`: what holds of the output.
- `mergeRuns_isOk`: the pass succeeds when `join` does.
- `mergeRuns_chain`, `mergeRuns_self`: neighbours of the output do not join, and a list
  none of whose neighbours join is its own result.
-/

namespace MergeRuns

variable {ε : Type u} {α : Type v} {β : Type w} {γ : Type w}
variable {join : α → α → Except ε (Option α)}

/-- Merge the runs of `last :: xs`. -/
def mergeRuns (join : α → α → Except ε (Option α)) (last : α) :
    List α → Except ε (List α)
  | [] => .ok [last]
  | x :: xs =>
    match join last x with
    | .error e => .error e
    | .ok (some m) => mergeRuns join m xs
    | .ok none => (mergeRuns join x xs).map (last :: ·)

/-- What one element does to a successful pass: it was absorbed, or opened. -/
theorem mergeRuns_cons {last x : α} {xs out : List α}
    (h : mergeRuns join last (x :: xs) = .ok out) :
    (∃ m, join last x = .ok (some m) ∧ mergeRuns join m xs = .ok out) ∨
      (join last x = .ok none ∧ ∃ tl, mergeRuns join x xs = .ok tl ∧ out = last :: tl) := by
  unfold mergeRuns at h
  split at h
  · cases h
  · next m hm => exact .inl ⟨m, hm, h⟩
  · next hn =>
    cases htl : mergeRuns join x xs with
    | error e => rw [htl] at h; cases h
    | ok tl =>
      rw [htl] at h
      exact .inr ⟨hn, tl, rfl, (Except.ok.inj h).symm⟩

/-- The pass over `xs ++ ys`: some elements are closed by the end of `xs`, one is open,
and the rest is the pass over `ys`. -/
theorem mergeRuns_append {last : α} {xs ys out : List α}
    (h : mergeRuns join last (xs ++ ys) = .ok out) :
    ∃ closed last' out', mergeRuns join last xs = .ok (closed ++ [last']) ∧
      mergeRuns join last' ys = .ok out' ∧ out = closed ++ out' := by
  induction xs generalizing last out with
  | nil => exact ⟨[], last, out, rfl, h, rfl⟩
  | cons x xs ih =>
    rcases mergeRuns_cons h with ⟨m, hm, hrest⟩ | ⟨hn, tl, htl, rfl⟩
    · obtain ⟨closed, last', out', h1, h2, rfl⟩ := ih hrest
      exact ⟨closed, last', out', by simp [mergeRuns, hm, h1], h2, rfl⟩
    · obtain ⟨closed, last', out', h1, h2, rfl⟩ := ih htl
      exact ⟨last :: closed, last', out', by simp [mergeRuns, hn, h1, Except.map], h2, rfl⟩

/-- What `join` checks of the elements offered to it holds of each. -/
theorem mergeRuns_checked {P : α → Prop} (hj : ∀ a x o, join a x = .ok o → P x) {last : α}
    {xs out : List α} (h : mergeRuns join last xs = .ok out) : ∀ x ∈ xs, P x := by
  induction xs generalizing last out with
  | nil =>
    intro x hx
    cases hx
  | cons x xs ih =>
    rcases mergeRuns_cons h with ⟨m, hm, hrest⟩ | ⟨hn, tl, htl, -⟩
    · exact List.forall_mem_cons.mpr ⟨hj _ _ _ hm, ih hrest⟩
    · exact List.forall_mem_cons.mpr ⟨hj _ _ _ hn, ih htl⟩

/-- What `join` never changes of the open element comes from some element of the list. -/
theorem mergeRuns_anchor {anchor : α → γ}
    (hj : ∀ a b m, join a b = .ok (some m) → anchor m = anchor a) {last : α}
    {xs out : List α} (h : mergeRuns join last xs = .ok out) {o : α} (ho : o ∈ out) :
    ∃ x ∈ last :: xs, anchor x = anchor o := by
  induction xs generalizing last out with
  | nil =>
    obtain rfl := Except.ok.inj h
    obtain rfl := List.mem_singleton.mp ho
    exact ⟨o, List.mem_singleton_self o, rfl⟩
  | cons x xs ih =>
    rcases mergeRuns_cons h with ⟨m, hm, hrest⟩ | ⟨_, tl, htl, rfl⟩
    · obtain ⟨y, hy, hanch⟩ := ih hrest ho
      rcases List.mem_cons.mp hy with rfl | hy
      · exact ⟨last, List.mem_cons_self, (hj _ _ _ hm).symm.trans hanch⟩
      · exact ⟨y, by simp [hy], hanch⟩
    · rcases List.mem_cons.mp ho with rfl | ho
      · exact ⟨o, List.mem_cons_self, rfl⟩
      · obtain ⟨y, hy, hanch⟩ := ih htl ho
        exact ⟨y, List.mem_cons_of_mem _ hy, hanch⟩

/-- The first output element is the open one with what it absorbed. -/
theorem mergeRuns_head {R : α → α → Prop} (hrefl : ∀ a, R a a)
    (htrans : ∀ a b c, R a b → R b c → R a c)
    (hj : ∀ a b m, join a b = .ok (some m) → R a m) {last : α} {xs out : List α}
    (h : mergeRuns join last xs = .ok out) : ∃ o tl, out = o :: tl ∧ R last o := by
  induction xs generalizing last out with
  | nil => exact ⟨last, [], (Except.ok.inj h).symm, hrefl last⟩
  | cons x xs ih =>
    rcases mergeRuns_cons h with ⟨m, hm, hrest⟩ | ⟨_, tl, _, rfl⟩
    · obtain ⟨o, tl, rfl, hR⟩ := ih hrest
      exact ⟨o, tl, rfl, htrans _ _ _ (hj _ _ _ hm) hR⟩
    · exact ⟨last, tl, rfl, hrefl last⟩

variable {r : α → α → Prop} {p : α → Prop}

section Covers

variable {C : α → β → Prop} {last : α} {xs out : List α} {b : β}

/-- **Nothing is gained**: when a join covers no more than its operands, the output
covers no more than the list. -/
theorem mergeRuns_sub
    (hj : ∀ a c m, join a c = .ok (some m) → ∀ b, C m b → C a b ∨ C c b)
    (h : mergeRuns join last xs = .ok out) (hb : ∃ o ∈ out, C o b) :
    ∃ x ∈ last :: xs, C x b := by
  induction xs generalizing last out with
  | nil =>
    obtain rfl := Except.ok.inj h
    exact hb
  | cons x xs ih =>
    rcases mergeRuns_cons h with ⟨m, hm, hrest⟩ | ⟨_, tl, htl, rfl⟩
    · obtain ⟨y, hy, hcov⟩ := ih hrest hb
      rcases List.mem_cons.mp hy with rfl | hy
      · rcases hj _ _ _ hm b hcov with hc | hc
        · exact ⟨last, List.mem_cons_self, hc⟩
        · exact ⟨x, by simp, hc⟩
      · exact ⟨y, by simp [hy], hcov⟩
    · obtain ⟨o, ho, hcov⟩ := hb
      rcases List.mem_cons.mp ho with rfl | ho
      · exact ⟨o, List.mem_cons_self, hcov⟩
      · obtain ⟨y, hy, hcov⟩ := ih htl ⟨o, ho, hcov⟩
        exact ⟨y, List.mem_cons_of_mem _ hy, hcov⟩

/-- Nothing is lost of the open element, when a join keeps what it absorbs into. -/
theorem mergeRuns_last (hj : ∀ a c m, join a c = .ok (some m) → ∀ b, C a b → C m b)
    (h : mergeRuns join last xs = .ok out) (hb : C last b) : ∃ o ∈ out, C o b := by
  obtain ⟨o, tl, rfl, hR⟩ := mergeRuns_head (R := fun x y => ∀ b, C x b → C y b)
    (fun _ _ h => h) (fun _ _ _ h h' b hb => h' b (h b hb)) hj h
  exact ⟨o, List.mem_cons_self, hR b hb⟩

/-- **Nothing is lost** of a list in order, when a join keeps what it absorbs and stays
below what comes after. -/
theorem mergeRuns_sup (hle : ∀ a c m, join a c = .ok (some m) → ∀ d, r a d → r m d)
    (hl : ∀ a c m, join a c = .ok (some m) → ∀ b, C a b → C m b)
    (hr : ∀ a c m, r a c → join a c = .ok (some m) → ∀ b, C c b → C m b)
    (hsorted : (last :: xs).Pairwise r) (h : mergeRuns join last xs = .ok out) {x : α}
    (hx : x ∈ last :: xs) (hb : C x b) : ∃ o ∈ out, C o b := by
  induction xs generalizing last out with
  | nil =>
    obtain rfl := List.mem_singleton.mp hx
    exact mergeRuns_last hl h hb
  | cons y ys ih =>
    obtain ⟨hlast, hrest⟩ := List.pairwise_cons.mp hsorted
    obtain ⟨-, hys⟩ := List.pairwise_cons.mp hrest
    rcases List.mem_cons.mp hx with rfl | hx
    · exact mergeRuns_last hl h hb
    rcases mergeRuns_cons h with ⟨m, hm, hout⟩ | ⟨_, tl, htl, rfl⟩
    · have hpairs : (m :: ys).Pairwise r := by
        refine List.pairwise_cons.mpr ⟨fun d hd => ?_, hys⟩
        exact hle _ _ m hm d (hlast d (List.mem_cons_of_mem _ hd))
      rcases List.mem_cons.mp hx with rfl | hx
      · have hcov : C m b := hr _ _ m (hlast x List.mem_cons_self) hm b hb
        exact mergeRuns_last hl hout hcov
      · exact ih hpairs hout (List.mem_cons_of_mem _ hx)
    · obtain ⟨o, ho, hcov⟩ := ih hrest htl hx
      exact ⟨o, List.mem_cons_of_mem _ ho, hcov⟩

end Covers

/-- What holds of the elements of a list in order, and is kept by a join that stays below
what comes after, holds of the output. -/
theorem mergeRuns_forall (hle : ∀ a c m, join a c = .ok (some m) → ∀ d, r a d → r m d)
    (hj : ∀ a c m, r a c → p a → p c → join a c = .ok (some m) → p m) {last : α}
    {xs out : List α} (hsorted : (last :: xs).Pairwise r)
    (h : mergeRuns join last xs = .ok out) (hp : ∀ x ∈ last :: xs, p x) : ∀ o ∈ out, p o := by
  induction xs generalizing last out with
  | nil =>
    obtain rfl := Except.ok.inj h
    exact hp
  | cons x xs ih =>
    obtain ⟨hlast, hxs⟩ := List.forall_mem_cons.mp hp
    obtain ⟨hx, hrest⟩ := List.forall_mem_cons.mp hxs
    obtain ⟨hbelow, hpairs⟩ := List.pairwise_cons.mp hsorted
    rcases mergeRuns_cons h with ⟨m, hm, hout⟩ | ⟨_, tl, htl, rfl⟩
    · have hpm : p m := hj _ _ m (hbelow x List.mem_cons_self) hlast hx hm
      refine ih (List.pairwise_cons.mpr ⟨fun d hd => ?_, (List.pairwise_cons.mp hpairs).2⟩) hout
        (List.forall_mem_cons.mpr ⟨hpm, hrest⟩)
      exact hle _ _ m hm d (hbelow d (List.mem_cons_of_mem _ hd))
    · exact List.forall_mem_cons.mpr ⟨hlast, ih hpairs htl hxs⟩

/-- What a join puts together is put together in order. -/
theorem mergeRuns_flatMap {f : α → List γ}
    (hj : ∀ a c m, join a c = .ok (some m) → f m = f a ++ f c) {last : α} {xs out : List α}
    (h : mergeRuns join last xs = .ok out) : out.flatMap f = (last :: xs).flatMap f := by
  induction xs generalizing last out with
  | nil =>
    obtain rfl := Except.ok.inj h
    rfl
  | cons x xs ih =>
    rcases mergeRuns_cons h with ⟨m, hm, hout⟩ | ⟨_, tl, htl, rfl⟩
    · rw [ih hout, List.flatMap_cons, hj _ _ m hm, List.flatMap_cons, List.flatMap_cons,
        List.append_assoc]
    · rw [List.flatMap_cons, ih htl]
      rfl

/-- The pass succeeds on elements that `join` accepts. -/
theorem mergeRuns_isOk
    (hj : ∀ a c, p a → p c → join a c = .ok none ∨ ∃ m, join a c = .ok (some m) ∧ p m)
    {last : α} {xs : List α} (h : ∀ x ∈ last :: xs, p x) :
    ∃ out, mergeRuns join last xs = .ok out := by
  induction xs generalizing last with
  | nil => exact ⟨[last], rfl⟩
  | cons x xs ih =>
    obtain ⟨hlast, hxs⟩ := List.forall_mem_cons.mp h
    obtain ⟨hx, hrest⟩ := List.forall_mem_cons.mp hxs
    rcases hj last x hlast hx with hn | ⟨m, hm, hp⟩
    · obtain ⟨out, hout⟩ := ih hxs
      exact ⟨last :: out, by simp [mergeRuns, hn, hout, Except.map]⟩
    · obtain ⟨out, hout⟩ := ih (List.forall_mem_cons.mpr ⟨hp, hrest⟩)
      exact ⟨out, by simp [mergeRuns, hm, hout]⟩

/-! ## Running the pass again -/

/-- Neighbours of the output do not join. -/
theorem mergeRuns_chain
    (hstable : ∀ a b c m, join a b = .ok none → join b c = .ok (some m) →
      join a m = .ok none) {last : α} {xs out : List α}
    (h : mergeRuns join last xs = .ok out) : out.IsChain fun a b => join a b = .ok none := by
  induction xs generalizing last out with
  | nil =>
    obtain rfl := Except.ok.inj h
    exact .singleton _
  | cons x xs ih =>
    rcases mergeRuns_cons h with ⟨m, _, hrest⟩ | ⟨hn, tl, htl, rfl⟩
    · exact ih hrest
    · obtain ⟨o, tl', rfl, hR⟩ := mergeRuns_head
        (R := fun x y => ∀ a, join a x = .ok none → join a y = .ok none)
        (fun _ _ h => h) (fun _ _ _ h h' a ha => h' a (h a ha))
        (fun b c m hm a ha => hstable a b c m ha hm) htl
      exact .cons_cons (hR last hn) (ih htl)

/-- **A list none of whose neighbours join is its own result.** -/
theorem mergeRuns_self {last : α} {xs : List α}
    (h : (last :: xs).IsChain fun a b => join a b = .ok none) :
    mergeRuns join last xs = .ok (last :: xs) := by
  induction xs generalizing last with
  | nil => rfl
  | cons x xs ih =>
    obtain ⟨hn, hrest⟩ := List.isChain_cons_cons.mp h
    simp [mergeRuns, hn, ih hrest, Except.map]

end MergeRuns
