import Mathlib.Data.List.SplitBy
import Mathlib.Order.Lattice
import Cove.Lib.ByteOrder
import Cove.Lib.Checked
import Cove.Lib.MergeRuns

/-!
# Chains of ranges

Ranges in order of their scope and start. A range continues the one before it when it is in the
same scope and starts no later than that one ends; a chain is a longest run of ranges of which
each continues the one before. A pass that keeps one open range, and gives it the end of the range
that continues it, closes each chain to a range from the start of its first to the end of its
last, however far the others reach.

- `chains`: the chains of a list in order.
- `forall₂_chains`: **the pass closes the chains**.
- `apart_of_closed`: the closed ranges of one scope do not touch.
- `covers_closed_iff`: **they cover what the ranges cover exactly when each chain ends last**.
- `covers_merged_iff`: the same of the pass over a list in order.
- `ordered_of_key_le`: ranges sorted by a key of scope and start are in order.
-/

namespace ChainMerge

open MergeRuns

universe u v w

/-- The parts of a range: its scope, its start, and the first number past it. -/
structure Parts (α : Type u) (σ : Type v) where
  scope : α → σ
  start : α → Nat
  stop : α → Nat

variable {α : Type u} {σ : Type v} {ε : Type w} [LinearOrder σ] (p : Parts α σ)

/-- The second range continues the first. -/
def Parts.continues (a b : α) : Bool := p.scope a == p.scope b && decide (p.start b ≤ p.stop a)

/-- The first range is no later than the second. -/
def Parts.Ordered (a b : α) : Prop :=
  p.scope a < p.scope b ∨ p.scope a = p.scope b ∧ p.start a ≤ p.start b

/-- Some range of a scope holds a number. -/
def Parts.Covers (ranges : List α) (scope : σ) (r : Nat) : Prop :=
  ∃ a ∈ ranges, p.scope a = scope ∧ p.start a ≤ r ∧ r < p.stop a

/-- The chains of a list. -/
def Parts.chains (ranges : List α) : List (List α) := ranges.splitBy p.continues

/-- The last range of a chain ends no earlier than any other. -/
def Parts.EndsLast (chain : List α) : Prop :=
  ∀ last ∈ chain.getLast?, ∀ a ∈ chain, p.stop a ≤ p.stop last

/-- A range from the start of a chain to the end of its last. -/
def Parts.Closes (chain : List α) (closed : α) : Prop :=
  ∃ first ∈ chain.head?, ∃ last ∈ chain.getLast?,
    p.scope closed = p.scope first ∧ p.scope closed = p.scope last ∧
      p.start closed = p.start first ∧ p.stop closed = p.stop last

variable {p}

variable {a b : α}

theorem Parts.continues_iff :
    p.continues a b = true ↔ p.scope a = p.scope b ∧ p.start b ≤ p.stop a := by
  rw [continues, Bool.and_eq_true, beq_iff_eq, decide_eq_true_eq]

theorem Parts.Ordered.scope_le (h : p.Ordered a b) : p.scope a ≤ p.scope b := by
  rcases h with h | ⟨h, -⟩
  · exact h.le
  · exact h.le

theorem Parts.Ordered.start_le (h : p.Ordered a b) (hscope : p.scope a = p.scope b) :
    p.start a ≤ p.start b := by
  rcases h with h | ⟨-, h⟩
  · exact absurd hscope h.ne
  · exact h

/-! ## The pass -/

variable {first : α} {chain : List α}

variable {last : α}

section Pass

variable {join : α → α → Except ε (Option α)}

variable {ranges out : List α}

/-- The open range stands for the chain that is being read. -/
private theorem forall₂_loop (hsome : ∀ a b m, join a b = .ok (some m) → p.continues a b = true ∧
      p.scope m = p.scope a ∧ p.start m = p.start a ∧ p.stop m = p.stop b)
    (hnone : ∀ a b, join a b = .ok none → p.continues a b = false)
    {open' : α} {before : List α} {chains : List (List α)}
    {closed : List α} (hchains : List.Forall₂ p.Closes chains.reverse closed)
    (hopen : p.Closes (before.reverse ++ [last]) open')
    (h : mergeRuns join open' ranges = .ok out) :
    List.Forall₂ p.Closes (List.splitBy.loop p.continues ranges last before chains)
      (closed ++ out) := by
  induction ranges generalizing open' last before chains closed out with
  | nil =>
    obtain rfl := Except.ok.inj h
    rw [List.splitBy.loop, List.reverse_cons, List.reverse_cons]
    exact List.rel_append hchains (.cons hopen .nil)
  | cons x ranges ih =>
    obtain ⟨first, hfirst, last', hlast', hscope, hscope', hstart, hstop⟩ := hopen
    obtain rfl : last = last' := by simpa using hlast'
    have hsame : p.continues open' x = p.continues last x := by
      rw [Parts.continues, Parts.continues, hscope', hstop]
    rw [List.splitBy.loop]
    rcases mergeRuns_cons h with ⟨m, hm, hrest⟩ | ⟨hn, tl, htl, rfl⟩
    · obtain ⟨hcont, hms, hmstart, hmstop⟩ := hsome _ _ _ hm
      rw [hsame] at hcont
      rw [hcont]
      refine ih hchains ⟨first, ?_, x, ?_, hms.trans hscope, ?_, hmstart.trans hstart, hmstop⟩ hrest
      · rw [List.reverse_cons, List.head?_append_of_ne_nil _ (by simp)]
        exact hfirst
      · simp
      · rw [hms, hscope']
        exact (Parts.continues_iff.mp hcont).1
    · have hcont := hnone _ _ hn
      rw [hsame] at hcont
      rw [hcont]
      have hclosed : p.Closes (last :: before).reverse open' := by
        rw [List.reverse_cons]
        exact ⟨first, hfirst, last, hlast', hscope, hscope', hstart, hstop⟩
      have hnext : p.Closes ([].reverse ++ [x]) x := ⟨x, rfl, x, rfl, rfl, rfl, rfl, rfl⟩
      have hchains' : List.Forall₂ p.Closes ((last :: before).reverse :: chains).reverse
          (closed ++ [open']) := by
        rw [List.reverse_cons]
        exact List.rel_append hchains (.cons hclosed .nil)
      have := ih hchains' hnext htl
      rwa [List.append_assoc] at this

/-- **The pass closes the chains**, one after the other. -/
theorem forall₂_chains (hsome : ∀ a b m, join a b = .ok (some m) → p.continues a b = true ∧
      p.scope m = p.scope a ∧ p.start m = p.start a ∧ p.stop m = p.stop b)
    (hnone : ∀ a b, join a b = .ok none → p.continues a b = false)
    (h : mergeRuns join first ranges = .ok out) :
    List.Forall₂ p.Closes (p.chains (first :: ranges)) out := by
  have hopen : p.Closes ([].reverse ++ [first]) first :=
    ⟨first, rfl, first, rfl, rfl, rfl, rfl, rfl⟩
  have hnil : List.Forall₂ p.Closes ([] : List (List α)).reverse [] := .nil
  exact forall₂_loop hsome hnone hnil hopen h

end Pass

/-! ## The chains of a list in order -/

section Chains

variable {ranges out : List α}

/-- A range after the end of a chain does not touch its last one. -/
theorem apart_of_break {next : α} (hbreak : p.continues last next = false)
    (hnext : p.Ordered last next) (ha : next = a ∨ p.Ordered next a)
    (hscope : p.scope last = p.scope a) : p.stop last < p.start a := by
  have hle : p.scope next ≤ p.scope a := by
    rcases ha with rfl | ha
    · exact le_refl _
    · exact ha.scope_le
  have hsame : p.scope last = p.scope next :=
    le_antisymm hnext.scope_le (hle.trans hscope.ge)
  have hstart : p.start next ≤ p.start a := by
    rcases ha with rfl | ha
    · exact le_refl _
    · exact ha.start_le (hsame.symm.trans hscope)
  have hpast : ¬p.start next ≤ p.stop last := by
    intro h
    rw [Parts.continues_iff.mpr ⟨hsame, h⟩] at hbreak
    cases hbreak
  omega

/-- No range of a later chain touches the last one of a chain before. -/
def Parts.Apart (p : Parts α σ) (chain later : List α) : Prop :=
  (∀ a ∈ chain, ∀ b ∈ later, p.Ordered a b) ∧
    ∀ last ∈ chain.getLast?, ∀ b ∈ later, p.scope last = p.scope b → p.stop last < p.start b

theorem apart_chains (hsorted : ranges.Pairwise p.Ordered) :
    (p.chains ranges).Pairwise p.Apart := by
  have hflat : (p.chains ranges).flatten = ranges := List.flatten_splitBy _ _
  rw [← hflat, List.pairwise_flatten] at hsorted
  obtain ⟨hwithin, hacross⟩ := hsorted
  have hbreaks : (p.chains ranges).IsChain
      fun a b => ∃ ha hb, p.continues (a.getLast ha) (b.head hb) = false :=
    List.isChain_getLast_head_splitBy _ _
  clear hflat
  generalize p.chains ranges = chains at *
  induction chains with
  | nil => exact .nil
  | cons chain chains ih =>
    obtain ⟨hchain, hlater⟩ := List.pairwise_cons.mp hacross
    have hrest := ih (fun c hc => hwithin c (List.mem_cons_of_mem _ hc)) hlater
      hbreaks.tail
    refine List.pairwise_cons.mpr ⟨fun d hd => ⟨hchain d hd, ?_⟩, hrest⟩
    intro last hlast b hb hscope
    cases chains with
    | nil => cases hd
    | cons next chains =>
      obtain ⟨⟨hne, hne', hbreak⟩, -⟩ := List.isChain_cons_cons.mp hbreaks
      have hmem : chain.getLast hne ∈ chain := List.getLast_mem hne
      obtain rfl : chain.getLast hne = last := by
        rw [List.getLast?_eq_some_getLast hne] at hlast
        exact Option.some.inj hlast
      have hhead : next.head hne' ∈ next := List.head_mem hne'
      refine apart_of_break hbreak (hchain next List.mem_cons_self _ hmem _ hhead) ?_ hscope
      rcases List.mem_cons.mp hd with rfl | hd
      · have hpairs := hwithin d (List.mem_cons_of_mem _ List.mem_cons_self)
        rw [← List.cons_head_tail hne'] at hb hpairs
        rcases List.mem_cons.mp hb with rfl | hb
        · exact .inl rfl
        · exact .inr ((List.pairwise_cons.mp hpairs).1 b hb)
      · exact .inr ((List.pairwise_cons.mp hlater).1 d hd _ hhead b hb)

/-! ## What the closed ranges cover -/

/-- A chain covers everything from the start of its first range to the end of its last. The
induction is on the chain, from its first range. -/
theorem exists_of_chain (hchain : (first :: chain).IsChain fun a b => p.continues a b = true)
    (hlast : last ∈ (first :: chain).getLast?) {r : Nat} (hstart : p.start first ≤ r)
    (hstop : r < p.stop last) :
    ∃ a ∈ first :: chain, p.scope a = p.scope first ∧ p.start a ≤ r ∧ r < p.stop a := by
  induction chain generalizing first with
  | nil =>
    obtain rfl := Option.some.inj hlast
    exact ⟨_, List.mem_cons_self, rfl, hstart, hstop⟩
  | cons next chain ih =>
    obtain ⟨hcont, hrest⟩ := List.isChain_cons_cons.mp hchain
    obtain ⟨hscope, hnext⟩ := Parts.continues_iff.mp hcont
    by_cases hin : r < p.stop first
    · exact ⟨first, List.mem_cons_self, rfl, hstart, hin⟩
    · have hlast' : last ∈ (next :: chain).getLast? := by
        rwa [List.getLast?_cons_cons] at hlast
      obtain ⟨a, ha, hsame, hcov⟩ := ih hrest hlast' (by omega)
      exact ⟨a, List.mem_cons_of_mem _ ha, hsame.trans hscope.symm, hcov⟩

/-- The ranges of a chain are in one scope. -/
theorem scope_of_chain (hchain : (first :: chain).IsChain fun a b => p.continues a b = true) :
    ∀ a ∈ first :: chain, p.scope a = p.scope first := by
  induction chain generalizing first with
  | nil =>
    intro a ha
    rw [List.mem_singleton.mp ha]
  | cons next chain ih =>
    obtain ⟨hcont, hrest⟩ := List.isChain_cons_cons.mp hchain
    intro a ha
    rcases List.mem_cons.mp ha with rfl | ha
    · rfl
    · exact (ih hrest a ha).trans (Parts.continues_iff.mp hcont).1.symm

/-- No range of a chain starts after its last. -/
theorem start_le_last (hpairs : chain.Pairwise p.Ordered)
    (hlast : last ∈ chain.getLast?) (ha : a ∈ chain) (hscope : p.scope a = p.scope last) :
    p.start a ≤ p.start last := by
  obtain ⟨front, rfl⟩ := List.getLast?_eq_some_iff.mp hlast
  rcases List.mem_append.mp ha with ha | ha
  · exact ((List.pairwise_append.mp hpairs).2.2 a ha last (List.mem_singleton_self _)).start_le hscope
  · rw [List.mem_singleton.mp ha]

/-- What a pass makes of the chains, related element by element. -/
theorem pairwise_of_forall₂ {β γ : Type w} {R : β → γ → Prop} {S : β → β → Prop}
    {T : γ → γ → Prop} (hST : ∀ a b c d, R a c → R b d → S a b → T c d) {as : List β}
    {cs : List γ} (h : List.Forall₂ R as cs) (has : as.Pairwise S) : cs.Pairwise T := by
  induction h with
  | nil => exact .nil
  | cons hac hrest ih =>
    obtain ⟨ha, htail⟩ := List.pairwise_cons.mp has
    refine List.pairwise_cons.mpr ⟨fun d hd => ?_, ih htail⟩
    obtain ⟨b, hb, hbd⟩ := Checked.exists_of_forall₂_left hrest.flip hd
    exact hST _ _ _ _ hac hbd (ha b hb)

/-- **The closed ranges are in order, and those of one scope do not touch.** -/
theorem apart_of_closed (hsorted : ranges.Pairwise p.Ordered)
    (hclosed : List.Forall₂ p.Closes (p.chains ranges) out) :
    out.Pairwise fun a b => p.scope a < p.scope b ∨
      p.scope a = p.scope b ∧ p.stop a < p.start b := by
  refine pairwise_of_forall₂ ?_ hclosed (apart_chains hsorted)
  rintro chain later a b ⟨first, hfirst, last, hlast, -, hlastScope, -, hstop⟩
    ⟨first', hfirst', -, -, hscope', -, hstart', -⟩ ⟨hordered, hapart⟩
  have hmem : last ∈ chain := List.mem_of_mem_getLast? hlast
  have hmem' : first' ∈ later := List.mem_of_mem_head? hfirst'
  rw [hlastScope, hscope', hstop, hstart']
  rcases hordered last hmem first' hmem' with hlt | ⟨hsame, -⟩
  · exact .inl hlt
  · exact .inr ⟨hsame, hapart last hlast first' hmem' hsame⟩

/-- **The closed ranges cover what the ranges cover exactly when each chain ends last.** They
never cover more. A chain that does not end last loses the number at its end: the closed ranges
of its scope stay clear of it. -/
theorem covers_closed_iff (hsorted : ranges.Pairwise p.Ordered)
    (hnonempty : ∀ a ∈ ranges, p.start a < p.stop a)
    (hclosed : List.Forall₂ p.Closes (p.chains ranges) out) :
    (∀ scope r, p.Covers out scope r ↔ p.Covers ranges scope r) ↔
      ∀ chain ∈ p.chains ranges, p.EndsLast chain := by
  have hflat : (p.chains ranges).flatten = ranges := List.flatten_splitBy _ _
  have hmem : ∀ a, a ∈ ranges ↔ ∃ chain ∈ p.chains ranges, a ∈ chain := by
    intro a
    rw [← List.mem_flatten, hflat]
  have hpairs : ∀ chain ∈ p.chains ranges, chain.Pairwise p.Ordered := by
    rw [← hflat, List.pairwise_flatten] at hsorted
    exact hsorted.1
  have hcont : ∀ chain ∈ p.chains ranges, chain.IsChain fun a b => p.continues a b = true :=
    fun chain h => List.isChain_of_mem_splitBy h
  have hsub : ∀ scope r, p.Covers out scope r → p.Covers ranges scope r := by
    rintro scope r ⟨o, ho, rfl, hstart, hstop⟩
    obtain ⟨chain, hchain, first, hfirst, last, hlast, hscope, -, hstarts, hstops⟩ :=
      Checked.exists_of_forall₂_left hclosed.flip ho
    obtain ⟨rest, rfl⟩ : ∃ rest, chain = first :: rest := List.head?_eq_some_iff.mp hfirst
    rw [hstarts] at hstart
    rw [hstops] at hstop
    obtain ⟨a, ha, hsame, hcov⟩ := exists_of_chain (hcont _ hchain) hlast hstart hstop
    exact ⟨a, (hmem a).mpr ⟨_, hchain, ha⟩, hsame.trans hscope.symm, hcov⟩
  constructor
  · intro h chain hchain last hlast a ha
    by_contra hreach
    obtain ⟨first, rest, rfl⟩ : ∃ first rest, chain = first :: rest :=
      List.exists_cons_of_ne_nil (List.ne_nil_of_mem ha)
    have hscope := scope_of_chain (hcont _ hchain)
    have hlastMem : last ∈ first :: rest := List.mem_of_mem_getLast? hlast
    have hlastNonempty := hnonempty last ((hmem last).mpr ⟨_, hchain, hlastMem⟩)
    -- The number at the end of the chain is covered by the range that reaches further.
    have hcovered : p.Covers ranges (p.scope last) (p.stop last) := by
      refine ⟨a, (hmem a).mpr ⟨_, hchain, ha⟩, (hscope a ha).trans (hscope last hlastMem).symm, ?_,
        by omega⟩
      have hle : p.start a ≤ p.start last := start_le_last (hpairs _ hchain) hlast ha
        ((hscope a ha).trans (hscope last hlastMem).symm)
      omega
    obtain ⟨o, ho, hoScope, hoStart, hoStop⟩ := (h _ _).mpr hcovered
    obtain ⟨chain', hchain', first', hfirst', last', hlast', hscope', hlastScope, hstart', hstop'⟩ :=
      Checked.exists_of_forall₂_left hclosed.flip ho
    have heither : (p.chains ranges).Pairwise fun c d => p.Apart c d ∨ p.Apart d c :=
      (apart_chains hsorted).imp fun hapart => .inl hapart
    by_cases hsame : first :: rest = chain'
    · subst hsame
      obtain rfl : last' = last := Option.some.inj (hlast'.symm.trans hlast)
      omega
    · have hsymm : Std.Symm fun c d => p.Apart c d ∨ p.Apart d c := ⟨fun _ _ h => h.symm⟩
      rcases heither.forall hchain hchain' hsame with hapart | hapart
      · have := hapart.2 last hlast first' (List.mem_of_mem_head? hfirst')
          (hoScope.symm.trans hscope')
        omega
      · have := hapart.2 last' hlast' last hlastMem (hlastScope.symm.trans hoScope)
        omega
  · intro hends scope r
    refine ⟨hsub scope r, ?_⟩
    rintro ⟨a, ha, rfl, hstart, hstop⟩
    obtain ⟨chain, hchain, hin⟩ := (hmem a).mp ha
    obtain ⟨o, ho, first, hfirst, last, hlast, hscope, -, hstarts, hstops⟩ :=
      Checked.exists_of_forall₂_left hclosed hchain
    obtain ⟨rest, rfl⟩ : ∃ rest, chain = first :: rest := List.head?_eq_some_iff.mp hfirst
    have hsame := scope_of_chain (hcont _ hchain) a hin
    refine ⟨o, ho, hscope.trans hsame.symm, ?_, ?_⟩
    · rw [hstarts]
      rcases List.mem_cons.mp hin with rfl | hrest
      · exact hstart
      · have := ((List.pairwise_cons.mp (hpairs _ hchain)).1 a hrest).start_le hsame.symm
        omega
    · rw [hstops]
      exact lt_of_lt_of_le hstop (hends _ hchain last hlast a hin)

/-- **What a pass over ranges in order covers.** Its output is in order and apart; it covers what
the ranges cover exactly when each chain ends last. -/
theorem covers_merged_iff {join : α → α → Except ε (Option α)}
    (hsome : ∀ a b m, join a b = .ok (some m) → p.continues a b = true ∧
      p.scope m = p.scope a ∧ p.start m = p.start a ∧ p.stop m = p.stop b)
    (hnone : ∀ a b, join a b = .ok none → p.continues a b = false)
    (hchecked : ∀ a b o, join a b = .ok o → p.start b < p.stop b)
    (hfirst : p.start first < p.stop first) (hsorted : (first :: ranges).Pairwise p.Ordered)
    (h : mergeRuns join first ranges = .ok out) :
    ((∀ scope r, p.Covers out scope r ↔ p.Covers (first :: ranges) scope r) ∧
        out.Pairwise fun a b => p.scope a < p.scope b ∨
          p.scope a = p.scope b ∧ p.stop a < p.start b) ↔
      ∀ chain ∈ p.chains (first :: ranges), p.EndsLast chain := by
  have hclosed := forall₂_chains hsome hnone h
  have hnonempty : ∀ a ∈ first :: ranges, p.start a < p.stop a :=
    List.forall_mem_cons.mpr ⟨hfirst, mergeRuns_checked hchecked h⟩
  rw [← covers_closed_iff hsorted hnonempty hclosed]
  exact and_iff_left (apart_of_closed hsorted hclosed)

end Chains

/-- Ranges whose keys, scope before start, are in order are in order themselves. -/
theorem ordered_of_key_le {p : Parts α (List Nat)} (hlen : (p.scope a).length = (p.scope b).length)
    (h : p.scope a ++ [p.start a] ≤ p.scope b ++ [p.start b]) : p.Ordered a b := by
  rcases lt_trichotomy (p.scope a) (p.scope b) with hlt | heq | hgt
  · exact .inl hlt
  · refine .inr ⟨heq, ?_⟩
    rw [heq, ByteOrder.append_le_append_iff] at h
    by_contra hlt
    exact absurd (List.cons_lt_cons_iff.mpr (.inl (Nat.lt_of_not_le hlt))) (not_lt_of_ge h)
  · have hkey : p.scope b ++ [p.start b] < p.scope a ++ [p.start a] :=
      ByteOrder.append_lt_append_of_lt hlen.symm hgt
    exact absurd h (not_le_of_gt hkey)

end ChainMerge
