import Cove.DataFusion.RangeReader

/-!
# Reading together is reading one by one

- `CoalescedRange.Good`: what a group is for its requests.
- `Planned`: groups that hold every request once and stay within the span.
- `planned_coalesceRanges`, `planned_layoutAwareGroups`: both planners make such groups.
- `readForPlan_sound`: **a read by such groups is the direct reads**.
- `readCoalesced_spec`: every read of either planner, and what its failures come from.
- `coalesced_reads_fail`: two reads that fail.
-/

namespace Cove

open Checked MergeRuns

/-! ## Good groups -/

/-- The request an original stands for. -/
def OriginalRange.range (original : OriginalRange) : ByteRange := ⟨original.start, original.stop⟩

/-- A group starts with one of its requests and ends with one, and holds them all. -/
structure CoalescedRange.Good (group : CoalescedRange) : Prop where
  within : ∀ o ∈ group.originals,
    group.start ≤ o.start ∧ o.start ≤ o.stop ∧ o.stop ≤ group.stop
  starts : ∃ o ∈ group.originals, o.start = group.start
  ends : ∃ o ∈ group.originals, o.stop = group.stop

theorem OriginalRange.good_alone {original : OriginalRange} (h : original.start ≤ original.stop) :
    original.alone.Good := by
  refine ⟨fun o ho => ?_, ⟨original, List.mem_singleton_self _, rfl⟩,
    ⟨original, List.mem_singleton_self _, rfl⟩⟩
  obtain rfl := List.mem_singleton.mp ho
  exact ⟨Nat.le_refl _, h, Nat.le_refl _⟩

variable {group : CoalescedRange} {originals : List OriginalRange}
  {hints : List (Option RangeClusterHint)} {o : OriginalRange}

theorem CoalescedRange.Good.start_le_stop (h : group.Good) :
    group.start ≤ group.stop := by
  obtain ⟨o, ho, hstart⟩ := h.starts
  obtain ⟨-, hle, hstop⟩ := h.within o ho
  omega

/-- Joining two groups that start in order. -/
theorem CoalescedRange.Good.join {a b : CoalescedRange} (ha : a.Good) (hb : b.Good)
    (hle : a.start ≤ b.start) :
    (CoalescedRange.mk a.start (max a.stop b.stop) (a.originals ++ b.originals)).Good := by
  refine ⟨fun o ho => ?_, ?_, ?_⟩
  · rcases List.mem_append.mp ho with ho | ho
    · obtain ⟨h1, h2, h3⟩ := ha.within o ho
      exact ⟨h1, h2, h3.trans (Nat.le_max_left _ _)⟩
    · obtain ⟨h1, h2, h3⟩ := hb.within o ho
      exact ⟨hle.trans h1, h2, h3.trans (Nat.le_max_right _ _)⟩
  · obtain ⟨o, ho, hstart⟩ := ha.starts
    exact ⟨o, List.mem_append_left _ ho, hstart⟩
  · obtain ⟨o, ho, hstop⟩ := ha.ends
    obtain ⟨o', ho', hstop'⟩ := hb.ends
    rcases Nat.le_total a.stop b.stop with h | h
    · exact ⟨o', List.mem_append_right _ ho', by rw [hstop']; exact (Nat.max_eq_right h).symm⟩
    · exact ⟨o, List.mem_append_left _ ho, by rw [hstop]; exact (Nat.max_eq_left h).symm⟩

/-- The groups hold every request once, each in its place, and a group of several requests
spans at most the maximum. -/
structure Planned (ranges : List ByteRange) (maxSpan : Nat) (groups : List CoalescedRange) :
    Prop where
  good : ∀ group ∈ groups, group.Good
  span : ∀ group ∈ groups, 1 < group.originals.length → group.stop - group.start ≤ maxSpan
  perm : (groups.flatMap CoalescedRange.originals).Perm
    (ranges.zipIdx.map fun x => OriginalRange.mk x.2 x.1.start x.1.stop)

/-! ## The planners -/

variable {last next : CoalescedRange} {maxGap : Nat} {e : CoveError}

section Planners

variable {ranges : List ByteRange} {options : RangeCoalescingOptions}

theorem originalRanges_eq_ok (h : originalRanges ranges = .ok originals) :
    originals = ranges.zipIdx.map (fun x => OriginalRange.mk x.2 x.1.start x.1.stop) ∧
      ∀ o ∈ originals, o.start ≤ o.stop := by
  have hall := mapM_eq_ok.mp h
  have hone : ∀ (x : ByteRange × Nat) (o : OriginalRange),
      (if x.1.start > x.1.stop then (.error .offsetRange : Except CoveError OriginalRange)
        else .ok ⟨x.2, x.1.start, x.1.stop⟩) = .ok o →
      o = ⟨x.2, x.1.start, x.1.stop⟩ ∧ x.1.start ≤ x.1.stop := by
    intro x o ho
    split at ho
    · cases ho
    · next hle => exact ⟨(Except.ok.inj ho).symm, Nat.le_of_not_lt hle⟩
  clear h
  generalize ranges.zipIdx = xs at hall
  induction hall with
  | nil => exact ⟨rfl, nofun⟩
  | cons hab _ ih =>
    obtain ⟨rfl, hle⟩ := hone _ _ hab
    exact ⟨by rw [List.map_cons, ih.1], List.forall_mem_cons.mpr ⟨hle, ih.2⟩⟩

/-- No request ends before it starts when the originals are listed. -/
theorem originalRanges_isOk :
    (∃ originals, originalRanges ranges = .ok originals) ↔ ∀ r ∈ ranges, r.start ≤ r.stop := by
  constructor
  · rintro ⟨originals, h⟩ r hr
    obtain ⟨rfl, hle⟩ := originalRanges_eq_ok h
    obtain ⟨i, hi⟩ := List.mem_iff_getElem?.mp hr
    exact hle ⟨i, r.start, r.stop⟩ (List.mem_map.mpr
      ⟨(r, i), List.mem_zipIdx_iff_getElem?.mpr hi, rfl⟩)
  · intro h
    refine ⟨ranges.zipIdx.map fun x => ⟨x.2, x.1.start, x.1.stop⟩,
      mapM_eq_ok.mpr (forall₂_map_self fun x hx => ?_)⟩
    have hmem : x.1 ∈ ranges := List.mem_of_getElem? (List.mem_zipIdx_iff_getElem?.mp hx)
    exact if_neg (Nat.not_lt.mpr (h x.1 hmem))

/-! ### Without hints -/

variable {maxSpan : Nat}

theorem joinCoalesced_eq_some {m : CoalescedRange}
    (h : joinCoalesced maxGap maxSpan last next = .ok (some m)) :
    m = ⟨last.start, max last.stop next.stop, last.originals ++ next.originals⟩ ∧
      max last.stop next.stop - last.start ≤ maxSpan := by
  obtain ⟨mergedSpan, hspan, h⟩ := bind_eq_ok.mp h
  obtain ⟨-, rfl⟩ := sub_eq_ok.mp hspan
  split at h
  · next hfit => exact ⟨(Option.some.inj (Except.ok.inj h)).symm, hfit.2⟩
  · cases h

theorem joinCoalesced_isOk (hlast : last.start ≤ last.stop) :
    joinCoalesced maxGap maxSpan last next = .ok none ∨
      ∃ m, joinCoalesced maxGap maxSpan last next = .ok (some m) ∧ m.start ≤ m.stop := by
  have hspan : Checked.sub (CoveError.offsetRange) (max last.stop next.stop) last.start =
      .ok (max last.stop next.stop - last.start) := sub_eq_ok.mpr ⟨by omega, rfl⟩
  unfold joinCoalesced
  dsimp only
  rw [hspan, ok_bind]
  split
  · exact .inr ⟨_, rfl, by dsimp only; omega⟩
  · exact .inl rfl

variable {groups : List CoalescedRange}

/-- The groups of a pass over requests in order. -/
theorem planned_of_originals (horiginals : originalRanges ranges = .ok originals)
    (hgood : ∀ group ∈ groups,
      group.Good ∧ (1 < group.originals.length → group.stop - group.start ≤ maxSpan))
    (hperm : (groups.flatMap CoalescedRange.originals).Perm originals) :
    Planned ranges maxSpan groups := by
  obtain ⟨rfl, -⟩ := originalRanges_eq_ok horiginals
  exact ⟨fun group hg => (hgood group hg).1, fun group hg => (hgood group hg).2, hperm⟩

theorem sorted_originals (originals : List OriginalRange) :
    (originals.insertionSort (OriginalRange.le · ·)).Pairwise fun a b => a.start ≤ b.start := by
  have : IsTrans OriginalRange fun a b => OriginalRange.le a b = true :=
    ⟨fun a b c hab hbc => by simp only [OriginalRange.le, decide_eq_true_eq] at *; omega⟩
  have : Std.Total fun a b : OriginalRange => OriginalRange.le a b = true :=
    ⟨fun a b => by simp only [OriginalRange.le, decide_eq_true_eq]; omega⟩
  refine (List.pairwise_insertionSort _ originals).imp fun {a b} hab => ?_
  have : a.start < b.start ∨ (a.start = b.start ∧ a.stop ≤ b.stop) := of_decide_eq_true hab
  omega

/-- **The groups without hints are as planned.** -/
theorem planned_coalesceRanges
    (h : coalesceRanges ranges options = .ok groups) : Planned ranges options.maxSpan groups := by
  obtain ⟨originals, horiginals, h⟩ := bind_eq_ok.mp h
  have hperm := List.perm_insertionSort (OriginalRange.le · ·) originals
  have hsorted := sorted_originals originals
  obtain ⟨-, hle⟩ := originalRanges_eq_ok horiginals
  cases hlist : originals.insertionSort (OriginalRange.le · ·) with
  | nil =>
    rw [hlist] at h hperm
    obtain rfl := Except.ok.inj h
    exact planned_of_originals horiginals (fun _ hg => absurd hg List.not_mem_nil) hperm
  | cons first rest =>
    rw [hlist] at h hperm hsorted
    have h : mergeRuns (joinCoalesced options.maxGap options.maxSpan) first.alone
      (rest.map OriginalRange.alone) = .ok groups := h
    have halone : ∀ group ∈ first.alone :: rest.map OriginalRange.alone,
        group.Good ∧ (1 < group.originals.length →
          group.stop - group.start ≤ options.maxSpan) := by
      intro group hgroup
      obtain ⟨o, ho, rfl⟩ : ∃ o ∈ first :: rest, o.alone = group :=
        List.mem_map.mp (hgroup : group ∈ (first :: rest).map OriginalRange.alone)
      exact ⟨OriginalRange.good_alone (hle o (hperm.mem_iff.mp ho)),
        fun hlen => absurd hlen (Nat.lt_irrefl 1)⟩
    have hstarts : (first.alone :: rest.map OriginalRange.alone).Pairwise
        fun a b => a.start ≤ b.start := by
      show ((first :: rest).map OriginalRange.alone).Pairwise fun a b => a.start ≤ b.start
      exact List.pairwise_map.mpr hsorted
    refine planned_of_originals horiginals ?_ ?_
    · refine mergeRuns_forall ?_ ?_ hstarts h halone
      · intro a c m hm d hd
        obtain ⟨rfl, -⟩ := joinCoalesced_eq_some hm
        exact hd
      · intro a c m hac ha hc hm
        obtain ⟨rfl, hspan⟩ := joinCoalesced_eq_some hm
        exact ⟨ha.1.join hc.1 hac, fun _ => hspan⟩
    · have hflat := mergeRuns_flatMap (f := CoalescedRange.originals) (fun a c m hm => by
        obtain ⟨rfl, -⟩ := joinCoalesced_eq_some hm
        rfl) h
      have hsingle : (first.alone :: rest.map OriginalRange.alone).flatMap
          CoalescedRange.originals = first :: rest := by
        show ((first :: rest).map OriginalRange.alone).flatMap CoalescedRange.originals = _
        rw [List.flatMap_map]
        exact List.flatMap_singleton' _
      rw [hflat, hsingle]
      exact hperm

theorem coalesceRanges_isOk (h : ∀ r ∈ ranges, r.start ≤ r.stop) :
    ∃ groups, coalesceRanges ranges options = .ok groups := by
  obtain ⟨originals, horiginals⟩ := originalRanges_isOk.mpr h
  obtain ⟨-, hle⟩ := originalRanges_eq_ok horiginals
  have hperm := List.perm_insertionSort (OriginalRange.le · ·) originals
  unfold coalesceRanges
  rw [horiginals, ok_bind]
  split
  · exact ⟨[], rfl⟩
  · next first rest hlist =>
    refine mergeRuns_isOk (p := fun group => group.start ≤ group.stop)
      (fun _ _ ha _ => joinCoalesced_isOk ha) fun group hgroup => ?_
    obtain ⟨o, ho, rfl⟩ : ∃ o ∈ first :: rest, o.alone = group :=
      List.mem_map.mp (hgroup : group ∈ (first :: rest).map OriginalRange.alone)
    exact hle o (hperm.mem_iff.mp (hlist ▸ ho))

/-! ### With hints -/

theorem joinHinted_eq_some {last next m : HintedGroup}
    (h : joinHinted options last next = .ok (some m)) :
    last.hint = next.hint ∧ m.hint = last.hint ∧
      m.range = ⟨last.range.start, max last.range.stop next.range.stop,
        last.range.originals ++ next.range.originals⟩ ∧
      max last.range.stop next.range.stop - last.range.start ≤ options.maxSpan := by
  unfold joinHinted at h
  split at h
  · cases h
  obtain ⟨mergedSpan, hspan, h⟩ := bind_eq_ok.mp h
  obtain ⟨-, rfl⟩ := sub_eq_ok.mp hspan
  split at h
  · next hfit =>
    obtain ⟨hhint, -, -, hle⟩ := hfit
    obtain rfl := Option.some.inj (Except.ok.inj h)
    refine ⟨hhint, rfl, rfl, hle.trans ?_⟩
    unfold hintedMaxSpan
    split
    · split
      · exact Nat.min_le_left _ _
      · exact Nat.le_refl _
    · exact Nat.le_refl _
  · cases h

theorem joinHinted_error {last next : HintedGroup} (hlast : last.range.start ≤ last.range.stop)
    : joinHinted options last next ≠ .error (some e) := by
  have hspan : Checked.sub (some CoveError.offsetRange)
      (max last.range.stop next.range.stop) last.range.start =
      .ok (max last.range.stop next.range.stop - last.range.start) :=
    sub_eq_ok.mpr ⟨by omega, rfl⟩
  unfold joinHinted
  split
  · nofun
  · dsimp only
    rw [hspan, ok_bind]
    split <;> nofun

/-- A request in the order of the hints starts no earlier than another of its cluster. -/
theorem sorted_hinted (hinted : List HintedGroup) :
    (hinted.insertionSort (HintedGroup.le · ·)).Pairwise
      fun a b => a.hint = b.hint → a.range.start ≤ b.range.start := by
  have : IsTrans HintedGroup fun a b => HintedGroup.le a b = true :=
    ⟨fun a b c hab hbc => by simp only [HintedGroup.le, decide_eq_true_eq] at *; omega⟩
  have : Std.Total fun a b : HintedGroup => HintedGroup.le a b = true :=
    ⟨fun a b => by simp only [HintedGroup.le, decide_eq_true_eq]; omega⟩
  refine (List.pairwise_insertionSort _ hinted).imp fun {a b} hab heq => ?_
  simp only [HintedGroup.le, decide_eq_true_eq, heq] at hab
  omega

theorem flatMap_zipWith_alone (originals : List OriginalRange)
    (hints : List (Option RangeClusterHint)) (hlen : hints.length = originals.length) :
    (List.zipWith (fun original hint => HintedGroup.mk original.alone hint) originals
      hints).flatMap (fun group => group.range.originals) = originals := by
  induction originals generalizing hints with
  | nil => cases hints <;> rfl
  | cons original originals ih =>
    cases hints with
    | nil => cases hlen
    | cons hint hints =>
      rw [List.zipWith_cons_cons, List.flatMap_cons, ih hints (Nat.succ.inj hlen)]
      rfl

theorem mem_zipWith_alone {group : HintedGroup}
    (h : group ∈ List.zipWith (fun original hint => HintedGroup.mk original.alone hint)
      originals hints) : ∃ o ∈ originals, group.range = o.alone := by
  induction originals generalizing hints with
  | nil => cases hints <;> cases h
  | cons original originals ih =>
    cases hints with
    | nil => cases h
    | cons hint hints =>
      rcases List.mem_cons.mp h with rfl | h
      · exact ⟨original, List.mem_cons_self, rfl⟩
      · obtain ⟨o, ho, heq⟩ := ih h
        exact ⟨o, List.mem_cons_of_mem _ ho, heq⟩

/-- A group that is good and stays within the span. -/
def HintedGroup.Fits (maxSpan : Nat) (group : HintedGroup) : Prop :=
  group.range.Good ∧
    (1 < group.range.originals.length → group.range.stop - group.range.start ≤ maxSpan)

theorem fits_of_hintedGroups {sorted groups : List HintedGroup}
    (hsorted : sorted.Pairwise fun a b => a.hint = b.hint → a.range.start ≤ b.range.start)
    (hfits : ∀ group ∈ sorted, group.Fits options.maxSpan)
    (h : hintedGroups options sorted = .ok groups) :
    (∀ group ∈ groups, group.Fits options.maxSpan) ∧
      groups.flatMap (fun group => group.range.originals) =
        sorted.flatMap fun group => group.range.originals := by
  cases sorted with
  | nil =>
    obtain rfl := Except.ok.inj h
    exact ⟨fun _ hg => absurd hg List.not_mem_nil, rfl⟩
  | cons first rest =>
    rw [hintedGroups] at h
    split at h
    · cases h
    constructor
    · refine mergeRuns_forall ?_ ?_ hsorted h hfits
      · intro a c m hm d hd
        obtain ⟨-, hhint, hrange, -⟩ := joinHinted_eq_some hm
        rw [hhint, hrange]
        exact hd
      · intro a c m hac ha hc hm
        obtain ⟨hsame, -, hrange, hspan⟩ := joinHinted_eq_some hm
        unfold HintedGroup.Fits
        rw [hrange]
        exact ⟨ha.1.join hc.1 (hac hsame), fun _ => hspan⟩
    · refine mergeRuns_flatMap (f := fun group : HintedGroup => group.range.originals) ?_ h
      intro a c m hm
      obtain ⟨-, -, hrange, -⟩ := joinHinted_eq_some hm
      rw [hrange]

/-- **The groups with hints are as planned.** -/
theorem planned_layoutAwareGroups (h : layoutAwareGroups ranges hints options = .ok groups) :
    Planned ranges options.maxSpan groups := by
  unfold layoutAwareGroups at h
  split at h
  · exact planned_coalesceRanges h
  next hplain =>
  obtain ⟨originals, horiginals, h⟩ := bind_eq_ok.mp h
  obtain ⟨heq, hle⟩ := originalRanges_eq_ok horiginals
  have hlen : hints.length = originals.length := by
    rw [heq, List.length_map, List.length_zipIdx]
    exact not_not.mp fun hne => hplain (.inl hne)
  dsimp only at h
  split at h
  · next hinted hgroups =>
    obtain rfl := Except.ok.inj h
    have hperm := List.perm_insertionSort (HintedGroup.le · ·)
      (List.zipWith (fun original hint => HintedGroup.mk original.alone hint) originals hints)
    have halone : ∀ group ∈ (List.zipWith (fun original hint => HintedGroup.mk original.alone hint)
        originals hints).insertionSort (HintedGroup.le · ·), group.Fits options.maxSpan := by
      intro group hgroup
      obtain ⟨o, ho, heq⟩ := mem_zipWith_alone (hperm.mem_iff.mp hgroup)
      unfold HintedGroup.Fits
      rw [heq]
      exact ⟨OriginalRange.good_alone (hle o ho), fun hlen => absurd hlen (Nat.lt_irrefl 1)⟩
    obtain ⟨hfits, hflat⟩ := fits_of_hintedGroups (sorted_hinted _) halone hgroups
    refine planned_of_originals horiginals (fun group hgroup => ?_) ?_
    · obtain ⟨hintedGroup, hmem, rfl⟩ := List.mem_map.mp hgroup
      exact hfits hintedGroup hmem
    · rw [List.flatMap_map]
      show (hinted.flatMap fun group => group.range.originals).Perm originals
      rw [hflat]
      have hsame := hperm.flatMap_right fun group => group.range.originals
      rwa [flatMap_zipWith_alone originals hints hlen] at hsame
  · exact planned_coalesceRanges h
  · cases h

theorem mergeRuns_joinHinted_error {first : HintedGroup} {rest : List HintedGroup}
    (h : ∀ group ∈ first :: rest, group.range.start ≤ group.range.stop) :
    mergeRuns (joinHinted options) first rest ≠ .error (some e) := by
  induction rest generalizing first with
  | nil => nofun
  | cons next rest ih =>
    obtain ⟨hfirst, hrest⟩ := List.forall_mem_cons.mp h
    obtain ⟨hnext, hrest'⟩ := List.forall_mem_cons.mp hrest
    intro herror
    unfold mergeRuns at herror
    split at herror
    · next e' he' =>
      obtain rfl := Except.error.inj herror
      exact joinHinted_error hfirst he'
    · next m hm =>
      obtain ⟨-, -, hrange, -⟩ := joinHinted_eq_some hm
      refine ih (List.forall_mem_cons.mpr ⟨?_, hrest'⟩) herror
      rw [hrange]
      dsimp only
      omega
    · cases htail : mergeRuns (joinHinted options) next rest with
      | ok tail =>
        rw [htail] at herror
        cases herror
      | error e' =>
        rw [htail] at herror
        obtain rfl := Except.error.inj herror
        exact ih hrest htail

theorem layoutAwareGroups_isOk (h : ∀ r ∈ ranges, r.start ≤ r.stop) :
    ∃ groups, layoutAwareGroups ranges hints options = .ok groups := by
  unfold layoutAwareGroups
  split
  · exact coalesceRanges_isOk h
  obtain ⟨originals, horiginals⟩ := originalRanges_isOk.mpr h
  obtain ⟨-, hle⟩ := originalRanges_eq_ok horiginals
  rw [horiginals, ok_bind]
  dsimp only
  split
  · exact ⟨_, rfl⟩
  · exact coalesceRanges_isOk h
  · next e herror =>
    have hperm := List.perm_insertionSort (HintedGroup.le · ·)
      (List.zipWith (fun original hint => HintedGroup.mk original.alone hint) originals hints)
    unfold hintedGroups at herror
    split at herror
    · cases herror
    · next first rest hlist =>
      split at herror
      · cases herror
      · refine absurd herror (mergeRuns_joinHinted_error fun group hgroup => ?_)
        obtain ⟨o, ho, heq⟩ := mem_zipWith_alone (hperm.mem_iff.mp (hlist ▸ hgroup))
        rw [heq]
        exact hle o ho

end Planners

/-! ## Cutting the requests out -/

variable {out : List (Option (List UInt8))}

section Reads

variable {reader : RangeReader} {ranges : List ByteRange}

/-- Cutting a slice out of a slice. -/
theorem sliceBytes_of {bytes : List UInt8}
    (hstop : group.stop ≤ bytes.length) (hlt : bytes.length < 2 ^ 64)
    (h : group.start ≤ o.start ∧ o.start ≤ o.stop ∧ o.stop ≤ group.stop) :
    sliceBytes (group.span.of bytes) (o.start - group.start) (o.stop - o.start) =
      .ok (o.range.of bytes) := by
  obtain ⟨h1, h2, h3⟩ := h
  have hlen : (group.span.of bytes).length = group.stop - group.start := by
    rw [ByteRange.of, List.length_take, List.length_drop]
    show min (group.stop - group.start) (bytes.length - group.start) = _
    omega
  have hadd : checkedAdd (o.start - group.start) (o.stop - o.start) =
      .ok (o.start - group.start + (o.stop - o.start)) := addU64_eq_ok.mpr ⟨by omega, rfl⟩
  unfold sliceBytes
  rw [hadd, ok_bind, hlen, if_neg (by omega)]
  refine congrArg Except.ok ?_
  show (((bytes.drop group.start).take (group.stop - group.start)).drop
    (o.start - group.start)).take (o.stop - o.start) =
    (bytes.drop o.start).take (o.stop - o.start)
  rw [List.drop_take, List.drop_drop, List.take_take]
  congr 2 <;> omega

/-- A group that is read holds the bytes of its requests, and these are read directly. -/
theorem slice_of_read (hgood : group.Good) {out : List UInt8}
    (h : reader.readRange group.span = .ok out) (ho : o ∈ group.originals) :
    sliceBytes out (o.start - group.start) (o.stop - o.start) = .ok (o.range.of reader.bytes) ∧
      reader.readRange o.range = .ok (o.range.of reader.bytes) := by
  have hwithin := hgood.within o ho
  have hle := hgood.start_le_stop
  by_cases hstop : group.stop ≤ reader.bytes.length
  · have hread := reader.inside group.span hle hstop
    obtain rfl := Except.ok.inj (h.symm.trans hread)
    refine ⟨sliceBytes_of hstop reader.small hwithin, reader.inside o.range hwithin.2.1 ?_⟩
    show o.stop ≤ _
    omega
  · -- a group that reaches past the end is read only when it is empty
    have heq : group.start = group.stop := by
      by_contra hne
      have hlt : group.span.start < group.span.stop := by
        show group.start < group.stop
        omega
      exact reader.past group.span hlt (Nat.lt_of_not_le hstop) out h
    obtain rfl := reader.empty group.span out heq h
    have hstart : o.start = group.start := by omega
    have hstop' : o.stop = group.start := by omega
    have hrange : o.range = group.span := by
      rw [OriginalRange.range, CoalescedRange.span, hstart, hstop', ← heq]
    have hempty : o.range.of reader.bytes = [] := by
      show (reader.bytes.drop o.start).take (o.stop - o.start) = []
      rw [hstart, hstop', Nat.sub_self, List.take_zero]
    rw [hempty, hrange, hstart, hstop', Nat.sub_self]
    exact ⟨rfl, h⟩

/-- The places as the direct reads fill them. -/
def filled (reader : RangeReader) (ranges : List ByteRange) : List (Option (List UInt8)) :=
  ranges.map fun range => some (range.of reader.bytes)

/-- `o` is one of the requests. -/
def OriginalRange.Of (ranges : List ByteRange) (o : OriginalRange) : Prop :=
  ranges[o.index]? = some o.range

theorem getElem?_filled (h : o.Of ranges) :
    (filled reader ranges)[o.index]? = some (some (o.range.of reader.bytes)) := by
  rw [filled, List.getElem?_map, h, Option.map_some]

/-- The requests of a group fill their places, and leave the filled ones. -/
theorem placeOriginals (group : CoalescedRange) (bytes : List UInt8)
    (originals : List OriginalRange)
    (hof : ∀ o ∈ originals, o.Of ranges)
    (hwithin : ∀ o ∈ originals, group.start ≤ o.start ∧ o.start ≤ o.stop)
    (hslice : ∀ o ∈ originals, sliceBytes bytes (o.start - group.start) (o.stop - o.start) =
      .ok (o.range.of reader.bytes)) (hlength : out.length = ranges.length) :
    ∃ out', originals.foldlM (placeOriginal group bytes) out = .ok out' ∧
      out'.length = ranges.length ∧
      ∀ i, (out[i]? = (filled reader ranges)[i]? ∨ ∃ o ∈ originals, o.index = i) →
        out'[i]? = (filled reader ranges)[i]? := by
  induction originals generalizing out with
  | nil => exact ⟨out, rfl, hlength, fun i h => h.resolve_right (by simp)⟩
  | cons o originals ih =>
    obtain ⟨ho, hof⟩ := List.forall_mem_cons.mp hof
    obtain ⟨⟨h1, h2⟩, hwithin⟩ := List.forall_mem_cons.mp hwithin
    obtain ⟨hbytes, hslice⟩ := List.forall_mem_cons.mp hslice
    have hoffset : Checked.sub CoveError.offsetRange o.start group.start =
        .ok (o.start - group.start) := sub_eq_ok.mpr ⟨h1, rfl⟩
    have hlen : Checked.sub CoveError.offsetRange o.stop o.start = .ok (o.stop - o.start) :=
      sub_eq_ok.mpr ⟨h2, rfl⟩
    have hstep : placeOriginal group bytes out o =
        .ok (out.set o.index (some (o.range.of reader.bytes))) := by
      unfold placeOriginal
      rw [hoffset, ok_bind, hlen, ok_bind, hbytes, ok_bind]
    obtain ⟨out', hout, hlength', hfilled⟩ := ih hof hwithin hslice
      (by rw [List.length_set, hlength] : (out.set o.index
        (some (o.range.of reader.bytes))).length = ranges.length)
    refine ⟨out', by rw [List.foldlM_cons, hstep, ok_bind, hout], hlength', fun i hi => ?_⟩
    by_cases hindex : o.index = i
    · subst hindex
      have hlt : o.index < out.length := by
        rw [hlength]
        exact (List.getElem?_eq_some_iff.mp ho).1
      exact hfilled _ (.inl (by rw [List.getElem?_set_self hlt, getElem?_filled ho]))
    · refine hfilled i ?_
      rw [List.getElem?_set_ne hindex]
      refine hi.imp_right ?_
      rintro ⟨o', ho', rfl⟩
      rcases List.mem_cons.mp ho' with rfl | ho'
      · exact absurd rfl hindex
      · exact ⟨o', ho', rfl⟩

/-- The groups fill the places of their requests. -/
theorem placeGroups_fills {groups : List (CoalescedRange × List UInt8)}
    (hof : ∀ g ∈ groups, ∀ o ∈ g.1.originals, o.Of ranges) (hgood : ∀ g ∈ groups, g.1.Good)
    (hread : ∀ g ∈ groups, reader.readRange g.1.span = .ok g.2)
    (hlength : out.length = ranges.length) :
    ∃ out', placeGroups out groups = .ok out' ∧ out'.length = ranges.length ∧
      ∀ i, (out[i]? = (filled reader ranges)[i]? ∨
        ∃ g ∈ groups, ∃ o ∈ g.1.originals, o.index = i) →
          out'[i]? = (filled reader ranges)[i]? := by
  induction groups generalizing out with
  | nil => exact ⟨out, rfl, hlength, fun i h => h.resolve_right (by simp)⟩
  | cons g groups ih =>
    obtain ⟨hg, hof⟩ := List.forall_mem_cons.mp hof
    obtain ⟨hgoodg, hgood⟩ := List.forall_mem_cons.mp hgood
    obtain ⟨hreadg, hread⟩ := List.forall_mem_cons.mp hread
    obtain ⟨mid, hmid, hmidlength, hmidfilled⟩ := placeOriginals g.1 g.2
      g.1.originals hg (fun o ho => ⟨(hgoodg.within o ho).1, (hgoodg.within o ho).2.1⟩)
      (fun o ho => (slice_of_read hgoodg hreadg ho).1) hlength
    obtain ⟨out', hout, hlength', hfilled⟩ := ih hof hgood hread hmidlength
    refine ⟨out', bind_eq_ok.mpr ⟨mid, hmid, hout⟩, hlength', fun i hi => hfilled i ?_⟩
    rcases hi with hi | ⟨g', hg', o, ho, rfl⟩
    · exact .inl (hmidfilled i (.inl hi))
    · rcases List.mem_cons.mp hg' with rfl | hg'
      · exact .inl (hmidfilled _ (.inr ⟨o, ho, rfl⟩))
      · exact .inr ⟨g', hg', o, ho, rfl⟩

theorem mapM_placed_filled :
    (filled reader ranges).mapM placed = .ok (ranges.map fun range => range.of reader.bytes) := by
  rw [mapM_eq_ok, filled, List.forall₂_map_left_iff]
  exact forall₂_map_self fun _ _ => rfl

/-- **Planned groups that are all read give the bytes of the requests**, which direct reads
give as well. -/
theorem readForPlan_of_reads {groups : List CoalescedRange} {maxSpan : Nat}
    (hplan : Planned ranges maxSpan groups) {buffers : List (List UInt8)}
    (hbuffers : (groups.map CoalescedRange.span).mapM reader.readRange = .ok buffers)
    {stats : CoalescedRangeStats} (hstats : stats.originalRanges = ranges.length) :
    readForPlan reader ⟨stats, groups⟩ = .ok (ranges.map fun range => range.of reader.bytes) ∧
      ranges.mapM reader.readRange = .ok (ranges.map fun range => range.of reader.bytes) := by
  have hall := mapM_eq_ok.mp hbuffers
  rw [List.forall₂_map_left_iff] at hall
  have hlength : buffers.length = groups.length := hall.length_eq.symm
  have hread : ∀ g ∈ groups.zip buffers, reader.readRange g.1.span = .ok g.2 :=
    fun g hg => (List.forall₂_iff_zip.mp hall).2 hg
  have hmem : ∀ g ∈ groups.zip buffers, g.1 ∈ groups := fun g hg => (List.of_mem_zip hg).1
  -- the originals of the groups are the requests
  have hof : ∀ group ∈ groups, ∀ o ∈ group.originals, o.Of ranges := by
    intro group hgroup o ho
    have hin := hplan.perm.mem_iff.mp (List.mem_flatMap.mpr ⟨group, hgroup, ho⟩)
    obtain ⟨x, hx, rfl⟩ := List.mem_map.mp hin
    exact List.mem_zipIdx_iff_getElem?.mp hx
  have hcover : ∀ i < ranges.length, ∃ group ∈ groups, ∃ o ∈ group.originals, o.index = i := by
    intro i hi
    have hin : OriginalRange.mk i ranges[i].start ranges[i].stop ∈
        ranges.zipIdx.map fun x => OriginalRange.mk x.2 x.1.start x.1.stop :=
      List.mem_map.mpr ⟨(ranges[i], i),
        List.mem_zipIdx_iff_getElem?.mpr (List.getElem?_eq_getElem hi), rfl⟩
    obtain ⟨group, hgroup, ho⟩ := List.mem_flatMap.mp (hplan.perm.mem_iff.mpr hin)
    exact ⟨group, hgroup, _, ho, rfl⟩
  have hbuffer : ∀ group ∈ groups, ∃ bytes, (group, bytes) ∈ groups.zip buffers := by
    intro group hgroup
    obtain ⟨i, hi, rfl⟩ := List.getElem_of_mem hgroup
    refine ⟨buffers.get ⟨i, hlength ▸ hi⟩, List.mem_iff_getElem.mpr ⟨i, ?_, List.getElem_zip⟩⟩
    rw [List.length_zip, hlength, Nat.min_self]
    exact hi
  have hdirect : ranges.mapM reader.readRange =
      .ok (ranges.map fun range => range.of reader.bytes) := by
    refine mapM_eq_ok.mpr (forall₂_map_self fun range hrange => ?_)
    obtain ⟨i, hi, rfl⟩ := List.getElem_of_mem hrange
    obtain ⟨group, hgroup, o, ho, rfl⟩ := hcover i hi
    obtain ⟨bytes, hbytes⟩ := hbuffer group hgroup
    have hrange : ranges[o.index] = o.range :=
      Option.some.inj ((List.getElem?_eq_getElem hi).symm.trans (hof group hgroup o ho))
    rw [hrange]
    exact (slice_of_read (hplan.good group hgroup) (hread _ hbytes) ho).2
  refine ⟨?_, hdirect⟩
  unfold readForPlan
  by_cases hzero : stats.originalRanges = 0
  · have hnil : ranges = [] := List.length_eq_zero_iff.mp (hstats ▸ hzero)
    rw [if_pos hzero, hnil]
    rfl
  · rw [if_neg hzero, hbuffers, ok_bind, if_neg (not_not.mpr hlength), hstats]
    obtain ⟨out, hout, houtlength, hfilled⟩ := placeGroups_fills
      (fun g hg o ho => hof g.1 (hmem g hg) o ho) (fun g hg => hplan.good g.1 (hmem g hg)) hread
      (List.length_replicate : (List.replicate ranges.length none).length = ranges.length)
    have heq : out = filled reader ranges := by
      refine List.ext_getElem? fun i => ?_
      by_cases hi : i < ranges.length
      · obtain ⟨group, hgroup, o, ho, hindex⟩ := hcover i hi
        obtain ⟨bytes, hbytes⟩ := hbuffer group hgroup
        exact hfilled i (.inr ⟨_, hbytes, o, ho, hindex⟩)
      · rw [List.getElem?_eq_none (by omega), List.getElem?_eq_none]
        rw [filled, List.length_map]
        omega
    rw [hout, ok_bind, heq, mapM_placed_filled]

end Reads

/-! ## Both planners -/

/-- Lengths are added up as long as the sum is a 64-bit number. -/
theorem totalLen_isOk {ranges : List ByteRange} (hle : ∀ r ∈ ranges, r.start ≤ r.stop)
    (hsum : (ranges.map fun r => r.stop - r.start).sum < 2 ^ 64) :
    ∃ n, totalLen ranges = .ok n := by
  have hgen : ∀ (rs : List ByteRange) (total : Nat), (∀ r ∈ rs, r.start ≤ r.stop) →
      total + (rs.map fun r => r.stop - r.start).sum < 2 ^ 64 →
      ∃ n, rs.foldlM (fun total range => do checkedAdd total (← rangeLen range)) total =
        (.ok n : Except CoveError Nat) := by
    intro rs
    induction rs with
    | nil => exact fun total _ _ => ⟨total, rfl⟩
    | cons r rs ih =>
      intro total hle hsum
      obtain ⟨hr, hrs⟩ := List.forall_mem_cons.mp hle
      rw [List.map_cons, List.sum_cons] at hsum
      have hlen : rangeLen r = .ok (r.stop - r.start) := sub_eq_ok.mpr ⟨hr, rfl⟩
      have hadd : checkedAdd total (r.stop - r.start) = .ok (total + (r.stop - r.start)) :=
        addU64_eq_ok.mpr ⟨by omega, rfl⟩
      rw [List.foldlM_cons, hlen, ok_bind, hadd, ok_bind]
      exact ih _ hrs (by omega)
  exact hgen ranges 0 hle (by omega)

/-- What a coalesced read is to the direct reads. Of its failures it says what they come
from. -/
structure ReadsAgree (reader : RangeReader) (ranges : List ByteRange) (maxSpan : Nat)
    (groups : Except CoveError (List CoalescedRange))
    (read : Except CoveError (List (List UInt8))) : Prop where
  planned : ∀ gs, groups = .ok gs → Planned ranges maxSpan gs
  sound : ∀ out, read = .ok out → ranges.mapM reader.readRange = .ok out
  fails : ∀ e, read = .error e →
    (∃ r ∈ ranges, ∀ out, reader.readRange r ≠ .ok out) ∨
      (∃ r ∈ ranges, r.start = r.stop ∧ reader.bytes.length < r.start) ∨
      2 ^ 64 ≤ (ranges.map fun r => r.stop - r.start).sum ∨
      ∃ gs, groups = .ok gs ∧ 2 ^ 64 ≤ (gs.map fun g => g.stop - g.start).sum

section Planned

variable {reader : RangeReader} {ranges : List ByteRange} {maxSpan : Nat}
  {groups : Except CoveError (List CoalescedRange)}

/-- A read of planned groups. -/
theorem readsAgree_of_planned (hplan : ∀ gs, groups = .ok gs → Planned ranges maxSpan gs)
    (hgroups : (∀ r ∈ ranges, r.start ≤ r.stop) → ∃ gs, groups = .ok gs) :
    ReadsAgree reader ranges maxSpan groups
      ((groups >>= planOfGroups ranges) >>= readForPlan reader) := by
  refine ⟨hplan, fun out h => ?_, fun e h => ?_⟩
  · obtain ⟨plan, hplanned, hread⟩ := bind_eq_ok.mp h
    obtain ⟨gs, hgs, hplanned⟩ := bind_eq_ok.mp hplanned
    obtain ⟨originalBytes, -, hplanned⟩ := bind_eq_ok.mp hplanned
    obtain ⟨coalescedBytes, -, hplanned⟩ := bind_eq_ok.mp hplanned
    obtain rfl := Except.ok.inj hplanned
    by_cases hnil : ranges = []
    · subst hnil
      obtain rfl := Except.ok.inj hread
      rfl
    have hlength : ranges.length ≠ 0 := fun h => hnil (List.length_eq_zero_iff.mp h)
    have hreads := hread
    unfold readForPlan at hreads
    rw [if_neg hlength] at hreads
    obtain ⟨buffers, hbuffers, -⟩ := bind_eq_ok.mp hreads
    obtain ⟨hout, hdirect⟩ := readForPlan_of_reads (hplan gs hgs) hbuffers
      (rfl : (CoalescedRangeStats.mk ranges.length gs.length originalBytes
        coalescedBytes).originalRanges = ranges.length)
    rw [hdirect, ← Except.ok.inj (hout.symm.trans hread)]
  · by_contra hcauses
    simp only [not_or, not_exists, not_and, not_forall, not_not, not_lt, not_le] at hcauses
    obtain ⟨hdirect, hempty, hsum, hspans⟩ := hcauses
    -- every request is a range of the source
    have hrange : ∀ r ∈ ranges, r.start ≤ r.stop ∧ r.stop ≤ reader.bytes.length := by
      intro r hr
      obtain ⟨out, hout⟩ := hdirect r hr
      have hle : r.start ≤ r.stop := by
        by_contra hlt
        exact reader.inverted r (Nat.lt_of_not_le hlt) out hout
      refine ⟨hle, ?_⟩
      by_cases heq : r.start = r.stop
      · exact heq ▸ hempty r hr heq
      · by_contra hpast
        exact reader.past r (Nat.lt_of_le_of_ne hle heq) (Nat.lt_of_not_le hpast) out hout
    obtain ⟨gs, hgs⟩ := hgroups fun r hr => (hrange r hr).1
    have hplanned := hplan gs hgs
    have hstop : ∀ g ∈ gs, g.stop ≤ reader.bytes.length := by
      intro g hg
      obtain ⟨o, ho, hend⟩ := (hplanned.good g hg).ends
      have hin := hplanned.perm.mem_iff.mp (List.mem_flatMap.mpr ⟨g, hg, ho⟩)
      obtain ⟨x, hx, rfl⟩ := List.mem_map.mp hin
      rw [← hend]
      exact (hrange x.1 (List.mem_of_getElem? (List.mem_zipIdx_iff_getElem?.mp hx))).2
    have hbuffers : (gs.map CoalescedRange.span).mapM reader.readRange =
        .ok ((gs.map CoalescedRange.span).map fun range => range.of reader.bytes) := by
      refine mapM_eq_ok.mpr (forall₂_map_self fun span hspan => ?_)
      obtain ⟨g, hg, rfl⟩ := List.mem_map.mp hspan
      exact reader.inside _ (hplanned.good g hg).start_le_stop (hstop g hg)
    obtain ⟨n, hn⟩ := totalLen_isOk (fun r hr => (hrange r hr).1) hsum
    obtain ⟨m, hm⟩ : ∃ m, totalLen (gs.map CoalescedRange.span) = .ok m := by
      refine totalLen_isOk (fun r hr => ?_) ?_
      · obtain ⟨g, hg, rfl⟩ := List.mem_map.mp hr
        exact (hplanned.good g hg).start_le_stop
      · rw [List.map_map]
        exact hspans gs hgs
    have hread := (readForPlan_of_reads hplanned hbuffers
      (rfl : (CoalescedRangeStats.mk ranges.length gs.length n m).originalRanges =
        ranges.length)).1
    rw [hgs, ok_bind, planOfGroups, hn, ok_bind, hm, ok_bind, ok_bind, hread] at h
    cases h

end Planned

/-- **A coalesced read is the direct reads**, for every source, list of ranges, hints and
options: the plan holds every range once, within the span, the bytes are those of the ranges
in order, and a failure comes from a range. -/
theorem readCoalesced_spec (reader : RangeReader) (ranges : List ByteRange)
    (hints : List (Option RangeClusterHint)) (options : RangeCoalescingOptions) :
    ReadsAgree reader ranges options.maxSpan (coalesceRanges ranges options)
        (readCoalescedRanges reader ranges options) ∧
      ReadsAgree reader ranges options.maxSpan (layoutAwareGroups ranges hints options)
        (readLayoutAware reader ranges hints options) :=
  ⟨readsAgree_of_planned (fun _ => planned_coalesceRanges) coalesceRanges_isOk,
    readsAgree_of_planned (fun _ => planned_layoutAwareGroups) layoutAwareGroups_isOk⟩

/-! ## Reads that fail -/

/-- A mapped file of `2 ^ 63` bytes. -/
def longSource : RangeReader :=
  memoryRangeReader (List.replicate (2 ^ 63) 0) (by rw [List.length_replicate]; omega)

/-- **Two reads fail that succeed range by range**: an empty range past the end of a file is
merged with a range before it, and the lengths of two ranges add up to more than 64 bits. -/
theorem coalesced_reads_fail :
    ([⟨0, 1⟩, ⟨2, 2⟩].mapM (localFileRangeReader [65] (by decide)).readRange = .ok [[65], []] ∧
      readCoalescedRanges (localFileRangeReader [65] (by decide)) [⟨0, 1⟩, ⟨2, 2⟩] .default =
        .error .bufferTooShort) ∧
    (∃ out, [⟨0, 2 ^ 63⟩, ⟨0, 2 ^ 63⟩].mapM longSource.readRange = .ok out) ∧
      readCoalescedRanges longSource [⟨0, 2 ^ 63⟩, ⟨0, 2 ^ 63⟩] .default =
        .error .arithOverflow := by
  refine ⟨⟨by decide +kernel, by decide +kernel⟩, ?_, ?_⟩
  · have hread := longSource.inside ⟨0, 2 ^ 63⟩ (Nat.zero_le _) (by
      show 2 ^ 63 ≤ (List.replicate (2 ^ 63) (0 : UInt8)).length
      rw [List.length_replicate])
    exact ⟨_, mapM_eq_ok.mpr (.cons hread (.cons hread .nil))⟩
  · have hplan : buildCoalescedRangePlan [⟨0, 2 ^ 63⟩, ⟨0, 2 ^ 63⟩] .default =
        .error .arithOverflow := by decide +kernel
    unfold readCoalescedRanges
    rw [hplan]
    rfl

end Cove
