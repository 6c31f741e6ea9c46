import Cove.Lib.CollectedMap
import Cove.Lib.JsonEq
import Cove.Map.MaterializedRows

/-!
# What conflict resolution takes away

The candidates for a property of an object compete: all but the winner lose under source
priority, the nulls lose where conflicts are rejected. Resolution takes the losers off
their rows and reports each of them.

- `losesIn`: a candidate loses in its group.
- `resolvePropertyConflicts_spec`: **the losers go, each with a report**.
- `survivor_least`, `survivor_unique`, `survivor_exists`: what is left of a group.
-/

namespace Cove

open Checked

/-! ## Places -/

/-- The row and the property that a candidate is at. -/
def PropertyCandidate.place (c : PropertyCandidate) : Nat × Nat := (c.rowIndex, c.propertyId)

def PropertyRemoval.place (r : PropertyRemoval) : Nat × Nat := (r.rowIndex, r.propertyId)

/-- Every row has a property at most once. -/
def DistinctIds (rows : List ObjectRow) : Prop :=
  ∀ row ∈ rows, (row.properties.map Prod.fst).Nodup

/-- The properties of a row as candidates. -/
def ObjectRow.candidates (row : ObjectRow) (rowIndex : Nat) : List PropertyCandidate :=
  row.properties.map fun e => ⟨rowIndex, row.goid, e.1, e.2⟩

/-- The candidates of the rows from an index on. -/
def candidatesFrom (start : Nat) (rows : List ObjectRow) : List PropertyCandidate :=
  (rows.zipIdx start).flatMap fun r => r.1.candidates r.2

theorem propertyCandidates_eq (rows : List ObjectRow) :
    propertyCandidates rows = candidatesFrom 0 rows := rfl

theorem candidatesFrom_cons (start : Nat) (row : ObjectRow) (rows : List ObjectRow) :
    candidatesFrom start (row :: rows) =
      row.candidates start ++ candidatesFrom (start + 1) rows := rfl

variable {rows : List ObjectRow} {group : List PropertyCandidate} {removals : List PropertyRemoval}

variable {start : Nat}

theorem le_rowIndex {c : PropertyCandidate}
    (h : c ∈ candidatesFrom start rows) : start ≤ c.rowIndex := by
  obtain ⟨⟨row, i⟩, hmem, hc⟩ := List.mem_flatMap.mp h
  obtain ⟨e, -, rfl⟩ := List.mem_map.mp hc
  exact List.le_snd_of_mem_zipIdx hmem

theorem mem_propertyCandidates {c : PropertyCandidate} :
    c ∈ propertyCandidates rows ↔ ∃ row, rows[c.rowIndex]? = some row ∧ c.goid = row.goid ∧
      (c.propertyId, c.property) ∈ row.properties := by
  rw [propertyCandidates_eq]
  constructor
  · intro h
    obtain ⟨⟨row, i⟩, hmem, hc⟩ := List.mem_flatMap.mp h
    obtain ⟨e, he, rfl⟩ := List.mem_map.mp hc
    exact ⟨row, List.mem_zipIdx_iff_getElem?.mp hmem, rfl, he⟩
  · rintro ⟨row, hrow, hgoid, hmem⟩
    refine List.mem_flatMap.mpr ⟨(row, c.rowIndex), List.mem_zipIdx_iff_getElem?.mpr hrow, ?_⟩
    refine List.mem_map.mpr ⟨_, hmem, ?_⟩
    rw [← hgoid]

/-- Candidates of one place are the same. -/
theorem nodup_candidatePlaces (hids : DistinctIds rows) (start : Nat) :
    ((candidatesFrom start rows).map PropertyCandidate.place).Nodup := by
  induction rows generalizing start with
  | nil => exact .nil
  | cons row rows ih =>
    obtain ⟨hrow, hrows⟩ := List.forall_mem_cons.mp hids
    rw [candidatesFrom_cons, List.map_append]
    refine List.Nodup.append ?_ (ih hrows (start + 1)) ?_
    · have hplaces : (row.candidates start).map PropertyCandidate.place =
          (row.properties.map Prod.fst).map fun id => (start, id) := by
        unfold ObjectRow.candidates
        rw [List.map_map, List.map_map]
        rfl
      rw [hplaces]
      exact hrow.map fun _ _ h => (Prod.mk.inj h).2
    · intro place hleft hright
      obtain ⟨c, hc, rfl⟩ := List.mem_map.mp hleft
      obtain ⟨e, -, rfl⟩ := List.mem_map.mp hc
      obtain ⟨c', hc', hplace⟩ := List.mem_map.mp hright
      have hle := le_rowIndex hc'
      have heq : c'.rowIndex = start := (Prod.mk.inj hplace).1
      omega

/-- The candidate of a place. -/
theorem filter_place {candidates : List PropertyCandidate}
    (h : (candidates.map PropertyCandidate.place).Nodup) {c : PropertyCandidate}
    (hc : c ∈ candidates) : (candidates.filter fun d => d.place = c.place) = [c] := by
  induction candidates with
  | nil => cases hc
  | cons d candidates ih =>
    obtain ⟨hd, hrest⟩ := List.nodup_cons.mp h
    rcases List.mem_cons.mp hc with rfl | hc
    · rw [List.filter_cons, if_pos (decide_eq_true rfl), List.filter_eq_nil_iff.mpr]
      intro e he heq
      exact hd (of_decide_eq_true heq ▸ List.mem_map_of_mem he)
    · have hne : d.place ≠ c.place := fun heq => hd (heq ▸ List.mem_map_of_mem hc)
      rw [List.filter_cons, if_neg (by simpa using hne), ih hrest hc]

/-! ## Removals -/

/-- A value offered for a property of an object. -/
structure PropertyOffer where
  goid : Id16
  propertyId : Nat
  property : MaterializedProperty

/-- The evidence of a value that is taken off its row. -/
def PropertyOffer.suppressed (o : PropertyOffer) (reason : Text) : Json :=
  Json.ofMembers [
    ("source_id".toList, .string o.property.sourceId),
    ("source_row_identity".toList,
      .string (colon o.property.sourceId (TextOps.natText o.property.sourceRowIndex))),
    ("rule_id".toList, .string "property_conflict_resolution".toList),
    ("assertion_id".toList, .string o.property.assertionId.val),
    ("output_object_id".toList, .string (hexEncode o.goid)),
    ("property_id".toList, .ofNat o.propertyId),
    ("property_name".toList, .string o.property.entry.propertyName),
    ("suppressed".toList, .bool true),
    ("suppressed_reason".toList, .string reason),
    ("suppressed_value".toList, o.property.value)]

def PropertyCandidate.offer (c : PropertyCandidate) : PropertyOffer :=
  ⟨c.goid, c.propertyId, c.property⟩

/-- The values that the properties of a row offer. -/
def ObjectRow.offers (row : ObjectRow) : List PropertyOffer :=
  row.properties.map fun e => ⟨row.goid, e.1, e.2⟩

theorem offers_candidatesFrom (start : Nat) (rows : List ObjectRow) :
    (candidatesFrom start rows).map PropertyCandidate.offer = rows.flatMap ObjectRow.offers := by
  induction rows generalizing start with
  | nil => rfl
  | cons row rows ih =>
    rw [candidatesFrom_cons, List.map_append, ih, List.flatMap_cons]
    congr 1
    unfold ObjectRow.candidates
    rw [List.map_map]
    rfl

theorem candidatesFrom_set {row : ObjectRow} {i : Nat}
    (h : rows[i]? = some row) (propertyId : Nat) :
    candidatesFrom start (rows.set i
        { row with properties := AssocMap.erase propertyId row.properties }) =
      (candidatesFrom start rows).filter fun c => c.place ≠ (start + i, propertyId) := by
  induction rows generalizing i start with
  | nil => cases h
  | cons head rows ih =>
    cases i with
    | zero =>
      obtain rfl : head = row := Option.some.inj h
      rw [List.set_cons_zero, candidatesFrom_cons, candidatesFrom_cons, List.filter_append]
      congr 1
      · unfold ObjectRow.candidates AssocMap.erase
        rw [List.filter_map]
        refine congrArg _ (List.filter_congr fun e _ => ?_)
        simp [PropertyCandidate.place]
      · refine (List.filter_eq_self.mpr fun c hc => ?_).symm
        have hle := le_rowIndex hc
        refine decide_eq_true fun hplace => ?_
        have heq : c.rowIndex = start + 0 := (Prod.mk.inj hplace).1
        omega
    | succ i =>
      rw [List.set_cons_succ, candidatesFrom_cons, candidatesFrom_cons, List.filter_append,
        ih h, Nat.add_assoc, Nat.add_comm 1 i]
      congr 1
      refine (List.filter_eq_self.mpr fun c hc => ?_).symm
      obtain ⟨e, -, rfl⟩ := List.mem_map.mp hc
      refine decide_eq_true fun hplace => ?_
      have heq : start = start + (i + 1) := (Prod.mk.inj hplace).1
      omega

/-- One removal: the candidate of its place goes and is reported. -/
theorem applyRemoval_spec (hids : DistinctIds rows) (evidence : List Json) (r : PropertyRemoval) :
    DistinctIds (applyRemoval (rows, evidence) r).1 ∧
    propertyCandidates (applyRemoval (rows, evidence) r).1 =
      ((propertyCandidates rows).filter fun c => c.place ≠ r.place) ∧
    (applyRemoval (rows, evidence) r).2 =
      evidence ++ ((propertyCandidates rows).filter fun c => c.place = r.place).map
        fun c => c.offer.suppressed r.reason := by
  have hnone (h : ∀ c ∈ propertyCandidates rows, c.place ≠ r.place) :
      DistinctIds rows ∧
      propertyCandidates rows = ((propertyCandidates rows).filter fun c => c.place ≠ r.place) ∧
      evidence = evidence ++ ((propertyCandidates rows).filter fun c => c.place = r.place).map
        fun c => c.offer.suppressed r.reason := by
    refine ⟨hids, (List.filter_eq_self.mpr fun c hc => decide_eq_true (h c hc)).symm, ?_⟩
    rw [List.filter_eq_nil_iff.mpr fun c hc heq => h c hc (of_decide_eq_true heq)]
    exact (List.append_nil _).symm
  cases hrow : rows[r.rowIndex]? with
  | none =>
    have hsame : applyRemoval (rows, evidence) r = (rows, evidence) := by
      unfold applyRemoval
      rw [hrow]
    rw [hsame]
    refine hnone fun c hc hplace => ?_
    obtain ⟨row, hmem, -⟩ := mem_propertyCandidates.mp hc
    have hindex : c.rowIndex = r.rowIndex := (Prod.mk.inj hplace).1
    rw [hindex, hrow] at hmem
    cases hmem
  | some row =>
    cases hget : AssocMap.get r.propertyId row.properties with
    | none =>
      have hsame : applyRemoval (rows, evidence) r = (rows, evidence) := by
        unfold applyRemoval
        rw [hrow]
        dsimp only
        rw [hget]
      rw [hsame]
      refine hnone fun c hc hplace => ?_
      obtain ⟨row', hrow', -, hmem⟩ := mem_propertyCandidates.mp hc
      obtain ⟨hindex, hid⟩ := Prod.mk.inj hplace
      have hindex : c.rowIndex = r.rowIndex := hindex
      have hid : c.propertyId = r.propertyId := hid
      rw [hindex, hrow] at hrow'
      obtain rfl := Option.some.inj hrow'
      have hsome := AssocMap.get_isSome.mpr (List.mem_map_of_mem (f := Prod.fst) hmem)
      rw [show (c.propertyId, c.property).1 = r.propertyId from hid, hget] at hsome
      cases hsome
    | some property =>
      have happly : applyRemoval (rows, evidence) r =
          (rows.set r.rowIndex
            { row with properties := AssocMap.erase r.propertyId row.properties },
            evidence ++ [PropertyOffer.suppressed ⟨row.goid, r.propertyId, property⟩ r.reason]) := by
        unfold applyRemoval
        rw [hrow]
        dsimp only
        rw [hget]
        rfl
      have hmem : ⟨r.rowIndex, row.goid, r.propertyId, property⟩ ∈ propertyCandidates rows :=
        mem_propertyCandidates.mpr ⟨row, hrow, rfl, AssocMap.mem_of_get hget⟩
      rw [happly]
      refine ⟨fun row' hrow' => ?_, ?_, ?_⟩
      · rcases List.mem_or_eq_of_mem_set hrow' with hmem | rfl
        · exact hids row' hmem
        · exact (hids row (List.mem_of_getElem? hrow)).sublist (List.filter_sublist.map _)
      · show candidatesFrom 0 _ = _
        rw [candidatesFrom_set hrow, Nat.zero_add]
        rfl
      · have hone := filter_place (nodup_candidatePlaces hids 0) hmem
        show evidence ++ _ = _
        rw [show (fun c : PropertyCandidate => decide (c.place = r.place)) =
          fun c => decide (c.place = PropertyCandidate.place
            ⟨r.rowIndex, row.goid, r.propertyId, property⟩) from rfl, propertyCandidates_eq, hone]
        rfl

/-- The removals of the losers, one after the other. -/
theorem applyRemovals_spec (hids : DistinctIds rows)
    (evidence : List Json) {losers : List PropertyCandidate}
    (hnodup : (losers.map PropertyCandidate.place).Nodup)
    (hmem : ∀ c ∈ losers, c ∈ propertyCandidates rows) (reason : PropertyCandidate → Text) :
    propertyCandidates ((losers.map fun c => c.removal (reason c)).foldl applyRemoval
        (rows, evidence)).1 =
      ((propertyCandidates rows).filter fun c => c.place ∉ losers.map PropertyCandidate.place) ∧
    ((losers.map fun c => c.removal (reason c)).foldl applyRemoval (rows, evidence)).2 =
      evidence ++ losers.map fun c => c.offer.suppressed (reason c) := by
  induction losers generalizing rows evidence with
  | nil => exact ⟨(List.filter_eq_self.mpr fun c _ => by simp).symm, (List.append_nil _).symm⟩
  | cons c losers ih =>
    obtain ⟨hc, hlosers⟩ := List.nodup_cons.mp hnodup
    obtain ⟨hin, hrest⟩ := List.forall_mem_cons.mp hmem
    obtain ⟨hids', hcandidates, hevidence⟩ :=
      applyRemoval_spec hids evidence (c.removal (reason c))
    have hplace : (c.removal (reason c)).place = c.place := rfl
    rw [hplace] at hcandidates hevidence
    rw [propertyCandidates_eq rows, filter_place (nodup_candidatePlaces hids 0) hin] at hevidence
    have hne : ∀ d ∈ losers, d.place ≠ c.place := fun d hd heq =>
      hc (heq ▸ List.mem_map_of_mem hd)
    obtain ⟨hleft, hreports⟩ := ih hids' (applyRemoval (rows, evidence) (c.removal (reason c))).2
      hlosers fun d hd => by
        rw [hcandidates]
        exact List.mem_filter.mpr ⟨hrest d hd, decide_eq_true (hne d hd)⟩
    simp only [List.map_cons, List.foldl_cons]
    refine ⟨hleft.trans ?_, hreports.trans ?_⟩
    · rw [hcandidates, List.filter_filter]
      refine List.filter_congr fun d _ => ?_
      rw [Bool.eq_iff_iff]
      simp only [Bool.and_eq_true, decide_eq_true_iff, List.mem_cons, not_or]
      exact and_comm
    · rw [hevidence, List.append_assoc]
      rfl

/-! ## Losers -/

/-- Candidates are ranked by the order that resolution ranks them by. -/
local instance conflictPreorder : Preorder Int := priorityPreorder

/-- The candidates of a group that have a value. -/
def nonNullOf (group : List PropertyCandidate) : List PropertyCandidate :=
  group.filter fun d => !d.property.value.isNull

/-- A candidate loses in its group: to the winner of source priority, or as a null. -/
def losesIn (group : List PropertyCandidate) (c : PropertyCandidate) : Bool :=
  decide (1 < group.length) &&
    if c.property.conflictPolicy = "reject_conflict".toList then
      c.property.value.isNull && !(nonNullOf group).isEmpty
    else ((nonNullOf group).argmin PropertyCandidate.priorityKey).any fun winner =>
      c.rowIndex ≠ winner.rowIndex ∨ c.property.assertionId ≠ winner.property.assertionId

/-- The reason a value is taken away under its policy. -/
def PropertyOffer.reason (o : PropertyOffer) : Text :=
  if o.property.conflictPolicy = "reject_conflict".toList then
    "null_does_not_overwrite_non_null".toList
  else "source_priority_wins".toList

/-- The evidence of a value taken away under its policy. -/
def PropertyOffer.report (o : PropertyOffer) : Json := o.suppressed o.reason

/-- What resolution checks of a group that has several candidates. -/
structure GroupPasses (group : List PropertyCandidate) : Prop where
  onePolicy : 1 < group.length → ∀ c ∈ group, ∀ d ∈ group,
    c.property.conflictPolicy = d.property.conflictPolicy
  equal : 1 < group.length → ∀ c ∈ group,
    c.property.conflictPolicy = "reject_conflict".toList →
      ∀ d ∈ nonNullOf group, ∀ d' ∈ nonNullOf group,
        d.property.value.beq d'.property.value = true

theorem losesIn_of_length_le (h : group.length ≤ 1)
    (c : PropertyCandidate) : losesIn group c = false := by
  unfold losesIn
  rw [decide_eq_false (not_lt.mpr h), Bool.false_and]

theorem removalsUnder_spec {policy : Text} {goid : Id16} {propertyId : Nat}
    (hlength : 1 < group.length)
    (hpolicy : ∀ c ∈ group, c.property.conflictPolicy = policy)
    (h : removalsUnder policy goid propertyId group (nonNullOf group) = .ok removals) :
    removals = (group.filter (losesIn group)).map (fun c => c.removal c.offer.reason) ∧
    (policy = "reject_conflict".toList → ∀ d ∈ nonNullOf group, ∀ d' ∈ nonNullOf group,
      d.property.value.beq d'.property.value = true) := by
  have hloses (c : PropertyCandidate) (hc : c ∈ group) : losesIn group c =
      if policy = "reject_conflict".toList then
        c.property.value.isNull && !(nonNullOf group).isEmpty
      else ((nonNullOf group).argmin PropertyCandidate.priorityKey).any fun winner =>
        c.rowIndex ≠ winner.rowIndex ∨ c.property.assertionId ≠ winner.property.assertionId := by
    unfold losesIn
    rw [hpolicy c hc, decide_eq_true hlength, Bool.true_and]
  cases hvalues : nonNullOf group with
  | nil =>
    rw [hvalues] at h hloses
    obtain rfl := Except.ok.inj h
    refine ⟨?_, fun _ d hd => (List.not_mem_nil hd).elim⟩
    have hfilter : group.filter (losesIn group) = [] := by
      refine List.filter_eq_nil_iff.mpr fun c hc => ?_
      rw [hloses c hc]
      split
      · rw [List.isEmpty_nil, Bool.not_true, Bool.and_false]
        exact Bool.false_ne_true
      · exact Bool.false_ne_true
    rw [hfilter]
    rfl
  | cons first rest =>
    rw [hvalues] at h hloses
    by_cases hreject : policy = "reject_conflict".toList
    · unfold removalsUnder at h
      dsimp only at h
      rw [if_pos hreject] at h
      obtain ⟨hany, h⟩ := ite_error_eq_ok.mp h
      obtain rfl := Except.ok.inj h
      constructor
      · have hfilter : group.filter (losesIn group) =
            group.filter fun c => c.property.value.isNull := by
          refine List.filter_congr fun c hc => ?_
          rw [hloses c hc, if_pos hreject, List.isEmpty_cons, Bool.not_false, Bool.and_true]
        rw [hfilter]
        refine List.map_congr_left fun c hc => ?_
        have hreason : c.offer.reason = "null_does_not_overwrite_non_null".toList :=
          if_pos ((hpolicy c (List.mem_filter.mp hc).1).trans hreject)
        rw [hreason]
      · intro _ d hd d' hd'
        have hfirst : ∀ e ∈ first :: rest,
            e.property.value.beq first.property.value = true := by
          intro e he
          by_contra hne
          exact hany (List.any_eq_true.mpr ⟨e, he, by simpa using hne⟩)
        exact Json.beq_of_common (hfirst d hd) (hfirst d' hd')
    · refine ⟨?_, fun heq => absurd heq hreject⟩
      unfold removalsUnder at h
      dsimp only at h
      rw [if_neg hreject] at h
      cases hwinner : (first :: rest).argmin PropertyCandidate.priorityKey with
      | none =>
        rw [hwinner] at h
        cases h
      | some winner =>
        rw [hwinner] at h hloses
        obtain rfl := Except.ok.inj h
        have hfilter : group.filter (losesIn group) = group.filter fun c =>
            c.rowIndex ≠ winner.rowIndex ∨
              c.property.assertionId ≠ winner.property.assertionId := by
          refine List.filter_congr fun c hc => ?_
          rw [hloses c hc, if_neg hreject]
          rfl
        rw [hfilter]
        refine List.map_congr_left fun c hc => ?_
        have hreason : c.offer.reason = "source_priority_wins".toList :=
          if_neg fun heq => hreject ((hpolicy c (List.mem_filter.mp hc).1).symm.trans heq)
        rw [hreason]

/-- One group: its losers are removed, the rest of the checks pass. -/
theorem removalsOfGroup_spec {key : Id16 ×ₗ Nat} (h : removalsOfGroup key group = .ok removals) :
    removals = (group.filter (losesIn group)).map (fun c => c.removal c.offer.reason) ∧
      GroupPasses group := by
  have hsmall (hlength : group.length ≤ 1) (hnone : removals = []) :
      removals = (group.filter (losesIn group)).map (fun c => c.removal c.offer.reason) ∧
        GroupPasses group := by
    refine ⟨?_, fun hlt => absurd hlt (not_lt.mpr hlength), fun hlt =>
      absurd hlt (not_lt.mpr hlength)⟩
    rw [List.filter_eq_nil_iff.mpr fun c _ => by simp [losesIn_of_length_le hlength], hnone]
    rfl
  rcases group with _ | ⟨first, _ | ⟨second, rest⟩⟩
  · exact hsmall (Nat.zero_le _) (Except.ok.inj h).symm
  · exact hsmall le_rfl (Except.ok.inj h).symm
  · obtain ⟨hany, h⟩ := ite_error_eq_ok.mp h
    obtain ⟨⟨⟩, -, h⟩ := bind_eq_ok.mp h
    have hpolicy : ∀ c ∈ first :: second :: rest,
        c.property.conflictPolicy = first.property.conflictPolicy := by
      intro c hc
      by_contra hne
      exact hany (List.any_eq_true.mpr ⟨c, hc, decide_eq_true hne⟩)
    have hlength : 1 < (first :: second :: rest).length := by simp
    obtain ⟨hremovals, hequal⟩ := removalsUnder_spec hlength hpolicy h
    refine ⟨hremovals, fun _ c hc d hd => (hpolicy c hc).trans (hpolicy d hd).symm, ?_⟩
    exact fun _ c hc hreject => hequal ((hpolicy c hc).symm.trans hreject)

/-! ## Resolution -/

/-- The candidates that compete with a candidate. -/
def rivals (candidates : List PropertyCandidate) (c : PropertyCandidate) :
    List PropertyCandidate :=
  candidates.filter fun d => d.key = c.key

/-- A candidate loses among all candidates. -/
def loses (candidates : List PropertyCandidate) (c : PropertyCandidate) : Bool :=
  losesIn (rivals candidates c) c

theorem propertyRemovals_spec (h : propertyRemovals rows = .ok removals) :
    (∃ losers : List PropertyCandidate, removals = losers.map (fun c => c.removal c.offer.reason) ∧
      losers.Perm ((propertyCandidates rows).filter (loses (propertyCandidates rows)))) ∧
    ∀ c ∈ propertyCandidates rows, GroupPasses (rivals (propertyCandidates rows) c) := by
  obtain ⟨parts, hparts, h⟩ := bind_eq_ok.mp h
  obtain rfl := Except.ok.inj h
  have hgroup : ∀ g ∈ Grouping.grouped PropertyCandidate.key (propertyCandidates rows),
      ∀ c ∈ g.2, rivals (propertyCandidates rows) c = g.2 := by
    rintro ⟨key, group⟩ hg c hc
    obtain ⟨hgroup, -⟩ := Grouping.mem_grouped.mp hg
    have hkey : c.key = key := by
      rw [show (key, group).2 = group from rfl, hgroup] at hc
      exact of_decide_eq_true (List.mem_filter.mp hc).2
    show (propertyCandidates rows).filter (fun d => d.key = c.key) = group
    rw [hkey, hgroup]
  constructor
  · refine ⟨((Grouping.grouped PropertyCandidate.key (propertyCandidates rows)).flatMap
      Prod.snd).filter (loses (propertyCandidates rows)), ?_,
      (Grouping.flatMap_grouped_perm _ _).filter _⟩
    have hall : List.Forall₂ (fun g part => part =
        (g.2.filter (loses (propertyCandidates rows))).map fun c => c.removal c.offer.reason)
        (Grouping.grouped PropertyCandidate.key (propertyCandidates rows)) parts := by
      refine forall₂_imp_of_mem (fun g hg part hpart => ?_) (mapM_eq_ok.mp hparts)
      rw [(removalsOfGroup_spec hpart).1]
      refine congrArg _ (List.filter_congr fun c hc => ?_)
      show _ = losesIn (rivals (propertyCandidates rows) c) c
      rw [hgroup g hg c hc]
    have hparts : parts = (Grouping.grouped PropertyCandidate.key (propertyCandidates rows)).map
        fun g => (g.2.filter (loses (propertyCandidates rows))).map fun c =>
          c.removal c.offer.reason := by
      have h := map_eq_of_forall₂ (f := id) (fun _ _ h => h) hall
      rwa [List.map_id] at h
    rw [hparts, ← List.flatMap_def, List.filter_flatMap, List.map_flatMap]
  · intro c hc
    obtain ⟨group, hg⟩ : ∃ group, (c.key, group) ∈
        Grouping.grouped PropertyCandidate.key (propertyCandidates rows) := by
      obtain ⟨g, hg, hkey⟩ := List.mem_map.mp
        (Iff.mpr Grouping.mem_keys_grouped ⟨c, hc, rfl⟩ :
          c.key ∈ (Grouping.grouped PropertyCandidate.key (propertyCandidates rows)).map Prod.fst)
      exact ⟨g.2, hkey ▸ hg⟩
    obtain ⟨part, -, hpart⟩ := exists_of_mapM_mem hparts hg
    rw [show rivals (propertyCandidates rows) c = group from (Grouping.mem_grouped.mp hg).1.symm]
    exact (removalsOfGroup_spec hpart).2

/-- **The losers go, each with a report**, and the others stay. -/
theorem resolvePropertyConflicts_spec {out out' : ConversionOutput}
    (hids : DistinctIds out.objectRows) (h : resolvePropertyConflicts out = .ok out') :
    propertyCandidates out'.objectRows = ((propertyCandidates out.objectRows).filter fun c =>
      !loses (propertyCandidates out.objectRows) c) ∧
    (∃ losers : List PropertyCandidate, losers.Perm ((propertyCandidates out.objectRows).filter
        (loses (propertyCandidates out.objectRows))) ∧
      out'.evidenceEntries = out.evidenceEntries ++ losers.map fun c => c.offer.report) ∧
    ∀ c ∈ propertyCandidates out.objectRows,
      GroupPasses (rivals (propertyCandidates out.objectRows) c) := by
  obtain ⟨removals, hremovals, h⟩ := bind_eq_ok.mp h
  obtain rfl := Except.ok.inj h
  obtain ⟨⟨losers, rfl, hperm⟩, hpasses⟩ := propertyRemovals_spec hremovals
  have hplaces := nodup_candidatePlaces hids 0
  have hnodup : (losers.map PropertyCandidate.place).Nodup :=
    (hperm.map _).nodup_iff.mpr (hplaces.sublist (List.filter_sublist.map _))
  obtain ⟨hleft, hreports⟩ := applyRemovals_spec hids out.evidenceEntries hnodup
    (fun c hc => (List.mem_filter.mp (hperm.mem_iff.mp hc)).1) (fun c => c.offer.reason)
  refine ⟨hleft.trans (List.filter_congr fun c hc => ?_), ⟨losers, hperm, hreports⟩, hpasses⟩
  rw [Bool.eq_iff_iff, decide_eq_true_iff, Bool.not_eq_true', ← Bool.not_eq_true, not_iff_not]
  constructor
  · intro hmem
    obtain ⟨d, hd, hplace⟩ := List.mem_map.mp hmem
    obtain ⟨hdin, hloses⟩ := List.mem_filter.mp (hperm.mem_iff.mp hd)
    rwa [List.inj_on_of_nodup_map hplaces hdin hc hplace] at hloses
  · intro hloses
    exact List.mem_map_of_mem (hperm.mem_iff.mpr (List.mem_filter.mpr ⟨hc, hloses⟩))

/-! ## What is left of a group -/

def PropertyOffer.hasValue (o : PropertyOffer) : Bool := !o.property.value.isNull

/-- The object and the property of a value. -/
def PropertyOffer.key (o : PropertyOffer) : Id16 × Nat := (o.goid, o.propertyId)

/-- Source priority, source order and row, as they decide between values. -/
def PropertyOffer.rank (o : PropertyOffer) : Int ×ₗ Nat ×ₗ Nat :=
  toLex (o.property.sourcePriority,
    toLex (o.property.sourceOrder, o.property.sourceRowIndex))

theorem rank_le {c d : PropertyCandidate} (h : c.priorityKey ≤ d.priorityKey) :
    c.offer.rank ≤ d.offer.rank := by
  rcases Prod.Lex.le_iff.mp h with hlt | ⟨heq, h⟩
  · exact Prod.Lex.le_iff.mpr (.inl hlt)
  · refine Prod.Lex.le_iff.mpr (.inr ⟨heq, ?_⟩)
    rcases Prod.Lex.le_iff.mp h with hlt | ⟨heq, h⟩
    · exact Prod.Lex.le_iff.mpr (.inl hlt)
    · refine Prod.Lex.le_iff.mpr (.inr ⟨heq, ?_⟩)
      rcases Prod.Lex.le_iff.mp h with hlt | ⟨heq, -⟩
      · exact le_of_lt hlt
      · exact le_of_eq heq

theorem key_eq_iff {c d : PropertyCandidate} : c.key = d.key ↔ c.offer.key = d.offer.key :=
  toLex.injective.eq_iff

section

variable {candidates : List PropertyCandidate} {c d : PropertyCandidate}

theorem mem_rivals : d ∈ rivals candidates c ↔ d ∈ candidates ∧ d.offer.key = c.offer.key := by
  rw [← key_eq_iff]
  exact List.mem_filter.trans (and_congr_right fun _ => decide_eq_true_iff)

theorem mem_nonNullOf :
    d ∈ nonNullOf group ↔ d ∈ group ∧ d.offer.hasValue = true := List.mem_filter

theorem eq_of_length_le_one {α : Type u} {l : List α} (h : l.length ≤ 1) {a b : α} (ha : a ∈ l)
    (hb : b ∈ l) : a = b := by
  obtain ⟨i, hi, rfl⟩ := List.getElem_of_mem ha
  obtain ⟨j, hj, rfl⟩ := List.getElem_of_mem hb
  obtain rfl : i = j := by omega
  rfl

theorem rivals_eq (h : d.offer.key = c.offer.key) : rivals candidates d = rivals candidates c := by
  show candidates.filter _ = candidates.filter _
  rw [key_eq_iff.mpr h]

/-- Under source priority a group with a value has a winner, of least rank, that stays. -/
theorem exists_winner (hc : c ∈ candidates) (hvalue : c.offer.hasValue = true) :
    ∃ winner, (nonNullOf (rivals candidates c)).argmin PropertyCandidate.priorityKey =
        some winner ∧ winner ∈ candidates ∧ winner.offer.key = c.offer.key ∧
      winner.offer.hasValue = true ∧
      ∀ d ∈ candidates, d.offer.key = c.offer.key → d.offer.hasValue = true →
        winner.offer.rank ≤ d.offer.rank := by
  have hmem : c ∈ nonNullOf (rivals candidates c) :=
    mem_nonNullOf.mpr ⟨mem_rivals.mpr ⟨hc, rfl⟩, hvalue⟩
  cases hwinner : (nonNullOf (rivals candidates c)).argmin PropertyCandidate.priorityKey with
  | none => exact absurd (List.argmin_eq_none.mp hwinner) (List.ne_nil_of_mem hmem)
  | some winner =>
    obtain ⟨hrival, hhas⟩ := mem_nonNullOf.mp (List.argmin_mem hwinner)
    obtain ⟨hin, hkey⟩ := mem_rivals.mp hrival
    refine ⟨winner, rfl, hin, hkey, hhas, fun d hd hdkey hdvalue => ?_⟩
    exact rank_le (List.le_of_mem_argmin
      (mem_nonNullOf.mpr ⟨mem_rivals.mpr ⟨hd, hdkey⟩, hdvalue⟩) hwinner)

/-- What stays of a contested group under source priority is its winner. -/
theorem eq_winner (hplaces : (candidates.map PropertyCandidate.place).Nodup)
    (hpolicy : c.property.conflictPolicy ≠ "reject_conflict".toList)
    (hlength : 1 < (rivals candidates c).length) {winner : PropertyCandidate}
    (hwinner : (nonNullOf (rivals candidates c)).argmin PropertyCandidate.priorityKey =
      some winner) (hc : c ∈ candidates) :
    loses candidates c = false ↔ c = winner := by
  obtain ⟨hin, hkey⟩ := mem_rivals.mp (mem_nonNullOf.mp (List.argmin_mem hwinner)).1
  unfold loses losesIn
  rw [decide_eq_true hlength, Bool.true_and, if_neg hpolicy, hwinner, Option.any_some,
    decide_eq_false_iff_not, not_or, not_not, not_not]
  constructor
  · rintro ⟨hrow, -⟩
    exact List.inj_on_of_nodup_map hplaces hc hin
      (Prod.ext hrow (congrArg Prod.snd hkey).symm)
  · rintro rfl
    exact ⟨rfl, rfl⟩

/-- A value that stays has the least rank of the values of its group. -/
theorem survivor_least (hplaces : (candidates.map PropertyCandidate.place).Nodup)
    (hpolicy : c.property.conflictPolicy ≠ "reject_conflict".toList) (hc : c ∈ candidates)
    (hvalue : c.offer.hasValue = true) (hstays : loses candidates c = false)
    (hd : d ∈ candidates) (hkey : d.offer.key = c.offer.key)
    (hdvalue : d.offer.hasValue = true) : c.offer.rank ≤ d.offer.rank := by
  by_cases hlength : 1 < (rivals candidates c).length
  · obtain ⟨winner, hwinner, -, -, -, hleast⟩ := exists_winner hc hvalue
    obtain rfl := (eq_winner hplaces hpolicy hlength hwinner hc).mp hstays
    exact hleast d hd hkey hdvalue
  · have hone := eq_of_length_le_one (not_lt.mp hlength) (mem_rivals.mpr ⟨hc, rfl⟩)
      (mem_rivals.mpr ⟨hd, hkey⟩)
    exact le_of_eq (congrArg (fun c => c.offer.rank) hone)

/-- Two values of a group that stay under source priority are the same. -/
theorem survivor_unique (hplaces : (candidates.map PropertyCandidate.place).Nodup)
    (hpasses : GroupPasses (rivals candidates c))
    (hpolicy : c.property.conflictPolicy ≠ "reject_conflict".toList) (hc : c ∈ candidates)
    (hvalue : c.offer.hasValue = true) (hstays : loses candidates c = false)
    (hd : d ∈ candidates) (hkey : d.offer.key = c.offer.key)
    (hdstays : loses candidates d = false) : d = c := by
  have hcrival : c ∈ rivals candidates c := mem_rivals.mpr ⟨hc, rfl⟩
  have hdrival : d ∈ rivals candidates c := mem_rivals.mpr ⟨hd, hkey⟩
  by_cases hlength : 1 < (rivals candidates c).length
  · obtain ⟨winner, hwinner, -⟩ := exists_winner hc hvalue
    have hdpolicy : d.property.conflictPolicy ≠ "reject_conflict".toList :=
      hpasses.onePolicy hlength d hdrival c hcrival ▸ hpolicy
    have hrivals : rivals candidates d = rivals candidates c := rivals_eq hkey
    rw [(eq_winner hplaces hpolicy hlength hwinner hc).mp hstays]
    exact (eq_winner hplaces hdpolicy (hrivals ▸ hlength) (hrivals ▸ hwinner) hd).mp hdstays
  · exact eq_of_length_le_one (not_lt.mp hlength) hdrival hcrival

/-- A group with a value keeps one. -/
theorem survivor_exists (hplaces : (candidates.map PropertyCandidate.place).Nodup)
    (hpasses : GroupPasses (rivals candidates c)) (hc : c ∈ candidates)
    (hvalue : c.offer.hasValue = true) :
    ∃ d ∈ candidates, d.offer.key = c.offer.key ∧ d.offer.hasValue = true ∧
      loses candidates d = false := by
  by_cases hlength : 1 < (rivals candidates c).length
  · by_cases hpolicy : c.property.conflictPolicy = "reject_conflict".toList
    · refine ⟨c, hc, rfl, hvalue, ?_⟩
      have hnull : c.property.value.isNull = false := (Bool.not_eq_true' _).mp hvalue
      unfold loses losesIn
      rw [if_pos hpolicy, hnull, Bool.false_and, Bool.and_false]
    · obtain ⟨winner, hwinner, hin, hkey, hhas, -⟩ := exists_winner hc hvalue
      have hrivals : rivals candidates winner = rivals candidates c := rivals_eq hkey
      have hwpolicy : winner.property.conflictPolicy ≠ "reject_conflict".toList :=
        hpasses.onePolicy hlength winner (mem_rivals.mpr ⟨hin, hkey⟩) c
          (mem_rivals.mpr ⟨hc, rfl⟩) ▸ hpolicy
      exact ⟨winner, hin, hkey, hhas,
        (eq_winner hplaces hwpolicy (hrivals ▸ hlength) (hrivals ▸ hwinner) hin).mpr rfl⟩
  · exact ⟨c, hc, rfl, hvalue, losesIn_of_length_le (not_lt.mp hlength) c⟩

end

end Cove
