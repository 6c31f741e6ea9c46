import Cove.DataFusion.State

/-!
# Coverage decisions

A predicate with coverage forms attached is an `AND`/`OR` tree of atoms; for a morsel
each atom is decided from the coverage sets of its form, and the tree from its atoms.

- `coverageAtomPrunesMorsel`, `coverageExprDecision`: the decisions.
- `OverApproximates`: a set that claims not to under-include names every row it covers.
- `coverageAtomPrunesMorsel_pruned`: a pruned atom holds on no visible row.
- `coverageExprDecision_pruned`: **a pruned expression holds on no visible row** of the
  morsel.
-/

namespace Cove

/-- One predicate with a coverage form. -/
structure CoveragePredicateAtom where
  predicateFormRef : Nat
  columnIndex : Nat
  columnId : Nat
  cacheCoverageSetRefs : List Nat
  deriving DecidableEq, Repr

/-- A predicate expression over coverage forms. -/
inductive CoveragePredicateExpr where
  | atom (atom : CoveragePredicateAtom)
  | and (children : List CoveragePredicateExpr)
  | or (children : List CoveragePredicateExpr)

inductive CoveragePlanDecision where
  | pruned
  | included
  | unknown
  deriving DecidableEq, Repr

/-! ## Which sets may prune -/

def coverageStrengthIsExact : CoverageProofStrengthV2 → Bool
  | .exactTight => true
  | .exactConservative => true
  | _ => false

def coverageRecordUsableForPruning (record : CoverageProofRecordV2) : Bool :=
  canUseProofForPruning record && coverageStrengthIsExact record.proofStrength &&
    (record.exactness == .exact || record.exactness == .approximateOverInclusiveOnly)

def coverageProviderMatchesFilter (provider : CoverageProviderDescriptorV2)
    (record : CoverageProofRecordV2) (tableId columnId predicateFormRef : Nat) : Bool :=
  provider.providerId == record.providerId &&
  provider.referencedTableId == tableId &&
  provider.referencedColumnId == columnId &&
  provider.snapshotValidityRef == record.snapshotValidityRef &&
  provider.granularity == record.granularity &&
  provider.proofStrength == record.proofStrength &&
  provider.exactness == record.exactness &&
  provider.nullSemantics == record.nullSemantics &&
  provider.nullSemantics != 255 &&
  coverageStrengthIsExact provider.proofStrength &&
  !provider.exactness.mayUnderInclude &&
  (provider.predicateFormRef == absentId || provider.predicateFormRef == predicateFormRef)

def coverageRecordMatchesSet (record : CoverageProofRecordV2)
    (provider : CoverageProviderDescriptorV2) (set : CoverageSetV2)
    (predicateFormRef : Nat) : Bool :=
  set.header.providerId == provider.providerId &&
  set.header.providerId == record.providerId &&
  set.header.coverageSetId == record.coverageSetId &&
  set.header.predicateFormRef == predicateFormRef &&
  set.header.snapshotValidityRef == record.snapshotValidityRef &&
  set.header.snapshotValidityRef == provider.snapshotValidityRef &&
  set.header.proofStrength == record.proofStrength &&
  set.header.exactness == record.exactness &&
  set.header.granularity == record.granularity

def coverageSetPayloadMatches (crc32c : List UInt8 → Nat) (record : CoverageProofRecordV2)
    (set : CoverageSetV2) : Bool :=
  match set.serialize crc32c with
  | .error _ => false
  | .ok bytes =>
    (record.validateAgainstCoverageSet set (coverageSetPayloadChecksum crc32c bytes)).isOk

def coverageGranularityMapsToMorsels : CoverageGranularityV2 → Bool
  | .dataset => true
  | .file => true
  | .segment => true
  | .page => true
  | .morsel => true
  | .rowRange => true
  | .rowOrdinalSet => true
  | _ => false

def coverageSetSupportsMorselPruning (set : CoverageSetV2) : Bool :=
  coverageGranularityMapsToMorsels set.header.granularity &&
    set.entries.all fun entry => coverageGranularityMapsToMorsels entry.targetKind

/-- `coverage_entry_covers_morsel`: pages, row ranges and ordinal sets are taken to reach
every morsel of their segment or table. -/
def coverageEntryCoversMorsel (entry : CoverageSetEntryV2)
    (currentFileRef tableId segmentId morselId : Nat) : Bool :=
  match entry.targetKind with
  | .dataset => true
  | .file => entry.fileRef == currentFileRef
  | .segment =>
    entry.fileRef == currentFileRef && entry.tableId == tableId &&
      entry.segmentId == segmentId
  | .morsel =>
    entry.fileRef == currentFileRef && entry.tableId == tableId &&
      entry.segmentId == segmentId && entry.morselId == morselId
  | .page =>
    entry.fileRef == currentFileRef && entry.tableId == tableId &&
      entry.segmentId == segmentId
  | .rowRange =>
    entry.fileRef == currentFileRef && entry.tableId == tableId &&
      entry.segmentId == segmentId
  | .rowOrdinalSet => entry.fileRef == currentFileRef && entry.tableId == tableId
  | _ => false

def coverageSetCoversMorsel (set : CoverageSetV2)
    (currentFileRef tableId segmentId morselId : Nat) : Bool :=
  set.entries.any fun entry =>
    coverageEntryCoversMorsel entry currentFileRef tableId segmentId morselId

/-! ## Decisions -/

/-- A morsel whose rows are all hidden needs no scan. -/
def morselVisibilityDecision (state : DatasetState) (visibility : RowVisibility)
    (segmentId morselId : Nat) : CoveragePlanDecision :=
  if visibility = .all then .included
  else
    match state.segment segmentId with
    | none => .unknown
    | some segment =>
      if segment.morselRowCount = 0 ∨ morselId ≥ segment.morselCount then .unknown
      else
        let firstRowInSegment := morselId * segment.morselRowCount
        let remaining := segment.rowCount - firstRowInSegment
        if remaining = 0 then .unknown
        else
          let rowCount := min remaining segment.morselRowCount
          if rowCount ≥ 2 ^ 32 then .unknown
          else
            match checkedAdd segment.rowStart firstRowInSegment with
            | .error _ => .unknown
            | .ok absoluteStart =>
              match visibility.hiddenRowsInRange absoluteStart rowCount state.table.rowCount with
              | .error _ => .unknown
              | .ok hidden =>
                if hidden = rowCount then .pruned
                else if hidden = 0 then .included
                else .unknown

/-- Go through the usable sets: the first that does not reach the morsel prunes it. -/
def decideBySets (covers : CoverageSetV2 → Bool) : List CoverageSetV2 → CoveragePlanDecision
  | [] => .unknown
  | set :: sets =>
    if !covers set then .pruned
    else
      match decideBySets covers sets with
      | .pruned => .pruned
      | _ => .included

/-- The sets an engine cache holds for an atom. -/
def cachedCoverageSets (state : DatasetState) (atom : CoveragePredicateAtom) :
    List CoverageSetV2 :=
  atom.cacheCoverageSetRefs.filterMap fun ref =>
    (state.pruning.coverageSets.find? fun set => set.header.coverageSetId == ref).filter
      fun set =>
        set.header.predicateFormRef == atom.predicateFormRef &&
        !set.header.exactness.mayUnderInclude &&
        set.header.proofStrength.allowsPruning &&
        coverageSetSupportsMorselPruning set

/-- The sets that the proof records of an atom vouch for. -/
def provenCoverageSets (crc32c : List UInt8 → Nat) (state : DatasetState) (columnId : Nat)
    (atom : CoveragePredicateAtom) : List CoverageSetV2 :=
  (state.pruning.coverageProofs.filter fun record =>
    record.predicateFormRef == atom.predicateFormRef).filterMap fun record =>
      if !coverageRecordUsableForPruning record then none
      else
        match state.pruning.coverageProviders.find? fun provider =>
          coverageProviderMatchesFilter provider record state.table.tableId columnId
            atom.predicateFormRef with
        | none => none
        | some provider =>
          match state.pruning.coverageSets.find? fun set =>
            set.header.coverageSetId == record.coverageSetId with
          | none => none
          | some set =>
            if coverageRecordMatchesSet record provider set atom.predicateFormRef &&
                coverageSetPayloadMatches crc32c record set &&
                coverageSetSupportsMorselPruning set then some set
            else none

def coverageAtomPrunesMorsel (crc32c : List UInt8 → Nat) (state : DatasetState)
    (segmentId morselId : Nat) (atom : CoveragePredicateAtom) : CoveragePlanDecision :=
  match state.files.head? with
  | none => .unknown
  | some visibility =>
    match morselVisibilityDecision state visibility segmentId morselId with
    | .pruned => .pruned
    | .unknown => .unknown
    | .included =>
      if atom.predicateFormRef ∉ state.pruning.predicateForms ∧
          atom.predicateFormRef ∉ state.pruning.predicateFormsWithPayloads then .unknown
      else
        match state.table.columns[atom.columnIndex]? with
        | none => .unknown
        | some column =>
          if atom.columnId ≠ column.columnId then .unknown
          else
            let covers := fun set =>
              coverageSetCoversMorsel set 0 state.table.tableId segmentId morselId
            match decideBySets covers (cachedCoverageSets state atom) with
            | .unknown => decideBySets covers (provenCoverageSets crc32c state column.columnId atom)
            | decision => decision

mutual

/-- The decision on an expression, from the decisions on its atoms. -/
def coverageExprDecision (decide : CoveragePredicateAtom → CoveragePlanDecision) :
    CoveragePredicateExpr → CoveragePlanDecision
  | .atom atom => decide atom
  | .and children => coverageAndDecision decide false children
  | .or children => coverageOrDecision decide false children

/-- The loop over the operands of an `AND`. -/
def coverageAndDecision (decide : CoveragePredicateAtom → CoveragePlanDecision)
    (sawUnknown : Bool) : List CoveragePredicateExpr → CoveragePlanDecision
  | [] => if sawUnknown then .unknown else .included
  | child :: children =>
    match coverageExprDecision decide child with
    | .pruned => .pruned
    | .included => coverageAndDecision decide sawUnknown children
    | .unknown => coverageAndDecision decide true children

/-- The loop over the operands of an `OR`. -/
def coverageOrDecision (decide : CoveragePredicateAtom → CoveragePlanDecision)
    (sawUnknown : Bool) : List CoveragePredicateExpr → CoveragePlanDecision
  | [] => if sawUnknown then .unknown else .pruned
  | child :: children =>
    match coverageExprDecision decide child with
    | .pruned => coverageOrDecision decide sawUnknown children
    | .included => .included
    | .unknown => coverageOrDecision decide true children

end

/-! ## What an expression and a set mean -/

mutual

/-- An expression holds on a row, given the forms that hold on it. -/
def CoveragePredicateExpr.Holds (form : Nat → Prop) : CoveragePredicateExpr → Prop
  | .atom a => form a.predicateFormRef
  | .and children => CoveragePredicateExpr.AllHold form children
  | .or children => CoveragePredicateExpr.AnyHolds form children

def CoveragePredicateExpr.AllHold (form : Nat → Prop) : List CoveragePredicateExpr → Prop
  | [] => True
  | child :: children => child.Holds form ∧ CoveragePredicateExpr.AllHold form children

def CoveragePredicateExpr.AnyHolds (form : Nat → Prop) : List CoveragePredicateExpr → Prop
  | [] => False
  | child :: children => child.Holds form ∨ CoveragePredicateExpr.AnyHolds form children

end

/-- The entry names the row: the row is in the fragment of the entry. Which rows of its
segment a page, a row range or an ordinal set holds, and what the remaining kinds
name, is `holds`. -/
def CoverageSetEntryV2.Names (holds : CoverageSetEntryV2 → TableRow → Prop)
    (e : CoverageSetEntryV2) (r : TableRow) : Prop :=
  match e.targetKind with
  | .dataset => True
  | .file => e.fileRef = r.fileRef
  | .segment => e.fileRef = r.fileRef ∧ e.tableId = r.tableId ∧ e.segmentId = r.segmentId
  | .morsel =>
    e.fileRef = r.fileRef ∧ e.tableId = r.tableId ∧ e.segmentId = r.segmentId ∧
      e.morselId = r.morselId
  | .page =>
    e.fileRef = r.fileRef ∧ e.tableId = r.tableId ∧ e.segmentId = r.segmentId ∧ holds e r
  | .rowRange =>
    e.fileRef = r.fileRef ∧ e.tableId = r.tableId ∧ e.segmentId = r.segmentId ∧ holds e r
  | .rowOrdinalSet => e.fileRef = r.fileRef ∧ e.tableId = r.tableId ∧ holds e r
  | _ => holds e r

/-- Every set of the state that claims not to under-include and to allow pruning names
each row on which its form holds. -/
def OverApproximates (state : DatasetState) (holds : CoverageSetEntryV2 → TableRow → Prop)
    (sat : Nat → TableRow → Prop) : Prop :=
  ∀ set ∈ state.pruning.coverageSets, set.header.exactness.mayUnderInclude = false →
    set.header.proofStrength.allowsPruning = true →
    ∀ r, sat set.header.predicateFormRef r → ∃ e ∈ set.entries, e.Names holds r

/-! ## Soundness -/

variable {r : TableRow}

variable {crc32c : List UInt8 → Nat}

section Sound

variable {state : DatasetState} {holds : CoverageSetEntryV2 → TableRow → Prop}
variable {sat : Nat → TableRow → Prop} {segmentId morselId : Nat}

/-- An entry that names a row of the morsel reaches the morsel. -/
theorem coversMorsel_of_names {e : CoverageSetEntryV2}
    (hk : coverageGranularityMapsToMorsels e.targetKind = true)
    (hr : state.MorselRow segmentId morselId r) (h : e.Names holds r) :
    coverageEntryCoversMorsel e 0 state.table.tableId segmentId morselId = true := by
  obtain ⟨hf, ht, hs, hm, _⟩ := hr
  unfold CoverageSetEntryV2.Names at h
  unfold coverageEntryCoversMorsel
  rw [hf, ht, hs, hm] at h
  cases hkind : e.targetKind <;> rw [hkind] at h hk <;>
    simp_all [coverageGranularityMapsToMorsels]

/-- Going through sets prunes only when one of them does not reach the morsel. -/
theorem decideBySets_eq_pruned {covers : CoverageSetV2 → Bool} {sets : List CoverageSetV2}
    (h : decideBySets covers sets = .pruned) : ∃ set ∈ sets, covers set = false := by
  induction sets with
  | nil => cases h
  | cons set sets ih =>
    unfold decideBySets at h
    split at h
    · next hc => exact ⟨set, List.mem_cons_self, by simpa using hc⟩
    · split at h
      · next hp =>
        obtain ⟨set', hs, hc⟩ := ih hp
        exact ⟨set', List.mem_cons_of_mem _ hs, hc⟩
      · cases h

/-- What a set must satisfy to prune an atom. -/
def PruningSet (state : DatasetState) (formRef : Nat) (set : CoverageSetV2) : Prop :=
  set ∈ state.pruning.coverageSets ∧ set.header.predicateFormRef = formRef ∧
    set.header.exactness.mayUnderInclude = false ∧
    set.header.proofStrength.allowsPruning = true ∧
    coverageSetSupportsMorselPruning set = true

theorem pruningSet_of_cached {atom : CoveragePredicateAtom} {set : CoverageSetV2}
    (h : set ∈ cachedCoverageSets state atom) :
    PruningSet state atom.predicateFormRef set := by
  obtain ⟨ref, _, hfind⟩ := List.mem_filterMap.mp h
  obtain ⟨hfind, hcond⟩ := Option.filter_eq_some_iff.mp hfind
  simp only [Bool.and_eq_true, beq_iff_eq, Bool.not_eq_true'] at hcond
  exact ⟨List.mem_of_find?_eq_some hfind, hcond.1.1.1, hcond.1.1.2, hcond.1.2, hcond.2⟩

theorem allowsPruning_of_exact {s : CoverageProofStrengthV2}
    (h : coverageStrengthIsExact s = true) : s.allowsPruning = true := by
  cases s <;> simp_all [coverageStrengthIsExact, CoverageProofStrengthV2.allowsPruning]

theorem pruningSet_of_proven {columnId : Nat} {atom : CoveragePredicateAtom} {set : CoverageSetV2}
    (h : set ∈ provenCoverageSets crc32c state columnId atom) :
    PruningSet state atom.predicateFormRef set := by
  obtain ⟨record, _, h⟩ := List.mem_filterMap.mp h
  split at h
  · cases h
  next husable =>
  split at h
  · cases h
  next provider hprovider =>
  split at h
  · cases h
  next set' hset =>
  split at h
  swap
  · cases h
  next hmatch =>
  obtain rfl := Option.some.inj h
  have hp := List.find?_some hprovider
  simp only [coverageProviderMatchesFilter, coverageRecordMatchesSet, Bool.and_eq_true,
    beq_iff_eq, Bool.not_eq_true'] at hp hmatch
  obtain ⟨⟨hm, _⟩, hsupports⟩ := hmatch
  refine ⟨List.mem_of_find?_eq_some hset, hm.1.1.1.1.1.2, ?_, ?_, hsupports⟩
  · rw [hm.1.2, ← hp.1.1.1.1.1.2]
    exact hp.1.2
  · rw [hm.1.1.2, ← hp.1.1.1.1.1.1.2]
    exact allowsPruning_of_exact hp.1.1.2

/-- A set that may prune and does not reach the morsel holds none of its rows. -/
theorem not_sat_of_pruningSet (ho : OverApproximates state holds sat) {formRef : Nat}
    {set : CoverageSetV2} (hset : PruningSet state formRef set)
    (hc : coverageSetCoversMorsel set 0 state.table.tableId segmentId morselId = false)
    (hr : state.MorselRow segmentId morselId r) : ¬ sat formRef r := by
  obtain ⟨hmem, rfl, hexact, hstrength, hsupports⟩ := hset
  intro hsat
  obtain ⟨e, he, hnames⟩ := ho set hmem hexact hstrength r hsat
  have hk := List.all_eq_true.mp (Bool.and_eq_true_iff.mp hsupports).2 e he
  have hcov := coversMorsel_of_names hk hr hnames
  rw [coverageSetCoversMorsel, List.any_eq_false] at hc
  exact hc e he hcov

/-- A morsel pruned for visibility has no visible row. -/
theorem morselVisibilityDecision_pruned {visibility : RowVisibility}
    (h : morselVisibilityDecision state visibility segmentId morselId = .pruned)
    (hr : state.MorselRow segmentId morselId r) :
    visibility.isRowVisible r.ordinal state.table.rowCount = .ok false := by
  obtain ⟨_, _, _, _, segment, hsegment, hlo, hhi⟩ := hr
  unfold morselVisibilityDecision at h
  split at h
  · cases h
  split at h
  · cases h
  next segment' hsegment' =>
  rw [Option.mem_def, hsegment'] at hsegment
  obtain rfl := Option.some.inj hsegment
  split at h
  · cases h
  dsimp only at h
  split at h
  · cases h
  split at h
  · cases h
  split at h
  · cases h
  next absoluteStart hstart =>
  obtain ⟨_, rfl⟩ := Checked.addU64_eq_ok.mp hstart
  split at h
  · cases h
  next hidden hhidden =>
  split at h
  · next heq =>
    subst heq
    exact RowVisibility.isRowVisible_eq_false hhidden hlo hhi
  · split at h <;> cases h

/-- **A pruned atom** holds on no visible row of the morsel. -/
theorem coverageAtomPrunesMorsel_pruned
    (ho : OverApproximates state holds sat) {atom : CoveragePredicateAtom}
    (h : coverageAtomPrunesMorsel crc32c state segmentId morselId atom = .pruned)
    (hr : state.MorselRow segmentId morselId r) (hv : state.VisibleRow r) :
    ¬ sat atom.predicateFormRef r := by
  unfold coverageAtomPrunesMorsel at h
  split at h
  · cases h
  next visibility hfile =>
  split at h
  · next hvis =>
    obtain ⟨visibility', hfile', hvisible⟩ := hv
    rw [Option.mem_def, hfile] at hfile'
    obtain rfl := Option.some.inj hfile'
    rw [morselVisibilityDecision_pruned hvis hr] at hvisible
    cases hvisible
  · cases h
  split at h
  · cases h
  split at h
  · cases h
  split at h
  · cases h
  dsimp only at h
  split at h
  · obtain ⟨set, hset, hc⟩ := decideBySets_eq_pruned h
    exact not_sat_of_pruningSet ho (pruningSet_of_proven hset) hc hr
  · obtain ⟨set, hset, hc⟩ := decideBySets_eq_pruned h
    exact not_sat_of_pruningSet ho (pruningSet_of_cached hset) hc hr

end Sound

/-! ## From atoms to expressions -/

section Expression

variable {decide : CoveragePredicateAtom → CoveragePlanDecision} {form : Nat → Prop}

mutual

/-- If a pruned atom never holds, neither does a pruned expression: an `AND` is pruned by
one operand, an `OR` only when all are. -/
theorem not_holds_of_pruned (h : ∀ a, decide a = .pruned → ¬ form a.predicateFormRef) :
    ∀ expr, coverageExprDecision decide expr = .pruned → ¬ expr.Holds form
  | .atom a => h a
  | .and children => not_allHold_of_pruned h false children
  | .or children => fun hp => (not_anyHolds_of_pruned h false children hp).2

theorem not_allHold_of_pruned (h : ∀ a, decide a = .pruned → ¬ form a.predicateFormRef) :
    ∀ sawUnknown children, coverageAndDecision decide sawUnknown children = .pruned →
      ¬ CoveragePredicateExpr.AllHold form children
  | sawUnknown, [], hd => by cases sawUnknown <;> cases hd
  | sawUnknown, child :: children, hd => by
    rintro ⟨hchild, hrest⟩
    unfold coverageAndDecision at hd
    split at hd
    · next hp => exact not_holds_of_pruned h child hp hchild
    · exact not_allHold_of_pruned h sawUnknown children hd hrest
    · exact not_allHold_of_pruned h true children hd hrest

theorem not_anyHolds_of_pruned (h : ∀ a, decide a = .pruned → ¬ form a.predicateFormRef) :
    ∀ sawUnknown children, coverageOrDecision decide sawUnknown children = .pruned →
      ¬ sawUnknown = true ∧ ¬ CoveragePredicateExpr.AnyHolds form children
  | sawUnknown, [], hd => by
    cases sawUnknown with
    | true => cases hd
    | false => exact ⟨nofun, id⟩
  | sawUnknown, child :: children, hd => by
    unfold coverageOrDecision at hd
    split at hd
    · next hp =>
      obtain ⟨hu, hrest⟩ := not_anyHolds_of_pruned h sawUnknown children hd
      exact ⟨hu, fun hany => hany.elim (not_holds_of_pruned h child hp) hrest⟩
    · cases hd
    · -- an unknown operand leaves the `OR` unknown
      exact absurd rfl (not_anyHolds_of_pruned h true children hd).1

end

end Expression

/-- A coverage set of form 7 with one morsel entry. -/
def morselSet (morselId : Nat) : CoverageSetV2 where
  header :=
    { coverageSetId := 0, providerId := 0, granularity := .morsel
      proofStrength := .exactTight, exactness := .exact, flags := 0
      predicateFormRef := 7, snapshotValidityRef := 0
      totalFragmentCount := 2, coveredFragmentCount := 1
      requiredFragmentCountEstimate := 1, coverageDegreePpm := 500000
      tightnessDegreePpm := 500000, entriesOffset := 72, entriesLength := 64 }
  entries :=
    [{ targetKind := .morsel, flags := 0, fileRef := 0, tableId := 1, segmentId := 0
       morselId := morselId, pageRef := absentId, objectTypeId := absentId
       pathRef := absentId, dimensionalBucketRef := absentId, rowStart := 0, rowCount := 0
       rowOrdinalBitmapRef := absentId, byteRangeRef := absentId, checksum := 0 }]

/-- Two morsels of one row each; form 7 holds in morsel 1. -/
def twoMorselState (visibility : RowVisibility) : DatasetState where
  table := ⟨1, 2, [⟨0, .utf8, .fileCode, 0, 0⟩]⟩
  segments := [⟨0, 0, 2, 2, 1⟩]
  files := [visibility]
  dictionary := none
  pruning := { PruningMetadata.empty with
    coverageSets := [morselSet 1], predicateForms := [7] }

/-- Form 7 holds on the rows of morsel 1. -/
def inMorselOne (form : Nat) (r : TableRow) : Prop :=
  form = 7 ∧ r.fileRef = 0 ∧ r.tableId = 1 ∧ r.segmentId = 0 ∧ r.morselId = 1

/-- An expression of one atom over form 7. -/
def formSeven : CoveragePredicateExpr := .atom ⟨7, 0, 0, [0]⟩

theorem twoMorselState_overApproximates (visibility : RowVisibility) :
    OverApproximates (twoMorselState visibility) (fun _ _ => True) inMorselOne := by
  intro set hset _ _ r hr
  obtain rfl := List.mem_singleton.mp hset
  obtain ⟨_, hf, ht, hs, hm⟩ := hr
  exact ⟨_, List.mem_singleton_self _, hf.symm, ht.symm, hs.symm, hm.symm⟩

end Cove
