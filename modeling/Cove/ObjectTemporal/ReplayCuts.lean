import Cove.ObjectTemporal.ReplayOrder

/-!
# Reconstruction at a cut

Records are replayed in time order. A timestamp cut keeps a prefix of every object's
replay; a commit number cut may drop a record and keep a later one that refers to it, and
such a reference is refused.

- `Linked`: every reference of a replay names the record before it.
- `replayRecords_isOk`: a replay succeeds exactly when it is linked.
- `reconstruct_at_cut`: **the state at a cut is that of the records visible there**, and
  a commit number cut is refused exactly when it splits a reference.
-/

namespace Cove

/-! ## Linked replays -/

/-- Where the state was last advanced to. -/
def CoveObjectState.place (state : CoveObjectState) : Nat × Nat :=
  (state.latestSegmentId, state.latestRowIndex)

/-- The place a record refers to. -/
def CoveObjectRecord.prevPlace (r : CoveObjectRecord) : Option (Nat × Nat) :=
  r.prevRef.map fun prevRef => (prevRef.segmentId, prevRef.rowIndex)

/-- Every record can be replayed, and every reference names the record before it. -/
def Linked : Option (Nat × Nat) → List CoveObjectRecord → Prop
  | _, [] => True
  | last, r :: rs =>
    r.recordKind ≠ .reservedLegacyMaterializedDelta ∧
      (∀ place, r.prevPlace = some place → last = some place) ∧ Linked (some r.place) rs

theorem replayedState_place (current : Option CoveObjectState) (r : CoveObjectRecord) :
    (replayedState current r).place = r.place := by
  unfold replayedState
  split <;> rfl

variable {current : Option CoveObjectState} {r : CoveObjectRecord} {latest : List CoveObjectState}

theorem validateRecordChainStep_eq_ok :
    validateRecordChainStep r current = .ok () ↔
      ∀ place, r.prevPlace = some place → current.map CoveObjectState.place = some place := by
  unfold validateRecordChainStep CoveObjectRecord.prevPlace
  cases r.prevRef with
  | none => simp
  | some prevRef =>
    cases current with
    | none => simp
    | some state =>
      by_cases h : state.latestSegmentId = prevRef.segmentId ∧
          state.latestRowIndex = prevRef.rowIndex
      · simp [h, CoveObjectState.place]
      · rw [Classical.not_and_iff_not_or_not] at h
        have hne : ¬(state.latestSegmentId = prevRef.segmentId ∧
          state.latestRowIndex = prevRef.rowIndex) := by tauto
        simp [h, hne, CoveObjectState.place]

/-- One record is replayed exactly when it has a kind to replay and its reference names
the record before it. -/
theorem replayRecord_isOk :
    (∃ next, replayRecord current r = .ok next) ↔
      r.recordKind ≠ .reservedLegacyMaterializedDelta ∧
        ∀ place, r.prevPlace = some place → current.map CoveObjectState.place = some place := by
  constructor
  · rintro ⟨next, h⟩
    obtain ⟨u, hchain, -⟩ := Checked.bind_eq_ok.mp h
    exact ⟨(replayRecord_eq_ok h).1, validateRecordChainStep_eq_ok.mp hchain⟩
  · rintro ⟨hkind, hchain⟩
    unfold replayRecord
    rw [validateRecordChainStep_eq_ok.mpr hchain, Checked.ok_bind]
    cases hk : r.recordKind <;> cases current <;> first
      | exact ⟨_, rfl⟩
      | exact absurd hk hkind

/-- **A replay succeeds exactly when it is linked.** -/
theorem replayRecords_isOk {records : List CoveObjectRecord} :
    (∃ out, replayRecords current records = .ok out) ↔
      Linked (current.map CoveObjectState.place) records := by
  induction records generalizing current with
  | nil => exact iff_of_true ⟨current, rfl⟩ trivial
  | cons r records ih =>
    have hnext : ∀ {next}, replayRecord current r = .ok next →
        next.map CoveObjectState.place = some r.place := by
      intro next h
      rw [(replayRecord_eq_ok h).2, Option.map_some, replayedState_place]
    constructor
    · rintro ⟨out, h⟩
      obtain ⟨next, hstep, hrest⟩ := Checked.bind_eq_ok.mp h
      obtain ⟨hkind, hchain⟩ := replayRecord_isOk.mp ⟨next, hstep⟩
      exact ⟨hkind, hchain, hnext hstep ▸ ih.mp ⟨out, hrest⟩⟩
    · rintro ⟨hkind, hchain, hrest⟩
      obtain ⟨next, hstep⟩ := replayRecord_isOk.mpr ⟨hkind, hchain⟩
      obtain ⟨out, hout⟩ := ih.mpr (hnext hstep ▸ hrest)
      exact ⟨out, Checked.bind_eq_ok.mpr ⟨next, hstep, hout⟩⟩

theorem Linked.kind {last : Option (Nat × Nat)} {records : List CoveObjectRecord}
    (h : Linked last records) :
    ∀ r ∈ records, r.recordKind ≠ .reservedLegacyMaterializedDelta := by
  induction records generalizing last with
  | nil => nofun
  | cons r records ih => exact List.forall_mem_cons.mpr ⟨h.1, ih h.2.2⟩

/-- A reference within a whole replay names one of its records. -/
theorem Linked.exists_prev {last : Option (Nat × Nat)} {records : List CoveObjectRecord}
    (h : Linked last records) (hr : r ∈ records) {place : Nat × Nat}
    (hplace : r.prevPlace = some place) :
    last = some place ∨ ∃ q ∈ records, q.place = place := by
  induction records generalizing last with
  | nil => cases hr
  | cons x records ih =>
    rcases List.mem_cons.mp hr with rfl | hr
    · exact .inl (h.2.1 place hplace)
    · right
      rcases ih h.2.2 hr with heq | ⟨q, hq, heq⟩
      · exact ⟨x, List.mem_cons_self, Option.some.inj heq⟩
      · exact ⟨q, List.mem_cons_of_mem _ hq, heq⟩

section Filter

variable {records : List CoveObjectRecord} {p : CoveObjectRecord → Bool}

/-- A prefix of a linked replay is linked. -/
theorem Linked.filter_cut {last : Option (Nat × Nat)} (h : Linked last records)
    (hearlier : records.Pairwise fun a b => p b = true → p a = true) :
    Linked last (records.filter p) := by
  induction records generalizing last with
  | nil => trivial
  | cons r records ih =>
    obtain ⟨hr, hrest⟩ := List.pairwise_cons.mp hearlier
    by_cases hp : p r = true
    · rw [List.filter_cons_of_pos hp]
      exact ⟨h.1, h.2.1, ih h.2.2 hrest⟩
    · -- nothing later is kept either
      have hnil : (r :: records).filter p = [] := by
        rw [List.filter_cons_of_neg hp, List.filter_eq_nil_iff]
        exact fun x hx hpx => hp (hr x hx hpx)
      rw [hnil]
      trivial

/-- Dropping records that no kept record refers to leaves a replay linked. -/
theorem Linked.filter_kept {last last' : Option (Nat × Nat)} (h : Linked last records)
    (hlast : last' = last ∨ ∀ place, last = some place →
      ∀ r ∈ records, p r = true → r.prevPlace ≠ some place)
    (hkept : ∀ r ∈ records, p r = true → ∀ q ∈ records, r.prevPlace = some q.place →
      p q = true) : Linked last' (records.filter p) := by
  induction records generalizing last last' with
  | nil => trivial
  | cons r records ih =>
    have hrest := fun x hx hpx q hq => hkept x (List.mem_cons_of_mem _ hx) hpx q
      (List.mem_cons_of_mem _ hq)
    by_cases hp : p r = true
    · rw [List.filter_cons_of_pos hp]
      refine ⟨h.1, fun place hplace => ?_, ih h.2.2 (.inl rfl) hrest⟩
      have hprev := h.2.1 place hplace
      rcases hlast with rfl | hnone
      · exact hprev
      · exact absurd hplace (hnone place hprev r List.mem_cons_self hp)
    · rw [List.filter_cons_of_neg hp]
      refine ih h.2.2 (.inr fun place heq x hx hpx hplace => hp ?_) hrest
      obtain rfl := Option.some.inj heq
      exact hkept x (List.mem_cons_of_mem _ hx) hpx r List.mem_cons_self hplace

end Filter

/-! ## The records of a cut -/

/-- Exactly the records that a cut shows. -/
def CoveObjectSurface.visibleAt (surface : CoveObjectSurface) (cut : CoveObjectTemporalCut) :
    CoveObjectSurface where
  records := surface.records.filter fun r => recordVisibleAtCut r cut
  catalogued := fun r hr r' hr' => surface.catalogued r (List.mem_filter.mp hr).1 r'
    (List.mem_filter.mp hr').1
  distinct := fun r hr => surface.distinct r (List.mem_filter.mp hr).1

/-- The record refers to one of its object that the cut does not show. -/
def RefersBeyond (records : List CoveObjectRecord) (cut : CoveObjectTemporalCut)
    (r : CoveObjectRecord) : Prop :=
  ∃ q ∈ records, r.prevPlace = some q.place ∧ q.objectKey = r.objectKey ∧
    recordVisibleAtCut q cut = false

/-- No two records of an object stand at one place. -/
def PlacesDistinct (records : List CoveObjectRecord) : Prop :=
  ∀ r ∈ records, ∀ r' ∈ records, r.objectKey = r'.objectKey → r.place = r'.place → r = r'

variable {q : CoveObjectRecord} {e : CoveError}

section Cut

variable {surface : CoveObjectSurface} {cut : CoveObjectTemporalCut} {branchKey : Option Nat}
  {includeTombstones : Bool}

theorem visibleRecords_visibleAt :
    visibleRecords ⟨.latestCommitted, branchKey, includeTombstones⟩
        (surface.visibleAt cut).records =
      visibleRecords ⟨cut, branchKey, includeTombstones⟩ surface.records := by
  unfold visibleRecords CoveObjectSurface.visibleAt
  rw [List.filter_filter]
  refine List.filter_congr fun r _ => ?_
  simp [recordVisibleAtCut]

/-- The history at a cut is what the cut shows of the whole history. -/
theorem visibleHistory_cut (key : ObjectKey) :
    visibleHistory ⟨cut, branchKey, includeTombstones⟩ surface.records key =
      (visibleHistory ⟨.latestCommitted, branchKey, includeTombstones⟩ surface.records
        key).filter fun r => recordVisibleAtCut r cut := by
  unfold visibleHistory replayOrder
  rw [SortedList.filter_insertionSort recordSortKey, List.filter_filter]
  congr 1
  unfold visibleRecords
  rw [List.filter_filter, List.filter_filter]
  refine List.filter_congr fun r _ => ?_
  simp [recordVisibleAtCut, Bool.and_comm, Bool.and_left_comm]

/-- What is found at a place is found there when the cut shows it. -/
theorem recordAt_visibleAt {segmentId rowIndex : Nat}
    (h : recordAt surface.records segmentId rowIndex = some q)
    (hq : recordVisibleAtCut q cut = true) :
    recordAt (surface.visibleAt cut).records segmentId rowIndex = some q := by
  unfold recordAt at h ⊢
  obtain ⟨hplace, before, after, heq, hbefore⟩ := List.find?_eq_some_iff_append.mp h
  show (surface.records.filter _).reverse.find? _ = _
  rw [← List.filter_reverse, List.find?_filter]
  refine List.find?_eq_some_iff_append.mpr ⟨by simp [hq, hplace], before, after, heq, ?_⟩
  intro x hx
  have hnot := hbefore x hx
  simp only [Bool.not_eq_true'] at hnot
  simp [hnot]

variable {records : List CoveObjectRecord}

theorem validatePrevRefs_eq_ok :
    validatePrevRefs records = .ok () ↔ ∀ r ∈ records, prevRefValid records r = true := by
  unfold validatePrevRefs
  by_cases h : records.all (prevRefValid records) = true
  · rw [if_pos h]
    exact iff_of_true rfl (List.all_eq_true.mp h)
  · rw [if_neg h]
    exact iff_of_false nofun fun hall => h (List.all_eq_true.mpr hall)

/-- A valid reference names a record of the object that comes before. -/
theorem prevRefValid_prev (h : prevRefValid records r = true) {prevRef : CoveRecordRefV1}
    (hprev : r.prevRef = some prevRef) :
    ∃ q ∈ records, recordAt records prevRef.segmentId prevRef.rowIndex = some q ∧
      r.prevPlace = some q.place ∧ q.objectKey = r.objectKey ∧
      recordSortKey q < recordSortKey r := by
  unfold prevRefValid at h
  rw [hprev] at h
  dsimp only at h
  split at h
  · cases h
  · cases hat : recordAt records prevRef.segmentId prevRef.rowIndex with
    | none =>
      rw [hat] at h
      cases h
    | some q =>
      rw [hat] at h
      simp only [Bool.and_eq_true, beq_iff_eq, decide_eq_true_eq] at h
      obtain ⟨⟨⟨htype, hbranch⟩, hgoid⟩, hlt⟩ := h
      have hfound : records.reverse.find? (fun r => r.segmentId == prevRef.segmentId &&
          r.rowIndex == prevRef.rowIndex) = some q := hat
      have hplace := List.find?_some hfound
      simp only [Bool.and_eq_true, beq_iff_eq] at hplace
      refine ⟨q, List.mem_reverse.mp (List.mem_of_find?_eq_some hfound), rfl, ?_, ?_, hlt⟩
      · simp [CoveObjectRecord.prevPlace, hprev, CoveObjectRecord.place, hplace]
      · simp [CoveObjectRecord.objectKey, htype, hbranch, hgoid]

/-- References of the records a cut shows stay valid among these, as long as the cut shows
what they name. -/
theorem validatePrevRefs_visibleAt (hrefs : validatePrevRefs surface.records = .ok ())
    (h : ∀ r ∈ surface.records, recordVisibleAtCut r cut = true → ∀ q ∈ surface.records,
      r.prevPlace = some q.place → q.objectKey = r.objectKey →
      recordSortKey q < recordSortKey r → recordVisibleAtCut q cut = true) :
    validatePrevRefs (surface.visibleAt cut).records = .ok () := by
  refine validatePrevRefs_eq_ok.mpr fun r hr => ?_
  obtain ⟨hr, hvisible⟩ := List.mem_filter.mp hr
  have hvalid := validatePrevRefs_eq_ok.mp hrefs r hr
  cases hprev : r.prevRef with
  | none => simp [prevRefValid, hprev]
  | some prevRef =>
    obtain ⟨q, hq, hat, hplace, hkey, hlt⟩ := prevRefValid_prev hvalid hprev
    have hat' := recordAt_visibleAt hat (h r hr hvisible q hq hplace hkey hlt)
    unfold prevRefValid at hvalid ⊢
    rw [hprev] at hvalid ⊢
    dsimp only at hvalid ⊢
    rwa [hat', ← hat]

/-- The cut and its records are reconstructed alike when every history replays. -/
theorem reconstruct_visibleAt
    (hrefs : validatePrevRefs surface.records = .ok ())
    (hrefs' : validatePrevRefs (surface.visibleAt cut).records = .ok ())
    (hall : ∀ key, Linked none
      (visibleHistory ⟨cut, branchKey, includeTombstones⟩ surface.records key)) :
    ∃ states,
      reconstructObjectStates surface ⟨cut, branchKey, includeTombstones⟩ = .ok states ∧
      reconstructObjectStates (surface.visibleAt cut)
        ⟨.latestCommitted, branchKey, includeTombstones⟩ = .ok states := by
  have hreplay : ∀ key, ∃ current, replayRecords none (visibleHistory
      ⟨cut, branchKey, includeTombstones⟩ surface.records key) = .ok current :=
    fun key => replayRecords_isOk.mpr (hall key)
  have hhistory : ∀ key, visibleHistory ⟨.latestCommitted, branchKey, includeTombstones⟩
      (surface.visibleAt cut).records key =
        visibleHistory ⟨cut, branchKey, includeTombstones⟩ surface.records key := by
    intro key
    unfold visibleHistory
    rw [visibleRecords_visibleAt]
  refine ⟨_, reconstruct_eq_ok_iff.mpr ⟨hrefs, hreplay, rfl⟩,
    reconstruct_eq_ok_iff.mpr ⟨hrefs', fun key => ?_, ?_⟩⟩
  · rw [hhistory]
    exact hreplay key
  · unfold unsortedStates
    rw [visibleRecords_visibleAt]

/-! ## Refused cuts -/

/-- Records with a kind to replay are only refused for their references. -/
theorem replayRecords_error (hkind : ∀ r ∈ records, r.recordKind ≠ .reservedLegacyMaterializedDelta)
    (h : replayRecords current records = .error e) : e = .refInvalid := by
  induction records generalizing current with
  | nil => cases h
  | cons r records ih =>
    obtain ⟨hr, hrest⟩ := List.forall_mem_cons.mp hkind
    rw [replayRecords] at h
    cases hstep : replayRecord current r with
    | ok next =>
      rw [hstep] at h
      exact ih hrest h
    | error e' =>
      rw [hstep] at h
      obtain rfl : e' = e := Except.error.inj h
      cases hchain : validateRecordChainStep r current with
      | ok u =>
        -- the step would have succeeded
        obtain ⟨next, hnext⟩ :=
          replayRecord_isOk.mpr ⟨hr, validateRecordChainStep_eq_ok.mp hchain⟩
        rw [hstep] at hnext
        cases hnext
      | error e'' =>
        have heq : e'' = e' := by
          unfold replayRecord at hstep
          rw [hchain] at hstep
          exact Except.error.inj hstep
        subst heq
        unfold validateRecordChainStep at hchain
        split at hchain
        · cases hchain
        · exact (Except.error.inj hchain).symm
        · split at hchain
          · exact (Except.error.inj hchain).symm
          · cases hchain

theorem statesOfGroups_error {groups : List (ObjectKey × List CoveObjectRecord)}
    (hkind : ∀ g ∈ groups, ∀ r ∈ g.2, r.recordKind ≠ .reservedLegacyMaterializedDelta)
    (h : statesOfGroups includeTombstones groups = .error e) :
    e = .refInvalid := by
  induction groups with
  | nil => cases h
  | cons g groups ih =>
    obtain ⟨key, records⟩ := g
    obtain ⟨hg, hrest⟩ := List.forall_mem_cons.mp hkind
    cases hreplay : replayRecords none (replayOrder records) with
    | error e' =>
      rw [statesOfGroups, hreplay] at h
      obtain rfl : e' = e := Except.error.inj h
      exact replayRecords_error (fun r hr => hg r ((List.mem_insertionSort _).mp hr)) hreplay
    | ok current =>
      cases hstates : statesOfGroups includeTombstones groups with
      | error e' =>
        rw [statesOfGroups, hreplay, Checked.ok_bind, hstates] at h
        obtain rfl : e' = e := Except.error.inj h
        exact ih hrest hstates
      | ok states =>
        rw [statesOfGroups_cons hreplay hstates] at h
        cases h

/-! ## Every cut -/

/-- The cut and the records it shows have the same states. -/
def ReconstructsAlike (surface : CoveObjectSurface) (cut : CoveObjectTemporalCut)
    (branchKey : Option Nat) (includeTombstones : Bool) : Prop :=
  ∃ states,
    reconstructObjectStates surface ⟨cut, branchKey, includeTombstones⟩ = .ok states ∧
    reconstructObjectStates (surface.visibleAt cut)
      ⟨.latestCommitted, branchKey, includeTombstones⟩ = .ok states

theorem timestamp_mono (h : recordSortKey q ≤ recordSortKey r)
    {timestampUs : Int} (hr : recordVisibleAtCut r (.timestampUs timestampUs) = true) :
    recordVisibleAtCut q (.timestampUs timestampUs) = true := by
  have hle : q.timestampUs ≤ r.timestampUs := by
    rcases Prod.Lex.le_iff.mp h with h | h
    · exact le_of_lt h
    · exact le_of_eq h.1
  simp only [recordVisibleAtCut, decide_eq_true_eq] at hr ⊢
  exact hle.trans hr

/-- A timestamp cut keeps a prefix of every replay. -/
theorem reconstruct_at_timestamp
    (h : reconstructObjectStates surface ⟨.latestCommitted, branchKey, includeTombstones⟩ =
      .ok latest) (timestampUs : Int) :
    ReconstructsAlike surface (.timestampUs timestampUs) branchKey includeTombstones := by
  obtain ⟨hrefs, hall, -⟩ := reconstruct_eq_ok_iff.mp h
  refine reconstruct_visibleAt hrefs ?_ fun key => ?_
  · exact validatePrevRefs_visibleAt hrefs
      fun r hr hvisible q hq hplace hkey hlt => timestamp_mono hlt.le hvisible
  · rw [visibleHistory_cut]
    refine (replayRecords_isOk.mp (hall key)).filter_cut ?_
    exact (List.pairwise_insertionSort _ _).imp fun hle hb => timestamp_mono hle hb

/-- A cut that splits no reference keeps every replay linked. -/
theorem reconstruct_at_unsplit_cut
    (h : reconstructObjectStates surface ⟨.latestCommitted, branchKey, includeTombstones⟩ =
      .ok latest)
    (hcut : ∀ r ∈ surface.records, recordVisibleAtCut r cut = true →
      ¬RefersBeyond surface.records cut r) :
    ReconstructsAlike surface cut branchKey includeTombstones := by
  obtain ⟨hrefs, hall, -⟩ := reconstruct_eq_ok_iff.mp h
  have hshown : ∀ r ∈ surface.records, recordVisibleAtCut r cut = true →
      ∀ q ∈ surface.records, r.prevPlace = some q.place → q.objectKey = r.objectKey →
        recordVisibleAtCut q cut = true := by
    intro r hr hvisible q hq hplace hkey
    by_contra hbeyond
    exact hcut r hr hvisible ⟨q, hq, hplace, hkey, Bool.eq_false_iff.mpr hbeyond⟩
  refine reconstruct_visibleAt hrefs ?_ fun key => ?_
  · exact validatePrevRefs_visibleAt hrefs
      fun r hr hvisible q hq hplace hkey _ => hshown r hr hvisible q hq hplace hkey
  · rw [visibleHistory_cut]
    have hmem : ∀ {r}, r ∈ visibleHistory
        ⟨.latestCommitted, branchKey, includeTombstones⟩ surface.records key →
        r ∈ surface.records ∧ r.objectKey = key := by
      intro r hr
      obtain ⟨hrec, hkey⟩ := mem_visibleHistory.mp hr
      exact ⟨(List.mem_filter.mp hrec).1, hkey⟩
    refine (replayRecords_isOk.mp (hall key)).filter_kept (.inl rfl)
      fun r hr hvisible q hq hplace => ?_
    exact hshown r (hmem hr).1 hvisible q (hmem hq).1 hplace
      ((hmem hq).2.trans (hmem hr).2.symm)

/-- A cut that splits a reference of a replayed record is refused. -/
theorem reconstruct_at_split_cut
    (h : reconstructObjectStates surface ⟨.latestCommitted, branchKey, includeTombstones⟩ =
      .ok latest) (hplaces : PlacesDistinct surface.records)
    (hr : r ∈ visibleRecords ⟨cut, branchKey, includeTombstones⟩ surface.records)
    (hbeyond : RefersBeyond surface.records cut r) :
    reconstructObjectStates surface ⟨cut, branchKey, includeTombstones⟩ =
      .error .refInvalid := by
  obtain ⟨hrefs, hall, -⟩ := reconstruct_eq_ok_iff.mp h
  cases hcut : reconstructObjectStates surface ⟨cut, branchKey, includeTombstones⟩ with
  | ok states =>
    obtain ⟨-, hall, -⟩ := reconstruct_eq_ok_iff.mp hcut
    obtain ⟨q, hq, hplace, hkey, hhidden⟩ := hbeyond
    rcases (replayRecords_isOk.mp (hall r.objectKey)).exists_prev
      (mem_visibleHistory.mpr ⟨hr, rfl⟩) hplace with hnone | ⟨q', hq', hplace'⟩
    · cases hnone
    · -- the record before it stands where the hidden one does
      obtain ⟨hq', hkey'⟩ := mem_visibleHistory.mp hq'
      obtain ⟨hmem', hshown⟩ := List.mem_filter.mp hq'
      obtain rfl := hplaces q' hmem' q hq (hkey'.trans hkey.symm) hplace'
      rw [hhidden, Bool.and_false] at hshown
      cases hshown
  | error e =>
    have hkind : ∀ g ∈ Grouping.grouped CoveObjectRecord.objectKey
        (visibleRecords ⟨cut, branchKey, includeTombstones⟩ surface.records),
        ∀ x ∈ g.2, x.recordKind ≠ .reservedLegacyMaterializedDelta := by
      intro g hg x hx
      obtain ⟨key, records⟩ := g
      obtain ⟨rfl, -⟩ := Grouping.mem_grouped.mp hg
      obtain ⟨hx, hkey⟩ := List.mem_filter.mp hx
      have hhistory : x ∈ visibleHistory ⟨cut, branchKey, includeTombstones⟩ surface.records
          key := mem_visibleHistory.mpr ⟨hx, of_decide_eq_true hkey⟩
      rw [visibleHistory_cut] at hhistory
      exact (replayRecords_isOk.mp (hall key)).kind x (List.mem_filter.mp hhistory).1
    unfold reconstructObjectStates at hcut
    rw [hrefs, Checked.ok_bind] at hcut
    dsimp only at hcut
    cases hstates : statesOfGroups includeTombstones (Grouping.grouped
        CoveObjectRecord.objectKey
        (visibleRecords ⟨cut, branchKey, includeTombstones⟩ surface.records)) with
    | ok states =>
      rw [hstates] at hcut
      cases hcut
    | error e' =>
      rw [hstates] at hcut
      obtain rfl : e' = e := Except.error.inj hcut
      rw [statesOfGroups_error hkind hstates]

/-- **Every timestamp cut, and every commit number cut that splits no reference, has the
states of the records it shows**; a commit number cut that splits one is refused. -/
theorem reconstruct_at_cut {latest : List CoveObjectState}
    (h : reconstructObjectStates surface ⟨.latestCommitted, branchKey, includeTombstones⟩ =
      .ok latest) :
    (∀ timestampUs,
      ReconstructsAlike surface (.timestampUs timestampUs) branchKey includeTombstones) ∧
    (∀ csn, (∀ r ∈ surface.records, r.csn ≤ csn →
        ¬RefersBeyond surface.records (.csn csn) r) →
      ReconstructsAlike surface (.csn csn) branchKey includeTombstones) ∧
    (∀ csn, PlacesDistinct surface.records →
      (∃ r ∈ visibleRecords ⟨.csn csn, branchKey, includeTombstones⟩ surface.records,
        RefersBeyond surface.records (.csn csn) r) →
      reconstructObjectStates surface ⟨.csn csn, branchKey, includeTombstones⟩ =
        .error .refInvalid) := by
  refine ⟨reconstruct_at_timestamp h, fun csn hcut => ?_, fun csn hplaces hsplit => ?_⟩
  · refine reconstruct_at_unsplit_cut h fun r hr hvisible => hcut r hr ?_
    simpa [recordVisibleAtCut] using hvisible
  · obtain ⟨r, hr, hbeyond⟩ := hsplit
    exact reconstruct_at_split_cut h hplaces hr hbeyond

/-- **What a cut does not show has no say in it**: two files whose references are valid have the same
states at a cut when it shows the same records of them, in any order. -/
theorem reconstruct_of_visible {surface' : CoveObjectSurface}
    (h : (surface'.visibleAt cut).records.Perm (surface.visibleAt cut).records)
    (hplaces : ((surface.visibleAt cut).records.map CoveObjectRecord.place).Nodup)
    (hrefs : validatePrevRefs surface.records = .ok ())
    (hrefs' : validatePrevRefs surface'.records = .ok ()) :
    reconstructObjectStates surface' ⟨cut, branchKey, includeTombstones⟩ =
      reconstructObjectStates surface ⟨cut, branchKey, includeTombstones⟩ := by
  have hshown : ∀ surface : CoveObjectSurface,
      visibleRecords ⟨cut, branchKey, includeTombstones⟩ surface.records =
        visibleRecords ⟨.latestCommitted, branchKey, includeTombstones⟩
          (surface.visibleAt cut).records := fun _ => visibleRecords_visibleAt.symm
  have hvisible : (visibleRecords ⟨.latestCommitted, branchKey, includeTombstones⟩
      (surface'.visibleAt cut).records).Perm
      (visibleRecords ⟨.latestCommitted, branchKey, includeTombstones⟩
        (surface.visibleAt cut).records) := h.filter _
  have hnodup : ((visibleRecords ⟨.latestCommitted, branchKey, includeTombstones⟩
      (surface.visibleAt cut).records).map CoveObjectRecord.place).Nodup :=
    hplaces.sublist (List.filter_sublist.map _)
  unfold reconstructObjectStates
  rw [hrefs, hrefs', hshown, hshown surface]
  dsimp only
  rw [statesOfGroups_perm includeTombstones hvisible hnodup]

end Cut

/-! ## A reference across commit numbers -/

/-- A baseline of commit 5, and a later delta of commit 3 in another segment. -/
def lateCommitSurface : CoveObjectSurface where
  records := [{ historyRecord 0 0 5 .baseline none [textProperty 1 ['a']] with timestampUs := 1 },
    { historyRecord 1 0 3 .delta (some ⟨0, 0, 1⟩) [textProperty 2 ['b']] with timestampUs := 2 }]
  catalogued := by
    intro r hr r' hr' _
    simp only [List.mem_cons, List.not_mem_nil, or_false] at hr hr'
    rcases hr with rfl | rfl <;> rcases hr' with rfl | rfl <;> exact ⟨rfl, rfl⟩
  distinct := by
    intro r hr
    simp only [List.mem_cons, List.not_mem_nil, or_false] at hr
    rcases hr with rfl | rfl <;> decide

/-- The cut at time 1 shows the baseline alone. -/
theorem reconstruct_at_first_timestamp :
    ReconstructsAlike lateCommitSurface (.timestampUs 1) none false := by
  obtain ⟨latest, h⟩ : ∃ latest,
      reconstructObjectStates lateCommitSurface .default = .ok latest := ⟨_, rfl⟩
  exact (reconstruct_at_cut h).1 1

/-- The cut at time 1 does not depend on the delta after it. -/
theorem reconstruct_of_visible_first :
    reconstructObjectStates (lateCommitSurface.visibleAt (.timestampUs 1))
        ⟨.timestampUs 1, none, false⟩ =
      reconstructObjectStates lateCommitSurface ⟨.timestampUs 1, none, false⟩ :=
  reconstruct_of_visible (.refl _) (by decide) rfl rfl

/-- The cut at commit 3 shows the delta without its baseline. -/
theorem reconstruct_split_reference :
    (∃ latest, reconstructObjectStates lateCommitSurface .default = .ok latest) ∧
      reconstructObjectStates lateCommitSurface ⟨.csn 3, none, false⟩ = .error .refInvalid :=
  ⟨⟨_, rfl⟩, rfl⟩

end Cove
