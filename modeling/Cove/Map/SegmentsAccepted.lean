import Cove.Map.MaterializedRows
import Cove.Map.SegmentRows

/-!
# Written segments against their validation

The segments a model is written to are validated with the other object sections of their
file. The writer declares every reference to point to a delta, the validator wants the
kind of the row it points to.

- `collected_placedRows`: the validator finds every written row at its place.
- `chainAnchored_written`: every chain of a written segment is anchored.
- `validateTemporalChains_written`: **references are accepted exactly when they point to
  deltas and tombstones**.
-/

namespace Cove

open Checked

/-! ## Written rows at their places -/

variable {entry : TemporalRowEntryV1} {place : RowPlace} {index : Nat} {objectTypeId : Nat}
  {property : PropertyEntryV1} {check : PageCheck} {model : MaterializedModel}

variable {segmentId : Nat} {page : TemporalPropertyPage}

theorem mem_placeRows {rows : List TemporalRowEntryV1} : (place, entry) ∈ placeRows segmentId rows ↔
      place.1 = segmentId ∧ rows[place.2]? = some entry := by
  obtain ⟨id, index⟩ := place
  unfold placeRows
  constructor
  · intro h
    obtain ⟨⟨row, rowIndex⟩, hmem, heq⟩ := List.mem_map.mp h
    cases heq
    exact ⟨rfl, List.mem_zipIdx_iff_getElem?.mp hmem⟩
  · rintro ⟨rfl, hget⟩
    exact List.mem_map.mpr ⟨(entry, index), List.mem_zipIdx_iff_getElem?.mpr hget, rfl⟩

theorem nodup_placeRows (segmentId : Nat) (rows : List TemporalRowEntryV1) :
    ((placeRows segmentId rows).map Prod.fst).Nodup := by
  have hindexes : (placeRows segmentId rows).map Prod.fst =
      (List.range rows.length).map fun index => (segmentId, index) := by
    rw [placeRows, List.map_map, List.range_eq_range', ← List.zipIdx_map_snd, List.map_map]
    rfl
  rw [hindexes]
  exact (List.nodup_range).map fun a b h => (Prod.mk.inj h).2

section Written

variable {codec : ValueCodec} {types : List ObjectTypeEntryV1}
  {segments : List TemporalSegmentBuild}

/-- The entry of a row in its segment. -/
def TemporalSegmentBuild.entryAt (segment : TemporalSegmentBuild) (index : Nat)
    (row : ObjectRow) : TemporalRowEntryV1 :=
  temporalRowEntry index row (prevRefOf segment.segmentId segment.rows index row)

/-- The rows of written segments at their places. -/
def writtenRows (segments : List TemporalSegmentBuild) : List (RowPlace × TemporalRowEntryV1) :=
  segments.flatMap fun segment =>
    placeRows segment.segmentId (temporalRowEntries segment.segmentId segment.rows)

theorem placedRows_written
    (hwritten : ∀ s ∈ segments, ∃ objectType, s.Written codec types objectType) :
    placedRows (segments.map TemporalSegmentBuild.payload) = writtenRows segments := by
  unfold placedRows writtenRows
  rw [List.flatMap_map]
  refine List.flatMap_congr fun segment hsegment => ?_
  obtain ⟨objectType, hw⟩ := hwritten segment hsegment
  rw [hw.header, hw.rows]

theorem mem_writtenRows :
    (place, entry) ∈ writtenRows segments ↔ ∃ segment ∈ segments, place.1 = segment.segmentId ∧
      ∃ row, segment.rows[place.2]? = some row ∧ entry = segment.entryAt place.2 row := by
  unfold writtenRows
  rw [List.mem_flatMap]
  refine exists_congr fun segment => and_congr_right fun _ => ?_
  rw [mem_placeRows, getElem?_temporalRowEntries, Option.map_eq_some_iff]
  exact and_congr_right fun _ => exists_congr fun row => and_congr_right fun _ => eq_comm

theorem nodup_writtenRows
    (hids : segments.map TemporalSegmentBuild.segmentId = List.range segments.length) :
    ((writtenRows segments).map Prod.fst).Nodup := by
  unfold writtenRows
  rw [List.map_flatMap, List.nodup_flatMap]
  refine ⟨fun _ _ => nodup_placeRows _ _, ?_⟩
  have hdistinct : (segments.map TemporalSegmentBuild.segmentId).Nodup := hids ▸ List.nodup_range
  refine (List.pairwise_map.mp hdistinct).imp fun hne place hleft hright => ?_
  obtain ⟨left, hl, rfl⟩ := List.mem_map.mp hleft
  obtain ⟨right, hr, heq⟩ := List.mem_map.mp hright
  exact hne ((mem_placeRows.mp hl).1.symm.trans (heq ▸ (mem_placeRows.mp hr).1))

/-- The validator finds every written row at its place. -/
theorem collected_writtenRows
    (hids : segments.map TemporalSegmentBuild.segmentId = List.range segments.length)
    :
    AssocMap.collected place (writtenRows segments) = some entry ↔
      (place, entry) ∈ writtenRows segments :=
  AssocMap.collected_eq_some (nodup_writtenRows hids)

/-! ## References and chains -/

variable (hids : segments.map TemporalSegmentBuild.segmentId = List.range segments.length)

include hids

variable {segment : TemporalSegmentBuild}

theorem collected_entryAt (hsegment : segment ∈ segments)
    {row : ObjectRow} (hrow : segment.rows[index]? = some row) :
    AssocMap.collected (segment.segmentId, index) (writtenRows segments) =
      some (segment.entryAt index row) :=
  (collected_writtenRows hids).mpr (mem_writtenRows.mpr ⟨segment, hsegment, rfl, row, hrow, rfl⟩)

/-- References go backward in their segment, so the walk from a row ends at an anchor. -/
theorem chainAnchored_written (hsegment : segment ∈ segments)
    {row : ObjectRow} (hrow : segment.rows[index]? = some row) (fuel : Nat)
    (hfuel : index < fuel) (seen : List RowPlace)
    (hseen : ∀ place ∈ seen, place.1 = segment.segmentId → index < place.2) :
    chainAnchored (writtenRows segments) fuel seen (some (segment.segmentId, index)) =
      .ok true := by
  induction fuel generalizing index row seen with
  | zero => omega
  | succ fuel ih =>
    have hnew : seen.contains (segment.segmentId, index) = false := by
      refine Bool.eq_false_iff.mpr fun hmem => ?_
      exact absurd (hseen _ (List.contains_iff_mem.mp hmem) rfl) (lt_irrefl _)
    rw [chainAnchored, hnew, if_neg Bool.false_ne_true, collected_entryAt hids hsegment hrow]
    show (if row.recordKind = .baseline ∨ row.recordKind = .snapshot then _ else _) = _
    split
    · rfl
    · have hspec := prevRefOf_spec segment.segmentId segment.rows index row
      show (if prevRefOf segment.segmentId segment.rows index row = none then _ else
        chainAnchored _ _ _ ((prevRefOf segment.segmentId segment.rows index row).map _)) = _
      cases href : prevRefOf segment.segmentId segment.rows index row with
      | none => rfl
      | some prevRef =>
        rw [href] at hspec
        obtain ⟨-, hid, -, hlt, prev, hprev, -⟩ := hspec
        rw [if_neg (Option.some_ne_none _), Option.map_some, CoveRecordRefV1.place, hid]
        refine ih hprev (by omega) _ fun place hplace hsame => ?_
        rcases List.mem_cons.mp hplace with rfl | hplace
        · exact hlt
        · exact hlt.trans (hseen place hplace hsame)

omit hids in
theorem length_le_writtenRows (hsegment : segment ∈ segments) :
    segment.rows.length ≤ (writtenRows segments).length := by
  have hsub := List.sublist_flatten_of_mem (List.mem_map_of_mem (f := fun s =>
    placeRows s.segmentId (temporalRowEntries s.segmentId s.rows)) hsegment)
  have hlen := hsub.length_le
  rwa [placeRows, List.length_map, List.length_zipIdx, length_temporalRowEntries] at hlen

/-- The reference of a written row is accepted exactly when the row it refers to is a delta
or a tombstone: the writer declares no other kind. -/
theorem validatePrevRefTargetKind_written (hsegment : segment ∈ segments) {row : ObjectRow} :
    validatePrevRefTargetKind (writtenRows segments)
        (prevRefOf segment.segmentId segment.rows index row) = .ok () ↔
      (row.recordKind.linked = true → ∀ prev ∈ previousRow segment.rows index row.goid,
        targetKindForRecordKind prev.recordKind = 0) := by
  have hspec := prevRefOf_spec segment.segmentId segment.rows index row
  unfold validatePrevRefTargetKind
  cases href : prevRefOf segment.segmentId segment.rows index row with
  | none =>
    rw [href] at hspec
    refine iff_of_true rfl fun hlinked prev hprev => ?_
    rw [hspec hlinked] at hprev
    cases hprev
  | some prevRef =>
    rw [href] at hspec
    obtain ⟨hlinked, hid, hkind, -, prev, hget, hprev⟩ := hspec
    have hplace : prevRef.place = (segment.segmentId, prevRef.rowIndex) := by
      rw [CoveRecordRefV1.place, hid]
    dsimp only
    rw [hplace, collected_entryAt hids hsegment hget, hkind, hprev]
    show (if 0 ≠ targetKindForRecordKind prev.recordKind then _ else _) = _ ↔ _
    constructor
    · intro h _ target htarget
      obtain rfl := Option.some.inj htarget
      by_contra hne
      rw [if_pos (Ne.symm hne)] at h
      cases h
    · intro h
      rw [if_neg (not_not_intro (h hlinked prev rfl).symm)]

/-- The checks of one written row. -/
theorem validateTemporalChain_written (hsegment : segment ∈ segments) {row : ObjectRow}
    (hrow : segment.rows[index]? = some row) :
    validateTemporalChain (writtenRows segments)
        ((segment.segmentId, index), segment.entryAt index row) = .ok () ↔
      (row.recordKind.linked = true → ∀ prev ∈ previousRow segment.rows index row.goid,
        targetKindForRecordKind prev.recordKind = 0) := by
  rw [← validatePrevRefTargetKind_written hids hsegment]
  have hlt : index < segment.rows.length := (List.getElem?_eq_some_iff.mp hrow).1
  have hle := length_le_writtenRows hsegment
  have hanchored := chainAnchored_written hids hsegment hrow ((writtenRows segments).length + 1)
    (by omega) [] nofun
  unfold validateTemporalChain
  rw [bind_eq_ok]
  constructor
  · exact fun ⟨_, h, _⟩ => h
  · intro h
    refine ⟨(), h, ?_⟩
    rw [hanchored]
    split <;> rfl

/-- What the validation of references asks of a model's rows: a linked row follows a delta or
a tombstone of its object, or no row of it. -/
def LinkedToUnanchored (rows : List ObjectRow) : Prop :=
  ∀ index row, rows[index]? = some row → row.recordKind.linked = true →
    ∀ prev ∈ previousRow rows index row.goid, targetKindForRecordKind prev.recordKind = 0

/-- **Chains are accepted exactly when every linked row follows a delta or a tombstone.** -/
theorem validateTemporalChains_written
    (hwritten : ∀ s ∈ segments, ∃ objectType, s.Written codec types objectType) :
    validateTemporalChains (segments.map TemporalSegmentBuild.payload) = .ok () ↔
      ∀ segment ∈ segments, LinkedToUnanchored segment.rows := by
  unfold validateTemporalChains
  rw [placedRows_written hwritten, forM_eq_ok]
  constructor
  · intro h segment hsegment index row hrow
    exact (validateTemporalChain_written hids hsegment hrow).mp
      (h _ (mem_writtenRows.mpr ⟨segment, hsegment, rfl, row, hrow, rfl⟩))
  · rintro h ⟨⟨id, index⟩, entry⟩ hmem
    obtain ⟨segment, hsegment, rfl, row, hrow, rfl⟩ := mem_writtenRows.mp hmem
    exact (validateTemporalChain_written hids hsegment hrow).mpr (h segment hsegment index row hrow)

/-- Every reference finds its row. -/
theorem validateSelfContained_written :
    validateSelfContained (writtenRows segments) = .ok () := by
  unfold validateSelfContained
  rw [if_pos]
  refine List.all_eq_true.mpr fun ⟨place, entry⟩ hmem => ?_
  obtain ⟨segment, hsegment, -, row, hrow, rfl⟩ := mem_writtenRows.mp hmem
  have hspec := prevRefOf_spec segment.segmentId segment.rows place.2 row
  show (prevRefOf segment.segmentId segment.rows place.2 row).all _ = true
  cases href : prevRefOf segment.segmentId segment.rows place.2 row with
  | none => rfl
  | some prevRef =>
    rw [href] at hspec
    obtain ⟨-, hid, -, -, prev, hget, -⟩ := hspec
    have hentry := (collected_writtenRows hids).mp (collected_entryAt hids hsegment hget)
    have hplace : prevRef.place = (segment.segmentId, prevRef.rowIndex) := by
      rw [CoveRecordRefV1.place, hid]
    exact List.contains_iff_mem.mpr (hplace ▸ List.mem_map_of_mem (f := Prod.fst) hentry)

end Written

/-! ## One written segment -/

theorem adjacentAll_of_getElem? {α : Type u} {ok : α → α → Bool} {l : List α}
    (h : ∀ i a b, l[i]? = some a → l[i + 1]? = some b → ok a b = true) :
    adjacentAll ok l = true := by
  induction l with
  | nil => rfl
  | cons a l ih =>
    cases l with
    | nil => rfl
    | cons b l =>
      rw [adjacentAll, h 0 a b rfl rfl, Bool.true_and]
      exact ih fun i a b ha hb => h (i + 1) a b ha hb

theorem mem_temporalRowEntries {rows : List ObjectRow} {i : Nat}
    (h : (temporalRowEntries segmentId rows)[i]? = some entry) :
    ∃ row, rows[i]? = some row ∧ entry = temporalRowEntry i row (prevRefOf segmentId rows i row) :=
  by
  rw [getElem?_temporalRowEntries] at h
  obtain ⟨row, hrow, rfl⟩ := Option.map_eq_some_iff.mp h
  exact ⟨row, hrow, rfl⟩

section

variable {codec : ValueCodec} {types : List ObjectTypeEntryV1} {segment : TemporalSegmentBuild}
  {objectType : ObjectTypeEntryV1}

theorem validate_written (hw : segment.Written codec types objectType) :
    segment.payload.validate = .ok () := by
  -- rows are numbered in order
  have hkeys : adjacentAll (fun a b => decide (a.rowKey ≤ b.rowKey)) segment.payload.rows =
      true := by
    rw [hw.rows]
    refine adjacentAll_of_getElem? fun i a b ha hb => decide_eq_true ?_
    obtain ⟨_, -, rfl⟩ := mem_temporalRowEntries ha
    obtain ⟨_, -, rfl⟩ := mem_temporalRowEntries hb
    refine Prod.Lex.toLex_le_toLex.mpr (.inr ⟨rfl, ?_⟩)
    exact Prod.Lex.toLex_le_toLex.mpr (.inl (Nat.lt_succ_self i))
  have hcsns : adjacentAll (fun a b => decide (a.csn ≤ b.csn)) segment.payload.rows = true := by
    rw [hw.rows]
    refine adjacentAll_of_getElem? fun i a b ha hb => decide_eq_true ?_
    obtain ⟨_, -, rfl⟩ := mem_temporalRowEntries ha
    obtain ⟨_, -, rfl⟩ := mem_temporalRowEntries hb
    exact Nat.le_succ i
  have hrefs : (segment.payload.rows.zipIdx.all fun row =>
      row.1.prevRef.all (segment.payload.refBackward row.2)) = true := by
    rw [hw.rows]
    refine List.all_eq_true.mpr fun ⟨entry, i⟩ hmem => ?_
    have hget : (temporalRowEntries segment.segmentId segment.rows)[i]? = some entry :=
      List.mem_zipIdx_iff_getElem?.mp hmem
    obtain ⟨row, -, rfl⟩ := mem_temporalRowEntries hget
    have hspec := prevRefOf_spec segment.segmentId segment.rows i row
    show (prevRefOf segment.segmentId segment.rows i row).all _ = true
    cases href : prevRefOf segment.segmentId segment.rows i row with
    | none => rfl
    | some prevRef =>
      rw [href] at hspec
      obtain ⟨-, hid, -, hlt, -⟩ := hspec
      simp [TemporalSegmentData.refBackward, hw.header, hid, hlt]
  have hstart : segment.payload.startsInRange = true := by
    unfold TemporalSegmentData.startsInRange
    rw [hw.rows, hw.header, List.head?_eq_getElem?]
    cases h : (temporalRowEntries segment.segmentId segment.rows)[0]? with
    | none => rfl
    | some first =>
      obtain ⟨row, -, rfl⟩ := mem_temporalRowEntries h
      rfl
  have hend : segment.payload.endsInRange = true := by
    unfold TemporalSegmentData.endsInRange
    rw [hw.rows, hw.header, List.getLast?_eq_getElem?, length_temporalRowEntries]
    cases h : (temporalRowEntries segment.segmentId segment.rows)[segment.rows.length - 1]? with
    | none => rfl
    | some last =>
      obtain ⟨row, -, rfl⟩ := mem_temporalRowEntries h
      simp [temporalRowEntry]
  unfold TemporalSegmentData.validate
  rw [hkeys, hcsns, hrefs, hstart, hend]
  rfl

/-- A written segment parses when its rows are of published kinds. -/
theorem parseChecks_written (hw : segment.Written codec types objectType)
    (hne : segment.rows ≠ [])
    (hkinds : ∀ row ∈ segment.rows, row.recordKind ≠ .reservedLegacyMaterializedDelta) :
    segment.payload.parseChecks = .ok () := by
  have hlen : segment.rows.length ≠ 0 := fun h => hne (List.length_eq_zero_iff.mp h)
  have hrefs : (segment.payload.rows.any fun row =>
      row.prevRef.any fun prevRef => prevRef.targetKind > 1) = false := by
    rw [hw.rows]
    refine List.any_eq_false.mpr fun entry hmem => ?_
    obtain ⟨i, hi⟩ := List.mem_iff_getElem?.mp hmem
    obtain ⟨row, -, rfl⟩ := mem_temporalRowEntries hi
    have hspec := prevRefOf_spec segment.segmentId segment.rows i row
    show ¬(prevRefOf segment.segmentId segment.rows i row).any _ = true
    cases href : prevRefOf segment.segmentId segment.rows i row with
    | none => exact Bool.false_ne_true
    | some prevRef =>
      rw [href] at hspec
      simp [hspec.2.2.1]
  have hreserved : (segment.payload.rows.any fun row =>
      row.recordKind == .reservedLegacyMaterializedDelta) = false := by
    rw [hw.rows]
    refine List.any_eq_false.mpr fun entry hmem => ?_
    obtain ⟨i, hi⟩ := List.mem_iff_getElem?.mp hmem
    obtain ⟨row, hrow, rfl⟩ := mem_temporalRowEntries hi
    simpa [temporalRowEntry] using hkinds row (List.mem_of_getElem? hrow)
  unfold TemporalSegmentData.parseChecks
  rw [hw.header, hrefs, hreserved, validate_written hw]
  rw [if_neg fun h => hlen h.1, if_neg fun h => hlen h.2]
  rfl

/-! ## The index entry of a written segment -/

/-- The kinds of a segment's index entry are counted apart. -/
theorem countP_kinds {rows : List ObjectRow}
    (hkinds : ∀ row ∈ rows, row.recordKind ≠ .reservedLegacyMaterializedDelta) :
    rows.countP (fun row => row.recordKind = .delta) +
      rows.countP (fun row => row.recordKind = .snapshot) +
      rows.countP (fun row => row.recordKind = .baseline) +
      rows.countP (fun row => row.recordKind = .tombstone) = rows.length := by
  induction rows with
  | nil => rfl
  | cons row rows ih =>
    have hrest := ih fun r hr => hkinds r (List.mem_cons_of_mem _ hr)
    have hkind := hkinds row List.mem_cons_self
    simp only [List.countP_cons, List.length_cons]
    cases h : row.recordKind <;> simp_all <;> omega

theorem min_le_max {goids : List Id16} : goids.min?.getD 0 ≤ goids.max?.getD 0 := by
  cases hmin : goids.min? with
  | none =>
    obtain rfl := List.min?_eq_none_iff.mp hmin
    exact le_rfl
  | some least =>
    obtain ⟨hmem, -⟩ := List.min?_eq_some_iff.mp hmin
    cases hmax : goids.max? with
    | none =>
      obtain rfl := List.max?_eq_none_iff.mp hmax
      cases hmem
    | some greatest => exact (List.max?_eq_some_iff.mp hmax).2 _ hmem

theorem temporalSegmentIndexEntry_valid
    (hkinds : ∀ row ∈ segment.rows, row.recordKind ≠ .reservedLegacyMaterializedDelta) :
    (temporalSegmentIndexEntry segment).validate = .ok () := by
  have hgoids : ¬(temporalSegmentIndexEntry segment).minGoid >
      (temporalSegmentIndexEntry segment).maxGoid := not_lt.mpr min_le_max
  have hcounts : (temporalSegmentIndexEntry segment).deltaCount +
      (temporalSegmentIndexEntry segment).snapshotCount +
      (temporalSegmentIndexEntry segment).baselineCount +
      (temporalSegmentIndexEntry segment).tombstoneCount =
        (temporalSegmentIndexEntry segment).rowCount := countP_kinds hkinds
  unfold TemporalSegmentIndexEntryV1.validate
  rw [if_neg, if_neg hgoids, if_neg (not_not_intro hcounts)]
  rintro (h | h)
  · exact absurd h (lt_irrefl _)
  · exact absurd h (Nat.not_lt_zero _)

theorem map_temporalRowEntries {β : Type u} (segmentId : Nat) (rows : List ObjectRow)
    {f : TemporalRowEntryV1 → β} {g : ObjectRow → β}
    (h : ∀ i row prevRef, f (temporalRowEntry i row prevRef) = g row) :
    (temporalRowEntries segmentId rows).map f = rows.map g := by
  refine List.ext_getElem? fun i => ?_
  rw [List.getElem?_map, List.getElem?_map, getElem?_temporalRowEntries]
  cases rows[i]? with
  | none => rfl
  | some row => exact congrArg some (h i row _)

theorem kindCount_written (hw : segment.Written codec types objectType) (kind : RecordKind) :
    segment.payload.kindCount kind = segment.rows.countP fun row => row.recordKind = kind := by
  have hmap := map_temporalRowEntries segment.segmentId segment.rows
    (f := TemporalRowEntryV1.recordKind) (g := ObjectRow.recordKind) fun _ _ _ => rfl
  have hcount := congrArg (List.countP fun k => decide (k = kind)) hmap
  rw [List.countP_map, List.countP_map] at hcount
  unfold TemporalSegmentData.kindCount
  rw [hw.rows]
  exact hcount

theorem goidRangeAgrees_written (hw : segment.Written codec types objectType) :
    goidRangeAgrees (temporalSegmentIndexEntry segment)
      (segment.payload.rows.map TemporalRowEntryV1.goid) = true := by
  rw [hw.rows, map_temporalRowEntries segment.segmentId segment.rows (g := ObjectRow.goid)
    fun _ _ _ => rfl]
  unfold goidRangeAgrees temporalSegmentIndexEntry
  cases hgoids : segment.rows.map ObjectRow.goid with
  | nil => rfl
  | cons goid goids => simp

theorem objectTypeId_written (hw : segment.Written codec types objectType) :
    objectType.objectTypeId = segment.objectTypeId ∧ objectType ∈ types := by
  obtain ⟨ty, hty, heq⟩ := List.mem_map.mp (List.mem_reverse.mp (AssocMap.mem_of_get hw.found))
  obtain ⟨hid, rfl⟩ := Prod.mk.inj heq
  exact ⟨hid, hty⟩

/-- A written segment agrees with its index entry. -/
theorem validateTemporalSegmentAgainstIndex_written
    (hw : segment.Written codec types objectType) :
    validateTemporalSegmentAgainstIndex (temporalSegmentIndexEntry segment) segment.payload =
      .ok () := by
  have hid := (objectTypeId_written hw).1
  unfold validateTemporalSegmentAgainstIndex
  rw [goidRangeAgrees_written hw]
  simp [kindCount_written hw, hw.header, temporalSegmentIndexEntry, hid]

/-! ## The columns of a written segment -/

theorem propertyColumn_spec {rows : List ObjectRow} {column : TemporalPropertyColumn}
    (h : propertyColumn codec objectTypeId rows property = .ok column) :
    ∃ page, propertyPage codec objectTypeId property rows = .ok page ∧
      column = ⟨property.propertyId, property.logicalType, property.physicalKind, 0, [page]⟩ := by
  obtain ⟨page, hpage, h⟩ := bind_eq_ok.mp h
  exact ⟨page, hpage, (Except.ok.inj h).symm⟩

theorem propertyPage_spec {rows : List ObjectRow}
    (h : propertyPage codec objectTypeId property rows = .ok page) :
    page.morselId = 0 ∧ page.rowCount = rows.length ∧
      page.nullCount = rows.countP fun row => (row.valueOf property.propertyId).isNull := by
  obtain ⟨values, -, h⟩ := bind_eq_ok.mp h
  obtain rfl := Except.ok.inj h
  exact ⟨rfl, rfl, rfl⟩

/-- No row leaves a property that takes no nulls without a value. -/
def HoldsRequired (rows : List ObjectRow) (property : PropertyEntryV1) : Prop :=
  property.nullable = true ∨ ∀ row ∈ rows, (row.valueOf property.propertyId).isNull = false

/-- The page of a property is accepted exactly when a property without nulls has none. -/
theorem validateTemporalPropertyPages_written
    (hw : segment.Written codec types objectType) (hne : segment.rows ≠ [])
    (hpage : propertyPage codec objectType.objectTypeId property segment.rows = .ok page)
    (hcheck : check property page = .ok ()) (column : TemporalPropertyColumn)
    (hcolumn : column.pages = [page]) :
    validateTemporalPropertyPages check property segment.payload column = .ok () ↔
      HoldsRequired segment.rows property := by
  obtain ⟨hmorsel, hrows, hnulls⟩ := propertyPage_spec hpage
  have hlen : segment.rows.length ≠ 0 := fun h => hne (List.length_eq_zero_iff.mp h)
  have hexpected : expectedTemporalMorselCount segment.payload.header = .ok 1 := by
    simp [expectedTemporalMorselCount, hw.header, hlen]
  have hmorselRows : temporalMorselRowCount segment.payload.header 0 =
      .ok segment.rows.length := by
    simp [temporalMorselRowCount, hw.header, hlen]
  have hone : validateTemporalPropertyPage check property segment.payload.header page = .ok () ↔
      HoldsRequired segment.rows property := by
    unfold validateTemporalPropertyPage HoldsRequired
    rw [hmorsel, hmorselRows]
    show (if page.rowCount ≠ segment.rows.length then _ else _) = _ ↔ _
    rw [if_neg (not_not_intro hrows), hcheck, hnulls]
    have hzero : segment.rows.countP (fun row => (row.valueOf property.propertyId).isNull) = 0 ↔
        ∀ row ∈ segment.rows, (row.valueOf property.propertyId).isNull = false := by
      rw [List.countP_eq_zero]
      exact forall₂_congr fun _ _ => Bool.not_eq_true _ ▸ Iff.rfl
    rw [← hzero]
    cases property.nullable <;> simp
  unfold validateTemporalPropertyPages
  have hlength : [page].length = 1 := rfl
  have hmorsels : ([page].map TemporalPropertyPage.morselId).Nodup := List.nodup_singleton _
  rw [hexpected, hcolumn, ← hone, ok_bind, if_neg (not_not_intro hlength),
    if_neg (not_not_intro hmorsels)]
  constructor
  · intro h
    obtain ⟨_, h, -⟩ := bind_eq_ok.mp h
    exact forM_eq_ok.mp h page List.mem_cons_self
  · intro h
    refine bind_eq_ok.mpr ⟨(), forM_eq_ok.mpr fun p hp => ?_, ?_⟩
    · rwa [List.mem_singleton.mp hp]
    · rw [hw.header]
      simp [hrows]

/-- The written columns of a valid type are accepted exactly when no row lacks the value of a
property without nulls. -/
theorem validateTemporalPropertyColumns_written
    (hw : segment.Written codec types objectType) (hne : segment.rows ≠ [])
    (hids : (objectType.properties.map PropertyEntryV1.propertyId).Nodup)
    (hflags : ∀ p ∈ objectType.properties, p.flags &&& propertyFlagBoolDeclaredNumeric = 0)
    (hcheck : ∀ p ∈ objectType.properties, ∀ page,
      propertyPage codec objectType.objectTypeId p segment.rows = .ok page →
        check p page = .ok ()) :
    validateTemporalPropertyColumns check objectType segment.payload = .ok () ↔
      ∀ p ∈ objectType.properties, HoldsRequired segment.rows p := by
  have hcolumnIds : segment.payload.propertyColumns.map TemporalPropertyColumn.columnId =
      objectType.properties.map PropertyEntryV1.propertyId := by
    refine map_eq_of_mapM hw.columns fun p column h => ?_
    obtain ⟨page, -, rfl⟩ := propertyColumn_spec h
    rfl
  have hcount : segment.payload.header.columnCount = segment.payload.propertyColumns.length := by
    have hlen := congrArg List.length hcolumnIds
    rw [List.length_map, List.length_map] at hlen
    rw [hlen, hw.header]
  have hfound : ∀ p ∈ objectType.properties, AssocMap.collected p.propertyId
      (objectType.properties.map fun p => (p.propertyId, p)) = some p := fun p hp => by
    have hnodup : ((objectType.properties.map fun p => (p.propertyId, p)).map Prod.fst).Nodup := by
      rwa [List.map_map]
    exact (AssocMap.collected_eq_some hnodup).mpr (List.mem_map_of_mem hp)
  have hcolumn : ∀ p ∈ objectType.properties, ∀ column,
      propertyColumn codec objectType.objectTypeId segment.rows p = .ok column →
      (validateTemporalPropertyColumn check objectType.properties segment.payload column = .ok () ↔
        HoldsRequired segment.rows p) := by
    intro p hp column hcolumn
    obtain ⟨page, hpage, rfl⟩ := propertyColumn_spec hcolumn
    rw [← validateTemporalPropertyPages_written hw hne hpage (hcheck p hp page hpage)
      ⟨p.propertyId, p.logicalType, p.physicalKind, 0, [page]⟩ rfl]
    unfold validateTemporalPropertyColumn
    rw [hfound p hp]
    simp [hflags p hp]
  unfold validateTemporalPropertyColumns
  rw [if_neg (not_not_intro (hcolumnIds ▸ hids))]
  constructor
  · intro h p hp
    obtain ⟨_, h, -⟩ := bind_eq_ok.mp h
    obtain ⟨column, hmem, hc⟩ := exists_of_mapM_mem hw.columns hp
    exact (hcolumn p hp column hc).mp (forM_eq_ok.mp h column hmem)
  · intro h
    refine bind_eq_ok.mpr ⟨(), forM_eq_ok.mpr fun column hmem => ?_, ?_⟩
    · obtain ⟨p, hp, hc⟩ := exists_of_mem_mapM hw.columns hmem
      exact (hcolumn p hp column hc).mpr (h p hp)
    · rw [if_neg (not_not_intro hcount)]

end

/-! ## The trust manifest -/

section

variable {codec : ValueCodec} {types : List ObjectTypeEntryV1}
  {segments : List TemporalSegmentBuild}

theorem segmentIds_written
    (hwritten : ∀ s ∈ segments, ∃ objectType, s.Written codec types objectType) :
    (segments.map TemporalSegmentBuild.payload).map (fun s => s.header.segmentId) =
      segments.map TemporalSegmentBuild.segmentId := by
  rw [List.map_map]
  refine List.map_congr_left fun segment hsegment => ?_
  obtain ⟨objectType, hw⟩ := hwritten segment hsegment
  show segment.payload.header.segmentId = _
  rw [hw.header]

variable (hids : segments.map TemporalSegmentBuild.segmentId = List.range segments.length)
  (hwritten : ∀ s ∈ segments, ∃ objectType, s.Written codec types objectType)

include hids hwritten

theorem manifestRow_written {row : TemporalRowEntryV1}
    (hrow : (place, row) ∈ writtenRows segments) (hash : Fin (2 ^ 256)) :
    manifestRow (segments.map TemporalSegmentBuild.payload) ⟨place.1, place.2, hash⟩ =
      some row := by
  obtain ⟨segment, hsegment, hplace, objectRow, hget, rfl⟩ := mem_writtenRows.mp hrow
  obtain ⟨objectType, hw⟩ := hwritten segment hsegment
  have hnodup : ((segments.map TemporalSegmentBuild.payload).map
      fun s => s.header.segmentId).Nodup := by
    rw [segmentIds_written hwritten, hids]
    exact List.nodup_range
  have hfind := AssocMap.find?_key hnodup
    (List.mem_map_of_mem (f := TemporalSegmentBuild.payload) hsegment)
  have hid : segment.payload.header.segmentId = place.1 := by rw [hw.header, hplace]
  unfold manifestRow
  rw [hid] at hfind
  rw [hfind, Option.bind_some, hw.rows, getElem?_temporalRowEntries, hget]
  rfl

/-- The manifest verifies against the rows it was written from. -/
theorem verifyAgainst_written (hash : TrustHash) (rows : List (RowPlace × TemporalRowEntryV1))
    (hrows : ∀ r ∈ rows, r ∈ writtenRows segments) (previous : Fin (2 ^ 256)) :
    verifyAgainst hash (segments.map TemporalSegmentBuild.payload) previous
      (trustEntries hash previous rows) = .ok () := by
  induction rows generalizing previous with
  | nil => rfl
  | cons r rows ih =>
    obtain ⟨⟨segmentId, rowIndex⟩, row⟩ := r
    have hrow := manifestRow_written hids hwritten (hrows _ List.mem_cons_self)
      (hash previous row)
    rw [trustEntries, verifyAgainst, hrow]
    show (if hash previous row ≠ hash previous row then _ else _) = _
    rw [if_neg (not_not_intro rfl)]
    exact ih (fun r hr => hrows r (List.mem_cons_of_mem _ hr)) _

omit hids hwritten in
theorem places_trustEntries (hash : TrustHash) (rows : List (RowPlace × TemporalRowEntryV1))
    (previous : Fin (2 ^ 256)) :
    (trustEntries hash previous rows).map (fun e => (e.segmentId, e.rowIndex)) =
      rows.map Prod.fst := by
  induction rows generalizing previous with
  | nil => rfl
  | cons r rows ih => exact congrArg _ (ih _)

theorem validateTrustManifestReferences_written (hash : TrustHash) :
    validateTrustManifestReferences (trustManifest hash segments)
      (segments.map TemporalSegmentBuild.payload) = .ok () := by
  have hplaces : (trustManifest hash segments).map (fun e => (e.segmentId, e.rowIndex)) =
      (writtenRows segments).map Prod.fst := places_trustEntries hash _ 0
  unfold validateTrustManifestReferences
  rw [hplaces, if_neg (not_not_intro (nodup_writtenRows hids)), if_pos]
  refine List.all_eq_true.mpr fun entry hentry => ?_
  have hplace : (entry.segmentId, entry.rowIndex) ∈ (writtenRows segments).map Prod.fst :=
    hplaces ▸ List.mem_map_of_mem hentry
  obtain ⟨⟨place, row⟩, hrow, heq⟩ := List.mem_map.mp hplace
  obtain rfl : place = (entry.segmentId, entry.rowIndex) := heq
  obtain ⟨segment, hsegment, hid, objectRow, hget, -⟩ := mem_writtenRows.mp hrow
  obtain ⟨objectType, hw⟩ := hwritten segment hsegment
  have hnodup : (((segments.map TemporalSegmentBuild.payload).map fun segment =>
      (segment.header.segmentId, segment.rows.length)).map Prod.fst).Nodup := by
    rw [List.map_map]
    have := segmentIds_written hwritten
    rw [hids] at this
    exact this ▸ List.nodup_range
  have hmem : (entry.segmentId, segment.rows.length) ∈
      (segments.map TemporalSegmentBuild.payload).map fun segment =>
        (segment.header.segmentId, segment.rows.length) := by
    refine List.mem_map.mpr ⟨segment.payload, List.mem_map_of_mem hsegment, ?_⟩
    rw [hw.header, hw.rows, length_temporalRowEntries]
    exact congrArg (·, _) hid.symm
  rw [(AssocMap.collected_eq_some hnodup).mpr hmem]
  exact decide_eq_true (List.getElem?_eq_some_iff.mp hget).1

/-! ## The sections of a file -/

omit hwritten in
theorem nodup_indexKeys :
    ((temporalSegmentIndex segments).map fun e => (e.objectTypeId, e.segmentId)).Nodup := by
  have hnodup : (((temporalSegmentIndex segments).map fun e =>
      (e.objectTypeId, e.segmentId)).map Prod.snd).Nodup := by
    rw [List.map_map, temporalSegmentIndex, List.map_map]
    show (segments.map TemporalSegmentBuild.segmentId).Nodup
    exact hids ▸ List.nodup_range
  exact hnodup.of_map

omit hwritten in
/-- A written segment is accepted exactly when its rows hold what their type requires. -/
theorem validateTemporalSegment_written {segment : TemporalSegmentBuild}
    (hsegment : segment ∈ segments) {objectType : ObjectTypeEntryV1}
    (hw : segment.Written codec types objectType) (hne : segment.rows ≠ [])
    (hproperties : (objectType.properties.map PropertyEntryV1.propertyId).Nodup)
    (hflags : ∀ p ∈ objectType.properties, p.flags &&& propertyFlagBoolDeclaredNumeric = 0)
    (hcheck : ∀ p ∈ objectType.properties, ∀ page,
      propertyPage codec objectType.objectTypeId p segment.rows = .ok page →
        check p page = .ok ()) :
    validateTemporalSegment check types (temporalSegmentIndex segments) segment.payload =
        .ok () ↔ ∀ p ∈ objectType.properties, HoldsRequired segment.rows p := by
  have hid := (objectTypeId_written hw).1
  have hentry : AssocMap.collected (segment.objectTypeId, segment.segmentId)
      ((temporalSegmentIndex segments).map fun e => ((e.objectTypeId, e.segmentId), e)) =
        some (temporalSegmentIndexEntry segment) := by
    refine (AssocMap.collected_eq_some ?_).mpr ?_
    · rw [List.map_map]
      exact nodup_indexKeys hids
    · exact List.mem_map.mpr ⟨temporalSegmentIndexEntry segment,
        List.mem_map_of_mem hsegment, rfl⟩
  have htype : segment.payload.header.objectTypeId = segment.objectTypeId := by
    rw [hw.header, hid]
  have hsegmentId : segment.payload.header.segmentId = segment.segmentId := by rw [hw.header]
  rw [← validateTemporalPropertyColumns_written hw hne hproperties hflags hcheck]
  unfold validateTemporalSegment
  rw [htype, hsegmentId, hw.found]
  dsimp only
  rw [hentry]
  dsimp only
  rw [validateTemporalSegmentAgainstIndex_written hw, ok_bind]

/-- **Written segments are accepted exactly when** the catalog of their types is valid,
linked rows follow deltas and tombstones, and required properties are there. -/
theorem validateCoveOSemantics_written (check : PageCheck) (hash : TrustHash)
    (hne : ∀ segment ∈ segments, segment.rows ≠ [])
    (hkinds : ∀ segment ∈ segments, ∀ row ∈ segment.rows,
      row.recordKind ≠ .reservedLegacyMaterializedDelta)
    (hflags : ∀ objectType ∈ types, ∀ p ∈ objectType.properties,
      p.flags &&& propertyFlagBoolDeclaredNumeric = 0)
    (hcheck : ∀ segment ∈ segments, ∀ objectType ∈ types,
      objectType.objectTypeId = segment.objectTypeId → ∀ p ∈ objectType.properties, ∀ page,
        propertyPage codec objectType.objectTypeId p segment.rows = .ok page →
          check p page = .ok ()) :
    validateCoveOSemantics check hash {
        catalog := types
        index := temporalSegmentIndex segments
        segments := segments.map TemporalSegmentBuild.payload
        trustManifest := trustManifest hash segments } = .ok () ↔
      objectTypeCatalogValid types = true ∧
      (∀ segment ∈ segments, LinkedToUnanchored segment.rows) ∧
      ∀ segment ∈ segments, ∀ objectType ∈ types,
        objectType.objectTypeId = segment.objectTypeId →
          ∀ p ∈ objectType.properties, HoldsRequired segment.rows p := by
  have hindex : validateSegmentIndex (temporalSegmentIndex segments) = .ok () := by
    unfold validateSegmentIndex
    rw [if_neg (not_not_intro (nodup_indexKeys hids)), forM_eq_ok]
    intro entry hentry
    obtain ⟨segment, hsegment, rfl⟩ := List.mem_map.mp hentry
    exact temporalSegmentIndexEntry_valid (hkinds segment hsegment)
  have hparse : (segments.map TemporalSegmentBuild.payload).forM
      TemporalSegmentData.parseChecks = .ok () := by
    refine forM_eq_ok.mpr fun payload hpayload => ?_
    obtain ⟨segment, hsegment, rfl⟩ := List.mem_map.mp hpayload
    obtain ⟨objectType, hw⟩ := hwritten segment hsegment
    exact parseChecks_written hw (hne segment hsegment) (hkinds segment hsegment)
  unfold validateCoveOSemantics
  cases hcatalog : objectTypeCatalogValid types with
  | false => exact iff_of_false nofun fun h => Bool.false_ne_true h.1
  | true =>
    obtain ⟨htypeIds, hproperties⟩ := Bool.and_eq_true_iff.mp hcatalog
    have htypeIds := of_decide_eq_true htypeIds
    have hsegments : (segments.map TemporalSegmentBuild.payload).forM
        (validateTemporalSegment check types (temporalSegmentIndex segments)) = .ok () ↔
          ∀ segment ∈ segments, ∀ objectType ∈ types,
            objectType.objectTypeId = segment.objectTypeId →
              ∀ p ∈ objectType.properties, HoldsRequired segment.rows p := by
      rw [forM_eq_ok, List.forall_mem_map]
      refine forall₂_congr fun segment hsegment => ?_
      obtain ⟨objectType, hw⟩ := hwritten segment hsegment
      obtain ⟨hid, hmem⟩ := objectTypeId_written hw
      have hproperties := Bool.and_eq_true_iff.mp (List.all_eq_true.mp hproperties _ hmem)
      rw [validateTemporalSegment_written hids hsegment hw (hne segment hsegment)
        (of_decide_eq_true hproperties.1) (hflags _ hmem) (hcheck segment hsegment _ hmem hid)]
      refine ⟨fun h ty hty hsame => ?_, fun h => h objectType hmem hid⟩
      -- the catalog lists one type under the segment's id
      obtain rfl : ty = objectType :=
        List.inj_on_of_nodup_map htypeIds hty hmem (hsame.trans hid.symm)
      exact h
    have hkeys : ((segments.map TemporalSegmentBuild.payload).map fun s =>
        (s.header.objectTypeId, s.header.segmentId)).Nodup := by
      refine List.Nodup.of_map Prod.snd ?_
      rw [List.map_map]
      show ((segments.map TemporalSegmentBuild.payload).map fun s => s.header.segmentId).Nodup
      rw [segmentIds_written hwritten, hids]
      exact List.nodup_range
    have hlengths : (segments.map TemporalSegmentBuild.payload).length =
        (temporalSegmentIndex segments).length := by
      rw [List.length_map, temporalSegmentIndex, List.length_map]
    have hmanifest := verifyAgainst_written hids hwritten hash (writtenRows segments)
      (fun _ h => h) 0
    rw [← validateTemporalChains_written hids hwritten, ← hsegments]
    show (validateSegmentIndex (temporalSegmentIndex segments) >>= fun _ =>
      (segments.map TemporalSegmentBuild.payload).forM TemporalSegmentData.parseChecks >>= fun _ =>
        validateCoveOCrossSections check hash _) = _ ↔ _
    rw [hindex, ok_bind, hparse, ok_bind]
    unfold validateCoveOCrossSections
    dsimp only
    cases segments with
    | nil => exact iff_of_true rfl ⟨rfl, rfl, rfl⟩
    | cons segment segments =>
      rw [List.map_cons, List.isEmpty_cons, if_neg Bool.false_ne_true, ← List.map_cons,
        placedRows_written hwritten, validateSelfContained_written hids, ok_bind]
      constructor
      · intro h
        obtain ⟨_, hchains, h⟩ := bind_eq_ok.mp h
        obtain ⟨_, hsegments, -⟩ := bind_eq_ok.mp h
        exact ⟨rfl, hchains, hsegments⟩
      · rintro ⟨-, hchains, hsegments⟩
        rw [hchains, ok_bind, hsegments, ok_bind,
          if_neg (not_or.mpr ⟨not_not_intro hkeys, not_not_intro hlengths⟩),
          validateTrustManifestReferences_written hids hwritten, ok_bind]
        exact hmanifest

end

/-! ## The segments of a materialized model -/

/-- The rows of a model under an object type, in the order of its segment. -/
def rowsOfType (rows : List ObjectRow) (objectTypeId : Nat) : List ObjectRow :=
  segmentOrder (rows.filter fun row => row.objectTypeId = objectTypeId)

theorem mem_segmentOrder {rows : List ObjectRow} {row : ObjectRow} :
    row ∈ segmentOrder rows ↔ row ∈ rows := (List.perm_insertionSort _ _).mem_iff

/-- A group of a model's rows is the rows of its type. -/
theorem mem_segmentGroups {rows group : List ObjectRow} :
    (objectTypeId, group) ∈ segmentGroups rows ↔
      group = rowsOfType rows objectTypeId ∧ group ≠ [] := by
  unfold segmentGroups rowsOfType
  constructor
  · intro h
    obtain ⟨⟨id, members⟩, hmem, heq⟩ := List.mem_map.mp h
    cases heq
    obtain ⟨rfl, hne⟩ := Grouping.mem_grouped.mp hmem
    exact ⟨rfl, fun hnil => hne (List.perm_nil.mp
      (hnil ▸ (List.perm_insertionSort _ _).symm))⟩
  · rintro ⟨rfl, hne⟩
    refine List.mem_map.mpr ⟨(objectTypeId, rows.filter fun row => row.objectTypeId = objectTypeId),
      Grouping.mem_grouped.mpr ⟨rfl, fun hnil => hne ?_⟩, rfl⟩
    rw [hnil]
    rfl

/-- The segments of a model hold the rows of its types. -/
theorem rows_of_segments {codec : ValueCodec} {segments : List TemporalSegmentBuild}
    (h : buildTemporalSegments codec model = .ok segments) :
    (∀ segment ∈ segments, segment.rows = rowsOfType model.rows segment.objectTypeId ∧
      segment.rows ≠ []) ∧
    ∀ objectTypeId, rowsOfType model.rows objectTypeId ≠ [] →
      ∃ segment ∈ segments, segment.objectTypeId = objectTypeId := by
  obtain ⟨hgroups, -, -⟩ := buildTemporalSegments_spec h
  refine ⟨fun segment hsegment => ?_, fun objectTypeId hne => ?_⟩
  · exact mem_segmentGroups.mp (hgroups ▸ List.mem_map_of_mem
      (f := fun s : TemporalSegmentBuild => (s.objectTypeId, s.rows)) hsegment)
  · have hmem : (objectTypeId, rowsOfType model.rows objectTypeId) ∈ segmentGroups model.rows :=
      mem_segmentGroups.mpr ⟨rfl, hne⟩
    rw [← hgroups] at hmem
    obtain ⟨segment, hsegment, heq⟩ := List.mem_map.mp hmem
    exact ⟨segment, hsegment, (Prod.mk.inj heq).1⟩

theorem mem_rowsOfType {rows : List ObjectRow} {row : ObjectRow} :
    row ∈ rowsOfType rows objectTypeId ↔ row ∈ rows ∧ row.objectTypeId = objectTypeId := by
  unfold rowsOfType
  rw [mem_segmentOrder, List.mem_filter, decide_eq_true_iff]

/-- The values of a model are encodable: the pages they are written to pass their checks. -/
def PagesAccepted (codec : ValueCodec) (check : PageCheck) (model : MaterializedModel) : Prop :=
  ∀ objectType ∈ model.objectTypes, ∀ p ∈ objectType.properties, ∀ page,
    propertyPage codec objectType.objectTypeId p
      (rowsOfType model.rows objectType.objectTypeId) = .ok page → check p page = .ok ()

/-- When the validation accepts the segments of a model: its catalog is valid, a linked row
follows a delta or tombstone of its object, and required properties have their values. -/
structure SegmentsValid (model : MaterializedModel) : Prop where
  catalog : objectTypeCatalogValid model.objectTypes = true
  linked : ∀ objectTypeId, LinkedToUnanchored (rowsOfType model.rows objectTypeId)
  required : ∀ objectType ∈ model.objectTypes, ∀ p ∈ objectType.properties,
    HoldsRequired (rowsOfType model.rows objectType.objectTypeId) p

/-- The segments of a model whose rows are of published kinds. -/
theorem validate_segments {codec : ValueCodec}
    {segments : List TemporalSegmentBuild} (hash : TrustHash)
    (hkinds : ∀ row ∈ model.rows, row.recordKind ≠ .reservedLegacyMaterializedDelta)
    (hflags : ∀ objectType ∈ model.objectTypes, ∀ p ∈ objectType.properties,
      p.flags &&& propertyFlagBoolDeclaredNumeric = 0)
    (hbuild : buildTemporalSegments codec model = .ok segments)
    (hcheck : PagesAccepted codec check model) :
    validateCoveOSemantics check hash (coveOSections hash model segments) = .ok () ↔
      SegmentsValid model := by
  obtain ⟨-, hids, hwritten⟩ := buildTemporalSegments_spec hbuild
  obtain ⟨hrows, hsegmentOf⟩ := rows_of_segments hbuild
  have hmodelRows : ∀ segment ∈ segments, ∀ row ∈ segment.rows, row ∈ model.rows := by
    intro segment hsegment row hrow
    rw [(hrows segment hsegment).1] at hrow
    exact (mem_rowsOfType.mp hrow).1
  have hiff := validateCoveOSemantics_written hids hwritten check hash
    (fun segment hsegment => (hrows segment hsegment).2)
    (fun segment hsegment row hrow => hkinds row (hmodelRows segment hsegment row hrow))
    hflags
    (fun segment hsegment objectType htype hid p hp page hpage =>
      hcheck objectType htype p hp page (by
        rwa [hid, ← (hrows segment hsegment).1, ← hid]))
  refine hiff.trans ⟨fun ⟨hcatalog, hlinked, hrequired⟩ => ?_, fun h => ?_⟩
  · refine ⟨hcatalog, fun objectTypeId => ?_, fun objectType htype p hp => ?_⟩
    · by_cases hne : rowsOfType model.rows objectTypeId = []
      · rw [hne]
        exact fun index row hrow => nomatch hrow
      · obtain ⟨segment, hsegment, rfl⟩ := hsegmentOf objectTypeId hne
        exact (hrows segment hsegment).1 ▸ hlinked segment hsegment
    · by_cases hne : rowsOfType model.rows objectType.objectTypeId = []
      · rw [hne]
        exact .inr fun row hrow => nomatch hrow
      · obtain ⟨segment, hsegment, hid⟩ := hsegmentOf _ hne
        have := hrequired segment hsegment objectType htype hid.symm p hp
        rwa [(hrows segment hsegment).1, hid] at this
  · refine ⟨h.catalog, fun segment hsegment => ?_, fun segment hsegment objectType htype hid => ?_⟩
    · rw [(hrows segment hsegment).1]
      exact h.linked _
    · rw [(hrows segment hsegment).1, ← hid]
      exact h.required objectType htype

/-- **The segments of a materialized model are accepted exactly when** they are valid. -/
theorem segments_accepted_iff {ext : Externals} {file : CovemapFile}
    {sourceRows : List SourceRow} {states : List ObservedSourceState} {model : MaterializedModel}
    {codec : ValueCodec} {check : PageCheck} {segments : List TemporalSegmentBuild}
    (hash : TrustHash)
    (hmodel : materializeWithSourceStates ext file sourceRows states = .ok model)
    (hbuild : buildTemporalSegments codec model = .ok segments)
    (hcheck : PagesAccepted codec check model) :
    validateCoveOSemantics check hash (coveOSections hash model segments) = .ok () ↔
      SegmentsValid model := by
  obtain ⟨c⟩ := conversion_of_materialize hmodel
  exact validate_segments hash (fun row hrow => c.recordKind_published hrow)
    (fun objectType htype p hp => c.flags_objectTypes htype hp) hbuild hcheck

/-! ### A small mapping -/

/-- No nested values and no dictionary. -/
def Sample.codec : ValueCodec :=
  ⟨fun v => TextOps.utf8Bytes (compactText v), fun _ => none,
    fun _ _ _ => .error "no dictionary".toList, fun _ _ _ => .error .refInvalid, fun _ _ => .ok⟩

/-- A model with its segments. -/
def modelAndSegments (ext : Externals) (codec : ValueCodec) (file : CovemapFile)
    (sourceRows : List SourceRow) :
    Except Text (MaterializedModel × List TemporalSegmentBuild) := do
  let model ← materializeWithSourceStates ext file sourceRows []
  let segments ← buildTemporalSegments codec model
  .ok (model, segments)

theorem modelAndSegments_eq_ok {ext : Externals} {codec : ValueCodec} {file : CovemapFile}
    {sourceRows : List SourceRow}
    {segments : List TemporalSegmentBuild}
    (h : modelAndSegments ext codec file sourceRows = .ok (model, segments)) :
    materializeWithSourceStates ext file sourceRows [] = .ok model ∧
      buildTemporalSegments codec model = .ok segments := by
  obtain ⟨m, hmodel, h⟩ := bind_eq_ok.mp h
  obtain ⟨s, hsegments, h⟩ := bind_eq_ok.mp h
  obtain ⟨rfl, rfl⟩ := Prod.mk.inj (Except.ok.inj h)
  exact ⟨hmodel, hsegments⟩

/-- Two sources upsert one object, each with its own property. -/
def Sample.upserts : CovemapFile :=
  file [rowRule sourceA .upsert [textBinding sourceA], rowRule sourceB .upsert [textBinding sourceB]]

/-- One source upserts an object, the other patches it. -/
def Sample.upsertAndPatch : CovemapFile :=
  file [rowRule sourceA .upsert [], rowRule sourceB .patchProperty []]

def Sample.rows : List SourceRow :=
  [row sourceA 0 [("a", "v"), ("k", "x")], row sourceB 1 [("b", "w"), ("k", "x")]]

/-- A result and what it is. -/
theorem exists_ok_of_any {ε : Type u} {α : Type v} {x : Except ε α} {p : α → Bool}
    (h : x.toOption.any p = true) : ∃ a, x = .ok a ∧ p a = true := by
  cases x with
  | error e => cases h
  | ok a => exact ⟨a, rfl, h⟩

set_option maxRecDepth 10000 in
theorem segments_accepted_upserts : ∃ model segments,
    modelAndSegments .ascii Sample.codec Sample.upserts Sample.rows = .ok (model, segments) ∧
    (validateCoveOSemantics (fun _ _ => .ok ()) (fun _ _ => 0)
      (coveOSections (fun _ _ => 0) model segments) = .ok () ↔ SegmentsValid model) := by
  obtain ⟨⟨model, segments⟩, h, -⟩ := exists_ok_of_any (p := fun _ => true)
    (x := modelAndSegments .ascii Sample.codec Sample.upserts Sample.rows) (by decide +kernel)
  obtain ⟨hmodel, hsegments⟩ := modelAndSegments_eq_ok h
  exact ⟨model, segments, h,
    segments_accepted_iff _ hmodel hsegments fun _ _ _ _ _ _ => rfl⟩

set_option maxRecDepth 10000 in
/-- The patch refers to the upsert as to a delta, and the validation rejects it. -/
theorem patch_after_upsert_rejected : ∃ model segments,
    modelAndSegments .ascii Sample.codec Sample.upsertAndPatch Sample.rows =
      .ok (model, segments) ∧
    PagesAccepted Sample.codec (fun _ _ => .ok ()) model ∧
    validateCoveOSemantics (fun _ _ => .ok ()) (fun _ _ => 0)
      (coveOSections (fun _ _ => 0) model segments) = .error .refInvalid := by
  obtain ⟨⟨model, segments⟩, h, hrejected⟩ := exists_ok_of_any
    (p := fun r => decide (validateCoveOSemantics (fun _ _ => .ok ()) (fun _ _ => 0)
      (coveOSections (fun _ _ => 0) r.1 r.2) = .error .refInvalid))
    (x := modelAndSegments .ascii Sample.codec Sample.upsertAndPatch Sample.rows)
    (by decide +kernel)
  exact ⟨model, segments, h, fun _ _ _ _ _ _ => rfl, of_decide_eq_true hrejected⟩

end Cove
