import Cove.Map.Segments

/-!
# The rows of a written segment

What `buildTemporalSegments` writes, one lemma for each part.

- `previousRow`: the row before a row in its segment that has its object.
- `getElem?_temporalRowEntries`: **an entry carries its row and refers to the previous row**.
- `buildTemporalSegments_spec`: the segments of a model, one for each group of its rows.
-/

namespace Cove

open Checked

/-! ## References -/

/-- The last of the rows before an index with an identity. -/
def previousRow (rows : List ObjectRow) (index : Nat) (goid : Id16) : Option ObjectRow :=
  (rows.take index).reverse.find? fun row => row.goid = goid

/-- The last index of an identity, counted from a first one. -/
def lastIndex (goid : Id16) : Nat → List ObjectRow → Option Nat
  | _, [] => none
  | first, row :: rows =>
    (lastIndex goid (first + 1) rows).or (if row.goid = goid then some first else none)

/-- The last index is that of the last row. -/
theorem lastIndex_spec (goid : Id16) (first : Nat) (rows : List ObjectRow) :
    match lastIndex goid first rows with
    | none => rows.reverse.find? (fun row => row.goid = goid) = none
    | some index => first ≤ index ∧ ∃ row, rows[index - first]? = some row ∧
        rows.reverse.find? (fun row => row.goid = goid) = some row := by
  induction rows generalizing first with
  | nil => rfl
  | cons row rows ih =>
    have ih := ih (first + 1)
    rw [lastIndex, List.reverse_cons, List.find?_append]
    cases hlast : lastIndex goid (first + 1) rows with
    | some index =>
      rw [hlast] at ih
      obtain ⟨hle, found, hget, hfind⟩ := ih
      rw [Option.some_or, hfind, Option.some_or]
      refine ⟨by omega, found, ?_, rfl⟩
      rw [show index - first = index - (first + 1) + 1 by omega, List.getElem?_cons_succ, hget]
    | none =>
      rw [hlast] at ih
      rw [Option.none_or, ih, Option.none_or]
      by_cases h : row.goid = goid
      · rw [if_pos h]
        exact ⟨le_rfl, row, by simp, by simp [h]⟩
      · simp [h]

theorem getElem?_prevRefsFrom (segmentId first : Nat) (latest : List (Id16 × Nat))
    (rows : List ObjectRow) (i : Nat) :
    (prevRefsFrom segmentId first latest rows)[i]? = rows[i]?.map fun row =>
      if row.recordKind.linked then
        ((lastIndex row.goid first (rows.take i)).or (AssocMap.get row.goid latest)).map
          fun rowIndex => ⟨segmentId, rowIndex, 0⟩
      else none := by
  induction rows generalizing first latest i with
  | nil => rfl
  | cons row rows ih =>
    rw [prevRefsFrom]
    cases i with
    | zero => simp [lastIndex]
    | succ i =>
      rw [List.getElem?_cons_succ, List.getElem?_cons_succ, ih]
      refine congrArg (fun f => rows[i]?.map f) (funext fun target => ?_)
      rw [List.take_succ_cons, lastIndex, AssocMap.get_insert, Option.or_assoc]
      by_cases h : row.goid = target.goid <;> simp [h]

/-- The reference of a row: to the last row before it that has its object. -/
def prevRefOf (segmentId : Nat) (rows : List ObjectRow) (i : Nat) (row : ObjectRow) :
    Option CoveRecordRefV1 :=
  if row.recordKind.linked then
    (lastIndex row.goid 0 (rows.take i)).map fun rowIndex => ⟨segmentId, rowIndex, 0⟩
  else none

variable (segmentId : Nat)

variable (rows : List ObjectRow)

theorem getElem?_temporalPrevRefs (i : Nat) :
    (temporalPrevRefs segmentId rows)[i]? = rows[i]?.map (prevRefOf segmentId rows i) := by
  rw [temporalPrevRefs, getElem?_prevRefsFrom]
  simp only [AssocMap.get_nil, Option.or_none]
  rfl

theorem length_temporalPrevRefs :
    (temporalPrevRefs segmentId rows).length = rows.length := by
  have hgen : ∀ first latest, (prevRefsFrom segmentId first latest rows).length = rows.length := by
    induction rows with
    | nil => exact fun _ _ => rfl
    | cons row rows ih => exact fun _ _ => congrArg (· + 1) (ih _ _)
  exact hgen 0 []

@[simp] theorem length_temporalRowEntries :
    (temporalRowEntries segmentId rows).length = rows.length := by
  simp [temporalRowEntries, length_temporalPrevRefs]

/-- **An entry carries its row and refers to the previous row.** -/
theorem getElem?_temporalRowEntries (i : Nat) :
    (temporalRowEntries segmentId rows)[i]? = rows[i]?.map fun row =>
      temporalRowEntry i row (prevRefOf segmentId rows i row) := by
  rw [temporalRowEntries, List.getElem?_map, List.getElem?_zipIdx, List.zip_eq_zipWith,
    List.getElem?_zipWith, getElem?_temporalPrevRefs]
  cases rows[i]? <;> simp

/-- What the reference of a row refers to. -/
theorem prevRefOf_spec (i : Nat) (row : ObjectRow) :
    match prevRefOf segmentId rows i row with
    | none => row.recordKind.linked = true → previousRow rows i row.goid = none
    | some ref => row.recordKind.linked = true ∧ ref.segmentId = segmentId ∧
        ref.targetKind = 0 ∧ ref.rowIndex < i ∧ ∃ prev, rows[ref.rowIndex]? = some prev ∧
          previousRow rows i row.goid = some prev := by
  have hspec := lastIndex_spec row.goid 0 (rows.take i)
  unfold prevRefOf
  by_cases hlinked : row.recordKind.linked = true
  · rw [if_pos hlinked]
    cases hlast : lastIndex row.goid 0 (rows.take i) with
    | none =>
      rw [hlast] at hspec
      exact fun _ => hspec
    | some index =>
      rw [hlast] at hspec
      obtain ⟨_, prev, hget, hfind⟩ := hspec
      rw [Nat.sub_zero, List.getElem?_take] at hget
      split at hget
      · next hlt => exact ⟨hlinked, rfl, rfl, hlt, prev, hget, hfind⟩
      · cases hget
  · rw [if_neg hlinked]
    exact fun h => absurd h hlinked

/-! ## The segments of a model -/

/-- What a built segment holds: the rows of its group under the properties of their type. -/
structure TemporalSegmentBuild.Written (codec : ValueCodec) (types : List ObjectTypeEntryV1)
    (segment : TemporalSegmentBuild) (objectType : ObjectTypeEntryV1) : Prop where
  found : AssocMap.collected segment.objectTypeId
    (types.map fun ty => (ty.objectTypeId, ty)) = some objectType
  columns : objectType.properties.mapM
    (propertyColumn codec objectType.objectTypeId segment.rows) =
      .ok segment.payload.propertyColumns
  header : segment.payload.header = {
    segmentId := segment.segmentId
    objectTypeId := objectType.objectTypeId
    timeRangeStartUs := 0
    timeRangeEndUs := 0
    csnMin := 0
    csnMax := segment.rows.length - 1
    rowCount := segment.rows.length
    morselCount := if segment.rows.length = 0 then 0 else 1
    morselRowCount := segment.rows.length
    columnCount := objectType.properties.length }
  rows : segment.payload.rows = temporalRowEntries segment.segmentId segment.rows

variable {codec : ValueCodec}

theorem buildTemporalSegment_spec {types : List ObjectTypeEntryV1}
    {group : (Nat × List ObjectRow) × Nat} {segment : TemporalSegmentBuild}
    (h : buildTemporalSegment codec types group = .ok segment) :
    segment.segmentId = group.2 ∧ segment.objectTypeId = group.1.1 ∧ segment.rows = group.1.2 ∧
      ∃ objectType, segment.Written codec types objectType := by
  obtain ⟨⟨objectTypeId, rows⟩, index⟩ := group
  obtain ⟨objectType, hfound, h⟩ := bind_eq_ok.mp h
  have hfound := okOr_eq_ok.mp hfound
  split at h
  · cases h
  · obtain ⟨payload, hpayload, h⟩ := bind_eq_ok.mp h
    obtain rfl := Except.ok.inj h
    refine ⟨rfl, rfl, rfl, objectType, ?_⟩
    unfold temporalSegmentPayload at hpayload
    split at hpayload
    · cases hpayload
    · split at hpayload
      · cases hpayload
      · obtain ⟨columns, hcolumns, hpayload⟩ := bind_eq_ok.mp hpayload
        obtain rfl := Except.ok.inj hpayload
        exact ⟨hfound, hcolumns, rfl, rfl⟩

/-- The segments of a model: one for each group of its rows, numbered in order. -/
theorem buildTemporalSegments_spec {model : MaterializedModel}
    {segments : List TemporalSegmentBuild}
    (h : buildTemporalSegments codec model = .ok segments) :
    segments.map (fun s => (s.objectTypeId, s.rows)) = segmentGroups model.rows ∧
      segments.map TemporalSegmentBuild.segmentId = List.range segments.length ∧
      ∀ segment ∈ segments, ∃ objectType, segment.Written codec model.objectTypes objectType := by
  have hgroups : segments.map (fun s => ((s.objectTypeId, s.rows), s.segmentId)) =
      (segmentGroups model.rows).zipIdx.map id := by
    refine map_eq_of_mapM h fun group segment hsegment => ?_
    obtain ⟨hid, htype, hrows, -⟩ := buildTemporalSegment_spec hsegment
    rw [hid, htype, hrows]
    rfl
  rw [List.map_id] at hgroups
  refine ⟨?_, ?_, fun segment hsegment => ?_⟩
  · have := congrArg (List.map Prod.fst) hgroups
    rwa [List.map_map, List.zipIdx_map_fst] at this
  · have := congrArg (List.map Prod.snd) hgroups
    rw [List.map_map, List.zipIdx_map_snd, ← List.range_eq_range',
      ← List.length_zipIdx (i := 0), ← hgroups, List.length_map] at this
    exact this
  · obtain ⟨group, -, hgroup⟩ := exists_of_mem_mapM h hsegment
    exact (buildTemporalSegment_spec hgroup).2.2.2

end Cove
