import Cove.Map.SegmentsAccepted
import Cove.ObjectTemporal.FullRecords
import Cove.ObjectTemporal.SegmentRecords

/-!
# Surviving values after a round trip

Conflict resolution leaves a surviving property on the row of its source. Written as
baselines and read back, the rows of an object replace each other, so that only the
properties of the last row are left.

- `readBack`: a value written to a column and read again.
- `recordsFromSegment_written`: **reading a written segment gives its rows back**.
- `states_kept_iff`: **when every surviving value is in the state of its object**.
-/

namespace Cove

open Checked

/-! ## A value -/

/-- A value written to a column and read again. -/
def readBack (codec : ValueCodec) (objectTypeId : Nat) (property : PropertyEntryV1)
    (value : Json) : Option Json :=
  (storeValue codec objectTypeId property value).toOption.bind fun stored =>
    (decodePropertyValue codec objectTypeId property stored).toOption

/-- The value of a property on a row, written and read again. -/
def ObjectRow.readValue (codec : ValueCodec) (objectTypeId : Nat) (row : ObjectRow)
    (property : PropertyEntryV1) : Option Json :=
  readBack codec objectTypeId property (row.valueOf property.propertyId)

/-! ## A column -/

variable {property : PropertyEntryV1} {row : ObjectRow} {rows : List ObjectRow}

variable {column : TemporalPropertyColumn}

section

variable {codec : ValueCodec} {types : List ObjectTypeEntryV1} {segment : TemporalSegmentBuild}
  {objectType : ObjectTypeEntryV1}

/-- Reading a written column gives the value of every row. -/
theorem decodePropertyColumn_written (hw : segment.Written codec types objectType)
    (hcolumn : propertyColumn codec objectType.objectTypeId segment.rows property = .ok column)
    {values : List Json} :
    decodePropertyColumn codec segment.payload property column = .ok values ↔
      values.map some = segment.rows.map fun row =>
        row.readValue codec objectType.objectTypeId property := by
  obtain ⟨page, hpage, rfl⟩ := propertyColumn_spec hcolumn
  obtain ⟨hmorsel, hrows, -⟩ := propertyPage_spec hpage
  obtain ⟨stored, hstored, hpage⟩ := bind_eq_ok.mp hpage
  obtain rfl := Except.ok.inj hpage
  have hlen : stored.length = segment.rows.length := (mapM_eq_ok.mp hstored).length_eq.symm
  have hpayload : segment.payload.rows.length = segment.rows.length := by
    rw [hw.rows, length_temporalRowEntries]
  have htype : segment.payload.header.objectTypeId = objectType.objectTypeId := by rw [hw.header]
  refine Iff.trans ?_ (mapM_mapM_eq_ok hstored (g := decodePropertyValue codec
    objectType.objectTypeId property))
  unfold decodePropertyColumn
  simp only [List.foldlM_cons, List.foldlM_nil, bind_pure, hpayload]
  unfold decodePage
  dsimp only
  rw [Nat.zero_mul, Nat.zero_add, List.length_replicate, if_neg (lt_irrefl _), hlen,
    if_neg (not_not_intro rfl), htype, bind_eq_ok]
  simp

/-! ## A segment -/

/-- A value of a record read back from a written segment. -/
def writtenProperty (codec : ValueCodec) (objectTypeId : Nat) (row : ObjectRow)
    (property : PropertyEntryV1) : CoveObjectPropertyValue where
  propertyId := property.propertyId
  propertyName := property.propertyName
  logicalType := property.logicalType
  physicalKind := property.physicalKind
  flags := UInt32.ofNat property.flags
  value := (row.readValue codec objectTypeId property).getD .null

/-- The record read back for a row of a written segment. -/
def TemporalSegmentBuild.recordAt (segment : TemporalSegmentBuild) (codec : ValueCodec)
    (objectType : ObjectTypeEntryV1) (index : Nat) (row : ObjectRow) : CoveObjectRecord :=
  recordFromRow segment.segmentId objectType (segment.entryAt index row) index
    (objectType.properties.map (writtenProperty codec objectType.objectTypeId row))

/-- The values of a type's rows all read back. -/
def Readable (codec : ValueCodec) (objectType : ObjectTypeEntryV1) (rows : List ObjectRow) :
    Prop :=
  ∀ p ∈ objectType.properties, ∀ row ∈ rows,
    (row.readValue codec objectType.objectTypeId p).isSome

theorem decodedColumn_written (hw : segment.Written codec types objectType)
    (hids : (objectType.properties.map PropertyEntryV1.propertyId).Nodup)
    (hproperty : property ∈ objectType.properties)
    (hcolumn : propertyColumn codec objectType.objectTypeId segment.rows property = .ok column)
    {decoded : PropertyEntryV1 × List Json} :
    decodedColumn codec segment.payload objectType column = .ok decoded ↔
      decoded.1 = property ∧ decoded.2.map some = segment.rows.map fun row =>
        row.readValue codec objectType.objectTypeId property := by
  have hid : column.columnId = property.propertyId := by
    obtain ⟨page, -, rfl⟩ := propertyColumn_spec hcolumn
    rfl
  have hfound : AssocMap.collected property.propertyId
      (objectType.properties.map fun p => (p.propertyId, p)) = some property := by
    refine (AssocMap.collected_eq_some ?_).mpr (List.mem_map_of_mem hproperty)
    rwa [List.map_map]
  unfold decodedColumn
  rw [hid, hfound, ← decodePropertyColumn_written hw hcolumn]
  dsimp only
  rw [bind_eq_ok]
  constructor
  · rintro ⟨values, hvalues, h⟩
    obtain rfl := Except.ok.inj h
    exact ⟨rfl, hvalues⟩
  · rintro ⟨rfl, h⟩
    exact ⟨decoded.2, h, rfl⟩

/-- A column as it is read: its property, and the value of every row. -/
def ColumnOf (codec : ValueCodec) (objectTypeId : Nat) (rows : List ObjectRow)
    (property : PropertyEntryV1) (column : PropertyEntryV1 × List Json) : Prop :=
  column.1 = property ∧
    column.2.map some = rows.map fun row => row.readValue codec objectTypeId property

theorem decodedColumns_written (hw : segment.Written codec types objectType)
    (hids : (objectType.properties.map PropertyEntryV1.propertyId).Nodup)
    {columns : List (PropertyEntryV1 × List Json)} :
    segment.payload.propertyColumns.mapM (decodedColumn codec segment.payload objectType) =
        .ok columns ↔
      List.Forall₂ (ColumnOf codec objectType.objectTypeId segment.rows)
        objectType.properties columns := by
  have hstep : ∀ p ∈ objectType.properties, ∀ column,
      ((propertyColumn codec objectType.objectTypeId segment.rows p).toOption.bind fun c =>
        (decodedColumn codec segment.payload objectType c).toOption) = some column ↔
      ColumnOf codec objectType.objectTypeId segment.rows p column := by
    intro p hp column
    obtain ⟨written, -, hwritten⟩ := exists_of_mapM_mem hw.columns hp
    rw [hwritten]
    refine Iff.trans ?_ (decodedColumn_written hw hids hp hwritten)
    show (decodedColumn codec segment.payload objectType written).toOption = some column ↔ _
    cases decodedColumn codec segment.payload objectType written with
    | error e => exact ⟨nofun, nofun⟩
    | ok c => exact ⟨fun h => congrArg _ (Option.some.inj h), fun h => congrArg _ (Except.ok.inj h)⟩
  rw [mapM_mapM_eq_ok hw.columns, map_some_eq_iff]
  exact ⟨forall₂_imp_of_mem fun p hp column => (hstep p hp column).mp,
    forall₂_imp_of_mem fun p hp column => (hstep p hp column).mpr⟩

/-- The properties of a row in columns that are read. -/
theorem columnProperty_of {objectTypeId index : Nat} (hrow : rows[index]? = some row)
    {column : PropertyEntryV1 × List Json}
    (hcolumn : ColumnOf codec objectTypeId rows property column) :
    columnProperty index column = writtenProperty codec objectTypeId row property := by
  obtain ⟨rfl, hvalues⟩ := hcolumn
  have hvalue := congrArg (fun l : List (Option Json) => l[index]?) hvalues
  simp only [List.getElem?_map, hrow, Option.map_some] at hvalue
  have hget : column.2.getD index .null =
      (row.readValue codec objectTypeId column.1).getD .null := by
    rw [List.getD_eq_getElem?_getD]
    cases hc : column.2[index]? with
    | none =>
      rw [hc] at hvalue
      cases hvalue
    | some v =>
      rw [hc] at hvalue
      rw [← Option.some.inj hvalue]
  unfold columnProperty writtenProperty
  rw [hget]

/-- **Reading a written segment gives its rows back**, when their values read back. -/
theorem recordsFromSegment_written (hw : segment.Written codec types objectType)
    (hids : (objectType.properties.map PropertyEntryV1.propertyId).Nodup)
    {records : List CoveObjectRecord} :
    recordsFromSegment codec segment.payload objectType = .ok records ↔
      Readable codec objectType segment.rows ∧
        records = segment.rows.zipIdx.map fun row =>
          segment.recordAt codec objectType row.2 row.1 := by
  have hrecords : ∀ columns,
      List.Forall₂ (ColumnOf codec objectType.objectTypeId segment.rows)
        objectType.properties columns →
      (segment.payload.rows.zipIdx.map fun row =>
        recordFromRow segment.payload.header.segmentId objectType row.1 row.2
          (columns.map (columnProperty row.2))) =
        segment.rows.zipIdx.map fun row => segment.recordAt codec objectType row.2 row.1 := by
    intro columns hcolumns
    refine List.ext_getElem? fun i => ?_
    rw [hw.rows, hw.header, List.getElem?_map, List.getElem?_map, List.getElem?_zipIdx,
      List.getElem?_zipIdx, getElem?_temporalRowEntries]
    cases hrow : segment.rows[i]? with
    | none => rfl
    | some row =>
      have hproperties := map_eq_of_forall₂ (fun _ _ h => columnProperty_of hrow h) hcolumns
      simp only [Option.map_some, Nat.zero_add]
      rw [hproperties]
      rfl
  unfold recordsFromSegment
  rw [bind_eq_ok]
  constructor
  · rintro ⟨columns, hcolumns, h⟩
    have hcolumns := (decodedColumns_written hw hids).mp hcolumns
    refine ⟨fun p hp row hrow => ?_, (Except.ok.inj h).symm.trans (hrecords columns hcolumns)⟩
    obtain ⟨column, -, hcolumn⟩ := exists_of_forall₂_left hcolumns hp
    obtain ⟨v, -, hv⟩ := List.mem_map.mp (hcolumn.2 ▸ List.mem_map_of_mem (f := fun row =>
      ObjectRow.readValue codec objectType.objectTypeId row p) hrow)
    rw [← hv]
    rfl
  · rintro ⟨hreadable, rfl⟩
    have hcolumns : List.Forall₂ (ColumnOf codec objectType.objectTypeId segment.rows)
        objectType.properties (objectType.properties.map fun p =>
          (p, segment.rows.map fun row =>
            (row.readValue codec objectType.objectTypeId p).getD .null)) := by
      refine forall₂_map_self fun p hp => ⟨rfl, ?_⟩
      rw [List.map_map]
      refine List.map_congr_left fun row hrow => ?_
      obtain ⟨v, hv⟩ := Option.isSome_iff_exists.mp (hreadable p hp row hrow)
      show some ((row.readValue codec objectType.objectTypeId p).getD .null) = _
      rw [hv]
      rfl
    exact ⟨_, (decodedColumns_written hw hids).mpr hcolumns, congrArg _ (hrecords _ hcolumns)⟩

end

/-! ## A file -/

section

variable {codec : ValueCodec} {types : List ObjectTypeEntryV1}
  {segments : List TemporalSegmentBuild}

/-- The records read back for the rows of a written segment. -/
def TemporalSegmentBuild.records (segment : TemporalSegmentBuild) (codec : ValueCodec)
    (objectType : ObjectTypeEntryV1) : List CoveObjectRecord :=
  segment.rows.zipIdx.map fun row => segment.recordAt codec objectType row.2 row.1

variable {segment : TemporalSegmentBuild}

theorem mem_records {objectType : ObjectTypeEntryV1}
    {record : CoveObjectRecord} : record ∈ segment.records codec objectType ↔
      ∃ index row, segment.rows[index]? = some row ∧
        record = segment.recordAt codec objectType index row := by
  unfold TemporalSegmentBuild.records
  constructor
  · intro h
    obtain ⟨⟨row, index⟩, hmem, rfl⟩ := List.mem_map.mp h
    exact ⟨index, row, List.mem_zipIdx_iff_getElem?.mp hmem, rfl⟩
  · rintro ⟨index, row, hrow, rfl⟩
    exact List.mem_map.mpr ⟨(row, index), List.mem_zipIdx_iff_getElem?.mpr hrow, rfl⟩

/-- A written segment read back. -/
def TemporalSegmentBuild.ReadAs (segment : TemporalSegmentBuild) (codec : ValueCodec)
    (types : List ObjectTypeEntryV1) (records : List CoveObjectRecord) : Prop :=
  ∃ objectType, segment.Written codec types objectType ∧
    Readable codec objectType segment.rows ∧ records = segment.records codec objectType

theorem recordsOfSegment_written (hcatalog : objectTypeCatalogValid types = true)
    (hwritten : ∃ objectType, segment.Written codec types objectType)
    {records : List CoveObjectRecord} :
    recordsOfSegment codec types segment.payload = .ok records ↔
      segment.ReadAs codec types records := by
  obtain ⟨objectType, hw⟩ := hwritten
  obtain ⟨hid, hmem⟩ := objectTypeId_written hw
  have hproperties := (Bool.and_eq_true_iff.mp (List.all_eq_true.mp
    (Bool.and_eq_true_iff.mp hcatalog).2 _ hmem)).1
  have htype : segment.payload.header.objectTypeId = segment.objectTypeId := by rw [hw.header, hid]
  unfold recordsOfSegment
  rw [htype, hw.found]
  dsimp only
  rw [recordsFromSegment_written hw (of_decide_eq_true hproperties)]
  constructor
  · rintro ⟨hreadable, rfl⟩
    exact ⟨objectType, hw, hreadable, rfl⟩
  · rintro ⟨ty, hty, hreadable, rfl⟩
    obtain rfl := Option.some.inj (hty.found.symm.trans hw.found)
    exact ⟨hreadable, rfl⟩

/-- The records of a file of written segments: those of the rows of each. -/
theorem readObjectRecords_written (hcatalog : objectTypeCatalogValid types = true)
    (hwritten : ∀ s ∈ segments, ∃ objectType, s.Written codec types objectType)
    {check : PageCheck} {hash : TrustHash} {file : CoveOSections}
    (htypes : file.catalog = types)
    (hsegments : file.segments = segments.map TemporalSegmentBuild.payload)
    {records : List CoveObjectRecord} :
    readObjectRecords check hash codec file = .ok records ↔
      validateCoveOSemantics check hash file = .ok () ∧ ∃ read,
        List.Forall₂ (fun segment rs => segment.ReadAs codec types rs) segments read ∧
          records = read.flatten := by
  have hread : ∀ read, file.segments.mapM (recordsOfSegment codec file.catalog) = .ok read ↔
      List.Forall₂ (fun segment rs => segment.ReadAs codec types rs) segments read := by
    intro read
    rw [hsegments, htypes, mapM_eq_ok, List.forall₂_map_left_iff]
    exact ⟨forall₂_imp_of_mem fun segment hsegment rs =>
        (recordsOfSegment_written hcatalog (hwritten segment hsegment)).mp,
      forall₂_imp_of_mem fun segment hsegment rs =>
        (recordsOfSegment_written hcatalog (hwritten segment hsegment)).mpr⟩
  unfold readObjectRecords
  rw [bind_eq_ok]
  constructor
  · rintro ⟨⟨⟩, hvalid, h⟩
    obtain ⟨read, hmap, h⟩ := bind_eq_ok.mp h
    exact ⟨hvalid, read, (hread read).mp hmap, (Except.ok.inj h).symm⟩
  · rintro ⟨hvalid, read, hall, rfl⟩
    exact ⟨(), hvalid, bind_eq_ok.mpr ⟨read, (hread read).mpr hall, rfl⟩⟩

/-- The records of a file are those of its rows. -/
theorem mem_read {read : List (List CoveObjectRecord)}
    (hall : List.Forall₂ (fun segment rs => segment.ReadAs codec types rs) segments read)
    (record : CoveObjectRecord) : record ∈ read.flatten ↔ ∃ segment ∈ segments, ∃ objectType,
      segment.Written codec types objectType ∧ ∃ index row,
        segment.rows[index]? = some row ∧
          record = segment.recordAt codec objectType index row := by
  rw [List.mem_flatten]
  constructor
  · rintro ⟨rs, hrs, hrecord⟩
    obtain ⟨segment, hsegment, objectType, hw, -, rfl⟩ := exists_of_forall₂_left hall.flip hrs
    exact ⟨segment, hsegment, objectType, hw, mem_records.mp hrecord⟩
  · rintro ⟨segment, hsegment, objectType, hw, hrecord⟩
    obtain ⟨rs, hrs, ty, hty, -, rfl⟩ := exists_of_forall₂_left hall hsegment
    obtain rfl := Option.some.inj (hty.found.symm.trans hw.found)
    exact ⟨_, hrs, mem_records.mpr hrecord⟩

end

/-! ## The last row of an object -/

/-- The last row of an object. -/
def latestRow (rows : List ObjectRow) (goid : Id16) : Option ObjectRow :=
  rows.reverse.find? fun row => row.goid = goid

theorem latestRow_spec {goid : Id16} {last : ObjectRow}
    (h : latestRow rows goid = some last) : last.goid = goid ∧ ∃ index,
      rows[index]? = some last ∧
      ∀ (k : Nat) (row : ObjectRow), rows[k]? = some row → row.goid = goid → k ≤ index := by
  obtain ⟨hgoid, i, hi, hget, hbefore⟩ := List.find?_eq_some_iff_getElem.mp h
  rw [List.length_reverse] at hi
  refine ⟨of_decide_eq_true hgoid, rows.length - 1 - i, ?_, fun k row hrow hk => ?_⟩
  · rw [← hget, List.getElem_reverse]
    exact List.getElem?_eq_getElem _
  · by_contra hlt
    have hk' : k < rows.length := (List.getElem?_eq_some_iff.mp hrow).1
    have hno := hbefore (rows.length - 1 - k) (by omega)
    rw [List.getElem_reverse] at hno
    have hrow' : rows[rows.length - 1 - (rows.length - 1 - k)]? = some row := by
      rw [show rows.length - 1 - (rows.length - 1 - k) = k by omega, hrow]
    rw [(List.getElem?_eq_some_iff.mp hrow').2] at hno
    simp [hk] at hno

theorem exists_latestRow (h : row ∈ rows) :
    ∃ last, latestRow rows row.goid = some last := by
  cases hlast : latestRow rows row.goid with
  | some last => exact ⟨last, rfl⟩
  | none =>
    have := List.find?_eq_none.mp hlast row (List.mem_reverse.mpr h)
    simp at this

/-! ## The states of a model -/

/-- The states hold the surviving values of a model: an object has one state, and whatever
value conflict resolution left on a row of it is the value of its state. -/
structure KeepsSurvivors (model : MaterializedModel) (states : List CoveObjectState) : Prop where
  one : ∀ row ∈ model.rows, (states.filter fun s => s.goid = row.goid).length = 1
  only : ∀ state ∈ states, ∃ row ∈ model.rows, row.goid = state.goid
  values : ∀ row ∈ model.rows, ∀ property ∈ row.properties, property.2.value.isNull = false →
    ∀ state ∈ states, state.goid = row.goid → ∃ p ∈ state.properties,
      p.propertyId = property.1 ∧ p.value.beq property.2.value = true

/-- When they do: the file is valid and its values read back, an object has one type, and
its last row has the surviving values of all its rows. -/
structure SurvivorsLast (codec : ValueCodec) (model : MaterializedModel) : Prop where
  valid : SegmentsValid model
  readable : ∀ objectType ∈ model.objectTypes,
    Readable codec objectType (rowsOfType model.rows objectType.objectTypeId)
  oneType : ∀ row ∈ model.rows, ∀ row' ∈ model.rows, row.goid = row'.goid →
    row.objectTypeId = row'.objectTypeId
  last : ∀ row ∈ model.rows, ∀ property ∈ row.properties, property.2.value.isNull = false →
    ∃ objectType ∈ model.objectTypes, objectType.objectTypeId = row.objectTypeId ∧
      ∃ p ∈ objectType.properties, p.propertyId = property.1 ∧
        ∃ last ∈ latestRow (rowsOfType model.rows row.objectTypeId) row.goid,
          ∃ v ∈ last.readValue codec objectType.objectTypeId p, v.beq property.2.value = true

variable {state : CoveObjectState}

section

variable {codec : ValueCodec} {model : MaterializedModel} {segments : List TemporalSegmentBuild}
  {records : List CoveObjectRecord} {states : List CoveObjectState}
  (hrecords : ∀ record, record ∈ records ↔ ∃ segment ∈ segments, ∃ objectType,
    segment.Written codec model.objectTypes objectType ∧ ∃ index row,
      segment.rows[index]? = some row ∧
        record = segment.recordAt codec objectType index row)

include hrecords in
/-- Records of rows that link to nothing are standalone. -/
theorem standalone_records
    (hbaseline : ∀ segment ∈ segments, ∀ row ∈ segment.rows, row.recordKind = .baseline) :
    ∀ record ∈ records, record.Standalone := by
  intro record hrecord
  obtain ⟨segment, hsegment, objectType, -, index, row, hrow, rfl⟩ := (hrecords record).mp hrecord
  have hkind := hbaseline segment hsegment row (List.mem_of_getElem? hrow)
  refine ⟨hkind, ?_⟩
  show prevRefOf segment.segmentId segment.rows index row = none
  unfold prevRefOf
  rw [hkind]
  rfl

include hrecords in
/-- The state of an object is that of its last row in its segment. -/
theorem latestStates_row (hstates : LatestStates records states)
    (hstate : state ∈ states) : ∃ segment ∈ segments, ∃ objectType,
      segment.Written codec model.objectTypes objectType ∧ ∃ index last,
        latestRow segment.rows last.goid = some last ∧
          state = stateFromFullRecord (segment.recordAt codec objectType index last) := by
  obtain ⟨record, hlatest, rfl⟩ := hstates.latest state hstate
  obtain ⟨hmem, hmax⟩ := latestOf_spec hlatest
  obtain ⟨hrecord, -⟩ := List.mem_filter.mp hmem
  obtain ⟨segment, hsegment, objectType, hw, index, row, hrow, rfl⟩ := (hrecords record).mp hrecord
  refine ⟨segment, hsegment, objectType, hw, index, row, ?_, rfl⟩
  obtain ⟨last, hlast⟩ := exists_latestRow (List.mem_of_getElem? hrow)
  obtain ⟨hgoid, j, hj, hbeyond⟩ := latestRow_spec hlast
  -- the last row of the object is in the group too, so it is not after this one
  have hrecordj : segment.recordAt codec objectType j last ∈ recordsOfKey records
      (stateFromFullRecord (segment.recordAt codec objectType index row)).objectKey := by
    refine List.mem_filter.mpr ⟨(hrecords _).mpr
      ⟨segment, hsegment, objectType, hw, j, last, hj, rfl⟩, decide_eq_true ?_⟩
    show toLex (_, toLex (_, last.goid)) = toLex (_, toLex (_, row.goid))
    rw [hgoid]
    rfl
  have hle : j ≤ index := by
    have hkeys := hmax _ hrecordj
    by_contra hlt
    refine absurd hkeys (not_le.mpr ?_)
    refine Prod.Lex.toLex_lt_toLex.mpr (.inr ⟨rfl, ?_⟩)
    exact Prod.Lex.toLex_lt_toLex.mpr (.inl (not_le.mp hlt))
  obtain rfl : j = index := le_antisymm hle (hbeyond index row hrow rfl)
  rw [hlast, ← hj, hrow]

/-! ### What the states hold -/

variable (hsegments : ∀ segment ∈ segments,
    segment.rows = rowsOfType model.rows segment.objectTypeId)
  (hevery : ∀ row ∈ model.rows, ∃ segment ∈ segments, ∃ objectType,
    segment.Written codec model.objectTypes objectType ∧ row ∈ segment.rows ∧
      segment.objectTypeId = row.objectTypeId)

include hrecords hevery in
/-- Every row has a state of its type and object. -/
theorem exists_state (hstates : LatestStates records states)
    (hrow : row ∈ model.rows) : ∃ state ∈ states,
      state.objectKey = toLex (row.objectTypeId, toLex (0, row.goid)) := by
  obtain ⟨segment, hsegment, objectType, hw, hmem, hid⟩ := hevery row hrow
  obtain ⟨index, hindex⟩ := List.mem_iff_getElem?.mp hmem
  obtain ⟨state, hstate, hkey⟩ := hstates.every _
    ((hrecords _).mpr ⟨segment, hsegment, objectType, hw, index, row, hindex, rfl⟩)
  refine ⟨state, hstate, hkey.trans ?_⟩
  show toLex (objectType.objectTypeId, _) = _
  rw [(objectTypeId_written hw).1, hid]
  rfl

include hrecords hsegments in
/-- What the state of an object is made of. -/
theorem state_spec (hstates : LatestStates records states)
    (hstate : state ∈ states) : ∃ objectType ∈ model.objectTypes,
      objectType.objectTypeId = state.objectTypeId ∧ state.branchKey = 0 ∧
      ∃ last, latestRow (rowsOfType model.rows state.objectTypeId) state.goid = some last ∧
        last ∈ model.rows ∧ last.goid = state.goid ∧ last.objectTypeId = state.objectTypeId ∧
        state.properties =
          objectType.properties.map (writtenProperty codec objectType.objectTypeId last) := by
  obtain ⟨segment, hsegment, objectType, hw, index, last, hlast, rfl⟩ :=
    latestStates_row hrecords hstates hstate
  obtain ⟨hid, hmem⟩ := objectTypeId_written hw
  rw [hsegments segment hsegment, ← hid] at hlast
  have hrow : last ∈ rowsOfType model.rows objectType.objectTypeId :=
    List.mem_reverse.mp (List.mem_of_find?_eq_some hlast)
  obtain ⟨hrow, htype⟩ := mem_rowsOfType.mp hrow
  exact ⟨objectType, hmem, rfl, rfl, last, hlast, hrow, rfl, htype, rfl⟩

theorem length_eq_one_of_unique {α : Type u} {l : List α} {a : α} (hnodup : l.Nodup) (ha : a ∈ l)
    (h : ∀ b ∈ l, b = a) : l.length = 1 := by
  have hperm : l.Perm [a] := (List.perm_ext_iff_of_nodup hnodup (List.nodup_singleton a)).mpr
    fun b => ⟨fun hb => List.mem_singleton.mpr (h b hb), fun hb => List.mem_singleton.mp hb ▸ ha⟩
  exact hperm.length_eq

include hrecords hsegments hevery in
/-- The states keep the survivors exactly when an object has one type and its last row has
them all. -/
theorem keepsSurvivors_iff (hstates : LatestStates records states)
    (hcatalog : objectTypeCatalogValid model.objectTypes = true)
    (hreadable : ∀ objectType ∈ model.objectTypes,
      Readable codec objectType (rowsOfType model.rows objectType.objectTypeId)) :
    KeepsSurvivors model states ↔
      (∀ row ∈ model.rows, ∀ row' ∈ model.rows, row.goid = row'.goid →
        row.objectTypeId = row'.objectTypeId) ∧
      ∀ row ∈ model.rows, ∀ property ∈ row.properties, property.2.value.isNull = false →
        ∃ objectType ∈ model.objectTypes, objectType.objectTypeId = row.objectTypeId ∧
          ∃ p ∈ objectType.properties, p.propertyId = property.1 ∧
            ∃ last ∈ latestRow (rowsOfType model.rows row.objectTypeId) row.goid,
              ∃ v ∈ last.readValue codec objectType.objectTypeId p,
                v.beq property.2.value = true := by
  have htypeIds := of_decide_eq_true (Bool.and_eq_true_iff.mp hcatalog).1
  have hvalue : ∀ objectType ∈ model.objectTypes, ∀ p ∈ objectType.properties, ∀ last,
      last ∈ model.rows → last.objectTypeId = objectType.objectTypeId →
      last.readValue codec objectType.objectTypeId p =
        some (writtenProperty codec objectType.objectTypeId last p).value := by
    intro objectType htype p hp last hlast hid
    obtain ⟨v, hv⟩ := Option.isSome_iff_exists.mp
      (hreadable objectType htype p hp last (mem_rowsOfType.mpr ⟨hlast, hid⟩))
    show _ = some ((last.readValue codec objectType.objectTypeId p).getD .null)
    rw [hv]
    rfl
  -- a state is determined by its type and object
  have hunique : ∀ s ∈ states, ∀ s' ∈ states, s.objectTypeId = s'.objectTypeId →
      s.goid = s'.goid → s = s' := by
    intro s hs s' hs' htype hgoid
    obtain ⟨-, -, -, hbranch, -⟩ := state_spec hrecords hsegments hstates hs
    obtain ⟨-, -, -, hbranch', -⟩ := state_spec hrecords hsegments hstates hs'
    refine List.inj_on_of_nodup_map hstates.nodup hs hs' ?_
    unfold CoveObjectState.objectKey
    rw [htype, hgoid, hbranch, hbranch']
  constructor
  · intro h
    have hone : ∀ row ∈ model.rows, ∀ row' ∈ model.rows, row.goid = row'.goid →
        row.objectTypeId = row'.objectTypeId := by
      intro row hrow row' hrow' hgoid
      obtain ⟨s, hs, hkey⟩ := exists_state hrecords hevery hstates hrow
      obtain ⟨s', hs', hkey'⟩ := exists_state hrecords hevery hstates hrow'
      obtain ⟨only, honly⟩ := List.length_eq_one_iff.mp (h.one row hrow)
      have hmem : ∀ {r : ObjectRow} {s : CoveObjectState}, s ∈ states →
          s.objectKey = toLex (r.objectTypeId, toLex (0, r.goid)) → r.goid = row.goid →
          s = only := by
        intro r s hs hkey hgoid
        refine List.mem_singleton.mp (honly ▸ List.mem_filter.mpr ⟨hs, decide_eq_true ?_⟩)
        exact (congrArg (fun k : ObjectKey => (ofLex (ofLex k).2).2) hkey).trans hgoid
      have hs := hmem hs hkey rfl
      have hs' := hmem hs' hkey' hgoid.symm
      have hkeys := hkey.symm.trans ((congrArg _ (hs.trans hs'.symm)).trans hkey')
      exact congrArg (fun k : ObjectKey => (ofLex k).1) hkeys
    refine ⟨hone, fun row hrow property hproperty hnull => ?_⟩
    obtain ⟨s, hs, hkey⟩ := exists_state hrecords hevery hstates hrow
    have htype : s.objectTypeId = row.objectTypeId :=
      congrArg (fun k : ObjectKey => (ofLex k).1) hkey
    have hgoid : s.goid = row.goid :=
      congrArg (fun k : ObjectKey => (ofLex (ofLex k).2).2) hkey
    obtain ⟨objectType, hmem, hid, -, last, hlatest, hlast, -, hlastType, hproperties⟩ :=
      state_spec hrecords hsegments hstates hs
    obtain ⟨p', hp', hpid, hbeq⟩ := h.values row hrow property hproperty hnull s hs hgoid
    rw [hproperties] at hp'
    obtain ⟨p, hp, rfl⟩ := List.mem_map.mp hp'
    rw [htype, hgoid] at hlatest
    exact ⟨objectType, hmem, hid.trans htype, p, hp, hpid, last, hlatest, _,
      hvalue objectType hmem p hp last hlast (hlastType.trans hid.symm), hbeq⟩
  · rintro ⟨hone, hlasts⟩
    refine ⟨fun row hrow => ?_, fun state hstate => ?_, ?_⟩
    · obtain ⟨s, hs, hkey⟩ := exists_state hrecords hevery hstates hrow
      have hgoid : s.goid = row.goid :=
        congrArg (fun k : ObjectKey => (ofLex (ofLex k).2).2) hkey
      have hfilter : ∀ s' ∈ states.filter (fun s => s.goid = row.goid), s' = s := by
        intro s' hs'
        obtain ⟨hs', hgoid'⟩ := List.mem_filter.mp hs'
        have hgoid' := of_decide_eq_true hgoid'
        obtain ⟨-, -, -, -, last', -, hlast', hg', ht', -⟩ :=
          state_spec hrecords hsegments hstates hs'
        refine hunique s' hs' s hs ?_ (hgoid'.trans hgoid.symm)
        rw [← ht', hone last' hlast' row hrow (hg'.trans hgoid')]
        exact (congrArg (fun k : ObjectKey => (ofLex k).1) hkey).symm
      have hnodup : (states.filter fun s => s.goid = row.goid).Nodup :=
        (List.Nodup.of_map _ hstates.nodup).filter _
      have hmem : s ∈ states.filter fun s => s.goid = row.goid :=
        List.mem_filter.mpr ⟨hs, decide_eq_true hgoid⟩
      exact length_eq_one_of_unique hnodup hmem hfilter
    · obtain ⟨-, -, -, -, last, -, hlast, hgoid, -⟩ := state_spec hrecords hsegments hstates hstate
      exact ⟨last, hlast, hgoid⟩
    · intro row hrow property hproperty hnull state hstate hgoid
      obtain ⟨objectType, hmem, hid, p, hp, hpid, last, hlatest, v, hv, hbeq⟩ :=
        hlasts row hrow property hproperty hnull
      obtain ⟨objectType', hmem', hid', -, last', hlatest', hlast', hg', ht', hproperties⟩ :=
        state_spec hrecords hsegments hstates hstate
      have htype : state.objectTypeId = row.objectTypeId := by
        rw [← ht', hone last' hlast' row hrow (hg'.trans hgoid)]
      obtain rfl : objectType' = objectType := List.inj_on_of_nodup_map htypeIds hmem' hmem
        (hid'.trans (htype.trans hid.symm))
      rw [htype, hgoid, hlatest] at hlatest'
      obtain rfl := Option.some.inj hlatest'
      refine ⟨writtenProperty codec objectType'.objectTypeId last p,
        hproperties ▸ List.mem_map_of_mem hp, hpid, ?_⟩
      have hv' := hvalue objectType' hmem p hp last hlast' (ht'.trans (htype.trans hid.symm))
      rw [hv'] at hv
      rw [Option.some.inj hv]
      exact hbeq

end

/-- A model, its segments, the records read back from them and the states they give. -/
structure RoundTrip where
  model : MaterializedModel
  segments : List TemporalSegmentBuild
  surface : CoveObjectSurface
  states : List CoveObjectState

/-- The records as a surface, when they are one. -/
def surfaceOf (records : List CoveObjectRecord) : Option CoveObjectSurface :=
  if h : (∀ r ∈ records, ∀ r' ∈ records, r.objectTypeId = r'.objectTypeId →
      r.objectTypeName = r'.objectTypeName ∧ r.objectTypeFlags = r'.objectTypeFlags) ∧
      ∀ r ∈ records, (r.properties.map (·.propertyId)).Nodup
  then some ⟨records, h.1, h.2⟩ else none

/-- The round trip of source rows. -/
def roundTrip (ext : Externals) (codec : ValueCodec) (file : CovemapFile)
    (sourceRows : List SourceRow) : Option RoundTrip := do
  let (model, segments) ← (modelAndSegments ext codec file sourceRows).toOption
  let records ← (readObjectRecords (fun _ _ => .ok ()) (fun _ _ => 0) codec
    (coveOSections (fun _ _ => 0) model segments)).toOption
  let surface ← surfaceOf records
  let states ← (reconstructObjectStates surface .default).toOption
  some ⟨model, segments, surface, states⟩

/-- Some surviving value is not that of its object's state. -/
def losesSurvivor (model : MaterializedModel) (states : List CoveObjectState) : Bool :=
  model.rows.any fun row => row.properties.any fun property =>
    !property.2.value.isNull && states.any fun state => state.goid == row.goid &&
      state.properties.all fun p =>
        p.propertyId != property.1 || !p.value.beq property.2.value

theorem not_keepsSurvivors {model : MaterializedModel} {states : List CoveObjectState}
    (h : losesSurvivor model states = true) : ¬KeepsSurvivors model states := by
  intro hkeeps
  obtain ⟨row, hrow, h⟩ := List.any_eq_true.mp h
  obtain ⟨property, hproperty, h⟩ := List.any_eq_true.mp h
  obtain ⟨hnull, h⟩ := Bool.and_eq_true_iff.mp h
  obtain ⟨state, hstate, h⟩ := List.any_eq_true.mp h
  obtain ⟨hgoid, h⟩ := Bool.and_eq_true_iff.mp h
  obtain ⟨p, hp, hid, hbeq⟩ := hkeeps.values row hrow property hproperty
    (by simpa using hnull) state hstate (by simpa using hgoid)
  have := List.all_eq_true.mp h p hp
  simp [hid, hbeq] at this

theorem surfaceOf_eq_some {records : List CoveObjectRecord} {surface : CoveObjectSurface}
    (h : surfaceOf records = some surface) : surface.records = records := by
  unfold surfaceOf at h
  split at h
  · exact congrArg CoveObjectSurface.records (Option.some.inj h).symm
  · cases h

theorem roundTrip_eq_some {ext : Externals} {codec : ValueCodec} {file : CovemapFile}
    {sourceRows : List SourceRow} {r : RoundTrip}
    (h : roundTrip ext codec file sourceRows = some r) :
    modelAndSegments ext codec file sourceRows = .ok (r.model, r.segments) ∧
    readObjectRecords (fun _ _ => .ok ()) (fun _ _ => 0) codec
      (coveOSections (fun _ _ => 0) r.model r.segments) = .ok r.surface.records ∧
    reconstructObjectStates r.surface .default = .ok r.states := by
  obtain ⟨⟨model, segments⟩, hmodel, h⟩ := Option.bind_eq_some_iff.mp h
  obtain ⟨records, hrecords, h⟩ := Option.bind_eq_some_iff.mp h
  obtain ⟨surface, hsurface, h⟩ := Option.bind_eq_some_iff.mp h
  obtain ⟨states, hstates, h⟩ := Option.bind_eq_some_iff.mp h
  obtain rfl := Option.some.inj h
  exact ⟨toOption_eq_some.mp hmodel,
    (toOption_eq_some.mp hrecords).trans (congrArg _ (surfaceOf_eq_some hsurface).symm),
    toOption_eq_some.mp hstates⟩

theorem exists_some_of_any {α : Type u} {x : Option α} {p : α → Bool} (h : x.any p = true) :
    ∃ a, x = some a ∧ p a = true := by
  cases x with
  | none => cases h
  | some a => exact ⟨a, rfl, h⟩

end Cove
