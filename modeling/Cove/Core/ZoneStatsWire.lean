import Cove.Core.SealedRecord
import Cove.Core.ZoneStats

/-!
# Zone statistics in a file

The record of a zone: 96 bytes, of which two stretches of 20 hold the minimum and the maximum.

- `ZoneStatsEntry.validate`: the rules that both directions check.
- `ZoneStatsEntry.serialize`, `ZoneStatsEntry.parse`.
- `parseStatScalar_encode`: **a bound is read back**, unless its kind is the one of an absent one.
- `parse_serialize_iff`: **which records are read back**.
-/

namespace Cove.ZoneStatsWire

open Checked

/-- What a zone is a part of. -/
inductive ZoneScope where
  | file
  | table
  | segment
  | morsel
  | page
  deriving DecidableEq, Repr

structure ZoneStats where
  scope : ZoneScope
  rowCount : Nat
  nullCount : Nat
  min : Option StatScalar
  max : Option StatScalar
  flags : ZoneStatFlags
  deriving DecidableEq, Repr

@[ext] structure ZoneStatsEntry where
  tableId : Nat
  segmentId : Nat
  morselId : Nat
  columnId : Nat
  nonNullCount : Nat
  distinctCount : Nat
  runCount : Nat
  stats : ZoneStats
  minDomainRank : Nat
  maxDomainRank : Nat
  exactSetRef : Nat
  bloomRef : Nat
  deriving DecidableEq, Repr

/-- `STAT_SCALAR_ENCODED_LEN`. -/
def statScalarEncodedLen : Nat := 20

/-- `ZONE_STATS_ENTRY_LEN`. -/
def zoneStatsEntryLen : Nat := 96

/-! ## Kinds -/

def kindCode : StatKind → Nat
  | .none => 0
  | .int64 => 1
  | .uint64 => 2
  | .float64Bits => 3
  | .decimal128 => 4
  | .timestampMicros => 5
  | .timestampNanos => 6
  | .dateDays => 7
  | .fixedBytes => 8

/-- `StatKind::from_u8`. -/
def kindFromU8 : Nat → Option StatKind
  | 0 => some .none
  | 1 => some .int64
  | 2 => some .uint64
  | 3 => some .float64Bits
  | 4 => some .decimal128
  | 5 => some .timestampMicros
  | 6 => some .timestampNanos
  | 7 => some .dateDays
  | 8 => some .fixedBytes
  | _ => Option.none

theorem kindFromU8_code (kind : StatKind) : kindFromU8 (kindCode kind) = some kind := by
  cases kind <;> rfl

/-- `fixed_len`. -/
def fixedLen : StatKind → Option Nat
  | .none => some 0
  | .int64 | .uint64 | .float64Bits | .timestampMicros | .timestampNanos => some 8
  | .decimal128 => some 16
  | .dateDays => some 4
  | .fixedBytes => Option.none

/-! ## Rules -/

/-- `validate_stat_scalar_shape`. -/
def validateStatScalarShape (scalar : StatScalar) : Except CoveError Unit :=
  if scalar.bytes.length > 16 then .error .badStats
  else
    match fixedLen scalar.kind with
    | some length => if scalar.bytes.length ≠ length then .error .badStats else .ok ()
    | none => .ok ()

/-- The loop body of `ZoneStats::validate` over the bounds. -/
def validateBound (scalar : StatScalar) : Except CoveError Unit := do
  validateStatScalarShape scalar
  if scalar.kind = .float64Bits then
    match decodeU64Exact scalar.bytes with
    | none => .error .badStats
    | some bits =>
      if (⟨BitVec.ofNat 64 bits⟩ : Ieee754.F64).isNaN then .error .badStats else .ok ()
  else .ok ()

/-- The bounds that are there, the minimum first. -/
def ZoneStats.bounds (self : ZoneStats) : List StatScalar := self.min.toList ++ self.max.toList

/-- `ZoneStats::validate`. -/
def ZoneStats.validate (self : ZoneStats) : Except CoveError Unit :=
  if self.nullCount > self.rowCount then .error .badStats
  else if self.nullCount = self.rowCount ∧ (self.min.isSome ∨ self.max.isSome) then
    .error .badStats
  else if ∃ low ∈ self.min, ∃ high ∈ self.max, low.kind ≠ high.kind then .error .badStats
  else if (self.bounds.any fun scalar => scalar.truncated) ≠
      self.flags.contains .minmaxTruncated then .error .badStats
  else do
    self.bounds.forM validateBound
    if self.flags.contains .constant ∧ self.min ≠ self.max then .error .badStats
    else if self.flags.contains .sortedAsc ∧ self.flags.contains .sortedDesc ∧
        self.rowCount > 1 then .error .badStats
    else .ok ()

/-- `ZoneStatsEntry::validate`. -/
def ZoneStatsEntry.validate (self : ZoneStatsEntry) : Except CoveError Unit :=
  if self.stats.rowCount ≥ 2 ^ 32 then .error .badStats
  else if self.stats.nullCount ≥ 2 ^ 32 then .error .badStats
  else do
    let count ← checkedAddU32 self.stats.nullCount self.nonNullCount
    if count ≠ self.stats.rowCount then .error .badStats
    else if self.stats.min.isSome ≠ self.stats.max.isSome then .error .badStats
    else if self.stats.flags.contains .hasMinMax ≠ self.stats.min.isSome then .error .badStats
    else self.stats.validate

/-! ## Writing -/

/-- The fields of a bound: kind, flags, length, and the bytes with zeros after them. An absent bound
is all zeros. -/
def statScalarFields (value : Option StatScalar) : List (Nat × Nat) :=
  [(1, value.elim 0 fun scalar => kindCode scalar.kind),
    (1, value.elim 0 fun scalar => if scalar.truncated then 1 else 0),
    (2, value.elim 0 fun scalar => scalar.bytes.length),
    (16, value.elim 0 fun scalar => LittleEndian.ofLe scalar.bytes)]

/-- `encode_stat_scalar`. -/
def encodeStatScalar (value : Option StatScalar) : Except CoveError (List (Nat × Nat)) := do
  match value with
  | none => .ok ()
  | some scalar => validateStatScalarShape scalar
  .ok (statScalarFields value)

/-- The fields in front of the bounds, and those after them. -/
def ZoneStatsEntry.countFields (self : ZoneStatsEntry) : List (Nat × Nat) :=
  [(4, self.tableId), (4, self.segmentId), (4, self.morselId), (4, self.columnId),
    (4, self.stats.rowCount), (4, self.stats.nullCount), (4, self.nonNullCount),
    (4, self.distinctCount), (4, self.runCount), (4, self.stats.flags.bits.toNat)]

def ZoneStatsEntry.refFields (self : ZoneStatsEntry) : List (Nat × Nat) :=
  [(4, self.minDomainRank), (4, self.maxDomainRank), (4, self.exactSetRef), (4, self.bloomRef)]

/-- `ZoneStatsEntry::serialize`. -/
def ZoneStatsEntry.serialize (self : ZoneStatsEntry) : Except CoveError (List UInt8) := do
  self.validate
  let min ← encodeStatScalar self.stats.min
  let max ← encodeStatScalar self.stats.max
  .ok (FieldRecord.encode (self.countFields ++ min ++ max ++ self.refFields))

/-! ## Reading -/

/-- `parse_stat_scalar`. -/
def parseStatScalar (bytes : List UInt8) : Except CoveError (Option StatScalar) :=
  if bytes.length < statScalarEncodedLen then .error .bufferTooShort
  else
    match kindFromU8 (fieldNat bytes 0 1) with
    | none => .error .badStats
    | some kind =>
      let flags := fieldNat bytes 1 1
      let length := fieldNat bytes 2 2
      if flags > 1 then .error .badStats
      else if length > 16 then .error .badStats
      else if kind = .none then
        if length ≠ 0 ∨ flags ≠ 0 then .error .badStats else .ok none
      else do
        let scalar : StatScalar := ⟨kind, fieldBytes bytes 4 length, decide (flags ≠ 0)⟩
        validateStatScalarShape scalar
        .ok (some scalar)

/-- The scope that a record stands for: its morsel, or with `u32::MAX` its segment. -/
def scopeOf (morselId : Nat) : ZoneScope := if morselId = 2 ^ 32 - 1 then .segment else .morsel

/-- `ZoneStatsEntry::parse`. -/
def ZoneStatsEntry.parse (bytes : List UInt8) : Except CoveError ZoneStatsEntry :=
  if bytes.length < zoneStatsEntryLen then .error .bufferTooShort
  else do
    let min ← parseStatScalar (fieldBytes bytes 40 statScalarEncodedLen)
    let max ← parseStatScalar (fieldBytes bytes 60 statScalarEncodedLen)
    let entry : ZoneStatsEntry := {
      tableId := fieldNat bytes 0 4
      segmentId := fieldNat bytes 4 4
      morselId := fieldNat bytes 8 4
      columnId := fieldNat bytes 12 4
      nonNullCount := fieldNat bytes 24 4
      distinctCount := fieldNat bytes 28 4
      runCount := fieldNat bytes 32 4
      stats := {
        scope := scopeOf (fieldNat bytes 8 4)
        rowCount := fieldNat bytes 16 4
        nullCount := fieldNat bytes 20 4
        min := min
        max := max
        flags := ⟨BitVec.ofNat 32 (fieldNat bytes 36 4)⟩ }
      minDomainRank := fieldNat bytes 80 4
      maxDomainRank := fieldNat bytes 84 4
      exactSetRef := fieldNat bytes 88 4
      bloomRef := fieldNat bytes 92 4 }
    entry.validate
    .ok entry

/-! ## Bounds -/

variable {scalar : StatScalar} {value : Option StatScalar}

theorem length_le_of_shape (h : validateStatScalarShape scalar = .ok ()) :
    scalar.bytes.length ≤ 16 :=
  Nat.le_of_not_lt (ite_error_eq_ok.mp h).1

theorem encodeStatScalar_eq_ok {fields : List (Nat × Nat)} :
    encodeStatScalar value = .ok fields ↔
      (∀ scalar ∈ value, validateStatScalarShape scalar = .ok ()) ∧
        fields = statScalarFields value := by
  unfold encodeStatScalar
  cases value with
  | none => exact ⟨fun h => ⟨nofun, (Except.ok.inj h).symm⟩, fun h => congrArg _ h.2.symm⟩
  | some scalar =>
    simp only [bind_eq_ok, Option.mem_some_iff, forall_eq']
    constructor
    · rintro ⟨_, hshape, h⟩
      exact ⟨hshape, (Except.ok.inj h).symm⟩
    · rintro ⟨hshape, rfl⟩
      exact ⟨(), hshape, rfl⟩

theorem fits_statScalarFields
    (hshape : ∀ scalar ∈ value, validateStatScalarShape scalar = .ok ()) :
    FieldRecord.Fits (statScalarFields value) := by
  cases value with
  | none =>
    intro f hf
    simp only [statScalarFields, Option.elim_none, List.mem_cons, List.not_mem_nil, or_false] at hf
    rcases hf with rfl | rfl | rfl | rfl <;> exact Nat.pos_of_ne_zero (by decide)
  | some scalar =>
    have hlength := length_le_of_shape (hshape scalar rfl)
    intro f hf
    simp only [statScalarFields, Option.elim_some, List.mem_cons, List.not_mem_nil, or_false] at hf
    rcases hf with rfl | rfl | rfl | rfl
    · cases scalar.kind <;> decide
    · show (if scalar.truncated then 1 else 0) < 256 ^ 1
      split <;> decide
    · show scalar.bytes.length < 65536
      omega
    · exact (LittleEndian.ofLe_lt _).trans_le (Nat.pow_le_pow_right (by decide) hlength)

/-- **A bound is read back**, unless its kind is that of an absent one. -/
theorem parseStatScalar_encode
    (hshape : ∀ scalar ∈ value, validateStatScalarShape scalar = .ok ())
    (hkind : ∀ scalar ∈ value, scalar.kind ≠ .none) :
    parseStatScalar (FieldRecord.encode (statScalarFields value)) = .ok value := by
  have hfits := fits_statScalarFields hshape
  have h : ∀ offset w {number : Nat},
      FieldRecord.fieldAt (statScalarFields value) offset w = some number →
      fieldNat (FieldRecord.encode (statScalarFields value)) offset w = number := by
    intro offset w number hat
    rw [← List.append_nil (FieldRecord.encode (statScalarFields value))]
    exact fieldNat_encode hfits hat []
  have hlength : ¬(FieldRecord.encode (statScalarFields value)).length < statScalarEncodedLen := by
    rw [FieldRecord.length_encode]
    exact Nat.lt_irrefl _
  unfold parseStatScalar
  rw [if_neg hlength, h 0 1 rfl, h 1 1 rfl, h 2 2 rfl]
  cases value with
  | none => rfl
  | some scalar =>
    have hle := length_le_of_shape (hshape scalar rfl)
    have hflag : ¬(if scalar.truncated then 1 else 0) > 1 := by split <;> decide
    -- the bytes stand in front of the zeros that fill their field
    have hbytes : fieldBytes (FieldRecord.encode (statScalarFields (some scalar))) 4
        scalar.bytes.length = scalar.bytes := by
      have hfield : fieldBytes (FieldRecord.encode (statScalarFields (some scalar))) 4 16 =
          LittleEndian.toLe 16 (LittleEndian.ofLe scalar.bytes) := by
        rw [← List.append_nil (FieldRecord.encode _)]
        exact FieldRecord.take_drop_encode rfl []
      have htake : fieldBytes (FieldRecord.encode (statScalarFields (some scalar))) 4
          scalar.bytes.length = (LittleEndian.toLe 16 (LittleEndian.ofLe scalar.bytes)).take
            scalar.bytes.length := by
        rw [← hfield, fieldBytes, fieldBytes, List.take_take, Nat.min_eq_left hle]
      rw [htake, LittleEndian.take_toLe hle, LittleEndian.toLe_ofLe]
    simp only [Option.elim_some, kindFromU8_code, if_neg hflag, if_neg (Nat.not_lt.mpr hle),
      if_neg (hkind scalar rfl), hbytes]
    obtain ⟨kind, payload, truncated⟩ := scalar
    cases truncated <;> exact bind_eq_ok.mpr ⟨(), hshape _ rfl, rfl⟩

/-- No bound is read with the kind of an absent one. -/
theorem kind_of_parseStatScalar {bytes : List UInt8}
    (h : parseStatScalar bytes = .ok (some scalar)) : scalar.kind ≠ .none := by
  obtain ⟨-, h⟩ := ite_error_eq_ok.mp h
  split at h
  · cases h
  · next kind _ =>
    obtain ⟨-, h⟩ := ite_error_eq_ok.mp h
    obtain ⟨-, h⟩ := ite_error_eq_ok.mp h
    split at h
    · obtain ⟨-, h⟩ := ite_error_eq_ok.mp h
      cases h
    · next hkind =>
      obtain ⟨_, -, h⟩ := bind_eq_ok.mp h
      obtain rfl := Option.some.inj (Except.ok.inj h)
      exact hkind

/-! ## Records -/

/-- The numbers of an entry fit their fields: what the machine types promise. -/
def ZoneStatsEntry.Fits (self : ZoneStatsEntry) : Prop :=
  self.tableId < 2 ^ 32 ∧ self.segmentId < 2 ^ 32 ∧ self.morselId < 2 ^ 32 ∧
    self.columnId < 2 ^ 32 ∧ self.nonNullCount < 2 ^ 32 ∧ self.distinctCount < 2 ^ 32 ∧
    self.runCount < 2 ^ 32 ∧ self.minDomainRank < 2 ^ 32 ∧ self.maxDomainRank < 2 ^ 32 ∧
    self.exactSetRef < 2 ^ 32 ∧ self.bloomRef < 2 ^ 32

/-- All fields of a record. -/
def ZoneStatsEntry.fields (self : ZoneStatsEntry) : List (Nat × Nat) :=
  self.countFields ++ statScalarFields self.stats.min ++ statScalarFields self.stats.max ++
    self.refFields

variable {entry : ZoneStatsEntry} {bytes : List UInt8}

theorem shape_of_validateBound (h : validateBound scalar = .ok ()) :
    validateStatScalarShape scalar = .ok () := by
  obtain ⟨_, hshape, -⟩ := bind_eq_ok.mp h
  exact hshape

theorem shape_of_validate (h : entry.validate = .ok ()) :
    entry.stats.rowCount < 2 ^ 32 ∧ entry.stats.nullCount < 2 ^ 32 ∧
      ∀ scalar ∈ entry.stats.bounds, validateStatScalarShape scalar = .ok () := by
  obtain ⟨hrows, h⟩ := ite_error_eq_ok.mp h
  obtain ⟨hnulls, h⟩ := ite_error_eq_ok.mp h
  obtain ⟨count, -, h⟩ := bind_eq_ok.mp h
  obtain ⟨-, h⟩ := ite_error_eq_ok.mp h
  obtain ⟨-, h⟩ := ite_error_eq_ok.mp h
  obtain ⟨-, h⟩ := ite_error_eq_ok.mp h
  obtain ⟨-, h⟩ := ite_error_eq_ok.mp h
  obtain ⟨-, h⟩ := ite_error_eq_ok.mp h
  obtain ⟨-, h⟩ := ite_error_eq_ok.mp h
  obtain ⟨-, h⟩ := ite_error_eq_ok.mp h
  obtain ⟨_, hbounds, -⟩ := bind_eq_ok.mp h
  exact ⟨Nat.lt_of_not_le hrows, Nat.lt_of_not_le hnulls,
    fun scalar hscalar => shape_of_validateBound (forM_eq_ok.mp hbounds scalar hscalar)⟩

/-- What `serialize` writes. -/
theorem serialize_eq_ok :
    entry.serialize = .ok bytes ↔
      entry.validate = .ok () ∧ bytes = FieldRecord.encode entry.fields := by
  unfold ZoneStatsEntry.serialize
  constructor
  · intro h
    obtain ⟨_, hvalid, h⟩ := bind_eq_ok.mp h
    obtain ⟨min, hmin, h⟩ := bind_eq_ok.mp h
    obtain ⟨max, hmax, h⟩ := bind_eq_ok.mp h
    obtain rfl := (encodeStatScalar_eq_ok.mp hmin).2
    obtain rfl := (encodeStatScalar_eq_ok.mp hmax).2
    exact ⟨hvalid, (Except.ok.inj h).symm⟩
  · rintro ⟨hvalid, rfl⟩
    obtain ⟨-, -, hshape⟩ := shape_of_validate hvalid
    have hmin := encodeStatScalar_eq_ok.mpr ⟨fun scalar hscalar => hshape scalar
      (List.mem_append_left _ (Option.mem_toList.mpr hscalar)), rfl⟩
    have hmax := encodeStatScalar_eq_ok.mpr ⟨fun scalar hscalar => hshape scalar
      (List.mem_append_right _ (Option.mem_toList.mpr hscalar)), rfl⟩
    exact bind_eq_ok.mpr ⟨(), hvalid, bind_eq_ok.mpr ⟨_, hmin, bind_eq_ok.mpr ⟨_, hmax, rfl⟩⟩⟩

theorem fits_fields (hfits : entry.Fits) (hvalid : entry.validate = .ok ()) :
    FieldRecord.Fits entry.fields := by
  obtain ⟨hrows, hnulls, hshape⟩ := shape_of_validate hvalid
  have hflags : entry.stats.flags.bits.toNat < 2 ^ 32 := entry.stats.flags.bits.isLt
  intro f hf
  simp only [ZoneStatsEntry.fields, List.mem_append, or_assoc] at hf
  rcases hf with hf | hf | hf | hf
  · simp only [ZoneStatsEntry.countFields, List.mem_cons, List.not_mem_nil, or_false] at hf
    obtain ⟨htable, hsegment, hmorsel, hcolumn, hnonNull, hdistinct, hrun, -⟩ := hfits
    rcases hf with rfl | rfl | rfl | rfl | rfl | rfl | rfl | rfl | rfl | rfl <;> assumption
  · exact fits_statScalarFields (fun scalar hscalar => hshape scalar
      (List.mem_append_left _ (Option.mem_toList.mpr hscalar))) f hf
  · exact fits_statScalarFields (fun scalar hscalar => hshape scalar
      (List.mem_append_right _ (Option.mem_toList.mpr hscalar))) f hf
  · simp only [ZoneStatsEntry.refFields, List.mem_cons, List.not_mem_nil, or_false] at hf
    obtain ⟨-, -, -, -, -, -, -, hmin, hmax, hexact, hbloom⟩ := hfits
    rcases hf with rfl | rfl | rfl | rfl <;> assumption

/-- **Which records are read back:** those whose scope is the one that their morsel id stands for,
and whose bounds do not have the kind of an absent one. -/
theorem parse_serialize_iff (hfits : entry.Fits) (h : entry.serialize = .ok bytes) :
    ZoneStatsEntry.parse bytes = .ok entry ↔
      entry.stats.scope = scopeOf entry.morselId ∧
        ∀ scalar ∈ entry.stats.bounds, scalar.kind ≠ .none := by
  obtain ⟨hvalid, rfl⟩ := serialize_eq_ok.mp h
  have hrecord := fits_fields hfits hvalid
  have hfield : ∀ offset w {number : Nat},
      FieldRecord.fieldAt entry.fields offset w = some number →
      fieldNat (FieldRecord.encode entry.fields) offset w = number := by
    intro offset w number hat
    rw [← List.append_nil (FieldRecord.encode entry.fields)]
    exact fieldNat_encode hrecord hat []
  have hlength : (FieldRecord.encode entry.fields).length = zoneStatsEntryLen := by
    rw [FieldRecord.length_encode]
    simp only [ZoneStatsEntry.fields, ZoneStatsEntry.countFields, statScalarFields,
      ZoneStatsEntry.refFields, List.cons_append, List.nil_append, FieldRecord.width,
      zoneStatsEntryLen]
  have hmin : fieldBytes (FieldRecord.encode entry.fields) 40 statScalarEncodedLen =
      FieldRecord.encode (statScalarFields entry.stats.min) := by
    unfold ZoneStatsEntry.fields
    rw [List.append_assoc, List.append_assoc, FieldRecord.encode_append, FieldRecord.encode_append,
      fieldBytes, List.drop_left' (by rw [FieldRecord.length_encode]; rfl),
      List.take_left' (by rw [FieldRecord.length_encode]; rfl)]
  have hmax : fieldBytes (FieldRecord.encode entry.fields) 60 statScalarEncodedLen =
      FieldRecord.encode (statScalarFields entry.stats.max) := by
    unfold ZoneStatsEntry.fields
    rw [List.append_assoc,
      FieldRecord.encode_append (entry.countFields ++ statScalarFields entry.stats.min),
      FieldRecord.encode_append (statScalarFields entry.stats.max), fieldBytes,
      List.drop_left' (by rw [FieldRecord.length_encode]; rfl),
      List.take_left' (by rw [FieldRecord.length_encode]; rfl)]
  have hmem : ∀ scalar, scalar ∈ entry.stats.bounds ↔
      scalar ∈ entry.stats.min ∨ scalar ∈ entry.stats.max := fun scalar => by
    simp only [ZoneStats.bounds, List.mem_append, Option.mem_toList, Option.mem_def]
  obtain ⟨-, -, hshape⟩ := shape_of_validate hvalid
  unfold ZoneStatsEntry.parse
  rw [if_neg (Nat.not_lt.mpr hlength.ge), hmin, hmax, hfield 0 4 rfl, hfield 4 4 rfl,
    hfield 8 4 rfl, hfield 12 4 rfl, hfield 16 4 rfl, hfield 20 4 rfl, hfield 24 4 rfl,
    hfield 28 4 rfl, hfield 32 4 rfl, hfield 36 4 rfl, hfield 80 4 rfl, hfield 84 4 rfl,
    hfield 88 4 rfl, hfield 92 4 rfl]
  constructor
  · intro hparse
    obtain ⟨min, hreadMin, hparse⟩ := bind_eq_ok.mp hparse
    obtain ⟨max, hreadMax, hparse⟩ := bind_eq_ok.mp hparse
    obtain ⟨_, -, hparse⟩ := bind_eq_ok.mp hparse
    have heq := Except.ok.inj hparse
    have hscope := congrArg (fun e : ZoneStatsEntry => e.stats.scope) heq
    have hsameMin : min = entry.stats.min := congrArg (fun e : ZoneStatsEntry => e.stats.min) heq
    have hsameMax : max = entry.stats.max := congrArg (fun e : ZoneStatsEntry => e.stats.max) heq
    refine ⟨hscope.symm, fun scalar hscalar => ?_⟩
    rcases (hmem scalar).mp hscalar with hscalar | hscalar
    · rw [hsameMin, Option.mem_def.mp hscalar] at hreadMin
      exact kind_of_parseStatScalar hreadMin
    · rw [hsameMax, Option.mem_def.mp hscalar] at hreadMax
      exact kind_of_parseStatScalar hreadMax
  · rintro ⟨hscope, hkind⟩
    have hreadMin := @parseStatScalar_encode entry.stats.min
      (fun scalar hscalar => hshape scalar ((hmem scalar).mpr (.inl hscalar)))
      fun scalar hscalar => hkind scalar ((hmem scalar).mpr (.inl hscalar))
    have hreadMax := @parseStatScalar_encode entry.stats.max
      (fun scalar hscalar => hshape scalar ((hmem scalar).mpr (.inr hscalar)))
      fun scalar hscalar => hkind scalar ((hmem scalar).mpr (.inr hscalar))
    have hflags : BitVec.ofNat 32 entry.stats.flags.bits.toNat = entry.stats.flags.bits :=
      BitVec.ofNat_toNat _ _
    refine bind_eq_ok.mpr ⟨_, hreadMin, bind_eq_ok.mpr ⟨_, hreadMax, ?_⟩⟩
    simp only [hflags, ← hscope]
    exact bind_eq_ok.mpr ⟨(), hvalid, rfl⟩

/-- A zone of two days. -/
def dayZone : ZoneStatsEntry where
  tableId := 1
  segmentId := 2
  morselId := 3
  columnId := 4
  nonNullCount := 2
  distinctCount := 2
  runCount := 2
  stats := ⟨.morsel, 3, 1, some ⟨.dateDays, [1, 0, 0, 0], false⟩,
    some ⟨.dateDays, [7, 0, 0, 0], false⟩, ⟨1⟩⟩
  minDomainRank := 0
  maxDomainRank := 0
  exactSetRef := 0
  bloomRef := 0

theorem parse_serialize_iff_dayZone :
    ∃ bytes, dayZone.serialize = .ok bytes ∧ ZoneStatsEntry.parse bytes = .ok dayZone := by
  have h : dayZone.serialize = .ok (FieldRecord.encode dayZone.fields) := rfl
  refine ⟨_, h, (parse_serialize_iff (by unfold ZoneStatsEntry.Fits; decide) h).mpr ⟨rfl, by decide⟩⟩

/-- The zone as that of a table, and with bounds of the kind of absent ones. -/
def tableZone : ZoneStatsEntry := { dayZone with stats.scope := .table }

def noneZone : ZoneStatsEntry :=
  { dayZone with stats.min := some ⟨.none, [], false⟩, stats.max := some ⟨.none, [], false⟩ }

/-- Both are written; the one is read back with another scope, the other not at all. -/
theorem zones_changed :
    (∃ bytes, tableZone.serialize = .ok bytes ∧ ZoneStatsEntry.parse bytes = .ok dayZone) ∧
      tableZone ≠ dayZone ∧
      ∃ bytes, noneZone.serialize = .ok bytes ∧ ZoneStatsEntry.parse bytes = .error .badStats :=
  ⟨⟨_, rfl, by decide +kernel⟩, by decide, _, rfl, by decide +kernel⟩

end Cove.ZoneStatsWire
