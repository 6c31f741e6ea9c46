import Cove.Core.CanonicalEncoding
import Cove.Core.NumCode
import Cove.Core.PageArrayRows
import Cove.Core.ZoneStatsWire
import Cove.ObjectTemporal.CanonicalReadback

/-!
# Pages of property columns

A page of a property column is stored in full, or elided when all of its rows hold one value and
its zone statistics say which. The reader of a column goes through its pages.

- `decodePropertyValue`, `decodeStatScalarValue`: a value from a page, and one from statistics.
- `decodePage`, `decodePropertyColumn`: **the reader**.
- `storedPayload`, `zoneScalar`: a page that repeats a value, and the bound that describes it.
- `decodePage_alike_iff`: **an elided page reads as the full one exactly when its value does**.
- `elidedPage_alike_iff`: **which values do**.
-/

namespace Cove.PropertyPages

open Checked
open Ieee754 (F64)
open SegmentPayload (hasFlag pageFlagAllNull pageFlagStatsOnlyConstant)
open PageArray (logicalTypeFixedWidth)

/-! ## Values -/

/-- How values of the file dictionary and JSON texts are read: `decode_file_code_value` with the
dictionary of the file, and `decode_canonical_dictionary_bytes`. -/
structure PropertyReader where
  codec : ValueCodec
  fileCodeValue : PropertyEntryV1 → Nat → Except CoveError Json
  dictionaryBytes : PropertyEntryV1 → List UInt8 → Except CoveError Json

variable (reader : PropertyReader)

/-- `decode_property_value`. -/
def decodePropertyValue (property : PropertyEntryV1) : CoveArrayValue → Except CoveError Json
  | .null => .ok .null
  | .boolean b | .validityBit b => .ok (.bool b)
  | .numCode code | .varint code => .ok (.ofNat code.toNat)
  | .int64 v => .ok (.ofInt v.toInt)
  | .bytes bytes | .ownedBytes bytes => decodeBytesValue reader.codec property bytes
  | .fileCode code => reader.fileCodeValue property code
  | .dictValue (.rawBytes bytes) => reader.dictionaryBytes property bytes
  | .dictValue .redactedPresent => .error (.unsupportedEncoding
      "COVE-O readback refuses to expose redacted FileCode payload bytes")

/-- `decode_stat_scalar_value`. -/
def decodeStatScalarValue (property : PropertyEntryV1) (scalar : StatScalar) :
    Except CoveError Json :=
  match scalar.kind with
  | .int64 | .timestampMicros | .timestampNanos =>
    match decodeSignedExact 8 scalar.bytes with
    | some v => .ok (.ofInt v)
    | none => .error .badStats
  | .uint64 =>
    match decodeU64Exact scalar.bytes with
    | none => .error .badStats
    | some value =>
      if property.physicalKind = .boolean then
        if value = 0 then .ok (.bool false)
        else if value = 1 then .ok (.bool true)
        else .error .badStats
      else if property.physicalKind = .fileCode then
        if value < 2 ^ 32 then reader.fileCodeValue property value else .error .badFileCode
      else .ok (.ofNat value)
  | .float64Bits =>
    match decodeU64Exact scalar.bytes with
    | none => .error .badStats
    | some bits =>
      let value : F64 := ⟨BitVec.ofNat 64 bits⟩
      if value.isFinite then .ok (.number (.float value)) else .error .badStats
  | .decimal128 =>
    if scalar.bytes.length ≠ 16 then .error .badStats else .ok (signedText scalar.bytes)
  | .dateDays =>
    match decodeSignedExact 4 scalar.bytes with
    | some v => .ok (.ofInt v)
    | none => .error .badStats
  | .fixedBytes => decodeBytesValue reader.codec property scalar.bytes
  | .none => .ok .null

/-! ## Pages -/

/-- A page payload: what its root node declares, and its buffers. -/
structure PropertyPayload where
  rowCount : Nat
  logicalType : CoveLogicalType
  physicalKind : CovePhysicalKind
  encodingKind : CoveEncodingKind
  nullBitmap : Option (List UInt8)
  values : Option (List UInt8)
  deriving DecidableEq, Repr

/-- A page: its index entry, and its payload unless it is elided. -/
structure PropertyPage where
  morselId : Nat
  rowCount : Nat
  nonNullCount : Nat
  nullCount : Nat
  flags : Nat
  statsRef : Nat
  payload : Option PropertyPayload
  deriving DecidableEq, Repr

/-- The page says that all of its rows are null. -/
def PropertyPage.allNull (page : PropertyPage) : Prop :=
  page.nonNullCount = 0 ∨ page.nullCount = page.rowCount ∨
    hasFlag page.flags pageFlagAllNull = true

instance (page : PropertyPage) : Decidable page.allNull :=
  inferInstanceAs (Decidable (_ ∨ _ ∨ _))

/-- `stats_only_constant_value`. -/
def statsOnlyConstantValue (segment : TemporalSegmentHeaderV1) (property : PropertyEntryV1)
    (page : PropertyPage) (zoneStats : List ZoneStatsWire.ZoneStatsEntry) : Except CoveError Json :=
  if page.allNull then .ok .null
  else
    match zoneStats[page.statsRef]? with
    | none => .error (.unsupportedEncoding
        "COVE-O readback needs exact untruncated zone stats for this stats-only property")
    | some entry =>
      if entry.segmentId ≠ segment.segmentId ∨ entry.morselId ≠ page.morselId ∨
          entry.columnId ≠ property.propertyId ∨ entry.stats.rowCount ≠ page.rowCount ∨
          entry.stats.nullCount ≠ 0 ∨ entry.nonNullCount ≠ page.rowCount ∨
          page.nullCount ≠ 0 ∨ page.nonNullCount ≠ page.rowCount ∨
          entry.stats.flags.contains .constant = false ∨
          entry.stats.flags.contains .hasMinMax = false ∨
          entry.stats.flags.contains .minmaxTruncated = true then
        .error (.unsupportedEncoding
          "COVE-O readback cannot prove a canonical stats-only constant for this property")
      else
        match entry.stats.min, entry.stats.max with
        | some min, some max =>
          if min.truncated = true ∨ max.truncated = true ∨ min ≠ max then
            .error (.unsupportedEncoding
              "COVE-O readback refuses ambiguous or truncated stats-only property values")
          else decodeStatScalarValue reader property min
        | _, _ => .error (.unsupportedEncoding
            "COVE-O readback cannot prove a canonical stats-only constant for this property")

/-- `validate_len`. -/
def validateLen (bitmap : ValidityBitmap) (rowCount : Nat) : Except CoveError Unit := do
  let bits ← checkedAdd rowCount 7
  if bitmap.bytes.length < bits / 8 then .error .bufferTooShort else .ok ()

/-- The rows of a payload. The array is read without a dictionary. -/
def payloadRows (property : PropertyEntryV1) (page : PropertyPage) (payload : PropertyPayload) :
    Except Fault (List Json) :=
  if payload.rowCount ≠ page.rowCount then .error (.error .pageCorrupt)
  else if payload.logicalType ≠ property.logicalType ∨
      payload.physicalKind ≠ property.physicalKind then .error (.error .pageCorrupt)
  else do
    let validity := payload.nullBitmap.map fun bytes => (⟨bytes, page.rowCount⟩ : ValidityBitmap)
    Fault.lift (validity.toList.forM fun bitmap => validateLen bitmap page.rowCount)
    let array : PageArray.EncodedArray :=
      { logical := property.logicalType
        physical := property.physicalKind
        rowCount := page.rowCount
        encoding := payload.encodingKind
        validity := validity
        data := payload.values.getD []
        dictionary := none }
    let prepared ← array.prepare
    (List.range page.rowCount).mapM fun row => do
      let value ← prepared.decodeRow row
      Fault.lift (decodePropertyValue reader property value)

/-- The rows of a page; none where it leaves them null. -/
def pageRows (segment : TemporalSegmentHeaderV1) (property : PropertyEntryV1)
    (zoneStats : List ZoneStatsWire.ZoneStatsEntry) (page : PropertyPage) :
    Except Fault (Option (List Json)) :=
  match page.payload with
  | some payload => (payloadRows reader property page payload).map some
  | none =>
    if page.allNull then .ok none
    else if hasFlag page.flags pageFlagStatsOnlyConstant then
      (Fault.lift (statsOnlyConstantValue reader segment property page zoneStats)).map
        fun value => some (List.replicate page.rowCount value)
    else .error (.error .pageCorrupt)

/-- The body of the loop over the pages of a column. -/
def decodePage (segment : TemporalSegmentHeaderV1) (property : PropertyEntryV1)
    (zoneStats : List ZoneStatsWire.ZoneStatsEntry) (values : List Json) (page : PropertyPage) :
    Except Fault (List Json) := do
  let rowStart ← Fault.lift (checkedMul page.morselId segment.morselRowCount)
  let rowEnd ← Fault.lift (checkedAdd rowStart page.rowCount)
  if rowEnd > values.length then .error (.error .pageCorrupt)
  else do
    let rows ← pageRows reader segment property zoneStats page
    .ok (rows.elim values fun rows => values.take rowStart ++ rows ++ values.drop rowEnd)

/-- `decode_property_column`. -/
def decodePropertyColumn (segment : TemporalSegmentHeaderV1) (rowCount : Nat)
    (property : PropertyEntryV1) (zoneStats : List ZoneStatsWire.ZoneStatsEntry) (pages : List PropertyPage) :
    Except Fault (List Json) :=
  pages.foldlM (decodePage reader segment property zoneStats) (List.replicate rowCount .null)

/-! ## Pages that repeat a value -/

/-- `encoding_for_physical`. -/
def encodingForPhysical : CovePhysicalKind → CoveEncodingKind
  | .boolean | .fixedBytes => .plainFixed
  | .numCode => .numCode
  | .fileCode => .fileCode
  | .varBytes => .varBytes
  | .list | .struct | .map => .canonical

/-- The bytes of a value in its page. -/
def storedBytes : StoredValue → List UInt8
  | .boolean b => [if b then 1 else 0]
  | .numCode code => LittleEndian.toLe 8 code
  | .fixedBytes bytes => bytes
  | .varBytes bytes => LittleEndian.toLe 4 bytes.length ++ bytes
  | .fileCode code => LittleEndian.toLe 4 code

/-- What a page gives back for a value. -/
def arrayValue : StoredValue → CoveArrayValue
  | .boolean b => .bytes [if b then 1 else 0]
  | .numCode code => .numCode (BitVec.ofNat 64 code)
  | .fixedBytes bytes => .bytes bytes
  | .varBytes bytes => .bytes bytes
  | .fileCode code => .fileCode code

/-- A value of fixed size has the form its property stores. -/
def Stores (property : PropertyEntryV1) (stored : StoredValue) : Prop :=
  match property.physicalKind, stored with
  | .boolean, .boolean _ => property.logicalType = .bool
  | .numCode, .numCode code => code < 2 ^ 64
  | .fixedBytes, .fixedBytes bytes => logicalTypeFixedWidth property.logicalType = some bytes.length
  | .fileCode, .fileCode code => code < 2 ^ 32
  | _, _ => False

/-- The payload of a page that repeats a value. -/
def storedPayload (property : PropertyEntryV1) (stored : StoredValue) (rowCount : Nat) :
    PropertyPayload where
  rowCount := rowCount
  logicalType := property.logicalType
  physicalKind := property.physicalKind
  encodingKind := encodingForPhysical property.physicalKind
  nullBitmap := none
  values := some ((List.replicate rowCount stored).flatMap storedBytes)

/-- The bound that is a value, of the kind of its logical type: a NaN has none, and only UUIDs and
decimals are stored in fixed bytes. -/
def zoneScalar (logical : CoveLogicalType) : StoredValue → Option StatScalar
  | .boolean b => some ⟨.uint64, LittleEndian.toLe 8 b.toNat, false⟩
  | .fileCode code => some ⟨.uint64, LittleEndian.toLe 8 code, false⟩
  | .fixedBytes bytes =>
    match logical with
    | .decimal128 => some ⟨.decimal128, bytes, false⟩
    | .uuid => some ⟨.fixedBytes, bytes, false⟩
    | _ => none
  | .varBytes _ => none
  | .numCode code =>
    let word := BitVec.ofNat 64 code
    match logical with
    | .int8 => some ⟨.int64, signedLe 8 (numcodeAsI8 word), false⟩
    | .int16 => some ⟨.int64, signedLe 8 (numcodeAsI16 word), false⟩
    | .int32 => some ⟨.int64, signedLe 8 (numcodeAsI32 word), false⟩
    | .int64 => some ⟨.int64, signedLe 8 (numcodeAsI64 word), false⟩
    | .decimal64 => some ⟨.int64, signedLe 8 (numcodeAsDecimal64 word), false⟩
    | .uint8 => some ⟨.uint64, LittleEndian.toLe 8 (numcodeAsU8 word), false⟩
    | .uint16 => some ⟨.uint64, LittleEndian.toLe 8 (numcodeAsU16 word), false⟩
    | .uint32 => some ⟨.uint64, LittleEndian.toLe 8 (numcodeAsU32 word), false⟩
    | .uint64 | .bool => some ⟨.uint64, LittleEndian.toLe 8 (numcodeAsU64 word), false⟩
    | .float32 => floatScalar (F64.ofF32 (numcodeAsF32 word))
    | .float64 => floatScalar (numcodeAsF64 word)
    | .dateDays => some ⟨.dateDays, signedLe 4 (numcodeAsDateDays word), false⟩
    | .timestampMicros => some ⟨.timestampMicros, signedLe 8 (numcodeAsTimestampMicros word), false⟩
    | .timestampNanos => some ⟨.timestampNanos, signedLe 8 (numcodeAsTimestampNanos word), false⟩
    | _ => none
where
  floatScalar (x : F64) : Option StatScalar :=
    if x.isNaN then none else some ⟨.float64Bits, LittleEndian.toLe 8 x.bits.toNat, false⟩

/-! ## Values from statistics -/

/-- A value whose bound reads back as the value does: a code that stands for itself, and every value
of another kind. A numeric flag is read as its code from both. -/
def ReadsAlike (logical : CoveLogicalType) : StoredValue → Prop
  | .numCode code =>
    logical = .bool ∨ logical ≠ .float32 ∧ logical ≠ .float64 ∧ code < exactCodes logical
  | _ => True

variable {reader} {property : PropertyEntryV1} {stored : StoredValue} {scalar : StatScalar}
  {code : Nat}

variable {z : Int} {logical : CoveLogicalType}

variable {w rowCount row : Nat} {word : BitVec 64} {page : PropertyPage}

theorem decodeSignedExact_signedLe (hw : 0 < w)
    (hz : -(256 ^ w / 2 : Nat) ≤ z ∧ z < (256 ^ w / 2 : Nat)) :
    decodeSignedExact w (signedLe w z) = some z := by
  unfold decodeSignedExact
  rw [if_neg (not_not.mpr (show (signedLe w z).length = w from LittleEndian.length_toLe w _)),
    signed_ofLe_signedLe hw hz]

theorem decodeU64Exact_toLe {n : Nat} (hn : n < 2 ^ 64) :
    decodeU64Exact (LittleEndian.toLe 8 n) = some n := by
  unfold decodeU64Exact
  rw [if_neg (not_not.mpr (LittleEndian.length_toLe 8 n)), LittleEndian.ofLe_toLe hn]

/-- A signed reading of at most 64 bits lies in the range of 64 bits. -/
theorem toInt_range (hw : w ≤ 64) (x : BitVec w) :
    -(256 ^ 8 / 2 : Nat) ≤ x.toInt ∧ x.toInt < (256 ^ 8 / 2 : Nat) := by
  have hlow := BitVec.le_toInt x
  have hhigh := BitVec.toInt_lt (x := x)
  have hpow : (2 : Int) ^ (w - 1) ≤ 2 ^ 63 := pow_le_pow_right₀ (by decide) (by omega)
  norm_num
  omega

/-- A signed number is read from its bound. -/
theorem decodeStat_signed {kind : StatKind} (hw : w ≤ 64) (x : BitVec w)
    (hkind : kind = .int64 ∨ kind = .timestampMicros ∨ kind = .timestampNanos) :
    decodeStatScalarValue reader property ⟨kind, signedLe 8 x.toInt, false⟩ =
      .ok (.ofInt x.toInt) := by
  have hread : decodeSignedExact 8 (signedLe 8 x.toInt) = some x.toInt :=
    decodeSignedExact_signedLe (by decide) (toInt_range hw x)
  rcases hkind with rfl | rfl | rfl <;> simp only [decodeStatScalarValue, hread]

/-- An unsigned number is read from its bound. -/
theorem decodeStat_unsigned (hkind : property.physicalKind = .numCode) (hw : w ≤ 64)
    (x : BitVec w) :
    decodeStatScalarValue reader property ⟨.uint64, LittleEndian.toLe 8 x.toNat, false⟩ =
      .ok (.ofNat x.toNat) := by
  have hread : decodeU64Exact (LittleEndian.toLe 8 x.toNat) = some x.toNat :=
    decodeU64Exact_toLe (x.isLt.trans_le (Nat.pow_le_pow_right (by decide) hw))
  simp only [decodeStatScalarValue, hread, hkind, reduceCtorEq, if_false]

theorem decodeStat_date (x : BitVec 32) :
    decodeStatScalarValue reader property ⟨.dateDays, signedLe 4 x.toInt, false⟩ =
      .ok (.ofInt x.toInt) := by
  have hlow := BitVec.le_toInt x
  have hhigh := BitVec.toInt_lt (x := x)
  have hread : decodeSignedExact 4 (signedLe 4 x.toInt) = some x.toInt :=
    decodeSignedExact_signedLe (by decide) (by norm_num at *; omega)
  simp only [decodeStatScalarValue, hread]

/-- **A number is read from its bound.** -/
theorem decodeStat_of_int (hkind : property.physicalKind = .numCode)
    (hscalar : zoneScalar property.logicalType (.numCode code) = some scalar)
    (hvalue : logicalValue property.logicalType (BitVec.ofNat 64 code) = some (.int z)) :
    decodeStatScalarValue reader property scalar = .ok (.ofInt z) := by
  cases hlogical : property.logicalType <;>
    simp only [hlogical, logicalValue, zoneScalar, Option.some.injEq, LogicalValue.int.injEq,
      reduceCtorEq] at hscalar hvalue <;> subst hscalar hvalue
  case dateDays => exact decodeStat_date _
  case timestampMicros => exact decodeStat_signed (le_refl 64) _ (.inr (.inl rfl))
  case timestampNanos => exact decodeStat_signed (le_refl 64) _ (.inr (.inr rfl))
  case uint8 => exact decodeStat_unsigned hkind (show 8 ≤ 64 by decide) _
  case uint16 => exact decodeStat_unsigned hkind (show 16 ≤ 64 by decide) _
  case uint32 => exact decodeStat_unsigned hkind (show 32 ≤ 64 by decide) _
  case uint64 => exact decodeStat_unsigned hkind (le_refl 64) _
  case int8 => exact decodeStat_signed (show 8 ≤ 64 by decide) _ (.inl rfl)
  case int16 => exact decodeStat_signed (show 16 ≤ 64 by decide) _ (.inl rfl)
  case int32 => exact decodeStat_signed (show 32 ≤ 64 by decide) _ (.inl rfl)
  case int64 => exact decodeStat_signed (le_refl 64) _ (.inl rfl)
  case decimal64 => exact decodeStat_signed (le_refl 64) _ (.inl rfl)

/-- A floating-point bound reads as no integer. -/
theorem decodeStat_floatScalar_ne {x : F64} (hscalar : zoneScalar.floatScalar x = some scalar)
    (n : Nat) : decodeStatScalarValue reader property scalar ≠ .ok (.ofNat n) := by
  unfold zoneScalar.floatScalar at hscalar
  split at hscalar
  · cases hscalar
  obtain rfl := Option.some.inj hscalar
  have hread : decodeU64Exact (LittleEndian.toLe 8 x.bits.toNat) = some x.bits.toNat :=
    decodeU64Exact_toLe x.bits.isLt
  simp only [decodeStatScalarValue, hread]
  split <;> simp [Json.ofNat]

theorem ofInt_eq_ofNat_iff {n : Nat} (hz : z < 2 ^ 64) (hn : n < 2 ^ 64) :
    Json.ofInt z = Json.ofNat n ↔ z = n := by
  unfold Json.ofInt Json.ofNat
  by_cases hneg : z < 0
  · rw [if_pos hneg]
    refine iff_of_false (fun h => ?_) (by omega)
    cases h
  · rw [if_neg hneg]
    have hz : z.toNat < 2 ^ 64 := by omega
    constructor
    · intro h
      injection h with h
      injection h with h
      have h := congrArg UInt64.toNat h
      rw [UInt64.toNat_ofNat_of_lt' hz, UInt64.toNat_ofNat_of_lt' hn] at h
      omega
    · rintro rfl
      rfl

/-- A number whose code stands for itself is its code. -/
theorem int_eq_code_iff (hvalue : logicalValue logical word = some (.int z)) :
    z = word.toNat ↔ word.toNat < exactCodes logical := by
  rw [← logicalValue_eq_code_iff hvalue]
  simp only [LogicalValue.exact, Option.some.injEq]
  exact (Int.mul_eq_mul_right_iff Ieee754.binary64.one_pos.ne').symm

theorem int_lt (hvalue : logicalValue logical word = some (.int z)) : z < 2 ^ 64 := by
  have hsigned : ∀ {w : Nat} (x : BitVec w), w ≤ 64 → x.toInt < 2 ^ 64 := by
    intro w x hw
    have := (toInt_range hw x).2
    norm_num at this ⊢
    omega
  have hunsigned : ∀ {w : Nat} (x : BitVec w), w ≤ 64 → (x.toNat : Int) < 2 ^ 64 := by
    intro w x hw
    exact_mod_cast x.isLt.trans_le (Nat.pow_le_pow_right (by decide) hw)
  cases logical <;>
    simp only [logicalValue, Option.some.injEq, LogicalValue.int.injEq, reduceCtorEq] at hvalue <;>
    subst hvalue
  case uint8 => exact hunsigned _ (show 8 ≤ 64 by decide)
  case uint16 => exact hunsigned _ (show 16 ≤ 64 by decide)
  case uint32 => exact hunsigned _ (show 32 ≤ 64 by decide)
  case uint64 => exact hunsigned _ (le_refl 64)
  case int8 => exact hsigned _ (show 8 ≤ 64 by decide)
  case int16 => exact hsigned _ (show 16 ≤ 64 by decide)
  case int32 => exact hsigned _ (show 32 ≤ 64 by decide)
  case dateDays => exact hsigned _ (show 32 ≤ 64 by decide)
  all_goals exact hsigned _ (le_refl 64)

/-- **The bound of a code reads as the code exactly when the code stands for itself.** -/
theorem numCode_alike_iff (hkind : property.physicalKind = .numCode) (hcode : code < 2 ^ 64)
    (hscalar : zoneScalar property.logicalType (.numCode code) = some scalar) :
    decodeStatScalarValue reader property scalar =
        decodePropertyValue reader property (arrayValue (.numCode code)) ↔
      ReadsAlike property.logicalType (.numCode code) := by
  have hword : (BitVec.ofNat 64 code).toNat = code := by
    rw [BitVec.toNat_ofNat, Nat.mod_eq_of_lt hcode]
  have hstored : decodePropertyValue reader property (arrayValue (.numCode code)) =
      .ok (.ofNat code) := by
    simp only [arrayValue, decodePropertyValue, hword]
  rw [hstored]
  cases hvalue : logicalValue property.logicalType (BitVec.ofNat 64 code) with
  | none =>
    -- only a numeric flag has a bound without a logical value
    have hbool : property.logicalType = .bool := by
      cases hlogical : property.logicalType <;>
        simp only [hlogical, logicalValue, zoneScalar, reduceCtorEq] at hvalue hscalar ⊢
    refine iff_of_true ?_ (.inl hbool)
    rw [hbool] at hscalar
    obtain rfl := Option.some.inj hscalar
    exact (decodeStat_unsigned hkind (le_refl 64) (BitVec.ofNat 64 code)).trans (by rw [hword])
  | some value =>
    have hbool : property.logicalType ≠ .bool := fun h => by
      rw [h] at hvalue
      cases hvalue
    cases value with
    | int z =>
      have hfloat : property.logicalType ≠ .float32 ∧ property.logicalType ≠ .float64 := by
        constructor <;> intro h <;> rw [h] at hvalue <;> cases hvalue
      rw [decodeStat_of_int hkind hscalar hvalue, Except.ok.injEq,
        ofInt_eq_ofNat_iff (int_lt hvalue) hcode]
      have hself := int_eq_code_iff hvalue
      rw [hword] at hself
      rw [hself]
      exact ⟨fun h => .inr ⟨hfloat.1, hfloat.2, h⟩, fun h => (h.resolve_left hbool).2.2⟩
    | float v =>
      have hlogical : property.logicalType = .float32 ∨ property.logicalType = .float64 := by
        cases hlogical : property.logicalType <;>
          simp only [hlogical, logicalValue, Option.some.injEq, reduceCtorEq] at hvalue ⊢ <;> tauto
      refine iff_of_false (fun h => ?_) fun h => ?_
      · rcases hlogical with hlogical | hlogical <;> rw [hlogical] at hscalar <;>
          exact decodeStat_floatScalar_ne hscalar code h
      · obtain ⟨h32, h64, -⟩ := h.resolve_left hbool
        exact hlogical.elim h32 h64

/-- **The bound of a value reads as the value exactly when its code does.** -/
theorem decodeStat_alike_iff (hstores : Stores property stored)
    (hscalar : zoneScalar property.logicalType stored = some scalar) :
    decodeStatScalarValue reader property scalar =
        decodePropertyValue reader property (arrayValue stored) ↔
      ReadsAlike property.logicalType stored := by
  unfold Stores at hstores
  cases hkind : property.physicalKind <;> cases stored <;>
    simp only [hkind] at hstores
  case boolean.boolean b =>
    refine iff_of_true ?_ trivial
    obtain rfl := Option.some.inj hscalar
    cases b <;>
      simp only [decodeStatScalarValue, hkind, arrayValue, decodePropertyValue, decodeBytesValue] <;>
      rfl
  case fileCode.fileCode fileCode =>
    refine iff_of_true ?_ trivial
    obtain rfl := Option.some.inj hscalar
    have hread : decodeU64Exact (LittleEndian.toLe 8 fileCode) = some fileCode :=
      decodeU64Exact_toLe (hstores.trans (by decide))
    simp only [decodeStatScalarValue, hread, hkind, reduceCtorEq, if_false, if_true, if_pos hstores,
      arrayValue, decodePropertyValue]
  case fixedBytes.fixedBytes bytes =>
    refine iff_of_true ?_ trivial
    cases hlogical : property.logicalType <;>
      simp only [hlogical, zoneScalar, Option.some.injEq, reduceCtorEq] at hscalar hstores <;>
      subst hscalar
    case decimal128 =>
      have hlength : bytes.length = 16 := (Option.some.inj hstores).symm
      simp only [decodeStatScalarValue, arrayValue, decodePropertyValue, decodeBytesValue, hkind,
        hlogical, hlength, ne_eq, not_true_eq_false, if_false]
    case uuid => rfl
  case numCode.numCode code =>
    rw [numCode_alike_iff hkind hstores hscalar]

/-! ## Rows of a page that repeats a value -/

/-- An array that repeats a value. -/
def storedArray (property : PropertyEntryV1) (stored : StoredValue) (rowCount : Nat) :
    PageArray.EncodedArray where
  logical := property.logicalType
  physical := property.physicalKind
  rowCount := rowCount
  encoding := encodingForPhysical property.physicalKind
  validity := none
  data := (List.replicate rowCount stored).flatMap storedBytes
  dictionary := none

/-- The block of a row is the bytes of the value. -/
theorem readRange_replicate {width : Nat} (hlength : (storedBytes stored).length = width)
    (hcount : rowCount < 2 ^ 32) (hwidth : width ≤ 16) (hrow : row < rowCount) :
    checkedMul row width = .ok (row * width) ∧
      readRangeChecked ((List.replicate rowCount stored).flatMap storedBytes) (row * width) width =
        .ok (storedBytes stored) := by
  have hlengths : ∀ a ∈ List.replicate rowCount stored, (storedBytes a).length = width :=
    fun a ha => List.eq_of_mem_replicate ha ▸ hlength
  have htotal : ((List.replicate rowCount stored).flatMap storedBytes).length = rowCount * width := by
    rw [Strides.length_flatMap hlengths, List.length_replicate]
  have hbound : row * width + width ≤ rowCount * width := by
    rw [← Nat.succ_mul]
    exact Nat.mul_le_mul_right _ hrow
  have hsmall : rowCount * width < 2 ^ 64 :=
    (Nat.mul_lt_mul_of_lt_of_le hcount hwidth (by decide)).trans (by decide)
  have hblock := Strides.block_flatMap hlengths [] (i := row) (by rwa [List.length_replicate])
  rw [List.append_nil, List.getElem_replicate] at hblock
  refine ⟨mulU64_eq_ok.mpr ⟨by omega, rfl⟩, ?_⟩
  show (checkedAdd (row * width) width >>= fun stop => _) = _
  rw [show checkedAdd (row * width) width = .ok (row * width + width) from
    addU64_eq_ok.mpr ⟨by omega, rfl⟩, ok_bind, if_neg (by omega), hblock]

theorem prepare_stored (hstores : Stores property stored) (rowCount : Nat) :
    (storedArray property stored rowCount).prepare =
      .ok ⟨storedArray property stored rowCount, .direct⟩ := by
  have hrepr : (storedArray property stored rowCount).prepareRepr = .ok .direct := by
    unfold Stores at hstores
    cases hkind : property.physicalKind <;> simp only [hkind] at hstores <;>
      simp only [PageArray.EncodedArray.prepareRepr, storedArray, encodingForPhysical, hkind]
  show ((storedArray property stored rowCount).prepareRepr >>= fun repr => _) = _
  rw [hrepr, ok_bind]

/-- The value of a row, read in its place. -/
theorem decodePresentRow_stored (hstores : Stores property stored)
    (hcount : rowCount < 2 ^ 32) (hrow : row < rowCount) :
    (storedArray property stored rowCount).decodePresentRow row = .ok (arrayValue stored) := by
  have hread : ∀ {width : Nat}, (storedBytes stored).length = width → width ≤ 16 →
      checkedMul row width = .ok (row * width) ∧
        readRangeChecked (storedArray property stored rowCount).data (row * width) width =
          .ok (storedBytes stored) :=
    fun hlength hwidth => readRange_replicate hlength hcount hwidth hrow
  have hfixed : ∀ {width : Nat}, logicalTypeFixedWidth property.logicalType = some width →
      (storedBytes stored).length = width → width ≤ 16 →
      (storedArray property stored rowCount).encoding = .plainFixed →
      (storedArray property stored rowCount).decodePresentRow row =
        .ok (.bytes (storedBytes stored)) := by
    intro width hlogical hlength hwidth hencoding
    obtain ⟨hmul, hslice⟩ := hread hlength hwidth
    unfold PageArray.EncodedArray.decodePresentRow
    rw [hencoding]
    simp only [show (storedArray property stored rowCount).logical = property.logicalType from rfl,
      hlogical, PageArray.EncodedArray.fixedRow, hmul, ok_bind, hslice]
    rfl
  unfold Stores at hstores
  cases hkind : property.physicalKind <;> cases stored <;> simp only [hkind] at hstores
  case boolean.boolean b =>
    have hlogical : logicalTypeFixedWidth property.logicalType = some 1 := by
      rw [hstores]
      rfl
    refine hfixed hlogical rfl (by decide) ?_
    simp only [storedArray, encodingForPhysical, hkind]
  case fixedBytes.fixedBytes bytes =>
    have hwidth : bytes.length ≤ 16 := by
      cases hlogical : property.logicalType <;>
        simp only [hlogical, logicalTypeFixedWidth, Option.some.injEq, reduceCtorEq] at hstores <;>
        omega
    refine hfixed hstores rfl hwidth ?_
    simp only [storedArray, encodingForPhysical, hkind]
  case numCode.numCode code =>
    obtain ⟨hmul, hslice⟩ := hread (LittleEndian.length_toLe 8 code) (by decide)
    have hencoding : (storedArray property (.numCode code) rowCount).encoding = .numCode := by
      simp only [storedArray, encodingForPhysical, hkind]
    unfold PageArray.EncodedArray.decodePresentRow
    rw [hencoding]
    simp only [hmul, ok_bind, PageArray.readU64Le, hslice, storedBytes,
      LittleEndian.ofLe_toLe (show code < 256 ^ 8 from hstores)]
    rfl
  case fileCode.fileCode code =>
    obtain ⟨hmul, hslice⟩ := hread (LittleEndian.length_toLe 4 code) (by decide)
    have hencoding : (storedArray property (.fileCode code) rowCount).encoding = .fileCode := by
      simp only [storedArray, encodingForPhysical, hkind]
    unfold PageArray.EncodedArray.decodePresentRow
    rw [hencoding]
    simp only [hmul, ok_bind, PageArray.readU32Le, hslice, storedBytes,
      LittleEndian.ofLe_toLe (show code < 256 ^ 4 from hstores)]
    rfl

/-- **A page that repeats a value has it on every row.** -/
theorem decodeRow_stored (hstores : Stores property stored)
    (hcount : rowCount < 2 ^ 32) (hrow : row < rowCount) :
    PageArray.PreparedEncodedArray.decodeRow ⟨storedArray property stored rowCount, .direct⟩ row =
      .ok (arrayValue stored) := by
  have hin : ¬ row ≥ rowCount := Nat.not_le.mpr hrow
  have hnull : (storedArray property stored rowCount).isNull row = .ok false := if_neg hin
  refine (if_neg hin).trans ((if_neg hin).trans ?_)
  show (Fault.lift ((storedArray property stored rowCount).isNull row) >>= fun null => _) = _
  rw [hnull]
  exact decodePresentRow_stored hstores hcount hrow

/-! ## The two pages -/

theorem mapM_const {ε α β : Type} (x : Except ε β) {l : List α} (hl : l ≠ []) :
    (l.mapM fun _ => x) = x.map (List.replicate l.length) := by
  induction l with
  | nil => exact absurd rfl hl
  | cons a l ih =>
    rw [List.mapM_cons]
    cases x with
    | error e => rfl
    | ok b =>
      cases l with
      | nil => rfl
      | cons a' l =>
        rw [ok_bind, ih (List.cons_ne_nil _ _)]
        rfl

/-- The rows of the payload that repeats a value. -/
theorem payloadRows_stored (hstores : Stores property stored) (hcount : page.rowCount < 2 ^ 32) :
    payloadRows reader property page (storedPayload property stored page.rowCount) =
      Fault.lift ((List.range page.rowCount).mapM fun _ =>
        decodePropertyValue reader property (arrayValue stored)) := by
  refine (if_neg (not_not.mpr rfl)).trans
    ((if_neg (not_or.mpr ⟨not_not.mpr rfl, not_not.mpr rfl⟩)).trans ?_)
  show ((storedArray property stored page.rowCount).prepare >>= fun prepared => _) = _
  rw [prepare_stored hstores, ok_bind]
  refine Fault.lift_mapM fun row hrow => ?_
  rw [decodeRow_stored hstores hcount (List.mem_range.mp hrow), ok_bind]

/-- Zone statistics of a page that holds one value on all of its rows. -/
structure Describes (segment : TemporalSegmentHeaderV1) (property : PropertyEntryV1)
    (page : PropertyPage) (scalar : StatScalar) (entry : ZoneStatsWire.ZoneStatsEntry) : Prop where
  segmentId : entry.segmentId = segment.segmentId
  morselId : entry.morselId = page.morselId
  columnId : entry.columnId = property.propertyId
  rowCount : entry.stats.rowCount = page.rowCount
  nullCount : entry.stats.nullCount = 0
  nonNullCount : entry.nonNullCount = page.rowCount
  constant : entry.stats.flags.contains .constant = true
  hasMinMax : entry.stats.flags.contains .hasMinMax = true
  exact : entry.stats.flags.contains .minmaxTruncated = false
  min : entry.stats.min = some scalar
  max : entry.stats.max = some scalar

/-- A page without a payload that holds a value on all of its rows, elided for its statistics. -/
structure Elided (page : PropertyPage) : Prop where
  payload : page.payload = none
  nonNullCount : page.nonNullCount = page.rowCount
  nullCount : page.nullCount = 0
  notAllNull : hasFlag page.flags pageFlagAllNull = false
  statsOnly : hasFlag page.flags pageFlagStatsOnlyConstant = true

theorem Elided.not_allNull (h : Elided page) (hrows : 0 < page.rowCount) :
    ¬ page.allNull := by
  rintro (hnone | hall | hflag)
  · rw [h.nonNullCount] at hnone
    omega
  · rw [h.nullCount] at hall
    omega
  · rw [h.notAllNull] at hflag
    cases hflag

/-- A value on all rows of a page, kept once as an elided page with its statistics and once in full.
The rows are among those of the segment. -/
structure KeptBothWays (segment : TemporalSegmentHeaderV1) (property : PropertyEntryV1)
    (zoneStats : List ZoneStatsWire.ZoneStatsEntry) (values : List Json) (stored : StoredValue)
    (scalar : StatScalar) (elided full : PropertyPage) : Prop where
  stores : Stores property stored
  bound : zoneScalar property.logicalType stored = some scalar
  isElided : Elided elided
  described : ∃ entry, zoneStats[elided.statsRef]? = some entry ∧
    Describes segment property elided scalar entry
  morselId : full.morselId = elided.morselId
  rowCount : full.rowCount = elided.rowCount
  payload : full.payload = some (storedPayload property stored full.rowCount)
  small : elided.rowCount < 2 ^ 32
  fits : elided.morselId * segment.morselRowCount + elided.rowCount ≤ values.length
  length : values.length < 2 ^ 64

theorem truncated_zoneScalar
    (hscalar : zoneScalar logical stored = some scalar) : scalar.truncated = false := by
  have hfloat : ∀ {x : F64}, zoneScalar.floatScalar x = some scalar → scalar.truncated = false := by
    intro x h
    exact Option.some.inj (Option.ite_none_left_eq_some.mp h).2 ▸ rfl
  cases stored with
  | boolean b => exact Option.some.inj hscalar ▸ rfl
  | fileCode code => exact Option.some.inj hscalar ▸ rfl
  | varBytes bytes => cases hscalar
  | fixedBytes bytes =>
    cases logical <;> simp only [zoneScalar, Option.some.injEq, reduceCtorEq] at hscalar <;>
      exact hscalar ▸ rfl
  | numCode code =>
    cases logical <;> simp only [zoneScalar, Option.some.injEq, reduceCtorEq] at hscalar <;>
      first | exact hscalar ▸ rfl | exact hfloat hscalar

section

variable {segment : TemporalSegmentHeaderV1} {zoneStats : List ZoneStatsWire.ZoneStatsEntry}
  {entry : ZoneStatsWire.ZoneStatsEntry} {elided full : PropertyPage} {values : List Json}

theorem statsOnly_described (helided : Elided elided) (hrows : 0 < elided.rowCount)
    (hstats : zoneStats[elided.statsRef]? = some entry)
    (hentry : Describes segment property elided scalar entry)
    (hexact : scalar.truncated = false) :
    statsOnlyConstantValue reader segment property elided zoneStats =
      decodeStatScalarValue reader property scalar := by
  unfold statsOnlyConstantValue
  rw [if_neg (helided.not_allNull hrows), hstats]
  dsimp only
  rw [if_neg (by simp [hentry.segmentId, hentry.morselId, hentry.columnId, hentry.rowCount,
    hentry.nullCount, hentry.nonNullCount, hentry.constant, hentry.hasMinMax, hentry.exact,
    helided.nullCount, helided.nonNullCount]), hentry.min, hentry.max]
  dsimp only
  rw [if_neg (by simp [hexact])]

theorem lift_map_eq_iff {α β : Type} {F : α → β} (hF : Function.Injective F)
    {x y : Except CoveError α} :
    Fault.lift (x.map F) = Fault.lift (y.map F) ↔ x = y := by
  cases x <;> cases y <;>
    simp [Fault.lift, Except.map, Except.mapError, hF.eq_iff]

/-- **An elided page reads as the page in full exactly when the bound reads as the value.** -/
theorem decodePage_alike_iff (h : KeptBothWays segment property zoneStats values stored scalar elided full) :
    decodePage reader segment property zoneStats values elided =
        decodePage reader segment property zoneStats values full ↔
      elided.rowCount = 0 ∨ decodeStatScalarValue reader property scalar =
        decodePropertyValue reader property (arrayValue stored) := by
  obtain ⟨entry, hstats, hentry⟩ := h.described
  have hfits := h.fits
  have hlength := h.length
  let rowStart := elided.morselId * segment.morselRowCount
  let put (rows : Option (List Json)) : List Json := rows.elim values fun rows =>
    values.take rowStart ++ rows ++ values.drop (rowStart + elided.rowCount)
  -- both pages go to the same rows
  have hplace : ∀ {page : PropertyPage}, page.morselId = elided.morselId →
      page.rowCount = elided.rowCount →
      decodePage reader segment property zoneStats values page =
        (pageRows reader segment property zoneStats page).map put := by
    intro page hid hrows
    have hmul : checkedMul page.morselId segment.morselRowCount = .ok rowStart :=
      mulU64_eq_ok.mpr ⟨by rw [hid]; omega, by rw [hid]⟩
    have hadd : checkedAdd rowStart page.rowCount = .ok (rowStart + elided.rowCount) :=
      addU64_eq_ok.mpr ⟨by rw [hrows]; omega, by rw [hrows]⟩
    unfold decodePage
    rw [hmul]
    show (Fault.lift (checkedAdd rowStart page.rowCount) >>= fun rowEnd => _) = _
    rw [hadd]
    refine (if_neg (Nat.not_lt.mpr hfits)).trans ?_
    cases pageRows reader segment property zoneStats page <;> rfl
  rw [hplace rfl rfl, hplace h.morselId h.rowCount]
  have hfullRows : pageRows reader segment property zoneStats full =
      (Fault.lift ((List.range elided.rowCount).mapM fun _ =>
        decodePropertyValue reader property (arrayValue stored))).map some := by
    unfold pageRows
    rw [h.payload]
    dsimp only
    rw [payloadRows_stored h.stores (h.rowCount ▸ h.small), h.rowCount]
  rw [hfullRows]
  rcases Nat.eq_zero_or_pos elided.rowCount with hzero | hpos
  · refine iff_of_true ?_ (.inl hzero)
    have hnone : pageRows reader segment property zoneStats elided = .ok none := by
      unfold pageRows
      rw [h.isElided.payload]
      exact if_pos (.inl (h.isElided.nonNullCount.trans hzero))
    rw [hnone, hzero]
    refine congrArg Except.ok ?_
    show values = values.take rowStart ++ [] ++ values.drop (rowStart + elided.rowCount)
    rw [hzero, List.append_nil, Nat.add_zero, List.take_append_drop]
  · have helidedRows : pageRows reader segment property zoneStats elided =
        (Fault.lift (decodeStatScalarValue reader property scalar)).map
          fun value => some (List.replicate elided.rowCount value) := by
      unfold pageRows
      rw [h.isElided.payload]
      dsimp only
      rw [if_neg (h.isElided.not_allNull hpos), if_pos h.isElided.statsOnly,
        statsOnly_described h.isElided hpos hstats hentry (truncated_zoneScalar h.bound)]
    have hinjective : Function.Injective fun value =>
        put (some (List.replicate elided.rowCount value)) := by
      intro a b hab
      have hab : List.replicate elided.rowCount a = List.replicate elided.rowCount b :=
        List.append_cancel_left (List.append_cancel_right hab)
      exact (List.replicate_inj.mp hab).2.resolve_left hpos.ne'
    rw [helidedRows, mapM_const _ (List.ne_nil_of_length_pos (by rwa [List.length_range])),
      List.length_range, or_iff_right hpos.ne', ← lift_map_eq_iff hinjective]
    have hput : ∀ x : Except CoveError Json,
        ((Fault.lift x).map fun value => some (List.replicate elided.rowCount value)).map put =
          Fault.lift (x.map fun value => put (some (List.replicate elided.rowCount value))) := by
      intro x
      cases x <;> rfl
    rw [hput]
    cases decodePropertyValue reader property (arrayValue stored) <;> rfl

/-- **An elided page reads as the page in full exactly when it has no row or holds a code that stands
for itself, and always when it holds no code.** -/
theorem elidedPage_alike_iff (h : KeptBothWays segment property zoneStats values stored scalar elided full) :
    decodePage reader segment property zoneStats values elided =
        decodePage reader segment property zoneStats values full ↔
      elided.rowCount = 0 ∨ ReadsAlike property.logicalType stored := by
  rw [decodePage_alike_iff h, decodeStat_alike_iff h.stores h.bound]
/-- A reader of a file without a dictionary. -/
def plainReader : PropertyReader where
  codec := silentCodec
  fileCodeValue _ _ := .error .badFileCode
  dictionaryBytes _ _ := .error .badFileCode

/-- A page of one row: its statistics, elided and in full. -/
def sampleProperty (logical : CoveLogicalType) : PropertyEntryV1 where
  propertyId := 1
  propertyName := []
  logicalType := logical
  physicalKind := .numCode
  nullable := false
  collationId := 0
  flags := 0

def sampleSegment : TemporalSegmentHeaderV1 := ⟨0, 1, 0, 0, 0, 0, 1, 1, 1, 1⟩

def sampleEntry (scalar : StatScalar) : ZoneStatsWire.ZoneStatsEntry where
  tableId := 0
  segmentId := 0
  morselId := 0
  columnId := 1
  nonNullCount := 1
  distinctCount := 1
  runCount := 1
  stats := ⟨.morsel, 1, 0, some scalar, some scalar, ⟨9⟩⟩
  minDomainRank := 0
  maxDomainRank := 0
  exactSetRef := 0
  bloomRef := 0

def samplePage (payload : Option PropertyPayload) : PropertyPage :=
  ⟨0, 1, 1, 0, if payload.isNone then 0x500 else 0, 0, payload⟩

theorem keptBothWays_sample (hstores : Stores (sampleProperty logical) stored)
    (hscalar : zoneScalar logical stored = some scalar) :
    KeptBothWays sampleSegment (sampleProperty logical) [sampleEntry scalar] [.null] stored scalar
      (samplePage none) (samplePage (some (storedPayload (sampleProperty logical) stored 1))) where
  stores := hstores
  bound := hscalar
  isElided := ⟨rfl, rfl, rfl, by decide, by decide⟩
  described := by
    have hflags : (⟨9⟩ : ZoneStatFlags).contains .constant = true ∧
        (⟨9⟩ : ZoneStatFlags).contains .hasMinMax = true ∧
        (⟨9⟩ : ZoneStatFlags).contains .minmaxTruncated = false := by decide
    exact ⟨_, rfl, ⟨rfl, rfl, rfl, rfl, rfl, rfl, hflags.1, hflags.2.1, hflags.2.2, rfl, rfl⟩⟩
  morselId := rfl
  rowCount := rfl
  payload := rfl
  small := by decide
  fits := by decide
  length := by decide

theorem unsignedSeven_alike :
    decodePage plainReader sampleSegment (sampleProperty .uint64)
        [sampleEntry ⟨.uint64, LittleEndian.toLe 8 7, false⟩] [.null] (samplePage none) =
      decodePage plainReader sampleSegment (sampleProperty .uint64)
        [sampleEntry ⟨.uint64, LittleEndian.toLe 8 7, false⟩] [.null]
        (samplePage (some (storedPayload (sampleProperty .uint64) (.numCode 7) 1))) :=
  (elidedPage_alike_iff (keptBothWays_sample
    (show Stores (sampleProperty .uint64) (.numCode 7) from (by decide : 7 < 2 ^ 64)) rfl)).mpr
    (.inr (.inr ⟨by decide, by decide, by decide⟩))

/-- The value -1 of a signed property: elided it reads as -1, in full as 2^64 - 1. -/
theorem minusOne_elided_differs :
    KeptBothWays sampleSegment (sampleProperty .int64)
        [sampleEntry ⟨.int64, signedLe 8 (-1), false⟩] [.null] (.numCode 18446744073709551615)
        ⟨.int64, signedLe 8 (-1), false⟩ (samplePage none)
        (samplePage (some (storedPayload (sampleProperty .int64) (.numCode 18446744073709551615) 1))) ∧
      decodePage plainReader sampleSegment (sampleProperty .int64)
          [sampleEntry ⟨.int64, signedLe 8 (-1), false⟩] [.null] (samplePage none) ≠
        decodePage plainReader sampleSegment (sampleProperty .int64)
          [sampleEntry ⟨.int64, signedLe 8 (-1), false⟩] [.null]
          (samplePage (some (storedPayload (sampleProperty .int64) (.numCode 18446744073709551615) 1))) := by
  have hstores : Stores (sampleProperty .int64) (.numCode 18446744073709551615) := by
    show 18446744073709551615 < 2 ^ 64
    decide
  refine ⟨keptBothWays_sample hstores rfl, fun h => ?_⟩
  have helided : decodePage plainReader sampleSegment (sampleProperty .int64)
      [sampleEntry ⟨.int64, signedLe 8 (-1), false⟩] [.null] (samplePage none) =
      .ok [.number (.negInt (-1))] := rfl
  have hfull : decodePage plainReader sampleSegment (sampleProperty .int64)
      [sampleEntry ⟨.int64, signedLe 8 (-1), false⟩] [.null]
      (samplePage (some (storedPayload (sampleProperty .int64) (.numCode 18446744073709551615) 1))) =
      .ok [.number (.posInt 18446744073709551615)] := rfl
  rw [helided, hfull] at h
  cases h

end

end Cove.PropertyPages
