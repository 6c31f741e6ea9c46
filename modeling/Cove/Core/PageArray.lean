import Cove.Core.DictionarySections
import Cove.Core.Encodings

/-!
# Rows of a column page

The rows of an encoded page are read in three ways: all at once, one row alone, or through a page
that was prepared for many reads.

- `PageArray.EncodedArray`: the page, its null bitmap and its dictionary.
- `decodeAllRows`, `decodeRow`: the bulk reader and the reader of one row.
- `PreparedEncodedArray`: what is prepared once, and the readers over it.
-/

namespace Cove

namespace PageArray

open Encoding

/-- The source's `EncodedArray`, with the dictionary as it stands in its sections. -/
structure EncodedArray where
  logical : CoveLogicalType
  physical : CovePhysicalKind
  rowCount : Nat
  encoding : CoveEncodingKind
  validity : Option ValidityBitmap
  data : List UInt8
  dictionary : Option OwnedDictionary
  deriving DecidableEq, Repr

/-- `usize::try_from` on a 64-bit number. -/
def usizeTryFrom (n : Nat) : Except CoveError Nat :=
  if n < 2 ^ 64 then .ok n else .error .arithOverflow

/-- `expected_row_count`. -/
def expectedRowCount (rowCount : Nat) : Except CoveError Nat := usizeTryFrom rowCount

/-- `logical_type_fixed_width`. -/
def logicalTypeFixedWidth : CoveLogicalType → Option Nat
  | .bool | .int8 | .uint8 => some 1
  | .int16 | .uint16 => some 2
  | .int32 | .uint32 | .float32 | .dateDays => some 4
  | .int64 | .uint64 | .float64 | .decimal64 | .timestampMicros | .timestampNanos => some 8
  | .decimal128 | .uuid => some 16
  | _ => none

/-- `{:?}` of a logical type. -/
def logicalName : CoveLogicalType → String
  | .null => "Null"
  | .bool => "Bool"
  | .int8 => "Int8"
  | .int16 => "Int16"
  | .int32 => "Int32"
  | .int64 => "Int64"
  | .uint8 => "UInt8"
  | .uint16 => "UInt16"
  | .uint32 => "UInt32"
  | .uint64 => "UInt64"
  | .float32 => "Float32"
  | .float64 => "Float64"
  | .decimal64 => "Decimal64"
  | .decimal128 => "Decimal128"
  | .dateDays => "DateDays"
  | .timestampMicros => "TimestampMicros"
  | .timestampNanos => "TimestampNanos"
  | .utf8 => "Utf8"
  | .binary => "Binary"
  | .uuid => "Uuid"
  | .json => "Json"
  | .list => "List"
  | .struct => "Struct"
  | .map => "Map"

/-- `{:?}` of the encodings that are no row values. -/
def encodingName : CoveEncodingKind → String
  | .sequence => "Sequence"
  | .lz4Block => "Lz4Block"
  | .zstdBlock => "ZstdBlock"
  | .registeredEncoding => "RegisteredEncoding"
  | .validity => "Validity"
  | _ => ""

/-- `read_u32_le`. -/
def readU32Le (bytes : List UInt8) (offset : Nat) : Except CoveError Nat := do
  let slice ← readRangeChecked bytes offset 4
  .ok (LittleEndian.ofLe slice)

/-- `read_u64_le`. -/
def readU64Le (bytes : List UInt8) (offset : Nat) : Except CoveError (BitVec 64) := do
  let slice ← readRangeChecked bytes offset 8
  .ok (BitVec.ofNat 64 (LittleEndian.ofLe slice))

/-- `&bytes[pos..]`. -/
def sliceFrom (bytes : List UInt8) (pos : Nat) : Except Fault (List UInt8) :=
  if pos ≤ bytes.length then .ok (bytes.drop pos) else .error .panic

/-- `wire::decode_u64_leb128` at a place of the bytes. -/
def varintAt (bytes : List UInt8) (pos : Nat) : Except Fault (Nat × Nat) := do
  let rest ← sliceFrom bytes pos
  Fault.lift (decodeLeb128From 0 0 0 rest)

/-- The payload of an encoding of integers and its rows, by the fast decoder. -/
def decodeWith (E : Encoding) (data : List UInt8) : Except Fault (List (BitVec 64)) := do
  let payload ← E.parse data
  E.fastDecode payload

/-! ## Things of varying size -/

/-- A varint, read where bytes are left. -/
def readVarint (data : List UInt8) (pos : Nat) : Except Fault (Nat × Nat) :=
  if pos ≥ data.length then .error (.error .offsetRange)
  else do
    let (value, consumed) ← varintAt data pos
    let next ← Fault.lift (checkedAdd pos consumed)
    .ok (value, next)

/-- Bytes after a 32-bit length, as the bulk reader takes them. -/
def readVarBytesRow (data : List UInt8) (pos : Nat) : Except Fault (List UInt8 × Nat) :=
  Fault.lift do
    let len ← readU32Le data pos
    let dataStart ← checkedAdd pos 4
    let slice ← readRangeChecked data dataStart len
    let next ← checkedAdd dataStart len
    .ok (slice, next)

/-- The step over such bytes. -/
def skipVarBytesRow (data : List UInt8) (pos : Nat) : Except Fault Nat :=
  Fault.lift do
    let len ← readU32Le data pos
    let offset ← checkedAdd pos 4
    let next ← checkedAdd offset len
    if next > data.length then .error .offsetRange else .ok next

/-- Such bytes alone. -/
def varBytesAt (data : List UInt8) (pos : Nat) : Except Fault CoveArrayValue :=
  Fault.lift do
    let len ← readU32Le data pos
    let dataStart ← checkedAdd pos 4
    let slice ← readRangeChecked data dataStart len
    .ok (.bytes slice)

/-- Bytes after a varint length, as the bulk reader takes them. -/
def readLengthPrefixedRow (data : List UInt8) (pos : Nat) : Except Fault (List UInt8 × Nat) := do
  let (value, consumed) ← varintAt data pos
  let len ← Fault.lift (usizeTryFrom value)
  let dataStart ← Fault.lift (checkedAdd pos consumed)
  let slice ← Fault.lift (readRangeChecked data dataStart len)
  let next ← Fault.lift (checkedAdd dataStart len)
  .ok (slice, next)

/-- The step over such bytes. -/
def skipLengthPrefixedRow (data : List UInt8) (pos : Nat) : Except Fault Nat := do
  let (value, consumed) ← varintAt data pos
  let len ← Fault.lift (usizeTryFrom value)
  let offset ← Fault.lift (checkedAdd pos consumed)
  let next ← Fault.lift (checkedAdd offset len)
  if next > data.length then .error (.error .offsetRange) else .ok next

/-- Such bytes alone. -/
def lengthPrefixedAt (data : List UInt8) (pos : Nat) : Except Fault CoveArrayValue := do
  let (value, consumed) ← varintAt data pos
  let len ← Fault.lift (usizeTryFrom value)
  let dataStart ← Fault.lift (checkedAdd pos consumed)
  let slice ← Fault.lift (readRangeChecked data dataStart len)
  .ok (.bytes slice)

/-- The step over a varint. -/
def skipVarint (data : List UInt8) (pos : Nat) : Except Fault Nat := do
  let (_, next) ← readVarint data pos
  .ok next

/-- A varint alone. -/
def varintRowAt (data : List UInt8) (pos : Nat) : Except Fault CoveArrayValue :=
  if pos ≥ data.length then .error (.error .offsetRange)
  else do
    let (value, _) ← varintAt data pos
    .ok (.varint (BitVec.ofNat 64 value))

namespace EncodedArray

variable (self : EncodedArray)

/-! ## Values -/

/-- `is_null`. -/
def isNull (row : Nat) : Except CoveError Bool :=
  if row ≥ self.rowCount then .error .offsetRange
  else
    match self.validity with
    | some bm => bm.isNull row
    | none => .ok false

/-- A file code, resolved when there is a dictionary. -/
def fileCodeValue (code : Nat) : Except CoveError CoveArrayValue :=
  match self.dictionary with
  | some dict => do
    let value ← dict.decodeValue code
    .ok (.dictValue value)
  | none => .ok (.fileCode code)

/-- `value_from_i64`. A number that is negative as `i64` has its highest bit set. -/
def valueFromI64 (value : BitVec 64) : Except CoveError CoveArrayValue :=
  match self.physical with
  | .fileCode =>
    if value.toNat ≤ u32Max then self.fileCodeValue value.toNat else .error .pageCorrupt
  | .numCode => if value.toNat < 2 ^ 63 then .ok (.numCode value) else .error .pageCorrupt
  | .boolean =>
    if value = 0 then .ok (.boolean false)
    else if value = 1 then .ok (.boolean true)
    else .error .pageCorrupt
  | _ => .ok (.int64 value)

/-- `value_from_local_codebook`. -/
def valueFromLocalCodebook : LocalCodebookValue → Except CoveError CoveArrayValue
  | .fileCode code => self.fileCodeValue code
  | .numCode code => .ok (.numCode code)
  | .boolean b => .ok (.boolean b)
  | .varBytes bytes => .ok (.ownedBytes bytes)

/-- A row that is null or has its value. -/
def finishRow (row : Nat) (value : Except Fault CoveArrayValue) : Except Fault CoveArrayValue := do
  if ← Fault.lift (self.isNull row) then .ok .null else value

/-! ## One row -/

/-- `value_from_i64_vec`. -/
def valueFromI64Vec (row : Nat) (values : List (BitVec 64)) : Except CoveError CoveArrayValue := do
  let expected ← expectedRowCount self.rowCount
  if values.length ≠ expected then .error .pageCorrupt
  else do
    let value ← LocalCodebookValues.pick values row
    self.valueFromI64 value

/-- A row of an encoding of integers. -/
def integerRow (E : Encoding) (row : Nat) : Except Fault CoveArrayValue := do
  let values ← decodeWith E self.data
  Fault.lift (self.valueFromI64Vec row values)

/-- A row of a width, and what stands there. -/
def fixedRow (width row : Nat) : Except CoveError CoveArrayValue := do
  let offset ← checkedMul row width
  let slice ← readRangeChecked self.data offset width
  .ok (.bytes slice)

/-- `decode_canonical_row`. -/
def decodeCanonicalRow (row : Nat) : Except Fault CoveArrayValue :=
  match self.logical with
  | .null => .ok .null
  | .bool => .error (.error (.unsupportedEncoding
      "Canonical Bool rows are tag-only and need an explicit value-tag stream"))
  | .utf8 | .binary | .json => do
    let pos ← Scan.walk (skipLengthPrefixedRow self.data) row 0
    lengthPrefixedAt self.data pos
  | logical =>
    match logicalTypeFixedWidth logical with
    | none => .error (.error (.unsupportedEncoding
        s!"Canonical row decode unsupported for {logicalName logical}"))
    | some width => Fault.lift (self.fixedRow width row)

/-- `decode_present_row`. -/
def decodePresentRow (row : Nat) : Except Fault CoveArrayValue :=
  match self.encoding with
  | .validity =>
    match self.data[row / 8]? with
    | some byte => .ok (.validityBit (byte.toNat.testBit (row % 8)))
    | none => .error (.error .offsetRange)
  | .constant =>
    match logicalTypeFixedWidth self.logical with
    | none => .error (.error (.unsupportedEncoding
        s!"Constant encoding requires fixed-width logical type, got {logicalName self.logical}"))
    | some width => Fault.lift do
      let slice ← readRangeChecked self.data 0 width
      .ok (.bytes slice)
  | .fileCode => Fault.lift do
    let offset ← checkedMul row 4
    let code ← readU32Le self.data offset
    self.fileCodeValue code
  | .numCode => Fault.lift do
    let offset ← checkedMul row 8
    let code ← readU64Le self.data offset
    .ok (.numCode code)
  | .plainFixed =>
    match logicalTypeFixedWidth self.logical with
    | none => .error (.error (.unsupportedEncoding
        s!"PlainFixed encoding requires fixed-width logical type, got {logicalName self.logical}"))
    | some width => Fault.lift (self.fixedRow width row)
  | .plainVarint => do
    let pos ← Scan.walk (skipVarint self.data) row 0
    varintRowAt self.data pos
  | .varBytes => do
    let pos ← Scan.walk (skipVarBytesRow self.data) row 0
    varBytesAt self.data pos
  | .localCodebook => do
    let payload ← LocalCodebookPayload.parse self.data
    let values ← payload.decodeValues
    let expected ← Fault.lift (expectedRowCount self.rowCount)
    if values.length ≠ expected then .error (.error .pageCorrupt)
    else do
      let value ← Fault.lift (LocalCodebookValues.pick values row)
      Fault.lift (self.valueFromLocalCodebook value)
  | .rle => self.integerRow Encoding.rle row
  | .runEnd => self.integerRow Encoding.runEnd row
  | .bitPacked => self.integerRow Encoding.bitPacked row
  | .delta => self.integerRow Encoding.delta row
  | .frameOfReference => self.integerRow Encoding.frameOfReference row
  | .patchedBase => self.integerRow Encoding.patchedBase row
  | .sparse => self.integerRow Encoding.sparse row
  | .canonical => self.decodeCanonicalRow row
  | .sequence | .lz4Block | .zstdBlock | .registeredEncoding =>
    .error (.error (.unsupportedEncoding (encodingName self.encoding)))

/-- `decode_row`. -/
def decodeRow (row : Nat) : Except Fault CoveArrayValue :=
  if row ≥ self.rowCount then .error (.error .offsetRange)
  else self.finishRow row (self.decodePresentRow row)

/-! ## All rows -/

/-- `collect_rows`. -/
def collectRows (decode : Nat → Except Fault CoveArrayValue) :
    Except Fault (List CoveArrayValue) := do
  let expected ← Fault.lift (expectedRowCount self.rowCount)
  (List.range expected).mapM fun row => self.finishRow row (decode row)

/-- The rows of decoded values, by `value_from_i64` or `value_from_local_codebook`. -/
def valuesFrom {α : Type} (value : α → Except CoveError CoveArrayValue) (values : List α) :
    Except Fault (List CoveArrayValue) := do
  let expected ← Fault.lift (expectedRowCount self.rowCount)
  if values.length ≠ expected then .error (.error .pageCorrupt)
  else values.zipIdx.mapM fun entry => self.finishRow entry.2 (Fault.lift (value entry.1))

/-- All rows of an encoding of integers. -/
def integerRows (E : Encoding) : Except Fault (List CoveArrayValue) := do
  let values ← decodeWith E self.data
  self.valuesFrom self.valueFromI64 values

/-- The rows of things that stand one after the other. -/
def scanRows {α : Type} (read : Nat → Except Fault (α × Nat)) (value : α → CoveArrayValue) :
    Except Fault (List CoveArrayValue) := do
  let expected ← Fault.lift (expectedRowCount self.rowCount)
  Scan.scan read (fun row a => self.finishRow row (.ok (value a))) expected 0 0

/-- A fixed row of the bulk reader, which reads null rows too. -/
def canonicalFixedRow (width row : Nat) : Except Fault CoveArrayValue := do
  let value ← Fault.lift (self.fixedRow width row)
  self.finishRow row (.ok value)

/-- `decode_all_canonical_rows`. -/
def decodeAllCanonicalRows : Except Fault (List CoveArrayValue) :=
  match self.logical with
  | .null => do
    let expected ← Fault.lift (expectedRowCount self.rowCount)
    .ok (List.replicate expected .null)
  | .bool => self.collectRows self.decodePresentRow
  | .utf8 | .binary | .json => self.scanRows (readLengthPrefixedRow self.data) .bytes
  | logical =>
    match logicalTypeFixedWidth logical with
    | none => .error (.error (.unsupportedEncoding
        s!"Canonical row decode unsupported for {logicalName logical}"))
    | some width => do
      let expected ← Fault.lift (expectedRowCount self.rowCount)
      (List.range expected).mapM (self.canonicalFixedRow width)

/-- `decode_all_rows`. -/
def decodeAllRows : Except Fault (List CoveArrayValue) :=
  match self.encoding with
  | .localCodebook => do
    let payload ← LocalCodebookPayload.parse self.data
    let values ← payload.decodeValues
    self.valuesFrom self.valueFromLocalCodebook values
  | .rle => self.integerRows Encoding.rle
  | .runEnd => self.integerRows Encoding.runEnd
  | .bitPacked => self.integerRows Encoding.bitPacked
  | .delta => self.integerRows Encoding.delta
  | .frameOfReference => self.integerRows Encoding.frameOfReference
  | .patchedBase => self.integerRows Encoding.patchedBase
  | .sparse => self.integerRows Encoding.sparse
  | .plainVarint => self.scanRows (readVarint self.data) fun value => .varint (BitVec.ofNat 64 value)
  | .varBytes => self.scanRows (readVarBytesRow self.data) .bytes
  | .canonical => self.decodeAllCanonicalRows
  | _ => self.collectRows self.decodePresentRow

end EncodedArray

/-! ## The prepared page -/

inductive VariableOffsetKind where
  | plainVarint
  | varBytes
  | canonicalLengthPrefixed
  deriving DecidableEq, Repr

inductive PreparedArrayRepr where
  | direct
  | variableOffsets (kind : VariableOffsetKind) (rowOffsets : List Nat)
  | decodedValues (values : List CoveArrayValue)
  deriving DecidableEq, Repr

structure PreparedEncodedArray where
  array : EncodedArray
  repr : PreparedArrayRepr
  deriving DecidableEq, Repr

/-- `VariableOffsets::plain_varint` and its siblings. -/
def variableOffsets (kind : VariableOffsetKind) (skip : Nat → Except Fault Nat) (rowCount : Nat) :
    Except Fault PreparedArrayRepr := do
  let expected ← Fault.lift (expectedRowCount rowCount)
  let rowOffsets ← Scan.places skip expected 0
  .ok (.variableOffsets kind rowOffsets)

/-- `PreparedEncodedArray::new`. -/
def EncodedArray.prepareRepr (self : EncodedArray) : Except Fault PreparedArrayRepr :=
  match self.encoding with
  | .plainVarint => variableOffsets .plainVarint (skipVarint self.data) self.rowCount
  | .varBytes => variableOffsets .varBytes (skipVarBytesRow self.data) self.rowCount
  | .canonical =>
    if self.logical = .utf8 ∨ self.logical = .binary ∨ self.logical = .json then
      variableOffsets .canonicalLengthPrefixed (skipLengthPrefixedRow self.data) self.rowCount
    else .ok .direct
  | .localCodebook | .rle | .runEnd | .bitPacked | .delta | .frameOfReference | .patchedBase
  | .sparse => do
    let values ← self.decodeAllRows
    .ok (.decodedValues values)
  | _ => .ok .direct

/-- `prepare`. -/
def EncodedArray.prepare (self : EncodedArray) : Except Fault PreparedEncodedArray := do
  let repr ← self.prepareRepr
  .ok ⟨self, repr⟩

/-- The lookups by row, with `OffsetRange`. -/
def getRow {α : Type} (rows : List α) (row : Nat) : Except Fault α :=
  match rows[row]? with
  | some a => .ok a
  | none => .error (.error .offsetRange)

namespace PreparedEncodedArray

variable (self : PreparedEncodedArray)

/-- The value at a place that was taken down. -/
def valueAt (kind : VariableOffsetKind) (offset : Nat) : Except Fault CoveArrayValue :=
  match kind with
  | .plainVarint => varintRowAt self.array.data offset
  | .varBytes => varBytesAt self.array.data offset
  | .canonicalLengthPrefixed => lengthPrefixedAt self.array.data offset

/-- `decode_row`. -/
def decodeRow (row : Nat) : Except Fault CoveArrayValue :=
  if row ≥ self.array.rowCount then .error (.error .offsetRange)
  else
    match self.repr with
    | .direct => self.array.decodeRow row
    | .decodedValues values => getRow values row
    | .variableOffsets kind rowOffsets =>
      self.array.finishRow row do
        let offset ← getRow rowOffsets row
        self.valueAt kind offset

/-- `decode_selected_rows`. -/
def decodeSelectedRows (selectedRows : List Nat) : Except Fault (List CoveArrayValue) :=
  selectedRows.mapM self.decodeRow

/-- `decode_all_rows`. -/
def decodeAllRows : Except Fault (List CoveArrayValue) :=
  match self.repr with
  | .decodedValues values => .ok values
  | _ => do
    let expected ← Fault.lift (expectedRowCount self.array.rowCount)
    (List.range expected).mapM self.decodeRow

end PreparedEncodedArray

end PageArray

end Cove
