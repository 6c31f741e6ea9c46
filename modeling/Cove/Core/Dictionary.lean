import Cove.Core.Array

/-!
# The file dictionary

The index section lists one entry per file code, with the tag of the value and where its
canonical payload is stored: inline, in the payload section, or nowhere when redacted.

- `validateCanonicalPayload`: a payload is well formed for its tag.
- `FileDictionary.parse`: the dictionary of the two sections, every entry checked.
- `buildReverseLookup`: the file code of a payload.
-/

namespace Cove

/-- A field of a buffer. -/
def fieldBytes (buf : List UInt8) (offset length : Nat) : List UInt8 :=
  (buf.drop offset).take length

/-- A little-endian field of a buffer. -/
def fieldNat (buf : List UInt8) (offset length : Nat) : Nat :=
  LittleEndian.ofLe (fieldBytes buf offset length)

theorem fieldNat_lt (buf : List UInt8) (offset length : Nat) :
    fieldNat buf offset length < 256 ^ length := by
  have hlength : (fieldBytes buf offset length).length ≤ length := List.length_take_le _ _
  exact (LittleEndian.ofLe_lt _).trans_le (Nat.pow_le_pow_right (by decide) hlength)

/-- `ValueTag::from_u16`. -/
def ValueTag.fromU16 (code : Nat) : Option ValueTag :=
  [ValueTag.null, boolFalse, boolTrue, int64, uint64, float32Bits, float64Bits, decimal64,
    decimal128, dateDays, timestampMicros, timestampNanos, utf8, binary, uuid, json, list,
    struct, map][code]?

/-- A tag is read back from its code. -/
theorem ValueTag.fromU16_code (tag : ValueTag) : fromU16 tag.code = some tag := by
  cases tag <;> rfl

/-- Only its code is read as a tag. -/
theorem ValueTag.code_of_fromU16 {code : Nat} {tag : ValueTag} (h : fromU16 code = some tag) :
    code = tag.code := by
  have hplace : ∀ i : Fin 19, ∀ tag, fromU16 i = some tag → i = tag.code := by decide
  obtain ⟨hlt, -⟩ := List.getElem?_eq_some_iff.mp h
  exact hplace ⟨code, hlt⟩ tag h

/-! ## Canonical payloads -/

/-- The loop of `decode_u64_leb128`: the value and how many bytes it took. -/
def decodeLeb128From (value shift taken : Nat) : List UInt8 → Except CoveError (Nat × Nat)
  | [] => .error .bufferTooShort
  | byte :: bytes =>
    let low := byte.toNat % 128
    if shift ≥ 64 then .error .arithOverflow
    else if 64 - shift < 7 ∧ low ≥ 2 ^ (64 - shift) then .error .arithOverflow
    else
      let value := value + low * 2 ^ shift
      if byte.toNat < 128 then .ok (value, taken + 1)
      else if shift + 7 ≥ 64 then .error .arithOverflow
      else decodeLeb128From value (shift + 7) (taken + 1) bytes

/-- `decode_canonical_varint`. -/
def decodeCanonicalVarint (bytes : List UInt8) (what : String) : Except CoveError (Nat × Nat) :=
  match decodeLeb128From 0 0 0 bytes with
  | .ok out => .ok out
  | .error _ => .error (.badSection s!"invalid {what}")

/-- `validate_min_width`. -/
def validateMinWidth (bytes : List UInt8) (width : Nat) (what : String) : Except CoveError Nat :=
  if bytes.length < width then .error (.badSection s!"{what} must be exactly {width} bytes")
  else .ok width

/-- `decode_length_prefixed`: the payload and how many bytes it took with its prefix. -/
def decodeLengthPrefixed (bytes : List UInt8) (what : String) :
    Except CoveError (List UInt8 × Nat) := do
  let (payloadLen, prefixLen) ← decodeCanonicalVarint bytes what
  let total ← checkedAdd prefixLen payloadLen
  if total > bytes.length then
    .error (.badSection s!"{what} length prefix exceeds available bytes")
  else .ok (fieldBytes bytes prefixLen payloadLen, total)

/-- `is_scalar_value_tag`. -/
def ValueTag.isScalar : ValueTag → Bool
  | list | struct | map => false
  | _ => true

section

/- `inner` validates a payload one level down; `validJson` is the parser of JSON texts. -/
variable (validJson : List UInt8 → Bool) (inner : ValueTag → List UInt8 → Except CoveError Nat)

/-- `validate_tagged_value`. -/
def validateTaggedValue (bytes : List UInt8) : Except CoveError (ValueTag × Nat) := do
  let (rawTag, tagLen) ← decodeCanonicalVarint bytes "canonical value tag"
  match ValueTag.fromU16 rawTag with
  | none => .error (.badSection s!"unknown canonical value tag {rawTag}")
  | some valueTag => do
    let payloadLen ← inner valueTag (bytes.drop tagLen)
    .ok (valueTag, tagLen + payloadLen)

/-- The elements of a list. -/
def validateElements (bytes : List UInt8) : Nat → Nat → Except CoveError Nat
  | 0, pos => .ok pos
  | count + 1, pos => do
    let (_, consumed) ← validateTaggedValue inner (bytes.drop pos)
    validateElements bytes count (pos + consumed)

/-- The fields of a struct, with the id of the field before. -/
def validateFields (bytes : List UInt8) : Nat → Option Nat → Nat → Except CoveError Nat
  | 0, _, pos => .ok pos
  | count + 1, prevFieldId, pos => do
    let (fieldId, consumed) ← decodeCanonicalVarint (bytes.drop pos) "canonical struct field_id"
    let pos := pos + consumed
    if prevFieldId.any fun prev => decide (fieldId ≤ prev) then
      .error (.badSection "canonical struct field_ids must be strictly ascending")
    else
      let (_, consumed) ← validateTaggedValue inner (bytes.drop pos)
      validateFields bytes count (some fieldId) (pos + consumed)

/-- The pairs of a map, with the bytes of the key before. -/
def validatePairs (bytes : List UInt8) : Nat → Option (List UInt8) → Nat → Except CoveError Nat
  | 0, _, pos => .ok pos
  | count + 1, prevKey, pos => do
    let (keyTag, keyConsumed) ← validateTaggedValue inner (bytes.drop pos)
    if !keyTag.isScalar then .error (.badSection "canonical map key must be scalar")
    else
      let keyBytes := fieldBytes bytes pos keyConsumed
      let pos := pos + keyConsumed
      if prevKey.any fun prev => decide (keyBytes < prev) then
        .error (.badSection "canonical map keys must be sorted by canonical bytes")
      else if prevKey = some keyBytes then
        .error (.badSection "duplicate key in canonical map encoding")
      else
        let (_, valueConsumed) ← validateTaggedValue inner (bytes.drop pos)
        validatePairs bytes count (some keyBytes) (pos + valueConsumed)

end

/-- `validate_payload_inner`: how many bytes the payload of a tag takes. Every level takes
its tag from the bytes, so their number is enough fuel. -/
def validatePayloadInner (validJson : List UInt8 → Bool) :
    Nat → ValueTag → List UInt8 → Except CoveError Nat
  | 0, _, _ => .error .bufferTooShort
  | fuel + 1, valueTag, bytes =>
    let inner := validatePayloadInner validJson fuel
    match valueTag with
    | .null | .boolFalse | .boolTrue => .ok 0
    | .int64 | .uint64 | .float64Bits | .decimal64 | .timestampMicros | .timestampNanos =>
      validateMinWidth bytes 8 "8-byte canonical payload"
    | .float32Bits | .dateDays => validateMinWidth bytes 4 "4-byte canonical payload"
    | .decimal128 | .uuid => validateMinWidth bytes 16 "16-byte canonical payload"
    | .utf8 => do
      let (payload, consumed) ← decodeLengthPrefixed bytes "canonical UTF-8 payload"
      if isUtf8 payload then .ok consumed
      else .error (.badSection "Utf8 tag payload must be valid UTF-8")
    | .binary => do
      let (_, consumed) ← decodeLengthPrefixed bytes "canonical binary payload"
      .ok consumed
    | .json => do
      let (payload, consumed) ← decodeLengthPrefixed bytes "canonical JSON payload"
      if validJson payload then .ok consumed
      else .error (.badSection "Json tag payload must be syntactically valid JSON")
    | .list => do
      let (count, pos) ← decodeCanonicalVarint bytes "canonical list element count"
      validateElements inner bytes count pos
    | .struct => do
      let (count, pos) ← decodeCanonicalVarint bytes "canonical struct field count"
      validateFields inner bytes count none pos
    | .map => do
      let (count, pos) ← decodeCanonicalVarint bytes "canonical map pair count"
      validatePairs inner bytes count none pos

/-- `validate_canonical_payload`. -/
def validateCanonicalPayload (validJson : List UInt8 → Bool) (valueTag : ValueTag)
    (bytes : List UInt8) : Except CoveError Unit := do
  let consumed ← validatePayloadInner validJson (bytes.length + 1) valueTag bytes
  if consumed ≠ bytes.length then .error (.badSection "canonical payload has trailing bytes")
  else .ok ()

/-! ## The index section -/

/-- `DICT_HEADER_SIZE`. -/
def dictHeaderSize : Nat := 44

/-- `DICT_INDEX_ENTRY_SIZE`. -/
def dictIndexEntrySize : Nat := 48

/-- `FileDictionaryHeaderV1`. -/
@[ext]
structure FileDictionaryHeaderV1 where
  entryCount : Nat
  flags : Nat
  indexEntryLen : Nat
  valueHashAlgorithm : Nat
  payloadLength : Nat
  deriving DecidableEq, Repr

def FileDictionaryHeaderV1.parse (buf : List UInt8) : Except CoveError FileDictionaryHeaderV1 :=
  if buf.length < dictHeaderSize then .error .bufferTooShort
  else
    let indexEntryLen := fieldNat buf 8 2
    let valueHashAlgorithm := fieldNat buf 10 2
    if indexEntryLen ≠ dictIndexEntrySize then
      .error (.badSection s!"index_entry_len is {indexEntryLen}, expected {dictIndexEntrySize}")
    else if valueHashAlgorithm > 2 then
      .error (.badSection s!"unknown value_hash_algorithm {valueHashAlgorithm}")
    else if (fieldBytes buf 20 24).any (· != 0) then .error .reservedNotZero
    else
      .ok ⟨fieldNat buf 0 4, fieldNat buf 4 4, indexEntryLen, valueHashAlgorithm, fieldNat buf 12 8⟩

inductive StorageClass where
  | inline
  | payload
  | redacted
  deriving DecidableEq, Repr

/-- `StorageClass::from_u8`. -/
def StorageClass.fromU8 : Nat → Option StorageClass
  | 0 => some inline
  | 1 => some payload
  | 2 => some redacted
  | _ => none

/-- `FileDictionaryIndexEntryV1`, its tag and storage class decoded. -/
@[ext]
structure FileDictionaryIndexEntryV1 where
  valueTag : ValueTag
  storageClass : StorageClass
  flags : Nat
  inlineLen : Nat
  inlineData : List UInt8
  payloadOffset : Nat
  payloadLength : Nat
  canonicalHash64 : Nat
  deriving DecidableEq, Repr

namespace FileDictionaryIndexEntryV1

def parse (buf : List UInt8) : Except CoveError FileDictionaryIndexEntryV1 :=
  if buf.length < dictIndexEntrySize then .error .bufferTooShort
  else
    let valueTag := fieldNat buf 0 2
    let storageClass := fieldNat buf 2 1
    let inlineLen := fieldNat buf 4 1
    if (fieldBytes buf 5 3).any (· != 0) then .error .reservedNotZero
    else if fieldNat buf 44 4 ≠ 0 then .error .reservedNotZero
    else
      match ValueTag.fromU16 valueTag, StorageClass.fromU8 storageClass with
      | none, _ =>
        .error (.badSection s!"unknown value_tag {valueTag} in dictionary index entry")
      | _, none =>
        .error (.badSection s!"unknown storage_class {storageClass} in dictionary index entry")
      | some tag, some storage =>
        if inlineLen > 16 then
          .error (.badSection s!"inline_len {inlineLen} exceeds inline_data capacity (16)")
        else
          .ok ⟨tag, storage, fieldNat buf 3 1, inlineLen, fieldBytes buf 8 16,
            fieldNat buf 24 8, fieldNat buf 32 4, fieldNat buf 36 8⟩

/-- `validate_payload_bounds`. -/
def validatePayloadBounds (self : FileDictionaryIndexEntryV1) (payloadTotalLen : Nat) :
    Except CoveError Unit := do
  let stop ← checkedAdd self.payloadOffset self.payloadLength
  if stop > payloadTotalLen then .error .offsetRange else .ok ()

end FileDictionaryIndexEntryV1

/-- `decode_dictionary_entry`. -/
def decodeDictionaryEntry (entry : FileDictionaryIndexEntryV1) (payloadSection : List UInt8) :
    Except CoveError DictionaryValue :=
  match entry.storageClass with
  | .redacted => .ok .redactedPresent
  | .inline => .ok (.rawBytes (entry.inlineData.take entry.inlineLen))
  | .payload => do
    .ok (.rawBytes (← readRangeChecked payloadSection entry.payloadOffset entry.payloadLength))

/-- `validate_dictionary_entry`. -/
def validateDictionaryEntry (validJson : List UInt8 → Bool) (entry : FileDictionaryIndexEntryV1)
    (payloadSection : List UInt8) (payloadTotalLen : Nat) : Except CoveError Unit := do
  entry.validatePayloadBounds payloadTotalLen
  match entry.storageClass with
  | .inline =>
    if entry.payloadLength ≠ 0 then
      .error (.badSection "inline storage must not use payload bytes")
    else
      validateCanonicalPayload validJson entry.valueTag (entry.inlineData.take entry.inlineLen)
  | .payload =>
    if entry.inlineLen ≠ 0 then
      .error (.badSection "payload storage must not use inline bytes")
    else do
      let bytes ← readRangeChecked payloadSection entry.payloadOffset entry.payloadLength
      validateCanonicalPayload validJson entry.valueTag bytes
  | .redacted =>
    if entry.valueTag = .null then .error (.badSection "redacted value must not be null")
    else .ok ()

/-- `FileDictionary::parse`, each entry with the value its storage decodes to. -/
def FileDictionary.parse (validJson : List UInt8 → Bool)
    (indexSection payloadSection : List UInt8) : Except CoveError FileDictionary := do
  if indexSection.length < dictHeaderSize then .error .bufferTooShort
  else
    let header ← FileDictionaryHeaderV1.parse (indexSection.take dictHeaderSize)
    let entriesBytes ← checkedMul header.entryCount header.indexEntryLen
    let expected ← checkedAdd dictHeaderSize entriesBytes
    if indexSection.length ≠ expected then
      .error (.badSection "dictionary index section length mismatch")
    else if payloadSection.length ≠ header.payloadLength then
      .error (.badSection "dictionary payload section length mismatch")
    else do
      let entries ← (List.range header.entryCount).mapM fun fileCode => do
        let entry ← FileDictionaryIndexEntryV1.parse
          (fieldBytes indexSection (dictHeaderSize + fileCode * dictIndexEntrySize)
            dictIndexEntrySize)
        validateDictionaryEntry validJson entry payloadSection header.payloadLength
        .ok (⟨entry.valueTag, ← decodeDictionaryEntry entry payloadSection⟩ : DictionaryEntry)
      .ok ⟨entries⟩

/-! ## The reverse lookup -/

/-- The file code of every payload that is present, and the redacted codes. -/
structure ReverseLookup where
  byCanonicalValue : List (List UInt8 × Nat)
  redactedFilecodes : List Nat
  deriving DecidableEq, Repr

/-- The loop of `build_reverse_lookup` over the entries from a file code on. -/
def reverseLookupFrom (lookup : ReverseLookup) : Nat → List DictionaryEntry →
    Except CoveError ReverseLookup
  | _, [] => .ok lookup
  | fileCode, entry :: entries =>
    match entry.value with
    | .rawBytes bytes =>
      if bytes ∈ lookup.byCanonicalValue.map Prod.fst then
        .error (.badSection "dictionary contains duplicate canonical values")
      else
        reverseLookupFrom
          { lookup with byCanonicalValue := (bytes, fileCode) :: lookup.byCanonicalValue }
          (fileCode + 1) entries
    | .redactedPresent =>
      reverseLookupFrom
        { lookup with redactedFilecodes := lookup.redactedFilecodes ++ [fileCode] }
        (fileCode + 1) entries

/-- `build_reverse_lookup`. -/
def buildReverseLookup (dictionary : FileDictionary) : Except CoveError ReverseLookup :=
  reverseLookupFrom ⟨[], []⟩ 0 dictionary.entries

end Cove
