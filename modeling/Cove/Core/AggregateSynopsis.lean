import Cove.Core.SealedRecord
import Cove.Lib.ByteCursor
import Cove.Lib.Digests
import Cove.Lib.SortedList

/-!
# Aggregate synopses

The section lists an entry for every synopsis, and the payloads after the entries. How many entries
there are is not stored.

- `AggregateEntry`, `TaggedCanonicalValue`, `AggregatePayloadV2`: what an entry and its payload hold.
- `validatePayload`: the payload of an entry agrees with it.
- `AggregateSynopsis.serialize`, `AggregateSynopsis.parse`: the writer and the reader.
- `inferEntryCount`: the number of entries, by their payloads.
-/

namespace Cove

/-! ## Kinds -/

/-- `AGGREGATE_SYNOPSIS_ENTRY_LEN`. -/
def aggregateSynopsisEntryLen : Nat := 48

/-- `AGGREGATE_PAYLOAD_HEADER_LEN`. -/
def aggregatePayloadHeaderLen : Nat := 28

/-- `AGGREGATE_PAYLOAD_MAGIC`. -/
def aggregatePayloadMagic : List UInt8 := [65, 71, 83, 50]

/-- `AGGREGATE_PAYLOAD_VERSION`. -/
def aggregatePayloadVersion : Nat := 1

/-- `ABSENT_VALUE_TAG`. -/
def absentValueTag : Nat := 65535

inductive SynopsisKind where
  | count
  | minMax
  | sum
  | sumAndCount
  | boolTrueFalseCounts
  | fileCodeHistogram
  | numCodeHistogram
  | distinctSketch
  | quantileSketch
  | topK
  deriving DecidableEq, Repr

namespace SynopsisKind

/-- `from_u8`. -/
def fromU8 : Nat → Option SynopsisKind
  | 0 => some count
  | 1 => some minMax
  | 2 => some sum
  | 3 => some sumAndCount
  | 4 => some boolTrueFalseCounts
  | 5 => some fileCodeHistogram
  | 6 => some numCodeHistogram
  | 7 => some distinctSketch
  | 8 => some quantileSketch
  | 9 => some topK
  | _ => none

/-- `kind as u8`. -/
def code : SynopsisKind → Nat
  | count => 0
  | minMax => 1
  | sum => 2
  | sumAndCount => 3
  | boolTrueFalseCounts => 4
  | fileCodeHistogram => 5
  | numCodeHistogram => 6
  | distinctSketch => 7
  | quantileSketch => 8
  | topK => 9

theorem fromU8_code (kind : SynopsisKind) : fromU8 kind.code = some kind := by
  cases kind <;> rfl

theorem code_lt (kind : SynopsisKind) : kind.code < 256 := by
  cases kind <;> decide

end SynopsisKind

inductive SynopsisAccuracy where
  | exact
  | approximate
  deriving DecidableEq, Repr

namespace SynopsisAccuracy

/-- `from_u8`. -/
def fromU8 : Nat → Option SynopsisAccuracy
  | 0 => some .exact
  | 1 => some approximate
  | _ => none

/-- `accuracy as u8`. -/
def code : SynopsisAccuracy → Nat
  | .exact => 0
  | approximate => 1

theorem fromU8_code (accuracy : SynopsisAccuracy) : fromU8 accuracy.code = some accuracy := by
  cases accuracy <;> rfl

theorem code_lt (accuracy : SynopsisAccuracy) : accuracy.code < 256 := by
  cases accuracy <;> decide

end SynopsisAccuracy

inductive NumericAggregateOverflowPolicy where
  | checkedExact
  | saturating
  | wrapping
  | decimalWidened
  deriving DecidableEq, Repr

variable (policy : NumericAggregateOverflowPolicy)

namespace NumericAggregateOverflowPolicy

/-- `from_u32`. -/
def fromU32 : Nat → Option NumericAggregateOverflowPolicy
  | 0 => some checkedExact
  | 1 => some saturating
  | 2 => some wrapping
  | 3 => some decimalWidened
  | _ => none

/-- `policy as u32`. -/
def code : NumericAggregateOverflowPolicy → Nat
  | checkedExact => 0
  | saturating => 1
  | wrapping => 2
  | decimalWidened => 3

theorem fromU32_code :
    fromU32 policy.code = some policy := by
  cases policy <;> rfl

theorem code_lt : policy.code < 256 ^ 4 := by
  cases policy <;> decide

end NumericAggregateOverflowPolicy

/-! ## Payloads -/

/-- `TaggedCanonicalValue`: only valid payloads are tagged. -/
structure TaggedCanonicalValue (validJson : List UInt8 → Bool) where
  valueTag : ValueTag
  payload : List UInt8
  valid : validateCanonicalPayload validJson valueTag payload = .ok ()
  deriving DecidableEq

/-- `HistogramBucket`. -/
structure HistogramBucket where
  key : UInt64
  count : UInt64
  deriving DecidableEq, Repr

section

variable (validJson : List UInt8 → Bool)

/-- `TaggedCanonicalValue::new`. -/
def TaggedCanonicalValue.new (valueTag : ValueTag) (payload : List UInt8) :
    Except CoveError (TaggedCanonicalValue validJson) :=
  match h : validateCanonicalPayload validJson valueTag payload with
  | .ok () => .ok ⟨valueTag, payload, h⟩
  | .error e => .error e

inductive AggregatePayloadV2 where
  | none
  | minMax (min max : Option (TaggedCanonicalValue validJson))
  | sum (overflowPolicy : NumericAggregateOverflowPolicy) (sum : TaggedCanonicalValue validJson)
  | sumAndCount (overflowPolicy : NumericAggregateOverflowPolicy) (nonNullCount : UInt64)
      (sum : TaggedCanonicalValue validJson)
  | boolTrueFalseCounts (trueCount falseCount : UInt64)
  | fileCodeHistogram (buckets : List HistogramBucket)
  | numCodeHistogram (buckets : List HistogramBucket)
  | distinctSketch (precision : UInt8) (registers : List UInt8)
  | quantileSketch (k : UInt32) (valueTag : ValueTag) (levelOffsets : List UInt32)
      (values : List (List UInt8))
  | topK (k : UInt32) (entries : List HistogramBucket)
  deriving DecidableEq

end

/-! ## Entries -/

/-- `AggregateEntry`. -/
structure AggregateEntry where
  tableId : UInt32
  segmentId : UInt32
  morselId : UInt32
  columnId : UInt32
  synopsisKind : SynopsisKind
  keyKind : UInt8
  accuracy : SynopsisAccuracy
  flags : UInt8
  rowCount : UInt32
  nullCount : UInt32
  payloadOffset : UInt64
  payloadLength : UInt64
  checksum : UInt32
  deriving DecidableEq, Repr

namespace AggregateEntry

/-- `new`. -/
def new (tableId segmentId morselId columnId : UInt32) (synopsisKind : SynopsisKind)
    (keyKind : UInt8) (accuracy : SynopsisAccuracy) (rowCount nullCount : UInt32) :
    Except CoveError AggregateEntry :=
  if nullCount > rowCount then .error .badIndex
  else
    .ok
      { tableId, segmentId, morselId, columnId, synopsisKind, keyKind, accuracy
        flags := 0
        rowCount, nullCount
        payloadOffset := 0
        payloadLength := 0
        checksum := 0 }

/-- The fields before the checksum. -/
def fields (self : AggregateEntry) : List (Nat × Nat) :=
  [(4, self.tableId.toNat), (4, self.segmentId.toNat), (4, self.morselId.toNat),
    (4, self.columnId.toNat), (1, self.synopsisKind.code), (1, self.keyKind.toNat),
    (1, self.accuracy.code), (1, self.flags.toNat), (4, self.rowCount.toNat),
    (4, self.nullCount.toNat), (8, self.payloadOffset.toNat), (8, self.payloadLength.toNat)]

/-- `serialize`. -/
def serialize (self : AggregateEntry) : List UInt8 :=
  FieldRecord.encode (sealRecord Crc32c.crc32c self.fields)

/-- `parse`. -/
def parse (bytes : List UInt8) : Except CoveError AggregateEntry :=
  if bytes.length < aggregateSynopsisEntryLen then .error .bufferTooShort
  else do
    let checksum ←
      verifyChecksumField Crc32c.crc32c (bytes.take aggregateSynopsisEntryLen) 44
    match SynopsisKind.fromU8 (fieldNat bytes 16 1),
      SynopsisAccuracy.fromU8 (fieldNat bytes 18 1) with
    | some synopsisKind, some accuracy =>
      let rowCount := fieldNat bytes 20 4
      let nullCount := fieldNat bytes 24 4
      if nullCount > rowCount then .error .badIndex
      else
        .ok
          { tableId := .ofNat (fieldNat bytes 0 4)
            segmentId := .ofNat (fieldNat bytes 4 4)
            morselId := .ofNat (fieldNat bytes 8 4)
            columnId := .ofNat (fieldNat bytes 12 4)
            synopsisKind := synopsisKind
            keyKind := .ofNat (fieldNat bytes 17 1)
            accuracy := accuracy
            flags := .ofNat (fieldNat bytes 19 1)
            rowCount := .ofNat rowCount
            nullCount := .ofNat nullCount
            payloadOffset := .ofNat (fieldNat bytes 28 8)
            payloadLength := .ofNat (fieldNat bytes 36 8)
            checksum := .ofNat checksum }
    | _, _ => .error .badIndex

/-- `non_null_count`. -/
def nonNullCount (self : AggregateEntry) : Except CoveError Nat :=
  checkedSub self.rowCount.toNat self.nullCount.toNat

end AggregateEntry

/-! ## Validation -/

/-- `validate_numeric_sum_tag`. -/
def validateNumericSumTag : ValueTag → Except CoveError Unit
  | .int64 | .uint64 | .decimal64 | .decimal128 | .float32Bits | .float64Bits => .ok ()
  | _ => .error .badIndex

/-- The loop of `validate_histogram`: the sum of the counts. -/
def histogramTotal (previousKey : Option UInt64) (total : Nat) :
    List HistogramBucket → Except CoveError Nat
  | [] => .ok total
  | bucket :: buckets =>
    if bucket.count = 0 ∨ previousKey.any (fun key => decide (bucket.key ≤ key)) then
      .error .badIndex
    else do
      let total ← checkedAdd total bucket.count.toNat
      histogramTotal (some bucket.key) total buckets

/-- `validate_histogram`. -/
def validateHistogram (buckets : List HistogramBucket) (accuracy : SynopsisAccuracy)
    (nonNullCount : Nat) : Except CoveError Unit := do
  let total ← histogramTotal none 0 buckets
  if accuracy = .exact ∧ total ≠ nonNullCount then .error .badIndex else .ok ()

/-- `validate_topk`, with the entry before. -/
def validateTopk (previous : Option HistogramBucket) :
    List HistogramBucket → Except CoveError Unit
  | [] => .ok ()
  | entry :: entries =>
    if entry.count = 0 then .error .badIndex
    else if previous.any fun prev =>
        ¬ (prev.count > entry.count ∨ (prev.count = entry.count ∧ prev.key < entry.key)) then
      .error .badIndex
    else validateTopk (some entry) entries

/-- `validate_hll`. -/
def validateHll (precision : UInt8) (registers : List UInt8) : Except CoveError Unit :=
  if ¬ (4 ≤ precision.toNat ∧ precision.toNat ≤ 18) then .error .badIndex
  else if registers.length ≠ 2 ^ precision.toNat then .error .badIndex
  else if registers.all fun rank => decide (rank.toNat ≤ 64 - precision.toNat + 1) then .ok ()
  else .error .badIndex

/-- The loop of `validate_kll` over the offsets. -/
def validateLevelOffsets (valueCount previous : Nat) : List UInt32 → Except CoveError Nat
  | [] => .ok previous
  | offset :: offsets =>
    if offset.toNat < previous ∨ offset.toNat > valueCount then .error .badIndex
    else validateLevelOffsets valueCount offset.toNat offsets

section

variable (validJson : List UInt8 → Bool)

/-- `validate_kll`. -/
def validateKll (k : UInt32) (valueTag : ValueTag) (levelOffsets : List UInt32)
    (values : List (List UInt8)) : Except CoveError Unit :=
  if k < 8 ∨ levelOffsets.length < 2 then .error .badIndex
  else do
    let last ← validateLevelOffsets values.length 0 levelOffsets
    if last ≠ values.length then .error .badIndex
    else values.forM (validateCanonicalPayload validJson valueTag)

variable {validJson}

/-- `validate_payload`. -/
def validatePayload (entry : AggregateEntry) (payload : AggregatePayloadV2 validJson) :
    Except CoveError Unit := do
  let nonNullCount ← entry.nonNullCount
  match entry.synopsisKind, payload with
  | .count, .none => .ok ()
  | .minMax, .minMax min max =>
    if entry.accuracy ≠ .exact then .error .badIndex
    else
      match decide (nonNullCount = 0), min.isSome, max.isSome with
      | true, false, false | false, true, true => .ok ()
      | _, _, _ => .error .badIndex
  | .sum, .sum _ sum =>
    if entry.accuracy ≠ .exact then .error .badIndex else validateNumericSumTag sum.valueTag
  | .sumAndCount, .sumAndCount _ declared sum =>
    if entry.accuracy ≠ .exact ∨ declared.toNat ≠ nonNullCount then .error .badIndex
    else validateNumericSumTag sum.valueTag
  | .boolTrueFalseCounts, .boolTrueFalseCounts trueCount falseCount =>
    if entry.accuracy ≠ .exact then .error .badIndex
    else do
      let total ← checkedAdd trueCount.toNat falseCount.toNat
      if total = nonNullCount then .ok () else .error .badIndex
  | .fileCodeHistogram, .fileCodeHistogram buckets
  | .numCodeHistogram, .numCodeHistogram buckets =>
    validateHistogram buckets entry.accuracy nonNullCount
  | .distinctSketch, .distinctSketch precision registers =>
    if entry.accuracy ≠ .approximate then .error .badIndex else validateHll precision registers
  | .quantileSketch, .quantileSketch k valueTag levelOffsets values =>
    if entry.accuracy ≠ .approximate then .error .badIndex
    else validateKll validJson k valueTag levelOffsets values
  | .topK, .topK k entries =>
    if k = 0 ∨ entries.length > k.toNat then .error .badIndex else validateTopk none entries
  | _, _ => .error .badIndex

/-! ## Writing payloads -/

/-- `encode_tagged`. -/
def encodeTagged (value : TaggedCanonicalValue validJson) : List UInt8 :=
  LittleEndian.toLe 2 value.valueTag.code ++ LittleEndian.toLe 4 value.payload.length ++
    value.payload

/-- `encode_optional_tagged`. -/
def encodeOptionalTagged : Option (TaggedCanonicalValue validJson) → List UInt8
  | some value => encodeTagged value
  | none => LittleEndian.toLe 2 absentValueTag ++ LittleEndian.toLe 4 0

/-- A bucket, as `encode_buckets` writes it. -/
def encodeBucket (bucket : HistogramBucket) : List UInt8 :=
  LittleEndian.toLe 8 bucket.key.toNat ++ LittleEndian.toLe 8 bucket.count.toNat

/-- A value of a quantile sketch. -/
def encodeSketchValue (value : List UInt8) : List UInt8 :=
  LittleEndian.toLe 4 value.length ++ value

/-- What `encode_payload` puts in the header of a payload and after it: the item count, the first
auxiliary number, and the data. -/
def payloadBody : AggregatePayloadV2 validJson → Option (Nat × Nat × List UInt8)
  | .none => none
  | .minMax min max => some (2, 0, encodeOptionalTagged min ++ encodeOptionalTagged max)
  | .sum overflowPolicy sum => some (1, overflowPolicy.code, encodeTagged sum)
  | .sumAndCount overflowPolicy nonNullCount sum =>
    some (1, overflowPolicy.code, LittleEndian.toLe 8 nonNullCount.toNat ++ encodeTagged sum)
  | .boolTrueFalseCounts trueCount falseCount =>
    some (2, 0, LittleEndian.toLe 8 trueCount.toNat ++ LittleEndian.toLe 8 falseCount.toNat)
  | .fileCodeHistogram buckets | .numCodeHistogram buckets =>
    some (buckets.length, 0, buckets.flatMap encodeBucket)
  | .distinctSketch precision registers => some (registers.length, precision.toNat, registers)
  | .quantileSketch k valueTag levelOffsets values =>
    some (values.length, k.toNat, LittleEndian.toLe 2 valueTag.code ++ LittleEndian.toLe 2 0 ++
      LittleEndian.toLe 4 levelOffsets.length ++
      (levelOffsets.flatMap fun offset => LittleEndian.toLe 4 offset.toNat) ++
      values.flatMap encodeSketchValue)
  | .topK k entries => some (entries.length, k.toNat, entries.flatMap encodeBucket)

/-- The header of a payload before its checksum. -/
def payloadHeaderFields (kind : SynopsisKind) (flags itemCount aux0 aux1 dataLen : Nat) :
    List (Nat × Nat) :=
  [(4, LittleEndian.ofLe aggregatePayloadMagic), (1, kind.code), (1, aggregatePayloadVersion),
    (2, flags), (4, itemCount), (4, aux0), (4, aux1), (4, dataLen)]

/-- `encode_payload_with_header`: numbers of the header are cut to their fields. -/
def encodePayloadWithHeader (kind : SynopsisKind) (flags itemCount aux0 aux1 : Nat)
    (data : List UInt8) : List UInt8 :=
  let head := FieldRecord.encode (payloadHeaderFields kind flags itemCount aux0 aux1 data.length)
  head ++ LittleEndian.toLe 4 (Crc32c.crc32c (head ++ [0, 0, 0, 0] ++ data)) ++ data

/-- `encode_payload`. -/
def encodePayload (entry : AggregateEntry) (payload : AggregatePayloadV2 validJson) :
    List UInt8 :=
  match payloadBody payload with
  | none => []
  | some (itemCount, aux0, data) =>
    encodePayloadWithHeader entry.synopsisKind 0 itemCount aux0 0 data

/-! ## Reading payloads -/

/-- `AggregatePayloadHeader`. -/
structure AggregatePayloadHeader where
  kind : SynopsisKind
  flags : Nat
  itemCount : Nat
  aux0 : Nat
  aux1 : Nat
  dataLen : Nat
  checksum : Nat
  deriving DecidableEq, Repr

/-- `parse_payload_header`: the header, and the data after it. -/
def parsePayloadHeader (bytes : List UInt8) :
    Except CoveError (AggregatePayloadHeader × List UInt8) :=
  if bytes.length < aggregatePayloadHeaderLen then .error .bufferTooShort
  else if fieldBytes bytes 0 4 ≠ aggregatePayloadMagic then .error .badIndex
  else if fieldNat bytes 5 1 ≠ aggregatePayloadVersion then .error .badVersion
  else
    match SynopsisKind.fromU8 (fieldNat bytes 4 1) with
    | none => .error .badIndex
    | some kind =>
      if aggregatePayloadHeaderLen + fieldNat bytes 20 4 ≠ bytes.length then .error .badIndex
      else if Crc32c.crc32c (bytes.take 24 ++ [0, 0, 0, 0] ++ bytes.drop 28) ≠
          fieldNat bytes 24 4 then .error .checksumMismatch
      else
        .ok (⟨kind, fieldNat bytes 6 2, fieldNat bytes 8 4, fieldNat bytes 12 4,
          fieldNat bytes 16 4, fieldNat bytes 20 4, fieldNat bytes 24 4⟩,
          bytes.drop aggregatePayloadHeaderLen)

/-- The readers of `Cursor`, from what is left. -/
abbrev takeBytes (len : Nat) (rest : List UInt8) : Except CoveError (List UInt8 × List UInt8) :=
  ByteCursor.take .offsetRange len rest

abbrev takeNat (width : Nat) (rest : List UInt8) : Except CoveError (Nat × List UInt8) :=
  ByteCursor.takeNat .offsetRange width rest

variable (validJson) in
/-- `parse_optional_tagged`. -/
def parseOptionalTagged (rest : List UInt8) :
    Except CoveError (Option (TaggedCanonicalValue validJson) × List UInt8) := do
  let (rawTag, rest) ← takeNat 2 rest
  let (len, rest) ← takeNat 4 rest
  if rawTag = absentValueTag then
    if len = 0 then .ok (none, rest) else .error .badIndex
  else
    match ValueTag.fromU16 rawTag with
    | none => .error .badIndex
    | some valueTag => do
      let (payload, rest) ← takeBytes len rest
      let value ← TaggedCanonicalValue.new validJson valueTag payload
      .ok (some value, rest)

variable (validJson) in
/-- `parse_tagged`. -/
def parseTagged (rest : List UInt8) :
    Except CoveError (TaggedCanonicalValue validJson × List UInt8) := do
  match ← parseOptionalTagged validJson rest with
  | (some value, rest) => .ok (value, rest)
  | (none, _) => .error .badIndex

variable (validJson) in
/-- `parse_single_tagged_payload`. -/
def parseSingleTaggedPayload (data : List UInt8) :
    Except CoveError (TaggedCanonicalValue validJson) := do
  let (value, rest) ← parseTagged validJson data
  if rest ≠ [] then .error .badIndex else .ok value

/-- `parse_buckets`. -/
def parseBuckets (data : List UInt8) (itemCount : Nat) :
    Except CoveError (List HistogramBucket) := do
  let expected ← checkedMul itemCount 16
  if data.length ≠ expected then .error .badIndex
  else
    .ok ((chunksExact 16 data).map fun chunk =>
      ⟨.ofNat (fieldNat chunk 0 8), .ofNat (fieldNat chunk 8 8)⟩)

/-- A value of a quantile sketch. -/
def parseSketchValue (rest : List UInt8) : Except CoveError (List UInt8 × List UInt8) := do
  let (len, rest) ← takeNat 4 rest
  takeBytes len rest

/-- A level offset of a quantile sketch. -/
def parseLevelOffset (rest : List UInt8) : Except CoveError (UInt32 × List UInt8) := do
  let (offset, rest) ← takeNat 4 rest
  .ok (.ofNat offset, rest)

variable (validJson) in
/-- The cases of `parse_payload`, before the payload is validated. -/
def parsePayloadBody (header : AggregatePayloadHeader) (data : List UInt8) :
    Except CoveError (AggregatePayloadV2 validJson) :=
  match header.kind with
  | .count => .error .badIndex
  | .minMax =>
    if header.itemCount ≠ 2 then .error .badIndex
    else do
      let (min, rest) ← parseOptionalTagged validJson data
      let (max, _) ← parseOptionalTagged validJson rest
      .ok (.minMax min max)
  | .sum =>
    match NumericAggregateOverflowPolicy.fromU32 header.aux0 with
    | none => .error .badIndex
    | some overflowPolicy => do
      .ok (.sum overflowPolicy (← parseSingleTaggedPayload validJson data))
  | .sumAndCount => do
    let (nonNullCount, rest) ← takeNat 8 data
    match NumericAggregateOverflowPolicy.fromU32 header.aux0 with
    | none => .error .badIndex
    | some overflowPolicy => do
      let (sum, _) ← parseTagged validJson rest
      .ok (.sumAndCount overflowPolicy (.ofNat nonNullCount) sum)
  | .boolTrueFalseCounts =>
    if data.length ≠ 16 ∨ header.itemCount ≠ 2 then .error .badIndex
    else .ok (.boolTrueFalseCounts (.ofNat (fieldNat data 0 8)) (.ofNat (fieldNat data 8 8)))
  | .fileCodeHistogram => do .ok (.fileCodeHistogram (← parseBuckets data header.itemCount))
  | .numCodeHistogram => do .ok (.numCodeHistogram (← parseBuckets data header.itemCount))
  | .distinctSketch =>
    if header.aux0 ≥ 256 then .error .badIndex
    else if header.itemCount ≠ data.length then .error .badIndex
    else .ok (.distinctSketch (.ofNat header.aux0) data)
  | .quantileSketch => do
    let (valueTagRaw, rest) ← takeNat 2 data
    match ValueTag.fromU16 valueTagRaw with
    | none => .error .badIndex
    | some valueTag => do
      let (reserved, rest) ← takeNat 2 rest
      if reserved ≠ 0 then .error .badIndex
      else do
        let (levelCount, rest) ← takeNat 4 rest
        if levelCount < 2 then .error .badIndex
        else do
          let (levelOffsets, rest) ← ByteCursor.many parseLevelOffset levelCount rest
          let (values, rest) ← ByteCursor.many parseSketchValue header.itemCount rest
          if rest ≠ [] then .error .badIndex
          else .ok (.quantileSketch (.ofNat header.aux0) valueTag levelOffsets values)
  | .topK => do
    .ok (.topK (.ofNat header.aux0) (← parseBuckets data header.itemCount))

variable (validJson) in
/-- `parse_payload`. -/
def parsePayload (entry : AggregateEntry) (bytes : List UInt8) :
    Except CoveError (AggregatePayloadV2 validJson) := do
  let (header, data) ← parsePayloadHeader bytes
  if header.kind ≠ entry.synopsisKind then .error .badIndex
  else do
    let payload ← parsePayloadBody validJson header data
    validatePayload entry payload
    .ok payload

/-! ## Synopses -/

variable (validJson) in
/-- `AggregateSynopsis`. -/
structure AggregateSynopsis where
  entries : List AggregateEntry
  payloads : List (AggregatePayloadV2 validJson)
  deriving DecidableEq

/-- `entries` of `infer_entry_count` for a number of them. -/
def readEntries (bytes : List UInt8) (entryCount : Nat) : Except CoveError (List AggregateEntry) :=
  (List.range entryCount).mapM fun index =>
    AggregateEntry.parse
      (fieldBytes bytes (index * aggregateSynopsisEntryLen) aggregateSynopsisEntryLen)

/-- The checks of `infer_entry_count` on a table that was read: the payloads start where it ends. -/
def splitsAt (bytes : List UInt8) (tableLen : Nat) (entries : List AggregateEntry) : Bool :=
  let withPayload := entries.filter fun entry => entry.payloadLength != 0
  match (withPayload.map fun entry => entry.payloadOffset.toNat).min? with
  | none => tableLen == bytes.length
  | some minPayloadOffset =>
    minPayloadOffset == tableLen && withPayload.all fun entry =>
      decide (entry.payloadOffset.toNat + entry.payloadLength.toNat < 2 ^ 64 ∧
        tableLen ≤ entry.payloadOffset.toNat ∧
        entry.payloadOffset.toNat + entry.payloadLength.toNat ≤ bytes.length)

/-- The loop of `infer_entry_count` over the numbers from one on, with the first error of the
entries. -/
def inferEntryCountFrom (bytes : List UInt8) (firstParseError : Option CoveError)
    (entryCount : Nat) : Nat → Except CoveError Nat
  | 0 =>
    match firstParseError with
    | some err => .error err
    | none => .error .badIndex
  | left + 1 =>
    match readEntries bytes entryCount with
    | .error err =>
      inferEntryCountFrom bytes (some (firstParseError.getD err)) (entryCount + 1) left
    | .ok entries =>
      if splitsAt bytes (entryCount * aggregateSynopsisEntryLen) entries then .ok entryCount
      else inferEntryCountFrom bytes firstParseError (entryCount + 1) left

/-- `infer_entry_count`. -/
def inferEntryCount (bytes : List UInt8) : Except CoveError Nat :=
  inferEntryCountFrom bytes none 1 (bytes.length / aggregateSynopsisEntryLen)

namespace AggregateSynopsis

/-- `validate`. -/
def validate (self : AggregateSynopsis validJson) : Except CoveError Unit :=
  if self.payloads = [] then
    self.entries.forM fun entry => validatePayload entry (.none : AggregatePayloadV2 validJson)
  else if self.entries.length ≠ self.payloads.length then .error .badIndex
  else (self.entries.zip self.payloads).forM fun part => validatePayload part.1 part.2

/-- `from_parts`. -/
def fromParts (entries : List AggregateEntry) (payloads : List (AggregatePayloadV2 validJson)) :
    Except CoveError (AggregateSynopsis validJson) := do
  let synopsis : AggregateSynopsis validJson := ⟨entries, payloads⟩
  synopsis.validate
  .ok synopsis

variable (validJson) in
/-- The payload of an entry, as `parse` reads it. -/
def readPayload (bytes : List UInt8) (tableLen : Nat) (entry : AggregateEntry) :
    Except CoveError (AggregatePayloadV2 validJson) :=
  if entry.payloadLength = 0 then .ok .none
  else if entry.payloadOffset.toNat < tableLen then .error .badIndex
  else
    Except.mapError (fun _ => CoveError.badIndex) do
      let region ← checkedRegion bytes entry.payloadOffset.toNat entry.payloadLength.toNat
      parsePayload validJson entry region

variable (validJson) in
/-- `parse`. -/
def parse (bytes : List UInt8) : Except CoveError (AggregateSynopsis validJson) :=
  if bytes.length < aggregateSynopsisEntryLen then .error .bufferTooShort
  else do
    let entryCount ← inferEntryCount bytes
    let entries ← readEntries bytes entryCount
    let payloads ←
      entries.mapM (readPayload validJson bytes (entryCount * aggregateSynopsisEntryLen))
    let synopsis : AggregateSynopsis validJson := ⟨entries, payloads⟩
    synopsis.validate
    .ok synopsis

/-- An entry with the place of its payload. -/
def place (entry : AggregateEntry) (offset : Nat) (encoded : List UInt8) : AggregateEntry :=
  if encoded = [] then { entry with payloadOffset := 0, payloadLength := 0 }
  else
    { entry with payloadOffset := .ofNat offset, payloadLength := .ofNat encoded.length }

/-- The loop of `serialize`: the entries with their places, and the payloads. -/
def placeFrom (tableLen : Nat) (payloadBytes : List UInt8) :
    List (AggregateEntry × AggregatePayloadV2 validJson) → List AggregateEntry × List UInt8
  | [] => ([], payloadBytes)
  | (entry, payload) :: parts =>
    let encoded := encodePayload entry payload
    let placed := placeFrom tableLen (payloadBytes ++ encoded) parts
    (place entry (tableLen + payloadBytes.length) encoded :: placed.1, placed.2)

/-- `serialize`. -/
def serialize (self : AggregateSynopsis validJson) : List UInt8 :=
  if self.payloads = [] then self.entries.flatMap AggregateEntry.serialize
  else
    let placed := placeFrom (self.entries.length * aggregateSynopsisEntryLen) []
      (self.entries.zip self.payloads)
    placed.1.flatMap AggregateEntry.serialize ++ placed.2

end AggregateSynopsis

end

end Cove
