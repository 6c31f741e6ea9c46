import Cove.Core.AggregateSynopsis

/-!
# Reading a synopsis back

- `AggregateEntry.parse_serialize`, `parsePayloadHeader_encode`: entries and headers are read back.
- `parsePayload_encode`: **a valid payload is read back**.
- `placeFrom_spec`: where the payloads stand.
- `inferEntryCount_serialize`: **the number of entries is found**, and no other.
- `AggregateSynopsis.parse_serialize_canonical`: **a synopsis is read back**, its entries placed and sealed.
-/

namespace Cove

open Checked

/-! ## Entries -/

namespace AggregateEntry

/-- An entry with its checksum. -/
def sealed (self : AggregateEntry) : AggregateEntry :=
  { self with
    checksum := .ofNat (Crc32c.crc32c (FieldRecord.encode self.fields ++ [0, 0, 0, 0])) }

theorem length_serialize (self : AggregateEntry) :
    self.serialize.length = aggregateSynopsisEntryLen := by
  rw [serialize, FieldRecord.length_encode, width_sealRecord]
  rfl

theorem fits (self : AggregateEntry) : FieldRecord.Fits self.fields := by
  have hkind := self.synopsisKind.code_lt
  have haccuracy := self.accuracy.code_lt
  simp only [FieldRecord.Fits, fields, List.forall_mem_cons, List.not_mem_nil, false_implies,
    implies_true, and_true]
  exact ⟨self.tableId.toNat_lt, self.segmentId.toNat_lt, self.morselId.toNat_lt,
    self.columnId.toNat_lt, by omega, self.keyKind.toNat_lt, by omega, self.flags.toNat_lt,
    self.rowCount.toNat_lt, self.nullCount.toNat_lt, self.payloadOffset.toNat_lt,
    self.payloadLength.toNat_lt⟩

/-- An entry is read back with its checksum. -/
theorem parse_serialize {self : AggregateEntry} (hnull : self.nullCount.toNat ≤ self.rowCount.toNat) :
    parse self.serialize = .ok self.sealed := by
  have hsealed := fits_sealRecord Crc32c.crc32c_lt self.fits
  have hnil : self.serialize =
      FieldRecord.encode (sealRecord Crc32c.crc32c self.fields) ++ [] := (List.append_nil _).symm
  have h : ∀ offset w {value : Nat},
      FieldRecord.fieldAt (sealRecord Crc32c.crc32c self.fields) offset w = some value →
      fieldNat self.serialize offset w = value :=
    fun _ _ _ hat => hnil ▸ fieldNat_encode hsealed hat []
  have hlength := self.length_serialize
  have hlong : ¬ self.serialize.length < aggregateSynopsisEntryLen := by omega
  have hsum : verifyChecksumField Crc32c.crc32c self.serialize 44 =
      .ok (Crc32c.crc32c (FieldRecord.encode self.fields ++ [0, 0, 0, 0])) :=
    verifyChecksumField_sealRecord Crc32c.crc32c_lt rfl (by decide)
  unfold parse
  rw [if_neg hlong, List.take_of_length_le (Nat.le_of_eq hlength), hsum, ok_bind, h 16 1 rfl,
    h 18 1 rfl, SynopsisKind.fromU8_code, SynopsisAccuracy.fromU8_code]
  show (if fieldNat self.serialize 24 4 > fieldNat self.serialize 20 4 then _ else _) = _
  rw [h 20 4 rfl, h 24 4 rfl, if_neg (Nat.not_lt.mpr hnull), h 0 4 rfl, h 4 4 rfl, h 8 4 rfl,
    h 12 4 rfl, h 17 1 rfl, h 19 1 rfl, h 28 8 rfl, h 36 8 rfl]
  simp only [UInt32.ofNat_toNat, UInt8.ofNat_toNat, UInt64.ofNat_toNat]
  rfl

end AggregateEntry

/-! ## Payloads -/

variable {data : List UInt8} {itemCount aux0 : Nat} {entry : AggregateEntry} {tableLen : Nat}

/-- The header of a payload is read back, and the data after it. -/
theorem parsePayloadHeader_encode (kind : SynopsisKind)
    (hitems : itemCount < 2 ^ 32) (haux : aux0 < 2 ^ 32) (hdata : data.length < 2 ^ 32) :
    ∃ checksum, parsePayloadHeader (encodePayloadWithHeader kind 0 itemCount aux0 0 data) =
      .ok (⟨kind, 0, itemCount, aux0, 0, data.length, checksum⟩, data) := by
  let fields := payloadHeaderFields kind 0 itemCount aux0 0 data.length
  let checksum := Crc32c.crc32c (FieldRecord.encode fields ++ [0, 0, 0, 0] ++ data)
  let bytes := encodePayloadWithHeader kind 0 itemCount aux0 0 data
  have hkind := kind.code_lt
  have hmagic := LittleEndian.ofLe_lt aggregatePayloadMagic
  have hfits : FieldRecord.Fits (fields ++ [(4, checksum)]) := by
    simp only [FieldRecord.Fits, fields, payloadHeaderFields, aggregatePayloadVersion,
      List.cons_append, List.nil_append, List.forall_mem_cons, List.not_mem_nil, false_implies,
      implies_true, and_true]
    exact ⟨hmagic, by omega, by decide, by decide, by omega, by omega, by decide, by omega,
      Crc32c.crc32c_lt _⟩
  have hbytes : bytes = FieldRecord.encode (fields ++ [(4, checksum)]) ++ data := by
    rw [FieldRecord.encode_append, FieldRecord.encode, FieldRecord.encode, List.append_nil]
    rfl
  have h : ∀ offset w {value : Nat},
      FieldRecord.fieldAt (fields ++ [(4, checksum)]) offset w = some value →
      fieldNat bytes offset w = value :=
    fun _ _ _ hat => hbytes ▸ fieldNat_encode hfits hat data
  have hmagicBytes : fieldBytes bytes 0 4 = aggregatePayloadMagic := by
    rw [hbytes]
    exact fieldBytes_encode (by decide : aggregatePayloadMagic.length = 4) rfl data
  have hheader : (FieldRecord.encode (fields ++ [(4, checksum)])).length = 28 :=
    FieldRecord.length_encode _
  have hhead : (FieldRecord.encode fields).length = 24 := FieldRecord.length_encode _
  have hlength : bytes.length = 28 + data.length := by
    rw [hbytes, List.length_append, hheader]
  have hrest : bytes.drop 28 = data := by rw [hbytes, List.drop_left' hheader]
  have hfirst : bytes.take 24 = FieldRecord.encode fields := by
    show (FieldRecord.encode fields ++ _ ++ _).take 24 = _
    rw [List.append_assoc, List.take_left' hhead]
  refine ⟨checksum, ?_⟩
  show parsePayloadHeader bytes = _
  unfold parsePayloadHeader aggregatePayloadHeaderLen
  rw [if_neg (by omega), if_neg (not_not_intro hmagicBytes), h 5 1 rfl,
    if_neg (not_not_intro rfl), h 4 1 rfl, SynopsisKind.fromU8_code]
  dsimp only
  rw [h 20 4 rfl, if_neg (not_not_intro hlength.symm), hfirst, hrest, h 24 4 rfl,
    if_neg (not_not_intro rfl), h 6 2 rfl, h 8 4 rfl, h 12 4 rfl, h 16 4 rfl]

variable {parsed : AggregateEntry}

section

variable {validJson : List UInt8 → Bool}

theorem TaggedCanonicalValue.new_payload (value : TaggedCanonicalValue validJson) :
    TaggedCanonicalValue.new validJson value.valueTag value.payload = .ok value := by
  unfold TaggedCanonicalValue.new
  split
  · rfl
  next e he =>
    rw [value.valid] at he
    cases he

theorem takeNat_toLe {w n : Nat} (h : n < 256 ^ w) (rest : List UInt8) :
    takeNat w (LittleEndian.toLe w n ++ rest) = .ok (n, rest) := ByteCursor.takeNat_append h rest

theorem takeBytes_append (bytes rest : List UInt8) :
    takeBytes bytes.length (bytes ++ rest) = .ok (bytes, rest) := ByteCursor.take_append rfl rest

/-- An optional value is read back. -/
theorem parseOptionalTagged_encode {value : Option (TaggedCanonicalValue validJson)}
    (hlength : (encodeOptionalTagged value).length < 2 ^ 32) (rest : List UInt8) :
    parseOptionalTagged validJson (encodeOptionalTagged value ++ rest) = .ok (value, rest) := by
  unfold parseOptionalTagged
  cases value with
  | none =>
    rw [encodeOptionalTagged, List.append_assoc,
      takeNat_toLe (show absentValueTag < 256 ^ 2 by decide), ok_bind]
    dsimp only
    rw [takeNat_toLe (show 0 < 256 ^ 4 by decide), ok_bind]
    rfl
  | some value =>
    have hcode := value.valueTag.code_lt
    have hpayload : value.payload.length < 256 ^ 4 := by
      rw [encodeOptionalTagged, encodeTagged, List.length_append, List.length_append] at hlength
      omega
    have htag : value.valueTag.code < 256 ^ 2 := by omega
    have hpresent : value.valueTag.code ≠ absentValueTag := by
      unfold absentValueTag
      omega
    rw [encodeOptionalTagged, encodeTagged, List.append_assoc, List.append_assoc,
      takeNat_toLe htag, ok_bind]
    dsimp only
    rw [takeNat_toLe hpayload, ok_bind]
    dsimp only
    rw [if_neg hpresent, ValueTag.fromU16_code]
    dsimp only
    rw [takeBytes_append, ok_bind]
    dsimp only
    rw [TaggedCanonicalValue.new_payload, ok_bind]

theorem parseTagged_encode {value : TaggedCanonicalValue validJson}
    (hlength : (encodeTagged value).length < 2 ^ 32) (rest : List UInt8) :
    parseTagged validJson (encodeTagged value ++ rest) = .ok (value, rest) := by
  have h : parseOptionalTagged validJson (encodeTagged value ++ rest) = .ok (some value, rest) :=
    parseOptionalTagged_encode (show (encodeOptionalTagged (some value)).length < 2 ^ 32 from hlength)
      rest
  unfold parseTagged
  rw [h, ok_bind]

theorem length_encodeBucket (bucket : HistogramBucket) : (encodeBucket bucket).length = 16 := by
  rw [encodeBucket, List.length_append, LittleEndian.length_toLe, LittleEndian.length_toLe]

theorem parseBuckets_encode {buckets : List HistogramBucket}
    (hlength : (buckets.flatMap encodeBucket).length < 2 ^ 32) :
    parseBuckets (buckets.flatMap encodeBucket) buckets.length = .ok buckets := by
  have hbuckets : ∀ bucket ∈ buckets, (encodeBucket bucket).length = 16 :=
    fun bucket _ => length_encodeBucket bucket
  have hcount := Strides.length_flatMap hbuckets
  have hmul : checkedMul buckets.length 16 = .ok (buckets.length * 16) :=
    mulU64_eq_ok.mpr ⟨by omega, rfl⟩
  have hread : ∀ bucket : HistogramBucket,
      (⟨.ofNat (fieldNat (encodeBucket bucket) 0 8), .ofNat (fieldNat (encodeBucket bucket) 8 8)⟩ :
        HistogramBucket) = bucket := by
    intro bucket
    have hkey : fieldNat (encodeBucket bucket) 0 8 = bucket.key.toNat := by
      rw [fieldNat, fieldBytes, List.drop_zero, encodeBucket,
        List.take_left' (LittleEndian.length_toLe _ _), LittleEndian.ofLe_toLe bucket.key.toNat_lt]
    have hcount : fieldNat (encodeBucket bucket) 8 8 = bucket.count.toNat := by
      rw [fieldNat, fieldBytes, encodeBucket, List.drop_left' (LittleEndian.length_toLe _ _),
        List.take_of_length_le (Nat.le_of_eq (LittleEndian.length_toLe _ _)),
        LittleEndian.ofLe_toLe bucket.count.toNat_lt]
    rw [hkey, hcount, UInt64.ofNat_toNat, UInt64.ofNat_toNat]
  unfold parseBuckets
  rw [hmul, ok_bind, if_neg (not_not_intro hcount), chunksExact_flatMap (by decide) hbuckets,
    List.map_map]
  refine congrArg _ ((List.map_congr_left fun bucket _ => ?_).trans (List.map_id _))
  exact hread bucket

theorem parseSketchValue_encode {value : List UInt8} (hlength : value.length < 2 ^ 32)
    (rest : List UInt8) :
    parseSketchValue (encodeSketchValue value ++ rest) = .ok (value, rest) := by
  unfold parseSketchValue
  rw [encodeSketchValue, List.append_assoc, takeNat_toLe hlength, ok_bind]
  dsimp only
  rw [takeBytes_append]

theorem parseLevelOffset_encode (offset : UInt32) (rest : List UInt8) :
    parseLevelOffset (LittleEndian.toLe 4 offset.toNat ++ rest) = .ok (offset, rest) := by
  unfold parseLevelOffset
  rw [takeNat_toLe offset.toNat_lt, ok_bind]
  dsimp only
  rw [UInt32.ofNat_toNat]

/-- The kind of entry a payload belongs to. -/
def payloadKind : AggregatePayloadV2 validJson → SynopsisKind
  | .none => .count
  | .minMax .. => .minMax
  | .sum .. => .sum
  | .sumAndCount .. => .sumAndCount
  | .boolTrueFalseCounts .. => .boolTrueFalseCounts
  | .fileCodeHistogram .. => .fileCodeHistogram
  | .numCodeHistogram .. => .numCodeHistogram
  | .distinctSketch .. => .distinctSketch
  | .quantileSketch .. => .quantileSketch
  | .topK .. => .topK

/-- A payload is valid only for an entry of its kind, with no more nulls than rows. -/
theorem kind_of_validatePayload {payload : AggregatePayloadV2 validJson}
    (h : validatePayload entry payload = .ok ()) :
    entry.synopsisKind = payloadKind payload ∧ entry.nullCount.toNat ≤ entry.rowCount.toNat := by
  unfold validatePayload at h
  obtain ⟨nonNullCount, hcount, h⟩ := bind_eq_ok.mp h
  refine ⟨?_, (sub_eq_ok.mp hcount).1⟩
  split at h
  case h_11 => cases h
  all_goals assumption

/-- A quantile sketch that is valid has two level offsets at least. -/
theorem two_le_of_validatePayload {k : UInt32} {valueTag : ValueTag}
    {levelOffsets : List UInt32} {values : List (List UInt8)}
    (h : validatePayload entry
      (.quantileSketch k valueTag levelOffsets values : AggregatePayloadV2 validJson) = .ok ()) :
    2 ≤ levelOffsets.length := by
  have hkind := (kind_of_validatePayload h).1
  unfold validatePayload at h
  obtain ⟨_, -, h⟩ := bind_eq_ok.mp h
  rw [hkind] at h
  obtain ⟨-, h⟩ := ite_error_eq_ok.mp h
  obtain ⟨hlevels, -⟩ := ite_error_eq_ok.mp h
  omega

theorem length_flatMap_encodeSketchValue (values : List (List UInt8)) :
    values.length ≤ (values.flatMap encodeSketchValue).length ∧
      ∀ value ∈ values, value.length ≤ (values.flatMap encodeSketchValue).length := by
  induction values with
  | nil => simp
  | cons value values ih =>
    obtain ⟨hcount, hvalues⟩ := ih
    have hhead : (encodeSketchValue value).length = 4 + value.length := by
      rw [encodeSketchValue, List.length_append, LittleEndian.length_toLe]
    rw [List.flatMap_cons, List.length_append, hhead, List.length_cons]
    refine ⟨by omega, List.forall_mem_cons.mpr ⟨by omega, fun v hv => ?_⟩⟩
    have := hvalues v hv
    omega

/-- The numbers of a header fit when the data is of a length that fits. -/
theorem payloadBody_bounds {payload : AggregatePayloadV2 validJson}
    (hbody : payloadBody payload = some (itemCount, aux0, data))
    (hdata : data.length < 2 ^ 32) : itemCount < 2 ^ 32 ∧ aux0 < 2 ^ 32 := by
  have hbuckets : ∀ buckets : List HistogramBucket,
      (buckets.flatMap encodeBucket).length = buckets.length * 16 := fun buckets =>
    Strides.length_flatMap fun bucket _ => length_encodeBucket bucket
  cases payload with
  | none => cases hbody
  | minMax min max =>
    cases hbody
    exact ⟨by decide, by decide⟩
  | sum overflowPolicy value =>
    cases hbody
    exact ⟨by decide, overflowPolicy.code_lt⟩
  | sumAndCount overflowPolicy nonNullCount value =>
    cases hbody
    exact ⟨by decide, overflowPolicy.code_lt⟩
  | boolTrueFalseCounts trueCount falseCount =>
    cases hbody
    exact ⟨by decide, by decide⟩
  | fileCodeHistogram buckets =>
    cases hbody
    rw [hbuckets] at hdata
    exact ⟨by omega, by decide⟩
  | numCodeHistogram buckets =>
    cases hbody
    rw [hbuckets] at hdata
    exact ⟨by omega, by decide⟩
  | distinctSketch precision registers =>
    cases hbody
    exact ⟨hdata, Nat.lt_trans precision.toNat_lt (by decide)⟩
  | quantileSketch k valueTag levelOffsets values =>
    cases hbody
    have := (length_flatMap_encodeSketchValue values).1
    rw [List.length_append] at hdata
    exact ⟨by omega, k.toNat_lt⟩
  | topK k entries =>
    cases hbody
    rw [hbuckets] at hdata
    exact ⟨by omega, k.toNat_lt⟩

/-- The data of a payload is read back. -/
theorem parsePayloadBody_encode {payload : AggregatePayloadV2 validJson}
    (hvalid : validatePayload entry payload = .ok ()) {header : AggregatePayloadHeader}
    (hkind : header.kind = payloadKind payload)
    (hbody : payloadBody payload = some (header.itemCount, header.aux0, data))
    (hdata : data.length < 2 ^ 32) : parsePayloadBody validJson header data = .ok payload := by
  obtain ⟨kind, flags, itemCount, aux0, aux1, dataLen, checksum⟩ := header
  subst hkind
  unfold parsePayloadBody
  cases payload with
  | none => cases hbody
  | minMax min max =>
    simp only [payloadBody, Option.some.injEq, Prod.mk.injEq] at hbody
    obtain ⟨rfl, rfl, rfl⟩ := hbody
    rw [List.length_append] at hdata
    show (parseOptionalTagged validJson (encodeOptionalTagged min ++ encodeOptionalTagged max) >>=
      _) = _
    rw [parseOptionalTagged_encode (by omega), ok_bind, ← List.append_nil (encodeOptionalTagged max)]
    dsimp only
    rw [parseOptionalTagged_encode (by omega), ok_bind]
  | sum overflowPolicy value =>
    simp only [payloadBody, Option.some.injEq, Prod.mk.injEq] at hbody
    obtain ⟨rfl, rfl, rfl⟩ := hbody
    dsimp only [payloadKind]
    rw [NumericAggregateOverflowPolicy.fromU32_code]
    have htagged := parseTagged_encode hdata []
    rw [List.append_nil] at htagged
    show (parseSingleTaggedPayload validJson (encodeTagged value) >>= _) = _
    unfold parseSingleTaggedPayload
    rw [htagged, ok_bind]
    rfl
  | sumAndCount overflowPolicy nonNullCount value =>
    simp only [payloadBody, Option.some.injEq, Prod.mk.injEq] at hbody
    obtain ⟨rfl, rfl, rfl⟩ := hbody
    rw [List.length_append] at hdata
    dsimp only [payloadKind]
    rw [takeNat_toLe nonNullCount.toNat_lt, ok_bind]
    dsimp only
    rw [NumericAggregateOverflowPolicy.fromU32_code]
    have htagged : parseTagged validJson (encodeTagged value ++ []) = .ok (value, []) :=
      parseTagged_encode (by omega) []
    rw [List.append_nil] at htagged
    dsimp only
    rw [htagged, ok_bind, UInt64.ofNat_toNat]
  | boolTrueFalseCounts trueCount falseCount =>
    simp only [payloadBody, Option.some.injEq, Prod.mk.injEq] at hbody
    obtain ⟨rfl, rfl, rfl⟩ := hbody
    dsimp only [payloadKind]
    have htrue : fieldNat (LittleEndian.toLe 8 trueCount.toNat ++
        LittleEndian.toLe 8 falseCount.toNat) 0 8 = trueCount.toNat := by
      rw [fieldNat, fieldBytes, List.drop_zero, List.take_left' (LittleEndian.length_toLe _ _),
        LittleEndian.ofLe_toLe trueCount.toNat_lt]
    have hfalse : fieldNat (LittleEndian.toLe 8 trueCount.toNat ++
        LittleEndian.toLe 8 falseCount.toNat) 8 8 = falseCount.toNat := by
      rw [fieldNat, fieldBytes, List.drop_left' (LittleEndian.length_toLe _ _),
        List.take_of_length_le (Nat.le_of_eq (LittleEndian.length_toLe _ _)),
        LittleEndian.ofLe_toLe falseCount.toNat_lt]
    rw [if_neg (by simp), htrue, hfalse, UInt64.ofNat_toNat, UInt64.ofNat_toNat]
  | fileCodeHistogram buckets =>
    simp only [payloadBody, Option.some.injEq, Prod.mk.injEq] at hbody
    obtain ⟨rfl, rfl, rfl⟩ := hbody
    dsimp only [payloadKind]
    rw [parseBuckets_encode hdata, ok_bind]
  | numCodeHistogram buckets =>
    simp only [payloadBody, Option.some.injEq, Prod.mk.injEq] at hbody
    obtain ⟨rfl, rfl, rfl⟩ := hbody
    dsimp only [payloadKind]
    rw [parseBuckets_encode hdata, ok_bind]
  | distinctSketch precision registers =>
    simp only [payloadBody, Option.some.injEq, Prod.mk.injEq] at hbody
    obtain ⟨rfl, rfl, rfl⟩ := hbody
    dsimp only [payloadKind]
    rw [if_neg (Nat.not_le.mpr precision.toNat_lt), if_neg (not_not_intro rfl),
      UInt8.ofNat_toNat]
  | quantileSketch k valueTag levelOffsets values =>
    have hlevels := two_le_of_validatePayload hvalid
    simp only [payloadBody, Option.some.injEq, Prod.mk.injEq] at hbody
    obtain ⟨rfl, rfl, rfl⟩ := hbody
    have hcode := valueTag.code_lt
    obtain ⟨-, hvalues⟩ := length_flatMap_encodeSketchValue values
    have hoffsets := Strides.length_flatMap
      (f := fun offset : UInt32 => LittleEndian.toLe 4 offset.toNat) (k := 4) (l := levelOffsets)
      fun _ _ => LittleEndian.length_toLe _ _
    rw [List.length_append, List.length_append, hoffsets] at hdata
    have hcount : levelOffsets.length < 256 ^ 4 := by omega
    have htag : valueTag.code < 256 ^ 2 := by omega
    dsimp only [payloadKind]
    rw [List.append_assoc, List.append_assoc, List.append_assoc, takeNat_toLe htag, ok_bind]
    dsimp only
    rw [ValueTag.fromU16_code]
    dsimp only
    rw [takeNat_toLe (show 0 < 256 ^ 2 by decide), ok_bind]
    dsimp only
    rw [if_neg (not_not_intro rfl), takeNat_toLe hcount, ok_bind]
    dsimp only
    rw [if_neg (Nat.not_lt.mpr hlevels),
      ByteCursor.many_flatMap fun offset _ rest => parseLevelOffset_encode offset rest, ok_bind]
    dsimp only
    rw [← List.append_nil (values.flatMap encodeSketchValue),
      ByteCursor.many_flatMap fun value hvalue rest =>
        parseSketchValue_encode (by have := hvalues value hvalue; omega) rest, ok_bind]
    dsimp only
    rw [if_neg (not_not_intro rfl), UInt32.ofNat_toNat]
  | topK k entries =>
    simp only [payloadBody, Option.some.injEq, Prod.mk.injEq] at hbody
    obtain ⟨rfl, rfl, rfl⟩ := hbody
    dsimp only [payloadKind]
    rw [parseBuckets_encode hdata, ok_bind, UInt32.ofNat_toNat]

/-- **A valid payload is read back.** -/
theorem parsePayload_encode {payload : AggregatePayloadV2 validJson}
    (hvalid : validatePayload entry payload = .ok ())
    (hbody : payloadBody payload = some (itemCount, aux0, data)) (hdata : data.length < 2 ^ 32) :
    parsePayload validJson entry (encodePayload entry payload) = .ok payload := by
  obtain ⟨hitems, haux⟩ := payloadBody_bounds hbody hdata
  obtain ⟨checksum, hheader⟩ := parsePayloadHeader_encode entry.synopsisKind hitems haux hdata
  have hencode : encodePayload entry payload =
      encodePayloadWithHeader entry.synopsisKind 0 itemCount aux0 0 data := by
    rw [encodePayload, hbody]
  unfold parsePayload
  rw [hencode, hheader, ok_bind]
  dsimp only
  rw [if_neg (not_not_intro rfl),
    parsePayloadBody_encode hvalid (kind_of_validatePayload hvalid).1 hbody hdata, ok_bind, hvalid,
    ok_bind]

/-! ## Places -/

/-- A payload that is empty is none. -/
theorem encodePayload_eq_nil {payload : AggregatePayloadV2 validJson} :
    encodePayload entry payload = [] ↔ payload = .none := by
  have hlong : ∀ itemCount aux0 data,
      encodePayloadWithHeader entry.synopsisKind 0 itemCount aux0 0 data ≠ [] := by
    intro itemCount aux0 data h
    have hlength := congrArg List.length h
    simp only [encodePayloadWithHeader, List.length_append, FieldRecord.length_encode,
      LittleEndian.length_toLe, List.length_nil] at hlength
    omega
  unfold encodePayload
  cases payload with
  | none => exact iff_of_true rfl rfl
  | _ => exact iff_of_false (hlong _ _ _) nofun

namespace AggregateSynopsis

/-- An entry stands for the payload at its place. -/
def PlacedAt (tableLen : Nat) (payloadBytes : List UInt8)
    (part : AggregateEntry × AggregatePayloadV2 validJson) (placed : AggregateEntry) : Prop :=
  ∃ before after, payloadBytes = before ++ (encodePayload part.1 part.2 ++ after) ∧
    placed = place part.1 (tableLen + before.length) (encodePayload part.1 part.2)

/-- The place of a payload that is there. -/
theorem place_toNat {encoded : List UInt8} (hsome : encoded ≠ []) {offset : Nat}
    (hroom : offset + encoded.length < 2 ^ 64) (entry : AggregateEntry) :
    (place entry offset encoded).payloadOffset.toNat = offset ∧
      (place entry offset encoded).payloadLength.toNat = encoded.length ∧
      (place entry offset encoded).payloadLength ≠ 0 := by
  have hlength : (place entry offset encoded).payloadLength.toNat = encoded.length := by
    unfold place
    rw [if_neg hsome]
    exact UInt64.toNat_ofNat_of_lt' (show _ < 2 ^ 64 by omega)
  refine ⟨?_, hlength, fun hzero => ?_⟩
  · unfold place
    rw [if_neg hsome]
    exact UInt64.toNat_ofNat_of_lt' (show _ < 2 ^ 64 by omega)
  · rw [hzero] at hlength
    exact hsome (List.length_eq_zero_iff.mp hlength.symm)

/-- The offsets of the payloads that are there. -/
def payloadOffsets (entries : List AggregateEntry) : List Nat :=
  (entries.filter fun entry => entry.payloadLength != 0).map fun entry => entry.payloadOffset.toNat

theorem payloadOffsets_map_sealed (entries : List AggregateEntry) :
    payloadOffsets (entries.map AggregateEntry.sealed) = payloadOffsets entries := by
  unfold payloadOffsets
  rw [List.filter_map, List.map_map]
  rfl

theorem length_placeFrom {payloadBytes : List UInt8}
    {parts : List (AggregateEntry × AggregatePayloadV2 validJson)} :
    (placeFrom tableLen payloadBytes parts).1.length = parts.length := by
  induction parts generalizing payloadBytes with
  | nil => rfl
  | cons part parts ih => exact congrArg Nat.succ ih

/-- Where the loop of the writer puts the payloads, and the first of them. -/
theorem placeFrom_spec {payloadBytes : List UInt8}
    {parts : List (AggregateEntry × AggregatePayloadV2 validJson)}
    (hroom : tableLen + (placeFrom tableLen payloadBytes parts).2.length < 2 ^ 64) :
    (∃ more, (placeFrom tableLen payloadBytes parts).2 = payloadBytes ++ more) ∧
      List.Forall₂ (PlacedAt tableLen (placeFrom tableLen payloadBytes parts).2) parts
        (placeFrom tableLen payloadBytes parts).1 ∧
      (payloadOffsets (placeFrom tableLen payloadBytes parts).1 = [] ∧
          (placeFrom tableLen payloadBytes parts).2 = payloadBytes ∨
        (payloadOffsets (placeFrom tableLen payloadBytes parts).1).min? =
          some (tableLen + payloadBytes.length)) := by
  induction parts generalizing payloadBytes with
  | nil => exact ⟨⟨[], (List.append_nil _).symm⟩, .nil, .inl ⟨rfl, rfl⟩⟩
  | cons part parts ih =>
    obtain ⟨entry, payload⟩ := part
    obtain ⟨⟨more, hmore⟩, hall, hfirst⟩ := ih hroom
    rw [List.append_assoc] at hmore
    refine ⟨⟨_, hmore⟩, .cons ⟨payloadBytes, more, hmore, rfl⟩ hall, ?_⟩
    have hlength := congrArg List.length hmore
    rw [List.length_append, List.length_append] at hlength
    simp only [placeFrom] at hroom ⊢
    by_cases hnone : encodePayload entry payload = []
    · -- nothing is written, and the entry is not among those with a payload
      rw [hnone, List.append_nil] at hfirst
      rw [hnone, List.append_nil]
      exact hfirst
    · obtain ⟨hoffset, -, hpresent⟩ := place_toNat hnone
        (show tableLen + payloadBytes.length + _ < 2 ^ 64 by omega) entry
      refine .inr (List.min?_eq_some_iff.mpr ?_)
      have hcons : ∀ rest, payloadOffsets
          (place entry (tableLen + payloadBytes.length) (encodePayload entry payload) :: rest) =
          (tableLen + payloadBytes.length) :: payloadOffsets rest := by
        intro rest
        unfold payloadOffsets
        rw [List.filter_cons_of_pos (by simpa using hpresent), List.map_cons, hoffset]
      rw [hcons]
      refine ⟨List.mem_cons_self, List.forall_mem_cons.mpr ⟨le_refl _, fun offset hmem => ?_⟩⟩
      rcases hfirst with ⟨hempty, -⟩ | hmin
      · rw [hempty] at hmem
        cases hmem
      · have := (List.min?_eq_some_iff.mp hmin).2 offset hmem
        rw [List.length_append] at this
        omega

/-! ## The number of entries -/

section

variable {placed : List AggregateEntry} {payloadBytes : List UInt8} {k : Nat}

theorem length_table (placed : List AggregateEntry) :
    (placed.flatMap AggregateEntry.serialize).length =
      placed.length * aggregateSynopsisEntryLen :=
  Strides.length_flatMap fun entry _ => entry.length_serialize

/-- The first entries of a table are read back. -/
theorem readEntries_table
    (hnull : ∀ entry ∈ placed, entry.nullCount.toNat ≤ entry.rowCount.toNat)
    (hk : k ≤ placed.length) :
    readEntries (placed.flatMap AggregateEntry.serialize ++ payloadBytes) k =
      .ok ((placed.take k).map AggregateEntry.sealed) := by
  have hcount : ((placed.take k).map AggregateEntry.sealed).length = k := by
    rw [List.length_map, List.length_take]
    omega
  have hread := Strides.mapM_range_eq_ok (ε := CoveError)
    (l := (placed.take k).map AggregateEntry.sealed) (g := fun index => AggregateEntry.parse
      (fieldBytes (placed.flatMap AggregateEntry.serialize ++ payloadBytes)
        (index * aggregateSynopsisEntryLen) aggregateSynopsisEntryLen)) fun i hi => ?_
  · rwa [hcount] at hread
  · have hplaced : i < placed.length := by omega
    rw [fieldBytes, Strides.block_flatMap (fun entry _ => entry.length_serialize) payloadBytes
      hplaced, AggregateEntry.parse_serialize (hnull _ (List.getElem_mem hplaced)),
      List.getElem_map, List.getElem_take]

/-- A table is not split before its end: the payloads stand after it. -/
theorem splitsAt_before (hk : k < placed.length) (hoffsets : ∀ offset ∈ payloadOffsets placed,
      placed.length * aggregateSynopsisEntryLen ≤ offset) :
    splitsAt (placed.flatMap AggregateEntry.serialize ++ payloadBytes)
      (k * aggregateSynopsisEntryLen) ((placed.take k).map AggregateEntry.sealed) = false := by
  have htable : k * aggregateSynopsisEntryLen < placed.length * aggregateSynopsisEntryLen :=
    Nat.mul_lt_mul_of_pos_right hk (by decide)
  have hsub : payloadOffsets (placed.take k) ⊆ payloadOffsets placed :=
    (((List.take_sublist k placed).filter _).map _).subset
  have hsealed := payloadOffsets_map_sealed (placed.take k)
  rw [payloadOffsets] at hsealed
  unfold splitsAt
  dsimp only
  rw [hsealed]
  cases hmin : (payloadOffsets (placed.take k)).min? with
  | none =>
    have hne : k * aggregateSynopsisEntryLen ≠
        (placed.flatMap AggregateEntry.serialize ++ payloadBytes).length := by
      rw [List.length_append, length_table]
      omega
    exact beq_false_of_ne hne
  | some minPayloadOffset =>
    have hmem := hsub (List.min?_eq_some_iff.mp hmin).1
    have hne : minPayloadOffset ≠ k * aggregateSynopsisEntryLen := by
      have := hoffsets _ hmem
      omega
    dsimp only
    rw [beq_false_of_ne hne, Bool.false_and]

/-- It is split at its end. -/
theorem splitsAt_end
    (hfirst : payloadOffsets placed = [] ∧ payloadBytes = [] ∨
      (payloadOffsets placed).min? = some (placed.length * aggregateSynopsisEntryLen))
    (hwithin : ∀ entry ∈ placed, entry.payloadLength ≠ 0 →
      placed.length * aggregateSynopsisEntryLen ≤ entry.payloadOffset.toNat ∧
      entry.payloadOffset.toNat + entry.payloadLength.toNat ≤
        placed.length * aggregateSynopsisEntryLen + payloadBytes.length)
    (hroom : placed.length * aggregateSynopsisEntryLen + payloadBytes.length < 2 ^ 64) :
    splitsAt (placed.flatMap AggregateEntry.serialize ++ payloadBytes)
      (placed.length * aggregateSynopsisEntryLen) (placed.map AggregateEntry.sealed) = true := by
  have hlength : (placed.flatMap AggregateEntry.serialize ++ payloadBytes).length =
      placed.length * aggregateSynopsisEntryLen + payloadBytes.length := by
    rw [List.length_append, length_table]
  have hsealed := payloadOffsets_map_sealed placed
  rw [payloadOffsets] at hsealed
  unfold splitsAt
  dsimp only
  rw [hsealed, hlength]
  rcases hfirst with ⟨hnone, rfl⟩ | hmin
  · rw [hnone]
    exact beq_self_eq_true _
  · rw [hmin]
    dsimp only
    rw [beq_self_eq_true, Bool.true_and, List.all_eq_true]
    intro entry hentry
    obtain ⟨hmem, hpresent⟩ := List.mem_filter.mp hentry
    obtain ⟨placedEntry, hplaced, rfl⟩ := List.mem_map.mp hmem
    have hlength : placedEntry.payloadLength ≠ 0 := by
      simpa [AggregateEntry.sealed] using hpresent
    obtain ⟨hstart, hend⟩ := hwithin placedEntry hplaced hlength
    exact decide_eq_true ⟨lt_of_le_of_lt hend hroom, hstart, hend⟩

/-- The loop stops at the number at which the bytes split, when it splits at none before. -/
theorem inferEntryCountFrom_eq {bytes : List UInt8} {n left : Nat}
    {entries : Nat → List AggregateEntry}
    (hread : ∀ k ≤ n, readEntries bytes k = .ok (entries k))
    (hbefore : ∀ k < n, splitsAt bytes (k * aggregateSynopsisEntryLen) (entries k) = false)
    (hat : splitsAt bytes (n * aggregateSynopsisEntryLen) (entries n) = true)
    (hk : k ≤ n) (hleft : n < k + left) : inferEntryCountFrom bytes none k left = .ok n := by
  induction left generalizing k with
  | zero => omega
  | succ left ih =>
    rw [inferEntryCountFrom, hread k hk]
    rcases Nat.lt_or_eq_of_le hk with hlt | rfl
    · dsimp only
      rw [hbefore k hlt, if_neg Bool.false_ne_true]
      exact ih hlt (by omega)
    · dsimp only
      rw [hat, if_pos rfl]

end

/-! ## Synopses -/

/-- An entry and its payload, none where no payloads are listed. -/
def parts (self : AggregateSynopsis validJson) :
    List (AggregateEntry × AggregatePayloadV2 validJson) :=
  if self.payloads = [] then self.entries.map fun entry => (entry, .none)
  else self.entries.zip self.payloads

/-- An entry as the constructor makes it, without a place. -/
def Unplaced (entry : AggregateEntry) : Prop := entry.payloadOffset = 0 ∧ entry.payloadLength = 0

/-- An entry that the constructor returned. -/
def Constructed (entry : AggregateEntry) : Prop :=
  ∃ (tableId segmentId morselId columnId : UInt32) (synopsisKind : SynopsisKind) (keyKind : UInt8)
    (accuracy : SynopsisAccuracy) (rowCount nullCount : UInt32),
    AggregateEntry.new tableId segmentId morselId columnId synopsisKind keyKind accuracy rowCount
      nullCount = .ok entry

theorem Constructed.unplaced (h : Constructed entry) : Unplaced entry := by
  obtain ⟨_, _, _, _, _, _, _, _, _, h⟩ := h
  obtain ⟨-, h⟩ := ite_error_eq_ok.mp h
  obtain rfl := Except.ok.inj h
  exact ⟨rfl, rfl⟩

/-- The parts of a valid synopsis are valid, and are those of its entries. -/
theorem parts_of_validate {synopsis : AggregateSynopsis validJson}
    (h : synopsis.validate = .ok ()) :
    synopsis.parts.map Prod.fst = synopsis.entries ∧
      ∀ part ∈ synopsis.parts, validatePayload part.1 part.2 = .ok () := by
  unfold validate at h
  unfold parts
  by_cases hnone : synopsis.payloads = []
  · rw [if_pos hnone] at h ⊢
    refine ⟨?_, fun part hpart => ?_⟩
    · rw [List.map_map]
      exact List.map_id _
    · obtain ⟨entry, hentry, rfl⟩ := List.mem_map.mp hpart
      exact forM_eq_ok.mp h entry hentry
  · rw [if_neg hnone] at h ⊢
    obtain ⟨hlength, h⟩ := ite_error_eq_ok.mp h
    exact ⟨List.map_fst_zip (Nat.le_of_eq (Decidable.of_not_not hlength)), forM_eq_ok.mp h⟩

/-- The writer places the parts, also where it lists no payloads. -/
theorem serialize_eq {synopsis : AggregateSynopsis validJson}
    (hunplaced : ∀ entry ∈ synopsis.entries, Unplaced entry) :
    synopsis.serialize =
      (placeFrom (synopsis.entries.length * aggregateSynopsisEntryLen) []
          synopsis.parts).1.flatMap AggregateEntry.serialize ++
        (placeFrom (synopsis.entries.length * aggregateSynopsisEntryLen) [] synopsis.parts).2 := by
  unfold serialize parts
  by_cases hnone : synopsis.payloads = []
  · rw [if_pos hnone, if_pos hnone]
    generalize synopsis.entries.length * aggregateSynopsisEntryLen = tableLen
    -- without payloads the entries stay as they are
    have hplace : ∀ entries : List AggregateEntry, (∀ entry ∈ entries, Unplaced entry) →
        placeFrom tableLen [] (entries.map fun entry =>
          (entry, (.none : AggregatePayloadV2 validJson))) = (entries, []) := by
      intro entries
      induction entries with
      | nil => exact fun _ => rfl
      | cons entry entries ih =>
        intro h
        obtain ⟨⟨hoffset, hlength⟩, hentries⟩ := List.forall_mem_cons.mp h
        have hentry : place entry tableLen [] = entry := by
          obtain ⟨_, _, _, _, _, _, _, _, _, _, offset, length, _⟩ := entry
          obtain rfl : offset = 0 := hoffset
          obtain rfl : length = 0 := hlength
          rfl
        rw [List.map_cons, placeFrom]
        show (place entry tableLen [] :: (placeFrom tableLen [] _).1, (placeFrom tableLen [] _).2) =
          _
        rw [ih hentries, hentry]
    rw [hplace _ hunplaced, List.append_nil]
  · rw [if_neg hnone, if_neg hnone]

/-- The fields that do not depend on where the payload stands are the same. -/
def Agrees (entry parsed : AggregateEntry) : Prop :=
  parsed = { entry with
    payloadOffset := parsed.payloadOffset
    payloadLength := parsed.payloadLength
    checksum := parsed.checksum }

theorem agrees_place (entry : AggregateEntry) (offset : Nat) (encoded : List UInt8) :
    Agrees entry (place entry offset encoded).sealed := by
  unfold place
  split <;> rfl

/-- What a payload asks of its entry does not depend on the place. -/
theorem validatePayload_of_agrees (h : Agrees entry parsed)
    (payload : AggregatePayloadV2 validJson) :
    validatePayload parsed payload = validatePayload entry payload := by
  rw [h]
  rfl

theorem encodePayload_of_agrees (h : Agrees entry parsed) (payload : AggregatePayloadV2 validJson) :
    encodePayload parsed payload = encodePayload entry payload := by
  rw [h]
  rfl

/-- The data of a payload has a length that its header can say. -/
def FitsHeader (payload : AggregatePayloadV2 validJson) : Prop :=
  ∀ itemCount aux0 data, payloadBody payload = some (itemCount, aux0, data) → data.length < 2 ^ 32

/-- The payload at its place is read back. -/
theorem readPayload_placed {table payloadBytes : List UInt8}
    (htable : table.length = tableLen) (hroom : tableLen + payloadBytes.length < 2 ^ 64)
    {part : AggregateEntry × AggregatePayloadV2 validJson} {placed : AggregateEntry}
    (hplaced : PlacedAt tableLen payloadBytes part placed)
    (hvalid : validatePayload part.1 part.2 = .ok ()) (hfits : FitsHeader part.2) :
    readPayload validJson (table ++ payloadBytes) tableLen placed.sealed = .ok part.2 := by
  obtain ⟨entry, payload⟩ := part
  obtain ⟨before, after, hbytes, rfl⟩ := hplaced
  have hagrees := agrees_place entry (tableLen + before.length) (encodePayload entry payload)
  have hlength := congrArg List.length hbytes
  rw [List.length_append, List.length_append] at hlength
  dsimp only at hbytes hlength hvalid hfits hagrees ⊢
  unfold readPayload
  by_cases hnone : encodePayload entry payload = []
  · obtain rfl := encodePayload_eq_nil.mp hnone
    rw [hnone]
    rfl
  · obtain ⟨hoffset, hlen, hpresent⟩ := place_toNat hnone
      (show tableLen + before.length + _ < 2 ^ 64 by omega) entry
    have hregion : checkedRegion (table ++ payloadBytes) (tableLen + before.length)
        (encodePayload entry payload).length = .ok (encodePayload entry payload) := by
      have hadd : checkedAdd (tableLen + before.length) (encodePayload entry payload).length =
          .ok (tableLen + before.length + (encodePayload entry payload).length) :=
        addU64_eq_ok.mpr ⟨by omega, rfl⟩
      have hend : ¬ tableLen + before.length + (encodePayload entry payload).length >
          (table ++ payloadBytes).length := by
        rw [List.length_append, htable]
        omega
      unfold checkedRegion
      rw [hadd, ok_bind, if_neg hend, fieldBytes, hbytes, ← List.append_assoc,
        List.drop_left' (by rw [List.length_append, htable]), List.take_left]
    show (if (place entry _ _).payloadLength = 0 then _
      else if (place entry _ _).payloadOffset.toNat < tableLen then _
      else Except.mapError _ (checkedRegion _ (place entry _ _).payloadOffset.toNat
        (place entry _ _).payloadLength.toNat >>= _)) = _
    rw [if_neg hpresent, hoffset, hlen, if_neg (by omega), hregion, ok_bind, mapError_eq_ok]
    cases hbody : payloadBody payload with
    | none =>
      rw [encodePayload, hbody] at hnone
      exact absurd rfl hnone
    | some body =>
      obtain ⟨itemCount, aux0, data⟩ := body
      have hparse := parsePayload_encode
        ((validatePayload_of_agrees hagrees payload).trans hvalid) hbody (hfits _ _ _ hbody)
      rwa [encodePayload_of_agrees hagrees payload] at hparse

section

variable {parts : List (AggregateEntry × AggregatePayloadV2 validJson)}
  {placed : List AggregateEntry} {payloadBytes : List UInt8}

/-- What is known of an entry that was placed. -/
theorem of_placedAt {part : AggregateEntry × AggregatePayloadV2 validJson}
    (h : PlacedAt tableLen payloadBytes part entry)
    (hvalid : validatePayload part.1 part.2 = .ok ())
    (hroom : tableLen + payloadBytes.length < 2 ^ 64) :
    Agrees part.1 entry.sealed ∧ entry.nullCount.toNat ≤ entry.rowCount.toNat ∧
      (entry.payloadLength ≠ 0 → tableLen ≤ entry.payloadOffset.toNat ∧
        entry.payloadOffset.toNat + entry.payloadLength.toNat ≤
          tableLen + payloadBytes.length) := by
  obtain ⟨before, after, hbytes, rfl⟩ := h
  have hlength := congrArg List.length hbytes
  rw [List.length_append, List.length_append] at hlength
  have hnull := (kind_of_validatePayload hvalid).2
  refine ⟨agrees_place _ _ _, ?_, fun hpresent => ?_⟩
  · unfold place
    split <;> exact hnull
  · have hsome : encodePayload part.1 part.2 ≠ [] := by
      intro hnone
      rw [hnone] at hpresent
      exact hpresent rfl
    obtain ⟨hoffset, hlen, -⟩ := place_toNat hsome
      (show tableLen + before.length + _ < 2 ^ 64 by omega) part.1
    rw [hoffset, hlen]
    omega

/-- Bytes with a table of placed entries are read as that table. -/
theorem parse_placed
    (hall : List.Forall₂ (PlacedAt (placed.length * aggregateSynopsisEntryLen) payloadBytes)
      parts placed)
    (hfirst : payloadOffsets placed = [] ∧ payloadBytes = [] ∨
      (payloadOffsets placed).min? = some (placed.length * aggregateSynopsisEntryLen))
    (hroom : placed.length * aggregateSynopsisEntryLen + payloadBytes.length < 2 ^ 64)
    (hvalid : ∀ part ∈ parts, validatePayload part.1 part.2 = .ok ())
    (hfits : ∀ part ∈ parts, FitsHeader part.2) (hne : 0 < placed.length) :
    inferEntryCount (placed.flatMap AggregateEntry.serialize ++ payloadBytes) =
        .ok placed.length ∧
      parse validJson (placed.flatMap AggregateEntry.serialize ++ payloadBytes) =
        .ok ⟨placed.map AggregateEntry.sealed, parts.map Prod.snd⟩ := by
  have hplaced := forall₂_imp_of_mem
    (fun part hpart entry h => of_placedAt h (hvalid part hpart) hroom) hall
  have hentry : ∀ entry ∈ placed, entry.nullCount.toNat ≤ entry.rowCount.toNat ∧
      (entry.payloadLength ≠ 0 →
        placed.length * aggregateSynopsisEntryLen ≤ entry.payloadOffset.toNat ∧
        entry.payloadOffset.toNat + entry.payloadLength.toNat ≤
          placed.length * aggregateSynopsisEntryLen + payloadBytes.length) := by
    intro entry hentry
    obtain ⟨part, -, hpart⟩ := exists_of_forall₂_left hplaced.flip hentry
    exact hpart.2
  have hread : ∀ k ≤ placed.length,
      readEntries (placed.flatMap AggregateEntry.serialize ++ payloadBytes) k =
        .ok ((placed.take k).map AggregateEntry.sealed) := fun k hk =>
    readEntries_table (fun entry h => (hentry entry h).1) hk
  have hlength : (placed.flatMap AggregateEntry.serialize ++ payloadBytes).length =
      placed.length * aggregateSynopsisEntryLen + payloadBytes.length := by
    rw [List.length_append, length_table]
  have hinfer : inferEntryCount (placed.flatMap AggregateEntry.serialize ++ payloadBytes) =
      .ok placed.length := by
    have hoffsets : ∀ offset ∈ payloadOffsets placed,
        placed.length * aggregateSynopsisEntryLen ≤ offset := by
      intro offset hoffset
      rcases hfirst with ⟨hnone, -⟩ | hmin
      · rw [hnone] at hoffset
        cases hoffset
      · exact (List.min?_eq_some_iff.mp hmin).2 offset hoffset
    have hat := splitsAt_end hfirst (fun entry h => (hentry entry h).2) hroom
    have hmax : placed.length ≤ (placed.flatMap AggregateEntry.serialize ++
        payloadBytes).length / aggregateSynopsisEntryLen := by
      rw [Nat.le_div_iff_mul_le (by decide), hlength]
      omega
    refine inferEntryCountFrom_eq hread (fun k hk => splitsAt_before hk hoffsets) ?_ hne (by omega)
    rwa [List.take_of_length_le (le_refl _)]
  refine ⟨hinfer, ?_⟩
  have hlong : ¬ (placed.flatMap AggregateEntry.serialize ++ payloadBytes).length <
      aggregateSynopsisEntryLen := by
    rw [hlength]
    unfold aggregateSynopsisEntryLen
    omega
  have hentries := hread placed.length (le_refl _)
  rw [List.take_of_length_le (le_refl _)] at hentries
  have hpayloads : (placed.map AggregateEntry.sealed).mapM
      (readPayload validJson (placed.flatMap AggregateEntry.serialize ++ payloadBytes)
        (placed.length * aggregateSynopsisEntryLen)) = .ok (parts.map Prod.snd) := by
    rw [mapM_eq_ok, List.forall₂_map_left_iff, List.forall₂_map_right_iff]
    exact (forall₂_imp_of_mem (fun part hpart entry h => readPayload_placed
      (length_table placed) hroom h (hvalid part hpart) (hfits part hpart)) hall).flip
  have hagain : (⟨placed.map AggregateEntry.sealed, parts.map Prod.snd⟩ :
      AggregateSynopsis validJson).validate = .ok () := by
    have hpairs : List.Forall₂ (fun entry payload => validatePayload entry payload = .ok ())
        (placed.map AggregateEntry.sealed) (parts.map Prod.snd) := by
      rw [List.forall₂_map_left_iff, List.forall₂_map_right_iff]
      exact (forall₂_imp_of_mem (fun part hpart entry h =>
        (validatePayload_of_agrees h.1 part.2).trans (hvalid part hpart)) hplaced).flip
    obtain ⟨hcount, hzip⟩ := List.forall₂_iff_zip.mp hpairs
    have hsome : parts.map Prod.snd ≠ [] := by
      intro h
      rw [h, List.length_map] at hcount
      simp only [List.length_nil] at hcount
      omega
    unfold validate
    rw [if_neg hsome, if_neg (not_not_intro hcount)]
    exact forM_eq_ok.mpr fun part hpart => hzip hpart
  unfold parse
  rw [if_neg hlong, hinfer, ok_bind, hentries, ok_bind, hpayloads, ok_bind]
  dsimp only
  rw [hagain, ok_bind]

end

/-- **A synopsis is read back.** The number of entries is the true one, every payload belongs to its
own entry, and the entries are the same but for their place and checksum. -/
theorem parse_serialize_canonical {entries : List AggregateEntry}
    {payloads : List (AggregatePayloadV2 validJson)} {synopsis : AggregateSynopsis validJson}
    (hbuilt : fromParts entries payloads = .ok synopsis)
    (hentries : ∀ entry ∈ entries, Constructed entry) (hne : entries ≠ [])
    (hfits : ∀ payload ∈ payloads, FitsHeader payload)
    (hlength : synopsis.serialize.length < 2 ^ 64) :
    inferEntryCount synopsis.serialize = .ok entries.length ∧
      ∃ parsed, parse validJson synopsis.serialize = .ok parsed ∧
        List.Forall₂ Agrees entries parsed.entries ∧
        parsed.payloads = synopsis.parts.map Prod.snd := by
  unfold fromParts at hbuilt
  obtain ⟨_, hvalid, hbuilt⟩ := bind_eq_ok.mp hbuilt
  obtain rfl := Except.ok.inj hbuilt
  obtain ⟨hfst, hparts⟩ := parts_of_validate hvalid
  have hserialize := serialize_eq (show ∀ entry ∈ (⟨entries, payloads⟩ :
    AggregateSynopsis validJson).entries, Unplaced entry from
      fun entry hentry => (hentries entry hentry).unplaced)
  have hfitsParts : ∀ part ∈ (⟨entries, payloads⟩ : AggregateSynopsis validJson).parts,
      FitsHeader part.2 := by
    intro part hpart
    unfold parts at hpart
    split at hpart
    · obtain ⟨entry, -, rfl⟩ := List.mem_map.mp hpart
      exact fun _ _ _ h => nomatch h
    · exact hfits _ (List.of_mem_zip hpart).2
  generalize (⟨entries, payloads⟩ : AggregateSynopsis validJson).parts = parts at *
  dsimp only at hserialize hfst
  have hcount : parts.length = entries.length := by rw [← hfst, List.length_map]
  have hplacedCount : (placeFrom (entries.length * aggregateSynopsisEntryLen) []
      parts).1.length = entries.length := length_placeFrom.trans hcount
  rw [hserialize, List.length_append, length_table, hplacedCount] at hlength
  obtain ⟨-, hall, hfirst⟩ := placeFrom_spec hlength
  rw [hserialize]
  generalize placeFrom (entries.length * aggregateSynopsisEntryLen) [] parts = out at *
  obtain ⟨placed, payloadBytes⟩ := out
  dsimp only at hplacedCount hlength hall hfirst ⊢
  rw [← hplacedCount] at hlength hall hfirst ⊢
  obtain ⟨hinfer, hparse⟩ := parse_placed hall hfirst hlength hparts hfitsParts
    (by rw [hplacedCount]; exact List.length_pos_iff.mpr hne)
  refine ⟨hinfer, _, hparse, ?_, rfl⟩
  rw [← hfst, List.forall₂_map_left_iff, List.forall₂_map_right_iff]
  exact forall₂_imp_of_mem
    (fun part hpart entry h => (of_placedAt h (hparts part hpart) hlength).1) hall

end AggregateSynopsis

end

/-! ## Samples -/

namespace AggregateSynopsis

/-- A count of three rows. -/
def countEntry : AggregateEntry := ⟨1, 2, 3, 4, .count, 0, .exact, 0, 3, 0, 0, 0, 0⟩

/-- The truth values of three rows. -/
def boolEntry : AggregateEntry := ⟨1, 2, 3, 5, .boolTrueFalseCounts, 0, .exact, 0, 3, 0, 0, 0, 0⟩

theorem constructed_countEntry : Constructed countEntry :=
  ⟨1, 2, 3, 4, .count, 0, .exact, 3, 0, rfl⟩

theorem constructed_boolEntry : Constructed boolEntry :=
  ⟨1, 2, 3, 5, .boolTrueFalseCounts, 0, .exact, 3, 0, rfl⟩

/-- A synopsis of an entry without payload and one with. -/
def mixedSynopsis : AggregateSynopsis fun _ => false :=
  ⟨[countEntry, boolEntry], [.none, .boolTrueFalseCounts 2 1]⟩

theorem parse_serialize_mixed :
    inferEntryCount mixedSynopsis.serialize = .ok 2 ∧
      ∃ parsed, parse (fun _ => false) mixedSynopsis.serialize = .ok parsed ∧
        List.Forall₂ Agrees [countEntry, boolEntry] parsed.entries ∧
        parsed.payloads = [.none, .boolTrueFalseCounts 2 1] := by
  have hbuilt : fromParts mixedSynopsis.entries mixedSynopsis.payloads = .ok mixedSynopsis := by
    decide +kernel
  refine parse_serialize_canonical hbuilt ?_ (List.cons_ne_nil _ _) ?_ (by decide +kernel)
  · exact List.forall_mem_cons.mpr ⟨constructed_countEntry, List.forall_mem_cons.mpr
      ⟨constructed_boolEntry, nofun⟩⟩
  · refine List.forall_mem_cons.mpr ⟨nofun, List.forall_mem_cons.mpr ⟨?_, nofun⟩⟩
    intro itemCount aux0 data h
    cases h
    decide

/-- The checksum that is read is not the zero of a new entry. -/
theorem countEntry_not_same :
    ¬ ∀ (entries : List AggregateEntry) (payloads : List (AggregatePayloadV2 fun _ => false))
        (synopsis : AggregateSynopsis fun _ => false),
      fromParts entries payloads = .ok synopsis → (∀ entry ∈ entries, Constructed entry) →
      entries ≠ [] → parse (fun _ => false) synopsis.serialize = .ok synopsis := by
  intro hclaim
  have h := hclaim [countEntry] [.none] ⟨[countEntry], [.none]⟩ rfl
    (List.forall_mem_cons.mpr ⟨constructed_countEntry, nofun⟩) nofun
  have hne : parse (fun _ => false)
      (⟨[countEntry], [.none]⟩ : AggregateSynopsis fun _ => false).serialize ≠
        .ok ⟨[countEntry], [.none]⟩ := by decide +kernel
  exact hne h

end AggregateSynopsis

end Cove
