import Cove.Core.CanonicalGrammar
import Cove.Lib.Ieee754Exact
import Cove.ObjectTemporal.SegmentRecords

/-!
# Reading canonical payloads back

The readback decoder walks the same grammar as the validator and builds a JSON value on the way.

- `decodePayloadValue`: the decoder, with `decodeTaggedValue` and the loops over members.
- `extent`, `validateElements_extent`, …: a decoder whose values are forgotten; **its loops are
  the validator's**.
- `decode_reads`: the decoder takes only what is well formed, so the validator takes it too.
- `decode_complete`: it takes every well-formed payload whose leaves can be read.
- `decode_matches_validator`: both, for any tag, bytes and property.
-/

namespace Cove

open Ieee754 (F32 F64)
open Checked

/-! ## Leaves -/

/-- `Number::from_f64`: a finite number. -/
def numberFromF64 (x : F64) : Except CoveError Json :=
  if x.isFinite then .ok (.number (.float x)) else .error .badFileCode

/-- `decode_canonical_binary_value`. -/
def decodeCanonicalBinaryValue (codec : ValueCodec) (property : PropertyEntryV1)
    (bytes : List UInt8) : Except CoveError Json :=
  if property.physicalKind = .varBytes then decodeBytesValue codec property bytes
  else .ok (.string ((TextOps.fromUtf8 bytes).getD (hexBytes bytes)))

/-- `decode_canonical_length_prefixed_consumed`. -/
def decodeLengthPrefixedConsumed (bytes : List UInt8) : Except CoveError (List UInt8 × Nat) := do
  let (len, consumed) ← decodeLeb128From 0 0 0 bytes
  let stop ← checkedAdd consumed len
  if stop > bytes.length then .error .badFileCode else .ok (fieldBytes bytes consumed len, stop)

/-- `fixed_canonical_payload`. -/
def fixedPayload (bytes : List UInt8) (width : Nat) : Except CoveError (List UInt8) :=
  if bytes.length < width then .error .badFileCode else .ok (bytes.take width)

/-! ## Nested values -/

section

/- `inner` decodes a payload one level down. -/
variable (inner : ValueTag → List UInt8 → Except CoveError (Json × Nat))

/-- `decode_canonical_tagged_value`. -/
def decodeTaggedValue (bytes : List UInt8) : Except CoveError (ValueTag × Json × Nat) := do
  let (rawTag, tagLen) ← decodeLeb128From 0 0 0 bytes
  match ValueTag.fromU16 rawTag with
  | none => .error .badFileCode
  | some valueTag => do
    let (value, payloadLen) ← inner valueTag (bytes.drop tagLen)
    .ok (valueTag, value, tagLen + payloadLen)

/-- The elements of a list. -/
def decodeElements (bytes : List UInt8) : Nat → Nat → Except CoveError (List Json × Nat)
  | 0, pos => .ok ([], pos)
  | count + 1, pos => do
    let (_, value, consumed) ← decodeTaggedValue inner (bytes.drop pos)
    let (values, stop) ← decodeElements bytes count (pos + consumed)
    .ok (value :: values, stop)

/-- The fields of a struct, with the id of the field before and the object so far. -/
def decodeFields (bytes : List UInt8) :
    Nat → Option Nat → List (Text × Json) → Nat → Except CoveError (List (Text × Json) × Nat)
  | 0, _, object, pos => .ok (object, pos)
  | count + 1, previousFieldId, object, pos => do
    let (fieldId, consumed) ← decodeLeb128From 0 0 0 (bytes.drop pos)
    let pos := pos + consumed
    if previousFieldId.any fun previous => decide (fieldId ≤ previous) then .error .badFileCode
    else
      let (_, value, consumed) ← decodeTaggedValue inner (bytes.drop pos)
      decodeFields bytes count (some fieldId)
        (AssocMap.insert (TextOps.natText fieldId) value object) (pos + consumed)

/-- The pairs of a map, with the bytes of the key before. -/
def decodePairs (bytes : List UInt8) :
    Nat → Option (List UInt8) → Nat → Except CoveError (List Json × Nat)
  | 0, _, pos => .ok ([], pos)
  | count + 1, previousKey, pos => do
    let (keyTag, key, consumed) ← decodeTaggedValue inner (bytes.drop pos)
    if !keyTag.isScalar then .error .badFileCode
    else
      let keyBytes := fieldBytes bytes pos consumed
      let pos := pos + consumed
      if previousKey.any fun previous => decide (keyBytes ≤ previous) then .error .badFileCode
      else
        let (_, value, consumed) ← decodeTaggedValue inner (bytes.drop pos)
        let (entries, stop) ← decodePairs bytes count (some keyBytes) (pos + consumed)
        .ok (.array [key, value] :: entries, stop)

end

/-- `decode_canonical_payload_value`, given fuel for the nesting. -/
def decodePayloadValueFrom (codec : ValueCodec) (property : PropertyEntryV1) :
    Nat → ValueTag → List UInt8 → Except CoveError (Json × Nat)
  | 0, _, _ => .error .bufferTooShort
  | fuel + 1, valueTag, bytes =>
    let inner := decodePayloadValueFrom codec property fuel
    match valueTag with
    | .null => .ok (.null, 0)
    | .boolFalse => .ok (.bool false, 0)
    | .boolTrue => .ok (.bool true, 0)
    | .int64 | .timestampMicros | .timestampNanos => do
      let payload ← fixedPayload bytes 8
      .ok (.ofInt (LittleEndian.signed 8 (LittleEndian.ofLe payload)), 8)
    | .uint64 => do
      let payload ← fixedPayload bytes 8
      .ok (.ofNat (LittleEndian.ofLe payload), 8)
    | .float32Bits => do
      let payload ← fixedPayload bytes 4
      let value ← numberFromF64 (F64.ofF32 ⟨BitVec.ofNat 32 (LittleEndian.ofLe payload)⟩)
      .ok (value, 4)
    | .float64Bits => do
      let payload ← fixedPayload bytes 8
      let value ← numberFromF64 ⟨BitVec.ofNat 64 (LittleEndian.ofLe payload)⟩
      .ok (value, 8)
    | .decimal64 => do
      let payload ← fixedPayload bytes 8
      .ok (signedText payload, 8)
    | .decimal128 => do
      let payload ← fixedPayload bytes 16
      .ok (signedText payload, 16)
    | .dateDays => do
      let payload ← fixedPayload bytes 4
      .ok (.ofInt (LittleEndian.signed 4 (LittleEndian.ofLe payload)), 4)
    | .uuid => do
      let payload ← fixedPayload bytes 16
      .ok (.string (hexBytes payload), 16)
    | .utf8 => do
      let (payload, consumed) ← decodeLengthPrefixedConsumed bytes
      match TextOps.fromUtf8 payload with
      | some text => .ok (.string text, consumed)
      | none => .error .badFileCode
    | .binary => do
      let (payload, consumed) ← decodeLengthPrefixedConsumed bytes
      let value ← decodeCanonicalBinaryValue codec property payload
      .ok (value, consumed)
    | .json => do
      let (payload, consumed) ← decodeLengthPrefixedConsumed bytes
      match codec.jsonFromBytes payload with
      | some value => .ok (value, consumed)
      | none => .error .badFileCode
    | .list => do
      let (elementCount, pos) ← decodeLeb128From 0 0 0 bytes
      let (elements, pos) ← decodeElements inner bytes elementCount pos
      .ok (.array elements, pos)
    | .struct => do
      let (fieldCount, pos) ← decodeLeb128From 0 0 0 bytes
      let (object, pos) ← decodeFields inner bytes fieldCount none [] pos
      .ok (.object object, pos)
    | .map => do
      let (pairCount, pos) ← decodeLeb128From 0 0 0 bytes
      let (entries, pos) ← decodePairs inner bytes pairCount none pos
      .ok (.array entries, pos)

/-- `decode_canonical_payload_value`. -/
def decodePayloadValue (codec : ValueCodec) (property : PropertyEntryV1) (valueTag : ValueTag)
    (bytes : List UInt8) : Except CoveError (Json × Nat) :=
  decodePayloadValueFrom codec property (bytes.length + 1) valueTag bytes

example (codec : ValueCodec) (property : PropertyEntryV1) :
    decodePayloadValueFrom codec property 0 .null [] = .error .bufferTooShort := by
  unfold decodePayloadValueFrom
  rfl

/-! ## What a decoder takes -/

open Spelling

variable {tag : ValueTag} {payload : List UInt8} {width : Nat}

variable {taken pos out : Nat} {previous : Option (List UInt8)} {value : Json}

section

variable {inner : ValueTag → List UInt8 → Except CoveError (Json × Nat)} {bytes : List UInt8}

/-- A decoder that forgets what it decodes. -/
def extent (inner : ValueTag → List UInt8 → Except CoveError (Json × Nat)) (tag : ValueTag)
    (bytes : List UInt8) : Except CoveError Nat := (inner tag bytes).map Prod.snd

theorem extent_eq_ok :
    extent inner tag bytes = .ok taken ↔ ∃ value, inner tag bytes = .ok (value, taken) := by
  unfold extent
  rw [map_eq_ok]
  constructor
  · rintro ⟨⟨value, _⟩, h, rfl⟩
    exact ⟨value, h⟩
  · rintro ⟨value, h⟩
    exact ⟨_, h, rfl⟩

theorem decodeCanonicalVarint_eq_ok {what : String} {out : Nat × Nat} :
    decodeCanonicalVarint bytes what = .ok out ↔ decodeLeb128From 0 0 0 bytes = .ok out := by
  unfold decodeCanonicalVarint
  cases h : decodeLeb128From 0 0 0 bytes with
  | ok out' => rfl
  | error e => simp

/-- The validator's reading of a tagged value, over the extents. -/
theorem validateTaggedValue_extent :
    validateTaggedValue (extent inner) bytes = .ok (tag, taken) ↔
      ∃ value, decodeTaggedValue inner bytes = .ok (tag, value, taken) := by
  unfold validateTaggedValue decodeTaggedValue
  constructor
  · intro h
    obtain ⟨⟨rawTag, tagLen⟩, hvarint, h⟩ := bind_eq_ok.mp h
    rw [decodeCanonicalVarint_eq_ok.mp hvarint, ok_bind]
    dsimp only at h ⊢
    cases htag : ValueTag.fromU16 rawTag with
    | none =>
      rw [htag] at h
      cases h
    | some valueTag =>
      rw [htag] at h
      obtain ⟨payloadLen, hinner, h⟩ := bind_eq_ok.mp h
      obtain ⟨rfl, rfl⟩ := Prod.mk.inj (Except.ok.inj h)
      obtain ⟨value, hvalue⟩ := extent_eq_ok.mp hinner
      refine ⟨value, ?_⟩
      dsimp only
      rw [hvalue]
      rfl
  · rintro ⟨value, h⟩
    obtain ⟨⟨rawTag, tagLen⟩, hvarint, h⟩ := bind_eq_ok.mp h
    rw [decodeCanonicalVarint_eq_ok.mpr hvarint, ok_bind]
    dsimp only at h ⊢
    cases htag : ValueTag.fromU16 rawTag with
    | none =>
      rw [htag] at h
      cases h
    | some valueTag =>
      rw [htag] at h
      obtain ⟨⟨value', payloadLen⟩, hinner, h⟩ := bind_eq_ok.mp h
      obtain ⟨rfl, hrest⟩ := Prod.mk.inj (Except.ok.inj h)
      obtain ⟨rfl, rfl⟩ := Prod.mk.inj hrest
      dsimp only
      rw [extent_eq_ok.mpr ⟨value', hinner⟩]
      rfl

/-- **The loop over elements is the validator's.** -/
theorem validateElements_extent {count : Nat} :
    validateElements (extent inner) bytes count pos = .ok out ↔
      ∃ values, decodeElements inner bytes count pos = .ok (values, out) := by
  induction count generalizing pos with
  | zero =>
    unfold validateElements decodeElements
    constructor
    · intro h
      obtain rfl := Except.ok.inj h
      exact ⟨[], rfl⟩
    · rintro ⟨values, h⟩
      obtain ⟨-, rfl⟩ := Prod.mk.inj (Except.ok.inj h)
      rfl
  | succ count ih =>
    unfold validateElements decodeElements
    constructor
    · intro h
      obtain ⟨⟨tag, consumed⟩, hone, h⟩ := bind_eq_ok.mp h
      obtain ⟨value, hvalue⟩ := validateTaggedValue_extent.mp hone
      obtain ⟨values, hvalues⟩ := ih.mp h
      refine ⟨value :: values, ?_⟩
      rw [hvalue, ok_bind]
      dsimp only
      rw [hvalues]
      rfl
    · rintro ⟨values, h⟩
      obtain ⟨⟨tag, value, consumed⟩, hone, h⟩ := bind_eq_ok.mp h
      obtain ⟨⟨values', stop⟩, hrest, h⟩ := bind_eq_ok.mp h
      obtain ⟨-, rfl⟩ := Prod.mk.inj (Except.ok.inj h)
      rw [validateTaggedValue_extent.mpr ⟨value, hone⟩, ok_bind]
      exact ih.mpr ⟨values', hrest⟩

theorem validateFields_extent {count : Nat} {previous : Option Nat} (object : List (Text × Json)) :
    validateFields (extent inner) bytes count previous pos = .ok out ↔
      ∃ object', decodeFields inner bytes count previous object pos = .ok (object', out) := by
  induction count generalizing pos previous object with
  | zero =>
    unfold validateFields decodeFields
    constructor
    · intro h
      obtain rfl := Except.ok.inj h
      exact ⟨object, rfl⟩
    · rintro ⟨object', h⟩
      obtain ⟨-, rfl⟩ := Prod.mk.inj (Except.ok.inj h)
      rfl
  | succ count ih =>
    unfold validateFields decodeFields
    constructor
    · intro h
      obtain ⟨⟨fieldId, consumed⟩, hid, h⟩ := bind_eq_ok.mp h
      rw [decodeCanonicalVarint_eq_ok.mp hid, ok_bind]
      dsimp only at h ⊢
      split at h
      · cases h
      next hafter =>
      obtain ⟨⟨tag, taken⟩, hone, h⟩ := bind_eq_ok.mp h
      obtain ⟨value, hvalue⟩ := validateTaggedValue_extent.mp hone
      rw [if_neg hafter, hvalue, ok_bind]
      exact (ih _).mp h
    · rintro ⟨object', h⟩
      obtain ⟨⟨fieldId, consumed⟩, hid, h⟩ := bind_eq_ok.mp h
      rw [decodeCanonicalVarint_eq_ok.mpr hid, ok_bind]
      dsimp only at h ⊢
      split at h
      · cases h
      next hafter =>
      obtain ⟨⟨tag, value, taken⟩, hone, h⟩ := bind_eq_ok.mp h
      rw [if_neg hafter, validateTaggedValue_extent.mpr ⟨value, hone⟩, ok_bind]
      exact (ih _).mpr ⟨object', h⟩

/-- Not above the key before: below it, or the same. -/
theorem any_le_eq_false {key : List UInt8} :
    (previous.any fun p => decide (key ≤ p)) = false ↔
      (previous.any fun p => decide (key < p)) = false ∧ previous ≠ some key := by
  cases previous with
  | none => simp
  | some p =>
    rw [Option.any_some, Option.any_some, decide_eq_false_iff_not, decide_eq_false_iff_not, not_le,
      not_lt, Ne, Option.some.injEq]
    constructor
    · intro h
      exact ⟨h.le, h.ne⟩
    · rintro ⟨hle, hne⟩
      exact lt_of_le_of_ne hle hne

theorem validatePairs_extent {count : Nat} :
    validatePairs (extent inner) bytes count previous pos = .ok out ↔
      ∃ entries, decodePairs inner bytes count previous pos = .ok (entries, out) := by
  induction count generalizing pos previous with
  | zero =>
    unfold validatePairs decodePairs
    constructor
    · intro h
      obtain rfl := Except.ok.inj h
      exact ⟨[], rfl⟩
    · rintro ⟨entries, h⟩
      obtain ⟨-, rfl⟩ := Prod.mk.inj (Except.ok.inj h)
      rfl
  | succ count ih =>
    unfold validatePairs decodePairs
    constructor
    · intro h
      obtain ⟨⟨keyTag, consumed⟩, hkey, h⟩ := bind_eq_ok.mp h
      obtain ⟨key, hkey'⟩ := validateTaggedValue_extent.mp hkey
      rw [hkey', ok_bind]
      dsimp only at h ⊢
      split at h
      · cases h
      next hscalar =>
      split at h
      · cases h
      next hbelow =>
      split at h
      · cases h
      next hsame =>
      obtain ⟨⟨tag, taken⟩, hone, h⟩ := bind_eq_ok.mp h
      obtain ⟨value, hvalue⟩ := validateTaggedValue_extent.mp hone
      obtain ⟨entries, hentries⟩ := ih.mp h
      have hafter := any_le_eq_false.mpr ⟨Bool.eq_false_iff.mpr hbelow, hsame⟩
      refine ⟨.array [key, value] :: entries, ?_⟩
      rw [if_neg hscalar, hafter, if_neg Bool.false_ne_true, hvalue, ok_bind]
      dsimp only
      rw [hentries]
      rfl
    · rintro ⟨entries, h⟩
      obtain ⟨⟨keyTag, key, consumed⟩, hkey, h⟩ := bind_eq_ok.mp h
      rw [validateTaggedValue_extent.mpr ⟨key, hkey⟩, ok_bind]
      dsimp only at h ⊢
      split at h
      · cases h
      next hscalar =>
      split at h
      · cases h
      next hafter =>
      obtain ⟨⟨tag, value, taken⟩, hone, h⟩ := bind_eq_ok.mp h
      obtain ⟨⟨entries', stop⟩, hrest, h⟩ := bind_eq_ok.mp h
      obtain ⟨-, rfl⟩ := Prod.mk.inj (Except.ok.inj h)
      obtain ⟨hbelow, hsame⟩ := any_le_eq_false.mp (Bool.eq_false_iff.mpr hafter)
      rw [if_neg hscalar, hbelow, if_neg Bool.false_ne_true, if_neg hsame,
        validateTaggedValue_extent.mpr ⟨value, hone⟩, ok_bind]
      exact ih.mpr ⟨entries', hrest⟩

end

/-! ## Leaves that can be read -/

/-- The JSON texts that the parser of a codec accepts. -/
def ValueCodec.validJson (codec : ValueCodec) (bytes : List UInt8) : Bool :=
  (codec.jsonFromBytes bytes).isSome

/-- A `Binary` leaf that the property can show: under a property of bytes that is declared a text
or a JSON document it is one. -/
def BinaryReadable (codec : ValueCodec) (property : PropertyEntryV1) (body : List UInt8) : Prop :=
  property.physicalKind = .varBytes →
    (property.logicalType = .utf8 → isUtf8 body = true) ∧
      (property.logicalType = .json → codec.validJson body = true)

/-- A leaf that is a float is finite. -/
def FloatFinite (body : List UInt8) : ValueTag → Prop
  | .float32Bits => Ieee754.binary32.isSpecial (LittleEndian.ofLe body) = false
  | .float64Bits => Ieee754.binary64.isSpecial (LittleEndian.ofLe body) = false
  | _ => True

/-- A leaf whose float is finite and whose bytes the property can show. -/
def LeafReadable (codec : ValueCodec) (property : PropertyEntryV1) (body : List UInt8)
    (tag : ValueTag) : Prop :=
  FloatFinite body tag ∧ (tag = .binary → BinaryReadable codec property body)

/-- What holds of every leaf, nested to any depth. -/
inductive Spelling.EachLeaf (P : List UInt8 → ValueTag → Prop) : Spelling → Prop
  | fixed {tag : TagVarint} {payload : List UInt8} (leaf : P payload tag.tag) :
      EachLeaf P (.fixed tag payload)
  | text {tag : TagVarint} {len : Varint} {body : List UInt8} (leaf : P body tag.tag) :
      EachLeaf P (.text tag len body)
  | list {tag : TagVarint} {count : Varint} {elements : List Spelling}
      (each : ∀ e ∈ elements, EachLeaf P e) : EachLeaf P (.list tag count elements)
  | struct {tag : TagVarint} {count : Varint} {fields : List (Varint × Spelling)}
      (each : ∀ f ∈ fields, EachLeaf P f.2) : EachLeaf P (.struct tag count fields)
  | map {tag : TagVarint} {count : Varint} {entries : List (Spelling × Spelling)}
      (keys : ∀ e ∈ entries, EachLeaf P e.1) (each : ∀ e ∈ entries, EachLeaf P e.2) :
      EachLeaf P (.map tag count entries)

theorem fromUtf8_isSome (bytes : List UInt8) :
    (TextOps.fromUtf8 bytes).isSome = isUtf8 bytes := by
  have harray : bytes.toByteArray = ⟨bytes.toArray⟩ := ByteArray.ext List.data_toByteArray
  unfold TextOps.fromUtf8 isUtf8
  rw [Option.isSome_map, harray]
  exact ByteArray.isSome_utf8Decode?_eq_validateUTF8

variable {body : List UInt8}

section

variable {codec : ValueCodec} {property : PropertyEntryV1} {bytes : List UInt8}

theorem decodeLengthPrefixedConsumed_eq_ok (what : String) {out : List UInt8 × Nat} :
    decodeLengthPrefixedConsumed bytes = .ok out ↔ decodeLengthPrefixed bytes what = .ok out := by
  unfold decodeLengthPrefixedConsumed decodeLengthPrefixed
  rw [bind_eq_ok, bind_eq_ok]
  refine exists_congr fun read => and_congr decodeCanonicalVarint_eq_ok.symm ?_
  dsimp only
  rw [bind_eq_ok, bind_eq_ok]
  refine exists_congr fun stop => and_congr_right fun _ => ?_
  by_cases h : stop > bytes.length
  · rw [if_pos h, if_pos h]
    constructor <;> intro h <;> cases h
  · rw [if_neg h, if_neg h]

theorem fixedPayload_eq_ok :
    fixedPayload bytes width = .ok payload ↔ width ≤ bytes.length ∧ payload = bytes.take width := by
  unfold fixedPayload
  by_cases h : bytes.length < width
  · rw [if_pos h]
    constructor
    · intro heq
      cases heq
    · rintro ⟨hle, -⟩
      omega
  · rw [if_neg h]
    constructor
    · intro heq
      exact ⟨by omega, (Except.ok.inj heq).symm⟩
    · rintro ⟨-, rfl⟩
      rfl

theorem exists_of_fixedPayload_bind {out : Json × Nat}
    {f : List UInt8 → Except CoveError (Json × Nat)}
    (h : (fixedPayload bytes width >>= f) = .ok out) :
    width ≤ bytes.length ∧ f (bytes.take width) = .ok out := by
  obtain ⟨payload, hpayload, h⟩ := bind_eq_ok.mp h
  obtain ⟨hle, rfl⟩ := fixedPayload_eq_ok.mp hpayload
  exact ⟨hle, h⟩

/-- What is decoded of a payload of fixed width is its extent. -/
theorem decode_fixed_sound (hwidth : tag.fixedWidth = some width) {fuel : Nat}
    (h : decodePayloadValueFrom codec property (fuel + 1) tag bytes = .ok (value, taken)) :
    width ≤ bytes.length ∧ taken = width := by
  have hpair : ∀ {w : Nat} {v : List UInt8 → Json},
      ((fixedPayload bytes w >>= fun payload => Except.ok (v payload, w)) = .ok (value, taken)) →
      w ≤ bytes.length ∧ taken = w := by
    intro w v h
    obtain ⟨hle, h⟩ := exists_of_fixedPayload_bind h
    exact ⟨hle, (Prod.mk.inj (Except.ok.inj h)).2.symm⟩
  have hfloat : ∀ {w : Nat} {v : List UInt8 → Except CoveError Json},
      ((fixedPayload bytes w >>= fun payload => v payload >>= fun x => Except.ok (x, w)) =
        .ok (value, taken)) → w ≤ bytes.length ∧ taken = w := by
    intro w v h
    obtain ⟨hle, h⟩ := exists_of_fixedPayload_bind h
    obtain ⟨x, -, h⟩ := bind_eq_ok.mp h
    exact ⟨hle, (Prod.mk.inj (Except.ok.inj h)).2.symm⟩
  unfold decodePayloadValueFrom at h
  cases tag with
  | null | boolFalse | boolTrue =>
    obtain ⟨-, rfl⟩ := Prod.mk.inj (Except.ok.inj h)
    obtain rfl := Option.some.inj hwidth
    exact ⟨Nat.zero_le _, rfl⟩
  | float32Bits | float64Bits =>
    obtain rfl := Option.some.inj hwidth
    exact hfloat h
  | int64 | uint64 | decimal64 | decimal128 | dateDays | timestampMicros | timestampNanos | uuid =>
    obtain rfl := Option.some.inj hwidth
    exact hpair h
  | utf8 | binary | json | list | struct | map => cases hwidth

/-- What is decoded of a payload with its length in front is valid. -/
theorem decode_text_sound (hwidth : tag.fixedWidth = none)
    (hscalar : tag.isScalar = true) {fuel : Nat}
    (h : decodePayloadValueFrom codec property (fuel + 1) tag bytes = .ok (value, taken)) :
    ∃ body, decodeLengthPrefixedConsumed bytes = .ok (body, taken) ∧
      tag.ValidText codec.validJson body := by
  unfold decodePayloadValueFrom at h
  cases tag with
  | utf8 =>
    obtain ⟨⟨body, total⟩, hread, h⟩ := bind_eq_ok.mp h
    dsimp only at h
    split at h
    · next text htext =>
      obtain ⟨-, rfl⟩ := Prod.mk.inj (Except.ok.inj h)
      refine ⟨body, hread, ?_⟩
      show isUtf8 body = true
      rw [← fromUtf8_isSome, htext]
      rfl
    · cases h
  | binary =>
    obtain ⟨⟨body, total⟩, hread, h⟩ := bind_eq_ok.mp h
    obtain ⟨x, -, h⟩ := bind_eq_ok.mp h
    obtain ⟨-, rfl⟩ := Prod.mk.inj (Except.ok.inj h)
    exact ⟨body, hread, trivial⟩
  | json =>
    obtain ⟨⟨body, total⟩, hread, h⟩ := bind_eq_ok.mp h
    dsimp only at h
    split at h
    · next x hx =>
      obtain ⟨-, rfl⟩ := Prod.mk.inj (Except.ok.inj h)
      refine ⟨body, hread, ?_⟩
      show (codec.jsonFromBytes body).isSome = true
      rw [hx]
      rfl
    · cases h
  | list | struct | map => cases hscalar
  | _ => cases hwidth

/-- **The decoder takes nothing but well-formed payloads.** The induction is on the fuel. -/
theorem decode_reads (fuel : Nat) :
    ReadsSpelled codec.validJson (extent (decodePayloadValueFrom codec property fuel)) := by
  induction fuel with
  | zero =>
    intro bytes taken tag h
    obtain ⟨value, h⟩ := extent_eq_ok.mp h
    cases h
  | succ fuel ih =>
    intro bytes taken tag h
    obtain ⟨value, h⟩ := extent_eq_ok.mp h
    cases hwidth : tag.tag.fixedWidth with
    | some width =>
      obtain ⟨hle, rfl⟩ := decode_fixed_sound hwidth h
      have hlen : (bytes.take taken).length = taken := by
        rw [List.length_take]
        omega
      refine ⟨.fixed tag (bytes.take taken), bytes.drop taken, .fixed (hwidth.trans ?_), rfl, ?_, ?_⟩
      · rw [hlen]
      · rw [payload_fixed, List.take_append_drop]
      · rw [payload_fixed, hlen]
    | none =>
      by_cases hscalar : tag.tag.isScalar = true
      · obtain ⟨body, hread, hvalid⟩ := decode_text_sound hwidth hscalar h
        have hread' := (decodeLengthPrefixedConsumed_eq_ok "").mp hread
        obtain ⟨len, rest, rfl, hlength, hfits, rfl⟩ := exists_of_decodeLengthPrefixed hread'
        exact ⟨.text tag len body, rest, .text hlength hfits hvalid, rfl, by rw [payload_text],
          by rw [payload_text]⟩
      · unfold decodePayloadValueFrom at h
        cases htag : tag.tag <;> rw [htag] at hscalar <;>
          first | exact absurd rfl hscalar | skip
        all_goals
          rw [htag] at h
          dsimp only at h
          obtain ⟨⟨count, pos⟩, hcount, h⟩ := bind_eq_ok.mp h
          obtain ⟨v, rest, rfl, rfl, rfl⟩ := exists_varint hcount
          obtain ⟨⟨members, stop⟩, hmembers, h⟩ := bind_eq_ok.mp h
          obtain ⟨-, rfl⟩ := Prod.mk.inj (Except.ok.inj h)
        case list =>
          obtain ⟨elements, rest', hlength, hall, hdrop, rfl⟩ :=
            ih.elements (validateElements_extent.mpr ⟨_, hmembers⟩)
          rw [List.drop_left] at hdrop
          refine ⟨.list tag v elements, rest', .list htag hlength.symm hall, rfl, ?_, ?_⟩
          · rw [payload_list, hdrop, List.append_assoc]
          · rw [payload_list, List.length_append]
        case struct =>
          obtain ⟨fields, rest', hlength, hall, hascending, -, hdrop, rfl⟩ :=
            ih.fields ((validateFields_extent []).mpr ⟨_, hmembers⟩)
          rw [List.drop_left] at hdrop
          refine ⟨.struct tag v fields, rest', .struct htag hlength.symm hascending hall, rfl, ?_,
            ?_⟩
          · rw [payload_struct, hdrop, List.append_assoc]
          · rw [payload_struct, List.length_append]
        case map =>
          obtain ⟨entries, rest', hlength, hkeys, hall, hscalars, hascending, -, hdrop, rfl⟩ :=
            ih.pairs (validatePairs_extent.mpr ⟨_, hmembers⟩)
          rw [List.drop_left] at hdrop
          refine ⟨.map tag v entries, rest',
            .map htag hlength.symm hscalars hascending hkeys hall, rfl, ?_, ?_⟩
          · rw [payload_map, hdrop, List.append_assoc]
          · rw [payload_map, List.length_append]

theorem fixedPayload_append (hwidth : payload.length = width)
    (rest : List UInt8) : fixedPayload (payload ++ rest) width = .ok payload := by
  subst hwidth
  refine fixedPayload_eq_ok.mpr ⟨?_, (List.take_left).symm⟩
  rw [List.length_append]
  exact Nat.le_add_right _ _

/-- A finite number is read. -/
theorem numberFromF64_of_finite {x : F64} (h : x.isFinite = true) :
    numberFromF64 x = .ok (.number (.float x)) := by
  unfold numberFromF64
  rw [if_pos h]

/-- A payload of fixed width is read, when its float is finite. -/
theorem decode_fixed_complete
    (hwidth : tag.fixedWidth = some payload.length) (hleaf : LeafReadable codec property payload tag)
    (fuel : Nat) (rest : List UInt8) :
    ∃ value, decodePayloadValueFrom codec property (fuel + 1) tag (payload ++ rest) =
      .ok (value, payload.length) := by
  have hlt := LittleEndian.ofLe_lt payload
  unfold decodePayloadValueFrom
  cases tag with
  | null | boolFalse | boolTrue =>
    rw [← Option.some.inj hwidth]
    exact ⟨_, rfl⟩
  | float32Bits =>
    have hlen : payload.length = 4 := (Option.some.inj hwidth).symm
    rw [hlen, show (256 : Nat) ^ 4 = 2 ^ 32 from rfl] at hlt
    have hfinite : (F64.ofF32 ⟨BitVec.ofNat 32 (LittleEndian.ofLe payload)⟩).isFinite = true := by
      rw [F64.isFinite_ofF32, BitVec.toNat_ofNat, Nat.mod_eq_of_lt hlt, Bool.not_eq_true']
      exact hleaf.1
    dsimp only
    rw [fixedPayload_append hlen, ok_bind, numberFromF64_of_finite hfinite, hlen]
    exact ⟨_, rfl⟩
  | float64Bits =>
    have hlen : payload.length = 8 := (Option.some.inj hwidth).symm
    rw [hlen, show (256 : Nat) ^ 8 = 2 ^ 64 from rfl] at hlt
    have hfinite : F64.isFinite ⟨BitVec.ofNat 64 (LittleEndian.ofLe payload)⟩ = true := by
      unfold F64.isFinite
      rw [BitVec.toNat_ofNat, Nat.mod_eq_of_lt hlt, Bool.not_eq_true']
      exact hleaf.1
    dsimp only
    rw [fixedPayload_append hlen, ok_bind, numberFromF64_of_finite hfinite, hlen]
    exact ⟨_, rfl⟩
  | int64 | uint64 | decimal64 | decimal128 | dateDays | timestampMicros | timestampNanos | uuid =>
    have hlen := (Option.some.inj hwidth).symm
    dsimp only
    rw [fixedPayload_append hlen, ok_bind, hlen]
    exact ⟨_, rfl⟩
  | utf8 | binary | json | list | struct | map => cases hwidth

/-- A binary leaf is read when the property can show it. -/
theorem decodeCanonicalBinaryValue_complete (h : BinaryReadable codec property body) :
    ∃ value, decodeCanonicalBinaryValue codec property body = .ok value := by
  unfold decodeCanonicalBinaryValue
  by_cases hkind : property.physicalKind = .varBytes
  · obtain ⟨hutf8, hjson⟩ := h hkind
    rw [if_pos hkind]
    unfold decodeBytesValue
    rw [hkind]
    dsimp only
    cases hlogical : property.logicalType with
    | utf8 =>
      have hsome := hutf8 hlogical
      rw [← fromUtf8_isSome, Option.isSome_iff_exists] at hsome
      obtain ⟨text, htext⟩ := hsome
      dsimp only
      rw [htext]
      exact ⟨_, rfl⟩
    | json =>
      obtain ⟨value, hvalue⟩ := Option.isSome_iff_exists.mp (hjson hlogical)
      dsimp only
      rw [hvalue]
      exact ⟨_, rfl⟩
    | _ => exact ⟨_, rfl⟩
  · rw [if_neg hkind]
    exact ⟨_, rfl⟩

/-- A payload with its length in front is read, when the property can show it. -/
theorem decode_text_complete {consumed : Nat}
    (hvalid : tag.ValidText codec.validJson body) (hleaf : LeafReadable codec property body tag)
    (fuel : Nat) (hread : decodeLengthPrefixedConsumed bytes = .ok (body, consumed)) :
    ∃ value, decodePayloadValueFrom codec property (fuel + 1) tag bytes = .ok (value, consumed) := by
  unfold decodePayloadValueFrom
  cases tag with
  | utf8 =>
    have hsome : isUtf8 body = true := hvalid
    rw [← fromUtf8_isSome, Option.isSome_iff_exists] at hsome
    obtain ⟨text, htext⟩ := hsome
    dsimp only
    rw [hread, ok_bind]
    dsimp only
    rw [htext]
    exact ⟨_, rfl⟩
  | binary =>
    obtain ⟨value, hvalue⟩ := decodeCanonicalBinaryValue_complete (hleaf.2 rfl)
    dsimp only
    rw [hread, ok_bind]
    dsimp only
    rw [hvalue]
    exact ⟨value, rfl⟩
  | json =>
    obtain ⟨value, hvalue⟩ := Option.isSome_iff_exists.mp hvalid
    dsimp only
    rw [hread, ok_bind]
    dsimp only
    rw [hvalue]
    exact ⟨value, rfl⟩
  | _ => exact hvalid.elim

/-- **The decoder takes every well-formed payload whose leaves can be read**, given fuel for its
bytes. The induction is on the grammar; the loops are the validator's. -/
theorem decode_complete {s : Spelling} (h : s.WellFormed codec.validJson)
    (hleaves : s.EachLeaf (LeafReadable codec property)) {fuel : Nat}
    (hfuel : s.payload.length < fuel) :
    Takes (extent (decodePayloadValueFrom codec property fuel)) s := by
  induction h generalizing fuel with
  | @fixed tag payload width =>
    obtain ⟨fuel, rfl⟩ : ∃ n, fuel = n + 1 := ⟨fuel - 1, by omega⟩
    obtain ⟨leaf⟩ := hleaves
    intro rest
    rw [payload_fixed]
    exact extent_eq_ok.mpr (decode_fixed_complete width leaf fuel rest)
  | @text tag len body length fits valid =>
    obtain ⟨fuel, rfl⟩ : ∃ n, fuel = n + 1 := ⟨fuel - 1, by omega⟩
    obtain _ | ⟨leaf⟩ := hleaves
    intro rest
    rw [payload_text]
    refine extent_eq_ok.mpr (decode_text_complete valid leaf fuel ?_)
    exact (decodeLengthPrefixedConsumed_eq_ok "").mpr (decodeLengthPrefixed_append rest length fits "")
  | @list tag count elements kind length each ih =>
    obtain ⟨fuel, rfl⟩ : ∃ n, fuel = n + 1 := ⟨fuel - 1, by omega⟩
    rw [payload_list, List.length_append] at hfuel
    cases hleaves with | list hleaves =>
    have htakes : ∀ e ∈ elements, Takes (extent (decodePayloadValueFrom codec property fuel)) e := by
      intro e he
      have hle := length_le_flatMap (f := Spelling.tagged) he
      have hlt := payload_length_lt e
      exact ih e he (hleaves e he) (by omega)
    intro rest
    have hloop : validateElements (extent (decodePayloadValueFrom codec property fuel))
        (count.bytes ++ (elements.flatMap tagged ++ rest)) elements.length count.bytes.length = _ :=
      validateElements_complete htakes List.drop_left
    obtain ⟨values, hvalues⟩ := validateElements_extent.mp hloop
    refine extent_eq_ok.mpr ⟨.array values, ?_⟩
    rw [payload_list]
    show decodePayloadValueFrom codec property (fuel + 1) tag.tag _ = _
    rw [kind]
    unfold decodePayloadValueFrom
    dsimp only
    rw [List.append_assoc, count.decode_append, ok_bind]
    dsimp only
    rw [length, hvalues, List.length_append]
    rfl
  | @struct tag count fields kind length ascending each ih =>
    obtain ⟨fuel, rfl⟩ : ∃ n, fuel = n + 1 := ⟨fuel - 1, by omega⟩
    rw [payload_struct, List.length_append] at hfuel
    cases hleaves with | struct hleaves =>
    have htakes : ∀ f ∈ fields,
        Takes (extent (decodePayloadValueFrom codec property fuel)) f.2 := by
      intro f hf
      have hle := length_le_flatMap (f := fieldTagged) hf
      have hlt := payload_length_lt f.2
      rw [fieldTagged, List.length_append] at hle
      exact ih f hf (hleaves f hf) (by omega)
    intro rest
    have hloop : validateFields (extent (decodePayloadValueFrom codec property fuel))
        (count.bytes ++ (fields.flatMap fieldTagged ++ rest)) fields.length none
        count.bytes.length = _ :=
      validateFields_complete htakes ascending (fun _ hid => by cases hid) List.drop_left
    obtain ⟨object, hobject⟩ := (validateFields_extent []).mp hloop
    refine extent_eq_ok.mpr ⟨.object object, ?_⟩
    rw [payload_struct]
    show decodePayloadValueFrom codec property (fuel + 1) tag.tag _ = _
    rw [kind]
    unfold decodePayloadValueFrom
    dsimp only
    rw [List.append_assoc, count.decode_append, ok_bind]
    dsimp only
    rw [length, hobject, List.length_append]
    rfl
  | @map tag count entries kind length scalar ascending keys each ihkeys ih =>
    obtain ⟨fuel, rfl⟩ : ∃ n, fuel = n + 1 := ⟨fuel - 1, by omega⟩
    rw [payload_map, List.length_append] at hfuel
    cases hleaves with | map hkeys hleaves =>
    have hfits : ∀ e ∈ entries, e.1.payload.length < fuel ∧ e.2.payload.length < fuel := by
      intro e he
      have hle := length_le_flatMap (f := entryTagged) he
      have hlt := payload_length_lt e.1
      have hlt' := payload_length_lt e.2
      rw [entryTagged, List.length_append] at hle
      omega
    intro rest
    have hloop : validatePairs (extent (decodePayloadValueFrom codec property fuel))
        (count.bytes ++ (entries.flatMap entryTagged ++ rest)) entries.length none
        count.bytes.length = _ :=
      validatePairs_complete (fun e he => ihkeys e he (hkeys e he) (hfits e he).1)
        (fun e he => ih e he (hleaves e he) (hfits e he).2) scalar ascending
        (fun _ hkey => by cases hkey) List.drop_left
    obtain ⟨values, hvalues⟩ := validatePairs_extent.mp hloop
    refine extent_eq_ok.mpr ⟨.array values, ?_⟩
    rw [payload_map]
    show decodePayloadValueFrom codec property (fuel + 1) tag.tag _ = _
    rw [kind]
    unfold decodePayloadValueFrom
    dsimp only
    rw [List.append_assoc, count.decode_append, ok_bind]
    dsimp only
    rw [length, hvalues, List.length_append]
    rfl

/-- **The decoder accepts nothing that the validator rejects, with the same extent, and accepts
every payload the validator accepts**, when its floats are finite and the property can show its
binary leaves. -/
theorem decode_matches_validator (codec : ValueCodec) (property : PropertyEntryV1) (tag : ValueTag)
    (bytes : List UInt8) :
    (∀ value taken, decodePayloadValue codec property tag bytes = .ok (value, taken) →
      validatePayloadInner codec.validJson (bytes.length + 1) tag bytes = .ok taken) ∧
    (validateCanonicalPayload codec.validJson tag bytes = .ok () →
      ∃ s, Spells codec.validJson tag bytes s ∧
        (s.EachLeaf (LeafReadable codec property) →
          ∃ value, decodePayloadValue codec property tag bytes = .ok (value, bytes.length))) := by
  constructor
  · intro value taken h
    obtain ⟨s, rest, hs, htag, rfl, rfl⟩ :=
      decode_reads _ (.shortest tag) (extent_eq_ok.mpr ⟨value, h⟩)
    have hlen : s.payload.length < (s.payload ++ rest).length + 1 := by
      rw [List.length_append]
      omega
    have htakes := validate_complete hs hlen rest
    rwa [htag] at htakes
  · intro h
    obtain ⟨s, hs⟩ := validate_iff.mp h
    refine ⟨s, hs, fun hleaves => ?_⟩
    obtain ⟨hwf, htag, rfl⟩ := hs
    have htakes := decode_complete hwf hleaves (Nat.lt_succ_self _) []
    rw [List.append_nil, htag] at htakes
    exact extent_eq_ok.mp htakes

end

/-- A list of the number one and a byte that is no text. -/
theorem list_read_back :
    ∃ s, Spells silentCodec.validJson .list [2, 6, 0, 0, 0, 0, 0, 0, 240, 63, 13, 1, 255] s ∧
      (s.EachLeaf (LeafReadable silentCodec ⟨1, [], .list, .fileCode, true, 0, 0⟩) →
        ∃ value, decodePayloadValue silentCodec ⟨1, [], .list, .fileCode, true, 0, 0⟩ .list
          [2, 6, 0, 0, 0, 0, 0, 0, 240, 63, 13, 1, 255] = .ok (value, 13)) :=
  (decode_matches_validator silentCodec ⟨1, [], .list, .fileCode, true, 0, 0⟩ .list
    [2, 6, 0, 0, 0, 0, 0, 0, 240, 63, 13, 1, 255]).2 (by decide +kernel)

/-- A binary leaf that is no text, under a property that is declared one. -/
theorem binary_as_text_refuted :
    ¬ ∀ (codec : ValueCodec) (property : PropertyEntryV1) (tag : ValueTag) (bytes : List UInt8)
      (s : Spelling), Spells codec.validJson tag bytes s → s.EachLeaf FloatFinite →
        ∃ value, decodePayloadValue codec property tag bytes = .ok (value, bytes.length) := by
  intro h
  have hspells : Spells silentCodec.validJson .binary [1, 255]
      (.text (.shortest .binary) (.ofNat 1) [255]) :=
    ⟨.text rfl (by decide) trivial, rfl, rfl⟩
  obtain ⟨value, hvalue⟩ := h silentCodec ⟨1, [], .utf8, .varBytes, true, 0, 0⟩ .binary [1, 255] _
    hspells (.text trivial)
  have herror : decodePayloadValue silentCodec ⟨1, [], .utf8, .varBytes, true, 0, 0⟩ .binary
      [1, 255] = .error .pageCorrupt := by rfl
  rw [herror] at hvalue
  cases hvalue

end Cove
