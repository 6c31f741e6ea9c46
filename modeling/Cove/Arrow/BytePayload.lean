import Cove.Arrow.ByteCopies
import Cove.Arrow.RowSelection
import Cove.Core.NullCount
import Cove.Core.PageArray
import Cove.Lib.Utf8

/-!
# Byte pages to Arrow arrays

The rows of a page of length-prefixed bytes as the offsets, values and null bits of an Arrow array.
There are four ways: pages without nulls are copied as a whole, with one stride when all rows are of
one length, other pages row by row, ascending selections in one pass over the prefixes, and other
selections from the ranges of all rows.

- `parseRanges`: where the bytes of each row lie.
- `materializeAllU32NoNulls`, `materializeAllRows`, `materializeSelectedForwardU32`,
  `materializeSelected`: the four ways.
- `validateUtf8OffsetsSlice`: the check of the values as UTF-8, with the rows' first bytes.
- `materializeUtf8`: a string array.
-/

namespace Cove

namespace Arrow

open ByteCopy LittleEndian PageArray

/-! ## Ranges -/

inductive BytePayloadLayout where
  | u32LengthPrefixed
  | leb128LengthPrefixed
  deriving DecidableEq, Repr

/-- `ArrowStringValidationPolicy`. -/
inductive ArrowStringValidationPolicy where
  | strict
  | strictOrCachedProof
  | trustedPageProof
  deriving DecidableEq, Repr

/-- `read_u32_len_prefixed_range`. -/
def readU32LenPrefixedRange (bytes : List UInt8) (offset : Nat) : Except Fault (Nat × Nat) :=
  Fault.lift do
    let dataStart ← checkedAdd offset 4
    if dataStart > bytes.length then .error .offsetRange
    else
      let len := ofLe (readAt bytes offset 4)
      let dataEnd ← checkedAdd dataStart len
      if dataEnd > bytes.length then .error .offsetRange else .ok (dataStart, dataEnd)

/-- `read_leb128_len_prefixed_range`. -/
def readLeb128LenPrefixedRange (bytes : List UInt8) (offset : Nat) : Except Fault (Nat × Nat) :=
  if offset > bytes.length then .error (.error .offsetRange)
  else do
    let (value, consumed) ← varintAt bytes offset
    Fault.lift do
      let len ← usizeTryFrom value
      let dataStart ← checkedAdd offset consumed
      let dataEnd ← checkedAdd dataStart len
      if dataEnd > bytes.length then .error .offsetRange else .ok (dataStart, dataEnd)

/-- The range of a row, by the layout. -/
def BytePayloadLayout.readRange (layout : BytePayloadLayout) (data : List UInt8) (pos : Nat) :
    Except Fault (Nat × Nat) :=
  match layout with
  | .u32LengthPrefixed => readU32LenPrefixedRange data pos
  | .leb128LengthPrefixed => readLeb128LenPrefixedRange data pos

/-- The loop of `parse_ranges`: the ranges of a number of rows, and where the last one ends. -/
def rangesLoop (read : Nat → Except Fault (Nat × Nat)) :
    Nat → Nat → Except Fault (List (Nat × Nat) × Nat)
  | 0, pos => .ok ([], pos)
  | n + 1, pos => do
    let (dataStart, dataEnd) ← read pos
    let (ranges, stop) ← rangesLoop read n dataEnd
    .ok ((dataStart, dataEnd) :: ranges, stop)

/-- `parse_ranges`. -/
def parseRanges (layout : BytePayloadLayout) (array : EncodedArray) :
    Except Fault (List (Nat × Nat)) := do
  let rowCount ← Fault.lift (usizeTryFrom array.rowCount)
  let (ranges, pos) ← rangesLoop (layout.readRange array.data) rowCount 0
  if pos ≠ array.data.length then .error (.error .pageCorrupt) else .ok ranges

/-- `ranges[row]`. -/
def rangeOf (ranges : List (Nat × Nat)) (row : Nat) : Except Fault (Nat × Nat) :=
  match ranges[row]? with
  | some range => .ok range
  | none => .error .panic

/-! ## Nulls -/

/-- `array_has_nulls`. -/
def arrayHasNulls (array : EncodedArray) : Except Fault Bool :=
  match array.validity with
  | some validity => do
    let count ← Fault.lift validity.nullCount
    .ok (decide (count > 0))
  | none => .ok false

/-- `has_nulls && array.is_null(row)?`. -/
def rowIsNull (array : EncodedArray) (hasNulls : Bool) (row : Nat) : Except Fault Bool :=
  if hasNulls then Fault.lift (array.isNull row) else .ok false

/-- `ArrowValidityBuilder`, with its packed bits as a list. -/
structure ArrowValidityBuilder where
  bits : List Bool
  nullCount : Nat
  deriving DecidableEq, Repr

/-- `append`. -/
def ArrowValidityBuilder.append (self : ArrowValidityBuilder) (isValid : Bool) :
    ArrowValidityBuilder where
  bits := self.bits ++ [isValid]
  nullCount := if isValid then self.nullCount else self.nullCount + 1

/-- `finish`: no null buffer without a null. -/
def ArrowValidityBuilder.finish (self : ArrowValidityBuilder) : Option (List Bool) :=
  if self.nullCount = 0 then none else some self.bits

/-- A builder when there are nulls to record. -/
def builderFor (wanted : Bool) : Option ArrowValidityBuilder :=
  if wanted then some ⟨[], 0⟩ else none

/-! ## The parts of an array -/

/-- `i32::MAX`. -/
def i32Max : Nat := 2 ^ 31 - 1

/-- `i32::try_from`. -/
def i32TryFrom (n : Nat) : Except CoveError Int :=
  if n ≤ i32Max then .ok n else .error .arithOverflow

/-- `as i32`. -/
def asI32 (n : Nat) : Int := (BitVec.ofNat 32 n).toInt

/-- The offsets, values and null bits of an array of bytes. -/
structure ByteParts where
  offsets : List Int
  values : List UInt8
  nulls : Option (List Bool)
  deriving DecidableEq, Repr

/-- What the loops that push to growing vectors hold. -/
structure PushedParts where
  offsets : List Int
  values : List UInt8
  validity : Option ArrowValidityBuilder
  deriving DecidableEq, Repr

/-- The vectors before the first row. -/
def PushedParts.start (hasNulls : Bool) : PushedParts := ⟨[0], [], builderFor hasNulls⟩

/-- The array of the vectors. -/
def PushedParts.finish (self : PushedParts) : ByteParts :=
  ⟨self.offsets, self.values, self.validity.bind ArrowValidityBuilder.finish⟩

/-- The bytes a row adds: none when it is null. -/
def sliceUnlessNull (data : List UInt8) (isNull : Bool) (range : Nat × Nat) :
    Except Fault (List UInt8) :=
  if isNull then .ok [] else Fault.slice data range.1 range.2

/-- One row pushed: its null bit, its bytes unless it is null, and the offset after it. -/
def PushedParts.pushRow (self : PushedParts) (array : EncodedArray) (hasNulls : Bool) (row : Nat)
    (range : Nat × Nat) : Except Fault PushedParts := do
  let isNull ← rowIsNull array hasNulls row
  let bytes ← sliceUnlessNull array.data isNull range
  let values := self.values ++ bytes
  let offset ← Fault.lift (i32TryFrom values.length)
  .ok ⟨self.offsets ++ [offset], values, self.validity.map (·.append (!isNull))⟩

/-! ## Whole pages -/

/-- The loop of `materialize_all_rows`, from `row` with `remaining` rows to go. -/
def allRowsLoop (layout : BytePayloadLayout) (array : EncodedArray) (hasNulls : Bool) :
    Nat → Nat → Nat → PushedParts → Except Fault (Nat × PushedParts)
  | 0, _, pos, parts => .ok (pos, parts)
  | remaining + 1, row, pos, parts => do
    let range ← layout.readRange array.data pos
    let parts ← parts.pushRow array hasNulls row range
    allRowsLoop layout array hasNulls remaining (row + 1) range.2 parts

/-- The values buffer and the offsets of the loops that copy to raw memory. -/
structure CopiedParts where
  offsets : List Int
  values : List UInt8
  sawNonAscii : Bool
  deriving DecidableEq, Repr

/-- One row copied to `write`, with the mask over it when it is to be validated. -/
def CopiedParts.copyRow (self : CopiedParts) (plain : List UInt8 → List UInt8 → Nat → List UInt8)
    (masked : List UInt8 → List UInt8 → Nat → List UInt8 × Nat) (validate : Bool)
    (data : List UInt8) (pos write len : Nat) : CopiedParts :=
  let src := readAt data pos len
  let dst := readAt self.values write len
  if validate then
    let (bytes, mask) := masked src dst len
    ⟨self.offsets ++ [asI32 (write + len)], writeAt self.values write bytes,
      self.sawNonAscii || mask != 0⟩
  else
    ⟨self.offsets ++ [asI32 (write + len)], writeAt self.values write (plain src dst len),
      self.sawNonAscii⟩

/-- Memory reserved for a number of values. Every byte is written before one is read. -/
def reserved (len : Nat) : List UInt8 := List.replicate len 0

/-- `fixed_u32_no_nulls_len`. -/
def fixedU32NoNullsLen (data : List UInt8) (rowCount : Nat) : Except CoveError (Option Nat) :=
  if rowCount = 0 then .ok none
  else if data.length < 4 then .error .offsetRange
  else do
    let fixedLen := ofLe (readAt data 0 4)
    let stride ← checkedAdd fixedLen 4
    let expectedLen ← checkedMul rowCount stride
    if expectedLen ≠ data.length then .ok none
    else if (List.range' 1 (rowCount - 1)).all fun row =>
        ofLe (readAt data (row * stride) 4) == fixedLen then
      .ok (some fixedLen)
    else .ok none

/-- The loop of `materialize_all_u32_no_nulls_impl`, from `pos` and `write` on. -/
def noNullsLoop (validate : Bool) (data : List UInt8) (valueLen : Nat) :
    Nat → Nat → Nat → CopiedParts → Except Fault (Nat × Nat × CopiedParts)
  | 0, pos, write, parts => .ok (pos, write, parts)
  | remaining + 1, pos, write, parts =>
    if pos > data.length - 4 then .error (.error .offsetRange)
    else
      let len := ofLe (readAt data pos 4)
      let pos := pos + 4
      if len > data.length - pos then .error (.error .offsetRange)
      else if len > valueLen - write then .error (.error .pageCorrupt)
      else
        let parts := parts.copyRow copyVarbytesValue copyVarbytesValueAsciiMask validate data pos
          write len
        noNullsLoop validate data valueLen remaining (pos + len) (write + len) parts

section Validation

-- `simdutf8::basic::from_utf8`, with the text of its error
variable (simdFromUtf8 : List UInt8 → Except String Unit)

/-- `validate_arrow_utf8`. -/
def validateArrowUtf8 (bytes : List UInt8) : Except CoveError Unit :=
  match simdFromUtf8 bytes with
  | .ok () => .ok ()
  | .error err => .error (.badSection s!"Arrow Utf8 export: {err}")

/-- `usize::try_from` on an offset. -/
def offsetToUsize (offset : Int) : Except CoveError Nat :=
  if offset < 0 then .error .offsetRange else .ok offset.toNat

/-- The loop of `validate_utf8_offsets_slice` over adjacent offsets. -/
def validateBoundaries (values : List UInt8) : List Int → Except CoveError Unit
  | first :: second :: rest => do
    let start ← offsetToUsize first
    let stop ← offsetToUsize second
    if start > stop ∨ stop > values.length then .error .offsetRange
    else if start ≠ 0 ∧ start ≠ stop ∧ Utf8.isContinuation ((values[start]?).getD 0) = true then
      .error (.badSection "Arrow Utf8 export: row boundary splits a UTF-8 codepoint")
    else validateBoundaries values (second :: rest)
  | _ => .ok ()

/-- `validate_utf8_offsets_slice`. -/
def validateUtf8OffsetsSlice (offsets : List Int) (values : List UInt8) : Except CoveError Unit := do
  validateBoundaries values offsets
  if values.all (· < 128) then .ok () else validateArrowUtf8 simdFromUtf8 values

/-- The parts, once their values are validated if they have to be. -/
def validatedParts (validate : Bool) (parts : ByteParts) : Except Fault ByteParts :=
  if validate then do
    Fault.lift (validateUtf8OffsetsSlice simdFromUtf8 parts.offsets parts.values)
    .ok parts
  else .ok parts

/-- What the copying paths give, validated when a byte above 127 was copied. -/
def CopiedParts.finish (self : CopiedParts) (validate : Bool) : Except Fault ByteParts :=
  validatedParts simdFromUtf8 (validate && self.sawNonAscii) ⟨self.offsets, self.values, none⟩

/-- `materialize_all_u32_no_nulls_fixed_impl`. -/
def materializeAllU32NoNullsFixed (validate : Bool) (data : List UInt8) (rowCount fixedLen : Nat) :
    Except Fault ByteParts := do
  let valueLen ← Fault.lift (checkedMul rowCount fixedLen)
  if valueLen > i32Max then .error (.error .arithOverflow)
  else do
    let _offsetCapacity ← Fault.lift (checkedAdd rowCount 1)
    let stride ← Fault.lift (checkedAdd fixedLen 4)
    let copyRow (parts : CopiedParts) (row : Nat) : CopiedParts :=
      parts.copyRow copyFixedVarbytesValue copyFixedVarbytesValueAsciiMask validate data
        (row * stride + 4) (row * fixedLen) fixedLen
    let parts := (List.range rowCount).foldl copyRow ⟨[0], reserved valueLen, false⟩
    parts.finish simdFromUtf8 validate

/-- The length of all rows, when they are of one length. Large pages are not scanned for it. -/
def detectFixedLen (data : List UInt8) (rowCount : Nat) : Except CoveError (Option Nat) :=
  if rowCount ≤ 16 ∧ data.length ≤ 1024 then fixedU32NoNullsLen data rowCount else .ok none

/-- `materialize_all_u32_no_nulls_impl`. -/
def materializeAllU32NoNulls (validate : Bool) (array : EncodedArray) (rowCount : Nat) :
    Except Fault ByteParts := do
  let data := array.data
  match ← Fault.lift (detectFixedLen data rowCount) with
  | some fixedLen => materializeAllU32NoNullsFixed simdFromUtf8 validate data rowCount fixedLen
  | none => do
    let prefixBytes ← Fault.lift (checkedMul rowCount 4)
    if prefixBytes > data.length then .error (.error .offsetRange)
    else
      let valueLen := data.length - prefixBytes
      if valueLen > i32Max then .error (.error .arithOverflow)
      else do
        let _offsetCapacity ← Fault.lift (checkedAdd rowCount 1)
        let (pos, write, parts) ←
          noNullsLoop validate data valueLen rowCount 0 0 ⟨[0], reserved valueLen, false⟩
        if pos ≠ data.length ∨ write ≠ valueLen then .error (.error .pageCorrupt)
        else parts.finish simdFromUtf8 validate

/-- `materialize_all_rows`. -/
def materializeAllRows (layout : BytePayloadLayout) (array : EncodedArray) :
    Except Fault ByteParts := do
  let rowCount ← Fault.lift (usizeTryFrom array.rowCount)
  let hasNulls ← arrayHasNulls array
  if !hasNulls && layout == .u32LengthPrefixed then
    materializeAllU32NoNulls simdFromUtf8 false array rowCount
  else do
    let _offsetCapacity ← Fault.lift (checkedAdd rowCount 1)
    let (pos, parts) ←
      allRowsLoop layout array hasNulls rowCount 0 0 (.start hasNulls)
    if pos ≠ array.data.length then .error (.error .pageCorrupt) else .ok parts.finish

/-! ## Selected rows -/

/-- The first pass of `materialize_selected`: the length of the values, and whether a null is
among the rows. -/
def measureRow (array : EncodedArray) (hasNulls : Bool) (ranges : List (Nat × Nat))
    (state : Nat × Bool) (row : Nat) : Except Fault (Nat × Bool) := do
  let isNull ← rowIsNull array hasNulls row
  if isNull then .ok (state.1, true)
  else do
    let (start, stop) ← rangeOf ranges row
    if stop < start then .error (.error .pageCorrupt)
    else do
      let valueLen ← Fault.lift (checkedAdd state.1 (stop - start))
      .ok (valueLen, state.2)

/-- What the second pass holds: where it writes, and the parts so far. -/
structure SelectedParts where
  write : Nat
  offsets : List Int
  values : List UInt8
  validity : Option ArrowValidityBuilder
  deriving DecidableEq, Repr

/-- The second pass of `materialize_selected`: the rows copied into the reserved values. -/
def copySelectedRow (array : EncodedArray) (hasNulls : Bool) (ranges : List (Nat × Nat))
    (valueLen : Nat) (state : SelectedParts) (row : Nat) : Except Fault SelectedParts := do
  let isNull ← rowIsNull array hasNulls row
  let validity := state.validity.map (·.append (!isNull))
  if isNull then do
    let offset ← Fault.lift (i32TryFrom state.write)
    .ok { state with offsets := state.offsets ++ [offset], validity }
  else do
    let (start, stop) ← rangeOf ranges row
    if stop < start then .error (.error .pageCorrupt)
    else do
      let next ← Fault.lift (checkedAdd state.write (stop - start))
      if next > valueLen then .error (.error .pageCorrupt)
      else do
        let values := writeAt state.values state.write (readAt array.data start (stop - start))
        let offset ← Fault.lift (i32TryFrom next)
        .ok { write := next, offsets := state.offsets ++ [offset], values, validity }

/-- `materialize_selected`. -/
def materializeSelected (array : EncodedArray) (selection : ArrowRowSelection)
    (ranges : List (Nat × Nat)) : Except Fault ByteParts := do
  let selectedLen ← Fault.lift (selection.selectedLen array.rowCount)
  let hasNulls ← arrayHasNulls array
  let (valueLen, anyNull) ←
    selection.forEachRow array.rowCount (measureRow array hasNulls ranges) (0, false)
  let _fits ← Fault.lift (i32TryFrom valueLen)
  let _offsetCapacity ← Fault.lift (checkedAdd selectedLen 1)
  let parts ← selection.forEachRow array.rowCount
    (copySelectedRow array hasNulls ranges valueLen) ⟨0, [0], reserved valueLen, builderFor anyNull⟩
  if parts.write ≠ valueLen then .error (.error .pageCorrupt)
  else .ok ⟨parts.offsets, parts.values, parts.validity.bind ArrowValidityBuilder.finish⟩

/-- `rows.windows(2).all(|pair| pair[0] < pair[1])`. -/
def isAscending (picks : List Nat) : Bool := (picks.zip picks.tail).all fun pair => pair.1 < pair.2

/-- The last row the forward pass has to reach, if it can take the selection. -/
def forwardLast (selection : ArrowRowSelection) (rowCount : Nat) : Except CoveError (Option Nat) :=
  match selection with
  | .rows picks =>
    if isAscending picks then
      match picks.getLast? with
      | none => .error .offsetRange
      | some last => if last ≥ rowCount then .error .offsetRange else .ok (some last)
    else .ok none
  | .bitset words len => do
    ArrowRowSelection.validateBitset words len rowCount
    match lastSelectedBitsetRow words len with
    | none => .error .offsetRange
    | some last => .ok (some last)
  | .all => .ok none

/-- Whether the forward pass takes a row, and the place in a list of rows it has come to. -/
def takesRow (selection : ArrowRowSelection) (nextRowIndex row : Nat) : Bool × Nat :=
  match selection with
  | .rows picks =>
    if picks[nextRowIndex]? = some row then (true, nextRowIndex + 1) else (false, nextRowIndex)
  | .bitset words _ => (bitsetRowSelected words row, nextRowIndex)
  | .all => (false, nextRowIndex)

/-- The loop of `materialize_selected_forward_u32`. -/
def forwardLoop (array : EncodedArray) (selection : ArrowRowSelection) (hasNulls : Bool) :
    Nat → Nat → Nat → Nat → PushedParts → Except Fault (Nat × PushedParts)
  | 0, _, _, pos, parts => .ok (pos, parts)
  | remaining + 1, row, nextRowIndex, pos, parts => do
    let range ← readU32LenPrefixedRange array.data pos
    let (selected, nextRowIndex) := takesRow selection nextRowIndex row
    if selected then do
      let parts ← parts.pushRow array hasNulls row range
      forwardLoop array selection hasNulls remaining (row + 1) nextRowIndex range.2 parts
    else forwardLoop array selection hasNulls remaining (row + 1) nextRowIndex range.2 parts

/-- `materialize_selected_forward_u32`. -/
def materializeSelectedForwardU32 (layout : BytePayloadLayout) (array : EncodedArray)
    (selection : ArrowRowSelection) : Except Fault (Option ByteParts) :=
  if layout ≠ .u32LengthPrefixed then .ok none
  else do
    let selectedLen ← Fault.lift (selection.selectedLen array.rowCount)
    if selectedLen = 0 then .ok (some ⟨[0], [], none⟩)
    else do
      match ← Fault.lift (forwardLast selection array.rowCount) with
      | none => .ok none
      | some lastSelected => do
        let hasNulls ← arrayHasNulls array
        let offsetCapacity ← Fault.lift (checkedAdd selectedLen 1)
        let (pos, parts) ←
          forwardLoop array selection hasNulls (lastSelected + 1) 0 0 0 (.start hasNulls)
        let rowCount ← Fault.lift (usizeTryFrom array.rowCount)
        if lastSelected + 1 = rowCount ∧ pos ≠ array.data.length then .error (.error .pageCorrupt)
        else if parts.offsets.length ≠ offsetCapacity then .error (.error .pageCorrupt)
        else .ok (some parts.finish)

/-! ## String arrays -/

/-- `materialize`. -/
def materialize (layout : BytePayloadLayout) (array : EncodedArray)
    (selection : ArrowRowSelection) : Except Fault ByteParts :=
  if selection = .all then materializeAllRows simdFromUtf8 layout array
  else do
    match ← materializeSelectedForwardU32 layout array selection with
    | some parts => .ok parts
    | none => do
      let ranges ← parseRanges layout array
      materializeSelected array selection ranges

/-- Whether the policy has the values validated. -/
def ArrowStringValidationPolicy.validates : ArrowStringValidationPolicy → Bool
  | .strict | .strictOrCachedProof => true
  | .trustedPageProof => false

/-- `materialize_utf8`. -/
def materializeUtf8 (layout : BytePayloadLayout) (array : EncodedArray)
    (selection : ArrowRowSelection) (policy : ArrowStringValidationPolicy) :
    Except Fault ByteParts := do
  let rowCount ← Fault.lift (usizeTryFrom array.rowCount)
  let hasNulls ← arrayHasNulls array
  if selection = .all ∧ hasNulls = false ∧ layout = .u32LengthPrefixed then
    materializeAllU32NoNulls simdFromUtf8 policy.validates array rowCount
  else do
    let parts ← materialize simdFromUtf8 layout array selection
    validatedParts simdFromUtf8 policy.validates parts

end Validation

end Arrow

end Cove
