import Cove.Core.PagePayload
import Cove.Lib.ByteBits
import Cove.Lib.Runs

/-!
# Encodings of a column page

Each encoding reads its payload from bytes and decodes it to integers, by a reference decoder and
by a fast one.

- `Encoding`: what the encodings share.
- `Encoding.rle`, `runEnd`, `sparse`, `patchedBase`, `frameOfReference`, `delta`, `bitPacked`,
  `constant`: rows of 64-bit integers.
- `Encoding.localCodebook`: rows that are indexes into distinct values of one kind.
-/

namespace Cove

open Checked
open SegmentPayload (physicalKindFromU8)

/-- `trait Encoding`, with the parser of its payloads. -/
structure Encoding where
  Payload : Type
  parse : List UInt8 → Except Fault Payload
  canonicalDecode : Payload → Except Fault (List (BitVec 64))
  fastDecode : Payload → Except Fault (List (BitVec 64))

namespace Encoding

/-- `u32::MAX`. -/
def u32Max : Nat := 2 ^ 32 - 1

/-- `i64::from_le_bytes` of a field. -/
def i64At (bytes : List UInt8) (offset : Nat) : BitVec 64 := BitVec.ofNat 64 (fieldNat bytes offset 8)

/-! ## Constant -/

structure ConstantPayload where
  value : BitVec 64
  rowCount : Nat
  deriving DecidableEq, Repr

/-- `ConstantPayload::ENCODED_LEN`. -/
def ConstantPayload.encodedLen : Nat := 16

def ConstantPayload.parse (bytes : List UInt8) : Except CoveError ConstantPayload :=
  if bytes.length < encodedLen then .error .bufferTooShort
  else
    let rowCount := fieldNat bytes 8 8
    if rowCount > u32Max then .error .pageCorrupt
    else .ok { value := i64At bytes 0, rowCount }

def constant : Encoding where
  Payload := ConstantPayload
  parse bytes := Fault.lift (ConstantPayload.parse bytes)
  canonicalDecode payload := .ok (List.replicate payload.rowCount payload.value)
  fastDecode payload := .ok (List.replicate payload.rowCount payload.value)

/-! ## Run lengths -/

structure RlePayload where
  runs : List (BitVec 64 × Nat)
  deriving DecidableEq, Repr

namespace RlePayload

/-- The value and the length of the run with a number. -/
def runAt (bytes : List UInt8) (i : Nat) : BitVec 64 × Nat :=
  let off := 4 + i * 12
  (i64At bytes off, fieldNat bytes (off + 8) 4)

/-- The checks of the parser's loop, and the sum of the lengths. -/
def checkRuns (total : Nat) (prevValue : Option (BitVec 64)) :
    List (BitVec 64 × Nat) → Except CoveError Nat
  | [] => .ok total
  | (v, len) :: runs =>
    if len = 0 then .error .pageCorrupt
    else if prevValue = some v then .error .pageCorrupt
    else do
      let total ← checkedAdd total len
      checkRuns total (some v) runs

def parse (bytes : List UInt8) : Except CoveError RlePayload :=
  if bytes.length < 4 then .error .bufferTooShort
  else
    let runCount := fieldNat bytes 0 4
    let need := 4 + runCount * 12
    if bytes.length < need then .error .bufferTooShort
    else do
      let runs := (List.range runCount).map (runAt bytes)
      let total ← checkRuns 0 none runs
      if total > u32Max then .error .pageCorrupt else .ok { runs }

end RlePayload

/-- `Vec::resize`. -/
def resize (rows : List (BitVec 64)) (size : Nat) (value : BitVec 64) : List (BitVec 64) :=
  rows.take size ++ List.replicate (size - rows.length) value

/-- The loop of both run-length decoders. -/
def extendRuns (runs : List (BitVec 64 × Nat)) : Except Fault (List (BitVec 64)) :=
  runs.foldlM (fun out run => do
    let size ← addU64 Fault.panic out.length run.2
    .ok (resize out size run.1)) []

/-- The capacity both run-length decoders ask for first. -/
def sumLengths (runs : List (BitVec 64 × Nat)) : Except Fault Nat :=
  runs.foldlM (fun total run => addU64 Fault.panic total run.2) 0

def rle : Encoding where
  Payload := RlePayload
  parse bytes := Fault.lift (RlePayload.parse bytes)
  canonicalDecode payload := do
    let _ ← sumLengths payload.runs
    extendRuns payload.runs
  fastDecode payload := do
    let _ ← sumLengths payload.runs
    extendRuns payload.runs

/-! ## Run ends -/

structure RunEndPayload where
  values : List (BitVec 64)
  runEnds : List Nat
  deriving DecidableEq, Repr

namespace RunEndPayload

/-- The check of the parser's second loop. -/
def checkEnds (prev : Nat) : List Nat → Except CoveError Unit
  | [] => .ok ()
  | stop :: stops => if stop ≤ prev then .error .pageCorrupt else checkEnds stop stops

def parse (bytes : List UInt8) : Except CoveError RunEndPayload :=
  if bytes.length < 4 then .error .bufferTooShort
  else
    let n := fieldNat bytes 0 4
    let need := 4 + n * 8 + n * 4
    if bytes.length < need then .error .bufferTooShort
    else do
      let values := (List.range n).map fun i => i64At bytes (4 + i * 8)
      let runEnds := (List.range n).map fun i => fieldNat bytes (4 + n * 8 + i * 4) 4
      checkEnds 0 runEnds
      .ok { values, runEnds }

end RunEndPayload

def runEnd : Encoding where
  Payload := RunEndPayload
  parse bytes := Fault.lift (RunEndPayload.parse bytes)
  canonicalDecode payload := decode payload
  fastDecode payload := decode payload
where
  decode (payload : RunEndPayload) : Except Fault (List (BitVec 64)) :=
    if payload.values.length ≠ payload.runEnds.length then .error (.error .pageCorrupt)
    else
      -- The loop carries the rows so far and where the next run starts.
      .ok ((payload.values.zip payload.runEnds).foldl
        (fun state run => (state.1 ++ List.replicate (run.2 - state.2) run.1, run.2)) ([], 0)).1

/-! ## Sparse rows and patched rows -/

/-- The value and the place of the entry of an override table with a number. -/
def overrideAt (bytes : List UInt8) (start i : Nat) : Nat × BitVec 64 :=
  let off := start + i * 12
  (fieldNat bytes off 4, i64At bytes (off + 4))

/-- The checks of both parsers' loops over an override table. -/
def checkOverrides (rowCount : Nat) (prev : Option Nat) :
    List (Nat × BitVec 64) → Except CoveError Unit
  | [] => .ok ()
  | (p, _) :: overrides =>
    if prev.any (fun prevPos => p ≤ prevPos) then .error .pageCorrupt
    else if p ≥ rowCount then .error .pageCorrupt
    else checkOverrides rowCount (some p) overrides

structure SparsePayload where
  rowCount : Nat
  fill : BitVec 64
  overrides : List (Nat × BitVec 64)
  deriving DecidableEq, Repr

def SparsePayload.parse (bytes : List UInt8) : Except CoveError SparsePayload :=
  if bytes.length < 16 then .error .bufferTooShort
  else
    let rowCount := fieldNat bytes 0 4
    let oc := fieldNat bytes 12 4
    let need := 16 + oc * 12
    if bytes.length < need then .error .bufferTooShort
    else do
      let overrides := (List.range oc).map (overrideAt bytes 16)
      checkOverrides rowCount none overrides
      .ok { rowCount, fill := i64At bytes 4, overrides }

/-- `out[p] = v` has no check of its own. -/
def sparse : Encoding where
  Payload := SparsePayload
  parse bytes := Fault.lift (SparsePayload.parse bytes)
  canonicalDecode payload := decode payload
  fastDecode payload := decode payload
where
  decode (payload : SparsePayload) : Except Fault (List (BitVec 64)) :=
    Runs.writeAll Fault.panic (List.replicate payload.rowCount payload.fill) payload.overrides

structure PatchedBasePayload where
  base : List (BitVec 64)
  patches : List (Nat × BitVec 64)
  deriving DecidableEq, Repr

def PatchedBasePayload.parse (bytes : List UInt8) : Except CoveError PatchedBasePayload :=
  if bytes.length < 4 then .error .bufferTooShort
  else
    let n := fieldNat bytes 0 4
    if bytes.length < 4 + n * 8 + 4 then .error .bufferTooShort
    else
      let base := (List.range n).map fun i => i64At bytes (4 + i * 8)
      let pc := fieldNat bytes (4 + n * 8) 4
      let start := 4 + n * 8 + 4
      if bytes.length < start + pc * 12 then .error .bufferTooShort
      else do
        let patches := (List.range pc).map (overrideAt bytes start)
        checkOverrides n none patches
        .ok { base, patches }

/-- The decoder checks each place again. -/
def patchedBase : Encoding where
  Payload := PatchedBasePayload
  parse bytes := Fault.lift (PatchedBasePayload.parse bytes)
  canonicalDecode payload := decode payload
  fastDecode payload := decode payload
where
  decode (payload : PatchedBasePayload) : Except Fault (List (BitVec 64)) :=
    Runs.writeAll (Fault.error .pageCorrupt) payload.base payload.patches

/-! ## Offsets from a value -/

structure ForPayload where
  reference : BitVec 64
  offsets : List (BitVec 64)
  deriving DecidableEq, Repr

def ForPayload.parse (bytes : List UInt8) : Except CoveError ForPayload :=
  if bytes.length < 12 then .error .bufferTooShort
  else
    let n := fieldNat bytes 8 4
    let need := 12 + n * 8
    if bytes.length < need then .error .bufferTooShort
    else
      let offsets := (List.range n).map fun i => i64At bytes (12 + i * 8)
      .ok { reference := i64At bytes 0, offsets }

def frameOfReference : Encoding where
  Payload := ForPayload
  parse bytes := Fault.lift (ForPayload.parse bytes)
  canonicalDecode payload := decode payload
  fastDecode payload := decode payload
where
  -- `wrapping_add` is the addition of bit vectors.
  decode (payload : ForPayload) : Except Fault (List (BitVec 64)) :=
    .ok (payload.offsets.map fun o => payload.reference + o)

structure DeltaPayload where
  base : BitVec 64
  deltas : List (BitVec 64)
  deriving DecidableEq, Repr

/-- `zigzag_decode_i64`. -/
def zigzagDecodeI64 (value : BitVec 64) : BitVec 64 := (value >>> 1) ^^^ (-(value &&& 1))

/-- The loop of the parser, over the bytes it has not read. -/
def readDeltas : Nat → List UInt8 → Except CoveError (List (BitVec 64))
  | 0, _ => .ok []
  | n + 1, bytes => do
    let (z, used) ← decodeLeb128From 0 0 0 bytes
    let deltas ← readDeltas n (bytes.drop used)
    .ok (zigzagDecodeI64 (BitVec.ofNat 64 z) :: deltas)

def DeltaPayload.parse (bytes : List UInt8) : Except CoveError DeltaPayload :=
  if bytes.length < 12 then .error .bufferTooShort
  else do
    let deltas ← readDeltas (fieldNat bytes 8 4) (bytes.drop 12)
    .ok { base := i64At bytes 0, deltas }

def delta : Encoding where
  Payload := DeltaPayload
  parse bytes := Fault.lift (DeltaPayload.parse bytes)
  canonicalDecode payload := decode payload
  fastDecode payload := decode payload
where
  decode (payload : DeltaPayload) : Except Fault (List (BitVec 64)) :=
    .ok (payload.deltas.foldl (fun state d => (state.1 ++ [state.2 + d], state.2 + d))
      ([payload.base], payload.base)).1

/-! ## Packed bits -/

structure BitPackedPayload where
  bitsPerValue : Nat
  rowCount : Nat
  bits : List UInt8
  deriving DecidableEq, Repr

def BitPackedPayload.parse (bytes : List UInt8) : Except CoveError BitPackedPayload :=
  if bytes.length < 9 then .error .bufferTooShort
  else
    let bpv := fieldNat bytes 0 1
    if ¬ (1 ≤ bpv ∧ bpv ≤ 63) then .error .pageCorrupt
    else
      let rowCount := fieldNat bytes 1 4
      let byteLen := fieldNat bytes 5 4
      if bytes.length < 9 + byteLen then .error .bufferTooShort
      else
        let needBytes := (rowCount * bpv + 7) / 8
        if byteLen < needBytes then .error .pageCorrupt
        else .ok { bitsPerValue := bpv, rowCount, bits := fieldBytes bytes 9 byteLen }

namespace BitPackedPayload

/-- The value at a bit of a loaded word. -/
def extract (word bitOff bpv : Nat) : BitVec 64 :=
  BitVec.ofNat 64 ((word >>> bitOff) &&& (2 ^ bpv - 1))

/-- One round of the reference decoder, over 16 bytes padded with zeros. -/
def canonicalStep (self : BitPackedPayload) (state : List (BitVec 64) × Nat) (r : Nat) :
    Except Fault (List (BitVec 64) × Nat) :=
  let byteOff := state.2 / 8
  if byteOff ≥ self.bits.length then .error (.error .pageCorrupt)
  else do
    let word := LittleEndian.ofLe (fieldBytes self.bits byteOff 16)
    let out := state.1 ++ [extract word (state.2 % 8) self.bitsPerValue]
    let bitPos ← mulU64 (Fault.error .arithOverflow) (r + 1) self.bitsPerValue
    .ok (out, bitPos)

def canonicalDecode (self : BitPackedPayload) : Except Fault (List (BitVec 64)) := do
  let state ← (List.range self.rowCount).foldlM self.canonicalStep ([], 0)
  .ok state.1

/-- One round of the fast decoder, over 8 bytes padded with zeros. -/
def fastStep (self : BitPackedPayload) (state : List (BitVec 64) × Nat) (_r : Nat) :
    Except Fault (List (BitVec 64) × Nat) :=
  let byteOff := state.2 / 8
  let avail := min (self.bits.length - byteOff) 8
  if byteOff + avail > self.bits.length then .error .panic
  else do
    let word := LittleEndian.ofLe (fieldBytes self.bits byteOff avail)
    let out := state.1 ++ [extract word (state.2 % 8) self.bitsPerValue]
    let bitPos ← addU64 Fault.panic state.2 self.bitsPerValue
    .ok (out, bitPos)

def fastDecode (self : BitPackedPayload) : Except Fault (List (BitVec 64)) :=
  if self.bitsPerValue > 32 then self.canonicalDecode
  else do
    let state ← (List.range self.rowCount).foldlM self.fastStep ([], 0)
    .ok state.1

end BitPackedPayload

def bitPacked : Encoding where
  Payload := BitPackedPayload
  parse bytes := Fault.lift (BitPackedPayload.parse bytes)
  canonicalDecode := BitPackedPayload.canonicalDecode
  fastDecode := BitPackedPayload.fastDecode

/-! ## Local codebooks -/

inductive LocalIndexPayload where
  | rle (payload : RlePayload)
  | bitPacked (payload : BitPackedPayload)
  deriving DecidableEq, Repr

/-- The fast decoder of the child payload. -/
def LocalIndexPayload.fastDecode : LocalIndexPayload → Except Fault (List (BitVec 64))
  | rle payload => Encoding.rle.fastDecode payload
  | bitPacked payload => Encoding.bitPacked.fastDecode payload

/-- `LocalIndexPayload::decode_local_indexes`. A negative number has its highest bit set. -/
def LocalIndexPayload.decodeLocalIndexes (self : LocalIndexPayload) : Except Fault (List Nat) := do
  let decoded ← self.fastDecode
  decoded.mapM fun value =>
    if value.toNat ≤ u32Max then .ok value.toNat else .error (.error .pageCorrupt)

inductive LocalCodebookValueKind where
  | fileCode
  | numCode
  | boolean
  | varBytes
  deriving DecidableEq, Repr

/-- `LocalCodebookValueKind::from_raw`. -/
def LocalCodebookValueKind.fromRaw (raw : Nat) : Except CoveError LocalCodebookValueKind :=
  match if raw < 256 then physicalKindFromU8 raw else none with
  | some .fileCode => .ok fileCode
  | some .numCode => .ok numCode
  | some .boolean => .ok boolean
  | some .varBytes => .ok varBytes
  | _ => .error (.unsupportedEncoding s!"LocalCodebook value physical kind {raw}")

inductive LocalCodebookValue where
  | fileCode (code : Nat)
  | numCode (code : BitVec 64)
  | boolean (b : Bool)
  | varBytes (bytes : List UInt8)
  deriving DecidableEq, Repr

inductive LocalCodebookValues where
  | fileCode (values : List Nat)
  | numCode (values : List (BitVec 64))
  | boolean (values : List Bool)
  | varBytes (values : List (List UInt8))
  deriving DecidableEq, Repr

namespace LocalCodebookValues

def kind : LocalCodebookValues → LocalCodebookValueKind
  | fileCode _ => .fileCode
  | numCode _ => .numCode
  | boolean _ => .boolean
  | varBytes _ => .varBytes

def len : LocalCodebookValues → Nat
  | fileCode values => values.length
  | numCode values => values.length
  | boolean values => values.length
  | varBytes values => values.length

/-- A strict boolean byte. -/
def parseBoolean (byte : UInt8) : Except CoveError Bool :=
  if byte = 0 then .ok false else if byte = 1 then .ok true else .error .pageCorrupt

/-- The loop over length-prefixed values, and the bytes it leaves. -/
def readVarBytes : Nat → List UInt8 → Except CoveError (List (List UInt8) × List UInt8)
  | 0, bytes => .ok ([], bytes)
  | n + 1, bytes =>
    if bytes.length < 4 then .error .bufferTooShort
    else
      let length := fieldNat bytes 0 4
      if bytes.length < 4 + length then .error .bufferTooShort
      else do
        let (values, rest) ← readVarBytes n (bytes.drop (4 + length))
        .ok (fieldBytes bytes 4 length :: values, rest)

def parse (kind : LocalCodebookValueKind) (codebookLen : Nat) (bytes : List UInt8) :
    Except CoveError LocalCodebookValues :=
  match kind with
  | .fileCode => do
    let expected ← checkedMul codebookLen 4
    if bytes.length ≠ expected then .error .pageCorrupt
    else .ok (fileCode ((chunksExact 4 bytes).map LittleEndian.ofLe))
  | .numCode => do
    let expected ← checkedMul codebookLen 8
    if bytes.length ≠ expected then .error .pageCorrupt
    else .ok (numCode ((chunksExact 8 bytes).map fun chunk => i64At chunk 0))
  | .boolean =>
    if bytes.length ≠ codebookLen then .error .pageCorrupt
    else (bytes.mapM parseBoolean).map boolean
  | .varBytes => do
    let (values, rest) ← readVarBytes codebookLen bytes
    if rest ≠ [] then .error .pageCorrupt else .ok (varBytes values)

/-- `values.get(index)` with `PageCorrupt`. -/
def pick {α : Type} (values : List α) (index : Nat) : Except CoveError α :=
  match values[index]? with
  | some value => .ok value
  | none => .error .pageCorrupt

def valueAt (self : LocalCodebookValues) (index : Nat) : Except CoveError LocalCodebookValue :=
  match self with
  | fileCode values => (pick values index).map .fileCode
  | numCode values => (pick values index).map .numCode
  | boolean values => (pick values index).map .boolean
  | varBytes values => (pick values index).map .varBytes

end LocalCodebookValues

structure LocalCodebookPayload where
  values : LocalCodebookValues
  indexes : LocalIndexPayload
  deriving DecidableEq, Repr

namespace LocalCodebookPayload

/-- The child payload of the kinds `LocalIndexEncoding` has. -/
def parseIndexes (childRaw : Nat) (childBytes : List UInt8) : Except CoveError LocalIndexPayload :=
  match CoveEncodingKind.fromU16 childRaw with
  | some .rle => (RlePayload.parse childBytes).map .rle
  | some .bitPacked => (BitPackedPayload.parse childBytes).map .bitPacked
  | _ => .error (.unsupportedEncoding s!"LocalCodebook child encoding {childRaw}")

def parse (bytes : List UInt8) : Except Fault LocalCodebookPayload :=
  if bytes.length < 12 then .error (.error .bufferTooShort)
  else do
    let valueKind ← Fault.lift (LocalCodebookValueKind.fromRaw (fieldNat bytes 2 2))
    let codebookLen := fieldNat bytes 4 4
    let childLen := fieldNat bytes 8 4
    if childLen > bytes.length - 12 then .error (.error .bufferTooShort)
    else
      let childStart := bytes.length - childLen
      let values ← Fault.lift
        (LocalCodebookValues.parse valueKind codebookLen (fieldBytes bytes 12 (childStart - 12)))
      let indexes ← Fault.lift (parseIndexes (fieldNat bytes 0 2) (bytes.drop childStart))
      let decoded ← indexes.decodeLocalIndexes
      if decoded.any (fun index => index ≥ values.len) then .error (.error .pageCorrupt)
      else .ok { values, indexes }

def decodeValues (self : LocalCodebookPayload) : Except Fault (List LocalCodebookValue) := do
  let indexes ← self.indexes.decodeLocalIndexes
  indexes.mapM fun index => Fault.lift (self.values.valueAt index)

/-- The rows of a codebook of one kind: `decode_file_codes` and its siblings. -/
def decodeKind {α : Type} (self : LocalCodebookPayload) (values : List α) :
    Except Fault (List α) := do
  let indexes ← self.indexes.decodeLocalIndexes
  indexes.mapM fun index => Fault.lift (LocalCodebookValues.pick values index)

def decodeFileCodes (self : LocalCodebookPayload) : Except Fault (List Nat) :=
  match self.values with
  | .fileCode values => self.decodeKind values
  | _ => .error (.error (.unsupportedEncoding "LocalCodebook is not FileCode"))

def decodeNumCodes (self : LocalCodebookPayload) : Except Fault (List (BitVec 64)) :=
  match self.values with
  | .numCode values => self.decodeKind values
  | _ => .error (.error (.unsupportedEncoding "LocalCodebook is not NumCode"))

def decodeBooleans (self : LocalCodebookPayload) : Except Fault (List Bool) :=
  match self.values with
  | .boolean values => self.decodeKind values
  | _ => .error (.error (.unsupportedEncoding "LocalCodebook is not Boolean"))

/-- `i64::try_from` on a NumCode. -/
def i64OfNumCode (code : BitVec 64) : Except Fault (BitVec 64) :=
  if code.toNat < 2 ^ 63 then .ok code else .error (.error .pageCorrupt)

def decodeI64Values (self : LocalCodebookPayload) : Except Fault (List (BitVec 64)) :=
  match self.values with
  | .fileCode _ => do
    let codes ← self.decodeFileCodes
    .ok (codes.map (BitVec.ofNat 64))
  | .numCode _ => do
    let codes ← self.decodeNumCodes
    codes.mapM i64OfNumCode
  | .boolean _ => do
    let bits ← self.decodeBooleans
    .ok (bits.map fun b => if b then 1 else 0)
  | .varBytes _ => .error (.error (.unsupportedEncoding
      "LocalCodebook VarBytes cannot decode through the i64 Encoding API"))

end LocalCodebookPayload

def localCodebook : Encoding where
  Payload := LocalCodebookPayload
  parse := LocalCodebookPayload.parse
  canonicalDecode := LocalCodebookPayload.decodeI64Values
  fastDecode := LocalCodebookPayload.decodeI64Values

end Encoding

end Cove
