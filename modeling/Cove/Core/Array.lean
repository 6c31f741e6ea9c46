import Cove.Core.Canonical
import Cove.Core.Types

/-!
# Column pages and their values

- `FileDictionary.decodeValue`: the value behind a file code.
- `CoveArrayValue`: what a row of a page decodes to.
- `EncodedArray.isNull`: the null bitmap of a page.
-/

namespace Cove

/-- A decoded dictionary value. -/
inductive DictionaryValue where
  | rawBytes (bytes : List UInt8)
  | redactedPresent
  deriving DecidableEq, Repr

/-- An entry of the file dictionary, with the value its storage decodes to. -/
structure DictionaryEntry where
  valueTag : ValueTag
  value : DictionaryValue
  deriving DecidableEq, Repr

/-- The file dictionary, by file code. -/
structure FileDictionary where
  entries : List DictionaryEntry
  deriving DecidableEq, Repr

namespace FileDictionary

/-- `get_entry`. -/
def getEntry (d : FileDictionary) (fileCode : Nat) : Except CoveError DictionaryEntry :=
  match d.entries[fileCode]? with
  | some entry => .ok entry
  | none => .error .badFileCode

/-- `decode_value`. -/
def decodeValue (d : FileDictionary) (fileCode : Nat) : Except CoveError DictionaryValue :=
  (d.getEntry fileCode).map DictionaryEntry.value

end FileDictionary

inductive CoveEncodingKind where
  | canonical
  | validity
  | constant
  | fileCode
  | numCode
  | localCodebook
  | rle
  | runEnd
  | bitPacked
  | delta
  | frameOfReference
  | patchedBase
  | sparse
  | sequence
  | plainFixed
  | plainVarint
  | varBytes
  | lz4Block
  | zstdBlock
  | registeredEncoding
  deriving DecidableEq, Repr

/-- A decoded value. -/
inductive CoveArrayValue where
  | null
  | bytes (bytes : List UInt8)
  | ownedBytes (bytes : List UInt8)
  | varint (v : BitVec 64)
  | int64 (v : BitVec 64)
  | fileCode (code : Nat)
  | dictValue (v : DictionaryValue)
  | numCode (code : BitVec 64)
  | boolean (b : Bool)
  | validityBit (b : Bool)
  deriving DecidableEq, Repr

/-- `ValidityBitmap`: bit one marks a null row. -/
structure ValidityBitmap where
  bytes : List UInt8
  rowCount : Nat
  deriving DecidableEq, Repr

def ValidityBitmap.isNull (self : ValidityBitmap) (row : Nat) : Except CoveError Bool :=
  if row ≥ self.rowCount then .error .offsetRange
  else
    match self.bytes[row / 8]? with
    | some byte => .ok (byte.toNat.testBit (row % 8))
    | none => .error .offsetRange

/-- An encoded page. -/
structure EncodedArray where
  logical : CoveLogicalType
  physical : CovePhysicalKind
  rowCount : Nat
  encoding : CoveEncodingKind
  validity : Option ValidityBitmap
  data : List UInt8
  dictionary : Option FileDictionary
  deriving DecidableEq, Repr

def EncodedArray.isNull (self : EncodedArray) (row : Nat) : Except CoveError Bool :=
  if row ≥ self.rowCount then .error .offsetRange
  else
    match self.validity with
    | some bm => bm.isNull row
    | none => .ok false

/-- `wire::read_range_checked`. -/
def readRangeChecked (bytes : List UInt8) (offset len : Nat) : Except CoveError (List UInt8) := do
  let stop ← checkedAdd offset len
  if stop > bytes.length then .error .offsetRange
  else .ok ((bytes.drop offset).take len)

end Cove
