import Mathlib.Data.Prod.Lex
import Cove.Core.Types
import Cove.Lib.Json

/-!
# Object records

The records of a COVE-O file as the reader returns them: one entry of an object's
history, with the properties it carries.

- `RecordKind`, `CoveRecordRefV1`, `CoveObjectPropertyValue`, `CoveObjectRecord`.
- `recordSortKey`: the order in which the records of an object are replayed.
- `CoveObjectSurface`: the records of a file, with what the reader has checked of them.
-/

namespace Cove

/-- 16 bytes compared as bytes: the big-endian number they spell. -/
abbrev Id16 := Fin (2 ^ 128)

instance neZeroId16 : NeZero (2 ^ 128) := ⟨Nat.ne_of_gt (Nat.two_pow_pos 128)⟩

inductive RecordKind where
  | delta
  | snapshot
  | reservedLegacyMaterializedDelta
  | baseline
  | tombstone
  deriving DecidableEq, Repr

structure CoveRecordRefV1 where
  segmentId : Nat
  rowIndex : Nat
  targetKind : Nat
  deriving DecidableEq, Repr

structure CoveObjectPropertyValue where
  propertyId : Nat
  propertyName : Text
  logicalType : CoveLogicalType
  physicalKind : CovePhysicalKind
  flags : UInt32
  value : Json

structure CoveObjectRecord where
  objectTypeId : Nat
  objectTypeName : Text
  objectTypeFlags : UInt32
  segmentId : Nat
  rowIndex : Nat
  timestampUs : Int
  csn : Nat
  branchKey : Nat
  goid : Id16
  recordId : Id16
  recordKind : RecordKind
  prevRef : Option CoveRecordRefV1
  properties : List CoveObjectPropertyValue

/-- The key of an object: its type, branch and identity. -/
abbrev ObjectKey := Nat ×ₗ Nat ×ₗ Id16

/-- The key of a replay: time, commit number, place in the file, record. -/
abbrev SortKey := Int ×ₗ Nat ×ₗ Nat ×ₗ Nat ×ₗ Id16

def CoveObjectRecord.objectKey (r : CoveObjectRecord) : ObjectKey :=
  toLex (r.objectTypeId, toLex (r.branchKey, r.goid))

/-- `record_sort_key`. -/
def recordSortKey (r : CoveObjectRecord) : SortKey :=
  toLex (r.timestampUs, toLex (r.csn, toLex (r.segmentId, toLex (r.rowIndex, r.recordId))))

/-- The records of a file. Names and flags come from the type catalog, and the property
columns of a segment are distinct. -/
structure CoveObjectSurface where
  records : List CoveObjectRecord
  catalogued : ∀ r ∈ records, ∀ r' ∈ records, r.objectTypeId = r'.objectTypeId →
    r.objectTypeName = r'.objectTypeName ∧ r.objectTypeFlags = r'.objectTypeFlags
  distinct : ∀ r ∈ records, (r.properties.map (·.propertyId)).Nodup

end Cove
