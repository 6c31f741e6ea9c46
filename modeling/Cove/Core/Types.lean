/-!
# Logical types and physical kinds
-/

namespace Cove

inductive CoveLogicalType where
  | null
  | bool
  | int8
  | int16
  | int32
  | int64
  | uint8
  | uint16
  | uint32
  | uint64
  | float32
  | float64
  | decimal64
  | decimal128
  | dateDays
  | timestampMicros
  | timestampNanos
  | utf8
  | binary
  | uuid
  | json
  | list
  | struct
  | map
  deriving DecidableEq, Repr

/-- `self as u16`. -/
def CoveLogicalType.code : CoveLogicalType → Nat
  | null => 0
  | bool => 1
  | int8 => 2
  | int16 => 3
  | int32 => 4
  | int64 => 5
  | uint8 => 6
  | uint16 => 7
  | uint32 => 8
  | uint64 => 9
  | float32 => 10
  | float64 => 11
  | decimal64 => 12
  | decimal128 => 13
  | dateDays => 14
  | timestampMicros => 15
  | timestampNanos => 16
  | utf8 => 17
  | binary => 18
  | uuid => 19
  | json => 20
  | list => 21
  | struct => 22
  | map => 23

inductive CovePhysicalKind where
  | fileCode
  | numCode
  | boolean
  | fixedBytes
  | varBytes
  | list
  | struct
  | map
  deriving DecidableEq, Repr

/-- `self as u8`. -/
def CovePhysicalKind.code : CovePhysicalKind → Nat
  | fileCode => 0
  | numCode => 1
  | boolean => 2
  | fixedBytes => 3
  | varBytes => 4
  | list => 5
  | struct => 6
  | map => 7

end Cove
