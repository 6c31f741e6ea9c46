import Cove.Lib.LittleEndian
import Cove.Coverage.Entry

/-!
# Coverage sets and proofs

A coverage set lists the fragments that may hold rows of a predicate; a proof record and
a provider descriptor say how far it may be trusted.

- `CoverageSetV2.serialize`: the bytes a proof record's checksum covers.
- `CoverageProofRecordV2.validateAgainstCoverageSet`: record and set agree.
-/

namespace Cove

inductive CoverageProofStrengthV2 where
  | exactTight
  | exactConservative
  | probabilisticConservative
  | advisoryOnly
  | engineLocal
  | approximateMayUnderInclude
  deriving DecidableEq, Repr

namespace CoverageProofStrengthV2

def code : CoverageProofStrengthV2 → Nat
  | exactTight => 0
  | exactConservative => 1
  | probabilisticConservative => 2
  | advisoryOnly => 3
  | engineLocal => 4
  | approximateMayUnderInclude => 5

def allowsPruning : CoverageProofStrengthV2 → Bool
  | exactTight => true
  | exactConservative => true
  | probabilisticConservative => true
  | _ => false

end CoverageProofStrengthV2

inductive CoverageExactnessV2 where
  | exact
  | approximateOverInclusiveOnly
  | approximateMayUnderInclude
  | unknown
  deriving DecidableEq, Repr

namespace CoverageExactnessV2

def code : CoverageExactnessV2 → Nat
  | exact => 0
  | approximateOverInclusiveOnly => 1
  | approximateMayUnderInclude => 2
  | unknown => 255

def mayUnderInclude : CoverageExactnessV2 → Bool
  | approximateMayUnderInclude => true
  | unknown => true
  | _ => false

end CoverageExactnessV2

structure CoverageSetHeaderV2 where
  coverageSetId : Nat
  providerId : Nat
  granularity : CoverageGranularityV2
  proofStrength : CoverageProofStrengthV2
  exactness : CoverageExactnessV2
  flags : Nat
  predicateFormRef : Nat
  snapshotValidityRef : Nat
  totalFragmentCount : Nat
  coveredFragmentCount : Nat
  requiredFragmentCountEstimate : Nat
  coverageDegreePpm : Nat
  tightnessDegreePpm : Nat
  entriesOffset : Nat
  entriesLength : Nat
  deriving DecidableEq, Repr

structure CoverageSetV2 where
  header : CoverageSetHeaderV2
  entries : List CoverageSetEntryV2
  deriving DecidableEq, Repr

structure CoverageProofRecordV2 where
  providerId : Nat
  coverageSetId : Nat
  predicateFormRef : Nat
  proofStrength : CoverageProofStrengthV2
  exactness : CoverageExactnessV2
  granularity : CoverageGranularityV2
  nullSemantics : Nat
  snapshotValidityRef : Nat
  coverageSetChecksum : Nat
  deriving DecidableEq, Repr

structure CoverageProviderDescriptorV2 where
  providerId : Nat
  granularity : CoverageGranularityV2
  proofStrength : CoverageProofStrengthV2
  exactness : CoverageExactnessV2
  referencedTableId : Nat
  referencedColumnId : Nat
  nullSemantics : Nat
  snapshotValidityRef : Nat
  predicateFormRef : Nat
  deriving DecidableEq, Repr

/-! ## Bytes

The checksum function is a parameter: any function of the bytes. -/

section Bytes

open LittleEndian

variable (crc32c : List UInt8 → Nat)

/-- Append the checksum of a record, computed with a zero checksum field. -/
def withCrc (body : List UInt8) : List UInt8 := body ++ toLe 4 (crc32c (body ++ toLe 4 0))

def CoverageSetHeaderV2.serialize (h : CoverageSetHeaderV2) : List UInt8 :=
  withCrc crc32c <|
    toLe 4 h.coverageSetId ++ toLe 4 h.providerId ++
    toLe 1 h.granularity.code ++ toLe 1 h.proofStrength.code ++
    toLe 1 h.exactness.code ++ toLe 1 h.flags ++
    toLe 4 h.predicateFormRef ++ toLe 4 h.snapshotValidityRef ++
    toLe 8 h.totalFragmentCount ++ toLe 8 h.coveredFragmentCount ++
    toLe 8 h.requiredFragmentCountEstimate ++
    toLe 4 h.coverageDegreePpm ++ toLe 4 h.tightnessDegreePpm ++
    toLe 8 h.entriesOffset ++ toLe 8 h.entriesLength

def CoverageSetEntryV2.serialize (e : CoverageSetEntryV2) : List UInt8 :=
  withCrc crc32c <|
    toLe 2 e.targetKind.code ++ toLe 2 e.flags ++
    toLe 4 e.fileRef ++ toLe 4 e.tableId ++ toLe 4 e.segmentId ++ toLe 4 e.morselId ++
    toLe 4 e.pageRef ++ toLe 4 e.objectTypeId ++ toLe 4 e.pathRef ++
    toLe 4 e.dimensionalBucketRef ++ toLe 8 e.rowStart ++ toLe 8 e.rowCount ++
    toLe 4 e.rowOrdinalBitmapRef ++ toLe 4 e.byteRangeRef

/-- `CoverageSetV2::serialize`: the header is completed from the entries. -/
def CoverageSetV2.serialize (set : CoverageSetV2) : Except CoveError (List UInt8) := do
  validateCoverageEntries set.entries
  let entriesLength ← checkedMul set.entries.length 64
  if set.entries.length > set.header.totalFragmentCount then .error .badCoverage
  else
    let header := { set.header with
      coveredFragmentCount := set.entries.length
      entriesOffset := 72
      entriesLength := entriesLength }
    let _ ← checkedAdd 72 entriesLength
    .ok (header.serialize crc32c ++ set.entries.flatMap fun e => e.serialize crc32c)

/-- `coverage_set_payload_checksum`. -/
def coverageSetPayloadChecksum (bytes : List UInt8) : Nat := crc32c bytes

end Bytes

/-- The record names the set, agrees with its header and carries its checksum. -/
def CoverageProofRecordV2.validateAgainstCoverageSet (record : CoverageProofRecordV2)
    (set : CoverageSetV2) (actualChecksum : Nat) : Except CoveError Unit :=
  if record.coverageSetChecksum ≠ actualChecksum then .error .checksumMismatch
  else if record.coverageSetId ≠ set.header.coverageSetId ∨
      record.providerId ≠ set.header.providerId ∨
      record.predicateFormRef ≠ set.header.predicateFormRef ∨
      record.snapshotValidityRef ≠ set.header.snapshotValidityRef ∨
      record.proofStrength ≠ set.header.proofStrength ∨
      record.exactness ≠ set.header.exactness ∨
      record.granularity ≠ set.header.granularity then .error .badCoverage
  else .ok ()

/-- `can_use_proof_for_pruning`. -/
def canUseProofForPruning (record : CoverageProofRecordV2) : Bool :=
  record.proofStrength.allowsPruning && !record.exactness.mayUnderInclude &&
    record.nullSemantics != 255

end Cove
