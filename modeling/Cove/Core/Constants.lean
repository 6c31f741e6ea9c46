import Cove.Core.Types

/-!
# Constants of the container

- `SectionKind`, `PrimaryProfile`, `ProducerScopeKind`, `CompressionCodec`: the enumerations of the
  container, read from their numbers.
- `knownFeatureBitsMask`: the feature bits of the first word.
-/

namespace Cove

/-! ## Feature bits -/

/-- `FEATURE_OBJECT_PROFILE`. -/
def featureObjectProfile : UInt64 := 0x1

/-- `FEATURE_TABLE_PROFILE`. -/
def featureTableProfile : UInt64 := 0x2

/-- `KNOWN_FEATURE_BITS_MASK`: the bits from `FEATURE_OBJECT_PROFILE` to
`FEATURE_COVERAGE_CACHE_HINTS`, without gaps. -/
def knownFeatureBitsMask : UInt64 := 0x1FFFFFFFFFF

/-! ## Enumerations -/

inductive PrimaryProfile where
  | mixed
  | objectTemporal
  | tableScan
  | archiveAcceleration
  | engineExecution
  | harborExecution
  | semanticMapping
  | codecExtension
  | layoutPlanning
  | runtimeCompatibility
  | coverageMetadata
  | secondaryIndex
  deriving DecidableEq, Repr

/-- `from_u8`. -/
def PrimaryProfile.fromU8 : Nat → Option PrimaryProfile
  | 0 => some mixed
  | 1 => some objectTemporal
  | 2 => some tableScan
  | 3 => some archiveAcceleration
  | 4 => some engineExecution
  | 5 => some harborExecution
  | 6 => some semanticMapping
  | 7 => some codecExtension
  | 8 => some layoutPlanning
  | 9 => some runtimeCompatibility
  | 10 => some coverageMetadata
  | 11 => some secondaryIndex
  | _ => none

inductive ProducerScopeKind where
  | none
  | tenant
  | account
  | organisation
  | workspace
  | catalog
  | dataset
  | engineSpecific
  deriving DecidableEq, Repr

/-- `from_u16`. -/
def ProducerScopeKind.fromU16 : Nat → Option ProducerScopeKind
  | 0 => some .none
  | 1 => some .tenant
  | 2 => some .account
  | 3 => some .organisation
  | 4 => some .workspace
  | 5 => some .catalog
  | 6 => some .dataset
  | 255 => some .engineSpecific
  | _ => Option.none

inductive CompressionCodec where
  | none
  | lz4
  | zstd
  deriving DecidableEq, Repr

/-- `from_u8`. -/
def CompressionCodec.fromU8 : Nat → Option CompressionCodec
  | 0 => some .none
  | 1 => some .lz4
  | 2 => some .zstd
  | _ => Option.none

inductive SectionKind where
  | fileDictionaryIndex
  | fileDictionaryPayload
  | collationRegistry
  | digestManifest
  | redactionManifest
  | arrowInteropHints
  | lakehouseHints
  | extensionRegistry
  | profileCapabilityMatrix
  | tableCatalog
  | tableSegmentIndex
  | tableSegmentData
  | columnDomain
  | zoneStats
  | exactSetIndex
  | bloomIndex
  | invertedMorselIndex
  | lookupIndex
  | aggregateSynopsis
  | compositeZoneIndex
  | topNZoneSummary
  | kernelCapabilities
  | extendedFeatureSet
  | codecExtensionRegistry
  | layoutPlan
  | scanSplitIndex
  | pageClusterDirectory
  | zeroCopyBufferMap
  | fastMetadataIndex
  | engineProfileRegistry
  | executionCodeDescriptor
  | executionScopeDescriptor
  | codeSpaceDescriptor
  | engineMountPolicy
  | coverageProviderRegistry
  | coverageSet
  | coveragePlanCandidate
  | predicateNormalForm
  | indexOnlyCapability
  | objectTypeCatalog
  | temporalSegmentIndex
  | temporalSegmentData
  | temporalBloomIndex
  | trustManifest
  | sectionFeatureBinding
  | coverageProofRecord
  | nestedSchema
  | harborMountHints
  | mapSourceCatalog
  | mapFunctionRegistry
  | mapIdentityRuleCatalog
  | mapRowSemanticsCatalog
  | mapAssertionLog
  | mapIdentityEquivalenceIndex
  | mapEvidenceIndex
  | mapConversionReport
  | mapProjectionCatalog
  | vendorExtension
  deriving DecidableEq, Repr

/-- `from_u16`. -/
def SectionKind.fromU16 : Nat → Option SectionKind
  | 1 => some fileDictionaryIndex
  | 2 => some fileDictionaryPayload
  | 3 => some collationRegistry
  | 4 => some digestManifest
  | 5 => some redactionManifest
  | 6 => some arrowInteropHints
  | 7 => some lakehouseHints
  | 8 => some extensionRegistry
  | 9 => some profileCapabilityMatrix
  | 10 => some tableCatalog
  | 11 => some tableSegmentIndex
  | 12 => some tableSegmentData
  | 13 => some columnDomain
  | 14 => some zoneStats
  | 15 => some exactSetIndex
  | 16 => some bloomIndex
  | 17 => some invertedMorselIndex
  | 18 => some lookupIndex
  | 19 => some aggregateSynopsis
  | 20 => some compositeZoneIndex
  | 21 => some topNZoneSummary
  | 22 => some kernelCapabilities
  | 23 => some extendedFeatureSet
  | 24 => some codecExtensionRegistry
  | 25 => some layoutPlan
  | 26 => some scanSplitIndex
  | 27 => some pageClusterDirectory
  | 28 => some zeroCopyBufferMap
  | 29 => some fastMetadataIndex
  | 30 => some engineProfileRegistry
  | 31 => some executionCodeDescriptor
  | 32 => some executionScopeDescriptor
  | 33 => some codeSpaceDescriptor
  | 34 => some engineMountPolicy
  | 35 => some coverageProviderRegistry
  | 36 => some coverageSet
  | 37 => some coveragePlanCandidate
  | 38 => some predicateNormalForm
  | 39 => some indexOnlyCapability
  | 40 => some objectTypeCatalog
  | 41 => some temporalSegmentIndex
  | 42 => some temporalSegmentData
  | 43 => some temporalBloomIndex
  | 44 => some trustManifest
  | 45 => some sectionFeatureBinding
  | 46 => some coverageProofRecord
  | 47 => some nestedSchema
  | 50 => some harborMountHints
  | 60 => some mapSourceCatalog
  | 61 => some mapFunctionRegistry
  | 62 => some mapIdentityRuleCatalog
  | 63 => some mapRowSemanticsCatalog
  | 64 => some mapAssertionLog
  | 65 => some mapIdentityEquivalenceIndex
  | 66 => some mapEvidenceIndex
  | 67 => some mapConversionReport
  | 68 => some mapProjectionCatalog
  | 255 => some vendorExtension
  | _ => none

end Cove
