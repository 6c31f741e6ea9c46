import Cove.Core.Compression

/-!
# The minimal writer

The writer puts a placeholder for the header, then the sections, the footer and the postscript,
and last the header over its placeholder.

- `SectionPayload`, `MinimalCoveWriter`: what is to be written.
- `writeSection`, `MinimalCoveWriter.write`: the loop over the sections, and the whole file.
-/

namespace Cove

/-! ## Input -/

structure SectionPayload where
  sectionKind : UInt16
  profile : UInt8
  flags : UInt8
  itemCount : UInt64
  rowCount : UInt64
  compression : UInt8
  alignmentLog2 : UInt8
  requiredFeatures : UInt64
  optionalFeatures : UInt64
  data : List UInt8
  deriving DecidableEq, Repr

structure MinimalCoveWriter where
  createdAtUs : Int64
  fileId : Fin (2 ^ 128)
  producerScopeId : Fin (2 ^ 128)
  producerScopeKind : UInt16
  primaryProfile : UInt8
  requiredFeatures : UInt64
  optionalFeatures : UInt64
  metadataJson : List UInt8
  sections : List SectionPayload
  deriving DecidableEq

/-- `new`: an empty table-scan file. -/
def MinimalCoveWriter.new : MinimalCoveWriter where
  createdAtUs := 0
  fileId := 0
  producerScopeId := 0
  producerScopeKind := 0
  primaryProfile := 2
  requiredFeatures := featureTableProfile
  optionalFeatures := 0
  metadataJson := []
  sections := []

/-- The body of the loop of `validate_inputs` over the sections. -/
def SectionPayload.validateInput (self : SectionPayload) : Except CoveError Unit :=
  if (SectionKind.fromU16 self.sectionKind.toNat).isNone then
    .error (.badSection s!"unknown section_kind {self.sectionKind}")
  else if (PrimaryProfile.fromU8 self.profile.toNat).isNone then
    .error (.badSection s!"unknown section profile {self.profile}")
  else if (CompressionCodec.fromU8 self.compression.toNat).isNone then
    .error (.badSection s!"unknown compression codec {self.compression}")
  else if unknownFeatureBits self.requiredFeatures ≠ 0 then
    .error (.unknownRequiredFeature (unknownFeatureBits self.requiredFeatures))
  else .ok ()

/-- `u32::try_from`, with `ArithOverflow`. -/
def tryU32 (n : Nat) : Except CoveError Nat :=
  if n < 2 ^ 32 then .ok n else .error .arithOverflow

/-- `u64::try_from`, with `ArithOverflow`. -/
def tryU64 (n : Nat) : Except CoveError Nat :=
  if n < 2 ^ 64 then .ok n else .error .arithOverflow

section

/- The codecs, the checksum of a byte string, and whether bytes are a JSON text. -/
variable (codecs : CodecLibraries) (crc32c : List UInt8 → UInt32) (validJson : List UInt8 → Bool)

/-- `validate_inputs`. -/
def MinimalCoveWriter.validateInputs (self : MinimalCoveWriter) : Except CoveError Unit := do
  metadataValidate validJson self.metadataJson
  if self.sections.length > 0xFFFFFFFF then .error .arithOverflow
  else if (PrimaryProfile.fromU8 self.primaryProfile.toNat).isNone then
    .error (.badSection s!"unknown primary_profile {self.primaryProfile}")
  else if (ProducerScopeKind.fromU16 self.producerScopeKind.toNat).isNone then
    .error (.badSection s!"unknown producer_scope_kind {self.producerScopeKind}")
  else if unknownFeatureBits self.requiredFeatures ≠ 0 then
    .error (.unknownRequiredFeature (unknownFeatureBits self.requiredFeatures))
  else self.sections.forM SectionPayload.validateInput

/-! ## Output -/

/-- What has been written, and the directory entries of its sections. -/
structure WriteState where
  written : List UInt8
  sectionEntries : List CoveSectionEntryV1
  deriving DecidableEq, Repr

/-- The directory entry of a section that was written. -/
def SectionPayload.entry (self : SectionPayload) (sectionId offset length uncompressedLength
    crc32c : Nat) : CoveSectionEntryV1 where
  sectionId := sectionId
  sectionKind := self.sectionKind.toNat
  profile := self.profile.toNat
  flags := self.flags.toNat
  offset := offset
  length := length
  uncompressedLength := uncompressedLength
  itemCount := self.itemCount.toNat
  rowCount := self.rowCount.toNat
  compression := self.compression.toNat
  encryption := 0
  alignmentLog2 := self.alignmentLog2.toNat
  reserved0 := 0
  requiredFeatures := self.requiredFeatures
  optionalFeatures := self.optionalFeatures
  crc32c := crc32c
  reserved1 := 0

/-- The body of the loop over the sections. -/
def writeSection (state : WriteState) (indexed : SectionPayload × Nat) :
    Except CoveError WriteState := do
  let (sect, idx) := indexed
  let sectionOffset := state.written.length
  let sectionData ← encodePayloadForCodec codecs sect.data sect.compression.toNat
  let sectionLen ← tryU64 sectionData.length
  let sectionUncompressedLen ← tryU64 sect.data.length
  let sectionId ← tryU32 (idx + 1)
  .ok {
    written := state.written ++ sectionData
    sectionEntries := state.sectionEntries ++ [sect.entry sectionId sectionOffset sectionLen
      sectionUncompressedLen (crc32c sectionData).toNat]
  }

/-- The loop over the sections, after the placeholder of the header. -/
def MinimalCoveWriter.writeSections (self : MinimalCoveWriter) : Except CoveError WriteState :=
  self.sections.zipIdx.foldlM (writeSection codecs crc32c) ⟨List.replicate headerSize 0, []⟩

/-- The header of the footer. -/
def MinimalCoveWriter.footerHeader (sectionCount metadataLen : Nat) : CoveFooterHeaderV1 where
  footerMagic := magicCoveFooter
  footerVersion := 2
  headerLen := footerHeaderSize
  sectionCount := sectionCount
  sectionEntryLen := sectionEntrySize
  flags := 0
  metadataLen := metadataLen

/-- The footer: its header, the directory and the metadata. -/
def MinimalCoveWriter.footerBytes (self : MinimalCoveWriter)
    (sectionEntries : List CoveSectionEntryV1) : Except CoveError (List UInt8) := do
  let sectionCount ← tryU32 sectionEntries.length
  let metadataLen ← tryU32 self.metadataJson.length
  .ok ((footerHeader sectionCount metadataLen).serialize ++
    sectionEntries.flatMap CoveSectionEntryV1.serialize ++ self.metadataJson)

/-- The postscript of a footer. -/
def MinimalCoveWriter.postscript (self : MinimalCoveWriter)
    (footerOffset footerLen footerCrc totalFileLen : Nat) : CovePostscriptV1 where
  requiredFeatures := self.requiredFeatures
  optionalFeatures := self.optionalFeatures
  fileLen := totalFileLen
  footer := {
    offset := footerOffset
    length := footerLen
    uncompressedLength := footerLen
    compression := 0
    encryption := 0
    alignmentLog2 := 0
    flags := 0
    crc32c := footerCrc
    reserved := 0
  }
  checksum := 0

/-- The header that replaces its placeholder. -/
def MinimalCoveWriter.header (self : MinimalCoveWriter) : CoveHeaderV1 where
  magic := magicCove
  headerLen := headerSize
  versionMajor := 2
  versionMinor := 0
  primaryProfile := self.primaryProfile.toNat
  endianness := 1
  flags := 0
  requiredFeatures := self.requiredFeatures
  optionalFeatures := self.optionalFeatures
  fileId := self.fileId
  producerScopeId := self.producerScopeId
  producerScopeKind := self.producerScopeKind.toNat
  reservedScopeFlags := 0
  createdAtUs := self.createdAtUs.toInt
  featureSetSectionId := 0
  profileCapabilitySectionId := 0
  fastMetadataSectionId := 0
  v2Flags := 0
  checksum := 0

/-- `write`: `write_to` on an empty target. -/
def MinimalCoveWriter.write (self : MinimalCoveWriter) : Except CoveError (List UInt8) := do
  self.validateInputs validJson
  let state ← self.writeSections codecs crc32c
  let footerOffset := state.written.length
  let footerBytes ← self.footerBytes state.sectionEntries
  let footerLen ← tryU64 footerBytes.length
  let footerCrc := (crc32c footerBytes).toNat
  let written := state.written ++ footerBytes
  let withPostscript ← checkedAdd written.length postscriptSize
  let totalFileLen ← checkedAdd withPostscript (2 + 2 + 4)
  let postscript := self.postscript footerOffset footerLen footerCrc totalFileLen
  let crc := fun bytes => (crc32c bytes).toNat
  let written := written ++ postscript.serializeTail crc
  -- the header goes over its placeholder
  .ok (self.header.serialize crc ++ written.drop headerSize)

end

end Cove
