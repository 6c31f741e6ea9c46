import Cove.Core.Constants
import Cove.Core.SealedRecord

/-!
# Header, footer and postscript

A file starts with a header and ends with a postscript. The postscript places the footer, and the
footer lists the sections in between.

- `CoveHeaderV1`, `CoveFooterHeaderV1`, `CoveSectionEntryV1`, `CoveSectionSpecV1`,
  `CovePostscriptV1`: the records, how they are written and how they are read.
- `MetadataJson.parse`, `CoveFooter.parse`: the footer as a whole.
- `CovePostscriptV1.parseFromTail`: the postscript at the end of a file.
-/

namespace Cove

/-- `HEADER_SIZE`. -/
def headerSize : Nat := 160

/-- `FOOTER_HEADER_SIZE`. -/
def footerHeaderSize : Nat := 44

/-- `SECTION_ENTRY_SIZE`. -/
def sectionEntrySize : Nat := 76

/-- `SECTION_SPEC_SIZE`. -/
def sectionSpecSize : Nat := 36

/-- `POSTSCRIPT_SIZE`. -/
def postscriptSize : Nat := 64

/-- `POSTSCRIPT_TAIL_SIZE`. -/
def postscriptTailSize : Nat := 8

/-- `METADATA_LEN_MAX`. -/
def metadataLenMax : Nat := 0x100000

/-- `MAGIC_COVE`: the bytes of `COV2`. -/
def magicCove : List UInt8 := [0x43, 0x4F, 0x56, 0x32]

/-- `MAGIC_COVE_FOOTER`: the bytes of `CV2F`. -/
def magicCoveFooter : List UInt8 := [0x43, 0x56, 0x32, 0x46]

/-- The feature bits that this implementation does not know. -/
def unknownFeatureBits (bits : UInt64) : UInt64 := bits &&& ~~~knownFeatureBitsMask

/-- A 64-bit field of a buffer. -/
def fieldU64 (buf : List UInt8) (offset : Nat) : UInt64 := UInt64.ofNat (fieldNat buf offset 8)

/-! ## Header -/

/-- The identifiers of sixteen bytes are given by the numbers they stand for. -/
@[ext] structure CoveHeaderV1 where
  magic : List UInt8
  headerLen : Nat
  versionMajor : Nat
  versionMinor : Nat
  primaryProfile : Nat
  endianness : Nat
  flags : Nat
  requiredFeatures : UInt64
  optionalFeatures : UInt64
  fileId : Nat
  producerScopeId : Nat
  producerScopeKind : Nat
  reservedScopeFlags : Nat
  createdAtUs : Int
  featureSetSectionId : Nat
  profileCapabilitySectionId : Nat
  fastMetadataSectionId : Nat
  v2Flags : Nat
  checksum : Nat
  deriving DecidableEq, Repr

section

/- The checksum of a byte string. -/
variable (crc32c : List UInt8 → Nat)

/-- The fields before the checksum, in their order; the reserved bytes are zeros. -/
def CoveHeaderV1.fields (self : CoveHeaderV1) : List (Nat × Nat) :=
  [(4, LittleEndian.ofLe self.magic), (2, self.headerLen), (2, self.versionMajor),
    (2, self.versionMinor), (1, self.primaryProfile), (1, self.endianness), (4, self.flags),
    (8, self.requiredFeatures.toNat), (8, self.optionalFeatures.toNat), (16, self.fileId),
    (16, self.producerScopeId), (2, self.producerScopeKind), (2, self.reservedScopeFlags),
    (8, LittleEndian.unsigned 8 self.createdAtUs), (4, self.featureSetSectionId),
    (4, self.profileCapabilitySectionId), (4, self.fastMetadataSectionId), (4, self.v2Flags),
    (64, 0)]

def CoveHeaderV1.serialize (self : CoveHeaderV1) : List UInt8 :=
  FieldRecord.encode (sealRecord crc32c self.fields)

def CoveHeaderV1.parse (buf : List UInt8) : Except CoveError CoveHeaderV1 :=
  if buf.length < headerSize then .error .bufferTooShort
  else
    let buf := buf.take headerSize
    if !checksumHolds crc32c buf headerSize then .error .checksumMismatch
    else if fieldBytes buf 0 4 ≠ magicCove then .error .badMagic
    else if fieldNat buf 4 2 ≠ headerSize then
      .error (.badSection s!"header_len is {fieldNat buf 4 2}, expected {headerSize}")
    else if fieldNat buf 6 2 ≠ 2 then .error .badVersion
    else if (PrimaryProfile.fromU8 (fieldNat buf 10 1)).isNone then
      .error (.badSection s!"unknown primary_profile {fieldNat buf 10 1}")
    else if fieldNat buf 11 1 ≠ 1 then
      .error (.badSection
        s!"endianness field is {fieldNat buf 11 1}, only little-endian (1) is supported")
    else if unknownFeatureBits (fieldU64 buf 16) ≠ 0 then
      .error (.unknownRequiredFeature (unknownFeatureBits (fieldU64 buf 16)))
    else if (ProducerScopeKind.fromU16 (fieldNat buf 64 2)).isNone then
      .error (.badSection s!"unknown producer_scope_kind {fieldNat buf 64 2}")
    else if fieldNat buf 66 2 ≠ 0 then .error .reservedNotZero
    else if (fieldBytes buf 92 64).any (· != 0) then .error .reservedNotZero
    else
      .ok {
        magic := fieldBytes buf 0 4
        headerLen := fieldNat buf 4 2
        versionMajor := fieldNat buf 6 2
        versionMinor := fieldNat buf 8 2
        primaryProfile := fieldNat buf 10 1
        endianness := fieldNat buf 11 1
        flags := fieldNat buf 12 4
        requiredFeatures := fieldU64 buf 16
        optionalFeatures := fieldU64 buf 24
        fileId := fieldNat buf 32 16
        producerScopeId := fieldNat buf 48 16
        producerScopeKind := fieldNat buf 64 2
        reservedScopeFlags := fieldNat buf 66 2
        createdAtUs := LittleEndian.signed 8 (fieldNat buf 68 8)
        featureSetSectionId := fieldNat buf 76 4
        profileCapabilitySectionId := fieldNat buf 80 4
        fastMetadataSectionId := fieldNat buf 84 4
        v2Flags := fieldNat buf 88 4
        checksum := fieldNat buf 156 4
      }

end

/-! ## Footer -/

@[ext] structure CoveFooterHeaderV1 where
  footerMagic : List UInt8
  footerVersion : Nat
  headerLen : Nat
  sectionCount : Nat
  sectionEntryLen : Nat
  flags : Nat
  metadataLen : Nat
  deriving DecidableEq, Repr

/-- The fields in their order; the reserved bytes are zeros. -/
def CoveFooterHeaderV1.fields (self : CoveFooterHeaderV1) : List (Nat × Nat) :=
  [(4, LittleEndian.ofLe self.footerMagic), (2, self.footerVersion), (2, self.headerLen),
    (4, self.sectionCount), (2, self.sectionEntryLen), (2, self.flags), (4, self.metadataLen),
    (24, 0)]

def CoveFooterHeaderV1.serialize (self : CoveFooterHeaderV1) : List UInt8 :=
  FieldRecord.encode self.fields

def CoveFooterHeaderV1.parse (buf : List UInt8) : Except CoveError CoveFooterHeaderV1 :=
  if buf.length < footerHeaderSize then .error .bufferTooShort
  else if fieldBytes buf 0 4 ≠ magicCoveFooter then .error .badMagic
  else if fieldNat buf 4 2 ≠ 2 then .error .badVersion
  else if fieldNat buf 6 2 ≠ footerHeaderSize then
    .error (.badSection s!"footer header_len is {fieldNat buf 6 2}, expected {footerHeaderSize}")
  else if fieldNat buf 12 2 ≠ sectionEntrySize then
    .error (.badSection
      s!"section_entry_len is {fieldNat buf 12 2}, expected {sectionEntrySize}")
  else if fieldNat buf 16 4 > metadataLenMax then
    .error (.badSection s!"metadata_len {fieldNat buf 16 4} exceeds 1 MiB limit")
  else if (fieldBytes buf 20 24).any (· != 0) then .error .reservedNotZero
  else
    .ok {
      footerMagic := fieldBytes buf 0 4
      footerVersion := fieldNat buf 4 2
      headerLen := fieldNat buf 6 2
      sectionCount := fieldNat buf 8 4
      sectionEntryLen := fieldNat buf 12 2
      flags := fieldNat buf 14 2
      metadataLen := fieldNat buf 16 4
    }

/-- `total_len`. -/
def CoveFooterHeaderV1.totalLen (self : CoveFooterHeaderV1) : Except CoveError Nat := do
  let entriesLen ← checkedMul self.sectionCount sectionEntrySize
  let withEntries ← checkedAdd footerHeaderSize entriesLen
  checkedAdd withEntries self.metadataLen

@[ext] structure CoveSectionEntryV1 where
  sectionId : Nat
  sectionKind : Nat
  profile : Nat
  flags : Nat
  offset : Nat
  length : Nat
  uncompressedLength : Nat
  itemCount : Nat
  rowCount : Nat
  compression : Nat
  encryption : Nat
  alignmentLog2 : Nat
  reserved0 : Nat
  requiredFeatures : UInt64
  optionalFeatures : UInt64
  crc32c : Nat
  reserved1 : Nat
  deriving DecidableEq, Repr

/-- The fields in their order. -/
def CoveSectionEntryV1.fields (self : CoveSectionEntryV1) : List (Nat × Nat) :=
  [(4, self.sectionId), (2, self.sectionKind), (1, self.profile), (1, self.flags),
    (8, self.offset), (8, self.length), (8, self.uncompressedLength), (8, self.itemCount),
    (8, self.rowCount), (1, self.compression), (1, self.encryption), (1, self.alignmentLog2),
    (1, self.reserved0), (8, self.requiredFeatures.toNat), (8, self.optionalFeatures.toNat),
    (4, self.crc32c), (4, self.reserved1)]

def CoveSectionEntryV1.serialize (self : CoveSectionEntryV1) : List UInt8 :=
  FieldRecord.encode self.fields

/-- The fields of `parse`. -/
def CoveSectionEntryV1.ofFields (buf : List UInt8) : CoveSectionEntryV1 where
  sectionId := fieldNat buf 0 4
  sectionKind := fieldNat buf 4 2
  profile := fieldNat buf 6 1
  flags := fieldNat buf 7 1
  offset := fieldNat buf 8 8
  length := fieldNat buf 16 8
  uncompressedLength := fieldNat buf 24 8
  itemCount := fieldNat buf 32 8
  rowCount := fieldNat buf 40 8
  compression := fieldNat buf 48 1
  encryption := fieldNat buf 49 1
  alignmentLog2 := fieldNat buf 50 1
  reserved0 := fieldNat buf 51 1
  requiredFeatures := fieldU64 buf 52
  optionalFeatures := fieldU64 buf 60
  crc32c := fieldNat buf 68 4
  reserved1 := fieldNat buf 72 4

/-- The checks of `parse`. -/
def CoveSectionEntryV1.check (self : CoveSectionEntryV1) : Except CoveError Unit :=
  if (SectionKind.fromU16 self.sectionKind).isNone then
    .error (.badSection s!"unknown section_kind {self.sectionKind}")
  else if (PrimaryProfile.fromU8 self.profile).isNone then
    .error (.badSection s!"unknown section profile {self.profile}")
  else if (CompressionCodec.fromU8 self.compression).isNone then
    .error (.badSection s!"unknown compression codec {self.compression}")
  else if self.encryption ≠ 0 then
    .error (.badSection
      s!"section {self.sectionId}: encryption must be 0 in v2, got {self.encryption}")
  else if self.reserved0 ≠ 0 ∨ self.reserved1 ≠ 0 then .error .reservedNotZero
  else if self.compression = 0 ∧ self.length ≠ self.uncompressedLength then
    .error (.badSection
      s!"section {self.sectionId}: uncompressed_length must equal length when uncompressed")
  else .ok ()

def CoveSectionEntryV1.parse (buf : List UInt8) : Except CoveError CoveSectionEntryV1 :=
  if buf.length < sectionEntrySize then .error .bufferTooShort
  else do
    (CoveSectionEntryV1.ofFields buf).check
    .ok (CoveSectionEntryV1.ofFields buf)

section

/- `validJson` says whether bytes are a JSON text. -/
variable (validJson : List UInt8 → Bool)

/-- `metadata::validate`. -/
def metadataValidate (bytes : List UInt8) : Except CoveError Unit :=
  if bytes.length > metadataLenMax then
    .error (.badSection s!"Spec §15: metadata_json length {bytes.length} exceeds 1 MiB limit")
  else if !isUtf8 bytes then
    .error (.badSection "Spec §15: metadata_json must be valid UTF-8")
  else if !bytes.isEmpty && !validJson bytes then
    .error (.badSection "Spec §15: metadata_json must be syntactically valid JSON")
  else .ok ()

/-- `MetadataJson::parse`, without the value that nothing reads. -/
def metadataParse (bytes : List UInt8) : Except CoveError Unit := do
  metadataValidate validJson bytes
  if !bytes.isEmpty && !validJson bytes then
    .error (.badSection "Spec §15: metadata_json must be syntactically valid JSON")
  else .ok ()

structure CoveFooter where
  header : CoveFooterHeaderV1
  sections : List CoveSectionEntryV1
  metadataJson : List UInt8
  deriving DecidableEq, Repr

def CoveFooter.parse (buf : List UInt8) : Except CoveError CoveFooter := do
  let header ← CoveFooterHeaderV1.parse buf
  let expectedLen ← header.totalLen
  if buf.length < expectedLen then .error .bufferTooShort
  else
    let sections ← (List.range header.sectionCount).mapM fun i =>
      CoveSectionEntryV1.parse (buf.drop (footerHeaderSize + i * sectionEntrySize))
    let metaStart := footerHeaderSize + header.sectionCount * sectionEntrySize
    let metadataJson := fieldBytes buf metaStart header.metadataLen
    metadataParse validJson metadataJson
    .ok ⟨header, sections, metadataJson⟩

end

/-! ## Postscript -/

@[ext] structure CoveSectionSpecV1 where
  offset : Nat
  length : Nat
  uncompressedLength : Nat
  compression : Nat
  encryption : Nat
  alignmentLog2 : Nat
  flags : Nat
  crc32c : Nat
  reserved : Nat
  deriving DecidableEq, Repr

/-- The fields in their order. -/
def CoveSectionSpecV1.fields (self : CoveSectionSpecV1) : List (Nat × Nat) :=
  [(8, self.offset), (8, self.length), (8, self.uncompressedLength), (1, self.compression),
    (1, self.encryption), (1, self.alignmentLog2), (1, self.flags), (4, self.crc32c),
    (4, self.reserved)]

def CoveSectionSpecV1.parse (buf : List UInt8) : Except CoveError CoveSectionSpecV1 :=
  if buf.length < sectionSpecSize then .error .bufferTooShort
  else if (CompressionCodec.fromU8 (fieldNat buf 24 1)).isNone then
    .error (.badSection s!"unknown compression codec {fieldNat buf 24 1}")
  else if fieldNat buf 25 1 ≠ 0 then
    .error (.badSection s!"encryption must be 0 in v2, got {fieldNat buf 25 1}")
  else if fieldNat buf 32 4 ≠ 0 then .error .reservedNotZero
  else
    .ok {
      offset := fieldNat buf 0 8
      length := fieldNat buf 8 8
      uncompressedLength := fieldNat buf 16 8
      compression := fieldNat buf 24 1
      encryption := fieldNat buf 25 1
      alignmentLog2 := fieldNat buf 26 1
      flags := fieldNat buf 27 1
      crc32c := fieldNat buf 28 4
      reserved := fieldNat buf 32 4
    }

@[ext] structure CovePostscriptV1 where
  requiredFeatures : UInt64
  optionalFeatures : UInt64
  fileLen : Nat
  footer : CoveSectionSpecV1
  checksum : Nat
  deriving DecidableEq, Repr

section

variable (crc32c : List UInt8 → Nat)

/-- The fields before the checksum, in their order. -/
def CovePostscriptV1.fields (self : CovePostscriptV1) : List (Nat × Nat) :=
  [(8, self.requiredFeatures.toNat), (8, self.optionalFeatures.toNat), (8, self.fileLen)] ++
    self.footer.fields

def CovePostscriptV1.serialize (self : CovePostscriptV1) : List UInt8 :=
  FieldRecord.encode (sealRecord crc32c self.fields)

/-- `serialize_tail`: the postscript, its version and length, and the magic. -/
def CovePostscriptV1.serializeTail (self : CovePostscriptV1) : List UInt8 :=
  self.serialize crc32c ++
    FieldRecord.encode [(2, 2), (2, postscriptSize), (4, LittleEndian.ofLe magicCove)]

/-- `parse_payload`. -/
def CovePostscriptV1.parsePayload (buf : List UInt8) : Except CoveError CovePostscriptV1 :=
  if buf.length < postscriptSize then .error .bufferTooShort
  else
    let buf := buf.take postscriptSize
    if !checksumHolds crc32c buf postscriptSize then .error .checksumMismatch
    else if unknownFeatureBits (fieldU64 buf 0) ≠ 0 then
      .error (.unknownRequiredFeature (unknownFeatureBits (fieldU64 buf 0)))
    else do
      let footer ← CoveSectionSpecV1.parse (fieldBytes buf 24 36)
      .ok {
        requiredFeatures := fieldU64 buf 0
        optionalFeatures := fieldU64 buf 8
        fileLen := fieldNat buf 16 8
        footer := footer
        checksum := fieldNat buf 60 4
      }

/-- `parse_from_tail`. -/
def CovePostscriptV1.parseFromTail (fileData : List UInt8) : Except CoveError CovePostscriptV1 :=
  let fileLen := fileData.length
  if fileLen < postscriptSize + postscriptTailSize then .error .bufferTooShort
  else
    let tailStart := fileLen - postscriptTailSize
    if fieldBytes fileData (tailStart + 4) 4 ≠ magicCove then .error .badMagic
    else
      let psVersion := fieldNat fileData tailStart 2
      let psLen := fieldNat fileData (tailStart + 2) 2
      if psVersion ≠ 2 then .error .badVersion
      else if psLen ≠ postscriptSize then
        .error (.badSection s!"postscript_len is {psLen}, expected {postscriptSize}")
      else if psLen > fileLen - postscriptTailSize then .error .offsetRange
      else parsePayload crc32c (fieldBytes fileData (tailStart - psLen) psLen)

end

end Cove
