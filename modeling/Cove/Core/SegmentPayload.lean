import Cove.Core.SealedRecord
import Cove.Core.Constants
import Cove.Lib.TextOps

/-!
# Segment payloads

A segment starts with a header that places three regions one after the other: the directory of
its morsels, the directory of its columns, and the page index of every column. The data of the
columns follows.

- `TableSegmentHeaderV1`, `RowMorselDirectory`, `TableColumnDirectoryEntryV1`,
  `ColumnPageIndexEntryV1`: the regions and their checks.
- `readDirectories`: the regions before the page indexes.
- `TableSegmentPayloadV1.parseInner`: the parser that checks every page as well.
-/

namespace Cove.SegmentPayload

/-- `TABLE_SEGMENT_HEADER_LEN`. -/
def tableSegmentHeaderLen : Nat := 72

/-- `ROW_MORSEL_ENTRY_LEN`. -/
def rowMorselEntryLen : Nat := 24

/-- `TABLE_COLUMN_DIRECTORY_ENTRY_LEN`. -/
def tableColumnDirectoryEntryLen : Nat := 52

/-- `COLUMN_PAGE_INDEX_ENTRY_LEN`. -/
def columnPageIndexEntryLen : Nat := 60

/-! ## Header -/

structure TableSegmentHeaderV1 where
  tableId : Nat
  segmentId : Nat
  rowStart : Nat
  rowCount : Nat
  morselCount : Nat
  morselRowCount : Nat
  columnCount : Nat
  morselDirectoryOffset : Nat
  columnDirectoryOffset : Nat
  pageIndexOffset : Nat
  dataOffset : Nat
  flags : Nat
  checksum : Nat
  deriving DecidableEq, Repr

section

/- The checksum of a byte string. -/
variable (crc32c : List UInt8 → Nat)

/-- The fields before the checksum, in their order. -/
def TableSegmentHeaderV1.fields (self : TableSegmentHeaderV1) : List (Nat × Nat) :=
  [(4, self.tableId), (4, self.segmentId), (8, self.rowStart), (4, self.rowCount),
    (4, self.morselCount), (4, self.morselRowCount), (4, self.columnCount),
    (8, self.morselDirectoryOffset), (8, self.columnDirectoryOffset), (8, self.pageIndexOffset),
    (8, self.dataOffset), (4, self.flags)]

def TableSegmentHeaderV1.serialize (self : TableSegmentHeaderV1) : List UInt8 :=
  FieldRecord.encode (sealRecord crc32c self.fields)

def TableSegmentHeaderV1.parse (bytes : List UInt8) : Except CoveError TableSegmentHeaderV1 :=
  if bytes.length < tableSegmentHeaderLen then .error .bufferTooShort
  else
    let bytes := bytes.take tableSegmentHeaderLen
    if !checksumHolds crc32c bytes tableSegmentHeaderLen then .error .checksumMismatch
    else
      .ok {
        tableId := fieldNat bytes 0 4
        segmentId := fieldNat bytes 4 4
        rowStart := fieldNat bytes 8 8
        rowCount := fieldNat bytes 16 4
        morselCount := fieldNat bytes 20 4
        morselRowCount := fieldNat bytes 24 4
        columnCount := fieldNat bytes 28 4
        morselDirectoryOffset := fieldNat bytes 32 8
        columnDirectoryOffset := fieldNat bytes 40 8
        pageIndexOffset := fieldNat bytes 48 8
        dataOffset := fieldNat bytes 56 8
        flags := fieldNat bytes 64 4
        checksum := fieldNat bytes 68 4
      }

/-! ## Morsels -/

structure RowMorselEntryV1 where
  morselId : Nat
  firstRowInSegment : Nat
  rowCount : Nat
  flags : Nat
  statsRef : Nat
  checksum : Nat
  deriving DecidableEq, Repr

/-- The fields before the checksum, in their order. -/
def RowMorselEntryV1.fields (self : RowMorselEntryV1) : List (Nat × Nat) :=
  [(4, self.morselId), (4, self.firstRowInSegment), (4, self.rowCount), (4, self.flags),
    (4, self.statsRef)]

def RowMorselEntryV1.serialize (self : RowMorselEntryV1) : List UInt8 :=
  FieldRecord.encode (sealRecord crc32c self.fields)

def RowMorselEntryV1.parse (bytes : List UInt8) : Except CoveError RowMorselEntryV1 :=
  if bytes.length < rowMorselEntryLen then .error .bufferTooShort
  else
    let bytes := bytes.take rowMorselEntryLen
    if !checksumHolds crc32c bytes rowMorselEntryLen then .error .checksumMismatch
    else
      .ok {
        morselId := fieldNat bytes 0 4
        firstRowInSegment := fieldNat bytes 4 4
        rowCount := fieldNat bytes 8 4
        flags := fieldNat bytes 12 4
        statsRef := fieldNat bytes 16 4
        checksum := fieldNat bytes 20 4
      }

/-- `RowMorselDirectory`, by its entries. -/
abbrev RowMorselDirectory := List RowMorselEntryV1

def RowMorselDirectory.serialize (self : RowMorselDirectory) : List UInt8 :=
  self.flatMap (RowMorselEntryV1.serialize crc32c)

/-- The loop of `validate`: the morsels follow one another without gaps. -/
def RowMorselDirectory.validateFrom : Nat → List RowMorselEntryV1 → Except CoveError Unit
  | _, [] => .ok ()
  | nextRow, entry :: entries =>
    if entry.rowCount = 0 then .error .segmentCorrupt
    else if entry.firstRowInSegment ≠ nextRow then .error .segmentCorrupt
    else do
      let nextRow ← checkedAddU32 nextRow entry.rowCount
      validateFrom nextRow entries

/-- `validate`: the first row is where the first morsel says. -/
def RowMorselDirectory.validate (self : RowMorselDirectory) : Except CoveError Unit :=
  validateFrom ((self.head?.map RowMorselEntryV1.firstRowInSegment).getD 0) self

def RowMorselDirectory.parse (bytes : List UInt8) (morselCount : Nat) :
    Except CoveError RowMorselDirectory := do
  let needed ← checkedMul morselCount rowMorselEntryLen
  if bytes.length < needed then .error .bufferTooShort
  else
    let entries ← (List.range morselCount).mapM fun i =>
      RowMorselEntryV1.parse crc32c (fieldBytes bytes (i * rowMorselEntryLen) rowMorselEntryLen)
    RowMorselDirectory.validate entries
    .ok entries

def RowMorselDirectory.sumRows (self : RowMorselDirectory) : Nat :=
  (self.map RowMorselEntryV1.rowCount).sum

/-! ## Columns -/

/-- `CoveLogicalType::from_u16`. -/
def logicalTypeFromU16 : Nat → Option CoveLogicalType
  | 0 => some .null
  | 1 => some .bool
  | 2 => some .int8
  | 3 => some .int16
  | 4 => some .int32
  | 5 => some .int64
  | 6 => some .uint8
  | 7 => some .uint16
  | 8 => some .uint32
  | 9 => some .uint64
  | 10 => some .float32
  | 11 => some .float64
  | 12 => some .decimal64
  | 13 => some .decimal128
  | 14 => some .dateDays
  | 15 => some .timestampMicros
  | 16 => some .timestampNanos
  | 17 => some .utf8
  | 18 => some .binary
  | 19 => some .uuid
  | 20 => some .json
  | 21 => some .list
  | 22 => some .struct
  | 23 => some .map
  | _ => none

/-- `CovePhysicalKind::from_u8`. -/
def physicalKindFromU8 : Nat → Option CovePhysicalKind
  | 0 => some .fileCode
  | 1 => some .numCode
  | 2 => some .boolean
  | 3 => some .fixedBytes
  | 4 => some .varBytes
  | 5 => some .list
  | 6 => some .struct
  | 7 => some .map
  | _ => none

/-- `validate_logical_physical_pair_with_options`. -/
def validateLogicalPhysicalPair (logical : CoveLogicalType) (physical : CovePhysicalKind)
    (boolDeclaredNumeric : Bool) : Except CoveError Unit :=
  let ok : Bool := match physical with
    | .fileCode => true
    | .numCode =>
      match logical with
      | .bool => boolDeclaredNumeric
      | .int8 | .int16 | .int32 | .int64 | .uint8 | .uint16 | .uint32 | .uint64 | .float32
      | .float64 | .decimal64 | .dateDays | .timestampMicros | .timestampNanos => true
      | _ => false
    | .boolean => logical == .bool
    | .fixedBytes => logical == .uuid || logical == .decimal128
    | .varBytes => logical == .utf8 || logical == .binary || logical == .json
    | .list => logical == .list
    | .struct => logical == .struct
    | .map => logical == .map
  if ok then .ok () else .error .badLogicalPhysicalPair

structure TableColumnDirectoryEntryV1 where
  columnId : Nat
  logicalType : CoveLogicalType
  physicalKind : CovePhysicalKind
  flags : Nat
  pageIndexOffset : Nat
  pageIndexLength : Nat
  dataOffset : Nat
  dataLength : Nat
  statsRef : Nat
  domainRef : Nat
  checksum : Nat
  deriving DecidableEq, Repr

/-- The fields before the checksum, in their order. -/
def TableColumnDirectoryEntryV1.fields (self : TableColumnDirectoryEntryV1) : List (Nat × Nat) :=
  [(4, self.columnId), (2, self.logicalType.code),
    (1, self.physicalKind.code), (1, self.flags), (8, self.pageIndexOffset),
    (8, self.pageIndexLength), (8, self.dataOffset), (8, self.dataLength), (4, self.statsRef),
    (4, self.domainRef)]

def TableColumnDirectoryEntryV1.serialize (self : TableColumnDirectoryEntryV1) : List UInt8 :=
  FieldRecord.encode (sealRecord crc32c self.fields)

def TableColumnDirectoryEntryV1.parse (bytes : List UInt8) :
    Except CoveError TableColumnDirectoryEntryV1 :=
  if bytes.length < tableColumnDirectoryEntryLen then .error .bufferTooShort
  else
    let bytes := bytes.take tableColumnDirectoryEntryLen
    if !checksumHolds crc32c bytes tableColumnDirectoryEntryLen then .error .checksumMismatch
    else
      let logicalRaw := fieldNat bytes 4 2
      let physicalRaw := fieldNat bytes 6 1
      match logicalTypeFromU16 logicalRaw, physicalKindFromU8 physicalRaw with
      | none, _ => .error (.badSchema s!"unknown logical type {logicalRaw}")
      | _, none => .error (.badSchema s!"unknown physical kind {physicalRaw}")
      | some logicalType, some physicalKind => do
        let flags := fieldNat bytes 7 1
        validateLogicalPhysicalPair logicalType physicalKind (flags &&& 0x01 != 0)
        .ok {
          columnId := fieldNat bytes 0 4
          logicalType := logicalType
          physicalKind := physicalKind
          flags := flags
          pageIndexOffset := fieldNat bytes 8 8
          pageIndexLength := fieldNat bytes 16 8
          dataOffset := fieldNat bytes 24 8
          dataLength := fieldNat bytes 32 8
          statsRef := fieldNat bytes 40 4
          domainRef := fieldNat bytes 44 4
          checksum := fieldNat bytes 48 4
        }

/-! ## Pages -/

/-- `PAGE_FLAG_STATS_ONLY_CONSTANT`. -/
def pageFlagStatsOnlyConstant : Nat := 0x100

/-- `PAGE_FLAG_ALL_NULL`. -/
def pageFlagAllNull : Nat := 0x200

/-- `PAGE_FLAG_ALL_NON_NULL`. -/
def pageFlagAllNonNull : Nat := 0x400

/-- `PAGE_FLAG_VALUE_STREAM_ELIDED`. -/
def pageFlagValueStreamElided : Nat := 0x800

/-- A bit of the flags is set. -/
def hasFlag (flags bit : Nat) : Bool := flags &&& bit != 0

/-- `page_flag_codec`: the low byte; the bits above the known flags are reserved. -/
def pageFlagCodec (flags : Nat) : Except CoveError CompressionCodec :=
  if flags / 0x1000 ≠ 0 then
    .error (.badSection ("page flags reserved bits must be zero (flags=0x" ++
      String.ofList (TextOps.hexText 8 flags) ++ ")"))
  else
    match flags % 0x100 with
    | 0 => .ok .none
    | 1 => .ok .lz4
    | 2 => .ok .zstd
    | raw => .error (.badSection s!"unknown page compression codec {raw}")

/-- `page_uses_payload_elision`. -/
def pageUsesPayloadElision (flags : Nat) : Bool :=
  hasFlag flags pageFlagStatsOnlyConstant || hasFlag flags pageFlagAllNull ||
    hasFlag flags pageFlagAllNonNull || hasFlag flags pageFlagValueStreamElided

structure ColumnPageIndexEntryV1 where
  columnId : Nat
  morselId : Nat
  rowCount : Nat
  nonNullCount : Nat
  nullCount : Nat
  encodingRoot : Nat
  pageOffset : Nat
  pageLength : Nat
  uncompressedLength : Nat
  statsRef : Nat
  flags : Nat
  checksum : Nat
  deriving DecidableEq, Repr

/-- The fields in their order. -/
def ColumnPageIndexEntryV1.fields (self : ColumnPageIndexEntryV1) : List (Nat × Nat) :=
  [(4, self.columnId), (4, self.morselId), (4, self.rowCount), (4, self.nonNullCount),
    (4, self.nullCount), (4, self.encodingRoot), (8, self.pageOffset), (8, self.pageLength),
    (8, self.uncompressedLength), (4, self.statsRef), (4, self.flags), (4, self.checksum)]

def ColumnPageIndexEntryV1.serialize (self : ColumnPageIndexEntryV1) : List UInt8 :=
  FieldRecord.encode self.fields

/-- The checks of `parse` on a page without bytes, and that no other page is one. -/
def ColumnPageIndexEntryV1.checkStatsOnly (self : ColumnPageIndexEntryV1)
    (codec : CompressionCodec) : Except CoveError Unit :=
  if hasFlag self.flags pageFlagStatsOnlyConstant then
    if !hasFlag self.flags pageFlagAllNull && !hasFlag self.flags pageFlagAllNonNull then
      .error (.badSection
        "PAGE_FLAG_STATS_ONLY_CONSTANT requires PAGE_FLAG_ALL_NULL or PAGE_FLAG_ALL_NON_NULL")
    else if codec ≠ .none then
      .error (.badSection "stats-only constant pages must use page codec=None")
    else if self.pageLength ≠ 0 ∨ self.uncompressedLength ≠ 0 then
      .error (.badSection
        "stats-only constant pages must have page_length=0 and uncompressed_length=0")
    else if self.pageOffset ≠ 0 then
      .error (.badSection "stats-only constant pages must set page_offset=0")
    else if self.encodingRoot ≠ 0xFFFFFFFF then
      .error (.badSection "stats-only constant pages must set encoding_root=u32::MAX")
    else if self.checksum ≠ crc32c [] then
      .error (.badSection "stats-only constant pages must use the empty-page checksum")
    else .ok ()
  else if self.pageLength = 0 then
    .error (.badSection "page_length=0 requires PAGE_FLAG_STATS_ONLY_CONSTANT")
  else .ok ()

/-- The checks of `parse` on the flags and lengths of a page. -/
def ColumnPageIndexEntryV1.check (self : ColumnPageIndexEntryV1) (codec : CompressionCodec) :
    Except CoveError Unit :=
  let allNull := hasFlag self.flags pageFlagAllNull
  let allNonNull := hasFlag self.flags pageFlagAllNonNull
  if allNull && allNonNull then
    .error (.badSection "PAGE_FLAG_ALL_NULL and PAGE_FLAG_ALL_NON_NULL are mutually exclusive")
  else if allNull && (self.nullCount != self.rowCount || self.nonNullCount != 0) then
    .error .pageCorrupt
  else if allNonNull && (self.nullCount != 0 || self.nonNullCount != self.rowCount) then
    .error .pageCorrupt
  else do
    self.checkStatsOnly crc32c codec
    if codec = .none ∧ self.pageLength ≠ self.uncompressedLength then
      .error (.badSection "uncompressed_length must equal page_length when page codec=None")
    else if self.pageLength = 0 ∧ self.uncompressedLength ≠ 0 then
      .error (.badSection "page_length=0 requires uncompressed_length=0")
    else if self.pageLength ≠ 0 ∧ codec ≠ .none ∧ self.uncompressedLength = 0 then
      .error (.badSection "compressed page must declare non-zero uncompressed_length")
    else .ok ()

def ColumnPageIndexEntryV1.parse (bytes : List UInt8) : Except CoveError ColumnPageIndexEntryV1 :=
  if bytes.length < columnPageIndexEntryLen then .error .bufferTooShort
  else do
    let bytes := bytes.take columnPageIndexEntryLen
    let entry : ColumnPageIndexEntryV1 := {
      columnId := fieldNat bytes 0 4
      morselId := fieldNat bytes 4 4
      rowCount := fieldNat bytes 8 4
      nonNullCount := fieldNat bytes 12 4
      nullCount := fieldNat bytes 16 4
      encodingRoot := fieldNat bytes 20 4
      pageOffset := fieldNat bytes 24 8
      pageLength := fieldNat bytes 32 8
      uncompressedLength := fieldNat bytes 40 8
      statsRef := fieldNat bytes 48 4
      flags := fieldNat bytes 52 4
      checksum := fieldNat bytes 56 4
    }
    let sum ← checkedAddU32 entry.nonNullCount entry.nullCount
    if sum ≠ entry.rowCount then .error .pageCorrupt
    else
      let codec ← pageFlagCodec entry.flags
      entry.check crc32c codec
      .ok entry

/-- `ColumnPageIndex::parse`, by its entries. -/
def parseColumnPageIndex (bytes : List UInt8) : Except CoveError (List ColumnPageIndexEntryV1) :=
  if bytes.length % columnPageIndexEntryLen ≠ 0 then .error .pageCorrupt
  else
    (List.range (bytes.length / columnPageIndexEntryLen)).mapM fun i =>
      ColumnPageIndexEntryV1.parse crc32c
        (fieldBytes bytes (i * columnPageIndexEntryLen) columnPageIndexEntryLen)

/-! ## Directories -/

/-- `TableSegmentPayloadV1`: what stands before the page indexes. -/
structure TableSegmentPayloadV1 where
  header : TableSegmentHeaderV1
  morsels : RowMorselDirectory
  columns : List TableColumnDirectoryEntryV1
  deriving DecidableEq, Repr

/-- The part that both parsers write out in the same words: the header, the places of the
regions, and the two directories. -/
def readDirectories (bytes : List UInt8) : Except CoveError TableSegmentPayloadV1 := do
  let header ← TableSegmentHeaderV1.parse crc32c bytes
  if header.rowCount = 0 && header.morselCount ≠ 0 then .error .segmentCorrupt
  else if header.rowCount ≠ 0 && header.morselRowCount = 0 then .error .segmentCorrupt
  else
    let morselOffset := header.morselDirectoryOffset
    if morselOffset < tableSegmentHeaderLen || morselOffset > bytes.length then
      .error .segmentCorrupt
    else
      let morselDirLen ← checkedMul header.morselCount rowMorselEntryLen
      let morselEnd ← checkedAdd morselOffset morselDirLen
      if morselEnd > bytes.length then .error .segmentCorrupt
      else if header.columnDirectoryOffset < morselEnd ||
          header.pageIndexOffset < header.columnDirectoryOffset ||
          header.dataOffset < header.pageIndexOffset || header.dataOffset > bytes.length then
        .error .segmentCorrupt
      else
        let morsels ← RowMorselDirectory.parse crc32c
          (fieldBytes bytes morselOffset morselDirLen) header.morselCount
        if morsels.sumRows ≠ header.rowCount then .error .segmentCorrupt
        else
          let columnDirLen ← checkedMul header.columnCount tableColumnDirectoryEntryLen
          let columnDirEnd ← checkedAdd header.columnDirectoryOffset columnDirLen
          if columnDirEnd > header.pageIndexOffset then .error .segmentCorrupt
          else
            let columns ← (List.range header.columnCount).mapM fun i =>
              TableColumnDirectoryEntryV1.parse crc32c
                (fieldBytes bytes (header.columnDirectoryOffset + i * tableColumnDirectoryEntryLen)
                  tableColumnDirectoryEntryLen)
            .ok ⟨header, morsels, columns⟩

/-! ## The parser of whole segments -/

/-- `FEATURE_PAGE_PAYLOAD_ELISION`. -/
def featurePagePayloadElision : Nat := 0x2000000

/-- The text that both parsers report. -/
def payloadElisionMessage : String :=
  "page payload-elision flags require FEATURE_PAGE_PAYLOAD_ELISION in required_features"

structure PageValidationContext where
  tableId : Nat
  segmentId : Nat
  columnId : Nat
  logicalType : CoveLogicalType
  physicalKind : CovePhysicalKind
  deriving DecidableEq, Repr

/- `pageCheck` is `validate_column_page_wire`, the decoder's check of the bytes of a page. -/
variable (pageCheck : PageValidationContext → ColumnPageIndexEntryV1 → List UInt8 →
  Except CoveError Unit)

/-- The body of the loop over the pages of a column. The morsel of a page is found by position. -/
def checkPage (bytes : List UInt8) (requiredFeatures : Option Nat)
    (payload : TableSegmentPayloadV1) (column : TableColumnDirectoryEntryV1) (columnDataEnd : Nat)
    (page : ColumnPageIndexEntryV1) : Except CoveError Unit :=
  if page.columnId ≠ column.columnId then .error .pageCorrupt
  else
    match payload.morsels[page.morselId]? with
    | none => .error .segmentCorrupt
    | some morsel =>
      if page.rowCount ≠ morsel.rowCount then .error .pageCorrupt
      else if pageUsesPayloadElision page.flags &&
          requiredFeatures.any fun bits => !hasFlag bits featurePagePayloadElision then
        .error (.badSection payloadElisionMessage)
      else if hasFlag page.flags pageFlagStatsOnlyConstant then
        if page.pageOffset ≠ 0 || page.pageLength ≠ 0 then .error .pageCorrupt
        else if crc32c [] ≠ page.checksum then .error .checksumMismatch
        else .ok ()
      else do
        let pageEnd ← checkedAdd page.pageOffset page.pageLength
        if page.pageOffset < column.dataOffset || pageEnd > columnDataEnd then .error .pageCorrupt
        else
          let pageWire := fieldBytes bytes page.pageOffset page.pageLength
          if crc32c pageWire ≠ page.checksum then .error .checksumMismatch
          else
            pageCheck ⟨payload.header.tableId, payload.header.segmentId, column.columnId,
              column.logicalType, column.physicalKind⟩ page pageWire

/-- The body of the loop over the columns. -/
def checkColumn (bytes : List UInt8) (requiredFeatures : Option Nat)
    (payload : TableSegmentPayloadV1) (column : TableColumnDirectoryEntryV1) :
    Except CoveError Unit := do
  let columnPageIndexEnd ← checkedAdd column.pageIndexOffset column.pageIndexLength
  if column.pageIndexOffset < payload.header.pageIndexOffset ||
      columnPageIndexEnd > payload.header.dataOffset then .error .segmentCorrupt
  else
    let columnDataEnd ← checkedAdd column.dataOffset column.dataLength
    if column.dataOffset < payload.header.dataOffset || columnDataEnd > bytes.length then
      .error .segmentCorrupt
    else
      let pageIndex ← parseColumnPageIndex crc32c
        (fieldBytes bytes column.pageIndexOffset column.pageIndexLength)
      pageIndex.forM (checkPage crc32c pageCheck bytes requiredFeatures payload column
        columnDataEnd)

/-- `TableSegmentPayloadV1::parse_inner`; `parse` requires no features. -/
def TableSegmentPayloadV1.parseInner (bytes : List UInt8) (requiredFeatures : Option Nat) :
    Except CoveError TableSegmentPayloadV1 := do
  let payload ← readDirectories crc32c bytes
  payload.columns.forM (checkColumn crc32c pageCheck bytes requiredFeatures payload)
  .ok payload

end

end Cove.SegmentPayload
