import Cove.Core.SegmentPayload
import Cove.Lib.Digests
import Cove.Lib.Spans

/-!
# Column page payloads

The container of a page: a header, the nodes of the encoding tree, the directory of the buffers,
and the buffers.

- `ColumnPagePayloadV1.parse`, `ColumnPagePayloadV1.serialize`: the reader and the writer.
- `ascending_of_parseBuffers`: the buffers that are accepted ascend, and end with the payload.
- `parse_contiguous_iff`: **they leave no gap exactly when their lengths fill the data area**, and
  only then the payload is written back.
- `ColumnPagePayloadV1.gap_accepted`: a payload with a gap.
-/

namespace Cove

open Checked
open SegmentPayload (logicalTypeFromU16 physicalKindFromU8)

/-! ## Records -/

/-- `COLUMN_PAGE_PAYLOAD_MAGIC`. -/
def columnPagePayloadMagic : List UInt8 := [67, 80, 71, 49]

/-- `COLUMN_PAGE_PAYLOAD_HEADER_LEN`. -/
def columnPagePayloadHeaderLen : Nat := 36

/-- `COVE_ENCODING_NODE_LEN`. -/
def coveEncodingNodeLen : Nat := 30

/-- `PAGE_BUFFER_DESCRIPTOR_LEN`. -/
def pageBufferDescriptorLen : Nat := 32

inductive BufferChecksumValidation where
  | verify
  | trusted
  deriving DecidableEq, Repr

inductive PageBufferKind where
  | nullBitmap
  | values
  | offsets
  | childLayout
  | other
  deriving DecidableEq, Repr

/-- `PageBufferKind::from_u16`. -/
def PageBufferKind.fromU16 : Nat → Option PageBufferKind
  | 0 => some nullBitmap
  | 1 => some values
  | 2 => some offsets
  | 3 => some childLayout
  | 255 => some other
  | _ => none

/-- `kind as u16`. -/
def PageBufferKind.code : PageBufferKind → Nat
  | nullBitmap => 0
  | values => 1
  | offsets => 2
  | childLayout => 3
  | other => 255

theorem PageBufferKind.code_of_fromU16 {code : Nat} {kind : PageBufferKind}
    (h : fromU16 code = some kind) : kind.code = code := by
  unfold fromU16 at h
  split at h <;> cases h <;> rfl

/-- `CoveEncodingKind::from_u16`. -/
def CoveEncodingKind.fromU16 : Nat → Option CoveEncodingKind
  | 0 => some canonical
  | 1 => some validity
  | 2 => some constant
  | 3 => some fileCode
  | 4 => some numCode
  | 5 => some localCodebook
  | 6 => some rle
  | 7 => some runEnd
  | 8 => some bitPacked
  | 9 => some delta
  | 10 => some frameOfReference
  | 11 => some patchedBase
  | 12 => some sparse
  | 13 => some sequence
  | 14 => some plainFixed
  | 15 => some plainVarint
  | 16 => some varBytes
  | 17 => some lz4Block
  | 18 => some zstdBlock
  | 19 => some registeredEncoding
  | _ => none

/-- `encoding_kind as u16`. -/
def CoveEncodingKind.code : CoveEncodingKind → Nat
  | canonical => 0
  | validity => 1
  | constant => 2
  | fileCode => 3
  | numCode => 4
  | localCodebook => 5
  | rle => 6
  | runEnd => 7
  | bitPacked => 8
  | delta => 9
  | frameOfReference => 10
  | patchedBase => 11
  | sparse => 12
  | sequence => 13
  | plainFixed => 14
  | plainVarint => 15
  | varBytes => 16
  | lz4Block => 17
  | zstdBlock => 18
  | registeredEncoding => 19

theorem CoveEncodingKind.code_of_fromU16 {code : Nat} {kind : CoveEncodingKind}
    (h : fromU16 code = some kind) : kind.code = code := by
  unfold fromU16 at h
  split at h <;> cases h <;> rfl

theorem code_of_logicalTypeFromU16 {code : Nat} {logical : CoveLogicalType}
    (h : logicalTypeFromU16 code = some logical) : logical.code = code := by
  unfold logicalTypeFromU16 at h
  split at h <;> cases h <;> rfl

theorem code_of_physicalKindFromU8 {code : Nat} {physical : CovePhysicalKind}
    (h : physicalKindFromU8 code = some physical) : physical.code = code := by
  unfold physicalKindFromU8 at h
  split at h <;> cases h <;> rfl

/-- `ColumnPagePayloadHeaderV1`. -/
structure ColumnPagePayloadHeaderV1 where
  magic : List UInt8
  versionMajor : Nat
  headerLen : Nat
  flags : Nat
  rootNodeId : Nat
  nodeCount : Nat
  bufferCount : Nat
  rowCount : Nat
  nodesOffset : Nat
  bufferDirectoryOffset : Nat
  buffersOffset : Nat
  reserved : Nat
  deriving DecidableEq, Repr

namespace ColumnPagePayloadHeaderV1

def fields (self : ColumnPagePayloadHeaderV1) : List (Nat × Nat) :=
  [(4, LittleEndian.ofLe self.magic), (2, self.versionMajor), (2, self.headerLen), (2, self.flags),
    (2, self.rootNodeId), (2, self.nodeCount), (2, self.bufferCount), (4, self.rowCount),
    (4, self.nodesOffset), (4, self.bufferDirectoryOffset), (4, self.buffersOffset),
    (4, self.reserved)]

/-- `serialize`. -/
def serialize (self : ColumnPagePayloadHeaderV1) : List UInt8 := FieldRecord.encode self.fields

/-- `parse`. -/
def parse (bytes : List UInt8) : Except CoveError ColumnPagePayloadHeaderV1 :=
  if bytes.length < columnPagePayloadHeaderLen then .error .bufferTooShort
  else if fieldBytes bytes 0 4 ≠ columnPagePayloadMagic then .error .badMagic
  else if fieldNat bytes 4 2 ≠ 1 then .error .badVersion
  else if fieldNat bytes 6 2 ≠ columnPagePayloadHeaderLen then
    .error (.badSection s!"column page payload header_len must be {columnPagePayloadHeaderLen}, got {fieldNat bytes 6 2}")
  else if fieldNat bytes 8 2 ≠ 0 then
    .error (.badSection "column page payload flags are reserved and must be zero")
  else if fieldNat bytes 32 4 ≠ 0 then .error .reservedNotZero
  else
    .ok
      { magic := fieldBytes bytes 0 4
        versionMajor := fieldNat bytes 4 2
        headerLen := fieldNat bytes 6 2
        flags := fieldNat bytes 8 2
        rootNodeId := fieldNat bytes 10 2
        nodeCount := fieldNat bytes 12 2
        bufferCount := fieldNat bytes 14 2
        rowCount := fieldNat bytes 16 4
        nodesOffset := fieldNat bytes 20 4
        bufferDirectoryOffset := fieldNat bytes 24 4
        buffersOffset := fieldNat bytes 28 4
        reserved := fieldNat bytes 32 4 }

end ColumnPagePayloadHeaderV1

/-- `CoveEncodingNodeV1`. -/
structure CoveEncodingNodeV1 where
  nodeId : Nat
  encodingKind : CoveEncodingKind
  logicalType : CoveLogicalType
  physicalKind : CovePhysicalKind
  flags : Nat
  logicalLen : Nat
  childCount : Nat
  bufferCount : Nat
  paramsOffset : Nat
  paramsLength : Nat
  statsId : Nat
  reserved : Nat
  deriving DecidableEq, Repr

namespace CoveEncodingNodeV1

def fields (self : CoveEncodingNodeV1) : List (Nat × Nat) :=
  [(2, self.nodeId), (2, self.encodingKind.code), (2, self.logicalType.code),
    (1, self.physicalKind.code), (1, self.flags), (4, self.logicalLen), (2, self.childCount),
    (2, self.bufferCount), (4, self.paramsOffset), (4, self.paramsLength), (4, self.statsId),
    (2, self.reserved)]

/-- `serialize`. -/
def serialize (self : CoveEncodingNodeV1) : List UInt8 := FieldRecord.encode self.fields

/-- `parse`. -/
def parse (bytes : List UInt8) : Except CoveError CoveEncodingNodeV1 :=
  if bytes.length < coveEncodingNodeLen then .error .bufferTooShort
  else
    match CoveEncodingKind.fromU16 (fieldNat bytes 2 2), logicalTypeFromU16 (fieldNat bytes 4 2),
      physicalKindFromU8 (fieldNat bytes 6 1) with
    | none, _, _ =>
      .error (.unsupportedEncoding s!"unknown encoding kind {fieldNat bytes 2 2}")
    | _, none, _ => .error (.badSchema s!"unknown logical type {fieldNat bytes 4 2}")
    | _, _, none => .error (.badSchema s!"unknown physical kind {fieldNat bytes 6 1}")
    | some encodingKind, some logicalType, some physicalKind =>
      if fieldNat bytes 28 2 ≠ 0 then .error .reservedNotZero
      else
        .ok
          { nodeId := fieldNat bytes 0 2
            encodingKind := encodingKind
            logicalType := logicalType
            physicalKind := physicalKind
            flags := fieldNat bytes 7 1
            logicalLen := fieldNat bytes 8 4
            childCount := fieldNat bytes 12 2
            bufferCount := fieldNat bytes 14 2
            paramsOffset := fieldNat bytes 16 4
            paramsLength := fieldNat bytes 20 4
            statsId := fieldNat bytes 24 4
            reserved := fieldNat bytes 28 2 }

end CoveEncodingNodeV1

/-- `PageBufferDescriptorV1`. -/
structure PageBufferDescriptorV1 where
  bufferId : Nat
  kind : PageBufferKind
  flags : Nat
  offset : Nat
  length : Nat
  checksum : Nat
  reserved : Nat
  deriving DecidableEq, Repr

namespace PageBufferDescriptorV1

def fields (self : PageBufferDescriptorV1) : List (Nat × Nat) :=
  [(2, self.bufferId), (2, self.kind.code), (4, self.flags), (8, self.offset), (8, self.length),
    (4, self.checksum), (4, self.reserved)]

/-- `serialize`. -/
def serialize (self : PageBufferDescriptorV1) : List UInt8 := FieldRecord.encode self.fields

/-- `parse`. -/
def parse (bytes : List UInt8) : Except CoveError PageBufferDescriptorV1 :=
  if bytes.length < pageBufferDescriptorLen then .error .bufferTooShort
  else
    match PageBufferKind.fromU16 (fieldNat bytes 2 2) with
    | none => .error (.badSection s!"unknown page buffer kind {fieldNat bytes 2 2}")
    | some kind =>
      if fieldNat bytes 4 4 ≠ 0 then
        .error (.badSection "page buffer flags are reserved and must be zero")
      else if fieldNat bytes 28 4 ≠ 0 then .error .reservedNotZero
      else
        .ok
          { bufferId := fieldNat bytes 0 2
            kind := kind
            flags := fieldNat bytes 4 4
            offset := fieldNat bytes 8 8
            length := fieldNat bytes 16 8
            checksum := fieldNat bytes 24 4
            reserved := fieldNat bytes 28 4 }

/-- Where the buffer stands in the payload. -/
def span (self : PageBufferDescriptorV1) : Spans.Span := ⟨self.offset, self.length⟩

end PageBufferDescriptorV1

/-! ## The payload -/

/-- `ColumnPagePayloadV1`. -/
structure ColumnPagePayloadV1 where
  header : ColumnPagePayloadHeaderV1
  nodes : List CoveEncodingNodeV1
  buffers : List PageBufferDescriptorV1
  data : List UInt8
  deriving DecidableEq, Repr

section

variable (crc32c : List UInt8 → Nat)

/-- The loop over the buffer directory: the descriptors that are left from a place on, with the
id of the next and the end of the last, and the end of them all. -/
def parseBuffers (validation : BufferChecksumValidation) (bytes : List UInt8)
    (buffersOffset pos expectedId previousEnd : Nat) :
    Nat → Except CoveError (List PageBufferDescriptorV1 × Nat)
  | 0 => .ok ([], previousEnd)
  | count + 1 => do
    let descriptor ← PageBufferDescriptorV1.parse (fieldBytes bytes pos pageBufferDescriptorLen)
    if descriptor.bufferId ≠ expectedId then .error .pageCorrupt
    else if descriptor.offset < buffersOffset ∨ descriptor.offset < previousEnd then
      .error .pageCorrupt
    else do
      let stop ← checkedAdd descriptor.offset descriptor.length
      if stop > bytes.length then .error .offsetRange
      else if validation = .verify ∧
          crc32c (fieldBytes bytes descriptor.offset descriptor.length) ≠ descriptor.checksum then
        .error .checksumMismatch
      else do
        let (descriptors, last) ← parseBuffers validation bytes buffersOffset
          (pos + pageBufferDescriptorLen) (expectedId + 1) stop count
        .ok (descriptor :: descriptors, last)

namespace ColumnPagePayloadV1

/-- `parse_column_page_payload_parts`, with the bytes as its data. -/
def parseParts (validation : BufferChecksumValidation) (bytes : List UInt8) :
    Except CoveError ColumnPagePayloadV1 := do
  let header ← ColumnPagePayloadHeaderV1.parse bytes
  if header.nodesOffset ≠ columnPagePayloadHeaderLen ∨
      header.bufferDirectoryOffset < header.nodesOffset ∨
      header.buffersOffset < header.bufferDirectoryOffset ∨
      header.buffersOffset > bytes.length then .error .pageCorrupt
  else do
    let nodeRegionLen ← checkedMul header.nodeCount coveEncodingNodeLen
    let expectedBufferDirectoryOffset ← checkedAdd header.nodesOffset nodeRegionLen
    if header.bufferDirectoryOffset ≠ expectedBufferDirectoryOffset then .error .pageCorrupt
    else do
      let bufferRegionLen ← checkedMul header.bufferCount pageBufferDescriptorLen
      let expectedBuffersOffset ← checkedAdd header.bufferDirectoryOffset bufferRegionLen
      if header.buffersOffset ≠ expectedBuffersOffset then .error .pageCorrupt
      else if header.nodeCount = 0 then .error .pageCorrupt
      else do
        let nodes ← (List.range header.nodeCount).mapM fun i =>
          CoveEncodingNodeV1.parse
            (fieldBytes bytes (header.nodesOffset + i * coveEncodingNodeLen) coveEncodingNodeLen)
        if ¬ (nodes.map CoveEncodingNodeV1.nodeId).Nodup then .error .pageCorrupt
        else
          match nodes.filter fun node => node.nodeId == header.rootNodeId with
          | [root] =>
            if root.logicalLen ≠ header.rowCount then .error .pageCorrupt
            else do
              let (buffers, previousEnd) ← parseBuffers crc32c validation bytes
                header.buffersOffset header.bufferDirectoryOffset 0 header.buffersOffset
                header.bufferCount
              if previousEnd ≠ bytes.length then .error .pageCorrupt
              else .ok ⟨header, nodes, buffers, bytes⟩
          | _ => .error .pageCorrupt

/-- `parse`. -/
def parse (bytes : List UInt8) : Except CoveError ColumnPagePayloadV1 :=
  parseParts crc32c .verify bytes

/-- The bytes of a buffer, as `serialize` copies them. -/
def contents (self : ColumnPagePayloadV1) (buffer : PageBufferDescriptorV1) :
    Except CoveError (List UInt8) := do
  let stop ← checkedAdd buffer.offset buffer.length
  if stop > self.data.length then .error .offsetRange
  else .ok (fieldBytes self.data buffer.offset buffer.length)

/-- `serialize`. -/
def serialize (self : ColumnPagePayloadV1) : Except CoveError (List UInt8) :=
  if self.nodes = [] then .error .pageCorrupt
  else do
    let contents ← self.buffers.mapM self.contents
    let parsed ← parse crc32c (self.header.serialize ++
      self.nodes.flatMap CoveEncodingNodeV1.serialize ++
      self.buffers.flatMap PageBufferDescriptorV1.serialize ++ contents.flatten)
    .ok parsed.data

end ColumnPagePayloadV1

end

/-! ## Records are written as they were read -/

variable {header : ColumnPagePayloadHeaderV1}

theorem ColumnPagePayloadHeaderV1.readAt_of_parse {bytes : List UInt8}
    (h : parse bytes = .ok header) :
    columnPagePayloadHeaderLen ≤ bytes.length ∧ FieldRecord.ReadAt bytes 0 header.fields := by
  unfold parse at h
  obtain ⟨hlong, h⟩ := ite_error_eq_ok.mp h
  obtain ⟨-, h⟩ := ite_error_eq_ok.mp h
  obtain ⟨-, h⟩ := ite_error_eq_ok.mp h
  obtain ⟨-, h⟩ := ite_error_eq_ok.mp h
  obtain ⟨-, h⟩ := ite_error_eq_ok.mp h
  obtain ⟨-, h⟩ := ite_error_eq_ok.mp h
  obtain rfl := Except.ok.inj h
  exact ⟨Nat.not_lt.mp hlong,
    rfl, rfl, rfl, rfl, rfl, rfl, rfl, rfl, rfl, rfl, rfl, rfl, trivial⟩

theorem ColumnPagePayloadHeaderV1.serialize_of_parse {bytes : List UInt8}
    (h : parse bytes = .ok header) :
    header.serialize = bytes.take columnPagePayloadHeaderLen := by
  obtain ⟨hlong, hread⟩ := readAt_of_parse h
  exact FieldRecord.encode_of_readAt 0 hread hlong

variable {node : CoveEncodingNodeV1}

theorem CoveEncodingNodeV1.readAt_of_parse {bytes : List UInt8}
    (h : parse bytes = .ok node) : coveEncodingNodeLen ≤ bytes.length ∧
      FieldRecord.ReadAt bytes 0 node.fields ∧ node.reserved = 0 := by
  unfold parse at h
  obtain ⟨hlong, h⟩ := ite_error_eq_ok.mp h
  split at h
  · cases h
  · cases h
  · cases h
  next encoding logical physical hencoding hlogical hphysical =>
  obtain ⟨hreserved, h⟩ := ite_error_eq_ok.mp h
  obtain rfl := Except.ok.inj h
  exact ⟨Nat.not_lt.mp hlong,
    ⟨rfl, CoveEncodingKind.code_of_fromU16 hencoding, code_of_logicalTypeFromU16 hlogical,
      code_of_physicalKindFromU8 hphysical, rfl, rfl, rfl, rfl, rfl, rfl, rfl, rfl, trivial⟩,
    Decidable.of_not_not hreserved⟩

theorem CoveEncodingNodeV1.serialize_of_parse {bytes : List UInt8}
    (h : parse bytes = .ok node) : node.serialize = bytes.take coveEncodingNodeLen := by
  obtain ⟨hlong, hread, -⟩ := readAt_of_parse h
  exact FieldRecord.encode_of_readAt 0 hread hlong

theorem PageBufferDescriptorV1.serialize_of_parse {bytes : List UInt8}
    {descriptor : PageBufferDescriptorV1} (h : parse bytes = .ok descriptor) :
    descriptor.serialize = bytes.take pageBufferDescriptorLen := by
  unfold parse at h
  obtain ⟨hlong, h⟩ := ite_error_eq_ok.mp h
  split at h
  · cases h
  next kind hkind =>
  obtain ⟨-, h⟩ := ite_error_eq_ok.mp h
  obtain ⟨-, h⟩ := ite_error_eq_ok.mp h
  obtain rfl := Except.ok.inj h
  exact FieldRecord.encode_of_readAt 0
    ⟨rfl, PageBufferKind.code_of_fromU16 hkind, rfl, rfl, rfl, rfl, rfl, trivial⟩
    (Nat.not_lt.mp hlong)

/-! ## The buffers ascend -/

section

variable {crc32c : List UInt8 → Nat} {validation : BufferChecksumValidation} {bytes : List UInt8}

/-- What the loop over the buffer directory has checked. -/
theorem ascending_of_parseBuffers {buffersOffset pos expectedId previousEnd count last : Nat}
    {descriptors : List PageBufferDescriptorV1}
    (h : parseBuffers crc32c validation bytes buffersOffset pos expectedId previousEnd count =
      .ok (descriptors, last)) :
    descriptors.length = count ∧
      Spans.Ascending previousEnd (descriptors.map PageBufferDescriptorV1.span) last ∧
      (∀ descriptor ∈ descriptors, descriptor.offset + descriptor.length ≤ bytes.length ∧
        descriptor.offset + descriptor.length < 2 ^ 64) ∧
      ∀ i (hi : i < descriptors.length),
        PageBufferDescriptorV1.parse (fieldBytes bytes (pos + i * pageBufferDescriptorLen)
          pageBufferDescriptorLen) = .ok descriptors[i] := by
  induction count generalizing pos expectedId previousEnd descriptors with
  | zero =>
    obtain ⟨rfl, rfl⟩ := Prod.mk.inj (Except.ok.inj h)
    exact ⟨rfl, rfl, by simp, nofun⟩
  | succ count ih =>
    unfold parseBuffers at h
    obtain ⟨descriptor, hparse, h⟩ := bind_eq_ok.mp h
    obtain ⟨-, h⟩ := ite_error_eq_ok.mp h
    obtain ⟨hplace, h⟩ := ite_error_eq_ok.mp h
    obtain ⟨stop, hstop, h⟩ := bind_eq_ok.mp h
    obtain ⟨hlt, rfl⟩ := addU64_eq_ok.mp hstop
    obtain ⟨hend, h⟩ := ite_error_eq_ok.mp h
    obtain ⟨-, h⟩ := ite_error_eq_ok.mp h
    obtain ⟨⟨rest, last'⟩, hrest, h⟩ := bind_eq_ok.mp h
    obtain ⟨rfl, rfl⟩ := Prod.mk.inj (Except.ok.inj h)
    obtain ⟨hlength, hascending, hbounds, hread⟩ := ih hrest
    refine ⟨congrArg Nat.succ hlength, ⟨?_, hascending⟩, ?_, ?_⟩
    · show previousEnd ≤ descriptor.offset
      omega
    · exact List.forall_mem_cons.mpr ⟨⟨Nat.not_lt.mp hend, hlt⟩, hbounds⟩
    · rintro (_ | i) hi
      · rw [Nat.zero_mul, Nat.add_zero]
        exact hparse
      · rw [List.getElem_cons_succ, Nat.succ_mul, Nat.add_comm (i * _), ← Nat.add_assoc]
        exact hread i (Nat.lt_of_succ_lt_succ hi)

namespace ColumnPagePayloadV1

variable {payload : ColumnPagePayloadV1}

/-- What a payload that was accepted holds: the regions of its bytes, one after the other. -/
structure Laid (bytes : List UInt8) (payload : ColumnPagePayloadV1) : Prop where
  data : payload.data = bytes
  nodes : payload.nodes ≠ []
  regions : payload.header.serialize ++ payload.nodes.flatMap CoveEncodingNodeV1.serialize ++
    payload.buffers.flatMap PageBufferDescriptorV1.serialize =
      bytes.take payload.header.buffersOffset
  ascending : Spans.Ascending payload.header.buffersOffset
    (payload.buffers.map PageBufferDescriptorV1.span) bytes.length
  bounds : ∀ buffer ∈ payload.buffers, buffer.offset + buffer.length ≤ bytes.length ∧
    buffer.offset + buffer.length < 2 ^ 64

theorem laid_of_parse (h : parseParts crc32c validation bytes = .ok payload) :
    Laid bytes payload := by
  unfold parseParts at h
  obtain ⟨header, hheader, h⟩ := bind_eq_ok.mp h
  obtain ⟨hoffsets, h⟩ := ite_error_eq_ok.mp h
  obtain ⟨nodeRegionLen, hmul, h⟩ := bind_eq_ok.mp h
  obtain ⟨directoryOffset, hadd, h⟩ := bind_eq_ok.mp h
  obtain ⟨hdirectory, h⟩ := ite_error_eq_ok.mp h
  obtain ⟨bufferRegionLen, hmul', h⟩ := bind_eq_ok.mp h
  obtain ⟨buffersOffset, hadd', h⟩ := bind_eq_ok.mp h
  obtain ⟨hbuffersOffset, h⟩ := ite_error_eq_ok.mp h
  obtain ⟨hcount, h⟩ := ite_error_eq_ok.mp h
  obtain ⟨nodes, hnodes, h⟩ := bind_eq_ok.mp h
  obtain ⟨-, h⟩ := ite_error_eq_ok.mp h
  split at h
  next root hroots =>
    obtain ⟨-, h⟩ := ite_error_eq_ok.mp h
    obtain ⟨⟨buffers, last⟩, hbuffers, h⟩ := bind_eq_ok.mp h
    obtain ⟨hlast, h⟩ := ite_error_eq_ok.mp h
    obtain rfl := Except.ok.inj h
    obtain ⟨-, rfl⟩ := mulU64_eq_ok.mp hmul
    obtain ⟨-, rfl⟩ := addU64_eq_ok.mp hadd
    obtain ⟨-, rfl⟩ := mulU64_eq_ok.mp hmul'
    obtain ⟨-, rfl⟩ := addU64_eq_ok.mp hadd'
    obtain ⟨hbufferCount, hascending, hbounds, hread⟩ := ascending_of_parseBuffers hbuffers
    obtain ⟨hnodeCount, hget⟩ := Strides.getElem?_mapM_range hnodes
    obtain rfl : last = bytes.length := Decidable.of_not_not hlast
    have hstart : header.nodesOffset = columnPagePayloadHeaderLen := by tauto
    have hwithin : header.buffersOffset ≤ bytes.length := by omega
    rw [hstart] at hdirectory hget
    refine ⟨rfl, ?_, ?_, hascending, hbounds⟩
    · rintro rfl
      exact hcount hnodeCount.symm
    · -- each region is as long as its records, and starts where the one before it ends
      have hnodeBytes : nodes.flatMap CoveEncodingNodeV1.serialize =
          (bytes.drop columnPagePayloadHeaderLen).take (nodes.length * coveEncodingNodeLen) := by
        refine Strides.flatMap_of_blocks fun i hi => ?_
        obtain ⟨-, hparse⟩ := (hget i _).mp (List.getElem?_eq_getElem hi)
        rw [CoveEncodingNodeV1.serialize_of_parse hparse, fieldBytes, List.take_take, min_self]
      have hbufferBytes : buffers.flatMap PageBufferDescriptorV1.serialize =
          (bytes.drop header.bufferDirectoryOffset).take
            (buffers.length * pageBufferDescriptorLen) := by
        refine Strides.flatMap_of_blocks fun i hi => ?_
        rw [PageBufferDescriptorV1.serialize_of_parse (hread i hi), fieldBytes, List.take_take,
          min_self]
      have hdirectoryAt : header.bufferDirectoryOffset =
          columnPagePayloadHeaderLen + nodes.length * coveEncodingNodeLen := by
        rw [hnodeCount]
        exact Decidable.of_not_not hdirectory
      have hbuffersAt : header.buffersOffset =
          columnPagePayloadHeaderLen + nodes.length * coveEncodingNodeLen +
            buffers.length * pageBufferDescriptorLen := by
        rw [← hdirectoryAt, hbufferCount]
        exact Decidable.of_not_not hbuffersOffset
      show header.serialize ++ nodes.flatMap _ ++ buffers.flatMap _ =
        bytes.take header.buffersOffset
      rw [ColumnPagePayloadHeaderV1.serialize_of_parse hheader, hnodeBytes, hbufferBytes,
        hdirectoryAt, hbuffersAt, List.take_add, List.take_add]
  · cases h

/-- What is read from the data area of an accepted payload. -/
theorem contents_of_laid (hlaid : Laid bytes payload) :
    payload.buffers.mapM payload.contents =
      .ok (payload.buffers.map fun buffer => fieldBytes bytes buffer.offset buffer.length) := by
  rw [mapM_eq_ok]
  refine forall₂_map_self fun buffer hbuffer => ?_
  obtain ⟨hend, hlt⟩ := hlaid.bounds buffer hbuffer
  have hadd : checkedAdd buffer.offset buffer.length = .ok (buffer.offset + buffer.length) :=
    addU64_eq_ok.mpr ⟨hlt, rfl⟩
  unfold contents
  rw [hadd, ok_bind, hlaid.data, if_neg (Nat.not_lt.mpr hend)]

/-- A payload without gaps is written back as it was read. -/
theorem serialize_of_chain (h : parse crc32c bytes = .ok payload)
    (hchain : Spans.Chain payload.header.buffersOffset
      (payload.buffers.map PageBufferDescriptorV1.span) bytes.length) :
    payload.serialize crc32c = .ok bytes := by
  have hlaid := laid_of_parse h
  obtain ⟨hslices, hle⟩ := hchain.flatten_slices bytes
  have hdata : (payload.buffers.map fun buffer =>
      fieldBytes bytes buffer.offset buffer.length).flatten =
        bytes.drop payload.header.buffersOffset := by
    rw [List.map_map] at hslices
    rw [← List.take_of_length_le (i := bytes.length - payload.header.buffersOffset)
      (l := bytes.drop payload.header.buffersOffset) (Nat.le_of_eq List.length_drop)]
    exact hslices
  unfold serialize
  rw [if_neg hlaid.nodes, contents_of_laid hlaid, ok_bind, hlaid.regions, hdata,
    List.take_append_drop, h, ok_bind, hlaid.data]

/-- **The buffers of an accepted payload tile its data area, and the payload is written back, exactly
when the lengths of the buffers add up to the data area.** -/
theorem parse_contiguous_iff (h : parse crc32c bytes = .ok payload) :
    (Spans.Chain payload.header.buffersOffset
        (payload.buffers.map PageBufferDescriptorV1.span) bytes.length ∧
      payload.serialize crc32c = .ok bytes) ↔
      payload.header.buffersOffset +
        (payload.buffers.map PageBufferDescriptorV1.length).sum = bytes.length := by
  have hascending := (laid_of_parse h).ascending
  have htotal : Spans.total (payload.buffers.map PageBufferDescriptorV1.span) =
      (payload.buffers.map PageBufferDescriptorV1.length).sum := by
    rw [Spans.total, List.map_map]
    rfl
  rw [← htotal, ← hascending.chain_iff_sum]
  exact ⟨And.left, fun hchain => ⟨hchain, serialize_of_chain h hchain⟩⟩

end ColumnPagePayloadV1

end

/-! ## A payload with a gap -/

namespace ColumnPagePayloadV1

/-- A payload of one node and one buffer, the byte seven, with some bytes before the buffer. -/
def oneBuffer (gap : List UInt8) : ColumnPagePayloadV1 where
  header :=
    { magic := columnPagePayloadMagic
      versionMajor := 1
      headerLen := columnPagePayloadHeaderLen
      flags := 0
      rootNodeId := 0
      nodeCount := 1
      bufferCount := 1
      rowCount := 1
      nodesOffset := 36
      bufferDirectoryOffset := 66
      buffersOffset := 98
      reserved := 0 }
  nodes := [⟨0, .plainFixed, .uint8, .numCode, 0, 1, 0, 1, 0, 0, 0, 0⟩]
  buffers := [⟨0, .values, 0, 98 + gap.length, 1, Crc32c.crc32c [7], 0⟩]
  data := oneBufferBytes gap
where
  /-- Its bytes. -/
  oneBufferBytes (gap : List UInt8) : List UInt8 :=
    ColumnPagePayloadHeaderV1.serialize
        ⟨columnPagePayloadMagic, 1, columnPagePayloadHeaderLen, 0, 0, 1, 1, 1, 36, 66, 98, 0⟩ ++
      CoveEncodingNodeV1.serialize ⟨0, .plainFixed, .uint8, .numCode, 0, 1, 0, 1, 0, 0, 0, 0⟩ ++
      PageBufferDescriptorV1.serialize
        ⟨0, .values, 0, 98 + gap.length, 1, Crc32c.crc32c [7], 0⟩ ++ gap ++ [7]

theorem parse_contiguous_iff_tight :
    parse Crc32c.crc32c (oneBuffer []).data = .ok (oneBuffer []) ∧
      ((Spans.Chain 98 ((oneBuffer []).buffers.map PageBufferDescriptorV1.span)
          (oneBuffer []).data.length ∧
        (oneBuffer []).serialize Crc32c.crc32c = .ok (oneBuffer []).data) ↔
      98 + ((oneBuffer []).buffers.map PageBufferDescriptorV1.length).sum =
        (oneBuffer []).data.length) := by
  have h : parse Crc32c.crc32c (oneBuffer []).data = .ok (oneBuffer []) := by decide +kernel
  exact ⟨h, parse_contiguous_iff h⟩

/-- A byte that is in no buffer is accepted, and the payload cannot be written back. -/
theorem gap_accepted :
    (oneBuffer [0]).serialize Crc32c.crc32c = .error .offsetRange ∧
      ¬ ∀ (bytes : List UInt8) (payload : ColumnPagePayloadV1),
        parse Crc32c.crc32c bytes = .ok payload →
          Spans.Chain payload.header.buffersOffset
              (payload.buffers.map PageBufferDescriptorV1.span) bytes.length ∧
            payload.serialize Crc32c.crc32c = .ok bytes := by
  refine ⟨by decide +kernel, fun hclaim => ?_⟩
  have h : parse Crc32c.crc32c (oneBuffer [0]).data = .ok (oneBuffer [0]) := by decide +kernel
  obtain ⟨⟨hstart, -⟩, -⟩ := hclaim _ _ h
  exact absurd hstart (by decide)

end ColumnPagePayloadV1

end Cove
