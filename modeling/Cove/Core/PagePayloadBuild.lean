import Cove.Core.PagePayloadTree
import Cove.Lib.KeyedList

/-!
# Building a payload from a tree

- `buildTree`: the payload of nodes in preorder and the buffers of each.
- `parse_treeBytes`, `buildable_of_parse`: **what was laid out is read back, and only then it is
  built**.
- `payloadTree_round_trip`: **the tree of a payload is its preorder, and a tree is built into a
  payload that has it again**.
-/

namespace Cove

open Checked
open Preorder
open SegmentPayload (logicalTypeFromU16 physicalKindFromU8)

/-! ## Records are read as they were written -/

theorem PageBufferKind.fromU16_code (kind : PageBufferKind) : fromU16 kind.code = some kind := by
  cases kind <;> rfl

theorem CoveEncodingKind.fromU16_code (kind : CoveEncodingKind) :
    fromU16 kind.code = some kind := by
  cases kind <;> rfl

theorem logicalTypeFromU16_code (logical : CoveLogicalType) :
    logicalTypeFromU16 logical.code = some logical := by
  cases logical <;> rfl

theorem physicalKindFromU8_code (physical : CovePhysicalKind) :
    physicalKindFromU8 physical.code = some physical := by
  cases physical <;> rfl

/-- A header of the current version. -/
structure ColumnPagePayloadHeaderV1.Current (header : ColumnPagePayloadHeaderV1) : Prop where
  magic : header.magic = columnPagePayloadMagic
  versionMajor : header.versionMajor = 1
  headerLen : header.headerLen = columnPagePayloadHeaderLen
  flags : header.flags = 0
  reserved : header.reserved = 0
  fits : FieldRecord.Fits header.fields

theorem ColumnPagePayloadHeaderV1.parse_serialize {header : ColumnPagePayloadHeaderV1}
    (hcurrent : header.Current) (rest : List UInt8) :
    parse (header.serialize ++ rest) = .ok header := by
  obtain ⟨hmagic, hversion, hlen, hflags, hreserved, hfits⟩ := hcurrent
  have h : ∀ offset w {value : Nat}, FieldRecord.fieldAt header.fields offset w = some value →
      fieldNat (header.serialize ++ rest) offset w = value :=
    fun _ _ _ hat => fieldNat_encode hfits hat rest
  have hbytes : fieldBytes (header.serialize ++ rest) 0 4 = header.magic :=
    fieldBytes_encode (by rw [hmagic]; rfl) rfl rest
  have hlong : ¬ (header.serialize ++ rest).length < columnPagePayloadHeaderLen := by
    rw [List.length_append, serialize, FieldRecord.length_encode]
    exact Nat.not_lt.mpr (Nat.le_add_right _ _)
  unfold parse
  rw [if_neg hlong, hbytes, if_neg (not_not_intro hmagic), h 4 2 rfl,
    if_neg (not_not_intro hversion), h 6 2 rfl, if_neg (not_not_intro hlen), h 8 2 rfl,
    if_neg (not_not_intro hflags), h 32 4 rfl, if_neg (not_not_intro hreserved), h 10 2 rfl,
    h 12 2 rfl, h 14 2 rfl, h 16 4 rfl, h 20 4 rfl, h 24 4 rfl, h 28 4 rfl]

theorem CoveEncodingNodeV1.parse_serialize {node : CoveEncodingNodeV1}
    (hfits : FieldRecord.Fits node.fields) :
    parse node.serialize =
      if node.reserved ≠ 0 then .error .reservedNotZero else .ok node := by
  have hnil : node.serialize = FieldRecord.encode node.fields ++ [] := (List.append_nil _).symm
  have h : ∀ offset w {value : Nat}, FieldRecord.fieldAt node.fields offset w = some value →
      fieldNat node.serialize offset w = value :=
    fun _ _ _ hat => hnil ▸ fieldNat_encode hfits hat []
  have hlong : ¬ node.serialize.length < coveEncodingNodeLen := by
    rw [serialize, FieldRecord.length_encode]
    exact Nat.lt_irrefl _
  unfold parse
  rw [if_neg hlong, h 2 2 rfl, h 4 2 rfl, h 6 1 rfl, CoveEncodingKind.fromU16_code,
    logicalTypeFromU16_code, physicalKindFromU8_code]
  show (if fieldNat node.serialize 28 2 ≠ 0 then _ else _) = _
  rw [h 28 2 rfl, h 0 2 rfl, h 7 1 rfl, h 8 4 rfl, h 12 2 rfl, h 14 2 rfl, h 16 4 rfl,
    h 20 4 rfl, h 24 4 rfl]

theorem PageBufferDescriptorV1.parse_serialize {descriptor : PageBufferDescriptorV1}
    (hflags : descriptor.flags = 0) (hreserved : descriptor.reserved = 0)
    (hfits : FieldRecord.Fits descriptor.fields) :
    parse descriptor.serialize = .ok descriptor := by
  have hnil : descriptor.serialize = FieldRecord.encode descriptor.fields ++ [] :=
    (List.append_nil _).symm
  have h : ∀ offset w {value : Nat},
      FieldRecord.fieldAt descriptor.fields offset w = some value →
      fieldNat descriptor.serialize offset w = value :=
    fun _ _ _ hat => hnil ▸ fieldNat_encode hfits hat []
  have hlong : ¬ descriptor.serialize.length < pageBufferDescriptorLen := by
    rw [serialize, FieldRecord.length_encode]
    exact Nat.lt_irrefl _
  unfold parse
  rw [if_neg hlong, h 2 2 rfl, PageBufferKind.fromU16_code]
  show (if fieldNat descriptor.serialize 4 4 ≠ 0 then _ else _) = _
  rw [h 4 4 rfl, if_neg (not_not_intro hflags), h 28 4 rfl, if_neg (not_not_intro hreserved),
    h 0 2 rfl, h 8 8 rfl, h 16 8 rfl, h 24 4 rfl]

/-! ## The builder -/

variable {bytes : List UInt8} {payload : ColumnPagePayloadV1}

namespace ColumnPagePayloadV1

/-- `tree`. -/
def tree (self : ColumnPagePayloadV1) : Except CoveError PagePayloadTreeNode :=
  payloadTree self.nodes self.buffers self.header.rootNodeId

/-- A buffer of the payload: its kind, and what `buffer_bytes_for_descriptor` finds. -/
def buffer (self : ColumnPagePayloadV1) (descriptor : PageBufferDescriptorV1) :
    PageBufferKind × List UInt8 :=
  (descriptor.kind, fieldBytes self.data descriptor.offset descriptor.length)

section

variable (crc32c : List UInt8 → Nat)

/-- The header that `build_tree` writes. -/
def treeHeader (rowCount rootNodeId nodeCount bufferCount : Nat) : ColumnPagePayloadHeaderV1 where
  magic := columnPagePayloadMagic
  versionMajor := 1
  headerLen := columnPagePayloadHeaderLen
  flags := 0
  rootNodeId := rootNodeId
  nodeCount := nodeCount
  bufferCount := bufferCount
  rowCount := rowCount
  nodesOffset := columnPagePayloadHeaderLen
  bufferDirectoryOffset := columnPagePayloadHeaderLen + nodeCount * coveEncodingNodeLen
  buffersOffset := columnPagePayloadHeaderLen + nodeCount * coveEncodingNodeLen +
    bufferCount * pageBufferDescriptorLen
  reserved := 0

/-- The loop of `build_tree` over the buffers: the descriptors from an id and a place on. -/
def describeBuffers (bufferId offset : Nat) :
    List (PageBufferKind × List UInt8) → List PageBufferDescriptorV1
  | [] => []
  | (kind, bytes) :: buffers =>
    { bufferId := bufferId
      kind := kind
      flags := 0
      offset := offset
      length := bytes.length
      checksum := crc32c bytes
      reserved := 0 } :: describeBuffers (bufferId + 1) (offset + bytes.length) buffers

/-- What `build_tree` writes after its descriptors are made. -/
def treeBytes (header : ColumnPagePayloadHeaderV1) (nodes : List CoveEncodingNodeV1)
    (buffers : List (PageBufferKind × List UInt8)) : List UInt8 :=
  header.serialize ++ nodes.flatMap CoveEncodingNodeV1.serialize ++
    (describeBuffers crc32c 0 header.buffersOffset buffers).flatMap
      PageBufferDescriptorV1.serialize ++
    (buffers.map Prod.snd).flatten

/-- `build_tree`. At most 65535 nodes and buffers keep the offsets of the regions below `2 ^ 32`,
so their checked arithmetic does not fail. -/
def buildTree (rowCount rootNodeId : Nat) (nodes : List CoveEncodingNodeV1)
    (buffers : List (PageBufferKind × List UInt8)) : Except CoveError (List UInt8) :=
  if nodes = [] then .error .pageCorrupt
  else if nodes.length ≥ 2 ^ 16 then .error .arithOverflow
  else if buffers.length ≥ 2 ^ 16 then .error .arithOverflow
  else do
    let header := treeHeader rowCount rootNodeId nodes.length buffers.length
    let parsed ← parse crc32c (treeBytes crc32c header nodes buffers)
    let _ ← parsed.tree
    .ok (treeBytes crc32c header nodes buffers)

end

/-! ## The buffers are read as they were laid out -/

section

variable {crc32c : List UInt8 → Nat} {buffers : List (PageBufferKind × List UInt8)}
  {bufferId offset : Nat}

theorem length_describeBuffers : (describeBuffers crc32c bufferId offset buffers).length =
    buffers.length := by
  induction buffers generalizing bufferId offset with
  | nil => rfl
  | cons b buffers ih => rw [describeBuffers, List.length_cons, ih, List.length_cons]

/-- The loop over the directory reads the descriptors, when they stand in the directory and the
buffers end the payload. -/
theorem parseBuffers_describeBuffers (hcrc : ∀ bytes, crc32c bytes < 2 ^ 32)
    {buffersOffset pos : Nat} (hstart : buffersOffset ≤ offset)
    (hdata : bytes.drop offset = (buffers.map Prod.snd).flatten) (hends : offset ≤ bytes.length)
    (hlt : bytes.length < 2 ^ 64) (hid : bufferId + buffers.length ≤ 2 ^ 16)
    (hblocks : ∀ i (hi : i < (describeBuffers crc32c bufferId offset buffers).length),
      fieldBytes bytes (pos + i * pageBufferDescriptorLen) pageBufferDescriptorLen =
        (describeBuffers crc32c bufferId offset buffers)[i].serialize) :
    parseBuffers crc32c .verify bytes buffersOffset pos bufferId offset buffers.length =
      .ok (describeBuffers crc32c bufferId offset buffers, bytes.length) := by
  induction buffers generalizing bufferId offset pos with
  | nil =>
    have hnil : bytes.length ≤ offset := List.drop_eq_nil_iff.mp hdata
    rw [le_antisymm hends hnil]
    rfl
  | cons b buffers ih =>
    obtain ⟨kind, contents⟩ := b
    replace hdata : bytes.drop offset = contents ++ (buffers.map Prod.snd).flatten := hdata
    rw [List.length_cons] at hid
    have hwithin : offset + contents.length ≤ bytes.length := by
      have := congrArg List.length hdata
      rw [List.length_drop, List.length_append] at this
      omega
    have hcontents : fieldBytes bytes offset contents.length = contents := by
      rw [fieldBytes, hdata, List.take_left]
    have hfirst := hblocks 0 (Nat.zero_lt_succ _)
    rw [Nat.zero_mul, Nat.add_zero] at hfirst
    have hkind : kind.code < 256 ^ 2 := by cases kind <;> decide
    have hfits : FieldRecord.Fits (PageBufferDescriptorV1.fields
        ⟨bufferId, kind, 0, offset, contents.length, crc32c contents, 0⟩) := by
      simp only [FieldRecord.Fits, PageBufferDescriptorV1.fields, List.forall_mem_cons,
        List.not_mem_nil, false_implies, implies_true, and_true]
      exact ⟨by omega, hkind, by decide, by omega, by omega, hcrc contents, by decide⟩
    have hparse : PageBufferDescriptorV1.parse
        (fieldBytes bytes pos pageBufferDescriptorLen) =
          .ok ⟨bufferId, kind, 0, offset, contents.length, crc32c contents, 0⟩ := by
      rw [hfirst]
      exact PageBufferDescriptorV1.parse_serialize rfl rfl hfits
    have hstop : checkedAdd offset contents.length = .ok (offset + contents.length) :=
      addU64_eq_ok.mpr ⟨by omega, rfl⟩
    have hrest : parseBuffers crc32c .verify bytes buffersOffset (pos + pageBufferDescriptorLen)
        (bufferId + 1) (offset + contents.length) buffers.length =
          .ok (describeBuffers crc32c (bufferId + 1) (offset + contents.length) buffers,
            bytes.length) := by
      refine ih (by omega) (by rw [← List.drop_drop, hdata, List.drop_left]) hwithin (by omega)
        fun i hi => ?_
      have := hblocks (i + 1) (Nat.succ_lt_succ hi)
      rwa [Nat.succ_mul, Nat.add_comm (i * _), ← Nat.add_assoc] at this
    rw [List.length_cons, parseBuffers, hparse, ok_bind, if_neg (not_not_intro rfl)]
    dsimp only
    rw [if_neg (by omega), hstop, ok_bind, if_neg (by omega), hcontents,
      if_neg (by simp), hrest, ok_bind]
    rfl

end

/-! ## What was laid out is read back -/

section

variable {crc32c : List UInt8 → Nat} {rowCount rootNodeId : Nat}
  {nodes : List CoveEncodingNodeV1} {buffers : List (PageBufferKind × List UInt8)}

/-- The numbers fit the types of the source. -/
structure Typed (rowCount rootNodeId : Nat) (nodes : List CoveEncodingNodeV1) : Prop where
  rowCount : rowCount < 2 ^ 32
  rootNodeId : rootNodeId < 2 ^ 16
  nodes : ∀ node ∈ nodes, FieldRecord.Fits node.fields

/-- What can be built: counts of 16 bits, nodes that are accepted, one of them the root of all
rows, and an end that has 64 bits. -/
structure Buildable (rowCount rootNodeId : Nat) (nodes : List CoveEncodingNodeV1)
    (buffers : List (PageBufferKind × List UInt8)) : Prop where
  nodeCount : nodes.length < 2 ^ 16
  bufferCount : buffers.length < 2 ^ 16
  reserved : ∀ node ∈ nodes, node.reserved = 0
  ids : (nodes.map CoveEncodingNodeV1.nodeId).Nodup
  root : ∃ root ∈ nodes, root.nodeId = rootNodeId ∧ root.logicalLen = rowCount
  size : columnPagePayloadHeaderLen + nodes.length * coveEncodingNodeLen +
    buffers.length * pageBufferDescriptorLen + (buffers.map Prod.snd).flatten.length < 2 ^ 64

theorem current_treeHeader (htyped : Typed rowCount rootNodeId nodes)
    (hnodes : nodes.length < 2 ^ 16) (hbuffers : buffers.length < 2 ^ 16) :
    (treeHeader rowCount rootNodeId nodes.length buffers.length).Current where
  magic := rfl
  versionMajor := rfl
  headerLen := rfl
  flags := rfl
  reserved := rfl
  fits := by
    have hrows := htyped.rowCount
    have hroot := htyped.rootNodeId
    simp only [FieldRecord.Fits, ColumnPagePayloadHeaderV1.fields, treeHeader,
      List.forall_mem_cons, List.not_mem_nil, false_implies, implies_true, and_true,
      columnPagePayloadHeaderLen, coveEncodingNodeLen, pageBufferDescriptorLen]
    exact ⟨by decide, by decide, by decide, by decide, by omega, by omega, by omega, by omega,
      by decide, by omega, by omega, by decide⟩

variable (crc32c rowCount rootNodeId nodes buffers) in
/-- Where the parts of what is laid out stand. -/
structure Placed (bytes : List UInt8) : Prop where
  header : ∃ rest, bytes =
    (treeHeader rowCount rootNodeId nodes.length buffers.length).serialize ++ rest
  nodeBlocks : ∀ i (hi : i < nodes.length),
    fieldBytes bytes (columnPagePayloadHeaderLen + i * coveEncodingNodeLen) coveEncodingNodeLen =
      nodes[i].serialize
  descriptorBlocks : ∀ i (hi : i < (describeBuffers crc32c 0
      (treeHeader rowCount rootNodeId nodes.length buffers.length).buffersOffset buffers).length),
    fieldBytes bytes (columnPagePayloadHeaderLen + nodes.length * coveEncodingNodeLen +
      i * pageBufferDescriptorLen) pageBufferDescriptorLen =
        (describeBuffers crc32c 0
          (treeHeader rowCount rootNodeId nodes.length buffers.length).buffersOffset
          buffers)[i].serialize
  data : bytes.drop (treeHeader rowCount rootNodeId nodes.length buffers.length).buffersOffset =
    (buffers.map Prod.snd).flatten
  length : bytes.length =
    (treeHeader rowCount rootNodeId nodes.length buffers.length).buffersOffset +
      (buffers.map Prod.snd).flatten.length

theorem placed_treeBytes : Placed crc32c rowCount rootNodeId nodes buffers
    (treeBytes crc32c (treeHeader rowCount rootNodeId nodes.length buffers.length) nodes
      buffers) := by
  set header := treeHeader rowCount rootNodeId nodes.length buffers.length with hheader
  set descriptors := describeBuffers crc32c 0 header.buffersOffset buffers with hdescriptors
  set data := (buffers.map Prod.snd).flatten
  have hhead : header.serialize.length = columnPagePayloadHeaderLen :=
    FieldRecord.length_encode _
  have hnode : ∀ node ∈ nodes, node.serialize.length = coveEncodingNodeLen :=
    fun _ _ => FieldRecord.length_encode _
  have hdescriptor : ∀ descriptor ∈ descriptors,
      descriptor.serialize.length = pageBufferDescriptorLen :=
    fun _ _ => FieldRecord.length_encode _
  have hnodes := Strides.length_flatMap hnode
  have hdirectory := Strides.length_flatMap hdescriptor
  have hcount : descriptors.length = buffers.length := length_describeBuffers
  rw [hcount] at hdirectory
  -- the regions, each with what follows it
  have hbytes : treeBytes crc32c header nodes buffers = header.serialize ++
      (nodes.flatMap CoveEncodingNodeV1.serialize ++
        (descriptors.flatMap PageBufferDescriptorV1.serialize ++ data)) := by
    rw [treeBytes, List.append_assoc, List.append_assoc]
  have hdirectoryAt : (treeBytes crc32c header nodes buffers).drop
      (columnPagePayloadHeaderLen + nodes.length * coveEncodingNodeLen) =
        descriptors.flatMap PageBufferDescriptorV1.serialize ++ data := by
    rw [hbytes, ← List.drop_drop, List.drop_left' hhead, List.drop_left' hnodes]
  refine ⟨⟨_, hbytes⟩, fun i hi => ?_, fun i hi => ?_, ?_, ?_⟩
  · rw [fieldBytes, ← List.drop_drop, hbytes, List.drop_left' hhead]
    exact Strides.block_flatMap hnode _ hi
  · rw [fieldBytes, ← List.drop_drop, hdirectoryAt]
    exact Strides.block_flatMap hdescriptor _ hi
  · show (treeBytes crc32c header nodes buffers).drop
      (columnPagePayloadHeaderLen + nodes.length * coveEncodingNodeLen +
        buffers.length * pageBufferDescriptorLen) = data
    rw [← List.drop_drop, hdirectoryAt, List.drop_left' hdirectory]
  · rw [hbytes, List.length_append, List.length_append, List.length_append, hhead, hnodes,
      hdirectory, ← Nat.add_assoc, ← Nat.add_assoc]
    rfl

/-- **What was laid out is read back, when it can be built**. -/
theorem parse_treeBytes (hcrc : ∀ bytes, crc32c bytes < 2 ^ 32)
    (htyped : Typed rowCount rootNodeId nodes)
    (hbuild : Buildable rowCount rootNodeId nodes buffers) :
    let header := treeHeader rowCount rootNodeId nodes.length buffers.length
    let bytes := treeBytes crc32c header nodes buffers
    parse crc32c bytes =
      .ok ⟨header, nodes, describeBuffers crc32c 0 header.buffersOffset buffers, bytes⟩ := by
  intro header bytes
  have hplaced : Placed crc32c rowCount rootNodeId nodes buffers bytes := placed_treeBytes
  have hcounts := hbuild.nodeCount
  have hcounts' := hbuild.bufferCount
  have hsize := hbuild.size
  obtain ⟨root, hroot, hid, hlen⟩ := hbuild.root
  have hheader : ColumnPagePayloadHeaderV1.parse bytes = .ok header := by
    obtain ⟨rest, hrest⟩ := hplaced.header
    rw [hrest]
    exact ColumnPagePayloadHeaderV1.parse_serialize
      (current_treeHeader htyped hcounts hcounts') rest
  have hlength : bytes.length = columnPagePayloadHeaderLen + nodes.length * coveEncodingNodeLen +
      buffers.length * pageBufferDescriptorLen + (buffers.map Prod.snd).flatten.length :=
    hplaced.length
  have hoffsets : ¬ (header.nodesOffset ≠ columnPagePayloadHeaderLen ∨
      header.bufferDirectoryOffset < header.nodesOffset ∨
      header.buffersOffset < header.bufferDirectoryOffset ∨
      header.buffersOffset > bytes.length) := by
    rw [hlength]
    simp only [header, treeHeader]
    omega
  have hread : (List.range nodes.length).mapM (fun i => CoveEncodingNodeV1.parse
      (fieldBytes bytes (header.nodesOffset + i * coveEncodingNodeLen) coveEncodingNodeLen)) =
        .ok nodes := by
    refine Strides.mapM_range_eq_ok fun i hi => ?_
    have hmem := List.getElem_mem hi
    rw [show header.nodesOffset = columnPagePayloadHeaderLen from rfl, hplaced.nodeBlocks i hi,
      CoveEncodingNodeV1.parse_serialize (htyped.nodes _ hmem),
      if_neg (not_not_intro (hbuild.reserved _ hmem))]
  have hroots : nodes.filter (fun node => node.nodeId == header.rootNodeId) = [root] := by
    rw [show header.rootNodeId = root.nodeId from hid.symm]
    exact KeyedList.filter_key hbuild.ids hroot
  have hbuffers : parseBuffers crc32c .verify bytes header.buffersOffset
      header.bufferDirectoryOffset 0 header.buffersOffset buffers.length =
        .ok (describeBuffers crc32c 0 header.buffersOffset buffers, bytes.length) :=
    parseBuffers_describeBuffers hcrc (Nat.le_refl _) hplaced.data
      (by rw [hplaced.length]; exact Nat.le_add_right _ _) (by omega) (by omega)
      hplaced.descriptorBlocks
  have hnonempty : header.nodeCount ≠ 0 := by
    have := List.length_pos_of_mem hroot
    show nodes.length ≠ 0
    omega
  have hnodeRegion : checkedMul header.nodeCount coveEncodingNodeLen =
      .ok (nodes.length * coveEncodingNodeLen) :=
    mulU64_eq_ok.mpr ⟨by show nodes.length * _ < _; omega, rfl⟩
  have hdirectory : checkedAdd header.nodesOffset (nodes.length * coveEncodingNodeLen) =
      .ok header.bufferDirectoryOffset :=
    addU64_eq_ok.mpr ⟨by show columnPagePayloadHeaderLen + _ < _; omega, rfl⟩
  have hbufferRegion : checkedMul header.bufferCount pageBufferDescriptorLen =
      .ok (buffers.length * pageBufferDescriptorLen) :=
    mulU64_eq_ok.mpr ⟨by show buffers.length * _ < _; omega, rfl⟩
  have hdata : checkedAdd header.bufferDirectoryOffset
      (buffers.length * pageBufferDescriptorLen) = .ok header.buffersOffset :=
    addU64_eq_ok.mpr ⟨by show columnPagePayloadHeaderLen + _ + _ < _; omega, rfl⟩
  unfold parse parseParts
  rw [hheader, ok_bind, if_neg hoffsets, hnodeRegion, ok_bind, hdirectory, ok_bind,
    if_neg (not_not_intro rfl), hbufferRegion, ok_bind, hdata, ok_bind,
    if_neg (not_not_intro rfl), if_neg hnonempty,
    show header.nodeCount = nodes.length from rfl, hread, ok_bind,
    if_neg (not_not_intro hbuild.ids), hroots]
  dsimp only
  rw [if_neg (not_not_intro (show root.logicalLen = header.rowCount from hlen)), show header.bufferCount = buffers.length from rfl, hbuffers,
    ok_bind]
  dsimp only
  rw [if_neg (not_not_intro rfl)]

/-- **Only what can be built is read back.** -/
theorem buildable_of_parse (htyped : Typed rowCount rootNodeId nodes)
    (hnodes : nodes.length < 2 ^ 16) (hbuffers : buffers.length < 2 ^ 16)
    (h : parse crc32c (treeBytes crc32c
      (treeHeader rowCount rootNodeId nodes.length buffers.length) nodes buffers) = .ok payload) :
    Buildable rowCount rootNodeId nodes buffers := by
  set header := treeHeader rowCount rootNodeId nodes.length buffers.length
  set bytes := treeBytes crc32c header nodes buffers
  have hplaced : Placed crc32c rowCount rootNodeId nodes buffers bytes := placed_treeBytes
  have hheader : ColumnPagePayloadHeaderV1.parse bytes = .ok header := by
    obtain ⟨rest, hrest⟩ := hplaced.header
    rw [hrest]
    exact ColumnPagePayloadHeaderV1.parse_serialize
      (current_treeHeader htyped hnodes hbuffers) rest
  unfold parse parseParts at h
  rw [hheader, ok_bind] at h
  obtain ⟨-, h⟩ := ite_error_eq_ok.mp h
  obtain ⟨_, -, h⟩ := bind_eq_ok.mp h
  obtain ⟨_, -, h⟩ := bind_eq_ok.mp h
  obtain ⟨-, h⟩ := ite_error_eq_ok.mp h
  obtain ⟨_, -, h⟩ := bind_eq_ok.mp h
  obtain ⟨_, -, h⟩ := bind_eq_ok.mp h
  obtain ⟨-, h⟩ := ite_error_eq_ok.mp h
  obtain ⟨-, h⟩ := ite_error_eq_ok.mp h
  obtain ⟨nodes', hread, h⟩ := bind_eq_ok.mp h
  obtain ⟨hids, h⟩ := ite_error_eq_ok.mp h
  -- each block is read as the node that was written there, once its reserved field is zero
  obtain ⟨hcount, hget⟩ := Strides.getElem?_mapM_range hread
  have hblock : ∀ i (hi : i < nodes.length), nodes[i].reserved = 0 ∧ nodes'[i]? = some nodes[i] := by
    intro i hi
    have hi' : i < nodes'.length := hcount ▸ hi
    obtain ⟨-, hparse⟩ := (hget i nodes'[i]).mp (List.getElem?_eq_getElem hi')
    rw [show header.nodesOffset = columnPagePayloadHeaderLen from rfl, hplaced.nodeBlocks i hi,
      CoveEncodingNodeV1.parse_serialize (htyped.nodes _ (List.getElem_mem hi))] at hparse
    obtain ⟨hreserved, hsame⟩ := ite_error_eq_ok.mp hparse
    rw [List.getElem?_eq_getElem hi', ← Except.ok.inj hsame]
    exact ⟨Decidable.of_not_not hreserved, rfl⟩
  obtain rfl : nodes' = nodes := by
    refine List.ext_getElem? fun i => ?_
    by_cases hi : i < nodes.length
    · rw [(hblock i hi).2, List.getElem?_eq_getElem hi]
    · have hi' : nodes'.length ≤ i := hcount ▸ Nat.not_lt.mp hi
      rw [List.getElem?_eq_none hi', List.getElem?_eq_none (Nat.not_lt.mp hi)]
  split at h
  next root hroots =>
    obtain ⟨hlen, h⟩ := ite_error_eq_ok.mp h
    obtain ⟨⟨descriptors, last⟩, hdescriptors, h⟩ := bind_eq_ok.mp h
    obtain ⟨hlast, -⟩ := ite_error_eq_ok.mp h
    obtain rfl : last = bytes.length := Decidable.of_not_not hlast
    have hmem : root ∈ nodes'.filter fun node => node.nodeId == header.rootNodeId := by
      rw [hroots]
      exact List.mem_singleton_self root
    obtain ⟨hroot, hid⟩ := List.mem_filter.mp hmem
    obtain ⟨-, hascending, hbounds, -⟩ := ascending_of_parseBuffers hdescriptors
    have hlength := hplaced.length
    refine ⟨hnodes, hbuffers, fun node hnode => ?_, Decidable.of_not_not hids,
      ⟨root, hroot, eq_of_beq hid, Decidable.of_not_not hlen⟩, ?_⟩
    · obtain ⟨i, hi, rfl⟩ := List.getElem_of_mem hnode
      exact (hblock i hi).1
    · rcases hascending.stop_mem with ⟨-, hstop⟩ | ⟨span, hspan, hstop⟩
      · show header.buffersOffset + _ < _
        rw [← hlength, ← hstop]
        show columnPagePayloadHeaderLen + nodes'.length * coveEncodingNodeLen +
          buffers.length * pageBufferDescriptorLen < _
        rw [columnPagePayloadHeaderLen, coveEncodingNodeLen, pageBufferDescriptorLen]
        omega
      · obtain ⟨descriptor, hdescriptor, rfl⟩ := List.mem_map.mp hspan
        show header.buffersOffset + _ < _
        rw [← hlength, ← hstop]
        exact (hbounds descriptor hdescriptor).2
  · cases h

/-! ## A tree that was built is read back -/

/-- What the descriptors point to. -/
theorem buffer_describeBuffers {bufferId offset : Nat}
    (hdata : payload.data.drop offset = (buffers.map Prod.snd).flatten) :
    (describeBuffers crc32c bufferId offset buffers).map payload.buffer = buffers := by
  induction buffers generalizing bufferId offset with
  | nil => rfl
  | cons b buffers ih =>
    obtain ⟨kind, contents⟩ := b
    replace hdata : payload.data.drop offset = contents ++ (buffers.map Prod.snd).flatten := hdata
    have hcontents : fieldBytes payload.data offset contents.length = contents := by
      rw [fieldBytes, hdata, List.take_left]
    have hrest : payload.data.drop (offset + contents.length) =
        (buffers.map Prod.snd).flatten := by
      rw [← List.drop_drop, hdata, List.drop_left]
    rw [describeBuffers, List.map_cons, ih hrest, buffer, hcontents]

theorem buildTree_eq_ok :
    buildTree crc32c rowCount rootNodeId nodes buffers = .ok bytes ↔
      nodes ≠ [] ∧ nodes.length < 2 ^ 16 ∧ buffers.length < 2 ^ 16 ∧
        treeBytes crc32c (treeHeader rowCount rootNodeId nodes.length buffers.length) nodes
          buffers = bytes ∧
        ∃ payload t, parse crc32c bytes = .ok payload ∧ payload.tree = .ok t := by
  unfold buildTree
  rw [ite_error_eq_ok, ite_error_eq_ok, ite_error_eq_ok, Nat.not_le, Nat.not_le, bind_eq_ok]
  refine and_congr_right fun _ => and_congr_right fun _ => and_congr_right fun _ => ?_
  constructor
  · rintro ⟨payload, hparse, h⟩
    obtain ⟨t, ht, h⟩ := bind_eq_ok.mp h
    obtain rfl := Except.ok.inj h
    exact ⟨rfl, payload, t, hparse, ht⟩
  · rintro ⟨rfl, payload, t, hparse, ht⟩
    exact ⟨payload, hparse, by rw [ht, ok_bind]⟩

variable {t : Tree CoveEncodingNodeV1 (PageBufferKind × List UInt8)}

/-- **A tree that was built is the tree of its payload.** -/
theorem tree_of_buildTree (hcrc : ∀ bytes, crc32c bytes < 2 ^ 32)
    (htyped : Typed rowCount rootNodeId t.labels) (hdeclared : DeclaredCounts t)
    (h : buildTree crc32c rowCount rootNodeId t.labels t.items = .ok bytes) :
    ∃ payload t', parse crc32c bytes = .ok payload ∧ payload.tree = .ok t' ∧
      t'.map payload.buffer = t := by
  obtain ⟨-, hnodes, hbuffers, rfl, payload, t', hparse, htree⟩ := buildTree_eq_ok.mp h
  refine ⟨payload, t', hparse, htree, ?_⟩
  have hbuild := buildable_of_parse htyped hnodes hbuffers hparse
  obtain rfl := Except.ok.inj (hparse.symm.trans (parse_treeBytes hcrc htyped hbuild))
  obtain ⟨-, hdeclared', hlabels, hitems⟩ := payloadTree_eq_ok_iff.mp htree
  refine Tree.eq_of_preorder (Tree.declared_map _ hdeclared') hdeclared ?_ ?_
  · rw [Tree.labels_map, hlabels]
  · rw [Tree.items_map, hitems]
    have hplaced : Placed crc32c rowCount rootNodeId t.labels t.items _ := placed_treeBytes
    exact buffer_describeBuffers hplaced.data

/-- **Which trees are built.** -/
theorem exists_buildTree_iff (hcrc : ∀ bytes, crc32c bytes < 2 ^ 32)
    (htyped : Typed rowCount rootNodeId t.labels) (hdeclared : DeclaredCounts t) :
    (∃ bytes, buildTree crc32c rowCount rootNodeId t.labels t.items = .ok bytes) ↔
      t.label.nodeId = rootNodeId ∧ Buildable rowCount rootNodeId t.labels t.items := by
  obtain ⟨below, hbelow⟩ := t.labels_eq_cons
  constructor
  · rintro ⟨bytes, h⟩
    obtain ⟨-, hnodes, hbuffers, rfl, payload, t', hparse, htree⟩ := buildTree_eq_ok.mp h
    have hbuild := buildable_of_parse htyped hnodes hbuffers hparse
    obtain rfl := Except.ok.inj (hparse.symm.trans (parse_treeBytes hcrc htyped hbuild))
    obtain ⟨hroot, -, hlabels, -⟩ := payloadTree_eq_ok_iff.mp htree
    obtain ⟨below', hbelow'⟩ := t'.labels_eq_cons
    obtain ⟨hsame, -⟩ := List.cons.inj (hbelow'.symm.trans (hlabels.trans hbelow))
    exact ⟨hsame ▸ hroot, hbuild⟩
  · rintro ⟨hroot, hbuild⟩
    have hparse := parse_treeBytes hcrc htyped hbuild
    obtain ⟨t', ht'⟩ := exists_payloadTree hdeclared hroot rfl
      length_describeBuffers.symm
    refine ⟨_, buildTree_eq_ok.mpr ⟨?_, hbuild.nodeCount, hbuild.bufferCount, rfl, _, t', hparse,
      ht'⟩⟩
    rw [hbelow]
    exact List.cons_ne_nil _ _

/-! ## The tree of a payload that was read -/

theorem length_buffers_of_laid (hlaid : Laid bytes payload) :
    ((payload.buffers.map payload.buffer).map Prod.snd).flatten.length =
      Spans.total (payload.buffers.map PageBufferDescriptorV1.span) := by
  have hlengths : ∀ buffer ∈ payload.buffers,
      (payload.buffer buffer).2.length = buffer.span.len := by
    intro buffer hbuffer
    have hend := (hlaid.bounds buffer hbuffer).1
    rw [ColumnPagePayloadV1.buffer, fieldBytes, List.length_take, List.length_drop, hlaid.data]
    exact Nat.min_eq_left (by omega)
  rw [List.length_flatten, Spans.total, List.map_map, List.map_map, List.map_map]
  exact congrArg List.sum (List.map_congr_left hlengths)

/-- What was read can be built again. -/
theorem buildable_of_accepted {validation : BufferChecksumValidation}
    (h : parseParts crc32c validation bytes = .ok payload) :
    Typed payload.header.rowCount payload.header.rootNodeId payload.nodes ∧
      Buildable payload.header.rowCount payload.header.rootNodeId payload.nodes
        (payload.buffers.map payload.buffer) := by
  have hlaid := laid_of_parse h
  unfold parseParts at h
  obtain ⟨header, hheader, h⟩ := bind_eq_ok.mp h
  obtain ⟨hoffsets, h⟩ := ite_error_eq_ok.mp h
  obtain ⟨_, hmul, h⟩ := bind_eq_ok.mp h
  obtain ⟨_, hadd, h⟩ := bind_eq_ok.mp h
  obtain ⟨hdirectory, h⟩ := ite_error_eq_ok.mp h
  obtain ⟨_, hmul', h⟩ := bind_eq_ok.mp h
  obtain ⟨_, hadd', h⟩ := bind_eq_ok.mp h
  obtain ⟨hbuffersOffset, h⟩ := ite_error_eq_ok.mp h
  obtain ⟨-, h⟩ := ite_error_eq_ok.mp h
  obtain ⟨nodes, hnodes, h⟩ := bind_eq_ok.mp h
  obtain ⟨hids, h⟩ := ite_error_eq_ok.mp h
  split at h
  next root hroots =>
    obtain ⟨hlen, h⟩ := ite_error_eq_ok.mp h
    obtain ⟨⟨buffers, last⟩, hbuffers, h⟩ := bind_eq_ok.mp h
    obtain ⟨-, h⟩ := ite_error_eq_ok.mp h
    obtain rfl := Except.ok.inj h
    obtain ⟨-, rfl⟩ := mulU64_eq_ok.mp hmul
    obtain ⟨-, rfl⟩ := addU64_eq_ok.mp hadd
    obtain ⟨-, rfl⟩ := mulU64_eq_ok.mp hmul'
    obtain ⟨-, rfl⟩ := addU64_eq_ok.mp hadd'
    obtain ⟨hbufferCount, -, -, -⟩ := ascending_of_parseBuffers hbuffers
    obtain ⟨hnodeCount, hget⟩ := Strides.getElem?_mapM_range hnodes
    have hfits := FieldRecord.fits_of_readAt (ColumnPagePayloadHeaderV1.readAt_of_parse hheader).2
    have hfield : ∀ w value, (w, value) ∈ header.fields → value < 256 ^ w :=
      fun w value hmem => hfits (w, value) hmem
    have hnode : ∀ node ∈ nodes, FieldRecord.Fits node.fields ∧ node.reserved = 0 := by
      intro node hmem
      obtain ⟨i, hi, rfl⟩ := List.getElem_of_mem hmem
      obtain ⟨-, hparse⟩ := (hget i _).mp (List.getElem?_eq_getElem hi)
      obtain ⟨-, hread, hreserved⟩ := CoveEncodingNodeV1.readAt_of_parse hparse
      exact ⟨FieldRecord.fits_of_readAt hread, hreserved⟩
    have hmem : root ∈ nodes.filter fun node => node.nodeId == header.rootNodeId := by
      rw [hroots]
      exact List.mem_singleton_self root
    obtain ⟨hroot, hid⟩ := List.mem_filter.mp hmem
    have hnodes16 : nodes.length < 2 ^ 16 := by
      rw [hnodeCount]
      exact hfield 2 header.nodeCount (by simp [ColumnPagePayloadHeaderV1.fields])
    have hbuffers16 : buffers.length < 2 ^ 16 := by
      rw [hbufferCount]
      exact hfield 2 header.bufferCount (by simp [ColumnPagePayloadHeaderV1.fields])
    refine ⟨⟨hfield 4 header.rowCount (by simp [ColumnPagePayloadHeaderV1.fields]),
      hfield 2 header.rootNodeId (by simp [ColumnPagePayloadHeaderV1.fields]),
      fun node hmem => (hnode node hmem).1⟩,
      ⟨hnodes16, by rwa [List.length_map], fun node hmem => (hnode node hmem).2,
        Decidable.of_not_not hids, ⟨root, hroot, eq_of_beq hid, Decidable.of_not_not hlen⟩, ?_⟩⟩
    -- the buffers lie within the payload, and the last of them ends it
    have hdata := length_buffers_of_laid hlaid
    have hle : header.buffersOffset + Spans.total (buffers.map PageBufferDescriptorV1.span) ≤
        bytes.length := hlaid.ascending.total_le
    have hstart : nodes.length * coveEncodingNodeLen + columnPagePayloadHeaderLen +
        buffers.length * pageBufferDescriptorLen = header.buffersOffset := by
      rw [hnodeCount, hbufferCount]
      omega
    rw [List.length_map, hdata]
    show columnPagePayloadHeaderLen + nodes.length * coveEncodingNodeLen +
      buffers.length * pageBufferDescriptorLen +
        Spans.total (buffers.map PageBufferDescriptorV1.span) < _
    rcases hlaid.ascending.stop_mem with ⟨hnil, -⟩ | ⟨span, hspan, hstop⟩
    · rw [show buffers.map PageBufferDescriptorV1.span = [] from hnil, Spans.total,
        columnPagePayloadHeaderLen, coveEncodingNodeLen, pageBufferDescriptorLen]
      simp only [List.map_nil, List.sum_nil]
      omega
    · obtain ⟨descriptor, hdescriptor, rfl⟩ := List.mem_map.mp hspan
      have hlt : bytes.length < 2 ^ 64 := hstop ▸ (hlaid.bounds descriptor hdescriptor).2
      omega
  · cases h

/-- **The tree of a payload that was accepted is its preorder, with the declared counts, and is
built again into a payload that has it. So is every tree that can be built.** -/
theorem payloadTree_round_trip (hcrc : ∀ bytes, crc32c bytes < 2 ^ 32)
    {validation : BufferChecksumValidation} {bytes : List UInt8} {payload : ColumnPagePayloadV1}
    (h : parseParts crc32c validation bytes = .ok payload) :
    (∀ tree, payload.tree = .ok tree →
      (tree.labels = payload.nodes ∧ tree.items = payload.buffers ∧ DeclaredCounts tree) ∧
        ∃ built payload' tree',
          buildTree crc32c payload.header.rowCount payload.header.rootNodeId tree.labels
            (tree.items.map payload.buffer) = .ok built ∧
          parse crc32c built = .ok payload' ∧ payload'.tree = .ok tree' ∧
          tree'.map payload'.buffer = tree.map payload.buffer) ∧
      ∀ (rowCount rootNodeId : Nat) (tree : Tree CoveEncodingNodeV1 (PageBufferKind × List UInt8)),
        Typed rowCount rootNodeId tree.labels → DeclaredCounts tree →
          ((∃ built, buildTree crc32c rowCount rootNodeId tree.labels tree.items = .ok built) ↔
            tree.label.nodeId = rootNodeId ∧ Buildable rowCount rootNodeId tree.labels tree.items) ∧
          ∀ built, buildTree crc32c rowCount rootNodeId tree.labels tree.items = .ok built →
            ∃ payload' tree', parse crc32c built = .ok payload' ∧ payload'.tree = .ok tree' ∧
              tree'.map payload'.buffer = tree := by
  refine ⟨fun tree htree => ?_, fun rowCount rootNodeId tree htyped hdeclared =>
    ⟨exists_buildTree_iff hcrc htyped hdeclared,
      fun built hbuilt => tree_of_buildTree hcrc htyped hdeclared hbuilt⟩⟩
  obtain ⟨hroot, hdeclared, hlabels, hitems⟩ := payloadTree_eq_ok_iff.mp htree
  refine ⟨⟨hlabels, hitems, hdeclared⟩, ?_⟩
  obtain ⟨htyped, hbuild⟩ := buildable_of_accepted h
  have hlabels' := (Tree.labels_map payload.buffer tree).trans hlabels
  have hitems' := Tree.items_map payload.buffer tree
  rw [← hlabels'] at htyped hbuild
  rw [← hitems, ← hitems'] at hbuild
  have hdeclared' : DeclaredCounts (tree.map payload.buffer) := Tree.declared_map _ hdeclared
  have hroot' : (tree.map payload.buffer).label.nodeId = payload.header.rootNodeId := by
    rwa [Tree.label_map]
  obtain ⟨built, hbuilt⟩ :=
    (exists_buildTree_iff hcrc htyped hdeclared').mpr ⟨hroot', hbuild⟩
  obtain ⟨payload', tree', hparse, htree', hsame⟩ :=
    tree_of_buildTree hcrc htyped hdeclared' hbuilt
  rw [Tree.labels_map, hitems'] at hbuilt
  exact ⟨built, payload', tree', hbuilt, hparse, htree', hsame⟩

end

/-- The payload of one buffer has a tree of one node. -/
theorem payloadTree_round_trip_oneBuffer :
    (oneBuffer []).tree = .ok (.node ⟨0, .plainFixed, .uint8, .numCode, 0, 1, 0, 1, 0, 0, 0, 0⟩
      (oneBuffer []).buffers []) ∧
    ∀ tree, (oneBuffer []).tree = .ok tree →
      (tree.labels = (oneBuffer []).nodes ∧ tree.items = (oneBuffer []).buffers ∧
        DeclaredCounts tree) := by
  have h : parseParts Crc32c.crc32c .verify (oneBuffer []).data = .ok (oneBuffer []) := by
    decide +kernel
  refine ⟨payloadTree_eq_ok_iff.mpr ⟨rfl, ⟨rfl, rfl, trivial⟩, rfl, rfl⟩, fun tree htree => ?_⟩
  exact ((payloadTree_round_trip Crc32c.crc32c_lt h).1 tree htree).1

end ColumnPagePayloadV1

end Cove
