import Cove.Coverage.Set
import Cove.Covi.Postings
import Cove.Lib.OrderedMap

/-!
# Lookups in a covering index

An artifact holds index roots, each with a block of keys, a block of entries that name a key and
a posting, and a block of postings. A lookup collects the postings of the entries whose key
matches the request.

- `validateRootBlocks`: what is checked of the blocks of a root.
- `ValidatedCoviArtifactV2`: an artifact all of whose roots passed.
- `ValidatedCoviArtifactV2.lookup`: the candidates of a request.
- `CoviLookupRequestV2.Matches`: **which keys a request asks for**, `keyMatches_iff`.
- `matchedRowRanges`: the row ranges of the entries whose key matches.
- `rowRanges_of_lookup`: the row ranges of a lookup are those, merged.
-/

namespace Cove

open Checked

/-- `ABSENT_U32`. -/
def absentU32 : Nat := 2 ^ 32 - 1

/-! ## Roots and blocks -/

/-- `CoviIndexedTargetKindV2`. -/
inductive CoviIndexedTargetKindV2 where
  | tableColumn
  | objectProperty
  | objectPath
  | associationEndpoint
  | projectionColumn
  | semanticDimension
  | dimensionalTuple
  | externalTarget
  deriving DecidableEq, Repr

/-- `CoviIndexKindV2`. -/
inductive CoviIndexKindV2 where
  | hash
  | sorted
  | sparseSorted
  | trie
  | rangeBucket
  | bitmap
  | minimalPerfectHash
  | aggregateOnly
  | extension
  deriving DecidableEq, Repr

/-- `IndexCapabilityExactnessV2`. -/
inductive IndexCapabilityExactnessV2 where
  | exact
  | approximate
  | advisory
  deriving DecidableEq, Repr

/-- `CoviIndexRootV2`. -/
structure CoviIndexRootV2 where
  indexRootId : Nat
  indexedTargetKind : CoviIndexedTargetKindV2
  indexKind : CoviIndexKindV2
  tableId : Nat
  columnId : Nat
  objectTypeId : Nat
  propertyId : Nat
  pathRef : Nat
  semanticDimensionRef : Nat
  keyEncodingKind : Nat
  comparatorKind : Nat
  keyBlockSectionId : Nat
  entryBlockSectionId : Nat
  postingsBlockSectionId : Nat
  coverageSetRef : Nat
  capabilityRef : Nat
  deriving DecidableEq, Repr

/-- `IndexCapabilityV2`. -/
structure IndexCapabilityV2 where
  capabilityId : Nat
  indexRootId : Nat
  supportsEq : Nat
  supportsRange : Nat
  supportsMembership : Nat
  exactness : IndexCapabilityExactnessV2
  proofStrength : CoverageProofStrengthV2
  deriving DecidableEq, Repr

/-- `CoviKeyBlockHeaderV2`. -/
structure CoviKeyBlockHeaderV2 where
  keyBlockId : Nat
  indexRootId : Nat
  keyCount : Nat
  encodingKind : Nat
  comparatorKind : Nat
  deriving DecidableEq, Repr

/-- `CoviKeyBlockV2`. -/
structure CoviKeyBlockV2 where
  header : CoviKeyBlockHeaderV2
  keyData : List UInt8
  deriving DecidableEq, Repr

/-- `CoviIndexEntryV2`. -/
structure CoviIndexEntryV2 where
  entryRef : Nat
  indexRootId : Nat
  keyKind : Nat
  comparatorKind : Nat
  keyOffset : Nat
  keyLength : Nat
  keyHash64 : UInt64
  postingsRef : Nat
  coverageSetRef : Nat
  nextDuplicateRef : Nat
  deriving DecidableEq, Repr

/-- `CoviEntryBlockHeaderV2`. -/
structure CoviEntryBlockHeaderV2 where
  indexRootId : Nat
  keyBlockId : Nat
  postingsBlockId : Nat
  deriving DecidableEq, Repr

/-- `CoviEntryBlockV2`. -/
structure CoviEntryBlockV2 where
  header : CoviEntryBlockHeaderV2
  entries : List CoviIndexEntryV2
  deriving DecidableEq, Repr

/-- `CoviPostingsHeaderV2`. -/
structure CoviPostingsHeaderV2 where
  indexRootId : Nat
  representation : CoviPostingRepresentationV2
  payloadOffset : Nat
  payloadLength : Nat
  deriving DecidableEq, Repr

/-- `CoviPostingsBlockHeaderV2`. -/
structure CoviPostingsBlockHeaderV2 where
  postingsBlockId : Nat
  indexRootId : Nat
  deriving DecidableEq, Repr

/-- `CoviPostingsBlockV2`. -/
structure CoviPostingsBlockV2 where
  header : CoviPostingsBlockHeaderV2
  postings : List CoviPostingsHeaderV2
  payload : List UInt8
  deriving DecidableEq, Repr

/-- `CoviReferencedFileV2`. -/
structure CoviReferencedFileV2 where
  fileRef : Nat
  fileLen : Nat
  deriving DecidableEq, Repr

/-- The checked slice of a buffer. -/
def checkedSlice (bytes : List UInt8) (start length : Nat) : Except CoveError (List UInt8) := do
  let stop ← checkedAdd start length
  if stop > bytes.length then .error .offsetRange
  else .ok (fieldBytes bytes start length)

/-- `key_bytes_for_entry`. -/
def keyBytesForEntry (keyBlock : CoviKeyBlockV2) (entry : CoviIndexEntryV2) :
    Except CoveError (List UInt8) :=
  checkedSlice keyBlock.keyData entry.keyOffset entry.keyLength

/-- `posting_payload`. -/
def CoviPostingsBlockV2.postingPayload (self : CoviPostingsBlockV2)
    (posting : CoviPostingsHeaderV2) : Except CoveError (List UInt8) :=
  checkedSlice self.payload posting.payloadOffset posting.payloadLength

/-! ## Validation -/

/-- `validate_file_ref`. -/
def validateFileRef (fileRef : Nat) (referencedFiles : List CoviReferencedFileV2) :
    Except CoveError CoviReferencedFileV2 :=
  match referencedFiles[fileRef]? with
  | some file => if file.fileRef = fileRef then .ok file else .error .badCovi
  | none => .error .badCovi

/-- The places of a posting refer to files of the artifact; the file is their first field. -/
def validateFileRefs (referencedFiles : List CoviReferencedFileV2) (layout : FixedPosting)
    (payload : List UInt8) : Except CoveError Unit :=
  (chunksExact layout.len payload).forM fun chunk => do
    let item ← layout.parse chunk
    let _ ← validateFileRef ((item[0]?).getD 0) referencedFiles
    .ok ()

/-- The byte ranges of a posting lie within their files. -/
def validateByteRanges (referencedFiles : List CoviReferencedFileV2) (payload : List UInt8) :
    Except CoveError Unit :=
  (chunksExact coviByteRangePosting.len payload).forM fun chunk => do
    let item ← coviByteRangePosting.parse chunk
    let file ← validateFileRef ((item[0]?).getD 0) referencedFiles
    let stop ← checkedAdd ((item[2]?).getD 0) ((item[3]?).getD 0)
    if stop > file.fileLen then .error .badCovi else .ok ()

/-- `validate_postings_for_root`, for one posting. -/
def validatePosting (root : CoviIndexRootV2) (referencedFiles : List CoviReferencedFileV2)
    (postingsBlock : CoviPostingsBlockV2) (posting : CoviPostingsHeaderV2) :
    Except CoveError Unit := do
  if posting.indexRootId ≠ root.indexRootId then .error .badCovi
  else
    let payload ← postingsBlock.postingPayload posting
    match posting.representation with
    | .sortedFileRefs => validateFileRefs referencedFiles coviFileRefPosting payload
    | .sortedSegmentRefs => validateFileRefs referencedFiles coviSegmentRefPosting payload
    | .sortedPageRefs => validateFileRefs referencedFiles coviPageRefPosting payload
    | .sortedMorselRefs => validateFileRefs referencedFiles coviMorselRefPosting payload
    | .rowRangeList => do
      let rows ← parseCoviRowRangePostings payload
      rows.forM fun row => do
        let _ ← validateFileRef row.fileRef referencedFiles
        .ok ()
    | .byteRangeList => validateByteRanges referencedFiles payload
    | .objectPathRefs => validateFileRefs referencedFiles coviObjectPathPosting payload
    | .dimensionalBucketRefs =>
      validateFileRefs referencedFiles coviDimensionalBucketPosting payload
    | .rowOrdinalBitmap | .rowOrdinalDeltaVarint | .coverageSetRef | .extension => .ok ()

/-- What `validate_entries_for_root` checks of an entry by itself. -/
def validateEntry (root : CoviIndexRootV2) (postingsBlock : CoviPostingsBlockV2)
    (entry : CoviIndexEntryV2) : Except CoveError Unit :=
  if entry.indexRootId ≠ root.indexRootId ∨ entry.keyKind ≠ root.keyEncodingKind ∨
      entry.comparatorKind ≠ root.comparatorKind then .error .badCovi
  else if entry.postingsRef ≠ absentU32 ∧ entry.postingsRef ≥ postingsBlock.postings.length then
    .error .badCovi
  else if entry.coverageSetRef ≠ absentU32 ∧ root.coverageSetRef = absentU32 then .error .badCovi
  else .ok ()

/-- The keys of a sorted index ascend; equal ones belong to a chain of duplicates, or share a
posting. -/
def validateKeyOrder (previous : CoviIndexEntryV2 × List UInt8) (entry : CoviIndexEntryV2)
    (key : List UInt8) : Except CoveError Unit :=
  if key < previous.2 then .error .badCovi
  else if key = previous.2 ∧ previous.1.nextDuplicateRef ≠ entry.entryRef ∧
      ¬(previous.1.postingsRef ≠ absentU32 ∧ previous.1.postingsRef = entry.postingsRef) then
    .error .badCovi
  else .ok ()

/-- `validate_entries_for_root`, from the entry before on. -/
def validateEntriesForRoot (root : CoviIndexRootV2) (keyBlock : CoviKeyBlockV2)
    (postingsBlock : CoviPostingsBlockV2) (previous : Option (CoviIndexEntryV2 × List UInt8)) :
    List CoviIndexEntryV2 → Except CoveError Unit
  | [] => .ok ()
  | entry :: entries => do
    validateEntry root postingsBlock entry
    let key ← keyBytesForEntry keyBlock entry
    match previous with
    | none => .ok ()
    | some previous =>
      if root.indexKind = .sorted ∨ root.indexKind = .sparseSorted then
        validateKeyOrder previous entry key
      else .ok ()
    validateEntriesForRoot root keyBlock postingsBlock (some (entry, key)) entries

/-- What is checked of the headers of the blocks of a root. -/
def blocksAgree (root : CoviIndexRootV2) (keyBlock : CoviKeyBlockV2)
    (entryBlock : CoviEntryBlockV2) (postingsBlock : CoviPostingsBlockV2) : Bool :=
  keyBlock.header.indexRootId == root.indexRootId &&
  entryBlock.header.indexRootId == root.indexRootId &&
  postingsBlock.header.indexRootId == root.indexRootId &&
  keyBlock.header.encodingKind == root.keyEncodingKind &&
  keyBlock.header.comparatorKind == root.comparatorKind &&
  keyBlock.header.keyCount == entryBlock.entries.length &&
  entryBlock.header.keyBlockId == keyBlock.header.keyBlockId &&
  entryBlock.header.postingsBlockId == postingsBlock.header.postingsBlockId

/-- `ok_or(BadCovi)`. -/
def orBadCovi {α : Type} : Option α → Except CoveError α
  | some a => .ok a
  | none => .error .badCovi

/-- `validate_root_blocks`. -/
def validateRootBlocks (root : CoviIndexRootV2) (referencedFiles : List CoviReferencedFileV2)
    (capabilities : OrderedMap Nat IndexCapabilityV2) (keyBlocks : OrderedMap Nat CoviKeyBlockV2)
    (entryBlocks : OrderedMap Nat CoviEntryBlockV2)
    (postingsBlocks : OrderedMap Nat CoviPostingsBlockV2) : Except CoveError Unit := do
  let keyBlock ← orBadCovi (keyBlocks.get? root.keyBlockSectionId)
  let entryBlock ← orBadCovi (entryBlocks.get? root.entryBlockSectionId)
  let postingsBlock ← orBadCovi (postingsBlocks.get? root.postingsBlockSectionId)
  if !blocksAgree root keyBlock entryBlock postingsBlock then .error .badCovi
  else
    let capability ← orBadCovi (capabilities.get? root.indexRootId)
    if root.capabilityRef = absentU32 ∨ capability.capabilityId ≠ root.capabilityRef then
      .error .badCovi
    else do
      validateEntriesForRoot root keyBlock postingsBlock none entryBlock.entries
      postingsBlock.postings.forM (validatePosting root referencedFiles postingsBlock)

/-- `ValidatedCoviArtifactV2`. -/
structure ValidatedCoviArtifactV2 where
  referencedFiles : List CoviReferencedFileV2
  roots : OrderedMap Nat CoviIndexRootV2
  capabilities : OrderedMap Nat IndexCapabilityV2
  keyBlocks : OrderedMap Nat CoviKeyBlockV2
  entryBlocks : OrderedMap Nat CoviEntryBlockV2
  postingsBlocks : OrderedMap Nat CoviPostingsBlockV2
  valid : ∀ root ∈ roots.entries, validateRootBlocks root.2 referencedFiles capabilities keyBlocks
    entryBlocks postingsBlocks = .ok ()

/-! ## Requests -/

/-- `CoviLookupOpV2`. -/
inductive CoviLookupOpV2 where
  | eq
  | range (lowerInclusive upperInclusive : Bool)
  | membership
  deriving DecidableEq, Repr

/-- `CoviLookupKeyV2`. -/
inductive CoviLookupKeyV2 where
  | canonicalValueBytes (bytes : List UInt8)
  | fileCode (code : Nat)
  | canonicalHash (hash64 : UInt64) (canonicalValueBytes : List UInt8)
  deriving DecidableEq, Repr

namespace CoviLookupKeyV2

/-- `key_bytes`. -/
def keyBytes : CoviLookupKeyV2 → List UInt8
  | canonicalValueBytes bytes => bytes
  | fileCode code => LittleEndian.toLe 4 code
  | canonicalHash _ bytes => bytes

/-- `hash64`. -/
def hash64 : CoviLookupKeyV2 → Option UInt64
  | canonicalHash hash _ => some hash
  | _ => none

end CoviLookupKeyV2

/-- `CoviLookupTargetV2`. -/
inductive CoviLookupTargetV2 where
  | tableColumn (tableId columnId : Nat)
  | objectProperty (objectTypeId propertyId : Nat)
  | objectPath (objectTypeId pathRef : Nat)
  | semanticDimension (semanticDimensionRef : Nat)
  | dimensionalTuple (semanticDimensionRef : Nat)
  deriving DecidableEq, Repr

/-- `CoviLookupRequestV2`. -/
structure CoviLookupRequestV2 where
  target : CoviLookupTargetV2
  op : CoviLookupOpV2
  lowerKey : CoviLookupKeyV2
  upperKey : Option CoviLookupKeyV2
  membershipKeys : List CoviLookupKeyV2
  requireExact : Bool
  deriving DecidableEq, Repr

/-- `root_matches_target`. -/
def rootMatchesTarget (root : CoviIndexRootV2) : CoviLookupTargetV2 → Bool
  | .tableColumn tableId columnId =>
    root.indexedTargetKind == .tableColumn && root.tableId == tableId && root.columnId == columnId
  | .objectProperty objectTypeId propertyId =>
    root.indexedTargetKind == .objectProperty && root.objectTypeId == objectTypeId &&
      root.propertyId == propertyId
  | .objectPath objectTypeId pathRef =>
    root.indexedTargetKind == .objectPath && root.objectTypeId == objectTypeId &&
      root.pathRef == pathRef
  | .semanticDimension semanticDimensionRef =>
    root.indexedTargetKind == .semanticDimension &&
      root.semanticDimensionRef == semanticDimensionRef
  | .dimensionalTuple semanticDimensionRef =>
    root.indexedTargetKind == .dimensionalTuple &&
      root.semanticDimensionRef == semanticDimensionRef

/-- The request asks for members, and its first key is the empty one that stands for no key. -/
def CoviLookupRequestV2.noFirstMember (request : CoviLookupRequestV2) : Bool :=
  request.op == .membership && request.lowerKey == .canonicalValueBytes []

/-- `membership_key_bytes`. -/
def membershipKeyBytes (request : CoviLookupRequestV2) : List (List UInt8) :=
  let first := if !request.noFirstMember then [request.lowerKey.keyBytes] else []
  let keys := first ++ request.membershipKeys.map CoviLookupKeyV2.keyBytes
  SortedList.dedup (keys.insertionSort (· ≤ ·))

/-- `key_matches`. -/
def keyMatches (op : CoviLookupOpV2) (key lower : List UInt8) (upper : Option (List UInt8))
    (membershipKeys : List (List UInt8)) : Bool :=
  match op with
  | .eq => key == lower
  | .membership => membershipKeys.any (· == key)
  | .range lowerInclusive upperInclusive =>
    let lowerOk := if lowerInclusive then decide (lower ≤ key) else decide (lower < key)
    let upperOk :=
      match upper with
      | some upper => if upperInclusive then decide (key ≤ upper) else decide (key < upper)
      | none => true
    lowerOk && upperOk

/-- Which keys a request asks for. -/
def CoviLookupRequestV2.Matches (request : CoviLookupRequestV2) (key : List UInt8) : Prop :=
  match request.op with
  | .eq => key = request.lowerKey.keyBytes
  | .membership =>
    (key = request.lowerKey.keyBytes ∧ request.lowerKey ≠ .canonicalValueBytes []) ∨
      ∃ member ∈ request.membershipKeys, key = member.keyBytes
  | .range lowerInclusive upperInclusive =>
    (request.lowerKey.keyBytes < key ∨ lowerInclusive = true ∧ key = request.lowerKey.keyBytes) ∧
      ∀ upper ∈ request.upperKey,
        key < upper.keyBytes ∨ upperInclusive = true ∧ key = upper.keyBytes

/-! ## Candidates -/

/-- `CoviCandidateSetV2`. The places of fixed width are lists of their fields. -/
structure CoviCandidateSetV2 where
  exactness : IndexCapabilityExactnessV2
  proofStrength : CoverageProofStrengthV2
  rowRanges : List CoviRowRangePostingV2
  byteRanges : List (List Nat)
  objectPaths : List (List Nat)
  dimensionalBuckets : List (List Nat)
  rowOrdinalSetRefs : List Nat
  fileRefs : List (List Nat)
  segmentRefs : List (List Nat)
  morselRefs : List (List Nat)
  pageRefs : List (List Nat)

/-- The candidates with those of one more posting. -/
def CoviCandidateSetV2.extend (self : CoviCandidateSetV2)
    (representation : CoviPostingRepresentationV2) (payload : List UInt8) :
    Except CoveError CoviCandidateSetV2 :=
  match representation with
  | .rowRangeList => do
    let rows ← parseCoviRowRangePostings payload
    .ok { self with rowRanges := self.rowRanges ++ rows }
  | .byteRangeList => do
    let items ← parseFixedPayload coviByteRangePosting payload
    .ok { self with byteRanges := self.byteRanges ++ items }
  | .objectPathRefs => do
    let items ← parseFixedPayload coviObjectPathPosting payload
    .ok { self with objectPaths := self.objectPaths ++ items }
  | .dimensionalBucketRefs => do
    let items ← parseFixedPayload coviDimensionalBucketPosting payload
    .ok { self with dimensionalBuckets := self.dimensionalBuckets ++ items }
  | .rowOrdinalBitmap | .rowOrdinalDeltaVarint => do
    let refs ← parseU32Refs payload
    .ok { self with rowOrdinalSetRefs := self.rowOrdinalSetRefs ++ refs }
  | .sortedFileRefs => do
    let items ← parseFixedPayload coviFileRefPosting payload
    .ok { self with fileRefs := self.fileRefs ++ items }
  | .sortedSegmentRefs => do
    let items ← parseFixedPayload coviSegmentRefPosting payload
    .ok { self with segmentRefs := self.segmentRefs ++ items }
  | .sortedMorselRefs => do
    let items ← parseFixedPayload coviMorselRefPosting payload
    .ok { self with morselRefs := self.morselRefs ++ items }
  | .sortedPageRefs => do
    let items ← parseFixedPayload coviPageRefPosting payload
    .ok { self with pageRefs := self.pageRefs ++ items }
  | .coverageSetRef | .extension => .error .badCovi

/-- `sort` and `dedup`. -/
def sortDedup {α : Type} [LinearOrder α] (items : List α) : List α :=
  SortedList.dedup (items.insertionSort (· ≤ ·))

/-- The end of `lookup`: the row ranges merged, the other places sorted and without repeats. -/
def CoviCandidateSetV2.normalize (self : CoviCandidateSetV2) :
    Except CoveError CoviCandidateSetV2 := do
  let rows ← normalizeRowRanges self.rowRanges
  .ok { self with
    rowRanges := rows
    byteRanges := sortDedup self.byteRanges
    objectPaths := sortDedup self.objectPaths
    dimensionalBuckets := sortDedup self.dimensionalBuckets
    rowOrdinalSetRefs := sortDedup self.rowOrdinalSetRefs
    fileRefs := sortDedup self.fileRefs
    segmentRefs := sortDedup self.segmentRefs
    morselRefs := sortDedup self.morselRefs
    pageRefs := sortDedup self.pageRefs }

/-! ## Lookups -/

section

variable (request : CoviLookupRequestV2)

/-- The hash of a requested key does not disagree with that of an entry of the same key. -/
def checkKeyHash (entry : CoviIndexEntryV2) (key : List UInt8) : Except CoveError Unit :=
  match request.lowerKey.hash64 with
  | some hash =>
    if entry.keyHash64 ≠ hash ∧ key = request.lowerKey.keyBytes then .error .badCovi else .ok ()
  | none => .ok ()

/-- The body of the loop of `lookup`: the candidates with those of one more entry. -/
def collectEntry (root : CoviIndexRootV2) (keyBlock : CoviKeyBlockV2)
    (postingsBlock : CoviPostingsBlockV2) (candidates : CoviCandidateSetV2)
    (entry : CoviIndexEntryV2) : Except CoveError CoviCandidateSetV2 :=
  if entry.indexRootId ≠ root.indexRootId then .ok candidates
  else do
    let key ← keyBytesForEntry keyBlock entry
    checkKeyHash request entry key
    if !keyMatches request.op key request.lowerKey.keyBytes
        (request.upperKey.map CoviLookupKeyV2.keyBytes) (membershipKeyBytes request) then
      .ok candidates
    else do
      let posting ← orBadCovi postingsBlock.postings[entry.postingsRef]?
      let payload ← postingsBlock.postingPayload posting
      candidates.extend posting.representation payload

/-- The capability to answer an operation. -/
def IndexCapabilityV2.supports (capability : IndexCapabilityV2) : CoviLookupOpV2 → Nat
  | .eq => capability.supportsEq
  | .range _ _ => capability.supportsRange
  | .membership => capability.supportsMembership

/-- The root can answer the request. -/
def checkCapability (capability : IndexCapabilityV2) : Except CoveError Unit :=
  if request.requireExact = true ∧ capability.exactness ≠ .exact then .error .badCovi
  else if capability.supports request.op = 0 then .error .badCovi
  else if request.noFirstMember = true ∧ request.membershipKeys = [] then .error .badCovi
  else .ok ()

namespace ValidatedCoviArtifactV2

variable (self : ValidatedCoviArtifactV2)

/-- `lookup_root`. -/
def lookupRoot : Except CoveError CoviIndexRootV2 :=
  orBadCovi ((self.roots.entries.map Prod.snd).find? (rootMatchesTarget · request.target))

/-- `lookup`. -/
def lookup : Except CoveError CoviCandidateSetV2 := do
  let root ← self.lookupRoot request
  let capability ← orBadCovi (self.capabilities.get? root.indexRootId)
  checkCapability request capability
  let keyBlock ← orBadCovi (self.keyBlocks.get? root.keyBlockSectionId)
  let entryBlock ← orBadCovi (self.entryBlocks.get? root.entryBlockSectionId)
  let postingsBlock ← orBadCovi (self.postingsBlocks.get? root.postingsBlockSectionId)
  let candidates ← entryBlock.entries.foldlM (collectEntry request root keyBlock postingsBlock)
    ⟨capability.exactness, capability.proofStrength, [], [], [], [], [], [], [], [], []⟩
  candidates.normalize

end ValidatedCoviArtifactV2

end

/-! ## The matching entries -/

/-- The keys of a request for members are those that it lists. -/
theorem mem_membershipKeyBytes {request : CoviLookupRequestV2} {key : List UInt8}
    (hop : request.op = .membership) : key ∈ membershipKeyBytes request ↔ request.Matches key := by
  unfold membershipKeyBytes CoviLookupRequestV2.Matches
  rw [SortedList.mem_dedup, List.mem_insertionSort, List.mem_append, List.mem_map, hop]
  have hfirst : key ∈ (if !request.noFirstMember then [request.lowerKey.keyBytes] else []) ↔
      key = request.lowerKey.keyBytes ∧ request.lowerKey ≠ .canonicalValueBytes [] := by
    unfold CoviLookupRequestV2.noFirstMember
    by_cases hlower : request.lowerKey = .canonicalValueBytes []
    · simp [hop, hlower]
    · simp [hop, hlower]
  rw [hfirst]
  refine or_congr_right ?_
  constructor
  · rintro ⟨member, hmember, rfl⟩
    exact ⟨member, hmember, rfl⟩
  · rintro ⟨member, hmember, rfl⟩
    exact ⟨member, hmember, rfl⟩

/-- **The test of the code is whether the key matches.** -/
theorem keyMatches_iff (request : CoviLookupRequestV2) (key : List UInt8) :
    keyMatches request.op key request.lowerKey.keyBytes
        (request.upperKey.map CoviLookupKeyV2.keyBytes) (membershipKeyBytes request) = true ↔
      request.Matches key := by
  cases hop : request.op with
  | eq =>
    unfold keyMatches CoviLookupRequestV2.Matches
    rw [hop]
    exact beq_iff_eq
  | membership =>
    rw [← mem_membershipKeyBytes hop]
    unfold keyMatches
    simp
  | range lowerInclusive upperInclusive =>
    unfold keyMatches CoviLookupRequestV2.Matches
    rw [hop]
    dsimp only
    rw [Bool.and_eq_true]
    refine and_congr ?_ ?_
    · cases lowerInclusive with
      | true =>
        simp only [if_true, decide_eq_true_eq, le_iff_lt_or_eq, true_and]
        rw [eq_comm (a := key)]
      | false => simp
    · cases request.upperKey with
      | none => simp
      | some upper => cases upperInclusive <;> simp [le_iff_lt_or_eq]

instance (request : CoviLookupRequestV2) (key : List UInt8) : Decidable (request.Matches key) :=
  decidable_of_iff _ (keyMatches_iff request key)

/-- The row ranges that an entry adds to a request. -/
def matchedEntryRows (request : CoviLookupRequestV2) (root : CoviIndexRootV2)
    (keyBlock : CoviKeyBlockV2) (postingsBlock : CoviPostingsBlockV2) (entry : CoviIndexEntryV2) :
    List CoviRowRangePostingV2 :=
  match keyBytesForEntry keyBlock entry, postingsBlock.postings[entry.postingsRef]? with
  | .ok key, some posting =>
    if entry.indexRootId = root.indexRootId ∧ request.Matches key ∧
        posting.representation = .rowRangeList then
      (((postingsBlock.postingPayload posting).bind parseCoviRowRangePostings).toOption).getD []
    else []
  | _, _ => []

variable {candidates extended : CoviCandidateSetV2}

theorem rowRanges_of_extend {representation : CoviPostingRepresentationV2} {payload : List UInt8}
    (h : candidates.extend representation payload = .ok extended) :
    extended.rowRanges = candidates.rowRanges ++
      if representation = .rowRangeList then
        ((parseCoviRowRangePostings payload).toOption).getD []
      else [] := by
  cases representation with
  | rowRangeList =>
    obtain ⟨rows, hrows, h⟩ := bind_eq_ok.mp h
    obtain rfl := Except.ok.inj h
    rw [hrows]
    rfl
  | coverageSetRef => cases h
  | extension => cases h
  | _ =>
    obtain ⟨items, -, h⟩ := bind_eq_ok.mp h
    obtain rfl := Except.ok.inj h
    exact (List.append_nil _).symm

variable {postingsBlock : CoviPostingsBlockV2}

variable {keyBlock : CoviKeyBlockV2} {root : CoviIndexRootV2}

/-- One step of the loop adds the rows of the entry when it matches. -/
theorem rowRanges_of_collectEntry {request : CoviLookupRequestV2} {entry : CoviIndexEntryV2}
    (h : collectEntry request root keyBlock postingsBlock candidates entry = .ok extended) :
    extended.rowRanges =
      candidates.rowRanges ++ matchedEntryRows request root keyBlock postingsBlock entry := by
  unfold collectEntry at h
  unfold matchedEntryRows
  by_cases hroot : entry.indexRootId = root.indexRootId
  · rw [if_neg (not_not_intro hroot)] at h
    obtain ⟨key, hkey, h⟩ := bind_eq_ok.mp h
    obtain ⟨-, -, h⟩ := bind_eq_ok.mp h
    rw [hkey]
    by_cases hmatch : request.Matches key
    · rw [(keyMatches_iff request key).mpr hmatch] at h
      obtain ⟨posting, hposting, h⟩ := bind_eq_ok.mp h
      obtain ⟨payload, hpayload, h⟩ := bind_eq_ok.mp h
      have hget : postingsBlock.postings[entry.postingsRef]? = some posting := by
        cases hsome : postingsBlock.postings[entry.postingsRef]? with
        | none =>
          rw [hsome] at hposting
          cases hposting
        | some found =>
          rw [hsome] at hposting
          exact congrArg some (Except.ok.inj hposting)
      rw [hget, rowRanges_of_extend h]
      simp only [hroot, hmatch, true_and, hpayload]
      rfl
    · have hfalse := (Bool.not_eq_true _).mp (mt (keyMatches_iff request key).mp hmatch)
      rw [hfalse] at h
      obtain rfl := Except.ok.inj h
      cases postingsBlock.postings[entry.postingsRef]? with
      | none => exact (List.append_nil _).symm
      | some posting =>
        dsimp only
        rw [if_neg (fun hall => hmatch hall.2.1), List.append_nil]
  · rw [if_pos hroot] at h
    obtain rfl := Except.ok.inj h
    cases keyBytesForEntry keyBlock entry with
    | error => exact (List.append_nil _).symm
    | ok key =>
      cases postingsBlock.postings[entry.postingsRef]? with
      | none => exact (List.append_nil _).symm
      | some posting =>
        dsimp only
        rw [if_neg (fun hall => hroot hall.1), List.append_nil]

/-- The loop collects the rows of the entries that match, in the order of the entries. -/
theorem rowRanges_of_foldlM {request : CoviLookupRequestV2} {entries : List CoviIndexEntryV2}
    (h : entries.foldlM (collectEntry request root keyBlock postingsBlock) candidates =
      .ok extended) :
    extended.rowRanges = candidates.rowRanges ++
      entries.flatMap (matchedEntryRows request root keyBlock postingsBlock) := by
  induction entries generalizing candidates with
  | nil =>
    obtain rfl := Except.ok.inj h
    exact (List.append_nil _).symm
  | cons entry entries ih =>
    rw [List.foldlM_cons] at h
    obtain ⟨next, hnext, h⟩ := bind_eq_ok.mp h
    rw [ih h, rowRanges_of_collectEntry hnext, List.flatMap_cons, List.append_assoc]

namespace ValidatedCoviArtifactV2

/-- The row ranges of all postings of the entries whose key matches, in the order of the
entries. -/
def matchedRowRanges (self : ValidatedCoviArtifactV2) (request : CoviLookupRequestV2) :
    List CoviRowRangePostingV2 :=
  let rows : Option (List CoviRowRangePostingV2) := do
    let root ← (self.lookupRoot request).toOption
    let keyBlock ← self.keyBlocks.get? root.keyBlockSectionId
    let entryBlock ← self.entryBlocks.get? root.entryBlockSectionId
    let postingsBlock ← self.postingsBlocks.get? root.postingsBlockSectionId
    some (entryBlock.entries.flatMap (matchedEntryRows request root keyBlock postingsBlock))
  rows.getD []

theorem orBadCovi_eq_ok {α : Type} {x : Option α} {a : α} : orBadCovi x = .ok a ↔ x = some a := by
  cases x with
  | none => exact iff_of_false nofun nofun
  | some b => exact ⟨fun h => congrArg some (Except.ok.inj h), fun h => congrArg _ (Option.some.inj h)⟩

/-- **The row ranges of a lookup** are those of the entries whose key matches, merged. -/
theorem rowRanges_of_lookup {self : ValidatedCoviArtifactV2} {request : CoviLookupRequestV2}
    (h : self.lookup request = .ok candidates) :
    normalizeRowRanges (self.matchedRowRanges request) = .ok candidates.rowRanges := by
  unfold lookup at h
  obtain ⟨root, hroot, h⟩ := bind_eq_ok.mp h
  obtain ⟨capability, -, h⟩ := bind_eq_ok.mp h
  obtain ⟨-, -, h⟩ := bind_eq_ok.mp h
  obtain ⟨keyBlock, hkeys, h⟩ := bind_eq_ok.mp h
  obtain ⟨entryBlock, hentries, h⟩ := bind_eq_ok.mp h
  obtain ⟨postingsBlock, hpostings, h⟩ := bind_eq_ok.mp h
  obtain ⟨collected, hcollected, h⟩ := bind_eq_ok.mp h
  obtain ⟨rows, hrows, h⟩ := bind_eq_ok.mp h
  obtain rfl := Except.ok.inj h
  have hmatched : self.matchedRowRanges request = collected.rowRanges := by
    unfold matchedRowRanges
    rw [hroot, rowRanges_of_foldlM hcollected]
    simp only [Except.toOption, Option.bind_eq_bind, Option.bind_some,
      orBadCovi_eq_ok.mp hkeys, orBadCovi_eq_ok.mp hentries, orBadCovi_eq_ok.mp hpostings]
    rfl
  rw [hmatched]
  exact hrows

end ValidatedCoviArtifactV2

end Cove
