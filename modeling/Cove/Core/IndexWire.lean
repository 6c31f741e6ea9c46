import Cove.Core.Index
import Cove.Core.SealedRecord
import Cove.Lib.Digests

/-!
# Lookup and inverted indexes as bytes

Both indexes are a sealed header, a table of entries in ascending key order, and a pool that the
entries point into. The writers do not look at the order of the keys, the readers insist on it.

- `LookupIndex.serialize`, `LookupIndex.parse`, `LookupIndex.rowsFor`.
- `InvertedMorselIndex.serialize`, `InvertedMorselIndex.parse`.
- `LookupIndex.readBack_iff`: a lookup index is read back, and searched like a scan, exactly when
  its keys ascend.
- `InvertedMorselIndex.readBack_iff`: an inverted index also needs its bitmaps in its pool.
- `indexes_readBack_iff`: **both**.
-/

namespace Cove.IndexWire

open BinarySearch Checked

/-! ## Row references -/

structure RowRef where
  tableId : UInt32
  segmentId : UInt32
  morselId : UInt32
  rowInMorsel : UInt16
  deriving DecidableEq, Repr

namespace RowRef

/-- `ENCODED_LEN`. -/
def encodedLen : Nat := 14

def fields (self : RowRef) : List (Nat × Nat) :=
  [(4, self.tableId.toNat), (4, self.segmentId.toNat), (4, self.morselId.toNat),
    (2, self.rowInMorsel.toNat)]

def encode (self : RowRef) : List UInt8 := FieldRecord.encode self.fields

def decode (bytes : List UInt8) : Except CoveError RowRef :=
  if bytes.length < encodedLen then .error .bufferTooShort
  else .ok {
    tableId := UInt32.ofNat (fieldNat bytes 0 4)
    segmentId := UInt32.ofNat (fieldNat bytes 4 4)
    morselId := UInt32.ofNat (fieldNat bytes 8 4)
    rowInMorsel := UInt16.ofNat (fieldNat bytes 12 2) }

theorem length_encode (self : RowRef) : self.encode.length = encodedLen :=
  FieldRecord.length_encode _

theorem decode_encode (self : RowRef) : decode self.encode = .ok self := by
  have hfits : FieldRecord.Fits self.fields := by
    intro f hf
    simp only [fields, List.mem_cons, List.not_mem_nil, or_false] at hf
    rcases hf with rfl | rfl | rfl | rfl
    · exact self.tableId.toNat_lt
    · exact self.segmentId.toNat_lt
    · exact self.morselId.toNat_lt
    · exact self.rowInMorsel.toNat_lt
  have h : ∀ offset w {value : Nat}, FieldRecord.fieldAt self.fields offset w = some value →
      fieldNat self.encode offset w = value := by
    intro offset w value hat
    rw [← List.append_nil self.encode]
    exact fieldNat_encode hfits hat []
  unfold decode
  rw [if_neg (Nat.not_lt.mpr self.length_encode.ge), h 0 4 rfl, h 4 4 rfl, h 8 4 rfl, h 12 2 rfl,
    UInt32.ofNat_toNat, UInt32.ofNat_toNat, UInt32.ofNat_toNat, UInt16.ofNat_toNat]

end RowRef

/-! ## Lookup indexes -/

/-- `LOOKUP_INDEX_HEADER_LEN`. -/
def lookupIndexHeaderLen : Nat := 56

/-- `LOOKUP_INDEX_ENTRY_LEN`. -/
def lookupIndexEntryLen : Nat := 16

inductive LookupIndexKind where
  | hash
  | sparseSorted
  | minimalPerfectHash
  deriving DecidableEq, Repr

inductive LookupUniqueness where
  | unknown
  | unique
  | nonUnique
  deriving DecidableEq, Repr

def keyKindCode : LookupKeyKind → Nat
  | .fileCode => 0
  | .numCode => 1
  | .canonicalHash => 2
  | .fixedBytes => 3

/-- `LookupKeyKind::from_u8`. -/
def keyKindFromU8 : Nat → Option LookupKeyKind
  | 0 => some .fileCode
  | 1 => some .numCode
  | 2 => some .canonicalHash
  | 3 => some .fixedBytes
  | _ => none

namespace LookupIndexKind

def code : LookupIndexKind → Nat
  | hash => 0
  | sparseSorted => 1
  | minimalPerfectHash => 2

def fromU8 : Nat → Option LookupIndexKind
  | 0 => some hash
  | 1 => some sparseSorted
  | 2 => some minimalPerfectHash
  | _ => none

end LookupIndexKind

namespace LookupUniqueness

def code : LookupUniqueness → Nat
  | unknown => 0
  | unique => 1
  | nonUnique => 2

def fromU8 : Nat → Option LookupUniqueness
  | 0 => some unknown
  | 1 => some unique
  | 2 => some nonUnique
  | _ => none

end LookupUniqueness

structure LookupIndexHeaderV1 where
  tableId : UInt32
  columnId : UInt32
  keyKind : LookupKeyKind
  indexKind : LookupIndexKind
  uniqueness : LookupUniqueness
  flags : UInt8
  entryCount : UInt64
  entriesOffset : UInt64
  entriesLength : UInt64
  rowrefOffset : UInt64
  rowrefLength : UInt64
  checksum : UInt32
  deriving DecidableEq, Repr

namespace LookupIndexHeaderV1

/-- The fields before the checksum. -/
def fields (self : LookupIndexHeaderV1) : List (Nat × Nat) :=
  [(4, self.tableId.toNat), (4, self.columnId.toNat), (1, keyKindCode self.keyKind),
    (1, self.indexKind.code), (1, self.uniqueness.code), (1, self.flags.toNat),
    (8, self.entryCount.toNat), (8, self.entriesOffset.toNat), (8, self.entriesLength.toNat),
    (8, self.rowrefOffset.toNat), (8, self.rowrefLength.toNat)]

def serialize (self : LookupIndexHeaderV1) : List UInt8 :=
  FieldRecord.encode (sealRecord Crc32c.crc32c self.fields)

def parse (bytes : List UInt8) : Except CoveError LookupIndexHeaderV1 :=
  if bytes.length < lookupIndexHeaderLen then .error .bufferTooShort
  else do
    let bytes := bytes.take lookupIndexHeaderLen
    let checksum ← verifyChecksumField Crc32c.crc32c bytes 52
    match keyKindFromU8 (fieldNat bytes 8 1), LookupIndexKind.fromU8 (fieldNat bytes 9 1),
      LookupUniqueness.fromU8 (fieldNat bytes 10 1) with
    | some keyKind, some indexKind, some uniqueness =>
      .ok {
        tableId := UInt32.ofNat (fieldNat bytes 0 4)
        columnId := UInt32.ofNat (fieldNat bytes 4 4)
        keyKind := keyKind
        indexKind := indexKind
        uniqueness := uniqueness
        flags := UInt8.ofNat (fieldNat bytes 11 1)
        entryCount := UInt64.ofNat (fieldNat bytes 12 8)
        entriesOffset := UInt64.ofNat (fieldNat bytes 20 8)
        entriesLength := UInt64.ofNat (fieldNat bytes 28 8)
        rowrefOffset := UInt64.ofNat (fieldNat bytes 36 8)
        rowrefLength := UInt64.ofNat (fieldNat bytes 44 8)
        checksum := UInt32.ofNat checksum }
    | _, _, _ => .error .badIndex

variable (self : LookupIndexHeaderV1)

theorem length_serialize :
    self.serialize.length = lookupIndexHeaderLen := by
  rw [serialize, FieldRecord.length_encode, width_sealRecord]
  rfl

theorem fits : FieldRecord.Fits self.fields := by
  intro f hf
  simp only [fields, List.mem_cons, List.not_mem_nil, or_false] at hf
  rcases hf with rfl | rfl | rfl | rfl | rfl | rfl | rfl | rfl | rfl | rfl | rfl
  · exact self.tableId.toNat_lt
  · exact self.columnId.toNat_lt
  · cases self.keyKind <;> decide
  · cases self.indexKind <;> decide
  · cases self.uniqueness <;> decide
  · exact self.flags.toNat_lt
  · exact self.entryCount.toNat_lt
  · exact self.entriesOffset.toNat_lt
  · exact self.entriesLength.toNat_lt
  · exact self.rowrefOffset.toNat_lt
  · exact self.rowrefLength.toNat_lt

/-- A header is read back, its checksum as written. -/
theorem parse_serialize (rest : List UInt8) :
    ∃ checksum, parse (self.serialize ++ rest) = .ok { self with checksum := checksum } := by
  have h : ∀ offset w {value : Nat}, FieldRecord.fieldAt self.fields offset w = some value →
      fieldNat self.serialize offset w = value := by
    intro offset w value hat
    rw [serialize, sealRecord, FieldRecord.encode_append]
    exact fieldNat_encode self.fits hat _
  have hsum : verifyChecksumField Crc32c.crc32c self.serialize 52 =
      .ok (Crc32c.crc32c (FieldRecord.encode self.fields ++ [0, 0, 0, 0])) :=
    verifyChecksumField_sealRecord Crc32c.crc32c_lt rfl (by decide)
  have hkey : keyKindFromU8 (keyKindCode self.keyKind) = some self.keyKind := by
    cases self.keyKind <;> rfl
  have hkind : LookupIndexKind.fromU8 self.indexKind.code = some self.indexKind := by
    cases self.indexKind <;> rfl
  have hunique : LookupUniqueness.fromU8 self.uniqueness.code = some self.uniqueness := by
    cases self.uniqueness <;> rfl
  refine ⟨UInt32.ofNat (Crc32c.crc32c (FieldRecord.encode self.fields ++ [0, 0, 0, 0])), ?_⟩
  unfold parse
  rw [if_neg (by rw [List.length_append, self.length_serialize]; omega),
    List.take_left' self.length_serialize]
  dsimp only
  rw [hsum, ok_bind, h 8 1 rfl, h 9 1 rfl, h 10 1 rfl, hkey, hkind, hunique, h 0 4 rfl, h 4 4 rfl,
    h 11 1 rfl, h 12 8 rfl, h 20 8 rfl, h 28 8 rfl, h 36 8 rfl, h 44 8 rfl]
  simp only [UInt32.ofNat_toNat, UInt8.ofNat_toNat, UInt64.ofNat_toNat]

end LookupIndexHeaderV1

structure LookupEntry where
  key : UInt64
  rows : List RowRef
  deriving DecidableEq, Repr

structure LookupIndex where
  header : LookupIndexHeaderV1
  entries : List LookupEntry
  deriving DecidableEq, Repr

/-- The row references of an entry. -/
def LookupEntry.rowBytes (entry : LookupEntry) : List UInt8 := entry.rows.flatMap RowRef.encode

/-- The record of an entry: its key and where its rows are. -/
def LookupEntry.fields (entry : LookupEntry) (rowrefStart : Nat) : List (Nat × Nat) :=
  [(8, entry.key.toNat), (4, rowrefStart), (4, entry.rows.length)]

/-- The loop of `serialize`: the bytes of the entries and of their rows, from a row on. -/
def writeLookupEntries (rowrefStart : Nat) :
    List LookupEntry → Except CoveError (List UInt8 × List UInt8)
  | [] => .ok ([], [])
  | entry :: entries =>
    if entry.rows.length ≥ 2 ^ 32 then .error .arithOverflow
    else do
      let next ← checkedAddU32 rowrefStart entry.rows.length
      let (entryBytes, rowrefBytes) ← writeLookupEntries next entries
      .ok (FieldRecord.encode (entry.fields rowrefStart) ++ entryBytes,
        entry.rowBytes ++ rowrefBytes)

/-- The loop of `parse`, after an entry with a key. -/
def parseLookupEntries (rowrefBytes : List UInt8) (previousKey : Option UInt64) :
    List (List UInt8) → Except CoveError (List LookupEntry)
  | [] => .ok []
  | chunk :: chunks => do
    let key := UInt64.ofNat (fieldNat chunk 0 8)
    if ∃ previous ∈ previousKey, key ≤ previous then .error .badIndex
    else do
      let start ← checkedMul (fieldNat chunk 8 4) RowRef.encodedLen
      let length ← checkedMul (fieldNat chunk 12 4) RowRef.encodedLen
      let stop ← checkedAdd start length
      if stop > rowrefBytes.length then .error .badIndex
      else do
        let rows ← (chunksExact RowRef.encodedLen (fieldBytes rowrefBytes start length)).mapM
          RowRef.decode
        let entries ← parseLookupEntries rowrefBytes (some key) chunks
        .ok (⟨key, rows⟩ :: entries)

namespace LookupIndex

def parse (bytes : List UInt8) : Except CoveError LookupIndex := do
  let header ← LookupIndexHeaderV1.parse bytes
  let entriesBytes ← checkedRegion bytes header.entriesOffset.toNat header.entriesLength.toNat
  let rowrefBytes ← checkedRegion bytes header.rowrefOffset.toNat header.rowrefLength.toNat
  let expectedEntriesLen ← checkedMul header.entryCount.toNat lookupIndexEntryLen
  if header.entriesLength.toNat ≠ expectedEntriesLen ∨
      rowrefBytes.length % RowRef.encodedLen ≠ 0 then .error .badIndex
  else do
    let entries ← parseLookupEntries rowrefBytes none (chunksExact lookupIndexEntryLen entriesBytes)
    .ok ⟨header, entries⟩

/-- `rows_for`. -/
def rowsFor (self : LookupIndex) (key : UInt64) : Option (List RowRef) :=
  (binarySearchByKey key.toNat (fun entry => entry.key.toNat) self.entries).bind fun i =>
    (self.entries[i]?).map LookupEntry.rows

/-- The header of the serialized index. -/
def storedHeader (self : LookupIndex) (entriesLength rowrefOffset rowrefLength : Nat) :
    LookupIndexHeaderV1 :=
  { self.header with
    entryCount := UInt64.ofNat self.entries.length
    entriesOffset := UInt64.ofNat lookupIndexHeaderLen
    entriesLength := UInt64.ofNat entriesLength
    rowrefOffset := UInt64.ofNat rowrefOffset
    rowrefLength := UInt64.ofNat rowrefLength }

def serialize (self : LookupIndex) : Except CoveError (List UInt8) := do
  let _ ← checkedMul self.entries.length lookupIndexEntryLen
  let (entryBytes, rowrefBytes) ← writeLookupEntries 0 self.entries
  let rowrefOffset ← checkedAdd lookupIndexHeaderLen entryBytes.length
  let header := self.storedHeader entryBytes.length rowrefOffset rowrefBytes.length
  .ok (header.serialize ++ entryBytes ++ rowrefBytes)

/-- What a scan over the entries finds. -/
def scan (self : LookupIndex) (key : UInt64) : Option (List RowRef) :=
  (self.entries.find? fun entry => entry.key = key).map LookupEntry.rows

end LookupIndex

/-- The keys of the entries ascend. -/
def Ascending (entries : List LookupEntry) : Prop := entries.Pairwise fun x y => x.key < y.key

/-- The key is above the one before it. -/
def Above (previousKey : Option UInt64) (key : UInt64) : Prop := ∀ previous ∈ previousKey, previous < key

variable {previousKey : Option UInt64}

theorem not_exists_le_iff {key : UInt64} :
    (¬ ∃ previous ∈ previousKey, key ≤ previous) ↔ Above previousKey key := by
  simp only [Above, not_exists, not_and, UInt64.not_le]

/-! ### Reading -/

variable {entries : List LookupEntry} {rowrefStart : Nat}

variable {rowrefBytes : List UInt8} {chunks : List (List UInt8)}

/-- **What the reader accepts ascends.** -/
theorem ascending_of_parseLookupEntries
    (h : parseLookupEntries rowrefBytes previousKey chunks = .ok entries) :
    Ascending entries ∧ ∀ entry ∈ entries, Above previousKey entry.key := by
  induction chunks generalizing previousKey entries with
  | nil =>
    obtain rfl := Except.ok.inj h
    exact ⟨.nil, fun entry hentry => by cases hentry⟩
  | cons chunk chunks ih =>
    obtain ⟨habove, h⟩ := ite_error_eq_ok.mp h
    have habove := not_exists_le_iff.mp habove
    obtain ⟨start, -, h⟩ := bind_eq_ok.mp h
    obtain ⟨length, -, h⟩ := bind_eq_ok.mp h
    obtain ⟨stop, -, h⟩ := bind_eq_ok.mp h
    obtain ⟨-, h⟩ := ite_error_eq_ok.mp h
    obtain ⟨rows, -, h⟩ := bind_eq_ok.mp h
    obtain ⟨rest, hrest, h⟩ := bind_eq_ok.mp h
    obtain rfl := Except.ok.inj h
    obtain ⟨hsorted, hall⟩ := ih hrest
    have hkeys : ∀ entry ∈ rest, UInt64.ofNat (fieldNat chunk 0 8) < entry.key :=
      fun entry hentry => hall entry hentry _ rfl
    refine ⟨List.pairwise_cons.mpr ⟨hkeys, hsorted⟩, List.forall_mem_cons.mpr ⟨habove, ?_⟩⟩
    intro entry hentry previous hprevious
    exact UInt64.lt_trans (habove previous hprevious) (hkeys entry hentry)

/-! ### What is written -/

/-- The records of the entries. -/
def entryRecords (rowrefStart : Nat) : List LookupEntry → List (List UInt8)
  | [] => []
  | entry :: entries => FieldRecord.encode (entry.fields rowrefStart) ::
      entryRecords (rowrefStart + entry.rows.length) entries

theorem length_entryRecords (rowrefStart : Nat) (entries : List LookupEntry) :
    (entryRecords rowrefStart entries).length = entries.length := by
  induction entries generalizing rowrefStart with
  | nil => rfl
  | cons entry entries ih => rw [entryRecords, List.length_cons, ih, List.length_cons]

theorem length_of_mem_entryRecords
    {record : List UInt8} (h : record ∈ entryRecords rowrefStart entries) :
    record.length = lookupIndexEntryLen := by
  induction entries generalizing rowrefStart with
  | nil => cases h
  | cons entry entries ih =>
    rcases List.mem_cons.mp h with rfl | h
    · exact FieldRecord.length_encode _
    · exact ih h

theorem length_rowBytes (entry : LookupEntry) :
    entry.rowBytes.length = entry.rows.length * RowRef.encodedLen :=
  Strides.length_flatMap fun row _ => row.length_encode

/-- The rows of an entry and those before it are less than 2^32, and it is written. -/
theorem writeLookupEntries_eq_ok {entryBytes : List UInt8}
    (h : writeLookupEntries rowrefStart entries = .ok (entryBytes, rowrefBytes)) :
    entryBytes = (entryRecords rowrefStart entries).flatten ∧
      rowrefBytes = entries.flatMap LookupEntry.rowBytes ∧
      (entries ≠ [] → rowrefStart + (entries.map fun entry => entry.rows.length).sum < 2 ^ 32) := by
  induction entries generalizing rowrefStart entryBytes rowrefBytes with
  | nil =>
    obtain ⟨rfl, rfl⟩ := Prod.mk.inj (Except.ok.inj h)
    exact ⟨rfl, rfl, fun hne => absurd rfl hne⟩
  | cons entry entries ih =>
    obtain ⟨-, h⟩ := ite_error_eq_ok.mp h
    obtain ⟨next, hnext, h⟩ := bind_eq_ok.mp h
    obtain ⟨⟨entryRest, rowRest⟩, hrest, h⟩ := bind_eq_ok.mp h
    obtain ⟨rfl, rfl⟩ := Prod.mk.inj (Except.ok.inj h)
    obtain ⟨hlt, rfl⟩ := addU32_eq_ok.mp hnext
    obtain ⟨rfl, rfl, hsum⟩ := ih hrest
    refine ⟨rfl, rfl, fun _ => ?_⟩
    rw [List.map_cons, List.sum_cons]
    cases entries with
    | nil => exact hlt
    | cons entry' entries =>
      have := hsum (by simp)
      omega

theorem mapM_decode (rows : List RowRef) : (rows.map RowRef.encode).mapM RowRef.decode = .ok rows := by
  refine mapM_eq_ok.mpr (List.forall₂_map_left_iff.mpr ?_)
  have hself : ∀ row ∈ rows, RowRef.decode row.encode = .ok (id row) := fun row _ => row.decode_encode
  have hall := @forall₂_map_self _ _ (fun row row' : RowRef => RowRef.decode row.encode = .ok row')
    _ _ hself
  rwa [List.map_id] at hall

/-- The fields of a record that was written. -/
theorem fields_record {entry : LookupEntry} (hsum : rowrefStart + entry.rows.length < 2 ^ 32) :
    fieldNat (FieldRecord.encode (entry.fields rowrefStart)) 0 8 = entry.key.toNat ∧
    fieldNat (FieldRecord.encode (entry.fields rowrefStart)) 8 4 = rowrefStart ∧
    fieldNat (FieldRecord.encode (entry.fields rowrefStart)) 12 4 = entry.rows.length := by
  have hfits : FieldRecord.Fits (entry.fields rowrefStart) := by
    intro f hf
    simp only [LookupEntry.fields, List.mem_cons, List.not_mem_nil, or_false] at hf
    rcases hf with rfl | rfl | rfl
    · exact entry.key.toNat_lt
    · show rowrefStart < 2 ^ 32
      omega
    · show entry.rows.length < 2 ^ 32
      omega
  have h : ∀ offset w {value : Nat},
      FieldRecord.fieldAt (entry.fields rowrefStart) offset w = some value →
      fieldNat (FieldRecord.encode (entry.fields rowrefStart)) offset w = value := by
    intro offset w value hat
    rw [← List.append_nil (FieldRecord.encode (entry.fields rowrefStart))]
    exact fieldNat_encode hfits hat []
  exact ⟨h 0 8 rfl, h 8 4 rfl, h 12 4 rfl⟩

/-- **Ascending entries are read back.** The induction is on the entries still to come, with the
rows of those before them in front of the pool. -/
theorem parseLookupEntries_records {entries : List LookupEntry} {before : List UInt8}
    {rowrefStart : Nat} {previousKey : Option UInt64}
    (hbefore : before.length = rowrefStart * RowRef.encodedLen)
    (hsum : entries ≠ [] →
      rowrefStart + (entries.map fun entry => entry.rows.length).sum < 2 ^ 32)
    (hsorted : Ascending entries) (habove : ∀ entry ∈ entries, Above previousKey entry.key) :
    parseLookupEntries (before ++ entries.flatMap LookupEntry.rowBytes) previousKey
      (entryRecords rowrefStart entries) = .ok entries := by
  induction entries generalizing before rowrefStart previousKey with
  | nil => rfl
  | cons entry entries ih =>
    obtain ⟨hkeys, htail⟩ := List.pairwise_cons.mp hsorted
    have hall := hsum (by simp)
    rw [List.map_cons, List.sum_cons] at hall
    have hhere : rowrefStart + entry.rows.length < 2 ^ 32 := by omega
    obtain ⟨hkey, hstart, hcount⟩ := fields_record hhere
    have hstartLt : rowrefStart * RowRef.encodedLen < 2 ^ 64 := by
      unfold RowRef.encodedLen
      omega
    have hlengthLt : entry.rows.length * RowRef.encodedLen < 2 ^ 64 := by
      unfold RowRef.encodedLen
      omega
    have hstopLt : rowrefStart * RowRef.encodedLen + entry.rows.length * RowRef.encodedLen <
        2 ^ 64 := by
      unfold RowRef.encodedLen
      omega
    have hrows : fieldBytes (before ++ (entry :: entries).flatMap LookupEntry.rowBytes)
        (rowrefStart * RowRef.encodedLen) (entry.rows.length * RowRef.encodedLen) =
          entry.rowBytes := by
      rw [fieldBytes, List.drop_left' hbefore, List.flatMap_cons,
        List.take_left' (length_rowBytes entry)]
    have hroom : ¬ rowrefStart * RowRef.encodedLen + entry.rows.length * RowRef.encodedLen >
        (before ++ (entry :: entries).flatMap LookupEntry.rowBytes).length := by
      rw [List.length_append, List.flatMap_cons, List.length_append, length_rowBytes, hbefore]
      omega
    have hchunks : chunksExact RowRef.encodedLen entry.rowBytes = entry.rows.map RowRef.encode :=
      chunksExact_flatMap (by decide) fun row _ => row.length_encode
    have hbefore' : (before ++ entry.rowBytes).length =
        (rowrefStart + entry.rows.length) * RowRef.encodedLen := by
      rw [List.length_append, length_rowBytes, hbefore, Nat.add_mul]
    have habove' : ∀ entry' ∈ entries, Above (some entry.key) entry'.key := by
      intro entry' hentry' previous hprevious
      obtain rfl := Option.some.inj hprevious
      exact hkeys entry' hentry'
    have hrest := ih hbefore' (fun _ => by omega) htail habove'
    rw [List.append_assoc] at hrest
    rw [entryRecords, parseLookupEntries, hkey, hstart, hcount, UInt64.ofNat_toNat,
      if_neg (not_exists_le_iff.mpr (habove entry (by simp)))]
    refine bind_eq_ok.mpr ⟨_, mulU64_eq_ok.mpr ⟨hstartLt, rfl⟩, bind_eq_ok.mpr ⟨_,
      mulU64_eq_ok.mpr ⟨hlengthLt, rfl⟩, bind_eq_ok.mpr ⟨_, addU64_eq_ok.mpr ⟨hstopLt, rfl⟩, ?_⟩⟩⟩
    rw [if_neg hroom, hrows, hchunks]
    exact bind_eq_ok.mpr ⟨_, mapM_decode entry.rows, bind_eq_ok.mpr ⟨_, hrest, rfl⟩⟩

variable {region : List UInt8} {offset length : Nat}

/-- A region that is there, or not. -/
theorem checkedRegion_eq_ok {bytes : List UInt8}
    (hmemory : bytes.length < 2 ^ 64) : checkedRegion bytes offset length = .ok region ↔
      offset + length ≤ bytes.length ∧ region = fieldBytes bytes offset length := by
  unfold checkedRegion
  rw [bind_eq_ok]
  constructor
  · rintro ⟨stop, hstop, h⟩
    obtain ⟨-, rfl⟩ := addU64_eq_ok.mp hstop
    obtain ⟨hle, h⟩ := ite_error_eq_ok.mp h
    exact ⟨Nat.le_of_not_lt hle, (Except.ok.inj h).symm⟩
  · rintro ⟨hle, rfl⟩
    refine ⟨offset + length, addU64_eq_ok.mpr ⟨by omega, rfl⟩, ?_⟩
    rw [if_neg (Nat.not_lt.mpr hle)]

/-- Bytes between others, as a region. -/
theorem checkedRegion_middle (before region after : List UInt8)
    (hmemory : (before ++ region ++ after).length < 2 ^ 64) :
    checkedRegion (before ++ region ++ after) before.length region.length = .ok region := by
  refine (checkedRegion_eq_ok hmemory).mpr ⟨?_, ?_⟩
  · rw [List.length_append, List.length_append]
    omega
  · rw [fieldBytes, List.append_assoc, List.drop_left' rfl, List.take_left' rfl]

namespace LookupIndex

variable {self : LookupIndex} {bytes : List UInt8}

/-- The steps of the reader. -/
theorem parse_eq_ok {header : LookupIndexHeaderV1} {entriesBytes : List UInt8}
    (hheader : LookupIndexHeaderV1.parse bytes = .ok header)
    (hregion : checkedRegion bytes header.entriesOffset.toNat header.entriesLength.toNat =
      .ok entriesBytes)
    (hpool : checkedRegion bytes header.rowrefOffset.toNat header.rowrefLength.toNat =
      .ok rowrefBytes)
    (hcount : header.entriesLength.toNat = header.entryCount.toNat * lookupIndexEntryLen)
    (hrows : rowrefBytes.length % RowRef.encodedLen = 0)
    (hentries : parseLookupEntries rowrefBytes none (chunksExact lookupIndexEntryLen entriesBytes) =
      .ok entries) : parse bytes = .ok ⟨header, entries⟩ := by
  have hexpected : checkedMul header.entryCount.toNat lookupIndexEntryLen =
      .ok header.entriesLength.toNat :=
    mulU64_eq_ok.mpr ⟨hcount ▸ header.entriesLength.toNat_lt, hcount⟩
  unfold parse
  rw [hheader, ok_bind, hregion, ok_bind, hpool, ok_bind, hexpected, ok_bind,
    if_neg (not_or.mpr ⟨not_not_intro rfl, not_not_intro hrows⟩), hentries, ok_bind]

/-- **Reading what was written is reading the entries.** -/
theorem parse_serialize (hmemory : bytes.length < 2 ^ 64) (h : self.serialize = .ok bytes) :
    (∀ index, parse bytes = .ok index → Ascending index.entries) ∧
    (Ascending self.entries → ∃ header, parse bytes = .ok ⟨header, self.entries⟩) := by
  refine ⟨?_, ?_⟩
  · intro index hparse
    obtain ⟨header, -, hparse⟩ := bind_eq_ok.mp hparse
    obtain ⟨entriesBytes, -, hparse⟩ := bind_eq_ok.mp hparse
    obtain ⟨rowrefBytes, -, hparse⟩ := bind_eq_ok.mp hparse
    obtain ⟨expected, -, hparse⟩ := bind_eq_ok.mp hparse
    obtain ⟨-, hparse⟩ := ite_error_eq_ok.mp hparse
    obtain ⟨entries, hentries, hparse⟩ := bind_eq_ok.mp hparse
    obtain rfl := Except.ok.inj hparse
    exact (ascending_of_parseLookupEntries hentries).1
  · intro hsorted
    obtain ⟨capacity, hcapacity, h⟩ := bind_eq_ok.mp h
    obtain ⟨⟨entryBytes, rowrefBytes⟩, hwrite, h⟩ := bind_eq_ok.mp h
    obtain ⟨rowrefOffset, hoffset, h⟩ := bind_eq_ok.mp h
    obtain rfl := Except.ok.inj h
    obtain ⟨hcapacityLt, rfl⟩ := mulU64_eq_ok.mp hcapacity
    obtain ⟨hoffsetLt, rfl⟩ := addU64_eq_ok.mp hoffset
    obtain ⟨rfl, rfl, hsum⟩ := writeLookupEntries_eq_ok hwrite
    have hrecords : (entryRecords 0 self.entries).flatten.length =
        self.entries.length * lookupIndexEntryLen := by
      rw [← List.flatMap_id', Strides.length_flatMap fun record hrecord =>
        length_of_mem_entryRecords hrecord, length_entryRecords]
    have hchunks : chunksExact lookupIndexEntryLen (entryRecords 0 self.entries).flatten =
        entryRecords 0 self.entries := by
      rw [← List.flatMap_id', chunksExact_flatMap (by decide) fun record hrecord =>
        length_of_mem_entryRecords hrecord, List.map_id']
    have hrowLength : (self.entries.flatMap LookupEntry.rowBytes).length % RowRef.encodedLen = 0 := by
      have hflat : self.entries.flatMap LookupEntry.rowBytes =
          (self.entries.flatMap LookupEntry.rows).flatMap RowRef.encode := List.flatMap_assoc.symm
      rw [hflat, Strides.length_flatMap fun row _ => row.length_encode]
      exact Nat.mul_mod_left _ _
    have hnone : ∀ entry ∈ self.entries, Above none entry.key := by
      intro entry _ previous hprevious
      cases hprevious
    have hentries := @parseLookupEntries_records self.entries [] 0 none rfl hsum hsorted hnone
    rw [List.nil_append] at hentries
    generalize (entryRecords 0 self.entries).flatten = entryBytes at *
    generalize self.entries.flatMap LookupEntry.rowBytes = rowrefBytes at *
    have hnat : ∀ {n : Nat}, n < 2 ^ 64 → (UInt64.ofNat n).toNat = n := UInt64.toNat_ofNat_of_lt'
    have hheader := (self.storedHeader entryBytes.length (lookupIndexHeaderLen + entryBytes.length)
      rowrefBytes.length).length_serialize
    obtain ⟨checksum, hparse⟩ := LookupIndexHeaderV1.parse_serialize (self.storedHeader
      entryBytes.length (lookupIndexHeaderLen + entryBytes.length) rowrefBytes.length)
      (entryBytes ++ rowrefBytes)
    rw [← List.append_assoc] at hparse
    generalize (self.storedHeader entryBytes.length (lookupIndexHeaderLen + entryBytes.length)
      rowrefBytes.length).serialize = headerBytes at *
    have hregion := checkedRegion_middle headerBytes entryBytes rowrefBytes hmemory
    have hpool := checkedRegion_middle (headerBytes ++ entryBytes) rowrefBytes []
      (by rwa [List.append_nil])
    rw [List.append_nil, List.length_append] at hpool
    rw [List.length_append, List.length_append, hheader] at hmemory
    rw [hheader] at hregion hpool
    have hoffsets : lookupIndexHeaderLen < 2 ^ 64 := by decide
    have hcount : self.entries.length < 2 ^ 64 := by
      unfold lookupIndexEntryLen at hcapacityLt
      omega
    refine ⟨_, parse_eq_ok hparse ?_ ?_ ?_ hrowLength (hchunks ▸ hentries)⟩
    · dsimp only [storedHeader]
      rw [hnat hoffsets, hnat (by omega)]
      exact hregion
    · dsimp only [storedHeader]
      rw [hnat hoffsetLt, hnat (by omega)]
      exact hpool
    · dsimp only [storedHeader]
      rw [hnat (by omega), hnat hcount]
      exact hrecords

/-! ### Searching -/

theorem rowsFor_eq_scan (hsorted : Ascending self.entries) (key : UInt64) :
    self.rowsFor key = self.scan key := by
  have hkeys : self.entries.Pairwise fun x y => x.key.toNat < y.key.toNat :=
    hsorted.imp fun h => UInt64.lt_iff_toNat_lt.mp h
  unfold rowsFor scan
  cases hfind : self.entries.find? fun entry => entry.key = key with
  | none =>
    have hnone : binarySearchByKey key.toNat (fun entry : LookupEntry => entry.key.toNat)
        self.entries = none := by
      by_contra hsome
      obtain ⟨i, hi⟩ := Option.ne_none_iff_exists'.mp hsome
      obtain ⟨entry, hentry, hkey⟩ := binarySearchByKey_eq_some hi
      have hno := List.find?_eq_none.mp hfind entry (List.mem_of_getElem? hentry)
      exact hno (decide_eq_true (UInt64.toNat_inj.mp hkey))
    rw [hnone]
    rfl
  | some entry =>
    have hmem := List.mem_of_find?_eq_some hfind
    have hfound := List.find?_some hfind
    have hkey : entry.key = key := of_decide_eq_true hfound
    obtain ⟨i, hi, hat⟩ := binarySearchByKey_of_mem hkeys hmem
    rw [← hkey, hi, Option.bind_some, hat]

/-- The index is read back from the bytes, and its search is a scan. -/
structure ReadBack (self : LookupIndex) (bytes : List UInt8) : Prop where
  parsed : ∃ header, parse bytes = .ok ⟨header, self.entries⟩
  searched : ∀ key, self.rowsFor key = self.scan key

/-- **A written lookup index is read back exactly when** its keys ascend. -/
theorem readBack_iff (hmemory : bytes.length < 2 ^ 64) (h : self.serialize = .ok bytes) :
    self.ReadBack bytes ↔ Ascending self.entries := by
  obtain ⟨hsound, hcomplete⟩ := parse_serialize hmemory h
  constructor
  · rintro ⟨⟨header, hparse⟩, -⟩
    exact hsound ⟨header, self.entries⟩ hparse
  · intro hsorted
    exact ⟨hcomplete hsorted, rowsFor_eq_scan hsorted⟩

end LookupIndex

/-! ## Inverted indexes -/

/-- `INVERTED_MORSEL_INDEX_HEADER_LEN`. -/
def invertedMorselIndexHeaderLen : Nat := 36

/-- `INVERTED_MORSEL_ENTRY_LEN`. -/
def invertedMorselEntryLen : Nat := 32

def invertedKeyKindCode : InvertedKeyKind → Nat
  | .fileCode => 0
  | .numCode => 1

/-- `InvertedKeyKind::from_u8`. -/
def invertedKeyKindFromU8 : Nat → Option InvertedKeyKind
  | 0 => some .fileCode
  | 1 => some .numCode
  | _ => none

structure InvertedMorselIndexHeaderV1 where
  tableId : UInt32
  columnId : UInt32
  keyKind : InvertedKeyKind
  flags : UInt8
  representation : UInt8
  reserved : UInt8
  entryCount : UInt32
  entriesOffset : UInt64
  bitmapDataOffset : UInt64
  checksum : UInt32
  deriving DecidableEq, Repr

namespace InvertedMorselIndexHeaderV1

/-- The fields before the checksum. -/
def fields (self : InvertedMorselIndexHeaderV1) : List (Nat × Nat) :=
  [(4, self.tableId.toNat), (4, self.columnId.toNat), (1, invertedKeyKindCode self.keyKind),
    (1, self.flags.toNat), (1, self.representation.toNat), (1, self.reserved.toNat),
    (4, self.entryCount.toNat), (8, self.entriesOffset.toNat), (8, self.bitmapDataOffset.toNat)]

def serialize (self : InvertedMorselIndexHeaderV1) : List UInt8 :=
  FieldRecord.encode (sealRecord Crc32c.crc32c self.fields)

def parse (bytes : List UInt8) : Except CoveError InvertedMorselIndexHeaderV1 :=
  if bytes.length < invertedMorselIndexHeaderLen then .error .bufferTooShort
  else do
    let bytes := bytes.take invertedMorselIndexHeaderLen
    let checksum ← verifyChecksumField Crc32c.crc32c bytes 32
    match invertedKeyKindFromU8 (fieldNat bytes 8 1) with
    | none => .error .badIndex
    | some keyKind =>
      if fieldNat bytes 11 1 ≠ 0 then .error .reservedNotZero
      else .ok {
        tableId := UInt32.ofNat (fieldNat bytes 0 4)
        columnId := UInt32.ofNat (fieldNat bytes 4 4)
        keyKind := keyKind
        flags := UInt8.ofNat (fieldNat bytes 9 1)
        representation := UInt8.ofNat (fieldNat bytes 10 1)
        reserved := UInt8.ofNat (fieldNat bytes 11 1)
        entryCount := UInt32.ofNat (fieldNat bytes 12 4)
        entriesOffset := UInt64.ofNat (fieldNat bytes 16 8)
        bitmapDataOffset := UInt64.ofNat (fieldNat bytes 24 8)
        checksum := UInt32.ofNat checksum }

variable (self : InvertedMorselIndexHeaderV1)

theorem length_serialize :
    self.serialize.length = invertedMorselIndexHeaderLen := by
  rw [serialize, FieldRecord.length_encode, width_sealRecord]
  rfl

theorem fits : FieldRecord.Fits self.fields := by
  intro f hf
  simp only [fields, List.mem_cons, List.not_mem_nil, or_false] at hf
  rcases hf with rfl | rfl | rfl | rfl | rfl | rfl | rfl | rfl | rfl
  · exact self.tableId.toNat_lt
  · exact self.columnId.toNat_lt
  · cases self.keyKind <;> decide
  · exact self.flags.toNat_lt
  · exact self.representation.toNat_lt
  · exact self.reserved.toNat_lt
  · exact self.entryCount.toNat_lt
  · exact self.entriesOffset.toNat_lt
  · exact self.bitmapDataOffset.toNat_lt

/-- **A header is read back exactly when** its reserved byte is zero. -/
theorem parse_serialize (rest : List UInt8) :
    ∃ checksum, parse (self.serialize ++ rest) =
      if self.reserved ≠ 0 then .error .reservedNotZero
      else .ok { self with checksum := checksum } := by
  have h : ∀ offset w {value : Nat}, FieldRecord.fieldAt self.fields offset w = some value →
      fieldNat self.serialize offset w = value := by
    intro offset w value hat
    rw [serialize, sealRecord, FieldRecord.encode_append]
    exact fieldNat_encode self.fits hat _
  have hsum : verifyChecksumField Crc32c.crc32c self.serialize 32 =
      .ok (Crc32c.crc32c (FieldRecord.encode self.fields ++ [0, 0, 0, 0])) :=
    verifyChecksumField_sealRecord Crc32c.crc32c_lt rfl (by decide)
  have hkey : invertedKeyKindFromU8 (invertedKeyKindCode self.keyKind) = some self.keyKind := by
    cases self.keyKind <;> rfl
  refine ⟨UInt32.ofNat (Crc32c.crc32c (FieldRecord.encode self.fields ++ [0, 0, 0, 0])), ?_⟩
  unfold parse
  rw [if_neg (by rw [List.length_append, self.length_serialize]; omega),
    List.take_left' self.length_serialize]
  dsimp only
  rw [hsum, ok_bind, h 8 1 rfl, hkey]
  dsimp only
  rw [h 11 1 rfl, h 0 4 rfl, h 4 4 rfl, h 9 1 rfl, h 10 1 rfl, h 12 4 rfl, h 16 8 rfl, h 24 8 rfl]
  simp only [UInt32.ofNat_toNat, UInt8.ofNat_toNat, UInt64.ofNat_toNat]
  by_cases hzero : self.reserved = 0
  · rw [if_neg (not_not_intro hzero), if_neg (not_not_intro (by rw [hzero]; rfl))]
  · have hne : self.reserved.toNat ≠ 0 := fun h => hzero (UInt8.toNat_inj.mp h)
    rw [if_pos hzero, if_pos hne]

end InvertedMorselIndexHeaderV1

structure InvertedEntry where
  key : UInt64
  morselBitmapOffset : UInt64
  morselBitmapLength : UInt32
  rowBitmapOffset : UInt64
  rowBitmapLength : UInt32
  deriving DecidableEq, Repr

namespace InvertedEntry

def fields (self : InvertedEntry) : List (Nat × Nat) :=
  [(8, self.key.toNat), (8, self.morselBitmapOffset.toNat), (4, self.morselBitmapLength.toNat),
    (8, self.rowBitmapOffset.toNat), (4, self.rowBitmapLength.toNat)]

def serialize (self : InvertedEntry) : List UInt8 := FieldRecord.encode self.fields

def parse (bytes : List UInt8) : Except CoveError InvertedEntry :=
  if bytes.length < invertedMorselEntryLen then .error .bufferTooShort
  else .ok {
    key := UInt64.ofNat (fieldNat bytes 0 8)
    morselBitmapOffset := UInt64.ofNat (fieldNat bytes 8 8)
    morselBitmapLength := UInt32.ofNat (fieldNat bytes 16 4)
    rowBitmapOffset := UInt64.ofNat (fieldNat bytes 20 8)
    rowBitmapLength := UInt32.ofNat (fieldNat bytes 28 4) }

theorem length_serialize (self : InvertedEntry) : self.serialize.length = invertedMorselEntryLen :=
  FieldRecord.length_encode _

theorem parse_serialize (self : InvertedEntry) : parse self.serialize = .ok self := by
  have hfits : FieldRecord.Fits self.fields := by
    intro f hf
    simp only [fields, List.mem_cons, List.not_mem_nil, or_false] at hf
    rcases hf with rfl | rfl | rfl | rfl | rfl
    · exact self.key.toNat_lt
    · exact self.morselBitmapOffset.toNat_lt
    · exact self.morselBitmapLength.toNat_lt
    · exact self.rowBitmapOffset.toNat_lt
    · exact self.rowBitmapLength.toNat_lt
  have h : ∀ offset w {value : Nat}, FieldRecord.fieldAt self.fields offset w = some value →
      fieldNat self.serialize offset w = value := by
    intro offset w value hat
    rw [← List.append_nil self.serialize]
    exact fieldNat_encode hfits hat []
  unfold parse
  rw [if_neg (Nat.not_lt.mpr self.length_serialize.ge), h 0 8 rfl, h 8 8 rfl, h 16 4 rfl,
    h 20 8 rfl, h 28 4 rfl]
  simp only [UInt32.ofNat_toNat, UInt64.ofNat_toNat]

end InvertedEntry

structure InvertedMorselIndex where
  header : InvertedMorselIndexHeaderV1
  entries : List InvertedEntry
  bitmapData : List UInt8
  deriving DecidableEq, Repr

/-- The check that a bitmap lies in the bytes. -/
def checkBitmap (bytes : List UInt8) (bitmapDataOffset offset length : Nat) :
    Except CoveError Unit := do
  let start ← checkedAdd bitmapDataOffset offset
  let _ ← checkedRegion bytes start length
  .ok ()

/-- The checks of an entry, after its key. -/
def checkBitmaps (bytes : List UInt8) (bitmapDataOffset : Nat) (entry : InvertedEntry) :
    Except CoveError Unit := do
  checkBitmap bytes bitmapDataOffset entry.morselBitmapOffset.toNat entry.morselBitmapLength.toNat
  if entry.rowBitmapLength ≠ 0 then
    checkBitmap bytes bitmapDataOffset entry.rowBitmapOffset.toNat entry.rowBitmapLength.toNat
  else .ok ()

/-- The loop of `parse`, after an entry with a key. -/
def parseInvertedEntries (bytes : List UInt8) (bitmapDataOffset : Nat)
    (previousKey : Option UInt64) : List (List UInt8) → Except CoveError (List InvertedEntry)
  | [] => .ok []
  | chunk :: chunks => do
    let entry ← InvertedEntry.parse chunk
    if ∃ previous ∈ previousKey, entry.key ≤ previous then .error .badIndex
    else do
      checkBitmaps bytes bitmapDataOffset entry
      let entries ← parseInvertedEntries bytes bitmapDataOffset (some entry.key) chunks
      .ok (entry :: entries)

variable {bitmapDataOffset : Nat}

namespace InvertedMorselIndex

def parse (bytes : List UInt8) : Except CoveError InvertedMorselIndex := do
  let header ← InvertedMorselIndexHeaderV1.parse bytes
  let entriesLen ← checkedMul header.entryCount.toNat invertedMorselEntryLen
  let entryBytes ← checkedRegion bytes header.entriesOffset.toNat entriesLen
  let entries ← parseInvertedEntries bytes header.bitmapDataOffset.toNat none
    (chunksExact invertedMorselEntryLen entryBytes)
  if header.bitmapDataOffset.toNat ≤ bytes.length then
    .ok ⟨header, entries, bytes.drop header.bitmapDataOffset.toNat⟩
  else .error .offsetRange

/-- The header of the serialized index. -/
def storedHeader (self : InvertedMorselIndex) : InvertedMorselIndexHeaderV1 :=
  { self.header with
    entryCount := UInt32.ofNat self.entries.length
    entriesOffset := UInt64.ofNat invertedMorselIndexHeaderLen
    bitmapDataOffset := UInt64.ofNat
      (invertedMorselIndexHeaderLen + self.entries.length * invertedMorselEntryLen) }

def serialize (self : InvertedMorselIndex) : List UInt8 :=
  self.storedHeader.serialize ++ self.entries.flatMap InvertedEntry.serialize ++ self.bitmapData

variable {self : InvertedMorselIndex}

variable {bytes : List UInt8}

theorem checkBitmap_eq_ok (hmemory : bytes.length < 2 ^ 64) :
    checkBitmap bytes bitmapDataOffset offset length = .ok () ↔
      bitmapDataOffset + offset + length ≤ bytes.length := by
  unfold checkBitmap
  rw [bind_eq_ok]
  constructor
  · rintro ⟨start, hstart, h⟩
    obtain ⟨-, rfl⟩ := addU64_eq_ok.mp hstart
    obtain ⟨region, hregion, -⟩ := bind_eq_ok.mp h
    exact ((checkedRegion_eq_ok hmemory).mp hregion).1
  · intro hle
    exact ⟨_, addU64_eq_ok.mpr ⟨by omega, rfl⟩,
      bind_eq_ok.mpr ⟨_, (checkedRegion_eq_ok hmemory).mpr ⟨hle, rfl⟩, rfl⟩⟩

/-- The bitmaps of an entry lie in the pool; a row bitmap of no bytes lies anywhere. -/
def BitmapsIn (bitmapData : List UInt8) (entry : InvertedEntry) : Prop :=
  entry.morselBitmapOffset.toNat + entry.morselBitmapLength.toNat ≤ bitmapData.length ∧
    (entry.rowBitmapLength ≠ 0 →
      entry.rowBitmapOffset.toNat + entry.rowBitmapLength.toNat ≤ bitmapData.length)

theorem checkBitmaps_eq_ok {before bitmapData : List UInt8}
    (hmemory : (before ++ bitmapData).length < 2 ^ 64) {entry : InvertedEntry} :
    checkBitmaps (before ++ bitmapData) before.length entry = .ok () ↔
      BitmapsIn bitmapData entry := by
  have hbitmap : ∀ {offset length : Nat},
      checkBitmap (before ++ bitmapData) before.length offset length = .ok () ↔
        offset + length ≤ bitmapData.length := by
    intro offset length
    rw [checkBitmap_eq_ok hmemory, List.length_append]
    omega
  unfold checkBitmaps BitmapsIn
  rw [bind_eq_ok]
  by_cases hrow : entry.rowBitmapLength = 0
  · rw [if_neg (not_not_intro hrow)]
    constructor
    · rintro ⟨_, hmorsel, -⟩
      exact ⟨hbitmap.mp hmorsel, fun h => absurd hrow h⟩
    · rintro ⟨hmorsel, -⟩
      exact ⟨(), hbitmap.mpr hmorsel, rfl⟩
  · rw [if_pos hrow]
    constructor
    · rintro ⟨_, hmorsel, h⟩
      exact ⟨hbitmap.mp hmorsel, fun _ => hbitmap.mp h⟩
    · rintro ⟨hmorsel, h⟩
      exact ⟨(), hbitmap.mpr hmorsel, hbitmap.mpr (h hrow)⟩

/-- **Which entries the reader accepts**, and that it reads them as they were written. -/
theorem parseInvertedEntries_serialize {before bitmapData : List UInt8}
    (hmemory : (before ++ bitmapData).length < 2 ^ 64) {entries out : List InvertedEntry}
    {previousKey : Option UInt64} :
    parseInvertedEntries (before ++ bitmapData) before.length previousKey
        (entries.map InvertedEntry.serialize) = .ok out ↔
      (entries.Pairwise fun x y => x.key < y.key) ∧
        (∀ entry ∈ entries, Above previousKey entry.key) ∧
        (∀ entry ∈ entries, BitmapsIn bitmapData entry) ∧ out = entries := by
  induction entries generalizing previousKey out with
  | nil =>
    constructor
    · intro h
      exact ⟨.nil, fun _ h => (List.not_mem_nil h).elim, fun _ h => (List.not_mem_nil h).elim,
        (Except.ok.inj h).symm⟩
    · rintro ⟨-, -, -, rfl⟩
      rfl
  | cons entry entries ih =>
    rw [List.map_cons, parseInvertedEntries, entry.parse_serialize, ok_bind, ite_error_eq_ok,
      not_exists_le_iff, bind_eq_ok]
    simp only [List.pairwise_cons, List.forall_mem_cons]
    constructor
    · rintro ⟨habove, _, hbitmaps, h⟩
      obtain ⟨rest, hrest, h⟩ := bind_eq_ok.mp h
      obtain rfl := Except.ok.inj h
      obtain ⟨hsorted, hkeys, hall, rfl⟩ := ih.mp hrest
      have hlt : ∀ entry' ∈ rest, entry.key < entry'.key := fun entry' h => hkeys entry' h _ rfl
      refine ⟨⟨hlt, hsorted⟩, ⟨habove, ?_⟩, ⟨(checkBitmaps_eq_ok hmemory).mp hbitmaps, hall⟩, rfl⟩
      intro entry' hentry' previous hprevious
      exact UInt64.lt_trans (habove previous hprevious) (hlt entry' hentry')
    · rintro ⟨⟨hlt, hsorted⟩, ⟨habove, -⟩, ⟨hbitmaps, hall⟩, rfl⟩
      have hkeys : ∀ entry' ∈ entries, Above (some entry.key) entry'.key := by
        intro entry' hentry' previous hprevious
        obtain rfl := Option.some.inj hprevious
        exact hlt entry' hentry'
      exact ⟨habove, (), (checkBitmaps_eq_ok hmemory).mpr hbitmaps,
        bind_eq_ok.mpr ⟨entries, ih.mpr ⟨hsorted, hkeys, hall, rfl⟩, rfl⟩⟩

/-- The index is read back from its bytes. -/
def ReadBack (self : InvertedMorselIndex) : Prop :=
  ∃ header, parse self.serialize = .ok ⟨header, self.entries, self.bitmapData⟩

/-- What the writer relies on: ascending keys, bitmaps in the pool, a zero in the reserved byte and
a count of four bytes. -/
structure WellFormed (self : InvertedMorselIndex) : Prop where
  sorted : self.entries.Pairwise fun x y => x.key < y.key
  bitmaps : ∀ entry ∈ self.entries, BitmapsIn self.bitmapData entry
  reserved : self.header.reserved = 0
  count : self.entries.length < 2 ^ 32

/-- The steps of the reader, one after the other. -/
theorem parse_eq_ok {header : InvertedMorselIndexHeaderV1} {entriesLen : Nat}
    (hheader : InvertedMorselIndexHeaderV1.parse bytes = .ok header)
    (hlen : checkedMul header.entryCount.toNat invertedMorselEntryLen = .ok entriesLen)
    (hregion : checkedRegion bytes header.entriesOffset.toNat entriesLen = .ok region)
    (hchunks : chunksExact invertedMorselEntryLen region = chunks)
    (hoffset : header.bitmapDataOffset.toNat = bitmapDataOffset)
    (hle : bitmapDataOffset ≤ bytes.length) {index : InvertedMorselIndex} :
    parse bytes = .ok index ↔
      (parseInvertedEntries bytes bitmapDataOffset none chunks = .ok index.entries ∧
        index.header = header ∧ index.bitmapData = bytes.drop bitmapDataOffset) := by
  unfold parse
  rw [hheader, ok_bind, hlen, ok_bind, hregion, ok_bind, hchunks, hoffset, bind_eq_ok]
  simp only [if_pos hle]
  constructor
  · rintro ⟨entries, hread, h⟩
    obtain rfl := Except.ok.inj h
    exact ⟨hread, rfl, rfl⟩
  · rintro ⟨hread, hheader, hdata⟩
    obtain ⟨header, entries, bitmapData⟩ := index
    obtain rfl := hheader
    obtain rfl := hdata
    exact ⟨entries, hread, rfl⟩

/-- The steps of the reader on written bytes: the count of the entries may have wrapped, and then only
the first of them are read. -/
theorem parse_serialize (hmemory : self.serialize.length < 2 ^ 64) (hreserved : self.header.reserved = 0) :
    ∃ header, ∀ index, parse self.serialize = .ok index ↔
      (parseInvertedEntries self.serialize
        (self.storedHeader.serialize ++ self.entries.flatMap InvertedEntry.serialize).length none
        ((self.entries.take (self.entries.length % 2 ^ 32)).map InvertedEntry.serialize) =
          .ok index.entries ∧ index.header = header ∧ index.bitmapData = self.bitmapData) := by
  have hlength := self.storedHeader.length_serialize
  have hentries : ∀ entries : List InvertedEntry,
      (entries.flatMap InvertedEntry.serialize).length = entries.length * invertedMorselEntryLen :=
    fun entries => Strides.length_flatMap fun entry _ => entry.length_serialize
  have hnat : ∀ {n : Nat}, n < 2 ^ 64 → (UInt64.ofNat n).toNat = n := UInt64.toNat_ofNat_of_lt'
  have hcount : (UInt32.ofNat self.entries.length).toNat = self.entries.length % 2 ^ 32 :=
    UInt32.toNat_ofNat'
  have hlt : self.entries.length % 2 ^ 32 < 2 ^ 32 := Nat.mod_lt _ (by decide)
  have htotal : (self.storedHeader.serialize ++
      self.entries.flatMap InvertedEntry.serialize).length =
        invertedMorselIndexHeaderLen + self.entries.length * invertedMorselEntryLen := by
    rw [List.length_append, hlength, hentries]
  have hserialize : self.serialize.length = invertedMorselIndexHeaderLen +
      self.entries.length * invertedMorselEntryLen + self.bitmapData.length := by
    rw [serialize, List.length_append, htotal]
  have hbefore : invertedMorselIndexHeaderLen + self.entries.length * invertedMorselEntryLen <
      2 ^ 64 := by omega
  obtain ⟨checksum, hparse⟩ := self.storedHeader.parse_serialize
    (self.entries.flatMap InvertedEntry.serialize ++ self.bitmapData)
  rw [← List.append_assoc, if_neg (show ¬ self.storedHeader.reserved ≠ 0 from
    not_not_intro hreserved)] at hparse
  have hregion : checkedRegion self.serialize invertedMorselIndexHeaderLen
      (self.entries.length % 2 ^ 32 * invertedMorselEntryLen) =
        .ok ((self.entries.take (self.entries.length % 2 ^ 32)).flatMap
          InvertedEntry.serialize) := by
    have hsplit : self.serialize = self.storedHeader.serialize ++
        (self.entries.take (self.entries.length % 2 ^ 32)).flatMap InvertedEntry.serialize ++
        ((self.entries.drop (self.entries.length % 2 ^ 32)).flatMap InvertedEntry.serialize ++
          self.bitmapData) := by
      rw [List.append_assoc, ← List.append_assoc _ _ self.bitmapData, ← List.flatMap_append,
        List.take_append_drop, ← List.append_assoc, serialize]
    have hmiddle := checkedRegion_middle self.storedHeader.serialize
      ((self.entries.take (self.entries.length % 2 ^ 32)).flatMap InvertedEntry.serialize)
      ((self.entries.drop (self.entries.length % 2 ^ 32)).flatMap InvertedEntry.serialize ++
        self.bitmapData) (hsplit ▸ hmemory)
    rw [← hsplit, hlength, hentries, List.length_take_of_le (Nat.mod_le _ _)] at hmiddle
    exact hmiddle
  have hchunks : chunksExact invertedMorselEntryLen
      ((self.entries.take (self.entries.length % 2 ^ 32)).flatMap InvertedEntry.serialize) =
        (self.entries.take (self.entries.length % 2 ^ 32)).map InvertedEntry.serialize :=
    chunksExact_flatMap (by decide) fun entry _ => entry.length_serialize
  have hdrop : self.serialize.drop (invertedMorselIndexHeaderLen +
      self.entries.length * invertedMorselEntryLen) = self.bitmapData := List.drop_left' htotal
  have hle : invertedMorselIndexHeaderLen + self.entries.length * invertedMorselEntryLen ≤
      self.serialize.length := by omega
  have hmul : checkedMul (self.entries.length % 2 ^ 32) invertedMorselEntryLen =
      .ok (self.entries.length % 2 ^ 32 * invertedMorselEntryLen) := by
    refine mulU64_eq_ok.mpr ⟨?_, rfl⟩
    unfold invertedMorselEntryLen
    omega
  refine ⟨{ self.storedHeader with checksum := checksum }, fun index => ?_⟩
  have hparse : InvertedMorselIndexHeaderV1.parse self.serialize =
      .ok { self.storedHeader with checksum := checksum } := hparse
  have hstart : self.storedHeader.entriesOffset.toNat = invertedMorselIndexHeaderLen :=
    hnat (by decide)
  have hbitmaps : self.storedHeader.bitmapDataOffset.toNat =
      invertedMorselIndexHeaderLen + self.entries.length * invertedMorselEntryLen := hnat hbefore
  have hmul : checkedMul self.storedHeader.entryCount.toNat invertedMorselEntryLen = _ :=
    (congrArg (checkedMul · invertedMorselEntryLen) hcount).trans hmul
  rw [← hstart] at hregion
  rw [parse_eq_ok hparse hmul hregion hchunks hbitmaps hle, hdrop, ← htotal]

/-- **A written inverted index is read back exactly when** it is well formed. -/
theorem readBack_iff (hmemory : self.serialize.length < 2 ^ 64) :
    self.ReadBack ↔ self.WellFormed := by
  by_cases hreserved : self.header.reserved = 0
  · obtain ⟨header, hparse⟩ := parse_serialize hmemory hreserved
    have hread := fun {out} => @parseInvertedEntries_serialize
      (self.storedHeader.serialize ++ self.entries.flatMap InvertedEntry.serialize) self.bitmapData
      hmemory (self.entries.take (self.entries.length % 2 ^ 32)) out none
    constructor
    · rintro ⟨header', h⟩
      obtain ⟨h, -, -⟩ := (hparse _).mp h
      obtain ⟨hsorted, -, hbitmaps, htake⟩ := hread.mp h
      dsimp only at htake
      rw [← htake] at hsorted hbitmaps
      refine ⟨hsorted, hbitmaps, hreserved, ?_⟩
      -- no more entries are read than the count can say
      have hlength := congrArg List.length htake
      rw [List.length_take_of_le (Nat.mod_le _ _)] at hlength
      rw [hlength]
      exact Nat.mod_lt _ (by decide)
    · rintro ⟨hsorted, hbitmaps, -, hcount⟩
      have htake : self.entries.take (self.entries.length % 2 ^ 32) = self.entries := by
        rw [Nat.mod_eq_of_lt hcount, List.take_length]
      rw [htake] at hread hparse
      have hnone : ∀ entry ∈ self.entries, Above none entry.key := fun _ _ _ h => by cases h
      exact ⟨header, (hparse _).mpr ⟨hread.mpr ⟨hsorted, hnone, hbitmaps, rfl⟩, rfl, rfl⟩⟩
  · constructor
    · rintro ⟨header', h⟩
      obtain ⟨checksum, hparse⟩ := self.storedHeader.parse_serialize
        (self.entries.flatMap InvertedEntry.serialize ++ self.bitmapData)
      rw [← List.append_assoc, if_pos (show self.storedHeader.reserved ≠ 0 from hreserved)] at hparse
      obtain ⟨header, hheader, -⟩ := bind_eq_ok.mp h
      exact absurd (hheader.symm.trans hparse) nofun
    · intro h
      exact absurd (WellFormed.reserved h) hreserved

end InvertedMorselIndex

/-! ## Both -/

/-- **Which indexes are read back** and, for lookup indexes, searched as a scan would. -/
theorem indexes_readBack_iff (index : LookupIndex) (inverted : InvertedMorselIndex)
    {bytes : List UInt8} (h : index.serialize = .ok bytes) (hmemory : bytes.length < 2 ^ 64)
    (hmemory' : inverted.serialize.length < 2 ^ 64) :
    (index.ReadBack bytes ↔ Ascending index.entries) ∧
      (inverted.ReadBack ↔ inverted.WellFormed) :=
  ⟨LookupIndex.readBack_iff hmemory h, InvertedMorselIndex.readBack_iff hmemory'⟩

def lookupHeader : LookupIndexHeaderV1 where
  tableId := 1
  columnId := 2
  keyKind := .numCode
  indexKind := .sparseSorted
  uniqueness := .nonUnique
  flags := 0
  entryCount := 0
  entriesOffset := 0
  entriesLength := 0
  rowrefOffset := 0
  rowrefLength := 0
  checksum := 0

/-- The rows of `3` are the second row of a segment, those of `5` its first and third. -/
def lookupEntries : List LookupEntry :=
  [⟨3, [⟨1, 0, 0, 1⟩]⟩, ⟨5, [⟨1, 0, 0, 0⟩, ⟨1, 0, 0, 2⟩]⟩]

def invertedHeader : InvertedMorselIndexHeaderV1 where
  tableId := 1
  columnId := 2
  keyKind := .fileCode
  flags := 0
  representation := 0
  reserved := 0
  entryCount := 0
  entriesOffset := 0
  bitmapDataOffset := 0
  checksum := 0

/-- Two keys with a bitmap each in a pool of two bytes. -/
def invertedIndex : InvertedMorselIndex :=
  ⟨invertedHeader, [⟨3, 0, 1, 0, 0⟩, ⟨5, 1, 1, 0, 1⟩], [1, 2]⟩

theorem indexes_readBack_keys :
    (∃ bytes, (LookupIndex.mk lookupHeader lookupEntries).serialize = .ok bytes ∧
      (LookupIndex.mk lookupHeader lookupEntries).ReadBack bytes) ∧ invertedIndex.ReadBack := by
  have hlength : (LookupIndex.mk lookupHeader lookupEntries).serialize.map List.length =
      .ok 130 := by decide +kernel
  have hinverted : invertedIndex.serialize.length = 102 := by decide +kernel
  cases h : (LookupIndex.mk lookupHeader lookupEntries).serialize with
  | error e =>
    rw [h] at hlength
    cases hlength
  | ok bytes =>
    rw [h] at hlength
    have hmemory : bytes.length < 2 ^ 64 := by
      rw [Except.ok.inj hlength]
      decide
    obtain ⟨hlookup, hwell⟩ := indexes_readBack_iff _ invertedIndex h hmemory
      (by rw [hinverted]; decide)
    refine ⟨⟨bytes, rfl, hlookup.mpr ?_⟩, hwell.mpr ?_⟩
    · exact .cons (by decide) (.cons (fun _ h => (List.not_mem_nil h).elim) .nil)
    · refine ⟨.cons (by decide) (.cons (fun _ h => (List.not_mem_nil h).elim) .nil), ?_, rfl,
        by decide⟩
      intro entry hentry
      simp only [invertedIndex, List.mem_cons, List.not_mem_nil, or_false] at hentry
      rcases hentry with rfl | rfl
      · exact ⟨by decide, fun h => absurd rfl h⟩
      · exact ⟨by decide, fun _ => by decide⟩

/-- The entry of the lower key comes second: the index is written and then refused. -/
theorem descending_keys_not_readBack :
    ∃ bytes, (LookupIndex.mk lookupHeader lookupEntries.reverse).serialize = .ok bytes ∧
      LookupIndex.parse bytes = .error .badIndex ∧
      ¬ (LookupIndex.mk lookupHeader lookupEntries.reverse).ReadBack bytes := by
  have h : ((LookupIndex.mk lookupHeader lookupEntries.reverse).serialize >>= LookupIndex.parse) =
      .error .badIndex := by decide +kernel
  have hlength : (LookupIndex.mk lookupHeader lookupEntries.reverse).serialize.map List.length =
      .ok 130 := by decide +kernel
  cases hwrite : (LookupIndex.mk lookupHeader lookupEntries.reverse).serialize with
  | error e =>
    rw [hwrite] at hlength
    cases hlength
  | ok bytes =>
    rw [hwrite, ok_bind] at h
    refine ⟨bytes, rfl, h, ?_⟩
    rintro ⟨⟨header, hparse⟩, -⟩
    exact absurd (h.symm.trans hparse) nofun

end Cove.IndexWire
