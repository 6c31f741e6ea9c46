import Mathlib.Algebra.Ring.Nat
import Cove.Lib.BinarySearch

/-!
# Optional pruning indexes

The parsed indexes as the planner queries them. What parsing has checked of an index is
a field of its structure, so a lookup needs no side condition.

- `ExactSetIndex.contains`: exact membership of a key.
- `BloomFilterIndex.mightContain`: probabilistic membership of a byte string.
- `LookupIndex.rowsFor`: the rows listed under a key.
- `InvertedMorselIndex`: a bitmap of morsels per key.
- `CompositeIndex`: fixed-width tuples of key codes with a segment and a morsel.
-/

namespace Cove

open BinarySearch

/-! ## Exact sets -/

inductive ExactSetGranularity where
  | segment
  | morsel
  deriving DecidableEq, Repr

inductive ExactSetKeyKind where
  | fileCode
  | numCode
  | canonicalHash
  deriving DecidableEq, Repr

inductive ExactSetRepresentation where
  | sortedList
  | bitset
  | roaringLike
  deriving DecidableEq, Repr

structure ExactSetIndexHeaderV1 where
  tableId : Nat
  columnId : Nat
  granularity : ExactSetGranularity
  keyKind : ExactSetKeyKind
  representation : ExactSetRepresentation
  deriving DecidableEq, Repr

/-- An exact set. Only a sorted list keeps its keys; the other representations are
parsed with none. -/
structure ExactSetIndex where
  header : ExactSetIndexHeaderV1
  keys : List Nat
  keys_sorted : keys.Pairwise (· < ·)
  keys_nil : header.representation ≠ .sortedList → keys = []

/-- Membership by binary search. -/
def ExactSetIndex.contains (self : ExactSetIndex) (key : Nat) : Bool :=
  (binarySearchByKey key id self.keys).isSome

variable {key : Nat}

theorem ExactSetIndex.contains_iff {s : ExactSetIndex} :
    s.contains key = true ↔ key ∈ s.keys := by
  have h := binarySearchByKey_isSome_iff (k := key) s.keys_sorted
  rwa [List.map_id'] at h

/-! ## Bloom filters -/

inductive BloomGranularity where
  | segment
  | morsel
  deriving DecidableEq, Repr

inductive BloomHashDomain where
  | fileCode
  | numCode
  | canonicalValueHash
  deriving DecidableEq, Repr

inductive BloomAlgorithm where
  | splitBlock
  deriving DecidableEq, Repr

@[ext]
structure BloomIndexHeaderV1 where
  tableId : Nat
  columnId : Nat
  granularity : BloomGranularity
  hashDomain : BloomHashDomain
  algorithm : BloomAlgorithm
  flags : Nat
  targetFprPpm : Nat
  filterCount : Nat
  dataOffset : Nat
  dataLength : Nat
  checksum : Nat
  deriving DecidableEq, Repr

structure BloomFilterIndex where
  header : BloomIndexHeaderV1
  hashCount : Nat
  bits : List UInt8
  deriving DecidableEq, Repr

/-- 64-bit FNV-1a. -/
def fnv1a64 (bytes : List UInt8) (seed : Nat) : Nat :=
  bytes.foldl (fun h b => (h ^^^ b.toNat) * 0x100000001b3 % 2 ^ 64)
    (0xcbf29ce484222325 ^^^ seed)

def baseHashes (value : List UInt8) : Nat × Nat :=
  (fnv1a64 value 0, fnv1a64 value 0xdeadbeef)

def doubleHash (h1 h2 i : Nat) : Nat := (h1 + i * h2 % 2 ^ 64) % 2 ^ 64

namespace BloomFilterIndex

/-- The bit positions of a value, one per hash function. -/
def positions (self : BloomFilterIndex) (value : List UInt8) : List Nat :=
  let (h1, h2) := baseHashes value
  (List.range self.hashCount).map fun i => doubleHash h1 h2 i % (self.bits.length * 8)

def testBit (self : BloomFilterIndex) (bit : Nat) : Bool :=
  ((self.bits[bit / 8]?).getD 0).toNat.testBit (bit % 8)

/-- True for "possibly contains". -/
def mightContain (self : BloomFilterIndex) (value : List UInt8) : Bool :=
  if self.bits.length * 8 = 0 then false
  else (self.positions value).all self.testBit

end BloomFilterIndex

/-! ## Lookup indexes -/

/-- A reference to one row of a table. -/
structure RowRef where
  tableId : Nat
  segmentId : Nat
  morselId : Nat
  rowInMorsel : Nat
  deriving DecidableEq, Repr

inductive LookupKeyKind where
  | fileCode
  | numCode
  | canonicalHash
  | fixedBytes
  deriving DecidableEq, Repr

structure LookupIndexHeaderV1 where
  tableId : Nat
  columnId : Nat
  keyKind : LookupKeyKind
  deriving DecidableEq, Repr

structure LookupEntry where
  key : Nat
  rows : List RowRef
  deriving DecidableEq, Repr

/-- A lookup index, its entries in strictly ascending key order. -/
structure LookupIndex where
  header : LookupIndexHeaderV1
  entries : List LookupEntry
  entries_sorted : entries.Pairwise (fun x y => x.key < y.key)

/-- The rows listed under a key. -/
def LookupIndex.rowsFor (self : LookupIndex) (key : Nat) : Option (List RowRef) :=
  (binarySearchByKey key LookupEntry.key self.entries).bind fun i =>
    (self.entries[i]?).map LookupEntry.rows

variable {x : LookupIndex}

/-- `rowsFor` answers with an entry of the index. -/
theorem LookupIndex.rowsFor_eq_some {rows : List RowRef}
    (h : x.rowsFor key = some rows) : ∃ e ∈ x.entries, e.key = key ∧ e.rows = rows := by
  unfold rowsFor at h
  cases hs : binarySearchByKey key LookupEntry.key x.entries with
  | none => rw [hs] at h; cases h
  | some i =>
    obtain ⟨e, he, hkey⟩ := binarySearchByKey_eq_some hs
    rw [hs, Option.bind_some, he] at h
    exact ⟨e, List.mem_of_getElem? he, hkey, Option.some.inj h⟩

/-- **Every listed entry is found.** -/
theorem LookupIndex.rowsFor_of_mem {e : LookupEntry} (he : e ∈ x.entries) :
    x.rowsFor e.key = some e.rows := by
  obtain ⟨i, hi, hat⟩ := binarySearchByKey_of_mem x.entries_sorted he
  rw [rowsFor, hi, Option.bind_some, hat, Option.map_some]

/-- The index lists a row under a key. -/
def LookupIndex.Lists (self : LookupIndex) (key : Nat) (row : RowRef) : Prop :=
  ∃ e ∈ self.entries, e.key = key ∧ row ∈ e.rows

theorem LookupIndex.lists_iff {row : RowRef} :
    x.Lists key row ↔ ∃ rows, x.rowsFor key = some rows ∧ row ∈ rows := by
  constructor
  · rintro ⟨e, he, rfl, hrow⟩
    exact ⟨e.rows, rowsFor_of_mem he, hrow⟩
  · rintro ⟨rows, hrows, hrow⟩
    obtain ⟨e, he, hkey, rfl⟩ := rowsFor_eq_some hrows
    exact ⟨e, he, hkey, hrow⟩

/-! ## Inverted morsel indexes -/

inductive InvertedKeyKind where
  | fileCode
  | numCode
  deriving DecidableEq, Repr

structure InvertedMorselIndexHeaderV1 where
  tableId : Nat
  columnId : Nat
  keyKind : InvertedKeyKind
  deriving DecidableEq, Repr

structure InvertedEntry where
  key : Nat
  morselBitmapOffset : Nat
  morselBitmapLength : Nat
  deriving DecidableEq, Repr

/-- An inverted index, its entries in strictly ascending key order. -/
structure InvertedMorselIndex where
  header : InvertedMorselIndexHeaderV1
  entries : List InvertedEntry
  bitmapData : List UInt8
  entries_sorted : entries.Pairwise (fun x y => x.key < y.key)

/-! ## Composite zone indexes -/

inductive CompositeTransformKind where
  | tuple
  | zOrder
  | hilbert
  | writerDefined
  deriving DecidableEq, Repr

structure CompositeZoneIndexHeaderV1 where
  tableId : Nat
  transformKind : CompositeTransformKind
  deriving DecidableEq, Repr

/-- A composite index: its key columns and the packed tuples. -/
structure CompositeIndex where
  header : CompositeZoneIndexHeaderV1
  keyColumns : List Nat
  entries : List UInt8
  deriving DecidableEq, Repr

end Cove
