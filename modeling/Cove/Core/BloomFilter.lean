import Cove.Core.Index
import Cove.Core.SealedRecord
import Cove.Lib.ByteBits
import Cove.Lib.Digests
import Cove.Lib.Sketches

/-!
# Bloom filters as bytes

A filter is a header with a checksum and the bytes of its bit set. The number of hash rounds is
not stored.

- `BloomFilterIndex.insert`: marks the bits of a value.
- `BloomFilterIndex.serialize`, `parse`: a parsed filter probes `parsedHashCount` rounds.
- `marks_insertAll`, `mightContain_iff`: a filter is a probe set over its bits.
- `parse_serialize`: a legal filter is read back, but for its number of rounds.
- `survives_iff`: **when no inserted key is missed, before or after the bytes**.
-/

namespace Cove

open Checked

/-! ## The header -/

/-- `BLOOM_INDEX_HEADER_LEN`. -/
def bloomIndexHeaderLen : Nat := 40

namespace BloomGranularity

def code : BloomGranularity → Nat
  | segment => 0
  | morsel => 1

def fromU8 : Nat → Option BloomGranularity
  | 0 => some segment
  | 1 => some morsel
  | _ => none

end BloomGranularity

namespace BloomHashDomain

def code : BloomHashDomain → Nat
  | fileCode => 0
  | numCode => 1
  | canonicalValueHash => 2

def fromU8 : Nat → Option BloomHashDomain
  | 0 => some fileCode
  | 1 => some numCode
  | 2 => some canonicalValueHash
  | _ => none

end BloomHashDomain

namespace BloomAlgorithm

def code : BloomAlgorithm → Nat
  | splitBlock => 0

def fromU8 : Nat → Option BloomAlgorithm
  | 0 => some splitBlock
  | _ => none

end BloomAlgorithm

namespace BloomIndexHeaderV1

/-- The fields before the checksum. -/
def fields (self : BloomIndexHeaderV1) : List (Nat × Nat) :=
  [(4, self.tableId), (4, self.columnId), (1, self.granularity.code), (1, self.hashDomain.code),
    (1, self.algorithm.code), (1, self.flags), (4, self.targetFprPpm), (4, self.filterCount),
    (8, self.dataOffset), (8, self.dataLength)]

def serialize (self : BloomIndexHeaderV1) : List UInt8 :=
  FieldRecord.encode (sealRecord Crc32c.crc32c self.fields)

def parse (bytes : List UInt8) : Except CoveError BloomIndexHeaderV1 :=
  if bytes.length < bloomIndexHeaderLen then .error .bufferTooShort
  else do
    let bytes := bytes.take bloomIndexHeaderLen
    let checksum ← verifyChecksumField Crc32c.crc32c bytes 36
    match BloomGranularity.fromU8 (fieldNat bytes 8 1), BloomHashDomain.fromU8 (fieldNat bytes 9 1),
      BloomAlgorithm.fromU8 (fieldNat bytes 10 1) with
    | some granularity, some hashDomain, some algorithm =>
      .ok ⟨fieldNat bytes 0 4, fieldNat bytes 4 4, granularity, hashDomain, algorithm,
        fieldNat bytes 11 1, fieldNat bytes 12 4, fieldNat bytes 16 4, fieldNat bytes 20 8,
        fieldNat bytes 28 8, checksum⟩
    | _, _, _ => .error .badIndex

end BloomIndexHeaderV1

/-! ## The filter -/

namespace BloomFilterIndex

/-- `insert`. -/
def insert (self : BloomFilterIndex) (value : List UInt8) : BloomFilterIndex :=
  if self.bits.length * 8 = 0 then self
  else { self with bits := (self.positions value).foldl ByteBits.insert self.bits }

/-- The filter after a sequence of insertions. -/
def insertAll (self : BloomFilterIndex) (keys : List (List UInt8)) : BloomFilterIndex :=
  keys.foldl insert self

/-- The header of the serialized filter. -/
def storedHeader (self : BloomFilterIndex) : BloomIndexHeaderV1 :=
  { self.header with
    dataOffset := bloomIndexHeaderLen
    dataLength := self.bits.length }

/-- `serialize`. -/
def serialize (self : BloomFilterIndex) : List UInt8 := self.storedHeader.serialize ++ self.bits

/-- The number of hash rounds of a parsed filter. -/
def parsedHashCount : Nat := 7

def parse (bytes : List UInt8) : Except CoveError BloomFilterIndex := do
  let header ← BloomIndexHeaderV1.parse bytes
  let bits ← checkedRegion bytes header.dataOffset header.dataLength
  if header.filterCount = 0 ∨ bits = [] then .error .badIndex
  else .ok ⟨header, parsedHashCount, bits⟩

/-! ## The probe set of a filter -/

/-- The bit that a round of the hash probes. -/
def place (bits : Nat) (value : List UInt8) (round : Nat) : Nat :=
  doubleHash (baseHashes value).1 (baseHashes value).2 round % bits

/-- The places that a filter marks. -/
def marks (self : BloomFilterIndex) : Set Nat := {i | ByteBits.get self.bits i = true}

variable {self : BloomFilterIndex} {value : List UInt8} {keys : List (List UInt8)}

theorem positions_eq (self : BloomFilterIndex) (value : List UInt8) :
    self.positions value =
      (List.range self.hashCount).map (place (self.bits.length * 8) value) := rfl

@[simp]
theorem header_insert (self : BloomFilterIndex) (value : List UInt8) :
    (self.insert value).header = self.header := by
  unfold insert
  split <;> rfl

@[simp]
theorem hashCount_insert (self : BloomFilterIndex) (value : List UInt8) :
    (self.insert value).hashCount = self.hashCount := by
  unfold insert
  split <;> rfl

@[simp]
theorem length_bits_insert (self : BloomFilterIndex) (value : List UInt8) :
    (self.insert value).bits.length = self.bits.length := by
  unfold insert
  split
  · rfl
  · exact ByteBits.length_foldl_insert _ _

/-- One insertion marks the places of the value. -/
theorem marks_insert (hbits : self.bits ≠ []) :
    (self.insert value).marks =
      ProbeSet.insert (place (self.bits.length * 8)) self.hashCount self.marks value := by
  have hpos : 0 < self.bits.length := List.length_pos_iff.mpr hbits
  have hwithin : ∀ i ∈ self.positions value, i / 8 < self.bits.length := by
    intro i hi
    rw [positions_eq] at hi
    obtain ⟨round, -, rfl⟩ := List.mem_map.mp hi
    have hlt : place (self.bits.length * 8) value round < self.bits.length * 8 :=
      Nat.mod_lt _ (by omega)
    omega
  ext i
  show ByteBits.get (self.insert value).bits i = true ↔ _
  rw [insert, if_neg (by omega), ByteBits.get_foldl_insert hwithin, positions_eq, List.mem_map]
  simp only [List.mem_range]
  exact or_comm

/-- What a sequence of insertions keeps, and the places it marks. -/
theorem marks_insertAll (keys : List (List UInt8)) (hbits : self.bits ≠ []) :
    (self.insertAll keys).header = self.header ∧
      (self.insertAll keys).hashCount = self.hashCount ∧
      (self.insertAll keys).bits.length = self.bits.length ∧
      (self.insertAll keys).marks = keys.foldl
        (ProbeSet.insert (place (self.bits.length * 8)) self.hashCount) self.marks := by
  induction keys generalizing self with
  | nil => exact ⟨rfl, rfl, rfl, rfl⟩
  | cons key keys ih =>
    have hbits' : (self.insert key).bits ≠ [] := by
      rw [← List.length_pos_iff, length_bits_insert]
      exact List.length_pos_iff.mpr hbits
    obtain ⟨hheader, hcount, hlength, hmarks⟩ := ih hbits'
    rw [header_insert] at hheader
    rw [hashCount_insert] at hcount hmarks
    rw [length_bits_insert] at hlength hmarks
    rw [marks_insert hbits] at hmarks
    exact ⟨hheader, hcount, hlength, hmarks⟩

/-- A filter reports a value exactly when all of its probes are marked. -/
theorem mightContain_iff (hbits : self.bits ≠ []) :
    self.mightContain value = true ↔
      ProbeSet.Reports (place (self.bits.length * 8)) self.hashCount self.marks value := by
  have hpos : 0 < self.bits.length := List.length_pos_iff.mpr hbits
  rw [mightContain, if_neg (by omega), positions_eq, List.all_map, List.all_eq_true]
  simp only [List.mem_range, Function.comp_apply]
  refine forall₂_congr fun round _ => ?_
  show self.testBit _ = true ↔ ByteBits.get self.bits _ = true
  rw [ByteBits.get_eq_testBit]
  rfl

/-! ## Reading back -/

/-- A filter that can be stored: its numbers fit their fields, its bits can be counted, and it is
not one that the reader turns away as empty. -/
structure Legal (filter : BloomFilterIndex) : Prop where
  header : FieldRecord.Fits filter.header.fields
  filters : filter.header.filterCount ≠ 0
  bits : filter.bits ≠ []
  length : filter.bits.length * 8 < 2 ^ 64

end BloomFilterIndex

theorem BloomIndexHeaderV1.parse_serialize {header : BloomIndexHeaderV1}
    (hfits : FieldRecord.Fits header.fields) (rest : List UInt8) :
    ∃ checksum, BloomIndexHeaderV1.parse (header.serialize ++ rest) =
      .ok { header with checksum := checksum } := by
  have hlength : header.serialize.length = bloomIndexHeaderLen := by
    rw [serialize, FieldRecord.length_encode, width_sealRecord]
    rfl
  have h : ∀ offset w {value : Nat}, FieldRecord.fieldAt header.fields offset w = some value →
      fieldNat header.serialize offset w = value := by
    intro offset w value hat
    rw [serialize, sealRecord, FieldRecord.encode_append]
    exact fieldNat_encode hfits hat _
  have hsum : verifyChecksumField Crc32c.crc32c
      (FieldRecord.encode (sealRecord Crc32c.crc32c header.fields)) 36 =
        .ok (Crc32c.crc32c (FieldRecord.encode header.fields ++ [0, 0, 0, 0])) :=
    verifyChecksumField_sealRecord Crc32c.crc32c_lt rfl (by decide)
  have hgranularity : BloomGranularity.fromU8 header.granularity.code = some header.granularity := by
    cases header.granularity <;> rfl
  have hdomain : BloomHashDomain.fromU8 header.hashDomain.code = some header.hashDomain := by
    cases header.hashDomain <;> rfl
  have halgorithm : BloomAlgorithm.fromU8 header.algorithm.code = some header.algorithm := by
    cases header.algorithm
    rfl
  refine ⟨Crc32c.crc32c (FieldRecord.encode header.fields ++ [0, 0, 0, 0]), ?_⟩
  unfold parse
  rw [if_neg (by rw [List.length_append, hlength]; omega), List.take_left' hlength]
  dsimp only
  rw [serialize] at h ⊢
  rw [hsum, ok_bind, h 8 1 rfl, h 9 1 rfl, h 10 1 rfl, hgranularity, hdomain, halgorithm,
    h 0 4 rfl, h 4 4 rfl, h 11 1 rfl, h 12 4 rfl, h 16 4 rfl, h 20 8 rfl, h 28 8 rfl]

namespace BloomFilterIndex

variable {self : BloomFilterIndex} {keys : List (List UInt8)}

theorem Legal.fits_storedHeader (hlegal : self.Legal) :
    FieldRecord.Fits self.storedHeader.fields := by
  have hoffset : bloomIndexHeaderLen < 256 ^ 8 := by decide
  have hlength : self.bits.length < 256 ^ 8 := by
    have := hlegal.length
    omega
  have hheader := hlegal.header
  simp only [FieldRecord.Fits, BloomIndexHeaderV1.fields, storedHeader, List.forall_mem_cons] at *
  tauto

/-- A legal filter is read back, but for its number of rounds. -/
theorem parse_serialize (hlegal : self.Legal) :
    ∃ header, parse self.serialize = .ok ⟨header, parsedHashCount, self.bits⟩ := by
  obtain ⟨checksum, hparse⟩ :=
    BloomIndexHeaderV1.parse_serialize hlegal.fits_storedHeader self.bits
  have hlength : self.storedHeader.serialize.length = bloomIndexHeaderLen := by
    rw [BloomIndexHeaderV1.serialize, FieldRecord.length_encode, width_sealRecord]
    rfl
  have hregion : checkedRegion self.serialize bloomIndexHeaderLen self.bits.length =
      .ok self.bits := by
    have hstop : checkedAdd bloomIndexHeaderLen self.bits.length =
        .ok (bloomIndexHeaderLen + self.bits.length) := by
      refine addU64_eq_ok.mpr ⟨?_, rfl⟩
      have := hlegal.length
      unfold bloomIndexHeaderLen
      omega
    unfold checkedRegion
    rw [hstop, ok_bind, serialize, List.length_append, hlength, if_neg (lt_irrefl _), fieldBytes,
      List.drop_left' hlength, List.take_length]
  refine ⟨{ self.storedHeader with checksum := checksum }, ?_⟩
  unfold parse
  rw [serialize] at hregion ⊢
  rw [hparse, ok_bind]
  show (checkedRegion _ bloomIndexHeaderLen self.bits.length >>= _) = _
  rw [hregion, ok_bind, if_neg]
  exact not_or.mpr ⟨hlegal.filters, hlegal.bits⟩

/-! ## Inserted keys -/

/-- No inserted key is missed, neither by the filter nor by the filter read from its bytes. -/
def Survives (self : BloomFilterIndex) (keys : List (List UInt8)) : Prop :=
  ∀ key ∈ keys, (self.insertAll keys).mightContain key = true ∧
    ∃ filter, parse (self.insertAll keys).serialize = .ok filter ∧ filter.mightContain key = true

/-- Each round that a parsed filter probes and an inserted key was not inserted with meets a bit
that was set from the start, or by a round of some inserted key. -/
def LateRoundsMarked (self : BloomFilterIndex) (keys : List (List UInt8)) : Prop :=
  ∀ key ∈ keys, ∀ round, self.hashCount ≤ round → round < parsedHashCount →
    ByteBits.get self.bits (place (self.bits.length * 8) key round) = true ∨
      ∃ other ∈ keys, ∃ round' < self.hashCount,
        place (self.bits.length * 8) other round' = place (self.bits.length * 8) key round

theorem Legal.insertAll (hlegal : self.Legal) : (self.insertAll keys).Legal := by
  obtain ⟨hheader, -, hlength, -⟩ := marks_insertAll keys hlegal.bits
  refine ⟨hheader ▸ hlegal.header, hheader ▸ hlegal.filters, ?_, hlength ▸ hlegal.length⟩
  rw [← List.length_pos_iff, hlength]
  exact List.length_pos_iff.mpr hlegal.bits

/-- **When no inserted key is missed.** The filter that was filled never misses one; the filter
read from its bytes probes seven rounds, however many the keys were inserted with. -/
theorem survives_iff (hlegal : self.Legal) : self.Survives keys ↔ self.LateRoundsMarked keys := by
  obtain ⟨-, hcount, hlength, hmarks⟩ := marks_insertAll keys hlegal.bits
  have hfull : (self.insertAll keys).Legal := hlegal.insertAll
  obtain ⟨header, hparse⟩ := parse_serialize hfull
  have hbefore : ∀ key ∈ keys, (self.insertAll keys).mightContain key = true := by
    intro key hkey
    rw [mightContain_iff hfull.bits, hcount, hlength, hmarks]
    exact ProbeSet.reports_foldl_insert hkey
  have hafter : ∀ key ∈ keys,
      ((⟨header, parsedHashCount, (self.insertAll keys).bits⟩ : BloomFilterIndex).mightContain key
          = true ↔
        ∀ round, self.hashCount ≤ round → round < parsedHashCount →
          place (self.bits.length * 8) key round ∈ self.marks ∨
            ∃ other ∈ keys, ∃ round' < self.hashCount,
              place (self.bits.length * 8) other round' =
                place (self.bits.length * 8) key round) := by
    intro key hkey
    refine Iff.trans (mightContain_iff hfull.bits) ?_
    show ProbeSet.Reports (place ((self.insertAll keys).bits.length * 8)) parsedHashCount
      (self.insertAll keys).marks key ↔ _
    rw [hlength, hmarks]
    exact ProbeSet.reports_foldl_insert_iff hkey
  constructor
  · intro h key hkey
    obtain ⟨-, filter, hok, hreports⟩ := h key hkey
    rw [hparse] at hok
    obtain rfl := Except.ok.inj hok
    exact (hafter key hkey).mp hreports
  · intro h key hkey
    exact ⟨hbefore key hkey, _, hparse, (hafter key hkey).mpr (h key hkey)⟩

/-- A filter of 32 bytes that hashes four times. -/
def fourRounds : BloomFilterIndex where
  header := ⟨1, 0, .morsel, .canonicalValueHash, .splitBlock, 0, 10000, 1, 40, 32, 0⟩
  hashCount := 4
  bits := List.replicate 32 0

theorem fourRounds_legal : fourRounds.Legal :=
  ⟨by unfold FieldRecord.Fits; decide, by decide, by decide, by decide⟩

theorem survives_iff_fourRounds :
    fourRounds.Survives [[98, 111, 98]] ↔ fourRounds.LateRoundsMarked [[98, 111, 98]] :=
  survives_iff fourRounds_legal

/-- The key `bob` is inserted and missed after a round of bytes. -/
theorem not_survives : ¬∀ self : BloomFilterIndex, self.Legal →
    ∀ keys : List (List UInt8), self.Survives keys := by
  intro h
  obtain ⟨-, filter, hok, hreports⟩ :=
    h fourRounds fourRounds_legal [[98, 111, 98]] _ (List.mem_singleton_self _)
  have hmissed : ((parse (fourRounds.insertAll [[98, 111, 98]]).serialize).toOption.map
      fun filter => filter.mightContain [98, 111, 98]) = some false := by decide +kernel
  rw [hok] at hmissed
  exact Bool.false_ne_true ((Option.some.inj hmissed).symm.trans hreports)

end BloomFilterIndex

end Cove
