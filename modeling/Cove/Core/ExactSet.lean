import Cove.Core.Pruning
import Cove.Core.SealedRecord
import Cove.Lib.ByteBits
import Cove.Lib.Digests
import Cove.Lib.SortedList

/-!
# Exact sets as bytes

A set is a header with a checksum and a payload in one of three representations. Only the sorted
list is decoded when the bytes are parsed.

- `ParsedExactSet.parse`: the reader.
- `ParsedExactSet.Encodes`: the keys that a payload stands for.
- `keys_eq`: the keys of a parsed sorted list are those of its payload.
- `exactSet_contains_iff`: **when no key is missed**, by a lookup or by pruning.
-/

namespace Cove

open Checked

/-- `EXACT_SET_HEADER_LEN`. -/
def exactSetHeaderLen : Nat := 36

def ExactSetGranularity.fromU8 : Nat → Option ExactSetGranularity
  | 0 => some segment
  | 1 => some morsel
  | _ => none

def ExactSetKeyKind.fromU8 : Nat → Option ExactSetKeyKind
  | 0 => some fileCode
  | 1 => some numCode
  | 2 => some canonicalHash
  | _ => none

def ExactSetRepresentation.fromU8 : Nat → Option ExactSetRepresentation
  | 0 => some sortedList
  | 1 => some bitset
  | 2 => some roaringLike
  | _ => none

/-- The header with the fields that place and check the payload. -/
structure ExactSetWireHeader extends ExactSetIndexHeaderV1 where
  flags : Nat
  entryCount : Nat
  dataOffset : Nat
  dataLength : Nat
  checksum : Nat
  deriving DecidableEq, Repr

/-- `ExactSetIndexHeaderV1::parse`. -/
def ExactSetWireHeader.parse (bytes : List UInt8) : Except CoveError ExactSetWireHeader :=
  if bytes.length < exactSetHeaderLen then .error .bufferTooShort
  else do
    let bytes := bytes.take exactSetHeaderLen
    let checksum ← verifyChecksumField Crc32c.crc32c bytes 32
    match ExactSetGranularity.fromU8 (fieldNat bytes 8 1), ExactSetKeyKind.fromU8 (fieldNat bytes 9 1),
      ExactSetRepresentation.fromU8 (fieldNat bytes 10 1) with
    | some granularity, some keyKind, some representation =>
      .ok ⟨⟨fieldNat bytes 0 4, fieldNat bytes 4 4, granularity, keyKind, representation⟩,
        fieldNat bytes 11 1, fieldNat bytes 12 4, fieldNat bytes 16 8, fieldNat bytes 24 8, checksum⟩
    | _, _, _ => .error .badIndex

/-- The 64-bit words of a payload. -/
def exactSetWords (data : List UInt8) : List Nat :=
  (List.range (data.length / 8)).map fun i => fieldNat data (8 * i) 8

/-- A parsed set: the index that is queried, its header and its payload. -/
structure ParsedExactSet where
  header : ExactSetWireHeader
  index : ExactSetIndex
  data : List UInt8

namespace ParsedExactSet

/-- The index of a set without decoded keys. -/
def undecoded (header : ExactSetIndexHeaderV1) : ExactSetIndex := ⟨header, [], .nil, fun _ => rfl⟩

/-- `ExactSetIndex::parse`. -/
def parse (bytes : List UInt8) : Except CoveError ParsedExactSet := do
  let header ← ExactSetWireHeader.parse bytes
  let data ← checkedRegion bytes header.dataOffset header.dataLength
  if hlist : header.representation = .sortedList then do
    let expectedLen ← checkedMul header.entryCount 8
    if data.length ≠ expectedLen then .error .badIndex
    else if hsorted : SortedList.strictWindows (exactSetWords data) = true then
      .ok ⟨header, ⟨header.toExactSetIndexHeaderV1, exactSetWords data,
        SortedList.strictWindows_iff.mp hsorted, absurd hlist⟩, data⟩
    else .error .badIndex
  else .ok ⟨header, undecoded header.toExactSetIndexHeaderV1, data⟩

/-- The keys that a payload stands for. What a bit set and a roaring-like set stand for is left to
their readers: only the sorted list is decoded here. -/
def Encodes (bitset roaring : List UInt8 → Nat → Prop) (self : ParsedExactSet) (key : Nat) : Prop :=
  match self.header.representation with
  | .sortedList => key ∈ exactSetWords self.data
  | .bitset => bitset self.data key
  | .roaringLike => roaring self.data key

variable {bytes : List UInt8} {parsed : ParsedExactSet}

/-- The keys of a parsed set: those of a sorted list, and none of another payload. -/
theorem keys_eq (h : parse bytes = .ok parsed) :
    parsed.index.header = parsed.header.toExactSetIndexHeaderV1 ∧
      parsed.index.keys =
        if parsed.header.representation = .sortedList then exactSetWords parsed.data else [] := by
  unfold parse at h
  obtain ⟨header, -, h⟩ := bind_eq_ok.mp h
  obtain ⟨data, -, h⟩ := bind_eq_ok.mp h
  split at h
  · next hlist =>
    obtain ⟨expectedLen, -, h⟩ := bind_eq_ok.mp h
    obtain ⟨-, h⟩ := ite_error_eq_ok.mp h
    split at h
    · rw [← Except.ok.inj h]
      exact ⟨rfl, (if_pos hlist).symm⟩
    · cases h
  · next hlist =>
    rw [← Except.ok.inj h]
    exact ⟨rfl, (if_neg hlist).symm⟩

end ParsedExactSet

/-! ## Verdicts -/

/-- The evidence of a verdict. -/
def PruningExplanation.evidence (self : PruningExplanation) : List PruningEvidence :=
  self.steps.map PruningStep.evidence

variable {zoneStats : Option ZoneStatsEntry}

variable {fileCode : Nat}

theorem evidence_domainVerdict {domain : ColumnDomain} {verdict : PruningExplanation}
    (h : domainVerdict fileCode zoneStats domain = some verdict) :
    verdict.evidence = [.columnDomain] := by
  unfold domainVerdict at h
  split at h
  · rw [← Option.some.inj h]
    rfl
  · split at h
    · cases h
    · split at h
      · rw [← Option.some.inj h]
        rfl
      · split at h
        · rw [← Option.some.inj h]
          rfl
        · cases h

/-- Only the exact set itself gives a verdict in its name. -/
theorem membership_of_explain {domain : Option ColumnDomain} {exactSet : Option ExactSetIndex}
    (h : explainFileCodeEquality fileCode zoneStats domain exactSet =
      singleStep .exactSet .noMatch "§37.1") : exactSetMembership exactSet fileCode = some false := by
  have hevidence : (explainFileCodeEquality fileCode zoneStats domain exactSet).evidence =
      [.exactSet] := by rw [h]; rfl
  unfold explainFileCodeEquality at h hevidence
  split at hevidence
  · cases hevidence
  · next hzone =>
    rw [if_neg hzone] at h
    split at hevidence
    · next verdict hverdict =>
      obtain ⟨safe, -, hsafe⟩ := Option.bind_eq_some_iff.mp hverdict
      rw [evidence_domainVerdict hsafe] at hevidence
      cases hevidence
    · next hverdict =>
      rw [hverdict] at h
      split at hevidence
      · next contains hcontains =>
        rw [hcontains] at h ⊢
        have houtcome := congrArg PruningExplanation.finalOutcome h
        cases contains with
        | false => rfl
        | true => cases houtcome
      · split at hevidence
        · cases hevidence
        · split at hevidence <;> cases hevidence

/-- **No key of a parsed set is missed**, by a lookup or by pruning, exactly when the set is a
sorted list or its payload stands for no key. -/
theorem exactSet_contains_iff (bitset roaring : List UInt8 → Nat → Prop) {bytes : List UInt8}
    {parsed : ParsedExactSet} (h : ParsedExactSet.parse bytes = .ok parsed) :
    ((∀ key, parsed.Encodes bitset roaring key → parsed.index.contains key = true) ∧
      ∀ fileCode zoneStats domain, parsed.Encodes bitset roaring fileCode →
        explainFileCodeEquality fileCode zoneStats domain (some parsed.index) ≠
          singleStep .exactSet .noMatch "§37.1") ↔
      parsed.header.representation = .sortedList ∨
        ∀ key, ¬ parsed.Encodes bitset roaring key := by
  obtain ⟨-, hkeys⟩ := ParsedExactSet.keys_eq h
  -- pruning asks the lookup
  have hprunes : (∀ key, parsed.Encodes bitset roaring key → parsed.index.contains key = true) →
      ∀ fileCode zoneStats domain, parsed.Encodes bitset roaring fileCode →
        explainFileCodeEquality fileCode zoneStats domain (some parsed.index) ≠
          singleStep .exactSet .noMatch "§37.1" := by
    intro hcontains fileCode zoneStats domain hencodes hverdict
    have hmember := membership_of_explain hverdict
    unfold exactSetMembership at hmember
    rw [Option.bind_some, hcontains fileCode hencodes] at hmember
    split at hmember <;> cases hmember
  constructor
  · rintro ⟨hcontains, -⟩
    by_cases hlist : parsed.header.representation = .sortedList
    · exact .inl hlist
    · refine .inr fun key hencodes => ?_
      have hmem := ExactSetIndex.contains_iff.mp (hcontains key hencodes)
      rw [hkeys, if_neg hlist] at hmem
      cases hmem
  · rintro (hlist | hnone)
    · have hcontains : ∀ key, parsed.Encodes bitset roaring key →
          parsed.index.contains key = true := by
        intro key hencodes
        unfold ParsedExactSet.Encodes at hencodes
        rw [hlist] at hencodes
        rw [ExactSetIndex.contains_iff, hkeys, if_pos hlist]
        exact hencodes
      exact ⟨hcontains, hprunes hcontains⟩
    · exact ⟨fun key hencodes => absurd hencodes (hnone key),
        fun fileCode _ _ hencodes => absurd hencodes (hnone fileCode)⟩

/-! ### Samples -/

/-- The bytes of a bit set with the bit of the code 0. -/
def bitsetBytes : List UInt8 :=
  FieldRecord.encode (sealRecord Crc32c.crc32c
    [(4, 1), (4, 2), (1, 1), (1, 0), (1, 1), (1, 0), (4, 1), (8, 36), (8, 1)]) ++ [1]

/-- Its header. -/
def bitsetHeader : ExactSetWireHeader :=
  ⟨⟨1, 2, .morsel, .fileCode, .bitset⟩, 0, 1, 36, 1, 2671393295⟩

/-- The bit set as it is parsed. -/
def parsedBitset : ParsedExactSet :=
  ⟨bitsetHeader, ParsedExactSet.undecoded bitsetHeader.toExactSetIndexHeaderV1, [1]⟩

theorem parse_bitsetBytes : ParsedExactSet.parse bitsetBytes = .ok parsedBitset := by
  have hheader : ExactSetWireHeader.parse bitsetBytes = .ok bitsetHeader := by decide +kernel
  have hdata : checkedRegion bitsetBytes bitsetHeader.dataOffset bitsetHeader.dataLength =
      .ok [1] := by decide +kernel
  unfold ParsedExactSet.parse
  rw [hheader, ok_bind, hdata]
  rfl

/-- A bit set with the bit of the code 0 is accepted, and pruning excludes the code. -/
theorem bitset_key_missed : ParsedExactSet.parse bitsetBytes = .ok parsedBitset ∧
    parsedBitset.Encodes (fun data key => ByteBits.get data key = true) (fun _ _ => False) 0 ∧
    parsedBitset.index.contains 0 = false ∧
    explainFileCodeEquality 0 none none (some parsedBitset.index) =
      singleStep .exactSet .noMatch "§37.1" := by
  refine ⟨parse_bitsetBytes, ?_, by decide, by decide +kernel⟩
  show ByteBits.get [1] 0 = true
  decide

theorem exactSet_contains_iff_bitset :
    ((∀ key, parsedBitset.Encodes (fun _ _ => False) (fun _ _ => False) key →
        parsedBitset.index.contains key = true) ∧
      ∀ fileCode zoneStats domain,
        parsedBitset.Encodes (fun _ _ => False) (fun _ _ => False) fileCode →
        explainFileCodeEquality fileCode zoneStats domain (some parsedBitset.index) ≠
          singleStep .exactSet .noMatch "§37.1") ↔
      parsedBitset.header.representation = .sortedList ∨
        ∀ key, ¬ parsedBitset.Encodes (fun _ _ => False) (fun _ _ => False) key :=
  exactSet_contains_iff _ _ parse_bitsetBytes

end Cove
