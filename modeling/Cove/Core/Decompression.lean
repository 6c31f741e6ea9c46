import Cove.Core.Compression
import Cove.Core.SegmentPayload
import Cove.Lib.Digests

/-!
# The length of decompressed payloads

A section or page states how long it is once decompressed. What the entry points return is as long
as stated when the bytes are stored as they are, or with Zstandard; what LZ4 returns is passed on.

- `sectionSpecPayload`, `sectionPayloadFromRaw`, `columnPagePayload`: the entry points.
- `columnPagePayloadVec`, `columnPagePayloadRetained`: the variants that own their bytes.
- `CodecLibraries.Lz4AtMost`: what is assumed of the LZ4 library.
- `length_payloadFromRaw_iff`: **which payloads surely have the stated length**.
- `payload_lengths_iff`: the same of every entry point, with the agreement of the variants.
-/

namespace Cove

open Checked SegmentPayload

/-! ## Retained bytes -/

/-- A view of some bytes of an owner. -/
structure RetainedBytes where
  owner : List UInt8
  offset : Nat
  len : Nat
  inBounds : offset + len ≤ owner.length

namespace RetainedBytes

def asSlice (self : RetainedBytes) : List UInt8 := fieldBytes self.owner self.offset self.len

def fromVec (bytes : List UInt8) : RetainedBytes := ⟨bytes, 0, bytes.length, by omega⟩

@[simp] theorem asSlice_fromVec (bytes : List UInt8) : (fromVec bytes).asSlice = bytes := by
  show (bytes.drop 0).take bytes.length = bytes
  rw [List.drop_zero, List.take_length]

@[simp] theorem length_asSlice (self : RetainedBytes) : self.asSlice.length = self.len := by
  have h := self.inBounds
  show ((self.owner.drop self.offset).take self.len).length = self.len
  rw [List.length_take, List.length_drop]
  omega

end RetainedBytes

/-! ## Entry points -/

section

variable (codecs : CodecLibraries) (crc32c : List UInt8 → Nat)

/-- `section_spec_payload`. -/
def sectionSpecPayload (fileData : List UInt8) (spec : CoveSectionSpecV1) :
    Except CoveError (List UInt8) := do
  let raw ← payloadRawBytes fileData spec.offset spec.length
  payloadFromRaw codecs raw spec.length spec.uncompressedLength spec.compression

/-- `section_payload_from_raw`. -/
def sectionPayloadFromRaw (raw : List UInt8) (length uncompressedLength compression crc : Nat) :
    Except CoveError (List UInt8) :=
  if raw.length ≠ length then
    .error (.badSection
      s!"section raw length {raw.length} does not match declared length {length}")
  else if crc32c raw ≠ crc then .error .checksumMismatch
  else payloadFromRaw codecs raw length uncompressedLength compression

inductive PageChecksumValidation where
  | verify
  | trusted
  deriving DecidableEq, Repr

/-- `column_page_payload_with_checksum_validation`. -/
def columnPagePayloadWith (pageBytes : List UInt8) (entry : ColumnPageIndexEntryV1)
    (validation : PageChecksumValidation) : Except CoveError (List UInt8) :=
  if pageBytes.length ≠ entry.pageLength then
    .error (.badSection (s!"page payload length {pageBytes.length} does not match " ++
      s!"page_length {entry.pageLength}"))
  else if validation = .verify ∧ crc32c pageBytes ≠ entry.checksum then .error .checksumMismatch
  else do
    match ← pageFlagCodec entry.flags with
    | .none =>
      if entry.uncompressedLength ≠ entry.pageLength then
        .error (.badSection
          "uncompressed_length must equal page_length when page codec=None")
      else .ok pageBytes
    | .lz4 => lz4Decompress codecs pageBytes entry.uncompressedLength
    | .zstd => zstdDecompress codecs pageBytes entry.uncompressedLength

/-- `column_page_payload`. -/
def columnPagePayload (pageBytes : List UInt8) (entry : ColumnPageIndexEntryV1) :
    Except CoveError (List UInt8) :=
  columnPagePayloadWith codecs crc32c pageBytes entry .verify

/-- `column_page_payload_retained_with_checksum_validation`. -/
def columnPagePayloadRetained (pageBytes : RetainedBytes) (entry : ColumnPageIndexEntryV1)
    (validation : PageChecksumValidation) : Except CoveError RetainedBytes :=
  if pageBytes.len ≠ entry.pageLength then
    .error (.badSection (s!"page payload length {pageBytes.len} does not match " ++
      s!"page_length {entry.pageLength}"))
  else if validation = .verify ∧ crc32c pageBytes.asSlice ≠ entry.checksum then
    .error .checksumMismatch
  else do
    match ← pageFlagCodec entry.flags with
    | .none =>
      if entry.uncompressedLength ≠ entry.pageLength then
        .error (.badSection
          "uncompressed_length must equal page_length when page codec=None")
      else .ok pageBytes
    | .lz4 =>
      (lz4Decompress codecs pageBytes.asSlice entry.uncompressedLength).map RetainedBytes.fromVec
    | .zstd =>
      (zstdDecompress codecs pageBytes.asSlice entry.uncompressedLength).map RetainedBytes.fromVec

/-- `column_page_payload_vec_with_checksum_validation`. -/
def columnPagePayloadVec (pageBytes : List UInt8) (entry : ColumnPageIndexEntryV1)
    (validation : PageChecksumValidation) : Except CoveError (List UInt8) :=
  (columnPagePayloadRetained codecs crc32c (RetainedBytes.fromVec pageBytes) entry validation).map
    RetainedBytes.asSlice

end

/-! ## The variants agree -/

variable {codecs : CodecLibraries} {crc32c : List UInt8 → Nat}

/-- **A retained page decompresses to what its bytes do.** -/
theorem columnPagePayloadRetained_eq (pageBytes : RetainedBytes) (entry : ColumnPageIndexEntryV1)
    (validation : PageChecksumValidation) :
    (columnPagePayloadRetained codecs crc32c pageBytes entry validation).map
        RetainedBytes.asSlice =
      columnPagePayloadWith codecs crc32c pageBytes.asSlice entry validation := by
  have hback : ∀ x : Except CoveError (List UInt8),
      (x.map RetainedBytes.fromVec).map RetainedBytes.asSlice = x := by
    intro x
    cases x with
    | error e => rfl
    | ok bytes => exact congrArg _ (RetainedBytes.asSlice_fromVec bytes)
  unfold columnPagePayloadRetained columnPagePayloadWith
  rw [RetainedBytes.length_asSlice]
  split
  · rfl
  · split
    · rfl
    · cases pageFlagCodec entry.flags with
      | error e => rfl
      | ok codec =>
        simp only [ok_bind]
        cases codec with
        | none =>
          dsimp only
          split <;> rfl
        | lz4 => exact hback _
        | zstd => exact hback _

variable (pageBytes : List UInt8)

variable (entry : ColumnPageIndexEntryV1)

variable (validation : PageChecksumValidation)

theorem columnPagePayloadVec_eq :
    columnPagePayloadVec codecs crc32c pageBytes entry validation =
      columnPagePayloadWith codecs crc32c pageBytes entry validation := by
  unfold columnPagePayloadVec
  rw [columnPagePayloadRetained_eq, RetainedBytes.asSlice_fromVec]

variable {fileData : List UInt8}

/-- The bytes of a section whose checksum is right decompress as the section does. -/
theorem sectionPayloadFromRaw_eq {raw : List UInt8} {entry : CoveSectionEntryV1}
    (hraw : payloadRawBytes fileData entry.offset entry.length = .ok raw)
    (hcrc : crc32c raw = entry.crc32c) :
    sectionPayloadFromRaw codecs crc32c raw entry.length entry.uncompressedLength
        entry.compression entry.crc32c =
      sectionPayload codecs fileData entry := by
  have hlength : raw.length = entry.length := by
    unfold payloadRawBytes at hraw
    obtain ⟨stop, hstop, hraw⟩ := bind_eq_ok.mp hraw
    obtain ⟨-, rfl⟩ := addU64_eq_ok.mp hstop
    obtain ⟨hle, hraw⟩ := ite_error_eq_ok.mp hraw
    obtain rfl := Except.ok.inj hraw
    show ((fileData.drop entry.offset).take entry.length).length = entry.length
    rw [List.length_take, List.length_drop]
    omega
  unfold sectionPayloadFromRaw sectionPayload
  rw [if_neg (not_not_intro hlength), if_neg (not_not_intro hcrc), hraw, ok_bind]

/-! ## Stated lengths -/

/-- The LZ4 library is given a size and returns any bytes that fit in it. -/
def CodecLibraries.Lz4AtMost (codecs : CodecLibraries) : Prop :=
  ∀ raw size bytes, codecs.lz4Decompress raw size = .ok bytes → bytes.length ≤ size

/-- Libraries that decompress everything to nothing. -/
def CodecLibraries.empty : CodecLibraries := ⟨id, fun _ _ => .ok [], .ok, .ok⟩

theorem CodecLibraries.empty_lz4AtMost : CodecLibraries.empty.Lz4AtMost := by
  intro raw size bytes h
  obtain rfl := Except.ok.inj h
  exact Nat.zero_le _

/-- Whatever the libraries, what is returned has the length. -/
def SurelyLong (run : CodecLibraries → Except CoveError (List UInt8)) (length : Nat) : Prop :=
  ∀ codecs : CodecLibraries, codecs.Lz4AtMost → ∀ bytes, run codecs = .ok bytes →
    bytes.length = length

variable {offset : Nat}

section

variable {raw : List UInt8} {length uncompressedLength compression : Nat}

theorem surelyLong_of_error {run : CodecLibraries → Except CoveError (List UInt8)}
    (h : ∀ codecs, ∃ e, run codecs = .error e) : SurelyLong run length := by
  intro codecs _ bytes hrun
  obtain ⟨e, he⟩ := h codecs
  rw [he] at hrun
  cases hrun

theorem surelyLong_lz4 :
    SurelyLong (fun codecs => lz4Decompress codecs raw length) length ↔ length = 0 := by
  constructor
  · intro h
    exact (h _ CodecLibraries.empty_lz4AtMost [] rfl).symm
  · rintro rfl codecs hcodecs bytes hrun
    exact Nat.le_zero.mp (hcodecs _ _ _ (mapError_eq_ok.mp hrun))

theorem surelyLong_zstd : SurelyLong (fun codecs => zstdDecompress codecs raw length) length := by
  intro codecs _ bytes hrun
  obtain ⟨out, -, hrun⟩ := bind_eq_ok.mp hrun
  obtain ⟨hlength, hrun⟩ := ite_error_eq_ok.mp hrun
  obtain rfl := Except.ok.inj hrun
  exact Classical.not_not.mp hlength

/-- The bytes are compressed with LZ4, and not of nothing. -/
def Lz4Stored (compression uncompressedLength : Nat) : Prop :=
  compression = 1 ∧ uncompressedLength ≠ 0

/-- **Which payloads surely have the stated length:** all but those compressed with LZ4. -/
theorem length_payloadFromRaw_iff :
    SurelyLong (fun codecs => payloadFromRaw codecs raw raw.length uncompressedLength compression)
        uncompressedLength ↔
      ¬Lz4Stored compression uncompressedLength := by
  unfold payloadFromRaw Lz4Stored
  match compression with
  | 0 =>
    refine iff_of_true ?_ fun h => absurd h.1 (by decide)
    intro codecs _ bytes hrun
    obtain ⟨hlength, hrun⟩ := ite_error_eq_ok.mp hrun
    obtain rfl := Except.ok.inj hrun
    exact (Classical.not_not.mp hlength).symm
  | 1 => exact surelyLong_lz4.trans ⟨fun h hstored => hstored.2 h, fun h => not_not.mp fun hne =>
      h ⟨rfl, hne⟩⟩
  | 2 => exact iff_of_true surelyLong_zstd fun h => absurd h.1 (by decide)
  | n + 3 => exact iff_of_true (surelyLong_of_error fun _ => ⟨_, rfl⟩) fun h => absurd h.1 (by omega)

/-- The bytes of a section lie in the file. -/
def InFile (fileData : List UInt8) (offset length : Nat) : Prop :=
  offset + length < 2 ^ 64 ∧ offset + length ≤ fileData.length

theorem payloadRawBytes_of_inFile (h : InFile fileData offset length) :
    ∃ raw, payloadRawBytes fileData offset length = .ok raw ∧ raw.length = length := by
  refine ⟨fieldBytes fileData offset length, ?_, ?_⟩
  · have hle := h.2
    exact bind_eq_ok.mpr ⟨_, addU64_eq_ok.mpr ⟨h.1, rfl⟩, if_neg (by omega)⟩
  · have := h.2
    show ((fileData.drop offset).take length).length = length
    rw [List.length_take, List.length_drop]
    omega

theorem payloadRawBytes_of_not_inFile (h : ¬InFile fileData offset length) :
    ∃ e, payloadRawBytes fileData offset length = .error e := by
  cases hraw : payloadRawBytes fileData offset length with
  | error e => exact ⟨e, rfl⟩
  | ok raw =>
    obtain ⟨stop, hstop, hraw⟩ := bind_eq_ok.mp hraw
    obtain ⟨hfits, rfl⟩ := addU64_eq_ok.mp hstop
    obtain ⟨hle, -⟩ := ite_error_eq_ok.mp hraw
    exact absurd ⟨hfits, Nat.le_of_not_lt hle⟩ h

/-- The payload of a stretch of the file. -/
theorem surelyLong_fileData_iff (fileData : List UInt8) (offset : Nat) :
    SurelyLong (fun codecs => payloadRawBytes fileData offset length >>= fun raw =>
        payloadFromRaw codecs raw length uncompressedLength compression) uncompressedLength ↔
      ¬(InFile fileData offset length ∧ Lz4Stored compression uncompressedLength) := by
  by_cases hin : InFile fileData offset length
  · obtain ⟨raw, hraw, rfl⟩ := payloadRawBytes_of_inFile hin
    simp only [hraw, ok_bind, hin, true_and]
    exact length_payloadFromRaw_iff
  · obtain ⟨e, he⟩ := payloadRawBytes_of_not_inFile hin
    refine iff_of_true (surelyLong_of_error fun codecs => ⟨e, ?_⟩) fun h => hin h.1
    rw [he]
    rfl

theorem surelyLong_fromRaw_iff (crc : Nat) :
    SurelyLong (fun codecs => sectionPayloadFromRaw codecs crc32c raw length uncompressedLength
        compression crc) uncompressedLength ↔
      ¬((raw.length = length ∧ crc32c raw = crc) ∧ Lz4Stored compression uncompressedLength) := by
  unfold sectionPayloadFromRaw
  by_cases hlength : raw.length = length
  · subst hlength
    by_cases hcrc : crc32c raw = crc
    · simp only [hcrc, ne_eq, not_true_eq_false, if_false, and_self, true_and]
      exact length_payloadFromRaw_iff
    · refine iff_of_true (surelyLong_of_error fun codecs => ⟨.checksumMismatch, ?_⟩)
        fun h => hcrc h.1.2
      rw [if_neg (not_not_intro rfl), if_pos hcrc]
  · exact iff_of_true (surelyLong_of_error fun codecs => ⟨_, if_pos hlength⟩) fun h => hlength h.1.1

/-- The checks of a page that come before its codec pass. -/
def PageFramed (crc32c : List UInt8 → Nat) (pageBytes : List UInt8)
    (entry : ColumnPageIndexEntryV1) (validation : PageChecksumValidation) : Prop :=
  pageBytes.length = entry.pageLength ∧
    (validation = .verify → crc32c pageBytes = entry.checksum)

theorem surelyLong_page_iff :
    SurelyLong (fun codecs => columnPagePayloadWith codecs crc32c pageBytes entry validation)
        entry.uncompressedLength ↔
      ¬(PageFramed crc32c pageBytes entry validation ∧ pageFlagCodec entry.flags = .ok .lz4 ∧
        entry.uncompressedLength ≠ 0) := by
  unfold columnPagePayloadWith
  by_cases hlength : pageBytes.length = entry.pageLength
  · by_cases hcrc : validation = .verify ∧ crc32c pageBytes ≠ entry.checksum
    · refine iff_of_true (surelyLong_of_error fun codecs => ⟨.checksumMismatch, ?_⟩)
        fun h => hcrc.2 (h.1.2 hcrc.1)
      rw [if_neg (not_not_intro hlength), if_pos hcrc]
    · have hframed : PageFramed crc32c pageBytes entry validation :=
        ⟨hlength, fun hverify => Classical.not_not.mp fun hne => hcrc ⟨hverify, hne⟩⟩
      simp only [if_neg (not_not_intro hlength), if_neg hcrc, hframed, true_and]
      cases hcodec : pageFlagCodec entry.flags with
      | error e => exact iff_of_true (surelyLong_of_error fun _ => ⟨_, rfl⟩) fun h => by cases h.1
      | ok codec =>
        simp only [ok_bind]
        cases codec with
        | none =>
          refine iff_of_true ?_ fun h => by cases h.1
          intro codecs _ bytes hrun
          obtain ⟨hsame, hrun⟩ := ite_error_eq_ok.mp hrun
          obtain rfl := Except.ok.inj hrun
          exact hlength.trans (Classical.not_not.mp hsame).symm
        | lz4 =>
          exact surelyLong_lz4.trans ⟨fun h hstored => hstored.2 h, fun h => not_not.mp fun hne =>
            h ⟨rfl, hne⟩⟩
        | zstd => exact iff_of_true surelyLong_zstd fun h => by cases h.1
  · exact iff_of_true (surelyLong_of_error fun codecs => ⟨_, if_pos hlength⟩) fun h => hlength h.1.1

end

/-! ## Every entry point -/

/-- What is asked of a section: its stated length, from the file or from its own bytes, and the
same payload from both when these have its checksum. -/
structure SectionSound (codecs : CodecLibraries) (crc32c : List UInt8 → Nat)
    (fileData : List UInt8) (entry : CoveSectionEntryV1) : Prop where
  length : ∀ bytes, sectionPayload codecs fileData entry = .ok bytes →
    bytes.length = entry.uncompressedLength
  agree : ∀ raw, payloadRawBytes fileData entry.offset entry.length = .ok raw →
    crc32c raw = entry.crc32c →
    sectionPayloadFromRaw codecs crc32c raw entry.length entry.uncompressedLength
      entry.compression entry.crc32c = sectionPayload codecs fileData entry

/-- What is asked of a page: its stated length, and one payload from all variants. -/
structure PageSound (codecs : CodecLibraries) (crc32c : List UInt8 → Nat)
    (pageBytes : List UInt8) (entry : ColumnPageIndexEntryV1)
    (validation : PageChecksumValidation) : Prop where
  length : ∀ bytes, columnPagePayloadWith codecs crc32c pageBytes entry validation = .ok bytes →
    bytes.length = entry.uncompressedLength
  vec : columnPagePayloadVec codecs crc32c pageBytes entry validation =
    columnPagePayloadWith codecs crc32c pageBytes entry validation
  retained : ∀ view : RetainedBytes, view.asSlice = pageBytes →
    (columnPagePayloadRetained codecs crc32c view entry validation).map RetainedBytes.asSlice =
      columnPagePayloadWith codecs crc32c pageBytes entry validation

theorem sectionSound_iff (fileData : List UInt8) (entry : CoveSectionEntryV1) :
    (∀ codecs : CodecLibraries, codecs.Lz4AtMost → SectionSound codecs crc32c fileData entry) ↔
      ¬(InFile fileData entry.offset entry.length ∧
        Lz4Stored entry.compression entry.uncompressedLength) := by
  refine Iff.trans ?_ (surelyLong_fileData_iff fileData entry.offset)
  exact ⟨fun h codecs hcodecs => (h codecs hcodecs).length,
    fun h codecs hcodecs => ⟨h codecs hcodecs, fun raw => sectionPayloadFromRaw_eq⟩⟩

theorem pageSound_iff :
    (∀ codecs : CodecLibraries, codecs.Lz4AtMost →
        PageSound codecs crc32c pageBytes entry validation) ↔
      ¬(PageFramed crc32c pageBytes entry validation ∧ pageFlagCodec entry.flags = .ok .lz4 ∧
        entry.uncompressedLength ≠ 0) := by
  refine Iff.trans ?_ (surelyLong_page_iff pageBytes entry validation)
  refine ⟨fun h codecs hcodecs => (h codecs hcodecs).length, fun h codecs hcodecs =>
    ⟨h codecs hcodecs, columnPagePayloadVec_eq _ _ _, ?_⟩⟩
  rintro view rfl
  exact columnPagePayloadRetained_eq view entry validation

/-- **Payloads surely have their stated lengths** unless they are compressed with LZ4, of something,
and reach the codec; and the variants agree. -/
theorem payload_lengths_iff (crc32c : List UInt8 → Nat) :
    (∀ fileData entry,
      (∀ codecs : CodecLibraries, codecs.Lz4AtMost →
          SectionSound codecs crc32c fileData entry) ↔
        ¬(InFile fileData entry.offset entry.length ∧
          Lz4Stored entry.compression entry.uncompressedLength)) ∧
    (∀ fileData, ∀ spec : CoveSectionSpecV1,
      SurelyLong (fun codecs => sectionSpecPayload codecs fileData spec)
          spec.uncompressedLength ↔
        ¬(InFile fileData spec.offset spec.length ∧
          Lz4Stored spec.compression spec.uncompressedLength)) ∧
    (∀ raw length uncompressedLength compression crc,
      SurelyLong (fun codecs => sectionPayloadFromRaw codecs crc32c raw length uncompressedLength
          compression crc) uncompressedLength ↔
        ¬((raw.length = length ∧ crc32c raw = crc) ∧
          Lz4Stored compression uncompressedLength)) ∧
    ∀ pageBytes entry validation,
      (∀ codecs : CodecLibraries, codecs.Lz4AtMost →
          PageSound codecs crc32c pageBytes entry validation) ↔
        ¬(PageFramed crc32c pageBytes entry validation ∧
          pageFlagCodec entry.flags = .ok .lz4 ∧ entry.uncompressedLength ≠ 0) :=
  ⟨sectionSound_iff, fun fileData spec => surelyLong_fileData_iff fileData spec.offset,
    fun _ _ _ _ crc => surelyLong_fromRaw_iff crc, pageSound_iff⟩

/-- An LZ4 library, on a block of one letter. -/
def oneLetterCodecs : CodecLibraries where
  lz4Compress := id
  lz4Decompress raw size :=
    if raw = [0x10, 0x61] ∧ 1 ≤ size then .ok [0x61] else .error "provided output is too small"
  zstdEncode := .ok
  zstdDecode := .ok

/-- A page of that block that is to be of four bytes. -/
def shortPage : ColumnPageIndexEntryV1 where
  columnId := 1
  morselId := 0
  rowCount := 1
  nonNullCount := 1
  nullCount := 0
  encodingRoot := 0
  pageOffset := 0
  pageLength := 2
  uncompressedLength := 4
  statsRef := 0
  flags := 1
  checksum := Crc32c.crc32c [0x10, 0x61]

/-- The page is read as one byte. -/
theorem shortPage_read :
    oneLetterCodecs.Lz4AtMost ∧
      columnPagePayload oneLetterCodecs Crc32c.crc32c [0x10, 0x61] shortPage = .ok [0x61] ∧
      [(0x61 : UInt8)].length ≠ shortPage.uncompressedLength := by
  refine ⟨fun raw size bytes h => ?_, by decide +kernel, by decide⟩
  by_cases hfits : raw = [0x10, 0x61] ∧ 1 ≤ size
  · obtain rfl := Except.ok.inj ((if_pos hfits).symm.trans h)
    exact hfits.2
  · cases (if_neg hfits).symm.trans h

end Cove
