import Cove.Core.FooterReadback
import Cove.Core.MinimalWriter
import Cove.Lib.Digests

/-!
# Reading back the files of the minimal writer

- `Placed`: where the loop over the sections puts them.
- `placed_of_foldlM`: what the loop leaves behind.
- `ReadsBack`: an entry of the directory and the section that it was written for.
- `written_file_reads_back`: **the postscript and the footer are found, the sections follow one
  another in the order they were given, and each decompresses to its bytes**.
-/

namespace Cove

open Checked

section

variable (codecs : CodecLibraries) (crc32c : List UInt8 → UInt32)

/-! ## The loop over the sections -/

/-- Sections written one after the other from an offset on, with their bytes and their entries. -/
inductive Placed : Nat → Nat → List SectionPayload → List (List UInt8) → List CoveSectionEntryV1 →
    Prop where
  | nil {idx offset : Nat} : Placed idx offset [] [] []
  | cons {idx offset : Nat} {sect : SectionPayload} {raw : List UInt8} {sections raws entries}
      (hraw : encodePayloadForCodec codecs sect.data sect.compression.toNat = .ok raw)
      (hlength : raw.length < 2 ^ 64) (hdata : sect.data.length < 2 ^ 64) (hidx : idx + 1 < 2 ^ 32)
      (hrest : Placed (idx + 1) (offset + raw.length) sections raws entries) :
      Placed idx offset (sect :: sections) (raw :: raws)
        (sect.entry (idx + 1) offset raw.length sect.data.length (crc32c raw).toNat :: entries)

end

variable {codecs : CodecLibraries} {crc32c : List UInt8 → UInt32}

theorem tryU32_eq_ok {m n : Nat} : tryU32 m = .ok n ↔ m < 2 ^ 32 ∧ m = n := by
  unfold tryU32
  split
  next h => exact ⟨fun heq => ⟨h, Except.ok.inj heq⟩, fun ⟨_, heq⟩ => congrArg _ heq⟩
  next h => exact ⟨nofun, fun ⟨hlt, _⟩ => absurd hlt h⟩

theorem tryU64_eq_ok {m n : Nat} : tryU64 m = .ok n ↔ m < 2 ^ 64 ∧ m = n := by
  unfold tryU64
  split
  next h => exact ⟨fun heq => ⟨h, Except.ok.inj heq⟩, fun ⟨_, heq⟩ => congrArg _ heq⟩
  next h => exact ⟨nofun, fun ⟨hlt, _⟩ => absurd hlt h⟩

variable {state out : WriteState}

/-- What one round of the loop adds. -/
theorem writeSection_eq_ok {sect : SectionPayload} {idx : Nat} :
    writeSection codecs crc32c state (sect, idx) = .ok out ↔ ∃ raw,
      encodePayloadForCodec codecs sect.data sect.compression.toNat = .ok raw ∧
      raw.length < 2 ^ 64 ∧ sect.data.length < 2 ^ 64 ∧ idx + 1 < 2 ^ 32 ∧
      out = ⟨state.written ++ raw, state.sectionEntries ++ [sect.entry (idx + 1)
        state.written.length raw.length sect.data.length (crc32c raw).toNat]⟩ := by
  unfold writeSection
  simp only [bind_eq_ok, tryU64_eq_ok, tryU32_eq_ok]
  constructor
  · rintro ⟨raw, hraw, _, ⟨hlength, rfl⟩, _, ⟨hdata, rfl⟩, _, ⟨hidx, rfl⟩, hout⟩
    exact ⟨raw, hraw, hlength, hdata, hidx, (Except.ok.inj hout).symm⟩
  · rintro ⟨raw, hraw, hlength, hdata, hidx, rfl⟩
    exact ⟨raw, hraw, _, ⟨hlength, rfl⟩, _, ⟨hdata, rfl⟩, _, ⟨hidx, rfl⟩, rfl⟩

/-- **The loop places the sections** after what stood there, and adds their entries. The induction
is on the sections that are left. -/
theorem placed_of_foldlM {sections : List SectionPayload} {idx : Nat}
    (h : (sections.zipIdx idx).foldlM (writeSection codecs crc32c) state = .ok out) :
    ∃ raws entries, Placed codecs crc32c idx state.written.length sections raws entries ∧
      out = ⟨state.written ++ raws.flatten, state.sectionEntries ++ entries⟩ := by
  induction sections generalizing idx state with
  | nil =>
    obtain rfl := Except.ok.inj h
    exact ⟨[], [], .nil, by simp⟩
  | cons sect sections ih =>
    rw [List.zipIdx_cons, List.foldlM_cons] at h
    obtain ⟨next, hnext, h⟩ := bind_eq_ok.mp h
    obtain ⟨raw, hraw, hlength, hdata, hidx, rfl⟩ := writeSection_eq_ok.mp hnext
    obtain ⟨raws, entries, hplaced, rfl⟩ := ih h
    dsimp only at hplaced ⊢
    rw [List.length_append] at hplaced
    exact ⟨raw :: raws, _, .cons hraw hlength hdata hidx hplaced, by simp⟩

/-! ## What the entries say -/

/-- Entries that follow one another without gaps. -/
def Contiguous : Nat → List CoveSectionEntryV1 → Nat → Prop
  | start, [], stop => start = stop
  | start, entry :: entries, stop =>
    entry.offset = start ∧ Contiguous (start + entry.length) entries stop

variable {idx offset : Nat} {entries : List CoveSectionEntryV1}

theorem Placed.contiguous {sections raws entries}
    (h : Placed codecs crc32c idx offset sections raws entries) :
    Contiguous offset entries (offset + raws.flatten.length) := by
  induction h with
  | nil => rfl
  | cons _ _ _ _ _ ih =>
    rw [List.flatten_cons, List.length_append, ← Nat.add_assoc]
    exact ⟨rfl, ih⟩

variable {stop : Nat}

theorem Contiguous.le {start : Nat} (h : Contiguous start entries stop) : start ≤ stop := by
  induction entries generalizing start with
  | nil => exact Nat.le_of_eq h
  | cons entry entries ih =>
    have := ih h.2
    omega

/-- Contiguous entries lie in their range. -/
theorem Contiguous.bounds {start : Nat} (h : Contiguous start entries stop) :
    ∀ entry ∈ entries, start ≤ entry.offset ∧ entry.offset + entry.length ≤ stop := by
  induction entries generalizing start with
  | nil => exact fun entry hmem => nomatch hmem
  | cons first entries ih =>
    obtain ⟨hfirst, hrest⟩ := h
    refine List.forall_mem_cons.mpr ⟨⟨by omega, by have := hrest.le; omega⟩, fun entry hmem => ?_⟩
    have := ih hrest entry hmem
    omega

/-- Contiguous entries are disjoint, each before the ones after it. -/
theorem Contiguous.disjoint {start : Nat} (h : Contiguous start entries stop) :
    entries.Pairwise fun a b => a.offset + a.length ≤ b.offset := by
  induction entries generalizing start with
  | nil => exact .nil
  | cons first entries ih =>
    obtain ⟨hfirst, hrest⟩ := h
    refine .cons (fun entry hmem => ?_) (ih hrest)
    have := (hrest.bounds entry hmem).1
    omega

/-- The number of an entry is one more than its position. -/
theorem Placed.sectionIds {sections raws entries}
    (h : Placed codecs crc32c idx offset sections raws entries) :
    entries.map CoveSectionEntryV1.sectionId = List.range' (idx + 1) sections.length := by
  induction h with
  | nil => rfl
  | cons _ _ _ _ _ ih =>
    rw [List.map_cons, ih, List.length_cons, List.range'_succ]
    rfl

/-- The numbers of the entries fit their fields when the sections end below `2 ^ 64`. -/
theorem Placed.fits {sections raws entries}
    (h : Placed codecs crc32c idx offset sections raws entries)
    (hstop : offset + raws.flatten.length < 2 ^ 64) :
    ∀ entry ∈ entries, FieldRecord.Fits entry.fields := by
  induction h with
  | nil => exact fun entry hmem => nomatch hmem
  | @cons idx offset sect raw sections raws entries hraw hlength hdata hidx hrest ih =>
    rw [List.flatten_cons, List.length_append] at hstop
    refine List.forall_mem_cons.mpr ⟨?_, ih (by omega)⟩
    have hkind := sect.sectionKind.toNat_lt
    have hprofile := sect.profile.toNat_lt
    have hflags := sect.flags.toNat_lt
    have hitems := sect.itemCount.toNat_lt
    have hrows := sect.rowCount.toNat_lt
    have hcodec := sect.compression.toNat_lt
    have halign := sect.alignmentLog2.toNat_lt
    have hrequired := sect.requiredFeatures.toNat_lt
    have hoptional := sect.optionalFeatures.toNat_lt
    have hcrc := (crc32c raw).toNat_lt
    simp only [FieldRecord.Fits, CoveSectionEntryV1.fields, SectionPayload.entry,
      List.forall_mem_cons, List.not_mem_nil, false_implies, implies_true, and_true]
    exact ⟨by omega, by omega, by omega, by omega, by omega, by omega, by omega, by omega,
      by omega, by omega, by decide, by omega, by decide, by omega, by omega, by omega, by decide⟩

/-- The entries pass the checks of the reader when the sections passed those of the writer. -/
theorem Placed.check {sections raws entries}
    (h : Placed codecs crc32c idx offset sections raws entries)
    (hvalid : ∀ sect ∈ sections, sect.validateInput = .ok ()) :
    ∀ entry ∈ entries, entry.check = .ok () := by
  induction h with
  | nil => exact fun entry hmem => nomatch hmem
  | @cons idx offset sect raw sections raws entries hraw hlength hdata hidx hrest ih =>
    obtain ⟨hsect, hsections⟩ := List.forall_mem_cons.mp hvalid
    refine List.forall_mem_cons.mpr ⟨?_, ih hsections⟩
    unfold SectionPayload.validateInput at hsect
    obtain ⟨hkind, hsect⟩ := ite_error_eq_ok.mp hsect
    obtain ⟨hprofile, hsect⟩ := ite_error_eq_ok.mp hsect
    obtain ⟨hcodec, -⟩ := ite_error_eq_ok.mp hsect
    unfold CoveSectionEntryV1.check
    refine ite_error_eq_ok.mpr ⟨hkind, ite_error_eq_ok.mpr ⟨hprofile, ite_error_eq_ok.mpr
      ⟨hcodec, ite_error_eq_ok.mpr ⟨not_not_intro rfl, ite_error_eq_ok.mpr ⟨?_,
        ite_error_eq_ok.mpr ⟨?_, rfl⟩⟩⟩⟩⟩⟩
    · rintro (h | h) <;> exact h rfl
    · rintro ⟨hnone, hne⟩
      have hraw' : encodePayloadForCodec codecs sect.data 0 = .ok raw := hnone ▸ hraw
      exact hne (length_eq_of_encode_none hraw')

/-! ## What the sections say -/

/-- An entry says of its section what the writer was given, and the payload is read back. -/
structure ReadsBack (codecs : CodecLibraries) (crc32c : List UInt8 → UInt32)
    (file : List UInt8) (sect : SectionPayload) (entry : CoveSectionEntryV1) : Prop where
  kind : entry.sectionKind = sect.sectionKind.toNat
  profile : entry.profile = sect.profile.toNat
  flags : entry.flags = sect.flags.toNat
  itemCount : entry.itemCount = sect.itemCount.toNat
  rowCount : entry.rowCount = sect.rowCount.toNat
  compression : entry.compression = sect.compression.toNat
  alignment : entry.alignmentLog2 = sect.alignmentLog2.toNat
  requiredFeatures : entry.requiredFeatures = sect.requiredFeatures
  optionalFeatures : entry.optionalFeatures = sect.optionalFeatures
  checksum : entry.crc32c = (crc32c (fieldBytes file entry.offset entry.length)).toNat
  payload : sectionPayload codecs file entry = .ok sect.data

/-- **Every section is read back** from any file that holds the bytes that the loop wrote. -/
theorem Placed.readsBack (hcodecs : codecs.Lossless) {sections raws entries}
    (h : Placed codecs crc32c idx offset sections raws entries) {front back : List UInt8}
    (hfront : front.length = offset)
    (hstop : (front ++ raws.flatten ++ back).length < 2 ^ 64) :
    List.Forall₂ (ReadsBack codecs crc32c (front ++ raws.flatten ++ back)) sections entries := by
  induction h generalizing front with
  | nil => exact .nil
  | @cons idx offset sect raw sections raws entries hraw hlength hdata hidx hrest ih =>
    subst hfront
    have hsplit : front ++ (raw :: raws).flatten ++ back =
        (front ++ raw) ++ raws.flatten ++ back := by simp
    rw [hsplit] at hstop ⊢
    refine .cons ?_ (ih (by rw [List.length_append]) hstop)
    have hbytes : fieldBytes ((front ++ raw) ++ raws.flatten ++ back) front.length raw.length =
        raw := by
      rw [fieldBytes, List.append_assoc, List.append_assoc, List.drop_left, List.take_left]
    refine ⟨rfl, rfl, rfl, rfl, rfl, rfl, rfl, rfl, rfl, ?_, ?_⟩
    · show _ = (crc32c (fieldBytes _ front.length raw.length)).toNat
      rw [hbytes]
      rfl
    · have hinside : front.length + raw.length ≤
          ((front ++ raw) ++ raws.flatten ++ back).length := by
        simp only [List.length_append]
        omega
      show (payloadRawBytes _ front.length raw.length >>= fun bytes => payloadFromRaw codecs bytes
        raw.length sect.data.length sect.compression.toNat) = .ok sect.data
      unfold payloadRawBytes checkedAdd
      rw [addU64_eq_ok.mpr ⟨by omega, rfl⟩, ok_bind, if_neg (Nat.not_lt_of_le hinside), ok_bind,
        hbytes]
      exact payloadFromRaw_encode hcodecs hraw

/-! ## The whole file -/

variable {validJson : List UInt8 → Bool} {writer : MinimalCoveWriter}

/-- What the writer checks before it writes. -/
theorem MinimalCoveWriter.validateInputs_eq_ok :
    writer.validateInputs validJson = .ok () ↔
      metadataValidate validJson writer.metadataJson = .ok () ∧
      ¬writer.sections.length > 0xFFFFFFFF ∧
      ¬(PrimaryProfile.fromU8 writer.primaryProfile.toNat).isNone = true ∧
      ¬(ProducerScopeKind.fromU16 writer.producerScopeKind.toNat).isNone = true ∧
      unknownFeatureBits writer.requiredFeatures = 0 ∧
      ∀ sect ∈ writer.sections, sect.validateInput = .ok () := by
  unfold MinimalCoveWriter.validateInputs
  simp only [bind_eq_ok, ite_error_eq_ok, forM_eq_ok, Classical.not_not]
  exact ⟨fun ⟨_, h⟩ => h, fun h => ⟨(), h⟩⟩

/-- The header that the writer puts is one that the reader takes. -/
theorem MinimalCoveWriter.header_current (hvalid : writer.validateInputs validJson = .ok ()) :
    writer.header.Current := by
  obtain ⟨-, -, hprofile, hscope, hfeatures, -⟩ := validateInputs_eq_ok.mp hvalid
  exact ⟨rfl, rfl, rfl, rfl, Bool.eq_false_iff.mpr hprofile, Bool.eq_false_iff.mpr hscope, rfl,
    hfeatures, writer.createdAtUs.le_toInt, writer.createdAtUs.toInt_lt⟩

theorem MinimalCoveWriter.header_fits : FieldRecord.Fits writer.header.fields := by
  have hmagic := LittleEndian.ofLe_lt magicCove
  have hprofile := writer.primaryProfile.toNat_lt
  have hrequired := writer.requiredFeatures.toNat_lt
  have hoptional := writer.optionalFeatures.toNat_lt
  have hfile := writer.fileId.isLt
  have hproducer := writer.producerScopeId.isLt
  have hscope := writer.producerScopeKind.toNat_lt
  have hcreated := LittleEndian.unsigned_lt 8 writer.createdAtUs.toInt
  simp only [FieldRecord.Fits, CoveHeaderV1.fields, MinimalCoveWriter.header,
    List.forall_mem_cons, List.not_mem_nil, false_implies, implies_true, and_true]
  exact ⟨hmagic, by decide, by decide, by decide, by omega, by decide, by decide, by omega,
    by omega, by omega, by omega, by omega, by decide, hcreated, by decide, by decide, by decide,
    by decide, by decide⟩

/-- The footer that the writer puts is one that the reader takes. -/
theorem MinimalCoveWriter.parse_footerBytes
    {footerBytes : List UInt8} (h : writer.footerBytes entries = .ok footerBytes)
    (hmetadata : metadataValidate validJson writer.metadataJson = .ok ())
    (hfits : ∀ entry ∈ entries, FieldRecord.Fits entry.fields)
    (hcheck : ∀ entry ∈ entries, entry.check = .ok ()) :
    ∃ footer, CoveFooter.parse validJson footerBytes = .ok footer ∧ footer.sections = entries ∧
      footer.metadataJson = writer.metadataJson := by
  unfold MinimalCoveWriter.footerBytes at h
  obtain ⟨sectionCount, hcount, h⟩ := bind_eq_ok.mp h
  obtain ⟨hlt, rfl⟩ := tryU32_eq_ok.mp hcount
  obtain ⟨metadataLen, hlen, h⟩ := bind_eq_ok.mp h
  obtain ⟨-, rfl⟩ := tryU32_eq_ok.mp hlen
  obtain rfl := Except.ok.inj h
  have hcurrent : (footerHeader entries.length writer.metadataJson.length).Current :=
    ⟨rfl, rfl, rfl, rfl, hlt, Nat.two_pow_pos 16, length_le_of_metadataValidate hmetadata⟩
  let footer : CoveFooter :=
    ⟨footerHeader entries.length writer.metadataJson.length, entries, writer.metadataJson⟩
  have hparse : CoveFooter.parse validJson _ = .ok footer :=
    CoveFooter.parse_footerBytes hcurrent rfl hfits hcheck rfl hmetadata
  exact ⟨footer, hparse, rfl, rfl⟩

/-- The postscript that the writer puts is one that the reader takes. -/
theorem MinimalCoveWriter.parse_postscript {crc : List UInt8 → Nat}
    (hcrc : ∀ bytes, crc bytes < 2 ^ 32)
    (writer : MinimalCoveWriter) (hfeatures : unknownFeatureBits writer.requiredFeatures = 0)
    (footerOffset footerLen footerCrc total : Nat) (hoffset : footerOffset < 2 ^ 64)
    (hlen : footerLen < 2 ^ 64) (hfooterCrc : footerCrc < 2 ^ 32) (htotal : total < 2 ^ 64)
    (front : List UInt8) :
    ∃ checksum, CovePostscriptV1.parseFromTail crc (front ++
      (writer.postscript footerOffset footerLen footerCrc total).serializeTail crc) =
      .ok { writer.postscript footerOffset footerLen footerCrc total with checksum := checksum } := by
  have hrequired := writer.requiredFeatures.toNat_lt
  have hoptional := writer.optionalFeatures.toNat_lt
  have hfooterFits : FieldRecord.Fits
      (writer.postscript footerOffset footerLen footerCrc total).footer.fields := by
    simp only [FieldRecord.Fits, MinimalCoveWriter.postscript, CoveSectionSpecV1.fields,
      List.forall_mem_cons, List.not_mem_nil, false_implies, implies_true, and_true]
    exact ⟨by omega, by omega, by omega, by decide, by decide, by decide, by decide, by omega,
      by decide⟩
  have hfits : FieldRecord.Fits
      (writer.postscript footerOffset footerLen footerCrc total).fields := by
    intro f hf
    rcases List.mem_append.mp hf with hf | hf
    · simp only [MinimalCoveWriter.postscript, List.mem_cons, List.not_mem_nil, or_false] at hf
      rcases hf with rfl | rfl | rfl
      · exact hrequired
      · exact hoptional
      · exact htotal
    · exact hfooterFits f hf
  rw [CovePostscriptV1.parseFromTail_append]
  exact CovePostscriptV1.parsePayload_serialize hcrc hfits hfeatures
    (CoveSectionSpecV1.parse_encode hfooterFits rfl rfl rfl)

/-- **A file of the minimal writer is read back.** The header and the postscript have the features
that the writer was given; the postscript gives the length of the file and places the footer, whose
checksum holds; the footer has one entry for every section, in their order and numbered from one;
the sections stand one after the other between the header and the footer; and every section
decompresses to the bytes that were given. -/
theorem written_file_reads_back (codecs : CodecLibraries) (hcodecs : codecs.Lossless)
    (crc32c : List UInt8 → UInt32) (validJson : List UInt8 → Bool) (writer : MinimalCoveWriter)
    (file : List UInt8) (h : writer.write codecs crc32c validJson = .ok file) :
    ∃ header postscript footer,
      CoveHeaderV1.parse (fun bytes => (crc32c bytes).toNat) file = .ok header ∧
      header.requiredFeatures = writer.requiredFeatures ∧
      CovePostscriptV1.parseFromTail (fun bytes => (crc32c bytes).toNat) file = .ok postscript ∧
      postscript.requiredFeatures = writer.requiredFeatures ∧
      postscript.fileLen = file.length ∧
      postscript.footer.offset + postscript.footer.length ≤ file.length ∧
      (crc32c (fieldBytes file postscript.footer.offset postscript.footer.length)).toNat =
        postscript.footer.crc32c ∧
      CoveFooter.parse validJson
        (fieldBytes file postscript.footer.offset postscript.footer.length) = .ok footer ∧
      footer.metadataJson = writer.metadataJson ∧
      List.Forall₂ (ReadsBack codecs crc32c file) writer.sections footer.sections ∧
      footer.sections.map CoveSectionEntryV1.sectionId = List.range' 1 writer.sections.length ∧
      Contiguous headerSize footer.sections postscript.footer.offset ∧
      (∀ entry ∈ footer.sections,
        headerSize ≤ entry.offset ∧ entry.offset + entry.length ≤ postscript.footer.offset) ∧
      footer.sections.Pairwise fun a b => a.offset + a.length ≤ b.offset := by
  have hcrc : ∀ bytes, (crc32c bytes).toNat < 2 ^ 32 := fun bytes => (crc32c bytes).toNat_lt
  unfold MinimalCoveWriter.write at h
  obtain ⟨⟨⟩, hvalid, h⟩ := bind_eq_ok.mp h
  obtain ⟨hmetadata, -, -, -, hfeatures, hsections⟩ :=
    MinimalCoveWriter.validateInputs_eq_ok.mp hvalid
  obtain ⟨state, hstate, h⟩ := bind_eq_ok.mp h
  obtain ⟨raws, entries, hplaced, rfl⟩ := placed_of_foldlM hstate
  dsimp only [List.nil_append] at hplaced h
  rw [List.length_replicate] at hplaced
  obtain ⟨footerBytes, hfooter, h⟩ := bind_eq_ok.mp h
  obtain ⟨footerLen, hfooterLen, h⟩ := bind_eq_ok.mp h
  obtain ⟨hfooterLt, rfl⟩ := tryU64_eq_ok.mp hfooterLen
  obtain ⟨withPostscript, hwith, h⟩ := bind_eq_ok.mp h
  obtain ⟨-, rfl⟩ := addU64_eq_ok.mp hwith
  obtain ⟨total, htotal, h⟩ := bind_eq_ok.mp h
  obtain ⟨hsmall, rfl⟩ := addU64_eq_ok.mp htotal
  have hstart : (List.replicate headerSize (0 : UInt8) ++ raws.flatten).length =
      headerSize + raws.flatten.length := by
    rw [List.length_append, List.length_replicate]
  have hwritten : (List.replicate headerSize 0 ++ raws.flatten ++ footerBytes).length =
      headerSize + raws.flatten.length + footerBytes.length := by
    rw [List.length_append, hstart]
  rw [hwritten] at hsmall h
  rw [hstart] at h
  -- the header is as long as its placeholder
  generalize hheader : writer.header.serialize (fun bytes => (crc32c bytes).toNat) = header at h
  have hheaderLen : header.length = headerSize := by
    rw [← hheader, CoveHeaderV1.length_serialize]
  generalize htail : (writer.postscript _ _ _ _).serializeTail _ = tail at h
  have hfile : header ++ raws.flatten ++ (footerBytes ++ tail) = file := by
    rw [← Except.ok.inj h, List.append_assoc (List.replicate _ _), List.append_assoc,
      List.append_assoc, List.drop_left' List.length_replicate, List.append_assoc]
  have htailLen : tail.length = postscriptSize + (2 + 2 + 4) := by
    rw [← htail, CovePostscriptV1.serializeTail, List.length_append,
      CovePostscriptV1.length_serialize, FieldRecord.length_encode]
    rfl
  have hfront : (header ++ raws.flatten).length = headerSize + raws.flatten.length := by
    rw [List.length_append, hheaderLen]
  have hfileLen : file.length = headerSize + raws.flatten.length + footerBytes.length +
      postscriptSize + (2 + 2 + 4) := by
    rw [← hfile, List.length_append, hfront, List.length_append, htailLen]
    omega
  have hfooterAt : fieldBytes file (headerSize + raws.flatten.length) footerBytes.length =
      footerBytes := by
    rw [← hfile, fieldBytes, List.drop_left' hfront, List.take_left]
  obtain ⟨footer, hparseFooter, rfl, hjson⟩ := MinimalCoveWriter.parse_footerBytes hfooter
    hmetadata (hplaced.fits (by omega)) (hplaced.check hsections)
  obtain ⟨headerChecksum, hparseHeader⟩ := CoveHeaderV1.parse_serialize hcrc
    (writer.header_fits) (writer.header_current hvalid) (raws.flatten ++ (footerBytes ++ tail))
  obtain ⟨checksum, hparsePostscript⟩ := MinimalCoveWriter.parse_postscript hcrc writer hfeatures
    (headerSize + raws.flatten.length) footerBytes.length (crc32c footerBytes).toNat
    (headerSize + raws.flatten.length + footerBytes.length + postscriptSize + (2 + 2 + 4))
    (by omega) hfooterLt (hcrc footerBytes) hsmall (header ++ raws.flatten ++ footerBytes)
  rw [hheader, ← List.append_assoc, hfile] at hparseHeader
  rw [htail, List.append_assoc, hfile] at hparsePostscript
  have hcontiguous := hplaced.contiguous
  have hstop : (header ++ raws.flatten ++ (footerBytes ++ tail)).length < 2 ^ 64 := by
    rw [hfile, hfileLen]
    exact hsmall
  have hreads := hplaced.readsBack hcodecs (hheaderLen) hstop
  rw [hfile] at hreads
  refine ⟨_, _, footer, hparseHeader, rfl, hparsePostscript, rfl, ?_, ?_, ?_, ?_, hjson, hreads,
    hplaced.sectionIds, hcontiguous, hcontiguous.bounds, hcontiguous.disjoint⟩
  · exact hfileLen.symm
  · show headerSize + raws.flatten.length + footerBytes.length ≤ file.length
    omega
  · show (crc32c (fieldBytes file (headerSize + raws.flatten.length) footerBytes.length)).toNat = _
    rw [hfooterAt]
    rfl
  · show CoveFooter.parse validJson (fieldBytes file (headerSize + raws.flatten.length)
      footerBytes.length) = .ok footer
    rw [hfooterAt]
    exact hparseFooter

/-- Codecs that leave everything as it is. -/
def plainCodecs : CodecLibraries where
  lz4Compress := id
  lz4Decompress := fun raw _ => .ok raw
  zstdEncode := .ok
  zstdDecode := .ok

/-- An empty section and a section of three bytes, both without a codec. -/
def twoSections : MinimalCoveWriter :=
  { MinimalCoveWriter.new with sections := [
      ⟨10, 2, 0, 0, 0, 0, 0, 0, 0, []⟩,
      ⟨12, 2, 0, 1, 3, 0, 0, 0, 0, [1, 2, 3]⟩] }

theorem twoSections_read_back : ∃ file postscript footer,
    twoSections.write plainCodecs (fun bytes => UInt32.ofNat (Crc32c.crc32c bytes))
      (fun _ => false) = .ok file ∧
    CovePostscriptV1.parseFromTail
      (fun bytes => (UInt32.ofNat (Crc32c.crc32c bytes)).toNat) file = .ok postscript ∧
    CoveFooter.parse (fun _ => false)
      (fieldBytes file postscript.footer.offset postscript.footer.length) = .ok footer ∧
    List.Forall₂ (ReadsBack plainCodecs (fun bytes => UInt32.ofNat (Crc32c.crc32c bytes)) file)
      twoSections.sections footer.sections := by
  have hwritten : (twoSections.write plainCodecs
      (fun bytes => UInt32.ofNat (Crc32c.crc32c bytes)) fun _ => false).toOption.isSome = true := by
    decide +kernel
  obtain ⟨file, hfile⟩ := Option.isSome_iff_exists.mp hwritten
  have hlossless : plainCodecs.Lossless := ⟨fun _ => rfl, fun _ _ h => congrArg _ (Except.ok.inj h).symm⟩
  obtain ⟨_, postscript, footer, -, -, hpostscript, -, -, -, -, hfooter, -, hreads, -⟩ :=
    written_file_reads_back plainCodecs hlossless
      (fun bytes => UInt32.ofNat (Crc32c.crc32c bytes)) (fun _ => false) twoSections file
      (toOption_eq_some.mp hfile)
  exact ⟨file, postscript, footer, toOption_eq_some.mp hfile, hpostscript, hfooter, hreads⟩

end Cove
