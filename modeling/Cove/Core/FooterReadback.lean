import Cove.Core.Footer

/-!
# Reading back headers, footers and postscripts

- `CoveSectionEntryV1.parse_serialize`, `CoveFooter.parse_footerBytes`: the footer.
- `CovePostscriptV1.parsePayload_serialize`, `parseFromTail_append`: the postscript.
- `CoveHeaderV1.parse_serialize`: the header.
-/

namespace Cove

open Checked

theorem fieldU64_encode {fields : List (Nat × Nat)} (hfits : FieldRecord.Fits fields)
    {offset : Nat} {bits : UInt64} (h : FieldRecord.fieldAt fields offset 8 = some bits.toNat)
    (rest : List UInt8) : fieldU64 (FieldRecord.encode fields ++ rest) offset = bits := by
  rw [fieldU64, fieldNat_encode hfits h, UInt64.ofNat_toNat]

/-! ## The footer -/

theorem CoveSectionEntryV1.length_serialize (self : CoveSectionEntryV1) :
    self.serialize.length = sectionEntrySize := by
  rw [CoveSectionEntryV1.serialize, FieldRecord.length_encode]
  simp only [CoveSectionEntryV1.fields, FieldRecord.width, sectionEntrySize]

variable {self : CoveSectionEntryV1}

/-- An entry whose numbers fit their fields is read back. -/
theorem CoveSectionEntryV1.ofFields_serialize
    (hfits : FieldRecord.Fits self.fields) (rest : List UInt8) :
    CoveSectionEntryV1.ofFields (self.serialize ++ rest) = self := by
  have h : ∀ offset w {value : Nat}, FieldRecord.fieldAt self.fields offset w = some value →
      fieldNat (self.serialize ++ rest) offset w = value := fun _ _ _ hat => fieldNat_encode hfits hat rest
  have h64 : ∀ offset {bits : UInt64},
      FieldRecord.fieldAt self.fields offset 8 = some bits.toNat →
      fieldU64 (self.serialize ++ rest) offset = bits := fun _ _ hat => fieldU64_encode hfits hat rest
  exact CoveSectionEntryV1.ext (h _ _ rfl) (h _ _ rfl) (h _ _ rfl) (h _ _ rfl) (h _ _ rfl) (h _ _ rfl) (h _ _ rfl) (h _ _ rfl)
    (h _ _ rfl) (h _ _ rfl) (h _ _ rfl) (h _ _ rfl) (h _ _ rfl) (h64 _ rfl) (h64 _ rfl) (h _ _ rfl) (h _ _ rfl)

/-- An entry that passes its checks is read back. -/
theorem CoveSectionEntryV1.parse_serialize
    (hfits : FieldRecord.Fits self.fields) (hcheck : self.check = .ok ()) (rest : List UInt8) :
    CoveSectionEntryV1.parse (self.serialize ++ rest) = .ok self := by
  unfold CoveSectionEntryV1.parse
  rw [if_neg, CoveSectionEntryV1.ofFields_serialize hfits rest, hcheck]
  · rfl
  · rw [List.length_append, CoveSectionEntryV1.length_serialize]
    exact Nat.not_lt_of_le (Nat.le_add_right _ _)

/-- The footer header of the writer. -/
structure CoveFooterHeaderV1.Current (header : CoveFooterHeaderV1) : Prop where
  magic : header.footerMagic = magicCoveFooter
  version : header.footerVersion = 2
  headerLen : header.headerLen = footerHeaderSize
  entryLen : header.sectionEntryLen = sectionEntrySize
  sectionCount : header.sectionCount < 2 ^ 32
  flags : header.flags < 2 ^ 16
  metadataLen : header.metadataLen ≤ metadataLenMax

theorem CoveFooterHeaderV1.length_serialize (self : CoveFooterHeaderV1) :
    self.serialize.length = footerHeaderSize := by
  rw [CoveFooterHeaderV1.serialize, FieldRecord.length_encode]
  simp only [CoveFooterHeaderV1.fields, FieldRecord.width, footerHeaderSize]

theorem CoveFooterHeaderV1.parse_serialize {self : CoveFooterHeaderV1} (hcurrent : self.Current)
    (rest : List UInt8) : CoveFooterHeaderV1.parse (self.serialize ++ rest) = .ok self := by
  obtain ⟨hmagic, hversion, hheader, hentry, hcount, hflags, hmetadata⟩ := hcurrent
  have hfits : FieldRecord.Fits self.fields := by
    have hlt := LittleEndian.ofLe_lt magicCoveFooter
    unfold metadataLenMax at hmetadata
    simp only [FieldRecord.Fits, CoveFooterHeaderV1.fields, List.forall_mem_cons, List.not_mem_nil,
      false_implies, implies_true, and_true, hmagic, hversion, hheader, hentry, footerHeaderSize,
      sectionEntrySize]
    exact ⟨hlt, by decide, by decide, by omega, by decide, by omega, by omega, by decide⟩
  have h : ∀ offset w {value : Nat}, FieldRecord.fieldAt self.fields offset w = some value →
      fieldNat (self.serialize ++ rest) offset w = value := fun _ _ _ hat => fieldNat_encode hfits hat rest
  have hat : FieldRecord.fieldAt self.fields 0 4 = some (LittleEndian.ofLe self.footerMagic) := rfl
  rw [hmagic] at hat
  have hmagicBytes : fieldBytes (self.serialize ++ rest) 0 4 = magicCoveFooter :=
    fieldBytes_encode (by decide : magicCoveFooter.length = 4) hat rest
  have hreserved : (fieldBytes (self.serialize ++ rest) 20 24).any (· != 0) = false :=
    reserved_encode rfl rest
  have hlength : ¬(self.serialize ++ rest).length < footerHeaderSize := by
    rw [List.length_append, self.length_serialize]
    omega
  unfold CoveFooterHeaderV1.parse
  rw [if_neg hlength, hmagicBytes, if_neg (not_not_intro rfl), h 4 2 rfl, if_neg (not_not_intro hversion), h 6 2 rfl,
    if_neg (not_not_intro hheader), h 12 2 rfl,
    if_neg (not_not_intro hentry), h 16 4 rfl,
    if_neg (Nat.not_lt_of_le hmetadata), hreserved, if_neg Bool.false_ne_true]
  exact congrArg _ (CoveFooterHeaderV1.ext hmagic.symm rfl rfl (h _ _ rfl) rfl (h _ _ rfl) rfl)

variable {validJson : List UInt8 → Bool}

variable {bytes : List UInt8}

theorem metadataParse_eq_ok
    (h : metadataValidate validJson bytes = .ok ()) : metadataParse validJson bytes = .ok () := by
  unfold metadataParse
  rw [h, ok_bind]
  unfold metadataValidate at h
  obtain ⟨-, h⟩ := ite_error_eq_ok.mp h
  obtain ⟨-, h⟩ := ite_error_eq_ok.mp h
  exact h

theorem length_le_of_metadataValidate
    (h : metadataValidate validJson bytes = .ok ()) : bytes.length ≤ metadataLenMax :=
  Nat.not_lt.mp (ite_error_eq_ok.mp h).1

/-- **A footer is read back**: its header, its entries in their order, and the metadata. -/
theorem CoveFooter.parse_footerBytes {self : CoveFooter}
    (hheader : self.header.Current) (hcount : self.header.sectionCount = self.sections.length)
    (hfits : ∀ entry ∈ self.sections, FieldRecord.Fits entry.fields)
    (hcheck : ∀ entry ∈ self.sections, entry.check = .ok ())
    (hlen : self.header.metadataLen = self.metadataJson.length)
    (hmetadata : metadataValidate validJson self.metadataJson = .ok ()) :
    CoveFooter.parse validJson (self.header.serialize ++
      self.sections.flatMap CoveSectionEntryV1.serialize ++ self.metadataJson) = .ok self := by
  obtain ⟨header, sections, metadataJson⟩ := self
  dsimp only at *
  have hstride : ∀ entry ∈ sections, entry.serialize.length = sectionEntrySize :=
    fun entry _ => entry.length_serialize
  have hentries := Strides.length_flatMap hstride
  have hsize := header.length_serialize
  have hmetadataLen := length_le_of_metadataValidate hmetadata
  have hsectionCount := hheader.sectionCount
  rw [List.append_assoc]
  unfold CoveFooter.parse
  rw [CoveFooterHeaderV1.parse_serialize hheader, ok_bind]
  -- the lengths are small: no sum overflows, and nothing is missing
  have htotal : header.totalLen = .ok
      (footerHeaderSize + sections.length * sectionEntrySize + metadataJson.length) := by
    unfold metadataLenMax at hmetadataLen
    unfold CoveFooterHeaderV1.totalLen checkedMul checkedAdd
    simp only [hcount, hlen, bind_eq_ok, mulU64_eq_ok, addU64_eq_ok]
    have hentry : sections.length * sectionEntrySize < 2 ^ 40 := by
      unfold sectionEntrySize
      omega
    have hheaderLen : footerHeaderSize < 2 ^ 40 := by decide
    exact ⟨_, ⟨by omega, rfl⟩, _, ⟨by omega, rfl⟩, by omega, rfl⟩
  rw [htotal, ok_bind, if_neg]
  · have hsections : (List.range header.sectionCount).mapM (fun i =>
        CoveSectionEntryV1.parse ((header.serialize ++
          (sections.flatMap CoveSectionEntryV1.serialize ++ metadataJson)).drop
            (footerHeaderSize + i * sectionEntrySize))) = .ok sections := by
      rw [hcount]
      refine Strides.mapM_range_eq_ok fun i hi => ?_
      obtain ⟨after, hafter⟩ := Strides.drop_flatMap hstride metadataJson hi
      rw [← List.drop_drop, List.drop_left' hsize, hafter]
      exact CoveSectionEntryV1.parse_serialize (hfits _ (List.getElem_mem hi))
        (hcheck _ (List.getElem_mem hi)) after
    have hjson : fieldBytes (header.serialize ++
        (sections.flatMap CoveSectionEntryV1.serialize ++ metadataJson))
        (footerHeaderSize + header.sectionCount * sectionEntrySize) header.metadataLen =
        metadataJson := by
      rw [fieldBytes, hcount, ← List.drop_drop, List.drop_left' hsize, List.drop_left' hentries,
        hlen, List.take_length]
    rw [hsections, ok_bind]
    dsimp only
    rw [hjson, metadataParse_eq_ok hmetadata]
    rfl
  · rw [List.length_append, List.length_append, hsize, hentries]
    omega

/-! ## The postscript -/

theorem CoveSectionSpecV1.length_encode (self : CoveSectionSpecV1) :
    (FieldRecord.encode self.fields).length = sectionSpecSize := by
  rw [FieldRecord.length_encode]
  simp only [CoveSectionSpecV1.fields, FieldRecord.width, sectionSpecSize]

theorem CoveSectionSpecV1.parse_encode {self : CoveSectionSpecV1}
    (hfits : FieldRecord.Fits self.fields)
    (hcodec : (CompressionCodec.fromU8 self.compression).isSome = true)
    (hencryption : self.encryption = 0) (hreserved : self.reserved = 0) :
    CoveSectionSpecV1.parse (FieldRecord.encode self.fields) = .ok self := by
  have h : ∀ offset w {value : Nat}, FieldRecord.fieldAt self.fields offset w = some value →
      fieldNat (FieldRecord.encode self.fields) offset w = value := by
    intro offset w value hat
    rw [← List.append_nil (FieldRecord.encode self.fields)]
    exact fieldNat_encode hfits hat []
  have hlength : ¬(FieldRecord.encode self.fields).length < sectionSpecSize := by
    rw [self.length_encode]
    omega
  unfold CoveSectionSpecV1.parse
  rw [if_neg hlength, h 24 1 rfl, if_neg,
    h 25 1 rfl, if_neg (not_not_intro hencryption),
    h 32 4 rfl, if_neg (not_not_intro hreserved)]
  · exact congrArg _ (CoveSectionSpecV1.ext (h _ _ rfl) (h _ _ rfl) (h _ _ rfl) rfl rfl (h _ _ rfl) (h _ _ rfl)
      (h _ _ rfl) rfl)
  · rw [Option.isNone_iff_eq_none, ← Option.not_isSome_iff_eq_none, hcodec]
    exact not_not_intro rfl

section

variable {crc32c : List UInt8 → Nat}

theorem CovePostscriptV1.length_serialize (self : CovePostscriptV1) :
    (self.serialize crc32c).length = postscriptSize := by
  rw [CovePostscriptV1.serialize, FieldRecord.length_encode, width_sealRecord]
  simp only [CovePostscriptV1.fields, CoveSectionSpecV1.fields, List.cons_append, List.nil_append,
    FieldRecord.width, postscriptSize]

/-- **A postscript is read back**, with the checksum that was computed for it. -/
theorem CovePostscriptV1.parsePayload_serialize {self : CovePostscriptV1}
    (hcrc : ∀ bytes, crc32c bytes < 2 ^ 32) (hfits : FieldRecord.Fits self.fields)
    (hfeatures : unknownFeatureBits self.requiredFeatures = 0)
    (hfooter : CoveSectionSpecV1.parse (FieldRecord.encode self.footer.fields) =
      .ok self.footer) :
    ∃ checksum, CovePostscriptV1.parsePayload crc32c (self.serialize crc32c) =
      .ok { self with checksum := checksum } := by
  have hlength : (self.serialize crc32c).length = postscriptSize := self.length_serialize
  have hsealed := fits_sealRecord hcrc hfits
  have h : ∀ offset w {value : Nat},
      FieldRecord.fieldAt (sealRecord crc32c self.fields) offset w = some value →
      fieldNat (self.serialize crc32c) offset w = value := by
    intro offset w value hat
    rw [← List.append_nil (self.serialize crc32c)]
    exact fieldNat_encode hsealed hat []
  have h64 : ∀ offset {bits : UInt64},
      FieldRecord.fieldAt (sealRecord crc32c self.fields) offset 8 = some bits.toNat →
      fieldU64 (self.serialize crc32c) offset = bits := by
    intro offset bits hat
    rw [← List.append_nil (self.serialize crc32c)]
    exact fieldU64_encode hsealed hat []
  -- the descriptor of the footer stands between the lengths and the checksum
  have hspec : fieldBytes (self.serialize crc32c) 24 36 =
      FieldRecord.encode self.footer.fields := by
    unfold CovePostscriptV1.serialize sealRecord CovePostscriptV1.fields fieldBytes
    rw [List.append_assoc, FieldRecord.encode_append, FieldRecord.encode_append,
      List.drop_left' (by rw [FieldRecord.length_encode]; rfl),
      List.take_left' (show _ = 36 from self.footer.length_encode)]
  refine ⟨crc32c (FieldRecord.encode self.fields ++ [0, 0, 0, 0]), ?_⟩
  unfold CovePostscriptV1.parsePayload
  rw [if_neg (by rw [hlength]; exact Nat.lt_irrefl _)]
  dsimp only
  rw [List.take_of_length_le (Nat.le_of_eq hlength),
    show checksumHolds crc32c (self.serialize crc32c) postscriptSize = true from
      checksumHolds_sealRecord hcrc rfl,
    if_neg (by decide), h64 0 rfl,
    if_neg (not_not_intro hfeatures), hspec, hfooter, ok_bind]
  refine congrArg Except.ok ?_
  exact CovePostscriptV1.ext rfl (h64 _ rfl) (h _ _ rfl) rfl (h _ _ rfl)

/-- **The postscript is found at the end of the file.** -/
theorem CovePostscriptV1.parseFromTail_append {self : CovePostscriptV1} (front : List UInt8) :
    CovePostscriptV1.parseFromTail crc32c (front ++ self.serializeTail crc32c) =
      CovePostscriptV1.parsePayload crc32c (self.serialize crc32c) := by
  have hlength : (self.serialize crc32c).length = postscriptSize := self.length_serialize
  have htag : ∀ rest : List UInt8, rest = FieldRecord.encode
      [(2, 2), (2, postscriptSize), (4, LittleEndian.ofLe magicCove)] → rest.length = 8 :=
    fun rest h => h ▸ rfl
  generalize hrest : FieldRecord.encode
    [(2, 2), (2, postscriptSize), (4, LittleEndian.ofLe magicCove)] = rest
  have hrestLen := htag rest hrest.symm
  have hfile : front ++ self.serializeTail crc32c =
      (front ++ self.serialize crc32c) ++ rest := by
    rw [CovePostscriptV1.serializeTail, hrest, List.append_assoc]
  have hfileLen : ((front ++ self.serialize crc32c) ++ rest).length =
      front.length + postscriptSize + postscriptTailSize := by
    rw [List.length_append, List.length_append, hlength, hrestLen]
    rfl
  have hstart : front.length + postscriptSize + postscriptTailSize - postscriptTailSize =
      (front ++ self.serialize crc32c).length := by
    rw [List.length_append, hlength]
    omega
  have hat : ∀ offset w, fieldBytes ((front ++ self.serialize crc32c) ++ rest)
      ((front ++ self.serialize crc32c).length + offset) w = fieldBytes rest offset w := by
    intro offset w
    rw [fieldBytes, ← List.drop_drop, List.drop_left]
    rfl
  have hversion : fieldNat rest 0 2 = 2 := by
    rw [← hrest]
    decide
  have hpsLen : fieldNat rest 2 2 = postscriptSize := by
    rw [← hrest]
    decide
  have hmagic : fieldBytes rest 4 4 = magicCove := by
    rw [← hrest]
    decide
  have hpayload : fieldBytes ((front ++ self.serialize crc32c) ++ rest)
      ((front ++ self.serialize crc32c).length - postscriptSize) postscriptSize =
      self.serialize crc32c := by
    rw [List.length_append, hlength, Nat.add_sub_cancel, fieldBytes, List.append_assoc,
      List.drop_left, List.take_left' hlength]
  rw [hfile]
  unfold CovePostscriptV1.parseFromTail
  dsimp only
  rw [hfileLen, hstart, if_neg (by omega), hat 4 4, hmagic, if_neg (not_not_intro rfl),
    show fieldNat ((front ++ self.serialize crc32c) ++ rest)
      (front ++ self.serialize crc32c).length 2 = fieldNat rest 0 2 from
      congrArg LittleEndian.ofLe (hat 0 2), hversion, if_neg (not_not_intro rfl),
    show fieldNat ((front ++ self.serialize crc32c) ++ rest)
      ((front ++ self.serialize crc32c).length + 2) 2 = fieldNat rest 2 2 from
      congrArg LittleEndian.ofLe (hat 2 2), hpsLen, if_neg (not_not_intro rfl), if_neg, hpayload]
  rw [List.length_append, hlength]
  omega

/-! ## The header -/

/-- The header of the writer. -/
structure CoveHeaderV1.Current (header : CoveHeaderV1) : Prop where
  magic : header.magic = magicCove
  headerLen : header.headerLen = headerSize
  version : header.versionMajor = 2
  endianness : header.endianness = 1
  profile : (PrimaryProfile.fromU8 header.primaryProfile).isNone = false
  scopeKind : (ProducerScopeKind.fromU16 header.producerScopeKind).isNone = false
  scopeFlags : header.reservedScopeFlags = 0
  features : unknownFeatureBits header.requiredFeatures = 0
  createdAt : -2 ^ 63 ≤ header.createdAtUs ∧ header.createdAtUs < 2 ^ 63

theorem CoveHeaderV1.width_fields (self : CoveHeaderV1) : FieldRecord.width self.fields = 156 := by
  simp only [CoveHeaderV1.fields, FieldRecord.width]

theorem CoveHeaderV1.length_serialize (self : CoveHeaderV1) :
    (self.serialize crc32c).length = headerSize := by
  rw [CoveHeaderV1.serialize, FieldRecord.length_encode, width_sealRecord, self.width_fields]
  rfl

/-- **A header is read back**, with the checksum that was computed for it. -/
theorem CoveHeaderV1.parse_serialize {self : CoveHeaderV1}
    (hcrc : ∀ bytes, crc32c bytes < 2 ^ 32) (hfits : FieldRecord.Fits self.fields)
    (hcurrent : self.Current) (rest : List UInt8) :
    ∃ checksum, CoveHeaderV1.parse crc32c (self.serialize crc32c ++ rest) =
      .ok { self with checksum := checksum } := by
  obtain ⟨hmagic, hheaderLen, hversion, hendian, hprofile, hscope, hflags, hfeatures, hcreated⟩ :=
    hcurrent
  have hlength : (self.serialize crc32c).length = headerSize := self.length_serialize
  have hsealed := fits_sealRecord hcrc hfits
  have h : ∀ offset w {value : Nat},
      FieldRecord.fieldAt (sealRecord crc32c self.fields) offset w = some value →
      fieldNat (self.serialize crc32c) offset w = value := by
    intro offset w value hat
    rw [← List.append_nil (self.serialize crc32c)]
    exact fieldNat_encode hsealed hat []
  have h64 : ∀ offset {bits : UInt64},
      FieldRecord.fieldAt (sealRecord crc32c self.fields) offset 8 = some bits.toNat →
      fieldU64 (self.serialize crc32c) offset = bits := by
    intro offset bits hat
    rw [← List.append_nil (self.serialize crc32c)]
    exact fieldU64_encode hsealed hat []
  have hat : FieldRecord.fieldAt (sealRecord crc32c self.fields) 0 4 =
      some (LittleEndian.ofLe self.magic) := rfl
  rw [hmagic] at hat
  have hmagicBytes : fieldBytes (self.serialize crc32c) 0 4 = magicCove := by
    rw [← List.append_nil (self.serialize crc32c)]
    exact fieldBytes_encode (by decide : magicCove.length = 4) hat []
  have hreserved : (fieldBytes (self.serialize crc32c) 92 64).any (· != 0) = false := by
    rw [← List.append_nil (self.serialize crc32c)]
    exact reserved_encode rfl []
  have hcreatedAt : LittleEndian.signed 8 (fieldNat (self.serialize crc32c) 68 8) =
      self.createdAtUs := by
    rw [h 68 8 rfl]
    exact LittleEndian.signed_unsigned (by decide) hcreated.1 hcreated.2
  have hsum : checksumHolds crc32c (self.serialize crc32c) headerSize = true := by
    refine checksumHolds_sealRecord hcrc ?_
    rw [self.width_fields]
    rfl
  have hchecksum : FieldRecord.fieldAt (sealRecord crc32c self.fields) 156 4 =
      some (crc32c (FieldRecord.encode self.fields ++ [0, 0, 0, 0])) := rfl
  have hfeaturesField : fieldU64 (self.serialize crc32c) 16 = self.requiredFeatures := h64 16 rfl
  refine ⟨crc32c (FieldRecord.encode self.fields ++ [0, 0, 0, 0]), ?_⟩
  unfold CoveHeaderV1.parse
  refine ite_error_eq_ok.mpr ⟨by rw [List.length_append, hlength]; omega, ?_⟩
  dsimp only
  rw [List.take_left' hlength]
  refine ite_error_eq_ok.mpr ⟨by rw [hsum]; decide, ?_⟩
  refine ite_error_eq_ok.mpr ⟨not_not_intro hmagicBytes, ?_⟩
  refine ite_error_eq_ok.mpr ⟨not_not_intro ((h 4 2 rfl).trans hheaderLen), ?_⟩
  refine ite_error_eq_ok.mpr ⟨not_not_intro ((h 6 2 rfl).trans hversion), ?_⟩
  refine ite_error_eq_ok.mpr ⟨by rw [h 10 1 rfl, hprofile]; decide, ?_⟩
  refine ite_error_eq_ok.mpr ⟨not_not_intro ((h 11 1 rfl).trans hendian), ?_⟩
  refine ite_error_eq_ok.mpr ⟨not_not_intro (by rw [hfeaturesField, hfeatures]), ?_⟩
  refine ite_error_eq_ok.mpr ⟨by rw [h 64 2 rfl, hscope]; decide, ?_⟩
  refine ite_error_eq_ok.mpr ⟨not_not_intro ((h 66 2 rfl).trans hflags), ?_⟩
  refine ite_error_eq_ok.mpr ⟨by rw [hreserved]; decide, ?_⟩
  refine congrArg Except.ok ?_
  refine CoveHeaderV1.ext ?_ ?_ ?_ ?_ ?_ ?_ ?_ ?_ ?_ ?_ ?_ ?_ ?_ ?_ ?_ ?_ ?_ ?_ ?_
  · exact hmagicBytes.trans hmagic.symm
  · exact h 4 2 rfl
  · exact h 6 2 rfl
  · exact h 8 2 rfl
  · exact h 10 1 rfl
  · exact h 11 1 rfl
  · exact h 12 4 rfl
  · exact hfeaturesField
  · exact h64 24 rfl
  · exact h 32 16 rfl
  · exact h 48 16 rfl
  · exact h 64 2 rfl
  · exact h 66 2 rfl
  · dsimp only
    exact hcreatedAt
  · exact h 76 4 rfl
  · exact h 80 4 rfl
  · exact h 84 4 rfl
  · exact h 88 4 rfl
  · exact h 156 4 hchecksum

end

end Cove
