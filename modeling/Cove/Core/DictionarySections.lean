import Mathlib.Data.List.Nodup
import Cove.Core.SealedRecord

/-!
# The sections of a dictionary

The dictionary is read in two ways: as a view that parses an entry when it is asked for, and as a
whole.

- `FileDictionaryView`, `OwnedDictionary`: the two readers.
- `decodeValue_eq_view`, `decodeValue_isOk`: **they agree, and every code decodes**.
- `reverseLookupFrom_eq_ok`, `buildReverseLookup_isOk`: the reverse lookup of a mounted file lists
  each payload once.
- `parsed_dictionary_decodes`: **what holds of a parsed dictionary**.
- `twin_letters_parsed`: a dictionary with one value under two codes.
-/

namespace Cove

open Checked

/-! ## Records -/

/-- `StorageClass`, as a number. -/
def StorageClass.code : StorageClass → Nat
  | inline => 0
  | payload => 1
  | redacted => 2

/-- The fields of the header, the last one reserved. -/
def FileDictionaryHeaderV1.fields (self : FileDictionaryHeaderV1) : List (Nat × Nat) :=
  [(4, self.entryCount), (4, self.flags), (2, self.indexEntryLen), (2, self.valueHashAlgorithm),
    (8, self.payloadLength), (24, 0)]

/-- `FileDictionaryHeaderV1::serialize`. -/
def FileDictionaryHeaderV1.serialize (self : FileDictionaryHeaderV1) : List UInt8 :=
  FieldRecord.encode self.fields

/-- The fields of an entry, two of them reserved; the inline bytes are one field. -/
def FileDictionaryIndexEntryV1.fields (self : FileDictionaryIndexEntryV1) : List (Nat × Nat) :=
  [(2, self.valueTag.code), (1, self.storageClass.code), (1, self.flags), (1, self.inlineLen),
    (3, 0), (16, LittleEndian.ofLe self.inlineData), (8, self.payloadOffset),
    (4, self.payloadLength), (8, self.canonicalHash64), (4, 0)]

/-- `FileDictionaryIndexEntryV1::serialize`. -/
def FileDictionaryIndexEntryV1.serialize (self : FileDictionaryIndexEntryV1) : List UInt8 :=
  FieldRecord.encode self.fields

/-! ## The view -/

/-- `FileDictionaryView`. -/
structure FileDictionaryView where
  header : FileDictionaryHeaderV1
  indexSection : List UInt8
  payloadSection : List UInt8

namespace FileDictionaryView

/-- `parse`. -/
def parse (indexSection payloadSection : List UInt8) : Except CoveError FileDictionaryView :=
  if indexSection.length < dictHeaderSize then .error .bufferTooShort
  else do
    let header ← FileDictionaryHeaderV1.parse (indexSection.take dictHeaderSize)
    let entriesBytes ← checkedMul header.entryCount header.indexEntryLen
    let expected ← checkedAdd dictHeaderSize entriesBytes
    if indexSection.length ≠ expected then
      .error (.badSection "dictionary index section length mismatch")
    else if payloadSection.length ≠ header.payloadLength then
      .error (.badSection "dictionary payload section length mismatch")
    else .ok ⟨header, indexSection, payloadSection⟩

variable (self : FileDictionaryView)

/-- `get_entry`. -/
def getEntry (fileCode : Nat) : Except CoveError FileDictionaryIndexEntryV1 :=
  if fileCode ≥ self.header.entryCount then .error .badFileCode
  else do
    let start ← checkedMul fileCode dictIndexEntrySize
    let offset ← checkedAdd dictHeaderSize start
    FileDictionaryIndexEntryV1.parse (fieldBytes self.indexSection offset dictIndexEntrySize)

/-- `validate_all`. -/
def validateAll (validJson : List UInt8 → Bool) : Except CoveError Unit :=
  (List.range self.header.entryCount).forM fun fileCode => do
    let entry ← self.getEntry fileCode
    validateDictionaryEntry validJson entry self.payloadSection self.header.payloadLength

/-- `decode_value`. -/
def decodeValue (fileCode : Nat) : Except CoveError DictionaryValue := do
  let entry ← self.getEntry fileCode
  decodeDictionaryEntry entry self.payloadSection

end FileDictionaryView

/-! ## The whole dictionary -/

/-- The source's `FileDictionary`, with its index entries as they stand in the section. -/
structure OwnedDictionary where
  header : FileDictionaryHeaderV1
  entries : List FileDictionaryIndexEntryV1
  payload : List UInt8
  deriving DecidableEq, Repr

namespace OwnedDictionary

/-- `FileDictionary::parse`. -/
def parse (validJson : List UInt8 → Bool) (indexSection payloadSection : List UInt8) :
    Except CoveError OwnedDictionary := do
  let view ← FileDictionaryView.parse indexSection payloadSection
  view.validateAll validJson
  let entries ← (List.range view.header.entryCount).mapM view.getEntry
  .ok ⟨view.header, entries, payloadSection⟩

variable (self : OwnedDictionary)

/-- `len`. -/
def len : Nat := self.header.entryCount

/-- `get_entry`. -/
def getEntry (fileCode : Nat) : Except CoveError FileDictionaryIndexEntryV1 :=
  match self.entries[fileCode]? with
  | some entry => .ok entry
  | none => .error .badFileCode

/-- `decode_value`. -/
def decodeValue (fileCode : Nat) : Except CoveError DictionaryValue := do
  let entry ← self.getEntry fileCode
  decodeDictionaryEntry entry self.payload

end OwnedDictionary

/-! ## The reverse lookup -/

/-- The payload of an entry that is not redacted. -/
def DictionaryEntry.payload? (entry : DictionaryEntry) : Option (List UInt8) :=
  match entry.value with
  | .rawBytes bytes => some bytes
  | .redactedPresent => none

variable {fileCode : Nat}

variable {entries : List DictionaryEntry} {lookup : ReverseLookup} {view : FileDictionaryView}

/-- What the reverse lookup lists from a file code on. -/
theorem reverseLookupFrom_eq_ok {out : ReverseLookup}
    (h : reverseLookupFrom lookup fileCode entries = .ok out)
    (hnodup : (lookup.byCanonicalValue.map Prod.fst).Nodup) :
    (out.byCanonicalValue.map Prod.fst).Nodup ∧ ∀ payload code,
      (payload, code) ∈ out.byCanonicalValue ↔ (payload, code) ∈ lookup.byCanonicalValue ∨
        ∃ i entry, entries[i]? = some entry ∧ entry.payload? = some payload ∧
          code = fileCode + i := by
  induction entries generalizing lookup fileCode with
  | nil =>
    obtain rfl := Except.ok.inj h
    exact ⟨hnodup, by simp⟩
  | cons entry entries ih =>
    -- the first entry is the one at the file code, the others follow it
    have hsplit : ∀ payload code,
        (∃ i e, (entry :: entries)[i]? = some e ∧ e.payload? = some payload ∧
            code = fileCode + i) ↔
          (entry.payload? = some payload ∧ code = fileCode) ∨
            ∃ i e, entries[i]? = some e ∧ e.payload? = some payload ∧
              code = fileCode + 1 + i := by
      intro payload code
      constructor
      · rintro ⟨_ | i, e, he, hpayload, rfl⟩
        · obtain rfl := Option.some.inj he
          exact .inl ⟨hpayload, rfl⟩
        · exact .inr ⟨i, e, he, hpayload, by omega⟩
      · rintro (⟨hpayload, rfl⟩ | ⟨i, e, he, hpayload, rfl⟩)
        · exact ⟨0, entry, rfl, hpayload, rfl⟩
        · exact ⟨i + 1, e, he, hpayload, by omega⟩
    unfold reverseLookupFrom at h
    cases hvalue : entry.value with
    | redactedPresent =>
      simp only [hvalue] at h
      obtain ⟨hkeys, hlists⟩ := ih h hnodup
      have hnone : entry.payload? = none := by simp [DictionaryEntry.payload?, hvalue]
      refine ⟨hkeys, fun payload code => ?_⟩
      rw [hlists, hsplit, hnone]
      simp
    | rawBytes bytes =>
      simp only [hvalue] at h
      split at h
      · cases h
      next hnew =>
      obtain ⟨hkeys, hlists⟩ := ih h (List.nodup_cons.mpr ⟨hnew, hnodup⟩)
      have hsome : entry.payload? = some bytes := by simp [DictionaryEntry.payload?, hvalue]
      refine ⟨hkeys, fun payload code => ?_⟩
      rw [hlists, hsplit, hsome, List.mem_cons, Prod.mk.injEq, Option.some_inj]
      tauto

/-- The reverse lookup is built exactly when no payload comes a second time. -/
theorem reverseLookupFrom_isOk :
    (∃ out, reverseLookupFrom lookup fileCode entries = .ok out) ↔
      (entries.filterMap DictionaryEntry.payload?).Nodup ∧
        ∀ payload ∈ entries.filterMap DictionaryEntry.payload?,
          payload ∉ lookup.byCanonicalValue.map Prod.fst := by
  induction entries generalizing lookup fileCode with
  | nil => exact iff_of_true ⟨_, rfl⟩ ⟨List.nodup_nil, by simp⟩
  | cons entry entries ih =>
    unfold reverseLookupFrom
    cases hvalue : entry.value with
    | redactedPresent =>
      have hnone : entry.payload? = none := by simp [DictionaryEntry.payload?, hvalue]
      rw [List.filterMap_cons_none hnone]
      exact ih
    | rawBytes bytes =>
      have hsome : entry.payload? = some bytes := by simp [DictionaryEntry.payload?, hvalue]
      rw [List.filterMap_cons_some hsome, List.nodup_cons, List.forall_mem_cons]
      dsimp only
      by_cases hnew : bytes ∈ lookup.byCanonicalValue.map Prod.fst
      · rw [if_pos hnew]
        exact iff_of_false (by rintro ⟨_, h⟩; cases h) fun h => h.2.1 hnew
      · rw [if_neg hnew, ih]
        simp only [List.map_cons, List.mem_cons, not_or]
        constructor
        · rintro ⟨hrest, hout⟩
          exact ⟨⟨fun h => (hout _ h).1 rfl, hrest⟩, hnew, fun p hp => (hout p hp).2⟩
        · rintro ⟨⟨hhead, hrest⟩, -, hout⟩
          exact ⟨hrest, fun p hp => ⟨fun h => hhead (h ▸ hp), hout p hp⟩⟩

theorem buildReverseLookup_isOk {dictionary : FileDictionary} :
    (∃ lookup, buildReverseLookup dictionary = .ok lookup) ↔
      (dictionary.entries.filterMap DictionaryEntry.payload?).Nodup :=
  reverseLookupFrom_isOk.trans (and_iff_left (by simp))

theorem decodeValue_eq_rawBytes {dictionary : FileDictionary} {code : Nat} {bytes : List UInt8} :
    dictionary.decodeValue code = .ok (.rawBytes bytes) ↔
      ∃ entry, dictionary.entries[code]? = some entry ∧ entry.payload? = some bytes := by
  unfold FileDictionary.decodeValue FileDictionary.getEntry
  cases dictionary.entries[code]? with
  | none => exact iff_of_false nofun nofun
  | some entry =>
    have hvalue : entry.value = .rawBytes bytes ↔ entry.payload? = some bytes := by
      unfold DictionaryEntry.payload?
      cases entry.value <;> simp
    simp only [Option.some.injEq, exists_eq_left']
    rw [← hvalue]
    exact ⟨Except.ok.inj, congrArg _⟩

/-- **The reverse lookup is built exactly when every payload stands under one code.** -/
theorem buildReverseLookup_isOk_iff_injective {dictionary : FileDictionary} :
    (∃ lookup, buildReverseLookup dictionary = .ok lookup) ↔
      ∀ i j bytes, dictionary.decodeValue i = .ok (.rawBytes bytes) →
        dictionary.decodeValue j = .ok (.rawBytes bytes) → i = j := by
  rw [buildReverseLookup_isOk, List.Nodup, List.pairwise_filterMap, List.pairwise_iff_getElem]
  simp only [decodeValue_eq_rawBytes]
  constructor
  · rintro h i j bytes ⟨a, ha, hia⟩ ⟨b, hb, hjb⟩
    obtain ⟨hi, rfl⟩ := List.getElem?_eq_some_iff.mp ha
    obtain ⟨hj, rfl⟩ := List.getElem?_eq_some_iff.mp hb
    -- of two codes one is the smaller
    rcases Nat.lt_trichotomy i j with hlt | heq | hlt
    · exact absurd rfl (h i j hi hj hlt bytes hia bytes hjb)
    · exact heq
    · exact absurd rfl (h j i hj hi hlt bytes hjb bytes hia)
  · intro h i j hi hj hlt bytes hbytes bytes' hbytes' heq
    subst heq
    have := h i j bytes ⟨_, List.getElem?_eq_getElem hi, hbytes⟩
      ⟨_, List.getElem?_eq_getElem hj, hbytes'⟩
    omega

/-! ## Parsed dictionaries -/

variable {entry : FileDictionaryIndexEntryV1}

section

variable {validJson : List UInt8 → Bool} {indexSection payloadSection : List UInt8}
  {dictionary : OwnedDictionary}

/-- An entry that was validated decodes. -/
theorem decode_of_validateDictionaryEntry {total : Nat}
    (h : validateDictionaryEntry validJson entry payloadSection total = .ok ()) :
    ∃ value, decodeDictionaryEntry entry payloadSection = .ok value := by
  unfold validateDictionaryEntry at h
  obtain ⟨_, -, h⟩ := bind_eq_ok.mp h
  unfold decodeDictionaryEntry
  cases hstorage : entry.storageClass with
  | inline => exact ⟨_, rfl⟩
  | redacted => exact ⟨_, rfl⟩
  | payload =>
    rw [hstorage] at h
    obtain ⟨-, h⟩ := ite_error_eq_ok.mp h
    obtain ⟨bytes, hread, -⟩ := bind_eq_ok.mp h
    exact ⟨.rawBytes bytes, by rw [hread]; rfl⟩

theorem FileDictionaryView.of_parse
    (h : FileDictionaryView.parse indexSection payloadSection = .ok view) :
    view.indexSection = indexSection ∧ view.payloadSection = payloadSection := by
  obtain ⟨-, h⟩ := ite_error_eq_ok.mp h
  obtain ⟨header, -, h⟩ := bind_eq_ok.mp h
  obtain ⟨entriesBytes, -, h⟩ := bind_eq_ok.mp h
  obtain ⟨expected, -, h⟩ := bind_eq_ok.mp h
  obtain ⟨-, h⟩ := ite_error_eq_ok.mp h
  obtain ⟨-, h⟩ := ite_error_eq_ok.mp h
  obtain rfl := Except.ok.inj h
  exact ⟨rfl, rfl⟩

/-- The bytes an entry was read from. -/
theorem FileDictionaryView.of_getEntry (h : view.getEntry fileCode = .ok entry) :
    FileDictionaryIndexEntryV1.parse
      (fieldBytes view.indexSection (dictHeaderSize + fileCode * dictIndexEntrySize)
        dictIndexEntrySize) = .ok entry := by
  obtain ⟨-, h⟩ := ite_error_eq_ok.mp h
  obtain ⟨start, hstart, h⟩ := bind_eq_ok.mp h
  obtain ⟨offset, hoffset, h⟩ := bind_eq_ok.mp h
  obtain ⟨-, rfl⟩ := mulU64_eq_ok.mp hstart
  obtain ⟨-, rfl⟩ := addU64_eq_ok.mp hoffset
  exact h

/-- What parsing has read and checked: the view, and every entry of it. -/
theorem OwnedDictionary.view_of_parse
    (h : OwnedDictionary.parse validJson indexSection payloadSection = .ok dictionary) :
    ∃ view, FileDictionaryView.parse indexSection payloadSection = .ok view ∧
      view.header = dictionary.header ∧ view.payloadSection = dictionary.payload ∧
      dictionary.entries.length = dictionary.len ∧
      ∀ fileCode, ∀ entry : FileDictionaryIndexEntryV1,
        dictionary.entries[fileCode]? = some entry →
          view.getEntry fileCode = .ok entry ∧
            validateDictionaryEntry validJson entry dictionary.payload
              dictionary.header.payloadLength = .ok () := by
  unfold OwnedDictionary.parse at h
  obtain ⟨view, hview, h⟩ := bind_eq_ok.mp h
  obtain ⟨_, hvalid, h⟩ := bind_eq_ok.mp h
  obtain ⟨entries, hentries, h⟩ := bind_eq_ok.mp h
  obtain rfl := Except.ok.inj h
  obtain ⟨hlength, hget⟩ := Strides.getElem?_mapM_range hentries
  obtain ⟨-, hpayload⟩ := FileDictionaryView.of_parse hview
  refine ⟨view, hview, rfl, hpayload, hlength, ?_⟩
  intro fileCode entry hentry
  obtain ⟨hlt, hok⟩ := (hget fileCode entry).mp hentry
  refine ⟨hok, ?_⟩
  obtain ⟨entry', hentry', hcheck⟩ :=
    bind_eq_ok.mp (forM_eq_ok.mp hvalid fileCode (List.mem_range.mpr hlt))
  obtain rfl := Except.ok.inj (hok.symm.trans hentry')
  rwa [hpayload] at hcheck

/-- **The view and the whole dictionary decode alike**, also where no code is. -/
theorem OwnedDictionary.decodeValue_eq_view
    (h : OwnedDictionary.parse validJson indexSection payloadSection = .ok dictionary) :
    ∃ view, FileDictionaryView.parse indexSection payloadSection = .ok view ∧
      ∀ fileCode, view.decodeValue fileCode = dictionary.decodeValue fileCode := by
  obtain ⟨view, hview, hheader, hpayload, hlength, hentries⟩ := view_of_parse h
  refine ⟨view, hview, fun fileCode => ?_⟩
  unfold FileDictionaryView.decodeValue OwnedDictionary.decodeValue OwnedDictionary.getEntry
  rw [hpayload]
  cases hentry : dictionary.entries[fileCode]? with
  | some entry => rw [(hentries fileCode entry hentry).1]
  | none =>
    have hpast : fileCode ≥ view.header.entryCount := by
      have := List.getElem?_eq_none_iff.mp hentry
      rw [hlength] at this
      rw [hheader]
      exact this
    rw [FileDictionaryView.getEntry, if_pos hpast]

/-- **Every code decodes.** -/
theorem OwnedDictionary.decodeValue_isOk
    (h : OwnedDictionary.parse validJson indexSection payloadSection = .ok dictionary)
    (hcode : fileCode < dictionary.len) :
    ∃ entry value, dictionary.entries[fileCode]? = some entry ∧
      decodeDictionaryEntry entry dictionary.payload = .ok value ∧
      dictionary.decodeValue fileCode = .ok value := by
  obtain ⟨view, -, -, -, hlength, hentries⟩ := view_of_parse h
  rw [← hlength] at hcode
  have hentry := List.getElem?_eq_getElem hcode
  obtain ⟨value, hvalue⟩ := decode_of_validateDictionaryEntry (hentries fileCode _ hentry).2
  refine ⟨_, value, hentry, hvalue, ?_⟩
  unfold OwnedDictionary.decodeValue OwnedDictionary.getEntry
  rw [hentry]
  exact hvalue

/-- The dictionary with its values decoded, as the other modules take it. -/
theorem OwnedDictionary.resolve
    (h : OwnedDictionary.parse validJson indexSection payloadSection = .ok dictionary) :
    ∃ resolved, FileDictionary.parse validJson indexSection payloadSection = .ok resolved ∧
      ∀ fileCode, resolved.decodeValue fileCode = dictionary.decodeValue fileCode := by
  obtain ⟨view, hview, hheader, hpayload, hlength, hentries⟩ := view_of_parse h
  obtain ⟨hindex, hsection⟩ := FileDictionaryView.of_parse hview
  -- what the other reader does for a file code
  let read : Nat → Except CoveError DictionaryEntry := fun fileCode => do
    let entry ← FileDictionaryIndexEntryV1.parse
      (fieldBytes indexSection (dictHeaderSize + fileCode * dictIndexEntrySize)
        dictIndexEntrySize)
    validateDictionaryEntry validJson entry payloadSection dictionary.header.payloadLength
    .ok ⟨entry.valueTag, ← decodeDictionaryEntry entry payloadSection⟩
  have hread : ∀ fileCode, fileCode < dictionary.len → ∃ valueTag value,
      dictionary.decodeValue fileCode = .ok value ∧ read fileCode = .ok ⟨valueTag, value⟩ := by
    intro fileCode hcode
    obtain ⟨entry, value, hentry, hdecode, hvalue⟩ := decodeValue_isOk h hcode
    obtain ⟨hget, hvalid⟩ := hentries fileCode entry hentry
    have hbytes := FileDictionaryView.of_getEntry hget
    rw [hindex] at hbytes
    rw [← hpayload, hsection] at hdecode hvalid
    refine ⟨entry.valueTag, value, hvalue, ?_⟩
    show (_ >>= _) = _
    rw [hbytes, ok_bind, hvalid, ok_bind, hdecode, ok_bind]
  obtain ⟨entries, hall⟩ : ∃ entries,
      List.Forall₂ (fun code e => read code = .ok e) (List.range dictionary.len) entries := by
    refine exists_forall₂ fun fileCode hcode => ?_
    obtain ⟨_, _, -, hstep⟩ := hread fileCode (List.mem_range.mp hcode)
    exact ⟨_, hstep⟩
  have hmap := mapM_eq_ok.mpr hall
  refine ⟨⟨entries⟩, ?_, fun fileCode => ?_⟩
  · -- the checks before the entries are those of the view
    unfold FileDictionaryView.parse at hview
    obtain ⟨hlong, hview⟩ := ite_error_eq_ok.mp hview
    obtain ⟨header, hparse, hview⟩ := bind_eq_ok.mp hview
    obtain ⟨entriesBytes, hmul, hview⟩ := bind_eq_ok.mp hview
    obtain ⟨expected, hadd, hview⟩ := bind_eq_ok.mp hview
    obtain ⟨hindexLen, hview⟩ := ite_error_eq_ok.mp hview
    obtain ⟨hpayloadLen, hview⟩ := ite_error_eq_ok.mp hview
    obtain rfl := Except.ok.inj hview
    obtain rfl : header = dictionary.header := hheader
    unfold FileDictionary.parse
    rw [if_neg hlong, hparse, ok_bind, hmul, ok_bind, hadd, ok_bind, if_neg hindexLen,
      if_neg hpayloadLen]
    exact bind_eq_ok.mpr ⟨entries, hmap, rfl⟩
  · obtain ⟨hcount, hget⟩ := Strides.getElem?_mapM_range hmap
    unfold FileDictionary.decodeValue FileDictionary.getEntry
    by_cases hcode : fileCode < dictionary.len
    · obtain ⟨_, value, hvalue, hstep⟩ := hread fileCode hcode
      dsimp only
      rw [(hget fileCode _).mpr ⟨hcode, hstep⟩, hvalue]
      rfl
    · have hnone : entries[fileCode]? = none := List.getElem?_eq_none_iff.mpr (by omega)
      have hpast : dictionary.entries[fileCode]? = none :=
        List.getElem?_eq_none_iff.mpr (by omega)
      unfold OwnedDictionary.decodeValue OwnedDictionary.getEntry
      dsimp only
      rw [hnone, hpast]
      rfl

/-- **What holds of a parsed dictionary.** Every code decodes, the view decodes alike, and the
mount builds its reverse lookup exactly when no two codes have one payload. -/
theorem OwnedDictionary.parsed_dictionary_decodes
    (h : OwnedDictionary.parse validJson indexSection payloadSection = .ok dictionary) :
    (∀ fileCode < dictionary.len, ∃ value, dictionary.decodeValue fileCode = .ok value) ∧
      (∃ view, FileDictionaryView.parse indexSection payloadSection = .ok view ∧
        ∀ fileCode, view.decodeValue fileCode = dictionary.decodeValue fileCode) ∧
      ∃ resolved, FileDictionary.parse validJson indexSection payloadSection = .ok resolved ∧
        (∀ fileCode, resolved.decodeValue fileCode = dictionary.decodeValue fileCode) ∧
        ((∃ lookup, buildReverseLookup resolved = .ok lookup) ↔ ∀ i j bytes,
          dictionary.decodeValue i = .ok (.rawBytes bytes) →
          dictionary.decodeValue j = .ok (.rawBytes bytes) → i = j) := by
  refine ⟨fun fileCode hcode => ?_, decodeValue_eq_view h, ?_⟩
  · obtain ⟨_, value, -, -, hvalue⟩ := decodeValue_isOk h hcode
    exact ⟨value, hvalue⟩
  · obtain ⟨resolved, hparse, hdecode⟩ := resolve h
    refine ⟨resolved, hparse, hdecode, ?_⟩
    simp only [← hdecode]
    exact buildReverseLookup_isOk_iff_injective

end

/-! ## Samples -/

/-- A text of one letter, stored inline. -/
def letterEntry (letter : UInt8) : FileDictionaryIndexEntryV1 where
  valueTag := .utf8
  storageClass := .inline
  flags := 0
  inlineLen := 2
  inlineData := [1, letter] ++ List.replicate 14 0
  payloadOffset := 0
  payloadLength := 0
  canonicalHash64 := 0

/-- A dictionary of two letters. -/
def letterDictionary (first second : UInt8) : OwnedDictionary :=
  ⟨⟨2, 0, dictIndexEntrySize, 0, 0⟩, [letterEntry first, letterEntry second], []⟩

/-- The index section of a dictionary of two letters. -/
def letterIndex (first second : UInt8) : List UInt8 :=
  (letterDictionary first second).header.serialize ++
    ((letterDictionary first second).entries.flatMap FileDictionaryIndexEntryV1.serialize)

theorem parsed_dictionary_decodes_letters :
    OwnedDictionary.parse (fun _ => false) (letterIndex 97 98) [] = .ok (letterDictionary 97 98) ∧
      ((∀ fileCode < 2, ∃ value, (letterDictionary 97 98).decodeValue fileCode = .ok value) ∧
        (∃ view, FileDictionaryView.parse (letterIndex 97 98) [] = .ok view ∧
          ∀ fileCode, view.decodeValue fileCode = (letterDictionary 97 98).decodeValue fileCode) ∧
        ∃ resolved, FileDictionary.parse (fun _ => false) (letterIndex 97 98) [] = .ok resolved ∧
          (∀ fileCode,
            resolved.decodeValue fileCode = (letterDictionary 97 98).decodeValue fileCode) ∧
          ((∃ lookup, buildReverseLookup resolved = .ok lookup) ↔ ∀ i j bytes,
            (letterDictionary 97 98).decodeValue i = .ok (.rawBytes bytes) →
            (letterDictionary 97 98).decodeValue j = .ok (.rawBytes bytes) → i = j)) := by
  have h : OwnedDictionary.parse (fun _ => false) (letterIndex 97 98) [] =
      .ok (letterDictionary 97 98) := by decide +kernel
  exact ⟨h, OwnedDictionary.parsed_dictionary_decodes h⟩

/-- A parsed dictionary may hold one text under two codes. -/
theorem twin_letters_parsed :
    ¬ ∀ (validJson : List UInt8 → Bool) (indexSection payloadSection : List UInt8)
        (dictionary : OwnedDictionary),
      OwnedDictionary.parse validJson indexSection payloadSection = .ok dictionary →
      ∀ (i j : Nat) (a b : FileDictionaryIndexEntryV1), i ≠ j →
        dictionary.getEntry i = .ok a → dictionary.getEntry j = .ok b →
        ¬ (a.valueTag = b.valueTag ∧ dictionary.decodeValue i = dictionary.decodeValue j) := by
  intro hclaim
  have h : OwnedDictionary.parse (fun _ => false) (letterIndex 97 97) [] =
      .ok (letterDictionary 97 97) := by decide +kernel
  exact hclaim _ _ _ _ h 0 1 (letterEntry 97) (letterEntry 97) (by decide) rfl rfl ⟨rfl, rfl⟩

end Cove
