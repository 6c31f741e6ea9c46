import Mathlib.Data.Finset.Card
import Mathlib.Data.Prod.Lex
import Cove.Core.DictionarySections
import Cove.Lib.OrderedMap
import Cove.Lib.SortedList

/-!
# Building a file dictionary

A writer collects the canonical keys of a file and numbers the distinct ones in order.

- `FileDictionaryEncoding.fromKeys`: the numbering, and the dictionary that is built from it.
- `OwnedDictionary.parse_serialize`: **a dictionary is read back from its sections**.
- `buildEntries_stores`: the loop over the keys stores each of them.
- `FileDictionaryEncoding.Encodes`: what the codes of a set of keys are.
- `fromKeys_encodes`: **the codes are those of the set of keys**, however it was listed.
-/

namespace Cove

open Checked

/-! ## Keys -/

/-- `FileDictionaryKey`, its tag decoded. -/
structure FileDictionaryKey where
  valueTag : ValueTag
  canonical : List UInt8
  deriving DecidableEq, Repr

namespace FileDictionaryKey

/-- What keys are compared by. -/
def rank (key : FileDictionaryKey) : Nat ×ₗ List UInt8 :=
  toLex (key.valueTag.code, key.canonical)

theorem rank_injective : Function.Injective rank := by
  rintro ⟨tag, canonical⟩ ⟨tag', canonical'⟩ h
  obtain ⟨hcode, hbytes⟩ := Prod.mk.inj (toLex.injective h)
  obtain rfl : tag = tag' := ValueTag.code_inj hcode
  obtain rfl : canonical = canonical' := hbytes
  rfl

instance : LinearOrder FileDictionaryKey := LinearOrder.lift' rank rank_injective

end FileDictionaryKey

/-- The keys in a `BTreeSet`. -/
def uniqueKeys (keys : List FileDictionaryKey) : List FileDictionaryKey :=
  SortedList.dedup (keys.insertionSort (· ≤ ·))

theorem mem_uniqueKeys {keys : List FileDictionaryKey} {key : FileDictionaryKey} :
    key ∈ uniqueKeys keys ↔ key ∈ keys := by
  rw [uniqueKeys, SortedList.mem_dedup, List.mem_insertionSort]

theorem pairwise_uniqueKeys (keys : List FileDictionaryKey) :
    (uniqueKeys keys).Pairwise (· < ·) :=
  SortedList.pairwise_lt_dedup (List.pairwise_insertionSort _ keys)

/-- The distinct keys depend on which keys there are, not on how they are listed. -/
theorem uniqueKeys_eq_of_mem {keys keys' : List FileDictionaryKey}
    (h : ∀ key, key ∈ keys' ↔ key ∈ keys) : uniqueKeys keys' = uniqueKeys keys := by
  have hsorted := pairwise_uniqueKeys keys
  have hsorted' := pairwise_uniqueKeys keys'
  have hperm : (uniqueKeys keys').Perm (uniqueKeys keys) := by
    rw [List.perm_ext_iff_of_nodup (hsorted'.imp fun h => h.ne) (hsorted.imp fun h => h.ne)]
    intro key
    rw [mem_uniqueKeys, mem_uniqueKeys, h]
  exact hperm.eq_of_pairwise (fun a b _ _ hab hba => absurd (hab.trans hba) (lt_irrefl a))
    hsorted' hsorted

/-! ## The dictionary of an assignment -/

/-- The entry of a key that fits inline. -/
def inlineEntry (key : FileDictionaryKey) : FileDictionaryIndexEntryV1 where
  valueTag := key.valueTag
  storageClass := .inline
  flags := 0
  inlineLen := key.canonical.length
  inlineData := key.canonical ++ List.replicate (16 - key.canonical.length) 0
  payloadOffset := 0
  payloadLength := 0
  canonicalHash64 := 0

/-- The entry of a key that stands in the payload section. -/
def payloadEntry (key : FileDictionaryKey) (offset : Nat) : FileDictionaryIndexEntryV1 where
  valueTag := key.valueTag
  storageClass := .payload
  flags := 0
  inlineLen := 0
  inlineData := List.replicate 16 0
  payloadOffset := offset
  payloadLength := key.canonical.length
  canonicalHash64 := 0

/-- The loop of `build_file_dictionary`: the entries, and the payload section. -/
def buildEntries (expectedCode : Nat) (payload : List UInt8) :
    List (FileDictionaryKey × Nat) →
      Except CoveError (List FileDictionaryIndexEntryV1 × List UInt8)
  | [] => .ok ([], payload)
  | (key, assignedCode) :: assignments =>
    if expectedCode ≥ 2 ^ 32 then .error .arithOverflow
    else if assignedCode ≠ expectedCode then .error .badFileCode
    else if key.canonical.length ≤ 16 then do
      let (entries, out) ← buildEntries (expectedCode + 1) payload assignments
      .ok (inlineEntry key :: entries, out)
    else if payload.length ≥ 2 ^ 64 then .error .arithOverflow
    else if key.canonical.length ≥ 2 ^ 32 then .error .arithOverflow
    else do
      let (entries, out) ←
        buildEntries (expectedCode + 1) (payload ++ key.canonical) assignments
      .ok (payloadEntry key payload.length :: entries, out)

/-- The index section of a dictionary, as `build_file_dictionary` writes it. -/
def OwnedDictionary.serializeIndex (self : OwnedDictionary) : List UInt8 :=
  self.header.serialize ++ self.entries.flatMap FileDictionaryIndexEntryV1.serialize

section

variable (validJson : List UInt8 → Bool)

/-- `build_file_dictionary`. -/
def buildFileDictionary (assignments : OrderedMap FileDictionaryKey Nat) :
    Except CoveError OwnedDictionary :=
  if assignments.entries.length ≥ 2 ^ 32 then
    .error (.badSchema "dictionary entry count exceeds u32::MAX")
  else do
    let (entries, payload) ← buildEntries 0 [] assignments.entries
    let dictionary : OwnedDictionary :=
      ⟨⟨assignments.entries.length, 0, dictIndexEntrySize, 0, payload.length⟩, entries, payload⟩
    let _ ← OwnedDictionary.parse validJson dictionary.serializeIndex dictionary.payload
    .ok dictionary

structure FileDictionaryEncoding where
  dictionary : OwnedDictionary
  assignments : OrderedMap FileDictionaryKey Nat

namespace FileDictionaryEncoding

/-- The distinct keys, numbered in order. -/
def assign (keys : List FileDictionaryKey) : OrderedMap FileDictionaryKey Nat where
  entries := (uniqueKeys keys).zipIdx
  sorted := by
    have h := pairwise_uniqueKeys keys
    rw [← List.zipIdx_map_fst 0 (uniqueKeys keys)] at h
    exact List.pairwise_map.mp h

/-- `from_keys`. -/
def fromKeys (keys : List FileDictionaryKey) : Except CoveError FileDictionaryEncoding :=
  if (uniqueKeys keys).length > 2 ^ 32 then
    .error (.badSchema "dictionary entry count exceeds u32::MAX")
  else do
    let dictionary ← buildFileDictionary validJson (assign keys)
    .ok ⟨dictionary, assign keys⟩

/-- `file_code_for_key`. -/
def fileCodeForKey (self : FileDictionaryEncoding) (key : FileDictionaryKey) :
    Except CoveError Nat :=
  match self.assignments.get? key with
  | some code => .ok code
  | none => .error .badFileCode

end FileDictionaryEncoding

end

/-! ## Reading the sections back -/

/-- An entry whose fields fit. -/
structure FileDictionaryIndexEntryV1.Current (entry : FileDictionaryIndexEntryV1) : Prop where
  flags : entry.flags < 2 ^ 8
  inlineLen : entry.inlineLen ≤ 16
  inlineData : entry.inlineData.length = 16
  payloadOffset : entry.payloadOffset < 2 ^ 64
  payloadLength : entry.payloadLength < 2 ^ 32
  canonicalHash64 : entry.canonicalHash64 < 2 ^ 64

theorem FileDictionaryIndexEntryV1.length_serialize (self : FileDictionaryIndexEntryV1) :
    self.serialize.length = dictIndexEntrySize := by
  rw [serialize, FieldRecord.length_encode]
  simp only [fields, FieldRecord.width, dictIndexEntrySize]

theorem StorageClass.fromU8_code (storageClass : StorageClass) :
    fromU8 storageClass.code = some storageClass := by
  cases storageClass <;> rfl

theorem FileDictionaryIndexEntryV1.parse_serialize {self : FileDictionaryIndexEntryV1}
    (hcurrent : self.Current) : parse self.serialize = .ok self := by
  obtain ⟨hflags, hinline, hdata, hoffset, hlength, hhash⟩ := hcurrent
  have hcode := self.valueTag.code_lt
  have hstorage : self.storageClass.code < 256 := by cases self.storageClass <;> decide
  have hbytes := LittleEndian.ofLe_lt self.inlineData
  rw [hdata] at hbytes
  have hfits : FieldRecord.Fits self.fields := by
    simp only [FieldRecord.Fits, fields, List.forall_mem_cons, List.not_mem_nil, false_implies,
      implies_true, and_true]
    exact ⟨by omega, by omega, by omega, by omega, by decide, hbytes, by omega, by omega,
      by omega, by decide⟩
  -- the section ends with the entry: nothing follows
  have hnil : self.serialize = FieldRecord.encode self.fields ++ [] := (List.append_nil _).symm
  have h : ∀ offset w {value : Nat}, FieldRecord.fieldAt self.fields offset w = some value →
      fieldNat self.serialize offset w = value :=
    fun _ _ _ hat => hnil ▸ fieldNat_encode hfits hat []
  have hreserved : (fieldBytes self.serialize 5 3).any (· != 0) = false :=
    hnil ▸ reserved_encode rfl []
  have hinlineData : fieldBytes self.serialize 8 16 = self.inlineData :=
    hnil ▸ fieldBytes_encode hdata rfl []
  have hlong : ¬ self.serialize.length < dictIndexEntrySize := by
    rw [length_serialize]
    omega
  unfold parse
  rw [if_neg hlong, hreserved, if_neg Bool.false_ne_true, h 44 4 rfl, if_neg (not_not_intro rfl),
    h 0 2 rfl, h 2 1 rfl, ValueTag.fromU16_code, StorageClass.fromU8_code]
  show (if fieldNat self.serialize 4 1 > 16 then _ else _) = _
  rw [h 4 1 rfl, if_neg (Nat.not_lt_of_le hinline), h 3 1 rfl, hinlineData, h 24 8 rfl,
    h 32 4 rfl, h 36 8 rfl]

theorem FileDictionaryHeaderV1.length_serialize (self : FileDictionaryHeaderV1) :
    self.serialize.length = dictHeaderSize := by
  rw [serialize, FieldRecord.length_encode]
  simp only [fields, FieldRecord.width, dictHeaderSize]

/-- A header that is accepted, and fits. -/
structure FileDictionaryHeaderV1.Current (header : FileDictionaryHeaderV1) : Prop where
  entryCount : header.entryCount < 2 ^ 32
  flags : header.flags < 2 ^ 32
  indexEntryLen : header.indexEntryLen = dictIndexEntrySize
  valueHashAlgorithm : header.valueHashAlgorithm ≤ 2
  payloadLength : header.payloadLength < 2 ^ 64

theorem FileDictionaryHeaderV1.parse_serialize {self : FileDictionaryHeaderV1}
    (hcurrent : self.Current) : parse self.serialize = .ok self := by
  obtain ⟨hcount, hflags, hlen, halgorithm, hpayload⟩ := hcurrent
  have hfits : FieldRecord.Fits self.fields := by
    simp only [FieldRecord.Fits, fields, List.forall_mem_cons, List.not_mem_nil, false_implies,
      implies_true, and_true, hlen, dictIndexEntrySize]
    exact ⟨by omega, by omega, by decide, by omega, by omega, by decide⟩
  have hnil : self.serialize = FieldRecord.encode self.fields ++ [] := (List.append_nil _).symm
  have h : ∀ offset w {value : Nat}, FieldRecord.fieldAt self.fields offset w = some value →
      fieldNat self.serialize offset w = value :=
    fun _ _ _ hat => hnil ▸ fieldNat_encode hfits hat []
  have hreserved : (fieldBytes self.serialize 20 24).any (· != 0) = false :=
    hnil ▸ reserved_encode rfl []
  have hlong : ¬ self.serialize.length < dictHeaderSize := by
    rw [length_serialize]
    omega
  unfold parse
  dsimp only
  rw [if_neg hlong, h 8 2 rfl, if_neg (not_not_intro hlen), h 10 2 rfl,
    if_neg (Nat.not_lt_of_le halgorithm), hreserved, if_neg Bool.false_ne_true, h 0 4 rfl,
    h 4 4 rfl, h 12 8 rfl]

/-- A dictionary whose entries are those its sections can hold. -/
structure OwnedDictionary.Current (validJson : List UInt8 → Bool) (dictionary : OwnedDictionary) :
    Prop where
  header : dictionary.header.Current
  entryCount : dictionary.header.entryCount = dictionary.entries.length
  payloadLength : dictionary.header.payloadLength = dictionary.payload.length
  entries : ∀ entry ∈ dictionary.entries, entry.Current ∧
    validateDictionaryEntry validJson entry dictionary.payload dictionary.header.payloadLength =
      .ok ()

/-- **A dictionary is read back from its sections.** -/
theorem OwnedDictionary.parse_serialize {validJson : List UInt8 → Bool} {self : OwnedDictionary}
    (hcurrent : self.Current validJson) :
    OwnedDictionary.parse validJson self.serializeIndex self.payload = .ok self := by
  obtain ⟨hheader, hcount, hpayload, hentries⟩ := hcurrent
  have hblocks : ∀ entry ∈ self.entries, entry.serialize.length = dictIndexEntrySize :=
    fun entry _ => entry.length_serialize
  have hsmall := hheader.entryCount
  have hsize : self.header.serialize.length = dictHeaderSize := self.header.length_serialize
  have hlength : self.serializeIndex.length =
      dictHeaderSize + self.header.entryCount * dictIndexEntrySize := by
    rw [serializeIndex, List.length_append, hsize, Strides.length_flatMap hblocks, hcount]
  have hmul : checkedMul self.header.entryCount self.header.indexEntryLen =
      .ok (self.header.entryCount * dictIndexEntrySize) := by
    rw [hheader.indexEntryLen]
    exact mulU64_eq_ok.mpr ⟨by unfold dictIndexEntrySize; omega, rfl⟩
  have hadd : checkedAdd dictHeaderSize (self.header.entryCount * dictIndexEntrySize) =
      .ok (dictHeaderSize + self.header.entryCount * dictIndexEntrySize) :=
    addU64_eq_ok.mpr ⟨by unfold dictIndexEntrySize dictHeaderSize; omega, rfl⟩
  have hview : FileDictionaryView.parse self.serializeIndex self.payload =
      .ok ⟨self.header, self.serializeIndex, self.payload⟩ := by
    have htake : self.serializeIndex.take dictHeaderSize = self.header.serialize :=
      List.take_left' hsize
    unfold FileDictionaryView.parse
    rw [if_neg (by omega), htake, FileDictionaryHeaderV1.parse_serialize hheader, ok_bind, hmul,
      ok_bind, hadd, ok_bind, if_neg (not_not_intro hlength),
      if_neg (not_not_intro hpayload.symm)]
  -- the entry of a code stands where its number says
  have hget : ∀ i (hi : i < self.entries.length),
      FileDictionaryView.getEntry ⟨self.header, self.serializeIndex, self.payload⟩ i =
        .ok self.entries[i] := by
    intro i hi
    have hblock : fieldBytes self.serializeIndex (dictHeaderSize + i * dictIndexEntrySize)
        dictIndexEntrySize = self.entries[i].serialize := by
      have := Strides.block_flatMap hblocks [] hi
      rw [List.append_nil] at this
      rw [fieldBytes, ← List.drop_drop, serializeIndex, List.drop_left' hsize]
      exact this
    have hmul : checkedMul i dictIndexEntrySize = .ok (i * dictIndexEntrySize) :=
      mulU64_eq_ok.mpr ⟨by unfold dictIndexEntrySize; omega, rfl⟩
    have hadd : checkedAdd dictHeaderSize (i * dictIndexEntrySize) =
        .ok (dictHeaderSize + i * dictIndexEntrySize) :=
      addU64_eq_ok.mpr ⟨by unfold dictIndexEntrySize dictHeaderSize; omega, rfl⟩
    have hlt : ¬ i ≥ self.header.entryCount := by omega
    unfold FileDictionaryView.getEntry
    rw [if_neg hlt, hmul, ok_bind, hadd, ok_bind, hblock]
    exact FileDictionaryIndexEntryV1.parse_serialize (hentries _ (List.getElem_mem hi)).1
  have hvalid : FileDictionaryView.validateAll
      ⟨self.header, self.serializeIndex, self.payload⟩ validJson = .ok () := by
    refine forM_eq_ok.mpr fun i hi => ?_
    have hi : i < self.entries.length := hcount ▸ List.mem_range.mp hi
    rw [hget i hi, ok_bind]
    exact (hentries _ (List.getElem_mem hi)).2
  have hall : (List.range self.header.entryCount).mapM
      (FileDictionaryView.getEntry ⟨self.header, self.serializeIndex, self.payload⟩) =
        .ok self.entries := by
    rw [hcount]
    exact Strides.mapM_range_eq_ok hget
  unfold OwnedDictionary.parse
  rw [hview, ok_bind, hvalid, ok_bind, hall, ok_bind]

/-! ## What is stored -/

/-- A key stands in an entry, its bytes inline or in the payload section. -/
inductive Stores (payload : List UInt8) :
    FileDictionaryKey → FileDictionaryIndexEntryV1 → Prop
  | inline {key : FileDictionaryKey} (hshort : key.canonical.length ≤ 16) :
      Stores payload key (inlineEntry key)
  | payload {key : FileDictionaryKey} {before after : List UInt8}
      (hlength : key.canonical.length < 2 ^ 32)
      (hplace : payload = before ++ (key.canonical ++ after)) :
      Stores payload key (payloadEntry key before.length)

namespace Stores

variable {validJson : List UInt8 → Bool} {payload : List UInt8} {key : FileDictionaryKey}
  {entry : FileDictionaryIndexEntryV1}

theorem length_lt (h : Stores payload key entry) : key.canonical.length < 2 ^ 32 := by
  cases h with
  | inline hshort => omega
  | payload hlength => exact hlength

theorem current (h : Stores payload key entry) (hpayload : payload.length < 2 ^ 64) :
    entry.Current := by
  cases h with
  | inline hshort =>
    refine ⟨Nat.two_pow_pos 8, hshort, ?_, Nat.two_pow_pos 64, Nat.two_pow_pos 32,
      Nat.two_pow_pos 64⟩
    show (key.canonical ++ List.replicate _ _).length = 16
    rw [List.length_append, List.length_replicate]
    omega
  | @payload before after hlength hplace =>
    have hbefore : before.length < 2 ^ 64 := by
      have := congrArg List.length hplace
      rw [List.length_append] at this
      omega
    exact ⟨Nat.two_pow_pos 8, Nat.zero_le _, rfl, hbefore, hlength, Nat.two_pow_pos 64⟩

/-- The bytes of a key, read from the payload section. -/
theorem readRangeChecked_payload {before after : List UInt8}
    (hplace : payload = before ++ (key.canonical ++ after)) (hpayload : payload.length < 2 ^ 64) :
    readRangeChecked payload before.length key.canonical.length = .ok key.canonical := by
  have hlength : before.length + key.canonical.length ≤ payload.length := by
    rw [hplace, List.length_append, List.length_append]
    omega
  have hadd : checkedAdd before.length key.canonical.length =
      .ok (before.length + key.canonical.length) := addU64_eq_ok.mpr ⟨by omega, rfl⟩
  unfold readRangeChecked
  rw [hadd, ok_bind, if_neg (by omega), hplace, List.drop_left, List.take_left]

theorem decode (h : Stores payload key entry) (hpayload : payload.length < 2 ^ 64) :
    decodeDictionaryEntry entry payload = .ok (.rawBytes key.canonical) := by
  cases h with
  | inline hshort =>
    show Except.ok (DictionaryValue.rawBytes ((key.canonical ++ _).take key.canonical.length)) = _
    rw [List.take_left]
  | @payload before _ hlength hplace =>
    show (readRangeChecked payload before.length key.canonical.length >>= _) = _
    rw [readRangeChecked_payload hplace hpayload, ok_bind]

/-- The entry of a valid key is accepted. -/
theorem validate (h : Stores payload key entry) (hpayload : payload.length < 2 ^ 64)
    (hvalid : validateCanonicalPayload validJson key.valueTag key.canonical = .ok ()) :
    validateDictionaryEntry validJson entry payload payload.length = .ok () := by
  cases h with
  | inline hshort =>
    have hadd : checkedAdd 0 0 = .ok 0 := rfl
    unfold validateDictionaryEntry FileDictionaryIndexEntryV1.validatePayloadBounds
    show ((checkedAdd 0 0 >>= _) >>= _) = _
    rw [hadd, ok_bind, if_neg (Nat.not_lt_zero _), ok_bind]
    show (if (0 : Nat) ≠ 0 then _ else
      validateCanonicalPayload validJson key.valueTag
        ((key.canonical ++ _).take key.canonical.length)) = _
    rw [if_neg (not_not_intro rfl), List.take_left, hvalid]
  | @payload before after hlength hplace =>
    have hread := readRangeChecked_payload hplace hpayload
    have hend : before.length + key.canonical.length ≤ payload.length := by
      rw [hplace, List.length_append, List.length_append]
      omega
    have hadd : checkedAdd before.length key.canonical.length =
        .ok (before.length + key.canonical.length) := addU64_eq_ok.mpr ⟨by omega, rfl⟩
    unfold validateDictionaryEntry FileDictionaryIndexEntryV1.validatePayloadBounds
    show ((checkedAdd before.length key.canonical.length >>= _) >>= _) = _
    rw [hadd, ok_bind, if_neg (by omega), ok_bind]
    show (if (0 : Nat) ≠ 0 then _ else
      (readRangeChecked payload before.length key.canonical.length >>= _)) = _
    rw [if_neg (not_not_intro rfl), hread, ok_bind]
    exact hvalid

end Stores

/-- **The loop stores every key it is given**, in order. -/
theorem buildEntries_stores {keys : List FileDictionaryKey} {n : Nat}
    {payload out : List UInt8} {entries : List FileDictionaryIndexEntryV1}
    (h : buildEntries n payload (keys.zipIdx n) = .ok (entries, out)) :
    (∃ more, out = payload ++ more) ∧ List.Forall₂ (Stores out) keys entries ∧
      out.length ≤ payload.length + keys.length * 2 ^ 32 := by
  induction keys generalizing n payload entries with
  | nil =>
    obtain ⟨rfl, rfl⟩ := Prod.mk.inj (Except.ok.inj h)
    exact ⟨⟨[], (List.append_nil _).symm⟩, .nil, Nat.le_add_right _ _⟩
  | cons key keys ih =>
    rw [List.zipIdx_cons] at h
    unfold buildEntries at h
    obtain ⟨-, h⟩ := ite_error_eq_ok.mp h
    obtain ⟨-, h⟩ := ite_error_eq_ok.mp h
    rw [List.length_cons, Nat.succ_mul]
    by_cases hshort : key.canonical.length ≤ 16
    · rw [if_pos hshort] at h
      obtain ⟨⟨rest, out'⟩, hrest, h⟩ := bind_eq_ok.mp h
      obtain ⟨rfl, rfl⟩ := Prod.mk.inj (Except.ok.inj h)
      obtain ⟨hmore, hall, hbound⟩ := ih hrest
      exact ⟨hmore, .cons (.inline hshort) hall,
        hbound.trans (Nat.add_le_add_left (Nat.le_add_right _ _) _)⟩
    · rw [if_neg hshort] at h
      obtain ⟨-, h⟩ := ite_error_eq_ok.mp h
      obtain ⟨hlength, h⟩ := ite_error_eq_ok.mp h
      obtain ⟨⟨rest, out'⟩, hrest, h⟩ := bind_eq_ok.mp h
      obtain ⟨rfl, rfl⟩ := Prod.mk.inj (Except.ok.inj h)
      obtain ⟨⟨more, hmore⟩, hall, hbound⟩ := ih hrest
      rw [List.append_assoc] at hmore
      rw [List.length_append] at hbound
      exact ⟨⟨_, hmore⟩, .cons (.payload (Nat.not_le.mp hlength) hmore) hall, by omega⟩

/-- The loop runs through when the keys and their number fit. -/
theorem buildEntries_isOk {keys : List FileDictionaryKey} {n : Nat} {payload : List UInt8}
    (hcount : n + keys.length ≤ 2 ^ 32) (hlengths : ∀ key ∈ keys, key.canonical.length < 2 ^ 32)
    (hpayload : payload.length ≤ n * 2 ^ 32) :
    ∃ out, buildEntries n payload (keys.zipIdx n) = .ok out := by
  induction keys generalizing n payload with
  | nil => exact ⟨_, rfl⟩
  | cons key keys ih =>
    obtain ⟨hkey, hkeys⟩ := List.forall_mem_cons.mp hlengths
    rw [List.length_cons] at hcount
    have hroom : n * 2 ^ 32 ≤ (n + 1) * 2 ^ 32 := Nat.mul_le_mul_right _ (Nat.le_succ n)
    have hlast : n * 2 ^ 32 < 2 ^ 32 * 2 ^ 32 :=
      Nat.mul_lt_mul_of_pos_right (by omega) (Nat.two_pow_pos 32)
    rw [List.zipIdx_cons]
    unfold buildEntries
    rw [if_neg (by omega), if_neg (not_not_intro rfl)]
    by_cases hshort : key.canonical.length ≤ 16
    · obtain ⟨⟨rest, out⟩, hrest⟩ : ∃ out, buildEntries (n + 1) payload (keys.zipIdx (n + 1)) =
          .ok out := ih (by omega) hkeys (hpayload.trans hroom)
      rw [if_pos hshort, hrest]
      exact ⟨_, rfl⟩
    · have hgrown : (payload ++ key.canonical).length ≤ (n + 1) * 2 ^ 32 := by
        rw [List.length_append, Nat.succ_mul]
        omega
      obtain ⟨⟨rest, out⟩, hrest⟩ : ∃ out, buildEntries (n + 1) (payload ++ key.canonical)
          (keys.zipIdx (n + 1)) = .ok out := ih (by omega) hkeys hgrown
      rw [if_neg hshort, if_neg (by omega), if_neg (by omega), hrest]
      exact ⟨_, rfl⟩

/-! ## The codes of a set of keys -/

namespace FileDictionaryEncoding

variable {key : FileDictionaryKey}

section

variable {validJson : List UInt8 → Bool} {keys : List FileDictionaryKey}
  {encoding : FileDictionaryEncoding}

/-- What a set of keys is encoded as: the distinct keys are numbered from zero in their order, a
code decodes to the bytes of its key, and the sections hold the dictionary. -/
structure Encodes (validJson : List UInt8 → Bool) (keys : List FileDictionaryKey)
    (encoding : FileDictionaryEncoding) : Prop where
  /-- Every key has a code that decodes to its bytes. -/
  key_code : ∀ key ∈ keys, ∃ code < keys.toFinset.card,
    encoding.fileCodeForKey key = .ok code ∧
      encoding.dictionary.decodeValue code = .ok (.rawBytes key.canonical)
  /-- Every code is that of a key. -/
  code_key : ∀ code < keys.toFinset.card, ∃ key ∈ keys, encoding.fileCodeForKey key = .ok code
  /-- Only the keys have codes. -/
  key_mem : ∀ key code, encoding.fileCodeForKey key = .ok code → key ∈ keys
  /-- Codes are ordered as keys are, so that no two keys share one. -/
  code_lt_iff : ∀ key key' code code', encoding.fileCodeForKey key = .ok code →
    encoding.fileCodeForKey key' = .ok code' → (code < code' ↔ key < key')
  len_eq : encoding.dictionary.len = keys.toFinset.card
  /-- The dictionary is read back from its sections. -/
  readback : OwnedDictionary.parse validJson encoding.dictionary.serializeIndex
    encoding.dictionary.payload = .ok encoding.dictionary

theorem length_uniqueKeys : (uniqueKeys keys).length = keys.toFinset.card := by
  have hnodup : (uniqueKeys keys).Nodup := (pairwise_uniqueKeys keys).imp fun h => h.ne
  rw [← List.toFinset_card_of_nodup hnodup]
  congr 1
  ext key
  rw [List.mem_toFinset, List.mem_toFinset, mem_uniqueKeys]

theorem get?_assign {code : Nat} :
    (assign keys).get? key = some code ↔ (uniqueKeys keys)[code]? = some key :=
  OrderedMap.get?_eq_some.trans List.mk_mem_zipIdx_iff_getElem?

theorem fileCodeForKey_eq_ok {code : Nat} :
    encoding.fileCodeForKey key = .ok code ↔ encoding.assignments.get? key = some code := by
  unfold fileCodeForKey
  cases encoding.assignments.get? key with
  | none => exact iff_of_false nofun nofun
  | some c => exact ⟨fun h => congrArg some (Except.ok.inj h), fun h => congrArg _ (Option.some.inj h)⟩

/-- What `fromKeys` has built. -/
theorem of_fromKeys (h : fromKeys validJson keys = .ok encoding) :
    encoding.assignments = assign keys ∧ keys.toFinset.card < 2 ^ 32 ∧
      encoding.dictionary.header =
        ⟨keys.toFinset.card, 0, dictIndexEntrySize, 0, encoding.dictionary.payload.length⟩ ∧
      encoding.dictionary.payload.length < 2 ^ 64 ∧
      List.Forall₂ (Stores encoding.dictionary.payload) (uniqueKeys keys)
        encoding.dictionary.entries := by
  unfold fromKeys at h
  obtain ⟨-, h⟩ := ite_error_eq_ok.mp h
  obtain ⟨dictionary, hdictionary, h⟩ := bind_eq_ok.mp h
  obtain rfl := Except.ok.inj h
  unfold buildFileDictionary at hdictionary
  obtain ⟨hcount, hdictionary⟩ := ite_error_eq_ok.mp hdictionary
  obtain ⟨⟨entries, payload⟩, hentries, hdictionary⟩ := bind_eq_ok.mp hdictionary
  obtain ⟨_, -, hdictionary⟩ := bind_eq_ok.mp hdictionary
  obtain rfl := Except.ok.inj hdictionary
  have hlength : (assign keys).entries.length = keys.toFinset.card := by
    rw [← length_uniqueKeys]
    exact List.length_zipIdx
  rw [hlength] at hcount
  obtain ⟨-, hall, hbound⟩ := buildEntries_stores hentries
  rw [length_uniqueKeys, List.length_nil, Nat.zero_add] at hbound
  have hroom : keys.toFinset.card * 2 ^ 32 < 2 ^ 32 * 2 ^ 32 :=
    Nat.mul_lt_mul_of_pos_right (Nat.not_le.mp hcount) (Nat.two_pow_pos 32)
  refine ⟨rfl, Nat.not_le.mp hcount, ?_, lt_of_le_of_lt hbound hroom, hall⟩
  show FileDictionaryHeaderV1.mk _ _ _ _ _ = _
  rw [hlength]

/-- The dictionary of valid keys is one that its sections can hold. -/
theorem current_of_stores {dictionary : OwnedDictionary}
    (hvalid : ∀ key ∈ keys,
      validateCanonicalPayload validJson key.valueTag key.canonical = .ok ())
    (hcount : keys.toFinset.card < 2 ^ 32)
    (hheader : dictionary.header =
      ⟨keys.toFinset.card, 0, dictIndexEntrySize, 0, dictionary.payload.length⟩)
    (hpayload : dictionary.payload.length < 2 ^ 64)
    (hall : List.Forall₂ (Stores dictionary.payload) (uniqueKeys keys) dictionary.entries) :
    dictionary.Current validJson := by
  have hlength := hall.length_eq
  rw [length_uniqueKeys] at hlength
  refine ⟨?_, ?_, ?_, fun entry hentry => ?_⟩
  · rw [hheader]
    exact ⟨hcount, Nat.two_pow_pos 32, rfl, Nat.zero_le _, hpayload⟩
  · rw [hheader]
    exact hlength
  · rw [hheader]
  · obtain ⟨key, hkey, hstores⟩ := exists_of_forall₂_left hall.flip hentry
    refine ⟨hstores.current hpayload, ?_⟩
    rw [hheader]
    exact hstores.validate hpayload (hvalid key (mem_uniqueKeys.mp hkey))

/-- **Every result of `fromKeys` encodes its keys.** -/
theorem encodes_of_fromKeys
    (hvalid : ∀ key ∈ keys,
      validateCanonicalPayload validJson key.valueTag key.canonical = .ok ())
    (h : fromKeys validJson keys = .ok encoding) : encoding.Encodes validJson keys := by
  obtain ⟨hassign, hcount, hheader, hpayload, hall⟩ := of_fromKeys h
  have hcode : ∀ key code, encoding.fileCodeForKey key = .ok code ↔
      (uniqueKeys keys)[code]? = some key := fun key code => by
    rw [fileCodeForKey_eq_ok, hassign, get?_assign]
  have hlt : ∀ {key : FileDictionaryKey} {code : Nat}, (uniqueKeys keys)[code]? = some key →
      code < keys.toFinset.card := by
    intro key code hget
    obtain ⟨hlt, -⟩ := List.getElem?_eq_some_iff.mp hget
    rwa [length_uniqueKeys] at hlt
  constructor
  case key_code =>
    intro key hkey
    obtain ⟨code, hget⟩ := List.mem_iff_getElem?.mp (mem_uniqueKeys.mpr hkey)
    refine ⟨code, hlt hget, (hcode key code).mpr hget, ?_⟩
    obtain ⟨hkeyAt, rfl⟩ := List.getElem?_eq_some_iff.mp hget
    have hentryAt : code < encoding.dictionary.entries.length := hall.length_eq ▸ hkeyAt
    have hstores := hall.get hkeyAt hentryAt
    rw [List.get_eq_getElem, List.get_eq_getElem] at hstores
    unfold OwnedDictionary.decodeValue OwnedDictionary.getEntry
    rw [List.getElem?_eq_getElem hentryAt]
    exact hstores.decode hpayload
  case code_key =>
    intro code hlt
    rw [← length_uniqueKeys] at hlt
    have hget := List.getElem?_eq_getElem hlt
    exact ⟨_, mem_uniqueKeys.mp (List.getElem_mem hlt), (hcode _ code).mpr hget⟩
  case key_mem =>
    intro key code h
    exact mem_uniqueKeys.mp (List.mem_of_getElem? ((hcode key code).mp h))
  case code_lt_iff =>
    intro key key' code code' h h'
    obtain ⟨hlt, rfl⟩ := List.getElem?_eq_some_iff.mp ((hcode key code).mp h)
    obtain ⟨hlt', rfl⟩ := List.getElem?_eq_some_iff.mp ((hcode key' code').mp h')
    have hsorted := List.pairwise_iff_getElem.mp (pairwise_uniqueKeys keys)
    constructor
    · exact hsorted code code' hlt hlt'
    · intro hkeys
      -- otherwise the keys would stand the other way round
      rcases Nat.lt_trichotomy code code' with hcodes | rfl | hcodes
      · exact hcodes
      · exact absurd hkeys (lt_irrefl _)
      · exact absurd (hkeys.trans (hsorted code' code hlt' hlt hcodes)) (lt_irrefl _)
  case len_eq =>
    unfold OwnedDictionary.len
    rw [hheader]
  case readback =>
    exact OwnedDictionary.parse_serialize (current_of_stores hvalid hcount hheader hpayload hall)

/-- Valid keys are encoded exactly when their number and their lengths fit. -/
theorem fromKeys_isOk
    (hvalid : ∀ key ∈ keys,
      validateCanonicalPayload validJson key.valueTag key.canonical = .ok ()) :
    (∃ encoding, fromKeys validJson keys = .ok encoding) ↔
      keys.toFinset.card < 2 ^ 32 ∧ ∀ key ∈ keys, key.canonical.length < 2 ^ 32 := by
  constructor
  · rintro ⟨encoding, h⟩
    obtain ⟨-, hcount, -, -, hall⟩ := of_fromKeys h
    refine ⟨hcount, fun key hkey => ?_⟩
    obtain ⟨entry, -, hstores⟩ := exists_of_forall₂_left hall (mem_uniqueKeys.mpr hkey)
    exact hstores.length_lt
  · rintro ⟨hcount, hlengths⟩
    have hlength : (assign keys).entries.length = keys.toFinset.card := by
      rw [← length_uniqueKeys]
      exact List.length_zipIdx
    obtain ⟨⟨entries, payload⟩, hentries⟩ :
        ∃ out, buildEntries 0 [] (assign keys).entries = .ok out := by
      refine buildEntries_isOk ?_ (fun key hkey => hlengths key (mem_uniqueKeys.mp hkey))
        (Nat.zero_le _)
      rw [length_uniqueKeys]
      omega
    obtain ⟨-, hall, hbound⟩ := buildEntries_stores hentries
    rw [length_uniqueKeys, List.length_nil, Nat.zero_add] at hbound
    have hpayload : payload.length < 2 ^ 64 :=
      lt_of_le_of_lt hbound (Nat.mul_lt_mul_of_pos_right hcount (Nat.two_pow_pos 32))
    -- the dictionary that is built parses, as the last step asks
    let dictionary : OwnedDictionary :=
      ⟨⟨keys.toFinset.card, 0, dictIndexEntrySize, 0, payload.length⟩, entries, payload⟩
    have hcurrent : dictionary.Current validJson :=
      current_of_stores hvalid hcount rfl hpayload hall
    have hparse := OwnedDictionary.parse_serialize hcurrent
    unfold fromKeys buildFileDictionary
    rw [length_uniqueKeys, if_neg (by omega), hlength, if_neg (by omega), hentries, ok_bind]
    dsimp only
    rw [hparse]
    exact ⟨_, rfl⟩

/-- **The codes of a file are those of its set of keys.** They are the positions of the distinct
keys in order, whatever the order and repeats of the list; a list is refused only when the
dictionary has no room for it. -/
theorem fromKeys_encodes
    (hvalid : ∀ key ∈ keys,
      validateCanonicalPayload validJson key.valueTag key.canonical = .ok ()) :
    ((∃ encoding, fromKeys validJson keys = .ok encoding) ↔
        keys.toFinset.card < 2 ^ 32 ∧ ∀ key ∈ keys, key.canonical.length < 2 ^ 32) ∧
      (∀ encoding, fromKeys validJson keys = .ok encoding → encoding.Encodes validJson keys) ∧
      ∀ keys', (∀ key, key ∈ keys' ↔ key ∈ keys) →
        fromKeys validJson keys' = fromKeys validJson keys := by
  refine ⟨fromKeys_isOk hvalid, fun encoding h => encodes_of_fromKeys hvalid h, ?_⟩
  intro keys' hkeys
  have hunique := uniqueKeys_eq_of_mem hkeys
  have hassign : assign keys' = assign keys := by
    unfold assign
    congr 1
    rw [hunique]
  unfold fromKeys
  rw [hunique, hassign]

/-- Two letters, one of them twice, and a text too long to stand inline. -/
def letterKeys : List FileDictionaryKey :=
  [⟨.utf8, [1, 98]⟩, ⟨.utf8, 17 :: List.replicate 17 97⟩, ⟨.utf8, [1, 97]⟩, ⟨.utf8, [1, 98]⟩]

theorem fromKeys_encodes_letters :
    ((∃ encoding, fromKeys (fun _ => false) letterKeys = .ok encoding) ↔
        letterKeys.toFinset.card < 2 ^ 32 ∧ ∀ key ∈ letterKeys, key.canonical.length < 2 ^ 32) ∧
      (∀ encoding, fromKeys (fun _ => false) letterKeys = .ok encoding →
        encoding.Encodes (fun _ => false) letterKeys) ∧
      ∀ keys', (∀ key, key ∈ keys' ↔ key ∈ letterKeys) →
        fromKeys (fun _ => false) keys' = fromKeys (fun _ => false) letterKeys :=
  fromKeys_encodes (by decide +kernel)

/-- The letters come first, the text with the longer prefix last. -/
example : (fromKeys (fun _ => false) letterKeys).toOption.map
    (fun encoding => encoding.assignments.keys.map FileDictionaryKey.canonical) =
      some [[1, 97], [1, 98], 17 :: List.replicate 17 97] := by decide +kernel

end

end FileDictionaryEncoding

end Cove
