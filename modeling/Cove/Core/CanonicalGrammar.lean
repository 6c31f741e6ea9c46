import Cove.Core.CanonicalTree
import Cove.Core.Varint

/-!
# The grammar of canonical payloads

`validate_payload_inner` walks a payload and only counts its bytes. The payloads it accepts are
written here as trees, with every varint as the bytes spell it.

- `Spelling`: a tagged value as it is spelled; `Spelling.payload`, `Spelling.tagged`: its bytes.
- `Spelling.WellFormed`: the side conditions of the grammar.
- `validate_complete`: **the validator takes every well-formed payload**, whatever follows it.
- `validate_sound`: **it takes nothing else**.
- `validate_iff`: both, for a whole payload, with as much fuel as the validator has.
- `tagged_inj`: the grammar is prefix-free, so a payload has one spelling.
- `Spelling.value`: the value a spelling stands for.
-/

namespace Cove

open Ieee754 (F32 F64)

/-- A tag as its varint spells it. -/
structure TagVarint where
  tag : ValueTag
  varint : Varint
  code : varint.value = tag.code

namespace TagVarint

theorem ext_varint {v w : TagVarint} (h : v.varint = w.varint) : v = w := by
  obtain ⟨tag, varint, hv⟩ := v
  obtain ⟨tag', _, hw⟩ := w
  obtain rfl := h
  obtain rfl := ValueTag.code_inj (hv.symm.trans hw)
  rfl

/-- The shortest spelling of a tag. -/
def shortest (tag : ValueTag) : TagVarint where
  tag := tag
  varint := .ofNat tag.code
  code := Varint.ofNat_value (by have := tag.code_lt; omega)

end TagVarint

/-- A tagged value, with every varint as the bytes spell it. -/
inductive Spelling where
  | fixed (tag : TagVarint) (payload : List UInt8)
  | text (tag : TagVarint) (len : Varint) (body : List UInt8)
  | list (tag : TagVarint) (count : Varint) (elements : List Spelling)
  | struct (tag : TagVarint) (count : Varint) (fields : List (Varint × Spelling))
  | map (tag : TagVarint) (count : Varint) (entries : List (Spelling × Spelling))

namespace Spelling

def tag : Spelling → TagVarint
  | fixed tag _ | text tag _ _ | list tag _ _ | struct tag _ _ | map tag _ _ => tag

/-! ## Bytes -/

mutual

/-- The payload, without the tag. -/
def payload : Spelling → List UInt8
  | fixed _ payload => payload
  | text _ len body => len.bytes ++ body
  | list _ count elements => count.bytes ++ elementsBytes elements
  | struct _ count fields => count.bytes ++ fieldsBytes fields
  | map _ count entries => count.bytes ++ entriesBytes entries

def elementsBytes : List Spelling → List UInt8
  | [] => []
  | element :: elements =>
    (element.tag.varint.bytes ++ payload element) ++ elementsBytes elements

def fieldsBytes : List (Varint × Spelling) → List UInt8
  | [] => []
  | (fieldId, value) :: fields =>
    (fieldId.bytes ++ (value.tag.varint.bytes ++ payload value)) ++ fieldsBytes fields

def entriesBytes : List (Spelling × Spelling) → List UInt8
  | [] => []
  | (key, value) :: entries =>
    ((key.tag.varint.bytes ++ payload key) ++ (value.tag.varint.bytes ++ payload value)) ++
      entriesBytes entries

end

/-- The payload behind its tag. -/
def tagged (s : Spelling) : List UInt8 := s.tag.varint.bytes ++ s.payload

theorem elementsBytes_eq (elements : List Spelling) :
    elementsBytes elements = elements.flatMap tagged := by
  induction elements with
  | nil => rfl
  | cons e es ih =>
    show (e.tag.varint.bytes ++ payload e) ++ elementsBytes es = _
    rw [ih, List.flatMap_cons, tagged]

/-- The bytes of a field. -/
def fieldTagged (field : Varint × Spelling) : List UInt8 := field.1.bytes ++ field.2.tagged

/-- The bytes of an entry. -/
def entryTagged (entry : Spelling × Spelling) : List UInt8 := entry.1.tagged ++ entry.2.tagged

theorem fieldsBytes_eq (fields : List (Varint × Spelling)) :
    fieldsBytes fields = fields.flatMap fieldTagged := by
  induction fields with
  | nil => rfl
  | cons f fs ih =>
    obtain ⟨fieldId, value⟩ := f
    show (fieldId.bytes ++ (value.tag.varint.bytes ++ payload value)) ++ fieldsBytes fs = _
    rw [ih, List.flatMap_cons, fieldTagged, tagged]

theorem entriesBytes_eq (entries : List (Spelling × Spelling)) :
    entriesBytes entries = entries.flatMap entryTagged := by
  induction entries with
  | nil => rfl
  | cons e es ih =>
    obtain ⟨key, value⟩ := e
    show ((key.tag.varint.bytes ++ payload key) ++ (value.tag.varint.bytes ++ payload value)) ++
      entriesBytes es = _
    rw [ih, List.flatMap_cons, entryTagged, tagged, tagged]

theorem payload_list (tag : TagVarint) (count : Varint) (elements : List Spelling) :
    (list tag count elements).payload = count.bytes ++ elements.flatMap tagged := by
  rw [← elementsBytes_eq]
  rfl

theorem payload_struct (tag : TagVarint) (count : Varint) (fields : List (Varint × Spelling)) :
    (struct tag count fields).payload = count.bytes ++ fields.flatMap fieldTagged := by
  rw [← fieldsBytes_eq]
  rfl

theorem payload_map (tag : TagVarint) (count : Varint) (entries : List (Spelling × Spelling)) :
    (map tag count entries).payload = count.bytes ++ entries.flatMap entryTagged := by
  rw [← entriesBytes_eq]
  rfl

theorem payload_text (tag : TagVarint) (len : Varint) (body : List UInt8) :
    (text tag len body).payload = len.bytes ++ body := rfl

theorem payload_fixed (tag : TagVarint) (bytes : List UInt8) :
    (fixed tag bytes).payload = bytes := rfl

/-! ## Well-formed spellings -/

end Spelling

/-- The width of a payload that has no length of its own. -/
def ValueTag.fixedWidth : ValueTag → Option Nat
  | null | boolFalse | boolTrue => some 0
  | int64 | uint64 | float64Bits | decimal64 | timestampMicros | timestampNanos => some 8
  | float32Bits | dateDays => some 4
  | decimal128 | uuid => some 16
  | utf8 | binary | json | list | struct | map => none

/-- The bytes behind a length are what the tag calls for. -/
def ValueTag.ValidText (validJson : List UInt8 → Bool) (body : List UInt8) : ValueTag → Prop
  | utf8 => isUtf8 body = true
  | binary => True
  | json => validJson body = true
  | _ => False

namespace Spelling

section

/- `validJson` is the parser of JSON texts. -/
variable (validJson : List UInt8 → Bool)

/-- The side conditions of the grammar. -/
inductive WellFormed : Spelling → Prop
  | fixed {tag : TagVarint} {payload : List UInt8}
      (width : tag.tag.fixedWidth = some payload.length) : WellFormed (.fixed tag payload)
  | text {tag : TagVarint} {len : Varint} {body : List UInt8} (length : len.value = body.length)
      (fits : len.bytes.length + body.length < 2 ^ 64) (valid : tag.tag.ValidText validJson body) :
      WellFormed (.text tag len body)
  | list {tag : TagVarint} {count : Varint} {elements : List Spelling} (kind : tag.tag = .list)
      (length : count.value = elements.length) (each : ∀ e ∈ elements, WellFormed e) :
      WellFormed (.list tag count elements)
  | struct {tag : TagVarint} {count : Varint} {fields : List (Varint × Spelling)}
      (kind : tag.tag = .struct) (length : count.value = fields.length)
      (ascending : (fields.map fun f => f.1.value).Pairwise (· < ·))
      (each : ∀ f ∈ fields, WellFormed f.2) : WellFormed (.struct tag count fields)
  | map {tag : TagVarint} {count : Varint} {entries : List (Spelling × Spelling)}
      (kind : tag.tag = .map) (length : count.value = entries.length)
      (scalar : ∀ e ∈ entries, e.1.tag.tag.isScalar = true)
      (ascending : (entries.map fun e => e.1.tagged).Pairwise (· < ·))
      (keys : ∀ e ∈ entries, WellFormed e.1) (each : ∀ e ∈ entries, WellFormed e.2) :
      WellFormed (.map tag count entries)

end

end Spelling

/-! ## What the validator takes -/

variable {rest : List UInt8} {body : List UInt8} {count pos out : Nat} {as bs : List UInt8}

variable {what : String} {taken width : Nat} {s t : Spelling} {prev : Option (List UInt8)}

section

variable {validJson : List UInt8 → Bool} {inner : ValueTag → List UInt8 → Except CoveError Nat}
  {bytes : List UInt8}

open Spelling Checked

theorem decodeCanonicalVarint_append (v : Varint) (rest : List UInt8) (what : String) :
    decodeCanonicalVarint (v.bytes ++ rest) what = .ok (v.value, v.bytes.length) := by
  unfold decodeCanonicalVarint
  rw [v.decode_append]

theorem exists_of_decodeCanonicalVarint {value : Nat}
    (h : decodeCanonicalVarint bytes what = .ok (value, taken)) :
    ∃ (v : Varint) (rest : List UInt8), bytes = v.bytes ++ rest ∧ v.value = value ∧
      v.bytes.length = taken := by
  unfold decodeCanonicalVarint at h
  split at h
  · next hread =>
    obtain rfl := Except.ok.inj h
    exact exists_varint hread
  · cases h

/-- `inner` takes the payload of a value, whatever follows. -/
def Takes (inner : ValueTag → List UInt8 → Except CoveError Nat) (s : Spelling) : Prop :=
  ∀ rest, inner s.tag.tag (s.payload ++ rest) = .ok s.payload.length

/-- Then the tagged value is taken. -/
theorem Takes.tagged (h : Takes inner s) (rest : List UInt8) :
    validateTaggedValue inner (s.tagged ++ rest) = .ok (s.tag.tag, s.tagged.length) := by
  unfold validateTaggedValue Spelling.tagged
  rw [List.append_assoc, decodeCanonicalVarint_append, ok_bind]
  dsimp only
  rw [s.tag.code, ValueTag.fromU16_code, List.drop_left]
  dsimp only
  rw [h, ok_bind, List.length_append]

/-- The elements of a list are taken one by one. -/
theorem validateElements_complete {elements : List Spelling} (h : ∀ e ∈ elements, Takes inner e)
    (hpos : bytes.drop pos = elements.flatMap Spelling.tagged ++ rest) :
    validateElements inner bytes elements.length pos =
      .ok (pos + (elements.flatMap Spelling.tagged).length) := by
  induction elements generalizing pos with
  | nil => rfl
  | cons e es ih =>
    obtain ⟨he, hes⟩ := List.forall_mem_cons.mp h
    rw [List.flatMap_cons, List.append_assoc] at hpos
    rw [List.length_cons, validateElements, hpos, he.tagged, ok_bind]
    dsimp only
    have hnext : bytes.drop (pos + e.tagged.length) = es.flatMap Spelling.tagged ++ rest := by
      rw [← List.drop_drop, hpos, List.drop_left]
    rw [ih hes hnext, List.flatMap_cons, List.length_append, Nat.add_assoc]

/-- The fields of a struct are taken one by one, their ids ascending. -/
theorem validateFields_complete {fields : List (Varint × Spelling)}
    (h : ∀ f ∈ fields, Takes inner f.2)
    (hascending : (fields.map fun f => f.1.value).Pairwise (· < ·)) {prev : Option Nat}
    (hprev : ∀ id ∈ prev, ∀ f ∈ fields, id < f.1.value)
    (hpos : bytes.drop pos = fields.flatMap fieldTagged ++ rest) :
    validateFields inner bytes fields.length prev pos =
      .ok (pos + (fields.flatMap fieldTagged).length) := by
  induction fields generalizing pos prev with
  | nil => rfl
  | cons f fs ih =>
    obtain ⟨hf, hfs⟩ := List.forall_mem_cons.mp h
    rw [List.map_cons, List.pairwise_cons] at hascending
    rw [List.flatMap_cons, fieldTagged, List.append_assoc, List.append_assoc] at hpos
    have hvalue : bytes.drop (pos + f.1.bytes.length) =
        f.2.tagged ++ (fs.flatMap fieldTagged ++ rest) := by
      rw [← List.drop_drop, hpos, List.drop_left]
    have hnext : bytes.drop (pos + f.1.bytes.length + f.2.tagged.length) =
        fs.flatMap fieldTagged ++ rest := by
      rw [← List.drop_drop, hvalue, List.drop_left]
    have hafter : (prev.any fun id => decide (f.1.value ≤ id)) = false := by
      cases prev with
      | none => rfl
      | some id => exact decide_eq_false (Nat.not_le.mpr (hprev id rfl f List.mem_cons_self))
    rw [List.length_cons, validateFields, hpos, decodeCanonicalVarint_append, ok_bind]
    dsimp only
    rw [hafter, if_neg Bool.false_ne_true, hvalue, hf.tagged, ok_bind]
    dsimp only
    rw [ih hfs hascending.2 ?_ hnext, List.flatMap_cons, List.length_append, fieldTagged,
      List.length_append]
    · congr 1
      omega
    · intro id hid g hg
      obtain rfl := Option.mem_some_iff.mp hid
      exact hascending.1 _ (List.mem_map_of_mem hg)

/-- The entries of a map are taken one by one, their keys ascending. -/
theorem validatePairs_complete {entries : List (Spelling × Spelling)}
    (h : ∀ e ∈ entries, Takes inner e.1) (h' : ∀ e ∈ entries, Takes inner e.2)
    (hscalar : ∀ e ∈ entries, e.1.tag.tag.isScalar = true)
    (hascending : (entries.map fun e => e.1.tagged).Pairwise (· < ·))
    (hprev : ∀ key ∈ prev, ∀ e ∈ entries, key < e.1.tagged)
    (hpos : bytes.drop pos = entries.flatMap entryTagged ++ rest) :
    validatePairs inner bytes entries.length prev pos =
      .ok (pos + (entries.flatMap entryTagged).length) := by
  induction entries generalizing pos prev with
  | nil => rfl
  | cons e es ih =>
    obtain ⟨hkey, hkeys⟩ := List.forall_mem_cons.mp h
    obtain ⟨hval, hvals⟩ := List.forall_mem_cons.mp h'
    obtain ⟨hs, hscalars⟩ := List.forall_mem_cons.mp hscalar
    rw [List.map_cons, List.pairwise_cons] at hascending
    rw [List.flatMap_cons, entryTagged, List.append_assoc, List.append_assoc] at hpos
    have hvalue : bytes.drop (pos + e.1.tagged.length) =
        e.2.tagged ++ (es.flatMap entryTagged ++ rest) := by
      rw [← List.drop_drop, hpos, List.drop_left]
    have hnext : bytes.drop (pos + e.1.tagged.length + e.2.tagged.length) =
        es.flatMap entryTagged ++ rest := by
      rw [← List.drop_drop, hvalue, List.drop_left]
    have hkeyBytes : fieldBytes bytes pos e.1.tagged.length = e.1.tagged := by
      unfold fieldBytes
      rw [hpos, List.take_left]
    have hnotBefore : (prev.any fun key => decide (e.1.tagged < key)) = false := by
      cases prev with
      | none => rfl
      | some key => exact decide_eq_false (lt_asymm (hprev key rfl e List.mem_cons_self))
    have hnotSame : prev ≠ some e.1.tagged := by
      rintro rfl
      exact lt_irrefl _ (hprev _ rfl e List.mem_cons_self)
    rw [List.length_cons, validatePairs, hpos, hkey.tagged, ok_bind]
    dsimp only
    rw [hs, hkeyBytes, hvalue, hval.tagged, ok_bind]
    dsimp only
    rw [if_neg (by simp), hnotBefore, if_neg Bool.false_ne_true, if_neg hnotSame,
      ih hkeys hvals hscalars hascending.2 ?_ hnext, List.flatMap_cons, List.length_append,
      entryTagged, List.length_append]
    · congr 1
      omega
    · intro key hk g hg
      obtain rfl := Option.mem_some_iff.mp hk
      exact hascending.1 _ (List.mem_map_of_mem hg)

theorem validateMinWidth_append {payload : List UInt8} (rest : List UInt8)
    (hwidth : payload.length = width) (what : String) :
    validateMinWidth (payload ++ rest) width what = .ok width := by
  unfold validateMinWidth
  rw [List.length_append, if_neg (by omega)]

theorem decodeLengthPrefixed_append {len : Varint} (rest : List UInt8)
    (hlength : len.value = body.length) (hfits : len.bytes.length + body.length < 2 ^ 64)
    (what : String) :
    decodeLengthPrefixed (len.bytes ++ body ++ rest) what =
      .ok (body, (len.bytes ++ body).length) := by
  unfold decodeLengthPrefixed
  rw [List.append_assoc, decodeCanonicalVarint_append, ok_bind]
  dsimp only
  rw [hlength, checkedAdd, addU64_eq_ok.mpr ⟨hfits, rfl⟩, ok_bind, if_neg (by simp), fieldBytes,
    List.drop_left, List.take_left, List.length_append]

/-- A payload of fixed width is a matter of its length. -/
theorem validate_fixed {tag : ValueTag} (h : tag.fixedWidth = some width)
    (fuel : Nat) (bytes : List UInt8) : ∃ what,
    validatePayloadInner validJson (fuel + 1) tag bytes = validateMinWidth bytes width what := by
  cases tag <;> cases h <;> first | exact ⟨_, rfl⟩ | exact ⟨"", by simp [validateMinWidth]; rfl⟩

/-- A payload behind a length is a matter of its body. -/
theorem validate_text {tag : ValueTag} {consumed : Nat}
    (hvalid : tag.ValidText validJson body) (fuel : Nat)
    (h : ∀ what, decodeLengthPrefixed bytes what = .ok (body, consumed)) :
    validatePayloadInner validJson (fuel + 1) tag bytes = .ok consumed := by
  unfold validatePayloadInner
  cases tag <;> first | exact hvalid.elim | skip
  case utf8 =>
    dsimp only
    rw [h, ok_bind]
    exact if_pos hvalid
  case binary =>
    dsimp only
    rw [h, ok_bind]
  case json =>
    dsimp only
    rw [h, ok_bind]
    exact if_pos hvalid

theorem length_le_flatMap {α : Type} {f : α → List UInt8} {items : List α} {item : α}
    (h : item ∈ items) : (f item).length ≤ (items.flatMap f).length := by
  obtain ⟨before, after, rfl⟩ := List.append_of_mem h
  simp only [List.flatMap_append, List.flatMap_cons, List.length_append]
  omega

theorem payload_length_lt (s : Spelling) : s.payload.length < s.tagged.length := by
  unfold Spelling.tagged
  rw [List.length_append]
  have := s.tag.varint.length_pos
  omega

/-- **The validator takes every well-formed payload**, given fuel for its bytes. -/
theorem validate_complete (h : s.WellFormed validJson) {fuel : Nat}
    (hfuel : s.payload.length < fuel) : Takes (validatePayloadInner validJson fuel) s := by
  induction h generalizing fuel with
  | @fixed tag payload width =>
    obtain ⟨fuel, rfl⟩ : ∃ n, fuel = n + 1 := ⟨fuel - 1, by omega⟩
    intro rest
    rw [payload_fixed]
    obtain ⟨what, hwhat⟩ := validate_fixed width fuel (payload ++ rest)
    exact hwhat.trans (validateMinWidth_append rest rfl what)
  | @text tag len body length fits valid =>
    obtain ⟨fuel, rfl⟩ : ∃ n, fuel = n + 1 := ⟨fuel - 1, by omega⟩
    intro rest
    rw [payload_text]
    exact validate_text valid fuel (decodeLengthPrefixed_append rest length fits)
  | @list tag count elements kind length each ih =>
    obtain ⟨fuel, rfl⟩ : ∃ n, fuel = n + 1 := ⟨fuel - 1, by omega⟩
    rw [payload_list, List.length_append] at hfuel
    have htakes : ∀ e ∈ elements, Takes (validatePayloadInner validJson fuel) e := by
      intro e he
      have hle := length_le_flatMap (f := Spelling.tagged) he
      have hlt := payload_length_lt e
      exact ih e he (by omega)
    intro rest
    rw [payload_list]
    show validatePayloadInner validJson (fuel + 1) tag.tag _ = _
    rw [kind]
    unfold validatePayloadInner
    dsimp only
    rw [List.append_assoc, decodeCanonicalVarint_append, ok_bind]
    dsimp only
    rw [length, validateElements_complete htakes List.drop_left, List.length_append]
  | @struct tag count fields kind length ascending each ih =>
    obtain ⟨fuel, rfl⟩ : ∃ n, fuel = n + 1 := ⟨fuel - 1, by omega⟩
    rw [payload_struct, List.length_append] at hfuel
    have htakes : ∀ f ∈ fields, Takes (validatePayloadInner validJson fuel) f.2 := by
      intro f hf
      have hle := length_le_flatMap (f := fieldTagged) hf
      have hlt := payload_length_lt f.2
      rw [fieldTagged, List.length_append] at hle
      exact ih f hf (by omega)
    intro rest
    rw [payload_struct]
    show validatePayloadInner validJson (fuel + 1) tag.tag _ = _
    rw [kind]
    unfold validatePayloadInner
    dsimp only
    rw [List.append_assoc, decodeCanonicalVarint_append, ok_bind]
    dsimp only
    rw [length, validateFields_complete htakes ascending (fun _ hid => by cases hid)
      List.drop_left, List.length_append]
  | @map tag count entries kind length scalar ascending keys each ihkeys ih =>
    obtain ⟨fuel, rfl⟩ : ∃ n, fuel = n + 1 := ⟨fuel - 1, by omega⟩
    rw [payload_map, List.length_append] at hfuel
    have hfits : ∀ e ∈ entries, e.1.payload.length < fuel ∧ e.2.payload.length < fuel := by
      intro e he
      have hle := length_le_flatMap (f := entryTagged) he
      have hlt := payload_length_lt e.1
      have hlt' := payload_length_lt e.2
      rw [entryTagged, List.length_append] at hle
      omega
    intro rest
    rw [payload_map]
    show validatePayloadInner validJson (fuel + 1) tag.tag _ = _
    rw [kind]
    unfold validatePayloadInner
    dsimp only
    rw [List.append_assoc, decodeCanonicalVarint_append, ok_bind]
    dsimp only
    rw [length, validatePairs_complete (fun e he => ihkeys e he (hfits e he).1)
      (fun e he => ih e he (hfits e he).2) scalar ascending (fun _ hkey => by cases hkey)
      List.drop_left, List.length_append]

/-! ## Nothing else is taken -/

/-- `inner` takes only payloads of well-formed values of the tag. -/
def ReadsSpelled (validJson : List UInt8 → Bool) (inner : ValueTag → List UInt8 → Except CoveError Nat) :
    Prop :=
  ∀ {bytes : List UInt8} {taken : Nat} (tag : TagVarint), inner tag.tag bytes = .ok taken →
    ∃ (s : Spelling) (rest : List UInt8), s.WellFormed validJson ∧ s.tag = tag ∧
      bytes = s.payload ++ rest ∧ taken = s.payload.length

/-- Then only tagged values are taken. -/
theorem ReadsSpelled.tagged (h : ReadsSpelled validJson inner) {tag : ValueTag}
    (hread : validateTaggedValue inner bytes = .ok (tag, taken)) :
    ∃ (s : Spelling) (rest : List UInt8), s.WellFormed validJson ∧ s.tag.tag = tag ∧
      bytes = s.tagged ++ rest ∧ taken = s.tagged.length := by
  unfold validateTaggedValue at hread
  obtain ⟨⟨rawTag, tagLen⟩, hvarint, hread⟩ := bind_eq_ok.mp hread
  obtain ⟨v, rest, rfl, rfl, rfl⟩ := exists_of_decodeCanonicalVarint hvarint
  dsimp only at hread
  split at hread
  · cases hread
  next valueTag hfrom =>
  obtain ⟨payloadLen, hinner, hread⟩ := bind_eq_ok.mp hread
  obtain ⟨rfl, rfl⟩ := Prod.mk.inj (Except.ok.inj hread)
  rw [List.drop_left] at hinner
  obtain ⟨s, rest', hs, htag, rfl, rfl⟩ :=
    h ⟨valueTag, v, ValueTag.code_of_fromU16 hfrom⟩ hinner
  refine ⟨s, rest', hs, by rw [htag], ?_, ?_⟩
  · rw [Spelling.tagged, htag, List.append_assoc]
  · rw [Spelling.tagged, htag, List.length_append]

theorem ReadsSpelled.elements (h : ReadsSpelled validJson inner)
    (hread : validateElements inner bytes count pos = .ok out) :
    ∃ (elements : List Spelling) (rest : List UInt8), elements.length = count ∧
      (∀ e ∈ elements, e.WellFormed validJson) ∧
      bytes.drop pos = elements.flatMap Spelling.tagged ++ rest ∧
      out = pos + (elements.flatMap Spelling.tagged).length := by
  induction count generalizing pos with
  | zero =>
    obtain rfl := Except.ok.inj hread
    exact ⟨[], bytes.drop pos, rfl, by simp, rfl, rfl⟩
  | succ count ih =>
    unfold validateElements at hread
    obtain ⟨⟨tag, consumed⟩, hone, hread⟩ := bind_eq_ok.mp hread
    obtain ⟨s, rest, hs, -, hdrop, rfl⟩ := h.tagged hone
    obtain ⟨elements, rest', rfl, hall, hdrop', rfl⟩ := ih hread
    rw [← List.drop_drop, hdrop, List.drop_left] at hdrop'
    refine ⟨s :: elements, rest', rfl, List.forall_mem_cons.mpr ⟨hs, hall⟩, ?_, ?_⟩
    · rw [hdrop, hdrop', List.flatMap_cons, List.append_assoc]
    · rw [List.flatMap_cons, List.length_append, Nat.add_assoc]

theorem ReadsSpelled.fields (h : ReadsSpelled validJson inner) {prev : Option Nat}
    (hread : validateFields inner bytes count prev pos = .ok out) :
    ∃ (fields : List (Varint × Spelling)) (rest : List UInt8), fields.length = count ∧
      (∀ f ∈ fields, f.2.WellFormed validJson) ∧
      (fields.map fun f => f.1.value).Pairwise (· < ·) ∧
      (∀ id ∈ prev, ∀ f ∈ fields, id < f.1.value) ∧
      bytes.drop pos = fields.flatMap fieldTagged ++ rest ∧
      out = pos + (fields.flatMap fieldTagged).length := by
  induction count generalizing pos prev with
  | zero =>
    obtain rfl := Except.ok.inj hread
    exact ⟨[], bytes.drop pos, rfl, by simp, .nil, by simp, rfl, rfl⟩
  | succ count ih =>
    unfold validateFields at hread
    obtain ⟨⟨fieldId, taken⟩, hid, hread⟩ := bind_eq_ok.mp hread
    obtain ⟨v, rest, hdrop, rfl, rfl⟩ := exists_of_decodeCanonicalVarint hid
    dsimp only at hread
    split at hread
    · cases hread
    next hafter =>
    obtain ⟨⟨tag, consumed⟩, hone, hread⟩ := bind_eq_ok.mp hread
    obtain ⟨s, rest', hs, -, hdrop', rfl⟩ := h.tagged hone
    obtain ⟨fields, rest'', rfl, hall, hascending, hbelow, hdrop'', rfl⟩ := ih hread
    rw [← List.drop_drop, hdrop', List.drop_left] at hdrop''
    rw [← List.drop_drop, hdrop, List.drop_left] at hdrop'
    have hfirst : ∀ f ∈ fields, v.value < f.1.value := hbelow _ rfl
    refine ⟨(v, s) :: fields, rest'', rfl, List.forall_mem_cons.mpr ⟨hs, hall⟩, ?_, ?_, ?_, ?_⟩
    · rw [List.map_cons]
      refine List.pairwise_cons.mpr ⟨fun id hmem => ?_, hascending⟩
      obtain ⟨f, hf, rfl⟩ := List.mem_map.mp hmem
      exact hfirst f hf
    · intro id hprev f hf
      obtain rfl : prev = some id := hprev
      have hlt : id < v.value := by
        by_contra hge
        exact hafter (decide_eq_true (Nat.not_lt.mp hge))
      rcases List.mem_cons.mp hf with rfl | hf
      · exact hlt
      · exact hlt.trans (hfirst f hf)
    · rw [hdrop, hdrop', hdrop'', List.flatMap_cons, fieldTagged, List.append_assoc,
        List.append_assoc]
    · rw [List.flatMap_cons, List.length_append, fieldTagged, List.length_append]
      dsimp only
      omega

theorem ReadsSpelled.pairs (h : ReadsSpelled validJson inner)
    (hread : validatePairs inner bytes count prev pos = .ok out) :
    ∃ (entries : List (Spelling × Spelling)) (rest : List UInt8), entries.length = count ∧
      (∀ e ∈ entries, e.1.WellFormed validJson) ∧ (∀ e ∈ entries, e.2.WellFormed validJson) ∧
      (∀ e ∈ entries, e.1.tag.tag.isScalar = true) ∧
      (entries.map fun e => e.1.tagged).Pairwise (· < ·) ∧
      (∀ key ∈ prev, ∀ e ∈ entries, key < e.1.tagged) ∧
      bytes.drop pos = entries.flatMap entryTagged ++ rest ∧
      out = pos + (entries.flatMap entryTagged).length := by
  induction count generalizing pos prev with
  | zero =>
    obtain rfl := Except.ok.inj hread
    exact ⟨[], bytes.drop pos, rfl, by simp, by simp, by simp, .nil, by simp, rfl, rfl⟩
  | succ count ih =>
    unfold validatePairs at hread
    obtain ⟨⟨keyTag, keyConsumed⟩, hkey, hread⟩ := bind_eq_ok.mp hread
    obtain ⟨k, rest, hk, rfl, hdrop, rfl⟩ := h.tagged hkey
    have hkeyBytes : fieldBytes bytes pos k.tagged.length = k.tagged := by
      unfold fieldBytes
      rw [hdrop, List.take_left]
    dsimp only at hread
    rw [hkeyBytes] at hread
    split at hread
    · cases hread
    next hscalar =>
    split at hread
    · cases hread
    next hnotBefore =>
    split at hread
    · cases hread
    next hnotSame =>
    obtain ⟨⟨tag, consumed⟩, hone, hread⟩ := bind_eq_ok.mp hread
    obtain ⟨s, rest', hs, -, hdrop', rfl⟩ := h.tagged hone
    obtain ⟨entries, rest'', rfl, hkeys, hall, hscalars, hascending, hbelow, hdrop'', rfl⟩ :=
      ih hread
    rw [← List.drop_drop, hdrop', List.drop_left] at hdrop''
    rw [← List.drop_drop, hdrop, List.drop_left] at hdrop'
    have hfirst : ∀ e ∈ entries, k.tagged < e.1.tagged := hbelow _ rfl
    rw [Bool.not_eq_true', Bool.not_eq_false] at hscalar
    refine ⟨(k, s) :: entries, rest'', rfl, List.forall_mem_cons.mpr ⟨hk, hkeys⟩,
      List.forall_mem_cons.mpr ⟨hs, hall⟩, List.forall_mem_cons.mpr ⟨hscalar, hscalars⟩, ?_, ?_, ?_,
      ?_⟩
    · rw [List.map_cons]
      refine List.pairwise_cons.mpr ⟨fun key hmem => ?_, hascending⟩
      obtain ⟨e, he, rfl⟩ := List.mem_map.mp hmem
      exact hfirst e he
    · intro key hprev e he
      obtain rfl : prev = some key := hprev
      have hlt : key < k.tagged := by
        refine lt_of_le_of_ne (not_lt.mp fun hlt => hnotBefore (decide_eq_true hlt)) ?_
        rintro rfl
        exact hnotSame rfl
      rcases List.mem_cons.mp he with rfl | he
      · exact hlt
      · exact hlt.trans (hfirst e he)
    · rw [hdrop, hdrop', hdrop'', List.flatMap_cons, entryTagged, List.append_assoc,
        List.append_assoc]
    · rw [List.flatMap_cons, List.length_append, entryTagged, List.length_append]
      dsimp only
      omega

theorem exists_of_decodeLengthPrefixed {total : Nat}
    (h : decodeLengthPrefixed bytes what = .ok (body, total)) :
    ∃ (len : Varint) (rest : List UInt8), bytes = len.bytes ++ body ++ rest ∧
      len.value = body.length ∧ len.bytes.length + body.length < 2 ^ 64 ∧
      total = (len.bytes ++ body).length := by
  unfold decodeLengthPrefixed at h
  obtain ⟨⟨payloadLen, prefixLen⟩, hvarint, h⟩ := bind_eq_ok.mp h
  obtain ⟨len, rest, rfl, rfl, rfl⟩ := exists_of_decodeCanonicalVarint hvarint
  obtain ⟨total', htotal, h⟩ := bind_eq_ok.mp h
  obtain ⟨hfits, rfl⟩ := addU64_eq_ok.mp htotal
  split at h
  · cases h
  next hle =>
  obtain ⟨rfl, rfl⟩ := Prod.mk.inj (Except.ok.inj h)
  rw [List.length_append] at hle
  have hbody : (fieldBytes (len.bytes ++ rest) len.bytes.length len.value).length = len.value := by
    rw [fieldBytes, List.drop_left, List.length_take]
    omega
  refine ⟨len, rest.drop len.value, ?_, hbody.symm, by rw [hbody]; exact hfits, ?_⟩
  · rw [List.append_assoc, fieldBytes, List.drop_left, List.take_append_drop]
  · rw [List.length_append, hbody]

/-- **The validator takes nothing but well-formed payloads.** The induction is on the fuel, which
goes down a level at a time. -/
theorem validate_sound (fuel : Nat) : ReadsSpelled validJson (validatePayloadInner validJson fuel) := by
  induction fuel with
  | zero =>
    intro bytes taken tag h
    cases h
  | succ fuel ih =>
    intro bytes taken tag h
    cases hwidth : tag.tag.fixedWidth with
    | some width =>
      obtain ⟨what, hwhat⟩ : ∃ what, validatePayloadInner validJson (fuel + 1) tag.tag bytes =
          validateMinWidth bytes width what := validate_fixed hwidth fuel bytes
      rw [hwhat] at h
      unfold validateMinWidth at h
      split at h
      · cases h
      next hle =>
      obtain rfl := Except.ok.inj h
      have hlen : (bytes.take width).length = width := by
        rw [List.length_take]
        omega
      refine ⟨.fixed tag (bytes.take width), bytes.drop width, .fixed (hwidth.trans ?_), rfl, ?_, ?_⟩
      · rw [hlen]
      · rw [payload_fixed, List.take_append_drop]
      · rw [payload_fixed, hlen]
    | none =>
      have htext : ∀ {what : String} {body : List UInt8} {total : Nat},
          decodeLengthPrefixed bytes what = .ok (body, total) →
          tag.tag.ValidText validJson body → taken = total →
          ∃ (s : Spelling) (rest : List UInt8), s.WellFormed validJson ∧ s.tag = tag ∧
            bytes = s.payload ++ rest ∧ taken = s.payload.length := by
        rintro what body total hread hvalid rfl
        obtain ⟨len, rest, rfl, hlength, hfits, rfl⟩ := exists_of_decodeLengthPrefixed hread
        exact ⟨.text tag len body, rest, .text hlength hfits hvalid, rfl, by rw [payload_text],
          by rw [payload_text]⟩
      unfold validatePayloadInner at h
      cases htag : tag.tag <;> rw [htag] at hwidth <;>
        first | exact absurd hwidth (by decide) | skip
      all_goals
        rw [htag] at h htext
        dsimp only at h
      case utf8 =>
        obtain ⟨⟨body, total⟩, hread, h⟩ := bind_eq_ok.mp h
        dsimp only at h
        split at h
        · next hvalid => exact htext hread hvalid (Except.ok.inj h).symm
        · cases h
      case binary =>
        obtain ⟨⟨body, total⟩, hread, h⟩ := bind_eq_ok.mp h
        exact htext hread trivial (Except.ok.inj h).symm
      case json =>
        obtain ⟨⟨body, total⟩, hread, h⟩ := bind_eq_ok.mp h
        dsimp only at h
        split at h
        · next hvalid => exact htext hread hvalid (Except.ok.inj h).symm
        · cases h
      case list =>
        obtain ⟨⟨count, pos⟩, hcount, h⟩ := bind_eq_ok.mp h
        obtain ⟨v, rest, rfl, rfl, rfl⟩ := exists_of_decodeCanonicalVarint hcount
        obtain ⟨elements, rest', hlength, hall, hdrop, rfl⟩ := ih.elements h
        rw [List.drop_left] at hdrop
        refine ⟨.list tag v elements, rest', .list htag hlength.symm hall, rfl, ?_, ?_⟩
        · rw [payload_list, hdrop, List.append_assoc]
        · rw [payload_list, List.length_append]
      case struct =>
        obtain ⟨⟨count, pos⟩, hcount, h⟩ := bind_eq_ok.mp h
        obtain ⟨v, rest, rfl, rfl, rfl⟩ := exists_of_decodeCanonicalVarint hcount
        obtain ⟨fields, rest', hlength, hall, hascending, -, hdrop, rfl⟩ := ih.fields h
        rw [List.drop_left] at hdrop
        refine ⟨.struct tag v fields, rest', .struct htag hlength.symm hascending hall, rfl, ?_, ?_⟩
        · rw [payload_struct, hdrop, List.append_assoc]
        · rw [payload_struct, List.length_append]
      case map =>
        obtain ⟨⟨count, pos⟩, hcount, h⟩ := bind_eq_ok.mp h
        obtain ⟨v, rest, rfl, rfl, rfl⟩ := exists_of_decodeCanonicalVarint hcount
        obtain ⟨entries, rest', hlength, hkeys, hall, hscalar, hascending, -, hdrop, rfl⟩ :=
          ih.pairs h
        rw [List.drop_left] at hdrop
        refine ⟨.map tag v entries, rest', .map htag hlength.symm hscalar hascending hkeys hall, rfl,
          ?_, ?_⟩
        · rw [payload_map, hdrop, List.append_assoc]
        · rw [payload_map, List.length_append]

/-- The tagged value that a payload spells, under the shortest spelling of its tag. -/
structure Spells (validJson : List UInt8 → Bool) (tag : ValueTag) (bytes : List UInt8)
    (s : Spelling) : Prop where
  wellFormed : s.WellFormed validJson
  tag_eq : s.tag = .shortest tag
  payload_eq : s.payload = bytes

/-- **The accepted payloads are the well-formed ones.** -/
theorem validate_iff {tag : ValueTag} :
    validateCanonicalPayload validJson tag bytes = .ok () ↔ ∃ s, Spells validJson tag bytes s := by
  unfold validateCanonicalPayload
  constructor
  · intro h
    obtain ⟨consumed, hread, h⟩ := bind_eq_ok.mp h
    split at h
    · cases h
    next hall =>
    rw [Classical.not_not] at hall
    obtain ⟨s, rest, hs, htag, hbytes, rfl⟩ := validate_sound _ (.shortest tag) hread
    obtain rfl : rest = [] := by
      have hlen := congrArg List.length hbytes
      rw [List.length_append] at hlen
      exact List.length_eq_zero_iff.mp (by omega)
    exact ⟨s, hs, htag, by rw [hbytes, List.append_nil]⟩
  · rintro ⟨s, hs, htag, rfl⟩
    have htakes := validate_complete hs (Nat.lt_succ_self _) []
    rw [List.append_nil, htag] at htakes
    show (validatePayloadInner validJson (s.payload.length + 1) tag s.payload >>= _) = _
    rw [show validatePayloadInner validJson (s.payload.length + 1) tag s.payload = _ from htakes,
      ok_bind, if_neg (by simp)]

/-! ## One spelling -/

/-- Items that are prefix-free are so one after the other. -/
theorem flatMap_inj {α : Type} {f : α → List UInt8} {items items' : List α}
    (h : ∀ a ∈ items, ∀ b ∈ items', ∀ {as bs}, f a ++ as = f b ++ bs → a = b ∧ as = bs)
    (hlen : items.length = items'.length)
    (heq : items.flatMap f ++ as = items'.flatMap f ++ bs) : items = items' ∧ as = bs := by
  induction items generalizing items' with
  | nil =>
    obtain rfl := List.length_eq_zero_iff.mp hlen.symm
    exact ⟨rfl, heq⟩
  | cons a items ih =>
    obtain _ | ⟨b, items'⟩ := items'
    · cases hlen
    rw [List.flatMap_cons, List.flatMap_cons, List.append_assoc, List.append_assoc] at heq
    obtain ⟨rfl, hrest⟩ := h a List.mem_cons_self b List.mem_cons_self heq
    obtain ⟨rfl, rfl⟩ := ih (fun a ha b hb => h a (List.mem_cons_of_mem _ ha) b
      (List.mem_cons_of_mem _ hb)) (Nat.succ.inj hlen) hrest
    exact ⟨rfl, rfl⟩

/-- Which constructor a tag calls for. -/
def ValueTag.shape : ValueTag → Nat
  | utf8 | binary | json => 1
  | list => 2
  | struct => 3
  | map => 4
  | _ => 0

def Spelling.shape : Spelling → Nat
  | fixed _ _ => 0
  | text _ _ _ => 1
  | list _ _ _ => 2
  | struct _ _ _ => 3
  | map _ _ _ => 4

/-- A well-formed spelling is built as its tag says. -/
theorem Spelling.WellFormed.shape_eq (h : s.WellFormed validJson) :
    s.shape = s.tag.tag.shape := by
  cases h with
  | @fixed tag _ width =>
    show 0 = tag.tag.shape
    cases htag : tag.tag <;> first | rfl | (rw [htag] at width; cases width)
  | @text tag _ _ _ _ valid =>
    show 1 = tag.tag.shape
    cases htag : tag.tag <;> first | rfl | (rw [htag] at valid; exact valid.elim)
  | @list tag _ _ kind => exact congrArg ValueTag.shape kind.symm
  | @struct tag _ _ kind => exact congrArg ValueTag.shape kind.symm
  | @map tag _ _ kind => exact congrArg ValueTag.shape kind.symm

/-- The tag of a tagged value is read off its bytes. -/
theorem tag_of_tagged (h : s.tagged ++ as = t.tagged ++ bs) :
    s.tag = t.tag ∧ s.payload ++ as = t.payload ++ bs := by
  unfold Spelling.tagged at h
  rw [List.append_assoc, List.append_assoc] at h
  obtain ⟨hvarint, hrest⟩ := Varint.append_inj h
  exact ⟨TagVarint.ext_varint hvarint, hrest⟩

/-- **The grammar is prefix-free.** The induction is on the first value; its tag and its count
are read off before its members are. -/
theorem tagged_inj (hs : s.WellFormed validJson) (ht : t.WellFormed validJson)
    (h : s.tagged ++ as = t.tagged ++ bs) : s = t ∧ as = bs := by
  induction hs generalizing t as bs with
  | @fixed tag payload width =>
    obtain ⟨htag, hrest⟩ := tag_of_tagged h
    have hfixed : (Spelling.fixed tag payload).WellFormed validJson := .fixed width
    have hshape : 0 = t.shape := by
      rw [ht.shape_eq, ← htag]
      exact hfixed.shape_eq
    cases ht with
    | @fixed tag' payload' width' =>
      obtain rfl : tag = tag' := htag
      rw [payload_fixed, payload_fixed] at hrest
      obtain ⟨rfl, rfl⟩ := List.append_inj hrest (Option.some.inj (width.symm.trans width'))
      exact ⟨rfl, rfl⟩
    | text | list | struct | map => cases hshape
  | @text tag len body length fits valid =>
    obtain ⟨htag, hrest⟩ := tag_of_tagged h
    have hshape : 1 = t.shape := by
      rw [ht.shape_eq, ← htag]
      exact (Spelling.WellFormed.text length fits valid).shape_eq
    cases ht with
    | @text tag' len' body' length' _ _ =>
      obtain rfl : tag = tag' := htag
      rw [payload_text, payload_text, List.append_assoc, List.append_assoc] at hrest
      obtain ⟨rfl, hbody⟩ := Varint.append_inj hrest
      obtain ⟨rfl, rfl⟩ := List.append_inj hbody (length.symm.trans length')
      exact ⟨rfl, rfl⟩
    | fixed | list | struct | map => cases hshape
  | @list tag count elements kind length each ih =>
    obtain ⟨htag, hrest⟩ := tag_of_tagged h
    have hshape : 2 = t.shape := by
      rw [ht.shape_eq, ← htag]
      exact (Spelling.WellFormed.list kind length each).shape_eq
    cases ht with
    | @list tag' count' elements' _ length' each' =>
      obtain rfl : tag = tag' := htag
      rw [payload_list, payload_list, List.append_assoc, List.append_assoc] at hrest
      obtain ⟨rfl, hmembers⟩ := Varint.append_inj hrest
      obtain ⟨rfl, rfl⟩ := flatMap_inj (fun e he e' he' _ _ heq => ih e he (each' e' he') heq)
        (length.symm.trans length') hmembers
      exact ⟨rfl, rfl⟩
    | fixed | text | struct | map => cases hshape
  | @struct tag count fields kind length ascending each ih =>
    obtain ⟨htag, hrest⟩ := tag_of_tagged h
    have hshape : 3 = t.shape := by
      rw [ht.shape_eq, ← htag]
      exact (Spelling.WellFormed.struct kind length ascending each).shape_eq
    cases ht with
    | @struct tag' count' fields' _ length' _ each' =>
      obtain rfl : tag = tag' := htag
      rw [payload_struct, payload_struct, List.append_assoc, List.append_assoc] at hrest
      obtain ⟨rfl, hmembers⟩ := Varint.append_inj hrest
      have hfield : ∀ f ∈ fields, ∀ g ∈ fields', ∀ {as bs},
          fieldTagged f ++ as = fieldTagged g ++ bs → f = g ∧ as = bs := by
        intro f hf g hg as bs heq
        rw [fieldTagged, fieldTagged, List.append_assoc, List.append_assoc] at heq
        obtain ⟨hid, hvalue⟩ := Varint.append_inj heq
        obtain ⟨hsame, rfl⟩ := ih f hf (each' g hg) hvalue
        exact ⟨Prod.ext hid hsame, rfl⟩
      obtain ⟨rfl, rfl⟩ := flatMap_inj hfield (length.symm.trans length') hmembers
      exact ⟨rfl, rfl⟩
    | fixed | text | list | map => cases hshape
  | @map tag count entries kind length scalar ascending keys each ihkeys ih =>
    obtain ⟨htag, hrest⟩ := tag_of_tagged h
    have hshape : 4 = t.shape := by
      rw [ht.shape_eq, ← htag]
      exact (Spelling.WellFormed.map kind length scalar ascending keys each).shape_eq
    cases ht with
    | @map tag' count' entries' _ length' _ _ keys' each' =>
      obtain rfl : tag = tag' := htag
      rw [payload_map, payload_map, List.append_assoc, List.append_assoc] at hrest
      obtain ⟨rfl, hmembers⟩ := Varint.append_inj hrest
      have hentry : ∀ e ∈ entries, ∀ e' ∈ entries', ∀ {as bs},
          entryTagged e ++ as = entryTagged e' ++ bs → e = e' ∧ as = bs := by
        intro e he e' he' as bs heq
        rw [entryTagged, entryTagged, List.append_assoc, List.append_assoc] at heq
        obtain ⟨hkey, hvalue⟩ := ihkeys e he (keys' e' he') heq
        obtain ⟨hsame, rfl⟩ := ih e he (each' e' he') hvalue
        exact ⟨Prod.ext hkey hsame, rfl⟩
      obtain ⟨rfl, rfl⟩ := flatMap_inj hentry (length.symm.trans length') hmembers
      exact ⟨rfl, rfl⟩
    | fixed | text | list | struct => cases hshape

/-- **A payload has one spelling.** -/
theorem Spells.unique {tag : ValueTag} (hs : Spells validJson tag bytes s)
    (ht : Spells validJson tag bytes t) : s = t := by
  have htagged : s.tagged ++ [] = t.tagged ++ [] := by
    rw [Spelling.tagged, Spelling.tagged, hs.tag_eq, ht.tag_eq, hs.payload_eq, ht.payload_eq]
  exact (tagged_inj hs.wellFormed ht.wellFormed htagged).1

end

/-! ## The value of a spelling -/

/-- The scalar that a body stands for under a tag. -/
def scalarValue (tag : ValueTag) (body : List UInt8) : CanonicalValue :=
  let signed (width : Nat) := LittleEndian.signed width (LittleEndian.ofLe body)
  match tag with
  | .null | .list | .struct | .map => .null
  | .boolFalse => .bool false
  | .boolTrue => .bool true
  | .int64 => .int 8 (signed 8)
  | .uint64 => .uint 8 (LittleEndian.ofLe body)
  | .float32Bits => .float32 ⟨BitVec.ofNat 32 (LittleEndian.ofLe body)⟩
  | .float64Bits => .float64 ⟨BitVec.ofNat 64 (LittleEndian.ofLe body)⟩
  | .decimal64 => .decimal64 (signed 8)
  | .decimal128 => .decimal128 (signed 16)
  | .dateDays => .dateDays (signed 4)
  | .timestampMicros => .timestampMicros (signed 8)
  | .timestampNanos => .timestampNanos (signed 8)
  | .uuid => if h : body.length = 16 then .uuid ⟨body, h⟩ else .null
  | .utf8 => ((strFromUtf8 body).map CanonicalValue.utf8).getD .null
  | .binary => .bytes body
  | .json => ((strFromUtf8 body).map CanonicalValue.json).getD (.bytes body)

namespace Spelling

mutual

/-- The value a spelling stands for. -/
def value : Spelling → CanonicalTree
  | fixed tag payload => .scalar (scalarValue tag.tag payload)
  | text tag _ body => .scalar (scalarValue tag.tag body)
  | list _ _ elements => .list (elementValues elements)
  | struct _ _ fields => .struct (fieldValues fields)
  | map _ _ entries => .map (entryValues entries)

def elementValues : List Spelling → List CanonicalTree
  | [] => []
  | element :: elements => value element :: elementValues elements

def fieldValues : List (Varint × Spelling) → List (Nat × CanonicalTree)
  | [] => []
  | (fieldId, field) :: fields => (fieldId.value, value field) :: fieldValues fields

def entryValues : List (Spelling × Spelling) → List (CanonicalTree × CanonicalTree)
  | [] => []
  | (key, entry) :: entries => (value key, value entry) :: entryValues entries

end

theorem value_fixed (tag : TagVarint) (payload : List UInt8) :
    (fixed tag payload).value = .scalar (scalarValue tag.tag payload) := rfl

theorem value_text (tag : TagVarint) (len : Varint) (body : List UInt8) :
    (text tag len body).value = .scalar (scalarValue tag.tag body) := rfl

theorem value_list (tag : TagVarint) (count : Varint) (elements : List Spelling) :
    (list tag count elements).value = .list (elements.map value) := by
  refine congrArg CanonicalTree.list ?_
  induction elements with
  | nil => rfl
  | cons e es ih =>
    show value e :: elementValues es = _
    rw [ih, List.map_cons]

theorem value_struct (tag : TagVarint) (count : Varint) (fields : List (Varint × Spelling)) :
    (struct tag count fields).value = .struct (fields.map fun f => (f.1.value, f.2.value)) := by
  refine congrArg CanonicalTree.struct ?_
  induction fields with
  | nil => rfl
  | cons f fs ih =>
    obtain ⟨fieldId, field⟩ := f
    show (fieldId.value, value field) :: fieldValues fs = _
    rw [ih, List.map_cons]

theorem value_map (tag : TagVarint) (count : Varint) (entries : List (Spelling × Spelling)) :
    (map tag count entries).value = .map (entries.map fun e => (e.1.value, e.2.value)) := by
  refine congrArg CanonicalTree.map ?_
  induction entries with
  | nil => rfl
  | cons e es ih =>
    obtain ⟨key, entry⟩ := e
    show (value key, value entry) :: entryValues es = _
    rw [ih, List.map_cons]

end Spelling

end Cove
