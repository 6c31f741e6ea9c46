import Cove.Core.SealedRecord
import Cove.Coverage.PredicateAst
import Cove.Lib.Digests

/-!
# Tables of predicate forms

A section of predicate forms is a table of records of 32 bytes, with the payloads they point to
behind it. The length of the table is not stored: a section without payloads is a flat table, and
otherwise the table ends where the first payload begins.

- `PredicateNormalFormV2`: a record, its `parse` and `serialize`; `parse_serialize`.
- `PredicateNormalFormWithPayloadV2.parseMany`: **the forms of a section with their payloads**.
- `Placed`: forms that point to their payloads, one behind the other.
- `Inferable`: the payloads after which the length of the table is inferred right.
- `parseMany_layout_iff`: **when a section is read back**.
-/

namespace Cove

variable {forms : List PredicateNormalFormV2}

namespace PredicateForms

open Checked

/-! ## Records -/

inductive PredicateFormKindV2 where
  | predicateAst
  | predicateCnf
  | intervalPredicateForm
  | encodedPredicateForm
  | enginePrivate
  deriving DecidableEq, Repr

namespace PredicateFormKindV2

/-- The discriminant. -/
def code : PredicateFormKindV2 → Nat
  | predicateAst => 0
  | predicateCnf => 1
  | intervalPredicateForm => 2
  | encodedPredicateForm => 3
  | enginePrivate => 255

/-- `PredicateFormKindV2::from_u16`. -/
def fromU16 (value : Nat) : Option PredicateFormKindV2 :=
  if value = 255 then some enginePrivate
  else [predicateAst, predicateCnf, intervalPredicateForm, encodedPredicateForm][value]?

theorem fromU16_code (kind : PredicateFormKindV2) : fromU16 kind.code = some kind := by
  cases kind <;> rfl

theorem code_lt (kind : PredicateFormKindV2) : kind.code < 2 ^ 16 := by
  cases kind <;> decide

end PredicateFormKindV2

/-- `PredicateNormalFormV2`. -/
structure PredicateNormalFormV2 where
  predicateFormId : Nat
  formKind : PredicateFormKindV2
  flags : Nat
  logicalContextRef : Nat
  payloadOffset : Nat
  payloadLength : Nat
  deriving DecidableEq, Repr

namespace PredicateNormalFormV2

/-- `LEN`. -/
def len : Nat := 32

/-- `PredicateNormalFormV2::validate`. -/
def validate (form : PredicateNormalFormV2) : Except CoveError Unit :=
  if form.logicalContextRef = absentId then .error .badCoverage
  else do
    let _ ← checkedAdd form.payloadOffset form.payloadLength
    if form.payloadLength = 0 ∧ form.payloadOffset ≠ 0 then .error .badCoverage else .ok ()

/-- `PredicateNormalFormV2::parse`. -/
def parse (bytes : List UInt8) : Except CoveError PredicateNormalFormV2 :=
  if bytes.length < len then .error .bufferTooShort
  else do
    let formKind ← fromCode (PredicateFormKindV2.fromU16 (fieldNat bytes 4 2))
    verifyCrc Crc32c.crc32c (bytes.take len) 28 (fieldNat bytes 28 4)
    let form := {
      predicateFormId := fieldNat bytes 0 4
      formKind
      flags := fieldNat bytes 6 2
      logicalContextRef := fieldNat bytes 8 4
      payloadOffset := fieldNat bytes 12 8
      payloadLength := fieldNat bytes 20 8 }
    form.validate
    .ok form

/-- The fields before the checksum. -/
def fields (form : PredicateNormalFormV2) : List (Nat × Nat) :=
  [(4, form.predicateFormId), (2, form.formKind.code), (2, form.flags), (4, form.logicalContextRef),
    (8, form.payloadOffset), (8, form.payloadLength)]

/-- `PredicateNormalFormV2::serialize`. -/
def serialize (form : PredicateNormalFormV2) : Except CoveError (List UInt8) := do
  form.validate
  .ok (FieldRecord.encode (sealRecord Crc32c.crc32c form.fields))

/-- The loop of `PredicateNormalFormV2::parse_many`, with the ids seen so far. -/
def parseChunks (ids : List Nat) : List (List UInt8) → Except CoveError (List PredicateNormalFormV2)
  | [] => .ok []
  | chunk :: chunks => do
    let form ← parse chunk
    if form.predicateFormId ∈ ids then .error .badCoverage
    else do
      let forms ← parseChunks (form.predicateFormId :: ids) chunks
      .ok (form :: forms)

/-- `PredicateNormalFormV2::parse_many`. -/
def parseMany (bytes : List UInt8) : Except CoveError (List PredicateNormalFormV2) :=
  if bytes.length % len ≠ 0 then .error .badCoverage else parseChunks [] (chunksExact len bytes)

end PredicateNormalFormV2

/-! ## Sections -/

/-- `PredicateNormalFormWithPayloadV2`. -/
structure PredicateNormalFormWithPayloadV2 where
  form : PredicateNormalFormV2
  payload : List UInt8
  deriving DecidableEq, Repr

namespace PredicateNormalFormWithPayloadV2

/-- The checks of a form of the table, whose record ends at `next`, and the new end of the table. -/
def narrowTable (bytes : List UInt8) (form : PredicateNormalFormV2) (next tableEnd : Nat) :
    Except CoveError Nat :=
  if form.payloadLength ≠ 0 then do
    let stop ← checkedAdd form.payloadOffset form.payloadLength
    if form.payloadOffset < next ∨ stop > bytes.length then .error .badCoverage
    else .ok (min tableEnd form.payloadOffset)
  else .ok tableEnd

/-- The loop over the table. Every round takes 32 of the bytes, which bounds the rounds. -/
def tableLoop (bytes : List UInt8) :
    Nat → Nat → Nat → List Nat → Except CoveError (List PredicateNormalFormV2)
  | 0, _, _, _ => .ok []
  | rounds + 1, cursor, tableEnd, ids =>
    if cursor < tableEnd then do
      let next ← checkedAdd cursor PredicateNormalFormV2.len
      if next > bytes.length then .error .bufferTooShort
      else do
        let form ← PredicateNormalFormV2.parse (fieldBytes bytes cursor PredicateNormalFormV2.len)
        if form.predicateFormId ∈ ids then .error .badCoverage
        else do
          let tableEnd ← narrowTable bytes form next tableEnd
          let forms ← tableLoop bytes rounds next tableEnd (form.predicateFormId :: ids)
          .ok (form :: forms)
    else .ok []

/-- A form with the payload it points to. -/
def withPayload (bytes : List UInt8) (form : PredicateNormalFormV2) :
    Except CoveError PredicateNormalFormWithPayloadV2 :=
  if form.payloadLength = 0 then .ok ⟨form, []⟩
  else do
    let stop ← checkedAdd form.payloadOffset form.payloadLength
    if stop > bytes.length then .error .bufferTooShort
    else .ok ⟨form, fieldBytes bytes form.payloadOffset form.payloadLength⟩

/-- `PredicateNormalFormWithPayloadV2::parse_many` of a section that is not a flat table. -/
def parseTable (bytes : List UInt8) : Except CoveError (List PredicateNormalFormWithPayloadV2) := do
  let first ← PredicateNormalFormV2.parse bytes
  let tableEnd := if first.payloadLength = 0 then bytes.length else first.payloadOffset
  if tableEnd = 0 ∨ tableEnd > bytes.length ∨ tableEnd % PredicateNormalFormV2.len ≠ 0 then
    .error .badCoverage
  else do
    let forms ← tableLoop bytes (bytes.length + 1) 0 tableEnd []
    forms.mapM (withPayload bytes)

/-- `PredicateNormalFormWithPayloadV2::parse_many`. -/
def parseMany (bytes : List UInt8) : Except CoveError (List PredicateNormalFormWithPayloadV2) :=
  if bytes = [] then .ok []
  else if bytes.length % PredicateNormalFormV2.len = 0 then do
    let forms ← PredicateNormalFormV2.parseMany bytes
    if forms.all fun form => form.payloadLength == 0 then .ok (forms.map fun form => ⟨form, []⟩)
    else parseTable bytes
  else parseTable bytes

end PredicateNormalFormWithPayloadV2

/-! ## Records read back -/

namespace PredicateNormalFormV2

/-- The fields of a form have their widths. -/
structure Fits (form : PredicateNormalFormV2) : Prop where
  predicateFormId : form.predicateFormId < 2 ^ 32
  flags : form.flags < 2 ^ 16
  logicalContextRef : form.logicalContextRef < 2 ^ 32
  payloadOffset : form.payloadOffset < 2 ^ 64
  payloadLength : form.payloadLength < 2 ^ 64

variable {form : PredicateNormalFormV2}

theorem fits_fields (h : form.Fits) : FieldRecord.Fits form.fields := by
  have hkind := form.formKind.code_lt
  obtain ⟨hid, hflags, hcontext, hoffset, hlength⟩ := h
  intro f hf
  simp only [fields, List.mem_cons, List.not_mem_nil, or_false] at hf
  rcases hf with rfl | rfl | rfl | rfl | rfl | rfl
  · exact hid
  · exact hkind
  · exact hflags
  · exact hcontext
  · exact hoffset
  · exact hlength

theorem validate_eq_ok : form.validate = .ok () ↔ form.logicalContextRef ≠ absentId ∧
    form.payloadOffset + form.payloadLength < 2 ^ 64 ∧
      (form.payloadLength = 0 → form.payloadOffset = 0) := by
  unfold validate
  rw [ite_error_eq_ok, bind_eq_ok]
  refine and_congr_right fun _ => ?_
  constructor
  · rintro ⟨stop, hstop, h⟩
    obtain ⟨hsum, -⟩ := addU64_eq_ok.mp hstop
    obtain ⟨hempty, -⟩ := ite_error_eq_ok.mp h
    exact ⟨hsum, fun hzero => by_contra fun hne => hempty ⟨hzero, hne⟩⟩
  · rintro ⟨hsum, hempty⟩
    refine ⟨_, addU64_eq_ok.mpr ⟨hsum, rfl⟩, if_neg ?_⟩
    exact fun h => h.2 (hempty h.1)

/-- The bytes of a form. -/
def record (form : PredicateNormalFormV2) : List UInt8 :=
  FieldRecord.encode (sealRecord Crc32c.crc32c form.fields)

theorem length_record (form : PredicateNormalFormV2) : form.record.length = len := by
  rw [record, FieldRecord.length_encode, width_sealRecord]
  rfl

theorem serialize_eq_ok {bytes : List UInt8} :
    form.serialize = .ok bytes ↔ form.validate = .ok () ∧ bytes = form.record := by
  unfold serialize
  rw [bind_eq_ok]
  constructor
  · rintro ⟨_, hvalid, h⟩
    exact ⟨hvalid, (Except.ok.inj h).symm⟩
  · rintro ⟨hvalid, rfl⟩
    exact ⟨(), hvalid, rfl⟩

/-- The checksum of a record holds. -/
theorem verifyCrc_record (form : PredicateNormalFormV2) (rest : List UInt8) (hfits : form.Fits) :
    verifyCrc Crc32c.crc32c ((form.record ++ rest).take len) 28 (fieldNat (form.record ++ rest) 28 4)
      = .ok () := by
  have hsealed := fits_sealRecord Crc32c.crc32c_lt (fits_fields hfits)
  have hwidth : (FieldRecord.encode form.fields).length = 28 := FieldRecord.length_encode _
  have hcrc : fieldNat (form.record ++ rest) 28 4 =
      Crc32c.crc32c (FieldRecord.encode form.fields ++ [0, 0, 0, 0]) := by
    rw [record]
    exact fieldNat_encode hsealed rfl rest
  rw [hcrc, List.take_left' form.length_record]
  unfold verifyCrc
  have hbody : form.record.take 28 = FieldRecord.encode form.fields := by
    rw [record, sealRecord, FieldRecord.encode_append, List.take_left' hwidth]
  have hend : form.record.drop (28 + 4) = [] :=
    List.drop_of_length_le (Nat.le_of_eq form.length_record)
  dsimp only
  rw [hbody, hend, List.append_nil]
  exact if_neg (not_not_intro rfl)

/-- **A form reads back** from the start of any bytes. -/
theorem parse_serialize (hfits : form.Fits) {bytes : List UInt8} (h : form.serialize = .ok bytes)
    (rest : List UInt8) : parse (bytes ++ rest) = .ok form := by
  obtain ⟨hvalid, rfl⟩ := serialize_eq_ok.mp h
  have hfield : ∀ (offset w : Nat) {value : Nat},
      FieldRecord.fieldAt (sealRecord Crc32c.crc32c form.fields) offset w = some value →
        fieldNat (form.record ++ rest) offset w = value := fun _ _ _ hat =>
    fieldNat_encode (fits_sealRecord Crc32c.crc32c_lt (fits_fields hfits)) hat rest
  have hlong : ¬(form.record ++ rest).length < len := by
    rw [List.length_append, form.length_record]
    omega
  have hkind : fieldNat (form.record ++ rest) 4 2 = form.formKind.code := hfield 4 2 rfl
  unfold parse
  rw [if_neg hlong, verifyCrc_record form rest hfits, hkind, PredicateFormKindV2.fromU16_code,
    hfield 0 4 rfl, hfield 6 2 rfl, hfield 8 4 rfl, hfield 12 8 rfl, hfield 20 8 rfl]
  show (form.validate >>= fun _ => .ok form) = .ok form
  rw [hvalid]
  rfl

theorem parse_record (hfits : form.Fits) (hvalid : form.validate = .ok ()) (rest : List UInt8) :
    parse (form.record ++ rest) = .ok form :=
  parse_serialize hfits (serialize_eq_ok.mpr ⟨hvalid, rfl⟩) rest

/-! ## Flat tables -/

/-- A flat table is accepted when its records are forms with ids that are new. -/
theorem parseChunks_eq_ok {ids : List Nat} {chunks : List (List UInt8)} :
    parseChunks ids chunks = .ok forms ↔ chunks.mapM parse = .ok forms ∧
      (forms.map predicateFormId).Nodup ∧ ∀ form ∈ forms, form.predicateFormId ∉ ids := by
  induction chunks generalizing ids forms with
  | nil =>
    rw [List.mapM_nil]
    constructor
    · intro h
      obtain rfl := Except.ok.inj h
      exact ⟨rfl, List.nodup_nil, nofun⟩
    · exact fun h => h.1
  | cons chunk chunks ih =>
    rw [parseChunks, List.mapM_cons, bind_eq_ok, bind_eq_ok]
    constructor
    · rintro ⟨form, hform, h⟩
      obtain ⟨hnew, h⟩ := ite_error_eq_ok.mp h
      obtain ⟨rest, hrest, h⟩ := bind_eq_ok.mp h
      obtain rfl := Except.ok.inj h
      obtain ⟨hmap, hnodup, hout⟩ := ih.mp hrest
      refine ⟨⟨form, hform, bind_eq_ok.mpr ⟨rest, hmap, rfl⟩⟩, ?_, ?_⟩
      · rw [List.map_cons, List.nodup_cons]
        refine ⟨fun hmem => ?_, hnodup⟩
        obtain ⟨other, hother, heq⟩ := List.mem_map.mp hmem
        exact hout other hother (by rw [heq]; exact List.mem_cons_self)
      · exact List.forall_mem_cons.mpr ⟨hnew, fun f hf hmem => hout f hf (List.mem_cons_of_mem _ hmem)⟩
    · rintro ⟨⟨form, hform, h⟩, hnodup, hout⟩
      obtain ⟨rest, hmap, h⟩ := bind_eq_ok.mp h
      obtain rfl := Except.ok.inj h
      rw [List.map_cons, List.nodup_cons] at hnodup
      obtain ⟨hnew, hrestNew⟩ := List.forall_mem_cons.mp hout
      refine ⟨form, hform, ite_error_eq_ok.mpr ⟨hnew, bind_eq_ok.mpr ⟨rest, ih.mpr ⟨hmap, hnodup.2, ?_⟩, rfl⟩⟩⟩
      intro f hf hmem
      rcases List.mem_cons.mp hmem with heq | hmem
      · exact hnodup.1 (heq ▸ List.mem_map_of_mem hf)
      · exact hrestNew f hf hmem

theorem chunksExact_append {width n : Nat} {xs ys : List UInt8} (hwidth : 0 < width)
    (hlen : xs.length = n * width) :
    chunksExact width (xs ++ ys) = chunksExact width xs ++ chunksExact width ys := by
  have hcount : (xs ++ ys).length / width = n + ys.length / width := by
    rw [List.length_append, hlen, Nat.mul_comm, Nat.mul_add_div hwidth]
  have hcount' : xs.length / width = n := by
    rw [hlen, Nat.mul_div_cancel _ hwidth]
  unfold chunksExact
  rw [hcount, hcount', List.range_add, List.map_append, List.map_map]
  congr 1
  · refine List.map_congr_left fun i hi => ?_
    have hlt : i + 1 ≤ n := List.mem_range.mp hi
    have hfits : (i + 1) * width ≤ n * width := Nat.mul_le_mul_right width hlt
    rw [Nat.succ_mul] at hfits
    rw [List.drop_append_of_le_length (by omega), List.take_append_of_le_length]
    rw [List.length_drop]
    omega
  · refine List.map_congr_left fun i _ => ?_
    show ((xs ++ ys).drop ((n + i) * width)).take width = (ys.drop (i * width)).take width
    rw [Nat.add_mul, ← hlen, ← List.drop_drop, List.drop_left]

/-- The bytes of a table. -/
def table (forms : List PredicateNormalFormV2) : List UInt8 := forms.flatMap record

theorem length_table (forms : List PredicateNormalFormV2) :
    (table forms).length = forms.length * len :=
  Strides.length_flatMap fun form _ => form.length_record

/-- Forms that can stand in a table. -/
structure Tabular (forms : List PredicateNormalFormV2) : Prop where
  fits : ∀ form ∈ forms, form.Fits
  valid : ∀ form ∈ forms, form.validate = .ok ()
  ids : (forms.map predicateFormId).Nodup

/-- **A flat reading** of a table and bytes behind it succeeds when these are a flat table too, with
ids of its own. -/
theorem parseMany_table_iff (htab : Tabular forms)
    {rest : List UInt8} (hrest : rest.length % len = 0) (all : List PredicateNormalFormV2) :
    parseMany (table forms ++ rest) = .ok all ↔
      ∃ extra, parseMany rest = .ok extra ∧ all = forms ++ extra ∧
        ∀ form ∈ extra, form.predicateFormId ∉ forms.map predicateFormId := by
  have hlen : (table forms ++ rest).length % len = 0 := by
    rw [List.length_append, length_table, Nat.add_mod, Nat.mul_mod_left, hrest]
    rfl
  have hmap : (forms.map record).mapM parse = .ok forms := by
    rw [mapM_eq_ok, List.forall₂_map_left_iff, List.forall₂_same]
    intro form hmem
    have := parse_record (htab.fits form hmem) (htab.valid form hmem) []
    rwa [List.append_nil] at this
  have hchunks : chunksExact len (table forms ++ rest) = forms.map record ++ chunksExact len rest := by
    rw [chunksExact_append (by decide) (length_table forms), table,
      chunksExact_flatMap (by decide) fun form _ => form.length_record]
  unfold parseMany
  rw [if_neg (not_not_intro hlen), if_neg (not_not_intro hrest), hchunks, parseChunks_eq_ok,
    List.mapM_append, hmap, ok_bind]
  constructor
  · rintro ⟨h, hnodup, -⟩
    obtain ⟨extra, hextra, h⟩ := bind_eq_ok.mp h
    obtain rfl := Except.ok.inj h
    rw [List.map_append, List.nodup_append] at hnodup
    obtain ⟨-, hextraIds, hdisjoint⟩ := hnodup
    refine ⟨extra, parseChunks_eq_ok.mpr ⟨hextra, hextraIds, nofun⟩, rfl, fun form hform hmem => ?_⟩
    exact hdisjoint _ hmem _ (List.mem_map_of_mem hform) rfl
  · rintro ⟨extra, hextra, rfl, hnew⟩
    obtain ⟨hmapped, hextraIds, -⟩ := parseChunks_eq_ok.mp hextra
    refine ⟨bind_eq_ok.mpr ⟨extra, hmapped, rfl⟩, ?_, nofun⟩
    rw [List.map_append, List.nodup_append]
    refine ⟨htab.ids, hextraIds, ?_⟩
    rintro id hid other hother rfl
    obtain ⟨form, hform, rfl⟩ := List.mem_map.mp hother
    exact hnew form hform hid

end PredicateNormalFormV2

/-! ## Tables with payloads -/

namespace PredicateNormalFormWithPayloadV2

open PredicateNormalFormV2

/-- Forms that point to their payloads, which stand one behind the other from `offset` on. A form
without a payload points nowhere. -/
def Placed (offset : Nat) : List PredicateNormalFormWithPayloadV2 → Prop
  | [] => True
  | item :: items =>
    item.form.payloadLength = item.payload.length ∧
      item.form.payloadOffset = (if item.payload = [] then 0 else offset) ∧
        Placed (offset + item.payload.length) items

/-- The payloads, one behind the other. -/
def payloads (items : List PredicateNormalFormWithPayloadV2) : List UInt8 :=
  items.flatMap PredicateNormalFormWithPayloadV2.payload

/-- A section: the table, and the payloads behind it. -/
def layout (items : List PredicateNormalFormWithPayloadV2) : List UInt8 :=
  table (items.map form) ++ payloads items

/-- Items that can be laid out: forms of a table, each pointing to its payload. -/
structure Layable (items : List PredicateNormalFormWithPayloadV2) : Prop where
  tabular : Tabular (items.map form)
  placed : Placed (items.length * len) items

/-- **The payloads after which the length of the table is inferred right.** When they do not fill
records, the first form has one; when they do, they are a flat table themselves, whose ids are
not those of the forms. -/
def Inferable (items : List PredicateNormalFormWithPayloadV2) : Prop :=
  if (payloads items).length % len = 0 then
    ∃ extra, PredicateNormalFormV2.parseMany (payloads items) = .ok extra ∧
      ∀ form ∈ extra, form.predicateFormId ∉ items.map (·.form.predicateFormId)
  else ∀ item ∈ items.head?, item.payload ≠ []

section

variable {items : List PredicateNormalFormWithPayloadV2} {bytes before : List UInt8}
variable {offset cursor tableEnd : Nat} {ids : List Nat}

/-- A payload is cut out of the bytes where its form says. -/
theorem withPayload_eq {item : PredicateNormalFormWithPayloadV2} {after : List UInt8}
    (hvalid : item.form.validate = .ok ()) (hlength : item.form.payloadLength = item.payload.length)
    (hoffset : item.form.payloadOffset = if item.payload = [] then 0 else offset)
    (hbytes : bytes = before ++ (item.payload ++ after)) (hbefore : before.length = offset) :
    withPayload bytes item.form = .ok item := by
  obtain ⟨-, hsum, -⟩ := validate_eq_ok.mp hvalid
  unfold withPayload
  by_cases hempty : item.payload = []
  · have hzero : item.form.payloadLength = 0 := by
      rw [hlength, hempty]
      rfl
    rw [if_pos hzero, ← hempty]
  · have hpos : item.form.payloadLength ≠ 0 := by
      rw [hlength]
      exact fun h => hempty (List.length_eq_zero_iff.mp h)
    have hadd : checkedAdd item.form.payloadOffset item.form.payloadLength =
        .ok (item.form.payloadOffset + item.form.payloadLength) := addU64_eq_ok.mpr ⟨hsum, rfl⟩
    rw [if_neg hempty] at hoffset
    have hfits : ¬item.form.payloadOffset + item.form.payloadLength > bytes.length := by
      rw [hoffset, hlength, hbytes, List.length_append, List.length_append, hbefore]
      omega
    have hcut : fieldBytes bytes item.form.payloadOffset item.form.payloadLength = item.payload := by
      rw [fieldBytes, hoffset, hlength, hbytes, List.drop_left' hbefore, List.take_left]
    rw [if_neg hpos, hadd, ok_bind, if_neg hfits, hcut]

/-- All payloads are. -/
theorem mapM_withPayload (hplaced : Placed offset items)
    (hvalid : ∀ item ∈ items, item.form.validate = .ok ())
    (hbytes : bytes = before ++ payloads items) (hbefore : before.length = offset) :
    (items.map form).mapM (withPayload bytes) = .ok items := by
  induction items generalizing offset before with
  | nil => rfl
  | cons item items ih =>
    obtain ⟨hlength, hoffset, hrest⟩ := hplaced
    obtain ⟨hitem, hitems⟩ := List.forall_mem_cons.mp hvalid
    rw [payloads, List.flatMap_cons, ← payloads] at hbytes
    have hhead := withPayload_eq hitem hlength hoffset hbytes hbefore
    rw [← List.append_assoc] at hbytes
    have htail := ih hrest hitems hbytes (by rw [List.length_append, hbefore])
    rw [List.map_cons, List.mapM_cons, hhead, ok_bind, htail]
    rfl

/-- A form without a payload leaves the end of the table. -/
theorem narrowTable_empty {form : PredicateNormalFormV2} {next : Nat} (h : form.payloadLength = 0) :
    narrowTable bytes form next tableEnd = .ok tableEnd := if_neg (not_not_intro h)

/-- A form with a payload behind its record and within the bytes narrows the table to it. -/
theorem narrowTable_eq {form : PredicateNormalFormV2} {next : Nat} (h : form.payloadLength ≠ 0)
    (hvalid : form.validate = .ok ()) (hnext : next ≤ form.payloadOffset)
    (hlen : form.payloadOffset + form.payloadLength ≤ bytes.length) :
    narrowTable bytes form next tableEnd = .ok (min tableEnd form.payloadOffset) := by
  obtain ⟨-, hsum, -⟩ := validate_eq_ok.mp hvalid
  have hadd : checkedAdd form.payloadOffset form.payloadLength =
      .ok (form.payloadOffset + form.payloadLength) := addU64_eq_ok.mpr ⟨hsum, rfl⟩
  unfold narrowTable
  rw [if_pos h, hadd, ok_bind, if_neg (by omega)]

/-- **The loop reads the table to its end**, from any record on: either the end has been found,
or all payloads so far were empty and one is still to come. The induction is on the forms left. -/
theorem tableLoop_eq {after : List UInt8} {rounds stop : Nat}
    (hfits : ∀ item ∈ items, item.form.Fits) (hvalid : ∀ item ∈ items, item.form.validate = .ok ())
    (hids : (items.map (·.form.predicateFormId)).Nodup)
    (hnew : ∀ item ∈ items, item.form.predicateFormId ∉ ids)
    (hbytes : bytes = before ++ (table (items.map form) ++ after)) (hbefore : before.length = cursor)
    (hstop : stop = cursor + items.length * len) (hsmall : stop < 2 ^ 64)
    (hplaced : Placed offset items) (hoffset : stop ≤ offset)
    (hin : offset + (payloads items).length ≤ bytes.length) (hrounds : items.length < rounds)
    (hend : tableEnd = stop ∨ tableEnd = bytes.length ∧ offset = stop ∧ payloads items ≠ []) :
    tableLoop bytes rounds cursor tableEnd ids = .ok (items.map form) := by
  induction items generalizing before cursor offset rounds tableEnd ids with
  | nil =>
    obtain ⟨rounds, rfl⟩ : ∃ r, rounds = r + 1 := Nat.exists_eq_succ_of_ne_zero (by omega)
    rcases hend with rfl | ⟨-, -, hne⟩
    · rw [tableLoop, if_neg (by rw [hstop]; simp)]
      rfl
    · exact absurd rfl hne
  | cons item items ih =>
    obtain ⟨rounds, rfl⟩ : ∃ r, rounds = r + 1 := Nat.exists_eq_succ_of_ne_zero (by omega)
    obtain ⟨hitemFits, hfits⟩ := List.forall_mem_cons.mp hfits
    obtain ⟨hitemValid, hvalid⟩ := List.forall_mem_cons.mp hvalid
    obtain ⟨hitemNew, hnew⟩ := List.forall_mem_cons.mp hnew
    obtain ⟨hlength, hitemOffset, hplaced⟩ := hplaced
    rw [List.map_cons, List.nodup_cons] at hids
    rw [payloads, List.flatMap_cons, ← payloads, List.length_append] at hin
    rw [List.map_cons, table, List.flatMap_cons, ← table, List.append_assoc] at hbytes
    have hlen : len = 32 := rfl
    rw [List.length_cons, Nat.succ_mul] at hstop
    rw [List.length_cons] at hrounds
    have hlt : cursor < tableEnd := by omega
    have hnext : checkedAdd cursor len = .ok (cursor + len) := addU64_eq_ok.mpr ⟨by omega, rfl⟩
    have hparse : PredicateNormalFormV2.parse (fieldBytes bytes cursor len) = .ok item.form := by
      rw [fieldBytes, hbytes, List.drop_left' hbefore, List.take_left' item.form.length_record]
      have := parse_record hitemFits hitemValid []
      rwa [List.append_nil] at this
    -- What the payload of this form tells of the end of the table.
    obtain ⟨tableEnd', hnarrow, hend'⟩ : ∃ tableEnd',
        narrowTable bytes item.form (cursor + len) tableEnd = .ok tableEnd' ∧
          (tableEnd' = stop ∨ tableEnd' = bytes.length ∧ offset + item.payload.length = stop ∧
            payloads items ≠ []) := by
      by_cases hempty : item.payload = []
      · have hzero : item.form.payloadLength = 0 := by
          rw [hlength, hempty]
          rfl
        refine ⟨tableEnd, narrowTable_empty hzero, ?_⟩
        rcases hend with hfound | ⟨hbytesEnd, hat, hne⟩
        · exact .inl hfound
        · rw [payloads, List.flatMap_cons, hempty, List.nil_append, ← payloads] at hne
          rw [hempty]
          exact .inr ⟨hbytesEnd, hat, hne⟩
      · rw [if_neg hempty] at hitemOffset
        have hpos : item.form.payloadLength ≠ 0 := by
          rw [hlength]
          exact fun h => hempty (List.length_eq_zero_iff.mp h)
        refine ⟨_, narrowTable_eq hpos hitemValid (by omega) (by omega), .inl ?_⟩
        omega
    have hnew' : ∀ other ∈ items,
        other.form.predicateFormId ∉ item.form.predicateFormId :: ids := by
      intro other hother hmem
      rcases List.mem_cons.mp hmem with heq | hmem
      · exact hids.1 (List.mem_map.mpr ⟨other, hother, heq⟩)
      · exact hnew other hother hmem
    have hbytes' : bytes = before ++ item.form.record ++ (table (items.map form) ++ after) := by
      rw [hbytes, List.append_assoc]
    have hbefore' : (before ++ item.form.record).length = cursor + len := by
      rw [List.length_append, hbefore, item.form.length_record]
    have hrest := ih hfits hvalid hids.2 hnew' hbytes' hbefore' (by omega) hplaced (by omega)
      (by omega) (show items.length < rounds by omega) hend'
    rw [tableLoop, if_pos hlt, hnext, ok_bind, if_neg (by omega), hparse, ok_bind, if_neg hitemNew,
      hnarrow, ok_bind, hrest]
    rfl

/-- Where there is a payload, some form points no lower than the first can. -/
theorem exists_le_payloadOffset (hplaced : Placed offset items) (hne : payloads items ≠ []) :
    ∃ item ∈ items, offset ≤ item.form.payloadOffset := by
  induction items generalizing offset with
  | nil => exact absurd rfl hne
  | cons item items ih =>
    obtain ⟨-, hoffset, hrest⟩ := hplaced
    by_cases hempty : item.payload = []
    · rw [payloads, List.flatMap_cons, hempty, List.nil_append, ← payloads] at hne
      obtain ⟨other, hother, hle⟩ := ih hrest hne
      exact ⟨other, List.mem_cons_of_mem _ hother, by omega⟩
    · rw [if_neg hempty] at hoffset
      exact ⟨item, List.mem_cons_self, by omega⟩

theorem length_layout (items : List PredicateNormalFormWithPayloadV2) :
    (layout items).length = items.length * len + (payloads items).length := by
  rw [layout, List.length_append, length_table, List.length_map]

/-- A form has no payload exactly when it says so. -/
theorem payload_eq_nil_iff (hplaced : Placed offset items) :
    ∀ item ∈ items, item.payload = [] ↔ item.form.payloadLength = 0 := by
  induction items generalizing offset with
  | nil => exact nofun
  | cons item items ih =>
    obtain ⟨hlength, -, hrest⟩ := hplaced
    refine List.forall_mem_cons.mpr ⟨?_, ih hrest⟩
    rw [hlength, List.length_eq_zero_iff]

/-- **A section with payloads** is read back when its first form has one, or its payloads fill
records. -/
theorem parseTable_layout (h : Layable items) (hne : payloads items ≠ [])
    (hfirst : (payloads items).length % len = 0 ∨ ∀ item ∈ items.head?, item.payload ≠ []) :
    parseTable (layout items) = .ok items := by
  obtain ⟨⟨hfits, hvalid, hids⟩, hplaced⟩ := h
  rw [List.forall_mem_map] at hfits hvalid
  rw [List.map_map] at hids
  have hlen : len = 32 := rfl
  have hlength := length_layout items
  have hsmall : items.length * len < 2 ^ 64 := by
    obtain ⟨item, hitem, hle⟩ := exists_le_payloadOffset hplaced hne
    exact hle.trans_lt (hfits item hitem).payloadOffset
  have hpayloads := mapM_withPayload hplaced hvalid rfl
    (show (table (items.map form)).length = _ by rw [length_table, List.length_map])
  cases items with
  | nil => exact absurd rfl hne
  | cons item items =>
    obtain ⟨-, hoffset, -⟩ := id hplaced
    have hparse : PredicateNormalFormV2.parse (layout (item :: items)) = .ok item.form := by
      rw [layout, List.map_cons, table, List.flatMap_cons, List.append_assoc]
      exact parse_record (hfits item List.mem_cons_self) (hvalid item List.mem_cons_self) _
    -- The end the table is given, before any of its forms is looked at.
    have hend : ∃ tableEnd, (if item.form.payloadLength = 0 then (layout (item :: items)).length
        else item.form.payloadOffset) = tableEnd ∧
        ¬(tableEnd = 0 ∨ tableEnd > (layout (item :: items)).length ∨ tableEnd % len ≠ 0) ∧
        (tableEnd = (item :: items).length * len ∨ tableEnd = (layout (item :: items)).length ∧
          (item :: items).length * len = (item :: items).length * len ∧
            payloads (item :: items) ≠ []) := by
      have hiff := payload_eq_nil_iff hplaced item List.mem_cons_self
      rw [List.length_cons, Nat.succ_mul] at hlength hoffset
      rw [List.length_cons, Nat.succ_mul]
      by_cases hempty : item.payload = []
      · rw [if_pos (hiff.mp hempty)]
        have hmod : (payloads (item :: items)).length % len = 0 :=
          hfirst.resolve_right fun hfirst => hfirst item rfl hempty
        refine ⟨_, rfl, ?_, .inr ⟨rfl, rfl, hne⟩⟩
        rw [hlen] at hmod hlength ⊢
        omega
      · rw [if_neg (mt hiff.mpr hempty)]
        rw [if_neg hempty] at hoffset
        refine ⟨_, rfl, ?_, .inl hoffset⟩
        rw [hlen] at hlength hoffset ⊢
        omega
    obtain ⟨tableEnd, hstart, hchecked, hend⟩ := hend
    have hrounds : (item :: items).length < (layout (item :: items)).length + 1 := by
      rw [hlength, hlen]
      omega
    have hloop : tableLoop (layout (item :: items)) ((layout (item :: items)).length + 1) 0
        tableEnd [] = .ok ((item :: items).map form) :=
      tableLoop_eq hfits hvalid hids nofun (List.nil_append _).symm rfl (Nat.zero_add _).symm
        hsmall hplaced (Nat.le_refl _) (Nat.le_of_eq hlength.symm) hrounds hend
    unfold parseTable
    rw [hparse, ok_bind]
    dsimp only
    rw [hstart, if_neg hchecked, hloop, ok_bind]
    exact hpayloads

/-- **When a section is read back.** The forms of a section, laid out with their payloads behind
the table, are parsed as what they are exactly when the length of the table can be inferred from
the payloads. -/
theorem parseMany_layout_iff (hitems : items ≠ []) (h : Layable items) :
    parseMany (layout items) = .ok items ↔ Inferable items := by
  have hlen : len = 32 := rfl
  have hlength := length_layout items
  have hpos : 0 < items.length := List.length_pos_of_ne_nil hitems
  have hbytes : layout items ≠ [] := by
    intro hnil
    rw [hnil, hlen, List.length_nil] at hlength
    omega
  have hmod : (layout items).length % len = (payloads items).length % len := by
    rw [hlength, hlen]
    omega
  have hempty := payload_eq_nil_iff h.placed
  unfold parseMany Inferable
  rw [if_neg hbytes, hmod]
  by_cases hfill : (payloads items).length % len = 0
  · rw [if_pos hfill, if_pos hfill]
    have hflat : ∀ all, PredicateNormalFormV2.parseMany (layout items) = .ok all ↔
        ∃ extra, PredicateNormalFormV2.parseMany (payloads items) = .ok extra ∧
          all = items.map form ++ extra ∧
            ∀ form ∈ extra, form.predicateFormId ∉ items.map (·.form.predicateFormId) := by
      intro all
      have := parseMany_table_iff h.tabular hfill all
      rwa [List.map_map] at this
    constructor
    · intro hparsed
      obtain ⟨all, hall, -⟩ := bind_eq_ok.mp hparsed
      obtain ⟨extra, hextra, -, hnew⟩ := (hflat all).mp hall
      exact ⟨extra, hextra, hnew⟩
    · rintro ⟨extra, hextra, hnew⟩
      have hall := (hflat _).mpr ⟨extra, hextra, rfl, hnew⟩
      rw [hall, ok_bind]
      by_cases hnone : payloads items = []
      · -- Without payloads the section is a flat table.
        have hnil : ∀ item ∈ items, item.payload = [] := List.flatMap_eq_nil_iff.mp hnone
        rw [hnone] at hextra
        obtain rfl := Except.ok.inj hextra
        have hzero : ((items.map form ++ []).all fun form => form.payloadLength == 0) = true := by
          rw [List.append_nil, List.all_eq_true]
          refine List.forall_mem_map.mpr fun item hitem => ?_
          exact beq_iff_eq.mpr ((hempty item hitem).mp (hnil item hitem))
        rw [if_pos hzero, List.append_nil, List.map_map]
        refine congrArg Except.ok ((List.map_congr_left fun item hitem => ?_).trans (List.map_id _))
        show PredicateNormalFormWithPayloadV2.mk item.form [] = item
        rw [← hnil item hitem]
      · have hsome : ¬((items.map form ++ extra).all fun form => form.payloadLength == 0) = true := by
          intro hzero
          refine hnone (List.flatMap_eq_nil_iff.mpr fun item hitem => ?_)
          have := List.all_eq_true.mp hzero item.form
            (List.mem_append_left _ (List.mem_map_of_mem hitem))
          exact (hempty item hitem).mpr (beq_iff_eq.mp this)
        rw [if_neg hsome]
        exact parseTable_layout h hnone (.inl hfill)
  · rw [if_neg hfill, if_neg hfill]
    have hne : payloads items ≠ [] := by
      intro hnil
      rw [hnil] at hfill
      exact hfill rfl
    refine ⟨fun hparsed item hitem hnil => ?_, fun hfirst => parseTable_layout h hne (.inr hfirst)⟩
    -- Without a payload of its own the first form leaves the table to end with the bytes.
    obtain ⟨rest, rfl⟩ := List.head?_eq_some_iff.mp hitem
    unfold parseTable at hparsed
    obtain ⟨first, hfirst, hparsed⟩ := bind_eq_ok.mp hparsed
    have hparse : PredicateNormalFormV2.parse (layout (item :: rest)) = .ok item.form := by
      rw [layout, List.map_cons, table, List.flatMap_cons, List.append_assoc]
      exact parse_record (h.tabular.fits _ List.mem_cons_self) (h.tabular.valid _ List.mem_cons_self) _
    obtain rfl := Except.ok.inj (hfirst.symm.trans hparse)
    dsimp only at hparsed
    rw [if_pos ((hempty item List.mem_cons_self).mp hnil)] at hparsed
    obtain ⟨hchecked, -⟩ := ite_error_eq_ok.mp hparsed
    exact hchecked (.inr (.inr (by rwa [hmod])))

end

/-! ## The defect -/

/-- A form of kind 0. -/
def sampleForm (predicateFormId payloadOffset payloadLength : Nat) : PredicateNormalFormV2 :=
  ⟨predicateFormId, .predicateAst, 0, 0, payloadOffset, payloadLength⟩

theorem fits_sampleForm {predicateFormId payloadOffset payloadLength : Nat}
    (hid : predicateFormId < 2 ^ 32) (hoffset : payloadOffset < 2 ^ 64)
    (hlength : payloadLength < 2 ^ 64) :
    (sampleForm predicateFormId payloadOffset payloadLength).Fits :=
  ⟨hid, (by decide : 0 < 2 ^ 16), (by decide : 0 < 2 ^ 32), hoffset, hlength⟩

/-- One form, with a payload of the given bytes. -/
def oneItem (payload : List UInt8) : List PredicateNormalFormWithPayloadV2 :=
  [⟨sampleForm 1 32 payload.length, payload⟩]

theorem layable_oneItem {payload : List UInt8} (hne : payload ≠ []) (hlen : payload.length < 2 ^ 32) :
    Layable (oneItem payload) := by
  have hpos : 0 < payload.length := List.length_pos_of_ne_nil hne
  have hvalid : (sampleForm 1 32 payload.length).validate = .ok () := by
    refine validate_eq_ok.mpr ⟨(by decide : 0 ≠ absentId), ?_, fun hzero => ?_⟩
    · show 32 + payload.length < 2 ^ 64
      omega
    · have : payload.length = 0 := hzero
      omega
  refine ⟨⟨?_, ?_, List.nodup_cons.mpr ⟨List.not_mem_nil, List.nodup_nil⟩⟩, rfl, ?_, trivial⟩
  · exact List.forall_mem_singleton.mpr (fits_sampleForm (by decide) (by decide) (by omega))
  · exact List.forall_mem_singleton.mpr hvalid
  · rw [if_neg hne]
    rfl

/-- A payload of 32 zero bytes makes the section look like a flat table. -/
theorem parseMany_rejects_section :
    Layable (oneItem (List.replicate 32 0)) ∧
      parseMany (layout (oneItem (List.replicate 32 0))) = .error .checksumMismatch :=
  ⟨layable_oneItem (List.cons_ne_nil _ _) (by decide), by decide +kernel⟩

/-- A payload of seven bytes. -/
theorem parseMany_layout_seven :
    parseMany (layout (oneItem [112, 97, 121, 108, 111, 97, 100])) =
        .ok (oneItem [112, 97, 121, 108, 111, 97, 100]) ↔
      Inferable (oneItem [112, 97, 121, 108, 111, 97, 100]) :=
  parseMany_layout_iff (List.cons_ne_nil _ _) (layable_oneItem (List.cons_ne_nil _ _) (by decide))

end PredicateNormalFormWithPayloadV2

end PredicateForms

end Cove
