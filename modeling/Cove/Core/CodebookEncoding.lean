import Cove.Core.BitPacking

/-!
# Writing local codebooks

A codebook page is its values, each stored once, and the indexes of the rows, as runs or as packed
bits. The writer cuts the number of values and the lengths of the parts to 32 bits.

- `RlePayload.encode`, `LocalCodebookValues.encode`, `LocalCodebookPayload.encode`: the writers.
- `LocalCodebookValues.parse_encode`, `LocalIndexPayload.reads_back`: the parts are read back.
- `LocalCodebookPayload.Represents`: a payload of some rows; `exists_represents`: every sequence of
  one kind has one.
- `localCodebook_round_trip_iff`: **when the rows are read back**.
-/

namespace Cove

variable {values : List (List UInt8)} {out : LocalCodebookValues} {extra bytes : List UInt8}
  {index w : Nat} {parsed : LocalCodebookPayload}

namespace Encoding

open Checked LittleEndian

/-! ## Runs -/

namespace RlePayload

/-- The fields of a run. -/
def runFields (run : BitVec 64 × Nat) : List (Nat × Nat) := [(8, run.1.toNat), (4, run.2)]

/-- `encode`. -/
def encode (self : RlePayload) : List UInt8 :=
  FieldRecord.encode [(4, self.runs.length % 2 ^ 32)] ++
    self.runs.flatMap fun run => FieldRecord.encode (runFields run)

theorem length_encode (self : RlePayload) : self.encode.length = 4 + self.runs.length * 12 := by
  have hblocks : ∀ run ∈ self.runs, (FieldRecord.encode (runFields run)).length = 12 :=
    fun _ _ => FieldRecord.length_encode _
  rw [encode, List.length_append, FieldRecord.length_encode, Strides.length_flatMap hblocks]
  rfl

/-- Coalesced runs pass the checks of the parser. -/
theorem checkRuns_of_coalesced {runs : List (BitVec 64 × Nat)} {prev : Option (BitVec 64)}
    {total : Nat} (h : Runs.Coalesced prev runs) (hlt : total + Runs.total runs < 2 ^ 64) :
    checkRuns total prev runs = .ok (total + Runs.total runs) := by
  induction runs generalizing prev total with
  | nil => rfl
  | cons run runs ih =>
    obtain ⟨v, len⟩ := run
    obtain ⟨hlen, hprev, hrest⟩ := h
    rw [Runs.total_cons] at hlt ⊢
    have hadd : checkedAdd total len = .ok (total + len) := addU64_eq_ok.mpr ⟨by omega, rfl⟩
    rw [checkRuns, if_neg hlen, if_neg hprev, hadd, ok_bind, ih hrest (by omega), Nat.add_assoc]

/-- Runs whose number of bytes fits 32 bits are read back. -/
theorem parse_encode {self : RlePayload} (hcoalesced : Runs.Coalesced none self.runs)
    (htotal : Runs.total self.runs ≤ u32Max) (hlength : self.encode.length < 2 ^ 32) :
    parse self.encode = .ok self := by
  rw [length_encode] at hlength
  unfold u32Max at htotal
  have hcount : fieldNat self.encode 0 4 = self.runs.length := by
    rw [encode, Nat.mod_eq_of_lt (by omega)]
    refine fieldNat_encode (List.forall_mem_singleton.mpr ?_) rfl _
    show self.runs.length < 256 ^ 4
    omega
  have hblocks : ∀ run ∈ self.runs, (FieldRecord.encode (runFields run)).length = 12 :=
    fun _ _ => FieldRecord.length_encode _
  have hruns : (List.range self.runs.length).map (runAt self.encode) = self.runs := by
    refine List.ext_getElem (by simp) fun i hi hi' => ?_
    have hmem := List.getElem_mem hi'
    -- the fields of a run are those of its block
    have hfits : FieldRecord.Fits (runFields self.runs[i]) := by
      refine List.forall_mem_cons.mpr ⟨(self.runs[i]).1.isLt, List.forall_mem_singleton.mpr ?_⟩
      have := Runs.le_total_of_mem hmem
      show (self.runs[i]).2 < 256 ^ 4
      omega
    obtain ⟨after, hblock⟩ := Strides.drop_flatMap hblocks [] hi'
    have hfield : ∀ offset w {value : Nat},
        FieldRecord.fieldAt (runFields self.runs[i]) offset w = some value →
        fieldNat self.encode (4 + i * 12 + offset) w = value := by
      intro offset w value hat
      have hdrop : self.encode.drop (4 + i * 12) =
          FieldRecord.encode (runFields self.runs[i]) ++ after := by
        have hhead : (FieldRecord.encode [(4, self.runs.length % 2 ^ 32)]).length = 4 :=
          FieldRecord.length_encode _
        rw [encode, ← List.drop_drop, List.drop_left' hhead, ← hblock, List.append_nil]
      rw [fieldNat, fieldBytes, ← List.drop_drop, hdrop]
      exact fieldNat_encode hfits hat after
    rw [List.getElem_map, List.getElem_range, runAt]
    have hvalue : fieldNat self.encode (4 + i * 12) 8 = (self.runs[i]).1.toNat := hfield 0 8 rfl
    rw [i64At, hvalue, hfield 8 4 rfl, BitVec.ofNat_toNat, BitVec.setWidth_eq]
  unfold parse
  dsimp only
  rw [hcount, length_encode, if_neg (by omega), if_neg (by omega), hruns,
    checkRuns_of_coalesced hcoalesced (by omega), ok_bind, if_neg (by unfold u32Max; omega)]

end RlePayload

/-! ## Values -/

/-- `to_raw`. -/
def LocalCodebookValueKind.toRaw : LocalCodebookValueKind → Nat
  | fileCode => CovePhysicalKind.fileCode.code
  | numCode => CovePhysicalKind.numCode.code
  | boolean => CovePhysicalKind.boolean.code
  | varBytes => CovePhysicalKind.varBytes.code

theorem LocalCodebookValueKind.fromRaw_toRaw (kind : LocalCodebookValueKind) :
    fromRaw kind.toRaw = .ok kind := by
  cases kind <;> rfl

namespace LocalCodebookValues

/-- One value behind its length. -/
def prefixed (value : List UInt8) : List UInt8 := toLe 4 (value.length % 2 ^ 32) ++ value

/-- `encode_into`. -/
def encode : LocalCodebookValues → List UInt8
  | fileCode values => values.flatMap (toLe 4)
  | numCode values => values.flatMap fun value => toLe 8 value.toNat
  | boolean values => values.map fun value => if value then 1 else 0
  | varBytes values => values.flatMap prefixed

/-- The file codes have 32 bits, as their type has. -/
def Typed : LocalCodebookValues → Prop
  | fileCode values => ∀ value ∈ values, value < 2 ^ 32
  | _ => True

/-- The lengths of the values fit 32 bits. -/
def Short : LocalCodebookValues → Prop
  | varBytes values => ∀ value ∈ values, value.length < 2 ^ 32
  | _ => True

theorem readVarBytes_prefixed
    (hshort : ∀ value ∈ values, value.length < 2 ^ 32) (extra : List UInt8) :
    readVarBytes values.length (values.flatMap prefixed ++ extra) = .ok (values, extra) := by
  induction values with
  | nil => rfl
  | cons value values ih =>
    obtain ⟨hvalue, hvalues⟩ := List.forall_mem_cons.mp hshort
    have hlen : (toLe 4 (value.length % 2 ^ 32)).length = 4 := length_toLe _ _
    generalize hrest : values.flatMap prefixed ++ extra = rest
    have hbytes : (value :: values).flatMap prefixed ++ extra =
        toLe 4 (value.length % 2 ^ 32) ++ (value ++ rest) := by
      rw [← hrest, List.flatMap_cons, prefixed, List.append_assoc, List.append_assoc]
    have hfield : fieldNat (toLe 4 (value.length % 2 ^ 32) ++ (value ++ rest)) 0 4 =
        value.length := by
      have hfour : value.length < 256 ^ 4 := hvalue
      rw [fieldNat, fieldBytes, List.drop_zero, List.take_left' hlen, Nat.mod_eq_of_lt hvalue,
        ofLe_toLe hfour]
    have hcontents : fieldBytes (toLe 4 (value.length % 2 ^ 32) ++ (value ++ rest)) 4
        value.length = value := by
      rw [fieldBytes, List.drop_left' hlen, List.take_left]
    have hdrop : (toLe 4 (value.length % 2 ^ 32) ++ (value ++ rest)).drop (4 + value.length) =
        rest := by
      rw [← List.drop_drop, List.drop_left' hlen, List.drop_left]
    rw [hbytes, List.length_cons, readVarBytes]
    dsimp only
    rw [hfield, hcontents, hdrop, List.length_append, List.length_append, hlen,
      if_neg (by omega), if_neg (by omega), ← hrest, ih hvalues, ok_bind]

theorem length_encode_fileCode (values : List Nat) :
    (encode (fileCode values)).length = values.length * 4 :=
  Strides.length_flatMap fun _ _ => length_toLe _ _

theorem length_encode_numCode (values : List (BitVec 64)) :
    (encode (numCode values)).length = values.length * 8 :=
  Strides.length_flatMap fun _ _ => length_toLe _ _

/-- Records of one length are read one by one. -/
theorem read_chunks {α : Type} {f : α → List UInt8} {read : List UInt8 → α} {width : Nat}
    {values : List α} (hwidth : 0 < width) (hlen : ∀ value, (f value).length = width)
    (hread : ∀ value ∈ values, read (f value) = value) :
    (chunksExact width (values.flatMap f)).map read = values := by
  rw [chunksExact_flatMap hwidth fun value _ => hlen value, List.map_map]
  exact (List.map_congr_left hread).trans (List.map_id' values)

theorem length_encode_boolean (values : List Bool) :
    (encode (boolean values)).length = values.length := List.length_map _

theorem parseBoolean_byte (value : Bool) :
    parseBoolean (if value then 1 else 0) = .ok value := by
  cases value <;> rfl

variable {self : LocalCodebookValues}

/-- Values are read back. -/
theorem parse_encode (htyped : self.Typed) (hshort : self.Short)
    (hlen : self.len < 2 ^ 32) : parse self.kind self.len self.encode = .ok self := by
  cases self with
  | fileCode values =>
    replace hlen : values.length < 2 ^ 32 := hlen
    have hmul : checkedMul values.length 4 = .ok (values.length * 4) :=
      mulU64_eq_ok.mpr ⟨by omega, rfl⟩
    have hchunks : (chunksExact 4 (encode (fileCode values))).map ofLe = values := by
      refine read_chunks (by decide) (fun _ => length_toLe _ _) fun value hvalue => ?_
      have hfour : value < 256 ^ 4 := htyped value hvalue
      exact ofLe_toLe hfour
    show (checkedMul values.length 4 >>= fun _ => _) = _
    rw [hmul, ok_bind, if_neg (not_not_intro (length_encode_fileCode values)), hchunks]
  | numCode values =>
    replace hlen : values.length < 2 ^ 32 := hlen
    have hmul : checkedMul values.length 8 = .ok (values.length * 8) :=
      mulU64_eq_ok.mpr ⟨by omega, rfl⟩
    have hchunks : (chunksExact 8 (encode (numCode values))).map (fun chunk => i64At chunk 0) =
        values := by
      refine read_chunks (by decide) (fun _ => length_toLe _ _) fun value _ => ?_
      have hlen : (toLe 8 value.toNat).length = 8 := length_toLe _ _
      have height : value.toNat < 256 ^ 8 := value.isLt
      rw [i64At, fieldNat, fieldBytes, List.drop_zero, List.take_of_length_le hlen.le,
        ofLe_toLe height, BitVec.ofNat_toNat, BitVec.setWidth_eq]
    show (checkedMul values.length 8 >>= fun _ => _) = _
    rw [hmul, ok_bind, if_neg (not_not_intro (length_encode_numCode values)), hchunks]
  | boolean values =>
    have hbytes : (encode (boolean values)).mapM parseBoolean = .ok values := by
      refine mapM_eq_ok.mpr ?_
      rw [encode, List.forall₂_map_left_iff]
      exact List.forall₂_same.mpr fun value _ => parseBoolean_byte value
    have hlength : (encode (boolean values)).length = (boolean values).len :=
      length_encode_boolean values
    show (if _ then _ else _) = _
    rw [if_neg (not_not_intro hlength), hbytes]
    rfl
  | varBytes values =>
    have hread := readVarBytes_prefixed hshort []
    rw [List.append_nil] at hread
    show (readVarBytes values.length (values.flatMap prefixed) >>= fun _ => _) = _
    rw [hread, ok_bind]
    exact if_neg (not_not_intro rfl)

/-- Nothing may follow the values. -/
theorem eq_nil_of_parse
    (hshort : self.Short) (h : parse self.kind self.len (self.encode ++ extra) = .ok out) :
    extra = [] := by
  cases self with
  | fileCode values =>
    obtain ⟨expected, hmul, h⟩ := bind_eq_ok.mp h
    obtain ⟨-, rfl⟩ := mulU64_eq_ok.mp hmul
    obtain ⟨hlength, -⟩ := ite_error_eq_ok.mp h
    rw [List.length_append, length_encode_fileCode] at hlength
    refine List.eq_nil_of_length_eq_zero ?_
    have : (fileCode values).len = values.length := rfl
    omega
  | numCode values =>
    obtain ⟨expected, hmul, h⟩ := bind_eq_ok.mp h
    obtain ⟨-, rfl⟩ := mulU64_eq_ok.mp hmul
    obtain ⟨hlength, -⟩ := ite_error_eq_ok.mp h
    rw [List.length_append, length_encode_numCode] at hlength
    refine List.eq_nil_of_length_eq_zero ?_
    have : (numCode values).len = values.length := rfl
    omega
  | boolean values =>
    obtain ⟨hlength, -⟩ := ite_error_eq_ok.mp h
    rw [List.length_append, length_encode_boolean] at hlength
    refine List.eq_nil_of_length_eq_zero ?_
    have : (boolean values).len = values.length := rfl
    omega
  | varBytes values =>
    obtain ⟨read, hread, h⟩ := bind_eq_ok.mp h
    obtain rfl := Except.ok.inj ((readVarBytes_prefixed hshort extra).symm.trans hread)
    obtain ⟨hrest, -⟩ := ite_error_eq_ok.mp h
    exact not_not.mp hrest

theorem lt_of_readVarBytes {n : Nat} {rest : List UInt8}
    (h : readVarBytes n bytes = .ok (values, rest)) : ∀ value ∈ values, value.length < 2 ^ 32 := by
  induction n generalizing bytes values with
  | zero =>
    obtain ⟨rfl, -⟩ := Prod.mk.inj (Except.ok.inj h)
    nofun
  | succ n ih =>
    rw [readVarBytes] at h
    obtain ⟨-, h⟩ := ite_error_eq_ok.mp h
    obtain ⟨-, h⟩ := ite_error_eq_ok.mp h
    obtain ⟨⟨later, left⟩, hlater, h⟩ := bind_eq_ok.mp h
    obtain ⟨rfl, rfl⟩ := Prod.mk.inj (Except.ok.inj h)
    refine List.forall_mem_cons.mpr ⟨?_, ih hlater⟩
    have hle : (fieldBytes bytes 4 (fieldNat bytes 0 4)).length ≤ fieldNat bytes 0 4 :=
      List.length_take_le _ _
    exact Nat.lt_of_le_of_lt hle (fieldNat_lt bytes 0 4)

/-- The lengths that are parsed have 32 bits. -/
theorem short_of_parse {kind : LocalCodebookValueKind} {n : Nat}
    (h : parse kind n bytes = .ok out) : out.Short := by
  cases kind with
  | fileCode =>
    obtain ⟨_, -, h⟩ := bind_eq_ok.mp h
    obtain ⟨-, h⟩ := ite_error_eq_ok.mp h
    rw [← Except.ok.inj h]
    exact trivial
  | numCode =>
    obtain ⟨_, -, h⟩ := bind_eq_ok.mp h
    obtain ⟨-, h⟩ := ite_error_eq_ok.mp h
    rw [← Except.ok.inj h]
    exact trivial
  | boolean =>
    obtain ⟨-, h⟩ := ite_error_eq_ok.mp h
    obtain ⟨values, -, rfl⟩ := map_eq_ok.mp h
    exact trivial
  | varBytes =>
    obtain ⟨⟨values, rest⟩, hread, h⟩ := bind_eq_ok.mp h
    obtain ⟨-, h⟩ := ite_error_eq_ok.mp h
    rw [← Except.ok.inj h]
    exact lt_of_readVarBytes hread

theorem pick_eq_ok {α : Type} {values : List α} {value : α} :
    pick values index = .ok value ↔ values[index]? = some value := by
  unfold pick
  split
  next found hfound => rw [hfound, Except.ok.injEq, Option.some.injEq]
  next hnone => simp [hnone]

/-- Bytes under an index are among the values. -/
theorem mem_of_valueAt {value : List UInt8}
    (h : self.valueAt index = .ok (.varBytes value)) : ∃ values, self = varBytes values ∧
      value ∈ values := by
  cases self with
  | varBytes values =>
    obtain ⟨found, hfound, hvalue⟩ := map_eq_ok.mp h
    obtain rfl := LocalCodebookValue.varBytes.inj hvalue
    exact ⟨values, rfl, List.mem_of_getElem? (pick_eq_ok.mp hfound)⟩
  | fileCode values =>
    obtain ⟨_, -, hvalue⟩ := map_eq_ok.mp h
    cases hvalue
  | numCode values =>
    obtain ⟨_, -, hvalue⟩ := map_eq_ok.mp h
    cases hvalue
  | boolean values =>
    obtain ⟨_, -, hvalue⟩ := map_eq_ok.mp h
    cases hvalue

/-- Values that are all among short ones are short. -/
theorem short_of_valueAt {other : LocalCodebookValues} (hother : other.Short)
    (h : ∀ index < self.len, ∃ place, other.valueAt place = self.valueAt index) : self.Short := by
  cases self with
  | varBytes values =>
    intro value hvalue
    obtain ⟨index, hindex, rfl⟩ := List.mem_iff_getElem.mp hvalue
    have hself : (varBytes values).valueAt index = .ok (.varBytes values[index]) := by
      rw [valueAt, pick_eq_ok.mpr (List.getElem?_eq_getElem hindex)]
      rfl
    obtain ⟨place, hplace⟩ := h index hindex
    obtain ⟨others, rfl, hmem⟩ := mem_of_valueAt (hplace.trans hself)
    exact hother _ hmem
  | fileCode values => exact trivial
  | numCode values => exact trivial
  | boolean values => exact trivial

end LocalCodebookValues

/-! ## Indexes -/

namespace BitPackedPayload

theorem lt_of_mask (hw : w ≤ 63) {v : BitVec 64} (h : v &&& ~~~ valueMask w = 0#64) :
    v.toNat < 2 ^ w := by
  have hkeep : v &&& valueMask w = v := by
    refine BitVec.eq_of_getLsbD_eq fun i hi => ?_
    have hbit : (v &&& ~~~ valueMask w).getLsbD i = false := by rw [h, BitVec.getLsbD_zero]
    rw [BitVec.getLsbD_and, BitVec.getLsbD_not, decide_eq_true hi, Bool.true_and] at hbit
    rw [BitVec.getLsbD_and]
    revert hbit
    cases v.getLsbD i <;> cases (valueMask w).getLsbD i <;> decide
  rw [← hkeep, BitVec.toNat_and, toNat_valueMask hw, Nat.and_two_pow_sub_one_eq_mod]
  exact Nat.mod_lt _ (Nat.two_pow_pos w)

theorem lt_of_packLoop (hw : w ≤ 63) {values : List (BitVec 64)}
    {start out : List UInt8 × Nat} (h : values.foldlM (packStep w) start = .ok out) :
    ∀ v ∈ values, v.toNat < 2 ^ w := by
  induction values generalizing start with
  | nil => nofun
  | cons v values ih =>
    rw [List.foldlM_cons] at h
    obtain ⟨next, hnext, hrest⟩ := bind_eq_ok.mp h
    obtain ⟨hmask, -⟩ := ite_error_eq_ok.mp hnext
    exact List.forall_mem_cons.mpr ⟨lt_of_mask hw (not_not.mp hmask), ih hrest⟩

/-- Values that were packed fit the width. -/
theorem lt_of_pack {values : List (BitVec 64)} {payload : BitPackedPayload}
    (h : pack values w = .ok payload) :
    (1 ≤ w ∧ w ≤ 63) ∧ values.length * w < 2 ^ 64 ∧ ∀ v ∈ values, v.toNat < 2 ^ w := by
  unfold pack at h
  obtain ⟨hwidth, h⟩ := ite_error_eq_ok.mp h
  obtain ⟨totalBits, htotal, h⟩ := bind_eq_ok.mp h
  obtain ⟨state, hstate, -⟩ := bind_eq_ok.mp h
  have hwidth := not_not.mp hwidth
  exact ⟨hwidth, (mulU64_eq_ok.mp htotal).1, lt_of_packLoop hwidth.2 hstate⟩

end BitPackedPayload

namespace LocalIndexPayload

/-- `encoding`, and its `encoding_kind`. -/
def encodingKind : LocalIndexPayload → CoveEncodingKind
  | rle _ => .rle
  | bitPacked _ => .bitPacked

/-- `encode`. -/
def encode : LocalIndexPayload → List UInt8
  | rle payload => payload.encode
  | bitPacked payload => payload.encode

/-- How many bytes the indexes take. -/
def byteLength : LocalIndexPayload → Nat
  | rle payload => 4 + payload.runs.length * 12
  | bitPacked payload => 9 + payload.bits.length

/-- The payload has these indexes: as runs whose neighbours differ, or packed to some width. -/
def Encodes (indexes : List Nat) : LocalIndexPayload → Prop
  | rle payload => Runs.Coalesced none payload.runs ∧
      Runs.expand payload.runs = indexes.map (BitVec.ofNat 64)
  | bitPacked payload => ∃ w, BitPackedPayload.pack (indexes.map (BitVec.ofNat 64)) w = .ok payload

@[simp] theorem length_encode (self : LocalIndexPayload) :
    self.encode.length = self.byteLength := by
  cases self with
  | rle payload => exact payload.length_encode
  | bitPacked payload =>
    show (FieldRecord.encode _ ++ payload.bits).length = 9 + payload.bits.length
    rw [List.length_append, FieldRecord.length_encode]
    rfl

variable {self : LocalIndexPayload} {indexes : List Nat}

/-- Words of 32 bits are the indexes. -/
theorem decodeLocalIndexes_eq (hwords : self.fastDecode = .ok (indexes.map (BitVec.ofNat 64)))
    (hlt : ∀ index ∈ indexes, index < 2 ^ 32) : self.decodeLocalIndexes = .ok indexes := by
  unfold decodeLocalIndexes
  rw [hwords, ok_bind]
  refine mapM_eq_ok.mpr ?_
  rw [List.forall₂_map_left_iff]
  refine List.forall₂_same.mpr fun index hindex => ?_
  have hindex := hlt index hindex
  have hnat : (BitVec.ofNat 64 index).toNat = index := by
    rw [BitVec.toNat_ofNat]
    omega
  rw [hnat, if_pos (by unfold u32Max; omega)]

/-- **Indexes are read back** when their number and that of their bytes fit 32 bits. -/
theorem reads_back (h : self.Encodes indexes)
    (hlength : indexes.length < 2 ^ 32) (hbytes : self.byteLength < 2 ^ 32)
    (hlt : ∀ index ∈ indexes, index < 2 ^ 32) :
    LocalCodebookPayload.parseIndexes self.encodingKind.code self.encode = .ok self ∧
      self.decodeLocalIndexes = .ok indexes := by
  rw [← length_encode] at hbytes
  cases self with
  | rle payload =>
    obtain ⟨hcoalesced, hexpand⟩ := h
    have htotal : Runs.total payload.runs ≤ u32Max := by
      have hcount : (Runs.expand payload.runs).length = indexes.length := by
        rw [hexpand, List.length_map]
      rw [Runs.length_expand] at hcount
      unfold u32Max
      omega
    constructor
    · show (RlePayload.parse payload.encode).map rle = .ok (rle payload)
      rw [RlePayload.parse_encode hcoalesced htotal hbytes]
      rfl
    · refine decodeLocalIndexes_eq ?_ hlt
      rw [← hexpand]
      exact rle_fastDecode htotal
  | bitPacked payload =>
    obtain ⟨w, hpack⟩ := h
    obtain ⟨⟨hpos, hw⟩, htotal, hfit⟩ := BitPackedPayload.lt_of_pack hpack
    obtain ⟨bits, hpack', hlen, hholds⟩ := BitPackedPayload.pack_spec hpos hw hfit htotal
    rw [List.length_map] at hpack' hlen
    rw [Nat.mod_eq_of_lt hlength] at hpack'
    obtain rfl := Except.ok.inj (hpack.symm.trans hpack')
    have hfits : BitPackedPayload.Fits ⟨w, indexes.length, bits⟩ := by
      refine ⟨hpos, hw, hlength, ?_⟩
      show indexes.length * w ≤ 8 * bits.length
      omega
    have hbits : bits.length < 2 ^ 32 := by
      rw [length_encode] at hbytes
      have hbyteLength : (bitPacked ⟨w, indexes.length, bits⟩).byteLength = 9 + bits.length := rfl
      omega
    constructor
    · show (BitPackedPayload.parse (BitPackedPayload.encode ⟨w, indexes.length, bits⟩)).map
        bitPacked = .ok _
      rw [BitPackedPayload.parse_encode hfits hbits]
      rfl
    · refine decodeLocalIndexes_eq ?_ hlt
      show BitPackedPayload.fastDecode _ = _
      rw [BitPackedPayload.fastDecode_eq hfits]
      exact congrArg _ (BitPackedPayload.rows_eq hfit hholds (List.length_map _).symm)

end LocalIndexPayload

/-! ## Codebooks -/

namespace LocalCodebookPayload

/-- `encode`. -/
def encode (self : LocalCodebookPayload) : List UInt8 :=
  FieldRecord.encode [(2, self.indexes.encodingKind.code), (2, self.values.kind.toRaw),
    (4, self.values.len % 2 ^ 32), (4, self.indexes.encode.length % 2 ^ 32)] ++
    (self.values.encode ++ self.indexes.encode)

/-- The payload of some rows: each row is the value under its index, and no value is idle. -/
structure Represents (payload : LocalCodebookPayload) (indexes : List Nat)
    (rows : List LocalCodebookValue) : Prop where
  typed : payload.values.Typed
  picks : indexes.mapM payload.values.valueAt = .ok rows
  used : ∀ index < payload.values.len, index ∈ indexes
  encodes : payload.indexes.Encodes indexes

theorem code_lt (self : LocalCodebookPayload) : FieldRecord.Fits
    [(2, self.indexes.encodingKind.code), (2, self.values.kind.toRaw),
      (4, self.values.len % 2 ^ 32), (4, self.indexes.encode.length % 2 ^ 32)] := by
  have hfour : ∀ n, n % 2 ^ 32 < 256 ^ 4 := fun n => Nat.mod_lt n (by decide)
  refine List.forall_mem_cons.mpr ⟨?_, List.forall_mem_cons.mpr ⟨?_, List.forall_mem_cons.mpr
    ⟨hfour _, List.forall_mem_singleton.mpr (hfour _)⟩⟩⟩
  · show self.indexes.encodingKind.code < 256 ^ 2
    cases self.indexes.encodingKind <;> decide
  · show self.values.kind.toRaw < 256 ^ 2
    cases self.values.kind <;> decide

/-- The parser on written bytes: what the cut length of the child leaves out is read with the
values. -/
theorem parse_encode (self : LocalCodebookPayload) {child : List UInt8}
    (happend : extra ++ child = self.indexes.encode)
    (hlength : child.length = self.indexes.encode.length % 2 ^ 32) :
    parse self.encode = (do
      let values ← Fault.lift (LocalCodebookValues.parse self.values.kind
        (self.values.len % 2 ^ 32) (self.values.encode ++ extra))
      let indexes ← Fault.lift (parseIndexes self.indexes.encodingKind.code child)
      let decoded ← indexes.decodeLocalIndexes
      if decoded.any (fun index => index ≥ values.len) then .error (.error .pageCorrupt)
      else .ok { values, indexes }) := by
  have hfields := self.code_lt
  have hhead : (FieldRecord.encode [(2, self.indexes.encodingKind.code),
      (2, self.values.kind.toRaw), (4, self.values.len % 2 ^ 32),
      (4, self.indexes.encode.length % 2 ^ 32)]).length = 12 := FieldRecord.length_encode _
  have hkind : fieldNat self.encode 0 2 = self.indexes.encodingKind.code :=
    fieldNat_encode hfields rfl _
  have hvalueKind : fieldNat self.encode 2 2 = self.values.kind.toRaw :=
    fieldNat_encode hfields rfl _
  have hcount : fieldNat self.encode 4 4 = self.values.len % 2 ^ 32 :=
    fieldNat_encode hfields rfl _
  have hchild : fieldNat self.encode 8 4 = child.length := by
    rw [hlength]
    exact fieldNat_encode hfields rfl _
  have hbytes : self.encode.drop 12 = self.values.encode ++ extra ++ child := by
    rw [encode, List.drop_left' hhead, List.append_assoc, happend]
  have htotal : self.encode.length = 12 + (self.values.encode ++ extra).length + child.length := by
    rw [encode, List.length_append, hhead, ← happend, ← List.append_assoc, List.length_append,
      Nat.add_assoc]
  have hstart : self.encode.length - child.length = 12 + (self.values.encode ++ extra).length := by
    omega
  have hvalues : fieldBytes self.encode 12 (self.encode.length - child.length - 12) =
      self.values.encode ++ extra := by
    rw [hstart, Nat.add_sub_cancel_left, fieldBytes, hbytes, List.take_left]
  have hrest : self.encode.drop (self.encode.length - child.length) = child := by
    rw [hstart, ← List.drop_drop, hbytes, List.drop_left]
  unfold parse
  dsimp only
  have hkindRaw : Fault.lift (LocalCodebookValueKind.fromRaw self.values.kind.toRaw) =
      .ok self.values.kind := Fault.lift_eq_ok.mpr (LocalCodebookValueKind.fromRaw_toRaw _)
  rw [hkind, hvalueKind, hcount, hchild, hvalues, hrest, if_neg (by omega), hkindRaw, ok_bind,
    if_neg (by omega)]

variable {self : LocalCodebookPayload} {indexes : List Nat} {rows : List LocalCodebookValue}

/-- The rows under the indexes have a value each. -/
theorem Represents.length_eq (h : self.Represents indexes rows) : indexes.length = rows.length :=
  (mapM_eq_ok.mp h.picks).length_eq

theorem lt_of_valueAt {values : LocalCodebookValues} {value : LocalCodebookValue}
    (h : values.valueAt index = .ok value) : index < values.len := by
  cases values <;>
  · obtain ⟨_, hpick, -⟩ := map_eq_ok.mp h
    exact (List.getElem?_eq_some_iff.mp (LocalCodebookValues.pick_eq_ok.mp hpick)).1

/-- The indexes are below the number of values. -/
theorem Represents.lt (h : self.Represents indexes rows) :
    ∀ index ∈ indexes, index < self.values.len := by
  intro index hindex
  obtain ⟨value, -, hvalue⟩ := exists_of_forall₂_left (mapM_eq_ok.mp h.picks) hindex
  exact lt_of_valueAt hvalue

/-- There are no more values than rows, as each has a row. -/
theorem Represents.len_le (h : self.Represents indexes rows) : self.values.len ≤ rows.length := by
  have hsub : List.range self.values.len ⊆ indexes := fun index hindex =>
    h.used index (List.mem_range.mp hindex)
  have hle := (List.subperm_of_subset List.nodup_range hsub).length_le
  rwa [List.length_range, h.length_eq] at hle

/-- The rows that are read back come from values with short lengths. -/
theorem Represents.short (h : self.Represents indexes rows)
    (hshort : parsed.values.Short) (hdecode : parsed.decodeValues = .ok rows) :
    self.values.Short := by
  refine LocalCodebookValues.short_of_valueAt hshort fun index hindex => ?_
  obtain ⟨row, hrow, hvalue⟩ := exists_of_forall₂_left (mapM_eq_ok.mp h.picks) (h.used index hindex)
  obtain ⟨decoded, -, hdecoded⟩ := bind_eq_ok.mp hdecode
  obtain ⟨place, -, hplace⟩ := exists_of_mem_mapM hdecoded hrow
  exact ⟨place, (Fault.lift_eq_ok.mp hplace).trans hvalue.symm⟩

/-- What was parsed declares a number of rows of 32 bits. -/
theorem declaredRows_lt {raw : Nat} {parsed : LocalIndexPayload}
    (h : parseIndexes raw bytes = .ok parsed) : parsed.declaredRows < 2 ^ 32 := by
  unfold parseIndexes at h
  split at h
  next =>
    obtain ⟨payload, hpayload, rfl⟩ := map_eq_ok.mp h
    have htotal := RlePayload.total_of_parse hpayload
    unfold u32Max at htotal
    show Runs.total payload.runs < 2 ^ 32
    omega
  next =>
    obtain ⟨payload, hpayload, rfl⟩ := map_eq_ok.mp h
    exact (BitPackedPayload.fits_of_parse hpayload).1.rows
  next => cases h

/-- **What reading back needs.** -/
theorem Represents.fits (h : self.Represents indexes rows)
    (hparse : parse self.encode = .ok parsed) (hdecode : parsed.decodeValues = .ok rows) :
    rows.length < 2 ^ 32 ∧ self.indexes.byteLength < 2 ^ 32 ∧ self.values.Short := by
  generalize hcut : self.indexes.encode.length - self.indexes.encode.length % 2 ^ 32 = cut
  have hdrop : (self.indexes.encode.drop cut).length = self.indexes.encode.length % 2 ^ 32 := by
    rw [List.length_drop]
    omega
  obtain ⟨rows', hrows', hcount, -⟩ := decodeValues_of_parse hparse
  obtain rfl := Except.ok.inj (hdecode.symm.trans hrows')
  rw [parse_encode self (List.take_append_drop cut _) hdrop] at hparse
  obtain ⟨values, hvalues, hparse⟩ := bind_eq_ok.mp hparse
  obtain ⟨child, hchild, hparse⟩ := bind_eq_ok.mp hparse
  obtain ⟨decoded, -, hparse⟩ := bind_eq_ok.mp hparse
  obtain ⟨-, hparse⟩ := ite_error_eq_ok.mp hparse
  obtain rfl := Except.ok.inj hparse
  replace hvalues := Fault.lift_eq_ok.mp hvalues
  have hrows : rows.length < 2 ^ 32 := by
    rw [hcount]
    exact declaredRows_lt (Fault.lift_eq_ok.mp hchild)
  have hshort := h.short (LocalCodebookValues.short_of_parse hvalues) hdecode
  refine ⟨hrows, ?_, hshort⟩
  -- no byte of the child was left to the values, so its length was not cut
  have hlen := h.len_le
  rw [Nat.mod_eq_of_lt (by omega)] at hvalues
  have hnil := congrArg List.length (LocalCodebookValues.eq_nil_of_parse hshort hvalues)
  rw [List.length_take, List.length_nil] at hnil
  rw [← LocalIndexPayload.length_encode]
  omega

/-- **What is written is read back** when the lengths fit. -/
theorem Represents.reads_back (h : self.Represents indexes rows) (hrows : rows.length < 2 ^ 32)
    (hbytes : self.indexes.byteLength < 2 ^ 32) (hshort : self.values.Short) :
    parse self.encode = .ok self ∧ self.indexes.decodeLocalIndexes = .ok indexes := by
  have hlen := h.len_le
  have hlt : ∀ index ∈ indexes, index < 2 ^ 32 := fun index hindex => by
    have := h.lt index hindex
    omega
  obtain ⟨hchild, hdecoded⟩ :=
    LocalIndexPayload.reads_back h.encodes (h.length_eq ▸ hrows) hbytes hlt
  refine ⟨?_, hdecoded⟩
  have hvalues := LocalCodebookValues.parse_encode h.typed hshort (by omega)
  have hlength := self.indexes.length_encode
  have hin : ¬ indexes.any (fun index => index ≥ self.values.len) = true := by
    intro hany
    obtain ⟨index, hindex, hge⟩ := List.any_eq_true.mp hany
    exact Nat.not_lt_of_le (of_decide_eq_true hge) (h.lt index hindex)
  rw [parse_encode self (List.nil_append _) (Nat.mod_eq_of_lt (by omega)).symm, List.append_nil,
    Nat.mod_eq_of_lt (by omega), Fault.lift_eq_ok.mpr hvalues, ok_bind,
    Fault.lift_eq_ok.mpr hchild, ok_bind, hdecoded, ok_bind, if_neg hin]

/-- **Every sequence of one kind has a codebook:** its values, each once. -/
theorem exists_represents {α : Type} [DecidableEq α] {build : List α → LocalCodebookValues}
    {wrap : α → LocalCodebookValue} (hlen : ∀ values, (build values).len = values.length)
    (hvalueAt : ∀ values index, (build values).valueAt index =
      (LocalCodebookValues.pick values index).map wrap)
    (values : List α) (htyped : (build values.dedup).Typed) :
    ∃ indexes, ∀ child : LocalIndexPayload, child.Encodes indexes →
      Represents ⟨build values.dedup, child⟩ indexes (values.map wrap) := by
  refine ⟨values.map values.dedup.idxOf, fun child hchild => ⟨htyped, ?_, ?_, hchild⟩⟩
  · refine mapM_eq_ok.mpr ?_
    rw [List.forall₂_map_left_iff, List.forall₂_map_right_iff]
    refine List.forall₂_same.mpr fun value hvalue => ?_
    have hget := List.getElem?_idxOf (List.mem_dedup.mpr hvalue)
    rw [hvalueAt, LocalCodebookValues.pick_eq_ok.mpr hget]
    rfl
  · intro index hindex
    replace hindex : index < values.dedup.length := hlen _ ▸ hindex
    exact List.mem_map.mpr ⟨values.dedup[index], List.mem_dedup.mp (List.getElem_mem hindex),
      (List.nodup_dedup values).idxOf_getElem index hindex⟩

end LocalCodebookPayload

/-- Indexes can be written as runs. -/
theorem LocalIndexPayload.encodes_rle (indexes : List Nat) :
    (rle ⟨Runs.compress (indexes.map (BitVec.ofNat 64))⟩).Encodes indexes :=
  ⟨Runs.coalesced_compress _, Runs.expand_compress _⟩

/-- Indexes can be packed to a width they fit. -/
theorem LocalIndexPayload.exists_encodes_bitPacked {indexes : List Nat} (hpos : 1 ≤ w)
    (hw : w ≤ 63) (hfit : ∀ index ∈ indexes, index < 2 ^ w) (hlt : indexes.length * w < 2 ^ 64) :
    ∃ payload, (bitPacked payload).Encodes indexes := by
  have hwords : ∀ word ∈ indexes.map (BitVec.ofNat 64), word.toNat < 2 ^ w := by
    refine List.forall_mem_map.mpr fun index hindex => ?_
    rw [BitVec.toNat_ofNat]
    exact Nat.lt_of_le_of_lt (Nat.mod_le _ _) (hfit index hindex)
  obtain ⟨bits, hpack, -⟩ := BitPackedPayload.pack_spec hpos hw hwords (by rwa [List.length_map])
  exact ⟨_, w, hpack⟩

/-- **A codebook page is read back** exactly when the number of its rows, the number of bytes of
its indexes and the lengths of its values fit 32 bits. -/
theorem localCodebook_round_trip_iff (payload : LocalCodebookPayload) (indexes : List Nat)
    (rows : List LocalCodebookValue) (h : payload.Represents indexes rows) :
    (∃ parsed, LocalCodebookPayload.parse payload.encode = .ok parsed ∧
        parsed.decodeValues = .ok rows ∧
        ∃ decoded, parsed.indexes.decodeLocalIndexes = .ok decoded ∧
          ∀ index ∈ decoded, index < parsed.values.len) ↔
      rows.length < 2 ^ 32 ∧ payload.indexes.byteLength < 2 ^ 32 ∧ payload.values.Short := by
  constructor
  · rintro ⟨parsed, hparse, hdecode, -⟩
    exact h.fits hparse hdecode
  · rintro ⟨hrows, hbytes, hshort⟩
    obtain ⟨hparse, hdecoded⟩ := h.reads_back hrows hbytes hshort
    refine ⟨payload, hparse, ?_, indexes, hdecoded, h.lt⟩
    refine bind_eq_ok.mpr ⟨indexes, hdecoded, mapM_eq_ok.mpr ?_⟩
    exact (mapM_eq_ok.mp h.picks).imp fun _ _ => Fault.lift_eq_ok.mpr

/-- A codebook of two values, the first of them in two runs. -/
def twoValues (value : List UInt8) : LocalCodebookPayload :=
  ⟨.varBytes [value, [1]], .rle ⟨[(0, 1), (1, 1), (0, 1)]⟩⟩

theorem twoValues_represents (value : List UInt8) :
    (twoValues value).Represents [0, 1, 0] [.varBytes value, .varBytes [1], .varBytes value] := by
  have hruns : Runs.Coalesced none [(0#64, 1), (1#64, 1), (0#64, 1)] :=
    ⟨by decide, nofun, by decide, by decide, by decide, by decide, trivial⟩
  refine ⟨trivial, rfl, fun index hindex => ?_, hruns, rfl⟩
  have hlt : index < 2 := hindex
  rcases (show index = 0 ∨ index = 1 by omega) with rfl | rfl <;> decide

/-- A value whose length does not fit 32 bits is written and not read back. -/
theorem twoValues_long :
    (twoValues (List.replicate (2 ^ 32) 0)).Represents [0, 1, 0]
      [.varBytes (List.replicate (2 ^ 32) 0), .varBytes [1],
        .varBytes (List.replicate (2 ^ 32) 0)] ∧
    ¬ ∃ parsed, LocalCodebookPayload.parse (twoValues (List.replicate (2 ^ 32) 0)).encode =
        .ok parsed ∧
      parsed.decodeValues = .ok [.varBytes (List.replicate (2 ^ 32) 0), .varBytes [1],
        .varBytes (List.replicate (2 ^ 32) 0)] := by
  have h := twoValues_represents (List.replicate (2 ^ 32) 0)
  refine ⟨h, ?_⟩
  rintro ⟨parsed, hparse, hdecode⟩
  have hshort := (h.fits hparse hdecode).2.2 _ List.mem_cons_self
  rw [List.length_replicate] at hshort
  exact Nat.lt_irrefl _ hshort

theorem localCodebook_round_trip_iff_twoValues :
    (∃ parsed, LocalCodebookPayload.parse (twoValues [7]).encode = .ok parsed ∧
        parsed.decodeValues = .ok [.varBytes [7], .varBytes [1], .varBytes [7]] ∧
        ∃ decoded, parsed.indexes.decodeLocalIndexes = .ok decoded ∧
          ∀ index ∈ decoded, index < parsed.values.len) ↔
      [LocalCodebookValue.varBytes [7], .varBytes [1], .varBytes [7]].length < 2 ^ 32 ∧
        (twoValues [7]).indexes.byteLength < 2 ^ 32 ∧ (twoValues [7]).values.Short :=
  localCodebook_round_trip_iff (twoValues [7]) [0, 1, 0] _ (twoValues_represents [7])

end Encoding

end Cove
