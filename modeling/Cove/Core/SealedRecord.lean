import Cove.Core.Dictionary
import Cove.Lib.FieldRecord
import Cove.Lib.Strides

/-!
# Records with a checksum

Headers, directory entries and the postscript end with the checksum of their own bytes, taken
with zeros in its place.

- `chunksExact`: the records of one length.
- `sealRecord`: a record and its checksum.
- `checksumHolds`: the check of the readers.
- `checksumHolds_sealRecord`: **what was sealed passes the check**.
- `verifyChecksumField`, `checkedRegion`: the checks of the index readers.
-/

namespace Cove

/-- The four bytes at the end are the checksum of the bytes with zeros in their place. -/
def checksumHolds (crc32c : List UInt8 → Nat) (bytes : List UInt8) (length : Nat) : Bool :=
  crc32c (bytes.take (length - 4) ++ [0, 0, 0, 0]) == fieldNat bytes (length - 4) 4

/-- `chunks_exact`. -/
def chunksExact (width : Nat) (bytes : List UInt8) : List (List UInt8) :=
  (List.range (bytes.length / width)).map fun i => (bytes.drop (i * width)).take width

/-- The chunks of records of one length. -/
theorem chunksExact_flatMap {α : Type u} {f : α → List UInt8} {width : Nat} {l : List α}
    (hwidth : 0 < width) (h : ∀ a ∈ l, (f a).length = width) :
    chunksExact width (l.flatMap f) = l.map f := by
  have hcount : (l.flatMap f).length / width = l.length := by
    rw [Strides.length_flatMap h, Nat.mul_div_cancel _ hwidth]
  unfold chunksExact
  rw [hcount]
  refine List.ext_getElem (by simp) fun i hi hi' => ?_
  have hblock := Strides.block_flatMap h [] (show i < l.length by simpa using hi')
  rw [List.append_nil] at hblock
  rw [List.getElem_map, List.getElem_range, List.getElem_map, hblock]

/-- The fields of a record and its checksum. -/
def sealRecord (crc32c : List UInt8 → Nat) (fields : List (Nat × Nat)) : List (Nat × Nat) :=
  fields ++ [(4, crc32c (FieldRecord.encode fields ++ [0, 0, 0, 0]))]

variable {crc32c : List UInt8 → Nat} {fields : List (Nat × Nat)}

theorem width_sealRecord :
    FieldRecord.width (sealRecord crc32c fields) = FieldRecord.width fields + 4 := by
  rw [← FieldRecord.length_encode, sealRecord, FieldRecord.encode_append, List.length_append,
    FieldRecord.length_encode, FieldRecord.length_encode]
  rfl

/-- The fields of a sealed record fit when the fields of the record do. -/
theorem fits_sealRecord (hcrc : ∀ bytes, crc32c bytes < 2 ^ 32)
    (hfits : FieldRecord.Fits fields) : FieldRecord.Fits (sealRecord crc32c fields) := by
  intro f hf
  rcases List.mem_append.mp hf with hf | hf
  · exact hfits f hf
  · rw [List.mem_singleton.mp hf]
    exact hcrc _

/-- What was sealed passes the check of the reader. -/
theorem checksumHolds_sealRecord (hcrc : ∀ bytes, crc32c bytes < 2 ^ 32) {length : Nat}
    (hlength : FieldRecord.width fields + 4 = length) :
    checksumHolds crc32c (FieldRecord.encode (sealRecord crc32c fields)) length = true := by
  subst hlength
  have hwidth : (FieldRecord.encode fields).length = FieldRecord.width fields :=
    FieldRecord.length_encode fields
  unfold checksumHolds sealRecord
  rw [FieldRecord.encode_append, Nat.add_sub_cancel, List.take_left' hwidth, beq_iff_eq, fieldNat, fieldBytes,
    List.drop_left' hwidth, FieldRecord.encode, FieldRecord.encode, List.append_nil,
    List.take_of_length_le (by simp), LittleEndian.ofLe_toLe]
  exact hcrc _

variable {offset : Nat}

/-- A field of a record. -/
theorem fieldNat_encode (hfits : FieldRecord.Fits fields) {w value : Nat}
    (h : FieldRecord.fieldAt fields offset w = some value) (rest : List UInt8) :
    fieldNat (FieldRecord.encode fields ++ rest) offset w = value :=
  FieldRecord.ofLe_encode hfits h rest

/-- Reserved bytes that were written as zeros. -/
theorem reserved_encode {w : Nat}
    (h : FieldRecord.fieldAt fields offset w = some 0) (rest : List UInt8) :
    (fieldBytes (FieldRecord.encode fields ++ rest) offset w).any (· != 0) = false := by
  have hzero : ∀ w, LittleEndian.toLe w 0 = List.replicate w 0 := by
    intro w
    induction w with
    | zero => rfl
    | succ w ih =>
      rw [LittleEndian.toLe, ih]
      rfl
  rw [fieldBytes, FieldRecord.take_drop_encode h, hzero, List.any_replicate]
  split <;> rfl

/-- Bytes that were written as one field. -/
theorem fieldBytes_encode {fields : List (Nat × Nat)} {offset w : Nat} {bytes : List UInt8}
    (hlength : bytes.length = w)
    (h : FieldRecord.fieldAt fields offset w = some (LittleEndian.ofLe bytes))
    (rest : List UInt8) : fieldBytes (FieldRecord.encode fields ++ rest) offset w = bytes := by
  subst hlength
  rw [fieldBytes, FieldRecord.take_drop_encode h, LittleEndian.toLe_ofLe]

/-! ## Indexes -/

/-- `verify_checksum_field`: the checksum at a place, once it is that of all the bytes with zeros
there. -/
def verifyChecksumField (crc32c : List UInt8 → Nat) (bytes : List UInt8) (checksumOffset : Nat) :
    Except CoveError Nat := do
  let stop ← checkedAdd checksumOffset 4
  if stop > bytes.length then .error .bufferTooShort
  else if crc32c (bytes.take checksumOffset ++ [0, 0, 0, 0] ++ bytes.drop (checksumOffset + 4)) ≠
      fieldNat bytes checksumOffset 4 then .error .checksumMismatch
  else .ok (fieldNat bytes checksumOffset 4)

/-- `checked_region`. -/
def checkedRegion (bytes : List UInt8) (offset length : Nat) : Except CoveError (List UInt8) := do
  let stop ← checkedAdd offset length
  if stop > bytes.length then .error .offsetRange
  else .ok (fieldBytes bytes offset length)

/-- A sealed record passes the check of the index readers. -/
theorem verifyChecksumField_sealRecord (hcrc : ∀ bytes, crc32c bytes < 2 ^ 32)
    (hoffset : FieldRecord.width fields = offset) (hlt : offset + 4 < 2 ^ 64) :
    verifyChecksumField crc32c (FieldRecord.encode (sealRecord crc32c fields)) offset =
      .ok (crc32c (FieldRecord.encode fields ++ [0, 0, 0, 0])) := by
  subst hoffset
  have hwidth : (FieldRecord.encode fields).length = FieldRecord.width fields :=
    FieldRecord.length_encode fields
  have hlength : (FieldRecord.encode (sealRecord crc32c fields)).length =
      FieldRecord.width fields + 4 := by rw [FieldRecord.length_encode, width_sealRecord]
  have hfield : fieldNat (FieldRecord.encode (sealRecord crc32c fields)) (FieldRecord.width fields)
      4 = crc32c (FieldRecord.encode fields ++ [0, 0, 0, 0]) := by
    rw [fieldNat, fieldBytes, sealRecord, FieldRecord.encode_append, List.drop_left' hwidth,
      FieldRecord.encode, FieldRecord.encode, List.append_nil, List.take_of_length_le (by simp),
      LittleEndian.ofLe_toLe (hcrc _)]
  have hbody : (FieldRecord.encode (sealRecord crc32c fields)).take (FieldRecord.width fields) =
      FieldRecord.encode fields := by
    rw [sealRecord, FieldRecord.encode_append, List.take_left' hwidth]
  have hstop : checkedAdd (FieldRecord.width fields) 4 = .ok (FieldRecord.width fields + 4) :=
    Checked.addU64_eq_ok.mpr ⟨hlt, rfl⟩
  unfold verifyChecksumField
  rw [hstop, Checked.ok_bind, hlength, if_neg (lt_irrefl _), hfield,
    hbody, List.drop_of_length_le (Nat.le_of_eq hlength), List.append_nil, if_neg (not_not_intro rfl)]

end Cove
