import Cove.Lib.LittleEndian

/-!
# Records of fixed-width fields

A record is a list of fields, each a width and a number, laid out one after the other in little
endian.

- `encode`: the bytes of a record.
- `fieldAt`: the field at a place, by the widths of the fields alone.
- `take_drop_encode`: **the bytes at the place of a field are those of its number**.
- `ofLe_encode`: a field that fits its width is read back.
- `encode_of_readAt`: **a record whose fields were read from bytes is those bytes**.
-/

namespace FieldRecord

open LittleEndian

/-- The bytes of a record. -/
def encode : List (Nat × Nat) → List UInt8
  | [] => []
  | (width, value) :: fields => toLe width value ++ encode fields

/-- The number of bytes of a record. -/
def width : List (Nat × Nat) → Nat
  | [] => 0
  | (w, _) :: fields => w + width fields

@[simp] theorem length_encode (fields : List (Nat × Nat)) :
    (encode fields).length = width fields := by
  induction fields with
  | nil => rfl
  | cons f fields ih => rw [encode, List.length_append, length_toLe, ih, width]

theorem encode_append (fields more : List (Nat × Nat)) :
    encode (fields ++ more) = encode fields ++ encode more := by
  induction fields with
  | nil => rfl
  | cons f fields ih =>
    rw [List.cons_append, encode, encode, ih, List.append_assoc]

/-- The number of the field that starts at a place and has a width. The tests are those that reduce
on numerals, so that the fields of a written-out record are found by `rfl`. -/
def fieldAt : List (Nat × Nat) → Nat → Nat → Option Nat
  | [], _, _ => none
  | (w, value) :: fields, offset, wanted =>
    bif Nat.beq offset 0 && Nat.beq w wanted then some value
    else bif Nat.ble w offset then fieldAt fields (offset - w) wanted
    else none

theorem fieldAt_cons {fields : List (Nat × Nat)} {w value offset wanted : Nat} :
    fieldAt ((w, value) :: fields) offset wanted =
      if offset = 0 ∧ w = wanted then some value
      else if w ≤ offset then fieldAt fields (offset - w) wanted
      else none := by
  rw [fieldAt]
  simp only [cond_eq_ite, Bool.and_eq_true, Nat.beq_eq, Nat.ble_eq]

/-- Every field fits its width. -/
def Fits (fields : List (Nat × Nat)) : Prop := ∀ f ∈ fields, f.2 < 256 ^ f.1

variable {fields : List (Nat × Nat)} {offset w value : Nat}

/-- **A field is found at its place**, whatever follows the record. The induction is on the fields
before it. -/
theorem take_drop_encode (h : fieldAt fields offset w = some value) (rest : List UInt8) :
    ((encode fields ++ rest).drop offset).take w = toLe w value := by
  induction fields generalizing offset with
  | nil => cases h
  | cons f fields ih =>
    obtain ⟨w', value'⟩ := f
    rw [fieldAt_cons] at h
    rw [encode, List.append_assoc]
    by_cases hhere : offset = 0 ∧ w' = w
    · obtain ⟨rfl, rfl⟩ := hhere
      rw [if_pos ⟨rfl, rfl⟩] at h
      obtain rfl := Option.some.inj h
      rw [List.drop_zero, List.take_left' (length_toLe _ _)]
    · rw [if_neg hhere] at h
      by_cases hpast : w' ≤ offset
      · rw [if_pos hpast] at h
        have hdrop : (toLe w' value' ++ (encode fields ++ rest)).drop offset =
            (encode fields ++ rest).drop (offset - w') := by
          conv_lhs => rw [show offset = (toLe w' value').length + (offset - w') by
            rw [length_toLe]; omega]
          rw [List.drop_append]
          simp
        rw [hdrop]
        exact ih h
      · rw [if_neg hpast] at h
        cases h

theorem mem_of_fieldAt (h : fieldAt fields offset w = some value) : (w, value) ∈ fields := by
  induction fields generalizing offset with
  | nil => cases h
  | cons f fields ih =>
    obtain ⟨w', value'⟩ := f
    rw [fieldAt_cons] at h
    split at h
    next hhere =>
      obtain ⟨-, rfl⟩ := hhere
      obtain rfl := Option.some.inj h
      exact List.mem_cons_self
    split at h
    · exact List.mem_cons_of_mem _ (ih h)
    · cases h

/-- A field that fits is read back. -/
theorem ofLe_encode (hfits : Fits fields) (h : fieldAt fields offset w = some value)
    (rest : List UInt8) : ofLe (((encode fields ++ rest).drop offset).take w) = value := by
  rw [take_drop_encode h, ofLe_toLe (hfits _ (mem_of_fieldAt h))]

/-! ## Records that were read -/

/-- The fields hold the numbers that stand in the bytes from a place on. -/
def ReadAt (bytes : List UInt8) : Nat → List (Nat × Nat) → Prop
  | _, [] => True
  | offset, (w, value) :: fields =>
    value = ofLe ((bytes.drop offset).take w) ∧ ReadAt bytes (offset + w) fields

variable {bytes : List UInt8}

/-- What was read fits. -/
theorem fits_of_readAt (h : ReadAt bytes offset fields) :
    Fits fields := by
  induction fields generalizing offset with
  | nil => exact fun _ hf => nomatch hf
  | cons f fields ih =>
    obtain ⟨w, value⟩ := f
    obtain ⟨rfl, hrest⟩ := h
    refine List.forall_mem_cons.mpr ⟨?_, ih hrest⟩
    exact (ofLe_lt _).trans_le
      (Nat.pow_le_pow_right (by decide) (List.length_take_le _ _))

/-- **A record that was read is what it was read from.** -/
theorem encode_of_readAt (offset : Nat) (h : ReadAt bytes offset fields)
    (hlength : offset + width fields ≤ bytes.length) :
    encode fields = (bytes.drop offset).take (width fields) := by
  induction fields generalizing offset with
  | nil => rfl
  | cons f fields ih =>
    obtain ⟨w, value⟩ := f
    obtain ⟨rfl, hrest⟩ := h
    rw [width] at hlength ⊢
    have hfield : ((bytes.drop offset).take w).length = w := by
      rw [List.length_take, List.length_drop]
      omega
    have hbytes : toLe w (ofLe ((bytes.drop offset).take w)) = (bytes.drop offset).take w := by
      have := toLe_ofLe ((bytes.drop offset).take w)
      rwa [hfield] at this
    rw [encode, hbytes, ih (offset + w) hrest (by omega), List.take_add, List.drop_drop]

end FieldRecord
