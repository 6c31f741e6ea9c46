import Cove.Arrow.BytePayloadRows

/-!
# The UTF-8 check of an array of bytes

The values are checked as a whole, or not at all when every byte is below 128, and each row for
not starting inside a character.

- `validateBoundaries_eq_ok_iff`: the check of the rows' first bytes.
- `validate_eq_ok_iff`: **the check accepts exactly the pieces that are UTF-8 one by one**.
- `validate_of_ascii`: where nothing has to be checked.
-/

namespace Cove

variable {bytes : List UInt8}

namespace Arrow

open Checked

/-- Between two offsets, the check fails where a piece starts inside a character. -/
theorem validateBoundaries_cons (done piece : List UInt8) (pieces : List (List UInt8)) :
    validateBoundaries (done ++ (piece :: pieces).flatten)
        (offsetsFrom done.length (piece :: pieces)) =
      if done ≠ [] ∧ ∃ byte ∈ piece.head?, Utf8.isContinuation byte = true then
        .error (.badSection "Arrow Utf8 export: row boundary splits a UTF-8 codepoint")
      else validateBoundaries (done ++ piece ++ pieces.flatten)
        (offsetsFrom (done ++ piece).length pieces) := by
  have hoffsets : offsetsFrom done.length (piece :: pieces) =
      (done.length : Int) :: offsetsFrom (done ++ piece).length pieces := by
    rw [offsetsFrom, List.length_append]
  obtain ⟨rest, hrest⟩ : ∃ rest, offsetsFrom (done ++ piece).length pieces =
      ((done ++ piece).length : Int) :: rest := by
    cases pieces with
    | nil => exact ⟨[], rfl⟩
    | cons _ _ => exact ⟨_, rfl⟩
  have hvalues : done ++ (piece :: pieces).flatten = done ++ piece ++ pieces.flatten := by
    rw [List.flatten_cons, List.append_assoc]
  have hstart : offsetToUsize (done.length : Int) = .ok done.length := by
    rw [offsetToUsize, if_neg (by omega), Int.toNat_natCast]
  have hstop : offsetToUsize ((done ++ piece).length : Int) = .ok (done ++ piece).length := by
    rw [offsetToUsize, if_neg (by omega), Int.toNat_natCast]
  have hfits : ¬(done.length > (done ++ piece).length ∨
      (done ++ piece).length > (done ++ piece ++ pieces.flatten).length) := by
    simp only [List.length_append]
    omega
  rw [hoffsets, hrest, hvalues]
  conv_lhs => unfold validateBoundaries
  rw [hstart, ok_bind, hstop, ok_bind, if_neg hfits]
  -- the byte at the offset is the first one of the piece
  refine if_congr ?_ rfl rfl
  cases piece with
  | nil => simp
  | cons byte piece => simp [List.append_assoc]

/-- **The check of the rows' first bytes.** The first piece with bytes is not looked at. -/
theorem validateBoundaries_eq_ok_iff {done : List UInt8} {pieces : List (List UInt8)}
    (hfirst : done = [] → Utf8.StartsCharacter pieces.flatten) :
    validateBoundaries (done ++ pieces.flatten) (offsetsFrom done.length pieces) = .ok () ↔
      ∀ piece ∈ pieces, Utf8.StartsCharacter piece := by
  induction pieces generalizing done with
  | nil => exact ⟨fun _ => nofun, fun _ => rfl⟩
  | cons piece pieces ih =>
    rw [validateBoundaries_cons, List.forall_mem_cons]
    have hnext : done ++ piece = [] → Utf8.StartsCharacter pieces.flatten := by
      intro h
      obtain ⟨hdone, rfl⟩ := List.append_eq_nil_iff.mp h
      exact hfirst hdone
    split
    · next hinside =>
      obtain ⟨-, byte, hbyte, hcont⟩ := hinside
      refine ⟨nofun, fun h => ?_⟩
      rw [h.1 byte hbyte] at hcont
      cases hcont
    · next hinside =>
      have hpiece : Utf8.StartsCharacter piece := by
        intro byte hbyte
        by_cases hdone : done = []
        · have hhead : byte ∈ (piece :: pieces).flatten.head? := by
            rw [List.flatten_cons, List.head?_append, Option.mem_def.mp hbyte]
            rfl
          exact hfirst hdone byte hhead
        · exact Bool.eq_false_iff.mpr fun hcont => hinside ⟨hdone, byte, hbyte, hcont⟩
      rw [ih hnext]
      exact ⟨fun h => ⟨hpiece, h⟩, fun h => h.2⟩

/-- The same from the start of the values, when they start a character. -/
theorem boundaries_eq_ok_iff {pieces : List (List UInt8)}
    (hfirst : Utf8.StartsCharacter pieces.flatten) :
    validateBoundaries pieces.flatten (offsetsFrom 0 pieces) = .ok () ↔
      ∀ piece ∈ pieces, Utf8.StartsCharacter piece :=
  @validateBoundaries_eq_ok_iff [] pieces fun _ => hfirst

section Check

variable {simdFromUtf8 : List UInt8 → Except String Unit} {pieces : List (List UInt8)}

theorem validateArrowUtf8_eq_ok_iff :
    validateArrowUtf8 simdFromUtf8 bytes = .ok () ↔ simdFromUtf8 bytes = .ok () := by
  unfold validateArrowUtf8
  cases simdFromUtf8 bytes with
  | ok _ => exact ⟨fun _ => rfl, fun _ => rfl⟩
  | error _ => exact ⟨nofun, nofun⟩

theorem lt_of_all_ascii (h : bytes.all (· < 128) = true) :
    ∀ byte ∈ bytes, byte < 128 :=
  fun byte hbyte => of_decide_eq_true (List.all_eq_true.mp h byte hbyte)

/-- Where all bytes are below 128, the check accepts. -/
theorem validate_of_ascii (h : pieces.flatten.all (· < 128) = true) :
    validateUtf8OffsetsSlice simdFromUtf8 (offsetsFrom 0 pieces) pieces.flatten = .ok () := by
  have hvalid := Utf8.valid_of_ascii (lt_of_all_ascii h)
  have hstarts : ∀ piece ∈ pieces, Utf8.StartsCharacter piece := fun piece hpiece =>
    (Utf8.valid_of_ascii fun byte hbyte => lt_of_all_ascii h byte
      (List.mem_flatten.mpr ⟨piece, hpiece, hbyte⟩)).startsCharacter
  unfold validateUtf8OffsetsSlice
  rw [(boundaries_eq_ok_iff hvalid.startsCharacter).mpr hstarts, ok_bind, if_pos h]

/-- **The check accepts exactly the pieces that are UTF-8 one by one.** -/
theorem validate_eq_ok_iff
    (hsimd : ∀ bytes, simdFromUtf8 bytes = .ok () ↔ Utf8.Valid bytes) :
    validateUtf8OffsetsSlice simdFromUtf8 (offsetsFrom 0 pieces) pieces.flatten = .ok () ↔
      ∀ piece ∈ pieces, Utf8.Valid piece := by
  -- the check of the values, whether they are looked at or not
  have hvalues : (if pieces.flatten.all (· < 128) then (.ok () : Except CoveError Unit)
      else validateArrowUtf8 simdFromUtf8 pieces.flatten) = .ok () ↔ Utf8.Valid pieces.flatten := by
    split
    · next hascii => exact ⟨fun _ => Utf8.valid_of_ascii (lt_of_all_ascii hascii), fun _ => rfl⟩
    · rw [validateArrowUtf8_eq_ok_iff, hsimd]
  rw [Utf8.valid_flatten_iff]
  unfold validateUtf8OffsetsSlice
  rw [bind_eq_ok]
  constructor
  · rintro ⟨⟨⟩, hboundaries, hchecked⟩
    have hvalid := hvalues.mp hchecked
    exact ⟨hvalid, (boundaries_eq_ok_iff hvalid.startsCharacter).mp hboundaries⟩
  · rintro ⟨hvalid, hstarts⟩
    exact ⟨(), (boundaries_eq_ok_iff hvalid.startsCharacter).mpr hstarts, hvalues.mpr hvalid⟩

end Check

end Arrow

end Cove
