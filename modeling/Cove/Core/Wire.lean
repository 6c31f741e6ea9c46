import Cove.Core.Varint

/-!
# Wire primitives

Varints and the folding of signs, on the machine words that the code computes with. A shift by
the width of its word or more panics.

- `appendU64Leb128`, `decodeU64Leb128`: writing and reading a varint.
- `zigzagEncodeI64`, `zigzagDecodeI64`: signed numbers as unsigned ones.
- `decodeU64Leb128From_eq`: **the words hold the numbers** that the reader of `Varint` computes.
- `wire_roundTrip`: **what is written is read back**, and nothing else is read.
-/

namespace Cove.Wire

open Checked Leb128

/-! ## Varints -/

/-- `append_u64_leb128`. -/
def appendU64Leb128 (out : List UInt8) (value : UInt64) : List UInt8 :=
  let byte := (value &&& 0x7f).toUInt8
  let value' := value >>> 7
  if value' ≠ 0 then appendU64Leb128 (out ++ [byte ||| 0x80]) value' else out ++ [byte]
termination_by value.toNat
decreasing_by
  have hne : (value >>> 7).toNat ≠ 0 := fun h => ‹value' ≠ 0› (UInt64.toNat_inj.mp h)
  have hshift : (value >>> 7).toNat = value.toNat >>> 7 := UInt64.toNat_shiftRight value 7
  rw [Nat.shiftRight_eq_div_pow] at hshift
  omega

/-- `encode_u64_leb128`. -/
def encodeU64Leb128 (value : UInt64) : List UInt8 := appendU64Leb128 [] value

/-- `value << shift` on a word of 64 bits. -/
def shl (value : UInt64) (shift : Nat) : Except Fault UInt64 :=
  if shift < 64 then .ok (value <<< UInt64.ofNat shift) else .error .panic

/-- Whether the chunk does not fit the bits that are left. -/
def overflows (low : UInt64) (shift : Nat) : Except Fault Bool := do
  let remainingBits ← sub .panic 64 shift
  if remainingBits < 7 then do
    let bound ← shl 1 remainingBits
    .ok (bound ≤ low)
  else .ok false

/-- The loop of `decode_u64_leb128`. -/
def decodeU64Leb128From (value : UInt64) (shift taken : Nat) :
    List UInt8 → Except Fault (UInt64 × Nat)
  | [] => .error (.error .bufferTooShort)
  | byte :: bytes => do
    let low := (byte &&& 0x7f).toUInt64
    if shift ≥ 64 then .error (.error .arithOverflow)
    else if ← overflows low shift then .error (.error .arithOverflow)
    else do
      let chunk ← shl low shift
      let value := value ||| chunk
      if byte &&& 0x80 = 0 then .ok (value, taken + 1)
      else do
        let shift ← addU32 (.error .arithOverflow) shift 7
        if shift ≥ 64 then .error (.error .arithOverflow)
        else decodeU64Leb128From value shift (taken + 1) bytes

/-- `decode_u64_leb128`: the value and how many bytes it took. -/
def decodeU64Leb128 (bytes : List UInt8) : Except Fault (UInt64 × Nat) :=
  decodeU64Leb128From 0 0 0 bytes

/-! ## Zigzag -/

/-- `zigzag_encode_i64`. -/
def zigzagEncodeI64 (value : Int64) : UInt64 := ((value <<< 1) ^^^ (value >>> 63)).toUInt64

/-- `zigzag_decode_i64`. -/
def zigzagDecodeI64 (value : UInt64) : Int64 :=
  (value >>> 1).toInt64 ^^^ (-(value &&& 1).toInt64)

/-! ## Words -/

theorem toNat_low (byte : UInt8) : (byte &&& 0x7f).toUInt64.toNat = byte.toNat % 128 := by
  rw [UInt8.toNat_toUInt64, UInt8.toNat_and]
  exact Nat.and_two_pow_sub_one_eq_mod byte.toNat 7

theorem and_high_eq_zero (byte : UInt8) : byte &&& 0x80 = 0 ↔ byte.toNat < 128 := by
  have hall : ∀ n : Fin 256, UInt8.ofNat n.val &&& 0x80 = 0 ↔ n.val < 128 := by decide +kernel
  have h := hall ⟨byte.toNat, byte.toNat_lt⟩
  rwa [UInt8.ofNat_toNat] at h

theorem shl_eq {value : UInt64} {shift : Nat} (hshift : shift < 64)
    (hfits : value.toNat * 2 ^ shift < 2 ^ 64) :
    ∃ chunk : UInt64, shl value shift = .ok chunk ∧ chunk.toNat = value.toNat * 2 ^ shift := by
  refine ⟨_, if_pos hshift, ?_⟩
  rw [UInt64.toNat_shiftLeft, UInt64.toNat_ofNat', Nat.mod_eq_of_lt (show shift < 2 ^ 64 by omega),
    Nat.mod_eq_of_lt hshift, Nat.shiftLeft_eq, Nat.mod_eq_of_lt hfits]

/-- A chunk above the bits that are taken is put in by adding it. -/
theorem toNat_or_of_lt {value chunk : UInt64} {low shift : Nat} (hvalue : value.toNat < 2 ^ shift)
    (hchunk : chunk.toNat = low * 2 ^ shift) :
    (value ||| chunk).toNat = value.toNat + low * 2 ^ shift := by
  rw [UInt64.toNat_or, hchunk, Nat.mul_comm, Nat.or_comm, ← Nat.two_pow_add_eq_or_of_lt hvalue,
    Nat.add_comm]

theorem shr_seven (value : UInt64) : (value >>> 7).toNat = value.toNat / 128 :=
  (UInt64.toNat_shiftRight value 7).trans (Nat.shiftRight_eq_div_pow _ _)

theorem low_seven (value : UInt64) :
    (value &&& 0x7f).toUInt8 = UInt8.ofNat (value.toNat % 128) := by
  refine UInt8.toNat_inj.mp ?_
  have hlow : (value &&& 0x7f).toNat = value.toNat % 128 :=
    (UInt64.toNat_and value 0x7f).trans (Nat.and_two_pow_sub_one_eq_mod value.toNat 7)
  rw [UInt64.toNat_toUInt8, hlow, UInt8.toNat_ofNat']

theorem or_high {n : Nat} (h : n < 128) : UInt8.ofNat n ||| 0x80 = UInt8.ofNat (128 + n) := by
  have hall : ∀ n : Fin 128, UInt8.ofNat n.val ||| 0x80 = UInt8.ofNat (128 + n.val) := by
    decide +kernel
  exact hall ⟨n, h⟩

/-! ## Writing -/

/-- The writer appends the groups of the number. -/
theorem appendU64Leb128_eq (out : List UInt8) (value : UInt64) :
    appendU64Leb128 out value = out ++ leb128 value.toNat := by
  induction out, value using appendU64Leb128.induct with
  | case1 out value byte value' hmore ih =>
    have hdiv := shr_seven value
    have hge : 128 ≤ value.toNat := by
      by_contra hlt
      refine hmore (UInt64.toNat_inj.mp ?_)
      rw [hdiv, Nat.div_eq_of_lt (not_le.mp hlt)]
      rfl
    have hbyte : byte = UInt8.ofNat (value.toNat % 128) := low_seven value
    rw [appendU64Leb128, if_pos hmore, ih, hdiv, leb128_of_ge hge, hbyte,
      or_high (Nat.mod_lt _ (by decide)), List.append_assoc]
    rfl
  | case2 out value value' hlast =>
    have hzero : (value >>> 7).toNat = 0 := congrArg UInt64.toNat (not_not.mp hlast)
    rw [shr_seven] at hzero
    have hlt : value.toNat < 128 := by omega
    rw [appendU64Leb128, if_neg hlast, leb128_of_lt hlt, low_seven, Nat.mod_eq_of_lt hlt]

theorem encodeU64Leb128_eq (value : UInt64) : encodeU64Leb128 value = leb128 value.toNat :=
  appendU64Leb128_eq [] value

/-! ## Reading -/

/-- No chunk is shifted out of its word: the check compares with the room that is left. -/
theorem overflows_eq {low : UInt64} {shift : Nat} (h : shift < 64) :
    overflows low shift = .ok (decide (64 - shift < 7 ∧ low.toNat ≥ 2 ^ (64 - shift))) := by
  have hsub : sub Fault.panic 64 shift = .ok (64 - shift) := sub_eq_ok.mpr ⟨h.le, rfl⟩
  unfold overflows
  rw [hsub, ok_bind]
  by_cases hroom : 64 - shift < 7
  · obtain ⟨bound, hbound, hvalue⟩ := @shl_eq 1 _ (show 64 - shift < 64 by omega) (by
      rw [show (1 : UInt64).toNat = 1 from rfl, Nat.one_mul]
      exact Nat.pow_lt_pow_right (by decide) (by omega))
    rw [show (1 : UInt64).toNat = 1 from rfl, Nat.one_mul] at hvalue
    rw [if_pos hroom, hbound, ok_bind]
    refine congrArg Except.ok (decide_eq_decide.mpr ?_)
    rw [UInt64.le_iff_toNat_le, hvalue]
    exact ⟨fun hle => ⟨hroom, hle⟩, fun hboth => hboth.2⟩
  · rw [if_neg hroom, decide_eq_false fun hboth => hroom hboth.1]

/-- A chunk that passes the check fits above the bits that are taken. -/
theorem chunk_fits {value low shift : Nat} (hshift : shift < 64) (hvalue : value < 2 ^ shift)
    (hlow : low < 128) (hroom : ¬ (64 - shift < 7 ∧ low ≥ 2 ^ (64 - shift))) :
    value + low * 2 ^ shift < 2 ^ 64 := by
  have hlt : low < 2 ^ (64 - shift) := by
    by_cases h : 64 - shift < 7
    · exact not_le.mp fun hge => hroom ⟨h, hge⟩
    · exact hlow.trans_le (Nat.pow_le_pow_right (n := 2) Nat.two_pos (not_lt.mp h))
  have hsplit : (2 : Nat) ^ 64 = 2 ^ (64 - shift) * 2 ^ shift := by
    rw [← Nat.pow_add, Nat.sub_add_cancel hshift.le]
  have hnext : (low + 1) * 2 ^ shift ≤ 2 ^ (64 - shift) * 2 ^ shift :=
    Nat.mul_le_mul_right _ hlt
  rw [Nat.add_mul, Nat.one_mul] at hnext
  omega

/-- **The words hold the numbers** of the reader, and no shift is over-wide. The induction is on
the bytes; the bits taken so far stay below the shift. -/
theorem decodeU64Leb128From_eq (bytes : List UInt8) {value : UInt64} {shift : Nat} (taken : Nat)
    (hshift : shift < 64) (hvalue : value.toNat < 2 ^ shift) :
    decodeU64Leb128From value shift taken bytes =
      Fault.lift ((decodeLeb128From value.toNat shift taken bytes).map
        fun out => (UInt64.ofNat out.1, out.2)) := by
  induction bytes generalizing value shift taken with
  | nil => rfl
  | cons byte bytes ih =>
    have hlow : byte.toNat % 128 < 128 := Nat.mod_lt _ (by decide)
    rw [decodeU64Leb128From, decodeLeb128From]
    dsimp only
    rw [if_neg (not_le.mpr hshift), if_neg (not_le.mpr hshift), overflows_eq hshift, ok_bind,
      toNat_low]
    by_cases hroom : 64 - shift < 7 ∧ byte.toNat % 128 ≥ 2 ^ (64 - shift)
    · rw [if_pos (decide_eq_true hroom), if_pos hroom]
      rfl
    · have hfits := chunk_fits hshift hvalue hlow hroom
      obtain ⟨chunk, hchunk, hchunkValue⟩ := @shl_eq (byte &&& 0x7f).toUInt64 _ hshift (by
        rw [toNat_low]
        omega)
      rw [toNat_low] at hchunkValue
      have hor := toNat_or_of_lt hvalue hchunkValue
      rw [if_neg (by rw [decide_eq_false hroom]; exact Bool.false_ne_true), if_neg hroom, hchunk,
        ok_bind]
      by_cases hlast : byte.toNat < 128
      · rw [if_pos ((and_high_eq_zero byte).mpr hlast), if_pos hlast]
        refine congrArg Except.ok (Prod.ext (UInt64.toNat_inj.mp ?_) rfl)
        rw [hor, UInt64.toNat_ofNat', Nat.mod_eq_of_lt hfits]
      · have hadd : addU32 (Fault.error .arithOverflow) shift 7 = .ok (shift + 7) :=
          addU32_eq_ok.mpr ⟨by omega, rfl⟩
        rw [if_neg fun h => hlast ((and_high_eq_zero byte).mp h), if_neg hlast, hadd, ok_bind]
        by_cases hwide : shift + 7 ≥ 64
        · rw [if_pos hwide, if_pos hwide]
          rfl
        · have hbelow : (value ||| chunk).toNat < 2 ^ (shift + 7) := by
            have hnext : (byte.toNat % 128 + 1) * 2 ^ shift ≤ 128 * 2 ^ shift :=
              Nat.mul_le_mul_right _ hlow
            rw [Nat.add_mul, Nat.one_mul] at hnext
            rw [hor, Nat.pow_add, Nat.mul_comm (2 ^ shift)]
            omega
          rw [if_neg hwide, if_neg hwide, ih (taken + 1) (not_le.mp hwide) hbelow, hor]

/-- The number that the groups of a varint spell. -/
def varintValue : List UInt8 → Nat
  | [] => 0
  | byte :: bytes => byte.toNat % 128 + 128 * varintValue bytes

variable {value shift taken value' taken' : Nat}

variable {bytes : List UInt8} {i : Nat}

/-- What is read is a run of continued bytes and one that ends it, with the number they spell. -/
theorem decodeLeb128From_spells
    (h : decodeLeb128From value shift taken bytes = .ok (value', taken')) :
    ∃ init last rest, bytes = init ++ last :: rest ∧ (∀ byte ∈ init, 128 ≤ byte.toNat) ∧
      last.toNat < 128 ∧ taken' = taken + init.length + 1 ∧
      value' = value + varintValue (init ++ [last]) * 2 ^ shift := by
  induction bytes generalizing value shift taken with
  | nil => cases h
  | cons byte bytes ih =>
    rw [decodeLeb128From] at h
    obtain ⟨-, h⟩ := ite_error_eq_ok.mp h
    obtain ⟨-, h⟩ := ite_error_eq_ok.mp h
    by_cases hlast : byte.toNat < 128
    · rw [if_pos hlast] at h
      obtain ⟨rfl, rfl⟩ := Prod.mk.inj (Except.ok.inj h)
      exact ⟨[], byte, bytes, rfl, fun _ h => (List.not_mem_nil h).elim, hlast, rfl, rfl⟩
    · rw [if_neg hlast] at h
      obtain ⟨-, h⟩ := ite_error_eq_ok.mp h
      obtain ⟨init, last, rest, rfl, hinit, hend, rfl, rfl⟩ := ih h
      refine ⟨byte :: init, last, rest, rfl, ?_, hend, ?_, ?_⟩
      · exact List.forall_mem_cons.mpr ⟨not_lt.mp hlast, hinit⟩
      · rw [List.length_cons]
        omega
      · rw [List.cons_append, varintValue, Nat.pow_add, show (2 : Nat) ^ 7 = 128 from rfl]
        ring

theorem decodeLeb128From_lt (hshift : shift < 64) (hvalue : value < 2 ^ shift)
    (h : decodeLeb128From value shift taken bytes = .ok (value', taken')) : value' < 2 ^ 64 := by
  induction bytes generalizing value shift taken with
  | nil => cases h
  | cons byte bytes ih =>
    have hlow : byte.toNat % 128 < 128 := Nat.mod_lt _ (by decide)
    rw [decodeLeb128From] at h
    obtain ⟨-, h⟩ := ite_error_eq_ok.mp h
    obtain ⟨hroom, h⟩ := ite_error_eq_ok.mp h
    have hfits := chunk_fits hshift hvalue hlow hroom
    by_cases hlast : byte.toNat < 128
    · rw [if_pos hlast] at h
      obtain ⟨rfl, -⟩ := Prod.mk.inj (Except.ok.inj h)
      exact hfits
    · rw [if_neg hlast] at h
      obtain ⟨hwide, h⟩ := ite_error_eq_ok.mp h
      refine ih (not_le.mp hwide) ?_ h
      have hnext : (byte.toNat % 128 + 1) * 2 ^ shift ≤ 128 * 2 ^ shift :=
        Nat.mul_le_mul_right _ hlow
      rw [Nat.add_mul, Nat.one_mul] at hnext
      rw [Nat.pow_add, Nat.mul_comm (2 ^ shift)]
      omega

theorem decodeU64Leb128_eq (bytes : List UInt8) : decodeU64Leb128 bytes =
    Fault.lift ((decodeLeb128From 0 0 0 bytes).map fun out => (UInt64.ofNat out.1, out.2)) :=
  decodeU64Leb128From_eq bytes 0 (by decide) (by decide)

/-! ## Zigzag bits -/

/-- A bit in every place. -/
def spread (b : Bool) : BitVec 64 := if b then BitVec.allOnes 64 else 0#64

theorem getLsbD_spread (h : i < 64) (b : Bool) : (spread b).getLsbD i = b := by
  cases b with
  | false => exact BitVec.getLsbD_zero
  | true => exact BitVec.getLsbD_allOnes.trans (decide_eq_true h)

theorem neg_and_one (u : BitVec 64) : -(u &&& 1#64) = spread (u.getLsbD 0) := by
  rw [BitVec.and_one_eq_setWidth_ofBool_getLsbD]
  cases u.getLsbD 0 <;> decide

theorem sshiftRight_sign (v : BitVec 64) : v.sshiftRight 63 = spread (v.getLsbD 63) := by
  refine BitVec.eq_of_getLsbD_eq fun i hi => ?_
  have hmsb : v.msb = v.getLsbD 63 := BitVec.msb_eq_getLsbD_last v
  have hbit : (if 63 + i < 64 then v.getLsbD (63 + i) else v.msb) = v.getLsbD 63 := by
    split
    · rw [show 63 + i = 63 by omega]
    · exact hmsb
  rw [BitVec.getLsbD_sshiftRight, hbit, getLsbD_spread hi, decide_eq_false (Nat.not_le.mpr hi)]
  rfl

theorem toBitVec_zigzagEncodeI64 (z : Int64) : (zigzagEncodeI64 z).toBitVec =
    (z.toBitVec <<< 1) ^^^ spread (z.toBitVec.getLsbD 63) := by
  rw [← sshiftRight_sign]
  rfl

theorem toBitVec_zigzagDecodeI64 (u : UInt64) : (zigzagDecodeI64 u).toBitVec =
    (u.toBitVec >>> 1) ^^^ spread (u.toBitVec.getLsbD 0) := by
  rw [← neg_and_one]
  rfl

/-- The sign is in the lowest bit, the other bits are one place up. -/
theorem getLsbD_zigzagEncodeI64 (z : Int64) (h : i < 64) :
    (zigzagEncodeI64 z).toBitVec.getLsbD i =
      ((!decide (i < 1) && z.toBitVec.getLsbD (i - 1)) ^^ z.toBitVec.getLsbD 63) := by
  rw [toBitVec_zigzagEncodeI64, BitVec.getLsbD_xor, getLsbD_spread h, BitVec.getLsbD_shiftLeft,
    decide_eq_true h, Bool.true_and]

theorem getLsbD_zigzagDecodeI64 (u : UInt64) (h : i < 64) :
    (zigzagDecodeI64 u).toBitVec.getLsbD i =
      (u.toBitVec.getLsbD (1 + i) ^^ u.toBitVec.getLsbD 0) := by
  rw [toBitVec_zigzagDecodeI64, BitVec.getLsbD_xor, getLsbD_spread h, BitVec.getLsbD_ushiftRight]

theorem zigzagDecodeI64_encode (z : Int64) : zigzagDecodeI64 (zigzagEncodeI64 z) = z := by
  refine Int64.toBitVec_inj.mp (BitVec.eq_of_getLsbD_eq fun i hi => ?_)
  rw [getLsbD_zigzagDecodeI64 _ hi, getLsbD_zigzagEncodeI64 z (show 0 < 64 by decide)]
  by_cases hlast : 1 + i < 64
  · rw [getLsbD_zigzagEncodeI64 z hlast, decide_eq_false (show ¬ 1 + i < 1 by omega),
      Nat.add_sub_cancel_left]
    simp
  · -- the bit above the highest is clear, so the sign comes from the lowest
    obtain rfl : i = 63 := by omega
    rw [BitVec.getLsbD_of_ge _ _ (by decide)]
    simp

theorem zigzagEncodeI64_decode (u : UInt64) : zigzagEncodeI64 (zigzagDecodeI64 u) = u := by
  refine UInt64.toBitVec_inj.mp (BitVec.eq_of_getLsbD_eq fun i hi => ?_)
  rw [getLsbD_zigzagEncodeI64 _ hi, getLsbD_zigzagDecodeI64 u (show 63 < 64 by decide),
    BitVec.getLsbD_of_ge u.toBitVec (1 + 63) (by decide)]
  by_cases hfirst : i < 1
  · obtain rfl : i = 0 := by omega
    simp
  · rw [getLsbD_zigzagDecodeI64 u (show i - 1 < 64 by omega), decide_eq_false hfirst,
      show 1 + (i - 1) = i by omega]
    simp

/-! ## Round trips -/

/-- **What is written is read back**, whatever follows it; no byte string makes the reader shift too
far, and what it returns is the number that the bytes it took spell; folding and unfolding a sign
undo each other. -/
theorem wire_roundTrip (value : UInt64) (suffix bytes : List UInt8) (signed : Int64)
    (folded : UInt64) :
    decodeU64Leb128 (encodeU64Leb128 value ++ suffix) =
        .ok (value, (encodeU64Leb128 value).length) ∧
    decodeU64Leb128 bytes ≠ .error .panic ∧
    (∀ read taken, decodeU64Leb128 bytes = .ok (read, taken) →
      ∃ init last rest, bytes = init ++ last :: rest ∧ (∀ byte ∈ init, 128 ≤ byte.toNat) ∧
        last.toNat < 128 ∧ taken = init.length + 1 ∧
        read.toNat = varintValue (init ++ [last])) ∧
    zigzagDecodeI64 (zigzagEncodeI64 signed) = signed ∧
    zigzagEncodeI64 (zigzagDecodeI64 folded) = folded := by
  refine ⟨?_, ?_, fun read taken h => ?_, zigzagDecodeI64_encode signed,
    zigzagEncodeI64_decode folded⟩
  · have hfits : value.toNat * 2 ^ 0 < 2 ^ 64 := by
      rw [Nat.pow_zero, Nat.mul_one]
      exact value.toNat_lt
    have hread := decode_leb128 0 0 (by decide) hfits suffix
    rw [Nat.pow_zero, Nat.mul_one, Nat.zero_add, Nat.zero_add] at hread
    rw [decodeU64Leb128_eq, encodeU64Leb128_eq, hread]
    exact congrArg Except.ok (Prod.ext (UInt64.ofNat_toNat) rfl)
  · rw [decodeU64Leb128_eq]
    exact Fault.lift_ne_panic _
  · rw [decodeU64Leb128_eq, Fault.lift_eq_ok] at h
    obtain ⟨⟨number, count⟩, hnumber, hout⟩ := map_eq_ok.mp h
    obtain ⟨rfl, rfl⟩ := Prod.mk.inj hout
    obtain ⟨init, last, rest, hbytes, hinit, hlast, htaken, hvalue⟩ :=
      decodeLeb128From_spells hnumber
    have hlt := decodeLeb128From_lt (by decide) (by decide) hnumber
    refine ⟨init, last, rest, hbytes, hinit, hlast, by omega, ?_⟩
    rw [UInt64.toNat_ofNat', Nat.mod_eq_of_lt hlt, hvalue, Nat.pow_zero, Nat.mul_one, Nat.zero_add]

end Cove.Wire
