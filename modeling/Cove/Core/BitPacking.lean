import Cove.Core.EncodingRows
import Cove.Lib.ByteCopy

/-!
# Packing bits

The writer of packed bits: each value is or-ed into sixteen bytes of the stream, loaded as one
word and stored again.

- `BitPackedPayload.pack`, `BitPackedPayload.encode`: the writer.
- `get_writeAt`: the bits of bytes after some are overwritten.
- `packStep_eq`: **one value more in the stream**; `pack_spec`: the stream of all.
- `bitPacked_round_trip_iff`: **when the values are read back**.
-/

namespace Cove

variable {w : Nat} {values : List (BitVec 64)} {payload : BitPackedPayload}

variable {bytes dst : List UInt8} {v : BitVec 64}

namespace Encoding

open Checked ByteCopy LittleEndian

namespace BitPackedPayload

/-- The mask of the bits of a value. -/
def valueMask (bitsPerValue : Nat) : BitVec 64 := (1#64 <<< bitsPerValue) - 1#64

/-- One round of `pack`: a value is or-ed into the bytes it starts in. -/
def packStep (bitsPerValue : Nat) (state : List UInt8 × Nat) (v : BitVec 64) :
    Except Fault (List UInt8 × Nat) :=
  if v &&& ~~~ valueMask bitsPerValue ≠ 0#64 then .error (.error .pageCorrupt)
  else do
    let byteOff := state.2 / 8
    let bitOff := state.2 % 8
    let avail := min (state.1.length - byteOff) 16
    let buf ← Fault.slice state.1 byteOff (byteOff + avail)
    let word := ofLe buf ||| ((v &&& valueMask bitsPerValue).toNat <<< bitOff)
    let bits := writeAt state.1 byteOff ((toLe 16 word).take avail)
    let bitPos ← addU64 Fault.panic state.2 bitsPerValue
    .ok (bits, bitPos)

/-- `pack`. -/
def pack (values : List (BitVec 64)) (bitsPerValue : Nat) : Except Fault BitPackedPayload :=
  if ¬ (1 ≤ bitsPerValue ∧ bitsPerValue ≤ 63) then .error (.error .pageCorrupt)
  else do
    let totalBits ← mulU64 Fault.panic values.length bitsPerValue
    let state ← values.foldlM (packStep bitsPerValue) (List.replicate ((totalBits + 7) / 8) 0, 0)
    .ok { bitsPerValue, rowCount := values.length % 2 ^ 32, bits := state.1 }

/-- `encode`. -/
def encode (self : BitPackedPayload) : List UInt8 :=
  FieldRecord.encode [(1, self.bitsPerValue), (4, self.rowCount), (4, self.bits.length % 2 ^ 32)] ++
    self.bits

end BitPackedPayload

/-! ## Bits -/

theorem length_writeAt {pos : Nat} (h : pos + bytes.length ≤ dst.length) :
    (writeAt dst pos bytes).length = dst.length := by
  rw [writeAt, List.length_append, List.length_append, List.length_take, List.length_drop]
  omega

/-- The bits of bytes after some are overwritten. -/
theorem get_writeAt {pos : Nat} (h : pos + bytes.length ≤ dst.length)
    (j : Nat) : ByteBits.get (writeAt dst pos bytes) j =
      if 8 * pos ≤ j ∧ j < 8 * (pos + bytes.length) then ByteBits.get bytes (j - 8 * pos)
      else ByteBits.get dst j := by
  have htake : (dst.take pos).length = pos := by
    rw [List.length_take]
    omega
  rw [ByteBits.get_eq_testBit, writeAt, List.append_assoc]
  by_cases hbefore : j < 8 * pos
  · rw [if_neg (by omega), List.getElem?_append_left (by omega), List.getElem?_take_of_lt (by omega),
      ByteBits.get_eq_testBit]
  · rw [List.getElem?_append_right (by omega), htake]
    by_cases hwithin : j < 8 * (pos + bytes.length)
    · rw [if_pos ⟨by omega, hwithin⟩, List.getElem?_append_left (by omega), ByteBits.get_eq_testBit,
        show (j - 8 * pos) / 8 = j / 8 - pos by omega, show (j - 8 * pos) % 8 = j % 8 by omega]
    · rw [if_neg (by omega), List.getElem?_append_right (by omega), List.getElem?_drop,
        ByteBits.get_eq_testBit, show pos + bytes.length + (j / 8 - pos - bytes.length) = j / 8 by omega]

/-- The low bits of a number, as bytes. -/
theorem get_toLe {n j : Nat} (h : j < 8 * w) : ByteBits.get (toLe w n) j = n.testBit j := by
  have hpow : (256 : Nat) ^ w = 2 ^ (8 * w) := by rw [Nat.pow_mul]
  rw [← ByteBits.testBit_ofLe, ofLe_toLe_mod, hpow, Nat.testBit_mod_two_pow, decide_eq_true h,
    Bool.true_and]

namespace BitPackedPayload

theorem toNat_valueMask (h : w ≤ 63) : (valueMask w).toNat = 2 ^ w - 1 := by
  have hpow : 2 ^ w < 2 ^ 64 := Nat.pow_lt_pow_right (by decide) (by omega)
  have hpos := Nat.two_pow_pos w
  have hone : (1#64).toNat = 1 := rfl
  rw [valueMask, BitVec.toNat_sub, BitVec.toNat_shiftLeft, hone, Nat.one_shiftLeft,
    Nat.mod_eq_of_lt hpow]
  omega

/-- A value that fits passes the check, and the mask keeps it. -/
theorem mask_of_lt (hw : w ≤ 63) (hv : v.toNat < 2 ^ w) :
    v &&& ~~~ valueMask w = 0#64 ∧ (v &&& valueMask w).toNat = v.toNat := by
  have hkeeps : (v &&& valueMask w).toNat = v.toNat := by
    rw [BitVec.toNat_and, toNat_valueMask hw, Nat.and_two_pow_sub_one_eq_mod, Nat.mod_eq_of_lt hv]
  refine ⟨?_, hkeeps⟩
  have heq : v &&& valueMask w = v := BitVec.eq_of_toNat_eq hkeeps
  rw [← heq, BitVec.and_assoc, BitVec.and_not_self]
  exact BitVec.and_zero

/-- **One value more in the stream.** -/
theorem packStep_eq {w pos : Nat} {bits : List UInt8} {v : BitVec 64} (hpos : 1 ≤ w) (hw : w ≤ 63)
    (hv : v.toNat < 2 ^ w) (hfits : pos + w ≤ 8 * bits.length) (hlt : pos + w < 2 ^ 64) :
    ∃ bits', packStep w (bits, pos) v = .ok (bits', pos + w) ∧ bits'.length = bits.length ∧
      ∀ j, ByteBits.get bits' j =
        (ByteBits.get bits j || (decide (pos ≤ j) && v.toNat.testBit (j - pos))) := by
  obtain ⟨hcheck, hkeeps⟩ := mask_of_lt hw hv
  have hnext : addU64 Fault.panic pos w = .ok (pos + w) := addU64_eq_ok.mpr ⟨hlt, rfl⟩
  generalize havail : min (bits.length - pos / 8) 16 = avail
  have hroom : pos / 8 + avail ≤ bits.length := by omega
  have hslice := Fault.slice_eq (Nat.le_add_right (pos / 8) avail) hroom
  rw [Nat.add_sub_cancel_left] at hslice
  generalize hword : ofLe ((bits.drop (pos / 8)).take avail) ||| (v.toNat <<< (pos % 8)) = word
  have hlength : ((toLe 16 word).take avail).length = avail := by
    rw [List.length_take, length_toLe]
    omega
  refine ⟨writeAt bits (pos / 8) ((toLe 16 word).take avail), ?_, length_writeAt (by omega), ?_⟩
  · unfold packStep
    dsimp only
    rw [if_neg (not_not.mpr hcheck), havail, hslice, ok_bind, hkeeps, hword, hnext, ok_bind]
  · intro j
    rw [get_writeAt (by omega), hlength]
    split
    · next hwindow =>
      -- within the word, the bits that were there and those of the value
      rw [ByteBits.get_take _ (by omega), get_toLe (by omega), ← hword, Nat.testBit_or,
        ByteBits.testBit_ofLe_window _ (by omega), Nat.testBit_shiftLeft,
        Nat.add_sub_cancel' hwindow.1, show j - 8 * (pos / 8) - pos % 8 = j - pos by omega]
      congr 2
      rw [decide_eq_decide]
      omega
    · next hwindow =>
      -- outside of it the value has no bits
      by_cases hj : pos ≤ j
      · have hbit : v.toNat.testBit (j - pos) = false :=
          Nat.testBit_lt_two_pow (Nat.lt_of_lt_of_le hv
            (Nat.pow_le_pow_right (by decide) (by omega)))
        rw [hbit, Bool.and_false, Bool.or_false]
      · rw [decide_eq_false hj, Bool.false_and, Bool.or_false]

/-- Bits that hold values one after the other, and nothing behind them. -/
structure Holds (w : Nat) (bits : List UInt8) (values : List (BitVec 64)) : Prop where
  value : ∀ k v, values[k]? = some v → ∀ b < w, ByteBits.get bits (k * w + b) = v.toNat.testBit b
  clear : ∀ j, values.length * w ≤ j → ByteBits.get bits j = false

theorem holds_append {bits bits' : List UInt8} {seen : List (BitVec 64)}
    (h : Holds w bits seen) (hv : v.toNat < 2 ^ w)
    (hbits : ∀ j, ByteBits.get bits' j = (ByteBits.get bits j ||
      (decide (seen.length * w ≤ j) && v.toNat.testBit (j - seen.length * w)))) :
    Holds w bits' (seen ++ [v]) := by
  constructor
  · intro k x hx b hb
    rcases Nat.lt_or_ge k seen.length with hk | hk
    · rw [List.getElem?_append_left hk] at hx
      have hbefore : k * w + b < seen.length * w := by
        have hmul := Nat.mul_le_mul_right w (Nat.succ_le_of_lt hk)
        rw [Nat.succ_mul] at hmul
        omega
      rw [hbits, h.value k x hx b hb, decide_eq_false (by omega), Bool.false_and, Bool.or_false]
    · rw [List.getElem?_append_right hk, List.getElem?_singleton] at hx
      split at hx
      · next hlast =>
        obtain rfl : k = seen.length := by omega
        obtain rfl := Option.some.inj hx
        rw [hbits, h.clear _ (Nat.le_add_right _ _), decide_eq_true (Nat.le_add_right _ _),
          Nat.add_sub_cancel_left, Bool.false_or, Bool.true_and]
      · cases hx
  · intro j hj
    rw [List.length_append, List.length_singleton, Nat.succ_mul] at hj
    have hbit : v.toNat.testBit (j - seen.length * w) = false :=
      Nat.testBit_lt_two_pow (Nat.lt_of_lt_of_le hv (Nat.pow_le_pow_right (by decide) (by omega)))
    rw [hbits, h.clear j (by omega), hbit, Bool.and_false, Bool.or_false]

/-- The loop of `pack`, from some values on. -/
theorem packLoop_eq {w : Nat} (hpos : 1 ≤ w) (hw : w ≤ 63) {rest seen : List (BitVec 64)}
    {bits : List UInt8} (hrest : ∀ v ∈ rest, v.toNat < 2 ^ w) (hholds : Holds w bits seen)
    (hfits : (seen ++ rest).length * w ≤ 8 * bits.length)
    (hlt : (seen ++ rest).length * w < 2 ^ 64) :
    ∃ bits', rest.foldlM (packStep w) (bits, seen.length * w) =
        .ok (bits', (seen ++ rest).length * w) ∧
      bits'.length = bits.length ∧ Holds w bits' (seen ++ rest) := by
  induction rest generalizing seen bits with
  | nil =>
    rw [List.append_nil]
    exact ⟨bits, rfl, rfl, hholds⟩
  | cons v rest ih =>
    obtain ⟨hv, hrest⟩ := List.forall_mem_cons.mp hrest
    have happend : seen ++ v :: rest = (seen ++ [v]) ++ rest := List.append_cons _ _ _
    have hnext : seen.length * w + w = (seen ++ [v]).length * w := by
      rw [List.length_append, List.length_singleton, Nat.succ_mul]
    have hmul : (seen ++ [v]).length * w ≤ (seen ++ v :: rest).length * w := by
      rw [happend]
      refine Nat.mul_le_mul_right w ?_
      conv_rhs => rw [List.length_append]
      exact Nat.le_add_right _ _
    obtain ⟨bits', hstep, hlength, hbits⟩ :=
      @packStep_eq w (seen.length * w) bits v hpos hw hv (by omega) (by omega)
    have hholds' := holds_append hholds hv hbits
    rw [happend] at hfits hlt ⊢
    obtain ⟨bits'', hloop, hlength', hall⟩ := ih hrest hholds' (by omega) hlt
    refine ⟨bits'', ?_, hlength'.trans hlength, hall⟩
    rw [List.foldlM_cons, hstep, ok_bind, hnext]
    exact hloop

/-- **The stream of all values.** -/
theorem pack_spec (hpos : 1 ≤ w) (hw : w ≤ 63)
    (hvalues : ∀ v ∈ values, v.toNat < 2 ^ w) (hlt : values.length * w < 2 ^ 64) :
    ∃ bits, pack values w = .ok ⟨w, values.length % 2 ^ 32, bits⟩ ∧
      bits.length = (values.length * w + 7) / 8 ∧ Holds w bits values := by
  have htotal : mulU64 Fault.panic values.length w = .ok (values.length * w) :=
    mulU64_eq_ok.mpr ⟨hlt, rfl⟩
  have hzero : Holds w (List.replicate ((values.length * w + 7) / 8) 0) [] := by
    refine ⟨nofun, fun j _ => ?_⟩
    rw [ByteBits.get_eq_testBit, List.getElem?_replicate]
    split <;> exact Nat.zero_testBit _
  obtain ⟨bits, hloop, hlength, hholds⟩ := @packLoop_eq w hpos hw values [] _ hvalues hzero
    (by rw [List.nil_append, List.length_replicate]; omega) hlt
  rw [List.length_replicate] at hlength
  rw [List.length_nil, Nat.zero_mul] at hloop
  refine ⟨bits, ?_, hlength, hholds⟩
  unfold pack
  rw [if_neg (not_not.mpr ⟨hpos, hw⟩), htotal, ok_bind, hloop, ok_bind]

/-! ## The round trip -/

theorem rowValue_eq {k : Nat} (hholds : Holds payload.bitsPerValue payload.bits values)
    (hv : v.toNat < 2 ^ payload.bitsPerValue) (hk : values[k]? = some v) :
    payload.rowValue k = v := by
  refine BitVec.eq_of_getLsbD_eq fun j hj => ?_
  rw [rowValue_covers k j hj]
  by_cases hwithin : j < payload.bitsPerValue
  · rw [decide_eq_true hwithin, Bool.true_and, hholds.value k v hk j hwithin]
    rfl
  · rw [decide_eq_false hwithin, Bool.false_and]
    exact (Nat.testBit_lt_two_pow (Nat.lt_of_lt_of_le hv
      (Nat.pow_le_pow_right (by decide) (Nat.not_lt.mp hwithin)))).symm

/-- The rows of a stream of values. -/
theorem rows_eq (hvalues : ∀ v ∈ values, v.toNat < 2 ^ payload.bitsPerValue)
    (hholds : Holds payload.bitsPerValue payload.bits values)
    (hcount : payload.rowCount = values.length) :
    (List.range payload.rowCount).map payload.rowValue = values := by
  refine List.ext_getElem? fun k => ?_
  rw [List.getElem?_map, hcount]
  by_cases hk : k < values.length
  · have hget : values[k]? = some values[k] := List.getElem?_eq_getElem hk
    rw [List.getElem?_range hk, hget, Option.map_some,
      rowValue_eq hholds (hvalues _ (List.getElem_mem hk)) hget]
  · rw [List.getElem?_eq_none (by rw [List.length_range]; omega), List.getElem?_eq_none (by omega)]
    rfl

/-- The bytes of a payload are read back, when the number of its bytes fits 32 bits. -/
theorem parse_encode (hfits : payload.Fits)
    (hbits : payload.bits.length < 2 ^ 32) : parse payload.encode = .ok payload := by
  have hlen : payload.bits.length % 2 ^ 32 = payload.bits.length := Nat.mod_eq_of_lt hbits
  have hpos := hfits.pos
  have hle := hfits.le
  have hstream := hfits.bits
  have hrecord : FieldRecord.Fits
      [(1, payload.bitsPerValue), (4, payload.rowCount), (4, payload.bits.length)] := by
    refine List.forall_mem_cons.mpr ⟨?_, List.forall_mem_cons.mpr
      ⟨hfits.rows, List.forall_mem_singleton.mpr hbits⟩⟩
    show payload.bitsPerValue < 256 ^ 1
    omega
  have hencode : payload.encode = FieldRecord.encode
      [(1, payload.bitsPerValue), (4, payload.rowCount), (4, payload.bits.length)] ++
        payload.bits := by rw [encode, hlen]
  have hbpv : fieldNat payload.encode 0 1 = payload.bitsPerValue := by
    rw [hencode]
    exact fieldNat_encode hrecord rfl _
  have hrows : fieldNat payload.encode 1 4 = payload.rowCount := by
    rw [hencode]
    exact fieldNat_encode hrecord rfl _
  have hbyteLen : fieldNat payload.encode 5 4 = payload.bits.length := by
    rw [hencode]
    exact fieldNat_encode hrecord rfl _
  have hhead : (FieldRecord.encode
      [(1, payload.bitsPerValue), (4, payload.rowCount), (4, payload.bits.length)]).length = 9 := by
    rw [FieldRecord.length_encode]
    rfl
  have hlength : payload.encode.length = 9 + payload.bits.length := by
    rw [hencode, List.length_append, hhead]
  unfold parse
  dsimp only
  rw [hbpv, hrows, hbyteLen, hlength, if_neg (by omega), if_neg (not_not.mpr ⟨hpos, hle⟩),
    if_neg (by omega), if_neg (by omega), hencode, fieldBytes, List.drop_left' hhead,
    List.take_length]

/-- The values of a payload that was parsed, by both decoders. -/
theorem decodes_of_parse
    (h : parse bytes = .ok payload) : ∃ rows, payload.canonicalDecode = .ok rows ∧
      payload.fastDecode = .ok rows ∧ rows.length = payload.rowCount := by
  have hfits := (fits_of_parse h).1
  refine ⟨_, canonicalDecode_eq hfits, fastDecode_eq hfits, ?_⟩
  rw [List.length_map, List.length_range]

/-- The byte length that is parsed has 32 bits. -/
theorem bits_lt_of_parse (h : parse bytes = .ok payload) : payload.bits.length < 2 ^ 32 := by
  unfold parse at h
  obtain ⟨-, h⟩ := ite_error_eq_ok.mp h
  obtain ⟨-, h⟩ := ite_error_eq_ok.mp h
  obtain ⟨-, h⟩ := ite_error_eq_ok.mp h
  obtain ⟨-, h⟩ := ite_error_eq_ok.mp h
  obtain rfl := Except.ok.inj h
  have hlt := fieldNat_lt bytes 5 4
  have hle : (fieldBytes bytes 9 (fieldNat bytes 5 4)).length ≤ fieldNat bytes 5 4 :=
    List.length_take_le _ _
  exact Nat.lt_of_le_of_lt hle hlt

/-- What was packed declares the number of values, as far as 32 bits tell. -/
theorem rowCount_of_pack
    (h : pack values w = .ok payload) : payload.rowCount = values.length % 2 ^ 32 := by
  unfold pack at h
  obtain ⟨-, h⟩ := ite_error_eq_ok.mp h
  obtain ⟨totalBits, -, h⟩ := bind_eq_ok.mp h
  obtain ⟨state, -, h⟩ := bind_eq_ok.mp h
  rw [← Except.ok.inj h]

end BitPackedPayload

theorem length_lt_of_read (hpack : BitPackedPayload.pack values w = .ok payload)
    (hparse : BitPackedPayload.parse payload.encode = .ok payload)
    (hdecode : payload.canonicalDecode = .ok values) : values.length < 2 ^ 32 := by
  obtain ⟨rows, hrows, -, hcount⟩ := BitPackedPayload.decodes_of_parse hparse
  obtain rfl := Except.ok.inj (hrows.symm.trans hdecode)
  rw [hcount, BitPackedPayload.rowCount_of_pack hpack]
  exact Nat.mod_lt _ (by decide)

/-- **Packed values are read back** exactly when the number of values and that of their bytes fit
32 bits; and every payload that is parsed decodes to its declared number of rows, by both decoders
alike. -/
theorem bitPacked_round_trip_iff (w : Nat) (hpos : 1 ≤ w) (hw : w ≤ 63) (values : List (BitVec 64))
    (hvalues : ∀ v ∈ values, v.toNat < 2 ^ w) :
    ((∃ payload, BitPackedPayload.pack values w = .ok payload ∧
        BitPackedPayload.parse payload.encode = .ok payload ∧
        payload.canonicalDecode = .ok values ∧ payload.fastDecode = .ok values) ↔
      values.length < 2 ^ 32 ∧ (values.length * w + 7) / 8 < 2 ^ 32) ∧
    ∀ bytes payload, BitPackedPayload.parse bytes = .ok payload →
      ∃ rows, payload.canonicalDecode = .ok rows ∧ payload.fastDecode = .ok rows ∧
        rows.length = payload.rowCount := by
  refine ⟨⟨?_, ?_⟩, fun bytes payload => BitPackedPayload.decodes_of_parse⟩
  · rintro ⟨payload, hpack, hparse, hdecode, -⟩
    have hlength := length_lt_of_read hpack hparse hdecode
    have hmul : values.length * w ≤ 2 ^ 32 * 63 := Nat.mul_le_mul (Nat.le_of_lt hlength) hw
    obtain ⟨bits, hpack', hbits, -⟩ := BitPackedPayload.pack_spec hpos hw hvalues (by omega)
    obtain rfl := Except.ok.inj (hpack.symm.trans hpack')
    exact ⟨hlength, hbits ▸ BitPackedPayload.bits_lt_of_parse hparse⟩
  · rintro ⟨hlength, hbytes⟩
    have hmul : values.length * w ≤ 2 ^ 32 * 63 := Nat.mul_le_mul (Nat.le_of_lt hlength) hw
    obtain ⟨bits, hpack, hbits, hholds⟩ := BitPackedPayload.pack_spec hpos hw hvalues (by omega)
    rw [Nat.mod_eq_of_lt hlength] at hpack
    have hfits : BitPackedPayload.Fits ⟨w, values.length, bits⟩ := by
      refine ⟨hpos, hw, hlength, ?_⟩
      show values.length * w ≤ 8 * bits.length
      omega
    have hrows : (List.range values.length).map
        (BitPackedPayload.rowValue ⟨w, values.length, bits⟩) = values :=
      BitPackedPayload.rows_eq hvalues hholds rfl
    refine ⟨_, hpack, BitPackedPayload.parse_encode hfits (hbits ▸ hbytes), ?_, ?_⟩
    · rw [BitPackedPayload.canonicalDecode_eq hfits, hrows]
    · rw [BitPackedPayload.fastDecode_eq hfits, hrows]

/-- As many values as 32 bits can count, and one more: they are not read back. -/
theorem pack_many_zeros : ¬ ∃ payload,
    BitPackedPayload.pack (List.replicate (2 ^ 32) 0#64) 1 = .ok payload ∧
    BitPackedPayload.parse payload.encode = .ok payload ∧
    payload.canonicalDecode = .ok (List.replicate (2 ^ 32) 0#64) := by
  rintro ⟨payload, hpack, hparse, hdecode⟩
  have hlt := length_lt_of_read hpack hparse hdecode
  rw [List.length_replicate] at hlt
  exact Nat.lt_irrefl _ hlt

theorem bitPacked_round_trip_iff_three :
    ((∃ payload, BitPackedPayload.pack [1#64, 5#64] 3 = .ok payload ∧
        BitPackedPayload.parse payload.encode = .ok payload ∧
        payload.canonicalDecode = .ok [1#64, 5#64] ∧ payload.fastDecode = .ok [1#64, 5#64]) ↔
      [1#64, 5#64].length < 2 ^ 32 ∧ ([1#64, 5#64].length * 3 + 7) / 8 < 2 ^ 32) ∧
    ∀ bytes payload, BitPackedPayload.parse bytes = .ok payload →
      ∃ rows, payload.canonicalDecode = .ok rows ∧ payload.fastDecode = .ok rows ∧
        rows.length = payload.rowCount :=
  bitPacked_round_trip_iff 3 (by decide) (by decide) [1#64, 5#64]
    (List.forall_mem_cons.mpr ⟨by decide, List.forall_mem_singleton.mpr (by decide)⟩)

end Encoding

end Cove
