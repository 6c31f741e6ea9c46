import Cove.Lib.ByteCopy

/-!
# Copying the bytes of a row

The helpers that copy one value of bytes into the values buffer of an Arrow array. Each takes the
bytes at its source and the bytes that stood at its destination, both as long as the value, and
gives what stands at the destination then. The helpers for strict export also give a mask that is
zero when all bytes are ASCII.

- `copyVarbytesValue`, `copyFixedVarbytesValue`: the plain copies.
- `copyVarbytesValueAsciiMask`, `copyFixedVarbytesValueAsciiMask`: the copies with a mask.
- `copyVarbytesValue_eq`, `copyVarbytesValueAsciiMask_spec`: **for every length the value is
  copied, and the mask is zero exactly on ASCII**.
-/

namespace Cove

variable {len offset mask : Nat}

variable {n m : Nat}

namespace Arrow

open ByteCopy LittleEndian

def asciiHighBitMaskU64 : Nat := 0x8080808080808080

/-! ## The helpers -/

/-- `copy_small_varbytes_value`. -/
def copySmallVarbytesValue (src dst : List UInt8) (len : Nat) : List UInt8 :=
  if len = 0 then dst
  else if len = 1 then writeAt dst 0 (readAt src 0 1)
  else if len = 2 then writeAt dst 0 (readAt src 0 2)
  else if len = 3 then writeAt (writeAt dst 0 (readAt src 0 2)) 2 (readAt src 2 1)
  else if len = 4 then writeAt dst 0 (readAt src 0 4)
  else if len ≤ 7 then
    writeAt (writeAt dst 0 (readAt src 0 4)) (len - 4) (readAt src (len - 4) 4)
  else if len = 8 then writeAt dst 0 (readAt src 0 8)
  else if len ≤ 16 then
    writeAt (writeAt dst 0 (readAt src 0 8)) (len - 8) (readAt src (len - 8) 8)
  else writeAt dst 0 (readAt src 0 len)

/-- `copy_varbytes_value`. -/
def copyVarbytesValue (src dst : List UInt8) (len : Nat) : List UInt8 :=
  if len ≤ 16 then copySmallVarbytesValue src dst len else writeAt dst 0 (readAt src 0 len)

/-- `copy_fixed_varbytes_value`. -/
def copyFixedVarbytesValue (src dst : List UInt8) (len : Nat) : List UInt8 :=
  if len ≤ 16 then copySmallVarbytesValue src dst len else writeAt dst 0 (readAt src 0 len)

/-- The arms of `copy_small_varbytes_value_ascii_mask`, `longer` being the last. -/
def smallAsciiMaskArms (src dst : List UInt8) (len : Nat) (longer : List UInt8 × Nat) :
    List UInt8 × Nat :=
  if len = 0 then (dst, 0)
  else if len = 1 then
    let byte := readAt src 0 1
    (writeAt dst 0 byte, ofLe byte &&& 0x80)
  else if len = 2 then
    let word := readAt src 0 2
    (writeAt dst 0 word, ofLe word &&& 0x8080)
  else if len = 3 then
    let first := readAt src 0 2
    let last := readAt src 2 1
    (writeAt (writeAt dst 0 first) 2 last, (ofLe first &&& 0x8080) ||| (ofLe last &&& 0x80))
  else if len = 4 then
    let word := readAt src 0 4
    (writeAt dst 0 word, ofLe word &&& 0x80808080)
  else if len ≤ 7 then
    let first := readAt src 0 4
    let last := readAt src (len - 4) 4
    (writeAt (writeAt dst 0 first) (len - 4) last, (ofLe first ||| ofLe last) &&& 0x80808080)
  else if len = 8 then
    let word := readAt src 0 8
    (writeAt dst 0 word, ofLe word &&& asciiHighBitMaskU64)
  else if len ≤ 16 then
    let first := readAt src 0 8
    let last := readAt src (len - 8) 8
    (writeAt (writeAt dst 0 first) (len - 8) last,
      (ofLe first ||| ofLe last) &&& asciiHighBitMaskU64)
  else longer

/-- The word loop of `copy_varbytes_value_ascii_mask`: what it has written, and where it stops. -/
def copyWordsAsciiMask (src dst : List UInt8) (len offset mask : Nat) :
    List UInt8 × Nat × Nat :=
  if offset + 8 ≤ len then
    let word := readAt src offset 8
    copyWordsAsciiMask src (writeAt dst offset word) len (offset + 8)
      (mask ||| (ofLe word &&& asciiHighBitMaskU64))
  else (dst, offset, mask)
termination_by len - offset

/-- The word loop of `ascii_high_bit_mask`. -/
def maskWords (src : List UInt8) (len offset mask : Nat) : Nat × Nat :=
  if offset + 8 ≤ len then
    maskWords src len (offset + 8) (mask ||| (ofLe (readAt src offset 8) &&& asciiHighBitMaskU64))
  else (offset, mask)
termination_by len - offset

/-- The byte loop of `ascii_high_bit_mask`. -/
def maskBytes (src : List UInt8) (len offset mask : Nat) : Nat :=
  if offset < len then
    maskBytes src len (offset + 1) (mask ||| (ofLe (readAt src offset 1) &&& 0x80))
  else mask
termination_by len - offset

/-- `ascii_high_bit_mask`. -/
def asciiHighBitMask (src : List UInt8) (len : Nat) : Nat :=
  let (offset, mask) := maskWords src len 0 0
  maskBytes src len offset mask

/-- `copy_varbytes_value_ascii_mask` for more than sixteen bytes. The tail of the word loop is
shorter than a word, so the last arm of the small copy is out of its reach. -/
def copyLongVarbytesValueAsciiMask (src dst : List UInt8) (len : Nat) : List UInt8 × Nat :=
  if len ≤ 64 then
    let (dst, offset, mask) := copyWordsAsciiMask src dst len 0 0
    if offset < len then
      let (tail, tailMask) :=
        smallAsciiMaskArms (src.drop offset) (dst.drop offset) (len - offset) (dst.drop offset, 0)
      (dst.take offset ++ tail, mask ||| tailMask)
    else (dst, mask)
  else (writeAt dst 0 (readAt src 0 len), asciiHighBitMask src len)

/-- `copy_small_varbytes_value_ascii_mask`. -/
def copySmallVarbytesValueAsciiMask (src dst : List UInt8) (len : Nat) : List UInt8 × Nat :=
  smallAsciiMaskArms src dst len (copyLongVarbytesValueAsciiMask src dst len)

/-- `copy_varbytes_value_ascii_mask`. -/
def copyVarbytesValueAsciiMask (src dst : List UInt8) (len : Nat) : List UInt8 × Nat :=
  if len ≤ 16 then copySmallVarbytesValueAsciiMask src dst len
  else copyLongVarbytesValueAsciiMask src dst len

/-- `copy_fixed_varbytes_value_ascii_mask`. -/
def copyFixedVarbytesValueAsciiMask (src dst : List UInt8) (len : Nat) : List UInt8 × Nat :=
  if len ≤ 16 then copySmallVarbytesValueAsciiMask src dst len
  else copyVarbytesValueAsciiMask src dst len

/-! ## One and two words -/

section Copies

variable {src dst : List UInt8}

theorem writeAt_first (h : n ≤ src.length) :
    writeAt dst 0 (readAt src 0 n) = copied src dst n := by
  have hlen : 0 + n ≤ src.length := by omega
  have hwrite : writeAt (copied src dst 0) 0 (readAt src 0 n) = copied src dst (0 + n) :=
    writeAt_copied (Nat.le_refl 0) (Nat.zero_le _) hlen
  rwa [copied_zero, Nat.zero_add] at hwrite

/-- A word is the whole value. -/
theorem writeAt_whole (hdst : dst.length = src.length) :
    writeAt dst 0 (readAt src 0 src.length) = src := by
  rw [writeAt_first (Nat.le_refl _), copied_all hdst]

/-- Two words cover the value. -/
theorem writeAt_two (hdst : dst.length = src.length) {pos : Nat} (hpos : pos ≤ n)
    (hn : n ≤ src.length) (hend : pos + m = src.length) :
    writeAt (writeAt dst 0 (readAt src 0 n)) pos (readAt src pos m) = src := by
  rw [writeAt_first hn, writeAt_copied hpos (by omega) (by omega), hend, copied_all hdst]

theorem readAt_whole : readAt src 0 src.length = src := by
  rw [readAt, List.drop_zero, List.take_length]

/-- A property of all bytes, by two words that cover them. -/
theorem forall_readAt_two {P : UInt8 → Prop} {pos : Nat} (hpos : pos ≤ n)
    (hend : pos + m = src.length) :
    (∀ byte ∈ readAt src 0 n, P byte) ∧ (∀ byte ∈ readAt src pos m, P byte) ↔
      ∀ byte ∈ src, P byte := by
  have hlast : readAt src pos m = src.drop pos :=
    List.take_of_length_le (by rw [List.length_drop]; omega)
  rw [hlast]
  refine ⟨fun h byte hbyte => ?_, fun h => ⟨fun byte hbyte => ?_, fun byte hbyte => ?_⟩⟩
  · rw [← List.take_append_drop pos src, List.mem_append] at hbyte
    obtain hbyte | hbyte := hbyte
    · exact h.1 byte (List.take_subset_take_left src hpos hbyte)
    · exact h.2 byte hbyte
  · exact h byte (List.mem_of_mem_take hbyte)
  · exact h byte (List.mem_of_mem_drop hbyte)

/-! ## The plain copies -/

/-- **A short value is copied, whatever its length.** -/
theorem copySmallVarbytesValue_eq (hdst : dst.length = src.length) :
    copySmallVarbytesValue src dst src.length = src := by
  unfold copySmallVarbytesValue
  split
  · next h => rw [List.length_eq_zero_iff.mp h] at hdst ⊢; exact List.length_eq_zero_iff.mp hdst
  split
  · next h => rw [← h]; exact writeAt_whole hdst
  split
  · next h => rw [← h]; exact writeAt_whole hdst
  split
  · exact writeAt_two hdst (by omega) (by omega) (by omega)
  split
  · next h => rw [← h]; exact writeAt_whole hdst
  split
  · exact writeAt_two hdst (by omega) (by omega) (by omega)
  split
  · next h => rw [← h]; exact writeAt_whole hdst
  split
  · exact writeAt_two hdst (by omega) (by omega) (by omega)
  · exact writeAt_whole hdst

/-- **The value is copied, whatever its length.** -/
theorem copyVarbytesValue_eq (hdst : dst.length = src.length) :
    copyVarbytesValue src dst src.length = src := by
  unfold copyVarbytesValue
  split
  · exact copySmallVarbytesValue_eq hdst
  · exact writeAt_whole hdst

/-- The fixed-length path copies like the general one. -/
theorem copyFixedVarbytesValue_eq (hdst : dst.length = src.length) :
    copyFixedVarbytesValue src dst src.length = src := copyVarbytesValue_eq hdst

/-! ## The copies with a mask -/

/-- The value is copied, and the mask is zero exactly when it is ASCII. -/
structure CopiesWithMask (src : List UInt8) (out : List UInt8 × Nat) : Prop where
  bytes : out.1 = src
  mask : out.2 = 0 ↔ ∀ byte ∈ src, byte < 128

theorem CopiesWithMask.mask_ne_zero {out : List UInt8 × Nat} (h : CopiesWithMask src out) :
    (out.2 != 0) = !src.all (· < 128) := by
  rw [Bool.eq_iff_iff, bne_iff_ne, ne_eq, h.mask, Bool.not_eq_true', Bool.eq_false_iff, ne_eq,
    List.all_eq_true]
  simp only [decide_eq_true_eq]

theorem highBits_values : highBits 1 = 0x80 ∧ highBits 2 = 0x8080 ∧ highBits 4 = 0x80808080 ∧
    highBits 8 = asciiHighBitMaskU64 := by decide

/-- One word that is the value. -/
theorem CopiesWithMask.one (hdst : dst.length = src.length) (hn : src.length = n)
    (hmask : highBits n = mask) :
    CopiesWithMask src (writeAt dst 0 (readAt src 0 n), ofLe (readAt src 0 n) &&& mask) where
  bytes := by rw [← hn]; exact writeAt_whole hdst
  mask := by rw [← hmask, ← hn, readAt_whole]; exact and_highBits_eq_zero_iff src

/-- Two words of one length that cover the value. -/
theorem CopiesWithMask.two (hdst : dst.length = src.length) (hn : n ≤ src.length)
    (hcover : src.length ≤ 2 * n) (hmask : highBits n = mask) :
    CopiesWithMask src
      (writeAt (writeAt dst 0 (readAt src 0 n)) (src.length - n) (readAt src (src.length - n) n),
        (ofLe (readAt src 0 n) ||| ofLe (readAt src (src.length - n) n)) &&& mask) where
  bytes := writeAt_two hdst (by omega) hn (by omega)
  mask := by
    rw [← hmask, or_and_highBits_eq_zero_iff (length_readAt (by omega)) (length_readAt (by omega))]
    exact forall_readAt_two (by omega) (by omega)

/-- **A short value is copied, and its mask is zero exactly on ASCII.** -/
theorem smallAsciiMaskArms_spec (hdst : dst.length = src.length) (hshort : src.length ≤ 16)
    (longer : List UInt8 × Nat) :
    CopiesWithMask src (smallAsciiMaskArms src dst src.length longer) := by
  obtain ⟨hone, htwo, hfour, height⟩ := highBits_values
  unfold smallAsciiMaskArms
  split
  · next h =>
    obtain rfl := List.length_eq_zero_iff.mp h
    exact ⟨List.length_eq_zero_iff.mp hdst, by simp⟩
  split
  · next h => exact .one hdst h hone
  split
  · next h => exact .one hdst h htwo
  split
  · next h =>
    -- three bytes: two and one
    refine ⟨writeAt_two hdst (by omega) (by omega) (by omega), ?_⟩
    have hfirst := and_highBits_eq_zero_iff (readAt src 0 2)
    have hlast := and_highBits_eq_zero_iff (readAt src 2 1)
    rw [length_readAt (by omega), htwo] at hfirst
    rw [length_readAt (by omega), hone] at hlast
    show _ ||| _ = 0 ↔ _
    rw [Nat.or_eq_zero_iff, hfirst, hlast]
    exact forall_readAt_two (by omega) (by omega)
  split
  · next h => exact .one hdst h hfour
  split
  · exact .two hdst (by omega) (by omega) hfour
  split
  · next h => exact .one hdst h height
  · exact .two hdst (by omega) (by omega) height

/-- A mask over the first bytes, with a word more. -/
theorem mask_extend (hlen : offset + n ≤ src.length) (hm : highBits n = m)
    (h : mask = 0 ↔ ∀ byte ∈ src.take offset, byte < 128) :
    mask ||| (ofLe (readAt src offset n) &&& m) = 0 ↔
      ∀ byte ∈ src.take (offset + n), byte < 128 := by
  have hword := and_highBits_eq_zero_iff (readAt src offset n)
  rw [length_readAt hlen, hm] at hword
  rw [Nat.or_eq_zero_iff, h, hword, List.take_add, List.forall_mem_append]
  rfl

/-- The word loop extends the copied bytes and the mask over them. -/
theorem copyWordsAsciiMask_spec (src dst : List UInt8) {bytes : List UInt8}
    (hlen : len = src.length) (hbytes : bytes = copied src dst offset) (hoffset : offset ≤ len)
    (hmask : mask = 0 ↔ ∀ byte ∈ src.take offset, byte < 128) :
    ∃ stop mask', copyWordsAsciiMask src bytes len offset mask = (copied src dst stop, stop, mask') ∧
      stop ≤ len ∧ len < stop + 8 ∧ (mask' = 0 ↔ ∀ byte ∈ src.take stop, byte < 128) := by
  fun_induction copyWordsAsciiMask src bytes len offset mask with
  | case1 bytes offset mask hword word ih =>
    refine ih ?_ hword (mask_extend (by omega) highBits_values.2.2.2 hmask)
    rw [hbytes]
    exact writeAt_copied (Nat.le_refl _) (Nat.le_add_right _ _) (by omega)
  | case2 bytes offset mask hword => exact ⟨offset, mask, by rw [hbytes], hoffset, by omega, hmask⟩

theorem maskWords_spec (src : List UInt8) (hlen : len = src.length) (hoffset : offset ≤ len)
    (hmask : mask = 0 ↔ ∀ byte ∈ src.take offset, byte < 128) :
    (maskWords src len offset mask).1 ≤ len ∧ ((maskWords src len offset mask).2 = 0 ↔
      ∀ byte ∈ src.take (maskWords src len offset mask).1, byte < 128) := by
  fun_induction maskWords src len offset mask with
  | case1 offset mask hword ih =>
    exact ih hword (mask_extend (by omega) highBits_values.2.2.2 hmask)
  | case2 offset mask hword => exact ⟨hoffset, hmask⟩

theorem maskBytes_spec (hlen : len = src.length) (hoffset : offset ≤ len)
    (hmask : mask = 0 ↔ ∀ byte ∈ src.take offset, byte < 128) :
    maskBytes src len offset mask = 0 ↔ ∀ byte ∈ src, byte < 128 := by
  fun_induction maskBytes src len offset mask with
  | case1 offset mask hbyte ih => exact ih hbyte (mask_extend (by omega) highBits_values.1 hmask)
  | case2 offset mask hbyte =>
    rwa [List.take_of_length_le (by omega)] at hmask

/-- The loops of the plain mask see every byte. -/
theorem asciiHighBitMask_eq_zero_iff :
    asciiHighBitMask src src.length = 0 ↔ ∀ byte ∈ src, byte < 128 := by
  obtain ⟨hoffset, hmask⟩ := maskWords_spec src rfl (Nat.zero_le _) (iff_of_true rfl nofun)
  exact maskBytes_spec rfl hoffset hmask

/-- **A long value is copied, and its mask is zero exactly on ASCII.** -/
theorem copyLongVarbytesValueAsciiMask_spec (hdst : dst.length = src.length) :
    CopiesWithMask src (copyLongVarbytesValueAsciiMask src dst src.length) := by
  unfold copyLongVarbytesValueAsciiMask
  split
  · obtain ⟨stop, mask, hloop, hle, hlt, hmask⟩ := copyWordsAsciiMask_spec src dst rfl
      (copied_zero src dst).symm (Nat.zero_le _) (iff_of_true rfl nofun)
    rw [hloop]
    dsimp only
    split
    · -- what is left is shorter than a word
      have htake : (src.take stop).length = stop := by rw [List.length_take]; omega
      have hdrop : (copied src dst stop).drop stop = dst.drop stop := List.drop_left' htake
      have hhead : (copied src dst stop).take stop = src.take stop := List.take_left' htake
      have htail : CopiesWithMask (src.drop stop) (smallAsciiMaskArms (src.drop stop)
          (dst.drop stop) (src.drop stop).length (dst.drop stop, 0)) :=
        smallAsciiMaskArms_spec (by rw [List.length_drop, List.length_drop, hdst])
          (by rw [List.length_drop]; omega) _
      rw [List.length_drop] at htail
      rw [hdrop, hhead]
      refine ⟨?_, ?_⟩
      · show src.take stop ++ _ = src
        rw [htail.bytes, List.take_append_drop]
      · show mask ||| _ = 0 ↔ _
        rw [Nat.or_eq_zero_iff, hmask, htail.mask, ← List.forall_mem_append, List.take_append_drop]
    · have hstop : stop = src.length := by omega
      rw [hstop, List.take_length] at hmask
      exact ⟨by rw [hstop, copied_all hdst], hmask⟩
  · exact ⟨writeAt_whole hdst, asciiHighBitMask_eq_zero_iff⟩

/-- **The value is copied, whatever its length, and the mask is zero exactly on ASCII.** -/
theorem copyVarbytesValueAsciiMask_spec (hdst : dst.length = src.length) :
    CopiesWithMask src (copyVarbytesValueAsciiMask src dst src.length) := by
  unfold copyVarbytesValueAsciiMask
  split
  · next hshort => exact smallAsciiMaskArms_spec hdst hshort _
  · exact copyLongVarbytesValueAsciiMask_spec hdst

/-- The fixed-length path copies like the general one. -/
theorem copyFixedVarbytesValueAsciiMask_eq (len : Nat) :
    copyFixedVarbytesValueAsciiMask src dst len = copyVarbytesValueAsciiMask src dst len := by
  unfold copyFixedVarbytesValueAsciiMask copyVarbytesValueAsciiMask
  split <;> rfl

end Copies

end Arrow

end Cove
