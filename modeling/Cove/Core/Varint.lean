import Cove.Core.Dictionary

/-!
# Varints

The varint reader takes a number from the front of a byte string. It accepts a number in more
than one spelling: groups of zeros may follow the highest group.

- `Varint`: a byte string the reader takes whole, with the number it stands for.
- `Varint.decode_append`, `exists_varint`: the reader takes a varint, whatever follows, and
  nothing else.
- `Varint.append_inj`: varints are prefix-free.
- `Varint.eq_of_length_eq`: the length of a varint is all that its number leaves open.
- `Varint.ofNat`: the shortest varint of a number.
-/

namespace Cove

open Leb128

/-- A byte string that is one varint. -/
structure Varint where
  bytes : List UInt8
  value : Nat
  decodes : decodeLeb128From 0 0 0 bytes = .ok (value, bytes.length)

/-! ## Reading -/

variable {bytes : List UInt8}

variable {value shift taken value' taken' : Nat}

/-- The loop reads a nonempty front of its bytes, and the rest has no part in it. -/
theorem exists_split_of_decode
    (h : decodeLeb128From value shift taken bytes = .ok (value', taken')) :
    ∃ front rest, bytes = front ++ rest ∧ front ≠ [] ∧ taken' = taken + front.length ∧
      ∀ rest', decodeLeb128From value shift taken (front ++ rest') = .ok (value', taken') := by
  induction bytes generalizing value shift taken with
  | nil => cases h
  | cons byte bytes ih =>
    unfold decodeLeb128From at h
    dsimp only at h
    split at h
    · cases h
    next hshift =>
    split at h
    · cases h
    next hlow =>
    split at h
    · next hlast =>
      obtain ⟨rfl, rfl⟩ := Prod.mk.inj (Except.ok.inj h)
      refine ⟨[byte], bytes, rfl, List.cons_ne_nil _ _, rfl, fun rest' => ?_⟩
      rw [List.singleton_append, decodeLeb128From]
      dsimp only
      rw [if_neg hshift, if_neg hlow, if_pos hlast]
    · next hmore =>
      split at h
      · cases h
      next hroom =>
      obtain ⟨front, rest, rfl, -, rfl, hall⟩ := ih h
      refine ⟨byte :: front, rest, rfl, List.cons_ne_nil _ _, ?_, fun rest' => ?_⟩
      · rw [List.length_cons]
        omega
      · rw [List.cons_append, decodeLeb128From]
        dsimp only
        rw [if_neg hshift, if_neg hlow, if_neg hmore, if_neg hroom]
        exact hall rest'

/-- What is read is a varint. -/
theorem exists_varint (h : decodeLeb128From 0 0 0 bytes = .ok (value, taken)) :
    ∃ (v : Varint) (rest : List UInt8), bytes = v.bytes ++ rest ∧ v.value = value ∧
      v.bytes.length = taken := by
  obtain ⟨front, rest, rfl, -, htaken, hall⟩ := exists_split_of_decode h
  rw [Nat.zero_add] at htaken
  have hfront := hall []
  rw [List.append_nil, htaken] at hfront
  exact ⟨⟨front, value, hfront⟩, rest, rfl, rfl, htaken.symm⟩

namespace Varint

variable {v w : Varint}

/-- A varint is read, whatever follows. -/
theorem decode_append (v : Varint) (rest : List UInt8) :
    decodeLeb128From 0 0 0 (v.bytes ++ rest) = .ok (v.value, v.bytes.length) := by
  obtain ⟨front, rest', hbytes, -, htaken, hall⟩ := exists_split_of_decode v.decodes
  obtain rfl : rest' = [] := by
    have := congrArg List.length hbytes
    rw [List.length_append] at this
    exact List.length_eq_zero_iff.mp (by omega)
  rw [List.append_nil] at hbytes
  have hread := hall rest
  rwa [← hbytes] at hread

theorem length_pos (v : Varint) : 0 < v.bytes.length := by
  obtain ⟨front, rest, hbytes, hne, -, -⟩ := exists_split_of_decode v.decodes
  rw [hbytes, List.length_append]
  have := List.length_pos_iff.mpr hne
  omega

theorem ext_bytes (h : v.bytes = w.bytes) : v = w := by
  obtain ⟨bytes, value, hv⟩ := v
  obtain ⟨_, value', hw⟩ := w
  obtain rfl := h
  rw [hv] at hw
  obtain ⟨rfl, -⟩ := Prod.mk.inj (Except.ok.inj hw)
  rfl

/-- **Varints are prefix-free.** -/
theorem append_inj {as bs : List UInt8} (h : v.bytes ++ as = w.bytes ++ bs) :
    v = w ∧ as = bs := by
  have hv := decode_append v as
  rw [h, decode_append w bs] at hv
  obtain ⟨-, hlength⟩ := Prod.mk.inj (Except.ok.inj hv)
  obtain ⟨hbytes, hrest⟩ := List.append_inj h hlength.symm
  exact ⟨ext_bytes hbytes, hrest⟩

end Varint

/-! ## Spellings of a number -/

/-- The low group of a spelled number is its first byte. -/
theorem decode_groups (h : decodeLeb128From value shift taken bytes = .ok (value', taken')) :
    ∃ k, value' = value + k * 2 ^ shift := by
  induction bytes generalizing value shift taken with
  | nil => cases h
  | cons byte bytes ih =>
    unfold decodeLeb128From at h
    dsimp only at h
    split at h
    · cases h
    split at h
    · cases h
    split at h
    · obtain ⟨rfl, -⟩ := Prod.mk.inj (Except.ok.inj h)
      exact ⟨_, rfl⟩
    split at h
    · cases h
    obtain ⟨k, rfl⟩ := ih h
    refine ⟨byte.toNat % 128 + 128 * k, ?_⟩
    rw [Nat.pow_add, show (2 : Nat) ^ 7 = 128 from rfl]
    ring

/-- Equally long spellings of one number are the same. The induction is on the bytes: the low
group is the remainder of what is still to come. -/
theorem eq_of_decode {bytes' : List UInt8} (hlen : bytes.length = bytes'.length)
    (h : decodeLeb128From value shift taken bytes = .ok (value', taken + bytes.length))
    (h' : decodeLeb128From value shift taken bytes' = .ok (value', taken + bytes'.length)) :
    bytes = bytes' := by
  induction bytes generalizing bytes' value shift taken with
  | nil => exact (List.length_eq_zero_iff.mp hlen.symm).symm
  | cons byte bytes ih =>
    obtain _ | ⟨byte', bytes'⟩ := bytes'
    · cases hlen
    have hlen' : bytes.length = bytes'.length := Nat.succ.inj hlen
    have hb := byte.toNat_lt
    have hb' := byte'.toNat_lt
    have hpow : 0 < 2 ^ shift := Nat.two_pow_pos shift
    unfold decodeLeb128From at h h'
    dsimp only at h h'
    rw [List.length_cons] at h h'
    split at h
    · cases h
    next hshift =>
    rw [if_neg hshift] at h'
    split at h
    · cases h
    split at h'
    · cases h'
    by_cases hlast : byte.toNat < 128
    · -- the last byte: nothing is left on the other side either
      rw [if_pos hlast] at h
      obtain ⟨hvalue, htaken⟩ := Prod.mk.inj (Except.ok.inj h)
      have hnil : bytes = [] := List.length_eq_zero_iff.mp (by omega)
      have hnil' : bytes' = [] := List.length_eq_zero_iff.mp (by omega)
      subst hnil hnil'
      split at h'
      · next hlast' =>
        obtain ⟨hvalue', -⟩ := Prod.mk.inj (Except.ok.inj h')
        have hmul : byte.toNat % 128 * 2 ^ shift = byte'.toNat % 128 * 2 ^ shift := by omega
        have hlow := Nat.eq_of_mul_eq_mul_right hpow hmul
        have heq : byte.toNat = byte'.toNat := by omega
        rw [UInt8.toNat_inj.mp heq]
      · split at h'
        · cases h'
        · cases h'
    · rw [if_neg hlast] at h
      split at h
      · cases h
      next hroom =>
      obtain ⟨k, hk⟩ := decode_groups h
      split at h'
      · obtain ⟨-, htaken⟩ := Prod.mk.inj (Except.ok.inj h')
        obtain rfl : bytes' = [] := List.length_eq_zero_iff.mp (by omega)
        obtain rfl : bytes = [] := List.length_eq_zero_iff.mp hlen'
        cases h
      obtain ⟨k', hk'⟩ := decode_groups h'
      have hgroups : byte.toNat % 128 + 128 * k = byte'.toNat % 128 + 128 * k' := by
        refine Nat.eq_of_mul_eq_mul_right hpow ?_
        rw [Nat.pow_add, show (2 : Nat) ^ 7 = 128 from rfl] at hk hk'
        have hk₁ : value' = value + (byte.toNat % 128 + 128 * k) * 2 ^ shift := by
          rw [hk]
          ring
        have hk₂ : value' = value + (byte'.toNat % 128 + 128 * k') * 2 ^ shift := by
          rw [hk']
          ring
        omega
      have heq : byte.toNat = byte'.toNat := by omega
      rw [UInt8.toNat_inj.mp heq] at h ⊢
      rw [show taken + (bytes.length + 1) = taken + 1 + bytes.length by omega] at h
      rw [show taken + (bytes'.length + 1) = taken + 1 + bytes'.length by omega] at h'
      rw [ih hlen' h h']

/-- **The length of a varint is all that its number leaves open.** -/
theorem Varint.eq_of_length_eq {v w : Varint} (hvalue : v.value = w.value)
    (hlen : v.bytes.length = w.bytes.length) : v = w := by
  have hv : decodeLeb128From 0 0 0 v.bytes = .ok (w.value, 0 + v.bytes.length) := by
    rw [Nat.zero_add, ← hvalue]
    exact v.decodes
  have hw : decodeLeb128From 0 0 0 w.bytes = .ok (w.value, 0 + w.bytes.length) := by
    rw [Nat.zero_add]
    exact w.decodes
  exact ext_bytes (eq_of_decode hlen hv hw)

/-! ## Writing -/

variable {n : Nat}

/-- The shortest spelling is read back, wherever its groups go. -/
theorem decode_leb128 (value taken : Nat) (hshift : shift < 64)
    (hfits : n * 2 ^ shift < 2 ^ 64) (rest : List UInt8) :
    decodeLeb128From value shift taken (leb128 n ++ rest) =
      .ok (value + n * 2 ^ shift, taken + (leb128 n).length) := by
  induction n using Nat.strongRecOn generalizing value shift taken with
  | _ n ih =>
    have hpow : 0 < 2 ^ shift := Nat.two_pow_pos shift
    have hroom : (2 : Nat) ^ 64 = 2 ^ (64 - shift) * 2 ^ shift := by
      rw [← Nat.pow_add, Nat.sub_add_cancel (Nat.le_of_lt hshift)]
    have hlt : n < 2 ^ (64 - shift) := by
      rw [hroom] at hfits
      exact Nat.lt_of_mul_lt_mul_right hfits
    rcases Nat.lt_or_ge n 128 with hn | hn
    · have hbyte : (UInt8.ofNat n).toNat = n := by
        rw [UInt8.toNat_ofNat', Nat.mod_eq_of_lt (by omega)]
      rw [leb128_of_lt hn, List.singleton_append, decodeLeb128From, hbyte,
        Nat.mod_eq_of_lt (show n < 128 from hn)]
      dsimp only
      rw [if_neg (by omega), if_neg (by omega), if_pos hn, List.length_singleton]
    · have hbyte : (UInt8.ofNat (128 + n % 128)).toNat = 128 + n % 128 := by
        rw [UInt8.toNat_ofNat', Nat.mod_eq_of_lt (by omega)]
      have hseven : (2 : Nat) ^ (shift + 7) = 128 * 2 ^ shift := by
        rw [Nat.pow_add]
        ring
      have hmore : n / 128 * 2 ^ (shift + 7) < 2 ^ 64 := by
        refine Nat.lt_of_le_of_lt ?_ hfits
        rw [hseven, ← Nat.mul_assoc]
        exact Nat.mul_le_mul_right _ (Nat.div_mul_le_self n 128)
      have hshift' : shift + 7 < 64 := by
        by_contra hge
        have hbig : 2 ^ 64 ≤ (2 : Nat) ^ (shift + 7) := Nat.pow_le_pow_right (by decide) (by omega)
        have hone : 2 ^ (shift + 7) ≤ n / 128 * 2 ^ (shift + 7) :=
          Nat.le_mul_of_pos_left _ (by omega)
        omega
      rw [leb128_of_ge hn, List.cons_append, decodeLeb128From, hbyte,
        show (128 + n % 128) % 128 = n % 128 by omega]
      dsimp only
      rw [if_neg (by omega), if_neg (by omega), if_neg (by omega), if_neg (by omega),
        ih (n / 128) (by omega) _ _ hshift' hmore, List.length_cons]
      have hsum : n % 128 * 2 ^ shift + n / 128 * 2 ^ (shift + 7) = n * 2 ^ shift := by
        rw [hseven, ← Nat.mul_assoc, ← Nat.add_mul, Nat.mod_add_div' n 128]
      rw [Nat.add_assoc, hsum, Nat.add_assoc, Nat.add_comm 1]

namespace Varint

/-- The shortest varint of a number, reduced to 64 bits. -/
def ofNat (n : Nat) : Varint where
  bytes := leb128 (n % 2 ^ 64)
  value := n % 2 ^ 64
  decodes := by
    have hlt : n % 2 ^ 64 < 2 ^ 64 := Nat.mod_lt _ (Nat.two_pow_pos 64)
    have hread := decode_leb128 0 0 (by decide) (show n % 2 ^ 64 * 2 ^ 0 < 2 ^ 64 by omega) []
    rwa [List.append_nil, Nat.pow_zero, Nat.mul_one, Nat.zero_add, Nat.zero_add] at hread

theorem ofNat_value (h : n < 2 ^ 64) : (ofNat n).value = n := Nat.mod_eq_of_lt h

theorem ofNat_bytes (h : n < 2 ^ 64) : (ofNat n).bytes = leb128 n :=
  congrArg leb128 (Nat.mod_eq_of_lt h)

end Varint

end Cove
