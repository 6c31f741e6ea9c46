import Mathlib.Data.Nat.Bitwise
import Cove.Lib.LittleEndian

/-!
# Copying bytes by words

A stretch of bytes is copied by a few reads and writes of words, which may overlap. One word of the
bytes that were read, masked, tells whether a byte above 127 was among them.

- `readAt`, `writeAt`: one access, at any place.
- `copied`: a destination whose first bytes are those of the source.
- `writeAt_copied`: **a write that starts within the copied bytes extends them**.
- `highBits`, `and_highBits_eq_zero_iff`: **the mask sees a byte above 127**.
-/

namespace ByteCopy

/-- The `n` bytes from a place on. -/
def readAt (src : List UInt8) (pos n : Nat) : List UInt8 := (src.drop pos).take n

/-- The bytes, with those from a place on overwritten. -/
def writeAt (dst : List UInt8) (pos : Nat) (bytes : List UInt8) : List UInt8 :=
  dst.take pos ++ bytes ++ dst.drop (pos + bytes.length)

/-- A destination whose first `done` bytes are those of the source. -/
def copied (src dst : List UInt8) (done : Nat) : List UInt8 := src.take done ++ dst.drop done

theorem copied_zero (src dst : List UInt8) : copied src dst 0 = dst := rfl

variable {src dst : List UInt8}

theorem copied_all (h : dst.length = src.length) :
    copied src dst src.length = src := by
  rw [copied, List.take_length, ← h, List.drop_length, List.append_nil]

theorem length_readAt {pos n : Nat} (h : pos + n ≤ src.length) :
    (readAt src pos n).length = n := by
  rw [readAt, List.length_take, List.length_drop]
  omega

/-- **A write that starts within the copied bytes extends them**, also when it overlaps some. -/
theorem writeAt_copied {done pos n : Nat} (hpos : pos ≤ done)
    (hdone : done ≤ pos + n) (hlen : pos + n ≤ src.length) :
    writeAt (copied src dst done) pos (readAt src pos n) = copied src dst (pos + n) := by
  have htake : (src.take done).length = done := by
    rw [List.length_take]
    omega
  have hhead : (copied src dst done).take pos = src.take pos := by
    rw [copied, List.take_append_of_le_length (by omega), List.take_take, Nat.min_eq_left hpos]
  have htail : (copied src dst done).drop (pos + n) = dst.drop (pos + n) := by
    obtain ⟨k, hk⟩ := Nat.exists_eq_add_of_le hdone
    rw [hk, copied, ← List.drop_drop, List.drop_left' htake, List.drop_drop]
  rw [writeAt, length_readAt hlen, hhead, htail, copied, readAt, List.take_add]

/-! ## The bytes above 127 -/

/-- The highest bit of each of `n` bytes. -/
def highBits : Nat → Nat
  | 0 => 0
  | n + 1 => 0x80 + 256 * highBits n

theorem and_highBit_eq_zero_iff (byte : UInt8) : byte.toNat &&& 0x80 = 0 ↔ byte < 128 := by
  have h : ∀ k : Fin 256, (k : Nat) &&& 0x80 = 0 ↔ (k : Nat) < 128 := by decide +kernel
  exact h ⟨byte.toNat, byte.toNat_lt⟩

/-- **The mask sees a byte above 127.** -/
theorem and_highBits_eq_zero_iff (bytes : List UInt8) :
    LittleEndian.ofLe bytes &&& highBits bytes.length = 0 ↔ ∀ byte ∈ bytes, byte < 128 := by
  induction bytes with
  | nil => simp [LittleEndian.ofLe]
  | cons byte bytes ih =>
    have hbyte : byte.toNat < 256 := byte.toNat_lt
    have hlow : (LittleEndian.ofLe (byte :: bytes) &&& highBits (byte :: bytes).length) % 2 ^ 8 =
        byte.toNat &&& 0x80 := by
      rw [Nat.and_mod_two_pow, LittleEndian.ofLe, List.length_cons, highBits]
      congr 1 <;> omega
    have hhigh : (LittleEndian.ofLe (byte :: bytes) &&& highBits (byte :: bytes).length) / 2 ^ 8 =
        LittleEndian.ofLe bytes &&& highBits bytes.length := by
      rw [Nat.and_div_two_pow, LittleEndian.ofLe, List.length_cons, highBits]
      congr 1 <;> omega
    rw [List.forall_mem_cons, ← ih, ← and_highBit_eq_zero_iff, ← hlow, ← hhigh]
    omega

/-- Two words of one length, masked together. -/
theorem or_and_highBits_eq_zero_iff {a b : List UInt8} {n : Nat} (ha : a.length = n)
    (hb : b.length = n) :
    (LittleEndian.ofLe a ||| LittleEndian.ofLe b) &&& highBits n = 0 ↔
      (∀ byte ∈ a, byte < 128) ∧ ∀ byte ∈ b, byte < 128 := by
  rw [Nat.and_or_distrib_right, Nat.or_eq_zero_iff, ← and_highBits_eq_zero_iff, ha,
    ← and_highBits_eq_zero_iff, hb]

end ByteCopy
