import Mathlib.Data.List.Basic
import Mathlib.Data.Nat.Bitwise
import Cove.Lib.LittleEndian

/-!
# Bit sets over bytes

A set of naturals as a list of bytes, bit `i % 8` of byte `i / 8` for `i`.

- `get`: membership, `insert`: one more member.
- `get_insert`: **the members after an insertion**.
- `get_foldl_insert`: the members after many.
- `testBit_ofLe`: **the bits of a little-endian number are those of its bytes**.
- `testBit_ofLe_window`: the bits of a number loaded from the middle of the bytes.
-/

namespace ByteBits

/-- The mask of a bit in its byte. -/
def mask (i : Nat) : UInt8 := 1 <<< UInt8.ofNat (i % 8)

/-- `bytes[i / 8] & (1 << (i % 8)) != 0`, with zeros past the end. -/
def get (bytes : List UInt8) (i : Nat) : Bool := (bytes[i / 8]?).getD 0 &&& mask i != 0

/-- `bytes[i / 8] |= 1 << (i % 8)`. -/
def insert (bytes : List UInt8) (i : Nat) : List UInt8 :=
  bytes.modify (i / 8) fun byte => byte ||| mask i

@[simp]
theorem length_insert (bytes : List UInt8) (i : Nat) : (insert bytes i).length = bytes.length :=
  List.length_modify _ _ _

theorem toNat_mask (i : Nat) : (mask i).toNat = 2 ^ (i % 8) := by
  have hplace : ∀ k : Fin 8, ((1 : UInt8) <<< UInt8.ofNat k).toNat = 2 ^ (k : Nat) := by decide
  exact hplace ⟨i % 8, Nat.mod_lt _ (by decide)⟩

/-- The test of a byte against a mask reads one bit of it. -/
theorem and_mask_ne_zero (byte : UInt8) (i : Nat) :
    (byte &&& mask i != 0) = byte.toNat.testBit (i % 8) := by
  rw [Bool.eq_iff_iff, bne_iff_ne, ne_eq, ← UInt8.toNat_inj, UInt8.toNat_and, toNat_mask,
    Nat.and_two_pow]
  cases byte.toNat.testBit (i % 8) <;> simp

theorem get_eq_testBit (bytes : List UInt8) (i : Nat) :
    get bytes i = ((bytes[i / 8]?).getD 0).toNat.testBit (i % 8) :=
  and_mask_ne_zero _ i

variable {bytes : List UInt8} {i : Nat}

/-- **The members after an insertion** within the bytes. -/
theorem get_insert (h : i / 8 < bytes.length) (j : Nat) :
    get (insert bytes i) j = (decide (j = i) || get bytes j) := by
  rw [get_eq_testBit, get_eq_testBit, insert, List.getElem?_modify]
  by_cases hbyte : i / 8 = j / 8
  · rw [← hbyte, List.getElem?_eq_getElem h]
    simp only [if_true, Option.map_eq_map, Option.map_some, Option.getD_some, UInt8.toNat_or,
      Nat.testBit_or, toNat_mask, Nat.testBit_two_pow]
    rw [Bool.or_comm, decide_eq_decide.mpr (show i % 8 = j % 8 ↔ j = i by omega)]
  · have hne : j ≠ i := fun h => hbyte (h ▸ rfl)
    simp [hbyte, hne]

/-- The members after many insertions. The induction is on the insertions, from the first. -/
theorem get_foldl_insert {places : List Nat} (h : ∀ i ∈ places, i / 8 < bytes.length) (j : Nat) :
    get (places.foldl insert bytes) j = true ↔ j ∈ places ∨ get bytes j = true := by
  induction places generalizing bytes with
  | nil => simp
  | cons i places ih =>
    have hlater : ∀ k ∈ places, k / 8 < (insert bytes i).length := by
      intro k hk
      rw [length_insert]
      exact h k (List.mem_cons_of_mem _ hk)
    rw [List.foldl_cons, ih hlater, get_insert (h i List.mem_cons_self), List.mem_cons]
    simp only [Bool.or_eq_true, decide_eq_true_eq]
    tauto

@[simp]
theorem length_foldl_insert (bytes : List UInt8) (places : List Nat) :
    (places.foldl insert bytes).length = bytes.length := by
  induction places generalizing bytes with
  | nil => rfl
  | cons i places ih => rw [List.foldl_cons, ih, length_insert]

/-! ## Numbers -/

theorem get_cons_of_lt (byte : UInt8) (bytes : List UInt8) (h : i < 8) :
    get (byte :: bytes) i = byte.toNat.testBit i := by
  rw [get_eq_testBit, Nat.div_eq_of_lt h, Nat.mod_eq_of_lt h]
  rfl

theorem get_cons_add (byte : UInt8) (bytes : List UInt8) (i : Nat) :
    get (byte :: bytes) (i + 8) = get bytes i := by
  rw [get_eq_testBit, get_eq_testBit, Nat.add_div_right _ (by decide), Nat.add_mod_right,
    List.getElem?_cons_succ]

/-- **The bits of a little-endian number are those of its bytes.** -/
theorem testBit_ofLe (bytes : List UInt8) (i : Nat) :
    (LittleEndian.ofLe bytes).testBit i = get bytes i := by
  induction bytes generalizing i with
  | nil =>
    rw [get_eq_testBit]
    simp [LittleEndian.ofLe]
  | cons byte bytes ih =>
    have hbyte : byte.toNat < 2 ^ 8 := byte.toNat_lt
    have hnumber : LittleEndian.ofLe (byte :: bytes) =
        2 ^ 8 * LittleEndian.ofLe bytes + byte.toNat := by
      rw [LittleEndian.ofLe]
      omega
    rw [hnumber, Nat.testBit_two_pow_mul_add _ hbyte]
    by_cases h : i < 8
    · rw [if_pos h, get_cons_of_lt byte bytes h]
    · obtain ⟨k, rfl⟩ : ∃ k, i = k + 8 := ⟨i - 8, by omega⟩
      rw [if_neg h, get_cons_add, Nat.add_sub_cancel, ih]

theorem get_drop (bytes : List UInt8) (k i : Nat) : get (bytes.drop k) i = get bytes (8 * k + i) := by
  rw [get_eq_testBit, get_eq_testBit, List.getElem?_drop,
    show (8 * k + i) / 8 = k + i / 8 by omega, Nat.mul_add_mod]

theorem get_take (bytes : List UInt8) {w : Nat} (h : i < 8 * w) :
    get (bytes.take w) i = get bytes i := by
  rw [get_eq_testBit, get_eq_testBit, List.getElem?_take_of_lt (by omega)]

/-- The bits of a number loaded from the middle of the bytes. -/
theorem testBit_ofLe_window (bytes : List UInt8) {k w : Nat} (h : i < 8 * w) :
    (LittleEndian.ofLe ((bytes.drop k).take w)).testBit i = get bytes (8 * k + i) := by
  rw [testBit_ofLe, get_take _ h, get_drop]

end ByteBits
