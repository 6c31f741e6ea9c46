import Mathlib.Data.Nat.Basic
import Mathlib.Tactic.Ring
import Mathlib.Tactic.NormNum

/-!
# Little-endian integers

Fixed-width unsigned and two's-complement integers as byte lists, least significant
byte first.

- `toLe w n`: the `w` bytes of `n`; `ofLe bs`: the number a byte list stands for.
- `signed w n`: the two's-complement reading of a `w`-byte unsigned number, and
  `unsigned w z` back.
- `ofLe_toLe`, `toLe_ofLe`, `unsigned_signed`, `signed_unsigned`: the round trips.
-/

namespace LittleEndian

/-- The `w` low bytes of `n`, least significant first. -/
def toLe : Nat → Nat → List UInt8
  | 0, _ => []
  | w + 1, n => UInt8.ofNat (n % 256) :: toLe w (n / 256)

/-- The number a byte list stands for. -/
def ofLe : List UInt8 → Nat
  | [] => 0
  | b :: bs => b.toNat + 256 * ofLe bs

@[simp] theorem length_toLe (w n : Nat) : (toLe w n).length = w := by
  induction w generalizing n with
  | zero => rfl
  | succ w ih => simp [toLe, ih]

/-- The first bytes are the low ones. -/
theorem take_toLe {k w : Nat} (h : k ≤ w) (n : Nat) : (toLe w n).take k = toLe k n := by
  induction w generalizing k n with
  | zero =>
    obtain rfl := Nat.le_zero.mp h
    rfl
  | succ w ih =>
    cases k with
    | zero => rfl
    | succ k => rw [toLe, List.take_succ_cons, ih (Nat.le_of_succ_le_succ h), toLe]

theorem ofLe_lt (bs : List UInt8) : ofLe bs < 256 ^ bs.length := by
  induction bs with
  | nil => simp [ofLe]
  | cons b bs ih =>
    have hb : b.toNat < 256 := b.toNat_lt
    simp only [ofLe, List.length_cons, pow_succ]
    omega

/-- Encoding keeps the low bytes. -/
theorem ofLe_toLe_mod (w n : Nat) : ofLe (toLe w n) = n % 256 ^ w := by
  induction w generalizing n with
  | zero => simp [toLe, ofLe, Nat.mod_one]
  | succ w ih =>
    have h : n % 256 % 256 = n % 256 := Nat.mod_mod _ _
    simp only [toLe, ofLe, ih, UInt8.toNat_ofNat']
    rw [show (2 : Nat) ^ 8 = 256 from rfl, h, pow_succ', Nat.mod_mul]

variable {n : Nat}

theorem ofLe_toLe {w : Nat} (h : n < 256 ^ w) : ofLe (toLe w n) = n := by
  rw [ofLe_toLe_mod, Nat.mod_eq_of_lt h]

theorem toLe_ofLe (bs : List UInt8) : toLe bs.length (ofLe bs) = bs := by
  induction bs with
  | nil => rfl
  | cons b bs ih =>
    have hb : b.toNat < 256 := b.toNat_lt
    have hmod : (b.toNat + 256 * ofLe bs) % 256 = b.toNat := by omega
    have hdiv : (b.toNat + 256 * ofLe bs) / 256 = ofLe bs := by omega
    simp only [List.length_cons, toLe, ofLe, hmod, hdiv, ih, UInt8.ofNat_toNat]

theorem toLe_injective {w m : Nat} (hm : m < 256 ^ w) (hn : n < 256 ^ w)
    (h : toLe w m = toLe w n) : m = n := by
  rw [← ofLe_toLe hm, ← ofLe_toLe hn, h]

/-! ## Two's complement -/

/-- The signed reading of a `w`-byte number. -/
def signed (w n : Nat) : Int :=
  if n < 256 ^ w / 2 then n else (n : Int) - 256 ^ w

/-- The `w`-byte pattern of a signed number. -/
def unsigned (w : Nat) (z : Int) : Nat := (z % 256 ^ w).toNat

theorem unsigned_lt (w : Nat) (z : Int) : unsigned w z < 256 ^ w := by
  have hpos : (0 : Int) < 256 ^ w := by positivity
  have h1 := Int.emod_nonneg z hpos.ne'
  have h2 := Int.emod_lt_of_pos z hpos
  unfold unsigned
  rw [Int.toNat_lt h1]
  exact_mod_cast h2

theorem signed_unsigned {w : Nat} {z : Int} (hw : 0 < w) (hlo : -(256 ^ w / 2 : Nat) ≤ z)
    (hhi : z < (256 ^ w / 2 : Nat)) : signed w (unsigned w z) = z := by
  obtain ⟨v, rfl⟩ : ∃ v, w = v + 1 := ⟨w - 1, by omega⟩
  have heven : (256 : Nat) ^ (v + 1) = 2 * (256 ^ (v + 1) / 2) := by
    rw [pow_succ]
    omega
  generalize hM : (256 : Nat) ^ (v + 1) = M at *
  have hcast : (256 : Int) ^ (v + 1) = (M : Int) := by
    rw [← hM]
    norm_cast
  unfold signed unsigned
  rw [hcast, hM]
  rcases lt_or_ge z 0 with hneg | hpos
  · have : z % (M : Int) = z + M := by
      rw [← Int.add_emod_right]
      exact Int.emod_eq_of_lt (by omega) (by omega)
    rw [this]
    split <;> omega
  · have : z % (M : Int) = z := Int.emod_eq_of_lt hpos (by omega)
    rw [this]
    split <;> omega

theorem unsigned_signed {w : Nat} (h : n < 256 ^ w) : unsigned w (signed w n) = n := by
  have hcast : (256 : Int) ^ w = ((256 ^ w : Nat) : Int) := by norm_cast
  unfold signed unsigned
  rw [hcast]
  generalize (256 : Nat) ^ w = M at *
  split
  · rw [Int.emod_eq_of_lt (by omega) (by omega)]
    omega
  · rw [← Int.add_emod_right, Int.emod_eq_of_lt (by omega) (by omega)]
    omega

end LittleEndian
