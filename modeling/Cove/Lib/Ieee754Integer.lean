import Mathlib.Algebra.Order.Ring.Int
import Mathlib.Algebra.Ring.Parity
import Mathlib.Data.Nat.Prime.Basic
import Mathlib.Tactic.IntervalCases
import Mathlib.Tactic.NormNum
import Cove.Lib.Ieee754

/-!
# Integers and binary floating point

Casting an integer to a float rounds it to the format's significant bits, and rounding
is idempotent. A bit pattern is itself an integer; read as a float it is that integer
only at zero.

- `roundSig_roundSig`: rounding twice is rounding once.
- `roundSig_eq_self`: a number whose rounding no other one shares is its own rounding.
- `natAsF64_toU64`: an integral datum in range casts to an integer and back.
- `F32.widen`: a binary32 datum among the binary64 values.
- `F64.toNat_eq_zero_of_value`, `F32.eq_zero_of_widen`: **no datum but zero is the
  number its own bits spell**.
-/

namespace Ieee754

/-! ## Rounding -/

theorem lt_pow_of_log2 (p n : Nat) : n < 2 ^ (p + (Nat.log2 n + 1 - p)) :=
  lt_of_lt_of_le Nat.lt_log2_self (Nat.pow_le_pow_right (by omega) (by omega))

/-- A rounding is at most `2 ^ p` units of its last place. -/
theorem roundSig_eq_mul (p n : Nat) :
    ∃ m, m ≤ 2 ^ p ∧ roundSig p n = m * 2 ^ (Nat.log2 n + 1 - p) := by
  have hq : n / 2 ^ (Nat.log2 n + 1 - p) < 2 ^ p := by
    rw [Nat.div_lt_iff_lt_mul (by positivity), ← Nat.pow_add]
    exact lt_pow_of_log2 p n
  unfold roundSig
  dsimp only
  split
  · exact ⟨_, hq.le, rfl⟩
  · split
    · exact ⟨_, hq, rfl⟩
    · exact ⟨_, by omega, rfl⟩

variable {p m : Nat}

/-- A multiple of its own last place is its own rounding. -/
theorem roundSig_of_dvd {n : Nat} (h : 2 ^ (Nat.log2 n + 1 - p) ∣ n) : roundSig p n = n := by
  have hr : n % 2 ^ (Nat.log2 n + 1 - p) = 0 := Nat.mod_eq_zero_of_dvd h
  unfold roundSig
  simp only [hr, Nat.mul_zero, Nat.two_pow_pos, if_true]
  exact Nat.div_mul_cancel h

/-- At most `2 ^ p` units of any power of two are their own rounding. -/
theorem roundSig_mul_pow (hp : 0 < p) (hm : m ≤ 2 ^ p) (k : Nat) :
    roundSig p (m * 2 ^ k) = m * 2 ^ k := by
  refine roundSig_of_dvd ?_
  rcases Nat.eq_zero_or_pos m with rfl | hpos
  · simp
  rcases hm.lt_or_eq with hlt | rfl
  · refine dvd_trans (Nat.pow_dvd_pow 2 ?_) (Nat.dvd_mul_left _ _)
    have hbound : m * 2 ^ k < 2 ^ (p + k) := by
      rw [Nat.pow_add]
      exact Nat.mul_lt_mul_of_pos_right hlt (by positivity)
    have := (Nat.log2_lt (by positivity)).mpr hbound
    omega
  · rw [← Nat.pow_add, Nat.log2_two_pow]
    exact Nat.pow_dvd_pow 2 (by omega)

/-- **Rounding twice is rounding once.** -/
theorem roundSig_roundSig (hp : 0 < p) (n : Nat) :
    roundSig p (roundSig p n) = roundSig p n := by
  obtain ⟨m, hm, heq⟩ := roundSig_eq_mul p n
  rw [heq]
  exact roundSig_mul_pow hp hm _

theorem roundSig_pos {n : Nat} (hp : 0 < p) (hn : 0 < n) : 0 < roundSig p n := by
  have hk : 2 ^ (Nat.log2 n + 1 - p) ≤ n :=
    le_trans (Nat.pow_le_pow_right (by omega) (by omega)) (Nat.log2_self_le (by omega))
  have hq : 0 < n / 2 ^ (Nat.log2 n + 1 - p) := Nat.div_pos hk (by positivity)
  unfold roundSig
  dsimp only
  split
  · positivity
  · split <;> positivity

theorem roundSig_zero (p : Nat) : roundSig p 0 = 0 := by
  simp [roundSig]

variable {n : Nat}

theorem roundSig_le (hn : n < 2 ^ 64) : roundSig 53 n ≤ 2 ^ 64 := by
  obtain ⟨m, hm, heq⟩ := roundSig_eq_mul 53 n
  have hlog : Nat.log2 n + 1 - 53 ≤ 11 := by
    rcases Nat.eq_zero_or_pos n with rfl | hpos
    · decide
    · have := (Nat.log2_lt (by omega)).mpr hn
      omega
  rw [heq]
  calc m * 2 ^ (Nat.log2 n + 1 - 53) ≤ 2 ^ 53 * 2 ^ 11 :=
        Nat.mul_le_mul hm (Nat.pow_le_pow_right (by decide) hlog)
    _ = 2 ^ 64 := by decide

/-- A 64-bit number whose rounding no other one shares is its own rounding. -/
theorem roundSig_eq_self (hn : n < 2 ^ 64)
    (h : ∀ l < 2 ^ 64, roundSig 53 l = roundSig 53 n → l = n) : roundSig 53 n = n := by
  rcases (roundSig_le hn).lt_or_eq with hlt | htop
  · exact h _ hlt (roundSig_roundSig (by decide) n)
  · have h1 := h (2 ^ 64 - 1) (by decide) (by rw [htop]; decide)
    have h2 := h (2 ^ 64 - 2) (by decide) (by rw [htop]; decide)
    omega

theorem natAsF64_inj : natAsF64 m = natAsF64 n ↔ roundSig 53 m = roundSig 53 n := by
  unfold natAsF64
  constructor
  · intro h
    exact Int.ofNat_inj.mp (Int.eq_of_mul_eq_mul_right binary64.one_pos.ne' h)
  · intro h
    rw [h]

@[simp]
theorem natAsF64_zero : natAsF64 0 = 0 := by simp [natAsF64, roundSig_zero]

@[simp]
theorem intAsF64_zero : intAsF64 0 = 0 := by simp [intAsF64]

theorem natAsF64_pos (hn : 0 < n) : 0 < natAsF64 n :=
  Int.mul_pos (Int.natCast_pos.mpr (roundSig_pos (by decide) hn)) binary64.one_pos

theorem intAsF64_natCast (n : Nat) : intAsF64 n = natAsF64 n := by
  rw [intAsF64, if_neg (by omega), Int.natAbs_natCast]

/-- A cast keeps the side of zero. -/
theorem compare_zero_intAsF64 (z : Int) : compare 0 (intAsF64 z) = compare 0 z := by
  rcases lt_trichotomy z 0 with h | rfl | h
  · have hpos := natAsF64_pos (Int.natAbs_pos.mpr h.ne)
    rw [intAsF64, if_pos h, Int.compare_eq_gt.mpr h, Int.compare_eq_gt.mpr (by omega)]
  · simp [intAsF64]
  · have hpos := natAsF64_pos (Int.natAbs_pos.mpr h.ne')
    rw [intAsF64, if_neg (by omega), Int.compare_eq_lt.mpr h, Int.compare_eq_lt.mpr hpos]

/-- `partial_cmp` of two floats by their values. -/
def partialCmpValues : Option Int → Option Int → Option Ordering
  | some a, some b => some (compare a b)
  | _, _ => none

/-! ## Integral data -/

theorem binary64_one : binary64.one = ((2 ^ 1074 : Nat) : Int) := by
  rw [Nat.cast_pow]
  rfl

/-- A positive value is the magnitude of a datum without sign. -/
theorem Format.magnitude_of_value {f : Format} (hm : 0 < m)
    (h : f.value n = some (m : Int)) : f.sign n = false ∧ f.magnitude n = m := by
  unfold Format.value at h
  split at h
  · cases h
  · simp only [Option.some.injEq] at h
    split at h
    · omega
    · next hs => exact ⟨by simpa using hs, by omega⟩

/-- `self as u64`: truncated and saturated, zero for a NaN. -/
def F64.toU64 (x : F64) : Nat :=
  match x.value with
  | none => 0
  | some v => min (v / binary64.one).toNat (2 ^ 64 - 1)

/-- A magnitude is at most 53 significant bits of some power of two. -/
theorem magnitude_eq_mul (n : Nat) : ∃ m k, m < 2 ^ 53 ∧ binary64.magnitude n = m * 2 ^ k := by
  have hF : binary64.frac n < 2 ^ 52 := Nat.mod_lt _ (by positivity)
  unfold Format.magnitude
  split
  · exact ⟨_, 0, by omega, (Nat.mul_one _).symm⟩
  · exact ⟨2 ^ 52 + binary64.frac n, _, by omega, rfl⟩

/-- An integral datum is its own rounding. -/
theorem roundSig_of_magnitude {j : Nat} (h : binary64.magnitude n = j * 2 ^ 1074) :
    roundSig 53 j = j := by
  obtain ⟨m, k, hm, hmag⟩ := magnitude_eq_mul n
  rw [hmag] at h
  generalize 1074 = q at h
  rcases Nat.lt_or_ge k q with hlt | hge
  · obtain ⟨d, rfl⟩ := Nat.exists_eq_add_of_lt hlt
    have hsplit : 2 ^ (k + d + 1) = 2 ^ (d + 1) * 2 ^ k := by
      rw [← Nat.pow_add]
      congr 1
      omega
    rw [hsplit, ← Nat.mul_assoc] at h
    have h := Nat.eq_of_mul_eq_mul_right (by positivity) h
    refine roundSig_of_lt (by decide) ?_
    have := Nat.le_mul_of_pos_right j (show 0 < 2 ^ (d + 1) by positivity)
    omega
  · obtain ⟨d, rfl⟩ := Nat.exists_eq_add_of_le hge
    rw [Nat.add_comm q d, Nat.pow_add, ← Nat.mul_assoc] at h
    rw [← Nat.eq_of_mul_eq_mul_right (by positivity) h]
    exact roundSig_mul_pow (by decide) hm.le d

/-- **Casting an integral datum in range to an integer and back gives its value.** -/
theorem natAsF64_toU64 {x : F64} {v : Int} (hv : x.value = some v)
    (hint : v % binary64.one = 0) (hpos : 0 ≤ v) (hmax : v ≤ natAsF64 (2 ^ 64 - 1)) :
    natAsF64 x.toU64 = v := by
  have htop : natAsF64 (2 ^ 64 - 1) = (2 ^ 64 : Nat) * binary64.one := by
    rw [natAsF64, show roundSig 53 (2 ^ 64 - 1) = 2 ^ 64 by decide]
  obtain ⟨j, rfl⟩ : ∃ j : Nat, v = j * binary64.one := by
    have hj : 0 ≤ v / binary64.one := Int.ediv_nonneg hpos binary64.one_pos.le
    refine ⟨(v / binary64.one).toNat, ?_⟩
    rw [Int.toNat_of_nonneg hj, Int.ediv_mul_cancel (Int.dvd_of_emod_eq_zero hint)]
  have hcast : x.toU64 = min j (2 ^ 64 - 1) := by
    rw [F64.toU64, hv]
    dsimp only
    rw [Int.mul_ediv_cancel _ binary64.one_pos.ne', Int.toNat_natCast]
  have hle : j ≤ 2 ^ 64 := by
    rw [htop] at hmax
    exact Int.ofNat_le.mp (Int.le_of_mul_le_mul_right hmax binary64.one_pos)
  rcases Nat.eq_zero_or_pos j with rfl | hjpos
  · rw [hcast, Nat.zero_min, natAsF64_zero, Int.natCast_zero, Int.zero_mul]
  have hround : roundSig 53 j = j := by
    rw [binary64_one, ← Nat.cast_mul] at hv
    exact roundSig_of_magnitude
      (Format.magnitude_of_value (Nat.mul_pos hjpos (by positivity)) hv).2
  rw [hcast]
  rcases hle.lt_or_eq with hlt | rfl
  · rw [Nat.min_eq_left (by omega), natAsF64, hround]
  · rw [Nat.min_eq_right (by omega), htop]

/-! ## Bit patterns as integers -/

theorem add_lt_two_pow (d : Nat) : d + 11 + 1075 < 2 ^ (d + 11) := by
  induction d with
  | zero => norm_num
  | succ d ih =>
    rw [show d + 1 + 11 = d + 11 + 1 by omega, Nat.pow_succ]
    omega

variable {F : Nat}

/-- No normal magnitude is the number its own bits spell. -/
theorem normal_ne_bits {E : Nat} (hE : 0 < E) (hF : F < 2 ^ 52) :
    (2 ^ 52 + F) * 2 ^ (E - 1) ≠ (E * 2 ^ 52 + F) * 2 ^ 1074 := by
  intro h
  rcases Nat.lt_or_ge E 1075 with hlt | hge
  · have hsplit : 2 ^ 1074 = 2 ^ (1074 - E) * 2 * 2 ^ (E - 1) := by
      rw [← Nat.pow_succ, ← Nat.pow_add]
      congr 1
      omega
    rw [hsplit, ← Nat.mul_assoc] at h
    have h := Nat.eq_of_mul_eq_mul_right (Nat.two_pow_pos _) h
    have h1 : 0 < 2 ^ (1074 - E) := Nat.two_pow_pos _
    have h2 : 2 ^ 52 + F ≤ E * 2 ^ 52 + F := by omega
    have h3 := Nat.mul_le_mul h2 (show 2 ≤ 2 ^ (1074 - E) * 2 by omega)
    omega
  · obtain ⟨d, rfl⟩ := Nat.exists_eq_add_of_le hge
    have hsplit : 2 ^ (1075 + d - 1) = 2 ^ d * 2 ^ 1074 := by
      rw [← Nat.pow_add]
      congr 1
      omega
    rw [hsplit, ← Nat.mul_assoc] at h
    have h := Nat.eq_of_mul_eq_mul_right (by positivity) h
    rcases Nat.lt_or_ge d 11 with hd | hd
    · interval_cases d <;> omega
    · obtain ⟨e, rfl⟩ := Nat.exists_eq_add_of_le' hd
      have h1 := Nat.mul_le_mul_left (2 ^ 52 + F) (Nat.succ_le_of_lt (add_lt_two_pow e))
      rw [h, Nat.succ_eq_add_one, Nat.add_mul] at h1
      have h2 : F ≤ F * (e + 11 + 1075 + 1) := Nat.le_mul_of_pos_right _ (by omega)
      omega


theorem Format.eq_expo_frac {f : Format} (h : f.sign n = false)
    (hn : n < 2 ^ (f.ew + f.mw + 1)) : n = f.expo n * 2 ^ f.mw + f.frac n := by
  have hs : n / 2 ^ (f.ew + f.mw) = 0 := by
    have h1 : n / 2 ^ (f.ew + f.mw) < 2 := by
      rw [Nat.div_lt_iff_lt_mul (by positivity)]
      rwa [Nat.pow_succ, Nat.mul_comm] at hn
    simp only [Format.sign, beq_eq_false_iff_ne] at h
    generalize n / 2 ^ (f.ew + f.mw) = s at *
    omega
  have hexpo : f.expo n = n / 2 ^ f.mw := by
    refine Nat.mod_eq_of_lt ?_
    rw [Nat.div_lt_iff_lt_mul (by positivity), ← Nat.pow_add]
    exact (Nat.div_eq_zero_iff_lt (by positivity)).mp hs
  rw [hexpo, Format.frac, Nat.mul_comm]
  exact (Nat.div_add_mod n _).symm

@[simp]
theorem F64.value_zero : (F64.mk 0#64).value = some 0 := by decide

theorem ne_mul_two_pow {k : Nat} (hn : 0 < n) (hk : k ≠ 0) : n ≠ n * 2 ^ k :=
  (lt_mul_of_one_lt_right hn (Nat.one_lt_two_pow hk)).ne

/-- **A binary64 datum that is the number its own bits spell is zero.** -/
theorem F64.toNat_eq_zero_of_value {x : F64}
    (h : x.value = some (x.bits.toNat * binary64.one)) : x.bits.toNat = 0 := by
  by_contra hne
  rw [binary64_one, ← Nat.cast_mul] at h
  obtain ⟨hs, hmag⟩ := Format.magnitude_of_value (by positivity) h
  have hbits := Format.eq_expo_frac hs x.bits.isLt
  have hF : binary64.frac x.bits.toNat < 2 ^ 52 := Nat.mod_lt _ (by positivity)
  unfold Format.magnitude at hmag
  change x.bits.toNat = binary64.expo x.bits.toNat * 2 ^ 52 + _ at hbits
  split at hmag
  · next hE =>
    rw [hE, Nat.zero_mul, Nat.zero_add] at hbits
    rw [← hbits] at hmag
    exact ne_mul_two_pow (Nat.pos_of_ne_zero hne) (by decide) hmag
  · next hE =>
    refine normal_ne_bits (Nat.pos_of_ne_zero hE) hF ?_
    rw [← hbits]
    exact hmag

/-- The magnitude of an infinity. -/
def Format.infinity (f : Format) : Nat := 2 ^ f.mw * 2 ^ (2 ^ f.ew - 2)

namespace F32

/-- The value of `self as f64`, in quanta of binary64. -/
def widen (x : F32) : Option Int :=
  if binary32.isSpecial x.bits.toNat then
    if binary32.isNaN x.bits.toNat then none
    else if binary32.sign x.bits.toNat then some (-(binary64.infinity : Int))
    else some binary64.infinity
  else x.value.map (· * 2 ^ 925)

@[simp]
theorem widen_zero : (F32.mk 0#32).widen = some 0 := by
  have hv : (F32.mk 0#32).value = some 0 := by decide
  rw [widen, if_neg (by decide), hv, Option.map_some, Int.zero_mul]

/-- A fraction that its shift reproduces modulo its width is zero. -/
theorem frac_eq_zero {e a b : Nat} (he : 0 < e) (hF : F < 2 ^ 23)
    (h : (2 ^ 23 + F) * 2 ^ e = 2 ^ 32 * a + b * 2 ^ 23 + F) : F = 0 := by
  have hcop : Nat.Coprime (2 ^ 23) (2 ^ e - 1) := by
    refine Nat.Coprime.pow_left 23 (Nat.coprime_two_left.mpr ?_)
    exact Nat.Even.sub_odd (Nat.one_le_two_pow) (Nat.even_pow.mpr ⟨even_two, he.ne'⟩) odd_one
  have hdvd : 2 ^ 23 ∣ (2 ^ e - 1) * F := by
    have h1 : 1 ≤ 2 ^ e := Nat.one_le_two_pow
    have h2 : (2 ^ e - 1) * F + F = F * 2 ^ e := by
      rw [← Nat.succ_mul, Nat.succ_eq_add_one, Nat.sub_add_cancel h1, Nat.mul_comm]
    rw [Nat.add_mul] at h
    omega
  exact Nat.eq_zero_of_dvd_of_lt (hcop.dvd_of_dvd_mul_left hdvd) hF

theorem normal_ne_bits {E : Nat} (hE : 0 < E) (hF : F < 2 ^ 23) (hn : n < 2 ^ 64)
    (hbits : n % 2 ^ 32 = E * 2 ^ 23 + F) : (2 ^ 23 + F) * 2 ^ (E - 1) ≠ n * 2 ^ 149 := by
  intro h
  rcases Nat.lt_or_ge E 150 with hlt | hge
  · have hsplit : 2 ^ 149 = 2 ^ (149 - E) * 2 * 2 ^ (E - 1) := by
      rw [← Nat.pow_succ, ← Nat.pow_add]
      congr 1
      omega
    rw [hsplit, ← Nat.mul_assoc] at h
    have h := Nat.eq_of_mul_eq_mul_right (Nat.two_pow_pos _) h
    have h1 : 0 < 2 ^ (149 - E) := Nat.two_pow_pos _
    have h2 : 2 ^ 23 + F ≤ n := by omega
    have h3 := Nat.mul_le_mul h2 (show 2 ≤ 2 ^ (149 - E) * 2 by omega)
    omega
  · obtain ⟨e, rfl⟩ := Nat.exists_eq_add_of_le hge
    have hsplit : 2 ^ (150 + e - 1) = 2 ^ e * 2 ^ 149 := by
      rw [← Nat.pow_add]
      congr 1
      omega
    rw [hsplit, ← Nat.mul_assoc] at h
    have h := Nat.eq_of_mul_eq_mul_right (by positivity) h
    have he : e < 41 := by
      refine (Nat.pow_lt_pow_iff_right (show 1 < 2 by decide)).mp ?_
      have h1 := Nat.mul_le_mul_right (2 ^ e) (show 2 ^ 23 ≤ 2 ^ 23 + F by omega)
      omega
    have hn' : (2 ^ 23 + F) * 2 ^ e = 2 ^ 32 * (n / 2 ^ 32) + (150 + e) * 2 ^ 23 + F := by
      omega
    rcases Nat.eq_zero_or_pos e with rfl | hpos
    · omega
    obtain rfl := frac_eq_zero hpos hF hn'
    clear h hsplit hge hE hF hbits hn
    interval_cases e <;> omega

theorem infinity_ne (n : Nat) (hn : n < 2 ^ 64) : binary64.infinity ≠ n * 2 ^ 1074 := by
  have hsplit : ∃ k, 64 ≤ k ∧ binary64.infinity = 2 ^ k * 2 ^ 1074 := by
    refine ⟨1024, by decide, ?_⟩
    rw [Format.infinity, ← Nat.pow_add, ← Nat.pow_add]
    congr 1
  obtain ⟨k, hk, hsplit⟩ := hsplit
  rw [hsplit]
  intro h
  have hle : 2 ^ 64 ≤ 2 ^ k := Nat.pow_le_pow_right (by decide) hk
  rw [Nat.eq_of_mul_eq_mul_right (by positivity) h] at hle
  omega

/-- **No 64-bit number is the binary32 datum its low half spells**, but zero. -/
theorem eq_zero_of_widen {x : F32} (hn : n < 2 ^ 64)
    (hbits : n % 2 ^ 32 = x.bits.toNat) (h : x.widen = some (n * binary64.one)) : n = 0 := by
  by_contra hne
  have hpos : 0 < n * 2 ^ 1074 := Nat.mul_pos (Nat.pos_of_ne_zero hne) (by positivity)
  rw [binary64_one, ← Nat.cast_mul] at h
  unfold widen at h
  split at h
  · split at h
    · cases h
    · split at h
      · have := Option.some.inj h
        have := Int.natCast_pos.mpr hpos
        omega
      · exact infinity_ne n hn (Int.ofNat_inj.mp (Option.some.inj h))
  · obtain ⟨v, hv, hmul⟩ := Option.map_eq_some_iff.mp h
    have hv' : v = ((n * 2 ^ 149 : Nat) : Int) := by
      have : v * 2 ^ 925 = ((n * 2 ^ 149 : Nat) : Int) * 2 ^ 925 := by
        rw [hmul, show (1074 : Nat) = 149 + 925 by rfl, Nat.pow_add, ← Nat.mul_assoc,
          Nat.cast_mul, Nat.cast_pow 2 925, Nat.cast_two]
      exact Int.eq_of_mul_eq_mul_right (by positivity) this
    rw [hv'] at hv
    obtain ⟨hs, hmag⟩ := Format.magnitude_of_value
      (Nat.mul_pos (Nat.pos_of_ne_zero hne) (by positivity)) hv
    have hspell := Format.eq_expo_frac hs x.bits.isLt
    change x.bits.toNat = binary32.expo x.bits.toNat * 2 ^ 23 + _ at hspell
    have hF : binary32.frac x.bits.toNat < 2 ^ 23 := Nat.mod_lt _ (by positivity)
    unfold Format.magnitude at hmag
    split at hmag
    · have h1 : 2 ^ 23 ≤ 2 ^ 149 := Nat.pow_le_pow_right (by decide) (by decide)
      have h2 := Nat.le_mul_of_pos_left (2 ^ 149) (Nat.pos_of_ne_zero hne)
      omega
    · next hE =>
      exact normal_ne_bits (Nat.pos_of_ne_zero hE) hF hn (hbits.trans hspell) hmag

end F32

end Ieee754
