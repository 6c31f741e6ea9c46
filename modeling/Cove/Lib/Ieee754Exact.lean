import Cove.Lib.Ieee754Integer
import Cove.Lib.Ieee754Round

/-!
# Exact conversions

Rounding a ratio that is a datum of the format gives back the bits of the datum, so a
value has one datum, but for the two zeros, and narrowing a wide datum whose value the
narrow format has gives the narrow datum of that value.

- `Format.ofRatio_magnitude`: **the rounding of a magnitude is its own bits**.
- `F64.eq_of_value`: a value other than zero has one datum.
- `F64.toF32_of_widen`: a cast to a narrower datum of the same value finds it.
-/

namespace Ieee754

theorem divRound_mul {q d : Nat} (hd : 0 < d) : divRound (q * d) d = q := by
  unfold divRound
  simp only [Nat.mul_mod_left, Nat.mul_zero, if_pos hd]
  exact Nat.mul_div_cancel q hd

variable {m : Nat} {v : Int} {x : F64}

theorem log2_mul_pow (hm : 0 < m) (a : Nat) : Nat.log2 (m * 2 ^ a) = Nat.log2 m + a := by
  refine (Nat.log2_eq_iff (by positivity)).mpr ⟨?_, ?_⟩
  · rw [Nat.pow_add]
    exact Nat.mul_le_mul_right _ (Nat.log2_self_le hm.ne')
  · rw [show Nat.log2 m + a + 1 = Nat.log2 m + 1 + a by omega, Nat.pow_add]
    exact Nat.mul_lt_mul_of_pos_right Nat.lt_log2_self (by positivity)

/-- The exponent of a number of powers of two. -/
theorem log2Ratio_mul_pow (hm : 0 < m) (a b : Nat) :
    log2Ratio (m * 2 ^ a) (2 ^ b) = (Nat.log2 m + a : Int) - b := by
  unfold log2Ratio
  rw [log2_mul_pow hm, Nat.log2_two_pow]
  push_cast
  rw [if_pos]
  generalize he : (Nat.log2 m + a : Int) - b = e
  rw [← Nat.pow_add, Nat.mul_assoc, ← Nat.pow_add]
  have hexp : b + e.toNat = Nat.log2 m + (a + (-e).toNat) := by omega
  rw [hexp, Nat.pow_add]
  exact Nat.mul_le_mul_right _ (Nat.log2_self_le hm.ne')

variable {n : Nat}

namespace Format

variable {f : Format}

/-- How many binary places a quantum has. -/
def places (f : Format) : Nat := 2 ^ (f.ew - 1) - 2 + f.mw

theorem two_le_half (hew : 2 ≤ f.ew) : 2 ≤ 2 ^ (f.ew - 1) := by
  calc 2 = 2 ^ 1 := rfl
    _ ≤ 2 ^ (f.ew - 1) := Nat.pow_le_pow_right (by decide) (by omega)

theorem frac_lt (f : Format) (n : Nat) : f.frac n < 2 ^ f.mw := Nat.mod_lt _ (by positivity)

theorem expo_le (f : Format) (n : Nat) : f.expo n ≤ 2 ^ f.ew - 1 :=
  Nat.le_sub_one_of_lt (Nat.mod_lt _ (by positivity))

/-- Rounding what is exactly `q` units of the last place at exponent `e`. -/
theorem ofRatio_eq {num den q : Nat} {e : Int} (hnum : num ≠ 0)
    (he : max (log2Ratio num den) f.minExponent = e)
    (hexact : num * 2 ^ (-(e - f.mw)).toNat = q * (den * 2 ^ (e - f.mw).toNat))
    (hden : 0 < den) :
    f.ofRatio num den =
      min ((2 ^ f.ew - 1) * 2 ^ f.mw) ((e - f.minExponent).toNat * 2 ^ f.mw + q) := by
  unfold ofRatio
  rw [if_neg hnum]
  simp only [he]
  rw [hexact, divRound_mul (by positivity)]

/-- **The rounding of a magnitude is its own bits.** -/
theorem ofRatio_magnitude (hew : 2 ≤ f.ew) (hnan : f.isNaN n = false) (a : Nat) :
    f.ofRatio (f.magnitude n * 2 ^ a) (2 ^ (a + f.places)) = f.expo n * 2 ^ f.mw + f.frac n := by
  have hF := f.frac_lt n
  have hE := f.expo_le n
  have hhalf := two_le_half hew
  have hmin : f.minExponent = 2 - ((2 ^ (f.ew - 1) : Nat) : Int) := by
    unfold minExponent
    push_cast
    rfl
  have hspecial : f.expo n = 2 ^ f.ew - 1 → f.frac n = 0 := by
    intro h
    unfold isNaN isSpecial at hnan
    simpa [h] using hnan
  unfold places
  unfold magnitude
  generalize 2 ^ (f.ew - 1) = B at *
  generalize f.frac n = F at *
  generalize f.expo n = E at *
  by_cases hE0 : E = 0
  · -- a subnormal datum, or zero
    subst hE0
    rw [if_pos rfl, Nat.zero_mul, Nat.zero_add]
    rcases Nat.eq_zero_or_pos F with rfl | hpos
    · simp [ofRatio]
    have hlog : Nat.log2 F < f.mw := (Nat.log2_lt hpos.ne').mpr hF
    rw [ofRatio_eq (e := f.minExponent) (q := F) (by positivity) ?_ ?_ (by positivity)]
    · have htop : 1 ≤ 2 ^ f.ew - 1 := by
        have := Nat.pow_le_pow_right (show 0 < 2 by decide) hew
        omega
      have := Nat.le_mul_of_pos_left (2 ^ f.mw) htop
      rw [Int.sub_self, Int.toNat_zero, Nat.zero_mul, Nat.zero_add]
      exact Nat.min_eq_right (by omega)
    · rw [log2Ratio_mul_pow hpos, hmin]
      refine max_eq_right ?_
      push_cast
      omega
    · have h1 : (-(f.minExponent - f.mw)).toNat = B - 2 + f.mw := by omega
      have h2 : (f.minExponent - f.mw).toNat = 0 := by omega
      rw [h1, h2, Nat.pow_zero, Nat.mul_one, Nat.mul_assoc, ← Nat.pow_add]
  · rw [if_neg hE0]
    have hm : 0 < 2 ^ f.mw + F := by positivity
    have hlog : Nat.log2 (2 ^ f.mw + F) = f.mw := by
      refine (Nat.log2_eq_iff hm.ne').mpr ⟨Nat.le_add_right _ _, ?_⟩
      rw [Nat.pow_succ]
      omega
    rw [Nat.mul_assoc, ← Nat.pow_add,
      ofRatio_eq (e := (E : Int) + 1 - B) (q := 2 ^ f.mw + F) (by positivity) ?_ ?_
        (by positivity)]
    · have hexp : ((E : Int) + 1 - B - f.minExponent).toNat = E - 1 := by omega
      have hbits : (E - 1) * 2 ^ f.mw + (2 ^ f.mw + F) = E * 2 ^ f.mw + F := by
        obtain ⟨k, rfl⟩ := Nat.exists_eq_succ_of_ne_zero hE0
        rw [Nat.succ_sub_one, Nat.succ_mul]
        omega
      rw [hexp, hbits]
      refine Nat.min_eq_right ?_
      rcases hE.lt_or_eq with hlt | heq
      · have := Nat.mul_le_mul_right (2 ^ f.mw) (Nat.succ_le_of_lt hlt)
        rw [Nat.succ_mul] at this
        omega
      · rw [hspecial heq, heq, Nat.add_zero]
    · rw [log2Ratio_mul_pow hm, hlog, hmin]
      push_cast
      have : (f.mw : Int) + ((E - 1 : Nat) + a) - (a + ((B - 2 : Nat) + f.mw)) =
          (E : Int) + 1 - B := by omega
      rw [this]
      exact max_eq_left (by omega)
    · generalize hs : (E : Int) + 1 - B - f.mw = s
      have hexp : E - 1 + a + (-s).toNat = a + (B - 2 + f.mw) + s.toNat := by omega
      rw [Nat.mul_assoc, ← Nat.pow_add, ← Nat.pow_add, hexp]

/-- A datum from its fields. -/
theorem eq_fields (hn : n < 2 ^ (f.ew + f.mw + 1)) :
    n = (if f.sign n then 2 ^ (f.ew + f.mw) else 0) + (f.expo n * 2 ^ f.mw + f.frac n) := by
  have hs : n / 2 ^ (f.ew + f.mw) < 2 := by
    rw [Nat.div_lt_iff_lt_mul (by positivity)]
    rwa [Nat.pow_succ, Nat.mul_comm] at hn
  have hlow := Nat.div_add_mod n (2 ^ f.mw)
  have hhigh := Nat.div_add_mod (n / 2 ^ f.mw) (2 ^ f.ew)
  rw [Nat.div_div_eq_div_mul, ← Nat.pow_add, Nat.add_comm f.mw] at hhigh
  unfold sign expo frac
  have hsplit : 2 ^ (f.ew + f.mw) = 2 ^ f.mw * 2 ^ f.ew := by rw [← Nat.pow_add, Nat.add_comm]
  rcases Nat.le_one_iff_eq_zero_or_eq_one.mp (Nat.le_of_lt_succ hs) with h | h
  · rw [h] at hhigh ⊢
    rw [Nat.mul_zero, Nat.zero_add] at hhigh
    rw [if_neg (by decide), hhigh, Nat.mul_comm (n / 2 ^ f.mw)]
    omega
  · rw [h] at hhigh ⊢
    rw [if_pos (by decide), hsplit]
    rw [Nat.mul_one] at hhigh
    have hmul : 2 ^ f.mw * (n / 2 ^ f.mw) =
        2 ^ f.mw * 2 ^ f.ew + n / 2 ^ f.mw % 2 ^ f.ew * 2 ^ f.mw := by
      rw [Nat.mul_comm (n / 2 ^ f.mw % 2 ^ f.ew), ← Nat.mul_add, hhigh]
    omega

/-- A value is the magnitude under its sign. -/
theorem value_eq_some (h : f.value n = some v) :
    f.isNaN n = false ∧ v.natAbs = f.magnitude n ∧ (v ≠ 0 → f.sign n = decide (v < 0)) := by
  unfold value at h
  split at h
  · cases h
  · next hnan =>
    obtain rfl := Option.some.inj h
    refine ⟨by simpa using hnan, ?_, fun hv => ?_⟩
    · split <;> simp
    · by_cases hs : f.sign n = true
      · rw [if_pos hs] at hv ⊢
        rw [hs]
        simp only [ne_eq, Int.neg_eq_zero] at hv
        exact (decide_eq_true (by omega)).symm
      · rw [if_neg hs]
        rw [Bool.not_eq_true] at hs
        rw [hs]
        exact (decide_eq_false (by omega)).symm

theorem magnitude_eq_zero_iff :
    f.magnitude n = 0 ↔ f.expo n = 0 ∧ f.frac n = 0 := by
  unfold magnitude
  by_cases h : f.expo n = 0
  · rw [if_pos h, and_iff_right h]
  · rw [if_neg h]
    refine iff_of_false ?_ fun hz => h hz.1
    positivity

/-- A value other than zero has one datum. -/
theorem eq_of_value (hew : 2 ≤ f.ew) {n' : Nat} (hn : n < 2 ^ (f.ew + f.mw + 1))
    (hn' : n' < 2 ^ (f.ew + f.mw + 1)) (hv : v ≠ 0) (h : f.value n = some v)
    (h' : f.value n' = some v) : n = n' := by
  obtain ⟨hnan, hmag, hsign⟩ := value_eq_some h
  obtain ⟨hnan', hmag', hsign'⟩ := value_eq_some h'
  have hbits := ofRatio_magnitude hew hnan 0
  rw [← hmag, hmag', ofRatio_magnitude hew hnan' 0] at hbits
  rw [eq_fields hn, eq_fields hn', hsign hv, hsign' hv, hbits]

end Format

/-- **A value other than zero has one binary64 datum.** -/
theorem F64.eq_of_value {y : F64} (hv : v ≠ 0) (hx : x.value = some v)
    (hy : y.value = some v) : x = y := by
  obtain ⟨⟨x⟩⟩ := x
  obtain ⟨⟨y⟩⟩ := y
  have := Format.eq_of_value (f := binary64) (by decide) x.isLt y.isLt hv hx hy
  simp only [F64.mk.injEq, BitVec.ofFin.injEq]
  exact Fin.ext this

theorem F64.value_eq_zero_iff :
    x.value = some 0 ↔ x = ⟨0#64⟩ ∨ x = ⟨0x8000000000000000#64⟩ := by
  constructor
  · intro h
    obtain ⟨-, hmag, -⟩ := Format.value_eq_some h
    have hzero : binary64.expo x.bits.toNat = 0 ∧ binary64.frac x.bits.toNat = 0 :=
      Format.magnitude_eq_zero_iff.mp hmag.symm
    have hbits := Format.eq_fields (f := binary64) x.bits.isLt
    rw [hzero.1, hzero.2] at hbits
    obtain ⟨x⟩ := x
    by_cases hs : binary64.sign x.toNat = true
    · rw [if_pos hs] at hbits
      exact .inr (congrArg F64.mk (BitVec.eq_of_toNat_eq hbits))
    · rw [if_neg hs] at hbits
      exact .inl (congrArg F64.mk (BitVec.eq_of_toNat_eq hbits))
  · rintro (rfl | rfl) <;> decide

/-! ## Narrowing -/

theorem natAbs_mul_two_pow (y : Int) (k : Nat) : (y * 2 ^ k).natAbs = y.natAbs * 2 ^ k := by
  rw [Int.natAbs_mul, Int.natAbs_pow]
  rfl

theorem binary64_infinity : binary64.infinity = 2 ^ 1024 * 2 ^ 1074 := by
  rw [Format.infinity, ← Nat.pow_add, ← Nat.pow_add]
  congr 1

theorem infinity_pos : 0 < binary64.infinity := by
  rw [binary64_infinity]
  positivity

/-- No magnitude is beyond the infinity. -/
theorem Format.magnitude_le_infinity {f : Format} (hew : 2 ≤ f.ew)
    (hnan : f.isNaN n = false) : f.magnitude n ≤ f.infinity := by
  have hfrac := f.frac_lt n
  have hexpo := f.expo_le n
  have hwide : 2 ^ 2 ≤ 2 ^ f.ew := Nat.pow_le_pow_right (by decide) hew
  unfold Format.magnitude Format.infinity
  by_cases hzero : f.expo n = 0
  · rw [if_pos hzero]
    exact hfrac.le.trans (Nat.le_mul_of_pos_right _ (Nat.two_pow_pos _))
  rw [if_neg hzero]
  by_cases hspecial : f.expo n = 2 ^ f.ew - 1
  · -- not a NaN, so the fraction is zero
    have hf : f.frac n = 0 := by
      by_contra hne
      unfold Format.isNaN Format.isSpecial at hnan
      simp [hspecial, hne] at hnan
    rw [hf, hspecial, Nat.add_zero, Nat.sub_sub]
  · calc (2 ^ f.mw + f.frac n) * 2 ^ (f.expo n - 1)
        ≤ 2 ^ f.mw * 2 * 2 ^ (f.expo n - 1) := Nat.mul_le_mul_right _ (by omega)
      _ = 2 ^ f.mw * 2 ^ f.expo n := by
        rw [Nat.mul_assoc, ← Nat.pow_succ']
        congr 2
        omega
      _ ≤ 2 ^ f.mw * 2 ^ (2 ^ f.ew - 2) :=
        Nat.mul_le_mul_left _ (Nat.pow_le_pow_right (by decide) (by omega))

namespace F64

/-- `f64::NEG_INFINITY`. -/
def negInfinity : F64 := ⟨0xFFF0000000000000#64⟩

/-- `f64::INFINITY`. -/
def posInfinity : F64 := ⟨0x7FF0000000000000#64⟩

theorem value_negInfinity : negInfinity.value = some (-(binary64.infinity : Int)) := by
  decide +kernel

theorem value_posInfinity : posInfinity.value = some (binary64.infinity : Int) := by
  decide +kernel

/-- **Every value is between the infinities.** -/
theorem value_bounds (h : x.value = some v) :
    -(binary64.infinity : Int) ≤ v ∧ v ≤ binary64.infinity := by
  obtain ⟨hnan, hmag, -⟩ := Format.value_eq_some h
  have hle := Format.magnitude_le_infinity (f := binary64) (by decide) hnan
  omega

theorem eq_negInfinity (h : x.value = some (-(binary64.infinity : Int))) :
    x = negInfinity :=
  F64.eq_of_value (by have := infinity_pos; omega) h value_negInfinity

theorem eq_posInfinity (h : x.value = some (binary64.infinity : Int)) :
    x = posInfinity :=
  F64.eq_of_value (by have := infinity_pos; omega) h value_posInfinity

end F64

theorem ofRatio_infinity :
    binary32.ofRatio binary64.infinity (2 ^ 1074) = 255 * 2 ^ 23 + 0 := by
  decide +kernel

/-- What a binary32 datum is, seen from binary64. -/
theorem F32.widen_eq_some {v : F32} {x : Int} (h : v.widen = some x) :
    binary32.isNaN v.bits.toNat = false ∧
      (x ≠ 0 → binary32.sign v.bits.toNat = decide (x < 0)) ∧
      (binary32.isSpecial v.bits.toNat = false ∧
          x.natAbs = binary32.magnitude v.bits.toNat * 2 ^ 925 ∨
        binary32.isSpecial v.bits.toNat = true ∧ x.natAbs = binary64.infinity) := by
  have hinf := infinity_pos
  unfold F32.widen at h
  by_cases hspecial : binary32.isSpecial v.bits.toNat = true
  · rw [if_pos hspecial] at h
    by_cases hnan : binary32.isNaN v.bits.toNat = true
    · rw [if_pos hnan] at h
      cases h
    · rw [if_neg hnan] at h
      refine ⟨by simpa using hnan, fun _ => ?_, .inr ⟨hspecial, ?_⟩⟩
      · by_cases hs : binary32.sign v.bits.toNat = true
        · rw [if_pos hs] at h
          rw [hs, ← Option.some.inj h]
          exact (decide_eq_true (by omega)).symm
        · rw [if_neg hs] at h
          rw [Bool.not_eq_true] at hs
          rw [hs, ← Option.some.inj h]
          exact (decide_eq_false (by omega)).symm
      · split at h
        · rw [← Option.some.inj h, Int.natAbs_neg, Int.natAbs_natCast]
        · rw [← Option.some.inj h, Int.natAbs_natCast]
  · rw [if_neg hspecial] at h
    obtain ⟨y, hy, rfl⟩ := Option.map_eq_some_iff.mp h
    obtain ⟨hnan, hmag, hsign⟩ := Format.value_eq_some hy
    refine ⟨hnan, fun hx => ?_, .inl ⟨by simpa using hspecial, ?_⟩⟩
    · have hy0 : y ≠ 0 := by
        rintro rfl
        exact hx (Int.zero_mul _)
      rw [hsign hy0]
      have hlt : y * 2 ^ 925 < 0 ↔ y < 0 := by
        constructor
        · intro h
          by_contra hge
          have := Int.mul_nonneg (not_lt.mp hge) (show (0 : Int) ≤ 2 ^ 925 by positivity)
          omega
        · exact fun h => Int.mul_neg_of_neg_of_pos h (by positivity)
      exact (decide_eq_decide.mpr hlt).symm
    · exact (natAbs_mul_two_pow y 925).trans (congrArg (· * 2 ^ 925) hmag)

/-- **Narrowing finds the datum of the same value**, when the narrow format has one and it
is not zero. -/
theorem F64.toF32_of_widen {l : F64} {v : F32} {x : Int} (hx : x ≠ 0) (hl : l.value = some x)
    (hv : v.widen = some x) : l.toF32 = v := by
  obtain ⟨hnanl, hmagl, hsignl⟩ := Format.value_eq_some hl
  obtain ⟨hnan, hsign, hmag⟩ := F32.widen_eq_some hv
  have hratio : binary32.ofRatio (binary64.magnitude l.bits.toNat) (2 ^ 1074) =
      binary32.expo v.bits.toNat * 2 ^ 23 + binary32.frac v.bits.toNat := by
    rw [← hmagl]
    rcases hmag with ⟨-, hmag⟩ | ⟨hspecial, hmag⟩
    · rw [hmag]
      have hexact := Format.ofRatio_magnitude (f := binary32) (by decide) hnan 925
      rwa [show 925 + binary32.places = 1074 from rfl] at hexact
    · -- an infinity is beyond the range of both formats
      have hexpo : binary32.expo v.bits.toNat = 255 := by
        unfold Format.isSpecial at hspecial
        exact beq_iff_eq.mp hspecial
      have hfrac : binary32.frac v.bits.toNat = 0 := by
        unfold Format.isNaN at hnan
        rw [hspecial] at hnan
        simpa using hnan
      rw [hmag, hexpo, hfrac]
      exact ofRatio_infinity
  have hbits : v.bits.toNat = (if binary32.sign v.bits.toNat then 2 ^ 31 else 0) +
      (binary32.expo v.bits.toNat * 2 ^ 23 + binary32.frac v.bits.toNat) :=
    Format.eq_fields (f := binary32) v.bits.isLt
  have hnanl' : l.isNaN = false := hnanl
  unfold F64.toF32
  rw [hnanl']
  simp only [Bool.false_eq_true, if_false]
  rw [hsignl hx, ← hsign hx, hratio]
  obtain ⟨v⟩ := v
  refine congrArg F32.mk (BitVec.eq_of_toNat_eq ?_)
  rw [BitVec.toNat_ofNat, ← hbits]
  exact Nat.mod_eq_of_lt v.isLt

theorem F32.widen_eq_zero_iff {v : F32} :
    v.widen = some 0 ↔ v = ⟨0#32⟩ ∨ v = ⟨0x80000000#32⟩ := by
  constructor
  · intro h
    obtain ⟨-, -, ⟨-, hmag⟩ | ⟨-, hinf⟩⟩ := F32.widen_eq_some h
    · have hmag0 : binary32.magnitude v.bits.toNat = 0 := by
        exact (Nat.mul_eq_zero.mp hmag.symm).resolve_right (pow_ne_zero _ two_ne_zero)
      obtain ⟨hexpo, hfrac⟩ := Format.magnitude_eq_zero_iff.mp hmag0
      have hbits := Format.eq_fields (f := binary32) v.bits.isLt
      rw [hexpo, hfrac] at hbits
      obtain ⟨v⟩ := v
      by_cases hs : binary32.sign v.toNat = true
      · rw [if_pos hs] at hbits
        exact .inr (congrArg F32.mk (BitVec.eq_of_toNat_eq hbits))
      · rw [if_neg hs] at hbits
        exact .inl (congrArg F32.mk (BitVec.eq_of_toNat_eq hbits))
    · rw [Int.natAbs_zero] at hinf
      exact absurd hinf infinity_pos.ne
  · rintro (rfl | rfl)
    · exact F32.widen_zero
    · have hv : (F32.mk 0x80000000#32).value = some 0 := by decide
      rw [F32.widen, if_neg (by decide), hv, Option.map_some, Int.zero_mul]

/-! ## Widening a finite datum -/

theorem divRound_le (num den : Nat) : divRound num den ≤ num / den + 1 := by
  unfold divRound
  dsimp only
  split
  · omega
  · split <;> omega

/-- A magnitude of binary32 is far below the infinity of binary64. -/
theorem ofRatio_binary32_lt {k : Nat} (hk : k ≤ 277) (hm : m < 2 ^ k) :
    binary64.ofRatio m (2 ^ 149) < 2047 * 2 ^ 52 := by
  rcases Nat.eq_zero_or_pos m with rfl | hpos
  · rw [Format.ofRatio, if_pos rfl]
    decide
  have hlog := log2Ratio_mul_pow hpos 0 149
  rw [Nat.pow_zero, Nat.mul_one, Nat.cast_zero, add_zero] at hlog
  have hL : Nat.log2 m < k := (Nat.log2_lt hpos.ne').mpr hm
  have hself : m < 2 ^ (Nat.log2 m + 1) := Nat.lt_log2_self
  have hmin : binary64.minExponent = -1022 := rfl
  unfold Format.ofRatio
  rw [if_neg hpos.ne']
  simp only [hlog, hmin]
  generalize Nat.log2 m = L at *
  have he : max ((L : Int) - (149 : Nat)) (-1022) = L - 149 := by omega
  rw [he, show (binary64.mw : Int) = 52 from rfl, show binary64.mw = 52 from rfl]
  -- what is rounded has at most 53 bits
  have hquotient : m * 2 ^ (-((L : Int) - 149 - 52)).toNat / (2 ^ 149 * 2 ^ ((L : Int) - 149 - 52).toNat)
      < 2 ^ 53 := by
    rw [Nat.div_lt_iff_lt_mul (by positivity)]
    calc m * 2 ^ (-((L : Int) - 149 - 52)).toNat
        < 2 ^ (L + 1) * 2 ^ (-((L : Int) - 149 - 52)).toNat :=
          Nat.mul_lt_mul_of_pos_right hself (by positivity)
      _ = 2 ^ 53 * (2 ^ 149 * 2 ^ ((L : Int) - 149 - 52).toNat) := by
          rw [← Nat.pow_add, ← Nat.pow_add, ← Nat.pow_add]
          congr 1
          omega
  have hround := divRound_le (m * 2 ^ (-((L : Int) - 149 - 52)).toNat)
    (2 ^ 149 * 2 ^ ((L : Int) - 149 - 52).toNat)
  have hexp : ((L : Int) - 149 - -1022).toNat ≤ 1149 := by omega
  generalize divRound _ _ = q at *
  generalize ((L : Int) - 149 - -1022).toNat = E at *
  have hq : q ≤ 2 ^ 53 := hround.trans hquotient
  refine lt_of_le_of_lt (min_le_right _ _) ?_
  calc E * 2 ^ 52 + q ≤ 1149 * 2 ^ 52 + 2 ^ 53 := Nat.add_le_add (Nat.mul_le_mul_right _ hexp) hq
    _ < 2047 * 2 ^ 52 := by norm_num

/-- A cast to the wider format is finite exactly when the datum is. -/
theorem F64.isFinite_ofF32 (x : F32) :
    (F64.ofF32 x).isFinite = !binary32.isSpecial x.bits.toNat := by
  have hbits : ∀ {negative : Bool} {n : Nat}, n < 2 ^ 63 →
      binary64.expo (F64.ofMagnitude negative n).bits.toNat = n / 2 ^ 52 := by
    intro negative n hn
    show BitVec.toNat (BitVec.ofNat 64 _) / 2 ^ 52 % 2 ^ 11 = _
    rw [BitVec.toNat_ofNat]
    cases negative <;> simp only [Bool.false_eq_true, if_false, if_true] <;> omega
  have hfrac : binary32.frac x.bits.toNat < 2 ^ 23 := binary32.frac_lt _
  unfold F64.isFinite Format.isSpecial F64.ofF32
  dsimp only
  by_cases hspecial : binary32.isSpecial x.bits.toNat = true
  · have hexpo : (binary32.expo x.bits.toNat == 2 ^ binary32.ew - 1) = true := hspecial
    rw [hexpo]
    by_cases hnan : binary32.isNaN x.bits.toNat = true
    · rw [if_pos hnan, hbits (by omega)]
      refine congrArg not (beq_iff_eq.mpr ?_)
      show _ = 2047
      omega
    · rw [if_neg hnan, if_pos hspecial, hbits (by omega)]
      rfl
  · have hnan : ¬ binary32.isNaN x.bits.toNat = true := by
      unfold Format.isNaN
      rw [Bool.and_eq_true]
      exact fun h => hspecial h.1
    have hexpo : binary32.expo x.bits.toNat ≤ 254 := by
      have hle : binary32.expo x.bits.toNat ≤ 255 := binary32.expo_le _
      have hne : binary32.expo x.bits.toNat ≠ 255 := fun h => hspecial (beq_iff_eq.mpr h)
      omega
    have hlt : binary64.ofRatio (binary32.magnitude x.bits.toNat) (2 ^ 149) < 2047 * 2 ^ 52 := by
      unfold Format.magnitude
      split
      · exact ofRatio_binary32_lt (k := 23) (by omega) hfrac
      · refine ofRatio_binary32_lt (k := 24 + (binary32.expo x.bits.toNat - 1)) (by omega) ?_
        rw [Nat.pow_add]
        refine Nat.mul_lt_mul_of_pos_right ?_ (by positivity)
        show 2 ^ 23 + _ < 2 ^ 24
        omega
    rw [if_neg hnan, if_neg hspecial, hbits (by omega)]
    have hother : (binary32.expo x.bits.toNat == 2 ^ binary32.ew - 1) = false := by
      rw [beq_eq_false_iff_ne]
      show binary32.expo _ ≠ 255
      omega
    rw [hother]
    refine congrArg not (beq_eq_false_iff_ne.mpr ?_)
    show _ ≠ 2047
    omega

end Ieee754
