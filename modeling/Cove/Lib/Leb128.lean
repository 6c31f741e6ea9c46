import Cove.Lib.ByteOrder

/-!
# LEB128

Unsigned numbers in groups of seven bits, least significant first, with the high bit set
on every group but the last.

- `leb128`: the encoding; `leb128_of_lt`, `leb128_of_ge`: its two cases.
- `leb128_append_inj`: the encoding is prefix-free.
-/

namespace Leb128

/-- The groups of `n`, given enough fuel. -/
def groups : Nat → Nat → List UInt8
  | 0, n => [UInt8.ofNat n]
  | fuel + 1, n =>
    if n < 128 then [UInt8.ofNat n] else UInt8.ofNat (128 + n % 128) :: groups fuel (n / 128)

/-- The encoding of `n`. -/
def leb128 (n : Nat) : List UInt8 := groups n n

theorem groups_congr {fuel fuel' n : Nat} (h : n ≤ fuel) (h' : n ≤ fuel') :
    groups fuel n = groups fuel' n := by
  induction fuel generalizing fuel' n with
  | zero =>
    obtain rfl := Nat.le_zero.mp h
    cases fuel' <;> rfl
  | succ fuel ih =>
    obtain _ | fuel' := fuel'
    · obtain rfl := Nat.le_zero.mp h'
      rfl
    · simp only [groups]
      split
      · rfl
      · next hge => rw [@ih fuel' (n / 128) (by omega) (by omega)]

theorem leb128_of_lt {n : Nat} (h : n < 128) : leb128 n = [UInt8.ofNat n] := by
  unfold leb128
  cases n with
  | zero => rfl
  | succ n => exact if_pos h

theorem leb128_of_ge {n : Nat} (h : 128 ≤ n) :
    leb128 n = UInt8.ofNat (128 + n % 128) :: leb128 (n / 128) := by
  obtain ⟨m, rfl⟩ : ∃ m, n = m + 1 := ⟨n - 1, by omega⟩
  have hstep : leb128 (m + 1) =
      UInt8.ofNat (128 + (m + 1) % 128) :: groups m ((m + 1) / 128) :=
    if_neg (Nat.not_lt.mpr h)
  rw [hstep, leb128, groups_congr (show (m + 1) / 128 ≤ m by omega) (Nat.le_refl _)]

theorem length_leb128_pos (n : Nat) : 0 < (leb128 n).length := by
  rcases Nat.lt_or_ge n 128 with h | h
  · rw [leb128_of_lt h, List.length_singleton]
    exact Nat.one_pos
  · rw [leb128_of_ge h, List.length_cons]
    exact Nat.succ_pos _

theorem ofNat_inj {m n : Nat} (hm : m < 256) (hn : n < 256)
    (h : UInt8.ofNat m = UInt8.ofNat n) : m = n := by
  have := congrArg UInt8.toNat h
  rwa [UInt8.toNat_ofNat', UInt8.toNat_ofNat', Nat.mod_eq_of_lt hm, Nat.mod_eq_of_lt hn] at this

/-- **The encoding is prefix-free.** The induction is on the first number. -/
theorem leb128_append_inj {m n : Nat} {as bs : List UInt8}
    (h : leb128 m ++ as = leb128 n ++ bs) : m = n ∧ as = bs := by
  induction m using Nat.strongRecOn generalizing n with
  | _ m ih =>
    rcases Nat.lt_or_ge m 128 with hm | hm <;> rcases Nat.lt_or_ge n 128 with hn | hn
    · rw [leb128_of_lt hm, leb128_of_lt hn] at h
      obtain ⟨hbyte, rfl⟩ := List.cons.inj h
      exact ⟨ofNat_inj (by omega) (by omega) hbyte, rfl⟩
    · rw [leb128_of_lt hm, leb128_of_ge hn] at h
      have := ofNat_inj (by omega) (by omega) (List.cons.inj h).1
      omega
    · rw [leb128_of_ge hm, leb128_of_lt hn] at h
      have := ofNat_inj (by omega) (by omega) (List.cons.inj h).1
      omega
    · rw [leb128_of_ge hm, leb128_of_ge hn] at h
      obtain ⟨hbyte, hrest⟩ := List.cons.inj h
      have hmod := ofNat_inj (by omega) (by omega) hbyte
      obtain ⟨hdiv, rfl⟩ := ih _ (by omega) hrest
      exact ⟨by omega, rfl⟩

end Leb128
