import Cove.Core.AggregateSynopsis
import Cove.Lib.Sketches

/-!
# Distinct sketches

The registers of a HyperLogLog sketch. The first bits of a hash choose the register, the place of
the first one bit behind them is the rank that the register keeps the maximum of.

- `hllRegistersFromHashes`: the builder.
- `suffixRank`: the rank, by the bits of the hash; `hllRank_eq`: **the builder's rank is it, unless
  all bits behind the index are zero**.
- `hll_registers_iff`: when the registers are valid, and the maxima.
-/

namespace Cove

open Checked MaxRegisters

/-- `u64::leading_zeros`. -/
def leadingZeros (word : Nat) : Nat := if word = 0 then 64 else 63 - word.log2

/-- The register of a hash. -/
def hllIndex (precision : UInt8) (hash : UInt64) : Nat := hash.toNat >>> (64 - precision.toNat)

/-- The rank of a hash, with the cap of the builder. -/
def hllRank (precision : UInt8) (hash : UInt64) : Nat :=
  min (leadingZeros (hash.toNat <<< precision.toNat % 2 ^ 64) + 1) 64

/-- `validate_hll_precision`. -/
def validateHllPrecision (precision : UInt8) : Except CoveError Unit :=
  if 4 ≤ precision.toNat ∧ precision.toNat ≤ 18 then .ok () else .error .badIndex

/-- The loop of `hll_registers_from_hashes`. -/
def hllLoop (precision : UInt8) (registers : List Nat) (hash : UInt64) : Except Fault (List Nat) :=
  if hllIndex precision hash < registers.length then
    .ok (raise registers (hllIndex precision hash) (hllRank precision hash))
  else .error .panic

/-- `hll_registers_from_hashes`. -/
def hllRegistersFromHashes (precision : UInt8) (hashes : List UInt64) :
    Except Fault (List UInt8) := do
  Fault.lift (validateHllPrecision precision)
  let registers ← hashes.foldlM (hllLoop precision) (List.replicate (2 ^ precision.toNat) 0)
  .ok (registers.map .ofNat)

/-! ## Ranks -/

variable {hash : UInt64} {i bound : Nat}

section Rank

variable {precision : UInt8}

/-- The bits behind the index of a hash. -/
def hllSuffix (precision : UInt8) (hash : UInt64) : Nat := hash.toNat % 2 ^ (64 - precision.toNat)

/-- The place of the first one bit behind the index, counted from one. It is behind the last place
when there is none. -/
def suffixRank (precision : UInt8) (hash : UInt64) : Nat :=
  (List.range (64 - precision.toNat)).findIdx
    (fun j => hash.toNat.testBit (63 - precision.toNat - j)) + 1

theorem hllIndex_lt (hprecision : precision.toNat ≤ 64) (hash : UInt64) :
    hllIndex precision hash < 2 ^ precision.toNat := by
  have hlt : hash.toNat < 2 ^ (64 - precision.toNat) * 2 ^ precision.toNat := by
    rw [← Nat.pow_add, Nat.sub_add_cancel hprecision]
    exact hash.toNat_lt
  rw [hllIndex, Nat.shiftRight_eq_div_pow]
  exact Nat.div_lt_of_lt_mul hlt

/-- Shifting the index out leaves the suffix at the top of the word. -/
theorem shifted_eq (hprecision : precision.toNat ≤ 64) (hash : UInt64) :
    hash.toNat <<< precision.toNat % 2 ^ 64 =
      hllSuffix precision hash * 2 ^ precision.toNat := by
  have hword : (2 : Nat) ^ 64 = 2 ^ (64 - precision.toNat) * 2 ^ precision.toNat := by
    rw [← Nat.pow_add, Nat.sub_add_cancel hprecision]
  rw [Nat.shiftLeft_eq, hword, Nat.mul_mod_mul_right, hllSuffix]

theorem log2_mul_two_pow {n : Nat} (hn : n ≠ 0) (k : Nat) : (n * 2 ^ k).log2 = n.log2 + k := by
  have hpos : n * 2 ^ k ≠ 0 := Nat.mul_ne_zero hn (Nat.ne_of_gt (Nat.two_pow_pos k))
  obtain ⟨hlow, hhigh⟩ := (Nat.log2_eq_iff hn).mp rfl
  refine (Nat.log2_eq_iff hpos).mpr ⟨?_, ?_⟩
  · rw [Nat.pow_add]
    exact Nat.mul_le_mul_right _ hlow
  · rw [Nat.add_right_comm, Nat.pow_add]
    exact Nat.mul_lt_mul_of_pos_right hhigh (Nat.two_pow_pos k)

/-- The rank of a suffix with a one bit, by its highest one. -/
theorem suffixRank_eq (hprecision : precision.toNat ≤ 63) (hsuffix : hllSuffix precision hash ≠ 0) :
    suffixRank precision hash = 64 - precision.toNat - (hllSuffix precision hash).log2 := by
  have hlog : (hllSuffix precision hash).log2 < 64 - precision.toNat :=
    (Nat.log2_lt hsuffix).mpr (Nat.mod_lt _ (Nat.two_pow_pos _))
  have hbit : ∀ i < 64 - precision.toNat,
      hash.toNat.testBit i = (hllSuffix precision hash).testBit i := fun i hi => by
    rw [hllSuffix, Nat.testBit_mod_two_pow, decide_eq_true hi, Bool.true_and]
  have hplace : (List.range (64 - precision.toNat)).findIdx
      (fun j => hash.toNat.testBit (63 - precision.toNat - j)) =
        63 - precision.toNat - (hllSuffix precision hash).log2 := by
    refine (List.findIdx_eq (by rw [List.length_range]; omega)).mpr ⟨?_, fun j hj => ?_⟩
    · rw [List.getElem_range, hbit _ (by omega),
        show 63 - precision.toNat - (63 - precision.toNat - (hllSuffix precision hash).log2) =
          (hllSuffix precision hash).log2 by omega]
      exact Nat.testBit_log2 hsuffix
    · -- above the highest one there is none
      rw [List.getElem_range, hbit _ (by omega)]
      exact Nat.testBit_lt_two_pow ((Nat.log2_lt hsuffix).mp (by omega))
  rw [suffixRank, hplace]
  omega

/-- **The builder's rank** is the place of the first one bit, when there is one. -/
theorem hllRank_eq (hprecision : precision.toNat ≤ 63) (hsuffix : hllSuffix precision hash ≠ 0) :
    hllRank precision hash = suffixRank precision hash := by
  have hlog : (hllSuffix precision hash).log2 < 64 - precision.toNat :=
    (Nat.log2_lt hsuffix).mpr (Nat.mod_lt _ (Nat.two_pow_pos _))
  have hpos : hllSuffix precision hash * 2 ^ precision.toNat ≠ 0 :=
    Nat.mul_ne_zero hsuffix (Nat.ne_of_gt (Nat.two_pow_pos _))
  rw [suffixRank_eq hprecision hsuffix, hllRank, shifted_eq (by omega), leadingZeros, if_neg hpos,
    log2_mul_two_pow hsuffix]
  omega

theorem hllRank_of_zero (hprecision : precision.toNat ≤ 64)
    (hsuffix : hllSuffix precision hash = 0) : hllRank precision hash = 64 := by
  rw [hllRank, shifted_eq hprecision, hsuffix, Nat.zero_mul]
  rfl

theorem suffixRank_le (precision : UInt8) (hash : UInt64) :
    suffixRank precision hash ≤ 64 - precision.toNat + 1 := by
  refine Nat.succ_le_succ (Nat.le_trans List.findIdx_le_length ?_)
  rw [List.length_range]

end Rank

/-! ## Registers -/

section Registers

variable {precision : UInt8} {hashes : List UInt64}

/-- The registers after hashes, as numbers. -/
def hllRaised (precision : UInt8) (hashes : List UInt64) : List Nat :=
  raised (hllIndex precision) (hllRank precision) (List.replicate (2 ^ precision.toNat) 0) hashes

theorem length_hllRaised : (hllRaised precision hashes).length = 2 ^ precision.toNat := by
  rw [hllRaised, length_raised, List.length_replicate]

/-- **The builder never indexes out of the registers**: it gives them raised by every hash. -/
theorem hllRegistersFromHashes_eq (hlow : 4 ≤ precision.toNat) (hhigh : precision.toNat ≤ 18) :
    hllRegistersFromHashes precision hashes = .ok ((hllRaised precision hashes).map .ofNat) := by
  have hloop : ∀ registers : List Nat, registers.length = 2 ^ precision.toNat →
      hashes.foldlM (hllLoop precision) registers =
        .ok (raised (hllIndex precision) (hllRank precision) registers hashes) := by
    induction hashes with
    | nil => exact fun _ _ => rfl
    | cons hash hashes ih =>
      intro registers hlength
      have hindex : hllIndex precision hash < registers.length :=
        hlength ▸ hllIndex_lt (by omega) hash
      rw [List.foldlM_cons, hllLoop, if_pos hindex, ok_bind,
        ih _ (by rw [length_raise, hlength]), raised_cons]
  have hprecision : validateHllPrecision precision = .ok () := if_pos ⟨hlow, hhigh⟩
  unfold hllRegistersFromHashes
  rw [hprecision, hloop _ List.length_replicate]
  rfl

/-- What bounds a register is what bounds the ranks of its hashes. -/
theorem hllRaised_le_iff (hi : i < (hllRaised precision hashes).length) (bound : Nat) :
    (hllRaised precision hashes)[i] ≤ bound ↔
      ∀ hash ∈ hashes, hllIndex precision hash = i → hllRank precision hash ≤ bound := by
  have hlen : i < (List.replicate (2 ^ precision.toNat) 0).length := by
    rw [List.length_replicate]
    rwa [length_hllRaised] at hi
  refine (raised_le_iff hlen hi bound).trans ?_
  rw [List.getElem_replicate]
  exact and_iff_right (Nat.zero_le bound)

theorem hllRaised_le (hi : i < (hllRaised precision hashes).length) :
    (hllRaised precision hashes)[i] ≤ 64 :=
  (hllRaised_le_iff hi 64).mpr fun _ _ _ => Nat.min_le_right _ _

/-- The maximum of the ranks of the hashes that a register is for. -/
def maxRank (precision : UInt8) (hashes : List UInt64) (i : Nat) : Nat :=
  ((hashes.filter fun hash => hllIndex precision hash = i).map (suffixRank precision)).foldr max 0

theorem foldr_max_le_iff {ranks : List Nat} :
    ranks.foldr max 0 ≤ bound ↔ ∀ rank ∈ ranks, rank ≤ bound := by
  induction ranks with
  | nil => exact iff_of_true (Nat.zero_le _) nofun
  | cons rank ranks ih => rw [List.foldr_cons, Nat.max_le, ih, List.forall_mem_cons]

theorem maxRank_le_iff : maxRank precision hashes i ≤ bound ↔
    ∀ hash ∈ hashes, hllIndex precision hash = i → suffixRank precision hash ≤ bound := by
  rw [maxRank, foldr_max_le_iff, List.forall_mem_map]
  simp only [List.mem_filter, decide_eq_true_eq, and_imp]

/-- The registers are valid, hold the maximum ranks, and are those of any list of the same
hashes. -/
structure SketchesHashes (precision : UInt8) (hashes : List UInt64) (registers : List UInt8) :
    Prop where
  valid : validateHll precision registers = .ok ()
  maximum : ∀ i < 2 ^ precision.toNat, ∃ register, registers[i]? = some register ∧
    register.toNat = maxRank precision hashes i
  unordered : ∀ others, (∀ hash, hash ∈ hashes ↔ hash ∈ others) →
    hllRegistersFromHashes precision others = .ok registers

theorem validateHll_eq_ok_iff {registers : List UInt8} (hlow : 4 ≤ precision.toNat)
    (hhigh : precision.toNat ≤ 18) (hlength : registers.length = 2 ^ precision.toNat) :
    validateHll precision registers = .ok () ↔
      ∀ register ∈ registers, register.toNat ≤ 64 - precision.toNat + 1 := by
  unfold validateHll
  rw [if_neg (not_not.mpr ⟨hlow, hhigh⟩), if_neg (not_not.mpr hlength)]
  split
  · next hall =>
    exact iff_of_true rfl fun register hmem => of_decide_eq_true (List.all_eq_true.mp hall _ hmem)
  · next hall =>
    exact iff_of_false nofun fun h => hall (List.all_eq_true.mpr fun register hmem =>
      decide_eq_true (h register hmem))

/-- **The registers built are a valid sketch** of the hashes exactly when every hash has a one bit
behind its index. -/
theorem hll_registers_iff (precision : UInt8) (hashes : List UInt64) (hlow : 4 ≤ precision.toNat)
    (hhigh : precision.toNat ≤ 18) :
    (∃ registers, hllRegistersFromHashes precision hashes = .ok registers ∧
      SketchesHashes precision hashes registers) ↔
      ∀ hash ∈ hashes, hllSuffix precision hash ≠ 0 := by
  have hbyte : ∀ (i : Nat) (hi : i < (hllRaised precision hashes).length),
      (UInt8.ofNat (hllRaised precision hashes)[i]).toNat = (hllRaised precision hashes)[i] := by
    intro i hi
    have := hllRaised_le hi
    rw [UInt8.toNat_ofNat']
    omega
  have hlength : ((hllRaised precision hashes).map UInt8.ofNat).length = 2 ^ precision.toNat := by
    rw [List.length_map, length_hllRaised]
  rw [hllRegistersFromHashes_eq hlow hhigh]
  constructor
  · rintro ⟨registers, hregisters, hsketch⟩ hash hhash hzero
    obtain rfl := Except.ok.inj hregisters
    -- the register of a hash without a one bit is above the bound of the validator
    have hindex : hllIndex precision hash < (hllRaised precision hashes).length :=
      length_hllRaised ▸ hllIndex_lt (by omega) hash
    have hvalid := (validateHll_eq_ok_iff hlow hhigh hlength).mp hsketch.valid _
      (List.mem_map_of_mem (List.getElem_mem hindex))
    rw [hbyte _ hindex] at hvalid
    have hrank := (hllRaised_le_iff hindex _).mp hvalid hash hhash rfl
    rw [hllRank_of_zero (by omega) hzero] at hrank
    omega
  · intro hnonzero
    have hranks : ∀ hash ∈ hashes, hllRank precision hash = suffixRank precision hash :=
      fun hash hhash => hllRank_eq (by omega) (hnonzero hash hhash)
    refine ⟨_, rfl, ?_, ?_, ?_⟩
    · refine (validateHll_eq_ok_iff hlow hhigh hlength).mpr fun register hmem => ?_
      obtain ⟨i, hi, rfl⟩ := List.getElem_of_mem hmem
      rw [List.length_map] at hi
      rw [List.getElem_map, hbyte i hi, hllRaised_le_iff hi]
      intro hash hhash _
      rw [hranks hash hhash]
      exact suffixRank_le precision hash
    · intro i hi
      have hi' : i < (hllRaised precision hashes).length := by rwa [length_hllRaised]
      refine ⟨_, by rw [List.getElem?_map, List.getElem?_eq_getElem hi']; rfl, ?_⟩
      rw [hbyte i hi']
      refine eq_of_forall_ge_iff fun bound => ?_
      rw [hllRaised_le_iff hi', maxRank_le_iff]
      exact forall₂_congr fun hash hhash => by rw [hranks hash hhash]
    · intro others hothers
      have hsame : hllRaised precision hashes = hllRaised precision others :=
        raised_eq_of_mem_iff hothers
      rw [hllRegistersFromHashes_eq hlow hhigh, hsame]

/-- The hash 0 has no one bit: its register gets the rank 64, above the bound 61. -/
theorem hll_zero_hash : ∃ registers, hllRegistersFromHashes 4 [0] = .ok registers ∧
    validateHll 4 registers = .error .badIndex :=
  ⟨64 :: List.replicate 15 0, by decide +kernel, by decide +kernel⟩

theorem hll_registers_iff_one :
    (∃ registers, hllRegistersFromHashes 4 [1] = .ok registers ∧
      SketchesHashes 4 [1] registers) ↔ ∀ hash ∈ [1], hllSuffix 4 hash ≠ 0 :=
  hll_registers_iff 4 [1] (by decide) (by decide)

end Registers

end Cove
