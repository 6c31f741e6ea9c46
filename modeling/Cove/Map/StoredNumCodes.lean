import Cove.Map.Segments
import Cove.ObjectTemporal.PropertyPages

/-!
# Numbers stored as codes

A property of kind NumCode is written from a JSON value, and its code is read back as JSON. The
format gives the code a meaning of its own, by the logical type.

- `exactNumber`, `InRange`: the number a JSON value is, and the values of a logical type.
- `RoundTrips`: the value is stored, its code means it, and it is read back.
- `roundTrips_iff`: **only non-negative integers below `exactCodes` round-trip**.
-/

namespace Cove

open PropertyPages (PropertyReader plainReader sampleProperty)

/-- The number a JSON value is, in quanta of binary64. -/
def exactNumber : Json → Option Int
  | .number (.posInt v) => some (v.toNat * Ieee754.binary64.one)
  | .number (.negInt v) => some (v.toInt * Ieee754.binary64.one)
  | .number (.float v) => v.value
  | _ => none

/-- A value lies in the range of a logical type: it is the number that some code means. -/
def InRange (logical : CoveLogicalType) (value : Json) : Prop :=
  ∃ code v number, logicalValue logical code = some v ∧ v.exact = some number ∧
    exactNumber value = some number

variable {codec : ValueCodec} {reader : PropertyReader} {objectTypeId : Nat}
  {property : PropertyEntryV1} {value : Json}

/-- The writer accepts the value, the code means it under the logical type, and the reader gives it
back. -/
def RoundTrips (codec : ValueCodec) (reader : PropertyReader) (objectTypeId : Nat)
    (property : PropertyEntryV1) (value : Json) : Prop :=
  ∃ code, storeValue codec objectTypeId property value = .ok (some (.numCode code)) ∧
    (∃ v number, logicalValue property.logicalType (BitVec.ofNat 64 code) = some v ∧
      v.exact = some number ∧ exactNumber value = some number) ∧
    PropertyPages.decodePropertyValue reader property (.numCode (BitVec.ofNat 64 code)) = .ok value

variable {logical : CoveLogicalType}

variable {code : BitVec 64}

theorem inRange_posInt {v : UInt64} (h : logicalValue logical code = some (.int v.toNat)) :
    InRange logical (.number (.posInt v)) := ⟨code, _, _, h, rfl, rfl⟩

theorem inRange_negInt {v : Int64} (h : logicalValue logical code = some (.int v.toInt)) :
    InRange logical (.number (.negInt v)) := ⟨code, _, _, h, rfl, rfl⟩

theorem storeValue_number (hkind : property.physicalKind = .numCode) (v : UInt64) :
    storeValue codec objectTypeId property (.number (.posInt v)) =
      .ok (some (.numCode v.toNat)) := by
  unfold storeValue
  rw [if_neg (show ¬ (Json.number (.posInt v)).isNull = true from Bool.false_ne_true), hkind]
  rfl

theorem logicalValue_isSome_of_lt {n : Nat}
    (h : n < exactCodes logical) (code : BitVec 64) : ∃ v, logicalValue logical code = some v := by
  cases logical <;> first | exact ⟨_, rfl⟩ | exact absurd h (Nat.not_lt_zero n)

/-- **A value makes the round trip exactly when it is a non-negative integer whose code stands for
itself.** -/
theorem roundTrips_iff (hkind : property.physicalKind = .numCode) :
    RoundTrips codec reader objectTypeId property value ↔
      ∃ v : UInt64, value = .number (.posInt v) ∧ v.toNat < exactCodes property.logicalType := by
  constructor
  · rintro ⟨code, hstore, ⟨v, number, hv, hexact, hnumber⟩, hread⟩
    -- what the reader gives back is never negative and never a float
    obtain rfl : value = .ofNat (BitVec.ofNat 64 code).toNat := (Except.ok.inj hread).symm
    have hword : (UInt64.ofNat (BitVec.ofNat 64 code).toNat).toNat = (BitVec.ofNat 64 code).toNat :=
      UInt64.toNat_ofNat_of_lt' (BitVec.isLt _)
    refine ⟨_, rfl, ?_⟩
    rw [hword]
    refine (logicalValue_eq_code_iff hv).mp (hexact.trans (hnumber.symm.trans ?_))
    show some (((UInt64.ofNat (BitVec.ofNat 64 code).toNat).toNat : Int) * _) = _
    rw [hword]
  · rintro ⟨v, rfl, hlt⟩
    have hword : (BitVec.ofNat 64 v.toNat).toNat = v.toNat := by
      rw [BitVec.toNat_ofNat, Nat.mod_eq_of_lt v.toNat_lt]
    obtain ⟨lv, hlv⟩ := logicalValue_isSome_of_lt hlt (BitVec.ofNat 64 v.toNat)
    refine ⟨v.toNat, storeValue_number hkind v, ⟨lv, _, hlv, ?_, rfl⟩, ?_⟩
    · have hself := (logicalValue_eq_code_iff hlv).mpr (by rwa [hword])
      rwa [hword] at hself
    · simp only [PropertyPages.decodePropertyValue, hword, Json.ofNat, UInt64.ofNat_toNat]

/-- **A value of the logical type makes the round trip exactly when it is a non-negative integer
whose code stands for itself**: of the floating-point types, zero alone. -/
theorem numCode_roundTrips_iff (hkind : property.physicalKind = .numCode)
    (_ : InRange property.logicalType value) :
    RoundTrips codec reader objectTypeId property value ↔
      ∃ v : UInt64, value = .number (.posInt v) ∧ v.toNat < exactCodes property.logicalType :=
  roundTrips_iff hkind

theorem sevenDays_roundTrips :
    RoundTrips silentCodec plainReader 1 (sampleProperty .dateDays) (.number (.posInt 7)) :=
  (numCode_roundTrips_iff rfl (inRange_posInt (show logicalValue .dateDays 7#64 = _ from rfl))).mpr
    ⟨7, rfl, by decide⟩

/-- The value -1 of a signed property lies in its range, and the writer refuses it. -/
theorem minusOne_refused :
    InRange .int64 (.number (.negInt (-1))) ∧
      ¬ RoundTrips silentCodec plainReader 1 (sampleProperty .int64) (.number (.negInt (-1))) := by
  refine ⟨inRange_negInt (show logicalValue .int64 (BitVec.allOnes 64) = _ from by decide), ?_⟩
  rintro ⟨code, hstore, -, -⟩
  cases hstore

end Cove
