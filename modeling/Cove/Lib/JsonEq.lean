import Cove.Lib.Json

/-!
# Equality of JSON values

What `==` says of two values: it is decided form by form, and two values equal to a third are
equal to each other.

- `Json.beq_of_common`: **values equal to one value are equal**.
-/

open Ieee754

theorem Ieee754.F64.partialCmp_eq_iff {x y : F64} :
    x.partialCmp y = some .eq ↔ ∃ v, x.value = some v ∧ y.value = some v := by
  unfold F64.partialCmp
  cases x.value with
  | none => simp
  | some a =>
    cases y.value with
    | none => simp
    | some b =>
      constructor
      · intro h
        exact ⟨a, rfl, congrArg some (compare_eq_iff_eq.mp (Option.some.inj h)).symm⟩
      · rintro ⟨v, ha, hb⟩
        obtain rfl := Option.some.inj ha
        obtain rfl := Option.some.inj hb
        exact congrArg some (compare_eq_iff_eq.mpr rfl)

theorem JsonNumber.beq_posInt {a : JsonNumber} {n : UInt64} (h : a.beq (.posInt n) = true) :
    a = .posInt n := by
  cases a with
  | posInt m => exact congrArg JsonNumber.posInt (beq_iff_eq.mp h)
  | _ => exact absurd h Bool.false_ne_true

theorem JsonNumber.beq_negInt {a : JsonNumber} {n : Int64} (h : a.beq (.negInt n) = true) :
    a = .negInt n := by
  cases a with
  | negInt m => exact congrArg JsonNumber.negInt (beq_iff_eq.mp h)
  | _ => exact absurd h Bool.false_ne_true

theorem JsonNumber.beq_float {a : JsonNumber} {x : F64} (h : a.beq (.float x) = true) :
    ∃ y, a = .float y ∧ y.partialCmp x = some .eq := by
  cases a with
  | float y => exact ⟨y, rfl, beq_iff_eq.mp h⟩
  | _ => exact absurd h Bool.false_ne_true

theorem JsonNumber.beq_of_common {a b c : JsonNumber} (ha : a.beq c = true)
    (hb : b.beq c = true) : a.beq b = true := by
  cases c with
  | posInt n =>
    rw [beq_posInt hb]
    exact ha
  | negInt n =>
    rw [beq_negInt hb]
    exact ha
  | float x =>
    obtain ⟨y, rfl, hy⟩ := beq_float ha
    obtain ⟨z, rfl, hz⟩ := beq_float hb
    obtain ⟨v, hy, hx⟩ := F64.partialCmp_eq_iff.mp hy
    obtain ⟨w, hz, hx'⟩ := F64.partialCmp_eq_iff.mp hz
    obtain rfl := Option.some.inj (hx.symm.trans hx')
    exact beq_iff_eq.mpr (F64.partialCmp_eq_iff.mpr ⟨v, hy, hz⟩)

namespace Json

/-! ## Forms -/

variable {a : Json}

theorem beq_null : a.beq .null = true ↔ a = .null := by
  cases a with
  | null => exact iff_of_true rfl rfl
  | _ => exact iff_of_false Bool.false_ne_true fun h => by cases h

theorem beq_bool {b : Bool} : a.beq (.bool b) = true ↔ a = .bool b := by
  cases a with
  | bool v => exact beq_iff_eq.trans ⟨congrArg Json.bool, Json.bool.inj⟩
  | _ => exact iff_of_false Bool.false_ne_true fun h => by cases h

theorem beq_number {n : JsonNumber} :
    a.beq (.number n) = true ↔ ∃ m, a = .number m ∧ m.beq n = true := by
  cases a with
  | number m => exact ⟨fun h => ⟨m, rfl, h⟩, fun ⟨_, heq, h⟩ => Json.number.inj heq ▸ h⟩
  | _ => exact iff_of_false Bool.false_ne_true fun ⟨_, h, _⟩ => by cases h

theorem beq_string {s : Text} : a.beq (.string s) = true ↔ a = .string s := by
  cases a with
  | string t => exact beq_iff_eq.trans ⟨congrArg Json.string, Json.string.inj⟩
  | _ => exact iff_of_false Bool.false_ne_true fun h => by cases h

variable {items : List Json} {members as : List (Text × Json)}

theorem beq_array :
    a.beq (.array items) = true ↔ ∃ as, a = .array as ∧ beqItems as items = true := by
  cases a with
  | array as => exact ⟨fun h => ⟨as, rfl, h⟩, fun ⟨_, heq, h⟩ => Json.array.inj heq ▸ h⟩
  | _ => exact iff_of_false Bool.false_ne_true fun ⟨_, h, _⟩ => by cases h

theorem beq_object :
    a.beq (.object members) = true ↔ ∃ as, a = .object as ∧ beqMembers as members = true := by
  cases a with
  | object as => exact ⟨fun h => ⟨as, rfl, h⟩, fun ⟨_, heq, h⟩ => Json.object.inj heq ▸ h⟩
  | _ => exact iff_of_false Bool.false_ne_true fun ⟨_, h, _⟩ => by cases h

theorem beqItems_nil {as : List Json} : beqItems as [] = true ↔ as = [] := by
  cases as <;> simp [beqItems]

theorem beqItems_cons {as : List Json} {c : Json} :
    beqItems as (c :: items) = true ↔
      ∃ a rest, as = a :: rest ∧ a.beq c = true ∧ beqItems rest items = true := by
  cases as <;> simp [beqItems]

theorem beqMembers_nil : beqMembers as [] = true ↔ as = [] := by
  cases as <;> simp [beqMembers]

theorem beqMembers_cons {key : Text} {c : Json} :
    beqMembers as ((key, c) :: members) = true ↔
      ∃ a rest, as = (key, a) :: rest ∧ a.beq c = true ∧ beqMembers rest members = true := by
  cases as with
  | nil => simp [beqMembers]
  | cons head rest =>
    obtain ⟨k, a⟩ := head
    simp only [beqMembers, Bool.and_eq_true, beq_iff_eq, List.cons.injEq, Prod.mk.injEq]
    constructor
    · rintro ⟨⟨rfl, hc⟩, hrest⟩
      exact ⟨a, rest, ⟨⟨rfl, rfl⟩, rfl⟩, hc, hrest⟩
    · rintro ⟨a', rest', ⟨⟨rfl, rfl⟩, rfl⟩, hc, hrest⟩
      exact ⟨⟨rfl, hc⟩, hrest⟩

/-! ## Values equal to a third -/

mutual

/-- **Values equal to one value are equal.** -/
theorem beq_of_common {a b : Json} :
    ∀ {c : Json}, a.beq c = true → b.beq c = true → a.beq b = true
  | .null, ha, hb => by
    rw [beq_null.mp ha, beq_null.mp hb]
    rfl
  | .bool v, ha, hb => by
    rw [beq_bool.mp hb]
    exact ha
  | .number n, ha, hb => by
    obtain ⟨m, rfl, hm⟩ := beq_number.mp ha
    obtain ⟨m', rfl, hm'⟩ := beq_number.mp hb
    exact beq_number.mpr ⟨m, rfl, JsonNumber.beq_of_common hm hm'⟩
  | .string s, ha, hb => by
    rw [beq_string.mp hb]
    exact ha
  | .array items, ha, hb => by
    obtain ⟨as, rfl, has⟩ := beq_array.mp ha
    obtain ⟨bs, rfl, hbs⟩ := beq_array.mp hb
    exact beq_array.mpr ⟨as, rfl, beqItems_of_common has hbs⟩
  | .object members, ha, hb => by
    obtain ⟨as, rfl, has⟩ := beq_object.mp ha
    obtain ⟨bs, rfl, hbs⟩ := beq_object.mp hb
    exact beq_object.mpr ⟨as, rfl, beqMembers_of_common has hbs⟩

theorem beqItems_of_common {as bs : List Json} : ∀ {items : List Json},
    beqItems as items = true → beqItems bs items = true → beqItems as bs = true
  | [], ha, hb => by
    rw [beqItems_nil.mp ha, beqItems_nil.mp hb]
    rfl
  | c :: items, ha, hb => by
    obtain ⟨a, as', rfl, hac, has⟩ := beqItems_cons.mp ha
    obtain ⟨b, bs', rfl, hbc, hbs⟩ := beqItems_cons.mp hb
    exact beqItems_cons.mpr ⟨a, as', rfl, beq_of_common hac hbc, beqItems_of_common has hbs⟩

theorem beqMembers_of_common {as bs : List (Text × Json)} : ∀ {members : List (Text × Json)},
    beqMembers as members = true → beqMembers bs members = true → beqMembers as bs = true
  | [], ha, hb => by
    rw [beqMembers_nil.mp ha, beqMembers_nil.mp hb]
    rfl
  | (key, c) :: members, ha, hb => by
    obtain ⟨a, as', rfl, hac, has⟩ := beqMembers_cons.mp ha
    obtain ⟨b, bs', rfl, hbc, hbs⟩ := beqMembers_cons.mp hb
    exact beqMembers_cons.mpr ⟨a, as', rfl, beq_of_common hac hbc, beqMembers_of_common has hbs⟩

end

end Json
