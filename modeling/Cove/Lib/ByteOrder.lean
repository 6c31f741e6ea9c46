import Mathlib.Data.List.Lex
import Cove.Lib.LittleEndian

/-!
# The lexicographic order of byte strings

Byte strings compare byte by byte, a proper prefix first.

- The linear order of `UInt8`, from which that of `List UInt8` follows.
- `append_lt_append_iff`: a common prefix does not count.
-/

instance linearOrderUInt8 : LinearOrder UInt8 where
  le_refl := UInt8.le_refl
  le_trans := fun _ _ _ => UInt8.le_trans
  lt_iff_le_not_ge := by
    intro a b
    simp only [UInt8.lt_iff_toNat_lt, UInt8.le_iff_toNat_le]
    omega
  le_antisymm := fun _ _ => UInt8.le_antisymm
  le_total := UInt8.le_total
  toDecidableLE := inferInstance

namespace ByteOrder

section Lists

variable {α : Type u} [LinearOrder α] {a b : α} {as bs : List α}

/-- A common prefix does not count. -/
theorem append_lt_append_iff (xs : List α) : xs ++ as < xs ++ bs ↔ as < bs := by
  induction xs with
  | nil => rfl
  | cons x xs ih =>
    rw [List.cons_append, List.cons_append, List.cons_lt_cons_iff, ih]
    simp

theorem append_le_append_iff (xs : List α) : xs ++ as ≤ xs ++ bs ↔ as ≤ bs := by
  rw [← not_lt, ← not_lt, append_lt_append_iff]

theorem cons_lt_cons_of_lt (h : a < b) : a :: as < b :: bs :=
  List.cons_lt_cons_iff.mpr (.inl h)

/-- The first bytes of equally long beginnings decide. -/
theorem append_lt_append_of_lt {xs ys : List α} (hlen : xs.length = ys.length) (h : xs < ys) :
    xs ++ as < ys ++ bs := by
  induction xs generalizing ys with
  | nil =>
    obtain rfl := List.length_eq_zero_iff.mp hlen.symm
    exact absurd h (lt_irrefl _)
  | cons x xs ih =>
    obtain _ | ⟨y, ys⟩ := ys
    · cases hlen
    · rcases List.cons_lt_cons_iff.mp h with hxy | ⟨rfl, hrest⟩
      · exact cons_lt_cons_of_lt hxy
      · have hlen' : xs.length = ys.length := Nat.succ.inj hlen
        exact List.cons_lt_cons_iff.mpr (.inr ⟨rfl, ih hlen' hrest⟩)

end Lists

end ByteOrder
