import Cove.Lib.Checked

/-!
# Errors and faults

The error type of the format, with the variants the modelled operations report. Code that indexes or
slices without a check of its own panics out of range.

- `CoveError`, `checkedAdd` and its siblings.
- `Fault`: an error, or a panic.
- `Fault.lift`: a step that can only fail with an error; `lift_bind_eq`, `lift_mapM`, `lift_forM`
  put such steps together.
- `slice`: the elements of a range, which panics when it does not lie in the list.
-/

namespace Cove

/-- `CoveError`. -/
inductive CoveError where
  | badMagic
  | refInvalid
  | notSelfContained
  | mapInvalid
  | mapFunctionUndeclared
  | mapIdentityConflict
  | mapSourceStale
  | mapEvidenceInvalid
  | badVersion
  | reservedNotZero
  | unknownRequiredFeature (bits : UInt64)
  | checksumMismatch
  | digestMismatch
  | segmentCorrupt
  | arithOverflow
  | offsetRange
  | bufferTooShort
  | badSection (message : String)
  | badSchema (message : String)
  | badFileCode
  | badLogicalPhysicalPair
  | badNumCode
  | badStats
  | badDomain
  | badIndex
  | badCoverage
  | badCovi
  | badLayoutPlan
  | pageCorrupt
  | unsupportedEncoding (message : String)
  deriving DecidableEq, Repr

/-- `checked_add` with `ArithOverflow`. -/
abbrev checkedAdd (a b : Nat) : Except CoveError Nat := Checked.addU64 .arithOverflow a b

/-- `checked_mul` with `ArithOverflow`. -/
abbrev checkedMul (a b : Nat) : Except CoveError Nat := Checked.mulU64 .arithOverflow a b

/-- `checked_add` on 32-bit numbers, with `ArithOverflow`. -/
abbrev checkedAddU32 (a b : Nat) : Except CoveError Nat := Checked.addU32 .arithOverflow a b

/-- `checked_mul` on 32-bit numbers, with `ArithOverflow`. -/
abbrev checkedMulU32 (a b : Nat) : Except CoveError Nat := Checked.mulU32 .arithOverflow a b

/-- `checked_sub` with `ArithOverflow`. -/
abbrev checkedSub (a b : Nat) : Except CoveError Nat := Checked.sub .arithOverflow a b

/-! ## Faults -/

open Checked

/-- What stops a decoder: an error, or a panic on an index, a slice or a sum out of its range. -/
inductive Fault where
  | error (e : CoveError)
  | panic
  deriving DecidableEq, Repr

namespace Fault

variable {α β : Type}

/-- A step that can only fail with an error. -/
def lift (x : Except CoveError α) : Except Fault α := x.mapError error

theorem lift_eq_ok {x : Except CoveError α} {a : α} : lift x = .ok a ↔ x = .ok a := mapError_eq_ok

theorem lift_ne_panic (x : Except CoveError α) : lift x ≠ .error .panic := by
  cases x <;> nofun

/-- Two steps that can only fail with an error, when the second can on what the first gives. -/
theorem lift_bind_eq {x : Except CoveError α} {f : α → Except CoveError β} {g : α → Except Fault β}
    (h : ∀ a, x = .ok a → g a = lift (f a)) : (lift x >>= g) = lift (x >>= f) := by
  cases x with
  | error e => rfl
  | ok a => exact h a rfl

theorem lift_mapM {f : α → Except CoveError β} {g : α → Except Fault β} {l : List α}
    (h : ∀ a ∈ l, g a = lift (f a)) : l.mapM g = lift (l.mapM f) := by
  induction l with
  | nil => rfl
  | cons a l ih =>
    rw [List.mapM_cons, List.mapM_cons, h a List.mem_cons_self]
    refine lift_bind_eq fun b _ => ?_
    rw [ih fun a ha => h a (List.mem_cons_of_mem _ ha)]
    exact lift_bind_eq fun _ _ => rfl

theorem lift_forM {f : α → Except CoveError Unit} {g : α → Except Fault Unit} {l : List α}
    (h : ∀ a ∈ l, g a = lift (f a)) : l.forM g = lift (l.forM f) := by
  induction l with
  | nil => rfl
  | cons a l ih =>
    show (g a >>= fun _ => l.forM g) = lift (f a >>= fun _ => l.forM f)
    rw [h a List.mem_cons_self]
    exact lift_bind_eq fun _ _ => ih fun a ha => h a (List.mem_cons_of_mem _ ha)

/-- The elements from `start` to `stop`. -/
def slice (xs : List α) (start stop : Nat) : Except Fault (List α) :=
  if start ≤ stop ∧ stop ≤ xs.length then .ok ((xs.drop start).take (stop - start))
  else .error .panic

theorem slice_eq {xs : List α} {start stop : Nat} (hle : start ≤ stop) (hlen : stop ≤ xs.length) :
    slice xs start stop = .ok ((xs.drop start).take (stop - start)) := if_pos ⟨hle, hlen⟩

theorem slice_eq_panic {xs : List α} {start stop : Nat} (h : xs.length < stop ∨ stop < start) :
    slice xs start stop = .error .panic := if_neg (by omega)

end Fault

end Cove
