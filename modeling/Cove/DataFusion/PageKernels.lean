import Cove.Core.PageArrayRows
import Cove.DataFusion.Plan
import Cove.DataFusion.Selection

/-!
# Row kernels in place

A predicate is applied to a page by narrowing the selection in place. The two fast kernels work on
a scratch mask and swap it in at their end, the row loop clears the bits of the selection itself.

- `Masks`: the selection and the scratch mask, whatever stops a kernel.
- `clearLoop`, `applyRows`: the row loop, with the selection it leaves behind.
- `tryApplyNumcodePredicateToSelection`, `tryApplyVarbytesEqPredicateToSelection`: the fast kernels.
- `Holds`: what a predicate says of the value of a row.
- `Narrowed`, `clearLoop_narrowed`: what a loop leaves, however it ends.
- `selection_kernels_sound`: **a fast kernel that answers selects as the row loop does, and
  whatever the outcome, only rows that fail the predicate are gone**.
-/

namespace Cove

variable {op : NumericPredicateOp} {value : CoveArrayValue} {array : EncodedArray}
  {offsets : List Nat}

variable {x : Option Int} {l : BitVec 64} {literal : PredicateLiteral} {isNull nonNull : Bool}
  {scratch selected : SelectionMask} {masks' : Masks} {offset : Nat}

namespace PageArray

open Checked

/-! ## The masks -/

/-- The selection that is narrowed, and the mask the fast kernels work on. -/
structure Masks where
  selected : SelectionMask
  scratch : SelectionMask
  deriving DecidableEq, Repr

/-- Visit `rows`, clearing in place those with a negative verdict, until a verdict is missing. -/
def clearLoop (verdict : Nat → Except Fault (Option Bool)) :
    List Nat → SelectionMask → Except Fault Bool × SelectionMask
  | [], m => (.ok true, m)
  | row :: rows, m =>
    match verdict row with
    | .error fault => (.error fault, m)
    | .ok none => (.ok false, m)
    | .ok (some true) => clearLoop verdict rows m
    | .ok (some false) => clearLoop verdict rows (m.clearBit row)

/-! ## The verdict of the row loop -/

/-- `raw_file_code_at`. -/
def rawFileCodeAt (array : EncodedArray) (row : Nat) : Except CoveError (Option Nat) :=
  if array.encoding ≠ .fileCode then .ok none
  else do
    let offset ← checkedMul row 4
    let bytes ← readRangeChecked array.data offset 4
    .ok (some (LittleEndian.ofLe bytes))

/-- `raw_numcode_at`. -/
def rawNumcodeAt (array : EncodedArray) (row : Nat) : Except CoveError (BitVec 64) := do
  let offset ← checkedMul row 8
  let bytes ← readRangeChecked array.data offset 8
  .ok (wordOfBytes bytes)

/-- The file code of a row, raw or decoded. -/
def fileCodeOfRow (prepared : PreparedEncodedArray) (row : Nat) : Except Fault (Option Nat) := do
  match ← Fault.lift (rawFileCodeAt prepared.array row) with
  | some code => .ok (some code)
  | none =>
    match ← prepared.decodeRow row with
    | .fileCode code => .ok (some code)
    | _ => .ok none

/-- The verdict of a byte literal on a value. -/
def bytesVerdict (literal : List UInt8) : CoveArrayValue → Option Bool
  | .bytes bytes => some (bytes == literal)
  | .ownedBytes bytes => some (bytes == literal)
  | _ => none

/-- The verdict of the row loop: keep the row, drop it, or give up. -/
def rowVerdict (predicate : CovePredicate) (prepared : PreparedEncodedArray) (row : Nat) :
    Except Fault (Option Bool) :=
  match predicate with
  | .null _ kind => do
    let isNull ← Fault.lift (prepared.array.isNull row)
    match kind with
    | .isNull => .ok (some isNull)
    | .isNotNull => .ok (some !isNull)
  | .numeric _ op literal => do
    let value ← prepared.decodeRow row
    Fault.lift (compareNumericValue value op literal)
  | .fileCodeIn _ fileCodes _ => do
    if ← Fault.lift (prepared.array.isNull row) then .ok (some false)
    else
      let code ← fileCodeOfRow prepared row
      .ok (code.map fileCodes.contains)
  | .varBytesEq _ literal => do
    if ← Fault.lift (prepared.array.isNull row) then .ok (some false)
    else
      let value ← prepared.decodeRow row
      .ok (bytesVerdict literal value)

/-- The generic path: the loop over the selected rows. -/
def applyRows (predicate : CovePredicate) (prepared : PreparedEncodedArray) (masks : Masks) :
    Except Fault Bool × Masks :=
  let (outcome, selected) :=
    clearLoop (rowVerdict predicate prepared) masks.selected.rows masks.selected
  (outcome, { masks with selected })

/-! ## The fast kernels -/

/-- The verdict of the NumCode kernel. -/
def numcodeVerdict (array : EncodedArray) (op : NumericPredicateOp) (literal : PredicateLiteral)
    (row : Nat) : Except Fault (Option Bool) := do
  if ← Fault.lift (array.isNull row) then .ok (some false)
  else
    let code ← Fault.lift (rawNumcodeAt array row)
    match compareNumcodeValue code op literal with
    | .ok value => .ok (some value)
    | .error (.unsupportedEncoding _) => .ok none
    | .error error => .error (.error error)

/-- `try_apply_numcode_predicate_to_selection`. -/
def tryApplyNumcodePredicateToSelection (predicate : CovePredicate) (array : EncodedArray)
    (masks : Masks) : Except Fault (Option Unit) × Masks :=
  match predicate with
  | .numeric _ op literal =>
    if array.encoding ≠ .numCode ∨ array.physical ≠ .numCode then (.ok none, masks)
    else
      match clearLoop (numcodeVerdict array op literal) masks.selected.rows masks.selected with
      | (.error fault, scratch) => (.error fault, { masks with scratch })
      | (.ok false, scratch) => (.ok none, { masks with scratch })
      -- `mem::swap`: the narrowed mask becomes the selection
      | (.ok true, scratch) => (.ok (some ()), { selected := scratch, scratch := masks.selected })
  | _ => (.ok none, masks)

/-- The bytes of a row and where the next one starts, as the raw walk reads them. -/
def rawVarBytes (data : List UInt8) (offset : Nat) : Except CoveError (List UInt8 × Nat) := do
  let headerEnd ← checkedAdd offset 4
  if headerEnd > data.length then .error .offsetRange
  else
    let len := LittleEndian.ofLe ((data.drop offset).take 4)
    let stop ← checkedAdd headerEnd len
    if stop > data.length then .error .offsetRange
    else .ok ((data.drop headerEnd).take len, stop)

/-- Whether a row has a value; without a bitmap every row has one. -/
def isNonNull (array : EncodedArray) (row : Nat) : Except Fault Bool :=
  if array.validity.isNone then .ok true
  else (Fault.lift (array.isNull row)).map fun isNull => !isNull

/-- The raw walk from `row` with `remaining` rows to go, and the scratch mask it leaves. -/
def varbytesLoop (array : EncodedArray) (literal : List UInt8) (selected : SelectionMask)
    (allSelected : Bool) : Nat → Nat → Nat → SelectionMask → Except Fault Nat × SelectionMask
  | 0, _, offset, scratch => (.ok offset, scratch)
  | remaining + 1, row, offset, scratch =>
    match rawVarBytes array.data offset with
    | .error error => (.error (.error error), scratch)
    | .ok (value, stop) =>
      if allSelected || selected.get row then
        match isNonNull array row with
        | .error fault => (.error fault, scratch)
        | .ok nonNull =>
          if nonNull && value == literal then
            varbytesLoop array literal selected allSelected remaining (row + 1) stop scratch
          else
            varbytesLoop array literal selected allSelected remaining (row + 1) stop
              (scratch.clearBit row)
      else varbytesLoop array literal selected allSelected remaining (row + 1) stop scratch

/-- `try_apply_varbytes_eq_predicate_to_selection`. -/
def tryApplyVarbytesEqPredicateToSelection (predicate : CovePredicate) (array : EncodedArray)
    (masks : Masks) : Except Fault (Option Unit) × Masks :=
  match predicate with
  | .varBytesEq _ literal =>
    if array.encoding ≠ .varBytes ∨ array.physical ≠ .varBytes then (.ok none, masks)
    else if masks.selected.len ≠ array.rowCount then
      (.error (.error (.badSection ("selection length " ++ toString masks.selected.len ++
        " does not match VarBytes row count " ++ toString array.rowCount))), masks)
    else
      let allSelected := masks.selected.countOnes == array.rowCount
      match varbytesLoop array literal masks.selected allSelected array.rowCount 0 0
          masks.selected with
      | (.error fault, scratch) => (.error fault, { masks with scratch })
      | (.ok offset, scratch) =>
        if offset ≠ array.data.length then (.error (.error .pageCorrupt), { masks with scratch })
        else (.ok (some ()), { selected := scratch, scratch := masks.selected })
  | _ => (.ok none, masks)

/-! ## The whole operation -/

/-- `apply_predicate_to_selection`: the kernels in order. -/
def applyPredicateToSelection (predicate : CovePredicate) (prepared : PreparedEncodedArray)
    (masks : Masks) : Except Fault Bool × Masks :=
  match tryApplyNumcodePredicateToSelection predicate prepared.array masks with
  | (.error fault, masks) => (.error fault, masks)
  | (.ok (some ()), masks) => (.ok true, masks)
  | (.ok none, masks) =>
    match tryApplyVarbytesEqPredicateToSelection predicate prepared.array masks with
    | (.error fault, masks) => (.error fault, masks)
    | (.ok (some ()), masks) => (.ok true, masks)
    | (.ok none, masks) => applyRows predicate prepared masks

/-- `try_apply_predicate_to_selection`. -/
def tryApplyPredicateToSelection (predicate : CovePredicate) (prepared : PreparedEncodedArray)
    (masks : Masks) : Except Fault Bool × Masks :=
  match applyPredicateToSelection predicate prepared masks with
  | (.error (.error (.unsupportedEncoding _)), masks) => (.ok false, masks)
  | outcome => outcome

/-! ## What a predicate says of a value -/

/-- A predicate on the value of a row: a numeric comparison, or equality with a byte literal. -/
inductive ValueTest where
  | numeric (op : NumericPredicateOp) (literal : PredicateLiteral)
  | bytesEq (literal : List UInt8)
  deriving DecidableEq, Repr

/-- The filter of a test on a column. -/
def ValueTest.predicate (columnIndex : Nat) : ValueTest → CovePredicate
  | .numeric op literal => .numeric columnIndex op literal
  | .bytesEq literal => .varBytesEq columnIndex literal

/-- What an operator says of two numbers. -/
def NumericHolds : NumericPredicateOp → Int → Int → Prop
  | .eq, x, y => x = y
  | .lt, x, y => x < y
  | .ltEq, x, y => x ≤ y
  | .gt, x, y => y < x
  | .gtEq, x, y => y ≤ x

/-- The number of a literal; a NaN is none. -/
def literalNumber : PredicateLiteral → Option Int
  | .int64 l => some l.toInt
  | .uint64 l => some l.toNat
  | .float64 l => l.value

/-- The number a value is beside a literal: the integer itself, or its binary64 beside a float.
Eight bytes are a number of the literal's own kind. -/
def numberBeside (literal : PredicateLiteral) (value : CoveArrayValue) : Option Int :=
  match literal, value with
  | .float64 _, .numCode v | .float64 _, .varint v => some (Ieee754.natAsF64 v.toNat)
  | .float64 _, .int64 v => some (Ieee754.intAsF64 v.toInt)
  | _, .numCode v | _, .varint v => some v.toNat
  | _, .int64 v => some v.toInt
  | .int64 _, .bytes bytes => if bytes.length = 8 then some (wordOfBytes bytes).toInt else none
  | .uint64 _, .bytes bytes => if bytes.length = 8 then some (wordOfBytes bytes).toNat else none
  | .float64 _, .bytes bytes =>
    if bytes.length = 8 then (Ieee754.F64.mk (wordOfBytes bytes)).value else none
  | _, _ => none

/-- The value of a row passes the test. -/
def Holds (test : ValueTest) (value : CoveArrayValue) : Prop :=
  match test with
  | .numeric op literal => ∃ x y, numberBeside literal value = some x ∧
      literalNumber literal = some y ∧ NumericHolds op x y
  | .bytesEq literal => value = .bytes literal ∨ value = .ownedBytes literal

/-- A row passes the test by its value. -/
def RowHolds (test : ValueTest) (prepared : PreparedEncodedArray) (row : Nat) : Prop :=
  ∃ value, prepared.decodeRow row = .ok value ∧ Holds test value

/-- A row fails the test: it is null, or its value does not pass. -/
def RowFails (test : ValueTest) (prepared : PreparedEncodedArray) (row : Nat) : Prop :=
  prepared.array.isNull row = .ok true ∨
    ∃ value, prepared.decodeRow row = .ok value ∧ ¬ Holds test value

theorem compareOrdered_intCmp_iff {x y : Int} :
    compareOrdered intCmp x op y = true ↔ NumericHolds op x y := by
  cases op <;> simp [compareOrdered, intCmp, NumericHolds, compare_lt_iff_lt, compare_gt_iff_gt]
  case ltEq => exact le_iff_lt_or_eq.symm
  case gtEq => exact (le_iff_lt_or_eq.trans (or_congr Iff.rfl eq_comm)).symm

theorem compareOrdered_values_iff {y : Option Int} :
    compareOrdered Ieee754.partialCmpValues x op y = true ↔
      ∃ a b, x = some a ∧ y = some b ∧ NumericHolds op a b := by
  cases x with
  | none => cases op <;> simp [compareOrdered, Ieee754.partialCmpValues]
  | some a =>
    cases y with
    | none => cases op <;> simp [compareOrdered, Ieee754.partialCmpValues]
    | some b =>
      have hcmp : compareOrdered Ieee754.partialCmpValues (some a) op (some b) =
          compareOrdered intCmp a op b := compareOrdered_congr rfl op
      rw [hcmp, compareOrdered_intCmp_iff]
      simp only [Option.some.injEq, exists_and_left, exists_eq_left']

theorem numberBeside_int64 (h : valueAsI64 value = .ok x) : numberBeside (.int64 l) value = x := by
  cases value with
  | numCode v | varint v =>
    obtain ⟨-, h⟩ := ite_error_eq_ok.mp h
    exact Except.ok.inj h
  | bytes bytes =>
    dsimp only [valueAsI64] at h
    dsimp only [numberBeside]
    by_cases hlength : bytes.length = 8
    · rw [if_pos hlength] at h ⊢
      exact Except.ok.inj h
    · rw [if_neg hlength] at h ⊢
      exact Except.ok.inj h
  | _ => exact Except.ok.inj h

theorem numberBeside_uint64 {x : Option Nat}
    (h : valueAsU64 value = .ok x) : numberBeside (.uint64 l) value = x.map Int.ofNat := by
  cases value with
  | int64 v =>
    obtain ⟨hpos, h⟩ := ite_error_eq_ok.mp h
    rw [← Except.ok.inj h]
    show some v.toInt = some (Int.ofNat v.toNat)
    rw [BitVec.toInt_eq_toNat_cond] at hpos ⊢
    split at hpos
    · next hsmall => rw [if_pos hsmall]; rfl
    · omega
  | bytes bytes =>
    dsimp only [valueAsU64] at h
    dsimp only [numberBeside]
    by_cases hlength : bytes.length = 8
    · rw [if_pos hlength] at h ⊢
      rw [← Except.ok.inj h]
      rfl
    · rw [if_neg hlength] at h ⊢
      rw [← Except.ok.inj h]
      rfl
  | _ => rw [← Except.ok.inj h]; rfl

theorem numberBeside_float64 {l : Ieee754.F64}
    (h : valueAsF64 value = .ok x) : numberBeside (.float64 l) value = x := by
  cases value with
  | bytes bytes =>
    dsimp only [valueAsF64] at h
    dsimp only [numberBeside]
    by_cases hlength : bytes.length = 8
    · rw [if_pos hlength] at h ⊢
      exact Except.ok.inj h
    · rw [if_neg hlength] at h ⊢
      exact Except.ok.inj h
  | _ => exact Except.ok.inj h

/-- **A numeric verdict is the comparison of the numbers.** -/
theorem compareNumericValue_eq_some {keep : Bool}
    (h : compareNumericValue value op literal = .ok (some keep)) :
    keep = true ↔ Holds (.numeric op literal) value := by
  unfold compareNumericValue at h
  split at h
  · next hnull =>
    obtain rfl := Option.some.inj (Except.ok.inj h)
    subst hnull
    simp [Holds, numberBeside]
  · cases literal with
    | int64 l =>
      obtain ⟨o, hvalue, h⟩ := bind_eq_ok.mp h
      cases o with
      | none => cases h
      | some x =>
        rw [← Option.some.inj (Except.ok.inj h), compareOrdered_intCmp_iff]
        simp [Holds, numberBeside_int64 hvalue, literalNumber]
    | uint64 l =>
      obtain ⟨o, hvalue, h⟩ := bind_eq_ok.mp h
      cases o with
      | none => cases h
      | some x =>
        rw [← Option.some.inj (Except.ok.inj h), compareOrdered_intCmp_iff]
        simp [Holds, numberBeside_uint64 hvalue, literalNumber]
    | float64 l =>
      obtain ⟨o, hvalue, h⟩ := bind_eq_ok.mp h
      cases o with
      | none => cases h
      | some x =>
        rw [← Option.some.inj (Except.ok.inj h), compareOrdered_values_iff]
        simp [Holds, numberBeside_float64 hvalue, literalNumber]

/-! ## What a loop leaves -/

/-- The mask after the rows `visited`: those with a negative verdict are gone. -/
structure Narrowed (verdict : Nat → Except Fault (Option Bool)) (visited : List Nat)
    (m m' : SelectionMask) : Prop where
  len : m'.len = m.len
  decided : ∀ row ∈ visited, ∃ keep, verdict row = .ok (some keep)
  get : ∀ row, m'.get row = true ↔
    m.get row = true ∧ (row ∈ visited → verdict row = .ok (some true))

/-- Masks of one length with the same bits. -/
def SameBits (m m' : SelectionMask) : Prop := m.len = m'.len ∧ ∀ row, m.get row = m'.get row

section Narrowed

variable {verdict verdict' : Nat → Except Fault (Option Bool)} {rows visited : List Nat}
  {row : Nat} {m m' m'' : SelectionMask}

theorem Narrowed.nil : Narrowed verdict [] m m := ⟨rfl, nofun, by simp⟩

/-- A row that is kept. -/
theorem Narrowed.keep (hv : verdict row = .ok (some true)) (h : Narrowed verdict visited m m') :
    Narrowed verdict (row :: visited) m m' where
  len := h.len
  decided := List.forall_mem_cons.mpr ⟨⟨true, hv⟩, h.decided⟩
  get r := by
    rw [h.get, List.mem_cons]
    refine and_congr_right fun _ => ⟨fun himp => ?_, fun himp hr => himp (.inr hr)⟩
    rintro (rfl | hr)
    · exact hv
    · exact himp hr

/-- A row that is dropped. -/
theorem Narrowed.drop (hrow : row < m.len) (hv : verdict row = .ok (some false))
    (h : Narrowed verdict visited (m.clearBit row) m') :
    Narrowed verdict (row :: visited) m m' where
  len := h.len
  decided := List.forall_mem_cons.mpr ⟨⟨false, hv⟩, h.decided⟩
  get r := by
    rw [h.get, SelectionMask.get_clearBit hrow, List.mem_cons]
    by_cases hr : r = row
    · subst hr
      simp [hv]
    · simp [hr]

/-- Only the verdicts that were reached matter. -/
theorem Narrowed.congr (h : Narrowed verdict visited m m')
    (hv : ∀ row ∈ visited, ∀ keep, verdict row = .ok (some keep) → verdict' row = .ok (some keep)) :
    Narrowed verdict' visited m m' where
  len := h.len
  decided row hrow := by
    obtain ⟨keep, hkeep⟩ := h.decided row hrow
    exact ⟨keep, hv row hrow keep hkeep⟩
  get row := by
    rw [h.get]
    refine and_congr_right fun _ => forall_congr' fun hrow => ?_
    obtain ⟨keep, hkeep⟩ := h.decided row hrow
    rw [hkeep, hv row hrow keep hkeep]

/-- Rows that were not selected do not matter either. -/
theorem Narrowed.selectedOnly (h : Narrowed verdict visited m m')
    (hlt : ∀ row ∈ visited, row < m.len) (hsub : ∀ row ∈ m.rows, row ∈ visited) :
    Narrowed verdict m.rows m m' where
  len := h.len
  decided row hrow := h.decided row (hsub row hrow)
  get row := by
    rw [h.get]
    refine and_congr_right fun hget => ⟨fun himp hrow => himp (hsub row hrow), fun himp hrow => ?_⟩
    exact himp (SelectionMask.mem_rows.mpr ⟨hlt row hrow, hget⟩)

theorem Narrowed.sameBits (h : Narrowed verdict visited m m') (h' : Narrowed verdict visited m m'') :
    SameBits m' m'' :=
  ⟨h.len.trans h'.len.symm, fun row => Bool.eq_iff_iff.mpr ((h.get row).trans (h'.get row).symm)⟩

theorem Narrowed.of_get (h : Narrowed verdict visited m m') (hget : m'.get row = true) :
    m.get row = true := ((h.get row).mp hget).1

/-- A bit that is gone was cleared by a negative verdict. -/
theorem Narrowed.dropped (h : Narrowed verdict visited m m') (hget : m.get row = true)
    (hgone : m'.get row = false) : verdict row = .ok (some false) := by
  have hnot : ¬ (row ∈ visited → verdict row = .ok (some true)) := fun himp => by
    rw [(h.get row).mpr ⟨hget, himp⟩] at hgone
    cases hgone
  push Not at hnot
  obtain ⟨hrow, hne⟩ := hnot
  obtain ⟨keep, hkeep⟩ := h.decided row hrow
  cases keep with
  | true => exact absurd hkeep hne
  | false => exact hkeep

/-- **The loop, however it ends, has narrowed by the verdicts of the rows it visited.** -/
theorem clearLoop_narrowed {outcome : Except Fault Bool} (hrows : ∀ row ∈ rows, row < m.len)
    (h : clearLoop verdict rows m = (outcome, m')) :
    ∃ visited rest, rows = visited ++ rest ∧ (outcome = .ok true → rest = []) ∧
      Narrowed verdict visited m m' := by
  induction rows generalizing m with
  | nil =>
    obtain ⟨rfl, rfl⟩ := Prod.mk.inj h
    exact ⟨[], [], rfl, fun _ => rfl, .nil⟩
  | cons row rows ih =>
    obtain ⟨hrow, hrows⟩ := List.forall_mem_cons.mp hrows
    unfold clearLoop at h
    split at h
    · -- the verdict fails: nothing more is visited
      obtain ⟨rfl, rfl⟩ := Prod.mk.inj h
      exact ⟨[], row :: rows, rfl, nofun, .nil⟩
    · obtain ⟨rfl, rfl⟩ := Prod.mk.inj h
      exact ⟨[], row :: rows, rfl, nofun, .nil⟩
    · next hv =>
      obtain ⟨visited, rest, rfl, hall, hnarrowed⟩ := ih hrows h
      exact ⟨row :: visited, rest, rfl, hall, .keep hv hnarrowed⟩
    · next hv =>
      obtain ⟨visited, rest, rfl, hall, hnarrowed⟩ := ih (m := m.clearBit row) hrows h
      exact ⟨row :: visited, rest, rfl, hall, .drop hrow hv hnarrowed⟩

/-- The loop runs to its end when every row has a verdict. -/
theorem clearLoop_of_decided (h : ∀ row ∈ rows, ∃ keep, verdict row = .ok (some keep)) :
    ∃ m', clearLoop verdict rows m = (.ok true, m') := by
  induction rows generalizing m with
  | nil => exact ⟨m, rfl⟩
  | cons row rows ih =>
    obtain ⟨⟨keep, hv⟩, hrows⟩ := List.forall_mem_cons.mp h
    cases keep with
    | true =>
      obtain ⟨m', hm'⟩ := ih (m := m) hrows
      exact ⟨m', by rw [clearLoop, hv]; exact hm'⟩
    | false =>
      obtain ⟨m', hm'⟩ := ih (m := m.clearBit row) hrows
      exact ⟨m', by rw [clearLoop, hv]; exact hm'⟩

/-- A mask narrowed by the verdicts of all selected rows is what the loop gives. -/
theorem clearLoop_of_narrowed (h : Narrowed verdict m.rows m m') :
    ∃ m'', clearLoop verdict m.rows m = (.ok true, m'') ∧ SameBits m' m'' := by
  obtain ⟨m'', hm''⟩ := clearLoop_of_decided (m := m) h.decided
  obtain ⟨visited, rest, hrows, hrest, hnarrowed⟩ :=
    clearLoop_narrowed (fun row hrow => (SelectionMask.mem_rows.mp hrow).1) hm''
  rw [hrest rfl, List.append_nil] at hrows
  exact ⟨m'', hm'', h.sameBits (hrows ▸ hnarrowed)⟩

end Narrowed

/-! ## The fast kernels and the row loop -/

section Kernels

variable {prepared : PreparedEncodedArray} {predicate : CovePredicate} {masks : Masks}

theorem lt_of_isNull {row : Nat} (h : array.isNull row = .ok isNull) : row < array.rowCount := by
  unfold EncodedArray.isNull at h
  exact Nat.not_le.mp (ite_error_eq_ok.mp h).1

/-- A row of a page of raw NumCodes. -/
theorem decodeRow_numCode (henc : prepared.array.encoding = .numCode)
    (hrepr : prepared.repr = .direct) {row : Nat}
    (hnull : prepared.array.isNull row = .ok isNull) :
    prepared.decodeRow row = if isNull then .ok .null else
      (Fault.lift (rawNumcodeAt prepared.array row)).map CoveArrayValue.numCode := by
  have hlt := Nat.not_le.mpr (lt_of_isNull hnull)
  unfold PreparedEncodedArray.decodeRow
  rw [if_neg hlt, hrepr]
  show prepared.array.decodeRow row = _
  unfold EncodedArray.decodeRow EncodedArray.finishRow EncodedArray.decodePresentRow
  rw [if_neg hlt, hnull, henc]
  cases isNull with
  | true => rfl
  | false =>
    dsimp only [rawNumcodeAt, readU64Le]
    cases checkedMul row 8 with
    | error e => rfl
    | ok offset =>
      rw [ok_bind, ok_bind]
      cases readRangeChecked prepared.array.data offset 8 <;> rfl

/-- On raw NumCodes a verdict of the kernel is the verdict of the row loop. -/
theorem rowVerdict_of_numcodeVerdict (henc : prepared.array.encoding = .numCode)
    (hrepr : prepared.repr = .direct) {column : Nat}
    {row : Nat} {keep : Bool}
    (h : numcodeVerdict prepared.array op literal row = .ok (some keep)) :
    rowVerdict (.numeric column op literal) prepared row = .ok (some keep) := by
  unfold numcodeVerdict at h
  obtain ⟨isNull, hnull, h⟩ := bind_eq_ok.mp h
  unfold rowVerdict
  dsimp only
  rw [decodeRow_numCode henc hrepr (Fault.lift_eq_ok.mp hnull)]
  cases isNull with
  | true => exact h
  | false =>
    obtain ⟨code, hcode, h⟩ := bind_eq_ok.mp h
    rw [hcode]
    show Fault.lift (compareNumericValue (.numCode code) op literal) = _
    rw [compareNumericValue_numCode]
    split at h
    · next value hvalue => rw [hvalue]; exact h
    · cases h
    · cases h

/-- A fast kernel that answers has narrowed the selection by the verdicts of the row loop, one
that does not has left it alone. -/
def AgreesWithRows (predicate : CovePredicate) (prepared : PreparedEncodedArray) (masks : Masks)
    (outcome : Except Fault (Option Unit) × Masks) : Prop :=
  (outcome.1 = .ok (some ()) → (applyRows predicate prepared masks).1 = .ok true ∧
    SameBits outcome.2.selected (applyRows predicate prepared masks).2.selected) ∧
  (outcome.1 ≠ .ok (some ()) → outcome.2.selected = masks.selected)

theorem agreesWithRows_of_narrowed {m' : SelectionMask}
    (h : Narrowed (rowVerdict predicate prepared) masks.selected.rows masks.selected m') :
    AgreesWithRows predicate prepared masks (.ok (some ()), ⟨m', scratch⟩) := by
  obtain ⟨m'', hloop, hsame⟩ := clearLoop_of_narrowed h
  refine ⟨fun _ => ?_, fun hne => absurd rfl hne⟩
  unfold applyRows
  rw [hloop]
  exact ⟨rfl, hsame⟩

theorem agreesWithRows_of_unchanged {outcome : Except Fault (Option Unit)}
    (hne : outcome ≠ .ok (some ())) (h : masks'.selected = masks.selected) :
    AgreesWithRows predicate prepared masks (outcome, masks') :=
  ⟨fun heq => absurd heq hne, fun _ => h⟩

variable (prepared) in
/-- The mask of the NumCode kernel, when it answers. -/
theorem tryApplyNumcode_cases (predicate : CovePredicate) (masks : Masks)
    (hrepr : prepared.array.encoding = .numCode → prepared.repr = .direct) :
    (∃ m', tryApplyNumcodePredicateToSelection predicate prepared.array masks =
        (.ok (some ()), ⟨m', masks.selected⟩) ∧
      Narrowed (rowVerdict predicate prepared) masks.selected.rows masks.selected m') ∨
    ∃ outcome masks', tryApplyNumcodePredicateToSelection predicate prepared.array masks =
      (outcome, masks') ∧ outcome ≠ .ok (some ()) ∧ masks'.selected = masks.selected := by
  unfold tryApplyNumcodePredicateToSelection
  split
  · next column op literal =>
    by_cases henc : prepared.array.encoding ≠ .numCode ∨ prepared.array.physical ≠ .numCode
    · rw [if_pos henc]
      exact .inr ⟨_, _, rfl, nofun, rfl⟩
    · rw [if_neg henc]
      push Not at henc
      split
      · exact .inr ⟨_, _, rfl, nofun, rfl⟩
      · exact .inr ⟨_, _, rfl, nofun, rfl⟩
      · next scratch hloop =>
        obtain ⟨visited, rest, hrows, hrest, hnarrowed⟩ :=
          clearLoop_narrowed (fun row hrow => (SelectionMask.mem_rows.mp hrow).1) hloop
        rw [hrest rfl, List.append_nil] at hrows
        rw [← hrows] at hnarrowed
        exact .inl ⟨scratch, rfl, hnarrowed.congr fun row _ keep hv =>
          rowVerdict_of_numcodeVerdict henc.1 (hrepr henc.1) hv⟩
  · exact .inr ⟨_, _, rfl, nofun, rfl⟩

/-! ### The raw walk -/

theorem readVarBytesRow_of_raw {data value : List UInt8} {stop : Nat}
    (h : rawVarBytes data offset = .ok (value, stop)) :
    readVarBytesRow data offset = .ok (value, stop) := by
  obtain ⟨headerEnd, hheader, h⟩ := bind_eq_ok.mp h
  obtain ⟨hheaderEnd, h⟩ := ite_error_eq_ok.mp h
  obtain ⟨end', hend, h⟩ := bind_eq_ok.mp h
  obtain ⟨hstop, h⟩ := ite_error_eq_ok.mp h
  obtain ⟨rfl, rfl⟩ := Prod.mk.inj (Except.ok.inj h)
  have hlen : readU32Le data offset = .ok (LittleEndian.ofLe ((data.drop offset).take 4)) := by
    unfold readU32Le readRangeChecked
    rw [hheader, ok_bind, if_neg hheaderEnd, ok_bind]
  have hslice : readRangeChecked data headerEnd (LittleEndian.ofLe ((data.drop offset).take 4)) =
      .ok ((data.drop headerEnd).take (LittleEndian.ofLe ((data.drop offset).take 4))) := by
    unfold readRangeChecked
    rw [hend, ok_bind, if_neg hstop]
  unfold readVarBytesRow
  refine Fault.lift_eq_ok.mpr ?_
  rw [hlen, ok_bind, hheader, ok_bind, hslice, ok_bind, hend, ok_bind]

theorem isNull_of_isNonNull {row : Nat}
    (hrow : row < array.rowCount) (h : isNonNull array row = .ok nonNull) :
    array.isNull row = .ok (!nonNull) := by
  unfold isNonNull at h
  split at h
  · next hnone =>
    obtain rfl := Except.ok.inj h
    unfold EncodedArray.isNull
    rw [if_neg (Nat.not_le.mpr hrow), Option.isNone_iff_eq_none.mp hnone]
    rfl
  · cases hnull : array.isNull row with
    | error e => rw [hnull] at h; cases h
    | ok isNull =>
      rw [hnull] at h
      rw [← Except.ok.inj h, Bool.not_not]

/-- A row of a page that keeps where its rows of bytes start. -/
theorem decodeRow_varBytes
    (hrepr : prepared.repr = .variableOffsets .varBytes offsets) {row next : Nat}
    {value : List UInt8} (hplace : offsets[row]? = some offset)
    (hread : readVarBytesRow prepared.array.data offset = .ok (value, next))
    (hnull : prepared.array.isNull row = .ok false) :
    prepared.decodeRow row = .ok (.bytes value) := by
  have hget : getRow offsets row = .ok offset := by rw [getRow, hplace]
  unfold PreparedEncodedArray.decodeRow EncodedArray.finishRow
  rw [if_neg (Nat.not_le.mpr (lt_of_isNull hnull)), hrepr]
  dsimp only
  rw [hnull, hget]
  exact (varBytesReader prepared.array.data).single_eq _ _ _ hread

theorem rowVerdict_varBytes
    (hrepr : prepared.repr = .variableOffsets .varBytes offsets) (column : Nat)
    (literal : List UInt8) {row next : Nat} {value : List UInt8} (hrow : row < prepared.array.rowCount)
    (hplace : offsets[row]? = some offset)
    (hread : readVarBytesRow prepared.array.data offset = .ok (value, next))
    (hnull : isNonNull prepared.array row = .ok nonNull) :
    rowVerdict (.varBytesEq column literal) prepared row =
      .ok (some (nonNull && value == literal)) := by
  have hnull := isNull_of_isNonNull hrow hnull
  unfold rowVerdict
  dsimp only
  cases nonNull with
  | false => rw [hnull]; rfl
  | true =>
    rw [decodeRow_varBytes hrepr hplace hread hnull, hnull]
    rfl

/-- **The walk narrows by the verdicts of the row loop**: it reads every row where the prepared
page has taken it down. -/
theorem varbytesLoop_narrowed
    (hrepr : prepared.repr = .variableOffsets .varBytes offsets) (column : Nat)
    {literal : List UInt8} {scratch' : SelectionMask} {allSelected : Bool}
    {remaining row stop : Nat}
    (hplaces : Scan.places (skipVarBytesRow prepared.array.data) remaining offset =
      .ok (offsets.drop row))
    (hrows : row + remaining = prepared.array.rowCount)
    (hlen : scratch.len = prepared.array.rowCount)
    (h : varbytesLoop prepared.array literal selected allSelected remaining row offset scratch =
      (.ok stop, scratch')) :
    Narrowed (rowVerdict (.varBytesEq column literal) prepared)
      ((List.range' row remaining).filter fun r => allSelected || selected.get r)
      scratch scratch' := by
  induction remaining generalizing row offset scratch with
  | zero =>
    obtain ⟨-, rfl⟩ := Prod.mk.inj h
    exact .nil
  | succ remaining ih =>
    unfold varbytesLoop at h
    split at h
    · cases (Prod.mk.inj h).1
    · next value next hraw =>
      have hread := readVarBytesRow_of_raw hraw
      have hskip := (varBytesReader prepared.array.data).skip_eq _ _ _ hread
      -- the place of the row, and the places of those after it
      obtain ⟨next', hskip', hplaces⟩ := bind_eq_ok.mp hplaces
      obtain rfl := Except.ok.inj (hskip.symm.trans hskip')
      obtain ⟨rest, hrest, hplaces⟩ := bind_eq_ok.mp hplaces
      have hdrop := Except.ok.inj hplaces
      have hplace : offsets[row]? = some offset := by
        rw [← List.head?_drop, ← hdrop, List.head?_cons]
      have hrest' : rest = offsets.drop (row + 1) := by
        rw [← List.tail_drop, ← hdrop, List.tail_cons]
      rw [hrest'] at hrest
      have hrow : row < prepared.array.rowCount := by omega
      rw [List.range'_succ]
      by_cases hselected : (allSelected || selected.get row) = true
      · rw [if_pos hselected] at h
        rw [List.filter_cons_of_pos (p := fun r => allSelected || selected.get r) hselected]
        split at h
        · cases (Prod.mk.inj h).1
        · next nonNull hnull =>
          have hv := rowVerdict_varBytes hrepr column literal hrow hplace hread hnull
          by_cases hkeep : (nonNull && value == literal) = true
          · rw [if_pos hkeep] at h
            rw [hkeep] at hv
            exact .keep hv (ih hrest (by omega) hlen h)
          · rw [if_neg hkeep] at h
            rw [Bool.eq_false_iff.mpr hkeep] at hv
            exact .drop (by omega) hv (ih hrest (by omega) hlen h)
      · rw [if_neg hselected] at h
        rw [List.filter_cons_of_neg (p := fun r => allSelected || selected.get r) hselected]
        exact ih hrest (by omega) hlen h

variable (prepared) in
/-- The mask of the walk, when the kernel answers. -/
theorem tryApplyVarbytesEq_cases (predicate : CovePredicate) (masks : Masks)
    (hrepr : prepared.array.encoding = .varBytes → ∃ offsets,
      prepared.repr = .variableOffsets .varBytes offsets ∧
      Scan.places (skipVarBytesRow prepared.array.data) prepared.array.rowCount 0 = .ok offsets) :
    (∃ m', tryApplyVarbytesEqPredicateToSelection predicate prepared.array masks =
        (.ok (some ()), ⟨m', masks.selected⟩) ∧
      Narrowed (rowVerdict predicate prepared) masks.selected.rows masks.selected m') ∨
    ∃ outcome masks', tryApplyVarbytesEqPredicateToSelection predicate prepared.array masks =
      (outcome, masks') ∧ outcome ≠ .ok (some ()) ∧ masks'.selected = masks.selected := by
  unfold tryApplyVarbytesEqPredicateToSelection
  split
  · next column literal =>
    by_cases henc : prepared.array.encoding ≠ .varBytes ∨ prepared.array.physical ≠ .varBytes
    · rw [if_pos henc]
      exact .inr ⟨_, _, rfl, nofun, rfl⟩
    rw [if_neg henc]
    push Not at henc
    by_cases hlen : masks.selected.len ≠ prepared.array.rowCount
    · rw [if_pos hlen]
      exact .inr ⟨_, _, rfl, nofun, rfl⟩
    rw [if_neg hlen]
    push Not at hlen
    dsimp only
    split
    · exact .inr ⟨_, _, rfl, nofun, rfl⟩
    · next offset scratch hloop =>
      by_cases hend : offset ≠ prepared.array.data.length
      · rw [if_pos hend]
        exact .inr ⟨_, _, rfl, nofun, rfl⟩
      rw [if_neg hend]
      obtain ⟨offsets, hrepr, hplaces⟩ := hrepr henc.1
      have hnarrowed := varbytesLoop_narrowed hrepr column
        (by rw [List.drop_zero]; exact hplaces) (Nat.zero_add _) hlen hloop
      -- when all rows count as selected, those that are not have no bit to lose
      refine .inl ⟨scratch, rfl, hnarrowed.selectedOnly (fun row hrow => ?_) fun row hrow => ?_⟩
      · have hrange := List.mem_range'_1.mp (List.mem_filter.mp hrow).1
        omega
      · obtain ⟨hlt, hget⟩ := SelectionMask.mem_rows.mp hrow
        refine List.mem_filter.mpr ⟨List.mem_range'_1.mpr ⟨Nat.zero_le _, by omega⟩, ?_⟩
        rw [hget, Bool.or_true]
  · exact .inr ⟨_, _, rfl, nofun, rfl⟩

end Kernels

/-! ## Soundness of the whole operation -/

/-- How an operation narrows a selection: no row is added, those that are gone fail the test, and
those that are left after a full run pass it. -/
structure NarrowsSoundly (test : ValueTest) (prepared : PreparedEncodedArray)
    (selected : SelectionMask) (outcome : Except Fault Bool × Masks) : Prop where
  subset : ∀ row ∈ outcome.2.selected.rows, row ∈ selected.rows
  gone : ∀ row ∈ selected.rows, row ∉ outcome.2.selected.rows → RowFails test prepared row
  kept : outcome.1 = .ok true → ∀ row ∈ outcome.2.selected.rows, RowHolds test prepared row

section Soundness

variable {test : ValueTest} {prepared : PreparedEncodedArray} {column row : Nat}

theorem bytesVerdict_eq_some {literal : List UInt8} {keep : Bool}
    (h : bytesVerdict literal value = some keep) : keep = true ↔ Holds (.bytesEq literal) value := by
  cases value <;> simp_all [bytesVerdict, Holds] <;> simp [← h]

/-- **A verdict says of a row what the test says of its value.** -/
theorem rowVerdict_sound {keep : Bool}
    (h : rowVerdict (test.predicate column) prepared row = .ok (some keep)) :
    if keep then RowHolds test prepared row else RowFails test prepared row := by
  cases test with
  | numeric op literal =>
    obtain ⟨value, hvalue, h⟩ := bind_eq_ok.mp h
    have hholds := compareNumericValue_eq_some (Fault.lift_eq_ok.mp h)
    cases keep with
    | true => exact ⟨value, hvalue, hholds.mp rfl⟩
    | false => exact .inr ⟨value, hvalue, fun hpass => Bool.false_ne_true (hholds.mpr hpass)⟩
  | bytesEq literal =>
    obtain ⟨isNull, hnull, h⟩ := bind_eq_ok.mp h
    cases isNull with
    | true =>
      obtain rfl := Option.some.inj (Except.ok.inj h)
      exact .inl (Fault.lift_eq_ok.mp hnull)
    | false =>
      obtain ⟨value, hvalue, h⟩ := bind_eq_ok.mp h
      have hholds := bytesVerdict_eq_some (Except.ok.inj h)
      cases keep with
      | true => exact ⟨value, hvalue, hholds.mp rfl⟩
      | false => exact .inr ⟨value, hvalue, fun hpass => Bool.false_ne_true (hholds.mpr hpass)⟩

/-- An operation that leaves the selection alone. -/
theorem NarrowsSoundly.unchanged {fault : Fault} (h : masks'.selected = selected) :
    NarrowsSoundly test prepared selected (.error fault, masks') where
  subset row hrow := by rwa [← h]
  gone row hrow hnot := absurd (by rwa [h]) hnot
  kept := nofun

/-- What a narrowed mask says of its rows. -/
theorem NarrowsSoundly.of_narrowed {visited rest : List Nat}
    {outcome : Except Fault Bool} (hrows : selected.rows = visited ++ rest)
    (hall : outcome = .ok true → rest = [])
    (h : Narrowed (rowVerdict (test.predicate column) prepared) visited selected masks'.selected) :
    NarrowsSoundly test prepared selected (outcome, masks') where
  subset row hrow := by
    obtain ⟨hlt, hget⟩ := SelectionMask.mem_rows.mp hrow
    exact SelectionMask.mem_rows.mpr ⟨h.len ▸ hlt, h.of_get hget⟩
  gone row hrow hnot := by
    obtain ⟨hlt, hget⟩ := SelectionMask.mem_rows.mp hrow
    have hgone : masks'.selected.get row = false := by
      by_contra hget'
      exact hnot (SelectionMask.mem_rows.mpr ⟨h.len.symm ▸ hlt, eq_true_of_ne_false hget'⟩)
    exact rowVerdict_sound (h.dropped hget hgone)
  kept htrue row hrow := by
    obtain ⟨hlt, hget⟩ := SelectionMask.mem_rows.mp hrow
    obtain ⟨hget, himp⟩ := (h.get row).mp hget
    have hmem : row ∈ selected.rows := SelectionMask.mem_rows.mpr ⟨h.len ▸ hlt, hget⟩
    rw [hrows, hall htrue, List.append_nil] at hmem
    exact rowVerdict_sound (himp hmem)

theorem applyRows_sound (masks : Masks) : NarrowsSoundly test prepared masks.selected
    (applyRows (test.predicate column) prepared masks) := by
  have hrows : ∀ row ∈ masks.selected.rows, row < masks.selected.len :=
    fun row hrow => (SelectionMask.mem_rows.mp hrow).1
  have hloop : clearLoop (rowVerdict (test.predicate column) prepared) masks.selected.rows
      masks.selected = _ := rfl
  obtain ⟨visited, rest, hvisited, hall, hnarrowed⟩ := clearLoop_narrowed hrows hloop
  exact .of_narrowed hvisited hall hnarrowed

variable {masks : Masks}

/-- The fast kernels come first, and the row loop only sees a selection they left alone. -/
theorem applyPredicate_sound
    (hnumcode : prepared.array.encoding = .numCode → prepared.repr = .direct)
    (hbytes : prepared.array.encoding = .varBytes → ∃ offsets,
      prepared.repr = .variableOffsets .varBytes offsets ∧
      Scan.places (skipVarBytesRow prepared.array.data) prepared.array.rowCount 0 = .ok offsets) :
    NarrowsSoundly test prepared masks.selected
      (applyPredicateToSelection (test.predicate column) prepared masks) := by
  unfold applyPredicateToSelection
  have hfull : masks.selected.rows = masks.selected.rows ++ [] := (List.append_nil _).symm
  obtain ⟨m', heq, hnarrowed⟩ | ⟨outcome, masks', heq, hne, hsame⟩ :=
    tryApplyNumcode_cases prepared (test.predicate column) masks hnumcode
  · rw [heq]
    exact .of_narrowed hfull (fun _ => rfl) hnarrowed
  rw [heq]
  match outcome, hne with
  | .error fault, _ => exact .unchanged hsame
  | .ok (some ()), hne => exact absurd rfl hne
  | .ok none, _ =>
    dsimp only
    rw [← hsame]
    obtain ⟨m', heq, hnarrowed⟩ | ⟨outcome, masks'', heq, hne, hsame'⟩ :=
      tryApplyVarbytesEq_cases prepared (test.predicate column) masks' hbytes
    · rw [heq]
      exact .of_narrowed (List.append_nil _).symm (fun _ => rfl) hnarrowed
    rw [heq]
    match outcome, hne with
    | .error fault, _ => exact .unchanged hsame'
    | .ok (some ()), hne => exact absurd rfl hne
    | .ok none, _ =>
      dsimp only
      rw [← hsame']
      exact applyRows_sound masks''

theorem tryApplyPredicate_sound (h : NarrowsSoundly test prepared masks.selected
      (applyPredicateToSelection (test.predicate column) prepared masks)) :
    NarrowsSoundly test prepared masks.selected
      (tryApplyPredicateToSelection (test.predicate column) prepared masks) := by
  unfold tryApplyPredicateToSelection
  split
  · next masks' heq =>
    rw [heq] at h
    exact ⟨h.subset, h.gone, nofun⟩
  · exact h

end Soundness

/-- What the rows of a page are read from, for the encodings of the fast kernels. -/
theorem repr_of_prepareRepr {repr : PreparedArrayRepr} (h : array.prepareRepr = .ok repr) :
    (array.encoding = .numCode → repr = .direct) ∧
    (array.encoding = .varBytes → ∃ offsets, repr = .variableOffsets .varBytes offsets ∧
      Scan.places (skipVarBytesRow array.data) array.rowCount 0 = .ok offsets) := by
  unfold EncodedArray.prepareRepr at h
  constructor <;> intro henc <;> rw [henc] at h
  · exact (Except.ok.inj h).symm
  · obtain ⟨expected, hexpected, h⟩ := bind_eq_ok.mp h
    obtain rfl := expectedRowCount_eq_ok hexpected
    obtain ⟨offsets, hoffsets, h⟩ := bind_eq_ok.mp h
    exact ⟨offsets, (Except.ok.inj h).symm, hoffsets⟩

/-- **A fast kernel that answers selects as the row loop does, one that does not leaves the
selection alone, and whatever the whole operation returns, the rows that are gone fail the test.** -/
theorem selection_kernels_sound (test : ValueTest) (column : Nat) {array : EncodedArray}
    {prepared : PreparedEncodedArray} (hprepare : array.prepare = .ok prepared) (masks : Masks) :
    AgreesWithRows (test.predicate column) prepared masks
      (tryApplyNumcodePredicateToSelection (test.predicate column) array masks) ∧
    AgreesWithRows (test.predicate column) prepared masks
      (tryApplyVarbytesEqPredicateToSelection (test.predicate column) array masks) ∧
    NarrowsSoundly test prepared masks.selected
      (applyPredicateToSelection (test.predicate column) prepared masks) ∧
    NarrowsSoundly test prepared masks.selected
      (tryApplyPredicateToSelection (test.predicate column) prepared masks) := by
  obtain ⟨repr, hrepr, h⟩ := bind_eq_ok.mp hprepare
  obtain rfl := Except.ok.inj h
  obtain ⟨hnumcode, hbytes⟩ := repr_of_prepareRepr hrepr
  have hwhole : NarrowsSoundly test ⟨array, repr⟩ masks.selected
      (applyPredicateToSelection (test.predicate column) ⟨array, repr⟩ masks) :=
    applyPredicate_sound hnumcode hbytes
  refine ⟨?_, ?_, hwhole, tryApplyPredicate_sound hwhole⟩
  · obtain ⟨m', heq, hnarrowed⟩ | ⟨outcome, masks', heq, hne, hsame⟩ :=
      tryApplyNumcode_cases ⟨array, repr⟩ (test.predicate column) masks hnumcode
    · exact heq ▸ agreesWithRows_of_narrowed hnarrowed
    · exact heq ▸ agreesWithRows_of_unchanged hne hsame
  · obtain ⟨m', heq, hnarrowed⟩ | ⟨outcome, masks', heq, hne, hsame⟩ :=
      tryApplyVarbytesEq_cases ⟨array, repr⟩ (test.predicate column) masks hbytes
    · exact heq ▸ agreesWithRows_of_narrowed hnarrowed
    · exact heq ▸ agreesWithRows_of_unchanged hne hsame

/-- A page of bytes with a null row between `a` and `b`. -/
def bytesPage : EncodedArray where
  logical := .utf8
  physical := .varBytes
  rowCount := 3
  encoding := .varBytes
  validity := some ⟨[2], 3⟩
  data := [1, 0, 0, 0, 97, 0, 0, 0, 0, 1, 0, 0, 0, 98]
  dictionary := none

/-- All rows of that page selected, and those that hold an `a` wanted. -/
theorem bytesPage_selection_sound :
    let masks : Masks := ⟨.fillAll 3, .fillNone 0⟩
    ∃ prepared, bytesPage.prepare = .ok prepared ∧
      AgreesWithRows (.varBytesEq 0 [97]) prepared masks
        (tryApplyNumcodePredicateToSelection (.varBytesEq 0 [97]) bytesPage masks) ∧
      AgreesWithRows (.varBytesEq 0 [97]) prepared masks
        (tryApplyVarbytesEqPredicateToSelection (.varBytesEq 0 [97]) bytesPage masks) ∧
      NarrowsSoundly (.bytesEq [97]) prepared masks.selected
        (applyPredicateToSelection (.varBytesEq 0 [97]) prepared masks) ∧
      NarrowsSoundly (.bytesEq [97]) prepared masks.selected
        (tryApplyPredicateToSelection (.varBytesEq 0 [97]) prepared masks) :=
  ⟨_, rfl, selection_kernels_sound (.bytesEq [97]) 0 rfl _⟩

/-- The null row and the `b` are dropped. -/
example : (tryApplyVarbytesEqPredicateToSelection (.varBytesEq 0 [97]) bytesPage
    ⟨.fillAll 3, .fillNone 0⟩).2.selected.rows = [0] := by decide +kernel

end PageArray

end Cove
