import Cove.DataFusion.Plan
import Cove.DataFusion.Selection

/-!
# Row predicates over a page

Evaluating a predicate on the selected rows of a page: a kernel over raw NumCodes, a
kernel over variable-length bytes, and a loop over decoded rows for the rest.

- `PreparedEncodedArray.decodeRow`: a page prepared for row access.
- `applyPredicateToSelection`: the kernels in order.
- `rowVerdict`: the verdict of the row loop.
- `applyPredicate_selects`, `exists_applyPredicate`: **whatever kernel runs, it selects by
  the verdict of the row loop**, and it runs through when every row has one.
-/

namespace Cove

/-! ## Raw codes and decoded rows -/

/-- `raw_file_code_at`. -/
def rawFileCodeAt (array : EncodedArray) (row : Nat) : Except CoveError (Option Nat) :=
  if array.encoding ≠ .fileCode then .ok none
  else do
    let offset ← checkedMul row 4
    let bytes ← readRangeChecked array.data offset 4
    .ok (some (LittleEndian.ofLe bytes))

/-- `raw_numcode_at`. -/
def rawNumcodeAt (array : EncodedArray) (row : Nat) : Except CoveError (BitVec 64) := do
  let offset ← checkedMul row 8
  let bytes ← readRangeChecked array.data offset 8
  .ok (wordOfBytes bytes)

/-- A page prepared for row access. `values` stands for what the rows of the encodings
other than raw codes decode to; decoding consults the null bitmap first. -/
structure PreparedEncodedArray where
  array : EncodedArray
  values : List (Except CoveError CoveArrayValue)
  values_null : ∀ row value, values[row]? = some (.ok value) →
    array.isNull row = .ok false ∨ (array.isNull row = .ok true ∧ value = .null)

/-- `PreparedEncodedArray::decode_row`. -/
def PreparedEncodedArray.decodeRow (self : PreparedEncodedArray) (row : Nat) :
    Except CoveError CoveArrayValue :=
  if row ≥ self.array.rowCount then .error .offsetRange
  else
    match self.array.encoding with
    | .fileCode => do
      if ← self.array.isNull row then .ok .null
      else
        let offset ← checkedMul row 4
        let bytes ← readRangeChecked self.array.data offset 4
        let code := LittleEndian.ofLe bytes
        match self.array.dictionary with
        | some dict => do
          let value ← dict.decodeValue code
          .ok (.dictValue value)
        | none => .ok (.fileCode code)
    | .numCode => do
      if ← self.array.isNull row then .ok .null
      else
        let code ← rawNumcodeAt self.array row
        .ok (.numCode code)
    | _ =>
      match self.values[row]? with
      | some value => value
      | none => .error .offsetRange

/-- A decoded row has a null bit, and a null row decodes to nothing else. -/
theorem PreparedEncodedArray.isNull_of_decodeRow {self : PreparedEncodedArray} {row : Nat}
    {value : CoveArrayValue} (h : self.decodeRow row = .ok value) :
    self.array.isNull row = .ok false ∨ (self.array.isNull row = .ok true ∧ value = .null) := by
  unfold decodeRow at h
  split at h
  · cases h
  split at h
  case h_3 =>
    split at h
    · next hvalue =>
      subst h
      exact self.values_null row value hvalue
    · cases h
  all_goals
    obtain ⟨isNull, hnull, h⟩ := Checked.bind_eq_ok.mp h
    cases isNull with
    | true => exact .inr ⟨hnull, (Except.ok.inj h).symm⟩
    | false => exact .inl hnull

/-! ## The kernels -/

/-- The verdict of the row loop. -/
def rowVerdict (predicate : CovePredicate) (prepared : PreparedEncodedArray) : RowVerdict :=
  fun row =>
    match predicate with
    | .null _ kind => do
      let isNull ← prepared.array.isNull row
      match kind with
      | .isNull => .ok (some isNull)
      | .isNotNull => .ok (some !isNull)
    | .numeric _ op literal => do
      let value ← prepared.decodeRow row
      compareNumericValue value op literal
    | .fileCodeIn _ fileCodes _ => do
      if ← prepared.array.isNull row then .ok (some false)
      else
        let code ← match ← rawFileCodeAt prepared.array row with
          | some code => .ok (some code)
          | none => do
            match ← prepared.decodeRow row with
            | .fileCode code => .ok (some code)
            | _ => .ok none
        match code with
        | some code => .ok (some (fileCodes.contains code))
        | none => .ok none
    | .varBytesEq _ literal => do
      if ← prepared.array.isNull row then .ok (some false)
      else
        match ← prepared.decodeRow row with
        | .bytes bytes => .ok (some (bytes == literal))
        | .ownedBytes bytes => .ok (some (bytes == literal))
        | _ => .ok none

/-- The verdict of the NumCode kernel. -/
def numcodeVerdict (array : EncodedArray) (op : NumericPredicateOp)
    (literal : PredicateLiteral) : RowVerdict := fun row => do
  if ← array.isNull row then .ok (some false)
  else
    let code ← rawNumcodeAt array row
    match compareNumcodeValue code op literal with
    | .ok value => .ok (some value)
    | .error (.unsupportedEncoding _) => .ok none
    | .error error => .error error

/-- `try_apply_numcode_predicate_to_selection`. -/
def tryApplyNumcodePredicateToSelection (predicate : CovePredicate) (array : EncodedArray)
    (selected : SelectionMask) : Except CoveError (Option SelectionMask) :=
  match predicate with
  | .numeric _ op literal =>
    if array.encoding ≠ .numCode ∨ array.physical ≠ .numCode then .ok none
    else applyLoop (numcodeVerdict array op literal) selected.rows selected
  | _ => .ok none

/-- The row loop of the variable-length kernel, from `row` with `remaining` rows to go. -/
def varbytesLoop (array : EncodedArray) (literal : List UInt8) (selected : SelectionMask)
    (allSelected : Bool) :
    Nat → Nat → Nat → SelectionMask → Except CoveError (Nat × SelectionMask)
  | 0, _, offset, scratch => .ok (offset, scratch)
  | remaining + 1, row, offset, scratch => do
    let headerEnd ← checkedAdd offset 4
    if headerEnd > array.data.length then .error .offsetRange
    else
      let len := LittleEndian.ofLe ((array.data.drop offset).take 4)
      let stop ← checkedAdd headerEnd len
      if stop > array.data.length then .error .offsetRange
      else
        let value := (array.data.drop headerEnd).take len
        if allSelected || selected.get row then
          let isNonNull ← if array.validity.isNone then .ok true
            else (array.isNull row).map fun isNull => !isNull
          if isNonNull && value == literal then
            varbytesLoop array literal selected allSelected remaining (row + 1) stop scratch
          else
            varbytesLoop array literal selected allSelected remaining (row + 1) stop
              (scratch.clearBit row)
        else varbytesLoop array literal selected allSelected remaining (row + 1) stop scratch

/-- `try_apply_varbytes_eq_predicate_to_selection`. -/
def tryApplyVarbytesEqPredicateToSelection (predicate : CovePredicate)
    (array : EncodedArray) (selected : SelectionMask) :
    Except CoveError (Option SelectionMask) :=
  match predicate with
  | .varBytesEq _ literal =>
    if array.encoding ≠ .varBytes ∨ array.physical ≠ .varBytes then .ok none
    else if selected.len ≠ array.rowCount then
      .error (.badSection ("selection length " ++ toString selected.len ++
        " does not match VarBytes row count " ++ toString array.rowCount))
    else do
      let allSelected := selected.countOnes == array.rowCount
      let (offset, scratch) ←
        varbytesLoop array literal selected allSelected array.rowCount 0 0 selected
      if offset ≠ array.data.length then .error .pageCorrupt else .ok (some scratch)
  | _ => .ok none

/-- `apply_predicate_to_selection`: the new selection, or none when the predicate cannot
be evaluated on the page. -/
def applyPredicateToSelection (predicate : CovePredicate) (prepared : PreparedEncodedArray)
    (selected : SelectionMask) : Except CoveError (Option SelectionMask) := do
  match ← tryApplyNumcodePredicateToSelection predicate prepared.array selected with
  | some m => .ok (some m)
  | none =>
    match ← tryApplyVarbytesEqPredicateToSelection predicate prepared.array selected with
    | some m => .ok (some m)
    | none => applyLoop (rowVerdict predicate prepared) selected.rows selected

/-! ## One verdict for all kernels -/

variable {prepared : PreparedEncodedArray}

/-- On raw NumCodes the kernel and the row loop reach the same verdicts. -/
theorem numcodeVerdict_eq_some_iff
    (henc : prepared.array.encoding = .numCode) {column : Nat} {op : NumericPredicateOp}
    {literal : PredicateLiteral} {row : Nat} {b : Bool} :
    numcodeVerdict prepared.array op literal row = .ok (some b) ↔
      rowVerdict (.numeric column op literal) prepared row = .ok (some b) := by
  unfold numcodeVerdict rowVerdict PreparedEncodedArray.decodeRow
  simp only [henc]
  by_cases hrow : row ≥ prepared.array.rowCount
  · simp [hrow, EncodedArray.isNull, bind, Except.bind]
  rw [if_neg hrow]
  cases hnull : prepared.array.isNull row with
  | error e => simp [bind, Except.bind]
  | ok isNull =>
    cases isNull with
    | true => simp [bind, Except.bind, compareNumericValue]
    | false =>
      cases hcode : rawNumcodeAt prepared.array row with
      | error e => simp [bind, Except.bind]
      | ok code =>
        simp only [bind, Except.bind, Bool.false_eq_true, if_false,
          compareNumericValue_numCode]
        cases compareNumcodeValue code op literal with
        | ok value => simp [Except.map]
        | error e => cases e <;> simp [Except.map]

variable {predicate : CovePredicate} {m : SelectionMask}

/-- **Whatever kernel runs, it selects by the verdict of the row loop.** -/
theorem applyPredicate_selects
    (hbytes : ∀ c literal, predicate ≠ .varBytesEq c literal) {m' : SelectionMask}
    (h : applyPredicateToSelection predicate prepared m = .ok (some m')) :
    Selects (rowVerdict predicate prepared) m m' := by
  unfold applyPredicateToSelection at h
  obtain ⟨o, hkernel, h⟩ := Checked.bind_eq_ok.mp h
  cases o with
  | some m₁ =>
    obtain rfl := Option.some.inj (Except.ok.inj h)
    unfold tryApplyNumcodePredicateToSelection at hkernel
    split at hkernel
    · split at hkernel
      · cases hkernel
      · next henc =>
        push Not at henc
        exact (Selects.of_applyLoop hkernel).congr fun _ _ => numcodeVerdict_eq_some_iff henc.1
    · cases hkernel
  | none =>
    have hloop : applyLoop (rowVerdict predicate prepared) m.rows m = .ok (some m') := by
      cases predicate with
      | varBytesEq c literal => exact absurd rfl (hbytes c literal)
      | _ => exact h
    exact .of_applyLoop hloop

/-- **It runs through when every selected row has a verdict.** -/
theorem exists_applyPredicate (hbytes : ∀ c literal, predicate ≠ .varBytesEq c literal)
    (h : ∀ row ∈ m.rows, ∃ b, rowVerdict predicate prepared row = .ok (some b)) :
    ∃ m', applyPredicateToSelection predicate prepared m = .ok (some m') := by
  have hloop := (@exists_applyLoop_iff _ _ m).mpr h
  unfold applyPredicateToSelection
  cases predicate with
  | varBytesEq c literal => exact absurd rfl (hbytes c literal)
  | numeric c op literal =>
    by_cases henc : prepared.array.encoding ≠ .numCode ∨ prepared.array.physical ≠ .numCode
    · simp only [tryApplyNumcodePredicateToSelection, if_pos henc]
      exact hloop
    · simp only [tryApplyNumcodePredicateToSelection, if_neg henc]
      push Not at henc
      obtain ⟨m', hm'⟩ := (@exists_applyLoop_iff _ _ m).mpr fun row hrow => by
        obtain ⟨b, hb⟩ := h row hrow
        exact ⟨b, (numcodeVerdict_eq_some_iff henc.1).mpr hb⟩
      exact ⟨m', by rw [hm']; rfl⟩
  | null c kind => exact hloop
  | fileCodeIn c fileCodes canonicalValues => exact hloop

end Cove
