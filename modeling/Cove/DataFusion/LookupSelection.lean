import Cove.DataFusion.RowPredicates

/-!
# Selecting rows through a lookup index

Equality and membership filters can be answered from a lookup index instead of the page:
the rows listed under the filter's keys are marked, and the scan skips the filters the
index covers.

- `lookupSelectionForMorsel`, `predicateIsIndexCovered`.
- `CompleteIndex`: the index lists every non-null row of the morsel under its code.
- `lookupLoop_spec`: the index selection keeps the rows whose code is among the keys.
- `applyFilters_spec`: the scan keeps the rows every filter accepts.
- `indexedSelection_eq_scan_iff`: **both select the same rows exactly when every row the
  filters accept has, under each float literal, the code that literal looks up**.
-/

namespace Cove

open Ieee754

/-! ## The index path -/

/-- The column, key kind and keys a filter looks up. -/
def lookupKeys : Option CovePredicate → Option (Nat × LookupKeyKind × List Nat)
  | some (.fileCodeIn columnIndex fileCodes _) => some (columnIndex, .fileCode, fileCodes.codes)
  | some (.numeric columnIndex .eq literal) =>
    (numericLookupKey literal).map fun key => (columnIndex, .numCode, [key])
  | _ => none

section

variable (state : DatasetState) (segmentId morselId : Nat)

/-- The row references of the morsel among those listed under a key. -/
def markRows : List RowRef → SelectionMask → Option SelectionMask
  | [], mask => some mask
  | row :: rows, mask =>
    if row.tableId ≠ state.table.tableId ∨ row.segmentId ≠ segmentId ∨
        row.morselId ≠ morselId then markRows rows mask
    else if row.rowInMorsel ≥ mask.len then none
    else markRows rows (mask.set row.rowInMorsel)

/-- The rows of all keys of a filter. -/
def markKeys (index : LookupIndex) : List Nat → SelectionMask → Option SelectionMask
  | [], mask => some mask
  | key :: keys, mask =>
    match index.rowsFor key with
    | some rows => (markRows state segmentId morselId rows mask).bind (markKeys index keys)
    | none => markKeys index keys mask

/-- The loop over the filters: whether an index answered one, and the selection so far. -/
def lookupLoop (rowCount : Nat) :
    List FilterPlan → Bool → SelectionMask → Option SelectionMask
  | [], sawLookupFilter, selected => if sawLookupFilter then some selected else none
  | filter :: filters, sawLookupFilter, selected =>
    match lookupKeys filter.predicate with
    | none => lookupLoop rowCount filters sawLookupFilter selected
    | some (columnIndex, keyKind, keys) =>
      match state.table.columns[columnIndex]? with
      | none => none
      | some column =>
        match state.lookupFor column.columnId with
        | none =>
          if sawLookupFilter && keyKind == .fileCode then none
          else lookupLoop rowCount filters sawLookupFilter selected
        | some index =>
          if index.header.keyKind ≠ keyKind then none
          else
            match markKeys state segmentId morselId index keys (.fillNone rowCount) with
            | none => none
            | some mask =>
              let selected := selected.andInplace mask
              if selected.allZero then some selected
              else lookupLoop rowCount filters true selected

/-- `lookup_selection_for_morsel`: the selection, or none for a fallback to the scan. -/
def lookupSelectionForMorsel (rowCount : Nat) (filters : List FilterPlan) :
    Option SelectionMask :=
  lookupLoop state segmentId morselId rowCount filters false (.fillAll rowCount)

/-- `predicate_is_index_covered`. -/
def predicateIsIndexCovered (predicate : CovePredicate) : Bool :=
  match lookupKeys (some predicate) with
  | none => false
  | some (columnIndex, keyKind, _) =>
    ((state.table.columns[columnIndex]?).bind fun column =>
      state.lookupFor column.columnId).any fun index => index.header.keyKind == keyKind

/-! ## The two selections -/

/-- Apply the predicates of the filters, one after the other. -/
def applyFilters (pages : Nat → PreparedEncodedArray) :
    List FilterPlan → SelectionMask → Except CoveError (Option SelectionMask)
  | [], selected => .ok (some selected)
  | filter :: filters, selected =>
    match filter.predicate with
    | none => applyFilters pages filters selected
    | some predicate => do
      match ← applyPredicateToSelection predicate (pages (predicateColumnIndex predicate))
          selected with
      | some selected => applyFilters pages filters selected
      | none => .ok none

/-- Every predicate row by row. -/
def scanSelection (pages : Nat → PreparedEncodedArray) (rowCount : Nat)
    (filters : List FilterPlan) : Except CoveError (Option SelectionMask) :=
  applyFilters pages filters (.fillAll rowCount)

/-- The index first, then the predicates it does not cover. -/
def indexedSelection (pages : Nat → PreparedEncodedArray) (rowCount : Nat)
    (filters : List FilterPlan) : Except CoveError (Option SelectionMask) :=
  match lookupSelectionForMorsel state segmentId morselId rowCount filters with
  | some selected =>
    applyFilters pages
      (filters.filter fun filter =>
        !filter.predicate.any (predicateIsIndexCovered state)) selected
  | none => applyFilters pages filters (.fillAll rowCount)

end

/-! ## The code of a row -/

/-- The code a decoded value carries. -/
def codeOf : CoveArrayValue → Option Nat
  | .fileCode code => some code
  | .numCode code => some code.toNat
  | .varint code => some code.toNat
  | _ => none

/-- The code of a non-null row. -/
def PreparedEncodedArray.codeAt (self : PreparedEncodedArray) (row : Nat) : Option Nat :=
  match self.array.isNull row with
  | .ok false =>
    match rawFileCodeAt self.array row with
    | .ok (some code) => some code
    | _ =>
      match self.decodeRow row with
      | .ok value => codeOf value
      | .error _ => none
  | _ => none

variable {self : PreparedEncodedArray} {value : CoveArrayValue} {literal : PredicateLiteral}
  {filters : List FilterPlan}

variable {code column : Nat} {page : PreparedEncodedArray} {b : Bool} {op : NumericPredicateOp}
  {m' m : SelectionMask}

namespace PreparedEncodedArray

theorem codeAt_of_null {row : Nat}
    (h : self.array.isNull row = .ok true) : self.codeAt row = none := by
  simp [codeAt, h]

theorem codeAt_of_raw {row : Nat} (hnull : self.array.isNull row = .ok false)
    (h : rawFileCodeAt self.array row = .ok (some code)) : self.codeAt row = some code := by
  simp [codeAt, hnull, h]

/-- A page of raw file codes decodes to file codes or dictionary values. -/
theorem decodeRow_fileCode {row : Nat}
    (henc : self.array.encoding = .fileCode) (hnull : self.array.isNull row = .ok false)
    (h : self.decodeRow row = .ok value) :
    (∃ code, value = .fileCode code) ∨ ∃ v, value = .dictValue v := by
  unfold decodeRow at h
  split at h
  · cases h
  simp only [henc] at h
  obtain ⟨isNull, hisNull, h⟩ := Checked.bind_eq_ok.mp h
  obtain rfl : false = isNull := Except.ok.inj (hnull.symm.trans hisNull)
  obtain ⟨offset, -, h⟩ := Checked.bind_eq_ok.mp h
  obtain ⟨bytes, -, h⟩ := Checked.bind_eq_ok.mp h
  split at h
  · obtain ⟨v, -, h⟩ := Checked.bind_eq_ok.mp h
    exact .inr ⟨v, (Except.ok.inj h).symm⟩
  · exact .inl ⟨_, (Except.ok.inj h).symm⟩

theorem codeAt_of_decodeRow {row : Nat} (hnull : self.array.isNull row = .ok false)
    (hraw : ∀ code, rawFileCodeAt self.array row ≠ .ok (some code))
    (h : self.decodeRow row = .ok value) : self.codeAt row = codeOf value := by
  unfold codeAt
  rw [hnull]
  dsimp only
  split
  · next code hcode => exact absurd hcode (hraw code)
  · rw [h]

end PreparedEncodedArray

theorem rawFileCodeAt_encoding {array : EncodedArray} {row : Nat}
    (h : rawFileCodeAt array row = .ok (some code)) : array.encoding = .fileCode := by
  unfold rawFileCodeAt at h
  split at h
  · cases h
  · next henc => exact not_not.mp henc

/-- A membership filter accepts the rows whose code is listed. -/
theorem fileCodeIn_verdict {fileCodes : FileCodes} {canonicalValues : List (List UInt8)} {row : Nat}
    (h : rowVerdict (.fileCodeIn column fileCodes canonicalValues) page row = .ok (some b)) :
    b = true ↔ ∃ code ∈ fileCodes.codes, page.codeAt row = some code := by
  unfold rowVerdict at h
  obtain ⟨isNull, hnull, h⟩ := Checked.bind_eq_ok.mp h
  cases isNull with
  | true =>
    obtain rfl := Option.some.inj (Except.ok.inj h)
    simp [page.codeAt_of_null hnull]
  | false =>
    have hcode : ∀ code, page.codeAt row = some code → fileCodes.contains code = b →
        (b = true ↔ ∃ code ∈ fileCodes.codes, page.codeAt row = some code) := by
      rintro code hat rfl
      rw [FileCodes.contains_iff, hat]
      simp
    obtain ⟨raw, hraw, h⟩ := Checked.bind_eq_ok.mp h
    cases raw with
    | some code =>
      exact hcode code (page.codeAt_of_raw hnull hraw) (Option.some.inj (Except.ok.inj h))
    | none =>
      obtain ⟨value, hvalue, h⟩ := Checked.bind_eq_ok.mp h
      have hat := page.codeAt_of_decodeRow hnull (by simp [hraw]) hvalue
      cases value with
      | fileCode code => exact hcode code hat (Option.some.inj (Except.ok.inj h))
      | _ => cases h

/-- A decoded value with a code compares like the code. -/
theorem compareNumericValue_eq_some (hcode : codeOf value = some code)
    (h : compareNumericValue value op literal = .ok (some b)) :
    b = compareLogical (.int code) op literal := by
  cases value with
  | numCode v =>
    obtain rfl := Option.some.inj hcode
    exact Verdict.eq_compareLogical (.inr h)
  | varint v =>
    obtain rfl := Option.some.inj hcode
    refine Verdict.eq_compareLogical (.inr (h ▸ ?_))
    cases literal <;> rfl
  | fileCode v => cases literal <;> cases h
  | _ => cases hcode

/-- A numeric filter accepts the rows whose code compares so with the literal. -/
theorem numeric_verdict {row : Nat}
    (hcoded : page.array.isNull row = .ok false → ∃ code, page.codeAt row = some code)
    (h : rowVerdict (.numeric column op literal) page row = .ok (some b)) :
    b = true ↔ ∃ code, page.codeAt row = some code ∧
      compareLogical (.int code) op literal = true := by
  obtain ⟨value, hvalue, h⟩ := Checked.bind_eq_ok.mp h
  rcases page.isNull_of_decodeRow hvalue with hnull | ⟨hnull, rfl⟩
  · obtain ⟨code, hcode⟩ := hcoded hnull
    have hof : codeOf value = some code := by
      by_cases hraw : ∃ code, rawFileCodeAt page.array row = .ok (some code)
      · obtain ⟨c, hc⟩ := hraw
        rcases page.decodeRow_fileCode (rawFileCodeAt_encoding hc) hnull hvalue with
          ⟨c, rfl⟩ | ⟨v, rfl⟩
        · cases literal <;> cases h
        · cases literal <;> cases h
      · push Not at hraw
        rw [← page.codeAt_of_decodeRow hnull hraw hvalue, hcode]
    rw [compareNumericValue_eq_some hof h, hcode]
    simp
  · obtain rfl := Option.some.inj (Except.ok.inj h)
    simp [page.codeAt_of_null hnull]

/-! ## The index selection -/

section

variable {state : DatasetState} {segmentId morselId rowCount : Nat}

/-- The reference of a row of the morsel. -/
def rowRef (state : DatasetState) (segmentId morselId row : Nat) : RowRef :=
  ⟨state.table.tableId, segmentId, morselId, row⟩

/-- A complete index of the page of the morsel: every non-null row has a code, and the
index lists the rows of the morsel under their own codes. -/
structure CompleteIndex (state : DatasetState) (segmentId morselId rowCount : Nat)
    (index : LookupIndex) (page : PreparedEncodedArray) : Prop where
  coded : ∀ row, page.array.isNull row = .ok false → ∃ code, page.codeAt row = some code
  lists_iff : ∀ row code, index.Lists code (rowRef state segmentId morselId row) ↔
    row < rowCount ∧ page.codeAt row = some code

theorem markRows_spec {rows : List RowRef} {mask : SelectionMask}
    (hrange : ∀ row, rowRef state segmentId morselId row ∈ rows → row < mask.len) :
    ∃ mask', markRows state segmentId morselId rows mask = some mask' ∧
      mask'.len = mask.len ∧ ∀ row, mask'.get row = true ↔
        mask.get row = true ∨ rowRef state segmentId morselId row ∈ rows := by
  induction rows generalizing mask with
  | nil => exact ⟨mask, rfl, rfl, by simp⟩
  | cons ref rows ih =>
    rw [markRows]
    split
    · next hother =>
      have hne : ∀ row, rowRef state segmentId morselId row ≠ ref := by
        rintro row rfl
        simp [rowRef] at hother
      obtain ⟨mask', hmark, hlen, hget⟩ := ih fun row hrow => hrange row (.tail _ hrow)
      refine ⟨mask', hmark, hlen, fun row => ?_⟩
      rw [hget, List.mem_cons, or_iff_right (hne row)]
    · next hsame =>
      push Not at hsame
      obtain ⟨htable, hsegment, hmorsel⟩ := hsame
      have href : ref = rowRef state segmentId morselId ref.rowInMorsel := by
        cases ref
        simp_all [rowRef]
      have hlt : ref.rowInMorsel < mask.len := hrange _ (href ▸ List.mem_cons_self)
      rw [if_neg (by omega)]
      obtain ⟨mask', hmark, hlen, hget⟩ :=
        @ih (mask.set ref.rowInMorsel) fun row hrow => hrange row (.tail _ hrow)
      refine ⟨mask', hmark, hlen, fun row => ?_⟩
      have heq : rowRef state segmentId morselId row = ref ↔ row = ref.rowInMorsel := by
        rw [href]
        simp [rowRef]
      rw [hget, SelectionMask.get_set hlt, Bool.or_eq_true, decide_eq_true_eq, List.mem_cons,
        heq, or_assoc, or_left_comm]

theorem markKeys_spec {index : LookupIndex} {keys : List Nat} {mask : SelectionMask}
    (hrange : ∀ key row, index.Lists key (rowRef state segmentId morselId row) → row < mask.len) :
    ∃ mask', markKeys state segmentId morselId index keys mask = some mask' ∧
      mask'.len = mask.len ∧ ∀ row, mask'.get row = true ↔
        mask.get row = true ∨ ∃ key ∈ keys, index.Lists key (rowRef state segmentId morselId row) := by
  induction keys generalizing mask with
  | nil => exact ⟨mask, rfl, rfl, by simp⟩
  | cons key keys ih =>
    rw [markKeys]
    cases hrows : index.rowsFor key with
    | none =>
      obtain ⟨mask', hmark, hlen, hget⟩ := ih hrange
      refine ⟨mask', hmark, hlen, fun row => ?_⟩
      rw [hget, List.exists_mem_cons_iff, LookupIndex.lists_iff, hrows]
      simp
    | some rows =>
      have hlists : ∀ row, index.Lists key (rowRef state segmentId morselId row) ↔
          rowRef state segmentId morselId row ∈ rows := by
        intro row
        rw [LookupIndex.lists_iff, hrows]
        simp
      obtain ⟨mask₁, hmark₁, hlen₁, hget₁⟩ := markRows_spec fun row hrow =>
        hrange key row ((hlists row).mpr hrow)
      obtain ⟨mask', hmark, hlen, hget⟩ := @ih mask₁ fun k row h => hlen₁ ▸ hrange k row h
      refine ⟨mask', by simp only [hmark₁, Option.bind_some, hmark], hlen.trans hlen₁,
        fun row => ?_⟩
      rw [hget, hget₁, List.exists_mem_cons_iff, hlists, or_assoc]

/-- No filter on variable-length bytes. -/
def NoBytes (filter : FilterPlan) : Prop :=
  ∀ columnIndex literal, filter.predicate ≠ some (.varBytesEq columnIndex literal)

/-- How a filter is answered: an equality or membership filter by a complete index of
the right kind, and no filter on variable-length bytes. -/
def Answered (state : DatasetState) (segmentId morselId rowCount : Nat)
    (pages : Nat → PreparedEncodedArray) (filter : FilterPlan) : Prop :=
  NoBytes filter ∧
  ∀ columnIndex keyKind keys, lookupKeys filter.predicate = some (columnIndex, keyKind, keys) →
    ∃ column index, state.table.columns[columnIndex]? = some column ∧
      state.lookupFor column.columnId = some index ∧ index.header.keyKind = keyKind ∧
      CompleteIndex state segmentId morselId rowCount index (pages columnIndex)

/-- A row has one of the codes a filter looks up. -/
def IndexAccepts (pages : Nat → PreparedEncodedArray) (filter : FilterPlan) (row : Nat) : Prop :=
  ∀ columnIndex keyKind keys, lookupKeys filter.predicate = some (columnIndex, keyKind, keys) →
    ∃ code ∈ keys, (pages columnIndex).codeAt row = some code

variable {pages : Nat → PreparedEncodedArray}

/-- **The index selection**: a fallback means no filter was answered, and otherwise the
rows left are those with a looked up code in every answered column. -/
theorem lookupLoop_spec {filters : List FilterPlan} {saw : Bool} {selected : SelectionMask}
    (hlen : selected.len = rowCount)
    (hanswered : ∀ filter ∈ filters, Answered state segmentId morselId rowCount pages filter) :
    match lookupLoop state segmentId morselId rowCount filters saw selected with
    | none => saw = false ∧ ∀ filter ∈ filters, lookupKeys filter.predicate = none
    | some selected' => selected'.len = rowCount ∧ ∀ row, row ∈ selected'.rows ↔
        row ∈ selected.rows ∧ ∀ filter ∈ filters, IndexAccepts pages filter row := by
  induction filters generalizing saw selected with
  | nil =>
    cases saw
    · exact ⟨rfl, by simp⟩
    · exact ⟨hlen, by simp⟩
  | cons filter filters ih =>
    obtain ⟨⟨-, hfilter⟩, hrest⟩ := List.forall_mem_cons.mp hanswered
    simp only [List.forall_mem_cons]
    rw [lookupLoop]
    cases hkeys : lookupKeys filter.predicate with
    | none =>
      have hall : ∀ row, IndexAccepts pages filter row := by
        intro row c k ks h
        rw [hkeys] at h
        cases h
      have := @ih saw selected hlen hrest
      simp only [hall, true_and]
      exact this
    | some t =>
      obtain ⟨columnIndex, keyKind, keys⟩ := t
      obtain ⟨column, index, hcolumn, hindex, hkind, hcomplete⟩ := hfilter _ _ _ hkeys
      have haccept : ∀ row, row < rowCount → (IndexAccepts pages filter row ↔
          ∃ key ∈ keys, index.Lists key (rowRef state segmentId morselId row)) := by
        intro row hrow
        simp only [IndexAccepts, hkeys, Option.some.injEq, Prod.mk.injEq, hcomplete.lists_iff,
          hrow, true_and]
        exact ⟨fun h => h _ _ _ ⟨rfl, rfl, rfl⟩, fun h _ _ _ ⟨hc, _, hk⟩ => hc ▸ hk ▸ h⟩
      obtain ⟨mask, hmark, hmlen, hmget⟩ := @markKeys_spec state segmentId morselId index keys
        (.fillNone rowCount) fun key row h => ((hcomplete.lists_iff row key).mp h).1
      have hrows : ∀ row, row ∈ (selected.andInplace mask).rows ↔
          row ∈ selected.rows ∧ IndexAccepts pages filter row := by
        intro row
        rw [SelectionMask.mem_rows, SelectionMask.mem_rows,
          SelectionMask.get_andInplace (hlen.trans hmlen.symm), Bool.and_eq_true, hmget,
          SelectionMask.get_fillNone, and_assoc]
        show row < selected.len ∧ _ ↔ _
        rw [and_congr_right_iff]
        intro hlt
        rw [haccept row (hlen ▸ hlt)]
        simp
      simp only [hcolumn, hindex, hkind, hmark, ne_eq, not_true_eq_false, if_false]
      split
      · next hnone =>
        split at hnone
        · cases hnone
        · have := @ih true (selected.andInplace mask) hlen hrest
          rw [hnone] at this
          cases this.1
      · next selected' hsome =>
        split at hsome
        · next hzero =>
          obtain rfl := Option.some.inj hsome
          have hempty := SelectionMask.rows_of_allZero hzero
          refine ⟨hlen, fun row => ?_⟩
          have := hrows row
          rw [hempty] at this ⊢
          tauto
        · have := @ih true (selected.andInplace mask) hlen hrest
          rw [hsome] at this
          refine ⟨this.1, fun row => ?_⟩
          rw [this.2, hrows, and_assoc]

/-! ## The scan -/

/-- The filter's predicate has a verdict on the row. -/
def Decides (pages : Nat → PreparedEncodedArray) (filter : FilterPlan) (row : Nat) : Prop :=
  ∀ predicate, filter.predicate = some predicate →
    ∃ b, rowVerdict predicate (pages (predicateColumnIndex predicate)) row = .ok (some b)

/-- The filter's predicate accepts the row. -/
def Accepts (pages : Nat → PreparedEncodedArray) (filter : FilterPlan) (row : Nat) : Prop :=
  ∀ predicate, filter.predicate = some predicate →
    rowVerdict predicate (pages (predicateColumnIndex predicate)) row = .ok (some true)

/-- One filter of the scan. -/
theorem applyFilters_cons {filter : FilterPlan} (hbytes : NoBytes filter)
    (h : applyFilters pages (filter :: filters) m = .ok (some m')) :
    ∃ m₁, applyFilters pages filters m₁ = .ok (some m') ∧ m₁.len = m.len ∧
      (∀ row ∈ m.rows, Decides pages filter row) ∧
      ∀ row, row ∈ m₁.rows ↔ row ∈ m.rows ∧ Accepts pages filter row := by
  rw [applyFilters] at h
  cases hp : filter.predicate with
  | none =>
    rw [hp] at h
    exact ⟨m, h, rfl, by simp [Decides, hp], by simp [Accepts, hp]⟩
  | some predicate =>
    rw [hp] at h
    obtain ⟨o, happly, h⟩ := Checked.bind_eq_ok.mp h
    cases o with
    | none => cases h
    | some m₁ =>
      have hsel := applyPredicate_selects (fun c l heq => hbytes c l (hp.trans (by rw [heq]))) happly
      exact ⟨m₁, h, hsel.len, by simpa [Decides, hp] using hsel.decided,
        by simpa [Accepts, hp] using hsel.mem_rows⟩

/-- **The scan keeps the rows every filter accepts.** -/
theorem applyFilters_spec (hbytes : ∀ filter ∈ filters, NoBytes filter)
    (h : applyFilters pages filters m = .ok (some m')) :
    m'.len = m.len ∧ ∀ row, row ∈ m'.rows ↔
      row ∈ m.rows ∧ ∀ filter ∈ filters, Accepts pages filter row := by
  induction filters generalizing m with
  | nil =>
    obtain rfl := Option.some.inj (Except.ok.inj h)
    simp
  | cons filter filters ih =>
    obtain ⟨hfilter, hrest⟩ := List.forall_mem_cons.mp hbytes
    obtain ⟨m₁, h₁, hlen, -, hrows⟩ := applyFilters_cons hfilter h
    obtain ⟨hlen', hrows'⟩ := ih hrest h₁
    refine ⟨hlen'.trans hlen, fun row => ?_⟩
    rw [hrows', hrows, List.forall_mem_cons, and_assoc]

/-- **Skipping filters is safe** on a smaller selection whose rows the skipped filters
accept: if the full scan runs through, so does the shorter one, within its result. -/
theorem applyFilters_skip (keep : FilterPlan → Bool)
    (hbytes : ∀ filter ∈ filters, NoBytes filter) {a a' b : SelectionMask}
    (h : applyFilters pages filters a = .ok (some a')) (hsub : ∀ row ∈ b.rows, row ∈ a.rows)
    (hskip : ∀ filter ∈ filters, keep filter = false → ∀ row ∈ b.rows,
      Decides pages filter row → Accepts pages filter row) :
    ∃ b', applyFilters pages (filters.filter keep) b = .ok (some b') ∧
      ∀ row ∈ b'.rows, row ∈ a'.rows := by
  induction filters generalizing a b with
  | nil =>
    obtain rfl := Option.some.inj (Except.ok.inj h)
    exact ⟨b, rfl, hsub⟩
  | cons filter filters ih =>
    obtain ⟨hfilter, hrest⟩ := List.forall_mem_cons.mp hbytes
    obtain ⟨hskip₁, hskip⟩ := List.forall_mem_cons.mp hskip
    obtain ⟨a₁, h₁, -, hdecides, hrows⟩ := applyFilters_cons hfilter h
    cases hkeep : keep filter with
    | false =>
      rw [List.filter_cons_of_neg (by simp [hkeep])]
      exact ih hrest h₁ (fun row hrow => (hrows row).mpr
        ⟨hsub row hrow, hskip₁ hkeep row hrow (hdecides row (hsub row hrow))⟩) hskip
    | true =>
      rw [List.filter_cons_of_pos hkeep, applyFilters]
      cases hp : filter.predicate with
      | none =>
        refine ih hrest h₁ (fun row hrow => (hrows row).mpr ⟨hsub row hrow, ?_⟩) hskip
        simp [Accepts, hp]
      | some predicate =>
        have hno : ∀ c l, predicate ≠ .varBytesEq c l :=
          fun c l heq => hfilter c l (hp.trans (by rw [heq]))
        obtain ⟨b₁, hb₁⟩ := exists_applyPredicate hno fun row hrow =>
          hdecides row (hsub row hrow) predicate hp
        have hsel := applyPredicate_selects hno hb₁
        have hsub₁ : ∀ row ∈ b₁.rows, row ∈ b.rows ∧ row ∈ a₁.rows := by
          intro row hrow
          obtain ⟨hb, hverdict⟩ := (hsel.mem_rows row).mp hrow
          refine ⟨hb, (hrows row).mpr ⟨hsub row hb, fun p hp' => ?_⟩⟩
          obtain rfl := Option.some.inj (hp.symm.trans hp')
          exact hverdict
        obtain ⟨b', hb', hin⟩ := ih hrest h₁ (fun row hrow => (hsub₁ row hrow).2)
          fun f hf hk row hrow => hskip f hf hk row (hsub₁ row hrow).1
        exact ⟨b', by simp only [hb₁]; exact hb', hin⟩

/-! ## Keys against verdicts -/

/-- The key of a numeric literal equals it. -/
theorem compareLogical_key {key : Nat}
    (h : numericLookupKey literal = some key) : compareLogical (.int key) .eq literal = true := by
  cases literal with
  | int64 l =>
    simp only [numericLookupKey] at h
    split at h
    · cases h
    · obtain rfl := Option.some.inj h
      exact compareOrdered_intCmp_eq.mpr (by omega)
  | uint64 l =>
    obtain rfl := Option.some.inj h
    exact compareOrdered_intCmp_eq.mpr rfl
  | float64 x =>
    simp only [numericLookupKey] at h
    split at h
    · cases h
    next v hv =>
    split at h
    · next hint =>
      split at h
      · next hrange =>
        obtain rfl := Option.some.inj h
        simp only [Bool.and_eq_true, beq_iff_eq] at hint
        simp only [compareLogical, hv, compareOrdered_values_eq, intAsF64_natCast,
          natAsF64_toU64 hv hint.2 hrange.1 hrange.2]
      · cases h
    · cases h

/-- An integer literal equals its key only. -/
theorem eq_key_of_compareLogical {key : Nat}
    (hkey : numericLookupKey literal = some key) (hint : ∀ x, literal ≠ .float64 x)
    (h : compareLogical (.int code) .eq literal = true) : code = key := by
  cases literal with
  | int64 l =>
    have := compareOrdered_intCmp_eq.mp h
    simp only [numericLookupKey] at hkey
    split at hkey
    · cases hkey
    · obtain rfl := Option.some.inj hkey
      omega
  | uint64 l =>
    obtain rfl := Option.some.inj hkey
    exact Int.ofNat_inj.mp (compareOrdered_intCmp_eq.mp h)
  | float64 x => exact absurd rfl (hint x)

/-- An equality filter whose literal is a float with a key. -/
def FloatKey (filter : FilterPlan) (columnIndex key : Nat) : Prop :=
  ∃ x, filter.predicate = some (.numeric columnIndex .eq (.float64 x)) ∧
    numericLookupKey (.float64 x) = some key

/-- A row with a looked up code is accepted by the scan. -/
theorem accepts_of_indexAccepts {filter : FilterPlan}
    (hanswered : Answered state segmentId morselId rowCount pages filter) {row : Nat}
    (hlooked : lookupKeys filter.predicate ≠ none) (hdecides : Decides pages filter row)
    (h : IndexAccepts pages filter row) : Accepts pages filter row := by
  intro predicate hp
  obtain ⟨b, hb⟩ := hdecides predicate hp
  suffices b = true by rw [hb, this]
  rw [hp] at hlooked
  unfold IndexAccepts at h
  rw [hp] at h
  cases predicate with
  | null c kind => exact absurd rfl hlooked
  | varBytesEq c literal => exact absurd rfl hlooked
  | fileCodeIn c fileCodes canonicalValues => exact (fileCodeIn_verdict hb).mpr (h _ _ _ rfl)
  | numeric c op literal =>
    cases op with
    | eq =>
      cases hkey : numericLookupKey literal with
      | none => exact absurd (by simp [lookupKeys, hkey]) hlooked
      | some key =>
        have hkeys : lookupKeys (some (.numeric c .eq literal)) = some (c, .numCode, [key]) := by
          simp [lookupKeys, hkey]
        obtain ⟨_, _, -, -, -, hcomplete⟩ := hanswered.2 _ _ _ (hp ▸ hkeys)
        obtain ⟨code, hmem, hcode⟩ := h _ _ _ hkeys
        obtain rfl := List.mem_singleton.mp hmem
        exact (numeric_verdict (hcomplete.coded row) hb).mpr
          ⟨code, hcode, compareLogical_key hkey⟩
    | _ => exact absurd rfl hlooked

/-- A row the scan accepts has a looked up code, unless a float literal rounds. -/
theorem indexAccepts_of_accepts {filter : FilterPlan}
    (hanswered : Answered state segmentId morselId rowCount pages filter) {row : Nat}
    (h : Accepts pages filter row)
    (hfloat : ∀ columnIndex key, FloatKey filter columnIndex key →
      (pages columnIndex).codeAt row = some key) : IndexAccepts pages filter row := by
  intro columnIndex keyKind keys hkeys
  obtain ⟨_, _, -, -, -, hcomplete⟩ := hanswered.2 _ _ _ hkeys
  cases hp : filter.predicate with
  | none => rw [hp] at hkeys; cases hkeys
  | some predicate =>
    have hverdict := h predicate hp
    rw [hp] at hkeys
    cases predicate with
    | null c kind => cases hkeys
    | varBytesEq c literal => cases hkeys
    | fileCodeIn c fileCodes canonicalValues =>
      obtain ⟨rfl, rfl, rfl⟩ : _ ∧ _ ∧ _ := by simpa [lookupKeys] using hkeys
      exact (fileCodeIn_verdict hverdict).mp rfl
    | numeric c op literal =>
      cases op with
      | eq =>
        cases hkey : numericLookupKey literal with
        | none => simp [lookupKeys, hkey] at hkeys
        | some key =>
          obtain ⟨rfl, rfl, rfl⟩ : c = _ ∧ _ ∧ _ := by simpa [lookupKeys, hkey] using hkeys
          obtain ⟨code, hcode, hcmp⟩ := (numeric_verdict (hcomplete.coded row) hverdict).mp rfl
          refine ⟨key, List.mem_singleton_self key, ?_⟩
          by_cases hint : ∃ x, literal = .float64 x
          · obtain ⟨x, rfl⟩ := hint
            exact hfloat c key ⟨x, hp, hkey⟩
          · push Not at hint
            rw [hcode, eq_key_of_compareLogical hkey hint hcmp]
      | _ => cases hkeys

/-! ## Both selections -/

/-- An answered filter is covered exactly when it looks keys up. -/
theorem covered_iff {filter : FilterPlan}
    (hanswered : Answered state segmentId morselId rowCount pages filter) :
    filter.predicate.any (predicateIsIndexCovered state) = true ↔
      lookupKeys filter.predicate ≠ none := by
  cases hp : filter.predicate with
  | none => simp [lookupKeys]
  | some predicate =>
    rw [Option.any_some, predicateIsIndexCovered]
    cases hkeys : lookupKeys (some predicate) with
    | none => simp
    | some t =>
      obtain ⟨columnIndex, keyKind, keys⟩ := t
      obtain ⟨column, index, hcolumn, hindex, hkind, -⟩ := hanswered.2 _ _ _ (hp ▸ hkeys)
      simp [hcolumn, hindex, hkind]

/-- **The two selections**: given that the scan selects rows, the index path selects the
same ones exactly when no accepted row is there only because a float literal rounds. -/
theorem indexedSelection_eq_scan_iff {filters : List FilterPlan} {m : SelectionMask}
    (hanswered : ∀ filter ∈ filters, Answered state segmentId morselId rowCount pages filter)
    (hscan : scanSelection pages rowCount filters = .ok (some m)) :
    (∃ m', indexedSelection state segmentId morselId pages rowCount filters = .ok (some m') ∧
      m'.rows = m.rows) ↔
    ∀ row < rowCount, (∀ filter ∈ filters, Accepts pages filter row) →
      ∀ filter ∈ filters, ∀ columnIndex key, FloatKey filter columnIndex key →
        (pages columnIndex).codeAt row = some key := by
  have hbytes : ∀ filter ∈ filters, NoBytes filter := fun f hf => (hanswered f hf).1
  have hm := applyFilters_spec hbytes hscan
  have hspec := @lookupLoop_spec state segmentId morselId rowCount pages filters false
    (.fillAll rowCount) rfl hanswered
  have hfloatKeys : ∀ {filter : FilterPlan} {c key}, FloatKey filter c key →
      lookupKeys filter.predicate = some (c, .numCode, [key]) := by
    rintro filter c key ⟨x, hp, hkey⟩
    rw [hp, lookupKeys, hkey, Option.map_some]
  unfold indexedSelection lookupSelectionForMorsel
  split
  · next selected hselected =>
    rw [hselected] at hspec
    obtain ⟨hlen, hrows⟩ := hspec
    have hskip : ∀ filter ∈ filters,
        (!filter.predicate.any (predicateIsIndexCovered state)) = false →
        ∀ row ∈ selected.rows, Decides pages filter row → Accepts pages filter row := by
      intro f hf hkeep row hrow hdecides
      have hcovered := (covered_iff (hanswered f hf)).mp (by simpa using hkeep)
      exact accepts_of_indexAccepts (hanswered f hf) hcovered hdecides
        (((hrows row).mp hrow).2 f hf)
    obtain ⟨m', hm', hin⟩ := applyFilters_skip _ hbytes hscan
      (fun row hrow => ((hrows row).mp hrow).1) hskip
    have hspec' := applyFilters_spec
      (fun f hf => hbytes f (List.mem_of_mem_filter hf)) hm'
    constructor
    · rintro ⟨m'', hm'', heq⟩ row hlt haccepts filter hfilter c key hfloat
      obtain rfl := Option.some.inj (Except.ok.inj (hm'.symm.trans hm''))
      have hrow : row ∈ m.rows :=
        (hm.2 row).mpr ⟨SelectionMask.mem_rows_fillAll.mpr hlt, haccepts⟩
      rw [← heq, hspec'.2, hrows] at hrow
      obtain ⟨code, hcode, hat⟩ := hrow.1.2 filter hfilter _ _ _ (hfloatKeys hfloat)
      rwa [List.mem_singleton.mp hcode] at hat
    · intro hexact
      refine ⟨m', hm', SelectionMask.rows_ext (hspec'.1.trans (hlen.trans hm.1.symm)) ?_⟩
      refine fun row => ⟨hin row, fun hrow => ?_⟩
      obtain ⟨hall, haccepts⟩ := (hm.2 row).mp hrow
      rw [hspec'.2, hrows]
      refine ⟨⟨hall, fun f hf => ?_⟩, fun f hf => haccepts f (List.mem_of_mem_filter hf)⟩
      exact indexAccepts_of_accepts (hanswered f hf) (haccepts f hf)
        (hexact row (SelectionMask.mem_rows_fillAll.mp hall) haccepts f hf)
  · next hnone =>
    rw [hnone] at hspec
    refine iff_of_true ⟨m, hscan, rfl⟩ ?_
    intro row _ _ filter hfilter c key hfloat
    have hkeys := hfloatKeys hfloat
    rw [hspec.2 filter hfilter] at hkeys
    cases hkeys

end

/-! ## Two neighbouring codes -/

/-- Two rows, coded `2 ^ 53` and `2 ^ 53 + 1`. -/
def widePage : PreparedEncodedArray where
  array := ⟨.uint64, .numCode, 2, .numCode, none,
    [0, 0, 0, 0, 0, 0, 0x20, 0, 1, 0, 0, 0, 0, 0, 0x20, 0], none⟩
  values := []
  values_null := by simp

def wideIndex : LookupIndex where
  header := ⟨1, 7, .numCode⟩
  entries := [⟨2 ^ 53, [⟨1, 0, 0, 0⟩]⟩, ⟨2 ^ 53 + 1, [⟨1, 0, 0, 1⟩]⟩]
  entries_sorted := by simp

def wideState : DatasetState where
  table := ⟨1, 2, [⟨7, .uint64, .numCode, 0, 0⟩]⟩
  segments := []
  files := []
  dictionary := none
  pruning := { PruningMetadata.empty with lookups := [wideIndex] }

def wideFilter (literal : PredicateLiteral) : FilterPlan :=
  ⟨some (.numeric 0 .eq literal), none⟩

theorem wideIndex_complete : CompleteIndex wideState 0 0 2 wideIndex widePage where
  coded := by
    intro row hnull
    have hlt : row < 2 := by
      by_contra hge
      simp [EncodedArray.isNull, widePage, show 2 ≤ row by omega] at hnull
    interval_cases row
    · exact ⟨2 ^ 53, by decide⟩
    · exact ⟨2 ^ 53 + 1, by decide⟩
  lists_iff := by
    intro row code
    have hcode : ∀ row < 2, widePage.codeAt row = some (2 ^ 53 + row) := by decide
    constructor
    · rintro ⟨e, he, rfl, hrow⟩
      simp only [wideIndex, List.mem_cons, List.not_mem_nil, or_false] at he
      rcases he with rfl | rfl
      · obtain rfl : row = 0 := by simpa [rowRef, wideState] using hrow
        exact ⟨by decide, hcode 0 (by decide)⟩
      · obtain rfl : row = 1 := by simpa [rowRef, wideState] using hrow
        exact ⟨by decide, hcode 1 (by decide)⟩
    · rintro ⟨hlt, hat⟩
      rw [hcode row hlt] at hat
      obtain rfl := Option.some.inj hat
      interval_cases row
      · exact ⟨⟨2 ^ 53, [⟨1, 0, 0, 0⟩]⟩, by simp [wideIndex], rfl, by simp [rowRef, wideState]⟩
      · exact ⟨⟨2 ^ 53 + 1, [⟨1, 0, 0, 1⟩]⟩, by simp [wideIndex], rfl,
          by simp [rowRef, wideState]⟩

theorem wideFilter_answered (literal : PredicateLiteral) :
    ∀ filter ∈ [wideFilter literal], Answered wideState 0 0 2 (fun _ => widePage) filter := by
  intro filter hfilter
  obtain rfl := List.mem_singleton.mp hfilter
  refine ⟨by simp [NoBytes, wideFilter], fun columnIndex keyKind keys hkeys => ?_⟩
  simp only [wideFilter, lookupKeys] at hkeys
  obtain ⟨key, -, hkey⟩ := Option.map_eq_some_iff.mp hkeys
  simp only [Prod.mk.injEq] at hkey
  obtain ⟨rfl, rfl, rfl⟩ := hkey
  exact ⟨⟨7, .uint64, .numCode, 0, 0⟩, wideIndex, rfl, rfl, rfl, wideIndex_complete⟩

/-- The rows of an outcome that is a selection. -/
def outcomeRows (outcome : Except CoveError (Option SelectionMask)) : Option (List Nat) :=
  match outcome with
  | .ok (some m) => some m.rows
  | _ => none

theorem outcomeRows_eq_some {outcome : Except CoveError (Option SelectionMask)}
    {rows : List Nat} (h : outcomeRows outcome = some rows) :
    ∃ m, outcome = .ok (some m) ∧ m.rows = rows := by
  unfold outcomeRows at h
  split at h
  · next m => exact ⟨m, rfl, Option.some.inj h⟩
  · cases h

/-- Looking up `2 ^ 53 + 1` as an unsigned integer. -/
theorem indexedSelection_unsigned :
    ∃ m, scanSelection (fun _ => widePage) 2 [wideFilter (.uint64 9007199254740993#64)] =
        .ok (some m) ∧ m.rows = [1] ∧
      ∃ m', indexedSelection wideState 0 0 (fun _ => widePage) 2
        [wideFilter (.uint64 9007199254740993#64)] = .ok (some m') ∧ m'.rows = m.rows := by
  obtain ⟨m, hm, hrows⟩ := outcomeRows_eq_some (show outcomeRows (scanSelection
    (fun _ => widePage) 2 [wideFilter (.uint64 9007199254740993#64)]) = some [1] by decide +kernel)
  refine ⟨m, hm, hrows, (indexedSelection_eq_scan_iff (wideFilter_answered _) hm).mpr ?_⟩
  rintro row - - filter hfilter c key ⟨x, hx, -⟩
  obtain rfl := List.mem_singleton.mp hfilter
  simp [wideFilter] at hx

/-- Looking up `2 ^ 53` as a float misses the row of `2 ^ 53 + 1` that the scan keeps. -/
theorem indexedSelection_rounds :
    ¬ ∀ (state : DatasetState) (segmentId morselId rowCount : Nat)
      (pages : Nat → PreparedEncodedArray) (filters : List FilterPlan) (m : SelectionMask),
      (∀ filter ∈ filters, Answered state segmentId morselId rowCount pages filter) →
      scanSelection pages rowCount filters = .ok (some m) →
      ∃ m', indexedSelection state segmentId morselId pages rowCount filters =
        .ok (some m') ∧ m'.rows = m.rows := by
  intro h
  have hscan : outcomeRows (scanSelection (fun _ => widePage) 2
      [wideFilter (.float64 ⟨0x4340000000000000#64⟩)]) = some [0, 1] := by decide +kernel
  have hindex : outcomeRows (indexedSelection wideState 0 0 (fun _ => widePage) 2
      [wideFilter (.float64 ⟨0x4340000000000000#64⟩)]) = some [0] := by decide +kernel
  obtain ⟨m, hm, hrows⟩ := outcomeRows_eq_some hscan
  obtain ⟨m', hm', heq⟩ := h wideState 0 0 2 _ _ m (wideFilter_answered _) hm
  rw [hm', outcomeRows, heq, hrows] at hindex
  exact absurd hindex (by decide)

end Cove
