import Cove.Arrow.NoNullPages

/-!
# Strings of a byte page

The ways to export a byte page give one array, and a string array comes out exactly when every row
of it is UTF-8 on its own.

- `materializeAllRows_eq`, `materializeSelected_eq`, `forward_cases`: **each way gives the pieces of
  the rows**, when they fit; `materialize_eq`: so does the choice between them.
- `takenRows`: the rows that the forward pass takes of a selection.
- `materializeUtf8_eq`, `strict_export_iff`: **the strict export**.
-/

namespace Cove

variable {row : Nat}

variable {hasNulls : Bool} {seen picks : List Nat} {nextRowIndex : Nat}

variable (simdFromUtf8 : List UInt8 → Except String Unit)

namespace Arrow

open Checked ByteCopy PageArray

variable {layout : BytePayloadLayout} {array : EncodedArray} {ranges : List (Nat × Nat)}
  {selection : ArrowRowSelection} {picked : List Nat}

/-! ## Row by row -/

theorem drop_eq_cons_of_lt (h : row < ranges.length) :
    ∃ range, ranges[row]? = some range ∧ ranges.drop row = range :: ranges.drop (row + 1) :=
  ⟨ranges[row], List.getElem?_eq_getElem h, List.drop_eq_getElem_cons h⟩

/-- The loop over all rows pushes them in turn. -/
theorem allRowsLoop_eq {hasNulls : Bool} {remaining row pos stop : Nat} {parts : PushedParts}
    (hreads : ReadsTo (layout.readRange array.data) pos (ranges.drop row) stop)
    (hlength : row + remaining = ranges.length) :
    allRowsLoop layout array hasNulls remaining row pos parts =
      ((List.range' row remaining).foldlM (pushAt array hasNulls ranges) parts).map
        fun parts => (stop, parts) := by
  induction remaining generalizing row pos parts with
  | zero =>
    rw [List.drop_eq_nil_of_le (by omega)] at hreads
    obtain rfl : pos = stop := hreads
    rfl
  | succ remaining ih =>
    obtain ⟨range, hget, hdrop⟩ := drop_eq_cons_of_lt (show row < ranges.length by omega)
    rw [hdrop] at hreads
    obtain ⟨hread, hrest⟩ := hreads
    unfold allRowsLoop
    rw [hread, ok_bind, List.range'_succ, List.foldlM_cons]
    have hpush : pushAt array hasNulls ranges parts row =
        parts.pushRow array hasNulls row range := by
      rw [pushAt, rangeOf, hget]
      rfl
    rw [hpush]
    cases parts.pushRow array hasNulls row range with
    | error fault => rfl
    | ok parts => exact ih hrest (by omega)

/-- The array of the pushed rows. -/
theorem finish_pushedOf {rows : List Nat}
    (h : hasNulls = false → ∀ row ∈ rows, isNullRow array row = false) :
    (pushedOf array ranges hasNulls rows).finish = partsOf array ranges rows := by
  show ByteParts.mk _ _ ((builderOf array hasNulls rows).bind ArrowValidityBuilder.finish) = _
  rw [finish_builderOf h]
  rfl

/-- **The whole page.** -/
theorem materializeAllRows_eq
    (h : ParsedPage layout array ranges) : materializeAllRows simdFromUtf8 layout array =
      fitting i32Max (totalOf array ranges (List.range array.rowCount))
        (partsOf array ranges (List.range array.rowCount)) := by
  obtain ⟨hlength, hcount, hreads⟩ := h.reads
  obtain ⟨hasNulls, hhas, hrow⟩ := h.hasNulls
  have hbound := h.rowCount_lt
  have hcapacity : Fault.lift (checkedAdd array.rowCount 1) = .ok (array.rowCount + 1) :=
    Fault.lift_eq_ok.mpr (addU64_eq_ok.mpr ⟨by omega, rfl⟩)
  unfold materializeAllRows
  rw [hcount, ok_bind, hhas, ok_bind]
  split
  · next hdirect =>
    obtain ⟨hno, hlayout⟩ := Bool.and_eq_true_iff.mp hdirect
    obtain rfl : hasNulls = false := by simpa using hno
    obtain rfl : layout = .u32LengthPrefixed := beq_iff_eq.mp hlayout
    rw [materializeAllU32NoNulls_eq simdFromUtf8 h fun row hlt => (hrow row hlt).2 rfl]
    exact fitting_bind fun _ => rfl
  · have hloop := @allRowsLoop_eq layout array ranges hasNulls array.rowCount 0 0 _
      (.start hasNulls) hreads (by omega)
    rw [hcapacity, ok_bind, hloop, ← List.range_eq_range',
      pushRows_eq h (fun row hlt => List.mem_range.mp hlt) fun row hlt => (hrow row hlt).1]
    unfold fitting
    split
    · show (if _ then _ else Except.ok (PushedParts.finish _)) = _
      rw [if_neg (not_not_intro rfl), finish_pushedOf fun hno row hlt =>
        (hrow row (List.mem_range.mp hlt)).2 hno]
    · rfl

/-! ## Any rows -/

/-- What the second pass holds after rows. -/
def selectedOf (array : EncodedArray) (ranges : List (Nat × Nat)) (anyNull : Bool) (valueLen : Nat)
    (rows : List Nat) : SelectedParts where
  write := totalOf array ranges rows
  offsets := offsetsFrom 0 (piecesOf array ranges rows)
  values := (piecesOf array ranges rows).flatten ++
    reserved (valueLen - totalOf array ranges rows)
  validity := builderOf array anyNull rows

/-- The sum of two lengths of 64 bits. -/
theorem checkedAdd_eq_fitting (a b : Nat) :
    Fault.lift (checkedAdd a b) = fitting (2 ^ 64 - 1) (a + b) (a + b) := by
  unfold checkedAdd addU64 fitting
  by_cases h : a + b < 2 ^ 64
  · rw [if_pos h, if_pos (by omega)]
    rfl
  · rw [if_neg h, if_neg (by omega)]
    rfl

theorem exportedBytes_of_null (h : isNullRow array row = true) :
    exportedBytes array ranges row = [] := if_pos h

/-- The first pass: one row more. -/
theorem measureRow_eq (h : ParsedPage layout array ranges) (hrow : row < array.rowCount)
    (hnull : rowIsNull array hasNulls row = .ok (isNullRow array row))
    (hseen : totalOf array ranges seen < 2 ^ 64) :
    measureRow array hasNulls ranges (totalOf array ranges seen, seen.any (isNullRow array)) row =
      fitting (2 ^ 64 - 1) (totalOf array ranges (seen ++ [row]))
        (totalOf array ranges (seen ++ [row]), (seen ++ [row]).any (isNullRow array)) := by
  obtain ⟨range, hget, hle, hfits, hbytes⟩ := h.range_of_lt hrow
  have hrange : rangeOf ranges row = .ok range := by rw [rangeOf, hget]
  unfold measureRow
  rw [hnull, ok_bind, totalOf_append, totalOf_singleton, List.any_append, List.any_cons,
    List.any_nil, Bool.or_false]
  cases hcase : isNullRow array row with
  | true =>
    rw [if_pos rfl, exportedBytes_of_null hcase, List.length_nil, Nat.add_zero, Bool.or_true,
      fitting_of_le (by omega)]
  | false =>
    have hlen : (exportedBytes array ranges row).length = range.2 - range.1 := by
      rw [exportedBytes_of_range hcase hget, length_readAt (by omega)]
    rw [if_neg Bool.false_ne_true, hrange, ok_bind, hlen, Bool.or_false]
    dsimp only
    rw [if_neg (by omega), checkedAdd_eq_fitting]
    exact fitting_bind fun _ => rfl

/-- The second pass: one row more, within the rows that were measured. -/
theorem copySelectedRow_eq (h : ParsedPage layout array ranges) {anyNull : Bool}
    {valueLen : Nat} (hrow : row < array.rowCount)
    (hnull : rowIsNull array hasNulls row = .ok (isNullRow array row))
    (hfits : totalOf array ranges (seen ++ [row]) ≤ valueLen) (hmax : valueLen ≤ i32Max) :
    copySelectedRow array hasNulls ranges valueLen (selectedOf array ranges anyNull valueLen seen)
      row = .ok (selectedOf array ranges anyNull valueLen (seen ++ [row])) := by
  obtain ⟨range, hget, hle, hend, hbytes⟩ := h.range_of_lt hrow
  have hrange : rangeOf ranges row = .ok range := by rw [rangeOf, hget]
  have htotal : totalOf array ranges (seen ++ [row]) =
      totalOf array ranges seen + (exportedBytes array ranges row).length := by
    rw [totalOf_append, totalOf_singleton]
  have hoffset : Fault.lift (i32TryFrom (totalOf array ranges (seen ++ [row]))) =
      .ok ((totalOf array ranges (seen ++ [row]) : Nat) : Int) :=
    Fault.lift_eq_ok.mpr (if_pos (by omega))
  unfold copySelectedRow
  rw [hnull, ok_bind]
  dsimp only [selectedOf]
  rw [builderOf_append, offsetsFrom_piecesOf_append, flatten_piecesOf_append]
  cases hcase : isNullRow array row with
  | true =>
    rw [exportedBytes_of_null hcase, List.length_nil, Nat.add_zero] at htotal
    rw [htotal] at hoffset
    rw [if_pos rfl, hoffset, ok_bind, htotal, exportedBytes_of_null hcase, List.append_nil]
  | false =>
    have hpiece := exportedBytes_of_range hcase hget
    have hlen : (exportedBytes array ranges row).length = range.2 - range.1 := by
      rw [hpiece, length_readAt (by omega)]
    have hwrite := writeAt_reserved (piecesOf array ranges seen).flatten
      (exportedBytes array ranges row) (valueLen - totalOf array ranges seen)
    rw [Nat.sub_sub, ← htotal] at hwrite
    rw [if_neg Bool.false_ne_true, hrange, ok_bind, if_neg (by omega), checkedAdd_eq_fitting,
      fitting_of_le (by unfold i32Max at hmax; omega), ok_bind, ← hlen, ← htotal,
      if_neg (by omega), hoffset, ok_bind, hlen, ← hpiece]
    exact congrArg (fun values => Except.ok (SelectedParts.mk _ _ values _)) hwrite

theorem ArrowRowSelection.Selects.length_lt {rowCount : Nat} (h : selection.Selects rowCount picked)
    (hcount : rowCount < 2 ^ 63) : picked.length < 2 ^ 63 := by
  cases selection with
  | all =>
    rw [h, List.length_range]
    exact hcount
  | rows picks =>
    rw [h.1]
    exact h.2.1
  | bitset words len =>
    obtain ⟨rfl, -, rfl⟩ := h
    have hle := List.length_filter_le (bitsetRowSelected words) (List.range len)
    rw [List.length_range] at hle
    omega

/-- **Rows in any order, from their ranges.** -/
theorem materializeSelected_eq (h : ParsedPage layout array ranges)
    (hselects : selection.Selects array.rowCount picked) :
    materializeSelected array selection ranges =
      fitting i32Max (totalOf array ranges picked) (partsOf array ranges picked) := by
  obtain ⟨hasNulls, hhas, hrow⟩ := h.hasNulls
  have hlt := hselects.lt
  have hcapacity : Fault.lift (checkedAdd picked.length 1) = .ok (picked.length + 1) :=
    Fault.lift_eq_ok.mpr (addU64_eq_ok.mpr
      ⟨by have := hselects.length_lt h.rowCount_lt; omega, rfl⟩)
  have hmeasure := @foldlM_fitting _ (2 ^ 64 - 1) (measureRow array hasNulls ranges)
    (fun seen => (totalOf array ranges seen, seen.any (isNullRow array))) _ totalOf_mono [] picked
    (fun seen hseen row hmem => measureRow_eq h (hlt row hmem) (hrow row (hlt row hmem)).1
      (by omega)) (Nat.zero_le _)
  rw [List.nil_append] at hmeasure
  generalize hvalue : totalOf array ranges picked = valueLen at hmeasure ⊢
  replace hmeasure : picked.foldlM (measureRow array hasNulls ranges) (0, false) =
    fitting (2 ^ 64 - 1) valueLen (valueLen, picked.any (isNullRow array)) := hmeasure
  unfold materializeSelected
  rw [ArrowRowSelection.selectedLen_eq hselects]
  show (arrayHasNulls array >>= fun _ => _) = _
  rw [hhas, ok_bind, ArrowRowSelection.forEachRow_eq hselects, hmeasure]
  by_cases hfits : valueLen ≤ i32Max
  · have hnarrow : Fault.lift (i32TryFrom valueLen) = .ok (valueLen : Int) :=
      Fault.lift_eq_ok.mpr (if_pos hfits)
    have hcopy := @foldlM_prefixes _ (copySelectedRow array hasNulls ranges valueLen)
      (selectedOf array ranges (picked.any (isNullRow array)) valueLen) picked [] picked rfl
      fun seen row rest hrows => by
        have hmem : row ∈ picked := hrows ▸ List.mem_append_right _ List.mem_cons_self
        refine copySelectedRow_eq h (hlt row hmem) (hrow row (hlt row hmem)).1 ?_ hfits
        have happend : picked = (seen ++ [row]) ++ rest := hrows.trans (List.append_cons _ _ _)
        rw [← hvalue, happend]
        exact totalOf_mono _ _
    have hstart : selectedOf array ranges (picked.any (isNullRow array)) valueLen [] =
        ⟨0, [0], reserved valueLen, builderFor (picked.any (isNullRow array))⟩ := rfl
    have hwrite : (selectedOf array ranges (picked.any (isNullRow array)) valueLen picked).write =
        valueLen := hvalue
    rw [fitting_of_le (by unfold i32Max at hfits; omega), ok_bind, fitting_of_le hfits]
    dsimp only
    rw [hnarrow, ok_bind, hcapacity, ok_bind, ArrowRowSelection.forEachRow_eq hselects, ← hstart,
      hcopy, ok_bind, if_neg (not_not_intro hwrite)]
    refine congrArg Except.ok ?_
    have hnulls : (builderOf array (picked.any (isNullRow array)) picked).bind
        ArrowValidityBuilder.finish = nullsOf array picked :=
      finish_builderOf fun hnone row hmem => Bool.eq_false_iff.mpr fun hnull =>
        List.any_eq_false.mp hnone row hmem hnull
    show ByteParts.mk _ (_ ++ reserved (valueLen - totalOf array ranges picked))
      ((builderOf array (picked.any (isNullRow array)) picked).bind _) = _
    rw [hnulls, hvalue, Nat.sub_self, reserved, List.replicate_zero, List.append_nil]
    rfl
  · -- too long for the offsets, or already for the sum
    unfold fitting
    rw [if_neg hfits]
    split
    · show (Fault.lift (i32TryFrom valueLen) >>= fun _ => _) = _
      rw [i32TryFrom, if_neg hfits]
      rfl
    · rfl

/-! ## Ascending rows -/

/-- The rows that the forward pass takes. -/
def takenRows (selection : ArrowRowSelection) : Nat → Nat → Nat → List Nat
  | 0, _, _ => []
  | remaining + 1, row, nextRowIndex =>
    let (selected, nextRowIndex) := takesRow selection nextRowIndex row
    let rest := takenRows selection remaining (row + 1) nextRowIndex
    if selected then row :: rest else rest

/-- The forward pass pushes the rows it takes. -/
theorem forwardLoop_eq {hasNulls : Bool} {remaining row nextRowIndex pos stop : Nat}
    {parts : PushedParts}
    (hreads : ReadsTo (readU32LenPrefixedRange array.data) pos ((ranges.drop row).take remaining)
      stop)
    (hlength : row + remaining ≤ ranges.length) :
    forwardLoop array selection hasNulls remaining row nextRowIndex pos parts =
      ((takenRows selection remaining row nextRowIndex).foldlM
        (pushAt array hasNulls ranges) parts).map fun parts => (stop, parts) := by
  induction remaining generalizing row nextRowIndex pos parts with
  | zero =>
    rw [List.take_zero] at hreads
    obtain rfl : pos = stop := hreads
    rfl
  | succ remaining ih =>
    obtain ⟨range, hget, hdrop⟩ := drop_eq_cons_of_lt (show row < ranges.length by omega)
    rw [hdrop, List.take_succ_cons] at hreads
    obtain ⟨hread, hrest⟩ := hreads
    unfold forwardLoop takenRows
    rw [hread, ok_bind]
    generalize takesRow selection nextRowIndex row = taken
    obtain ⟨selected, next⟩ := taken
    dsimp only
    cases selected with
    | false =>
      rw [if_neg Bool.false_ne_true, if_neg Bool.false_ne_true]
      exact ih hrest (by omega)
    | true =>
      have hpush : pushAt array hasNulls ranges parts row =
          parts.pushRow array hasNulls row range := by
        rw [pushAt, rangeOf, hget]
        rfl
      rw [if_pos rfl, if_pos rfl, List.foldlM_cons, hpush]
      cases parts.pushRow array hasNulls row range with
      | error fault => rfl
      | ok parts => exact ih hrest (by omega)

/-- Of a bit set, the rows that are in it. -/
theorem takenRows_bitset (words : List (BitVec 64)) (len : Nat) {remaining : Nat} :
    takenRows (.bitset words len) remaining row nextRowIndex =
      (List.range' row remaining).filter (bitsetRowSelected words) := by
  induction remaining generalizing row with
  | zero => rfl
  | succ remaining ih =>
    rw [List.range'_succ, List.filter_cons, ← ih]
    rfl

/-- Of ascending rows that lie ahead, all. -/
theorem takenRows_rows {remaining : Nat} (hascending : (picks.drop nextRowIndex).Pairwise (· < ·))
    (hahead : ∀ pick ∈ picks.drop nextRowIndex, row ≤ pick ∧ pick < row + remaining) :
    takenRows (.rows picks) remaining row nextRowIndex = picks.drop nextRowIndex := by
  induction remaining generalizing row nextRowIndex with
  | zero =>
    refine (List.eq_nil_iff_forall_not_mem.mpr fun pick hpick => ?_).symm
    have := hahead pick hpick
    omega
  | succ remaining ih =>
    unfold takenRows takesRow
    dsimp only
    by_cases hnext : picks[nextRowIndex]? = some row
    · obtain ⟨hlt, hrow⟩ := List.getElem?_eq_some_iff.mp hnext
      have hdrop : picks.drop nextRowIndex = row :: picks.drop (nextRowIndex + 1) :=
        hrow ▸ List.drop_eq_getElem_cons hlt
      rw [hdrop] at hascending hahead ⊢
      obtain ⟨hbefore, hascending⟩ := List.pairwise_cons.mp hascending
      rw [if_pos hnext]
      dsimp only
      rw [if_pos rfl, ih hascending fun pick hpick => ?_]
      have hpick' := hahead pick (List.mem_cons_of_mem _ hpick)
      have := hbefore pick hpick
      omega
    · rw [if_neg hnext]
      dsimp only
      rw [if_neg Bool.false_ne_true]
      refine ih hascending fun pick hpick => ?_
      have hbounds := hahead pick hpick
      -- the first of them is not this row, and the others are behind it
      have hne : row ≠ pick := by
        intro heq
        have hfirst : picks[nextRowIndex]? = (picks.drop nextRowIndex).head? :=
          List.head?_drop.symm
        cases hdrop : picks.drop nextRowIndex with
        | nil =>
          rw [hdrop] at hpick
          cases hpick
        | cons first rest =>
          rw [hdrop] at hpick hascending hahead hfirst
          have hle := (hahead first List.mem_cons_self).1
          rcases List.mem_cons.mp hpick with hpick | hpick
          · exact hnext (heq ▸ hpick ▸ hfirst)
          · have := (List.pairwise_cons.mp hascending).1 pick hpick
            omega
      omega

theorem isAscending_iff :
    isAscending picks = true ↔ picks.Pairwise (· < ·) := by
  rw [← List.isChain_iff_pairwise]
  induction picks with
  | nil => simp [isAscending]
  | cons first rest ih =>
    cases rest with
    | nil => simp [isAscending]
    | cons second rest =>
      rw [List.isChain_cons_cons, ← ih]
      simp [isAscending]

/-- A prefix of the ranges is read up to a place, which is the end when it is all of them. -/
theorem ReadsTo.take {read : Nat → Except Fault (Nat × Nat)} {pos stop : Nat}
    (h : ReadsTo read pos ranges stop) (n : Nat) : ∃ stop', ReadsTo read pos (ranges.take n) stop' ∧
      (ranges.length ≤ n → stop' = stop) := by
  induction n generalizing pos ranges with
  | zero =>
    refine ⟨pos, rfl, fun hle => ?_⟩
    rw [List.eq_nil_of_length_eq_zero (Nat.le_zero.mp hle)] at h
    exact h
  | succ n ih =>
    cases ranges with
    | nil => exact ⟨pos, rfl, fun _ => h⟩
    | cons range ranges =>
      obtain ⟨hread, hrest⟩ := h
      obtain ⟨stop', hreads, hstop⟩ := ih hrest
      exact ⟨stop', ⟨hread, hreads⟩, fun hle => hstop (Nat.le_of_succ_le_succ hle)⟩

/-- What the forward pass has to reach. -/
theorem forwardLast_cases (hselects : selection.Selects array.rowCount picked)
    (hne : picked ≠ []) :
    forwardLast selection array.rowCount = .ok none ∨
    ∃ last, forwardLast selection array.rowCount = .ok (some last) ∧ last < array.rowCount ∧
      takenRows selection (last + 1) 0 0 = picked := by
  cases selection with
  | all => exact .inl rfl
  | rows picks =>
    obtain ⟨rfl, -, hlt⟩ := hselects
    by_cases hascending : isAscending picked = true
    · obtain ⟨front, last, rfl⟩ : ∃ front last, picked = front ++ [last] :=
        ⟨_, _, (List.dropLast_append_getLast hne).symm⟩
      have hlast : last < array.rowCount :=
        hlt last (List.mem_append_right _ List.mem_cons_self)
      have hpairs := isAscending_iff.mp hascending
      refine .inr ⟨last, ?_, hlast, takenRows_rows hpairs fun pick hpick => ⟨Nat.zero_le _, ?_⟩⟩
      · unfold forwardLast
        dsimp only
        rw [if_pos hascending, List.getLast?_append, List.getLast?_singleton]
        exact if_neg (Nat.not_le.mpr hlast)
      · rcases List.mem_append.mp hpick with hfront | hback
        · have := (List.pairwise_append.mp hpairs).2.2 pick hfront last List.mem_cons_self
          omega
        · have := List.mem_singleton.mp hback
          omega
    · exact .inl (if_neg hascending)
  | bitset words len =>
    obtain ⟨hlen, hwords, hpicked⟩ := hselects
    obtain ⟨hnone, hsome⟩ := lastSelectedBitsetRow_spec words len
    rw [← bitsetRows_eq] at hpicked
    have hvalid := ArrowRowSelection.validateBitset_eq hlen hwords
    cases hlast : lastSelectedBitsetRow words len with
    | none => exact absurd (hpicked.trans (hnone hlast)) hne
    | some last =>
      obtain ⟨hmem, hmax⟩ := hsome last hlast
      obtain ⟨hlt, -⟩ := mem_bitsetRows.mp hmem
      refine .inr ⟨last, ?_, hlen ▸ hlt, ?_⟩
      · unfold forwardLast
        dsimp only
        rw [hvalid, ok_bind, hlast]
      · -- no row behind the last one is in the set
        obtain ⟨k, hk⟩ := Nat.exists_eq_add_of_le (show last + 1 ≤ len from hlt)
        have hrest : ((List.range k).map (last + 1 + ·)).filter (bitsetRowSelected words) = [] := by
          refine List.filter_eq_nil_iff.mpr fun row hrow hin => ?_
          obtain ⟨i, hi, rfl⟩ := List.mem_map.mp hrow
          have hi := List.mem_range.mp hi
          have := hmax _ (mem_bitsetRows.mpr ⟨by omega, hin⟩)
          omega
        rw [takenRows_bitset, ← List.range_eq_range', hpicked, bitsetRows_eq]
        conv_rhs => rw [hk, List.range_add, List.filter_append, hrest, List.append_nil]

/-- **Ascending rows, in one pass** over the prefixes, where the pass takes them. -/
theorem forward_cases (h : ParsedPage layout array ranges)
    (hselects : selection.Selects array.rowCount picked) :
    materializeSelectedForwardU32 layout array selection = .ok none ∨
    materializeSelectedForwardU32 layout array selection =
      (fitting i32Max (totalOf array ranges picked) (partsOf array ranges picked)).map some := by
  obtain ⟨hlength, hcount, hreads⟩ := h.reads
  obtain ⟨hasNulls, hhas, hrow⟩ := h.hasNulls
  have hlen := ArrowRowSelection.selectedLen_eq hselects
  have hcapacity : Fault.lift (checkedAdd picked.length 1) = .ok (picked.length + 1) :=
    Fault.lift_eq_ok.mpr (addU64_eq_ok.mpr
      ⟨by have := hselects.length_lt h.rowCount_lt; omega, rfl⟩)
  unfold materializeSelectedForwardU32
  by_cases hlayout : layout = .u32LengthPrefixed
  · subst hlayout
    rw [if_neg (not_not_intro rfl), hlen]
    show ((if picked.length = 0 then _ else _) = _) ∨ ((if picked.length = 0 then _ else _) = _)
    by_cases hempty : picked = []
    · rw [hempty]
      exact .inr rfl
    · have hne : ¬ picked.length = 0 := fun hzero => hempty (List.eq_nil_of_length_eq_zero hzero)
      rw [if_neg hne]
      rcases forwardLast_cases hselects hempty with hlast | ⟨last, hlast, hlt, htaken⟩
      · rw [hlast]
        exact .inl rfl
      · refine .inr ?_
        obtain ⟨stop, htake, hstop⟩ := ReadsTo.take hreads (last + 1)
        have hloop := @forwardLoop_eq array ranges selection hasNulls (last + 1) 0 0 0 stop
          (.start hasNulls) htake (by omega)
        rw [htaken, pushRows_eq h hselects.lt fun row hlt => (hrow row hlt).1] at hloop
        rw [hlast]
        show (arrayHasNulls array >>= fun _ => _) = _
        rw [hhas, ok_bind, hcapacity, ok_bind, hloop]
        unfold fitting
        split
        · have hoffsets : (pushedOf array ranges hasNulls picked).offsets.length =
              picked.length + 1 := by
            show (offsetsFrom 0 (piecesOf array ranges picked)).length = _
            rw [length_offsetsFrom, piecesOf, List.length_map]
          show (Fault.lift (usizeTryFrom array.rowCount) >>= fun _ => _) = _
          rw [hcount, ok_bind, if_neg fun hend => hend.2 (hstop (by omega)),
            if_neg (not_not_intro hoffsets), finish_pushedOf fun hno row hmem =>
              (hrow row (hselects.lt row hmem)).2 hno]
          rfl
        · rfl
  · rw [if_pos hlayout]
    exact .inl rfl

/-! ## The export -/

/-- **Every way gives the pieces of the rows**, when they fit. -/
theorem materialize_eq
    (h : ParsedPage layout array ranges) (hselects : selection.Selects array.rowCount picked) :
    materialize simdFromUtf8 layout array selection =
      fitting i32Max (totalOf array ranges picked) (partsOf array ranges picked) := by
  unfold materialize
  by_cases hall : selection = .all
  · subst hall
    obtain rfl : picked = List.range array.rowCount := hselects
    rw [if_pos rfl, materializeAllRows_eq simdFromUtf8 h]
  · rw [if_neg hall]
    rcases forward_cases h hselects with hforward | hforward
    · rw [hforward, ok_bind]
      dsimp only
      rw [h.parsed, ok_bind, materializeSelected_eq h hselects]
    · rw [hforward]
      unfold fitting
      split <;> rfl

/-- **The strings of the rows**, when they fit, validated if the policy says so. -/
theorem materializeUtf8_eq
    (policy : ArrowStringValidationPolicy) (h : ParsedPage layout array ranges)
    (hselects : selection.Selects array.rowCount picked) :
    materializeUtf8 simdFromUtf8 layout array selection policy =
      fitting i32Max (totalOf array ranges picked) (partsOf array ranges picked) >>=
        validatedParts simdFromUtf8 policy.validates := by
  obtain ⟨-, hcount, -⟩ := h.reads
  obtain ⟨hasNulls, hhas, hrow⟩ := h.hasNulls
  unfold materializeUtf8
  rw [hcount, ok_bind, hhas, ok_bind]
  split
  · next hdirect =>
    obtain ⟨rfl, rfl, rfl⟩ := hdirect
    obtain rfl : picked = List.range array.rowCount := hselects
    rw [materializeAllU32NoNulls_eq simdFromUtf8 h fun row hlt => (hrow row hlt).2 rfl]
    rfl
  · rw [materialize_eq simdFromUtf8 h hselects]

/-- The values of the rows, checked as a whole, are checked row by row. -/
theorem validatedParts_eq_ok_iff {simdFromUtf8 : List UInt8 → Except String Unit}
    (hsimd : ∀ bytes, simdFromUtf8 bytes = .ok () ↔ Utf8.Valid bytes) {rows : List Nat}
    {parts : ByteParts} :
    validatedParts simdFromUtf8 true (partsOf array ranges rows) = .ok parts ↔
      (∀ row ∈ rows, Utf8.Valid (exportedBytes array ranges row)) ∧
        parts = partsOf array ranges rows := by
  have hcheck := @validate_eq_ok_iff simdFromUtf8 (piecesOf array ranges rows) hsimd
  rw [piecesOf, List.forall_mem_map] at hcheck
  unfold validatedParts
  rw [if_pos rfl, bind_eq_ok]
  constructor
  · rintro ⟨⟨⟩, hvalid, h⟩
    exact ⟨hcheck.mp (Fault.lift_eq_ok.mp hvalid), (Except.ok.inj h).symm⟩
  · rintro ⟨hvalid, rfl⟩
    exact ⟨(), Fault.lift_eq_ok.mpr (hcheck.mpr hvalid), rfl⟩

theorem valid_exportedBytes_iff : Utf8.Valid (exportedBytes array ranges row) ↔
    (isNullRow array row = false → Utf8.Valid (rowBytes array ranges row)) := by
  unfold exportedBytes
  cases isNullRow array row with
  | true => exact iff_of_true Utf8.Valid.nil nofun
  | false => exact ⟨fun h _ => h, fun h => h rfl⟩

/-- **The strict export** succeeds exactly when each row that is picked and not null is UTF-8 on its
own and the bytes of these rows fit 32-bit offsets; the offsets delimit the bytes of the rows. -/
theorem strict_export_iff (simdFromUtf8 : List UInt8 → Except String Unit)
    (hsimd : ∀ bytes, simdFromUtf8 bytes = .ok () ↔ Utf8.Valid bytes) (layout : BytePayloadLayout)
    (array : EncodedArray) (ranges : List (Nat × Nat)) (h : ParsedPage layout array ranges)
    (selection : ArrowRowSelection) (picked : List Nat)
    (hselects : selection.Selects array.rowCount picked) (policy : ArrowStringValidationPolicy)
    (hpolicy : policy.validates = true) :
    ((∃ parts, materializeUtf8 simdFromUtf8 layout array selection policy = .ok parts) ↔
      (∀ row ∈ picked, isNullRow array row = false → Utf8.Valid (rowBytes array ranges row)) ∧
        totalOf array ranges picked ≤ i32Max) ∧
    ∀ parts, materializeUtf8 simdFromUtf8 layout array selection policy = .ok parts →
      Delimits parts.offsets parts.values (picked.map (exportedBytes array ranges)) := by
  rw [materializeUtf8_eq simdFromUtf8 policy h hselects, hpolicy]
  simp only [← valid_exportedBytes_iff]
  unfold fitting
  split
  · next hfits =>
    rw [ok_bind]
    refine ⟨⟨?_, ?_⟩, fun parts hparts => ?_⟩
    · rintro ⟨parts, hparts⟩
      exact ⟨((validatedParts_eq_ok_iff hsimd).mp hparts).1, hfits⟩
    · rintro ⟨hvalid, -⟩
      exact ⟨_, (validatedParts_eq_ok_iff hsimd).mpr ⟨hvalid, rfl⟩⟩
    · rw [((validatedParts_eq_ok_iff hsimd).mp hparts).2]
      exact delimits_offsets _
  · next hlong => exact ⟨⟨nofun, fun hall => absurd hall.2 hlong⟩, nofun⟩

theorem totalOf_replicate (n row : Nat) : totalOf array ranges (List.replicate n row) =
    n * (exportedBytes array ranges row).length := by
  induction n with
  | zero => rw [Nat.zero_mul]; rfl
  | succ n ih =>
    rw [List.replicate_succ, ← List.singleton_append, totalOf_append, totalOf_singleton, ih,
      Nat.succ_mul, Nat.add_comm]

/-- A page of one row, the letter `a`. -/
def letterPage : EncodedArray :=
  ⟨.utf8, .varBytes, 1, .varBytes, none, [1, 0, 0, 0, 97], none⟩

theorem letterPage_parsed : ParsedPage .u32LengthPrefixed letterPage [(4, 5)] :=
  ⟨by decide, nofun, by decide⟩

theorem letterPage_selects {n : Nat} (h : n < 2 ^ 63) :
    ArrowRowSelection.Selects letterPage.rowCount (.rows (List.replicate n 0))
      (List.replicate n 0) := by
  refine ⟨rfl, by rwa [List.length_replicate], fun row hrow => ?_⟩
  rw [List.eq_of_mem_replicate hrow]
  exact Nat.one_pos

/-- A check of UTF-8. -/
def checkUtf8 (bytes : List UInt8) : Except String Unit :=
  if Utf8.Valid bytes then .ok () else .error "invalid utf-8"

theorem checkUtf8_eq_ok_iff (bytes : List UInt8) : checkUtf8 bytes = .ok () ↔ Utf8.Valid bytes := by
  unfold checkUtf8
  split <;> simp [*]

/-- The letter picked as often as 32-bit offsets cannot count: each row is valid, and there is no
array. -/
theorem letterPage_too_often :
    ArrowRowSelection.Selects letterPage.rowCount (.rows (List.replicate (2 ^ 31) 0))
      (List.replicate (2 ^ 31) 0) ∧
    (∀ row ∈ List.replicate (2 ^ 31) 0, Utf8.Valid (rowBytes letterPage [(4, 5)] row)) ∧
    ¬ ∃ parts, materializeUtf8 checkUtf8 .u32LengthPrefixed letterPage
      (.rows (List.replicate (2 ^ 31) 0)) .strict = .ok parts := by
  have hselects := letterPage_selects (n := 2 ^ 31) (by decide)
  refine ⟨hselects, fun row hrow => ?_, ?_⟩
  · rw [List.eq_of_mem_replicate hrow]
    exact ⟨['a'], by decide⟩
  · have htotal : ¬ totalOf letterPage [(4, 5)] (List.replicate (2 ^ 31) 0) ≤ i32Max := by
      rw [totalOf_replicate]
      decide
    rw [materializeUtf8_eq checkUtf8 .strict letterPage_parsed hselects, fitting, if_neg htotal]
    rintro ⟨parts, hparts⟩
    cases hparts

theorem strict_export_iff_letterPage :
    ((∃ parts, materializeUtf8 checkUtf8 .u32LengthPrefixed letterPage
        (.rows (List.replicate 2 0)) .strict = .ok parts) ↔
      (∀ row ∈ List.replicate 2 0, isNullRow letterPage row = false →
        Utf8.Valid (rowBytes letterPage [(4, 5)] row)) ∧
      totalOf letterPage [(4, 5)] (List.replicate 2 0) ≤ i32Max) ∧
    ∀ parts, materializeUtf8 checkUtf8 .u32LengthPrefixed letterPage
        (.rows (List.replicate 2 0)) .strict = .ok parts →
      Delimits parts.offsets parts.values
        ((List.replicate 2 0).map (exportedBytes letterPage [(4, 5)])) :=
  strict_export_iff checkUtf8 checkUtf8_eq_ok_iff .u32LengthPrefixed letterPage [(4, 5)]
    letterPage_parsed _ _ (letterPage_selects (by decide)) .strict rfl

end Arrow

end Cove
