import Cove.Arrow.BytePayload
import Cove.Core.Varint

/-!
# The rows of a byte page

What a parsed page holds, row by row, and what the ways to export it share.

- `ReadsTo`: ranges that were read one after the other; `rangesLoop_eq_ok`.
- `ParsedPage`: a page whose payload parses, with a bitmap of its rows.
- `exportedBytes`: the bytes of a row, none when it is null.
- `offsetsFrom`, `Delimits`: the offsets of pieces of bytes; `delimits_offsets`: **they delimit the
  pieces**.
- `pushRows_eq`: **the loops that push rows give the pieces, as long as they fit**.
-/

namespace Cove

variable {data : List UInt8} {range : Nat × Nat}

variable {row bound total : Nat} {rows : List Nat}

variable (seen : List Nat)

namespace Arrow

open Checked ByteCopy LittleEndian PageArray

/-! ## Ranges -/

/-- The ranges are read one after the other, from a place to another. -/
def ReadsTo (read : Nat → Except Fault (Nat × Nat)) : Nat → List (Nat × Nat) → Nat → Prop
  | pos, [], stop => pos = stop
  | pos, range :: ranges, stop => read pos = .ok range ∧ ReadsTo read range.2 ranges stop

theorem readsTo_of_rangesLoop {read : Nat → Except Fault (Nat × Nat)} {n pos stop : Nat}
    {ranges : List (Nat × Nat)} (h : rangesLoop read n pos = .ok (ranges, stop)) :
    ranges.length = n ∧ ReadsTo read pos ranges stop := by
  induction n generalizing pos ranges with
  | zero =>
    obtain ⟨rfl, rfl⟩ := Prod.mk.inj (Except.ok.inj h)
    exact ⟨rfl, rfl⟩
  | succ n ih =>
    obtain ⟨⟨dataStart, dataEnd⟩, hread, h⟩ := bind_eq_ok.mp h
    obtain ⟨⟨rest, stop'⟩, hrest, h⟩ := bind_eq_ok.mp h
    obtain ⟨rfl, rfl⟩ := Prod.mk.inj (Except.ok.inj h)
    obtain ⟨hlength, hreads⟩ := ih hrest
    exact ⟨by rw [List.length_cons, hlength], hread, hreads⟩

/-- A range lies behind its prefix, in the data. -/
structure RangeOk (data : List UInt8) (pos : Nat) (range : Nat × Nat) : Prop where
  start : pos < range.1
  stop : range.1 ≤ range.2
  fits : range.2 ≤ data.length

theorem rangeOk_of_u32 {pos : Nat} (h : readU32LenPrefixedRange data pos = .ok range) :
    range = (pos + 4, pos + 4 + ofLe (readAt data pos 4)) ∧ RangeOk data pos range := by
  have h := Fault.lift_eq_ok.mp h
  obtain ⟨start, hstart, h⟩ := bind_eq_ok.mp h
  obtain ⟨-, rfl⟩ := addU64_eq_ok.mp hstart
  obtain ⟨-, h⟩ := ite_error_eq_ok.mp h
  obtain ⟨stop, hstop, h⟩ := bind_eq_ok.mp h
  obtain ⟨-, rfl⟩ := addU64_eq_ok.mp hstop
  obtain ⟨hfits, h⟩ := ite_error_eq_ok.mp h
  rw [← Except.ok.inj h]
  exact ⟨rfl, ⟨by simp, by simp, Nat.not_lt.mp hfits⟩⟩

theorem rangeOk_of_leb128 {pos : Nat}
    (h : readLeb128LenPrefixedRange data pos = .ok range) : RangeOk data pos range := by
  unfold readLeb128LenPrefixedRange at h
  obtain ⟨-, h⟩ := ite_error_eq_ok.mp h
  obtain ⟨⟨value, consumed⟩, hvarint, h⟩ := bind_eq_ok.mp h
  obtain ⟨rest, -, hvarint⟩ := bind_eq_ok.mp hvarint
  obtain ⟨front, -, -, hfront, hconsumed, -⟩ :=
    exists_split_of_decode (Fault.lift_eq_ok.mp hvarint)
  have hpos := List.length_pos_of_ne_nil hfront
  have h := Fault.lift_eq_ok.mp h
  obtain ⟨len, -, h⟩ := bind_eq_ok.mp h
  obtain ⟨start, hstart, h⟩ := bind_eq_ok.mp h
  obtain ⟨stop, hstop, h⟩ := bind_eq_ok.mp h
  obtain ⟨hfits, h⟩ := ite_error_eq_ok.mp h
  obtain ⟨-, rfl⟩ := addU64_eq_ok.mp hstart
  obtain ⟨-, rfl⟩ := addU64_eq_ok.mp hstop
  rw [← Except.ok.inj h]
  exact ⟨by dsimp only; omega, by dsimp only; omega, Nat.not_lt.mp hfits⟩

theorem rangeOk {layout : BytePayloadLayout} {pos : Nat}
    (h : layout.readRange data pos = .ok range) : RangeOk data pos range := by
  cases layout with
  | u32LengthPrefixed => exact (rangeOk_of_u32 h).2
  | leb128LengthPrefixed => exact rangeOk_of_leb128 h

/-- Each range read after another lies in the data, and each takes a byte at least. -/
theorem ReadsTo.ranges {layout : BytePayloadLayout} {pos stop : Nat}
    {ranges : List (Nat × Nat)} (h : ReadsTo (layout.readRange data) pos ranges stop) :
    (∀ range ∈ ranges, range.1 ≤ range.2 ∧ range.2 ≤ data.length) ∧
      pos + ranges.length ≤ stop := by
  induction ranges generalizing pos with
  | nil => exact ⟨nofun, Nat.le_of_eq h⟩
  | cons range ranges ih =>
    obtain ⟨hread, hrest⟩ := h
    have hok := rangeOk hread
    have hstart := hok.start
    have hstop := hok.stop
    obtain ⟨hall, hle⟩ := ih hrest
    exact ⟨List.forall_mem_cons.mpr ⟨⟨hok.stop, hok.fits⟩, hall⟩, by rw [List.length_cons]; omega⟩

/-! ## Parsed pages -/

/-- A page whose payload parses, with a bitmap of its own rows when it has one. Its data is a
slice, so that the length fits `isize`. -/
structure ParsedPage (layout : BytePayloadLayout) (array : EncodedArray)
    (ranges : List (Nat × Nat)) : Prop where
  parsed : parseRanges layout array = .ok ranges
  bitmap : ∀ bm, array.validity = some bm →
    bm.rowCount = array.rowCount ∧ (array.rowCount + 7) / 8 ≤ bm.bytes.length
  slice : array.data.length < 2 ^ 63

/-- Whether a row is null. -/
def isNullRow (array : EncodedArray) (row : Nat) : Bool :=
  match array.isNull row with
  | .ok isNull => isNull
  | .error _ => false

/-- The bytes that stand for a row. -/
def rowBytes (array : EncodedArray) (ranges : List (Nat × Nat)) (row : Nat) : List UInt8 :=
  match ranges[row]? with
  | some (start, stop) => readAt array.data start (stop - start)
  | none => []

/-- The bytes a row is exported with: none when it is null. -/
def exportedBytes (array : EncodedArray) (ranges : List (Nat × Nat)) (row : Nat) : List UInt8 :=
  if isNullRow array row then [] else rowBytes array ranges row

section Page

variable {layout : BytePayloadLayout} {array : EncodedArray} {ranges : List (Nat × Nat)}

theorem ParsedPage.reads (h : ParsedPage layout array ranges) :
    ranges.length = array.rowCount ∧ Fault.lift (usizeTryFrom array.rowCount) = .ok array.rowCount ∧
      ReadsTo (layout.readRange array.data) 0 ranges array.data.length := by
  obtain ⟨rowCount, hcount, h'⟩ := bind_eq_ok.mp h.parsed
  have hcount' := Fault.lift_eq_ok.mp hcount
  unfold usizeTryFrom at hcount'
  split at hcount'
  · obtain rfl := Except.ok.inj hcount'
    obtain ⟨⟨ranges', pos⟩, hloop, h'⟩ := bind_eq_ok.mp h'
    obtain ⟨hpos, h'⟩ := ite_error_eq_ok.mp h'
    obtain rfl := Except.ok.inj h'
    obtain ⟨hlength, hreads⟩ := readsTo_of_rangesLoop hloop
    exact ⟨hlength, hcount, not_not.mp hpos ▸ hreads⟩
  · cases hcount'

theorem ParsedPage.rowCount_lt (h : ParsedPage layout array ranges) : array.rowCount < 2 ^ 63 := by
  obtain ⟨hlength, -, hreads⟩ := h.reads
  have hle := hreads.ranges.2
  have := h.slice
  omega

/-- Every row has a range in the data. -/
theorem ParsedPage.range_of_lt (h : ParsedPage layout array ranges)
    (hrow : row < array.rowCount) : ∃ range, ranges[row]? = some range ∧ range.1 ≤ range.2 ∧
      range.2 ≤ array.data.length ∧
      rowBytes array ranges row = readAt array.data range.1 (range.2 - range.1) := by
  obtain ⟨hlength, -, hreads⟩ := h.reads
  have hget : ranges[row]? = some ranges[row] := List.getElem?_eq_getElem (by omega)
  obtain ⟨hle, hfits⟩ := hreads.ranges.1 _ (List.mem_of_getElem? hget)
  exact ⟨ranges[row], hget, hle, hfits, by unfold rowBytes; rw [hget]⟩

end Page

/-! ## Nulls -/

/-- **A bitmap that counts no null has none** among its rows. The count may take in bits behind
the rows, so that the converse need not hold. -/
theorem get_of_setBits_eq_zero {bm : ValidityBitmap}
    (h : setBits bm.bytes 0 (countedRows bm.rowCount) = 0) (hrow : row < bm.rowCount) :
    ByteBits.get bm.bytes row = false := by
  have hcounted := le_countedRows bm.rowCount
  exact setBits_eq_zero_iff.mp h row (Nat.zero_le _) (by omega)

section Nulls

variable {layout : BytePayloadLayout} {array : EncodedArray} {ranges : List (Nat × Nat)}

/-- **Whether there are nulls is known before the rows, and each row is null or not.** -/
theorem ParsedPage.hasNulls (h : ParsedPage layout array ranges) :
    ∃ hasNulls, arrayHasNulls array = .ok hasNulls ∧
      ∀ row < array.rowCount, rowIsNull array hasNulls row = .ok (isNullRow array row) ∧
        (hasNulls = false → isNullRow array row = false) := by
  unfold arrayHasNulls
  cases hvalidity : array.validity with
  | none =>
    refine ⟨false, rfl, fun row hrow => ?_⟩
    have hnull : array.isNull row = .ok false := by
      unfold EncodedArray.isNull
      rw [if_neg (Nat.not_le.mpr hrow), hvalidity]
    have hnot : isNullRow array row = false := by rw [isNullRow, hnull]
    exact ⟨by rw [hnot]; rfl, fun _ => hnot⟩
  | some bm =>
    obtain ⟨hcount, hlength⟩ := h.bitmap bm hvalidity
    have hbound := h.rowCount_lt
    have hbytes : (bm.rowCount + 7) / 8 ≤ bm.bytes.length := hcount.symm ▸ hlength
    dsimp only
    rw [nullCount_eq (by omega) hbytes]
    generalize hn : setBits bm.bytes 0 (countedRows bm.rowCount) = n
    refine ⟨decide (n > 0), rfl, fun row hrow => ?_⟩
    have hnull : array.isNull row = .ok (ByteBits.get bm.bytes row) := by
      unfold EncodedArray.isNull
      rw [if_neg (Nat.not_le.mpr hrow), hvalidity]
      exact isNull_eq (by omega) hbytes
    have hrownull : isNullRow array row = ByteBits.get bm.bytes row := by rw [isNullRow, hnull]
    by_cases hpos : n > 0
    · rw [decide_eq_true hpos, hrownull]
      exact ⟨by rw [rowIsNull, if_pos rfl, hnull]; rfl, nofun⟩
    · obtain rfl : n = 0 := by omega
      have hzero : ByteBits.get bm.bytes row = false := get_of_setBits_eq_zero hn (by omega)
      rw [hrownull, hzero]
      exact ⟨rfl, fun _ => rfl⟩

end Nulls

/-! ## Offsets -/

/-- The offsets of pieces that stand one after the other from a place on. -/
def offsetsFrom : Nat → List (List UInt8) → List Int
  | start, [] => [(start : Int)]
  | start, piece :: pieces => start :: offsetsFrom (start + piece.length) pieces

/-- Offsets delimit pieces of the values: from zero to their length, never decreasing, and between
two of them lies a piece. -/
structure Delimits (offsets : List Int) (values : List UInt8) (pieces : List (List UInt8)) :
    Prop where
  count : offsets.length = pieces.length + 1
  first : offsets[0]? = some 0
  ordered : offsets.Pairwise (· ≤ ·)
  last : offsets.getLast? = some (values.length : Int)
  pieces : ∀ i piece, pieces[i]? = some piece → ∃ start stop : Nat,
    offsets[i]? = some (start : Int) ∧ offsets[i + 1]? = some (stop : Int) ∧
      readAt values start (stop - start) = piece

section Offsets

variable {start : Nat} {pieces : List (List UInt8)}

theorem length_offsetsFrom : (offsetsFrom start pieces).length = pieces.length + 1 := by
  induction pieces generalizing start with
  | nil => rfl
  | cons piece pieces ih => rw [offsetsFrom, List.length_cons, ih, List.length_cons]

/-- An offset is the length of the pieces before it. -/
theorem getElem?_offsetsFrom {i : Nat} (hi : i ≤ pieces.length) :
    (offsetsFrom start pieces)[i]? = some ((start + (pieces.take i).flatten.length : Nat) : Int) := by
  induction pieces generalizing start i with
  | nil =>
    obtain rfl : i = 0 := Nat.le_zero.mp hi
    rfl
  | cons piece pieces ih =>
    cases i with
    | zero => rfl
    | succ i =>
      rw [offsetsFrom, List.getElem?_cons_succ, ih (Nat.le_of_succ_le_succ hi), List.take_succ_cons,
        List.flatten_cons, List.length_append, Nat.add_assoc]

/-- One piece more at the end. -/
theorem offsetsFrom_append (piece : List UInt8) : offsetsFrom start (pieces ++ [piece]) =
    offsetsFrom start pieces ++ [((start + (pieces ++ [piece]).flatten.length : Nat) : Int)] := by
  induction pieces generalizing start with
  | nil => simp [offsetsFrom]
  | cons first pieces ih =>
    rw [List.cons_append, offsetsFrom, ih, offsetsFrom, List.cons_append, List.flatten_cons,
      List.length_append, Nat.add_assoc]

theorem le_offsetsFrom : ∀ offset ∈ offsetsFrom start pieces, (start : Int) ≤ offset := by
  induction pieces generalizing start with
  | nil => simp [offsetsFrom]
  | cons piece pieces ih =>
    rw [offsetsFrom]
    refine List.forall_mem_cons.mpr ⟨le_refl _, fun offset hoffset => ?_⟩
    have := ih offset hoffset
    omega

theorem pairwise_offsetsFrom : (offsetsFrom start pieces).Pairwise (· ≤ ·) := by
  induction pieces generalizing start with
  | nil => exact List.pairwise_singleton _ _
  | cons piece pieces ih =>
    rw [offsetsFrom]
    refine List.pairwise_cons.mpr ⟨fun offset hoffset => ?_, ih⟩
    have := le_offsetsFrom offset hoffset
    omega

/-- **The offsets delimit the pieces in their concatenation.** -/
theorem delimits_offsets (pieces : List (List UInt8)) :
    Delimits (offsetsFrom 0 pieces) pieces.flatten pieces where
  count := length_offsetsFrom
  first := by rw [getElem?_offsetsFrom (Nat.zero_le _)]; rfl
  ordered := pairwise_offsetsFrom
  last := by
    rw [List.getLast?_eq_getElem?, length_offsetsFrom, Nat.add_sub_cancel,
      getElem?_offsetsFrom (Nat.le_refl _), List.take_length, Nat.zero_add]
  pieces i piece hpiece := by
    obtain ⟨hi, rfl⟩ := List.getElem?_eq_some_iff.mp hpiece
    refine ⟨_, _, getElem?_offsetsFrom (Nat.le_of_lt hi), getElem?_offsetsFrom hi, ?_⟩
    have hsplit : pieces.flatten =
        (pieces.take i).flatten ++ (pieces[i] ++ (pieces.drop (i + 1)).flatten) := by
      rw [← List.flatten_cons, ← List.drop_eq_getElem_cons hi, ← List.flatten_append,
        List.take_append_drop]
    have hlength : (pieces.take (i + 1)).flatten.length =
        (pieces.take i).flatten.length + pieces[i].length := by
      rw [List.take_succ_eq_append_getElem hi, List.flatten_append, List.length_append,
        List.flatten_singleton]
    rw [Nat.zero_add, Nat.zero_add, hlength, Nat.add_sub_cancel_left, readAt, hsplit,
      List.drop_left, List.take_left]

end Offsets

/-! ## The array of some rows -/

/-- The pieces of bytes of rows. -/
def piecesOf (array : EncodedArray) (ranges : List (Nat × Nat)) (rows : List Nat) :
    List (List UInt8) := rows.map (exportedBytes array ranges)

/-- The number of bytes of rows. -/
def totalOf (array : EncodedArray) (ranges : List (Nat × Nat)) (rows : List Nat) : Nat :=
  (piecesOf array ranges rows).flatten.length

/-- The null bits of rows, when one is null. -/
def nullsOf (array : EncodedArray) (rows : List Nat) : Option (List Bool) :=
  if rows.any (isNullRow array) then some (rows.map fun row => !isNullRow array row) else none

/-- The array of rows. -/
def partsOf (array : EncodedArray) (ranges : List (Nat × Nat)) (rows : List Nat) : ByteParts :=
  ⟨offsetsFrom 0 (piecesOf array ranges rows), (piecesOf array ranges rows).flatten,
    nullsOf array rows⟩

/-- A result that is there when a total is within a bound. -/
def fitting {α : Type} (bound total : Nat) (a : α) : Except Fault α :=
  if total ≤ bound then .ok a else .error (.error .arithOverflow)

theorem fitting_of_le {α : Type} {a : α} (h : total ≤ bound) :
    fitting bound total a = .ok a := if_pos h

theorem fitting_bind {α β : Type} {a : α} {f : α → Except Fault β} {b : β}
    (h : total ≤ bound → f a = .ok b) : (fitting bound total a >>= f) = fitting bound total b := by
  unfold fitting
  split
  · next hle => exact h hle
  · rfl

/-- **A loop over rows whose steps fit or fail gives what fits for all of them.** -/
theorem foldlM_fitting {σ : Type} {bound : Nat} {step : σ → Nat → Except Fault σ}
    {state : List Nat → σ} {total : List Nat → Nat}
    (hmono : ∀ seen rest, total seen ≤ total (seen ++ rest)) {seen todo : List Nat}
    (hstep : ∀ seen, total seen ≤ bound → ∀ row ∈ todo,
      step (state seen) row = fitting bound (total (seen ++ [row])) (state (seen ++ [row])))
    (hseen : total seen ≤ bound) :
    todo.foldlM step (state seen) = fitting bound (total (seen ++ todo)) (state (seen ++ todo)) := by
  induction todo generalizing seen with
  | nil => rw [List.append_nil, fitting_of_le hseen]; rfl
  | cons row todo ih =>
    have hrow := hstep seen hseen row List.mem_cons_self
    have happend : seen ++ row :: todo = (seen ++ [row]) ++ todo := List.append_cons _ _ _
    rw [List.foldlM_cons, hrow, happend]
    by_cases hfits : total (seen ++ [row]) ≤ bound
    · rw [fitting_of_le hfits, ok_bind]
      exact ih (fun seen hseen row hrow => hstep seen hseen row (List.mem_cons_of_mem _ hrow)) hfits
    · have hall := hmono (seen ++ [row]) todo
      unfold fitting
      rw [if_neg hfits, if_neg (by omega)]
      rfl

/-- A loop over rows whose steps succeed behind the rows before them. -/
theorem foldlM_prefixes {σ : Type} {step : σ → Nat → Except Fault σ} {state : List Nat → σ}
    {rows seen todo : List Nat} (hrows : rows = seen ++ todo)
    (hstep : ∀ seen row rest, rows = seen ++ row :: rest →
      step (state seen) row = .ok (state (seen ++ [row]))) :
    todo.foldlM step (state seen) = .ok (state rows) := by
  induction todo generalizing seen with
  | nil =>
    rw [hrows, List.append_nil]
    rfl
  | cons row todo ih =>
    rw [List.foldlM_cons, hstep seen row todo hrows, ok_bind]
    exact ih (hrows.trans (List.append_cons _ _ _))

section Rows

variable {layout : BytePayloadLayout} {array : EncodedArray} {ranges : List (Nat × Nat)}

theorem totalOf_append (seen rest : List Nat) :
    totalOf array ranges (seen ++ rest) = totalOf array ranges seen + totalOf array ranges rest := by
  unfold totalOf piecesOf
  rw [List.map_append, List.flatten_append, List.length_append]

theorem totalOf_singleton (row : Nat) :
    totalOf array ranges [row] = (exportedBytes array ranges row).length := by
  unfold totalOf piecesOf
  rw [List.map_singleton, List.flatten_singleton]

theorem totalOf_mono (seen rest : List Nat) :
    totalOf array ranges seen ≤ totalOf array ranges (seen ++ rest) := by
  rw [totalOf_append]
  exact Nat.le_add_right _ _

theorem piecesOf_append (row : Nat) : piecesOf array ranges (seen ++ [row]) =
    piecesOf array ranges seen ++ [exportedBytes array ranges row] := List.map_append

theorem flatten_piecesOf_append (row : Nat) :
    (piecesOf array ranges (seen ++ [row])).flatten =
      (piecesOf array ranges seen).flatten ++ exportedBytes array ranges row := by
  rw [piecesOf_append, List.flatten_append, List.flatten_singleton]

theorem offsetsFrom_piecesOf_append (row : Nat) :
    offsetsFrom 0 (piecesOf array ranges (seen ++ [row])) =
      offsetsFrom 0 (piecesOf array ranges seen) ++
        [(totalOf array ranges (seen ++ [row]) : Int)] := by
  rw [totalOf, piecesOf_append, offsetsFrom_append, Nat.zero_add]

/-! ### Null bits -/

/-- The builder after rows. -/
def builderOf (array : EncodedArray) (wanted : Bool) (rows : List Nat) :
    Option ArrowValidityBuilder :=
  if wanted then
    some ⟨rows.map fun row => !isNullRow array row, rows.countP (isNullRow array)⟩
  else none

theorem builderOf_append (array : EncodedArray) (wanted : Bool) (seen : List Nat) (row : Nat) :
    (builderOf array wanted seen).map (·.append (!isNullRow array row)) =
      builderOf array wanted (seen ++ [row]) := by
  cases wanted with
  | false => rfl
  | true =>
    unfold builderOf ArrowValidityBuilder.append
    simp only [if_true, Option.map_some, Option.some.injEq, List.map_append, List.map_singleton,
      List.countP_append, List.countP_singleton]
    cases isNullRow array row <;> simp

/-- The null buffer of rows, when a builder is there for every null. -/
theorem finish_builderOf {wanted : Bool}
    (h : wanted = false → ∀ row ∈ rows, isNullRow array row = false) :
    (builderOf array wanted rows).bind ArrowValidityBuilder.finish = nullsOf array rows := by
  unfold builderOf nullsOf
  cases wanted with
  | false =>
    have hnone : rows.any (isNullRow array) = false :=
      List.any_eq_false.mpr fun row hrow => by rw [h rfl row hrow]; exact Bool.false_ne_true
    rw [hnone]
    rfl
  | true =>
    show ArrowValidityBuilder.finish ⟨_, rows.countP (isNullRow array)⟩ = _
    unfold ArrowValidityBuilder.finish
    by_cases hany : rows.any (isNullRow array) = true
    · have hpos : rows.countP (isNullRow array) ≠ 0 := by
        obtain ⟨row, hrow, hnull⟩ := List.any_eq_true.mp hany
        exact fun hzero => List.countP_eq_zero.mp hzero row hrow hnull
      rw [if_neg hpos, if_pos hany]
    · have hzero : rows.countP (isNullRow array) = 0 :=
        List.countP_eq_zero.mpr fun row hrow hnull => hany (List.any_eq_true.mpr ⟨row, hrow, hnull⟩)
      rw [if_pos hzero, if_neg hany]

/-! ### Rows that are pushed -/

/-- The vectors after rows. -/
def pushedOf (array : EncodedArray) (ranges : List (Nat × Nat)) (hasNulls : Bool)
    (rows : List Nat) : PushedParts :=
  ⟨offsetsFrom 0 (piecesOf array ranges rows), (piecesOf array ranges rows).flatten,
    builderOf array hasNulls rows⟩

/-- A row pushed from its range. -/
def pushAt (array : EncodedArray) (hasNulls : Bool) (ranges : List (Nat × Nat))
    (parts : PushedParts) (row : Nat) : Except Fault PushedParts := do
  let range ← rangeOf ranges row
  parts.pushRow array hasNulls row range

theorem pushAt_eq (h : ParsedPage layout array ranges) {hasNulls : Bool}
    (hrow : row < array.rowCount)
    (hnull : rowIsNull array hasNulls row = .ok (isNullRow array row)) (seen : List Nat) :
    pushAt array hasNulls ranges (pushedOf array ranges hasNulls seen) row =
      fitting i32Max (totalOf array ranges (seen ++ [row]))
        (pushedOf array ranges hasNulls (seen ++ [row])) := by
  obtain ⟨range, hget, hle, hfits, hbytes⟩ := h.range_of_lt hrow
  have hrange : rangeOf ranges row = .ok range := by rw [rangeOf, hget]
  have hexported : sliceUnlessNull array.data (isNullRow array row) range =
      .ok (exportedBytes array ranges row) := by
    unfold sliceUnlessNull exportedBytes
    split
    · rfl
    · rw [hbytes, Fault.slice_eq hle hfits]; rfl
  unfold pushAt PushedParts.pushRow
  rw [hrange, ok_bind, hnull, ok_bind]
  dsimp only
  rw [hexported, ok_bind]
  dsimp only [pushedOf]
  rw [← flatten_piecesOf_append, builderOf_append, offsetsFrom_piecesOf_append]
  show (Fault.lift (i32TryFrom (totalOf array ranges (seen ++ [row]))) >>= _) = _
  unfold i32TryFrom fitting
  split <;> rfl

/-- **The loops that push rows give the pieces, as long as they fit.** -/
theorem pushRows_eq (h : ParsedPage layout array ranges) {hasNulls : Bool}
    (hrows : ∀ row ∈ rows, row < array.rowCount)
    (hnulls : ∀ row < array.rowCount, rowIsNull array hasNulls row = .ok (isNullRow array row)) :
    rows.foldlM (pushAt array hasNulls ranges) (.start hasNulls) =
      fitting i32Max (totalOf array ranges rows) (pushedOf array ranges hasNulls rows) := by
  have hstart : PushedParts.start hasNulls = pushedOf array ranges hasNulls [] := rfl
  rw [hstart]
  exact foldlM_fitting totalOf_mono (fun seen _ row hrow =>
    pushAt_eq h (hrows row hrow) (hnulls row (hrows row hrow)) seen) (Nat.zero_le _)

end Rows

end Arrow

end Cove
