import Cove.Arrow.Utf8Validation

/-!
# Byte pages without nulls

A page of 32-bit prefixes and no nulls is copied as a whole, with one stride or prefix by prefix.

- `copiedOf`: the reserved values and the offsets after some rows; `copyRow_eq`: one row more.
- `noNullsLoop_eq`: the general loop.
- `fixed_ranges`: **where the rows of one length stand**.
- `materializeAllU32NoNulls_eq`: **both give the pieces of the rows, when they fit**.
-/

namespace Cove

variable {row : Nat}

variable (simdFromUtf8 : List UInt8 → Except String Unit)

namespace Arrow

open Checked ByteCopy LittleEndian PageArray

section Copied

variable {array : EncodedArray} {ranges : List (Nat × Nat)} {validate : Bool} {valueLen : Nat}

/-! ## One row -/

/-- What stands after rows: their pieces, and the bytes still reserved. -/
def copiedOf (array : EncodedArray) (ranges : List (Nat × Nat)) (validate : Bool) (valueLen : Nat)
    (rows : List Nat) : CopiedParts :=
  ⟨offsetsFrom 0 (piecesOf array ranges rows),
    (piecesOf array ranges rows).flatten ++ reserved (valueLen - totalOf array ranges rows),
    validate && !(piecesOf array ranges rows).flatten.all (· < 128)⟩

theorem asI32_of_le {n : Nat} (h : n ≤ i32Max) : asI32 n = n := by
  unfold i32Max at h
  unfold asI32
  rw [BitVec.toInt_eq_toNat_cond, BitVec.toNat_ofNat, Nat.mod_eq_of_lt (by omega),
    if_pos (by omega)]

/-- The bytes written behind those that stand. -/
theorem writeAt_reserved (done bytes : List UInt8) (free : Nat) :
    writeAt (done ++ reserved free) done.length bytes =
      done ++ bytes ++ reserved (free - bytes.length) := by
  unfold writeAt reserved
  rw [List.take_left, ← List.drop_drop, List.drop_left, List.drop_replicate]

/-- A copy as the helpers for values of any length make it. -/
structure CopyHelpers (plain : List UInt8 → List UInt8 → Nat → List UInt8)
    (masked : List UInt8 → List UInt8 → Nat → List UInt8 × Nat) : Prop where
  plain_eq : ∀ src dst, dst.length = src.length → plain src dst src.length = src
  masked_spec : ∀ src dst, dst.length = src.length → CopiesWithMask src (masked src dst src.length)

theorem varbytesHelpers : CopyHelpers copyVarbytesValue copyVarbytesValueAsciiMask :=
  ⟨fun _ _ => copyVarbytesValue_eq, fun _ _ => copyVarbytesValueAsciiMask_spec⟩

theorem fixedHelpers : CopyHelpers copyFixedVarbytesValue copyFixedVarbytesValueAsciiMask :=
  ⟨fun _ _ => copyFixedVarbytesValue_eq, fun _ _ hdst => by
    rw [copyFixedVarbytesValueAsciiMask_eq]
    exact copyVarbytesValueAsciiMask_spec hdst⟩

/-- **One row more is copied.** -/
theorem copyRow_eq {plain : List UInt8 → List UInt8 → Nat → List UInt8}
    {masked : List UInt8 → List UInt8 → Nat → List UInt8 × Nat} (hcopy : CopyHelpers plain masked)
    {seen : List Nat} {pos write len : Nat}
    (hbytes : readAt array.data pos len = exportedBytes array ranges row)
    (hlen : len = (exportedBytes array ranges row).length)
    (hwrite : write = totalOf array ranges seen)
    (hfits : totalOf array ranges (seen ++ [row]) ≤ valueLen) (hmax : valueLen ≤ i32Max) :
    (copiedOf array ranges validate valueLen seen).copyRow plain masked validate array.data pos
      write len = copiedOf array ranges validate valueLen (seen ++ [row]) := by
  have htotal : totalOf array ranges (seen ++ [row]) = write + len := by
    rw [totalOf_append, totalOf_singleton, hwrite, hlen]
  have hvalues : (copiedOf array ranges validate valueLen seen).values.length = valueLen := by
    have hmono : totalOf array ranges seen ≤ valueLen :=
      Nat.le_trans (totalOf_mono seen [row]) hfits
    show ((piecesOf array ranges seen).flatten ++ reserved _).length = _
    rw [List.length_append, reserved, List.length_replicate]
    show totalOf array ranges seen + _ = _
    omega
  have hdst : (readAt (copiedOf array ranges validate valueLen seen).values write len).length =
      (exportedBytes array ranges row).length := by
    rw [length_readAt (by omega), hlen]
  -- the bytes that stand then
  have hwritten : writeAt (copiedOf array ranges validate valueLen seen).values write
      (exportedBytes array ranges row) =
        (copiedOf array ranges validate valueLen (seen ++ [row])).values := by
    show writeAt ((piecesOf array ranges seen).flatten ++ reserved _) write _ = _
    rw [hwrite, totalOf, writeAt_reserved,
      ← flatten_piecesOf_append]
    show _ = (piecesOf array ranges (seen ++ [row])).flatten ++ reserved _
    rw [htotal, ← hlen, Nat.sub_sub, hwrite]
    rfl
  have hoffset : offsetsFrom 0 (piecesOf array ranges seen) ++ [asI32 (write + len)] =
      offsetsFrom 0 (piecesOf array ranges (seen ++ [row])) := by
    rw [offsetsFrom_piecesOf_append, htotal, asI32_of_le (by omega)]
  unfold CopiedParts.copyRow
  dsimp only
  rw [hbytes, hlen]
  rw [hlen] at hdst hoffset
  cases validate with
  | false =>
    rw [if_neg Bool.false_ne_true, hcopy.plain_eq _ _ hdst, hwritten]
    show CopiedParts.mk _ _ _ = CopiedParts.mk _ _ _
    rw [← hoffset]
    rfl
  | true =>
    have hmasked := hcopy.masked_spec _ _ hdst
    rw [if_pos rfl, hmasked.bytes, hmasked.mask_ne_zero, hwritten]
    show CopiedParts.mk (offsetsFrom 0 _ ++ _) _
      (!(piecesOf array ranges seen).flatten.all (· < 128) || _) = CopiedParts.mk _ _ _
    rw [hoffset, ← Bool.not_and, ← List.all_append, ← flatten_piecesOf_append]
    rfl

/-! ## The general loop -/

/-- **The general loop** copies the rows in turn. -/
theorem noNullsLoop_eq {remaining row pos : Nat}
    (hreads : ReadsTo (readU32LenPrefixedRange array.data) pos (ranges.drop row) array.data.length)
    (hlength : row + remaining = ranges.length)
    (hnulls : ∀ row < ranges.length, isNullRow array row = false)
    (hvalue : totalOf array ranges (List.range ranges.length) = valueLen)
    (hmax : valueLen ≤ i32Max) :
    noNullsLoop validate array.data valueLen remaining pos
        (totalOf array ranges (List.range row))
        (copiedOf array ranges validate valueLen (List.range row)) =
      .ok (array.data.length, valueLen,
        copiedOf array ranges validate valueLen (List.range ranges.length)) := by
  induction remaining generalizing row pos with
  | zero =>
    rw [List.drop_eq_nil_of_le (by omega)] at hreads
    obtain rfl : pos = array.data.length := hreads
    obtain rfl : row = ranges.length := by omega
    unfold noNullsLoop
    rw [hvalue]
  | succ remaining ih =>
    have hrow : row < ranges.length := by omega
    rw [List.drop_eq_getElem_cons hrow] at hreads
    obtain ⟨hread, hrest⟩ := hreads
    obtain ⟨heq, hok⟩ := rangeOk_of_u32 hread
    have hstop := hok.stop
    have hfits := hok.fits
    rw [heq] at hstop hfits hrest
    dsimp only at hstop hfits hrest
    generalize hlen : ofLe (readAt array.data pos 4) = len at *
    -- the bytes of the row, behind its prefix
    have hbytes : readAt array.data (pos + 4) len = exportedBytes array ranges row := by
      unfold exportedBytes rowBytes
      rw [hnulls row hrow, List.getElem?_eq_getElem hrow, heq]
      dsimp only
      rw [Nat.add_sub_cancel_left]
      rfl
    have hbyteslen : len = (exportedBytes array ranges row).length := by
      rw [← hbytes, length_readAt (by omega)]
    have htotal : totalOf array ranges (List.range (row + 1)) =
        totalOf array ranges (List.range row) + len := by
      rw [List.range_succ, totalOf_append, totalOf_singleton, hbyteslen]
    have hroom : totalOf array ranges (List.range (row + 1)) ≤ valueLen := by
      obtain ⟨k, hk⟩ := Nat.exists_eq_add_of_le (show row + 1 ≤ ranges.length from hrow)
      rw [← hvalue, hk, List.range_add (n := row + 1) (m := k)]
      exact totalOf_mono _ _
    unfold noNullsLoop
    dsimp only
    rw [if_neg (by omega), hlen, if_neg (by omega), if_neg (by omega),
      copyRow_eq varbytesHelpers hbytes hbyteslen rfl (by rwa [← List.range_succ]) hmax,
      ← List.range_succ, ← htotal]
    exact ih hrest (by omega)

/-! ## Rows of one length -/

/-- **Where the rows of one length stand.** -/
theorem fixed_ranges {data : List UInt8} {fixedLen stop : Nat} {rest : List (Nat × Nat)}
    (hreads : ReadsTo (readU32LenPrefixedRange data) (row * (fixedLen + 4)) rest stop)
    (hlen : ∀ i < rest.length, ofLe (readAt data ((row + i) * (fixedLen + 4)) 4) = fixedLen) :
    ∀ i < rest.length, rest[i]? =
      some ((row + i) * (fixedLen + 4) + 4, (row + i) * (fixedLen + 4) + 4 + fixedLen) := by
  induction rest generalizing row with
  | nil => exact fun i hi => absurd hi (Nat.not_lt_zero i)
  | cons range rest ih =>
    obtain ⟨hread, hrest⟩ := hreads
    have hfirst := hlen 0 (Nat.zero_lt_succ _)
    rw [Nat.add_zero] at hfirst
    have heq := (rangeOk_of_u32 hread).1
    rw [hfirst] at heq
    have hnext : range.2 = (row + 1) * (fixedLen + 4) := by
      rw [heq, Nat.succ_mul]
      omega
    rw [hnext] at hrest
    have hstep : ∀ i, row + 1 + i = row + (i + 1) := fun i => by omega
    intro i hi
    cases i with
    | zero => rw [List.getElem?_cons_zero, heq]; rfl
    | succ i =>
      have hi := Nat.lt_of_succ_lt_succ hi
      rw [List.getElem?_cons_succ, ← hstep]
      refine ih hrest (fun i hi => ?_) i hi
      rw [hstep]
      exact hlen (i + 1) (Nat.succ_lt_succ hi)

/-- The scan for one length never fails on a parsed page, and what it finds is the length of all
rows. -/
theorem detectFixedLen_cases
    (hreads : ReadsTo (readU32LenPrefixedRange array.data) 0 ranges array.data.length) :
    detectFixedLen array.data ranges.length = .ok none ∨
    ∃ fixedLen, detectFixedLen array.data ranges.length = .ok (some fixedLen) ∧
      ranges.length ≠ 0 ∧ array.data.length = ranges.length * (fixedLen + 4) ∧ array.data.length ≤ 1024 ∧
      ∀ i < ranges.length, ofLe (readAt array.data (i * (fixedLen + 4)) 4) = fixedLen := by
  unfold detectFixedLen
  split
  · next hsmall =>
    unfold fixedU32NoNullsLen
    split
    · exact .inl rfl
    · next hrows =>
      have hdata : 4 ≤ array.data.length := by
        cases ranges with
        | nil => exact absurd rfl hrows
        | cons range rest =>
          have hok := (rangeOk_of_u32 hreads.1)
          have hstop := hok.2.stop
          have hfits := hok.2.fits
          rw [hok.1] at hstop hfits
          dsimp only at hstop hfits
          omega
      rw [if_neg (Nat.not_lt.mpr hdata)]
      have hlt := ofLe_lt (readAt array.data 0 4)
      rw [length_readAt (by omega)] at hlt
      generalize hfirst : ofLe (readAt array.data 0 4) = fixedLen at *
      have hstride : checkedAdd fixedLen 4 = .ok (fixedLen + 4) :=
        addU64_eq_ok.mpr ⟨by omega, rfl⟩
      have hexpected : checkedMul ranges.length (fixedLen + 4) =
          .ok (ranges.length * (fixedLen + 4)) := by
        have hle := Nat.mul_le_mul_right (fixedLen + 4) hsmall.1
        exact mulU64_eq_ok.mpr ⟨by omega, rfl⟩
      dsimp only
      rw [hstride, ok_bind, hexpected, ok_bind]
      split
      · exact .inl rfl
      · next hlength =>
        split
        · next hall =>
          refine .inr ⟨fixedLen, rfl, hrows, (not_not.mp hlength).symm, hsmall.2, fun i hi => ?_⟩
          by_cases hzero : i = 0
          · rw [hzero, Nat.zero_mul, hfirst]
          · have hmem : i ∈ List.range' 1 (ranges.length - 1) :=
              List.mem_range'_1.mpr ⟨by omega, by omega⟩
            exact beq_iff_eq.mp (List.all_eq_true.mp hall i hmem)
        · exact .inl rfl
  · exact .inl rfl

/-! ## The whole page -/

theorem exportedBytes_of_range {start stop : Nat} (hnull : isNullRow array row = false)
    (hget : ranges[row]? = some (start, stop)) :
    exportedBytes array ranges row = readAt array.data start (stop - start) := by
  unfold exportedBytes rowBytes
  rw [hnull, hget]
  rfl

/-- What the prefixes leave of the data are the bytes of the rows. -/
theorem totalOf_of_reads {remaining row pos stop : Nat}
    (hreads : ReadsTo (readU32LenPrefixedRange array.data) pos (ranges.drop row) stop)
    (hlength : row + remaining = ranges.length)
    (hnulls : ∀ row < ranges.length, isNullRow array row = false) :
    pos + 4 * remaining + totalOf array ranges (List.range' row remaining) = stop := by
  induction remaining generalizing row pos with
  | zero =>
    rw [List.drop_eq_nil_of_le (by omega)] at hreads
    exact hreads
  | succ remaining ih =>
    have hrow : row < ranges.length := by omega
    rw [List.drop_eq_getElem_cons hrow] at hreads
    obtain ⟨hread, hrest⟩ := hreads
    obtain ⟨heq, hok⟩ := rangeOk_of_u32 hread
    have hfits := hok.fits
    have hget : ranges[row]? = some ranges[row] := List.getElem?_eq_getElem hrow
    rw [heq] at hrest hget hfits
    have hlen : (exportedBytes array ranges row).length = ofLe (readAt array.data pos 4) := by
      rw [exportedBytes_of_range (hnulls row hrow) hget, Nat.add_sub_cancel_left,
        length_readAt hfits]
    have hnext := ih hrest (by omega)
    rw [List.range'_succ, ← List.singleton_append, totalOf_append, totalOf_singleton, hlen]
    dsimp only at hnext
    omega

theorem copiedOf_nil : copiedOf array ranges validate valueLen [] =
    ⟨[0], reserved valueLen, false⟩ := by
  cases validate <;> rfl

/-- What all rows leave is the array, validated when a byte above 127 is in it. -/
theorem copiedOf_finish {rows : List Nat} (hnulls : ∀ row ∈ rows, isNullRow array row = false)
    (htotal : totalOf array ranges rows = valueLen) :
    (copiedOf array ranges validate valueLen rows).finish simdFromUtf8 validate =
      validatedParts simdFromUtf8 validate (partsOf array ranges rows) := by
  have hnone : nullsOf array rows = none := by
    refine if_neg fun hany => ?_
    obtain ⟨row, hrow, hnull⟩ := List.any_eq_true.mp hany
    rw [hnulls row hrow] at hnull
    cases hnull
  have hparts : (⟨(copiedOf array ranges validate valueLen rows).offsets,
      (copiedOf array ranges validate valueLen rows).values, none⟩ : ByteParts) =
        partsOf array ranges rows := by
    show ByteParts.mk _ (_ ++ reserved (valueLen - totalOf array ranges rows)) none = _
    rw [htotal, Nat.sub_self, reserved, List.replicate_zero, List.append_nil, partsOf, hnone]
    rfl
  show validatedParts simdFromUtf8 (validate && (validate && !_)) ⟨_, _, none⟩ = _
  rw [hparts]
  cases validate with
  | false => rfl
  | true =>
    by_cases hascii : (piecesOf array ranges rows).flatten.all (· < 128) = true
    · -- nothing above 127 was copied, and the check would accept
      rw [hascii]
      show Except.ok _ = Fault.lift (validateUtf8OffsetsSlice simdFromUtf8
        (offsetsFrom 0 (piecesOf array ranges rows)) (piecesOf array ranges rows).flatten) >>= _
      rw [validate_of_ascii hascii]
      rfl
    · rw [Bool.not_eq_true] at hascii
      rw [hascii]
      rfl

/-- The rows of one length, copied in turn. -/
theorem fixedLoop_eq {fixedLen n : Nat} (hn : n ≤ ranges.length)
    (hranges : ∀ i < ranges.length, ranges[i]? =
      some (i * (fixedLen + 4) + 4, i * (fixedLen + 4) + 4 + fixedLen))
    (hdata : array.data.length = ranges.length * (fixedLen + 4))
    (hnulls : ∀ row < ranges.length, isNullRow array row = false)
    (hvalue : ranges.length * fixedLen = valueLen) (hmax : valueLen ≤ i32Max) :
    totalOf array ranges (List.range n) = n * fixedLen ∧
    (List.range n).foldl (fun parts row => parts.copyRow copyFixedVarbytesValue
        copyFixedVarbytesValueAsciiMask validate array.data (row * (fixedLen + 4) + 4)
        (row * fixedLen) fixedLen) ⟨[0], reserved valueLen, false⟩ =
      copiedOf array ranges validate valueLen (List.range n) := by
  induction n with
  | zero =>
    rw [Nat.zero_mul]
    exact ⟨rfl, copiedOf_nil.symm⟩
  | succ n ih =>
    obtain ⟨htotal, hloop⟩ := ih (by omega)
    have hget := hranges n hn
    have hbytes := exportedBytes_of_range (hnulls n hn) hget
    have hmul := Nat.mul_le_mul_right (fixedLen + 4) hn
    have hmulLen := Nat.mul_le_mul_right fixedLen hn
    rw [Nat.succ_mul] at hmul hmulLen
    have hlen : fixedLen = (exportedBytes array ranges n).length := by
      rw [hbytes, Nat.add_sub_cancel_left, length_readAt (by omega)]
    have hnext : totalOf array ranges (List.range n ++ [n]) = (n + 1) * fixedLen := by
      rw [totalOf_append, totalOf_singleton, htotal, ← hlen, Nat.succ_mul]
    rw [List.range_succ, List.foldl_append, hloop]
    refine ⟨hnext, copyRow_eq fixedHelpers ?_ hlen htotal.symm ?_ hmax⟩
    · rw [hbytes, Nat.add_sub_cancel_left]
    · rw [hnext, Nat.succ_mul, ← hvalue]
      exact hmulLen

/-- The array of the whole page, when it fits, and validated if it has to be. -/
def wholePage (simdFromUtf8 : List UInt8 → Except String Unit) (validate : Bool)
    (array : EncodedArray) (ranges : List (Nat × Nat)) : Except Fault ByteParts := do
  let parts ← fitting i32Max (totalOf array ranges (List.range array.rowCount))
    (partsOf array ranges (List.range array.rowCount))
  validatedParts simdFromUtf8 validate parts

/-- **Both ways give the pieces of the rows, when they fit.** -/
theorem materializeAllU32NoNulls_eq (h : ParsedPage .u32LengthPrefixed array ranges)
    (hnulls : ∀ row < array.rowCount, isNullRow array row = false) :
    materializeAllU32NoNulls simdFromUtf8 validate array array.rowCount =
      wholePage simdFromUtf8 validate array ranges := by
  obtain ⟨hlength, -, hreads⟩ := h.reads
  have hreads : ReadsTo (readU32LenPrefixedRange array.data) 0 ranges array.data.length := hreads
  have hslice := h.slice
  have hbound := h.rowCount_lt
  have hmem : ∀ row ∈ List.range array.rowCount, isNullRow array row = false :=
    fun row hrow => hnulls row (List.mem_range.mp hrow)
  have hcapacity : Fault.lift (checkedAdd array.rowCount 1) = .ok (array.rowCount + 1) :=
    Fault.lift_eq_ok.mpr (addU64_eq_ok.mpr ⟨by omega, rfl⟩)
  have htotal := @totalOf_of_reads array ranges _ 0 0 _ hreads (Nat.zero_add _) (hlength ▸ hnulls)
  rw [← List.range_eq_range', hlength, Nat.zero_add] at htotal
  generalize hvalue : totalOf array ranges (List.range array.rowCount) = valueLen at htotal
  unfold materializeAllU32NoNulls wholePage
  rw [hvalue]
  dsimp only
  rcases detectFixedLen_cases hreads with hdetect | ⟨fixedLen, hdetect, hrows, hdata, hsmall, hlens⟩
  · rw [hlength] at hdetect
    have hheads : Fault.lift (checkedMul array.rowCount 4) = .ok (array.rowCount * 4) :=
      Fault.lift_eq_ok.mpr (mulU64_eq_ok.mpr ⟨by omega, rfl⟩)
    have hrest : array.data.length - array.rowCount * 4 = valueLen := by omega
    rw [hdetect]
    show (Fault.lift (checkedMul array.rowCount 4) >>= fun _ => _) = _
    rw [hheads, ok_bind, if_neg (by omega), hrest]
    unfold fitting
    by_cases hmax : valueLen ≤ i32Max
    · have hloop := @noNullsLoop_eq array ranges validate valueLen _ 0 0 hreads (Nat.zero_add _)
        (hlength ▸ hnulls) (hlength ▸ hvalue) hmax
      rw [List.range_zero, copiedOf_nil, hlength] at hloop
      rw [if_neg (by omega), if_pos hmax, hcapacity, ok_bind, ok_bind]
      show (noNullsLoop validate array.data valueLen array.rowCount 0 (totalOf array ranges [])
        _ >>= _) = _
      rw [hloop, ok_bind]
      dsimp only
      rw [if_neg (by simp), copiedOf_finish simdFromUtf8 hmem hvalue]
    · rw [if_pos (by omega), if_neg hmax]
      rfl
  · rw [hlength] at hdetect hrows hdata hlens
    have hstart : ReadsTo (readU32LenPrefixedRange array.data) (0 * (fixedLen + 4)) ranges
        array.data.length := by rwa [Nat.zero_mul]
    have hranges := fixed_ranges hstart
      fun i hi => by rw [Nat.zero_add]; exact hlens i (hlength ▸ hi)
    simp only [Nat.zero_add] at hranges
    have hfixed : array.rowCount * fixedLen = valueLen := by
      rw [hdata, Nat.mul_add] at htotal
      omega
    have hmax : valueLen ≤ i32Max := by
      unfold i32Max
      omega
    rw [hdetect]
    show materializeAllU32NoNullsFixed _ _ _ _ _ = _
    unfold materializeAllU32NoNullsFixed
    have hmul : Fault.lift (checkedMul array.rowCount fixedLen) = .ok valueLen :=
      Fault.lift_eq_ok.mpr (mulU64_eq_ok.mpr ⟨by omega, hfixed.symm⟩)
    have hshort := Nat.le_mul_of_pos_left (fixedLen + 4) (Nat.pos_of_ne_zero hrows)
    have hstride : Fault.lift (checkedAdd fixedLen 4) = .ok (fixedLen + 4) :=
      Fault.lift_eq_ok.mpr (addU64_eq_ok.mpr ⟨by omega, rfl⟩)
    have hloop := (@fixedLoop_eq array ranges validate _ _ _ (Nat.le_refl _) (hlength ▸ hranges)
      (hlength ▸ hdata) (hlength ▸ hnulls) (hlength ▸ hfixed) hmax).2
    rw [hlength] at hloop
    rw [hmul, ok_bind, if_neg (by omega), hcapacity, ok_bind, hstride, ok_bind]
    dsimp only
    rw [hloop, copiedOf_finish simdFromUtf8 hmem hvalue, fitting_of_le hmax, ok_bind]

end Copied

end Arrow

end Cove
