import Cove.Core.PageArray

/-!
# The readers of a page agree

What the bulk reader of a page gives, the reader of one row and the prepared page give too.

- `RowReader`: a reader of things of varying size, with the step over one and the read of one.
- `scanRows_spec`, `valuesFrom_spec`, `collectRows_spec`: what the bulk loops say of a row.
- `decodeRow_of_decodeAllRows`: **a row of the bulk reader is the row read alone**.
- `prepareRepr_of_decodeAllRows`: a prepared page gives the same rows.
- `decode_paths_agree`: **all readers agree**.
-/

namespace Cove

variable {α : Type}

namespace PageArray

open Checked Encoding

/-- The bitmap of a page, if it has one, is long enough for its rows. -/
def EncodedArray.ValidityCovers (self : EncodedArray) : Prop :=
  ∀ bm, self.validity = some bm →
    self.rowCount ≤ bm.rowCount ∧ (self.rowCount + 7) / 8 ≤ bm.bytes.length

variable {array : EncodedArray} {rows : List CoveArrayValue}

theorem isNull_isOk (hcovers : array.ValidityCovers) {row : Nat} (hrow : row < array.rowCount) :
    ∃ null, array.isNull row = .ok null := by
  unfold EncodedArray.isNull
  rw [if_neg (Nat.not_le.mpr hrow)]
  cases hvalidity : array.validity with
  | none => exact ⟨false, rfl⟩
  | some bm =>
    obtain ⟨hcount, hlength⟩ := hcovers bm hvalidity
    have hbyte : row / 8 < bm.bytes.length := by omega
    refine ⟨bm.bytes[row / 8].toNat.testBit (row % 8), ?_⟩
    show bm.isNull row = _
    unfold ValidityBitmap.isNull
    rw [if_neg (by omega), List.getElem?_eq_getElem hbyte]

theorem expectedRowCount_eq_ok {n expected : Nat}
    (h : Fault.lift (expectedRowCount n) = .ok expected) : expected = n := by
  have h : usizeTryFrom n = .ok expected := Fault.lift_eq_ok.mp h
  unfold usizeTryFrom at h
  split at h
  · exact (Except.ok.inj h).symm
  · cases h

/-! ## Rows that are collected -/

/-- What collected rows say of a row. -/
theorem collectRows_spec {decode : Nat → Except Fault CoveArrayValue}
    (h : array.collectRows decode = .ok rows) : rows.length = array.rowCount ∧
      ∀ i value, rows[i]? = some value → array.finishRow i (decode i) = .ok value := by
  obtain ⟨expected, hexpected, h⟩ := bind_eq_ok.mp h
  obtain rfl := expectedRowCount_eq_ok hexpected
  obtain ⟨hlength, hget⟩ := Strides.getElem?_mapM_range h
  exact ⟨hlength, fun i value hvalue => ((hget i value).mp hvalue).2⟩

/-- What the rows of decoded values say of a row. -/
theorem valuesFrom_spec {value : α → Except CoveError CoveArrayValue} {values : List α}
    (h : array.valuesFrom value values = .ok rows) :
    values.length = array.rowCount ∧ rows.length = array.rowCount ∧
      Fault.lift (expectedRowCount array.rowCount) = .ok array.rowCount ∧
      ∀ i v, rows[i]? = some v → ∃ a, values[i]? = some a ∧
        array.finishRow i (Fault.lift (value a)) = .ok v := by
  obtain ⟨expected, hexpected, h⟩ := bind_eq_ok.mp h
  obtain rfl := expectedRowCount_eq_ok hexpected
  obtain ⟨hlength, h⟩ := ite_error_eq_ok.mp h
  have hlength := Decidable.not_not.mp hlength
  obtain ⟨hsame, hget⟩ := List.forall₂_iff_get.mp (mapM_eq_ok.mp h)
  rw [List.length_zipIdx] at hsame
  refine ⟨hlength, hsame.symm.trans hlength, hexpected, fun i v hv => ?_⟩
  obtain ⟨hi, rfl⟩ := List.getElem?_eq_some_iff.mp hv
  have hi' : i < values.length := by omega
  refine ⟨values[i], List.getElem?_eq_getElem hi', ?_⟩
  have hstep := hget i (by rwa [List.length_zipIdx]) hi
  rw [List.get_eq_getElem, List.get_eq_getElem, List.getElem_zipIdx, Nat.zero_add] at hstep
  exact hstep

/-! ## Things of varying size -/

/-- A reader, the step over what it reads, and the read of one thing, which agree. -/
structure RowReader (α : Type) where
  read : Nat → Except Fault (α × Nat)
  skip : Nat → Except Fault Nat
  single : Nat → Except Fault CoveArrayValue
  value : α → CoveArrayValue
  skip_eq : ∀ pos a next, read pos = .ok (a, next) → skip pos = .ok next
  single_eq : ∀ pos a next, read pos = .ok (a, next) → single pos = .ok (value a)

/-- **What scanned rows say of a row**: skipping leads to its place, and so do the places. -/
theorem scanRows_spec (reader : RowReader α)
    (h : array.scanRows reader.read reader.value = .ok rows) :
    rows.length = array.rowCount ∧ ∃ offsets : List Nat,
      Scan.places reader.skip array.rowCount 0 = .ok offsets ∧
      Fault.lift (expectedRowCount array.rowCount) = .ok array.rowCount ∧
      ∀ i v, rows[i]? = some v → ∃ place, offsets[i]? = some place ∧
        Scan.walk reader.skip i 0 = .ok place ∧ array.finishRow i (reader.single place) = .ok v := by
  obtain ⟨expected, hexpected, h⟩ := bind_eq_ok.mp h
  obtain rfl := expectedRowCount_eq_ok hexpected
  obtain ⟨hlength, things, hthings, hstands, hall⟩ := Scan.stands_of_scan h
  refine ⟨hlength, things.map Prod.fst, ?_, hexpected, fun i v hv => ?_⟩
  · rw [← hthings]
    exact Scan.places_of_stands reader.skip_eq hstands
  · obtain ⟨place, a, hplace, hfinish⟩ := hall i v hv
    obtain ⟨hwalk, next, hread⟩ := Scan.walk_of_stands reader.skip_eq hstands hplace
    refine ⟨place, by rw [List.getElem?_map, hplace]; rfl, hwalk, ?_⟩
    rw [Nat.zero_add] at hfinish
    rw [reader.single_eq place a next hread]
    exact hfinish

theorem le_of_readRangeChecked {bytes slice : List UInt8} {offset len : Nat}
    (h : readRangeChecked bytes offset len = .ok slice) : offset + len ≤ bytes.length := by
  obtain ⟨stop, hstop, h⟩ := bind_eq_ok.mp h
  obtain ⟨-, rfl⟩ := addU64_eq_ok.mp hstop
  obtain ⟨hle, -⟩ := ite_error_eq_ok.mp h
  exact Nat.not_lt.mp hle

/-- Varints. -/
def varintReader (data : List UInt8) : RowReader Nat where
  read := readVarint data
  skip := skipVarint data
  single := varintRowAt data
  value value := .varint (BitVec.ofNat 64 value)
  skip_eq pos a next h := bind_eq_ok.mpr ⟨_, h, rfl⟩
  single_eq pos a next h := by
    unfold readVarint at h
    obtain ⟨hpos, h⟩ := ite_error_eq_ok.mp h
    obtain ⟨⟨value, consumed⟩, hvarint, h⟩ := bind_eq_ok.mp h
    obtain ⟨next', -, h⟩ := bind_eq_ok.mp h
    obtain ⟨rfl, rfl⟩ := Prod.mk.inj (Except.ok.inj h)
    unfold varintRowAt
    rw [if_neg hpos, hvarint, ok_bind]

/-- Bytes after a 32-bit length. -/
def varBytesReader (data : List UInt8) : RowReader (List UInt8) where
  read := readVarBytesRow data
  skip := skipVarBytesRow data
  single := varBytesAt data
  value := .bytes
  skip_eq pos a next h := by
    have h := Fault.lift_eq_ok.mp h
    obtain ⟨len, hlen, h⟩ := bind_eq_ok.mp h
    obtain ⟨start, hstart, h⟩ := bind_eq_ok.mp h
    obtain ⟨slice, hslice, h⟩ := bind_eq_ok.mp h
    obtain ⟨stop, hstop, h⟩ := bind_eq_ok.mp h
    obtain ⟨rfl, rfl⟩ := Prod.mk.inj (Except.ok.inj h)
    have hle := le_of_readRangeChecked hslice
    obtain ⟨-, heq⟩ := addU64_eq_ok.mp hstop
    refine Fault.lift_eq_ok.mpr ?_
    rw [hlen, ok_bind, hstart, ok_bind, hstop, ok_bind, if_neg (by omega)]
  single_eq pos a next h := by
    have h := Fault.lift_eq_ok.mp h
    obtain ⟨len, hlen, h⟩ := bind_eq_ok.mp h
    obtain ⟨start, hstart, h⟩ := bind_eq_ok.mp h
    obtain ⟨slice, hslice, h⟩ := bind_eq_ok.mp h
    obtain ⟨stop, -, h⟩ := bind_eq_ok.mp h
    obtain ⟨rfl, rfl⟩ := Prod.mk.inj (Except.ok.inj h)
    refine Fault.lift_eq_ok.mpr ?_
    rw [hlen, ok_bind, hstart, ok_bind, hslice, ok_bind]

/-- Bytes after a varint length. -/
def lengthPrefixedReader (data : List UInt8) : RowReader (List UInt8) where
  read := readLengthPrefixedRow data
  skip := skipLengthPrefixedRow data
  single := lengthPrefixedAt data
  value := .bytes
  skip_eq pos a next h := by
    obtain ⟨⟨value, consumed⟩, hvarint, h⟩ := bind_eq_ok.mp h
    obtain ⟨len, hlen, h⟩ := bind_eq_ok.mp h
    obtain ⟨start, hstart, h⟩ := bind_eq_ok.mp h
    obtain ⟨slice, hslice, h⟩ := bind_eq_ok.mp h
    obtain ⟨stop, hstop, h⟩ := bind_eq_ok.mp h
    obtain ⟨rfl, rfl⟩ := Prod.mk.inj (Except.ok.inj h)
    have hle := le_of_readRangeChecked (Fault.lift_eq_ok.mp hslice)
    obtain ⟨-, heq⟩ := addU64_eq_ok.mp (Fault.lift_eq_ok.mp hstop)
    unfold skipLengthPrefixedRow
    rw [hvarint, ok_bind]
    dsimp only
    rw [hlen, ok_bind, hstart, ok_bind, hstop, ok_bind, if_neg (by omega)]
  single_eq pos a next h := by
    obtain ⟨⟨value, consumed⟩, hvarint, h⟩ := bind_eq_ok.mp h
    obtain ⟨len, hlen, h⟩ := bind_eq_ok.mp h
    obtain ⟨start, hstart, h⟩ := bind_eq_ok.mp h
    obtain ⟨slice, hslice, h⟩ := bind_eq_ok.mp h
    obtain ⟨stop, -, h⟩ := bind_eq_ok.mp h
    obtain ⟨rfl, rfl⟩ := Prod.mk.inj (Except.ok.inj h)
    unfold lengthPrefixedAt
    rw [hvarint, ok_bind]
    dsimp only
    rw [hlen, ok_bind, hstart, ok_bind, hslice, ok_bind]

/-! ## The reader of one row -/

/-- What is left to show of a row: its present value, finished. -/
theorem decodeRow_of_finish {i : Nat} {value : CoveArrayValue} (hi : i < array.rowCount)
    {present : Except Fault CoveArrayValue} (hpresent : array.decodePresentRow i = present)
    (h : array.finishRow i present = .ok value) : array.decodeRow i = .ok value := by
  unfold EncodedArray.decodeRow
  rw [if_neg (Nat.not_le.mpr hi), hpresent, h]

/-- Collected rows are the rows read alone. -/
theorem decodeRow_of_collectRows (h : array.collectRows array.decodePresentRow = .ok rows) :
    rows.length = array.rowCount ∧
      ∀ i value, rows[i]? = some value → array.decodeRow i = .ok value := by
  obtain ⟨hlength, hget⟩ := collectRows_spec h
  refine ⟨hlength, fun i value hvalue => ?_⟩
  have hi : i < rows.length := (List.getElem?_eq_some_iff.mp hvalue).1
  exact decodeRow_of_finish (by omega) rfl (hget i value hvalue)

/-- Rows of integers are the rows read alone. -/
theorem decodeRow_of_integerRows {E : Encoding}
    (hpresent : ∀ row, array.decodePresentRow row = array.integerRow E row)
    (h : array.integerRows E = .ok rows) : rows.length = array.rowCount ∧
      ∀ i value, rows[i]? = some value → array.decodeRow i = .ok value := by
  obtain ⟨values, hvalues, h⟩ := bind_eq_ok.mp h
  obtain ⟨hcount, hlength, hexpected, hget⟩ := valuesFrom_spec h
  refine ⟨hlength, fun i value hvalue => ?_⟩
  have hi : i < rows.length := (List.getElem?_eq_some_iff.mp hvalue).1
  obtain ⟨a, ha, hfinish⟩ := hget i value hvalue
  refine decodeRow_of_finish (by omega) ((hpresent i).trans ?_) hfinish
  unfold EncodedArray.integerRow
  rw [hvalues, ok_bind]
  unfold EncodedArray.valueFromI64Vec LocalCodebookValues.pick
  rw [Fault.lift_eq_ok.mp hexpected, ok_bind, if_neg (not_not.mpr hcount), ha]
  rfl

/-- Rows that are scanned are the rows read alone. -/
theorem decodeRow_of_scanRows (reader : RowReader α) (hpresent : ∀ row, array.decodePresentRow row =
      (Scan.walk reader.skip row 0 >>= fun pos => reader.single pos))
    (h : array.scanRows reader.read reader.value = .ok rows) : rows.length = array.rowCount ∧
      ∀ i value, rows[i]? = some value → array.decodeRow i = .ok value := by
  obtain ⟨hlength, offsets, -, -, hget⟩ := scanRows_spec reader h
  refine ⟨hlength, fun i value hvalue => ?_⟩
  have hi : i < rows.length := (List.getElem?_eq_some_iff.mp hvalue).1
  obtain ⟨place, -, hwalk, hfinish⟩ := hget i value hvalue
  refine decodeRow_of_finish (by omega) ((hpresent i).trans ?_) hfinish
  rw [hwalk, ok_bind]

/-- Rows of one width are the rows read alone, though the bulk reader reads null rows too. -/
theorem decodeRow_of_fixedRows {width : Nat}
    (hpresent : ∀ row, array.decodePresentRow row = Fault.lift (array.fixedRow width row))
    (h : (do
      let expected ← Fault.lift (expectedRowCount array.rowCount)
      (List.range expected).mapM (array.canonicalFixedRow width)) = .ok rows) :
    rows.length = array.rowCount ∧
      ∀ i value, rows[i]? = some value → array.decodeRow i = .ok value := by
  obtain ⟨expected, hexpected, h⟩ := bind_eq_ok.mp h
  obtain rfl := expectedRowCount_eq_ok hexpected
  obtain ⟨hlength, hget⟩ := Strides.getElem?_mapM_range h
  refine ⟨hlength, fun i value hvalue => ?_⟩
  obtain ⟨hi, hrow⟩ := (hget i value).mp hvalue
  obtain ⟨fixed, hfixed, hfinish⟩ := bind_eq_ok.mp hrow
  exact decodeRow_of_finish hi ((hpresent i).trans hfixed) hfinish

theorem finishRow_null (hcovers : array.ValidityCovers) {row : Nat} (hrow : row < array.rowCount) :
    array.finishRow row (.ok .null) = .ok .null := by
  obtain ⟨null, hnull⟩ := isNull_isOk hcovers hrow
  unfold EncodedArray.finishRow
  rw [Fault.lift_eq_ok.mpr hnull, ok_bind]
  cases null <;> rfl

theorem decodeCanonicalRow_of_prefixed
    (h : array.logical = .utf8 ∨ array.logical = .binary ∨ array.logical = .json) (row : Nat) :
    array.decodeCanonicalRow row = (Scan.walk (lengthPrefixedReader array.data).skip row 0 >>=
      fun pos => (lengthPrefixedReader array.data).single pos) := by
  unfold EncodedArray.decodeCanonicalRow
  rcases h with h | h | h
  · rw [h]
    rfl
  · rw [h]
    rfl
  · rw [h]
    rfl

/-- The case of the canonical encoding, by logical type. -/
theorem decodeRow_of_canonical (hcovers : array.ValidityCovers)
    (hencoding : array.encoding = .canonical) (h : array.decodeAllCanonicalRows = .ok rows) :
    rows.length = array.rowCount ∧
      ∀ i value, rows[i]? = some value → array.decodeRow i = .ok value := by
  have hpresent : ∀ row, array.decodePresentRow row = array.decodeCanonicalRow row := by
    intro row
    unfold EncodedArray.decodePresentRow
    rw [hencoding]
  unfold EncodedArray.decodeAllCanonicalRows at h
  split at h
  · -- No row has a value, whatever the bitmap says.
    next hlogical =>
    obtain ⟨expected, hexpected, h⟩ := bind_eq_ok.mp h
    obtain rfl := expectedRowCount_eq_ok hexpected
    obtain rfl := Except.ok.inj h
    refine ⟨List.length_replicate, fun i value hvalue => ?_⟩
    rw [List.getElem?_replicate] at hvalue
    split at hvalue
    · next hi =>
      obtain rfl := Option.some.inj hvalue
      refine decodeRow_of_finish hi ((hpresent i).trans ?_) (finishRow_null hcovers hi)
      rw [EncodedArray.decodeCanonicalRow, hlogical]
    · cases hvalue
  · exact decodeRow_of_collectRows h
  · next hlogical =>
    exact decodeRow_of_scanRows (lengthPrefixedReader array.data)
      (fun row => (hpresent row).trans (decodeCanonicalRow_of_prefixed (.inl hlogical) row)) h
  · next hlogical =>
    exact decodeRow_of_scanRows (lengthPrefixedReader array.data)
      (fun row => (hpresent row).trans (decodeCanonicalRow_of_prefixed (.inr (.inl hlogical)) row)) h
  · next hlogical =>
    exact decodeRow_of_scanRows (lengthPrefixedReader array.data)
      (fun row => (hpresent row).trans (decodeCanonicalRow_of_prefixed (.inr (.inr hlogical)) row)) h
  · next hnull hbool hutf8 hbinary hjson =>
    split at h
    · cases h
    next width hwidth =>
    refine decodeRow_of_fixedRows (fun row => (hpresent row).trans ?_) h
    unfold EncodedArray.decodeCanonicalRow
    split <;> first | contradiction | rw [hwidth]

/-- The case of a local codebook. -/
theorem decodeRow_of_localCodebook (hencoding : array.encoding = .localCodebook)
    (h : (do
      let payload ← LocalCodebookPayload.parse array.data
      let values ← payload.decodeValues
      array.valuesFrom array.valueFromLocalCodebook values) = .ok rows) :
    rows.length = array.rowCount ∧
      ∀ i value, rows[i]? = some value → array.decodeRow i = .ok value := by
  obtain ⟨payload, hpayload, h⟩ := bind_eq_ok.mp h
  obtain ⟨values, hvalues, h⟩ := bind_eq_ok.mp h
  obtain ⟨hcount, hlength, hexpected, hget⟩ := valuesFrom_spec h
  refine ⟨hlength, fun i value hvalue => ?_⟩
  have hi : i < rows.length := (List.getElem?_eq_some_iff.mp hvalue).1
  obtain ⟨a, ha, hfinish⟩ := hget i value hvalue
  refine decodeRow_of_finish (by omega) ?_ hfinish
  have hpick : Fault.lift (LocalCodebookValues.pick values i) = .ok a := by
    rw [LocalCodebookValues.pick, ha]
    rfl
  unfold EncodedArray.decodePresentRow
  rw [hencoding]
  dsimp only
  rw [hpayload, ok_bind, hvalues, ok_bind, hexpected, ok_bind, if_neg (not_not.mpr hcount), hpick,
    ok_bind]

/-- **A row of the bulk reader is the row read alone.** One case for each encoding. -/
theorem decodeRow_of_decodeAllRows (hcovers : array.ValidityCovers)
    (h : array.decodeAllRows = .ok rows) : rows.length = array.rowCount ∧
      ∀ i value, rows[i]? = some value → array.decodeRow i = .ok value := by
  unfold EncodedArray.decodeAllRows at h
  cases hencoding : array.encoding
  all_goals rw [hencoding] at h
  case canonical => exact decodeRow_of_canonical hcovers hencoding h
  case localCodebook => exact decodeRow_of_localCodebook hencoding h
  case plainVarint => exact decodeRow_of_scanRows (varintReader array.data) (fun _ => by
    rw [EncodedArray.decodePresentRow, hencoding]; rfl) h
  case varBytes => exact decodeRow_of_scanRows (varBytesReader array.data) (fun _ => by
    rw [EncodedArray.decodePresentRow, hencoding]; rfl) h
  -- What is left are the encodings whose rows are collected, and those of integers.
  all_goals first
    | exact decodeRow_of_collectRows h
    | exact decodeRow_of_integerRows (fun _ => by
        rw [EncodedArray.decodePresentRow, hencoding]) h

/-! ## The prepared page -/

/-- A page that is read directly. -/
theorem decodeRow_of_direct (hcovers : array.ValidityCovers) (h : array.decodeAllRows = .ok rows) :
    ∀ i value, rows[i]? = some value →
      PreparedEncodedArray.decodeRow ⟨array, .direct⟩ i = .ok value := by
  obtain ⟨hlength, hget⟩ := decodeRow_of_decodeAllRows hcovers h
  intro i value hvalue
  have hi : i < rows.length := (List.getElem?_eq_some_iff.mp hvalue).1
  unfold PreparedEncodedArray.decodeRow
  rw [if_neg (show ¬ i ≥ array.rowCount by omega)]
  exact hget i value hvalue

/-- A page that keeps its decoded values. -/
theorem decodeRow_of_decodedValues (hlength : rows.length = array.rowCount) :
    ∀ i value, rows[i]? = some value →
      PreparedEncodedArray.decodeRow ⟨array, .decodedValues rows⟩ i = .ok value := by
  intro i value hvalue
  have hi : i < rows.length := (List.getElem?_eq_some_iff.mp hvalue).1
  unfold PreparedEncodedArray.decodeRow
  rw [if_neg (show ¬ i ≥ array.rowCount by omega)]
  show getRow rows i = _
  rw [getRow, hvalue]

/-- A page that keeps where its rows start. -/
theorem decodeRow_of_variableOffsets (reader : RowReader α) (kind : VariableOffsetKind)
    (hkind : ∀ offset repr, PreparedEncodedArray.valueAt ⟨array, repr⟩ kind offset =
      reader.single offset)
    (h : array.scanRows reader.read reader.value = .ok rows) :
    ∃ repr, variableOffsets kind reader.skip array.rowCount = .ok repr ∧
      ∀ i value, rows[i]? = some value →
        PreparedEncodedArray.decodeRow ⟨array, repr⟩ i = .ok value := by
  obtain ⟨hlength, offsets, hplaces, hexpected, hget⟩ := scanRows_spec reader h
  refine ⟨.variableOffsets kind offsets,
    bind_eq_ok.mpr ⟨_, hexpected, bind_eq_ok.mpr ⟨_, hplaces, rfl⟩⟩, fun i value hvalue => ?_⟩
  have hi : i < rows.length := (List.getElem?_eq_some_iff.mp hvalue).1
  obtain ⟨place, hplace, -, hfinish⟩ := hget i value hvalue
  have hrow : getRow offsets i = .ok place := by rw [getRow, hplace]
  unfold PreparedEncodedArray.decodeRow
  rw [if_neg (show ¬ i ≥ array.rowCount by omega)]
  dsimp only
  rw [hrow, ok_bind, hkind]
  exact hfinish

/-- What preparing a page that the bulk reader reads gives. -/
theorem prepareRepr_of_decodeAllRows (hcovers : array.ValidityCovers)
    (h : array.decodeAllRows = .ok rows) : ∃ repr, array.prepareRepr = .ok repr ∧
      (∀ i value, rows[i]? = some value →
        PreparedEncodedArray.decodeRow ⟨array, repr⟩ i = .ok value) ∧
      ∀ values, repr = .decodedValues values → values = rows := by
  have hlength := (decodeRow_of_decodeAllRows hcovers h).1
  have hdirect := decodeRow_of_direct hcovers h
  have hvalues := decodeRow_of_decodedValues hlength
  have hkeep : ∀ values, PreparedArrayRepr.decodedValues rows = .decodedValues values →
      values = rows := fun _ heq => (PreparedArrayRepr.decodedValues.inj heq).symm
  have hoffsets : ∀ {kind : VariableOffsetKind} {skip : Nat → Except Fault Nat} {repr},
      variableOffsets kind skip array.rowCount = .ok repr →
        ∀ values, repr = .decodedValues values → values = rows := by
    rintro kind skip repr hrepr values rfl
    obtain ⟨expected, -, hrepr⟩ := bind_eq_ok.mp hrepr
    obtain ⟨offsets, -, hrepr⟩ := bind_eq_ok.mp hrepr
    cases hrepr
  unfold EncodedArray.prepareRepr
  cases hencoding : array.encoding
  case plainVarint =>
    rw [EncodedArray.decodeAllRows, hencoding] at h
    obtain ⟨repr, hrepr, hget⟩ := decodeRow_of_variableOffsets (varintReader array.data)
      .plainVarint (fun _ _ => rfl) h
    exact ⟨repr, hrepr, hget, hoffsets hrepr⟩
  case varBytes =>
    rw [EncodedArray.decodeAllRows, hencoding] at h
    obtain ⟨repr, hrepr, hget⟩ := decodeRow_of_variableOffsets (varBytesReader array.data)
      .varBytes (fun _ _ => rfl) h
    exact ⟨repr, hrepr, hget, hoffsets hrepr⟩
  case canonical =>
    by_cases hlogical : array.logical = .utf8 ∨ array.logical = .binary ∨ array.logical = .json
    · have hscan : array.scanRows (lengthPrefixedReader array.data).read
          (lengthPrefixedReader array.data).value = .ok rows := by
        rw [EncodedArray.decodeAllRows, hencoding] at h
        unfold EncodedArray.decodeAllCanonicalRows at h
        rcases hlogical with hlogical | hlogical | hlogical
        · rwa [hlogical] at h
        · rwa [hlogical] at h
        · rwa [hlogical] at h
      obtain ⟨repr, hrepr, hget⟩ := decodeRow_of_variableOffsets (lengthPrefixedReader array.data)
        .canonicalLengthPrefixed (fun _ _ => rfl) hscan
      refine ⟨repr, ?_, hget, hoffsets hrepr⟩
      dsimp only
      rw [if_pos hlogical]
      exact hrepr
    · refine ⟨.direct, ?_, hdirect, nofun⟩
      dsimp only
      rw [if_neg hlogical]
  -- The other encodings keep the decoded values or read the page directly.
  all_goals first
    | exact ⟨.direct, rfl, hdirect, nofun⟩
    | exact ⟨.decodedValues rows, by dsimp only; rw [h, ok_bind], hvalues, hkeep⟩

/-- Every bulk reader takes the number of rows first or after its payload. -/
theorem expected_of_decodeAllRows (h : array.decodeAllRows = .ok rows) :
    Fault.lift (expectedRowCount array.rowCount) = .ok array.rowCount := by
  have hfirst : ∀ {next : Nat → Except Fault (List CoveArrayValue)},
      (Fault.lift (expectedRowCount array.rowCount) >>= next) = .ok rows →
        Fault.lift (expectedRowCount array.rowCount) = .ok array.rowCount := by
    intro next hnext
    obtain ⟨expected, hexpected, -⟩ := bind_eq_ok.mp hnext
    rw [hexpected, expectedRowCount_eq_ok hexpected]
  have hinteger : ∀ {E : Encoding}, array.integerRows E = .ok rows →
      Fault.lift (expectedRowCount array.rowCount) = .ok array.rowCount := by
    intro E hrows
    obtain ⟨values, -, hrows⟩ := bind_eq_ok.mp hrows
    exact hfirst hrows
  unfold EncodedArray.decodeAllRows at h
  cases hencoding : array.encoding
  all_goals rw [hencoding] at h
  case localCodebook =>
    obtain ⟨payload, -, h⟩ := bind_eq_ok.mp h
    obtain ⟨values, -, h⟩ := bind_eq_ok.mp h
    exact hfirst h
  case canonical =>
    have h : array.decodeAllCanonicalRows = .ok rows := h
    unfold EncodedArray.decodeAllCanonicalRows at h
    split at h
    · exact hfirst h
    · exact hfirst h
    · exact hfirst h
    · exact hfirst h
    · exact hfirst h
    · split at h
      · cases h
      · exact hfirst h
  all_goals first
    | exact hfirst h
    | exact hinteger h

/-- **All readers agree.** Where the bulk reader reads a page, every row can be read alone, the page
can be prepared, and the prepared page gives the same rows, all or selected. -/
theorem decode_paths_agree (hcovers : array.ValidityCovers) (h : array.decodeAllRows = .ok rows) :
    rows.length = array.rowCount ∧
    (∀ i value, rows[i]? = some value → array.decodeRow i = .ok value) ∧
    ∃ prepared, array.prepare = .ok prepared ∧
      (∀ i value, rows[i]? = some value → prepared.decodeRow i = .ok value) ∧
      prepared.decodeAllRows = .ok rows ∧
      ∀ selected : List Nat, (∀ row ∈ selected, row < array.rowCount) →
        ∃ out, prepared.decodeSelectedRows selected = .ok out ∧
          out.map some = selected.map fun row => rows[row]? := by
  obtain ⟨hlength, hrow⟩ := decodeRow_of_decodeAllRows hcovers h
  obtain ⟨repr, hrepr, hprepared, hkept⟩ := prepareRepr_of_decodeAllRows hcovers h
  refine ⟨hlength, hrow, ⟨array, repr⟩, bind_eq_ok.mpr ⟨repr, hrepr, rfl⟩, hprepared, ?_, ?_⟩
  · -- A page that keeps its values hands them out; the others collect their rows.
    have hcollected : (List.range array.rowCount).mapM
        (PreparedEncodedArray.decodeRow ⟨array, repr⟩) = .ok rows := by
      rw [← hlength]
      exact Strides.mapM_range_eq_ok fun i hi => hprepared i _ (List.getElem?_eq_getElem hi)
    have hexpected := expected_of_decodeAllRows h
    unfold PreparedEncodedArray.decodeAllRows
    cases repr with
    | decodedValues values => exact congrArg Except.ok (hkept values rfl)
    | direct =>
      dsimp only
      rw [hexpected, ok_bind, hcollected]
    | variableOffsets kind rowOffsets =>
      dsimp only
      rw [hexpected, ok_bind, hcollected]
  · intro selected hselected
    have hstep : ∀ row ∈ selected, ∃ value, rows[row]? = some value ∧
        PreparedEncodedArray.decodeRow ⟨array, repr⟩ row = .ok value := by
      intro row hmem
      have hrow : row < rows.length := hlength ▸ hselected row hmem
      exact ⟨_, List.getElem?_eq_getElem hrow, hprepared row _ (List.getElem?_eq_getElem hrow)⟩
    obtain ⟨out, hout⟩ := exists_forall₂ hstep
    refine ⟨out, mapM_eq_ok.mpr (hout.imp fun row value hvalue => hvalue.2), ?_⟩
    exact map_some_eq_iff.mpr (hout.imp fun row value hvalue => hvalue.1)

/-- Three letters' worth of length-prefixed rows, the second of them null. -/
def letterPage : EncodedArray where
  logical := .utf8
  physical := .varBytes
  rowCount := 3
  encoding := .canonical
  validity := some ⟨[2], 3⟩
  data := [1, 97, 0, 2, 98, 99]
  dictionary := none

/-- The readers of that page. -/
theorem letterPage_paths_agree : ∃ prepared, letterPage.prepare = .ok prepared ∧
    prepared.decodeSelectedRows [2, 0, 2] =
      .ok [.bytes [98, 99], .bytes [97], .bytes [98, 99]] := by
  have hcovers : letterPage.ValidityCovers := by
    rintro bm ⟨⟩
    decide
  have hrows : letterPage.decodeAllRows = .ok [.bytes [97], .null, .bytes [98, 99]] := by
    decide +kernel
  obtain ⟨-, -, prepared, hprepare, -, -, hselect⟩ := decode_paths_agree hcovers hrows
  obtain ⟨out, hout, heq⟩ := hselect [2, 0, 2] (by decide)
  have hout' : out = [.bytes [98, 99], .bytes [97], .bytes [98, 99]] :=
    List.map_injective_iff.mpr (Option.some_injective _) heq
  exact ⟨prepared, hprepare, hout' ▸ hout⟩

end PageArray

end Cove
