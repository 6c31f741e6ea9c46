import Cove.Core.Encodings

/-!
# The rows of an encoded page

What the rows of a payload are, read off its parts, and that both decoders of an encoding give
just these for every payload its parser accepts.

- `RowMeaning`: how many rows a payload declares, and what covers a row.
- `DecodesTo`: both decoders give the rows of that meaning.
- `parsed_payload_decodes`: **every encoding decodes to its rows**; a local codebook does so in its
  own values, and as integers where these are integers.
-/

namespace Cove

variable {runs : List (BitVec 64 × Nat)} {bytes : List UInt8}

namespace Encoding

open Checked LittleEndian

/-- The meaning of the payloads of an encoding. -/
structure RowMeaning (E : Encoding) where
  /-- The number of rows, from the bytes or from the parts of the payload. -/
  declaredRows : List UInt8 → E.Payload → Nat
  /-- The part of the payload that covers a row has the value. -/
  Covers : E.Payload → Nat → BitVec 64 → Prop

/-- Both decoders give the declared rows, each with the value of what covers it. -/
def DecodesTo (E : Encoding) (m : RowMeaning E) : Prop :=
  ∀ bytes payload, E.parse bytes = .ok payload →
    ∃ rows, E.canonicalDecode payload = .ok rows ∧ E.fastDecode payload = .ok rows ∧
      rows.length = m.declaredRows bytes payload ∧
      ∀ i v, rows[i]? = some v → m.Covers payload i v

/-! ## Constant rows -/

def constantRows : RowMeaning constant where
  declaredRows bytes _ := fieldNat bytes 8 8
  Covers payload _ v := v = payload.value

theorem constant_decodes : constant.DecodesTo constantRows := by
  intro bytes payload h
  have h : ConstantPayload.parse bytes = .ok payload := Fault.lift_eq_ok.mp h
  unfold ConstantPayload.parse at h
  obtain ⟨-, h⟩ := ite_error_eq_ok.mp h
  obtain ⟨-, h⟩ := ite_error_eq_ok.mp h
  obtain rfl := Except.ok.inj h
  refine ⟨_, rfl, rfl, List.length_replicate, fun i v hv => ?_⟩
  rw [List.getElem?_replicate] at hv
  by_cases hi : i < fieldNat bytes 8 8
  · rw [if_pos hi] at hv
    exact (Option.some.inj hv).symm
  · rw [if_neg hi] at hv
    cases hv

/-! ## Run lengths -/

def rleRows : RowMeaning rle where
  declaredRows _ payload := Runs.total payload.runs
  Covers payload i v := Runs.Covers payload.runs i v

/-- The checked sum is the number of rows. -/
theorem total_of_checkRuns {total out : Nat}
    {prev : Option (BitVec 64)} (h : RlePayload.checkRuns total prev runs = .ok out) :
    out = total + Runs.total runs := by
  induction runs generalizing total prev with
  | nil => exact (Except.ok.inj h).symm
  | cons run runs ih =>
    obtain ⟨v, len⟩ := run
    unfold RlePayload.checkRuns at h
    obtain ⟨-, h⟩ := ite_error_eq_ok.mp h
    obtain ⟨-, h⟩ := ite_error_eq_ok.mp h
    obtain ⟨total', htotal, h⟩ := bind_eq_ok.mp h
    obtain ⟨-, rfl⟩ := addU64_eq_ok.mp htotal
    rw [ih h, Runs.total_cons, Nat.add_assoc]

theorem RlePayload.total_of_parse {payload : RlePayload}
    (h : RlePayload.parse bytes = .ok payload) : Runs.total payload.runs ≤ u32Max := by
  unfold RlePayload.parse at h
  obtain ⟨-, h⟩ := ite_error_eq_ok.mp h
  obtain ⟨-, h⟩ := ite_error_eq_ok.mp h
  obtain ⟨total, htotal, h⟩ := bind_eq_ok.mp h
  obtain ⟨hle, h⟩ := ite_error_eq_ok.mp h
  obtain rfl := Except.ok.inj h
  rw [total_of_checkRuns htotal, Nat.zero_add] at hle
  exact Nat.not_lt.mp hle

theorem resize_add (rows : List (BitVec 64)) (n : Nat) (v : BitVec 64) :
    resize rows (rows.length + n) v = rows ++ List.replicate n v := by
  rw [resize, List.take_of_length_le (Nat.le_add_right _ _), Nat.add_sub_cancel_left]

/-- The loop appends the rows of the runs. The induction is on the runs, from any rows so far. -/
theorem extendRuns_eq_ok {out : List (BitVec 64)} (h : out.length + Runs.total runs < 2 ^ 64) :
    (runs.foldlM (fun out run => do
      let size ← addU64 Fault.panic out.length run.2
      .ok (resize out size run.1)) out : Except Fault _) = .ok (out ++ Runs.expand runs) := by
  induction runs generalizing out with
  | nil => exact congrArg _ (List.append_nil out).symm
  | cons run runs ih =>
    rw [Runs.total_cons] at h
    have hsize : addU64 Fault.panic out.length run.2 = .ok (out.length + run.2) :=
      addU64_eq_ok.mpr ⟨by omega, rfl⟩
    rw [List.foldlM_cons, hsize, ok_bind, ok_bind, resize_add, ih, Runs.expand_cons,
      List.append_assoc]
    rw [List.length_append, List.length_replicate]
    omega

theorem sumLengths_eq_ok (h : Runs.total runs < 2 ^ 64) :
    ∃ total, sumLengths runs = .ok total := by
  have hfold : ∀ acc, acc + Runs.total runs < 2 ^ 64 → ∃ total,
      runs.foldlM (fun total run => addU64 Fault.panic total run.2) acc = .ok total := by
    clear h
    induction runs with
    | nil => exact fun acc _ => ⟨acc, rfl⟩
    | cons run runs ih =>
      intro acc hacc
      rw [Runs.total_cons] at hacc
      obtain ⟨total, htotal⟩ := ih (acc + run.2) (by omega)
      have hsum : addU64 Fault.panic acc run.2 = .ok (acc + run.2) :=
        addU64_eq_ok.mpr ⟨by omega, rfl⟩
      exact ⟨total, by rw [List.foldlM_cons, hsum, ok_bind, htotal]⟩
  exact hfold 0 (by omega)

/-- Runs that the parser accepts expand. -/
theorem rle_fastDecode {payload : RlePayload} (h : Runs.total payload.runs ≤ u32Max) :
    rle.fastDecode payload = .ok (Runs.expand payload.runs) := by
  have hlt : Runs.total payload.runs < 2 ^ 64 := by
    unfold u32Max at h
    omega
  obtain ⟨total, htotal⟩ := sumLengths_eq_ok hlt
  show (sumLengths payload.runs >>= fun _ => extendRuns payload.runs) = _
  rw [htotal, ok_bind, extendRuns, extendRuns_eq_ok (by rwa [List.length_nil, Nat.zero_add]),
    List.nil_append]

theorem rle_decodes : rle.DecodesTo rleRows := by
  intro bytes payload h
  have htotal := RlePayload.total_of_parse (Fault.lift_eq_ok.mp h)
  exact ⟨_, rle_fastDecode htotal, rle_fastDecode htotal, Runs.length_expand _,
    fun i v => Runs.getElem?_expand.mp⟩

/-! ## Run ends -/

def runEndRows : RowMeaning runEnd where
  declaredRows _ payload := payload.runEnds.getLast?.getD 0
  Covers payload i v := Runs.CoversEnds (payload.values.zip payload.runEnds) i v

theorem increasing_of_checkEnds {prev : Nat} {stops : List Nat}
    (h : RunEndPayload.checkEnds prev stops = .ok ()) : Runs.Increasing prev stops := by
  induction stops generalizing prev with
  | nil => exact trivial
  | cons stop stops ih =>
    unfold RunEndPayload.checkEnds at h
    obtain ⟨hlt, h⟩ := ite_error_eq_ok.mp h
    exact ⟨Nat.lt_of_not_le hlt, ih h⟩

/-- The loop appends the rows of the runs, from where it stands. -/
theorem foldl_runEnds (runs : List (BitVec 64 × Nat)) (out : List (BitVec 64)) (start : Nat) :
    (runs.foldl (fun state run =>
      (state.1 ++ List.replicate (run.2 - state.2) run.1, run.2)) (out, start)).1 =
      out ++ Runs.expandEnds start runs := by
  induction runs generalizing out start with
  | nil => exact (List.append_nil out).symm
  | cons run runs ih =>
    rw [List.foldl_cons, ih, List.append_assoc]
    rfl

theorem runEnd_decodes : runEnd.DecodesTo runEndRows := by
  intro bytes payload h
  have h : RunEndPayload.parse bytes = .ok payload := Fault.lift_eq_ok.mp h
  unfold RunEndPayload.parse at h
  obtain ⟨-, h⟩ := ite_error_eq_ok.mp h
  obtain ⟨-, h⟩ := ite_error_eq_ok.mp h
  obtain ⟨_, hends, h⟩ := bind_eq_ok.mp h
  have hlength : payload.values.length = payload.runEnds.length := by
    obtain rfl := Except.ok.inj h
    simp
  have hincreasing : Runs.Increasing 0 ((payload.values.zip payload.runEnds).map Prod.snd) := by
    rw [List.map_snd_zip (Nat.le_of_eq hlength.symm)]
    obtain rfl := Except.ok.inj h
    exact increasing_of_checkEnds hends
  have hdecode : runEnd.decode payload =
      .ok (Runs.expandEnds 0 (payload.values.zip payload.runEnds)) := by
    unfold runEnd.decode
    rw [if_neg (not_not.mpr hlength), foldl_runEnds, List.nil_append]
  refine ⟨_, hdecode, hdecode, ?_, fun i v hv => ?_⟩
  · have hcount := Runs.length_expandEnds hincreasing
    rwa [Nat.zero_add, List.map_snd_zip (Nat.le_of_eq hlength.symm)] at hcount
  · have hcovers := Runs.coversEnds_of_getElem? hincreasing hv
    rwa [Nat.zero_add] at hcovers

/-! ## Sparse rows and patched rows -/

def sparseRows : RowMeaning sparse where
  declaredRows bytes _ := fieldNat bytes 0 4
  Covers payload i v :=
    Runs.Patched (List.replicate payload.rowCount payload.fill) payload.overrides i v

def patchedBaseRows : RowMeaning patchedBase where
  declaredRows bytes _ := fieldNat bytes 0 4
  Covers payload i v := Runs.Patched payload.base payload.patches i v

/-- Checked overrides lie within the rows and at distinct places: each lies after the one before. -/
theorem overrides_of_check {rowCount : Nat} {prev : Option Nat} {overrides : List (Nat × BitVec 64)}
    (h : checkOverrides rowCount prev overrides = .ok ()) :
    (∀ entry ∈ overrides, entry.1 < rowCount) ∧
      (∀ entry ∈ overrides, ∀ place, prev = some place → place < entry.1) ∧
      (overrides.map Prod.fst).Nodup := by
  induction overrides generalizing prev with
  | nil => exact ⟨nofun, nofun, List.nodup_nil⟩
  | cons entry overrides ih =>
    obtain ⟨p, v⟩ := entry
    unfold checkOverrides at h
    obtain ⟨hprev, h⟩ := ite_error_eq_ok.mp h
    obtain ⟨hlt, h⟩ := ite_error_eq_ok.mp h
    obtain ⟨hin, hafter, hnodup⟩ := ih h
    have hhead : ∀ place, prev = some place → place < p := by
      rintro place rfl
      rw [Option.any_some, decide_eq_true_iff] at hprev
      omega
    refine ⟨List.forall_mem_cons.mpr ⟨Nat.lt_of_not_le hlt, hin⟩, ?_, ?_⟩
    · refine List.forall_mem_cons.mpr ⟨hhead, fun entry hentry place hplace => ?_⟩
      exact (hhead place hplace).trans (hafter entry hentry p rfl)
    · rw [List.map_cons, List.nodup_cons]
      refine ⟨fun hmem => ?_, hnodup⟩
      obtain ⟨entry, hentry, heq⟩ := List.mem_map.mp hmem
      have hp : p < entry.1 := hafter entry hentry p rfl
      have heq : entry.1 = p := heq
      omega

theorem sparse_decodes : sparse.DecodesTo sparseRows := by
  intro bytes payload h
  have h : SparsePayload.parse bytes = .ok payload := Fault.lift_eq_ok.mp h
  unfold SparsePayload.parse at h
  obtain ⟨-, h⟩ := ite_error_eq_ok.mp h
  obtain ⟨-, h⟩ := ite_error_eq_ok.mp h
  obtain ⟨_, hcheck, h⟩ := bind_eq_ok.mp h
  obtain ⟨hin, -, hnodup⟩ := overrides_of_check hcheck
  obtain rfl := Except.ok.inj h
  obtain ⟨rows, hrows, hlength, hget⟩ := Runs.writeAll_eq_ok Fault.panic
    (List.replicate (fieldNat bytes 0 4) (i64At bytes 4))
    (fun entry hentry => by rw [List.length_replicate]; exact hin entry hentry) hnodup
  exact ⟨rows, hrows, hrows, hlength.trans List.length_replicate, hget⟩

theorem patchedBase_decodes : patchedBase.DecodesTo patchedBaseRows := by
  intro bytes payload h
  have h : PatchedBasePayload.parse bytes = .ok payload := Fault.lift_eq_ok.mp h
  unfold PatchedBasePayload.parse at h
  obtain ⟨-, h⟩ := ite_error_eq_ok.mp h
  obtain ⟨-, h⟩ := ite_error_eq_ok.mp h
  obtain ⟨-, h⟩ := ite_error_eq_ok.mp h
  obtain ⟨_, hcheck, h⟩ := bind_eq_ok.mp h
  obtain ⟨hin, -, hnodup⟩ := overrides_of_check hcheck
  have hbase : payload.base.length = fieldNat bytes 0 4 := by
    obtain rfl := Except.ok.inj h
    simp
  have hpatches : (∀ entry ∈ payload.patches, entry.1 < payload.base.length) ∧
      (payload.patches.map Prod.fst).Nodup := by
    rw [hbase]
    obtain rfl := Except.ok.inj h
    exact ⟨hin, hnodup⟩
  obtain ⟨rows, hrows, hlength, hget⟩ :=
    Runs.writeAll_eq_ok (Fault.error .pageCorrupt) payload.base hpatches.1 hpatches.2
  exact ⟨rows, hrows, hrows, hlength.trans hbase, hget⟩

/-! ## Offsets from a value -/

def frameOfReferenceRows : RowMeaning frameOfReference where
  declaredRows bytes _ := fieldNat bytes 8 4
  Covers payload i v := ∃ offset, payload.offsets[i]? = some offset ∧ v = payload.reference + offset

theorem frameOfReference_decodes : frameOfReference.DecodesTo frameOfReferenceRows := by
  intro bytes payload h
  have h : ForPayload.parse bytes = .ok payload := Fault.lift_eq_ok.mp h
  unfold ForPayload.parse at h
  obtain ⟨-, h⟩ := ite_error_eq_ok.mp h
  obtain ⟨-, h⟩ := ite_error_eq_ok.mp h
  have hlength : payload.offsets.length = fieldNat bytes 8 4 := by
    obtain rfl := Except.ok.inj h
    simp
  refine ⟨_, rfl, rfl, (List.length_map _).trans hlength, fun i v hv => ?_⟩
  rw [List.getElem?_map, Option.map_eq_some_iff] at hv
  obtain ⟨offset, hoffset, rfl⟩ := hv
  exact ⟨offset, hoffset, rfl⟩

/-- A row is the base and the deltas before it, all added up. -/
def deltaRows : RowMeaning delta where
  declaredRows bytes _ := fieldNat bytes 8 4 + 1
  Covers payload i v := v = (payload.deltas.take i).foldl (· + ·) payload.base

theorem length_of_readDeltas {n : Nat} {deltas : List (BitVec 64)}
    (h : readDeltas n bytes = .ok deltas) : deltas.length = n := by
  induction n generalizing bytes deltas with
  | zero =>
    obtain rfl := Except.ok.inj h
    rfl
  | succ n ih =>
    unfold readDeltas at h
    obtain ⟨⟨z, used⟩, -, h⟩ := bind_eq_ok.mp h
    obtain ⟨rest, hrest, h⟩ := bind_eq_ok.mp h
    obtain rfl := Except.ok.inj h
    rw [List.length_cons, ih hrest]

/-- The loop appends a row for each delta. -/
theorem foldl_deltas (deltas out : List (BitVec 64)) (cur : BitVec 64) : ∃ rows,
    (deltas.foldl (fun state d => (state.1 ++ [state.2 + d], state.2 + d)) (out, cur)).1 =
        out ++ rows ∧
      rows.length = deltas.length ∧
      ∀ i v, rows[i]? = some v → v = (deltas.take (i + 1)).foldl (· + ·) cur := by
  induction deltas generalizing out cur with
  | nil => exact ⟨[], (List.append_nil out).symm, rfl, nofun⟩
  | cons d deltas ih =>
    obtain ⟨rows, hfold, hlength, hrows⟩ := ih (out ++ [cur + d]) (cur + d)
    refine ⟨(cur + d) :: rows, ?_, ?_, fun i v hv => ?_⟩
    · rw [List.foldl_cons, hfold, List.append_assoc, List.singleton_append]
    · rw [List.length_cons, hlength, List.length_cons]
    · rw [List.take_succ_cons, List.foldl_cons]
      cases i with
      | zero =>
        obtain rfl := Option.some.inj hv
        rfl
      | succ i => exact hrows i v hv

theorem delta_decodes : delta.DecodesTo deltaRows := by
  intro bytes payload h
  have h : DeltaPayload.parse bytes = .ok payload := Fault.lift_eq_ok.mp h
  unfold DeltaPayload.parse at h
  obtain ⟨-, h⟩ := ite_error_eq_ok.mp h
  obtain ⟨deltas, hdeltas, h⟩ := bind_eq_ok.mp h
  have hlength : payload.deltas.length = fieldNat bytes 8 4 := by
    obtain rfl := Except.ok.inj h
    exact length_of_readDeltas hdeltas
  obtain ⟨rows, hfold, hrowsLength, hrows⟩ :=
    foldl_deltas payload.deltas [payload.base] payload.base
  have hdecode : delta.decode payload = .ok (payload.base :: rows) := congrArg Except.ok hfold
  refine ⟨_, hdecode, hdecode, ?_, fun i v hv => ?_⟩
  · rw [List.length_cons, hrowsLength, hlength]
    rfl
  · cases i with
    | zero =>
      obtain rfl := Option.some.inj hv
      rfl
    | succ i => exact hrows i v hv

/-! ## Packed bits -/

/-- A row is the number of its bits in the stream, widened by zeros. -/
def BitPackedPayload.Covers (payload : BitPackedPayload) (i : Nat) (v : BitVec 64) : Prop :=
  ∀ j < 64, v.getLsbD j = (decide (j < payload.bitsPerValue) &&
    ByteBits.get payload.bits (i * payload.bitsPerValue + j))

def bitPackedRows : RowMeaning bitPacked where
  declaredRows bytes _ := fieldNat bytes 1 4
  Covers payload := payload.Covers

/-- What the parser checks of packed bits. -/
structure BitPackedPayload.Fits (payload : BitPackedPayload) : Prop where
  pos : 1 ≤ payload.bitsPerValue
  le : payload.bitsPerValue ≤ 63
  rows : payload.rowCount < 2 ^ 32
  bits : payload.rowCount * payload.bitsPerValue ≤ 8 * payload.bits.length

theorem BitPackedPayload.fits_of_parse {payload : BitPackedPayload}
    (h : BitPackedPayload.parse bytes = .ok payload) :
    payload.Fits ∧ payload.rowCount = fieldNat bytes 1 4 := by
  unfold BitPackedPayload.parse at h
  obtain ⟨-, h⟩ := ite_error_eq_ok.mp h
  obtain ⟨hbpv, h⟩ := ite_error_eq_ok.mp h
  obtain ⟨hlong, h⟩ := ite_error_eq_ok.mp h
  obtain ⟨hneed, h⟩ := ite_error_eq_ok.mp h
  obtain rfl := Except.ok.inj h
  have hbpv := Decidable.not_not.mp hbpv
  have hrows : fieldNat bytes 1 4 < 2 ^ 32 := fieldNat_lt bytes 1 4
  have hlength : (fieldBytes bytes 9 (fieldNat bytes 5 4)).length = fieldNat bytes 5 4 := by
    rw [fieldBytes, List.length_take, List.length_drop]
    omega
  refine ⟨⟨hbpv.1, hbpv.2, hrows, ?_⟩, rfl⟩
  show fieldNat bytes 1 4 * fieldNat bytes 0 1 ≤ 8 * _
  rw [hlength]
  omega

section Packed

variable {payload : BitPackedPayload}

/-- The value of a row, from the whole stream as one number. -/
def BitPackedPayload.rowValue (payload : BitPackedPayload) (r : Nat) : BitVec 64 :=
  BitPackedPayload.extract (ofLe payload.bits) (r * payload.bitsPerValue) payload.bitsPerValue

theorem BitPackedPayload.rowValue_covers (r : Nat) : payload.Covers r (payload.rowValue r) := by
  intro j hj
  rw [rowValue, extract, BitVec.getLsbD_ofNat, Nat.testBit_and, Nat.testBit_shiftRight,
    Nat.testBit_two_pow_sub_one, ByteBits.testBit_ofLe, Bool.and_comm]
  simp [hj, Bool.and_comm]

/-- **A loaded word has the value of a row** when it reaches over all its bits. -/
theorem BitPackedPayload.extract_window {w r : Nat}
    (h : r * payload.bitsPerValue % 8 + payload.bitsPerValue ≤ 8 * w) :
    extract (ofLe (fieldBytes payload.bits (r * payload.bitsPerValue / 8) w))
      (r * payload.bitsPerValue % 8) payload.bitsPerValue = payload.rowValue r := by
  rw [rowValue, extract, extract]
  refine congrArg _ (Nat.eq_of_testBit_eq fun j => ?_)
  rw [Nat.testBit_and, Nat.testBit_and, Nat.testBit_shiftRight, Nat.testBit_shiftRight,
    Nat.testBit_two_pow_sub_one]
  by_cases hj : j < payload.bitsPerValue
  · rw [fieldBytes, ByteBits.testBit_ofLe_window payload.bits (by omega), ByteBits.testBit_ofLe,
      ← Nat.add_assoc, Nat.div_add_mod]
  · -- Past the width of a value the mask is zero on both sides.
    rw [decide_eq_false hj, Bool.and_false, Bool.and_false]

/-- A loop whose rounds each append the value of their row. -/
theorem foldlM_rounds {step : List (BitVec 64) × Nat → Nat → Except Fault (List (BitVec 64) × Nat)}
    {n bpv : Nat} {value : Nat → BitVec 64}
    (h : ∀ r < n, ∀ out, step (out, r * bpv) r = .ok (out ++ [value r], (r + 1) * bpv)) :
    (List.range n).foldlM step ([], 0) = .ok ((List.range n).map value, n * bpv) := by
  induction n with
  | zero => simp [pure, Except.pure]
  | succ n ih =>
    rw [List.range_succ, List.foldlM_append, ih fun r hr => h r (Nat.lt_succ_of_lt hr), ok_bind,
      List.foldlM_cons, h n (Nat.lt_succ_self n), ok_bind, List.map_append]
    rfl

namespace BitPackedPayload

variable {r : Nat}

/-- A row starts within the bytes. -/
theorem Fits.start_lt (h : payload.Fits) (hr : r < payload.rowCount) :
    r * payload.bitsPerValue / 8 < payload.bits.length := by
  have hmul : (r + 1) * payload.bitsPerValue ≤ payload.rowCount * payload.bitsPerValue :=
    Nat.mul_le_mul_right _ hr
  rw [Nat.succ_mul] at hmul
  have hpos := h.pos
  have hbits := h.bits
  omega

theorem Fits.position_lt (h : payload.Fits) (hr : r < payload.rowCount) :
    (r + 1) * payload.bitsPerValue < 2 ^ 64 := by
  have hmul : (r + 1) * payload.bitsPerValue ≤ 2 ^ 32 * 63 :=
    Nat.mul_le_mul (Nat.le_of_lt (Nat.lt_of_le_of_lt hr h.rows)) h.le
  omega

theorem canonicalStep_eq (h : payload.Fits) (hr : r < payload.rowCount) (out : List (BitVec 64)) :
    payload.canonicalStep (out, r * payload.bitsPerValue) r =
      .ok (out ++ [payload.rowValue r], (r + 1) * payload.bitsPerValue) := by
  have hpos : mulU64 (Fault.error .arithOverflow) (r + 1) payload.bitsPerValue =
      .ok ((r + 1) * payload.bitsPerValue) := mulU64_eq_ok.mpr ⟨h.position_lt hr, rfl⟩
  have hle := h.le
  unfold canonicalStep
  dsimp only
  rw [if_neg (Nat.not_le.mpr (h.start_lt hr)), hpos, ok_bind, extract_window (by omega)]

theorem canonicalDecode_eq (h : payload.Fits) :
    payload.canonicalDecode = .ok ((List.range payload.rowCount).map payload.rowValue) := by
  unfold canonicalDecode
  rw [foldlM_rounds fun r hr out => canonicalStep_eq h hr out, ok_bind]

theorem fastStep_eq (h : payload.Fits) (hnarrow : payload.bitsPerValue ≤ 32)
    (hr : r < payload.rowCount) (out : List (BitVec 64)) :
    payload.fastStep (out, r * payload.bitsPerValue) r =
      .ok (out ++ [payload.rowValue r], (r + 1) * payload.bitsPerValue) := by
  have hnext : r * payload.bitsPerValue + payload.bitsPerValue = (r + 1) * payload.bitsPerValue :=
    (Nat.succ_mul _ _).symm
  have hpos : addU64 Fault.panic (r * payload.bitsPerValue) payload.bitsPerValue =
      .ok ((r + 1) * payload.bitsPerValue) :=
    addU64_eq_ok.mpr ⟨hnext ▸ h.position_lt hr, hnext.symm⟩
  have hstart := h.start_lt hr
  -- The slice stops at the end of the bytes, where the word is padded.
  have hslice : ∀ k, fieldBytes payload.bits k (min (payload.bits.length - k) 8) =
      fieldBytes payload.bits k 8 := by
    intro k
    rw [fieldBytes, fieldBytes, ← List.length_drop, Nat.min_comm, ← List.take_take, List.take_length]
  unfold fastStep
  dsimp only
  rw [if_neg (by omega), hpos, ok_bind, hslice, extract_window (by omega)]

theorem fastDecode_eq (h : payload.Fits) :
    payload.fastDecode = .ok ((List.range payload.rowCount).map payload.rowValue) := by
  unfold fastDecode
  by_cases hwide : payload.bitsPerValue > 32
  · rw [if_pos hwide, canonicalDecode_eq h]
  · rw [if_neg hwide, foldlM_rounds fun r hr out => fastStep_eq h (by omega) hr out, ok_bind]

theorem covers_of_getElem? {v : BitVec 64}
    (h : ((List.range payload.rowCount).map payload.rowValue)[r]? = some v) :
    payload.Covers r v := by
  rw [List.getElem?_map, Option.map_eq_some_iff] at h
  obtain ⟨i, hi, rfl⟩ := h
  obtain ⟨hlt, rfl⟩ := List.getElem?_eq_some_iff.mp hi
  rw [List.getElem_range]
  exact rowValue_covers r

end BitPackedPayload

end Packed

theorem bitPacked_decodes : bitPacked.DecodesTo bitPackedRows := by
  intro bytes payload h
  obtain ⟨hfits, hcount⟩ := BitPackedPayload.fits_of_parse (Fault.lift_eq_ok.mp h)
  refine ⟨_, BitPackedPayload.canonicalDecode_eq hfits, BitPackedPayload.fastDecode_eq hfits, ?_,
    fun i v => BitPackedPayload.covers_of_getElem?⟩
  rw [List.length_map, List.length_range, hcount]
  rfl

/-! ## Local codebooks -/

/-- The part of the child payload that covers a row has the value. -/
def LocalIndexPayload.Covers : LocalIndexPayload → Nat → BitVec 64 → Prop
  | rle payload => Runs.Covers payload.runs
  | bitPacked payload => payload.Covers

/-- How many rows the child payload declares. -/
def LocalIndexPayload.declaredRows : LocalIndexPayload → Nat
  | rle payload => Runs.total payload.runs
  | bitPacked payload => payload.rowCount

/-- The value of the codebook under the index that covers the row. -/
def LocalCodebookPayload.Covers (self : LocalCodebookPayload) (i : Nat)
    (value : LocalCodebookValue) : Prop :=
  ∃ index, self.indexes.Covers i index ∧ self.values.valueAt index.toNat = .ok value

/-- The integers among the values of a codebook. -/
def LocalCodebookValue.toI64 : LocalCodebookValue → Option (BitVec 64)
  | fileCode code => some (BitVec.ofNat 64 code)
  | numCode code => if code.toNat < 2 ^ 63 then some code else none
  | boolean b => some (if b then 1 else 0)
  | varBytes _ => none

/-- The child payload decodes to the rows it covers. -/
theorem LocalIndexPayload.decodeLocalIndexes_covers {raw : Nat}
    {indexes : LocalIndexPayload} (hparse : LocalCodebookPayload.parseIndexes raw bytes = .ok indexes)
    {decoded : List Nat} (h : indexes.decodeLocalIndexes = .ok decoded) :
    decoded.length = indexes.declaredRows ∧
      ∀ i index, decoded[i]? = some index → ∃ word, indexes.Covers i word ∧ word.toNat = index := by
  -- The words of the child payload first, whichever of the two it is.
  obtain ⟨words, hwords, hlength, hcovers⟩ : ∃ words, indexes.fastDecode = .ok words ∧
      words.length = indexes.declaredRows ∧
      ∀ i word, words[i]? = some word → indexes.Covers i word := by
    unfold LocalCodebookPayload.parseIndexes at hparse
    split at hparse
    · obtain ⟨payload, hpayload, rfl⟩ := map_eq_ok.mp hparse
      exact ⟨_, rle_fastDecode (RlePayload.total_of_parse hpayload), Runs.length_expand _,
        fun i v => Runs.getElem?_expand.mp⟩
    · obtain ⟨payload, hpayload, rfl⟩ := map_eq_ok.mp hparse
      obtain ⟨hfits, -⟩ := BitPackedPayload.fits_of_parse hpayload
      refine ⟨_, BitPackedPayload.fastDecode_eq hfits, ?_,
        fun i v => BitPackedPayload.covers_of_getElem?⟩
      rw [List.length_map, List.length_range]
      rfl
    · cases hparse
  unfold decodeLocalIndexes at h
  rw [hwords, ok_bind] at h
  obtain ⟨hsame, hget⟩ := List.forall₂_iff_get.mp (mapM_eq_ok.mp h)
  refine ⟨hsame.symm.trans hlength, fun i index hindex => ?_⟩
  obtain ⟨hi, rfl⟩ := List.getElem?_eq_some_iff.mp hindex
  have hi' : i < words.length := by omega
  refine ⟨words[i], hcovers i _ (List.getElem?_eq_getElem hi'), ?_⟩
  have hstep := hget i hi' hi
  dsimp only [List.get_eq_getElem] at hstep
  split at hstep
  · exact Except.ok.inj hstep
  · cases hstep

theorem LocalCodebookValues.exists_valueAt {values : LocalCodebookValues} {index : Nat}
    (h : index < values.len) : ∃ value, values.valueAt index = .ok value := by
  cases values with
  | fileCode l =>
    exact ⟨_, by rw [valueAt, pick, List.getElem?_eq_getElem (show index < l.length from h)]; rfl⟩
  | numCode l =>
    exact ⟨_, by rw [valueAt, pick, List.getElem?_eq_getElem (show index < l.length from h)]; rfl⟩
  | boolean l =>
    exact ⟨_, by rw [valueAt, pick, List.getElem?_eq_getElem (show index < l.length from h)]; rfl⟩
  | varBytes l =>
    exact ⟨_, by rw [valueAt, pick, List.getElem?_eq_getElem (show index < l.length from h)]; rfl⟩

namespace LocalCodebookPayload

variable {payload : LocalCodebookPayload} {rows : List LocalCodebookValue}

/-- A codebook that the parser accepts decodes to its rows. -/
theorem decodeValues_of_parse (h : parse bytes = .ok payload) :
    ∃ rows, payload.decodeValues = .ok rows ∧ rows.length = payload.indexes.declaredRows ∧
      ∀ i value, rows[i]? = some value → payload.Covers i value := by
  unfold parse at h
  obtain ⟨-, h⟩ := ite_error_eq_ok.mp h
  obtain ⟨kind, -, h⟩ := bind_eq_ok.mp h
  obtain ⟨-, h⟩ := ite_error_eq_ok.mp h
  obtain ⟨values, -, h⟩ := bind_eq_ok.mp h
  obtain ⟨indexes, hindexes, h⟩ := bind_eq_ok.mp h
  obtain ⟨decoded, hdecoded, h⟩ := bind_eq_ok.mp h
  obtain ⟨hin, h⟩ := ite_error_eq_ok.mp h
  obtain rfl := Except.ok.inj h
  obtain ⟨hlength, hcovers⟩ :=
    LocalIndexPayload.decodeLocalIndexes_covers (Fault.lift_eq_ok.mp hindexes) hdecoded
  have hlt : ∀ index ∈ decoded, ∃ value, Fault.lift (values.valueAt index) = .ok value := by
    intro index hindex
    have hle : ¬ index ≥ values.len := by
      intro hge
      exact hin (List.any_eq_true.mpr ⟨index, hindex, decide_eq_true hge⟩)
    obtain ⟨value, hvalue⟩ := LocalCodebookValues.exists_valueAt (Nat.lt_of_not_le hle)
    exact ⟨value, Fault.lift_eq_ok.mpr hvalue⟩
  obtain ⟨rows, hrows⟩ := exists_forall₂ hlt
  obtain ⟨hsame, hget⟩ := List.forall₂_iff_get.mp hrows
  refine ⟨rows, bind_eq_ok.mpr ⟨decoded, hdecoded, mapM_eq_ok.mpr hrows⟩, hsame.symm.trans hlength,
    fun i value hvalue => ?_⟩
  obtain ⟨hi, rfl⟩ := List.getElem?_eq_some_iff.mp hvalue
  have hi' : i < decoded.length := by omega
  obtain ⟨word, hword, hnat⟩ := hcovers i _ (List.getElem?_eq_getElem hi')
  exact ⟨word, hword, hnat ▸ Fault.lift_eq_ok.mp (hget i hi' hi)⟩

/-- The rows of a codebook of one kind are its own rows under their constructor. -/
theorem decodeValues_eq_map {α : Type} {values : List α} (wrap : α → LocalCodebookValue)
    (h : ∀ index, payload.values.valueAt index = (LocalCodebookValues.pick values index).map wrap) :
    payload.decodeValues = (payload.decodeKind values).map (List.map wrap) := by
  have hlift : ∀ index, Fault.lift (payload.values.valueAt index) =
      (Fault.lift (LocalCodebookValues.pick values index)).map wrap := by
    intro index
    rw [h]
    cases LocalCodebookValues.pick values index <;> rfl
  unfold decodeValues decodeKind
  cases payload.indexes.decodeLocalIndexes with
  | error e => rfl
  | ok decoded =>
    rw [ok_bind, ok_bind, ← mapM_map]
    exact congrArg (List.mapM · decoded) (funext hlift)

/-- **The rows as integers.** The decoders give them exactly when the codebook is not one of
bytes and every row's value is an integer of the signed range. -/
theorem decodeI64Values_eq_ok (h : payload.decodeValues = .ok rows) {ints : List (BitVec 64)} :
    payload.decodeI64Values = .ok ints ↔
      payload.values.kind ≠ .varBytes ∧ rows.map LocalCodebookValue.toI64 = ints.map some := by
  have hsome : ∀ (l : List (BitVec 64)), l = ints ↔ l.map some = ints.map some :=
    fun l => (List.map_injective_iff.mpr (Option.some_injective _)).eq_iff.symm
  obtain ⟨values, indexes⟩ := payload
  cases values with
  | fileCode values =>
    rw [decodeValues_eq_map .fileCode fun _ => rfl] at h
    obtain ⟨codes, hcodes, rfl⟩ := map_eq_ok.mp h
    have hdecode : decodeI64Values ⟨.fileCode values, indexes⟩ =
        .ok (codes.map (BitVec.ofNat 64)) := bind_eq_ok.mpr ⟨codes, hcodes, rfl⟩
    rw [hdecode, Except.ok.injEq, hsome, List.map_map, List.map_map]
    exact (and_iff_right nofun).symm
  | numCode values =>
    rw [decodeValues_eq_map .numCode fun _ => rfl] at h
    obtain ⟨codes, hcodes, rfl⟩ := map_eq_ok.mp h
    have hdecode : decodeI64Values ⟨.numCode values, indexes⟩ = codes.mapM i64OfNumCode := by
      show (decodeKind ⟨.numCode values, indexes⟩ values >>= _) = _
      rw [hcodes, ok_bind]
    have hstep : ∀ code int, i64OfNumCode code = .ok int ↔
        (LocalCodebookValue.numCode code).toI64 = some int := by
      intro code int
      show (if code.toNat < 2 ^ 63 then _ else _) = _ ↔ (if code.toNat < 2 ^ 63 then _ else _) = _
      by_cases hcode : code.toNat < 2 ^ 63
      · rw [if_pos hcode, if_pos hcode, Except.ok.injEq, Option.some.injEq]
      · rw [if_neg hcode, if_neg hcode]
        exact iff_of_false nofun nofun
    rw [hdecode, mapM_eq_ok, List.map_map, eq_comm (b := ints.map some), map_some_eq_iff]
    refine Iff.trans ?_ (and_iff_right nofun).symm
    exact ⟨List.Forall₂.imp fun code int => (hstep code int).mp,
      List.Forall₂.imp fun code int => (hstep code int).mpr⟩
  | boolean values =>
    rw [decodeValues_eq_map .boolean fun _ => rfl] at h
    obtain ⟨bits, hbits, rfl⟩ := map_eq_ok.mp h
    have hdecode : decodeI64Values ⟨.boolean values, indexes⟩ =
        .ok (bits.map fun b => if b then 1 else 0) := bind_eq_ok.mpr ⟨bits, hbits, rfl⟩
    rw [hdecode, Except.ok.injEq, hsome, List.map_map, List.map_map]
    exact (and_iff_right nofun).symm
  | varBytes values => exact iff_of_false nofun fun h => h.1 rfl

/-- The decoders may give an error, but do not panic. -/
theorem decodeI64Values_ne_panic (h : payload.decodeValues = .ok rows) :
    payload.decodeI64Values ≠ .error .panic := by
  obtain ⟨values, indexes⟩ := payload
  cases values with
  | fileCode values =>
    rw [decodeValues_eq_map .fileCode fun _ => rfl] at h
    obtain ⟨codes, hcodes, -⟩ := map_eq_ok.mp h
    show (decodeKind ⟨.fileCode values, indexes⟩ values >>= _) ≠ _
    rw [hcodes, ok_bind]
    nofun
  | numCode values =>
    rw [decodeValues_eq_map .numCode fun _ => rfl] at h
    obtain ⟨codes, hcodes, -⟩ := map_eq_ok.mp h
    show (decodeKind ⟨.numCode values, indexes⟩ values >>= _) ≠ _
    rw [hcodes, ok_bind]
    intro hpanic
    obtain ⟨code, -, hcode⟩ := exists_error_of_mapM hpanic
    unfold i64OfNumCode at hcode
    split at hcode <;> cases hcode
  | boolean values =>
    rw [decodeValues_eq_map .boolean fun _ => rfl] at h
    obtain ⟨bits, hbits, -⟩ := map_eq_ok.mp h
    show (decodeKind ⟨.boolean values, indexes⟩ values >>= _) ≠ _
    rw [hbits, ok_bind]
    nofun
  | varBytes values => nofun

end LocalCodebookPayload

/-- **Every encoding decodes to its rows.** A local codebook decodes to values of its own kind; its
two integer decoders agree, and give these rows as integers whenever they can be. -/
theorem parsed_payload_decodes :
    constant.DecodesTo constantRows ∧ rle.DecodesTo rleRows ∧ runEnd.DecodesTo runEndRows ∧
    sparse.DecodesTo sparseRows ∧ patchedBase.DecodesTo patchedBaseRows ∧
    frameOfReference.DecodesTo frameOfReferenceRows ∧ delta.DecodesTo deltaRows ∧
    bitPacked.DecodesTo bitPackedRows ∧
    ∀ bytes payload, localCodebook.parse bytes = .ok payload →
      ∃ rows, LocalCodebookPayload.decodeValues payload = .ok rows ∧
        rows.length = payload.indexes.declaredRows ∧
        (∀ i value, rows[i]? = some value → payload.Covers i value) ∧
        localCodebook.canonicalDecode payload = localCodebook.fastDecode payload ∧
        localCodebook.canonicalDecode payload ≠ .error .panic ∧
        ∀ ints, localCodebook.canonicalDecode payload = .ok ints ↔
          payload.values.kind ≠ .varBytes ∧
            rows.map LocalCodebookValue.toI64 = ints.map some := by
  refine ⟨constant_decodes, rle_decodes, runEnd_decodes, sparse_decodes, patchedBase_decodes,
    frameOfReference_decodes, delta_decodes, bitPacked_decodes, fun bytes payload h => ?_⟩
  obtain ⟨rows, hrows, hlength, hcovers⟩ := LocalCodebookPayload.decodeValues_of_parse h
  exact ⟨rows, hrows, hlength, hcovers, rfl, LocalCodebookPayload.decodeI64Values_ne_panic hrows,
    fun ints => LocalCodebookPayload.decodeI64Values_eq_ok hrows⟩

/-- One letter for two rows, under run-length indexes. -/
def letterCodebook : List UInt8 :=
  [6, 0, 4, 0, 1, 0, 0, 0, 16, 0, 0, 0] ++ [1, 0, 0, 0, 114] ++
    [1, 0, 0, 0, 0, 0, 0, 0, 0, 0, 0, 0, 2, 0, 0, 0]

/-- Its payload. -/
def letterPayload : LocalCodebookPayload := ⟨.varBytes [[114]], .rle ⟨[(0, 2)]⟩⟩

theorem parse_letterCodebook : LocalCodebookPayload.parse letterCodebook = .ok letterPayload := by
  decide +kernel

/-- An accepted codebook of bytes has no integer rows. -/
theorem letterCodebook_not_integers :
    ¬ ∀ bytes payload, localCodebook.parse bytes = .ok payload →
      ∃ rows, localCodebook.canonicalDecode payload = .ok rows ∧
        localCodebook.fastDecode payload = .ok rows := by
  intro h
  obtain ⟨rows, hrows, -⟩ := h letterCodebook letterPayload parse_letterCodebook
  cases hrows

/-- The rows of that codebook, as the general result gives them. -/
theorem letterCodebook_decodes :
    ∃ rows, letterPayload.decodeValues = .ok rows ∧ rows.length = 2 := by
  obtain ⟨-, -, -, -, -, -, -, -, hcodebook⟩ := parsed_payload_decodes
  obtain ⟨rows, hrows, hlength, -⟩ := hcodebook letterCodebook letterPayload parse_letterCodebook
  exact ⟨rows, hrows, hlength⟩

end Encoding

end Cove
