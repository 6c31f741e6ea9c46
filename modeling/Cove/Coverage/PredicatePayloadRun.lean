import Mathlib.Data.List.Perm.Subperm
import Cove.Core.SealedRecord
import Cove.Coverage.PredicateAst
import Cove.Lib.Digests

/-!
# Slices of predicate payloads

The parsers of predicate payloads with the slices they take: of the bytes for a record, a table
and a function, of the operand table for a node. A slice out of range panics, and so does a walk
of the node graph that goes deeper than there are nodes.

- `slice` behind its check: `cursorBytesRun_eq`, `recordRun_eq`, `fixedTableRun_eq`.
- `visitRun_eq`: **the walk of accepted nodes** slices in range and stays within the nodes.
- `PredicateAstPayloadV2.parseRun`, `PredicateNormalisedPayloadV2.parseRun`.
- `parseRun_ne_panic_iff`: **when parsing does not panic**: the function table is sliced at the
  offset of the header before anything is checked of it.
-/

namespace Cove

open Checked Fault

/-! ## Cursors and records -/

section

variable (crc32c : List UInt8 → Nat)

/-- `Cursor::bytes`. -/
def cursorBytesRun (bytes : List UInt8) (position len : Nat) :
    Except Fault (List UInt8 × Nat) := do
  let stop ← lift (checkedAdd position len)
  if stop > bytes.length then .error (.error .bufferTooShort)
  else do
    let out ← slice bytes position stop
    .ok (out, stop)

def cursorNatRun (bytes : List UInt8) (position len : Nat) : Except Fault (Nat × Nat) := do
  let (field, position) ← cursorBytesRun bytes position len
  .ok (LittleEndian.ofLe field, position)

/-- `Cursor::string`. -/
def cursorStringRun (bytes : List UInt8) (position : Nat) : Except Fault (Str × Nat) := do
  let (len, position) ← cursorNatRun bytes position 2
  let (field, position) ← cursorBytesRun bytes position len
  let value ← lift (fromCode (strFromUtf8 field))
  .ok (value, position)

/-- `verify_crc`: the checksum field is overwritten in a copy. -/
def verifyCrcRun (bytes : List UInt8) (checksumOffset expected : Nat) : Except Fault Unit := do
  let _ ← slice bytes checksumOffset (checksumOffset + 4)
  lift (verifyCrc crc32c bytes checksumOffset expected)

/-- A record of fixed length that ends with its checksum: it is sliced off for the check once the
bytes are long enough; its fields are read with checks. -/
def recordRun {α : Type} (len : Nat) (parse : List UInt8 → Except CoveError α)
    (bytes : List UInt8) : Except Fault α :=
  if bytes.length < len then lift (parse bytes)
  else do
    let record ← slice bytes 0 len
    let _ ← slice record (len - 4) len
    lift (parse bytes)

/-- `PredicateFunctionRefV2::parse_one`. -/
def parseOneRun (bytes : List UInt8) : Except Fault (PredicateFunctionRefV2 × Nat) := do
  let (functionRef, position) ← cursorNatRun bytes 0 4
  let (functionNamespace, position) ← cursorStringRun bytes position
  let (name, position) ← cursorStringRun bytes position
  let (versionMajor, position) ← cursorNatRun bytes position 2
  let (versionMinor, position) ← cursorNatRun bytes position 2
  let (deterministic, position) ← cursorNatRun bytes position 1
  let (flags, position) ← cursorNatRun bytes position 1
  let (requiredExtensionRef, checksumOffset) ← cursorNatRun bytes position 4
  let (checksum, consumed) ← cursorNatRun bytes checksumOffset 4
  let record ← slice bytes 0 consumed
  verifyCrcRun crc32c record checksumOffset checksum
  if deterministic > 1 then .error (.error .badCoverage)
  else
    .ok (⟨functionRef, functionNamespace, name, versionMajor, versionMinor, deterministic, flags,
      requiredExtensionRef⟩, consumed)

end

variable {bytes : List UInt8}

variable {len position : Nat}

theorem slice_fieldBytes (h : position + len ≤ bytes.length) :
    slice bytes position (position + len) = .ok (fieldBytes bytes position len) := by
  rw [slice_eq (Nat.le_add_right _ _) h, Nat.add_sub_cancel_left, fieldBytes]

theorem cursorBytesRun_eq (bytes : List UInt8) (position len : Nat) :
    cursorBytesRun bytes position len = lift (cursorBytes bytes position len) := by
  unfold cursorBytesRun cursorBytes
  refine lift_bind_eq fun stop hstop => ?_
  obtain ⟨-, rfl⟩ := addU64_eq_ok.mp hstop
  by_cases hlong : position + len > bytes.length
  · rw [if_pos hlong, if_pos hlong]
    rfl
  · rw [if_neg hlong, if_neg hlong, slice_fieldBytes (by omega)]
    rfl

theorem cursorNatRun_eq (bytes : List UInt8) (position len : Nat) :
    cursorNatRun bytes position len = lift (cursorNat bytes position len) := by
  unfold cursorNatRun cursorNat
  rw [cursorBytesRun_eq]
  exact lift_bind_eq fun _ _ => rfl

theorem cursorStringRun_eq (bytes : List UInt8) (position : Nat) :
    cursorStringRun bytes position = lift (cursorString bytes position) := by
  unfold cursorStringRun cursorString
  rw [cursorNatRun_eq]
  refine lift_bind_eq fun ⟨len, position⟩ _ => ?_
  dsimp only
  rw [cursorBytesRun_eq]
  refine lift_bind_eq fun ⟨field, position⟩ _ => ?_
  exact lift_bind_eq fun _ _ => rfl

/-- Where the cursor stands after a number. -/
theorem cursorNat_eq_ok {value stop : Nat} (h : cursorNat bytes position len = .ok (value, stop)) :
    stop = position + len ∧ stop ≤ bytes.length := by
  unfold cursorNat cursorBytes at h
  obtain ⟨⟨field, next⟩, hfield, h⟩ := bind_eq_ok.mp h
  obtain ⟨-, rfl⟩ := Prod.mk.inj (Except.ok.inj h)
  obtain ⟨stop, hstop, hfield⟩ := bind_eq_ok.mp hfield
  obtain ⟨-, rfl⟩ := addU64_eq_ok.mp hstop
  obtain ⟨hle, hfield⟩ := ite_error_eq_ok.mp hfield
  obtain ⟨-, rfl⟩ := Prod.mk.inj (Except.ok.inj hfield)
  exact ⟨rfl, by omega⟩

section

variable (crc32c : List UInt8 → Nat)

theorem verifyCrcRun_eq {checksumOffset : Nat} (expected : Nat)
    (h : checksumOffset + 4 ≤ bytes.length) :
    verifyCrcRun crc32c bytes checksumOffset expected =
      lift (verifyCrc crc32c bytes checksumOffset expected) := by
  unfold verifyCrcRun
  rw [slice_fieldBytes h]
  rfl

theorem recordRun_eq {α : Type} (hlen : 4 ≤ len)
    (parse : List UInt8 → Except CoveError α) (bytes : List UInt8) :
    recordRun len parse bytes = lift (parse bytes) := by
  unfold recordRun
  by_cases hshort : bytes.length < len
  · rw [if_pos hshort]
  · rw [if_neg hshort, slice_eq (Nat.zero_le _) (by omega), ok_bind, slice_eq (by omega)]
    · rfl
    · rw [List.length_take, List.length_drop]
      omega

theorem parseOneRun_eq (bytes : List UInt8) :
    parseOneRun crc32c bytes = lift (PredicateFunctionRefV2.parseOne crc32c bytes) := by
  unfold parseOneRun PredicateFunctionRefV2.parseOne
  simp only [cursorNatRun_eq, cursorStringRun_eq]
  refine lift_bind_eq fun ⟨functionRef, _⟩ _ => ?_
  refine lift_bind_eq fun ⟨functionNamespace, _⟩ _ => ?_
  refine lift_bind_eq fun ⟨name, _⟩ _ => ?_
  refine lift_bind_eq fun ⟨versionMajor, _⟩ _ => ?_
  refine lift_bind_eq fun ⟨versionMinor, _⟩ _ => ?_
  refine lift_bind_eq fun ⟨deterministic, _⟩ _ => ?_
  refine lift_bind_eq fun ⟨flags, _⟩ _ => ?_
  refine lift_bind_eq fun ⟨requiredExtensionRef, checksumOffset⟩ _ => ?_
  refine lift_bind_eq fun ⟨checksum, consumed⟩ hconsumed => ?_
  -- The record ends with the checksum, which the cursor has read.
  obtain ⟨hstop, hlen⟩ := cursorNat_eq_ok hconsumed
  dsimp only
  rw [slice_eq (Nat.zero_le _) hlen, ok_bind, List.drop_zero, Nat.sub_zero,
    verifyCrcRun_eq crc32c checksum (by rw [List.length_take]; omega)]
  refine lift_bind_eq fun _ _ => ?_
  by_cases hbool : deterministic > 1
  · rw [if_pos hbool, if_pos hbool]
    rfl
  · rw [if_neg hbool, if_neg hbool]
    rfl

end

/-! ## Tables -/

/-- `parse_fixed_table`. -/
def fixedTableRun {α : Type} (bytes : List UInt8) (offset count itemLen : Nat)
    (parse : List UInt8 → Except Fault α) : Except Fault (List α) :=
  if count = 0 then if offset ≠ 0 then .error (.error .badCoverage) else .ok []
  else do
    let len ← lift (checkedMul count itemLen)
    let stop ← lift (checkedAdd offset len)
    if stop > bytes.length then .error (.error .offsetRange)
    else do
      let table ← slice bytes offset stop
      (chunksExact itemLen table).mapM parse

variable {itemLen offset : Nat}

theorem chunksExact_fieldBytes {count : Nat} (hitem : 0 < itemLen)
    (h : offset + count * itemLen ≤ bytes.length) :
    chunksExact itemLen (fieldBytes bytes offset (count * itemLen)) =
      (List.range count).map fun index => fieldBytes bytes (offset + index * itemLen) itemLen := by
  have hlength : (fieldBytes bytes offset (count * itemLen)).length = count * itemLen := by
    rw [fieldBytes, List.length_take, List.length_drop]
    omega
  unfold chunksExact
  rw [hlength, Nat.mul_div_cancel _ hitem]
  refine List.map_congr_left fun index hindex => ?_
  have hlt : index + 1 ≤ count := List.mem_range.mp hindex
  have hfits : (index + 1) * itemLen ≤ count * itemLen := Nat.mul_le_mul_right itemLen hlt
  rw [Nat.succ_mul] at hfits
  rw [fieldBytes, fieldBytes, List.drop_take, List.take_take, List.drop_drop,
    Nat.min_eq_left (by omega)]

theorem fixedTableRun_eq {α : Type} {count : Nat}
    (hitem : 0 < itemLen) {parse : List UInt8 → Except CoveError α}
    {parseRun : List UInt8 → Except Fault α} (h : ∀ item, parseRun item = lift (parse item)) :
    fixedTableRun bytes offset count itemLen parseRun =
      lift (parseFixedTable bytes offset count itemLen parse) := by
  unfold fixedTableRun parseFixedTable
  by_cases hcount : count = 0
  · rw [if_pos hcount, if_pos hcount]
    split <;> rfl
  rw [if_neg hcount, if_neg hcount]
  refine lift_bind_eq fun len hlen => lift_bind_eq fun stop hstop => ?_
  obtain ⟨-, rfl⟩ := mulU64_eq_ok.mp hlen
  obtain ⟨-, rfl⟩ := addU64_eq_ok.mp hstop
  by_cases hlong : offset + count * itemLen > bytes.length
  · rw [if_pos hlong, if_pos hlong]
    rfl
  · rw [if_neg hlong, if_neg hlong, slice_fieldBytes (by omega), ok_bind,
      chunksExact_fieldBytes hitem (by omega), List.mapM_map]
    exact lift_mapM fun index _ => h _

section

variable (crc32c : List UInt8 → Nat)

/-- The loop of `parse_function_table`: the rest of the bytes is sliced off first. -/
def functionsRun (bytes : List UInt8) :
    Nat → Nat → Except Fault (List PredicateFunctionRefV2)
  | 0, _ => .ok []
  | count + 1, cursor => do
    let rest ← slice bytes cursor bytes.length
    let (item, consumed) ← parseOneRun crc32c rest
    if consumed = 0 then .error (.error .badCoverage)
    else do
      let cursor ← lift (checkedAdd cursor consumed)
      if cursor > bytes.length then .error (.error .offsetRange)
      else do
        let items ← functionsRun bytes count cursor
        .ok (item :: items)

/-- `parse_function_table`. -/
def functionTableRun (bytes : List UInt8) (offset count : Nat) :
    Except Fault (List PredicateFunctionRefV2) :=
  if count = 0 then if offset ≠ 0 then .error (.error .badCoverage) else .ok []
  else functionsRun crc32c bytes count offset

/-- From a cursor within the bytes every slice is in range: the loop checks where it goes. -/
theorem functionsRun_eq (bytes : List UInt8) {count cursor : Nat} (h : cursor ≤ bytes.length) :
    functionsRun crc32c bytes count cursor = lift (parseFunctions crc32c bytes count cursor) := by
  induction count generalizing cursor with
  | zero => rfl
  | succ count ih =>
    rw [functionsRun, parseFunctions, slice_eq h (Nat.le_refl _), ok_bind,
      List.take_of_length_le (by rw [List.length_drop]), parseOneRun_eq]
    refine lift_bind_eq fun ⟨item, consumed⟩ _ => ?_
    dsimp only
    by_cases hzero : consumed = 0
    · rw [if_pos hzero, if_pos hzero]
      rfl
    · rw [if_neg hzero, if_neg hzero]
      refine lift_bind_eq fun next hnext => ?_
      by_cases hlong : next > bytes.length
      · rw [if_pos hlong, if_pos hlong]
        rfl
      · rw [if_neg hlong, if_neg hlong, ih (by omega)]
        exact lift_bind_eq fun _ _ => rfl

/-- **The function table** panics exactly when it is announced past the end of the bytes. -/
theorem functionTableRun_eq (bytes : List UInt8) (offset count : Nat) :
    functionTableRun crc32c bytes offset count =
      if count ≠ 0 ∧ bytes.length < offset then .error .panic
      else lift (parseFunctionTable crc32c bytes offset count) := by
  unfold functionTableRun parseFunctionTable
  by_cases hcount : count = 0
  · have hnone : ¬(count ≠ 0 ∧ bytes.length < offset) := fun h => h.1 hcount
    rw [if_pos hcount, if_pos hcount, if_neg hnone]
    split <;> rfl
  rw [if_neg hcount, if_neg hcount]
  by_cases hpast : bytes.length < offset
  · rw [if_pos ⟨hcount, hpast⟩]
    obtain ⟨count, rfl⟩ := Nat.exists_eq_succ_of_ne_zero hcount
    rw [functionsRun, slice_eq_panic (.inr hpast)]
    rfl
  · rw [if_neg (fun h => hpast h.2)]
    exact functionsRun_eq crc32c bytes (by omega)

end

/-! ## Operands of nodes -/

section

variable (operands : List PredicateAstOperandRefV2) (node : PredicateAstNodeV2)

/-- The operands of a node, by a sum and a slice that nothing checks. -/
def operandSlice : Except Fault (List PredicateAstOperandRefV2) := do
  let stop ← addU64 .panic node.firstOperandIndex node.operandCount
  slice operands node.firstOperandIndex stop

/-- `validate_mirror`. -/
def validateMirrorRun (kind : PredicateOperandKindV2) (mirrorRef : Nat) : Except Fault Unit :=
  if mirrorRef = absentId then .ok ()
  else do
    let run ← operandSlice operands node
    if run.any fun operand => operand.operandKind == kind && operand.refId == mirrorRef then .ok ()
    else .error (.error .badCoverage)

/-- `validate_node_operands`. -/
def validateNodeOperandsRun : Except Fault Unit := do
  if node.operandCount = 0 then
    if node.firstOperandIndex ≠ absentId then .error (.error .badCoverage) else .ok ()
  else if node.firstOperandIndex = absentId then .error (.error .badCoverage)
  else
    let stop ← lift (checkedAdd node.firstOperandIndex node.operandCount)
    if stop > operands.length then .error (.error .badCoverage)
    else
      let run ← slice operands node.firstOperandIndex stop
      if run.zipIdx.any fun (operand, expected) =>
          operand.parentNodeId != node.nodeId || operand.ordinal != expected then
        .error (.error .badCoverage)
      else
        validateMirrorRun operands node .columnOrPath node.columnOrPathRef
        validateMirrorRun operands node .literal node.literalRef
        validateMirrorRun operands node .function node.functionRef

variable {operands node}

/-- Once the sum and the end are checked, the slice is the operands of the node. -/
theorem operandSlice_eq (hsum : node.firstOperandIndex + node.operandCount < 2 ^ 64)
    (hlen : node.firstOperandIndex + node.operandCount ≤ operands.length) :
    operandSlice operands node = .ok (nodeOperands operands node) := by
  unfold operandSlice
  have hadd : addU64 Fault.panic node.firstOperandIndex node.operandCount =
      .ok (node.firstOperandIndex + node.operandCount) := addU64_eq_ok.mpr ⟨hsum, rfl⟩
  rw [hadd, ok_bind, slice_eq (Nat.le_add_right _ _) hlen, Nat.add_sub_cancel_left, nodeOperands]

theorem validateMirrorRun_eq (hslice : operandSlice operands node = .ok (nodeOperands operands node))
    (kind : PredicateOperandKindV2) (mirrorRef : Nat) :
    validateMirrorRun operands node kind mirrorRef =
      lift (validateMirror operands node kind mirrorRef) := by
  unfold validateMirrorRun validateMirror
  by_cases habsent : mirrorRef = absentId
  · rw [if_pos habsent, if_pos habsent]
    rfl
  · rw [if_neg habsent, if_neg habsent, hslice, ok_bind]
    split <;> rfl

theorem validateNodeOperandsRun_eq :
    validateNodeOperandsRun operands node = lift (validateNodeOperands operands node) := by
  unfold validateNodeOperandsRun validateNodeOperands
  by_cases hzero : node.operandCount = 0
  · rw [if_pos hzero, if_pos hzero]
    split <;> rfl
  rw [if_neg hzero, if_neg hzero]
  by_cases habsent : node.firstOperandIndex = absentId
  · rw [if_pos habsent, if_pos habsent]
    rfl
  rw [if_neg habsent, if_neg habsent]
  refine lift_bind_eq fun stop hstop => ?_
  obtain ⟨hsum, rfl⟩ := addU64_eq_ok.mp hstop
  by_cases hlong : node.firstOperandIndex + node.operandCount > operands.length
  · rw [if_pos hlong, if_pos hlong]
    rfl
  have hslice := operandSlice_eq hsum (Nat.le_of_not_lt hlong)
  rw [if_neg hlong, if_neg hlong, slice_eq (Nat.le_add_right _ _) (by omega),
    Nat.add_sub_cancel_left, ok_bind, ← nodeOperands]
  split
  · rfl
  · simp only [validateMirrorRun_eq hslice]
    exact lift_bind_eq fun _ _ => lift_bind_eq fun _ _ => rfl

/-- An accepted node has its operands in the table. -/
theorem operandSlice_of_valid (h : validateNodeOperands operands node = .ok ())
    (hcount : node.operandCount ≠ 0) :
    operandSlice operands node = .ok (nodeOperands operands node) := by
  unfold validateNodeOperands at h
  rw [if_neg hcount] at h
  obtain ⟨-, h⟩ := ite_error_eq_ok.mp h
  obtain ⟨stop, hstop, h⟩ := bind_eq_ok.mp h
  obtain ⟨hsum, rfl⟩ := addU64_eq_ok.mp hstop
  obtain ⟨hlen, -⟩ := ite_error_eq_ok.mp h
  exact operandSlice_eq hsum (Nat.le_of_not_lt hlen)

end

/-! ## The walk -/

variable {visiting visited visiting' visited' : List Nat}

variable {nodeId : Nat}

section

variable (nodes : List PredicateAstNodeV2) (operands : List PredicateAstOperandRefV2)

/-- The operands `visit` goes through. -/
def visitedOperands (node : PredicateAstNodeV2) : Except Fault (List PredicateAstOperandRefV2) :=
  if node.operandCount > 0 then operandSlice operands node else .ok []

/-- `visit` of `validate_ast_acyclic`. Out of fuel it is deeper than the nodes there are. -/
def visitRun : Nat → Nat → List Nat × List Nat → Except Fault (List Nat × List Nat)
  | 0, _, _ => .error .panic
  | fuel + 1, nodeId, (visiting, visited) =>
    if nodeId ∈ visited then .ok (visiting, visited)
    else if nodeId ∈ visiting then .error (.error .badCoverage)
    else
      match nodes[nodeId]? with
      | none => .error (.error .badCoverage)
      | some node =>
        if node.nodeId ≠ nodeId then .error (.error .badCoverage)
        else do
          let run ← visitedOperands operands node
          let (visiting, visited) ← run.foldlM (fun sets operand =>
            if operand.operandKind = .node then visitRun fuel operand.refId sets else .ok sets)
            (nodeId :: visiting, visited)
          .ok (visiting.erase nodeId, nodeId :: visited)

variable {nodes operands}

/-- A visit of every node operand, each of which leaves the visiting set as it was. -/
theorem visiting_of_foldlM {visit : Nat → List Nat × List Nat → Except CoveError (List Nat × List Nat)}
    (hvisit : ∀ ref visiting visited visiting' visited',
      visit ref (visiting, visited) = .ok (visiting', visited') → visiting' = visiting)
    {refs : List PredicateAstOperandRefV2}
    (h : refs.foldlM (fun sets operand =>
      if operand.operandKind = .node then visit operand.refId sets else .ok sets)
      (visiting, visited) = .ok (visiting', visited')) : visiting' = visiting := by
  induction refs generalizing visiting visited with
  | nil => exact (Prod.mk.inj (Except.ok.inj h)).1.symm
  | cons operand refs ih =>
    rw [List.foldlM_cons] at h
    obtain ⟨⟨visiting₁, visited₁⟩, hstep, hrest⟩ := bind_eq_ok.mp h
    rw [ih hrest]
    by_cases hkind : operand.operandKind = .node
    · rw [if_pos hkind] at hstep
      exact hvisit _ _ _ _ _ hstep
    · rw [if_neg hkind] at hstep
      exact (Prod.mk.inj (Except.ok.inj hstep)).1.symm

/-- What is being visited is so again after a visit. -/
theorem visiting_of_visitNode {fuel : Nat}
    (h : visitNode nodes operands fuel nodeId (visiting, visited) = .ok (visiting', visited')) :
    visiting' = visiting := by
  induction fuel generalizing nodeId visiting visited visiting' visited' with
  | zero => cases h
  | succ fuel ih =>
    rw [visitNode] at h
    by_cases hdone : nodeId ∈ visited
    · rw [if_pos hdone] at h
      exact (Prod.mk.inj (Except.ok.inj h)).1.symm
    rw [if_neg hdone] at h
    obtain ⟨-, h⟩ := ite_error_eq_ok.mp h
    cases hnode : nodes[nodeId]? with
    | none =>
      rw [hnode] at h
      cases h
    | some node =>
      rw [hnode] at h
      obtain ⟨-, h⟩ := ite_error_eq_ok.mp h
      obtain ⟨⟨visiting₁, visited₁⟩, hfold, h⟩ := bind_eq_ok.mp h
      obtain ⟨rfl, -⟩ := Prod.mk.inj (Except.ok.inj h)
      rw [visiting_of_foldlM (fun ref _ _ _ _
        (hv : visitNode nodes operands fuel ref (_, _) = .ok (_, _)) => ih hv) hfold,
        List.erase_cons_head]

/-- The visits of the operands, one after the other. -/
theorem foldlM_visitRun_eq {fuel : Nat}
    (hvisit : ∀ nodeId visited, visitRun nodes operands fuel nodeId (visiting, visited) =
      lift (visitNode nodes operands fuel nodeId (visiting, visited)))
    (refs : List PredicateAstOperandRefV2) (visited : List Nat) :
    refs.foldlM (fun sets operand =>
        if operand.operandKind = .node then visitRun nodes operands fuel operand.refId sets
        else .ok sets) (visiting, visited) =
      lift (refs.foldlM (fun sets operand =>
        if operand.operandKind = .node then visitNode nodes operands fuel operand.refId sets
        else .ok sets) (visiting, visited)) := by
  induction refs generalizing visited with
  | nil => rfl
  | cons operand refs ih =>
    rw [List.foldlM_cons, List.foldlM_cons]
    by_cases hkind : operand.operandKind = .node
    · rw [if_pos hkind, if_pos hkind, hvisit]
      refine lift_bind_eq fun ⟨visiting', visited'⟩ hstep => ?_
      rw [visiting_of_visitNode hstep]
      exact ih visited'
    · rw [if_neg hkind, if_neg hkind]
      exact ih visited

/-- **The walk** of accepted nodes slices in range, and is never deeper than there are nodes: the
nodes being visited are distinct. The induction is on the fuel. -/
theorem visitRun_eq (hvalid : ∀ node ∈ nodes, validateNodeOperands operands node = .ok ())
    {fuel : Nat} (hnodup : visiting.Nodup)
    (hlt : ∀ v ∈ visiting, v < nodes.length) (hfuel : nodes.length + 1 ≤ fuel + visiting.length) :
    visitRun nodes operands fuel nodeId (visiting, visited) =
      lift (visitNode nodes operands fuel nodeId (visiting, visited)) := by
  induction fuel generalizing nodeId visiting visited with
  | zero =>
    have hsub : visiting ⊆ List.range nodes.length := fun v hv => List.mem_range.mpr (hlt v hv)
    have hle := (hnodup.subperm hsub).length_le
    rw [List.length_range] at hle
    omega
  | succ fuel ih =>
    rw [visitRun, visitNode]
    by_cases hdone : nodeId ∈ visited
    · rw [if_pos hdone, if_pos hdone]
      rfl
    rw [if_neg hdone, if_neg hdone]
    by_cases hopen : nodeId ∈ visiting
    · rw [if_pos hopen, if_pos hopen]
      rfl
    rw [if_neg hopen, if_neg hopen]
    cases hnode : nodes[nodeId]? with
    | none => rfl
    | some node =>
      dsimp only
      by_cases hid : node.nodeId ≠ nodeId
      · rw [if_pos hid, if_pos hid]
        rfl
      rw [if_neg hid, if_neg hid]
      have hrun : visitedOperands operands node = .ok (nodeOperands operands node) := by
        unfold visitedOperands
        by_cases hcount : node.operandCount > 0
        · rw [if_pos hcount]
          exact operandSlice_of_valid (hvalid node (List.mem_of_getElem? hnode)) (by omega)
        · rw [if_neg hcount, nodeOperands, Nat.eq_zero_of_not_pos hcount, List.take_zero]
      rw [hrun, ok_bind]
      have hin : nodeId < nodes.length := (List.getElem?_eq_some_iff.mp hnode).1
      have hstep : ∀ ref done, visitRun nodes operands fuel ref (nodeId :: visiting, done) =
          lift (visitNode nodes operands fuel ref (nodeId :: visiting, done)) := fun ref done => ih
        (List.nodup_cons.mpr ⟨hopen, hnodup⟩) (List.forall_mem_cons.mpr ⟨hin, hlt⟩)
        (by rw [List.length_cons]; omega)
      rw [foldlM_visitRun_eq hstep]
      exact lift_bind_eq fun _ _ => rfl

end

/-! ## Payloads -/

/-- `PredicateAstPayloadV2::validate`. -/
def PredicateAstPayloadV2.validateRun (payload : PredicateAstPayloadV2) : Except Fault Unit := do
  lift (validateUniqueDenseIds (payload.nodes.map PredicateAstNodeV2.nodeId))
  lift (validateUniqueDenseIds (payload.literals.map PredicateLiteralV2.literalId))
  lift (validateUniqueDenseIds (payload.literalLists.map PredicateLiteralListV2.literalListId))
  lift (validateUniqueDenseIds (payload.functions.map PredicateFunctionRefV2.functionRef))
  if payload.header.rootNodeId ≥ payload.nodes.length then .error (.error .badCoverage)
  else
    payload.nodes.forM fun node => do
      validateNodeOperandsRun payload.operandRefs node
      lift (validateNodeArity node)
    let _ ← visitRun payload.nodes payload.operandRefs (payload.nodes.length + 1)
      payload.header.rootNodeId ([], [])
    .ok ()

theorem PredicateAstPayloadV2.validateRun_eq (payload : PredicateAstPayloadV2) :
    payload.validateRun = lift payload.validate := by
  unfold validateRun validate
  refine lift_bind_eq fun _ _ => lift_bind_eq fun _ _ => lift_bind_eq fun _ _ =>
    lift_bind_eq fun _ _ => ?_
  by_cases hroot : payload.header.rootNodeId ≥ payload.nodes.length
  · rw [if_pos hroot, if_pos hroot]
    rfl
  rw [if_neg hroot, if_neg hroot]
  have hnodes : (payload.nodes.forM fun node => do
      validateNodeOperandsRun payload.operandRefs node
      lift (validateNodeArity node)) = lift (payload.nodes.forM fun node => do
      validateNodeOperands payload.operandRefs node
      validateNodeArity node) := by
    refine lift_forM fun node _ => ?_
    rw [validateNodeOperandsRun_eq]
    exact lift_bind_eq fun _ _ => rfl
  rw [hnodes]
  refine lift_bind_eq fun _ hforM => ?_
  have hvalid : ∀ node ∈ payload.nodes, validateNodeOperands payload.operandRefs node = .ok () := by
    intro node hnode
    obtain ⟨_, hoperands, -⟩ := bind_eq_ok.mp (forM_eq_ok.mp hforM node hnode)
    exact hoperands
  unfold validateAstAcyclic
  rw [visitRun_eq hvalid List.nodup_nil nofun (by simp)]
  exact lift_bind_eq fun _ _ => rfl

section

variable (crc32c : List UInt8 → Nat)

/-- The tables before the function table. -/
structure FixedTables where
  header : PredicateAstPayloadHeaderV2
  nodes : List PredicateAstNodeV2
  literals : List PredicateLiteralV2
  literalLists : List PredicateLiteralListV2
  operandRefs : List PredicateAstOperandRefV2

/-- `PredicateAstPayloadV2::parse`, up to the function table. -/
def parseFixedTables (bytes : List UInt8) : Except CoveError FixedTables := do
  let header ← PredicateAstPayloadHeaderV2.parse crc32c bytes
  let nodes ← parseFixedTable bytes header.nodeOffset header.nodeCount 40
    (PredicateAstNodeV2.parse crc32c)
  let literals ← parseFixedTable bytes header.literalOffset header.literalCount 28
    (PredicateLiteralV2.parse crc32c)
  let literalLists ← parseFixedTable bytes header.literalListOffset header.literalListCount 20
    (PredicateLiteralListV2.parse crc32c)
  let operandRefs ← parseFixedTable bytes header.operandRefOffset header.operandRefCount 16
    (PredicateAstOperandRefV2.parse crc32c)
  .ok ⟨header, nodes, literals, literalLists, operandRefs⟩

/-- `PredicateAstPayloadV2::parse`. -/
def PredicateAstPayloadV2.parseRun (bytes : List UInt8) : Except Fault PredicateAstPayloadV2 := do
  let header ← recordRun 72 (PredicateAstPayloadHeaderV2.parse crc32c) bytes
  let nodes ← fixedTableRun bytes header.nodeOffset header.nodeCount 40
    (recordRun 40 (PredicateAstNodeV2.parse crc32c))
  let literals ← fixedTableRun bytes header.literalOffset header.literalCount 28
    (recordRun 28 (PredicateLiteralV2.parse crc32c))
  let literalLists ← fixedTableRun bytes header.literalListOffset header.literalListCount 20
    (recordRun 20 (PredicateLiteralListV2.parse crc32c))
  let operandRefs ← fixedTableRun bytes header.operandRefOffset header.operandRefCount 16
    (recordRun 16 (PredicateAstOperandRefV2.parse crc32c))
  let functions ← functionTableRun crc32c bytes header.functionOffset header.functionCount
  let payload := ⟨header, nodes, literals, literalLists, functions, operandRefs⟩
  payload.validateRun
  .ok payload

/-- `PredicateNormalisedPayloadV2::parse`: after the tables it neither indexes nor slices. -/
def PredicateNormalisedPayloadV2.parseRun (bytes : List UInt8) :
    Except Fault PredicateNormalisedPayloadV2 := do
  let header ← recordRun 32 (PredicateNormalisedPayloadHeaderV2.parse crc32c) bytes
  let clauses ← fixedTableRun bytes header.clauseOffset header.clauseCount 20
    (recordRun 20 (PredicateClauseEntryV2.parse crc32c))
  let terms ← fixedTableRun bytes header.termOffset header.termCount 16
    (recordRun 16 (PredicateTermV2.parse crc32c))
  let payload := ⟨header, clauses, terms⟩
  lift payload.validate
  .ok payload

theorem PredicateNormalisedPayloadV2.parseRun_eq (bytes : List UInt8) :
    parseRun crc32c bytes = lift (parse crc32c bytes) := by
  unfold parseRun parse
  rw [recordRun_eq (by decide)]
  refine lift_bind_eq fun header _ => ?_
  rw [fixedTableRun_eq (by decide) (recordRun_eq (by decide) _)]
  refine lift_bind_eq fun clauses _ => ?_
  rw [fixedTableRun_eq (by decide) (recordRun_eq (by decide) _)]
  exact lift_bind_eq fun terms _ => lift_bind_eq fun _ _ => rfl

/-- **Parsing a predicate** slices the function table where the header says; all else is in range. -/
theorem PredicateAstPayloadV2.parseRun_eq (bytes : List UInt8) :
    parseRun crc32c bytes = (lift (parseFixedTables crc32c bytes) >>= fun tables =>
      if tables.header.functionCount ≠ 0 ∧ bytes.length < tables.header.functionOffset then
        .error .panic
      else lift (parse crc32c bytes)) := by
  unfold parseRun parseFixedTables parse
  rw [recordRun_eq (by decide)]
  -- Each table either stops all three parsers, or gives them its entries.
  cases PredicateAstPayloadHeaderV2.parse crc32c bytes with
  | error e => rfl
  | ok header =>
  show (fixedTableRun bytes header.nodeOffset header.nodeCount 40 _ >>= _) = _
  rw [fixedTableRun_eq (by decide) (recordRun_eq (by decide) _), ok_bind, ok_bind]
  cases parseFixedTable bytes header.nodeOffset header.nodeCount 40
      (PredicateAstNodeV2.parse crc32c) with
  | error e => rfl
  | ok nodes =>
  show (fixedTableRun bytes header.literalOffset header.literalCount 28 _ >>= _) = _
  rw [fixedTableRun_eq (by decide) (recordRun_eq (by decide) _), ok_bind, ok_bind]
  cases parseFixedTable bytes header.literalOffset header.literalCount 28
      (PredicateLiteralV2.parse crc32c) with
  | error e => rfl
  | ok literals =>
  show (fixedTableRun bytes header.literalListOffset header.literalListCount 20 _ >>= _) = _
  rw [fixedTableRun_eq (by decide) (recordRun_eq (by decide) _), ok_bind, ok_bind]
  cases parseFixedTable bytes header.literalListOffset header.literalListCount 20
      (PredicateLiteralListV2.parse crc32c) with
  | error e => rfl
  | ok literalLists =>
  show (fixedTableRun bytes header.operandRefOffset header.operandRefCount 16 _ >>= _) = _
  rw [fixedTableRun_eq (by decide) (recordRun_eq (by decide) _), ok_bind, ok_bind]
  cases parseFixedTable bytes header.operandRefOffset header.operandRefCount 16
      (PredicateAstOperandRefV2.parse crc32c) with
  | error e => rfl
  | ok operandRefs =>
  show (functionTableRun crc32c bytes header.functionOffset header.functionCount >>= _) =
    if header.functionCount ≠ 0 ∧ bytes.length < header.functionOffset then _ else _
  rw [functionTableRun_eq]
  by_cases hpast : header.functionCount ≠ 0 ∧ bytes.length < header.functionOffset
  · rw [if_pos hpast, if_pos hpast]
    rfl
  · rw [if_neg hpast, if_neg hpast]
    refine lift_bind_eq fun functions _ => ?_
    dsimp only
    rw [validateRun_eq]
    exact lift_bind_eq fun _ _ => rfl

/-- **When parsing does not panic.** Reading a predicate payload or a normalised one ends with a
payload or an error, for all bytes, exactly when the function table of the predicate payload,
should the tables before it be read, is empty or announced within the bytes. -/
theorem parseRun_ne_panic_iff (bytes : List UInt8) :
    (PredicateAstPayloadV2.parseRun crc32c bytes ≠ .error .panic ∧
        PredicateNormalisedPayloadV2.parseRun crc32c bytes ≠ .error .panic) ↔
      ∀ tables, parseFixedTables crc32c bytes = .ok tables →
        tables.header.functionCount = 0 ∨ tables.header.functionOffset ≤ bytes.length := by
  have hnormalised : PredicateNormalisedPayloadV2.parseRun crc32c bytes ≠ .error .panic := by
    rw [PredicateNormalisedPayloadV2.parseRun_eq]
    exact lift_ne_panic _
  rw [and_iff_left hnormalised, PredicateAstPayloadV2.parseRun_eq]
  cases htables : parseFixedTables crc32c bytes with
  | error e => exact iff_of_true nofun nofun
  | ok tables =>
    show (if tables.header.functionCount ≠ 0 ∧ bytes.length < tables.header.functionOffset then
      .error .panic else lift _) ≠ .error .panic ↔ _
    by_cases hpast : tables.header.functionCount ≠ 0 ∧ bytes.length < tables.header.functionOffset
    · rw [if_pos hpast]
      refine iff_of_false (fun h => h rfl) fun h => ?_
      rcases h tables rfl with hnone | hle
      · exact hpast.1 hnone
      · omega
    · rw [if_neg hpast]
      refine iff_of_true (lift_ne_panic _) fun tables' heq => ?_
      obtain rfl := Except.ok.inj heq
      by_contra hboth
      push Not at hboth
      exact hpast hboth

end

/-- A header alone, which announces one function at byte 1000. -/
def farFunctionBytes : List UInt8 :=
  FieldRecord.encode (sealRecord Crc32c.crc32c
    [(4, 0), (4, 0), (4, 0), (4, 0), (4, 1), (4, 0), (8, 0), (8, 0), (8, 0), (8, 1000), (8, 0),
      (4, 0)])

theorem parseRun_panics :
    PredicateAstPayloadV2.parseRun Crc32c.crc32c farFunctionBytes = .error .panic := by
  decide +kernel

end Cove
