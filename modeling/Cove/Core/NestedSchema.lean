import Cove.Core.PagePayloadBuild
import Cove.Core.CanonicalEncoding
import Cove.Lib.ByteCursor

/-!
# Nested schemas

A nested schema says, for each nested column of the tables, what stands below it: a tree of named
and typed nodes. A section holds the trees one after the other, each node before its children.

- `NestedSchemaNodeV1.writeTo`, `NestedSchemaNodeV1.readFrom`, `NestedSchemaNodeV1.encodedLen`.
- `NestedSchemaSectionV1.serialize`, `NestedSchemaSectionV1.parse`, `NestedSchemaSectionV1.validate`.
- `writeTo_eq_ok`: what is written of a node.
- `readFrom_writeTo`, `writeTo_of_readFrom`: **a node is read exactly from what is written of it**.
- `nestedSchema_roundTrip`: **the same for a section**, which is also validated.
-/

namespace Cove

open Checked ByteCursor
open LittleEndian (toLe)
open SegmentPayload (logicalTypeFromU16 physicalKindFromU8 validateLogicalPhysicalPair)

/-- `COLUMN_FLAG_BOOL_DECLARED_NUMERIC`. -/
def columnFlagBoolDeclaredNumeric : UInt32 := 1

/-- The string in messages. -/
def Str.toText (self : Str) : String := (String.fromUTF8? ⟨self.bytes.toArray⟩).getD ""

/-- The string is the text. -/
def Str.isText (self : Str) (text : String) : Bool := self.bytes == text.toUTF8.data.toList

structure NestedSchemaNodeV1 where
  name : Str
  logical : CoveLogicalType
  physical : CovePhysicalKind
  nullable : Bool
  precision : UInt16
  scale : Int16
  collationId : UInt16
  flags : UInt32
  fixedSizeListLen : UInt32
  children : List NestedSchemaNodeV1

variable {children : List NestedSchemaNodeV1} {node : NestedSchemaNodeV1}

variable {parts : List (List UInt8)} {record rest : List UInt8}

namespace NestedSchemaNodeV1

/-- `scalar`. -/
def scalar (name : Str) (logical : CoveLogicalType) (physical : CovePhysicalKind)
    (nullable : Bool) : NestedSchemaNodeV1 :=
  ⟨name, logical, physical, nullable, 0, 0, 0, 0, 0, []⟩

/-- The number of bytes of a node after its name. -/
def recordLen : Nat := 2 + 1 + 1 + 2 + 2 + 2 + 2 + 4 + 4

/-- The fields of a node after its name. -/
def fields (self : NestedSchemaNodeV1) : List (Nat × Nat) :=
  [(2, self.logical.code), (1, self.physical.code), (1, if self.nullable then 1 else 0),
    (2, self.precision.toNat), (2, self.scale.toUInt16.toNat), (2, self.collationId.toNat),
    (2, self.children.length), (4, self.flags.toNat), (4, self.fixedSizeListLen.toNat)]

/-- The bytes of a node before its children. -/
def front (self : NestedSchemaNodeV1) : List UInt8 :=
  toLe 2 self.name.bytes.length ++ self.name.bytes ++ FieldRecord.encode self.fields

mutual

/-- `encoded_len`. -/
def encodedLen : NestedSchemaNodeV1 → Except CoveError Nat
  | ⟨name, _, _, _, _, _, _, _, _, children⟩ => do
    let len ← checkedAdd 2 name.bytes.length
    let len ← checkedAdd len recordLen
    addEncodedLens len children

/-- The loop of `encoded_len`. -/
def addEncodedLens (len : Nat) : List NestedSchemaNodeV1 → Except CoveError Nat
  | [] => .ok len
  | child :: children => do
    let childLen ← child.encodedLen
    let len ← checkedAdd len childLen
    addEncodedLens len children

end

mutual

/-- `write_to`: the bytes that are added. -/
def writeTo : NestedSchemaNodeV1 → Except CoveError (List UInt8)
  | ⟨name, logical, physical, nullable, precision, scale, collationId, flags, fixedSizeListLen,
      children⟩ =>
    if name.bytes.length ≥ 2 ^ 16 then
      .error (.badSchema "nested schema name exceeds u16::MAX")
    else if children.length ≥ 2 ^ 16 then
      .error (.badSchema "nested schema has too many children")
    else do
      let rest ← writeAll children
      .ok (front ⟨name, logical, physical, nullable, precision, scale, collationId, flags,
        fixedSizeListLen, children⟩ ++ rest)

/-- The loop of `write_to`. -/
def writeAll : List NestedSchemaNodeV1 → Except CoveError (List UInt8)
  | [] => .ok []
  | child :: children => do
    let bytes ← child.writeTo
    let rest ← writeAll children
    .ok (bytes ++ rest)

end

/-- A node from the record after its name, with no children yet. -/
def readRecord (name : Str) (record : List UInt8) : Except CoveError NestedSchemaNodeV1 :=
  if fieldNat record 3 1 > 1 then
    .error (.badSchema s!"nested schema nullable flag must be 0 or 1, got {fieldNat record 3 1}")
  else
    match logicalTypeFromU16 (fieldNat record 0 2), physicalKindFromU8 (fieldNat record 2 1) with
    | none, _ => .error (.badSchema s!"unknown nested logical type {fieldNat record 0 2}")
    | _, none => .error (.badSchema s!"unknown nested physical kind {fieldNat record 2 1}")
    | some logical, some physical =>
      .ok {
        name := name
        logical := logical
        physical := physical
        nullable := fieldNat record 3 1 == 1
        precision := UInt16.ofNat (fieldNat record 4 2)
        scale := (UInt16.ofNat (fieldNat record 6 2)).toInt16
        collationId := UInt16.ofNat (fieldNat record 8 2)
        flags := UInt32.ofNat (fieldNat record 12 4)
        fixedSizeListLen := UInt32.ofNat (fieldNat record 16 4)
        children := [] }

/-- `read_from`, from the bytes at the position. A node takes some of them, so that their number
bounds the descent (`readFrom_congr`). -/
def readFrom : Nat → List UInt8 → Except CoveError (NestedSchemaNodeV1 × List UInt8)
  | 0, _ => .error .bufferTooShort
  | fuel + 1, bytes => do
    let (nameLen, bytes) ← ByteCursor.takeNat .bufferTooShort 2 bytes
    let (name, bytes) ← take .bufferTooShort nameLen bytes
    match strFromUtf8 name with
    | none => .error (.badSchema "nested schema name is not valid UTF-8")
    | some name => do
      let (record, bytes) ← take .bufferTooShort recordLen bytes
      let node ← readRecord name record
      let (children, bytes) ← many (readFrom fuel) (fieldNat record 10 2) bytes
      .ok ({ node with children := children }, bytes)

/-- `is_container`. -/
def isContainer (self : NestedSchemaNodeV1) : Bool :=
  match self.physical with
  | .list | .struct | .map => true
  | _ => false

/-- The names of the children of a struct are distinct. -/
def distinctNames (names : List Str) : List NestedSchemaNodeV1 → Except CoveError Unit
  | [] => .ok ()
  | child :: children =>
    if child.name ∈ names then
      .error (.badSchema
        ("Struct nested schema contains duplicate child name '" ++ child.name.toText ++ "'"))
    else distinctNames (child.name :: names) children

/-- What the physical kind asks of a node. -/
def validateShape (self : NestedSchemaNodeV1) : Except CoveError Unit :=
  match self.physical with
  | .list =>
    if self.children.length ≠ 1 then
      .error (.badSchema "List nested schema node must have exactly one child")
    else .ok ()
  | .struct =>
    if self.children.isEmpty then
      .error (.badSchema "Struct nested schema node must have at least one child")
    else distinctNames [] self.children
  | .map =>
    match self.children with
    | [key, value] =>
      if !key.name.isText "key" then
        .error (.badSchema "Map nested schema first child must be named key")
      else if key.nullable then .error (.badSchema "Map nested schema keys must be non-null")
      else if key.isContainer then .error (.badSchema "Map nested schema keys must be scalar")
      else if !value.name.isText "value" then
        .error (.badSchema "Map nested schema second child must be named value")
      else .ok ()
    | _ => .error (.badSchema "Map nested schema node must have exactly key and value children")
  | _ =>
    if !self.children.isEmpty then
      .error (.badSchema "Scalar nested schema node must not have children")
    else if self.fixedSizeListLen ≠ 0 then
      .error (.badSchema "fixed_size_list_len is valid only on List nodes")
    else .ok ()

/-- The checks of `validate_node` before the children. -/
def validateHere (self : NestedSchemaNodeV1) (isRoot : Bool) : Except CoveError Unit :=
  if self.name.bytes.isEmpty then .error (.badSchema "nested schema node name must not be empty")
  else do
    validateLogicalPhysicalPair self.logical self.physical
      (self.flags &&& columnFlagBoolDeclaredNumeric != 0)
    if isRoot && !self.isContainer then
      .error (.badSchema "NestedSchema root must be List, Struct, or Map")
    else do
      self.validateShape
      if self.fixedSizeListLen ≠ 0 ∧ self.physical ≠ .list then
        .error (.badSchema "fixed_size_list_len is valid only on List nodes")
      else .ok ()

mutual

/-- `validate_node`. -/
def validateNode (isRoot : Bool) : NestedSchemaNodeV1 → Except CoveError Unit
  | ⟨name, logical, physical, nullable, precision, scale, collationId, flags, fixedSizeListLen,
      children⟩ => do
    validateHere ⟨name, logical, physical, nullable, precision, scale, collationId, flags,
      fixedSizeListLen, children⟩ isRoot
    validateAll children

/-- The loop of `validate_node`. -/
def validateAll : List NestedSchemaNodeV1 → Except CoveError Unit
  | [] => .ok ()
  | child :: children => do
    child.validateNode false
    validateAll children

end

/-! ### Nodes are read from what is written of them -/

/-- Induction on a node: what holds of a node once it holds of its children. -/
theorem inductionOn {motive : NestedSchemaNodeV1 → Prop}
    (h : ∀ node, (∀ child ∈ node.children, motive child) → motive node) (node : NestedSchemaNodeV1) :
    motive node := by
  refine @NestedSchemaNodeV1.rec motive (fun children => ∀ child ∈ children, motive child)
    ?_ ?_ ?_ node
  · intro name logical physical nullable precision scale collationId flags fixedSizeListLen children
      hchildren
    exact h _ hchildren
  · intro child hchild
    exact (List.not_mem_nil hchild).elim
  · intro child children hchild hchildren
    exact List.forall_mem_cons.mpr ⟨hchild, hchildren⟩

variable {bytes : List UInt8}

theorem writeAll_eq_ok :
    writeAll children = .ok bytes ↔
      ∃ parts, List.Forall₂ (fun child part => writeTo child = .ok part) children parts ∧
        bytes = parts.flatten := by
  induction children generalizing bytes with
  | nil =>
    rw [writeAll]
    constructor
    · intro h
      exact ⟨[], .nil, (Except.ok.inj h).symm⟩
    · rintro ⟨parts, hall, rfl⟩
      cases hall
      rfl
  | cons child children ih =>
    rw [writeAll, bind_eq_ok]
    constructor
    · rintro ⟨part, hpart, h⟩
      obtain ⟨rest, hrest, h⟩ := bind_eq_ok.mp h
      obtain ⟨parts, hall, rfl⟩ := ih.mp hrest
      exact ⟨part :: parts, .cons hpart hall, (Except.ok.inj h).symm⟩
    · rintro ⟨parts, hall, rfl⟩
      obtain - | @⟨_, part, _, parts, hpart, hall⟩ := hall
      exact ⟨part, hpart, bind_eq_ok.mpr ⟨_, ih.mpr ⟨parts, hall, rfl⟩, rfl⟩⟩

/-- **What is written of a node**: its own bytes, and then what is written of its children. -/
theorem writeTo_eq_ok :
    node.writeTo = .ok bytes ↔
      node.name.bytes.length < 2 ^ 16 ∧ node.children.length < 2 ^ 16 ∧
        ∃ parts, List.Forall₂ (fun child part => writeTo child = .ok part) node.children parts ∧
          bytes = node.front ++ parts.flatten := by
  obtain ⟨name, logical, physical, nullable, precision, scale, collationId, flags, fixedLen,
    children⟩ := node
  rw [writeTo, ite_error_eq_ok, ite_error_eq_ok, bind_eq_ok, Nat.not_le, Nat.not_le]
  refine and_congr_right fun _ => and_congr_right fun _ => ?_
  constructor
  · rintro ⟨rest, hrest, h⟩
    obtain ⟨parts, hall, rfl⟩ := writeAll_eq_ok.mp hrest
    exact ⟨parts, hall, (Except.ok.inj h).symm⟩
  · rintro ⟨parts, hall, rfl⟩
    exact ⟨parts.flatten, writeAll_eq_ok.mpr ⟨parts, hall, rfl⟩, rfl⟩

theorem length_front (node : NestedSchemaNodeV1) :
    node.front.length = 2 + node.name.bytes.length + recordLen := by
  rw [front, List.length_append, List.length_append, LittleEndian.length_toLe,
    FieldRecord.length_encode]
  rfl

theorem addEncodedLens_eq_ok {len : Nat} (hall : List.Forall₂
      (fun child part => List.length part < 2 ^ 64 → encodedLen child = .ok (List.length part))
      children parts)
    (hlt : len + parts.flatten.length < 2 ^ 64) :
    addEncodedLens len children = .ok (len + parts.flatten.length) := by
  induction hall generalizing len with
  | nil => rfl
  | @cons child part children parts hchild _ ih =>
    rw [List.flatten_cons, List.length_append] at hlt ⊢
    have hadd : checkedAdd len part.length = .ok (len + part.length) :=
      addU64_eq_ok.mpr ⟨by omega, rfl⟩
    rw [addEncodedLens, hchild (by omega), ok_bind, hadd, ok_bind, ih (by omega), Nat.add_assoc]

/-- **The number of bytes written of a node is its `encoded_len`.** -/
theorem encodedLen_of_writeTo (h : node.writeTo = .ok bytes) (hmemory : bytes.length < 2 ^ 64) :
    node.encodedLen = .ok bytes.length := by
  induction node using inductionOn generalizing bytes with
  | h node ih =>
    obtain ⟨-, -, parts, hall, rfl⟩ := writeTo_eq_ok.mp h
    rw [List.length_append, length_front] at hmemory ⊢
    have hlens := forall₂_imp_of_mem (fun child hchild part hwrite hlt =>
      ih child hchild hwrite hlt) hall
    obtain ⟨name, logical, physical, nullable, precision, scale, collationId, flags, fixedLen,
      children⟩ := node
    dsimp only at hmemory hlens ⊢
    have hname : checkedAdd 2 name.bytes.length = .ok (2 + name.bytes.length) :=
      addU64_eq_ok.mpr ⟨by omega, rfl⟩
    have hrecord : checkedAdd (2 + name.bytes.length) recordLen =
        .ok (2 + name.bytes.length + recordLen) := addU64_eq_ok.mpr ⟨by omega, rfl⟩
    rw [encodedLen, hname, ok_bind, hrecord, ok_bind]
    exact addEncodedLens_eq_ok hlens hmemory

theorem bytes_of_strFromUtf8 {s : Str} (h : strFromUtf8 bytes = some s) :
    s.bytes = bytes := by
  unfold strFromUtf8 at h
  split at h
  · obtain rfl := Option.some.inj h
    rfl
  · cases h

/-- A number of two bytes, as it was read. -/
theorem toNat_ofNat_fieldNat (record : List UInt8) (offset : Nat) :
    (UInt16.ofNat (fieldNat record offset 2)).toNat = fieldNat record offset 2 :=
  UInt16.toNat_ofNat_of_lt' (fieldNat_lt record offset 2)

/-- A number of four bytes, as it was read. -/
theorem toNat_ofNat_fieldNat4 (record : List UInt8) (offset : Nat) :
    (UInt32.ofNat (fieldNat record offset 4)).toNat = fieldNat record offset 4 :=
  UInt32.toNat_ofNat_of_lt' (fieldNat_lt record offset 4)

theorem fits_fields (hchildren : node.children.length < 2 ^ 16) :
    FieldRecord.Fits node.fields := by
  intro f hf
  simp only [fields, List.mem_cons, List.not_mem_nil, or_false] at hf
  rcases hf with rfl | rfl | rfl | rfl | rfl | rfl | rfl | rfl | rfl
  · cases node.logical <;> decide
  · cases node.physical <;> decide
  · cases node.nullable <;> decide
  · exact node.precision.toNat_lt
  · exact node.scale.toUInt16.toNat_lt
  · exact node.collationId.toNat_lt
  · exact hchildren
  · exact node.flags.toNat_lt
  · exact node.fixedSizeListLen.toNat_lt

/-- The record of a node is read back, and its number of children with it. -/
theorem readRecord_fields (hchildren : node.children.length < 2 ^ 16) :
    readRecord node.name (FieldRecord.encode node.fields) = .ok { node with children := [] } ∧
      fieldNat (FieldRecord.encode node.fields) 10 2 = node.children.length := by
  have h : ∀ offset w {value : Nat}, FieldRecord.fieldAt node.fields offset w = some value →
      fieldNat (FieldRecord.encode node.fields) offset w = value := by
    intro offset w value hat
    rw [← List.append_nil (FieldRecord.encode node.fields)]
    exact fieldNat_encode (fits_fields hchildren) hat []
  refine ⟨?_, h 10 2 rfl⟩
  unfold readRecord
  rw [h 3 1 rfl, h 0 2 rfl, h 2 1 rfl, logicalTypeFromU16_code, physicalKindFromU8_code, h 4 2 rfl,
    h 6 2 rfl, h 8 2 rfl, h 12 4 rfl, h 16 4 rfl]
  simp only [UInt16.ofNat_toNat, UInt32.ofNat_toNat, Int16.toInt16_toUInt16]
  cases node.nullable <;> rfl

/-- A record that was read is the record of the node, once it has its children. -/
theorem fields_of_readRecord {name : Str}
    (h : readRecord name record = .ok node) (hlength : record.length = recordLen)
    (hcount : children.length = fieldNat record 10 2) :
    FieldRecord.encode (fields { node with children := children }) = record ∧ node.name = name := by
  unfold readRecord at h
  obtain ⟨hnullable, h⟩ := ite_error_eq_ok.mp h
  split at h
  · cases h
  · cases h
  next logical physical hlogical hphysical =>
  obtain rfl := Except.ok.inj h
  have hflag : (if (fieldNat record 3 1 == 1) = true then 1 else 0) = fieldNat record 3 1 := by
    by_cases hone : fieldNat record 3 1 = 1
    · rw [hone]
      rfl
    · have hzero : fieldNat record 3 1 = 0 := by omega
      rw [hzero]
      rfl
  refine ⟨?_, rfl⟩
  have hread : FieldRecord.ReadAt record 0 (fields
      { name := name, logical := logical, physical := physical,
        nullable := fieldNat record 3 1 == 1, precision := UInt16.ofNat (fieldNat record 4 2),
        scale := (UInt16.ofNat (fieldNat record 6 2)).toInt16,
        collationId := UInt16.ofNat (fieldNat record 8 2),
        flags := UInt32.ofNat (fieldNat record 12 4),
        fixedSizeListLen := UInt32.ofNat (fieldNat record 16 4), children := children }) :=
    ⟨code_of_logicalTypeFromU16 hlogical, code_of_physicalKindFromU8 hphysical, hflag,
      toNat_ofNat_fieldNat record 4, toNat_ofNat_fieldNat record 6, toNat_ofNat_fieldNat record 8,
      hcount, toNat_ofNat_fieldNat4 record 12, toNat_ofNat_fieldNat4 record 16, trivial⟩
  rw [FieldRecord.encode_of_readAt 0 hread hlength.ge]
  exact List.take_of_length_le hlength.le

/-- The steps of the reader. -/
theorem readFrom_eq_ok {fuel nameLen : Nat} {afterLen nameBytes afterName afterRecord : List UInt8} {name : Str}
    (hlen : ByteCursor.takeNat CoveError.bufferTooShort 2 bytes = .ok (nameLen, afterLen))
    (hname : take CoveError.bufferTooShort nameLen afterLen = .ok (nameBytes, afterName))
    (hutf8 : strFromUtf8 nameBytes = some name)
    (hrecord : take CoveError.bufferTooShort recordLen afterName = .ok (record, afterRecord))
    (hnode : readRecord name record = .ok node)
    (hchildren : many (readFrom fuel) (fieldNat record 10 2) afterRecord = .ok (children, rest)) :
    readFrom (fuel + 1) bytes = .ok ({ node with children := children }, rest) := by
  rw [readFrom, hlen, ok_bind]
  dsimp only
  rw [hname, ok_bind]
  dsimp only
  rw [hutf8]
  dsimp only
  rw [hrecord, ok_bind]
  dsimp only
  rw [hnode, ok_bind, hchildren, ok_bind]

/-- **What was written of a node is read as the node**, whatever follows it. The induction is on the
node; its own bytes are more than the descent below it needs. -/
theorem readFrom_writeTo
    (h : node.writeTo = .ok bytes) {fuel : Nat} (hfuel : bytes.length ≤ fuel) (rest : List UInt8) :
    readFrom fuel (bytes ++ rest) = .ok (node, rest) := by
  induction node using inductionOn generalizing bytes fuel rest with
  | h node ih =>
    obtain ⟨hname, hcount, parts, hall, rfl⟩ := writeTo_eq_ok.mp h
    rw [List.length_append, length_front] at hfuel
    obtain ⟨fuel, rfl⟩ : ∃ fuel', fuel = fuel' + 1 := ⟨fuel - 1, by omega⟩
    obtain ⟨hrecord, hchildCount⟩ := readRecord_fields hcount
    have hchildren : many (readFrom fuel) node.children.length (parts.flatten ++ rest) =
        .ok (node.children, rest) := by
      have hshort : ∀ part ∈ parts, part.length ≤ fuel := by
        intro part hpart
        have := List.Sublist.length_le (List.sublist_flatten_of_mem hpart)
        omega
      refine many_flatten ?_ rest
      refine List.forall₂_iff_get.mpr ⟨hall.length_eq, fun i hi hi' rest' => ?_⟩
      exact ih _ (List.get_mem _ _) (hall.get hi hi') (hshort _ (List.get_mem _ _)) rest'
    have hrecordLen : (FieldRecord.encode node.fields).length = recordLen :=
      FieldRecord.length_encode _
    simp only [front, List.append_assoc]
    rw [readFrom_eq_ok (takeNat_append hname _) (take_append rfl _) (strFromUtf8_bytes node.name)
      (take_append hrecordLen _) hrecord (hchildCount ▸ hchildren)]
    cases node
    rfl

/-- **What was read as a node is what is written of it.** The induction is on the levels. -/
theorem writeTo_of_readFrom {fuel : Nat} (h : readFrom fuel bytes = .ok (node, rest)) :
    ∃ part, bytes = part ++ rest ∧ node.writeTo = .ok part := by
  induction fuel generalizing bytes rest node with
  | zero => cases h
  | succ fuel ih =>
    rw [readFrom] at h
    obtain ⟨⟨nameLen, afterLen⟩, hlen, h⟩ := bind_eq_ok.mp h
    obtain ⟨⟨nameBytes, afterName⟩, hname, h⟩ := bind_eq_ok.mp h
    dsimp only at h
    split at h
    · cases h
    next name hutf8 =>
    obtain ⟨⟨record, afterRecord⟩, hrecord, h⟩ := bind_eq_ok.mp h
    obtain ⟨header, hheader, h⟩ := bind_eq_ok.mp h
    obtain ⟨⟨children, rest'⟩, hchildren, h⟩ := bind_eq_ok.mp h
    obtain ⟨rfl, rfl⟩ := Prod.mk.inj (Except.ok.inj h)
    have hbytes := eq_of_takeNat hlen
    have hnameLt := takeNat_lt hlen
    obtain ⟨rfl, rfl⟩ := eq_of_take hname
    obtain ⟨rfl, hrecordLen⟩ := eq_of_take hrecord
    obtain ⟨parts, hall, rfl, hcount⟩ :=
      exists_fronts_of_many (fun _ _ _ h => ih h) hchildren
    obtain ⟨hfields, hheaderName⟩ := fields_of_readRecord hheader hrecordLen hcount
    have hnameBytes : name.bytes = nameBytes := bytes_of_strFromUtf8 hutf8
    have hchildCount : children.length < 2 ^ 16 := hcount ▸ fieldNat_lt record 10 2
    refine ⟨front { header with children := children } ++ parts.flatten, ?_,
      writeTo_eq_ok.mpr ⟨?_, hchildCount, parts, hall, rfl⟩⟩
    · rw [front, hfields, hheaderName, hnameBytes, hbytes]
      simp only [List.append_assoc]
    · rw [hheaderName, hnameBytes]
      exact hnameLt

theorem length_le_of_readFrom {fuel : Nat}
    (h : readFrom fuel bytes = .ok (node, rest)) : rest.length ≤ bytes.length := by
  obtain ⟨part, rfl, -⟩ := writeTo_of_readFrom h
  rw [List.length_append]
  omega

/-- **The descent never ends for want of levels**, when there are as many as bytes. -/
theorem readFrom_congr {fuel fuel' : Nat} (hfuel : bytes.length ≤ fuel)
    (hfuel' : bytes.length ≤ fuel') : readFrom fuel bytes = readFrom fuel' bytes := by
  have hnil : ∀ fuel, readFrom fuel [] = .error .bufferTooShort := by
    intro fuel
    cases fuel <;> rfl
  induction fuel generalizing fuel' bytes with
  | zero =>
    obtain rfl := List.length_eq_zero_iff.mp (Nat.le_zero.mp hfuel)
    rw [hnil, hnil]
  | succ fuel ih =>
    cases fuel' with
    | zero =>
      obtain rfl := List.length_eq_zero_iff.mp (Nat.le_zero.mp hfuel')
      rw [hnil, hnil]
    | succ fuel' =>
      rw [readFrom, readFrom]
      refine bind_congr_of_ok fun ⟨nameLen, afterLen⟩ hlen => ?_
      refine bind_congr_of_ok fun ⟨nameBytes, afterName⟩ hname => ?_
      dsimp only
      cases strFromUtf8 nameBytes with
      | none => rfl
      | some name =>
        refine bind_congr_of_ok fun ⟨record, afterRecord⟩ hrecord => ?_
        refine bind_congr_of_ok fun header _ => ?_
        have hbytes := eq_of_takeNat hlen
        obtain ⟨rfl, -⟩ := eq_of_take hname
        obtain ⟨rfl, -⟩ := eq_of_take hrecord
        have hlength := congrArg List.length hbytes
        simp only [List.length_append, LittleEndian.length_toLe] at hlength
        have hagree : ∀ bytes : List UInt8, bytes.length ≤ afterRecord.length →
            readFrom fuel bytes = readFrom fuel' bytes := fun bytes hshort =>
          ih (by omega) (by omega)
        dsimp only
        rw [many_congr hagree (fun _ _ _ h => length_le_of_readFrom h) (fieldNat record 10 2)
          (Nat.le_refl _)]

end NestedSchemaNodeV1

/-! ## Sections -/

/-- `NESTED_SCHEMA_MAGIC`. -/
def nestedSchemaMagic : List UInt8 := [78, 83, 67, 49]

/-- `NESTED_SCHEMA_VERSION`. -/
def nestedSchemaVersion : Nat := 1

/-- `NESTED_SCHEMA_HEADER_LEN`. -/
def nestedSchemaHeaderLen : Nat := 16

structure NestedSchemaEntryV1 where
  tableId : UInt32
  columnId : UInt32
  root : NestedSchemaNodeV1

structure NestedSchemaSectionV1 where
  entries : List NestedSchemaEntryV1

namespace NestedSchemaEntryV1

/-- What the loop of `serialize` adds for an entry. -/
def write (self : NestedSchemaEntryV1) : Except CoveError (List UInt8) := do
  let root ← self.root.writeTo
  .ok (toLe 4 self.tableId.toNat ++ toLe 4 self.columnId.toNat ++ root)

/-- A step of the loop of `parse`. -/
def read (fuel : Nat) (bytes : List UInt8) : Except CoveError (NestedSchemaEntryV1 × List UInt8) := do
  let (ids, bytes) ← take .bufferTooShort 8 bytes
  let (root, bytes) ← NestedSchemaNodeV1.readFrom fuel bytes
  .ok (⟨UInt32.ofNat (fieldNat ids 0 4), UInt32.ofNat (fieldNat ids 4 4), root⟩, bytes)

end NestedSchemaEntryV1

namespace NestedSchemaSectionV1

/-- The fields of the header, the magic as a number. -/
def headerFields (entryCount : Nat) : List (Nat × Nat) :=
  [(4, LittleEndian.ofLe nestedSchemaMagic), (2, nestedSchemaVersion), (2, nestedSchemaHeaderLen),
    (4, entryCount), (4, 0)]

def serialize (self : NestedSchemaSectionV1) : Except CoveError (List UInt8) :=
  if self.entries.length ≥ 2 ^ 32 then .error (.badSchema "too many nested schema entries")
  else do
    let entries ← self.entries.mapM NestedSchemaEntryV1.write
    .ok (FieldRecord.encode (headerFields self.entries.length) ++ entries.flatten)

/-- The loop of `validate`, after entries for some columns. -/
def validateFrom (seen : List (UInt32 × UInt32)) :
    List NestedSchemaEntryV1 → Except CoveError Unit
  | [] => .ok ()
  | entry :: entries =>
    if (entry.tableId, entry.columnId) ∈ seen then
      .error (.badSchema
        s!"duplicate NestedSchema entry for table {entry.tableId} column {entry.columnId}")
    else do
      entry.root.validateNode true
      validateFrom ((entry.tableId, entry.columnId) :: seen) entries

def validate (self : NestedSchemaSectionV1) : Except CoveError Unit := validateFrom [] self.entries

def parse (bytes : List UInt8) : Except CoveError NestedSchemaSectionV1 :=
  if bytes.length < nestedSchemaHeaderLen then .error .bufferTooShort
  else if fieldBytes bytes 0 4 ≠ nestedSchemaMagic then .error .badMagic
  else if fieldNat bytes 4 2 ≠ nestedSchemaVersion then .error .badVersion
  else if fieldNat bytes 6 2 ≠ nestedSchemaHeaderLen then
    .error (.badSection s!"NestedSchema header_len must be {nestedSchemaHeaderLen}, got {fieldNat bytes 6 2}")
  else if fieldNat bytes 12 4 ≠ 0 then .error .reservedNotZero
  else do
    let (entries, rest) ← many (NestedSchemaEntryV1.read bytes.length) (fieldNat bytes 8 4)
      (bytes.drop nestedSchemaHeaderLen)
    if !rest.isEmpty then .error (.badSection "NestedSchema section has trailing bytes")
    else do
      let out : NestedSchemaSectionV1 := ⟨entries⟩
      out.validate
      .ok out

end NestedSchemaSectionV1

/-! ### Sections are read from what is written of them -/

namespace NestedSchemaEntryV1

variable {bytes : List UInt8}

theorem read_write {entry : NestedSchemaEntryV1} (h : entry.write = .ok bytes)
    {fuel : Nat} (hfuel : bytes.length ≤ fuel) (rest : List UInt8) :
    read fuel (bytes ++ rest) = .ok (entry, rest) := by
  obtain ⟨root, hroot, h⟩ := bind_eq_ok.mp h
  obtain rfl := Except.ok.inj h
  have hids : (toLe 4 entry.tableId.toNat ++ toLe 4 entry.columnId.toNat).length = 8 := by
    rw [List.length_append, LittleEndian.length_toLe, LittleEndian.length_toLe]
  rw [List.length_append] at hfuel
  have hrootFuel : root.length ≤ fuel := by omega
  have hnode := NestedSchemaNodeV1.readFrom_writeTo hroot hrootFuel rest
  have htable : fieldNat (toLe 4 entry.tableId.toNat ++ toLe 4 entry.columnId.toNat) 0 4 =
      entry.tableId.toNat := by
    rw [fieldNat, fieldBytes, List.drop_zero, List.take_left' (LittleEndian.length_toLe _ _),
      LittleEndian.ofLe_toLe entry.tableId.toNat_lt]
  have hcolumn : fieldNat (toLe 4 entry.tableId.toNat ++ toLe 4 entry.columnId.toNat) 4 4 =
      entry.columnId.toNat := by
    rw [fieldNat, fieldBytes, List.drop_left' (LittleEndian.length_toLe _ _),
      List.take_of_length_le (LittleEndian.length_toLe _ _).le,
      LittleEndian.ofLe_toLe entry.columnId.toNat_lt]
  rw [read, List.append_assoc, take_append hids, ok_bind]
  dsimp only
  rw [hnode, ok_bind, htable, hcolumn, UInt32.ofNat_toNat, UInt32.ofNat_toNat]

theorem write_of_read {fuel : Nat} {entry : NestedSchemaEntryV1}
    (h : read fuel bytes = .ok (entry, rest)) :
    ∃ part, bytes = part ++ rest ∧ entry.write = .ok part := by
  obtain ⟨⟨ids, afterIds⟩, hids, h⟩ := bind_eq_ok.mp h
  obtain ⟨⟨root, rest'⟩, hroot, h⟩ := bind_eq_ok.mp h
  obtain ⟨rfl, rfl⟩ := Prod.mk.inj (Except.ok.inj h)
  obtain ⟨rfl, hlength⟩ := eq_of_take hids
  obtain ⟨part, rfl, hpart⟩ := NestedSchemaNodeV1.writeTo_of_readFrom hroot
  have hread : FieldRecord.ReadAt ids 0 [(4, (UInt32.ofNat (fieldNat ids 0 4)).toNat),
      (4, (UInt32.ofNat (fieldNat ids 4 4)).toNat)] :=
    ⟨NestedSchemaNodeV1.toNat_ofNat_fieldNat4 ids 0, NestedSchemaNodeV1.toNat_ofNat_fieldNat4 ids 4,
      trivial⟩
  have hfields := (FieldRecord.encode_of_readAt 0 hread hlength.ge).trans
    (List.take_of_length_le hlength.le)
  simp only [FieldRecord.encode, List.append_nil] at hfields
  refine ⟨ids ++ part, (List.append_assoc _ _ _).symm, bind_eq_ok.mpr ⟨part, hpart, ?_⟩⟩
  exact congrArg (fun ids' => Except.ok (ids' ++ part)) hfields

/-- The number of bytes of an entry: eight, and the `encoded_len` of its root. -/
theorem encodedLen_of_write {entry : NestedSchemaEntryV1}
    (h : entry.write = .ok bytes) (hmemory : bytes.length < 2 ^ 64) :
    ∃ len, entry.root.encodedLen = .ok len ∧ bytes.length = 8 + len := by
  obtain ⟨root, hroot, h⟩ := bind_eq_ok.mp h
  obtain rfl := Except.ok.inj h
  have hlength : (toLe 4 entry.tableId.toNat ++ toLe 4 entry.columnId.toNat ++ root).length =
      8 + root.length := by
    rw [List.length_append, List.length_append, LittleEndian.length_toLe, LittleEndian.length_toLe]
  rw [hlength] at hmemory ⊢
  exact ⟨root.length, NestedSchemaNodeV1.encodedLen_of_writeTo hroot (by omega), rfl⟩

end NestedSchemaEntryV1

variable {entries : List NestedSchemaEntryV1}

namespace NestedSchemaSectionV1

variable {self : NestedSchemaSectionV1} {bytes : List UInt8}

/-- **What is written of a section.** -/
theorem serialize_eq_ok : self.serialize = .ok bytes ↔ self.entries.length < 2 ^ 32 ∧
    ∃ parts, List.Forall₂ (fun entry part => NestedSchemaEntryV1.write entry = .ok part)
        self.entries parts ∧
      bytes = FieldRecord.encode (headerFields self.entries.length) ++ parts.flatten := by
  unfold serialize
  rw [ite_error_eq_ok, bind_eq_ok, Nat.not_le]
  refine and_congr_right fun _ => ?_
  constructor
  · rintro ⟨parts, hparts, h⟩
    exact ⟨parts, mapM_eq_ok.mp hparts, (Except.ok.inj h).symm⟩
  · rintro ⟨parts, hall, rfl⟩
    exact ⟨parts, mapM_eq_ok.mpr hall, rfl⟩

theorem length_header (count : Nat) :
    (FieldRecord.encode (headerFields count)).length = nestedSchemaHeaderLen :=
  FieldRecord.length_encode _

theorem lengths_of_writes
    (hall : List.Forall₂ (fun entry part => NestedSchemaEntryV1.write entry = .ok part) entries parts)
    (hlt : parts.flatten.length < 2 ^ 64) :
    ∃ lens, List.Forall₂ (fun entry len => entry.root.encodedLen = .ok len) entries lens ∧
      parts.flatten.length = (lens.map (8 + ·)).sum := by
  induction hall with
  | nil => exact ⟨[], .nil, rfl⟩
  | @cons entry part entries parts hentry _ ih =>
    rw [List.flatten_cons, List.length_append] at hlt ⊢
    obtain ⟨len, hlen, hpart⟩ := NestedSchemaEntryV1.encodedLen_of_write hentry (by omega)
    obtain ⟨lens, hlens, hsum⟩ := ih (by omega)
    refine ⟨len :: lens, .cons hlen hlens, ?_⟩
    rw [List.map_cons, List.sum_cons, hpart, hsum]

/-- The number of bytes of a section. -/
theorem length_of_serialize (h : self.serialize = .ok bytes) (hmemory : bytes.length < 2 ^ 64) :
    ∃ lens, List.Forall₂ (fun entry len => entry.root.encodedLen = .ok len) self.entries lens ∧
      bytes.length = nestedSchemaHeaderLen + (lens.map (8 + ·)).sum := by
  obtain ⟨-, parts, hall, rfl⟩ := serialize_eq_ok.mp h
  rw [List.length_append, length_header] at hmemory ⊢
  obtain ⟨lens, hlens, hsum⟩ := lengths_of_writes hall (by omega)
  exact ⟨lens, hlens, by rw [hsum]⟩

/-- The header of a section is read back. -/
theorem header_fields {count : Nat} (hcount : count < 2 ^ 32) (rest : List UInt8) :
    fieldBytes (FieldRecord.encode (headerFields count) ++ rest) 0 4 = nestedSchemaMagic ∧
    fieldNat (FieldRecord.encode (headerFields count) ++ rest) 4 2 = nestedSchemaVersion ∧
    fieldNat (FieldRecord.encode (headerFields count) ++ rest) 6 2 = nestedSchemaHeaderLen ∧
    fieldNat (FieldRecord.encode (headerFields count) ++ rest) 8 4 = count ∧
    fieldNat (FieldRecord.encode (headerFields count) ++ rest) 12 4 = 0 := by
  have hfits : FieldRecord.Fits (headerFields count) := by
    intro f hf
    simp only [headerFields, List.mem_cons, List.not_mem_nil, or_false] at hf
    rcases hf with rfl | rfl | rfl | rfl | rfl
    · decide
    · decide
    · decide
    · exact hcount
    · decide
  exact ⟨@fieldBytes_encode (headerFields count) 0 4 nestedSchemaMagic rfl rfl rest,
    fieldNat_encode hfits rfl rest, fieldNat_encode hfits rfl rest, fieldNat_encode hfits rfl rest,
    fieldNat_encode hfits rfl rest⟩

/-- The steps of the reader. -/
theorem parse_eq (hlong : nestedSchemaHeaderLen ≤ bytes.length)
    (hmagic : fieldBytes bytes 0 4 = nestedSchemaMagic)
    (hversion : fieldNat bytes 4 2 = nestedSchemaVersion)
    (hheader : fieldNat bytes 6 2 = nestedSchemaHeaderLen) (hreserved : fieldNat bytes 12 4 = 0)
    (hentries : many (NestedSchemaEntryV1.read bytes.length) (fieldNat bytes 8 4)
      (bytes.drop nestedSchemaHeaderLen) = .ok (entries, [])) :
    parse bytes = (mk entries).validate.map fun _ => ⟨entries⟩ := by
  unfold parse
  rw [if_neg (Nat.not_lt.mpr hlong), if_neg (not_not_intro hmagic),
    if_neg (not_not_intro hversion), if_neg (not_not_intro hheader),
    if_neg (not_not_intro hreserved), hentries, ok_bind]
  cases hvalidate : (mk entries).validate with
  | error e =>
    dsimp only [List.isEmpty, Bool.not_true, Bool.false_eq_true, if_false]
    rw [hvalidate]
    rfl
  | ok =>
    dsimp only [List.isEmpty, Bool.not_true, Bool.false_eq_true, if_false]
    rw [hvalidate]
    rfl

/-- **What was written of a section is read as the section**, or refused for what `validate` finds in
it. -/
theorem parse_serialize (h : self.serialize = .ok bytes) :
    parse bytes = self.validate.map fun _ => self := by
  obtain ⟨hcount, parts, hall, rfl⟩ := serialize_eq_ok.mp h
  have hlength := length_header self.entries.length
  obtain ⟨hmagic, hversion, hheader, hcountField, hreserved⟩ := header_fields hcount parts.flatten
  have hlong : nestedSchemaHeaderLen ≤
      (FieldRecord.encode (headerFields self.entries.length) ++ parts.flatten).length := by
    rw [List.length_append, hlength]
    omega
  have hread : List.Forall₂ (fun entry part => ∀ rest, NestedSchemaEntryV1.read
      (FieldRecord.encode (headerFields self.entries.length) ++ parts.flatten).length
      (part ++ rest) = .ok (entry, rest)) self.entries parts := by
    refine List.forall₂_iff_get.mpr ⟨hall.length_eq, fun i hi hi' rest => ?_⟩
    have hpart := List.Sublist.length_le (List.sublist_flatten_of_mem (List.get_mem parts ⟨i, hi'⟩))
    refine NestedSchemaEntryV1.read_write (hall.get hi hi') (hpart.trans ?_) rest
    rw [List.length_append]
    omega
  have hentries := many_flatten hread []
  rw [List.append_nil] at hentries
  refine parse_eq hlong hmagic hversion hheader hreserved ?_
  rw [hcountField, List.drop_left' hlength]
  exact hentries

/-- **What was read as a section is what is written of it**, and `validate` accepts it. -/
theorem serialize_of_parse (h : parse bytes = .ok self) :
    self.serialize = .ok bytes ∧ self.validate = .ok () := by
  unfold parse at h
  obtain ⟨hlong, h⟩ := ite_error_eq_ok.mp h
  obtain ⟨hmagic, h⟩ := ite_error_eq_ok.mp h
  obtain ⟨hversion, h⟩ := ite_error_eq_ok.mp h
  obtain ⟨hheader, h⟩ := ite_error_eq_ok.mp h
  obtain ⟨hreserved, h⟩ := ite_error_eq_ok.mp h
  obtain ⟨⟨entries, rest⟩, hentries, h⟩ := bind_eq_ok.mp h
  obtain ⟨hrest, h⟩ := ite_error_eq_ok.mp h
  obtain ⟨_, hvalidate, h⟩ := bind_eq_ok.mp h
  obtain rfl := Except.ok.inj h
  refine ⟨?_, hvalidate⟩
  obtain ⟨parts, hall, hbytes, hcount⟩ :=
    exists_fronts_of_many (fun _ _ _ h => NestedSchemaEntryV1.write_of_read h) hentries
  obtain rfl : rest = [] := by
    cases rest with
    | nil => rfl
    | cons byte rest => exact absurd rfl hrest
  have hread : FieldRecord.ReadAt bytes 0 (headerFields entries.length) :=
    ⟨congrArg LittleEndian.ofLe (Decidable.of_not_not hmagic).symm,
      (Decidable.of_not_not hversion).symm, (Decidable.of_not_not hheader).symm, hcount,
      (Decidable.of_not_not hreserved).symm, trivial⟩
  have hfront := FieldRecord.encode_of_readAt 0 hread (Nat.le_of_not_lt hlong)
  refine serialize_eq_ok.mpr ⟨hcount ▸ fieldNat_lt bytes 8 4, parts, hall, ?_⟩
  rw [List.append_nil] at hbytes
  rw [hfront, ← hbytes]
  exact (List.take_append_drop nestedSchemaHeaderLen bytes).symm

end NestedSchemaSectionV1

/-- **Nested schemas as bytes.** A node takes its `encoded_len`; a section is read back once it is
valid, and refused for what is wrong with it otherwise; and what was read is written again. -/
theorem nestedSchema_roundTrip :
    (∀ (node : NestedSchemaNodeV1) (bytes : List UInt8), node.writeTo = .ok bytes →
      bytes.length < 2 ^ 64 → node.encodedLen = .ok bytes.length) ∧
    (∀ (self : NestedSchemaSectionV1) (bytes : List UInt8), self.serialize = .ok bytes →
      bytes.length < 2 ^ 64 →
      (∃ lens, List.Forall₂ (fun entry len => entry.root.encodedLen = .ok len) self.entries lens ∧
        bytes.length = nestedSchemaHeaderLen + (lens.map (8 + ·)).sum) ∧
      NestedSchemaSectionV1.parse bytes = self.validate.map fun _ => self) ∧
    ∀ (bytes : List UInt8) (self : NestedSchemaSectionV1),
      NestedSchemaSectionV1.parse bytes = .ok self →
        self.serialize = .ok bytes ∧ self.validate = .ok () :=
  ⟨fun _ _ h hmemory => NestedSchemaNodeV1.encodedLen_of_writeTo h hmemory,
    fun _ _ h hmemory => ⟨NestedSchemaSectionV1.length_of_serialize h hmemory,
      NestedSchemaSectionV1.parse_serialize h⟩,
    fun _ _ h => NestedSchemaSectionV1.serialize_of_parse h⟩

theorem isUtf8_letter : isUtf8 [97] = true := by decide +kernel

/-- The string `a`. -/
def nameA : Str := ⟨[97], isUtf8_letter⟩

/-- A list of numbers. -/
def listSection : NestedSchemaSectionV1 :=
  ⟨[⟨1, 7, ⟨nameA, .list, .list, true, 0, 0, 0, 0, 0, [.scalar nameA .int32 .numCode true]⟩⟩]⟩

/-- A number, where a list, a struct or a map has to stand. -/
def scalarSection : NestedSchemaSectionV1 := ⟨[⟨1, 7, .scalar nameA .int32 .numCode true⟩]⟩

theorem listSection_roundTrip : ∃ bytes, listSection.serialize = .ok bytes ∧
    NestedSchemaSectionV1.parse bytes = .ok listSection := by
  have hlength : listSection.serialize.map List.length = .ok 70 := by decide +kernel
  cases h : listSection.serialize with
  | error e =>
    rw [h] at hlength
    cases hlength
  | ok bytes =>
    rw [h] at hlength
    have hmemory : bytes.length < 2 ^ 64 := by
      rw [Except.ok.inj hlength]
      decide
    have hvalid : listSection.validate = .ok () := by decide +kernel
    refine ⟨bytes, rfl, ?_⟩
    rw [(nestedSchema_roundTrip.2.1 listSection bytes h hmemory).2, hvalid]
    rfl

/-- The writer does not look at the trees: it writes a root that the reader refuses. -/
theorem scalarSection_not_roundTrip : ∃ bytes, scalarSection.serialize = .ok bytes ∧
    NestedSchemaSectionV1.parse bytes =
      .error (.badSchema "NestedSchema root must be List, Struct, or Map") := by
  have hlength : scalarSection.serialize.map List.length = .ok 47 := by decide +kernel
  cases h : scalarSection.serialize with
  | error e =>
    rw [h] at hlength
    cases hlength
  | ok bytes =>
    have hvalid : scalarSection.validate =
        .error (.badSchema "NestedSchema root must be List, Struct, or Map") := by decide +kernel
    refine ⟨bytes, rfl, ?_⟩
    rw [NestedSchemaSectionV1.parse_serialize h, hvalid]
    rfl

end Cove
