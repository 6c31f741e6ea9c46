import Cove.Core.SealedRecord
import Cove.Lib.AssocMap
import Cove.Lib.Digests
import Cove.Lib.RootedTree

/-!
# Layout plans

A layout plan proposes how a file may be read: a tree of nodes over its tables, segments and
morsels. The tree is there twice, by the parent that each node names and by the range of places in
the list that each node names for its children.

- `LayoutPlanV2.parse`, `LayoutPlanV2.serialize`, `validateLayoutNodes`.
- `validateLayoutNodes_eq_ok_iff`: what the check of the nodes accepts.
- `LayoutPlanV2.parse_serialize`: **what is written is read back**.
- `parentOf`, `childrenOf`, `SingleTree`: the tree that a plan is to be.
- `ChildRangesAgree`: the child ranges are those of the parents.
- `singleTree_iff`, `parsed_singleTree_iff`: **which plans that are read are one tree**.
-/

namespace Cove.Layout

open Checked

/-- `ABSENT_ID`. -/
def absentId : Nat := 2 ^ 32 - 1

/-! ## Records -/

structure LayoutPlanHeaderV2 where
  layoutId : Nat
  nodeCount : Nat
  rootNodeId : Nat
  flags : Nat
  checksum : Nat
  deriving DecidableEq, Repr

namespace LayoutPlanHeaderV2

/-- `LEN`. -/
def len : Nat := 20

/-- The fields before the checksum. -/
def fields (self : LayoutPlanHeaderV2) : List (Nat × Nat) :=
  [(4, self.layoutId), (4, self.nodeCount), (4, self.rootNodeId), (4, self.flags)]

def parse (bytes : List UInt8) : Except CoveError LayoutPlanHeaderV2 :=
  if bytes.length < len then .error .bufferTooShort
  else
    let bytes := bytes.take len
    if !checksumHolds Crc32c.crc32c bytes len then .error .checksumMismatch
    else
      .ok {
        layoutId := fieldNat bytes 0 4
        nodeCount := fieldNat bytes 4 4
        rootNodeId := fieldNat bytes 8 4
        flags := fieldNat bytes 12 4
        checksum := fieldNat bytes 16 4 }

def serialize (self : LayoutPlanHeaderV2) : List UInt8 :=
  FieldRecord.encode (sealRecord Crc32c.crc32c self.fields)

end LayoutPlanHeaderV2

structure LayoutPlanNodeV2 where
  nodeId : Nat
  parentNodeId : Nat
  nodeKind : Nat
  flags : Nat
  tableId : Nat
  columnId : Nat
  segmentId : Nat
  firstMorselId : Nat
  morselCount : Nat
  rowStart : Nat
  rowCount : Nat
  sectionId : Nat
  clusterId : Nat
  firstChildIndex : Nat
  childCount : Nat
  statsRef : Nat
  splitRef : Nat
  checksum : Nat
  deriving DecidableEq, Repr

namespace LayoutPlanNodeV2

/-- `LEN`. -/
def len : Nat := 76

/-- The fields before the checksum. -/
def fields (self : LayoutPlanNodeV2) : List (Nat × Nat) :=
  [(4, self.nodeId), (4, self.parentNodeId), (2, self.nodeKind), (2, self.flags),
    (4, self.tableId), (4, self.columnId), (4, self.segmentId), (4, self.firstMorselId),
    (4, self.morselCount), (8, self.rowStart), (8, self.rowCount), (4, self.sectionId),
    (4, self.clusterId), (4, self.firstChildIndex), (4, self.childCount), (4, self.statsRef),
    (4, self.splitRef)]

def parse (bytes : List UInt8) : Except CoveError LayoutPlanNodeV2 :=
  if bytes.length < len then .error .bufferTooShort
  else
    let bytes := bytes.take len
    if !checksumHolds Crc32c.crc32c bytes len then .error .checksumMismatch
    else if ¬ (fieldNat bytes 8 2 ≤ 7 ∨ fieldNat bytes 8 2 = 255) then .error .badLayoutPlan
    else
      .ok {
        nodeId := fieldNat bytes 0 4
        parentNodeId := fieldNat bytes 4 4
        nodeKind := fieldNat bytes 8 2
        flags := fieldNat bytes 10 2
        tableId := fieldNat bytes 12 4
        columnId := fieldNat bytes 16 4
        segmentId := fieldNat bytes 20 4
        firstMorselId := fieldNat bytes 24 4
        morselCount := fieldNat bytes 28 4
        rowStart := fieldNat bytes 32 8
        rowCount := fieldNat bytes 40 8
        sectionId := fieldNat bytes 48 4
        clusterId := fieldNat bytes 52 4
        firstChildIndex := fieldNat bytes 56 4
        childCount := fieldNat bytes 60 4
        statsRef := fieldNat bytes 64 4
        splitRef := fieldNat bytes 68 4
        checksum := fieldNat bytes 72 4 }

def serialize (self : LayoutPlanNodeV2) : List UInt8 :=
  FieldRecord.encode (sealRecord Crc32c.crc32c self.fields)

end LayoutPlanNodeV2

structure LayoutPlanV2 where
  header : LayoutPlanHeaderV2
  nodes : List LayoutPlanNodeV2
  deriving DecidableEq, Repr

/-! ## The check of the nodes -/

/-- The first loop of `validate_layout_nodes`: distinct ids, row ranges that end and child ranges
within the nodes. -/
def validateNodeRanges (nodeCount : Nat) (ids : List Nat) :
    List LayoutPlanNodeV2 → Except CoveError Unit
  | [] => .ok ()
  | node :: nodes =>
    if node.nodeId ∈ ids then .error .badLayoutPlan
    else do
      let _ ← checkedAdd node.rowStart node.rowCount
      let childEnd ← checkedAddU32 node.firstChildIndex node.childCount
      if childEnd > nodeCount then .error .badLayoutPlan
      else validateNodeRanges nodeCount (node.nodeId :: ids) nodes

/-- A step of the second loop: the root has no parent, and the others have one that is there. -/
def validateParent (header : LayoutPlanHeaderV2) (nodes : List LayoutPlanNodeV2)
    (node : LayoutPlanNodeV2) : Except CoveError Unit :=
  if node.nodeId = header.rootNodeId then
    if node.parentNodeId ≠ absentId ∨ node.nodeKind ≠ 0 then .error .badLayoutPlan else .ok ()
  else if node.parentNodeId ∉ nodes.map LayoutPlanNodeV2.nodeId then .error .badLayoutPlan
  else .ok ()

/-- A step of the last loop: up the parents until one is absent, with a number of hops left. -/
def climbParents (nodes : List LayoutPlanNodeV2) : Nat → Nat → Except CoveError Unit
  | 0, parent => if parent = absentId then .ok () else .error .badLayoutPlan
  | hops + 1, parent =>
    if parent = absentId then .ok ()
    else
      match nodes.find? fun candidate => candidate.nodeId == parent with
      | none => .error .badLayoutPlan
      | some parentNode => climbParents nodes hops parentNode.parentNodeId

/-- `validate_layout_nodes`. -/
def validateLayoutNodes (header : LayoutPlanHeaderV2) (nodes : List LayoutPlanNodeV2) :
    Except CoveError Unit :=
  if header.nodeCount ≠ nodes.length then .error .badLayoutPlan
  else do
    validateNodeRanges nodes.length [] nodes
    if header.rootNodeId ∉ nodes.map LayoutPlanNodeV2.nodeId then .error .badLayoutPlan
    else do
      nodes.forM (validateParent header nodes)
      nodes.forM fun node => climbParents nodes nodes.length node.parentNodeId

namespace LayoutPlanV2

def parse (bytes : List UInt8) : Except CoveError LayoutPlanV2 := do
  let header ← LayoutPlanHeaderV2.parse bytes
  let nodesLen ← checkedMul header.nodeCount LayoutPlanNodeV2.len
  let stop ← checkedAdd LayoutPlanHeaderV2.len nodesLen
  if bytes.length ≠ stop then .error .badLayoutPlan
  else do
    let nodes ← (chunksExact LayoutPlanNodeV2.len (bytes.drop LayoutPlanHeaderV2.len)).mapM
      LayoutPlanNodeV2.parse
    validateLayoutNodes header nodes
    .ok ⟨header, nodes⟩

def serialize (self : LayoutPlanV2) : Except CoveError (List UInt8) := do
  validateLayoutNodes self.header self.nodes
  let header := { self.header with nodeCount := self.nodes.length }
  .ok (header.serialize ++ self.nodes.flatMap LayoutPlanNodeV2.serialize)

end LayoutPlanV2

/-! ### What it accepts -/

variable {nodeCount : Nat} {plan : LayoutPlanV2}

section

variable {header : LayoutPlanHeaderV2} {nodes : List LayoutPlanNodeV2}

/-- The ranges of a node are in order, among so many nodes. -/
structure RangesFit (nodeCount : Nat) (node : LayoutPlanNodeV2) : Prop where
  rows : node.rowStart + node.rowCount < 2 ^ 64
  children : node.firstChildIndex + node.childCount < 2 ^ 32
  within : node.firstChildIndex + node.childCount ≤ nodeCount

theorem validateNodeRanges_eq_ok {ids : List Nat} :
    validateNodeRanges nodeCount ids nodes = .ok () ↔
      (nodes.map LayoutPlanNodeV2.nodeId).Nodup ∧ (∀ node ∈ nodes, node.nodeId ∉ ids) ∧
        ∀ node ∈ nodes, RangesFit nodeCount node := by
  induction nodes generalizing ids with
  | nil => exact iff_of_true rfl ⟨.nil, nofun, nofun⟩
  | cons node nodes ih =>
    rw [validateNodeRanges, ite_error_eq_ok, bind_eq_ok, List.map_cons, List.nodup_cons,
      List.forall_mem_cons, List.forall_mem_cons, List.mem_map]
    constructor
    · rintro ⟨hnew, rows, hrows, h⟩
      obtain ⟨hrowsLt, -⟩ := addU64_eq_ok.mp hrows
      obtain ⟨stop, hstop, h⟩ := bind_eq_ok.mp h
      obtain ⟨hstopLt, rfl⟩ := addU32_eq_ok.mp hstop
      obtain ⟨hwithin, h⟩ := ite_error_eq_ok.mp h
      obtain ⟨hnodup, hids, hranges⟩ := ih.mp h
      refine ⟨⟨?_, hnodup⟩, ⟨hnew, fun other hother hmem => ?_⟩,
        ⟨hrowsLt, hstopLt, Nat.le_of_not_lt hwithin⟩, hranges⟩
      · rintro ⟨other, hother, hsame⟩
        exact hids other hother (hsame ▸ List.mem_cons_self)
      · exact hids other hother (List.mem_cons_of_mem _ hmem)
    · rintro ⟨⟨hfresh, hnodup⟩, ⟨hnew, hids⟩, hrange, hranges⟩
      have hrest : ∀ other ∈ nodes, other.nodeId ∉ node.nodeId :: ids := by
        intro other hother hmem
        rcases List.mem_cons.mp hmem with hsame | hmem
        · exact hfresh ⟨other, hother, hsame⟩
        · exact hids other hother hmem
      refine ⟨hnew, _, addU64_eq_ok.mpr ⟨hrange.rows, rfl⟩, bind_eq_ok.mpr ⟨_,
        addU32_eq_ok.mpr ⟨hrange.children, rfl⟩, ?_⟩⟩
      exact ite_error_eq_ok.mpr ⟨Nat.not_lt.mpr hrange.within, ih.mpr ⟨hnodup, hrest, hranges⟩⟩

/-- What the second loop asks of a node. -/
def ParentThere (header : LayoutPlanHeaderV2) (nodes : List LayoutPlanNodeV2)
    (node : LayoutPlanNodeV2) : Prop :=
  if node.nodeId = header.rootNodeId then node.parentNodeId = absentId ∧ node.nodeKind = 0
  else node.parentNodeId ∈ nodes.map LayoutPlanNodeV2.nodeId

theorem validateParent_eq_ok {node : LayoutPlanNodeV2} :
    validateParent header nodes node = .ok () ↔ ParentThere header nodes node := by
  unfold validateParent ParentThere
  by_cases hroot : node.nodeId = header.rootNodeId
  · rw [if_pos hroot, if_pos hroot, ite_error_eq_ok, not_or, not_not, not_not]
    exact and_iff_left rfl
  · rw [if_neg hroot, if_neg hroot, ite_error_eq_ok, not_not]
    exact and_iff_left rfl

/-- **What the check of the nodes accepts.** -/
theorem validateLayoutNodes_eq_ok_iff : validateLayoutNodes header nodes = .ok () ↔
    header.nodeCount = nodes.length ∧ (nodes.map LayoutPlanNodeV2.nodeId).Nodup ∧
      (∀ node ∈ nodes, RangesFit nodes.length node) ∧
      header.rootNodeId ∈ nodes.map LayoutPlanNodeV2.nodeId ∧
      (∀ node ∈ nodes, ParentThere header nodes node) ∧
      ∀ node ∈ nodes, climbParents nodes nodes.length node.parentNodeId = .ok () := by
  unfold validateLayoutNodes
  rw [ite_error_eq_ok, not_not]
  refine and_congr_right fun _ => ?_
  constructor
  · intro h
    obtain ⟨_, hranges, h⟩ := bind_eq_ok.mp h
    obtain ⟨hnodup, -, hranges⟩ := validateNodeRanges_eq_ok.mp hranges
    obtain ⟨hroot, h⟩ := ite_error_eq_ok.mp h
    obtain ⟨_, hparents, h⟩ := bind_eq_ok.mp h
    exact ⟨hnodup, hranges, Decidable.of_not_not hroot,
      fun node hnode => validateParent_eq_ok.mp (forM_eq_ok.mp hparents node hnode),
      forM_eq_ok.mp h⟩
  · rintro ⟨hnodup, hranges, hroot, hparents, hclimbs⟩
    refine bind_eq_ok.mpr ⟨(), validateNodeRanges_eq_ok.mpr ⟨hnodup, fun _ _ => List.not_mem_nil,
      hranges⟩, ite_error_eq_ok.mpr ⟨not_not_intro hroot, bind_eq_ok.mpr ⟨(), ?_, ?_⟩⟩⟩
    · exact forM_eq_ok.mpr fun node hnode => validateParent_eq_ok.mpr (hparents node hnode)
    · exact forM_eq_ok.mpr hclimbs

end

/-! ## Plans are read back -/

variable {bytes : List UInt8}

section

variable {nodes : List LayoutPlanNodeV2}

/-- The header as it is read back. -/
def LayoutPlanHeaderV2.stored (self : LayoutPlanHeaderV2) : LayoutPlanHeaderV2 :=
  { self with checksum := Crc32c.crc32c (FieldRecord.encode self.fields ++ [0, 0, 0, 0]) }

/-- A node as it is read back. -/
def LayoutPlanNodeV2.stored (self : LayoutPlanNodeV2) : LayoutPlanNodeV2 :=
  { self with checksum := Crc32c.crc32c (FieldRecord.encode self.fields ++ [0, 0, 0, 0]) }

/-- A plan as it is read back: only the checksums differ. -/
def LayoutPlanV2.stored (self : LayoutPlanV2) : LayoutPlanV2 :=
  ⟨self.header.stored, self.nodes.map LayoutPlanNodeV2.stored⟩

theorem LayoutPlanHeaderV2.parse_serialize {self : LayoutPlanHeaderV2}
    (hfits : FieldRecord.Fits self.fields) (rest : List UInt8) :
    parse (self.serialize ++ rest) = .ok self.stored := by
  have hlength : self.serialize.length = len := by
    rw [serialize, FieldRecord.length_encode, width_sealRecord]
    rfl
  have hsum : checksumHolds Crc32c.crc32c self.serialize len = true :=
    checksumHolds_sealRecord Crc32c.crc32c_lt rfl
  have h : ∀ offset w {value : Nat},
      FieldRecord.fieldAt (sealRecord Crc32c.crc32c self.fields) offset w = some value →
      fieldNat self.serialize offset w = value := by
    intro offset w value hat
    rw [serialize, ← List.append_nil (FieldRecord.encode _)]
    exact fieldNat_encode (fits_sealRecord Crc32c.crc32c_lt hfits) hat []
  unfold parse
  rw [if_neg (by rw [List.length_append, hlength]; omega), List.take_left' hlength]
  dsimp only
  rw [hsum, h 0 4 rfl, h 4 4 rfl, h 8 4 rfl, h 12 4 rfl, h 16 4 rfl]
  rfl

theorem LayoutPlanNodeV2.length_serialize (self : LayoutPlanNodeV2) :
    self.serialize.length = len := by
  rw [serialize, FieldRecord.length_encode, width_sealRecord]
  rfl

/-- A node of a known kind is read back. -/
theorem LayoutPlanNodeV2.parse_serialize {self : LayoutPlanNodeV2}
    (hfits : FieldRecord.Fits self.fields) (hkind : self.nodeKind ≤ 7 ∨ self.nodeKind = 255) :
    parse self.serialize = .ok self.stored := by
  have hsum : checksumHolds Crc32c.crc32c self.serialize len = true :=
    checksumHolds_sealRecord Crc32c.crc32c_lt rfl
  have h : ∀ offset w {value : Nat},
      FieldRecord.fieldAt (sealRecord Crc32c.crc32c self.fields) offset w = some value →
      fieldNat self.serialize offset w = value := by
    intro offset w value hat
    rw [serialize, ← List.append_nil (FieldRecord.encode _)]
    exact fieldNat_encode (fits_sealRecord Crc32c.crc32c_lt hfits) hat []
  unfold parse
  rw [if_neg (Nat.not_lt.mpr self.length_serialize.ge),
    List.take_of_length_le self.length_serialize.le]
  dsimp only
  rw [hsum, h 0 4 rfl, h 4 4 rfl, h 8 2 rfl, h 10 2 rfl, h 12 4 rfl, h 16 4 rfl, h 20 4 rfl,
    h 24 4 rfl, h 28 4 rfl, h 32 8 rfl, h 40 8 rfl, h 48 4 rfl, h 52 4 rfl, h 56 4 rfl, h 60 4 rfl,
    h 64 4 rfl, h 68 4 rfl, h 72 4 rfl, if_neg (not_not_intro hkind)]
  rfl

/-! The check of the nodes does not look at checksums. -/

theorem map_nodeId_stored : (nodes.map LayoutPlanNodeV2.stored).map LayoutPlanNodeV2.nodeId =
    nodes.map LayoutPlanNodeV2.nodeId := by
  rw [List.map_map]
  rfl

theorem climbParents_stored (hops parent : Nat) :
    climbParents (nodes.map LayoutPlanNodeV2.stored) hops parent =
      climbParents nodes hops parent := by
  induction hops generalizing parent with
  | zero => rfl
  | succ hops ih =>
    rw [climbParents, climbParents, List.find?_map]
    by_cases habsent : parent = absentId
    · rw [if_pos habsent, if_pos habsent]
    · rw [if_neg habsent, if_neg habsent]
      have hfind : ((fun candidate : LayoutPlanNodeV2 => candidate.nodeId == parent) ∘
          LayoutPlanNodeV2.stored) = fun candidate => candidate.nodeId == parent := rfl
      rw [hfind]
      cases nodes.find? fun candidate => candidate.nodeId == parent with
      | none => rfl
      | some parentNode => exact ih parentNode.parentNodeId

theorem rangesFit_stored {node : LayoutPlanNodeV2} :
    RangesFit nodeCount node.stored ↔ RangesFit nodeCount node :=
  ⟨fun h => ⟨h.rows, h.children, h.within⟩, fun h => ⟨h.rows, h.children, h.within⟩⟩

theorem validateLayoutNodes_stored (header : LayoutPlanHeaderV2) :
    validateLayoutNodes header.stored (nodes.map LayoutPlanNodeV2.stored) = .ok () ↔
      validateLayoutNodes header nodes = .ok () := by
  rw [validateLayoutNodes_eq_ok_iff, validateLayoutNodes_eq_ok_iff, map_nodeId_stored,
    List.length_map]
  simp only [List.forall_mem_map, climbParents_stored, ParentThere, map_nodeId_stored,
    rangesFit_stored]
  exact Iff.rfl

/-- The fields of a plan fit, and its kinds are known. -/
structure LayoutPlanV2.Fits (plan : LayoutPlanV2) : Prop where
  header : FieldRecord.Fits plan.header.fields
  nodes : ∀ node ∈ plan.nodes,
    FieldRecord.Fits node.fields ∧ (node.nodeKind ≤ 7 ∨ node.nodeKind = 255)

/-- **A plan that is written is read back**, up to its checksums. -/
theorem LayoutPlanV2.parse_serialize {self : LayoutPlanV2} (hfits : self.Fits)
    (h : self.serialize = .ok bytes) : parse bytes = .ok self.stored := by
  obtain ⟨_, hvalidate, h⟩ := bind_eq_ok.mp h
  obtain rfl := Except.ok.inj h
  have hcount := (validateLayoutNodes_eq_ok_iff.mp hvalidate).1
  have hheader : ({ self.header with nodeCount := self.nodes.length } : LayoutPlanHeaderV2) =
      self.header := by rw [← hcount]
  have hnodeCount : self.header.nodeCount < 2 ^ 32 :=
    hfits.header (4, self.header.nodeCount) (.tail _ (.head _))
  have hlength : self.header.serialize.length = LayoutPlanHeaderV2.len := by
    rw [LayoutPlanHeaderV2.serialize, FieldRecord.length_encode, width_sealRecord]
    rfl
  have hnodes : (self.nodes.flatMap LayoutPlanNodeV2.serialize).length =
      self.header.nodeCount * LayoutPlanNodeV2.len := by
    rw [Strides.length_flatMap fun node _ => node.length_serialize, hcount]
  have hmul : checkedMul self.header.nodeCount LayoutPlanNodeV2.len =
      .ok (self.header.nodeCount * LayoutPlanNodeV2.len) := by
    refine mulU64_eq_ok.mpr ⟨?_, rfl⟩
    unfold LayoutPlanNodeV2.len
    omega
  have hadd : checkedAdd LayoutPlanHeaderV2.len (self.header.nodeCount * LayoutPlanNodeV2.len) =
      .ok (LayoutPlanHeaderV2.len + self.header.nodeCount * LayoutPlanNodeV2.len) := by
    refine addU64_eq_ok.mpr ⟨?_, rfl⟩
    unfold LayoutPlanNodeV2.len LayoutPlanHeaderV2.len
    omega
  have hread : (self.nodes.map LayoutPlanNodeV2.serialize).mapM LayoutPlanNodeV2.parse =
      .ok (self.nodes.map LayoutPlanNodeV2.stored) := by
    refine mapM_eq_ok.mpr (List.forall₂_map_left_iff.mpr (List.forall₂_map_right_iff.mpr ?_))
    refine List.forall₂_same.mpr fun node hnode => ?_
    obtain ⟨hnodeFits, hkind⟩ := hfits.nodes node hnode
    exact LayoutPlanNodeV2.parse_serialize hnodeFits hkind
  rw [hheader]
  refine bind_eq_ok.mpr ⟨_, LayoutPlanHeaderV2.parse_serialize hfits.header _,
    bind_eq_ok.mpr ⟨_, hmul, bind_eq_ok.mpr ⟨_, hadd, ?_⟩⟩⟩
  have hend : ¬ (self.header.serialize ++ self.nodes.flatMap LayoutPlanNodeV2.serialize).length ≠
      LayoutPlanHeaderV2.len + self.header.nodeCount * LayoutPlanNodeV2.len := by
    rw [List.length_append, hlength, hnodes]
    exact not_not_intro rfl
  rw [if_neg hend, List.drop_left' hlength,
    chunksExact_flatMap (by decide) fun node _ => node.length_serialize, hread, ok_bind]
  exact bind_eq_ok.mpr ⟨(), (validateLayoutNodes_stored self.header).mpr hvalidate, rfl⟩

end

/-! ## The tree -/

open RootedTree

/-- The node that a node names as its parent. -/
def parentOf (nodes : List LayoutPlanNodeV2) (node : LayoutPlanNodeV2) : Option LayoutPlanNodeV2 :=
  if node.parentNodeId = absentId then none
  else nodes.find? fun candidate => candidate.nodeId == node.parentNodeId

/-- The nodes in the child range of a node. -/
def childrenOf (nodes : List LayoutPlanNodeV2) (node : LayoutPlanNodeV2) : List LayoutPlanNodeV2 :=
  (nodes.drop node.firstChildIndex).take node.childCount

/-- The nodes are one tree below a root. -/
structure TreeBelow (plan : LayoutPlanV2) (root : LayoutPlanNodeV2) : Prop where
  mem : root ∈ plan.nodes
  id : root.nodeId = plan.header.rootNodeId
  reaches : ∀ node ∈ plan.nodes, ∃ steps < plan.header.nodeCount,
    climb (parentOf plan.nodes) steps node = some root
  lists : Listed plan.nodes (parentOf plan.nodes) (childrenOf plan.nodes)
  walks : ∃ depth visited, walk (childrenOf plan.nodes) depth root = some visited ∧
    visited.Perm plan.nodes

/-- **The nodes of a plan are one tree**: the parents of every node lead to the root, the child
range of every node lists its children, and a walk down the ranges meets every node once. -/
def SingleTree (plan : LayoutPlanV2) : Prop := ∃ root, TreeBelow plan root

/-- The child ranges are those of the parents: no node but the root is without a parent, whatever
stands in the range of a node names it as its parent, and the ranges are long enough together. -/
structure ChildRangesAgree (plan : LayoutPlanV2) : Prop where
  oneRoot : ∀ node ∈ plan.nodes, node.parentNodeId = absentId →
    node.nodeId = plan.header.rootNodeId
  named : ∀ node ∈ plan.nodes, ∀ child ∈ childrenOf plan.nodes node,
    child.parentNodeId = node.nodeId ∧ child.parentNodeId ≠ absentId
  counted : (plan.nodes.map LayoutPlanNodeV2.childCount).sum + 1 = plan.header.nodeCount

section

variable {header : LayoutPlanHeaderV2} {nodes : List LayoutPlanNodeV2}

theorem eq_of_nodeId_eq (hnodup : (nodes.map LayoutPlanNodeV2.nodeId).Nodup)
    {node node' : LayoutPlanNodeV2} (hnode : node ∈ nodes) (hnode' : node' ∈ nodes)
    (h : node.nodeId = node'.nodeId) : node = node' :=
  List.inj_on_of_nodup_map hnodup hnode hnode' h

theorem parentOf_eq_some (hnodup : (nodes.map LayoutPlanNodeV2.nodeId).Nodup)
    {child node : LayoutPlanNodeV2} : parentOf nodes child = some node ↔
      node ∈ nodes ∧ child.parentNodeId = node.nodeId ∧ child.parentNodeId ≠ absentId := by
  unfold parentOf
  by_cases habsent : child.parentNodeId = absentId
  · rw [if_pos habsent]
    exact iff_of_false nofun fun h => h.2.2 habsent
  · rw [if_neg habsent]
    constructor
    · intro h
      have hid := List.find?_some h
      exact ⟨List.mem_of_find?_eq_some h, (eq_of_beq hid).symm, habsent⟩
    · rintro ⟨hnode, hid, -⟩
      rw [hid]
      exact AssocMap.find?_key hnodup hnode

/-- The hops of the check lead from a node to one without a parent. -/
theorem exists_climb_of_climbParents (hnodup : (nodes.map LayoutPlanNodeV2.nodeId).Nodup)
    {hops : Nat} {node : LayoutPlanNodeV2} (hnode : node ∈ nodes)
    (h : climbParents nodes hops node.parentNodeId = .ok ()) :
    ∃ steps top, climb (parentOf nodes) steps node = some top ∧ top ∈ nodes ∧
      top.parentNodeId = absentId := by
  induction hops generalizing node with
  | zero =>
    by_cases habsent : node.parentNodeId = absentId
    · exact ⟨0, node, rfl, hnode, habsent⟩
    · rw [climbParents, if_neg habsent] at h
      cases h
  | succ hops ih =>
    by_cases habsent : node.parentNodeId = absentId
    · exact ⟨0, node, rfl, hnode, habsent⟩
    · rw [climbParents, if_neg habsent] at h
      split at h
      · cases h
      next parentNode hfind =>
      have hparent : parentOf nodes node = some parentNode := by rwa [parentOf, if_neg habsent]
      obtain ⟨steps, top, hclimb, htop⟩ := ih ((parentOf_eq_some hnodup).mp hparent).1 h
      exact ⟨steps + 1, top, by rwa [climb, hparent, Option.bind_some], htop⟩

/-- Every node of an accepted plan is below the root, when no other node is without a parent. -/
theorem climbs_of_validate (h : validateLayoutNodes header nodes = .ok ())
    (honeRoot : ∀ node ∈ nodes, node.parentNodeId = absentId → node.nodeId = header.rootNodeId)
    {root : LayoutPlanNodeV2} (hroot : root ∈ nodes) (hid : root.nodeId = header.rootNodeId) :
    Climbs nodes (parentOf nodes) root := by
  obtain ⟨-, hnodup, -, -, hparents, hclimbs⟩ := validateLayoutNodes_eq_ok_iff.mp h
  have habsent : root.parentNodeId = absentId := by
    have hthere := hparents root hroot
    rw [ParentThere, if_pos hid] at hthere
    exact hthere.1
  refine ⟨hnodup.of_map _, hroot, by rw [parentOf, if_pos habsent], fun a _ b hparent =>
    ((parentOf_eq_some hnodup).mp hparent).1, fun node hnode => ?_⟩
  obtain ⟨steps, top, hclimb, htop, htopAbsent⟩ :=
    exists_climb_of_climbParents hnodup hnode (hclimbs node hnode)
  rw [eq_of_nodeId_eq hnodup htop hroot ((honeRoot top htop htopAbsent).trans hid.symm)] at hclimb
  exact ⟨steps, hclimb⟩

theorem childrenOf_sublist (node : LayoutPlanNodeV2) : (childrenOf nodes node).Sublist nodes :=
  (List.take_sublist _ _).trans (List.drop_sublist _ _)

theorem length_childrenOf {node : LayoutPlanNodeV2} (h : RangesFit nodes.length node) :
    (childrenOf nodes node).length = node.childCount := by
  have := h.within
  rw [childrenOf, List.length_take, List.length_drop]
  omega

/-- **An accepted plan is one tree exactly when** its child ranges are those of its parents. -/
theorem singleTree_iff (h : validateLayoutNodes plan.header plan.nodes = .ok ()) :
    SingleTree plan ↔ ChildRangesAgree plan := by
  obtain ⟨hcount, hnodup, hranges, hrootMem, -, -⟩ := validateLayoutNodes_eq_ok_iff.mp h
  have hlengths : (plan.nodes.map fun node => (childrenOf plan.nodes node).length).sum =
      (plan.nodes.map LayoutPlanNodeV2.childCount).sum := by
    rw [List.map_congr_left fun node hnode => length_childrenOf (hranges node hnode)]
  have hchildren : ∀ node ∈ plan.nodes, (childrenOf plan.nodes node).Nodup :=
    fun node _ => (hnodup.of_map _).sublist (childrenOf_sublist node)
  constructor
  · rintro ⟨root, hroot, hid, hreaches, hlists, -⟩
    have honeRoot : ∀ node ∈ plan.nodes, node.parentNodeId = absentId →
        node.nodeId = plan.header.rootNodeId := by
      intro node hnode habsent
      obtain ⟨steps, -, hclimb⟩ := hreaches node hnode
      cases steps with
      | zero => rw [Option.some.inj hclimb, hid]
      | succ steps =>
        rw [climb, parentOf, if_pos habsent] at hclimb
        cases hclimb
    have hclimbs := climbs_of_validate h honeRoot hroot hid
    have hpoints : Points plan.nodes (parentOf plan.nodes) (childrenOf plan.nodes) :=
      ⟨hchildren, fun node hnode child hchild => (hlists node hnode child).mp hchild⟩
    refine ⟨honeRoot, fun node hnode child hchild => ?_, ?_⟩
    · exact ((parentOf_eq_some hnodup).mp ((hlists node hnode child).mp hchild).2).2
    · rw [hcount, ← hlengths]
      rw [← List.length_flatMap]
      exact (listed_iff hclimbs hpoints).mp hlists
  · rintro ⟨honeRoot, hnamed, hcounted⟩
    obtain ⟨root, hroot, hid⟩ := List.mem_map.mp hrootMem
    have hclimbs := climbs_of_validate h honeRoot hroot hid
    have hpoints : Points plan.nodes (parentOf plan.nodes) (childrenOf plan.nodes) := by
      refine ⟨hchildren, fun node hnode child hchild => ?_⟩
      exact ⟨(childrenOf_sublist node).subset hchild,
        (parentOf_eq_some hnodup).mpr ⟨hnode, hnamed node hnode child hchild⟩⟩
    have hlists : Listed plan.nodes (parentOf plan.nodes) (childrenOf plan.nodes) := by
      rw [listed_iff hclimbs hpoints, List.length_flatMap, hlengths, hcounted, hcount]
    obtain ⟨visited, hwalk, hperm⟩ := walk_perm hclimbs hchildren hlists
    refine ⟨root, hroot, hid, fun node hnode => ?_, hlists, plan.nodes.length, visited, hwalk, hperm⟩
    obtain ⟨steps, hclimb⟩ := hclimbs.reaches node hnode
    exact ⟨steps, by rw [hcount]; exact climb_lt_length hclimbs hnode hclimb, hclimb⟩

end

/-- What was read has nodes that the check accepts. -/
theorem validate_of_parse (h : LayoutPlanV2.parse bytes = .ok plan) :
    validateLayoutNodes plan.header plan.nodes = .ok () := by
  obtain ⟨header, -, h⟩ := bind_eq_ok.mp h
  obtain ⟨nodesLen, -, h⟩ := bind_eq_ok.mp h
  obtain ⟨stop, -, h⟩ := bind_eq_ok.mp h
  obtain ⟨-, h⟩ := ite_error_eq_ok.mp h
  obtain ⟨nodes, -, h⟩ := bind_eq_ok.mp h
  obtain ⟨_, hvalidate, h⟩ := bind_eq_ok.mp h
  obtain rfl := Except.ok.inj h
  exact hvalidate

/-- **Which plans that are read are one tree.** -/
theorem parsed_singleTree_iff {bytes : List UInt8} {plan : LayoutPlanV2}
    (h : LayoutPlanV2.parse bytes = .ok plan) : SingleTree plan ↔ ChildRangesAgree plan :=
  singleTree_iff (validate_of_parse h)

/-- A node that stands for nothing. -/
def bareNode (nodeId parentNodeId nodeKind firstChildIndex childCount checksum : Nat) :
    LayoutPlanNodeV2 where
  nodeId := nodeId
  parentNodeId := parentNodeId
  nodeKind := nodeKind
  flags := 0
  tableId := absentId
  columnId := absentId
  segmentId := absentId
  firstMorselId := 0
  morselCount := 0
  rowStart := 0
  rowCount := 0
  sectionId := 0
  clusterId := 0
  firstChildIndex := firstChildIndex
  childCount := childCount
  statsRef := absentId
  splitRef := absentId
  checksum := checksum

/-- A root and a node below it, where the root has a range of some length. -/
def twoNodes (childCount checksum : Nat) : LayoutPlanV2 :=
  ⟨⟨1, 2, 1, 0, 1526929598⟩,
    [bareNode 1 absentId 0 1 childCount checksum, bareNode 2 1 2 0 0 49602069]⟩

theorem twoNodes_singleTree : ∃ bytes, (twoNodes 1 2430549194).serialize = .ok bytes ∧
    LayoutPlanV2.parse bytes = .ok (twoNodes 1 2430549194) ∧ SingleTree (twoNodes 1 2430549194) := by
  have hread : ((twoNodes 1 2430549194).serialize >>= LayoutPlanV2.parse) =
      .ok (twoNodes 1 2430549194) := by decide +kernel
  obtain ⟨bytes, hbytes, hparse⟩ := bind_eq_ok.mp hread
  refine ⟨bytes, hbytes, hparse, (parsed_singleTree_iff hparse).mpr ?_⟩
  exact ⟨by decide, by decide, by decide⟩

/-- The range of the root is empty, and the node below it is in no range. -/
theorem twoNodes_not_singleTree : ∃ bytes,
    LayoutPlanV2.parse bytes = .ok (twoNodes 0 1658007860) ∧
      ¬ SingleTree (twoNodes 0 1658007860) := by
  have hread : ((twoNodes 0 1658007860).serialize >>= LayoutPlanV2.parse) =
      .ok (twoNodes 0 1658007860) := by decide +kernel
  obtain ⟨bytes, -, hparse⟩ := bind_eq_ok.mp hread
  refine ⟨bytes, hparse, fun htree => ?_⟩
  have hagree := (singleTree_iff (validate_of_parse hparse)).mp htree
  exact absurd hagree.counted (by decide)

end Cove.Layout
