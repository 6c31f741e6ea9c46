import Cove.Core.PagePayload
import Cove.Lib.Preorder

/-!
# The tree of a column page payload

The nodes of a payload stand in preorder, and so do their buffers. Two cursors, one over each list,
are shared by the whole descent.

- `parsePayloadSubtree`, `payloadTree`: the descent, and the tree of a payload.
- `parsePayloadSubtree_spec`, `exists_parsePayloadSubtree`: **a subtree is read exactly from its
  preorder**.
- `payloadTree_eq_ok_iff`: **the tree of a payload is the declared tree whose preorder the payload
  is**.
-/

namespace Cove

open Checked
open Preorder

/-- `PagePayloadTreeNode`. -/
abbrev PagePayloadTreeNode := Tree CoveEncodingNodeV1 PageBufferDescriptorV1

/-- Every node of the tree has its declared `child_count` and `buffer_count`. -/
abbrev DeclaredCounts {β : Type} (t : Tree CoveEncodingNodeV1 β) : Prop :=
  t.Declared CoveEncodingNodeV1.childCount CoveEncodingNodeV1.bufferCount

/-- The two cursors of the descent. -/
structure Cursors where
  nodePos : Nat
  bufferPos : Nat
  deriving DecidableEq, Repr

section

variable (nodes : List CoveEncodingNodeV1) (buffers : List PageBufferDescriptorV1)

mutual

/-- `parse_payload_subtree`. The cursors stay within the lists, so moving them cannot overflow; the
subtype says that a call reads a node, which is why the descent ends. -/
def parsePayloadSubtree (pos : Cursors) :
    Except CoveError { out : PagePayloadTreeNode × Cursors // pos.nodePos < out.2.nodePos } :=
  match _hnode : nodes[pos.nodePos]? with
  | none => .error .pageCorrupt
  | some node =>
    if pos.bufferPos + node.bufferCount > buffers.length then .error .pageCorrupt
    else do
      let ⟨(children, pos'), hpos⟩ ← parsePayloadChildren node.childCount
        ⟨pos.nodePos + 1, pos.bufferPos + node.bufferCount⟩
      .ok ⟨(.node node ((buffers.drop pos.bufferPos).take node.bufferCount) children, pos'), hpos⟩
termination_by (nodes.length - pos.nodePos, 0)
decreasing_by
  have := (List.getElem?_eq_some_iff.mp _hnode).1
  exact Prod.Lex.left _ _ (by omega)

/-- The loop over the children that are left. -/
def parsePayloadChildren (count : Nat) (pos : Cursors) :
    Except CoveError
      { out : List PagePayloadTreeNode × Cursors // pos.nodePos ≤ out.2.nodePos } :=
  match count with
  | 0 => .ok ⟨([], pos), Nat.le_refl _⟩
  | count + 1 => do
    let ⟨(child, pos'), hpos'⟩ ← parsePayloadSubtree pos
    let ⟨(children, pos''), hpos''⟩ ← parsePayloadChildren count pos'
    .ok ⟨(child :: children, pos''), Nat.le_trans (Nat.le_of_lt hpos') hpos''⟩
termination_by (nodes.length - pos.nodePos, count + 1)
decreasing_by
  · exact Prod.Lex.right _ (by omega)
  · have hle : pos.nodePos < pos'.nodePos := hpos'
    rw [Prod.lex_def]
    omega

end

/-- `payload_tree`. -/
def payloadTree (rootNodeId : Nat) : Except CoveError PagePayloadTreeNode :=
  match nodes with
  | [] => .error .pageCorrupt
  | first :: _ =>
    if first.nodeId ≠ rootNodeId then .error .pageCorrupt
    else do
      let ⟨(root, pos), _⟩ ← parsePayloadSubtree nodes buffers ⟨0, 0⟩
      if pos.nodePos ≠ nodes.length ∨ pos.bufferPos ≠ buffers.length then .error .pageCorrupt
      else .ok root

end

/-! ## A subtree is read exactly from its preorder -/

variable {pos pos' : Cursors}

variable {ts : List PagePayloadTreeNode}

section

variable {nodes : List CoveEncodingNodeV1} {buffers : List PageBufferDescriptorV1}
  {rootNodeId : Nat}

variable (nodes buffers) in
/-- The descent from two places reads a subtree, and stops at two places. -/
def Reads (pos : Cursors) (t : PagePayloadTreeNode) (pos' : Cursors) : Prop :=
  ∃ hpos, parsePayloadSubtree nodes buffers pos = .ok ⟨(t, pos'), hpos⟩

variable (nodes buffers) in
/-- The same for the children of a node. -/
def ReadsAll (count : Nat) (pos : Cursors) (ts : List PagePayloadTreeNode) (pos' : Cursors) :
    Prop :=
  ∃ hpos, parsePayloadChildren nodes buffers count pos = .ok ⟨(ts, pos'), hpos⟩

theorem reads_node_iff {node : CoveEncodingNodeV1}
    {owned : List PageBufferDescriptorV1} {children : List PagePayloadTreeNode} :
    Reads nodes buffers pos (.node node owned children) pos' ↔
      nodes[pos.nodePos]? = some node ∧ pos.bufferPos + node.bufferCount ≤ buffers.length ∧
        owned = (buffers.drop pos.bufferPos).take node.bufferCount ∧
        ReadsAll nodes buffers node.childCount
          ⟨pos.nodePos + 1, pos.bufferPos + node.bufferCount⟩ children pos' := by
  constructor
  · rintro ⟨hpos, h⟩
    rw [parsePayloadSubtree] at h
    split at h
    · cases h
    next node' hnode =>
      obtain ⟨hfit, h⟩ := ite_error_eq_ok.mp h
      obtain ⟨⟨⟨children', last⟩, hlast⟩, hchildren, h⟩ := bind_eq_ok.mp h
      obtain ⟨htree, rfl⟩ := Prod.mk.inj (congrArg Subtype.val (Except.ok.inj h))
      obtain ⟨rfl, rfl, rfl⟩ := Tree.node.inj htree
      exact ⟨hnode, Nat.not_lt.mp hfit, rfl, hlast, hchildren⟩
  · rintro ⟨hnode, hfit, rfl, hlast, hchildren⟩
    refine ⟨hlast, ?_⟩
    rw [parsePayloadSubtree]
    split
    next hnone => rw [hnode] at hnone; cases hnone
    next node' hnode' =>
      obtain rfl := Option.some.inj (hnode.symm.trans hnode')
      rw [if_neg (Nat.not_lt.mpr hfit), hchildren, ok_bind]

theorem readsAll_zero_iff :
    ReadsAll nodes buffers 0 pos ts pos' ↔ ts = [] ∧ pos' = pos := by
  constructor
  · rintro ⟨hpos, h⟩
    rw [parsePayloadChildren] at h
    obtain ⟨rfl, rfl⟩ := Prod.mk.inj (congrArg Subtype.val (Except.ok.inj h))
    exact ⟨rfl, rfl⟩
  · rintro ⟨rfl, rfl⟩
    exact ⟨Nat.le_refl _, by rw [parsePayloadChildren]⟩

theorem readsAll_succ_iff {count : Nat} :
    ReadsAll nodes buffers (count + 1) pos ts pos' ↔ ∃ t ts' mid,
      ts = t :: ts' ∧ Reads nodes buffers pos t mid ∧ ReadsAll nodes buffers count mid ts' pos' := by
  constructor
  · rintro ⟨hpos, h⟩
    rw [parsePayloadChildren] at h
    obtain ⟨⟨⟨child, mid⟩, hmid⟩, hchild, h⟩ := bind_eq_ok.mp h
    obtain ⟨⟨⟨children, last⟩, hlast⟩, hchildren, h⟩ := bind_eq_ok.mp h
    obtain ⟨rfl, rfl⟩ := Prod.mk.inj (congrArg Subtype.val (Except.ok.inj h))
    exact ⟨child, children, mid, rfl, ⟨hmid, hchild⟩, hlast, hchildren⟩
  · rintro ⟨t, ts', mid, rfl, ⟨hmid, hchild⟩, hlast, hchildren⟩
    refine ⟨Nat.le_trans (Nat.le_of_lt hmid) hlast, ?_⟩
    rw [parsePayloadChildren, hchild, ok_bind]
    dsimp only
    rw [hchildren, ok_bind]

mutual

/-- **A subtree that was read has the declared counts, and its preorder stands between the
cursors.** The induction is on the tree that was read. -/
theorem preorder_of_reads : ∀ {t : PagePayloadTreeNode} {pos pos' : Cursors},
    Reads nodes buffers pos t pos' →
      DeclaredCounts t ∧ nodes.drop pos.nodePos = t.labels ++ nodes.drop pos'.nodePos ∧
        buffers.drop pos.bufferPos = t.items ++ buffers.drop pos'.bufferPos
  | .node node owned children, pos, pos', h => by
    obtain ⟨hnode, hfit, rfl, hchildren⟩ := reads_node_iff.mp h
    obtain ⟨hcount, hdeclared, hlabels, hitems⟩ := preorder_of_readsAll hchildren
    obtain ⟨hlt, rfl⟩ := List.getElem?_eq_some_iff.mp hnode
    refine ⟨⟨hcount, ?_, hdeclared⟩, ?_, ?_⟩
    · rw [List.length_take, List.length_drop]
      omega
    · rw [List.drop_eq_getElem_cons hlt, hlabels, Tree.labels, List.cons_append]
    · rw [Tree.items, List.append_assoc, ← hitems, ← List.drop_drop, List.take_append_drop]

theorem preorder_of_readsAll : ∀ {ts : List PagePayloadTreeNode} {count : Nat}
    {pos pos' : Cursors}, ReadsAll nodes buffers count pos ts pos' →
      ts.length = count ∧
        Tree.ForestDeclared CoveEncodingNodeV1.childCount CoveEncodingNodeV1.bufferCount ts ∧
        nodes.drop pos.nodePos = Tree.forestLabels ts ++ nodes.drop pos'.nodePos ∧
        buffers.drop pos.bufferPos = Tree.forestItems ts ++ buffers.drop pos'.bufferPos
  | [], 0, pos, pos', h => by
    obtain ⟨-, rfl⟩ := readsAll_zero_iff.mp h
    exact ⟨rfl, trivial, rfl, rfl⟩
  | [], count + 1, _, _, h => by
    obtain ⟨t, ts', mid, hcons, -⟩ := readsAll_succ_iff.mp h
    cases hcons
  | _ :: _, 0, _, _, h => by
    obtain ⟨hnil, -⟩ := readsAll_zero_iff.mp h
    cases hnil
  | t :: ts, count + 1, pos, pos', h => by
    obtain ⟨_, _, mid, hcons, hchild, hchildren⟩ := readsAll_succ_iff.mp h
    obtain ⟨rfl, rfl⟩ := List.cons.inj hcons
    obtain ⟨hdeclared, hlabels, hitems⟩ := preorder_of_reads hchild
    obtain ⟨hcount, hrest, hlabelsRest, hitemsRest⟩ := preorder_of_readsAll hchildren
    refine ⟨congrArg Nat.succ hcount, ⟨hdeclared, hrest⟩, ?_, ?_⟩
    · rw [hlabels, hlabelsRest, Tree.forestLabels, List.append_assoc]
    · rw [hitems, hitemsRest, Tree.forestItems, List.append_assoc]

end

mutual

/-- **A tree with the declared counts is read from its preorder**, whatever the buffers are that
stand in the place of its items. -/
theorem exists_reads {β : Type} : ∀ {t : Tree CoveEncodingNodeV1 β} {pos : Cursors}
    {rest : List CoveEncodingNodeV1}, DeclaredCounts t →
      nodes.drop pos.nodePos = t.labels ++ rest →
      pos.bufferPos + t.items.length ≤ buffers.length →
        ∃ t', Reads nodes buffers pos t'
          ⟨pos.nodePos + t.labels.length, pos.bufferPos + t.items.length⟩
  | .node node owned children, pos, rest, ⟨harity, hwidth, hchildren⟩, hlabels, hitems => by
    rw [Tree.labels, List.cons_append] at hlabels
    rw [Tree.items, List.length_append, hwidth] at hitems
    have hnode : nodes[pos.nodePos]? = some node := by
      rw [← List.head?_drop, hlabels, List.head?_cons]
    have hbelow : nodes.drop (pos.nodePos + 1) = Tree.forestLabels children ++ rest := by
      rw [← List.drop_drop, hlabels, List.drop_one, List.tail_cons]
    have hread : ∃ ts, ReadsAll nodes buffers children.length
        ⟨pos.nodePos + 1, pos.bufferPos + node.bufferCount⟩ ts
          ⟨pos.nodePos + 1 + (Tree.forestLabels children).length,
            pos.bufferPos + node.bufferCount + (Tree.forestItems children).length⟩ :=
      exists_readsAll hchildren hbelow
        (by show pos.bufferPos + node.bufferCount + _ ≤ _; omega)
    obtain ⟨ts, hts⟩ := hread
    rw [harity] at hts
    rw [Tree.labels, Tree.items, List.length_cons, List.length_append, hwidth,
      Nat.add_comm _ 1, ← Nat.add_assoc, ← Nat.add_assoc]
    exact ⟨.node node _ ts, reads_node_iff.mpr ⟨hnode, by omega, rfl, hts⟩⟩

theorem exists_readsAll {β : Type} : ∀ {ts : List (Tree CoveEncodingNodeV1 β)} {pos : Cursors}
    {rest : List CoveEncodingNodeV1},
      Tree.ForestDeclared CoveEncodingNodeV1.childCount CoveEncodingNodeV1.bufferCount ts →
      nodes.drop pos.nodePos = Tree.forestLabels ts ++ rest →
      pos.bufferPos + (Tree.forestItems ts).length ≤ buffers.length →
        ∃ ts', ReadsAll nodes buffers ts.length pos ts'
          ⟨pos.nodePos + (Tree.forestLabels ts).length,
            pos.bufferPos + (Tree.forestItems ts).length⟩
  | [], pos, _, _, _, _ => ⟨[], readsAll_zero_iff.mpr ⟨rfl, rfl⟩⟩
  | t :: ts, pos, rest, ⟨ht, hts⟩, hlabels, hitems => by
    rw [Tree.forestLabels, List.append_assoc] at hlabels
    rw [Tree.forestItems, List.length_append] at hitems
    obtain ⟨child, hchild⟩ := exists_reads ht hlabels (by omega)
    have hafter : nodes.drop (pos.nodePos + t.labels.length) = Tree.forestLabels ts ++ rest := by
      rw [← List.drop_drop, hlabels, List.drop_left]
    have hread : ∃ ts', ReadsAll nodes buffers ts.length
        ⟨pos.nodePos + t.labels.length, pos.bufferPos + t.items.length⟩ ts'
          ⟨pos.nodePos + t.labels.length + (Tree.forestLabels ts).length,
            pos.bufferPos + t.items.length + (Tree.forestItems ts).length⟩ :=
      exists_readsAll hts hafter (by show pos.bufferPos + t.items.length + _ ≤ _; omega)
    obtain ⟨children, hchildren⟩ := hread
    refine ⟨child :: children, readsAll_succ_iff.mpr ⟨child, children, _, rfl, hchild, ?_⟩⟩
    rw [Tree.forestLabels, Tree.forestItems, List.length_append, List.length_append,
      ← Nat.add_assoc, ← Nat.add_assoc]
    exact hchildren

end

/-- A declared tree whose labels are the nodes, with as many items as there are buffers, is enough
for the descent to succeed. -/
theorem exists_payloadTree {β : Type} {t : Tree CoveEncodingNodeV1 β} (hdeclared : DeclaredCounts t)
    (hroot : t.label.nodeId = rootNodeId) (hlabels : t.labels = nodes)
    (hitems : t.items.length = buffers.length) :
    ∃ t', payloadTree nodes buffers rootNodeId = .ok t' := by
  subst hlabels
  have hread : ∃ t', Reads t.labels buffers ⟨0, 0⟩ t'
      ⟨0 + t.labels.length, 0 + t.items.length⟩ :=
    exists_reads hdeclared (List.append_nil _).symm
      (Nat.le_of_eq ((Nat.zero_add _).trans hitems))
  obtain ⟨t', hpos, hreads⟩ := hread
  obtain ⟨below, hbelow⟩ := t.labels_eq_cons
  refine ⟨t', ?_⟩
  unfold payloadTree
  split
  next hnil => rw [hbelow] at hnil; cases hnil
  next first after hcons =>
    obtain ⟨rfl, -⟩ := List.cons.inj (hbelow.symm.trans hcons)
    rw [if_neg (not_not_intro hroot), hreads, ok_bind]
    dsimp only
    rw [if_neg (by simp [hitems])]

/-- **The tree of a payload is the declared tree whose preorder the payload is.** -/
theorem payloadTree_eq_ok_iff {t : PagePayloadTreeNode} :
    payloadTree nodes buffers rootNodeId = .ok t ↔
      t.label.nodeId = rootNodeId ∧ DeclaredCounts t ∧ t.labels = nodes ∧ t.items = buffers := by
  have hsound : ∀ {t : PagePayloadTreeNode}, payloadTree nodes buffers rootNodeId = .ok t →
      t.label.nodeId = rootNodeId ∧ DeclaredCounts t ∧ t.labels = nodes ∧ t.items = buffers := by
    intro t h
    unfold payloadTree at h
    split at h
    · cases h
    next first after =>
      obtain ⟨hroot, h⟩ := ite_error_eq_ok.mp h
      obtain ⟨⟨⟨root, pos⟩, hpos⟩, hreads, h⟩ := bind_eq_ok.mp h
      obtain ⟨hends, h⟩ := ite_error_eq_ok.mp h
      obtain rfl := Except.ok.inj h
      rw [not_or, not_not, not_not] at hends
      obtain ⟨hdeclared, hlabels, hitems⟩ := preorder_of_reads ⟨hpos, hreads⟩
      rw [hends.1, List.drop_length, List.append_nil, List.drop_zero] at hlabels
      rw [hends.2, List.drop_length, List.append_nil, List.drop_zero] at hitems
      obtain ⟨below, hbelow⟩ := root.labels_eq_cons
      obtain ⟨rfl, -⟩ := List.cons.inj (hlabels.trans hbelow)
      exact ⟨Decidable.of_not_not hroot, hdeclared, hlabels.symm, hitems.symm⟩
  constructor
  · exact hsound
  · rintro ⟨hroot, hdeclared, hlabels, hitems⟩
    obtain ⟨t', ht'⟩ := exists_payloadTree hdeclared hroot hlabels (congrArg List.length hitems)
    obtain ⟨-, hdeclared', hlabels', hitems'⟩ := hsound ht'
    rwa [Tree.eq_of_preorder hdeclared hdeclared' (hlabels.trans hlabels'.symm)
      (hitems.trans hitems'.symm)]

end

end Cove
