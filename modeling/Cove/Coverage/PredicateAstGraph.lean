import Mathlib.Data.Set.Finite.Basic
import Mathlib.Data.Set.Finite.Lemmas
import Mathlib.Logic.Relation
import Cove.Core.SealedRecord
import Cove.Coverage.PredicateAst
import Cove.Lib.Digests

/-!
# The graph of a predicate payload

The node operands of a payload make a graph over its nodes. Validation walks it from the root;
the literals, lists and functions that operands name, and the nodes the root does not reach, it
does not look at.

- `Child`: an edge of the graph.
- `evaluate`: **evaluation by structural recursion**, of whatever the operations mean.
- `Settled`: the visited nodes, each above the ones it refers to; `settled_of_visitNode`.
- `ReferencesResolve`: every reference of the payload, and evaluation from the root.
- `UncheckedInRange`: the references validation leaves out.
- `referencesResolve_iff`: **an accepted payload resolves exactly when those are in range**.
-/

namespace Cove

open Checked

/-! ## Edges and evaluation -/

/-- The nodes among the operands of a node. -/
def childRefs (operands : List PredicateAstOperandRefV2) (node : PredicateAstNodeV2) : List Nat :=
  ((nodeOperands operands node).filter fun operand => decide (operand.operandKind = .node)).map
    PredicateAstOperandRefV2.refId

theorem mem_childRefs {operands : List PredicateAstOperandRefV2} {node : PredicateAstNodeV2}
    {ref : Nat} :
    ref ∈ childRefs operands node ↔
      ∃ operand ∈ nodeOperands operands node, operand.operandKind = .node ∧ operand.refId = ref := by
  simp only [childRefs, List.mem_map, List.mem_filter, decide_eq_true_eq, and_assoc]

/-- What stops an evaluation. -/
inductive EvaluationFault where
  | dangling
  | unfinished
  deriving DecidableEq, Repr

/-- What an operand stands for, when nodes evaluate to `α`. -/
inductive OperandValue (α : Type) where
  | node (value : α)
  | literal (value : PredicateLiteralV2)
  | literalList (values : List PredicateLiteralV2)
  | function (function : PredicateFunctionRefV2)
  | reference (kind : PredicateOperandKindV2) (refId : Nat)

/-- An entry of a table. -/
def lookupEntry {β : Type} (table : List β) (index : Nat) : Except EvaluationFault β :=
  match table[index]? with
  | some entry => .ok entry
  | none => .error .dangling

theorem lookupEntry_eq_ok {β : Type} {table : List β} {index : Nat} :
    (∃ entry, lookupEntry table index = .ok entry) ↔ index < table.length := by
  unfold lookupEntry
  by_cases hlt : index < table.length
  · rw [List.getElem?_eq_getElem hlt]
    exact iff_of_true ⟨_, rfl⟩ hlt
  · rw [List.getElem?_eq_none (by omega)]
    exact iff_of_false nofun hlt

namespace PredicateAstPayloadV2

variable (payload : PredicateAstPayloadV2)

/-- The literals of a list. -/
def literalsOf (list : PredicateLiteralListV2) : Except EvaluationFault (List PredicateLiteralV2) :=
  if list.firstLiteralIndex + list.literalCount ≤ payload.literals.length then
    .ok ((payload.literals.drop list.firstLiteralIndex).take list.literalCount)
  else .error .dangling

/-- What an operand stands for, once nodes can be evaluated. -/
def resolveOperand {α : Type} (evaluateNode : Nat → Except EvaluationFault α)
    (operand : PredicateAstOperandRefV2) : Except EvaluationFault (OperandValue α) :=
  match operand.operandKind with
  | .node => (evaluateNode operand.refId).map .node
  | .literal => (lookupEntry payload.literals operand.refId).map .literal
  | .literalList => do
    let list ← lookupEntry payload.literalLists operand.refId
    (payload.literalsOf list).map .literalList
  | .function => (lookupEntry payload.functions operand.refId).map .function
  | kind => .ok (.reference kind operand.refId)

/-- Evaluation of a node by structural recursion, where `meaning` combines the operands of a
node. -/
def evaluate {α : Type} (meaning : PredicateAstNodeV2 → List (OperandValue α) → α) :
    Nat → Nat → Except EvaluationFault α
  | 0, _ => .error .unfinished
  | fuel + 1, nodeId => do
    let node ← lookupEntry payload.nodes nodeId
    let operands ← (nodeOperands payload.operandRefs node).mapM
      (payload.resolveOperand (evaluate meaning fuel))
    .ok (meaning node operands)

/-- The second node is an operand of the first. -/
def Child (parent child : Nat) : Prop :=
  ∃ node, payload.nodes[parent]? = some node ∧ child ∈ childRefs payload.operandRefs node

/-- The root reaches a node. -/
def Reached (nodeId : Nat) : Prop :=
  Relation.ReflTransGen payload.Child payload.header.rootNodeId nodeId

end PredicateAstPayloadV2

/-! ## The walk -/

section Walk

variable {nodes : List PredicateAstNodeV2} {operands : List PredicateAstOperandRefV2}

/-- Every node of the list is a node of the payload, and refers to nodes further down the list. -/
def Settled (nodes : List PredicateAstNodeV2) (operands : List PredicateAstOperandRefV2) :
    List Nat → Prop
  | [] => True
  | nodeId :: rest =>
    (∃ node, nodes[nodeId]? = some node ∧ ∀ ref ∈ childRefs operands node, ref ∈ rest) ∧
      Settled nodes operands rest

variable {visiting visited visiting' visited' : List Nat}

/-- The operands of a node, one after the other: if each visit settles its node, all of them are
settled in the end. The induction is on the operands. -/
theorem settled_of_foldlM {visit : Nat → List Nat × List Nat → Except CoveError (List Nat × List Nat)}
    (hvisit : ∀ ref visiting visited visiting' visited',
      visit ref (visiting, visited) = .ok (visiting', visited') → Settled nodes operands visited →
        Settled nodes operands visited' ∧ ref ∈ visited' ∧ visited ⊆ visited')
    {refs : List PredicateAstOperandRefV2}
    (h : refs.foldlM (fun sets operand =>
      if operand.operandKind = .node then visit operand.refId sets else .ok sets)
      (visiting, visited) = .ok (visiting', visited')) (hsettled : Settled nodes operands visited) :
    Settled nodes operands visited' ∧ visited ⊆ visited' ∧
      ∀ operand ∈ refs, operand.operandKind = .node → operand.refId ∈ visited' := by
  induction refs generalizing visiting visited with
  | nil =>
    obtain ⟨rfl, rfl⟩ := Prod.mk.inj (Except.ok.inj h)
    exact ⟨hsettled, List.Subset.refl _, nofun⟩
  | cons operand refs ih =>
    rw [List.foldlM_cons] at h
    obtain ⟨⟨visiting₁, visited₁⟩, hstep, hrest⟩ := bind_eq_ok.mp h
    by_cases hkind : operand.operandKind = .node
    · rw [if_pos hkind] at hstep
      obtain ⟨hsettled₁, hmem, hsub⟩ := hvisit _ _ _ _ _ hstep hsettled
      obtain ⟨hsettled', hsub', hall⟩ := ih hrest hsettled₁
      refine ⟨hsettled', fun x hx => hsub' (hsub hx), List.forall_mem_cons.mpr ⟨fun _ => hsub' hmem, hall⟩⟩
    · rw [if_neg hkind] at hstep
      obtain ⟨rfl, rfl⟩ := Prod.mk.inj (Except.ok.inj hstep)
      obtain ⟨hsettled', hsub', hall⟩ := ih hrest hsettled
      exact ⟨hsettled', hsub', List.forall_mem_cons.mpr ⟨fun h => absurd h hkind, hall⟩⟩

/-- **A visit settles its node**, on top of what was settled before. -/
theorem settled_of_visitNode {fuel nodeId : Nat}
    (h : visitNode nodes operands fuel nodeId (visiting, visited) = .ok (visiting', visited'))
    (hsettled : Settled nodes operands visited) :
    Settled nodes operands visited' ∧ nodeId ∈ visited' ∧ visited ⊆ visited' := by
  induction fuel generalizing nodeId visiting visited visiting' visited' with
  | zero => cases h
  | succ fuel ih =>
    rw [visitNode] at h
    by_cases hdone : nodeId ∈ visited
    · rw [if_pos hdone] at h
      obtain ⟨rfl, rfl⟩ := Prod.mk.inj (Except.ok.inj h)
      exact ⟨hsettled, hdone, List.Subset.refl _⟩
    rw [if_neg hdone] at h
    obtain ⟨-, h⟩ := ite_error_eq_ok.mp h
    cases hnode : nodes[nodeId]? with
    | none =>
      rw [hnode] at h
      cases h
    | some node =>
      rw [hnode] at h
      obtain ⟨-, h⟩ := ite_error_eq_ok.mp h
      obtain ⟨⟨visiting₁, visited₁⟩, hfold, h⟩ := bind_eq_ok.mp h
      obtain ⟨rfl, rfl⟩ := Prod.mk.inj (Except.ok.inj h)
      obtain ⟨hsettled₁, hsub, hall⟩ := settled_of_foldlM
        (fun ref visiting visited visiting' visited' hv hs => ih hv hs) hfold hsettled
      refine ⟨⟨⟨node, hnode, ?_⟩, hsettled₁⟩, List.mem_cons_self, ?_⟩
      · intro ref href
        obtain ⟨operand, hoperand, hkind, rfl⟩ := mem_childRefs.mp href
        exact hall operand hoperand hkind
      · exact fun x hx => List.mem_cons_of_mem _ (hsub hx)

/-- What a settled node refers to is settled. -/
theorem exists_of_settled {visited : List Nat} (h : Settled nodes operands visited) {nodeId : Nat}
    (hmem : nodeId ∈ visited) :
    ∃ node, nodes[nodeId]? = some node ∧ ∀ ref ∈ childRefs operands node, ref ∈ visited := by
  induction visited with
  | nil => cases hmem
  | cons head rest ih =>
    rcases List.mem_cons.mp hmem with rfl | hmem
    · obtain ⟨node, hnode, hrefs⟩ := h.1
      exact ⟨node, hnode, fun ref href => List.mem_cons_of_mem _ (hrefs ref href)⟩
    · obtain ⟨node, hnode, hrefs⟩ := ih h.2 hmem
      exact ⟨node, hnode, fun ref href => List.mem_cons_of_mem _ (hrefs ref href)⟩

end Walk

variable {operand : PredicateAstOperandRefV2}

namespace PredicateAstPayloadV2

variable {payload : PredicateAstPayloadV2} {visited : List Nat}

/-! ## What the root reaches -/

/-- An accepted payload has a settled list with the root in it. -/
theorem exists_settled (h : payload.validate = .ok ()) :
    ∃ visited, Settled payload.nodes payload.operandRefs visited ∧
      payload.header.rootNodeId ∈ visited := by
  unfold validate at h
  obtain ⟨_, -, h⟩ := bind_eq_ok.mp h
  obtain ⟨_, -, h⟩ := bind_eq_ok.mp h
  obtain ⟨_, -, h⟩ := bind_eq_ok.mp h
  obtain ⟨_, -, h⟩ := bind_eq_ok.mp h
  obtain ⟨-, h⟩ := ite_error_eq_ok.mp h
  obtain ⟨_, -, h⟩ := bind_eq_ok.mp h
  unfold validateAstAcyclic at h
  obtain ⟨⟨visiting, visited⟩, hvisit, -⟩ := bind_eq_ok.mp h
  obtain ⟨hsettled, hroot, -⟩ := settled_of_visitNode hvisit trivial
  exact ⟨visited, hsettled, hroot⟩

theorem mem_of_child (h : Settled payload.nodes payload.operandRefs visited) {parent child : Nat}
    (hmem : parent ∈ visited) (hchild : payload.Child parent child) : child ∈ visited := by
  obtain ⟨node, hnode, href⟩ := hchild
  obtain ⟨node', hnode', hrefs⟩ := exists_of_settled h hmem
  obtain rfl := Option.some.inj (hnode.symm.trans hnode')
  exact hrefs child href

theorem mem_of_reached (h : Settled payload.nodes payload.operandRefs visited)
    (hroot : payload.header.rootNodeId ∈ visited) {nodeId : Nat} (hreached : payload.Reached nodeId) :
    nodeId ∈ visited := by
  induction hreached with
  | refl => exact hroot
  | tail _ hchild ih => exact mem_of_child h ih hchild

/-- **Settled nodes lie on no cycle**: each is above what it refers to. -/
theorem acc_of_settled (h : Settled payload.nodes payload.operandRefs visited) :
    ∀ nodeId ∈ visited, Acc (fun child parent => payload.Child parent child) nodeId := by
  induction visited with
  | nil => exact nofun
  | cons head rest ih =>
    have hrest := ih h.2
    refine List.forall_mem_cons.mpr ⟨⟨_, fun child hchild => ?_⟩, hrest⟩
    obtain ⟨node, hnode, href⟩ := hchild
    obtain ⟨⟨node', hnode', hrefs⟩, -⟩ := h
    obtain rfl := Option.some.inj (hnode.symm.trans hnode')
    exact hrest child (hrefs child href)

theorem not_transGen_of_acc {nodeId : Nat}
    (h : Acc (fun child parent => payload.Child parent child) nodeId) :
    ¬Relation.TransGen payload.Child nodeId nodeId := by
  induction h with
  | intro nodeId _ ih =>
    intro hcycle
    -- The next node on a cycle through this one is on a cycle too.
    obtain ⟨next, hnext, hback⟩ := Relation.TransGen.head'_iff.mp hcycle
    exact ih next hnext (Relation.TransGen.tail' hback hnext)

/-! ## Evaluation -/

section Evaluation

variable {α : Type} {meaning : PredicateAstNodeV2 → List (OperandValue α) → α}

/-- An operand resolves when its node evaluates, and what else it names is there. -/
theorem resolveOperand_isOk {evaluateNode : Nat → Except EvaluationFault α}
    (hnode : operand.operandKind = .node → ∃ value, evaluateNode operand.refId = .ok value)
    (hliteral : operand.operandKind = .literal → operand.refId < payload.literals.length)
    (hlist : operand.operandKind = .literalList → operand.refId < payload.literalLists.length)
    (hfunction : operand.operandKind = .function → operand.refId < payload.functions.length)
    (hranges : ∀ list ∈ payload.literalLists,
      list.firstLiteralIndex + list.literalCount ≤ payload.literals.length) :
    ∃ value, payload.resolveOperand evaluateNode operand = .ok value := by
  unfold resolveOperand
  cases hkind : operand.operandKind with
  | node =>
    obtain ⟨value, hvalue⟩ := hnode hkind
    exact ⟨_, map_eq_ok.mpr ⟨value, hvalue, rfl⟩⟩
  | literal =>
    obtain ⟨entry, hentry⟩ := lookupEntry_eq_ok.mpr (hliteral hkind)
    exact ⟨_, map_eq_ok.mpr ⟨entry, hentry, rfl⟩⟩
  | literalList =>
    have hlt := hlist hkind
    have hrange := hranges _ (List.getElem_mem hlt)
    have hentry : lookupEntry payload.literalLists operand.refId =
        .ok payload.literalLists[operand.refId] := by
      unfold lookupEntry
      rw [List.getElem?_eq_getElem hlt]
    refine ⟨_, bind_eq_ok.mpr ⟨_, hentry, map_eq_ok.mpr ⟨_, if_pos hrange, rfl⟩⟩⟩
  | function =>
    obtain ⟨entry, hentry⟩ := lookupEntry_eq_ok.mpr (hfunction hkind)
    exact ⟨_, map_eq_ok.mpr ⟨entry, hentry, rfl⟩⟩
  | columnOrPath => exact ⟨_, rfl⟩
  | intervalSet => exact ⟨_, rfl⟩
  | extension => exact ⟨_, rfl⟩

/-- A better evaluation of nodes resolves what a worse one does. -/
theorem resolveOperand_mono {evaluateNode evaluateNode' : Nat → Except EvaluationFault α}
    (hmono : ∀ nodeId value, evaluateNode nodeId = .ok value → evaluateNode' nodeId = .ok value)
    {value : OperandValue α}
    (h : payload.resolveOperand evaluateNode operand = .ok value) :
    payload.resolveOperand evaluateNode' operand = .ok value := by
  unfold resolveOperand at h ⊢
  cases hkind : operand.operandKind with
  | node =>
    rw [hkind] at h
    obtain ⟨result, hresult, rfl⟩ := map_eq_ok.mp h
    exact map_eq_ok.mpr ⟨result, hmono _ _ hresult, rfl⟩
  | literal => rwa [hkind] at h
  | literalList => rwa [hkind] at h
  | function => rwa [hkind] at h
  | columnOrPath => rwa [hkind] at h
  | intervalSet => rwa [hkind] at h
  | extension => rwa [hkind] at h

/-- More fuel changes no value. -/
theorem evaluate_succ {fuel nodeId : Nat} {value : α}
    (h : payload.evaluate meaning fuel nodeId = .ok value) :
    payload.evaluate meaning (fuel + 1) nodeId = .ok value := by
  induction fuel generalizing nodeId value with
  | zero => cases h
  | succ fuel ih =>
    rw [evaluate] at h ⊢
    obtain ⟨node, hnode, h⟩ := bind_eq_ok.mp h
    obtain ⟨values, hvalues, h⟩ := bind_eq_ok.mp h
    refine bind_eq_ok.mpr ⟨node, hnode, bind_eq_ok.mpr ⟨values, ?_, h⟩⟩
    refine mapM_eq_ok.mpr ((mapM_eq_ok.mp hvalues).imp fun operand value hvalue => ?_)
    exact resolveOperand_mono (fun _ _ => ih) hvalue

end Evaluation

/-! ## References -/

/-- The operands of one kind, of any node, are below a bound. -/
def OperandsBelow (payload : PredicateAstPayloadV2) (kind : PredicateOperandKindV2) (n : Nat) :
    Prop :=
  ∀ node ∈ payload.nodes, ∀ operand ∈ nodeOperands payload.operandRefs node,
    operand.operandKind = kind → operand.refId < n

/-- The ranges of the literal lists lie in the table of literals. -/
def RangesBelow (payload : PredicateAstPayloadV2) : Prop :=
  ∀ list ∈ payload.literalLists,
    list.firstLiteralIndex + list.literalCount ≤ payload.literals.length

/-- **Every reference resolves**, the graph below the root is finite and has no cycle, and
evaluation from the root comes to an end without a dangling reference, whatever it computes. -/
structure ReferencesResolve (payload : PredicateAstPayloadV2) : Prop where
  nodes : payload.OperandsBelow .node payload.nodes.length
  literals : payload.OperandsBelow .literal payload.literals.length
  literalLists : payload.OperandsBelow .literalList payload.literalLists.length
  functions : payload.OperandsBelow .function payload.functions.length
  ranges : payload.RangesBelow
  finite : {nodeId | payload.Reached nodeId}.Finite
  acyclic : ∀ nodeId, payload.Reached nodeId → ¬Relation.TransGen payload.Child nodeId nodeId
  evaluates : ∀ (α : Type) (meaning : PredicateAstNodeV2 → List (OperandValue α) → α),
    ∃ fuel value, payload.evaluate meaning fuel payload.header.rootNodeId = .ok value

/-- What validation leaves out is in range: the literals, lists and functions that operands name,
the ranges of the lists, and the node operands of nodes that the root does not reach. -/
structure UncheckedInRange (payload : PredicateAstPayloadV2) : Prop where
  literals : payload.OperandsBelow .literal payload.literals.length
  literalLists : payload.OperandsBelow .literalList payload.literalLists.length
  functions : payload.OperandsBelow .function payload.functions.length
  ranges : payload.RangesBelow
  unreached : ∀ node ∈ payload.nodes, ¬payload.Reached node.nodeId →
    ∀ operand ∈ nodeOperands payload.operandRefs node,
      operand.operandKind = .node → operand.refId < payload.nodes.length

/-- **Settled nodes evaluate**, with as much fuel as there are of them. -/
theorem exists_evaluate_of_settled {α : Type}
    {meaning : PredicateAstNodeV2 → List (OperandValue α) → α} (hrange : payload.UncheckedInRange)
    (h : Settled payload.nodes payload.operandRefs visited) :
    ∀ nodeId ∈ visited, ∃ value, payload.evaluate meaning visited.length nodeId = .ok value := by
  induction visited with
  | nil => exact nofun
  | cons head rest ih =>
    have hrest := ih h.2
    refine List.forall_mem_cons.mpr ⟨?_, fun nodeId hmem => ?_⟩
    · obtain ⟨⟨node, hnode, hrefs⟩, -⟩ := h
      have hmem : node ∈ payload.nodes := List.mem_of_getElem? hnode
      have hlookup : lookupEntry payload.nodes head = .ok node := by
        unfold lookupEntry
        rw [hnode]
      -- The children of the head are further down, where the evaluation has come to a value.
      have hresolved : ∀ operand ∈ nodeOperands payload.operandRefs node, ∃ value,
          payload.resolveOperand (payload.evaluate meaning rest.length) operand = .ok value := by
        intro operand hoperand
        refine resolveOperand_isOk (fun hkind => hrest _ (hrefs _ ?_))
          (hrange.literals node hmem operand hoperand)
          (hrange.literalLists node hmem operand hoperand)
          (hrange.functions node hmem operand hoperand) hrange.ranges
        exact mem_childRefs.mpr ⟨operand, hoperand, hkind, rfl⟩
      obtain ⟨values, hvalues⟩ := exists_forall₂ hresolved
      exact ⟨_, bind_eq_ok.mpr ⟨node, hlookup, bind_eq_ok.mpr ⟨values, mapM_eq_ok.mpr hvalues, rfl⟩⟩⟩
    · obtain ⟨value, hvalue⟩ := hrest nodeId hmem
      exact ⟨value, evaluate_succ hvalue⟩

/-- **An accepted payload resolves** exactly when the references that validation leaves out are in
range. -/
theorem referencesResolve_iff {crc32c : List UInt8 → Nat} {bytes : List UInt8}
    (h : parse crc32c bytes = .ok payload) :
    payload.ReferencesResolve ↔ payload.UncheckedInRange := by
  constructor
  · rintro ⟨hnodes, hliterals, hlists, hfunctions, hranges, -, -, -⟩
    exact ⟨hliterals, hlists, hfunctions, hranges, fun node hmem _ => hnodes node hmem⟩
  · intro hrange
    have hvalid := valid_of_parse crc32c h
    obtain ⟨visited, hsettled, hroot⟩ := exists_settled (validate_of_parse crc32c h)
    have hreached : ∀ nodeId, payload.Reached nodeId → nodeId ∈ visited :=
      fun _ => mem_of_reached hsettled hroot
    refine ⟨?_, hrange.literals, hrange.literalLists, hrange.functions, hrange.ranges, ?_, ?_, ?_⟩
    · intro node hmem operand hoperand hkind
      by_cases hreach : payload.Reached node.nodeId
      · have hnode := getElem?_of_dense hvalid.nodeIds hmem
        have hchild : payload.Child node.nodeId operand.refId :=
          ⟨node, hnode, mem_childRefs.mpr ⟨operand, hoperand, hkind, rfl⟩⟩
        obtain ⟨child, hget, -⟩ :=
          exists_of_settled hsettled (mem_of_child hsettled (hreached _ hreach) hchild)
        exact (List.getElem?_eq_some_iff.mp hget).1
      · exact hrange.unreached node hmem hreach operand hoperand hkind
    · exact (List.finite_toSet visited).subset hreached
    · exact fun nodeId hreach => not_transGen_of_acc (acc_of_settled hsettled _ (hreached _ hreach))
    · intro α meaning
      obtain ⟨value, hvalue⟩ := exists_evaluate_of_settled hrange hsettled _ hroot
      exact ⟨visited.length, value, hvalue⟩

/-! ## A reference nothing checks -/

/-- The root, a literal that its one operand names. -/
def literalNode (literalRef : Nat) : PredicateAstNodeV2 :=
  ⟨0, .literalValue, 0, 0, 0, .sqlWhere, 1, 0, absentId, literalRef, absentId, absentId⟩

/-- A payload of that root and one literal. -/
def literalPredicate (literalRef : Nat) : PredicateAstPayloadV2 where
  header := ⟨0, 1, 1, 0, 0, 1, 72, 128, 0, 0, 112, 0⟩
  nodes := [literalNode literalRef]
  literals := [⟨0, 0, 0, 0, 0, 0⟩]
  literalLists := []
  functions := []
  operandRefs := [⟨0, 0, .literal, 0, literalRef⟩]

/-- Its bytes: header, node, operand and literal, each with its checksum. -/
def literalPredicateBytes (literalRef : Nat) : List UInt8 :=
  FieldRecord.encode
    (sealRecord Crc32c.crc32c
        [(4, 0), (4, 1), (4, 1), (4, 0), (4, 0), (4, 1), (8, 72), (8, 128), (8, 0), (8, 0), (8, 112),
          (4, 0)] ++
      sealRecord Crc32c.crc32c
        [(4, 0), (2, 20), (2, 0), (2, 0), (2, 0), (1, 0), (1, 0), (2, 1), (4, 0), (4, absentId),
          (4, literalRef), (4, absentId), (4, absentId)] ++
      sealRecord Crc32c.crc32c [(4, 0), (2, 0), (1, 1), (1, 0), (4, literalRef)] ++
      sealRecord Crc32c.crc32c [(4, 0), (2, 0), (2, 0), (4, 0), (8, 0), (4, 0)])

/-- The payload whose root names literal 7 of one is accepted. -/
theorem parse_accepts_dangling :
    parse Crc32c.crc32c (literalPredicateBytes 7) = .ok (literalPredicate 7) ∧
      ¬(literalPredicate 7).ReferencesResolve := by
  refine ⟨by decide +kernel, fun h => ?_⟩
  have hlt := h.literals (literalNode 7) List.mem_cons_self ⟨0, 0, .literal, 0, 7⟩
    List.mem_cons_self rfl
  exact absurd hlt (by decide)

/-- With literal 0 it resolves exactly when nothing unchecked is out of range. -/
theorem referencesResolve_literal :
    (literalPredicate 0).ReferencesResolve ↔ (literalPredicate 0).UncheckedInRange :=
  referencesResolve_iff
    (show parse Crc32c.crc32c (literalPredicateBytes 0) = .ok (literalPredicate 0) by
      decide +kernel)

end PredicateAstPayloadV2

end Cove
