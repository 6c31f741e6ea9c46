import Mathlib.Data.List.Basic

/-!
# Trees in preorder

A tree whose nodes have a label and items of their own, and the lists that hold its labels and
its items in preorder.

- `Tree.labels`, `Tree.items`: the preorder.
- `Tree.Declared`: every node has the children and the items that its label declares.
- `Tree.declared_unique`: **the preorder of a declared tree is the preorder of no other, whatever
  follows it**.
-/

namespace Preorder

universe u v w

/-- A tree with labels and items. -/
inductive Tree (α : Type u) (β : Type v) where
  | node (label : α) (items : List β) (children : List (Tree α β))

namespace Tree

variable {α : Type u} {β : Type v} {γ : Type w}

def label : Tree α β → α
  | .node label _ _ => label

mutual

/-- The labels of a tree, in preorder. -/
def labels : Tree α β → List α
  | .node label _ children => label :: forestLabels children

def forestLabels : List (Tree α β) → List α
  | [] => []
  | t :: ts => t.labels ++ forestLabels ts

end

theorem labels_eq_cons (t : Tree α β) : ∃ below, t.labels = t.label :: below := by
  cases t with
  | node label items children => exact ⟨_, by rw [labels, Tree.label]⟩

mutual

/-- The items of a tree, in preorder of their nodes. -/
def items : Tree α β → List β
  | .node _ items children => items ++ forestItems children

def forestItems : List (Tree α β) → List β
  | [] => []
  | t :: ts => t.items ++ forestItems ts

end

mutual

/-- The tree with its items replaced. -/
def map (g : β → γ) : Tree α β → Tree α γ
  | .node label items children => .node label (items.map g) (mapForest g children)

def mapForest (g : β → γ) : List (Tree α β) → List (Tree α γ)
  | [] => []
  | t :: ts => t.map g :: mapForest g ts

end

section Declared

variable (arity width : α → Nat)

mutual

/-- Every node has the children and the items that its label declares. -/
def Declared : Tree α β → Prop
  | .node label items children =>
    children.length = arity label ∧ items.length = width label ∧ ForestDeclared children

def ForestDeclared : List (Tree α β) → Prop
  | [] => True
  | t :: ts => t.Declared ∧ ForestDeclared ts

end

end Declared

/-! ## Replacing the items -/

@[simp] theorem length_mapForest (g : β → γ) (ts : List (Tree α β)) :
    (mapForest g ts).length = ts.length := by
  induction ts with
  | nil => rfl
  | cons t ts ih => rw [mapForest, List.length_cons, ih, List.length_cons]

@[simp] theorem label_map (g : β → γ) (t : Tree α β) : (t.map g).label = t.label := by
  cases t with
  | node label items children => rw [map, Tree.label, Tree.label]

mutual

theorem labels_map (g : β → γ) : ∀ t : Tree α β, (t.map g).labels = t.labels
  | .node label items children => by rw [map, labels, labels, forestLabels_map g children]

theorem forestLabels_map (g : β → γ) :
    ∀ ts : List (Tree α β), forestLabels (mapForest g ts) = forestLabels ts
  | [] => rfl
  | t :: ts => by
    rw [mapForest, forestLabels, forestLabels, labels_map g t, forestLabels_map g ts]

end

mutual

theorem items_map (g : β → γ) : ∀ t : Tree α β, (t.map g).items = t.items.map g
  | .node label items children => by
    rw [map, Tree.items, Tree.items, forestItems_map g children, List.map_append]

theorem forestItems_map (g : β → γ) :
    ∀ ts : List (Tree α β), forestItems (mapForest g ts) = (forestItems ts).map g
  | [] => rfl
  | t :: ts => by
    rw [mapForest, forestItems, forestItems, items_map g t, forestItems_map g ts,
      List.map_append]

end

section

variable {arity width : α → Nat}

mutual

theorem declared_map (g : β → γ) :
    ∀ {t : Tree α β}, t.Declared arity width → (t.map g).Declared arity width
  | .node label items children, ⟨harity, hwidth, hchildren⟩ => by
    rw [map, Declared]
    exact ⟨(length_mapForest g children).trans harity, (List.length_map g).trans hwidth,
      forestDeclared_map g hchildren⟩

theorem forestDeclared_map (g : β → γ) :
    ∀ {ts : List (Tree α β)}, ForestDeclared arity width ts →
      ForestDeclared arity width (mapForest g ts)
  | [], _ => trivial
  | _ :: _, ⟨ht, hts⟩ => ⟨declared_map g ht, forestDeclared_map g hts⟩

end

/-! ## The preorder determines the tree -/

mutual

/-- **The preorder of a declared tree is the preorder of no other.** The induction is on the first
tree: the labels agree at the head, and so do the numbers of items and children that follow. -/
theorem declared_unique : ∀ {t t' : Tree α β} {as as' : List α} {bs bs' : List β},
    t.Declared arity width → t'.Declared arity width → t.labels ++ as = t'.labels ++ as' →
      t.items ++ bs = t'.items ++ bs' → t = t' ∧ as = as' ∧ bs = bs'
  | .node label items children, .node label' items' children', as, as', bs, bs',
      ⟨harity, hwidth, hdeclared⟩, ⟨harity', hwidth', hdeclared'⟩, hlabels, hitems => by
    rw [labels, labels, List.cons_append, List.cons_append] at hlabels
    obtain ⟨rfl, hlabelsBelow⟩ := List.cons.inj hlabels
    rw [Tree.items, Tree.items, List.append_assoc, List.append_assoc] at hitems
    obtain ⟨rfl, hitemsBelow⟩ := List.append_inj hitems (hwidth.trans hwidth'.symm)
    obtain ⟨rfl, hrest⟩ := forestDeclared_unique hdeclared hdeclared'
      (harity.trans harity'.symm) hlabelsBelow hitemsBelow
    exact ⟨rfl, hrest⟩

theorem forestDeclared_unique : ∀ {ts ts' : List (Tree α β)} {as as' : List α} {bs bs' : List β},
    ForestDeclared arity width ts → ForestDeclared arity width ts' → ts.length = ts'.length →
      forestLabels ts ++ as = forestLabels ts' ++ as' →
        forestItems ts ++ bs = forestItems ts' ++ bs' → ts = ts' ∧ as = as' ∧ bs = bs'
  | [], [], _, _, _, _, _, _, _, hlabels, hitems => ⟨rfl, hlabels, hitems⟩
  | t :: ts, t' :: ts', as, as', bs, bs', ⟨ht, hts⟩, ⟨ht', hts'⟩, hlength, hlabels, hitems => by
    rw [forestLabels, forestLabels, List.append_assoc, List.append_assoc] at hlabels
    rw [forestItems, forestItems, List.append_assoc, List.append_assoc] at hitems
    obtain ⟨rfl, hlabelsRest, hitemsRest⟩ := declared_unique ht ht' hlabels hitems
    obtain ⟨rfl, hrest⟩ :=
      forestDeclared_unique hts hts' (Nat.succ.inj hlength) hlabelsRest hitemsRest
    exact ⟨rfl, hrest⟩

end

/-- Two declared trees with the same preorder are the same. -/
theorem eq_of_preorder {t t' : Tree α β} (ht : t.Declared arity width)
    (ht' : t'.Declared arity width) (hlabels : t.labels = t'.labels)
    (hitems : t.items = t'.items) : t = t' := by
  have hlabelsNil : t.labels ++ [] = t'.labels ++ [] := congrArg (· ++ []) hlabels
  have hitemsNil : t.items ++ [] = t'.items ++ [] := congrArg (· ++ []) hitems
  exact (declared_unique ht ht' hlabelsNil hitemsNil).1

end

end Tree

end Preorder
