import Mathlib.Data.List.Perm.Basic
import Cove.Core.Dictionary
import Cove.Lib.SortedList

/-!
# Nested canonical values

Lists, structs and maps of canonical values, to any depth, with their encoding. A struct is
written in the order of its field ids and a map in the order of its encoded keys, whatever order
they come in.

- `CanonicalTree`, `CanonicalTree.encode`: nested values and their payloads.
- `CanonicalTree.Typed`: the fields are within their types and JSON leaves are valid.
- `CanonicalTree.SameUpTo`: equal up to the order of entries and fields, and up to a relation on
  the scalars; an equivalence when that relation is one.
-/

namespace Cove

open Ieee754 (F32 F64)

/-- `CanonicalValue`, with its nested variants. -/
inductive CanonicalTree where
  | scalar (value : CanonicalValue)
  | list (elements : List CanonicalTree)
  | struct (fields : List (Nat × CanonicalTree))
  | map (entries : List (CanonicalTree × CanonicalTree))

namespace CanonicalTree

/-- `value_tag`. -/
def valueTag : CanonicalTree → ValueTag
  | scalar value => value.valueTag
  | list _ => .list
  | struct _ => .struct
  | map _ => .map

/-- `is_scalar_key`. -/
def isScalarKey : CanonicalTree → Bool
  | scalar _ => true
  | _ => false

/-! ## Encoding -/

/-- `encode_tagged`, with the payload at hand. -/
def tagged (tag : ValueTag) (payload : List UInt8) : List UInt8 := Leb128.leb128 tag.code ++ payload

/-- `canonicalize_struct`, with the outcome of every field. -/
def canonicalizeStruct (fields : List (Nat × Except CoveError (List UInt8))) :
    Except CoveError (List UInt8) :=
  let sorted := fields.insertionSort fun a b => a.1 ≤ b.1
  if SortedList.hasRepeat (sorted.map Prod.fst) then
    .error (.badSchema "duplicate field_id in canonical struct")
  else do
    let parts ← sorted.mapM fun field => do .ok (Leb128.leb128 field.1 ++ (← field.2))
    .ok (Leb128.leb128 sorted.length ++ parts.flatten)

/-- `canonicalize_map`, with the encoded entries. -/
def canonicalizeMap (entries : List (List UInt8 × List UInt8)) : Except CoveError (List UInt8) :=
  let sorted := entries.insertionSort fun a b => a.1 ≤ b.1
  if SortedList.hasRepeat (sorted.map Prod.fst) then
    .error (.badSchema "duplicate key in canonical map encoding (Spec §17.6)")
  else .ok (Leb128.leb128 sorted.length ++ sorted.flatMap fun entry => entry.1 ++ entry.2)

mutual

/-- `encode`: the canonical payload. -/
def encode : CanonicalTree → Except CoveError (List UInt8)
  | scalar value => value.encode
  | list elements => do
    let body ← encodeElements elements
    .ok (Leb128.leb128 elements.length ++ body)
  | struct fields => canonicalizeStruct (encodeFields fields)
  | map entries => do canonicalizeMap (← encodeEntries entries)

/-- The elements of a list, one after the other. -/
def encodeElements : List CanonicalTree → Except CoveError (List UInt8)
  | [] => .ok []
  | element :: elements => do
    let payload ← encode element
    let rest ← encodeElements elements
    .ok (tagged element.valueTag payload ++ rest)

/-- The fields of a struct. -/
def encodeFields : List (Nat × CanonicalTree) → List (Nat × Except CoveError (List UInt8))
  | [] => []
  | (fieldId, value) :: fields =>
    (fieldId, (encode value).map (tagged value.valueTag)) :: encodeFields fields

/-- `canonicalize_map_entries`, before the entries are sorted. -/
def encodeEntries :
    List (CanonicalTree × CanonicalTree) → Except CoveError (List (List UInt8 × List UInt8))
  | [] => .ok []
  | (key, value) :: entries =>
    if !key.isScalarKey then .error (.badSchema "canonical map key must be scalar")
    else do
      let keyPayload ← encode key
      let valuePayload ← encode value
      let rest ← encodeEntries entries
      .ok ((tagged key.valueTag keyPayload, tagged value.valueTag valuePayload) :: rest)

end

end CanonicalTree

/-! ## Types -/

/-- The number is within the type of the field that holds it. -/
def CanonicalValue.Typed : CanonicalValue → Prop
  | decimal64 v | timestampMicros v | timestampNanos v =>
    -(256 ^ 8 / 2 : Nat) ≤ v ∧ v < (256 ^ 8 / 2 : Nat)
  | decimal128 v => -(256 ^ 16 / 2 : Nat) ≤ v ∧ v < (256 ^ 16 / 2 : Nat)
  | dateDays v => -(256 ^ 4 / 2 : Nat) ≤ v ∧ v < (256 ^ 4 / 2 : Nat)
  | _ => True

variable {fs gs : List (Nat × CanonicalTree)} {es es' : List (CanonicalTree × CanonicalTree)}

variable {as bs : List CanonicalTree} {t : CanonicalTree}

namespace CanonicalTree

section

/- `validJson` is the parser of JSON texts. -/
variable (validJson : List UInt8 → Bool)

/-- Every leaf and every field id is within its type, and every JSON leaf is valid. -/
inductive Typed : CanonicalTree → Prop
  | scalar {value : CanonicalValue} (typed : value.Typed)
      (json : ∀ s, value = .json s → validJson s.bytes = true) : Typed (.scalar value)
  | list {elements : List CanonicalTree} (each : ∀ e ∈ elements, Typed e) : Typed (.list elements)
  | struct {fields : List (Nat × CanonicalTree)} (ids : ∀ f ∈ fields, f.1 < 2 ^ 64)
      (each : ∀ f ∈ fields, Typed f.2) : Typed (.struct fields)
  | map {entries : List (CanonicalTree × CanonicalTree)} (keys : ∀ e ∈ entries, Typed e.1)
      (each : ∀ e ∈ entries, Typed e.2) : Typed (.map entries)

end

/-! ## Equality up to order -/

/-- Induction over a nested value, with the hypothesis for every member. -/
@[induction_eliminator] theorem nestedInduction {P : CanonicalTree → Prop} (scalar : ∀ value, P (.scalar value))
    (list : ∀ elements, (∀ e ∈ elements, P e) → P (.list elements))
    (struct : ∀ fields, (∀ f ∈ fields, P f.2) → P (.struct fields))
    (map : ∀ entries, (∀ e ∈ entries, P e.1 ∧ P e.2) → P (.map entries)) (t : CanonicalTree) :
    P t := by
  refine @CanonicalTree.rec P (fun es => ∀ e ∈ es, P e) (fun fs => ∀ f ∈ fs, P f.2)
    (fun es => ∀ e ∈ es, P e.1 ∧ P e.2) (fun f => P f.2) (fun e => P e.1 ∧ P e.2) scalar list
    struct map ?_ ?_ ?_ ?_ ?_ ?_ ?_ ?_ t
  · intro e he
    cases he
  · intro e es he hes
    exact List.forall_mem_cons.mpr ⟨he, hes⟩
  · intro f hf
    cases hf
  · intro f fs hf hfs
    exact List.forall_mem_cons.mpr ⟨hf, hfs⟩
  · intro e he
    cases he
  · intro e es he hes
    exact List.forall_mem_cons.mpr ⟨he, hes⟩
  · intro _ v hv
    exact hv
  · intro k v hk hv
    exact ⟨hk, hv⟩

section

/- What is asked of two scalars in the same place. -/
variable (R : CanonicalValue → CanonicalValue → Prop)

mutual

/-- Equal up to the order of entries and fields, and up to a relation on the scalars. -/
def SameUpTo : CanonicalTree → CanonicalTree → Prop
  | scalar a, scalar b => R a b
  | list as, list bs => SameElements as bs
  | struct fs, struct gs => ∃ gs', gs'.Perm gs ∧ SameFields fs gs'
  | map es, map es₁ => ∃ es', es'.Perm es₁ ∧ SameEntries es es'
  | _, _ => False

/-- The same elements, in order. -/
def SameElements : List CanonicalTree → List CanonicalTree → Prop
  | [], [] => True
  | a :: as, b :: bs => SameUpTo a b ∧ SameElements as bs
  | _, _ => False

/-- The same fields, in order. -/
def SameFields : List (Nat × CanonicalTree) → List (Nat × CanonicalTree) → Prop
  | [], [] => True
  | (fieldId, a) :: fs, g :: gs => (fieldId = g.1 ∧ SameUpTo a g.2) ∧ SameFields fs gs
  | _, _ => False

/-- The same entries, in order. -/
def SameEntries : List (CanonicalTree × CanonicalTree) → List (CanonicalTree × CanonicalTree) → Prop
  | [], [] => True
  | (key, value) :: es, e :: es₁ => (SameUpTo key e.1 ∧ SameUpTo value e.2) ∧ SameEntries es es₁
  | _, _ => False

end

end

variable {R : CanonicalValue → CanonicalValue → Prop}

theorem sameElements_iff :
    SameElements R as bs ↔ List.Forall₂ (SameUpTo R) as bs := by
  induction as generalizing bs with
  | nil => cases bs <;> simp [SameElements]
  | cons a as ih => cases bs <;> simp [SameElements, ih]

theorem sameFields_iff :
    SameFields R fs gs ↔ List.Forall₂ (fun f g => f.1 = g.1 ∧ SameUpTo R f.2 g.2) fs gs := by
  induction fs generalizing gs with
  | nil => cases gs <;> simp [SameFields]
  | cons f fs ih =>
    obtain ⟨fieldId, value⟩ := f
    cases gs <;> simp [SameFields, ih]

theorem sameEntries_iff :
    SameEntries R es es' ↔
      List.Forall₂ (fun e e' => SameUpTo R e.1 e'.1 ∧ SameUpTo R e.2 e'.2) es es' := by
  induction es generalizing es' with
  | nil => cases es' <;> simp [SameEntries]
  | cons e es ih =>
    obtain ⟨key, value⟩ := e
    cases es' <;> simp [SameEntries, ih]

@[simp] theorem sameUpTo_scalar {a b : CanonicalValue} :
    SameUpTo R (scalar a) (scalar b) ↔ R a b := by
  rw [SameUpTo]

@[simp] theorem sameUpTo_list :
    SameUpTo R (list as) (list bs) ↔ List.Forall₂ (SameUpTo R) as bs := by
  rw [SameUpTo, sameElements_iff]

@[simp] theorem sameUpTo_struct :
    SameUpTo R (struct fs) (struct gs) ↔
      ∃ gs', gs'.Perm gs ∧ List.Forall₂ (fun f g => f.1 = g.1 ∧ SameUpTo R f.2 g.2) fs gs' := by
  rw [SameUpTo]
  simp only [sameFields_iff]

@[simp] theorem sameUpTo_map :
    SameUpTo R (map es) (map es') ↔ ∃ es₁, es₁.Perm es' ∧
      List.Forall₂ (fun e e' => SameUpTo R e.1 e'.1 ∧ SameUpTo R e.2 e'.2) es es₁ := by
  rw [SameUpTo]
  simp only [sameEntries_iff]

/-! ### Inversion -/

section

variable {u : CanonicalTree}

theorem SameUpTo.scalar_left {a : CanonicalValue} (h : SameUpTo R (scalar a) u) :
    ∃ b, u = scalar b ∧ R a b := by
  cases u with
  | scalar b => exact ⟨b, rfl, sameUpTo_scalar.mp h⟩
  | list | struct | map => simp [SameUpTo] at h

theorem SameUpTo.list_left (h : SameUpTo R (list as) u) :
    ∃ bs, u = list bs ∧ List.Forall₂ (SameUpTo R) as bs := by
  cases u with
  | list bs => exact ⟨bs, rfl, sameUpTo_list.mp h⟩
  | scalar | struct | map => simp [SameUpTo] at h

theorem SameUpTo.struct_left (h : SameUpTo R (struct fs) u) :
    ∃ gs, u = struct gs ∧
      ∃ gs', gs'.Perm gs ∧ List.Forall₂ (fun f g => f.1 = g.1 ∧ SameUpTo R f.2 g.2) fs gs' := by
  cases u with
  | struct gs => exact ⟨gs, rfl, sameUpTo_struct.mp h⟩
  | scalar | list | map => simp [SameUpTo] at h

theorem SameUpTo.map_left (h : SameUpTo R (map es) u) :
    ∃ es', u = map es' ∧ ∃ es₁, es₁.Perm es' ∧
      List.Forall₂ (fun e e' => SameUpTo R e.1 e'.1 ∧ SameUpTo R e.2 e'.2) es es₁ := by
  cases u with
  | map es' => exact ⟨es', rfl, sameUpTo_map.mp h⟩
  | scalar | list | struct => simp [SameUpTo] at h

end

/-! ### An equivalence -/

theorem SameUpTo.refl (hR : ∀ a, R a a) (t : CanonicalTree) : SameUpTo R t t := by
  induction t with
  | scalar value => exact sameUpTo_scalar.mpr (hR value)
  | list elements ih => exact sameUpTo_list.mpr (List.forall₂_same.mpr ih)
  | struct fields ih =>
    exact sameUpTo_struct.mpr ⟨_, .refl _, List.forall₂_same.mpr fun f hf => ⟨rfl, ih f hf⟩⟩
  | map entries ih =>
    refine sameUpTo_map.mpr ⟨_, .refl _, List.forall₂_same.mpr fun e he => ?_⟩
    exact ih e he

/-- A relation that turns member by member turns along two lists. -/
theorem forall₂_symm {α β : Type} {Q : α → β → Prop} {S : β → α → Prop} {as : List α}
    {bs : List β} (h : ∀ a ∈ as, ∀ b, Q a b → S b a) (hab : List.Forall₂ Q as bs) :
    List.Forall₂ S bs as := by
  induction hab with
  | nil => exact .nil
  | cons hq _ ih =>
    exact .cons (h _ List.mem_cons_self _ hq) (ih fun a ha => h a (List.mem_cons_of_mem _ ha))

/-- Relations that compose member by member compose along two lists. -/
theorem forall₂_comp {α β γ : Type} {Q : α → β → Prop} {S : β → γ → Prop} {T : α → γ → Prop}
    {as : List α} {bs : List β} {cs : List γ} (h : ∀ a ∈ as, ∀ b c, Q a b → S b c → T a c)
    (hab : List.Forall₂ Q as bs) (hbc : List.Forall₂ S bs cs) : List.Forall₂ T as cs := by
  induction hab generalizing cs with
  | nil =>
    cases hbc
    exact .nil
  | cons hq _ ih =>
    obtain _ | ⟨hs, hrest⟩ := hbc
    exact .cons (h _ List.mem_cons_self _ _ hq hs)
      (ih (fun a ha => h a (List.mem_cons_of_mem _ ha)) hrest)

theorem SameUpTo.symm (hR : ∀ {a b}, R a b → R b a) {u : CanonicalTree} (h : SameUpTo R t u) :
    SameUpTo R u t := by
  induction t generalizing u with
  | scalar value =>
    obtain ⟨b, rfl, hab⟩ := h.scalar_left
    exact sameUpTo_scalar.mpr (hR hab)
  | list elements ih =>
    obtain ⟨bs, rfl, hall⟩ := h.list_left
    exact sameUpTo_list.mpr (forall₂_symm (fun a ha _ hab => ih a ha hab) hall)
  | struct fields ih =>
    obtain ⟨gs, rfl, gs', hperm, hall⟩ := h.struct_left
    have hsymm : List.Forall₂ (fun g f => g.1 = f.1 ∧ SameUpTo R g.2 f.2) gs' fields :=
      forall₂_symm (fun f hf g hfg => ⟨hfg.1.symm, ih f hf hfg.2⟩) hall
    obtain ⟨fields', hall', hperm'⟩ := List.perm_comp_forall₂ hperm.symm hsymm
    exact sameUpTo_struct.mpr ⟨fields', hperm', hall'⟩
  | map entries ih =>
    obtain ⟨es', rfl, es₁, hperm, hall⟩ := h.map_left
    have hsymm : List.Forall₂ (fun e e' => SameUpTo R e.1 e'.1 ∧ SameUpTo R e.2 e'.2) es₁ entries :=
      forall₂_symm (fun e he e' hee => ⟨(ih e he).1 hee.1, (ih e he).2 hee.2⟩) hall
    obtain ⟨entries', hall', hperm'⟩ := List.perm_comp_forall₂ hperm.symm hsymm
    exact sameUpTo_map.mpr ⟨entries', hperm', hall'⟩

theorem SameUpTo.trans (hR : ∀ {a b c}, R a b → R b c → R a c) {u v : CanonicalTree}
    (h : SameUpTo R t u) (h' : SameUpTo R u v) : SameUpTo R t v := by
  induction t generalizing u v with
  | scalar value =>
    obtain ⟨b, rfl, hab⟩ := h.scalar_left
    obtain ⟨c, rfl, hbc⟩ := h'.scalar_left
    exact sameUpTo_scalar.mpr (hR hab hbc)
  | list elements ih =>
    obtain ⟨bs, rfl, hall⟩ := h.list_left
    obtain ⟨cs, rfl, hall'⟩ := h'.list_left
    refine sameUpTo_list.mpr (forall₂_comp ?_ hall hall')
    intro a ha b c hab hbc
    exact ih a ha hab hbc
  | struct fields ih =>
    obtain ⟨gs, rfl, gs', hperm, hall⟩ := h.struct_left
    obtain ⟨hs, rfl, hs', hperm', hall'⟩ := h'.struct_left
    -- the second reordering is pulled in front of the first comparison
    obtain ⟨hs₁, hall₁, hperm₁⟩ := List.perm_comp_forall₂ hperm hall'
    refine sameUpTo_struct.mpr ⟨hs₁, hperm₁.trans hperm', ?_⟩
    exact forall₂_comp (fun f hf g k hfg hgk => ⟨hfg.1.trans hgk.1, ih f hf hfg.2 hgk.2⟩) hall hall₁
  | map entries ih =>
    obtain ⟨es', rfl, es₁, hperm, hall⟩ := h.map_left
    obtain ⟨es'', rfl, es₂, hperm', hall'⟩ := h'.map_left
    obtain ⟨es₃, hall₃, hperm₃⟩ := List.perm_comp_forall₂ hperm hall'
    refine sameUpTo_map.mpr ⟨es₃, hperm₃.trans hperm', ?_⟩
    exact forall₂_comp (fun e he e' k hee hek =>
      ⟨(ih e he).1 hee.1 hek.1, (ih e he).2 hee.2 hek.2⟩) hall hall₃

end CanonicalTree

end Cove
