import Mathlib.Data.List.Nodup
import Mathlib.Order.Lattice
import Cove.Lib.Checked

/-!
# Ordered maps

A map kept as a list of entries with strictly ascending keys, the iteration order of a
balanced search tree.

- `OrderedMap`: entries with the proof that their keys ascend.
- `get?`, `upsert`: lookup, and a fallible update of one entry from a default.
- `get?_eq_some`: the entries are what lookup finds.
-/

/-- A map from `κ` to `υ` as a list of entries, keys strictly ascending. -/
structure OrderedMap (κ : Type u) (υ : Type v) [LinearOrder κ] where
  entries : List (κ × υ)
  sorted : entries.Pairwise (fun x y => x.1 < y.1)

namespace OrderedMap

open Checked

variable {κ : Type u} {υ : Type v} {ε : Type w} [LinearOrder κ]

def empty : OrderedMap κ υ := ⟨[], .nil⟩

/-- The value of a key. -/
def get? (m : OrderedMap κ υ) (k : κ) : Option υ :=
  (m.entries.find? (fun e => e.1 = k)).map Prod.snd

/-- The keys, ascending. -/
def keys (m : OrderedMap κ υ) : List κ := m.entries.map Prod.fst

theorem sorted_keys (m : OrderedMap κ υ) : m.keys.Pairwise (· < ·) :=
  List.pairwise_map.mpr m.sorted

/-- Two entries of one key are one. -/
theorem eq_of_mem (m : OrderedMap κ υ) {k : κ} {v w : υ} (hv : (k, v) ∈ m.entries)
    (hw : (k, w) ∈ m.entries) : v = w := by
  have hnodup : m.keys.Nodup := m.sorted_keys.imp fun h => h.ne
  exact congrArg Prod.snd (List.inj_on_of_nodup_map hnodup hv hw rfl)

/-- Lookup finds the entries. -/
theorem get?_eq_some {m : OrderedMap κ υ} {k : κ} {v : υ} :
    m.get? k = some v ↔ (k, v) ∈ m.entries := by
  unfold get?
  constructor
  · intro h
    obtain ⟨e, he, rfl⟩ := Option.map_eq_some_iff.mp h
    have hk := List.find?_some he
    obtain rfl : e.1 = k := by simpa using hk
    exact List.mem_of_find?_eq_some he
  · intro h
    cases hf : m.entries.find? (fun e => e.1 = k) with
    | none =>
      have := List.find?_eq_none.mp hf _ h
      simp at this
    | some e =>
      have hk : e.1 = k := by simpa using List.find?_some hf
      have he : (k, e.2) ∈ m.entries := hk ▸ List.mem_of_find?_eq_some hf
      exact congrArg some (m.eq_of_mem he h)

/-! ## Updating one entry -/

/-- Replace the value of `k`, or insert one made from `d`, in an ascending list. -/
def upsertEntries (k : κ) (d : υ) (f : υ → Except ε υ) :
    List (κ × υ) → Except ε (List (κ × υ))
  | [] => (f d).map fun v => [(k, v)]
  | e :: es =>
    if k < e.1 then (f d).map fun v => (k, v) :: e :: es
    else if k = e.1 then (f e.2).map fun v => (k, v) :: es
    else (upsertEntries k d f es).map fun es' => e :: es'

variable {out es : List (κ × υ)}

section Upsert

variable {k : κ} {d : υ} {f : υ → Except ε υ}

/-- The entries after an update: the new one, and the old ones of the other keys. -/
theorem mem_upsertEntries
    (hs : es.Pairwise (fun x y => x.1 < y.1)) (h : upsertEntries k d f es = .ok out) :
    ∃ v old, f old = .ok v ∧ (old = d ∧ (∀ e ∈ es, e.1 ≠ k) ∨ (k, old) ∈ es) ∧
      ∀ e, e ∈ out ↔ e = (k, v) ∨ e ∈ es ∧ e.1 ≠ k := by
  induction es generalizing out with
  | nil =>
    obtain ⟨v, hv, rfl⟩ := map_eq_ok.mp h
    exact ⟨v, d, hv, .inl ⟨rfl, by simp⟩, by simp⟩
  | cons x es ih =>
    have htail : ∀ {e}, e ∈ es → x.1 < e.1 := List.rel_of_pairwise_cons hs
    unfold upsertEntries at h
    split at h
    · next hlt =>
      obtain ⟨v, hv, rfl⟩ := map_eq_ok.mp h
      have hne : ∀ e ∈ x :: es, e.1 ≠ k := by
        intro e he
        rcases List.mem_cons.mp he with rfl | he
        · exact hlt.ne'
        · exact (hlt.trans (htail he)).ne'
      refine ⟨v, d, hv, .inl ⟨rfl, hne⟩, fun e => ?_⟩
      rw [List.mem_cons]
      exact or_congr_right ⟨fun he => ⟨he, hne e he⟩, And.left⟩
    · next hge =>
      split at h
      · next heq =>
        subst heq
        obtain ⟨v, hv, rfl⟩ := map_eq_ok.mp h
        refine ⟨v, x.2, hv, .inr List.mem_cons_self, fun e => ?_⟩
        rw [List.mem_cons]
        refine or_congr_right ⟨fun he => ⟨List.mem_cons_of_mem _ he, (htail he).ne'⟩, ?_⟩
        rintro ⟨he, hne⟩
        rcases List.mem_cons.mp he with rfl | he
        · exact absurd rfl hne
        · exact he
      · next hne =>
        obtain ⟨es', hes', rfl⟩ := map_eq_ok.mp h
        obtain ⟨v, old, hv, hold, hmem⟩ := ih hs.of_cons hes'
        refine ⟨v, old, hv, ?_, fun e => ?_⟩
        · rcases hold with ⟨rfl, hall⟩ | hold
          · refine .inl ⟨rfl, fun e he => ?_⟩
            rcases List.mem_cons.mp he with rfl | he
            · exact fun h => hne h.symm
            · exact hall e he
          · exact .inr (List.mem_cons_of_mem _ hold)
        · rw [List.mem_cons, hmem, List.mem_cons]
          constructor
          · rintro (rfl | rfl | ⟨he, hk⟩)
            · exact .inr ⟨.inl rfl, fun h => hne h.symm⟩
            · exact .inl rfl
            · exact .inr ⟨.inr he, hk⟩
          · rintro (rfl | ⟨rfl | he, hk⟩)
            · exact .inr (.inl rfl)
            · exact .inl rfl
            · exact .inr (.inr ⟨he, hk⟩)

theorem sorted_upsertEntries
    (hs : es.Pairwise (fun x y => x.1 < y.1)) (h : upsertEntries k d f es = .ok out) :
    out.Pairwise (fun x y => x.1 < y.1) := by
  induction es generalizing out with
  | nil =>
    obtain ⟨v, _, rfl⟩ := map_eq_ok.mp h
    exact List.pairwise_singleton _ _
  | cons x es ih =>
    have htail : ∀ {e}, e ∈ es → x.1 < e.1 := List.rel_of_pairwise_cons hs
    unfold upsertEntries at h
    split at h
    · next hlt =>
      obtain ⟨v, _, rfl⟩ := map_eq_ok.mp h
      refine hs.cons fun e he => ?_
      rcases List.mem_cons.mp he with rfl | he
      · exact hlt
      · exact hlt.trans (htail he)
    · next hge =>
      split at h
      · next heq =>
        obtain ⟨v, _, rfl⟩ := map_eq_ok.mp h
        exact hs.of_cons.cons fun e he => heq ▸ htail he
      · next hne =>
        obtain ⟨es', hes', rfl⟩ := map_eq_ok.mp h
        obtain ⟨v, _, _, _, hmem⟩ := mem_upsertEntries hs.of_cons hes'
        refine (ih hs.of_cons hes').cons fun e he => ?_
        rcases (hmem e).mp he with rfl | ⟨he, _⟩
        · exact lt_of_le_of_ne (not_lt.mp hge) (fun h => hne h.symm)
        · exact htail he

end Upsert

/-- Update the value of `k`, which is `d` when there is none yet. -/
def upsert (m : OrderedMap κ υ) (k : κ) (d : υ) (f : υ → Except ε υ) :
    Except ε (OrderedMap κ υ) :=
  match h : upsertEntries k d f m.entries with
  | .ok entries => .ok ⟨entries, sorted_upsertEntries m.sorted h⟩
  | .error e => .error e

end OrderedMap
