import Mathlib.Data.List.Basic
import Cove.Lib.Checked

/-!
# Things laid out one after the other

Elements in blocks of the same length, each found at a multiple of it, and things of varying size,
which are read all in one loop, or one of them alone, after skipping those before it, or from the
places that an earlier loop took down.

- `Strides.length_flatMap`: the length of all blocks.
- `Strides.drop_flatMap`, `Strides.block_flatMap`: **where the block of an element is found**.
- `Strides.mapM_range_eq_ok`, `Strides.getElem?_mapM_range`: reading the blocks by their numbers.
- `Scan.scan`: the loop over all; `Scan.walk`: skipping some; `Scan.places`: where each starts.
- `Scan.Stands`: what a loop read, with the place of each thing.
- `stands_of_scan`, `walk_of_stands`, `places_of_stands`: **what the loop reads stands where
  skipping and the places lead**.
-/

/-! ## Blocks of one length -/

namespace Strides

variable {α : Type u} {β : Type v} {f : α → List β} {k : Nat} {l : List α}

theorem length_flatMap (h : ∀ a ∈ l, (f a).length = k) : (l.flatMap f).length = l.length * k := by
  induction l with
  | nil => simp
  | cons a l ih =>
    rw [List.flatMap_cons, List.length_append, h a List.mem_cons_self,
      ih fun b hb => h b (List.mem_cons_of_mem _ hb), List.length_cons, Nat.add_mul, Nat.one_mul,
      Nat.add_comm]

/-- What stands from the block of an element on. -/
theorem drop_flatMap (h : ∀ a ∈ l, (f a).length = k) (rest : List β) {i : Nat}
    (hi : i < l.length) : ∃ after,
      (l.flatMap f ++ rest).drop (i * k) = f l[i] ++ after := by
  induction l generalizing i with
  | nil => simp at hi
  | cons a l ih =>
    obtain ⟨ha, hl⟩ := List.forall_mem_cons.mp h
    rw [List.flatMap_cons, List.append_assoc]
    cases i with
    | zero => exact ⟨_, by rw [Nat.zero_mul]; rfl⟩
    | succ i =>
      obtain ⟨after, hafter⟩ := ih hl (by simpa using hi)
      refine ⟨after, ?_⟩
      rw [Nat.add_mul, Nat.one_mul, Nat.add_comm, ← List.drop_drop, List.drop_left' ha, hafter,
        List.getElem_cons_succ]

/-- The block of an element. -/
theorem block_flatMap (h : ∀ a ∈ l, (f a).length = k) (rest : List β) {i : Nat}
    (hi : i < l.length) : ((l.flatMap f ++ rest).drop (i * k)).take k = f l[i] := by
  obtain ⟨after, hafter⟩ := drop_flatMap h rest hi
  rw [hafter, List.take_left' (h _ (List.getElem_mem hi))]

/-- Elements whose blocks stand one after the other from a place on. -/
theorem flatMap_of_blocks {whole : List β} {start : Nat}
    (h : ∀ i (hi : i < l.length), f l[i] = (whole.drop (start + i * k)).take k) :
    l.flatMap f = (whole.drop start).take (l.length * k) := by
  induction l generalizing start with
  | nil => simp
  | cons a l ih =>
    have hhead : f a = (whole.drop start).take k := by
      have := h 0 (Nat.zero_lt_succ _)
      rwa [Nat.zero_mul, Nat.add_zero] at this
    have htail : l.flatMap f = (whole.drop (start + k)).take (l.length * k) := by
      refine ih fun i hi => ?_
      have := h (i + 1) (Nat.succ_lt_succ hi)
      rw [List.getElem_cons_succ] at this
      rw [this, Nat.succ_mul, Nat.add_comm (i * k) k, ← Nat.add_assoc]
    rw [List.flatMap_cons, hhead, htail, List.length_cons, Nat.succ_mul,
      Nat.add_comm (l.length * k) k, List.take_add, List.drop_drop]

/-- Reading by number what each number holds gives the list back. -/
theorem mapM_range_eq_ok {ε β : Type} {l : List β} {g : Nat → Except ε β}
    (h : ∀ i (hi : i < l.length), g i = .ok l[i]) : (List.range l.length).mapM g = .ok l := by
  rw [Checked.mapM_eq_ok, List.forall₂_iff_get]
  refine ⟨List.length_range, fun i hi hi' => ?_⟩
  rw [List.get_eq_getElem, List.get_eq_getElem, List.getElem_range]
  exact h i hi'

/-- What is read by number stands under its number. -/
theorem getElem?_mapM_range {ε β : Type} {n : Nat} {out : List β} {g : Nat → Except ε β}
    (h : (List.range n).mapM g = .ok out) :
    out.length = n ∧ ∀ i b, out[i]? = some b ↔ i < n ∧ g i = .ok b := by
  obtain ⟨hlength, hget⟩ := List.forall₂_iff_get.mp (Checked.mapM_eq_ok.mp h)
  rw [List.length_range] at hlength
  have hok : ∀ i (hi : i < out.length), g i = .ok out[i] := by
    intro i hi
    have hi' : i < (List.range n).length := by rw [List.length_range]; omega
    have := hget i hi' hi
    rwa [List.get_eq_getElem, List.get_eq_getElem, List.getElem_range] at this
  refine ⟨hlength.symm, fun i b => ?_⟩
  rw [List.getElem?_eq_some_iff]
  constructor
  · rintro ⟨hi, rfl⟩
    exact ⟨by omega, hok i hi⟩
  · rintro ⟨hi, hb⟩
    have hi' : i < out.length := by omega
    exact ⟨hi', Except.ok.inj ((hok i hi').symm.trans hb)⟩

end Strides

/-! ## Reading in a loop -/

namespace Scan

open Checked

variable {ε : Type u} {α β : Type}

/-- A number of things from a place on, each finished with its number. -/
def scan (read : Nat → Except ε (α × Nat)) (finish : Nat → α → Except ε β) :
    Nat → Nat → Nat → Except ε (List β)
  | 0, _, _ => .ok []
  | n + 1, row, pos => do
    let (a, next) ← read pos
    let b ← finish row a
    let rest ← scan read finish n (row + 1) next
    .ok (b :: rest)

/-- The place after a number of things. -/
def walk (skip : Nat → Except ε Nat) : Nat → Nat → Except ε Nat
  | 0, pos => .ok pos
  | n + 1, pos => do
    let next ← skip pos
    walk skip n next

/-- The places of a number of things. -/
def places (skip : Nat → Except ε Nat) : Nat → Nat → Except ε (List Nat)
  | 0, _ => .ok []
  | n + 1, pos => do
    let next ← skip pos
    let rest ← places skip n next
    .ok (pos :: rest)

/-- Things stand one after the other from a place on, each with its place. -/
def Stands (read : Nat → Except ε (α × Nat)) : Nat → List (Nat × α) → Prop
  | _, [] => True
  | pos, (place, a) :: things => place = pos ∧ ∃ next, read pos = .ok (a, next) ∧
      Stands read next things

variable {read : Nat → Except ε (α × Nat)} {finish : Nat → α → Except ε β}
  {skip : Nat → Except ε Nat} {n row pos : Nat} {things : List (Nat × α)}

/-- A loop that succeeds has read things that stand one after the other. -/
theorem stands_of_scan {out : List β} (h : scan read finish n row pos = .ok out) :
    out.length = n ∧ ∃ things, things.length = n ∧ Stands read pos things ∧
      ∀ i b, out[i]? = some b → ∃ place a, things[i]? = some (place, a) ∧
        finish (row + i) a = .ok b := by
  induction n generalizing row pos out with
  | zero =>
    obtain rfl := Except.ok.inj h
    exact ⟨rfl, [], rfl, trivial, nofun⟩
  | succ n ih =>
    unfold scan at h
    obtain ⟨⟨a, next⟩, hread, h⟩ := bind_eq_ok.mp h
    obtain ⟨b, hfinish, h⟩ := bind_eq_ok.mp h
    obtain ⟨rest, hrest, h⟩ := bind_eq_ok.mp h
    obtain rfl := Except.ok.inj h
    obtain ⟨hlength, things, hthings, hstands, hall⟩ := ih hrest
    refine ⟨by rw [List.length_cons, hlength], (pos, a) :: things, by rw [List.length_cons, hthings],
      ⟨rfl, next, hread, hstands⟩, fun i c hc => ?_⟩
    cases i with
    | zero =>
      obtain rfl := Option.some.inj hc
      exact ⟨pos, a, rfl, hfinish⟩
    | succ i =>
      obtain ⟨place, a', hplace, hfinish'⟩ := hall i c hc
      exact ⟨place, a', hplace, by rwa [Nat.add_assoc, Nat.add_comm 1 i] at hfinish'⟩

/-- Skipping leads to where a thing stands. -/
theorem walk_of_stands (hskip : ∀ pos a next, read pos = .ok (a, next) → skip pos = .ok next)
    (h : Stands read pos things) {i place : Nat} {a : α} (hi : things[i]? = some (place, a)) :
    walk skip i pos = .ok place ∧ ∃ next, read place = .ok (a, next) := by
  induction things generalizing pos i with
  | nil => cases hi
  | cons thing things ih =>
    obtain ⟨place', a'⟩ := thing
    obtain ⟨rfl, next, hread, hrest⟩ := h
    cases i with
    | zero =>
      obtain ⟨rfl, rfl⟩ := Prod.mk.inj (Option.some.inj hi)
      exact ⟨rfl, next, hread⟩
    | succ i =>
      obtain ⟨hwalk, hplace⟩ := ih hrest hi
      exact ⟨bind_eq_ok.mpr ⟨next, hskip _ _ _ hread, hwalk⟩, hplace⟩

/-- The places taken down are those where the things stand. -/
theorem places_of_stands (hskip : ∀ pos a next, read pos = .ok (a, next) → skip pos = .ok next)
    (h : Stands read pos things) :
    places skip things.length pos = .ok (things.map Prod.fst) := by
  induction things generalizing pos with
  | nil => rfl
  | cons thing things ih =>
    obtain ⟨place', a'⟩ := thing
    obtain ⟨rfl, next, hread, hrest⟩ := h
    exact bind_eq_ok.mpr ⟨next, hskip _ _ _ hread, bind_eq_ok.mpr ⟨_, ih hrest, rfl⟩⟩

end Scan
