import Cove.Lib.Checked
import Cove.Lib.LittleEndian

/-!
# Reading from the front of bytes

A reader takes what it needs from the front and hands on what is left.

- `take`, `takeNat`: some bytes, and a little-endian number.
- `many`: one reader a number of times.
- `take_append`, `takeNat_append`, `many_flatten`: **what was written is read, and the rest is left**.
- `eq_of_take`, `eq_of_takeNat`, `exists_fronts_of_many`: **what was read stands in front of the
  rest**.
- `many_congr`: readers that agree on short bytes.
-/

namespace ByteCursor

open LittleEndian Checked

variable {ε : Type u} {α : Type v} (short : ε)

/-- The next `n` bytes. -/
def take (n : Nat) (bytes : List UInt8) : Except ε (List UInt8 × List UInt8) :=
  if bytes.length < n then .error short else .ok (bytes.take n, bytes.drop n)

/-- The next little-endian number of a width. -/
def takeNat (w : Nat) (bytes : List UInt8) : Except ε (Nat × List UInt8) :=
  if bytes.length < w then .error short else .ok (ofLe (bytes.take w), bytes.drop w)

/-- One reader a number of times. -/
def many (read : List UInt8 → Except ε (α × List UInt8)) :
    Nat → List UInt8 → Except ε (List α × List UInt8)
  | 0, bytes => .ok ([], bytes)
  | n + 1, bytes =>
    match read bytes with
    | .error e => .error e
    | .ok (a, rest) => (many read n rest).map fun out => (a :: out.1, out.2)

variable {short}

theorem take_append {bytes : List UInt8} {n : Nat} (h : bytes.length = n) (rest : List UInt8) :
    take short n (bytes ++ rest) = .ok (bytes, rest) := by
  subst h
  have hlong : ¬ (bytes ++ rest).length < bytes.length := by
    rw [List.length_append]
    omega
  rw [take, if_neg hlong, List.take_left, List.drop_left]

variable {w : Nat}

theorem takeNat_append {n : Nat} (h : n < 256 ^ w) (rest : List UInt8) :
    takeNat short w (toLe w n ++ rest) = .ok (n, rest) := by
  have hlong : ¬ (toLe w n ++ rest).length < w := by
    rw [List.length_append, length_toLe]
    omega
  rw [takeNat, if_neg hlong, List.take_left' (length_toLe w n), List.drop_left' (length_toLe w n),
    ofLe_toLe h]

variable {items : List α} {read : List UInt8 → Except ε (α × List UInt8)} {bytes rest : List UInt8}

/-- **Items written one after the other are read one after the other.** The induction is on the
items. -/
theorem many_flatten {fronts : List (List UInt8)}
    (h : List.Forall₂ (fun a front => ∀ rest, read (front ++ rest) = .ok (a, rest)) items fronts)
    (rest : List UInt8) :
    many read items.length (fronts.flatten ++ rest) = .ok (items, rest) := by
  induction h with
  | nil => rfl
  | cons ha _ ih =>
    rw [List.flatten_cons, List.append_assoc, List.length_cons, many, ha]
    dsimp only
    rw [ih]
    rfl

/-- The same for a writer that cannot fail. -/
theorem many_flatMap {write : α → List UInt8}
    (h : ∀ a ∈ items, ∀ rest, read (write a ++ rest) = .ok (a, rest))
    (rest : List UInt8) : many read items.length (items.flatMap write ++ rest) = .ok (items, rest) := by
  rw [List.flatMap_def]
  refine many_flatten (List.forall₂_map_right_iff.mpr ?_) rest
  exact List.forall₂_same.mpr h

/-! ## What was read -/

theorem eq_of_take {front : List UInt8} {n : Nat}
    (h : take short n bytes = .ok (front, rest)) : bytes = front ++ rest ∧ front.length = n := by
  unfold take at h
  by_cases hlong : bytes.length < n
  · rw [if_pos hlong] at h
    cases h
  · rw [if_neg hlong] at h
    obtain ⟨rfl, rfl⟩ := Prod.mk.inj (Except.ok.inj h)
    exact ⟨(List.take_append_drop n bytes).symm,
      List.length_take_of_le (Nat.le_of_not_lt hlong)⟩

theorem takeNat_lt {n : Nat} (h : takeNat short w bytes = .ok (n, rest)) : n < 256 ^ w := by
  unfold takeNat at h
  by_cases hlong : bytes.length < w
  · rw [if_pos hlong] at h
    cases h
  · rw [if_neg hlong] at h
    obtain ⟨rfl, -⟩ := Prod.mk.inj (Except.ok.inj h)
    exact (ofLe_lt _).trans_le (Nat.pow_le_pow_right (by decide) (List.length_take_le _ _))

theorem eq_of_takeNat {n : Nat}
    (h : takeNat short w bytes = .ok (n, rest)) : bytes = toLe w n ++ rest := by
  unfold takeNat at h
  by_cases hlong : bytes.length < w
  · rw [if_pos hlong] at h
    cases h
  · rw [if_neg hlong] at h
    obtain ⟨rfl, rfl⟩ := Prod.mk.inj (Except.ok.inj h)
    have hfield := toLe_ofLe (bytes.take w)
    rw [List.length_take_of_le (Nat.le_of_not_lt hlong)] at hfield
    rw [hfield, List.take_append_drop]

/-- **What a number of readings took stands in front of the rest**, item by item. -/
theorem exists_fronts_of_many {W : α → List UInt8 → Prop} {n : Nat}
    (hread : ∀ bytes a rest, read bytes = .ok (a, rest) → ∃ front, bytes = front ++ rest ∧ W a front)
    (h : many read n bytes = .ok (items, rest)) :
    ∃ fronts, List.Forall₂ W items fronts ∧ bytes = fronts.flatten ++ rest ∧ items.length = n := by
  induction n generalizing bytes items with
  | zero =>
    obtain ⟨rfl, rfl⟩ := Prod.mk.inj (Except.ok.inj h)
    exact ⟨[], .nil, rfl, rfl⟩
  | succ n ih =>
    rw [many] at h
    split at h
    · cases h
    next a rest' ha =>
      obtain ⟨⟨items', rest''⟩, hrest, h⟩ := map_eq_ok.mp h
      obtain ⟨rfl, rfl⟩ := Prod.mk.inj h
      obtain ⟨front, rfl, hfront⟩ := hread _ _ _ ha
      obtain ⟨fronts, hall, rfl, rfl⟩ := ih hrest
      refine ⟨front :: fronts, .cons hfront hall, ?_, rfl⟩
      rw [List.flatten_cons, List.append_assoc]

/-- Readers that agree on short bytes agree on them a number of times, when what is left never
grows. -/
theorem many_congr {read' : List UInt8 → Except ε (α × List UInt8)} {limit : Nat}
    (hagree : ∀ bytes, bytes.length ≤ limit → read bytes = read' bytes)
    (hshrinks : ∀ bytes a rest, read' bytes = .ok (a, rest) → rest.length ≤ bytes.length)
    (n : Nat) (hshort : bytes.length ≤ limit) :
    many read n bytes = many read' n bytes := by
  induction n generalizing bytes with
  | zero => rfl
  | succ n ih =>
    rw [many, many, hagree bytes hshort]
    cases ha : read' bytes with
    | error e => rfl
    | ok out =>
      obtain ⟨a, rest⟩ := out
      dsimp only
      rw [ih ((hshrinks bytes a rest ha).trans hshort)]

/-! ## Exactly what was written -/

theorem take_eq_ok {front : List UInt8} {n : Nat} :
    take short n bytes = .ok (front, rest) ↔ bytes = front ++ rest ∧ front.length = n :=
  ⟨eq_of_take, fun ⟨hbytes, h⟩ => hbytes ▸ take_append h rest⟩

theorem takeNat_eq_ok {n : Nat} :
    takeNat short w bytes = .ok (n, rest) ↔ n < 256 ^ w ∧ bytes = toLe w n ++ rest :=
  ⟨fun h => ⟨takeNat_lt h, eq_of_takeNat h⟩, fun ⟨h, hbytes⟩ => hbytes ▸ takeNat_append h rest⟩

/-- The next number, as a word. -/
def takeWord (short : ε) (w : Nat) (bytes : List UInt8) :
    Except ε (BitVec (8 * w) × List UInt8) :=
  (takeNat short w bytes).map fun out => (BitVec.ofNat _ out.1, out.2)

theorem takeWord_eq_ok {x : BitVec (8 * w)} :
    takeWord short w bytes = .ok (x, rest) ↔ bytes = toLe w x.toNat ++ rest := by
  have hsize : 2 ^ (8 * w) = 256 ^ w := pow_mul 2 8 w
  constructor
  · intro h
    obtain ⟨⟨n, rest'⟩, hn, h⟩ := map_eq_ok.mp h
    obtain ⟨rfl, rfl⟩ := Prod.mk.inj h
    obtain ⟨hlt, rfl⟩ := takeNat_eq_ok.mp hn
    rw [BitVec.toNat_ofNat, hsize, Nat.mod_eq_of_lt hlt]
  · rintro rfl
    rw [takeWord, takeNat_append (hsize ▸ x.isLt)]
    exact congrArg (fun x => Except.ok (x, rest)) (by simp)

end ByteCursor
