import Cove.Core.Error
import Cove.Lib.BitWords

/-!
# Row selections

A selection of the rows of a morsel as a bit mask, and the loop every row kernel runs
over it: visit the selected rows in ascending order and clear those the predicate drops.

- `SelectionMask`, `SelectionMask.rows`.
- `applyLoop`: the loop, over the verdict on a row.
- `exists_applyLoop_iff`: **the loop gives a selection exactly when every selected row
  has a verdict**.
- `Selects.of_applyLoop`: **it keeps exactly the rows with a positive verdict**.
-/

namespace Cove

/-- `SelectionMask`: bit `i` of the words selects row `i`. -/
structure SelectionMask where
  len : Nat
  words : List Nat
  size : words.length = (len + 63) / 64
  deriving DecidableEq, Repr

variable {m m' : SelectionMask}

variable {index : Nat}

namespace SelectionMask

def get (m : SelectionMask) (row : Nat) : Bool := BitWords.get m.words row

/-- The selected rows, ascending: `write_selected_rows`, and the order of the loops. -/
def rows (m : SelectionMask) : List Nat := (List.range m.len).filter m.get

def fillAll (len : Nat) : SelectionMask := ⟨len, BitWords.full len, BitWords.length_full len⟩

def fillNone (len : Nat) : SelectionMask :=
  ⟨len, List.replicate ((len + 63) / 64) 0, List.length_replicate⟩

def set (m : SelectionMask) (index : Nat) : SelectionMask :=
  ⟨m.len, BitWords.insert m.words index, (BitWords.length_insert _ _).trans m.size⟩

def clearBit (m : SelectionMask) (index : Nat) : SelectionMask :=
  ⟨m.len, BitWords.erase m.words index, (BitWords.length_erase _ _).trans m.size⟩

def andInplace (m other : SelectionMask) : SelectionMask :=
  ⟨m.len, BitWords.inter m.words other.words, (BitWords.length_inter _ _).trans m.size⟩

def allZero (m : SelectionMask) : Bool := m.words.all (· == 0)

def countOnes (m : SelectionMask) : Nat := (m.words.map BitWords.countOnes).sum

/-! ## Membership -/

theorem mem_rows {row : Nat} :
    row ∈ m.rows ↔ row < m.len ∧ m.get row = true := by
  simp [rows]

theorem mem_rows_fillAll {len row : Nat} : row ∈ (fillAll len).rows ↔ row < len := by
  rw [mem_rows]
  exact and_iff_left_of_imp fun h => BitWords.get_full h

theorem get_fillNone (len row : Nat) : (fillNone len).get row = false :=
  BitWords.get_replicate_zero _ _

theorem get_set (h : index < m.len) (row : Nat) :
    (m.set index).get row = (decide (row = index) || m.get row) :=
  BitWords.get_insert (by rw [m.size]; omega) row

theorem get_clearBit (h : index < m.len) (row : Nat) :
    (m.clearBit index).get row = (!decide (row = index) && m.get row) :=
  BitWords.get_erase (by rw [m.size]; omega) row

theorem get_andInplace {other : SelectionMask} (h : m.len = other.len) (row : Nat) :
    (m.andInplace other).get row = (m.get row && other.get row) :=
  BitWords.get_inter (by rw [m.size, other.size, h]) row

theorem rows_of_allZero (h : m.allZero = true) : m.rows = [] := by
  refine List.filter_eq_nil_iff.mpr fun row _ => ?_
  simp [get, BitWords.get_of_all_zero h]

/-- Selections of one length with the same rows list them alike. -/
theorem rows_ext (hlen : m.len = m'.len)
    (h : ∀ row, row ∈ m.rows ↔ row ∈ m'.rows) : m.rows = m'.rows := by
  unfold rows
  rw [← hlen]
  refine List.filter_congr fun row hrow => ?_
  have hlt := List.mem_range.mp hrow
  have := h row
  rw [mem_rows, mem_rows, ← hlen, and_congr_right_iff] at this
  exact Bool.eq_iff_iff.mpr (this hlt)

end SelectionMask

/-! ## The loop of a row kernel -/

/-- A verdict on a row: keep it, drop it, or give up on the whole predicate. -/
abbrev RowVerdict := Nat → Except CoveError (Option Bool)

/-- Visit `rows`, clearing those with a negative verdict. -/
def applyLoop (verdict : RowVerdict) :
    List Nat → SelectionMask → Except CoveError (Option SelectionMask)
  | [], m => .ok (some m)
  | row :: rows, m => do
    match ← verdict row with
    | none => .ok none
    | some true => applyLoop verdict rows m
    | some false => applyLoop verdict rows (m.clearBit row)

/-- The mask after the loop: the visited rows with a negative verdict are gone. -/
structure Cleared (verdict : RowVerdict) (rows : List Nat) (m m' : SelectionMask) : Prop where
  len : m'.len = m.len
  decided : ∀ row ∈ rows, ∃ b, verdict row = .ok (some b)
  get : ∀ row, m'.get row = true ↔
    m.get row = true ∧ (row ∈ rows → verdict row = .ok (some true))

variable {verdict : RowVerdict}

theorem cleared_of_applyLoop {rows : List Nat} (hrows : ∀ row ∈ rows, row < m.len)
    (h : applyLoop verdict rows m = .ok (some m')) : Cleared verdict rows m m' := by
  induction rows generalizing m with
  | nil =>
    obtain rfl := Option.some.inj (Except.ok.inj h)
    exact ⟨rfl, by simp, by simp⟩
  | cons row rows ih =>
    obtain ⟨hrow, hrows⟩ := List.forall_mem_cons.mp hrows
    rw [applyLoop, Checked.bind_eq_ok] at h
    obtain ⟨o, hv, h⟩ := h
    cases o with
    | none => cases h
    | some b =>
      cases b with
      | true =>
        have ih := ih hrows h
        refine ⟨ih.len, List.forall_mem_cons.mpr ⟨⟨true, hv⟩, ih.decided⟩, fun r => ?_⟩
        rw [ih.get, List.mem_cons]
        refine and_congr_right fun _ => ⟨?_, fun himp hr => himp (.inr hr)⟩
        rintro himp (rfl | hr)
        · exact hv
        · exact himp hr
      | false =>
        have ih : Cleared verdict rows (m.clearBit row) m' := ih hrows h
        refine ⟨ih.len, List.forall_mem_cons.mpr ⟨⟨false, hv⟩, ih.decided⟩, fun r => ?_⟩
        rw [ih.get, SelectionMask.get_clearBit hrow, List.mem_cons]
        by_cases hr : r = row
        · subst hr
          simp [hv]
        · simp [hr]

/-- `m'` is what a verdict leaves of the selection `m`. -/
structure Selects (verdict : RowVerdict) (m m' : SelectionMask) : Prop where
  len : m'.len = m.len
  decided : ∀ row ∈ m.rows, ∃ b, verdict row = .ok (some b)
  mem_rows : ∀ row, row ∈ m'.rows ↔ row ∈ m.rows ∧ verdict row = .ok (some true)

/-- **The loop over the selected rows keeps exactly those with a positive verdict.** -/
theorem Selects.of_applyLoop
    (h : applyLoop verdict m.rows m = .ok (some m')) : Selects verdict m m' := by
  have hc := cleared_of_applyLoop (fun r hr => (SelectionMask.mem_rows.mp hr).1) h
  refine ⟨hc.len, hc.decided, fun row => ?_⟩
  rw [SelectionMask.mem_rows, hc.len, hc.get]
  constructor
  · rintro ⟨hlt, hget, hverdict⟩
    have hrow := SelectionMask.mem_rows.mpr ⟨hlt, hget⟩
    exact ⟨hrow, hverdict hrow⟩
  · rintro ⟨hrow, hverdict⟩
    obtain ⟨hlt, hget⟩ := SelectionMask.mem_rows.mp hrow
    exact ⟨hlt, hget, fun _ => hverdict⟩

/-- Only the verdicts reached matter. -/
theorem Selects.congr {v v' : RowVerdict} (h : Selects v m m')
    (hv : ∀ row b, v row = .ok (some b) ↔ v' row = .ok (some b)) : Selects v' m m' where
  len := h.len
  decided := by simpa only [hv] using h.decided
  mem_rows := by simpa only [hv] using h.mem_rows

/-- **The loop gives a selection exactly when every visited row has a verdict.** -/
theorem exists_applyLoop_iff {verdict : RowVerdict} {rows : List Nat} {m : SelectionMask} :
    (∃ m', applyLoop verdict rows m = .ok (some m')) ↔
      ∀ row ∈ rows, ∃ b, verdict row = .ok (some b) := by
  induction rows generalizing m with
  | nil => exact iff_of_true ⟨m, rfl⟩ (by simp)
  | cons row rows ih =>
    rw [List.forall_mem_cons]
    constructor
    · rintro ⟨m', h⟩
      rw [applyLoop, Checked.bind_eq_ok] at h
      obtain ⟨o, hv, h⟩ := h
      cases o with
      | none => cases h
      | some b => cases b <;> exact ⟨⟨_, hv⟩, ih.mp ⟨m', h⟩⟩
    · rintro ⟨⟨b, hv⟩, hrest⟩
      cases b with
      | true =>
        obtain ⟨m', hm'⟩ := (@ih m).mpr hrest
        exact ⟨m', by rw [applyLoop, hv]; exact hm'⟩
      | false =>
        obtain ⟨m', hm'⟩ := (@ih (m.clearBit row)).mpr hrest
        exact ⟨m', by rw [applyLoop, hv]; exact hm'⟩

end Cove
