import Cove.Lib.Checked
import Mathlib.Data.List.Basic

/-!
# Runs and patches

Rows given by runs of one value each, and rows of which some are written over.

- `expand`: the rows of runs; `getElem?_expand`: **a row has the value of the run it lies in**.
- `compress`, `expand_compress`, `coalesced_compress`: **rows as runs whose neighbours differ**.
- `expandEnds`, `getElem?_expandEnds`: the same for runs given by where they end.
- `writeAll`: patches written one after the other, each within the rows;
  `getElem?_writeAll`: **a patched row has its patch, every other row what it had**.
-/

namespace Runs

variable {α : Type u}

/-! ## Runs by length -/

/-- How many rows runs have. -/
def total (runs : List (α × Nat)) : Nat := (runs.map Prod.snd).sum

/-- The rows of runs. -/
def expand (runs : List (α × Nat)) : List α := runs.flatMap fun run => List.replicate run.2 run.1

/-- Row `i` lies in a run of `a`. -/
def Covers (runs : List (α × Nat)) (i : Nat) (a : α) : Prop :=
  ∃ before length after, runs = before ++ (a, length) :: after ∧ total before ≤ i ∧
    i < total before + length

theorem total_cons (run : α × Nat) (runs : List (α × Nat)) :
    total (run :: runs) = run.2 + total runs := rfl

theorem expand_cons (run : α × Nat) (runs : List (α × Nat)) :
    expand (run :: runs) = List.replicate run.2 run.1 ++ expand runs := rfl

variable {runs : List (α × Nat)}

variable {run : α × Nat} {i start : Nat} {a : α}

theorem le_total_of_mem (h : run ∈ runs) :
    run.2 ≤ total runs := by
  obtain ⟨before, after, rfl⟩ := List.append_of_mem h
  rw [total, List.map_append, List.sum_append, List.map_cons, List.sum_cons]
  omega

@[simp]
theorem length_expand (runs : List (α × Nat)) : (expand runs).length = total runs := by
  induction runs with
  | nil => rfl
  | cons run runs ih => rw [expand_cons, List.length_append, List.length_replicate, ih, total_cons]

/-- A row lies in the first run or after it. -/
theorem covers_cons :
    Covers (run :: runs) i a ↔
      (i < run.2 ∧ run.1 = a) ∨ (run.2 ≤ i ∧ Covers runs (i - run.2) a) := by
  constructor
  · rintro ⟨before, length, after, heq, hle, hlt⟩
    cases before with
    | nil =>
      obtain ⟨rfl, -⟩ := List.cons.inj heq
      refine .inl ⟨?_, rfl⟩
      rwa [show total ([] : List (α × Nat)) = 0 from rfl, Nat.zero_add] at hlt
    | cons head before =>
      obtain ⟨rfl, rfl⟩ := List.cons.inj heq
      rw [total_cons] at hle hlt
      exact .inr ⟨by omega, before, length, after, rfl, by omega, by omega⟩
  · rintro (⟨hlt, rfl⟩ | ⟨hle, before, length, after, rfl, hle', hlt⟩)
    · exact ⟨[], run.2, runs, rfl, Nat.zero_le _, by rwa [show total [] = 0 from rfl, Nat.zero_add]⟩
    · refine ⟨run :: before, length, after, rfl, ?_, ?_⟩
      · rw [total_cons]
        omega
      · rw [total_cons]
        omega

/-- **A row has the value of the run it lies in.** -/
theorem getElem?_expand :
    (expand runs)[i]? = some a ↔ Covers runs i a := by
  induction runs generalizing i with
  | nil =>
    refine iff_of_false nofun ?_
    rintro ⟨before, length, after, heq, -⟩
    exact List.append_ne_nil_of_right_ne_nil _ (List.cons_ne_nil _ _) heq.symm
  | cons run runs ih =>
    rw [expand_cons, covers_cons, ← ih, List.getElem?_append, List.length_replicate]
    by_cases h : i < run.2
    · rw [if_pos h, List.getElem?_replicate, if_pos h, Option.some.injEq]
      exact ⟨fun ha => .inl ⟨h, ha⟩, fun ha => ha.elim And.right fun ha => by omega⟩
    · rw [if_neg h]
      exact ⟨fun ha => .inr ⟨by omega, ha⟩, fun ha => ha.elim (fun ha => by omega) And.right⟩

/-- Runs that are not empty and whose neighbours differ, after a run of a value. -/
def Coalesced (prev : Option α) : List (α × Nat) → Prop
  | [] => True
  | (a, n) :: runs => n ≠ 0 ∧ prev ≠ some a ∧ Coalesced (some a) runs

section

variable [DecidableEq α]

/-- One row more before runs. -/
def pushFront (a : α) : List (α × Nat) → List (α × Nat)
  | [] => [(a, 1)]
  | (b, n) :: runs => if a = b then (b, n + 1) :: runs else (a, 1) :: (b, n) :: runs

/-- The rows as runs. -/
def compress (rows : List α) : List (α × Nat) := rows.foldr pushFront []

theorem expand_pushFront (a : α) (runs : List (α × Nat)) :
    expand (pushFront a runs) = a :: expand runs := by
  cases runs with
  | nil => rfl
  | cons run runs =>
    obtain ⟨b, n⟩ := run
    rw [pushFront]
    split
    next heq =>
      rw [heq, expand_cons, expand_cons, List.replicate_succ, List.cons_append]
    next => rfl

theorem coalesced_pushFront (a : α) (h : Coalesced none runs) :
    Coalesced none (pushFront a runs) := by
  cases runs with
  | nil => exact ⟨Nat.one_ne_zero, nofun, trivial⟩
  | cons run runs =>
    obtain ⟨b, n⟩ := run
    obtain ⟨hn, -, hrest⟩ := h
    rw [pushFront]
    split
    next => exact ⟨Nat.succ_ne_zero n, nofun, hrest⟩
    next hne =>
      exact ⟨Nat.one_ne_zero, nofun, hn, fun heq => hne (Option.some.inj heq), hrest⟩

@[simp] theorem expand_compress (rows : List α) : expand (compress rows) = rows := by
  induction rows with
  | nil => rfl
  | cons a rows ih =>
    show expand (pushFront a (compress rows)) = a :: rows
    rw [expand_pushFront, ih]

theorem coalesced_compress (rows : List α) : Coalesced none (compress rows) := by
  induction rows with
  | nil => exact trivial
  | cons a rows ih => exact coalesced_pushFront a ih

end

/-! ## Runs by end -/

/-- The rows of runs that end at given places, from a place on. -/
def expandEnds (start : Nat) : List (α × Nat) → List α
  | [] => []
  | (a, stop) :: runs => List.replicate (stop - start) a ++ expandEnds stop runs

/-- The first run that ends after row `i` has the value `a`. -/
def CoversEnds (runs : List (α × Nat)) (i : Nat) (a : α) : Prop :=
  ∃ before stop after, runs = before ++ (a, stop) :: after ∧ (∀ run ∈ before, run.2 ≤ i) ∧ i < stop

/-- Ends that increase, from a place on. -/
def Increasing (start : Nat) : List Nat → Prop
  | [] => True
  | stop :: stops => start < stop ∧ Increasing stop stops

theorem length_expandEnds (h : Increasing start (runs.map Prod.snd)) :
    start + (expandEnds start runs).length = ((runs.map Prod.snd).getLast?).getD start := by
  induction runs generalizing start with
  | nil => rfl
  | cons run runs ih =>
    obtain ⟨a, stop⟩ := run
    obtain ⟨hlt, hrest⟩ := h
    have hlt : start < stop := hlt
    have hlength : stop + (expandEnds stop runs).length =
        ((runs.map Prod.snd).getLast?).getD stop := ih hrest
    rw [List.map_cons, List.getLast?_cons, Option.getD_some, ← hlength]
    show start + (List.replicate (stop - start) a ++ expandEnds stop runs).length = _
    rw [List.length_append, List.length_replicate]
    omega

/-- **A row has the value of the first run that ends after it.** -/
theorem coversEnds_of_getElem?
    (h : Increasing start (runs.map Prod.snd)) (ha : (expandEnds start runs)[i]? = some a) :
    CoversEnds runs (start + i) a := by
  induction runs generalizing start i with
  | nil => cases ha
  | cons run runs ih =>
    obtain ⟨b, stop⟩ := run
    obtain ⟨hlt, hrest⟩ := h
    have hlt : start < stop := hlt
    rw [expandEnds, List.getElem?_append, List.length_replicate] at ha
    by_cases hi : i < stop - start
    · rw [if_pos hi, List.getElem?_replicate, if_pos hi] at ha
      obtain rfl := Option.some.inj ha
      exact ⟨[], stop, runs, rfl, nofun, by omega⟩
    · rw [if_neg hi] at ha
      obtain ⟨before, stop', after, rfl, hbefore, hstop⟩ := ih hrest ha
      have hplace : stop + (i - (stop - start)) = start + i := by omega
      rw [hplace] at hbefore hstop
      refine ⟨(b, stop) :: before, stop', after, rfl, ?_, hstop⟩
      exact List.forall_mem_cons.mpr ⟨show stop ≤ start + i by omega, hbefore⟩

/-! ## Patches -/

variable {ε : Type v}

/-- One row written over. -/
def writeAt (outside : ε) (rows : List α) (patch : Nat × α) : Except ε (List α) :=
  if patch.1 < rows.length then .ok (rows.set patch.1 patch.2) else .error outside

/-- Patches written one after the other. -/
def writeAll (outside : ε) (rows : List α) (patches : List (Nat × α)) : Except ε (List α) :=
  patches.foldlM (writeAt outside) rows

/-- Row `i` is patched with `a`, or is not patched and had it. -/
def Patched (rows : List α) (patches : List (Nat × α)) (i : Nat) (a : α) : Prop :=
  (i, a) ∈ patches ∨ ((∀ patch ∈ patches, patch.1 ≠ i) ∧ rows[i]? = some a)

/-- **A patched row has its patch, every other row what it had.** The induction is on the patches,
from the first: the places are distinct, so that no later patch touches the row again. -/
theorem writeAll_eq_ok (outside : ε) (rows : List α) {patches : List (Nat × α)}
    (hin : ∀ patch ∈ patches, patch.1 < rows.length) (hdistinct : (patches.map Prod.fst).Nodup) :
    ∃ out, writeAll outside rows patches = .ok out ∧ out.length = rows.length ∧
      ∀ i a, out[i]? = some a → Patched rows patches i a := by
  induction patches generalizing rows with
  | nil => exact ⟨rows, rfl, rfl, fun i a ha => .inr ⟨nofun, ha⟩⟩
  | cons patch patches ih =>
    obtain ⟨hhead, htail⟩ := List.forall_mem_cons.mp hin
    obtain ⟨hfresh, hdistinct⟩ := List.nodup_cons.mp hdistinct
    have hlength : (rows.set patch.1 patch.2).length = rows.length := List.length_set
    obtain ⟨out, hout, houtLength, hget⟩ :=
      ih (rows.set patch.1 patch.2) (fun p hp => hlength ▸ htail p hp) hdistinct
    refine ⟨out, ?_, houtLength.trans hlength, fun i a ha => ?_⟩
    · unfold writeAll
      rw [List.foldlM_cons, writeAt, if_pos hhead]
      exact hout
    · rcases hget i a ha with hmem | ⟨hother, hrow⟩
      · exact .inl (List.mem_cons_of_mem _ hmem)
      · rw [List.getElem?_set] at hrow
        by_cases hi : patch.1 = i
        · rw [if_pos hi, if_pos hhead] at hrow
          obtain rfl := Option.some.inj hrow
          exact .inl (hi ▸ List.mem_cons_self)
        · rw [if_neg hi] at hrow
          exact .inr ⟨List.forall_mem_cons.mpr ⟨hi, hother⟩, hrow⟩

end Runs
