import Mathlib.Logic.Function.Basic
import Mathlib.Logic.Relation

/-!
# Storage that forgets

A directory whose writes reach the disk late: a crash tears the files that were not synced, and
brings back any entry a name has had since the directory was last synced.

- `Disk`: names, the files they lead to, and what a crash may leave of both.
- `Register`: one name as its readers should see it, whole values published in turn.
- `Disk.Shows`: a name of a disk keeps to a register; one lemma for each operation says how the
  register moves with it.
- `Register.Secured`: the register never goes back behind a turn; every step keeps it.
-/

namespace CrashStore

variable {P : Type u} {β : Type v}

/-! ## Registers -/

/-- The values published so far, the one readers see, and those they may see after a crash. -/
structure Register (β : Type v) where
  log : List β
  shown : Option β
  possible : Option β → Prop

variable {b : β} {k : Nat}

variable {v : Option β} {r' : Register β}

namespace Register

def publish (r : Register β) (b : β) : Register β :=
  ⟨r.log ++ [b], some b, fun v => v = some b ∨ r.possible v⟩

def settle (r : Register β) : Register β := { r with possible := fun v => v = r.shown }

def crash (r : Register β) (v : Option β) : Register β := ⟨r.log, v, fun w => w = v⟩

/-- What happens to a register. A crash leaves a value that was possible. -/
inductive Step : Register β → Register β → Prop where
  | publish (r : Register β) (b : β) : Step r (r.publish b)
  | settle (r : Register β) : Step r r.settle
  | crash {r : Register β} {v : Option β} : r.possible v → Step r (r.crash v)

/-- A value published at turn `k` or later. -/
def From (r : Register β) (k : Nat) (v : Option β) : Prop := ∃ b ∈ r.log.drop k, v = some b

/-- The value of turn `k` is `b`, and readers see it or a later one. -/
def Visible (r : Register β) (k : Nat) (b : β) : Prop := r.log[k]? = some b ∧ r.From k r.shown

/-- The value of turn `k` is `b`, and no crash leads behind it. -/
def Secured (r : Register β) (k : Nat) (b : β) : Prop :=
  r.Visible k b ∧ ∀ v, r.possible v → r.From k v

variable {r : Register β}

theorem From.publish (h : r.From k v) (b : β) :
    (r.publish b).From k v := by
  obtain ⟨a, ha, rfl⟩ := h
  refine ⟨a, ?_, rfl⟩
  show a ∈ (r.log ++ [b]).drop k
  rw [List.drop_append]
  exact List.mem_append_left _ ha

theorem from_last (r : Register β) (hk : k ≤ r.log.length) (b : β) :
    (r.publish b).From k (some b) := by
  refine ⟨b, ?_, rfl⟩
  show b ∈ (r.log ++ [b]).drop k
  rw [List.drop_append_of_le_length hk]
  exact List.mem_append_right _ (List.mem_singleton.mpr rfl)

theorem visible_publish (r : Register β) (b : β) : (r.publish b).Visible r.log.length b :=
  ⟨List.getElem?_concat_length, r.from_last (Nat.le_refl _) b⟩

theorem Visible.publish (h : r.Visible k b) (b' : β) : (r.publish b').Visible k b := by
  obtain ⟨hk, -⟩ := List.getElem?_eq_some_iff.mp h.1
  exact ⟨(List.getElem?_append_left hk).trans h.1, r.from_last (Nat.le_of_lt hk) b'⟩

/-- A value that readers see is secured when the directory settles. -/
theorem Visible.settle (h : r.Visible k b) : r.settle.Secured k b := by
  refine ⟨h, ?_⟩
  rintro v rfl
  exact h.2

theorem Secured.step (h : r.Secured k b) (hs : Step r r') : r'.Secured k b := by
  obtain ⟨hvisible, hpossible⟩ := h
  cases hs with
  | publish b' =>
    have hvisible' := hvisible.publish b'
    refine ⟨hvisible', ?_⟩
    rintro v (rfl | hv)
    · exact hvisible'.2
    · exact (hpossible v hv).publish b'
  | settle => exact hvisible.settle
  | crash hv => exact ⟨⟨hvisible.1, hpossible _ hv⟩, by rintro v rfl; exact hpossible _ hv⟩

theorem Secured.steps (h : r.Secured k b)
    (hs : Relation.ReflTransGen Step r r') : r'.Secured k b := by
  induction hs with
  | refl => exact h
  | tail _ hstep ih => exact ih.step hstep

/-- A register with one value, and nothing published. -/
def start (v : Option β) : Register β := ⟨[], v, fun w => w = v⟩

/-- Every value of a register is its first one or was published. -/
def Bounded (first : Option β) (r : Register β) : Prop :=
  (r.shown = first ∨ r.From 0 r.shown) ∧ ∀ v, r.possible v → v = first ∨ r.From 0 v

theorem Bounded.step {first : Option β} (h : r.Bounded first)
    (hs : Step r r') : r'.Bounded first := by
  obtain ⟨hshown, hpossible⟩ := h
  cases hs with
  | publish b =>
    have hlast := r.from_last (Nat.zero_le _) b
    refine ⟨.inr hlast, ?_⟩
    rintro v (rfl | hv)
    · exact .inr hlast
    · exact (hpossible v hv).imp_right (·.publish b)
  | settle => exact ⟨hshown, by rintro v rfl; exact hshown⟩
  | crash hv => exact ⟨hpossible _ hv, by rintro v rfl; exact hpossible _ hv⟩

theorem bounded_of_steps (hs : Relation.ReflTransGen Step (start v) r) : r.Bounded v := by
  induction hs with
  | refl => exact ⟨.inl rfl, fun _ => .inl⟩
  | tail _ hstep ih => exact ih.step hstep

end Register

/-! ## Disks -/

/-- A directory. Files have numbers; `synced` tells whether the disk has a file's bytes, and `kept`
the entries of a name that a crash may bring back. -/
structure Disk (P : Type u) (β : Type v) where
  data : Nat → β
  synced : Nat → Bool
  entry : P → Option Nat
  kept : P → List (Option Nat)
  next : Nat
  entry_kept : ∀ p, entry p ∈ kept p
  kept_lt : ∀ {p i}, some i ∈ kept p → i < next

variable {d' : Disk P β}

namespace Disk

/-- What a reader of a name gets. -/
def read (d : Disk P β) (p : P) : Option β := (d.entry p).map d.data

theorem entry_lt {d : Disk P β} {p : P} {i : Nat} (h : d.entry p = some i) : i < d.next :=
  d.kept_lt (h ▸ d.entry_kept p)

/-- What a crash may leave: an entry of those kept for each name, and of a file that was not synced
anything. -/
structure Crashes (d d' : Disk P β) : Prop where
  entry : ∀ p, d'.entry p ∈ d.kept p
  kept : ∀ p, d'.kept p = [d'.entry p]
  data : ∀ i, d.synced i = true → d'.data i = d.data i
  synced : ∀ i, d.synced i = true → d'.synced i = true

/-- The directory is synced. -/
def syncDir (d : Disk P β) : Disk P β :=
  { d with
    kept := fun p => [d.entry p]
    entry_kept := fun _ => List.mem_singleton.mpr rfl
    kept_lt := fun h => entry_lt (List.mem_singleton.mp h).symm }

/-- A crash may lose nothing. -/
theorem crashes_syncDir (d : Disk P β) : d.Crashes d.syncDir :=
  ⟨d.entry_kept, fun _ => rfl, fun _ _ => rfl, fun _ => id⟩

def write (d : Disk P β) (i : Nat) (b : β) : Disk P β :=
  { d with
    data := Function.update d.data i b
    synced := Function.update d.synced i false }

def sync (d : Disk P β) (i : Nat) : Disk P β :=
  { d with synced := Function.update d.synced i true }

section Names

variable [DecidableEq P]

def link (d : Disk P β) (p : P) (o : Option Nat) (ho : ∀ i, o = some i → i < d.next) :
    Disk P β :=
  { d with
    entry := Function.update d.entry p o
    kept := Function.update d.kept p (o :: d.kept p)
    entry_kept := by
      intro q
      by_cases hq : q = p
      · subst hq
        simp
      · simpa [hq] using d.entry_kept q
    kept_lt := by
      intro q i hi
      by_cases hq : q = p
      · subst hq
        rw [Function.update_self] at hi
        exact (List.mem_cons.mp hi).elim (fun he => ho i he.symm) d.kept_lt
      · rw [Function.update_of_ne hq] at hi
        exact d.kept_lt hi }

/-- A new file, which no name leads to yet. -/
def alloc (d : Disk P β) (b : β) : Disk P β :=
  { d with
    data := Function.update d.data d.next b
    synced := Function.update d.synced d.next false
    next := d.next + 1
    kept_lt := fun h => Nat.lt_succ_of_lt (d.kept_lt h) }

def create (d : Disk P β) (p : P) (b : β) : Disk P β :=
  (d.alloc b).link p (some d.next) (by rintro _ ⟨⟩; exact Nat.lt_succ_self _)

def remove (d : Disk P β) (p : P) : Disk P β := d.link p none nofun

def rename (d : Disk P β) (p q : P) : Disk P β := (d.link q (d.entry p) fun _ => entry_lt).remove p

variable {d : Disk P β} {p q : P} {o : Option Nat} {ho : ∀ i, o = some i → i < d.next}

@[simp] theorem entry_link_self : (d.link p o ho).entry p = o := Function.update_self _ _ _

@[simp] theorem kept_link_self : (d.link p o ho).kept p = o :: d.kept p := Function.update_self _ _ _

theorem entry_link_ne (h : q ≠ p) : (d.link p o ho).entry q = d.entry q :=
  Function.update_of_ne h _ _

theorem kept_link_ne (h : q ≠ p) : (d.link p o ho).kept q = d.kept q :=
  Function.update_of_ne h _ _

end Names

/-! ## A name that keeps to a register -/

/-- The name `p` shows what the register shows, and can only lead to synced files, now and after a
crash. -/
structure Shows (d : Disk P β) (p : P) (r : Register β) : Prop where
  shown : r.shown = d.read p
  possible : ∀ o ∈ d.kept p, r.possible (o.map d.data)
  safe : ∀ {i}, some i ∈ d.kept p → d.synced i = true

section Moves

variable {d : Disk P β} {p q : P} {r : Register β}

/-- What other names and other files do leaves the register alone. -/
theorem Shows.frame (h : d.Shows p r) (hentry : d'.entry p = d.entry p)
    (hkept : d'.kept p = d.kept p)
    (hfile : ∀ i, some i ∈ d.kept p → d'.data i = d.data i ∧ d'.synced i = true) :
    d'.Shows p r := by
  have hmap : ∀ o ∈ d.kept p, o.map d'.data = o.map d.data := by
    rintro (_ | i) ho
    · rfl
    · exact congrArg some (hfile i ho).1
  refine ⟨?_, ?_, ?_⟩
  · show r.shown = (d'.entry p).map d'.data
    rw [hentry, hmap _ (d.entry_kept p)]
    exact h.shown
  · intro o ho
    rw [hkept] at ho
    exact hmap o ho ▸ h.possible o ho
  · intro i hi
    rw [hkept] at hi
    exact (hfile i hi).2

theorem Shows.write (h : d.Shows p r) {i : Nat} (hi : some i ∉ d.kept p) (b : β) :
    (d.write i b).Shows p r := by
  refine h.frame rfl rfl ?_
  intro j hj
  have hne : j ≠ i := by rintro rfl; exact hi hj
  exact ⟨Function.update_of_ne hne _ _, (Function.update_of_ne hne _ _).trans (h.safe hj)⟩

theorem Shows.alloc (h : d.Shows p r) (b : β) : (d.alloc b).Shows p r := by
  refine h.frame rfl rfl ?_
  intro j hj
  have hne : j ≠ d.next := Nat.ne_of_lt (d.kept_lt hj)
  exact ⟨Function.update_of_ne hne _ _, (Function.update_of_ne hne _ _).trans (h.safe hj)⟩

theorem synced_sync_self (d : Disk P β) (i : Nat) : (d.sync i).synced i = true := by
  simp [sync]

theorem synced_sync {i j : Nat} (h : d.synced j = true) :
    (d.sync i).synced j = true := by
  by_cases hji : j = i
  · subst hji
    exact Function.update_self j true d.synced
  · exact (Function.update_of_ne hji _ _).trans h

theorem Shows.sync (h : d.Shows p r) (i : Nat) : (d.sync i).Shows p r :=
  h.frame rfl rfl fun _ hj => ⟨rfl, synced_sync (h.safe hj)⟩

theorem Shows.syncDir (h : d.Shows p r) : d.syncDir.Shows p r.settle := by
  refine ⟨h.shown, ?_, fun hi => h.safe (List.mem_singleton.mp hi ▸ d.entry_kept p)⟩
  intro o ho
  rw [List.mem_singleton.mp ho]
  exact h.shown.symm

/-- A crash moves the register to a value that was possible. -/
theorem Shows.crash (h : d.Shows p r) (hc : d.Crashes d') :
    r.possible (d'.read p) ∧ d'.Shows p (r.crash (d'.read p)) := by
  have hentry := hc.entry p
  have hread : d'.read p = (d'.entry p).map d.data := by
    show (d'.entry p).map d'.data = _
    cases he : d'.entry p with
    | none => rfl
    | some i => exact congrArg some (hc.data i (h.safe (he ▸ hentry)))
  refine ⟨hread ▸ h.possible _ hentry, rfl, ?_, ?_⟩
  · intro o ho
    rw [hc.kept, List.mem_singleton] at ho
    exact ho ▸ rfl
  · intro i hi
    rw [hc.kept, List.mem_singleton] at hi
    exact hc.synced i (h.safe (hi ▸ hentry))

variable [DecidableEq P] {o : Option Nat} {ho : ∀ i, o = some i → i < d.next}

theorem Shows.link_ne (h : d.Shows p r) (hpq : p ≠ q) : (d.link q o ho).Shows p r :=
  h.frame (entry_link_ne hpq) (kept_link_ne hpq) fun _ hi => ⟨rfl, h.safe hi⟩

/-- An entry for a synced file publishes its bytes. -/
theorem Shows.publish {i : Nat} (h : d.Shows p r) (hentry : o = some i)
    (hsynced : d.synced i = true) : (d.link p o ho).Shows p (r.publish (d.data i)) := by
  subst hentry
  refine ⟨?_, ?_, ?_⟩
  · show some (d.data i) = ((d.link p (some i) ho).entry p).map d.data
    rw [entry_link_self]
    rfl
  · intro o ho
    rw [kept_link_self] at ho
    rcases List.mem_cons.mp ho with rfl | ho
    · exact .inl rfl
    · exact .inr (h.possible o ho)
  · intro j hj
    rw [kept_link_self] at hj
    rcases List.mem_cons.mp hj with hj | hj
    · cases hj
      exact hsynced
    · exact h.safe hj

theorem Shows.remove (h : d.Shows p r) (hpq : p ≠ q) : (d.remove q).Shows p r := h.link_ne hpq

/-- Renaming a synced file over the name publishes its bytes. -/
theorem Shows.rename {i : Nat} (h : d.Shows p r) (hpq : p ≠ q) (hentry : d.entry q = some i)
    (hsynced : d.synced i = true) : (d.rename q p).Shows p (r.publish (d.data i)) :=
  (h.publish hentry hsynced).remove hpq

end Moves

/-! ## Private files -/

/-- Only `p` leads to the file, and no crash brings it back at `q`. -/
structure Owned (d : Disk P β) (q p : P) (i : Nat) : Prop where
  entry : d.entry p = some i
  hidden : some i ∉ d.kept q
  alone : ∀ p', d.entry p' = some i → p' = p

section Owned

variable {d : Disk P β} {q p p' : P} {i j : Nat}

theorem Owned.ne (h : d.Owned q p i) (h' : d.Owned q p' j) (hp : p ≠ p') : i ≠ j := by
  rintro rfl
  exact hp (h'.alone p h.entry)

theorem Owned.syncDir (h : d.Owned q p i) (hp : p ≠ q) : d.syncDir.Owned q p i :=
  ⟨h.entry, fun hi => hp (h.alone q (List.mem_singleton.mp hi).symm).symm, h.alone⟩

variable [DecidableEq P]

theorem Owned.link {o : Option Nat} {ho : ∀ i, o = some i → i < d.next} (h : d.Owned q p i)
    (hp : p ≠ p') (hne : o ≠ some i) : (d.link p' o ho).Owned q p i := by
  refine ⟨(entry_link_ne hp).trans h.entry, ?_, ?_⟩
  · by_cases hq : q = p'
    · subst hq
      rw [kept_link_self]
      exact fun hmem => (List.mem_cons.mp hmem).elim (fun he => hne he.symm) h.hidden
    · rw [kept_link_ne hq]
      exact h.hidden
  · intro n hn
    by_cases hnp : n = p'
    · subst hnp
      exact absurd (entry_link_self.symm.trans hn) hne
    · exact h.alone n ((entry_link_ne hnp).symm.trans hn)

theorem Owned.remove (h : d.Owned q p i) (hp : p ≠ p') : (d.remove p').Owned q p i :=
  h.link hp nofun

theorem Owned.rename {n : P} (h : d.Owned q p i) (hp : p ≠ p') (hn : p ≠ n) :
    (d.rename p' n).Owned q p i :=
  (h.link hn fun he => hp (h.alone p' he).symm).remove hp

/-- A new file is private to the name it is created at. -/
theorem owned_create (d : Disk P β) (hp : p ≠ q) (b : β) : (d.create p b).Owned q p d.next := by
  refine ⟨entry_link_self, ?_, ?_⟩
  · rw [create, kept_link_ne hp.symm]
    exact fun hi => Nat.lt_irrefl _ (d.kept_lt hi)
  · intro n hn
    by_contra hnp
    rw [create, entry_link_ne hnp] at hn
    have hold : d.entry n = some d.next := hn
    exact Nat.lt_irrefl _ (entry_lt hold)

end Owned

end Disk

end CrashStore
