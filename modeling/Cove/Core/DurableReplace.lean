import Cove.Lib.CrashStore
import Cove.Lib.Framing
import Cove.Lib.TextOps

/-!
# Durable replace

`durable_replace` publishes a file at a final path: it writes a sibling temporary file, syncs it,
renames it over the final path and syncs the directory. Many calls may be under way, in many
processes; a step of each may fail, a process may be killed, and the machine may crash.

- `Advance`, `Step`: what one call does next, and what happens to the system.
- `Sim`, `Step.sim`: the final path keeps to a register of whole payloads, over every step.
- **`register_of_reaches`**, **`read_of_reaches`**: over any run, readers of the final path see what
  was there first or one whole payload.
- **`secured_of_succeeded`**: once a call has returned `Ok` its payload is there, or a later one,
  whatever fails, is killed or crashes afterwards.
-/

namespace Cove.DurableReplace

open CrashStore TextOps

/-! ## Temporary paths -/

/-- The process, the time and the value of `TEMP_COUNTER`. -/
structure Stamp where
  pid : Nat
  nanos : Nat
  counter : Nat
  deriving DecidableEq

/-- `temp_path_for`. -/
def tempPathFor (finalPath : Text) (stamp : Stamp) : Text :=
  finalPath ++ (".cove.tmp.".toList ++
    (natText stamp.pid ++ '.' :: (natText stamp.nanos ++ '.' :: natText stamp.counter)))

theorem dot_notMem_natText (n : Nat) : '.' ∉ natText n := fun h =>
  absurd (isDigit_of_mem_natText h) (by decide)

theorem tempPathFor_injective (finalPath : Text) : Function.Injective (tempPathFor finalPath) := by
  rintro ⟨pid, nanos, counter⟩ ⟨pid', nanos', counter'⟩ h
  have hstamp := List.append_cancel_left (List.append_cancel_left h)
  obtain ⟨hpid, hrest⟩ := Framing.append_cons_inj (dot_notMem_natText _) (dot_notMem_natText _) hstamp
  obtain ⟨hnanos, hcounter⟩ := Framing.append_cons_inj (dot_notMem_natText _)
    (dot_notMem_natText _) hrest
  exact Stamp.mk.injEq .. ▸ ⟨natText_injective hpid, natText_injective hnanos,
    natText_injective hcounter⟩

theorem tempPathFor_ne (finalPath : Text) (stamp : Stamp) :
    tempPathFor finalPath stamp ≠ finalPath := by
  intro h
  have hnil := List.append_right_eq_self.mp h
  exact absurd hnil (by simp)

/-! ## Calls -/

/-- How far a call of `durable_replace` is: its file is named by number, and the rename gives it a
turn among those of the final path. -/
inductive Phase where
  | opening
  | writing (file : Nat)
  | written (file : Nat)
  | synced (file : Nat)
  | renamed (turn : Nat)
  | failing
  | succeeded (turn : Nat)
  | failed
  | killed
  deriving DecidableEq

/-- The closure of the call has not returned. -/
def Phase.running : Phase → Bool
  | .opening | .writing _ | .written _ | .synced _ | .renamed _ => true
  | _ => false

/-- The call has not returned. -/
def Phase.live (phase : Phase) : Bool := phase.running || phase == .failing

abbrev Files := Disk Text (List UInt8)

/-- What a call does next, and what it adds to the payloads of the final path. -/
inductive Advance (finalPath tmp : Text) (payload : List UInt8) (turn : Nat) :
    Files → Phase → Files → Phase → List (List UInt8) → Prop where
  /-- `create_new` opens a name that is free. -/
  | create {d : Files} : d.entry tmp = none →
      Advance finalPath tmp payload turn d .opening (d.create tmp []) (.writing d.next) []
  /-- A part of the bytes, or anything a writer callback leaves on its way. -/
  | write {d : Files} {i : Nat} (b : List UInt8) :
      Advance finalPath tmp payload turn d (.writing i) (d.write i b) (.writing i) []
  | finish {d : Files} {i : Nat} : d.data i = payload →
      Advance finalPath tmp payload turn d (.writing i) d (.written i) []
  /-- `sync_file` opens the temporary path again. -/
  | syncFile {d : Files} {i j : Nat} : d.entry tmp = some j →
      Advance finalPath tmp payload turn d (.written i) (d.sync j) (.synced i) []
  | rename {d : Files} {i j : Nat} : d.entry tmp = some j →
      Advance finalPath tmp payload turn d (.synced i) (d.rename tmp finalPath) (.renamed turn)
        [payload]
  | syncParentDir {d : Files} {k : Nat} :
      Advance finalPath tmp payload turn d (.renamed k) d.syncDir (.succeeded k) []
  /-- Any step of the closure may return an error, the sync of the directory after the rename
  too. -/
  | fail {d : Files} {phase : Phase} : phase.running = true →
      Advance finalPath tmp payload turn d phase d .failing []
  | removeFile {d : Files} :
      Advance finalPath tmp payload turn d .failing (d.remove tmp) .failed []
  /-- The removal is best effort. -/
  | removeFails {d : Files} : Advance finalPath tmp payload turn d .failing d .failed []

structure Call where
  stamp : Stamp
  payload : List UInt8
  phase : Phase

def Call.kill (c : Call) : Call := { c with phase := if c.phase.live then .killed else c.phase }

/-- The directory of the final path, `TEMP_COUNTER` of each process, and the calls that publish at
the final path, with the payloads renamed over it so far. -/
structure System where
  disk : Files
  counter : Nat → Nat
  calls : Nat → Option Call
  published : List (List UInt8)

/-- The call `k` has taken a step. -/
def System.after (s : System) (k : Nat) (c : Call) (d : Files) (phase : Phase)
    (new : List (List UInt8)) : System :=
  { s with
    disk := d
    calls := Function.update s.calls k (some { c with phase })
    published := s.published ++ new }

/-- What happens to the system. -/
inductive Step (finalPath : Text) : System → System → Prop where
  | start {s : System} {k : Nat} (pid nanos : Nat) (payload : List UInt8) : s.calls k = none →
      Step finalPath s { s with
        counter := Function.update s.counter pid (s.counter pid + 1)
        calls := Function.update s.calls k
          (some ⟨⟨pid, nanos, s.counter pid⟩, payload, .opening⟩) }
  | advance {s : System} {k : Nat} {c : Call} {d : Files} {phase : Phase}
      {new : List (List UInt8)} : s.calls k = some c →
      Advance finalPath (tempPathFor finalPath c.stamp) c.payload s.published.length s.disk c.phase
        d phase new →
      Step finalPath s (s.after k c d phase new)
  /-- The directory may reach the disk at any time. -/
  | settle {s : System} : Step finalPath s { s with disk := s.disk.syncDir }
  /-- A process ends, and another may take its number. -/
  | kill {s : System} (pid : Nat) :
      Step finalPath s { s with
        counter := Function.update s.counter pid 0
        calls := fun k => (s.calls k).map fun c => if c.stamp.pid = pid then c.kill else c }
  | crash {s : System} {d : Files} : s.disk.Crashes d →
      Step finalPath s { s with
        disk := d
        counter := fun _ => 0
        calls := fun k => (s.calls k).map Call.kill }

abbrev Reaches (finalPath : Text) : System → System → Prop := Relation.ReflTransGen (Step finalPath)

/-! ## One call -/

variable {finalPath tmp p : Text} {payload : List UInt8} {turn : Nat} {d d' : Files}
  {phase phase' : Phase} {new : List (List UInt8)} {r r' : Register (List UInt8)}

/-- What a call relies on: its file is private to its temporary path, and whole once written. -/
def Phase.Holds (d : Files) (finalPath tmp : Text) (payload : List UInt8) : Phase → Prop
  | .writing i => d.Owned finalPath tmp i
  | .written i => d.Owned finalPath tmp i ∧ d.data i = payload
  | .synced i => d.Owned finalPath tmp i ∧ d.data i = payload ∧ d.synced i = true
  | _ => True

/-- What the register owes to a call that has renamed its file. -/
def Phase.Turn (r : Register (List UInt8)) (payload : List UInt8) : Phase → Prop
  | .renamed k => r.Visible k payload
  | .succeeded k => r.Secured k payload
  | _ => True

/-- What a call may do to the register. -/
def Moves (payload : List UInt8) (r r' : Register (List UInt8)) : Prop :=
  r' = r ∨ r' = r.publish payload ∨ r' = r.settle

theorem Moves.steps (h : Moves payload r r') : Relation.ReflTransGen Register.Step r r' := by
  rcases h with rfl | rfl | rfl
  · exact .refl
  · exact .single (.publish r payload)
  · exact .single (.settle r)

theorem Phase.Turn.moves {own : List UInt8} (h : phase.Turn r own) (hm : Moves payload r r') :
    phase.Turn r' own := by
  cases phase with
  | renamed k =>
    rcases hm with rfl | rfl | rfl
    · exact h
    · exact Register.Visible.publish h payload
    · exact h
  | succeeded k =>
    rcases hm with rfl | rfl | rfl
    · exact h
    · exact Register.Secured.step h (.publish r payload)
    · exact Register.Secured.step h (.settle r)
  | _ => trivial

/-- A step of one call moves the register, and keeps what the call relies on. -/
theorem Advance.shows (h : Advance finalPath tmp payload turn d phase d' phase' new)
    (htmp : tmp ≠ finalPath) (hshows : d.Shows finalPath r)
    (hholds : phase.Holds d finalPath tmp payload) (hturn : phase.Turn r payload)
    (hlog : r.log.length = turn) :
    ∃ r', Moves payload r r' ∧ r'.log = r.log ++ new ∧ d'.Shows finalPath r' ∧
      phase'.Holds d' finalPath tmp payload ∧ phase'.Turn r' payload := by
  cases h with
  | create hfree =>
    exact ⟨r, .inl rfl, (List.append_nil _).symm, (hshows.alloc []).link_ne htmp.symm,
      Disk.owned_create d htmp [], trivial⟩
  | write b =>
    exact ⟨r, .inl rfl, (List.append_nil _).symm, hshows.write hholds.hidden b,
      ⟨hholds.entry, hholds.hidden, hholds.alone⟩, trivial⟩
  | finish hdata =>
    exact ⟨r, .inl rfl, (List.append_nil _).symm, hshows, ⟨hholds, hdata⟩, trivial⟩
  | @syncFile i j hentry =>
    obtain ⟨hown, hdata⟩ := hholds
    obtain rfl : i = j := Option.some.inj (hown.entry.symm.trans hentry)
    exact ⟨r, .inl rfl, (List.append_nil _).symm, hshows.sync i,
      ⟨⟨hown.entry, hown.hidden, hown.alone⟩, hdata, d.synced_sync_self i⟩, trivial⟩
  | @rename i j hentry =>
    obtain ⟨hown, hdata, hsynced⟩ := hholds
    have hpublish := hshows.rename htmp.symm hown.entry hsynced
    rw [hdata] at hpublish
    exact ⟨r.publish payload, .inr (.inl rfl), rfl, hpublish, trivial,
      hlog ▸ r.visible_publish payload⟩
  | syncParentDir =>
    exact ⟨r.settle, .inr (.inr rfl), (List.append_nil _).symm, hshows.syncDir, trivial,
      Register.Visible.settle hturn⟩
  | fail => exact ⟨r, .inl rfl, (List.append_nil _).symm, hshows, trivial, trivial⟩
  | removeFile =>
    exact ⟨r, .inl rfl, (List.append_nil _).symm, hshows.remove htmp.symm, trivial, trivial⟩
  | removeFails => exact ⟨r, .inl rfl, (List.append_nil _).symm, hshows, trivial, trivial⟩

/-- A step of one call leaves the private files of the others alone. -/
theorem Advance.frame {i : Nat} (h : Advance finalPath tmp payload turn d phase d' phase' new)
    (hholds : phase.Holds d finalPath tmp payload) (hown : d.Owned finalPath p i) (hp : p ≠ tmp)
    (hpf : p ≠ finalPath) :
    d'.Owned finalPath p i ∧ d'.data i = d.data i ∧
      (d.synced i = true → d'.synced i = true) := by
  cases h with
  | create hfree =>
    have hne : i ≠ d.next := Nat.ne_of_lt (Disk.entry_lt hown.entry)
    have halloc : (d.alloc []).Owned finalPath p i := ⟨hown.entry, hown.hidden, hown.alone⟩
    refine ⟨halloc.link hp (by simpa using hne.symm), Function.update_of_ne hne _ _, ?_⟩
    exact (Function.update_of_ne hne false d.synced).trans
  | @write j b =>
    have hne : i ≠ j := hown.ne hholds hp
    exact ⟨⟨hown.entry, hown.hidden, hown.alone⟩, Function.update_of_ne hne _ _,
      (Function.update_of_ne hne false d.synced).trans⟩
  | finish hdata => exact ⟨hown, rfl, id⟩
  | syncFile hentry =>
    exact ⟨⟨hown.entry, hown.hidden, hown.alone⟩, rfl, Disk.synced_sync⟩
  | rename hentry =>
    exact ⟨hown.rename hp hpf, rfl, id⟩
  | syncParentDir => exact ⟨hown.syncDir hpf, rfl, id⟩
  | fail => exact ⟨hown, rfl, id⟩
  | removeFile => exact ⟨hown.remove hp, rfl, id⟩
  | removeFails => exact ⟨hown, rfl, id⟩

theorem Phase.Holds.frame (h : phase.Holds d finalPath p payload)
    (hf : ∀ i, d.Owned finalPath p i → d'.Owned finalPath p i ∧ d'.data i = d.data i ∧
      (d.synced i = true → d'.synced i = true)) : phase.Holds d' finalPath p payload := by
  cases phase with
  | writing i => exact (hf i h).1
  | written i =>
    obtain ⟨hown, hdata⟩ := h
    obtain ⟨hown', hsame, -⟩ := hf i hown
    exact ⟨hown', hsame.trans hdata⟩
  | synced i =>
    obtain ⟨hown, hdata, hsynced⟩ := h
    obtain ⟨hown', hsame, hkeep⟩ := hf i hown
    exact ⟨hown', hsame.trans hdata, hkeep hsynced⟩
  | _ => trivial

/-! ## The whole system -/

/-- What holds of each call. -/
structure Call.Ok (finalPath : Text) (d : Files) (counter : Nat → Nat)
    (r : Register (List UInt8)) (c : Call) : Prop where
  counted : c.phase.live = true → c.stamp.counter < counter c.stamp.pid
  holds : c.phase.Holds d finalPath (tempPathFor finalPath c.stamp) c.payload
  turn : c.phase.Turn r c.payload

/-- The final path keeps to the register `r`, and no two calls under way share a stamp. -/
structure Sim (finalPath : Text) (s : System) (r : Register (List UInt8)) : Prop where
  log : r.log = s.published
  shows : s.disk.Shows finalPath r
  ok : ∀ {k c}, s.calls k = some c → c.Ok finalPath s.disk s.counter r
  apart : ∀ {j k a b}, s.calls j = some a → s.calls k = some b → a.phase.live = true →
    b.phase.live = true → a.stamp = b.stamp → j = k

theorem Advance.live (h : Advance finalPath tmp payload turn d phase d' phase' new) :
    phase.live = true := by
  cases h with
  | fail hrunning => simp [Phase.live, hrunning]
  | _ => rfl

/-- A call that has returned or was killed holds no file. -/
theorem Phase.Holds.of_not_live (h : phase.live = false) :
    phase.Holds d finalPath tmp payload := by
  cases phase with
  | writing i | written i | synced i => exact absurd h nofun
  | _ => trivial

theorem Call.live_kill (c : Call) : c.kill.phase.live = false := by
  obtain ⟨stamp, payload, phase⟩ := c
  cases phase <;> rfl

variable {c : Call} {k : Nat}

/-- A killed call relies on nothing, and one that has returned `Ok` keeps its turn. -/
theorem Call.ok_kill {counter : Nat → Nat} (h : c.phase.Turn r c.payload)
    (hr : ∀ k, r.Secured k c.payload → r'.Secured k c.payload) :
    c.kill.Ok finalPath d counter r' := by
  refine ⟨fun hlive => absurd hlive (by simp [c.live_kill]), .of_not_live c.live_kill, ?_⟩
  obtain ⟨stamp, payload, phase⟩ := c
  cases phase with
  | succeeded k => exact hr k h
  | _ => trivial

/-- The calls after one has changed. -/
theorem eq_some_of_update {f : Nat → Option Call} {j : Nat} {a : Call}
    (h : Function.update f k (some c) j = some a) : j = k ∧ a = c ∨ j ≠ k ∧ f j = some a := by
  by_cases hj : j = k
  · subst hj
    rw [Function.update_self, Option.some.injEq] at h
    exact .inl ⟨rfl, h.symm⟩
  · exact .inr ⟨hj, (Function.update_of_ne hj (some c) f).symm.trans h⟩

section Steps

variable {s s' : System}

theorem Sim.start (h : Sim finalPath s r) (pid nanos : Nat) (payload : List UInt8)
    (hk : s.calls k = none) :
    Sim finalPath { s with
      counter := Function.update s.counter pid (s.counter pid + 1)
      calls := Function.update s.calls k
        (some ⟨⟨pid, nanos, s.counter pid⟩, payload, .opening⟩) } r := by
  -- the counter of the new stamp is above those of the calls of its process
  have hfresh : ∀ {j c}, s.calls j = some c → c.phase.live = true →
      c.stamp ≠ ⟨pid, nanos, s.counter pid⟩ := by
    intro j c hc hlive hstamp
    have hlt := (h.ok hc).counted hlive
    rw [hstamp] at hlt
    exact Nat.lt_irrefl _ hlt
  refine ⟨h.log, h.shows, ?_, ?_⟩
  · intro j c hj
    rcases eq_some_of_update hj with ⟨-, rfl⟩ | ⟨-, hc⟩
    · exact ⟨fun _ => by simp, trivial, trivial⟩
    · obtain ⟨hcounted, hholds, hturn⟩ := h.ok hc
      refine ⟨fun hlive => Nat.lt_of_lt_of_le (hcounted hlive) ?_, hholds, hturn⟩
      by_cases hpid : c.stamp.pid = pid <;> simp [hpid]
  · intro i j a b hi hj hla hlb hstamp
    rcases eq_some_of_update hi with ⟨rfl, rfl⟩ | ⟨-, ha⟩ <;>
      rcases eq_some_of_update hj with ⟨rfl, rfl⟩ | ⟨-, hb⟩
    · rfl
    · exact absurd hstamp.symm (hfresh hb hlb)
    · exact absurd hstamp (hfresh ha hla)
    · exact h.apart ha hb hla hlb hstamp

theorem Sim.advance (h : Sim finalPath s r) (hk : s.calls k = some c)
    (ha : Advance finalPath (tempPathFor finalPath c.stamp) c.payload s.published.length s.disk
      c.phase d phase new) :
    ∃ r', Moves c.payload r r' ∧ Sim finalPath (s.after k c d phase new) r' := by
  obtain ⟨r', hmoves, hlog, hshows, hholds, hturn⟩ := ha.shows (tempPathFor_ne finalPath c.stamp)
    h.shows (h.ok hk).holds (h.ok hk).turn (congrArg List.length h.log)
  refine ⟨r', hmoves, hlog.trans (congrArg (· ++ new) h.log), hshows, ?_, ?_⟩
  · intro j b hj
    rcases eq_some_of_update hj with ⟨-, rfl⟩ | ⟨hj, hb⟩
    · exact ⟨fun _ => (h.ok hk).counted ha.live, hholds, hturn⟩
    refine ⟨(h.ok hb).counted, ?_, (h.ok hb).turn.moves hmoves⟩
    -- the other call has a temporary path of its own, or no file
    cases hlive : b.phase.live with
    | false => exact .of_not_live hlive
    | true =>
      have hne : b.stamp ≠ c.stamp := fun hstamp => hj (h.apart hb hk hlive ha.live hstamp)
      exact (h.ok hb).holds.frame fun i hown =>
        ha.frame (h.ok hk).holds hown ((tempPathFor_injective finalPath).ne hne)
          (tempPathFor_ne finalPath b.stamp)
  · intro i j a b hi hj hla hlb hstamp
    rcases eq_some_of_update hi with ⟨rfl, rfl⟩ | ⟨-, hia⟩ <;>
      rcases eq_some_of_update hj with ⟨rfl, rfl⟩ | ⟨-, hjb⟩
    · rfl
    · exact h.apart hk hjb ha.live hlb hstamp
    · exact h.apart hia hk hla ha.live hstamp
    · exact h.apart hia hjb hla hlb hstamp

theorem Sim.settle (h : Sim finalPath s r) :
    Sim finalPath { s with disk := s.disk.syncDir } r.settle := by
  refine ⟨h.log, h.shows.syncDir, ?_, h.apart⟩
  intro k c hk
  obtain ⟨hcounted, hholds, hturn⟩ := h.ok hk
  have hmoves : Moves [] r r.settle := .inr (.inr rfl)
  refine ⟨hcounted, ?_, hturn.moves hmoves⟩
  exact hholds.frame fun i hown => ⟨hown.syncDir (tempPathFor_ne finalPath c.stamp), rfl, id⟩

theorem Sim.kill (h : Sim finalPath s r) (pid : Nat) :
    Sim finalPath { s with
      counter := Function.update s.counter pid 0
      calls := fun k => (s.calls k).map fun c => if c.stamp.pid = pid then c.kill else c } r := by
  have hlive : ∀ {k c}, (s.calls k).map (fun c => if c.stamp.pid = pid then c.kill else c) = some c →
      c.phase.live = true → s.calls k = some c := by
    intro k c hk hlive
    obtain ⟨c, hc, rfl⟩ := Option.map_eq_some_iff.mp hk
    split at hlive
    · simp [c.live_kill] at hlive
    next hpid => rw [if_neg hpid, hc]
  refine ⟨h.log, h.shows, ?_, ?_⟩
  · intro k c hk
    obtain ⟨c, hc, rfl⟩ := Option.map_eq_some_iff.mp hk
    obtain ⟨hcounted, hholds, hturn⟩ := h.ok hc
    split
    · exact Call.ok_kill hturn fun _ => id
    next hpid =>
      refine ⟨fun hlive => ?_, hholds, hturn⟩
      show _ < Function.update s.counter pid 0 c.stamp.pid
      rw [Function.update_of_ne hpid]
      exact hcounted hlive
  · intro j k a b ha hb hla hlb
    exact h.apart (hlive ha hla) (hlive hb hlb) hla hlb

theorem Sim.crash (h : Sim finalPath s r) (hc : s.disk.Crashes d) :
    r.possible (d.read finalPath) ∧ Sim finalPath { s with
      disk := d
      counter := fun _ => 0
      calls := fun k => (s.calls k).map Call.kill } (r.crash (d.read finalPath)) := by
  obtain ⟨hpossible, hshows⟩ := h.shows.crash hc
  refine ⟨hpossible, h.log, hshows, ?_, ?_⟩
  · intro k c hk
    obtain ⟨c, hc, rfl⟩ := Option.map_eq_some_iff.mp hk
    exact Call.ok_kill (h.ok hc).turn fun _ hturn => hturn.step (.crash hpossible)
  · intro j k a b ha _ hla
    obtain ⟨c, -, rfl⟩ := Option.map_eq_some_iff.mp ha
    simp [c.live_kill] at hla

/-- **Each step of the system moves the register**: by nothing, by a whole payload, by a sync of the
directory, or by a crash. -/
theorem Step.sim (h : Sim finalPath s r) (hs : Step finalPath s s') :
    ∃ r', Relation.ReflTransGen Register.Step r r' ∧ Sim finalPath s' r' := by
  cases hs with
  | start pid nanos payload hk => exact ⟨r, .refl, h.start pid nanos payload hk⟩
  | advance hk ha =>
    obtain ⟨r', hmoves, hsim⟩ := h.advance hk ha
    exact ⟨r', hmoves.steps, hsim⟩
  | settle => exact ⟨r.settle, .single (.settle r), h.settle⟩
  | kill pid => exact ⟨r, .refl, h.kill pid⟩
  | crash hc =>
    obtain ⟨hpossible, hsim⟩ := h.crash hc
    exact ⟨_, .single (.crash hpossible), hsim⟩

theorem Reaches.sim (h : Sim finalPath s r) (hs : Reaches finalPath s s') :
    ∃ r', Relation.ReflTransGen Register.Step r r' ∧ Sim finalPath s' r' := by
  induction hs with
  | refl => exact ⟨r, .refl, h⟩
  | tail _ hstep ih =>
    obtain ⟨r₁, hr₁, hsim₁⟩ := ih
    obtain ⟨r₂, hr₂, hsim₂⟩ := hstep.sim hsim₁
    exact ⟨r₂, hr₁.trans hr₂, hsim₂⟩

end Steps

/-! ## Whole runs -/

/-- No call has begun, and what is at the final path has reached the disk. Other names, such as
temporary files left behind, may lead anywhere. -/
structure Booted (finalPath : Text) (s : System) : Prop where
  calls : ∀ k, s.calls k = none
  published : s.published = []
  kept : s.disk.kept finalPath = [s.disk.entry finalPath]
  synced : ∀ i, s.disk.entry finalPath = some i → s.disk.synced i = true

section Runs

variable {s s₁ s₂ : System}

theorem Booted.sim (h : Booted finalPath s) :
    Sim finalPath s (Register.start (s.disk.read finalPath)) := by
  refine ⟨h.published.symm, ⟨rfl, ?_, ?_⟩, ?_, ?_⟩
  · intro o ho
    rw [h.kept, List.mem_singleton] at ho
    exact ho ▸ rfl
  · intro i hi
    rw [h.kept, List.mem_singleton] at hi
    exact h.synced i hi.symm
  · intro k c hk
    exact absurd ((h.calls k).symm.trans hk) nofun
  · intro j k a b hj
    exact absurd ((h.calls j).symm.trans hj) nofun

/-- Where a call `k` is on its way from `s`. -/
def Reached (finalPath : Text) (s : System) (k : Nat) (c : Call) (d : Files)
    (done : List (List UInt8)) : Prop :=
  ∃ s', Reaches finalPath s s' ∧ s'.disk = d ∧ s'.calls k = some c ∧
    s'.published = s.published ++ done

theorem Reached.advance {done : List (List UInt8)} (h : Reached finalPath s k c d done)
    (ha : Advance finalPath (tempPathFor finalPath c.stamp) c.payload
      (s.published ++ done).length d c.phase d' phase' new) :
    Reached finalPath s k { c with phase := phase' } d' (done ++ new) := by
  obtain ⟨s', hs, rfl, hk, hpublished⟩ := h
  rw [← hpublished] at ha
  refine ⟨_, hs.tail (.advance hk ha), rfl, Function.update_self _ _ _, ?_⟩
  show s'.published ++ new = _
  rw [hpublished, List.append_assoc]

/-- A call that meets no failure returns `Ok`, whatever else is under way. -/
theorem exists_succeeded {stamp : Stamp} (hk : s.calls k = some ⟨stamp, payload, .opening⟩)
    (hfree : s.disk.entry (tempPathFor finalPath stamp) = none) :
    ∃ s', Reaches finalPath s s' ∧
      s'.calls k = some ⟨stamp, payload, .succeeded s.published.length⟩ ∧
      s'.published = s.published ++ [payload] := by
  have hopening : Reached finalPath s k ⟨stamp, payload, .opening⟩ s.disk [] :=
    ⟨s, .refl, rfl, hk, (List.append_nil _).symm⟩
  have hentry : (s.disk.create (tempPathFor finalPath stamp) []).entry
      (tempPathFor finalPath stamp) = some s.disk.next := Disk.entry_link_self
  have hwriting := (hopening.advance (.create hfree)).advance (.write payload)
  have hsynced := (hwriting.advance (.finish (Function.update_self _ _ _))).advance
    (.syncFile hentry)
  have hrenamed := (hsynced.advance (.rename hentry)).advance .syncParentDir
  obtain ⟨s', hs, -, hcall, hpublished⟩ := hrenamed
  refine ⟨s', hs, ?_, hpublished⟩
  simpa using hcall

/-- An empty directory, before any call. -/
def fresh : System where
  disk :=
    { data := fun _ => []
      synced := fun _ => false
      entry := fun _ => none
      kept := fun _ => [none]
      next := 0
      entry_kept := fun _ => List.mem_singleton.mpr rfl
      kept_lt := fun h => nomatch List.mem_singleton.mp h }
  counter := fun _ => 0
  calls := fun _ => none
  published := []

theorem booted_fresh (finalPath : Text) : Booted finalPath fresh :=
  ⟨fun _ => rfl, rfl, rfl, fun _ h => nomatch h⟩

theorem fresh_succeeded (finalPath : Text) (payload : List UInt8) :
    ∃ s, Reaches finalPath fresh s ∧ s.published = [payload] ∧
      s.calls 0 = some ⟨⟨1, 0, 0⟩, payload, .succeeded 0⟩ := by
  have hstart : Step finalPath fresh _ := .start (k := 0) 1 0 payload rfl
  obtain ⟨s, hs, hcall, hpublished⟩ := exists_succeeded (s := { fresh with
    counter := Function.update fresh.counter 1 (fresh.counter 1 + 1)
    calls := Function.update fresh.calls 0 (some ⟨⟨1, 0, fresh.counter 1⟩, payload, .opening⟩) })
    (Function.update_self _ _ _) rfl
  exact ⟨s, hs.head hstart, hpublished, hcall⟩

/-- **The final path is a register**: whatever the calls, failures, kills and crashes of a run, it
is the run of a register that whole payloads are published to, and a crash at its end can only
leave a value the register holds possible. -/
theorem register_of_reaches (h : Booted finalPath s) (hs : Reaches finalPath s s₁) :
    ∃ r, Relation.ReflTransGen Register.Step (.start (s.disk.read finalPath)) r ∧
      r.log = s₁.published ∧ r.shown = s₁.disk.read finalPath ∧
      ∀ d, s₁.disk.Crashes d → r.possible (d.read finalPath) := by
  obtain ⟨r, hr, hsim⟩ := hs.sim h.sim
  exact ⟨r, hr, hsim.log, hsim.shows.shown, fun d hd => (hsim.shows.crash hd).1⟩

theorem register_of_reaches_fresh :
    ∃ (r : Register _) (s : System), Relation.ReflTransGen Register.Step (.start none) r ∧
      r.log = [[7]] ∧
      r.shown = s.disk.read ['a'] ∧ s.calls 0 = some ⟨⟨1, 0, 0⟩, [7], .succeeded 0⟩ := by
  obtain ⟨s, hs, hpublished, hcall⟩ := fresh_succeeded ['a'] [7]
  obtain ⟨r, hr, hlog, hshown, -⟩ := register_of_reaches (booted_fresh _) hs
  exact ⟨r, s, hr, hlog.trans hpublished, hshown, hcall⟩

/-- **Readers never see a part of a file**: in every state of a run they see what was there first,
or the whole payload of a call. -/
theorem read_of_reaches (h : Booted finalPath s) (hs : Reaches finalPath s s₁) :
    s₁.disk.read finalPath = s.disk.read finalPath ∨
      ∃ b ∈ s₁.published, s₁.disk.read finalPath = some b := by
  obtain ⟨r, hr, hsim⟩ := hs.sim h.sim
  rcases (Register.bounded_of_steps hr).1 with hfirst | ⟨b, hb, hshown⟩
  · exact .inl (hsim.shows.shown.symm.trans hfirst)
  · rw [List.drop_zero, hsim.log] at hb
    exact .inr ⟨b, hb, hsim.shows.shown.symm.trans hshown⟩

theorem read_of_reaches_fresh :
    ∃ s, Reaches ['a'] fresh s ∧ s.published = [[7]] ∧ (s.disk.read ['a'] = none ∨
      ∃ b ∈ s.published, s.disk.read ['a'] = some b) := by
  obtain ⟨s, hs, hpublished, -⟩ := fresh_succeeded ['a'] [7]
  exact ⟨s, hs, hpublished, read_of_reaches (booted_fresh _) hs⟩

/-- **What a call has published is not lost**: once it has returned `Ok`, its payload has its turn
among those published, and readers see it or a later one in every state that follows. -/
theorem secured_of_succeeded (h : Booted finalPath s)
    (hs₁ : Reaches finalPath s s₁) (hk : s₁.calls k = some c)
    (hphase : c.phase = .succeeded turn) (hs₂ : Reaches finalPath s₁ s₂) :
    s₂.published[turn]? = some c.payload ∧
      ∃ b ∈ s₂.published.drop turn, s₂.disk.read finalPath = some b := by
  obtain ⟨r₁, -, hsim₁⟩ := hs₁.sim h.sim
  obtain ⟨r₂, hr₂, hsim₂⟩ := hs₂.sim hsim₁
  have hsecured : r₁.Secured turn c.payload := by
    have hturn := (hsim₁.ok hk).turn
    rwa [hphase] at hturn
  obtain ⟨⟨hlog, b, hb, hshown⟩, -⟩ := hsecured.steps hr₂
  exact ⟨hsim₂.log ▸ hlog, b, hsim₂.log ▸ hb, hsim₂.shows.shown.symm.trans hshown⟩

/-- After a crash, too. -/
theorem secured_of_succeeded_crash :
    ∃ s s', Reaches ['a'] fresh s ∧ Step ['a'] s s' ∧ s'.counter = (fun _ => 0) ∧
      s'.disk.read ['a'] = some [7] := by
  obtain ⟨s, hs, hpublished, hcall⟩ := fresh_succeeded ['a'] [7]
  have hcrash : Step ['a'] s _ := .crash s.disk.crashes_syncDir
  obtain ⟨-, b, hb, hread⟩ := secured_of_succeeded (booted_fresh _) hs hcall rfl (.single hcrash)
  refine ⟨s, _, hs, hcrash, rfl, hread.trans (congrArg some ?_)⟩
  exact List.mem_singleton.mp (hpublished ▸ hb)

end Runs

end Cove.DurableReplace
