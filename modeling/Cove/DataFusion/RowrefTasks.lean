import Cove.DataFusion.TaskDecoding

/-!
# The tasks of row references

Where lookup indexes answer a plan in every file, the tasks are the morsels the indexes
list rows of, and each brings its rows along.

- `ListedRow.Valid`: a listed row is a row of its morsel.
- `rowrefTasks_spec`: **the tasks of a file are its listed morsels that are not fully
  hidden**, each with the rows listed in it.
- `rowrefOutcomes_spec`: the same for the files of a dataset.
-/

namespace Cove

open Checked

/-! ## Listed rows -/

/-- The key of a listed row says where the morsel is. -/
def RowrefMorselKey.Valid (file : ScanFile) (key : RowrefMorselKey) : Prop :=
  ∃ segment, file.state.segments[key.segmentIndex]? = some segment ∧
    segment.segmentId = key.segmentId ∧
    segment.morselRowStart key.morselId = .ok key.rowStart ∧
    segment.morselRowCountFor key.morselId = .ok key.rowCount

/-- The place of the morsel. -/
def RowrefMorselKey.place (fileOrdinal : Nat) (key : RowrefMorselKey) : MorselPlace :=
  ⟨fileOrdinal, key.segmentIndex, key.morselId⟩

/-- The rows listed in a morsel, in row order. -/
def listedAt (listed : List ListedRow) (segmentIndex morselId : Nat) : List Nat :=
  (((listed.filter fun r => r.key.segmentIndex = segmentIndex ∧ r.key.morselId = morselId).map
    ListedRow.rowInMorsel).insertionSort (· ≤ ·)).dedup

variable {key : RowrefMorselKey}

section

variable {file : ScanFile}

/-- A valid key is known by its segment and morsel. -/
theorem RowrefMorselKey.Valid.eq {key' : RowrefMorselKey} (h : key.Valid file)
    (h' : key'.Valid file) (hsegment : key.segmentIndex = key'.segmentIndex)
    (hmorsel : key.morselId = key'.morselId) : key = key' := by
  obtain ⟨segment, hseg, hid, hstart, hcount⟩ := h
  obtain ⟨segment', hseg', hid', hstart', hcount'⟩ := h'
  rw [hsegment] at hseg
  obtain rfl : segment = segment' := Option.some.inj (hseg.symm.trans hseg')
  rw [hmorsel] at hstart hcount
  have hrowStart := Except.ok.inj (hstart.symm.trans hstart')
  have hrowCount := Except.ok.inj (hcount.symm.trans hcount')
  cases key
  cases key'
  simp_all

variable {listed : List ListedRow}

theorem valid_of_listRows {rows : List RowRef}
    (h : listRows file.state rows = .ok (some listed)) : ∀ r ∈ listed, r.key.Valid file := by
  induction rows generalizing listed with
  | nil =>
    obtain rfl := Option.some.inj (Except.ok.inj h)
    nofun
  | cons row rows ih =>
    unfold listRows at h
    split at h
    · exact ih h
    split at h
    · cases h
    next segmentIndex segment hfound =>
    obtain ⟨rowCount, hcount, h⟩ := bind_eq_ok.mp h
    split at h
    · cases h
    obtain ⟨rowStart, hstart, h⟩ := bind_eq_ok.mp h
    obtain ⟨rest, hrest, h⟩ := bind_eq_ok.mp h
    cases rest with
    | none => cases h
    | some rest =>
      obtain rfl := Option.some.inj (Except.ok.inj h)
      refine List.forall_mem_cons.mpr ⟨?_, ih hrest⟩
      obtain ⟨hsegment, -⟩ := (segmentById_eq_some file.segmentIds_nodup).mp hfound
      exact ⟨segment, hsegment, rfl, hstart, hcount⟩

theorem valid_of_listKeys {index : LookupIndex} {keys : List Nat}
    (h : listKeys file.state index keys = .ok (some listed)) :
    ∀ r ∈ listed, r.key.Valid file := by
  induction keys generalizing listed with
  | nil =>
    obtain rfl := Option.some.inj (Except.ok.inj h)
    nofun
  | cons key keys ih =>
    unfold listKeys at h
    split at h
    · exact ih h
    · obtain ⟨first, hfirst, h⟩ := bind_eq_ok.mp h
      cases first with
      | none => cases h
      | some first =>
        obtain ⟨rest, hrest, h⟩ := bind_eq_ok.mp h
        cases rest with
        | none => cases h
        | some rest =>
          obtain rfl := Option.some.inj (Except.ok.inj h)
          exact List.forall_mem_append.mpr ⟨valid_of_listRows hfirst, ih hrest⟩

theorem valid_of_listedRows
    (h : listedRows file = .ok (some listed)) : ∀ r ∈ listed, r.key.Valid file := by
  unfold listedRows at h
  split at h
  · cases h
  split at h
  · cases h
  split at h
  · cases h
  split at h
  · cases h
  · exact valid_of_listKeys h

/-- The group of a listed row holds the rows of its morsel. -/
theorem filter_key_eq (hvalid : ∀ r ∈ listed, r.key.Valid file) {r : ListedRow} (hr : r ∈ listed) :
    listed.filter (fun s => s.key = r.key) =
      listed.filter fun s =>
        s.key.segmentIndex = r.key.segmentIndex ∧ s.key.morselId = r.key.morselId := by
  refine List.filter_congr fun s hs => decide_eq_decide.mpr ?_
  exact ⟨fun h => h ▸ ⟨rfl, rfl⟩, fun ⟨h, h'⟩ => (hvalid s hs).eq (hvalid r hr) h h'⟩

end

/-! ## The tasks of a file -/

/-- The morsel of a key is fully hidden. -/
def RowrefMorselKey.allHidden (file : ScanFile) (key : RowrefMorselKey) :
    Except CoveError Bool := do
  (← file.state.visibility).morselAllHidden key.rowStart key.rowCount file.state.table.rowCount

theorem allHidden_of_rowrefTask {file : ScanFile} {fileOrdinal : Nat}
    {rows : List ListedRow} {out : Option ScanTask}
    (h : rowrefTask file fileOrdinal key rows = .ok out) :
    ∃ hidden, key.allHidden file = .ok hidden ∧ (hidden = true → out = none) ∧
      (hidden = false → ∃ task, out = some task ∧ task.place = key.place fileOrdinal ∧
        task.rowSelection =
          some ((rows.map ListedRow.rowInMorsel).insertionSort (· ≤ ·)).dedup) := by
  obtain ⟨visibility, hvis, h⟩ := bind_eq_ok.mp h
  obtain ⟨hidden, hhidden, h⟩ := bind_eq_ok.mp h
  refine ⟨hidden, bind_eq_ok.mpr ⟨visibility, hvis, hhidden⟩, ?_, ?_⟩
  · rintro rfl
    exact (Except.ok.inj h).symm
  · rintro rfl
    exact ⟨_, (Except.ok.inj h).symm, rfl, rfl⟩

/-- What the row references of a file leave behind: one task for each listed morsel that is
not fully hidden, with the rows listed in it. -/
structure RowrefSchedule (file : ScanFile) (fileOrdinal : Nat) (listed : List ListedRow)
    (tasks : List ScanTask) : Prop where
  nodup : (tasks.map ScanTask.place).Nodup
  queried : ∀ r ∈ listed, ∃ hidden, r.key.allHidden file = .ok hidden
  complete : ∀ r ∈ listed, r.key.allHidden file = .ok false →
    r.key.place fileOrdinal ∈ tasks.map ScanTask.place
  sound : ∀ task ∈ tasks, ∃ r ∈ listed, r.key.allHidden file = .ok false ∧
    task.place = r.key.place fileOrdinal ∧
    task.rowSelection = some (listedAt listed r.key.segmentIndex r.key.morselId)

variable {outcomes : List (Option ScanTask)}

section

variable {file : ScanFile} {fileOrdinal : Nat} {listed : List ListedRow}

/-- The places of the tasks of some groups. -/
theorem places_of_groups {groups : List (RowrefMorselKey × List ListedRow)}
    (h : (groups.mapM fun (key, rows) => rowrefTask file fileOrdinal key rows) = .ok outcomes) :
    ((outcomes.filterMap id).map ScanTask.place).Sublist
      (groups.map fun g => g.1.place fileOrdinal) := by
  induction groups generalizing outcomes with
  | nil =>
    rw [List.mapM_nil] at h
    obtain rfl := Except.ok.inj h
    exact List.Sublist.refl _
  | cons g groups ih =>
    rw [List.mapM_cons] at h
    obtain ⟨out, hout, h⟩ := bind_eq_ok.mp h
    obtain ⟨rest, hrest, h⟩ := bind_eq_ok.mp h
    obtain rfl := Except.ok.inj h
    obtain ⟨hidden, -, hnone, hsome⟩ := allHidden_of_rowrefTask hout
    cases hidden with
    | true =>
      obtain rfl := hnone rfl
      exact (ih hrest).cons _
    | false =>
      obtain ⟨task, rfl, hplace, -⟩ := hsome rfl
      show (task.place :: _).Sublist _
      rw [List.map_cons, hplace]
      exact (ih hrest).cons_cons _

/-- The tasks of a file are its listed morsels that are not fully hidden. -/
theorem rowrefTasks_spec (hvalid : ∀ r ∈ listed, r.key.Valid file)
    (h : rowrefTasks file fileOrdinal listed = .ok outcomes) :
    RowrefSchedule file fileOrdinal listed (outcomes.filterMap id) := by
  have hgroup : ∀ r ∈ listed,
      (r.key, listed.filter fun s => s.key = r.key) ∈ Grouping.grouped ListedRow.key listed :=
    fun r hr => Grouping.mem_grouped.mpr
      ⟨rfl, List.ne_nil_of_mem (List.mem_filter.mpr ⟨hr, decide_eq_true rfl⟩)⟩
  have hlisted : ∀ g ∈ Grouping.grouped ListedRow.key listed, ∃ r ∈ listed, r.key = g.1 ∧
      g.2 = listed.filter fun s => s.key = r.key := by
    rintro ⟨key, rows⟩ hg
    obtain ⟨rfl, hne⟩ := Grouping.mem_grouped.mp hg
    obtain ⟨r, hmem⟩ := List.exists_mem_of_ne_nil _ hne
    obtain ⟨hr, hkey⟩ := List.mem_filter.mp hmem
    obtain rfl := of_decide_eq_true hkey
    exact ⟨r, hr, rfl, rfl⟩
  constructor
  case nodup =>
    refine (places_of_groups h).nodup ?_
    refine List.Nodup.map_on ?_
      ((List.pairwise_map.mp (Grouping.sorted_grouped ListedRow.key listed)).imp
        fun hlt heq => hlt.ne (congrArg Prod.fst heq))
    intro g hg g' hg' heq
    obtain ⟨r, hr, hkey, hrows⟩ := hlisted g hg
    obtain ⟨r', hr', hkey', hrows'⟩ := hlisted g' hg'
    have hkeys : r.key = r'.key := by
      rw [← hkey, ← hkey'] at heq
      simp only [RowrefMorselKey.place, MorselPlace.mk.injEq, true_and] at heq
      exact (hvalid r hr).eq (hvalid r' hr') heq.1 heq.2
    exact Prod.ext (hkey.symm.trans (hkeys.trans hkey')) (by rw [hrows, hrows', hkeys])
  case queried =>
    intro r hr
    obtain ⟨out, -, hout⟩ := exists_of_mapM_mem h (hgroup r hr)
    obtain ⟨hidden, hhidden, -⟩ := allHidden_of_rowrefTask hout
    exact ⟨hidden, hhidden⟩
  case complete =>
    intro r hr hshown
    obtain ⟨out, hmem, hout⟩ := exists_of_mapM_mem h (hgroup r hr)
    obtain ⟨hidden, hhidden, -, hsome⟩ := allHidden_of_rowrefTask hout
    obtain ⟨task, rfl, hplace, -⟩ := hsome (Except.ok.inj (hhidden.symm.trans hshown))
    exact List.mem_map.mpr ⟨task, List.mem_filterMap.mpr ⟨some task, hmem, rfl⟩, hplace⟩
  case sound =>
    intro task htask
    obtain ⟨out, hmem, hout⟩ := List.mem_filterMap.mp htask
    obtain rfl : out = some task := hout
    obtain ⟨g, hg, hout⟩ := exists_of_mem_mapM h hmem
    obtain ⟨r, hr, hkey, hrows⟩ := hlisted g hg
    obtain ⟨hidden, hhidden, hnone, hsome⟩ := allHidden_of_rowrefTask hout
    cases hidden with
    | true => cases hnone rfl
    | false =>
      obtain ⟨task', heq, hplace, hselection⟩ := hsome rfl
      obtain rfl := Option.some.inj heq
      refine ⟨r, hr, hkey ▸ hhidden, hkey ▸ hplace, ?_⟩
      rw [hselection, hrows, filter_key_eq hvalid hr]
      rfl

end

/-! ## The tasks of the dataset -/

/-- The tasks of the row references of a file, none when they do not resolve. -/
def ScanFile.rowrefTasks (file : ScanFile) (fileOrdinal : Nat) : List ScanTask :=
  (elements do
    match ← listedRows file with
    | none => .ok []
    | some listed => Cove.rowrefTasks file fileOrdinal listed).filterMap id

variable {files : List ScanFile}

theorem rowrefOutcomes_spec {fileOrdinal : Nat}
    (h : rowrefOutcomes fileOrdinal files = .ok (some outcomes)) :
    (∀ x ∈ files.zipIdx fileOrdinal, ∃ listed, listedRows x.1 = .ok (some listed) ∧
        RowrefSchedule x.1 x.2 listed (x.1.rowrefTasks x.2)) ∧
      outcomes.filterMap id =
        (files.zipIdx fileOrdinal).flatMap fun x => x.1.rowrefTasks x.2 := by
  induction files generalizing fileOrdinal outcomes with
  | nil =>
    obtain rfl := Option.some.inj (Except.ok.inj h)
    exact ⟨nofun, rfl⟩
  | cons file files ih =>
    obtain ⟨listed, hlisted, h⟩ := bind_eq_ok.mp h
    cases listed with
    | none => cases h
    | some listed =>
      obtain ⟨first, hfirst, h⟩ := bind_eq_ok.mp h
      obtain ⟨rest, hrest, h⟩ := bind_eq_ok.mp h
      cases rest with
      | none => cases h
      | some rest =>
        obtain rfl := Option.some.inj (Except.ok.inj h)
        obtain ⟨hall, htasks⟩ := ih hrest
        have hfile : file.rowrefTasks fileOrdinal = first.filterMap id := by
          unfold ScanFile.rowrefTasks
          simp only [hlisted, ok_bind, hfirst, elements_ok]
        rw [List.zipIdx_cons]
        refine ⟨List.forall_mem_cons.mpr ⟨⟨listed, hlisted, ?_⟩, hall⟩, ?_⟩
        · rw [hfile]
          exact rowrefTasks_spec (valid_of_listedRows hlisted) hfirst
        · rw [List.filterMap_append, htasks, List.flatMap_cons, hfile]

/-- Two files have no task at the same place. -/
theorem nodup_rowrefTasks (h : rowrefOutcomes 0 files = .ok (some outcomes)) :
    ((outcomes.filterMap id).map ScanTask.place).Nodup := by
  obtain ⟨hall, htasks⟩ := rowrefOutcomes_spec h
  rw [htasks, List.map_flatMap]
  refine KeyedParts.nodup_flatMap (k := Prod.snd) (q := MorselPlace.fileOrdinal)
    (List.nodup_zipIdx_map_snd _) ?_ ?_
  · intro x hx place hplace
    obtain ⟨listed, -, hschedule⟩ := hall x hx
    obtain ⟨task, htask, rfl⟩ := List.mem_map.mp hplace
    obtain ⟨r, -, -, hr, -⟩ := hschedule.sound task htask
    rw [hr]
    rfl
  · intro x hx
    obtain ⟨listed, -, hschedule⟩ := hall x hx
    exact hschedule.nodup

end Cove
