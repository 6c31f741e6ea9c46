import Cove.DataFusion.MetadataCountsRun

/-!
# When metadata counts are exact

The histograms answer when their row counts total that of every table. A histogram that is there
twice makes up for one that is missing: the total is right and the counts are not.

- `FilterCovered`, `GroupsCovered`: what an answer is exact under.
- `metadataCounts_exact_iff`: **an answer is exact if and only if the rows it is about are counted
  as often as there are such rows, or all listed**.
- `filterCovered_of_once`: histograms whose zones hold each row once are enough.
- `repeatedHistogram_counted`: the histogram of one segment, twice, in place of the other's.
-/

namespace Cove

open Checked ZoneCounts

variable {validJson : List UInt8 → Bool}

/-! ## The statements -/

namespace StoredSet

variable (dataset : StoredSet validJson) (columnIndex : Nat)

/-- A condition on an answer to a filter. Where the histograms of every file total its rows, the
rows that hold a literal and are in no zone are as many as those in several make up for. Else
every row that holds a literal is listed. -/
structure FilterCovered (literals : List (List UInt8)) : Prop where
  counted : (∀ file ∈ dataset.files, file.metadata.HistogramsTotal columnIndex) →
    dataset.timesCounted columnIndex literals = dataset.rowsHolding literals
  listed : (¬ ∀ file ∈ dataset.files, file.metadata.HistogramsTotal columnIndex) →
    ∀ file ∈ dataset.files, ∀ row ∈ file.rows, file.holds literals row = true →
      file.listed columnIndex row = true

/-- No row of the column is null. -/
def NoNull : Prop := ∀ file ∈ dataset.files, ∀ row ∈ file.rows, (file.code row).isSome

/-- The value of an entry of a lookup index. -/
def HasKey (payload : List UInt8) : Prop :=
  ∃ file ∈ dataset.files, ∃ lookup, file.metadata.lookup columnIndex = some lookup ∧
    ∃ entry ∈ lookup.entries, file.metadata.payloadOf entry.key = some payload

/-- A condition on an answer by groups. -/
structure GroupsCovered : Prop where
  counted : (∀ file ∈ dataset.files, file.metadata.GroupsTotal columnIndex) →
    (∀ payload, dataset.timesCounted columnIndex [payload] = dataset.rowsHolding [payload]) ∧
      dataset.NoNull
  listed : (¬ ∀ file ∈ dataset.files, file.metadata.GroupsTotal columnIndex) →
    ∀ payload, dataset.HasKey columnIndex payload → 0 < dataset.rowsHolding [payload]

/-- The groups are the values of the column, each once and with its rows, and there is no null. -/
structure GroupsExact (groups : List MetadataGroupCount) : Prop where
  once : (groups.map MetadataGroupCount.canonicalValue).Nodup
  counts : ∀ payload n,
    ⟨payload, n⟩ ∈ groups ↔ n = dataset.rowsHolding [payload] ∧ 0 < n
  noNull : dataset.NoNull

end StoredSet

/-! ## Filters -/

variable {plan : MetadataAggregatePlan}

variable {r : Option MetadataAggregatePlan}

section Filters

variable {dataset : StoredSet validJson} {columnIndex : Nat} {literals : List (List UInt8)}

theorem histogramFiltered_spec (htrue : dataset.Truthful columnIndex)
    (h : exactFilecodeHistogramFilteredCount dataset.state columnIndex literals = .ok r) :
    (r = none → ¬ ∀ file ∈ dataset.files, file.metadata.HistogramsTotal columnIndex) ∧
      ∀ plan, r = some plan →
        (∀ file ∈ dataset.files, file.metadata.HistogramsTotal columnIndex) ∧
        plan.counts = [dataset.timesCounted columnIndex literals] := by
  obtain ⟨total, htotal, h⟩ := bind_eq_ok.mp h
  obtain rfl := Except.ok.inj h
  obtain ⟨hnone, hsome⟩ := histogramFilteredFrom_spec htotal
  refine ⟨fun hr => ?_, fun plan hr => ?_⟩
  · obtain ⟨metadata, hin, hnot⟩ := hnone (Option.map_eq_none_iff.mp hr)
    obtain ⟨file, hfile, rfl⟩ := List.mem_map.mp hin
    exact fun hall => hnot (hall file hfile)
  · obtain ⟨t, ht, rfl⟩ := Option.map_eq_some_iff.mp hr
    obtain ⟨hall, hsum⟩ := hsome t ht
    refine ⟨fun file hfile => hall _ (List.mem_map_of_mem hfile), ?_⟩
    show [t] = _
    rw [hsum, Nat.zero_add]
    refine congrArg (fun n => [n]) ?_
    show ((dataset.files.map StoredFile.metadata).map _).sum = (dataset.files.map _).sum
    rw [List.map_map]
    refine congrArg List.sum (List.map_congr_left fun file hfile => ?_)
    exact StoredFile.sum_selectedCount (htrue file hfile) literals

/-- What the lookup indexes say of the files, file by file. -/
theorem map_zip_eq {γ : Type} {files : List (StoredFile validJson)} {lookups : List LookupIndex}
    {R : FileMetadata validJson → LookupIndex → Prop}
    (hall : List.Forall₂ R (files.map StoredFile.metadata) lookups)
    (g : FileMetadata validJson → LookupIndex → γ) {k : StoredFile validJson → γ}
    (h : ∀ file ∈ files, ∀ lookup, R file.metadata lookup → g file.metadata lookup = k file) :
    (((files.map StoredFile.metadata).zip lookups).map fun pair => g pair.1 pair.2) =
      files.map k := by
  induction files generalizing lookups with
  | nil => rfl
  | cons file files ih =>
    cases hall with
    | cons hhead hrest =>
      rw [List.map_cons, List.zip_cons_cons, List.map_cons, List.map_cons,
        ih hrest fun file' hfile' => h file' (List.mem_cons_of_mem _ hfile'),
        h file List.mem_cons_self _ hhead]

theorem lookupFiltered_spec (htrue : dataset.Truthful columnIndex)
    (h : exactFilecodeLookupFilteredCount dataset.state columnIndex literals = .ok (some plan)) :
    plan.counts = [dataset.rowsListed columnIndex literals] := by
  obtain ⟨total, htotal, h⟩ := bind_eq_ok.mp h
  obtain ⟨t, rfl, rfl⟩ := Option.map_eq_some_iff.mp (Except.ok.inj h)
  obtain ⟨lookups, hall, rfl⟩ := lookupFilteredFrom_spec htotal
  show [_] = _
  rw [Nat.zero_add]
  refine congrArg (fun n => [n]) (congrArg List.sum ?_)
  exact map_zip_eq hall (fun metadata lookup => (metadata.selectedRows lookup literals).length)
    fun file hfile lookup hlookup =>
      StoredFile.length_selectedRows (htrue file hfile) hlookup literals

/-- All rows that hold a literal are listed when as many are. -/
theorem rowsListed_eq_iff : dataset.rowsListed columnIndex literals = dataset.rowsHolding literals ↔
    ∀ file ∈ dataset.files, ∀ row ∈ file.rows, file.holds literals row = true →
      file.listed columnIndex row = true := by
  unfold StoredSet.rowsListed StoredSet.rowsHolding
  induction dataset.files with
  | nil => exact iff_of_true rfl fun file hfile => by cases hfile
  | cons file files ih =>
    have hle (file : StoredFile validJson) :
        (file.rows.countP fun row => file.holds literals row && file.listed columnIndex row) ≤
          file.rows.countP (file.holds literals) :=
      List.countP_mono_left fun row _ hrow => (Bool.and_eq_true_iff.mp hrow).1
    have hrest : (files.map fun file =>
        file.rows.countP fun row => file.holds literals row && file.listed columnIndex row).sum ≤
        (files.map fun file => file.rows.countP (file.holds literals)).sum :=
      List.sum_le_sum fun file _ => hle file
    have hfile : (file.rows.countP fun row =>
          file.holds literals row && file.listed columnIndex row) =
        file.rows.countP (file.holds literals) ↔
        ∀ row ∈ file.rows, file.holds literals row = true → file.listed columnIndex row = true := by
      constructor
      · intro heq row hrow hholds
        have hboth := (iff_of_countP_eq (fun row _ h => (Bool.and_eq_true_iff.mp h).1) heq
          hrow).mpr hholds
        exact (Bool.and_eq_true_iff.mp hboth).2
      · intro hall
        refine List.countP_congr fun row hrow => ?_
        rw [Bool.and_eq_true, and_iff_left_of_imp (hall row hrow)]
    rw [List.forall_mem_cons, ← ih, ← hfile, List.map_cons, List.map_cons, List.sum_cons,
      List.sum_cons]
    have hhead := hle file
    constructor
    · intro heq
      exact ⟨by omega, by omega⟩
    · rintro ⟨heq, heqs⟩
      rw [heq, heqs]

theorem filtered_exact_iff (htrue : dataset.Truthful columnIndex)
    (h : exactFilecodeFilteredCount dataset.state columnIndex literals = .ok (some plan)) :
    plan.counts = [dataset.rowsHolding literals] ↔
      dataset.FilterCovered columnIndex literals := by
  unfold exactFilecodeFilteredCount at h
  split at h
  · cases Except.ok.inj h
  · obtain ⟨r, hr, h⟩ := bind_eq_ok.mp h
    obtain ⟨hnone, hsome⟩ := histogramFiltered_spec htrue hr
    cases r with
    | some found =>
      obtain rfl := Option.some.inj (Except.ok.inj h)
      obtain ⟨htotal, hcounts⟩ := hsome found rfl
      rw [hcounts, List.singleton_inj]
      exact ⟨fun heq => ⟨fun _ => heq, fun hnot => absurd htotal hnot⟩,
        fun hcovered => hcovered.counted htotal⟩
    | none =>
      have hnot := hnone rfl
      rw [lookupFiltered_spec htrue h, List.singleton_inj, rowsListed_eq_iff]
      exact ⟨fun hall => ⟨fun htotal => absurd htotal hnot, fun _ => hall⟩,
        fun hcovered => hcovered.listed hnot⟩

end Filters

/-! ## Groups -/

variable {counts : GroupedCounts}

section Groups

variable {dataset : StoredSet validJson} {columnIndex : Nat} {file : StoredFile validJson}
  {payload : List UInt8}

theorem GroupedCounts.mem_groups {pairs : List (List UInt8 × Nat)}
    (h : Tallied GroupedCounts.empty.grouped counts.grouped pairs) {n : Nat} :
    ⟨payload, n⟩ ∈ counts.groups ↔ tally payload pairs = some n := by
  have hnone : GroupedCounts.empty.grouped.get? payload = none := rfl
  have hget : counts.grouped.get? payload = tally payload pairs := by
    rw [h payload, hnone, Option.merge_none_left]
  rw [← hget, OrderedMap.get?_eq_some]
  unfold GroupedCounts.groups
  rw [List.mem_map]
  constructor
  · rintro ⟨⟨value, count⟩, hin, heq⟩
    obtain ⟨rfl, rfl⟩ := MetadataGroupCount.mk.inj heq
    exact hin
  · intro hin
    exact ⟨(payload, n), hin, rfl⟩

theorem GroupedCounts.nodup_groups (counts : GroupedCounts) :
    (counts.groups.map MetadataGroupCount.canonicalValue).Nodup := by
  have hkeys : counts.groups.map MetadataGroupCount.canonicalValue = counts.grouped.keys := by
    unfold GroupedCounts.groups OrderedMap.keys
    rw [List.map_map]
    rfl
  rw [hkeys]
  exact counts.grouped.sorted_keys.imp ne_of_lt

/-- Groups are told apart by their members. -/
theorem GroupedCounts.groups_eq_iff {counts' : GroupedCounts} :
    counts.groups = counts'.groups ↔
      ∀ payload n, ⟨payload, n⟩ ∈ counts.groups ↔ ⟨payload, n⟩ ∈ counts'.groups := by
  refine ⟨fun h _ _ => by rw [h], fun h => ?_⟩
  have hmem (counts : GroupedCounts) (entry : List UInt8 × Nat) :
      entry ∈ counts.grouped.entries ↔ ⟨entry.1, entry.2⟩ ∈ counts.groups := by
    unfold GroupedCounts.groups
    rw [List.mem_map]
    constructor
    · exact fun hin => ⟨entry, hin, rfl⟩
    · rintro ⟨other, hin, heq⟩
      obtain ⟨hvalue, hcount⟩ := MetadataGroupCount.mk.inj heq
      rwa [Prod.ext hvalue hcount] at hin
  have hnodup (counts : GroupedCounts) : counts.grouped.entries.Nodup := by
    refine counts.grouped.sorted.imp ?_
    rintro a b hlt rfl
    exact lt_irrefl _ hlt
  have hentries : counts.grouped.entries = counts'.grouped.entries := by
    refine List.Perm.eq_of_pairwise (fun a b _ _ hab hba => absurd hab hba.not_gt)
      counts.grouped.sorted counts'.grouped.sorted ?_
    refine (List.perm_ext_iff_of_nodup (hnodup counts) (hnodup counts')).mpr fun entry => ?_
    rw [hmem, hmem, h]
  unfold GroupedCounts.groups
  rw [hentries]

/-! ### From histograms -/

theorem amountOf_bucketPairs (metadata : FileMetadata validJson)
    (histogram : AggregateEntry × List HistogramBucket) :
    amountOf payload (metadata.bucketPairs histogram.2) =
      metadata.selectedCount [payload] histogram := by
  unfold FileMetadata.bucketPairs FileMetadata.selectedCount
  have hselected (fileCode : Nat) : decide (fileCode ∈ metadata.selectedCodes [payload]) =
      (metadata.payloadOf fileCode == some payload) := by
    rw [Bool.eq_iff_iff, decide_eq_true_eq, beq_iff_eq, FileMetadata.mem_selectedCodes]
    simp
  simp only [hselected]
  induction histogram.2 with
  | nil => rfl
  | cons bucket buckets ih =>
    rw [List.filterMap_cons, List.filter_cons]
    cases hvalue : metadata.payloadOf bucket.key.toNat with
    | none =>
      rw [if_neg (by simp)]
      exact ih
    | some value =>
      rw [Option.map_some]
      dsimp only
      rw [amountOf_cons, ih]
      by_cases heq : value = payload
      · rw [if_pos heq, if_pos (beq_iff_eq.mpr (congrArg some heq)), List.map_cons, List.sum_cons]
      · rw [if_neg heq, if_neg (by simpa using heq), Nat.zero_add]

theorem amountOf_histogramPairs (htrue : dataset.Truthful columnIndex) :
    amountOf payload (histogramPairs columnIndex dataset.state.files) =
      dataset.timesCounted columnIndex [payload] := by
  unfold histogramPairs StoredSet.timesCounted
  rw [amountOf_flatMap]
  show ((dataset.files.map StoredFile.metadata).map _).sum = _
  rw [List.map_map]
  refine congrArg List.sum (List.map_congr_left fun file hfile => ?_)
  rw [← StoredFile.sum_selectedCount (htrue file hfile), Function.comp_apply, amountOf_flatMap]
  exact congrArg List.sum (List.map_congr_left fun histogram _ =>
    amountOf_bucketPairs file.metadata histogram)

/-- A bucket has a row, so its code decodes. -/
theorem StoredFile.Truthful.bucket_decodes (htrue : file.Truthful columnIndex)
    {histogram : AggregateEntry × List HistogramBucket}
    (h : histogram ∈ file.metadata.histograms columnIndex) {bucket : HistogramBucket}
    (hbucket : bucket ∈ histogram.2) : (file.metadata.payloadOf bucket.key.toNat).isSome := by
  have hpositive := (FileMetadata.checked_of_mem h).positive bucket hbucket
  rw [(htrue.histograms histogram h).buckets bucket hbucket, List.countP_pos_iff] at hpositive
  obtain ⟨row, hrow, hcode⟩ := hpositive
  exact htrue.decodes row hrow _ (beq_iff_eq.mp (Bool.and_eq_true_iff.mp hcode).2)

theorem histogramGroups_spec (htrue : dataset.Truthful columnIndex)
    (h : exactFilecodeHistogramGroupCounts dataset.state columnIndex = .ok r) :
    (r = none → ¬ ∀ file ∈ dataset.files, file.metadata.GroupsTotal columnIndex) ∧
      ∀ plan, r = some plan →
        (∀ file ∈ dataset.files, file.metadata.GroupsTotal columnIndex) ∧
        ∃ counts : GroupedCounts, plan.groups = counts.groups ∧
          ∀ payload n, ⟨payload, n⟩ ∈ counts.groups ↔
            n = dataset.timesCounted columnIndex [payload] ∧ 0 < n := by
  obtain ⟨found, hfound, h⟩ := bind_eq_ok.mp h
  obtain rfl := Except.ok.inj h
  obtain ⟨hnone, hsome⟩ := histogramGroupsFrom_spec hfound
  refine ⟨fun hr => ?_, fun plan hr => ?_⟩
  · obtain ⟨metadata, hin, hnot⟩ := hnone (Option.map_eq_none_iff.mp hr)
    obtain ⟨file, hfile, rfl⟩ := List.mem_map.mp hin
    rcases hnot with hnot | ⟨histogram, hhistogram, bucket, hbucket, hnot⟩
    · exact fun hall => hnot (hall file hfile)
    · have hdecodes := (htrue file hfile).bucket_decodes hhistogram hbucket
      rw [hnot] at hdecodes
      cases hdecodes
  · obtain ⟨counts, hcounts, rfl⟩ := Option.map_eq_some_iff.mp hr
    obtain ⟨hall, htallied⟩ := hsome counts hcounts
    refine ⟨fun file hfile => hall _ (List.mem_map_of_mem hfile), counts, rfl, fun payload n => ?_⟩
    have hpositive : ∀ pair ∈ histogramPairs columnIndex dataset.state.files, 0 < pair.2 := by
      intro pair hpair
      obtain ⟨metadata, -, hpair⟩ := List.mem_flatMap.mp hpair
      obtain ⟨histogram, hhistogram, hpair⟩ := List.mem_flatMap.mp hpair
      obtain ⟨bucket, hbucket, hpair⟩ := List.mem_filterMap.mp hpair
      obtain ⟨value, -, rfl⟩ := Option.map_eq_some_iff.mp hpair
      exact (FileMetadata.checked_of_mem hhistogram).positive bucket hbucket
    rw [GroupedCounts.mem_groups htallied, tally_eq_some_of_pos hpositive,
      amountOf_histogramPairs htrue]

/-! ### From lookup indexes -/

section Lookup

variable {lookup : LookupIndex}

/-- A lookup index that lists as many rows as there are lists every row. -/
theorem StoredFile.Truthful.listed (htrue : file.Truthful columnIndex)
    (hlookup : file.metadata.lookup columnIndex = some lookup)
    (htotal : LookupTotal file.metadata lookup) {row : RowRef} (hrow : row ∈ file.rows) :
    file.listed columnIndex row = true := by
  have hsub : (lookup.entries.flatMap fun entry =>
      entry.tableRows file.metadata.table.tableId).dedup ⊆ file.rows := by
    intro row hlisted
    obtain ⟨entry, hentry, hlisted⟩ := List.mem_flatMap.mp (List.mem_dedup.mp hlisted)
    obtain ⟨hin, htable⟩ := List.mem_filter.mp (List.mem_dedup.mp hlisted)
    exact (htrue.lookup lookup hlookup entry hentry row hin (of_decide_eq_true htable)).1
  have hperm := (List.subperm_of_subset (List.nodup_dedup _) hsub).perm_of_length_le
    (htrue.rowCount.trans htotal.rows.symm).le
  obtain ⟨entry, hentry, hlisted⟩ := List.mem_flatMap.mp (List.mem_dedup.mp (hperm.mem_iff.mpr hrow))
  obtain ⟨hin, htable⟩ := List.mem_filter.mp (List.mem_dedup.mp hlisted)
  exact (listed_iff hlookup).mpr ⟨entry, hentry,
    (htrue.lookup lookup hlookup entry hentry row hin (of_decide_eq_true htable)).2, hin⟩

/-- An entry of the value counts the rows it lists that hold it, another lists none. -/
theorem length_tableRows (htrue : file.Truthful columnIndex)
    (hlookup : file.metadata.lookup columnIndex = some lookup) {entry : LookupEntry}
    (hentry : entry ∈ lookup.entries) :
    (file.rows.countP fun row => decide (row ∈ entry.rows) && file.holds [payload] row) =
      if file.metadata.payloadOf entry.key = some payload then
        (entry.tableRows file.metadata.table.tableId).length
      else 0 := by
  have hvalue : ∀ row ∈ file.rows, row ∈ entry.rows →
      (file.holds [payload] row = true ↔ file.metadata.payloadOf entry.key = some payload) := by
    intro row hrow hin
    have hcode := (htrue.lookup lookup hlookup entry hentry row hin (htrue.tableId row hrow)).2
    rw [StoredFile.holds_iff]
    unfold StoredFile.value
    rw [hcode, Option.bind_some]
    simp
  split
  · next hpayload =>
    rw [List.countP_eq_length_filter]
    refine List.Perm.length_eq ((List.perm_ext_iff_of_nodup (file.rows_nodup.filter _)
      (List.nodup_dedup _)).mpr fun row => ?_)
    rw [List.mem_filter, List.mem_dedup, List.mem_filter, Bool.and_eq_true, decide_eq_true_eq,
      decide_eq_true_eq]
    constructor
    · rintro ⟨hrow, hin, -⟩
      exact ⟨hin, htrue.tableId row hrow⟩
    · rintro ⟨hin, htable⟩
      have hrow := (htrue.lookup lookup hlookup entry hentry row hin htable).1
      exact ⟨hrow, hin, (hvalue row hrow hin).mpr hpayload⟩
  · next hpayload =>
    refine List.countP_eq_zero.mpr fun row hrow hboth => ?_
    rw [Bool.and_eq_true, decide_eq_true_eq] at hboth
    exact hpayload ((hvalue row hrow hboth.1).mp hboth.2)

theorem amountOf_entryPairs (htrue : file.Truthful columnIndex)
    (hlookup : file.metadata.lookup columnIndex = some lookup)
    (htotal : LookupTotal file.metadata lookup) :
    amountOf payload (file.metadata.entryPairs lookup.entries) =
      file.rows.countP (file.holds [payload]) := by
  -- each row is listed by the one entry of its code
  have honce : ∀ row ∈ file.rows, file.holds [payload] row = true →
      timesIn (fun (entry : LookupEntry) row => decide (row ∈ entry.rows)) lookup.entries row =
        1 := by
    intro row hrow _
    obtain ⟨entry, hentry, hcode, hin⟩ := (StoredFile.listed_iff hlookup).mp
      (htrue.listed hlookup htotal hrow)
    have hkeys : (lookup.entries.map LookupEntry.key).Nodup :=
      (List.pairwise_map.mpr lookup.entries_sorted).imp ne_of_lt
    rw [← List.count_eq_one_of_mem hkeys (List.mem_map_of_mem hentry), List.count,
      List.countP_map]
    refine List.countP_congr fun other hother => ?_
    rw [decide_eq_true_eq, Function.comp_apply, beq_iff_eq]
    constructor
    · intro hlisted
      have hcode' := (htrue.lookup lookup hlookup other hother row hlisted
        (htrue.tableId row hrow)).2
      exact Option.some.inj (hcode'.symm.trans hcode)
    · intro hkey
      rwa [List.inj_on_of_nodup_map hkeys hother hentry hkey]
  rw [← sum_countP_of_once honce]
  rw [List.map_congr_left fun entry hentry => length_tableRows htrue hlookup hentry]
  unfold FileMetadata.entryPairs
  clear honce htotal hlookup
  induction lookup.entries with
  | nil => rfl
  | cons entry entries ih =>
    rw [List.filterMap_cons, List.map_cons, List.sum_cons, ← ih]
    cases hvalue : file.metadata.payloadOf entry.key with
    | none =>
      rw [if_neg (by simp), Nat.zero_add]
      rfl
    | some value =>
      rw [Option.map_some]
      dsimp only
      rw [amountOf_cons]
      by_cases heq : value = payload
      · rw [if_pos heq, if_pos (congrArg some heq)]
      · rw [if_neg heq, if_neg fun h => heq (Option.some.inj h)]

end Lookup

theorem mem_entryPairs {metadata : FileMetadata validJson} {entries : List LookupEntry} :
    payload ∈ (metadata.entryPairs entries).map Prod.fst ↔
      ∃ entry ∈ entries, metadata.payloadOf entry.key = some payload := by
  unfold FileMetadata.entryPairs
  rw [List.mem_map]
  constructor
  · rintro ⟨pair, hpair, rfl⟩
    obtain ⟨entry, hentry, hpair⟩ := List.mem_filterMap.mp hpair
    obtain ⟨value, hvalue, rfl⟩ := Option.map_eq_some_iff.mp hpair
    exact ⟨entry, hentry, hvalue⟩
  · rintro ⟨entry, hentry, hvalue⟩
    exact ⟨_, List.mem_filterMap.mpr ⟨entry, hentry, Option.map_eq_some_iff.mpr ⟨_, hvalue, rfl⟩⟩,
      rfl⟩

/-- What the lookup path answers by groups: a group for each value of an entry, with its rows. -/
theorem lookupGroups_spec (htrue : dataset.Truthful columnIndex)
    (h : exactFilecodeLookupGroupCounts dataset.state columnIndex = .ok (some plan)) :
    (∃ counts : GroupedCounts, plan.groups = counts.groups ∧ ∀ payload n,
      ⟨payload, n⟩ ∈ counts.groups ↔
        dataset.HasKey columnIndex payload ∧ n = dataset.rowsHolding [payload]) ∧
      ∀ file ∈ dataset.files, ∀ row ∈ file.rows, file.listed columnIndex row = true := by
  obtain ⟨found, hfound, h⟩ := bind_eq_ok.mp h
  obtain ⟨counts, rfl, rfl⟩ := Option.map_eq_some_iff.mp (Except.ok.inj h)
  obtain ⟨lookups, hall, htallied⟩ := lookupGroupsFrom_spec hfound
  have hfiles : ∀ file ∈ dataset.files, ∃ lookup,
      file.metadata.lookup columnIndex = some lookup ∧ LookupTotal file.metadata lookup := by
    intro file hfile
    obtain ⟨lookup, -, hlookup⟩ := exists_of_forall₂_left hall (List.mem_map_of_mem hfile)
    exact ⟨lookup, hlookup⟩
  have hamount (payload : List UInt8) : amountOf payload
      ((dataset.state.files.zip lookups).flatMap fun pair =>
        pair.1.entryPairs pair.2.entries) = dataset.rowsHolding [payload] := by
    rw [amountOf_flatMap]
    refine congrArg List.sum (map_zip_eq hall
      (fun metadata lookup => amountOf payload (metadata.entryPairs lookup.entries))
      fun file hfile lookup hlookup => ?_)
    exact amountOf_entryPairs (htrue file hfile) hlookup.1 hlookup.2
  have hkey (payload : List UInt8) : payload ∈ ((dataset.state.files.zip lookups).flatMap
      fun pair => pair.1.entryPairs pair.2.entries).map Prod.fst ↔
      dataset.HasKey columnIndex payload := by
    rw [List.map_flatMap, List.mem_flatMap]
    constructor
    · rintro ⟨⟨metadata, lookup⟩, hpair, hin⟩
      obtain ⟨hlookup, -⟩ := (List.forall₂_iff_zip.mp hall).2 hpair
      obtain ⟨file, hfile, rfl⟩ := List.mem_map.mp (List.of_mem_zip hpair).1
      exact ⟨file, hfile, lookup, hlookup, mem_entryPairs.mp hin⟩
    · rintro ⟨file, hfile, lookup, hlookup, hin⟩
      have hmem : (file.metadata, lookup) ∈ dataset.state.files.zip lookups := by
        have hzip := map_zip_eq hall (fun metadata lookup => (metadata, some lookup))
          (k := fun file => (file.metadata, file.metadata.lookup columnIndex))
          fun file _ lookup hlookup => by rw [hlookup.1]
        have hin := List.mem_map_of_mem (f := fun file : StoredFile validJson =>
          (file.metadata, file.metadata.lookup columnIndex)) hfile
        rw [← hzip, hlookup] at hin
        obtain ⟨⟨metadata, other⟩, hpair, heq⟩ := List.mem_map.mp hin
        obtain ⟨rfl, hsome⟩ := Prod.mk.inj heq
        obtain rfl := Option.some.inj hsome
        exact hpair
      exact ⟨_, hmem, mem_entryPairs.mpr hin⟩
  refine ⟨⟨counts, rfl, fun payload n => ?_⟩, fun file hfile row hrow => ?_⟩
  · rw [GroupedCounts.mem_groups htallied, tally_eq_some, hkey, hamount]
  · obtain ⟨lookup, hlookup, htotal⟩ := hfiles file hfile
    exact (htrue file hfile).listed hlookup htotal hrow

/-- A value that a listed row holds is that of an entry. -/
theorem hasKey_of_rowsHolding
    (hlisted : ∀ file ∈ dataset.files, ∀ row ∈ file.rows, file.listed columnIndex row = true)
    (h : 0 < dataset.rowsHolding [payload]) : dataset.HasKey columnIndex payload := by
  obtain ⟨count, hcount, hpositive⟩ : ∃ count ∈ dataset.files.map fun file =>
      file.rows.countP (file.holds [payload]), 0 < count := by
    by_contra hnone
    have hzero := List.sum_eq_zero fun count hin =>
      Nat.eq_zero_of_not_pos fun hpos => hnone ⟨count, hin, hpos⟩
    exact absurd h (by rw [StoredSet.rowsHolding, hzero]; exact Nat.lt_irrefl 0)
  obtain ⟨file, hfile, rfl⟩ := List.mem_map.mp hcount
  obtain ⟨row, hrow, hholds⟩ := List.countP_pos_iff.mp hpositive
  have hrowListed := hlisted file hfile row hrow
  unfold StoredFile.listed at hrowListed
  rw [Option.any_eq_true] at hrowListed
  obtain ⟨lookup, hlookup, hrowListed⟩ := hrowListed
  obtain ⟨entry, hentry, hcode⟩ := List.any_eq_true.mp hrowListed
  obtain ⟨value, hvalue, hheld⟩ := StoredFile.holds_iff.mp hholds
  obtain rfl := List.mem_singleton.mp hvalue
  unfold StoredFile.value at hheld
  rw [beq_iff_eq.mp (Bool.and_eq_true_iff.mp hcode).1, Option.bind_some] at hheld
  exact ⟨file, hfile, lookup, hlookup, entry, hentry, hheld⟩

theorem noNull_of_listed
    (hlisted : ∀ file ∈ dataset.files, ∀ row ∈ file.rows, file.listed columnIndex row = true) :
    dataset.NoNull := by
  intro file hfile row hrow
  have hrowListed := hlisted file hfile row hrow
  unfold StoredFile.listed at hrowListed
  obtain ⟨lookup, -, hrowListed⟩ := (Option.any_eq_true _ _).mp hrowListed
  obtain ⟨entry, -, hcode⟩ := List.any_eq_true.mp hrowListed
  rw [beq_iff_eq.mp (Bool.and_eq_true_iff.mp hcode).1]
  rfl

theorem groups_exact_iff (htrue : dataset.Truthful columnIndex)
    (h : exactFilecodeGroupCounts dataset.state columnIndex = .ok (some plan)) :
    dataset.GroupsExact plan.groups ↔ dataset.GroupsCovered columnIndex := by
  unfold exactFilecodeGroupCounts at h
  split at h
  · cases Except.ok.inj h
  split at h
  · cases h
  split at h
  · cases Except.ok.inj h
  obtain ⟨r, hr, h⟩ := bind_eq_ok.mp h
  obtain ⟨hnone, hsome⟩ := histogramGroups_spec htrue hr
  cases r with
  | some found =>
    obtain rfl := Option.some.inj (Except.ok.inj h)
    obtain ⟨htotal, counts, hgroups, hmem⟩ := hsome found rfl
    rw [hgroups]
    constructor
    · rintro ⟨-, hcounts, hnull⟩
      refine ⟨fun _ => ⟨fun payload => ?_, hnull⟩, fun hnot => absurd htotal hnot⟩
      have hiff (n : Nat) := (hmem payload n).symm.trans (hcounts payload n)
      rcases Nat.eq_zero_or_pos (dataset.timesCounted columnIndex [payload]) with hzero | hpos
      · rcases Nat.eq_zero_or_pos (dataset.rowsHolding [payload]) with hzero' | hpos
        · rw [hzero, hzero']
        · exact ((hiff _).mpr ⟨rfl, hpos⟩).1.symm
      · exact ((hiff _).mp ⟨rfl, hpos⟩).1
    · intro hcovered
      obtain ⟨hcounts, hnull⟩ := hcovered.counted htotal
      refine ⟨counts.nodup_groups, fun payload n => ?_, hnull⟩
      rw [hmem, hcounts]
  | none =>
    have hnot := hnone rfl
    obtain ⟨⟨counts, hgroups, hmem⟩, hlisted⟩ := lookupGroups_spec htrue h
    rw [hgroups]
    constructor
    · rintro ⟨-, hcounts, -⟩
      refine ⟨fun htotal => absurd htotal hnot, fun _ payload hkey => ?_⟩
      exact ((hcounts payload _).mp ((hmem payload _).mpr ⟨hkey, rfl⟩)).2
    · intro hcovered
      refine ⟨counts.nodup_groups, fun payload n => ?_, noNull_of_listed hlisted⟩
      rw [hmem]
      constructor
      · rintro ⟨hkey, rfl⟩
        exact ⟨rfl, hcovered.listed hnot payload hkey⟩
      · rintro ⟨rfl, hpos⟩
        exact ⟨hasKey_of_rowsHolding hlisted hpos, rfl⟩

/-- Both paths give the same groups when the histograms count each value as often as it occurs and
every entry has a row. -/
theorem groups_agree_iff (htrue : dataset.Truthful columnIndex) {plan' : MetadataAggregatePlan}
    (h : exactFilecodeHistogramGroupCounts dataset.state columnIndex = .ok (some plan))
    (h' : exactFilecodeLookupGroupCounts dataset.state columnIndex = .ok (some plan')) :
    plan.groups = plan'.groups ↔
      ∀ payload, dataset.timesCounted columnIndex [payload] = dataset.rowsHolding [payload] ∧
        (dataset.HasKey columnIndex payload → 0 < dataset.rowsHolding [payload]) := by
  obtain ⟨-, counts, hgroups, hmem⟩ := (histogramGroups_spec htrue h).2 plan rfl
  obtain ⟨⟨counts', hgroups', hmem'⟩, hlisted⟩ := lookupGroups_spec htrue h'
  rw [hgroups, hgroups', GroupedCounts.groups_eq_iff]
  refine forall_congr' fun payload => ?_
  have hkey : 0 < dataset.rowsHolding [payload] → dataset.HasKey columnIndex payload :=
    hasKey_of_rowsHolding hlisted
  simp only [hmem, hmem']
  constructor
  · intro hsame
    have hrows : dataset.HasKey columnIndex payload → 0 < dataset.rowsHolding [payload] :=
      fun hin => ((hsame _).mpr ⟨hin, rfl⟩).2
    refine ⟨?_, hrows⟩
    rcases Nat.eq_zero_or_pos (dataset.timesCounted columnIndex [payload]) with hzero | hpos
    · rcases Nat.eq_zero_or_pos (dataset.rowsHolding [payload]) with hzero' | hpos
      · rw [hzero, hzero']
      · exact ((hsame _).mpr ⟨hkey hpos, rfl⟩).1.symm
    · exact ((hsame _).mp ⟨rfl, hpos⟩).2
  · rintro ⟨hcounts, hrows⟩ n
    rw [hcounts]
    constructor
    · rintro ⟨rfl, hpos⟩
      exact ⟨hkey hpos, rfl⟩
    · rintro ⟨hin, rfl⟩
      exact ⟨rfl, hrows hin⟩

end Groups

/-! ## Exactness -/

/-- **An answer is exact if and only if it is covered.** A filter: the histograms, where they total
the rows of every file, count the rows that hold a literal as often as there are such rows, and
where they do not, the lookup indexes list all of them. Groups: the histograms do so for each value
and no row is null, or every value of a lookup index occurs. The two sources agree when the
histograms count as many rows as are listed. -/
theorem metadataCounts_exact_iff (dataset : StoredSet validJson) (columnIndex : Nat)
    (htrue : dataset.Truthful columnIndex) :
    (∀ literals plan,
      exactFilecodeFilteredCount dataset.state columnIndex literals = .ok (some plan) →
        (plan.counts = [dataset.rowsHolding literals] ↔
          dataset.FilterCovered columnIndex literals)) ∧
    (∀ plan, exactFilecodeGroupCounts dataset.state columnIndex = .ok (some plan) →
      (dataset.GroupsExact plan.groups ↔ dataset.GroupsCovered columnIndex)) ∧
    (∀ literals plan plan',
      exactFilecodeHistogramFilteredCount dataset.state columnIndex literals = .ok (some plan) →
      exactFilecodeLookupFilteredCount dataset.state columnIndex literals = .ok (some plan') →
        (plan.counts = plan'.counts ↔ dataset.timesCounted columnIndex literals =
          dataset.rowsListed columnIndex literals)) ∧
    ∀ plan plan',
      exactFilecodeHistogramGroupCounts dataset.state columnIndex = .ok (some plan) →
      exactFilecodeLookupGroupCounts dataset.state columnIndex = .ok (some plan') →
        (plan.groups = plan'.groups ↔
          ∀ payload, dataset.timesCounted columnIndex [payload] = dataset.rowsHolding [payload] ∧
            (dataset.HasKey columnIndex payload → 0 < dataset.rowsHolding [payload])) := by
  refine ⟨fun _ _ h => filtered_exact_iff htrue h, fun _ h => groups_exact_iff htrue h,
    fun literals plan plan' h h' => ?_, fun _ _ h h' => groups_agree_iff htrue h h'⟩
  obtain ⟨-, hcounts⟩ := (histogramFiltered_spec htrue h).2 plan rfl
  rw [hcounts, lookupFiltered_spec htrue h', List.singleton_inj]

/-! ## A histogram twice -/

/-- A table of one text column. -/
def lettersTable : TableEntry := ⟨1, 2, [⟨1, .utf8, .fileCode, 0, 0⟩]⟩

/-- The histogram of the first segment: one row, of the first letter. -/
def firstSegmentEntry : AggregateEntry :=
  ⟨1, 0, 4294967295, 1, .fileCodeHistogram, 0, .exact, 0, 1, 0, 0, 0, 0⟩

/-- A file that lists it twice, and not that of the second segment. Its lookup index lists both
rows. -/
def lettersMetadata : FileMetadata fun _ => false where
  table := lettersTable
  visibility := .all
  dictionary := some ⟨[⟨.utf8, .rawBytes [1, 97]⟩, ⟨.utf8, .rawBytes [1, 98]⟩]⟩
  reverseLookup := some ⟨[([1, 98], 1), ([1, 97], 0)], []⟩
  aggregates := [⟨[firstSegmentEntry, firstSegmentEntry],
    [.fileCodeHistogram [⟨0, 1⟩], .fileCodeHistogram [⟨0, 1⟩]]⟩]
  lookups := [⟨⟨1, 1, .fileCode⟩, [⟨0, [⟨1, 0, 0, 0⟩]⟩, ⟨1, [⟨1, 1, 0, 0⟩]⟩], by decide⟩]
  reverse_built := rfl
  aggregates_valid := fun synopsis h => by
    obtain rfl := List.mem_singleton.mp h
    rfl

/-- Two segments of a row each, with a letter each. -/
def lettersFile : StoredFile fun _ => false where
  metadata := lettersMetadata
  rows := [⟨1, 0, 0, 0⟩, ⟨1, 1, 0, 0⟩]
  code := fun row => some row.segmentId
  rows_nodup := by decide

def lettersSet : StoredSet fun _ => false := ⟨lettersTable, [lettersFile]⟩

theorem lettersSet_truthful : lettersSet.Truthful 0 := by
  intro file hfile
  obtain rfl := List.mem_singleton.mp hfile
  refine ⟨by decide, rfl, by decide, fun histogram h => ?_, fun lookup h => ?_⟩
  · have heq : histogram = (firstSegmentEntry, [⟨0, 1⟩]) := by
      have hmem : histogram ∈ [(firstSegmentEntry, [(⟨0, 1⟩ : HistogramBucket)]),
        (firstSegmentEntry, [⟨0, 1⟩])] := h
      simpa using hmem
    subst heq
    exact ⟨rfl, rfl, by decide⟩
  · obtain rfl := Option.some.inj h
    unfold StoredFile.LookupTrue
    decide

/-- **A histogram that is there twice makes up for a missing one**: the first letter is counted
twice, the second is not a group, and the lookup index counts right. -/
theorem repeatedHistogram_counted :
    lettersSet.Truthful 0 ∧
      exactFilecodeFilteredCount lettersSet.state 0 [[1, 97]] = .ok (some (.scalarCounts [2]
        ⟨.fileCodeHistogramCount, "exact FileCode histogram count for equality/IN filter", 0⟩)) ∧
      lettersSet.rowsHolding [[1, 97]] = 1 ∧
      exactFilecodeGroupCounts lettersSet.state 0 = .ok (some (.fileCodeGroupCounts 0
        [⟨[1, 97], 2⟩] ⟨.fileCodeHistogramGroupCount,
          "exact FileCode histogram coverage for GROUP BY count", 2⟩)) ∧
      lettersSet.rowsHolding [[1, 98]] = 1 ∧
      exactFilecodeLookupFilteredCount lettersSet.state 0 [[1, 97]] = .ok (some (.scalarCounts [1]
        ⟨.fileCodeLookupCount, "exact FileCode lookup index count for equality/IN filter", 0⟩)) :=
  ⟨lettersSet_truthful, rfl, rfl, rfl, rfl, rfl⟩

theorem lettersSet_notCovered :
    lettersSet.Truthful 0 ∧ ¬ lettersSet.FilterCovered 0 [[1, 97]] := by
  refine ⟨lettersSet_truthful, fun hcovered => ?_⟩
  have hcounts := ((metadataCounts_exact_iff lettersSet 0 lettersSet_truthful).1 [[1, 97]] _
    rfl).mpr hcovered
  exact absurd hcounts (by decide)

end Cove
