import Cove.DataFusion.CountedRows

/-!
# Runs of the metadata counts

What the loops over files, histograms, buckets and entries come to when they answer.

- `histogramFilteredFrom_spec`, `lookupFilteredFrom_spec`: the totals of a filter.
- `histogramGroupsFrom_spec`, `lookupGroupsFrom_spec`: the groups.
-/

namespace Cove

open Checked ZoneCounts

variable {validJson : List UInt8 → Bool}

/-! ## Entries -/

/-- A histogram as the entry and payload it is stored as. -/
def histogramPart (histogram : AggregateEntry × List HistogramBucket) :
    AggregateEntry × AggregatePayloadV2 validJson :=
  (histogram.1, .fileCodeHistogram histogram.2)

theorem wantedEntriesFrom_nil {wants : AggregateEntry → Bool} {index : Nat}
    {entries : List AggregateEntry} (h : ∀ entry ∈ entries, wants entry = false) :
    wantedEntriesFrom ([] : List (AggregatePayloadV2 validJson)) wants index entries = .ok [] := by
  induction entries generalizing index with
  | nil => rfl
  | cons entry entries ih =>
    obtain ⟨hentry, hrest⟩ := List.forall_mem_cons.mp h
    rw [wantedEntriesFrom, hentry, if_neg Bool.false_ne_true, ih hrest]

theorem wantedEntriesFrom_zip {wants : AggregateEntry → Bool}
    {front rest : List (AggregatePayloadV2 validJson)} {entries : List AggregateEntry}
    (h : entries.length = rest.length) :
    wantedEntriesFrom (front ++ rest) wants front.length entries =
      .ok ((entries.zip rest).filter fun part => wants part.1) := by
  induction entries generalizing front rest with
  | nil => rfl
  | cons entry entries ih =>
    cases rest with
    | nil => cases h
    | cons payload rest =>
      have hnext := @ih (front ++ [payload]) rest (Nat.succ.inj h)
      rw [List.append_assoc, List.singleton_append, List.length_append, List.length_singleton]
        at hnext
      rw [wantedEntriesFrom, hnext, List.zip_cons_cons, List.filter_cons]
      cases wants entry with
      | true =>
        rw [List.getElem?_append_right le_rfl, Nat.sub_self]
        rfl
      | false => rfl

theorem map_histogramPart {parts : List (AggregateEntry × AggregatePayloadV2 validJson)}
    (h : ∀ part ∈ parts, ∃ histogram, part = histogramPart histogram) :
    (parts.filterMap histogramOf).map histogramPart = parts := by
  induction parts with
  | nil => rfl
  | cons part parts ih =>
    obtain ⟨⟨histogram, rfl⟩, hrest⟩ := List.forall_mem_cons.mp h
    have hhead : histogramOf (histogramPart histogram : _ × AggregatePayloadV2 validJson) =
        some histogram := rfl
    rw [List.filterMap_cons, hhead, List.map_cons, ih hrest]

variable {synopsis : AggregateSynopsis validJson}
  {histograms : List (AggregateEntry × List HistogramBucket)}

namespace FileMetadata

variable {file : FileMetadata validJson}

theorem exists_histogramPart (file : FileMetadata validJson) (columnId : Nat)
    (hvalid : synopsis.validate = .ok ()) :
    ∀ part ∈ synopsis.parts.filter (fun part => file.wants columnId .fileCodeHistogram part.1),
      ∃ histogram, part = histogramPart histogram := by
  intro part hpart
  obtain ⟨hpart, hwants⟩ := List.mem_filter.mp hpart
  have hkind := (kind_of_validatePayload
    ((AggregateSynopsis.parts_of_validate hvalid).2 part hpart)).1
  unfold wants at hwants
  simp only [Bool.and_eq_true, beq_iff_eq] at hwants
  rw [hwants.1.2] at hkind
  obtain ⟨entry, payload⟩ := part
  cases payload with
  | fileCodeHistogram buckets => exact ⟨(entry, buckets), rfl⟩
  | _ => cases hkind

theorem wantedEntriesFrom_eq {columnId : Nat} (hvalid : synopsis.validate = .ok ()) :
    wantedEntriesFrom synopsis.payloads (file.wants columnId .fileCodeHistogram) 0
        synopsis.entries =
      .ok (synopsis.parts.filter fun part => file.wants columnId .fileCodeHistogram part.1) := by
  have hparts := exists_histogramPart file columnId hvalid
  unfold AggregateSynopsis.parts at hparts ⊢
  by_cases hnone : synopsis.payloads = []
  · -- entries without payloads are not histograms
    rw [if_pos hnone] at hparts ⊢
    have hunwanted : ∀ entry ∈ synopsis.entries,
        file.wants columnId .fileCodeHistogram entry = false := by
      intro entry hentry
      by_contra hwants
      obtain ⟨histogram, heq⟩ := hparts (entry, .none) (List.mem_filter.mpr
        ⟨List.mem_map_of_mem hentry, Bool.not_eq_false _ ▸ hwants⟩)
      cases congrArg Prod.snd heq
    rw [hnone, wantedEntriesFrom_nil hunwanted]
    refine congrArg Except.ok (List.filter_eq_nil_iff.mpr fun part hpart => ?_).symm
    obtain ⟨entry, hentry, rfl⟩ := List.mem_map.mp hpart
    rw [hunwanted entry hentry]
    exact Bool.false_ne_true
  · rw [if_neg hnone]
    unfold AggregateSynopsis.validate at hvalid
    rw [if_neg hnone] at hvalid
    have hlength := not_not.mp (ite_error_eq_ok.mp hvalid).1
    exact @wantedEntriesFrom_zip _ _ [] _ _ hlength

/-- The entries taken for a column are its exact histograms. -/
theorem exactPayloadEntries_eq (file : FileMetadata validJson) (columnId : Nat) :
    exactPayloadEntriesForFile file columnId .fileCodeHistogram =
      .ok ((file.histogramsOf columnId).map histogramPart) := by
  refine mapM_flatten_eq_ok.mpr ⟨fun synopsis h => ⟨_, wantedEntriesFrom_eq
    (file.aggregates_valid synopsis h)⟩, ?_⟩
  unfold histogramsOf
  rw [List.map_flatMap]
  refine List.flatMap_congr fun synopsis h => ?_
  have hvalid := file.aggregates_valid synopsis h
  rw [wantedEntriesFrom_eq hvalid, elements_ok]
  exact map_histogramPart (exists_histogramPart file columnId hvalid)

end FileMetadata

/-! ## The totals of a filter -/

variable {buckets : List HistogramBucket} {total : Nat}

theorem addSelected_spec {selectedCodes : List Nat} {t : Nat}
    (h : addSelected selectedCodes total buckets = .ok t) :
    t = total + ((buckets.filter fun bucket => decide (bucket.key.toNat ∈ selectedCodes)).map
      fun bucket => bucket.count.toNat).sum := by
  induction buckets generalizing total with
  | nil => exact (Except.ok.inj h).symm
  | cons bucket buckets ih =>
    unfold addSelected at h
    by_cases hin : bucket.key.toNat ∈ selectedCodes
    · rw [if_pos hin] at h
      obtain ⟨total', htotal, h⟩ := bind_eq_ok.mp h
      obtain ⟨-, rfl⟩ := addU64_eq_ok.mp htotal
      rw [ih h, List.filter_cons, if_pos (decide_eq_true hin), List.map_cons, List.sum_cons,
        Nat.add_assoc]
    · rw [if_neg hin] at h
      rw [ih h, List.filter_cons, if_neg (by simpa using hin)]

variable {literals : List (List UInt8)} {columnIndex : Nat} {files : List (FileMetadata validJson)}
  {counts counts' : GroupedCounts}

variable {coveredRows : Nat}

theorem addHistograms_spec {file : FileMetadata validJson} {r : Option (Nat × Nat)}
    (h : addHistograms (file.selectedCodes literals) coveredRows total
      (histograms.map (@histogramPart validJson)) = .ok r) :
    r = some (coveredRows + (histograms.map fun histogram => histogram.1.rowCount.toNat).sum,
      total + (histograms.map (file.selectedCount literals)).sum) := by
  induction histograms generalizing coveredRows total with
  | nil => exact (Except.ok.inj h).symm
  | cons histogram histograms ih =>
    obtain ⟨coveredRows', hcovered, h⟩ := bind_eq_ok.mp h
    obtain ⟨-, rfl⟩ := addU64_eq_ok.mp hcovered
    obtain ⟨total', htotal, h⟩ := bind_eq_ok.mp h
    have hselected := addSelected_spec htotal
    rw [ih h, hselected, List.map_cons, List.map_cons, List.sum_cons, List.sum_cons,
      Nat.add_assoc, Nat.add_assoc]
    rfl

/-- The histogram path of a filter gives up on a file whose histograms do not total, and else
adds up the selected buckets of all files. -/
theorem histogramFilteredFrom_spec {r : Option Nat}
    (h : histogramFilteredFrom columnIndex literals total files = .ok r) :
    (r = none → ∃ file ∈ files, ¬ file.HistogramsTotal columnIndex) ∧
      ∀ t, r = some t → (∀ file ∈ files, file.HistogramsTotal columnIndex) ∧
        t = total + (files.map fun file =>
          ((file.histograms columnIndex).map (file.selectedCount literals)).sum).sum := by
  induction files generalizing total with
  | nil =>
    obtain rfl := Except.ok.inj h
    refine ⟨fun hnone => ?_, fun t ht => ⟨fun file hfile => ?_, (Option.some.inj ht).symm⟩⟩
    · cases hnone
    · cases hfile
  | cons file files ih =>
    unfold histogramFilteredFrom at h
    cases hcolumn : file.table.columns[columnIndex]? with
    | none =>
      rw [hcolumn] at h
      cases h
    | some column =>
      have hhistograms : file.histograms columnIndex = file.histogramsOf column.columnId := by
        unfold FileMetadata.histograms
        rw [hcolumn]
        rfl
      rw [hcolumn] at h
      dsimp only at h
      rw [FileMetadata.exactPayloadEntries_eq, ok_bind, ← hhistograms] at h
      by_cases hempty : ((file.histograms columnIndex).map
          (@histogramPart validJson)).isEmpty = true
      · rw [if_pos hempty] at h
        obtain rfl := Except.ok.inj h
        have hnil : file.histograms columnIndex = [] := by
          simpa using hempty
        exact ⟨fun _ => ⟨file, List.mem_cons_self, fun htotal => htotal.1 hnil⟩,
          fun t ht => by cases ht⟩
      · rw [if_neg hempty] at h
        obtain ⟨counted, hcounted, h⟩ := bind_eq_ok.mp h
        obtain rfl := addHistograms_spec hcounted
        dsimp only at h
        rw [Nat.zero_add] at h
        have hsome : file.histograms columnIndex ≠ [] := by
          simpa using hempty
        by_cases hcovered : ((file.histograms columnIndex).map
            fun histogram => histogram.1.rowCount.toNat).sum = file.table.rowCount
        · rw [if_neg (not_not.mpr hcovered)] at h
          obtain ⟨hnone, htotal⟩ := ih h
          refine ⟨fun hr => ?_, fun t ht => ?_⟩
          · obtain ⟨file', hfile', hnot⟩ := hnone hr
            exact ⟨file', List.mem_cons_of_mem _ hfile', hnot⟩
          · obtain ⟨hall, rfl⟩ := htotal t ht
            refine ⟨List.forall_mem_cons.mpr ⟨⟨hsome, hcovered⟩, hall⟩, ?_⟩
            rw [List.map_cons, List.sum_cons, Nat.add_assoc]
        · rw [if_pos hcovered] at h
          obtain rfl := Except.ok.inj h
          exact ⟨fun _ => ⟨file, List.mem_cons_self, fun htotal => hcovered htotal.2⟩,
            fun t ht => by cases ht⟩

/-- The lookup path of a filter adds up the selected rows of all files. -/
theorem lookupFilteredFrom_spec {t : Nat}
    (h : lookupFilteredFrom columnIndex literals total files = .ok (some t)) :
    ∃ lookups, List.Forall₂ (fun file lookup => file.lookup columnIndex = some lookup) files
        lookups ∧
      t = total + ((files.zip lookups).map fun pair =>
        (pair.1.selectedRows pair.2 literals).length).sum := by
  induction files generalizing total with
  | nil => exact ⟨[], .nil, (Option.some.inj (Except.ok.inj h)).symm⟩
  | cons file files ih =>
    unfold lookupFilteredFrom at h
    cases hcolumn : file.table.columns[columnIndex]? with
    | none =>
      rw [hcolumn] at h
      cases h
    | some column =>
      rw [hcolumn] at h
      dsimp only at h
      cases hlookup : file.lookupFor column.columnId with
      | none =>
        rw [hlookup] at h
        cases Except.ok.inj h
      | some lookup =>
        rw [hlookup] at h
        dsimp only at h
        by_cases hkind : lookup.header.keyKind = .fileCode
        · rw [if_neg (not_not.mpr hkind)] at h
          obtain ⟨total', htotal, h⟩ := bind_eq_ok.mp h
          obtain ⟨-, rfl⟩ := addU64_eq_ok.mp htotal
          obtain ⟨lookups, hall, rfl⟩ := ih h
          have hhere : file.lookup columnIndex = some lookup := by
            unfold FileMetadata.lookup
            rw [hcolumn, Option.bind_some, hlookup, Option.filter_some, if_pos (beq_iff_eq.mpr hkind)]
          refine ⟨lookup :: lookups, .cons hhere hall, ?_⟩
          rw [List.zip_cons_cons, List.map_cons, List.sum_cons, Nat.add_assoc]
        · rw [if_pos hkind] at h
          cases Except.ok.inj h

/-! ## The groups -/

namespace FileMetadata

/-- The values and counts of the buckets of a histogram. -/
def bucketPairs (file : FileMetadata validJson) (buckets : List HistogramBucket) :
    List (List UInt8 × Nat) :=
  buckets.filterMap fun bucket =>
    (file.payloadOf bucket.key.toNat).map fun payload => (payload, bucket.count.toNat)

/-- The values of the entries of a lookup index, with how many rows of the table each lists. -/
def entryPairs (file : FileMetadata validJson) (entries : List LookupEntry) :
    List (List UInt8 × Nat) :=
  entries.filterMap fun entry =>
    (file.payloadOf entry.key).map fun payload =>
      (payload, (entry.tableRows file.table.tableId).length)

variable {file : FileMetadata validJson} {dictionary : FileDictionary} {fileCode : Nat}

theorem payloadOf_of_decode (hdictionary : file.dictionary = some dictionary)
    {payload : List UInt8} (h : dictionary.decodeValue fileCode = .ok (.rawBytes payload)) :
    file.payloadOf fileCode = some payload := by
  unfold payloadOf
  rw [hdictionary, Option.bind_some, Option.bind_eq_some_iff]
  exact decodeValue_eq_rawBytes.mp h

theorem payloadOf_of_redacted (hdictionary : file.dictionary = some dictionary)
    (h : dictionary.decodeValue fileCode = .ok .redactedPresent) :
    file.payloadOf fileCode = none := by
  refine Option.eq_none_iff_forall_ne_some.mpr fun payload hpayload => ?_
  unfold payloadOf at hpayload
  rw [hdictionary, Option.bind_some, Option.bind_eq_some_iff] at hpayload
  have hraw := decodeValue_eq_rawBytes.mpr hpayload
  rw [h] at hraw
  cases hraw

end FileMetadata

theorem GroupedCounts.tallied_add {canonical : List UInt8}
    {count : Nat} (h : counts.add canonical count = .ok counts') :
    Tallied counts.grouped counts'.grouped [(canonical, count)] := by
  obtain ⟨grouped, hgrouped, h⟩ := bind_eq_ok.mp h
  obtain rfl := Except.ok.inj h
  exact tallied_addTo (fun a b c hadd => (addU64_eq_ok.mp hadd).2) hgrouped

variable {r : Option GroupedCounts}

theorem groupBuckets_spec {file : FileMetadata validJson} {dictionary : FileDictionary}
    (hdictionary : file.dictionary = some dictionary)
    (h : groupBuckets dictionary counts buckets = .ok r) :
    (r = none → ∃ bucket ∈ buckets, file.payloadOf bucket.key.toNat = none) ∧
      ∀ counts', r = some counts' →
        Tallied counts.grouped counts'.grouped (file.bucketPairs buckets) := by
  induction buckets generalizing counts with
  | nil =>
    obtain rfl := Except.ok.inj h
    refine ⟨fun hnone => ?_, fun counts' hcounts => ?_⟩
    · cases hnone
    · obtain rfl := Option.some.inj hcounts
      exact .refl _
  | cons bucket buckets ih =>
    obtain ⟨-, h⟩ := ite_error_eq_ok.mp h
    obtain ⟨value, hvalue, h⟩ := bind_eq_ok.mp h
    cases value with
    | redactedPresent =>
      obtain rfl := Except.ok.inj h
      refine ⟨fun _ => ⟨bucket, List.mem_cons_self,
        FileMetadata.payloadOf_of_redacted hdictionary hvalue⟩, fun counts' hcounts => ?_⟩
      cases hcounts
    | rawBytes canonical =>
      obtain ⟨next, hnext, h⟩ := bind_eq_ok.mp h
      obtain ⟨hnone, hsome⟩ := ih h
      refine ⟨fun hr => ?_, fun counts' hcounts => ?_⟩
      · obtain ⟨bucket', hin, hpayload⟩ := hnone hr
        exact ⟨bucket', List.mem_cons_of_mem _ hin, hpayload⟩
      · have hpairs : file.bucketPairs (bucket :: buckets) =
            [(canonical, bucket.count.toNat)] ++ file.bucketPairs buckets := by
          unfold FileMetadata.bucketPairs
          rw [List.filterMap_cons, FileMetadata.payloadOf_of_decode hdictionary hvalue]
          rfl
        rw [hpairs]
        exact (GroupedCounts.tallied_add hnext).trans (hsome counts' hcounts)

theorem groupHistograms_spec {file : FileMetadata validJson} {dictionary : FileDictionary}
    (hdictionary : file.dictionary = some dictionary) {nullRows : Nat}
    {r : Option (Nat × Nat × GroupedCounts)}
    (h : groupHistograms dictionary coveredRows nullRows counts
      (histograms.map (@histogramPart validJson)) = .ok r) :
    (r = none → ∃ histogram ∈ histograms, ∃ bucket ∈ histogram.2,
        file.payloadOf bucket.key.toNat = none) ∧
      ∀ covered nulls counts', r = some (covered, nulls, counts') →
        covered = coveredRows +
          (histograms.map fun histogram => histogram.1.rowCount.toNat).sum ∧
        nulls = nullRows + (histograms.map fun histogram => histogram.1.nullCount.toNat).sum ∧
        Tallied counts.grouped counts'.grouped
          (histograms.flatMap fun histogram => file.bucketPairs histogram.2) := by
  induction histograms generalizing coveredRows nullRows counts with
  | nil =>
    obtain rfl := Except.ok.inj h
    refine ⟨fun hnone => ?_, fun covered nulls counts' hr => ?_⟩
    · cases hnone
    · obtain ⟨rfl, rfl, rfl⟩ := Option.some.inj hr
      exact ⟨rfl, rfl, .refl _⟩
  | cons histogram histograms ih =>
    obtain ⟨coveredRows', hcovered, h⟩ := bind_eq_ok.mp h
    obtain ⟨-, rfl⟩ := addU64_eq_ok.mp hcovered
    obtain ⟨nullRows', hnulls, h⟩ := bind_eq_ok.mp h
    obtain ⟨-, rfl⟩ := addU64_eq_ok.mp hnulls
    obtain ⟨grouped, hgrouped, h⟩ := bind_eq_ok.mp h
    obtain ⟨hnone, hsome⟩ := groupBuckets_spec hdictionary hgrouped
    cases grouped with
    | none =>
      obtain rfl := Except.ok.inj h
      refine ⟨fun _ => ⟨histogram, List.mem_cons_self, hnone rfl⟩, fun _ _ _ hr => ?_⟩
      cases hr
    | some next =>
      obtain ⟨hnone', hsome'⟩ := ih h
      refine ⟨fun hr => ?_, fun covered nulls counts' hr => ?_⟩
      · obtain ⟨histogram', hin, hbucket⟩ := hnone' hr
        exact ⟨histogram', List.mem_cons_of_mem _ hin, hbucket⟩
      · obtain ⟨rfl, rfl, htallied⟩ := hsome' covered nulls counts' hr
        refine ⟨?_, ?_, (hsome next rfl).trans htallied⟩
        · rw [List.map_cons, List.sum_cons, Nat.add_assoc]
        · rw [List.map_cons, List.sum_cons, Nat.add_assoc]

/-- The values and counts of all histograms of the files. -/
def histogramPairs (columnIndex : Nat) (files : List (FileMetadata validJson)) :
    List (List UInt8 × Nat) :=
  files.flatMap fun file =>
    (file.histograms columnIndex).flatMap fun histogram => file.bucketPairs histogram.2

/-- The histogram path of the groups gives up on a file whose histograms do not total, and else
adds up the buckets of all files by value. -/
theorem histogramGroupsFrom_spec (h : histogramGroupsFrom columnIndex counts files = .ok r) :
    (r = none → ∃ file ∈ files, ¬ file.GroupsTotal columnIndex ∨
        ∃ histogram ∈ file.histograms columnIndex, ∃ bucket ∈ histogram.2,
          file.payloadOf bucket.key.toNat = none) ∧
      ∀ counts', r = some counts' → (∀ file ∈ files, file.GroupsTotal columnIndex) ∧
        Tallied counts.grouped counts'.grouped (histogramPairs columnIndex files) := by
  induction files generalizing counts with
  | nil =>
    obtain rfl := Except.ok.inj h
    refine ⟨fun hnone => ?_, fun counts' hcounts => ⟨fun file hfile => ?_, ?_⟩⟩
    · cases hnone
    · cases hfile
    · obtain rfl := Option.some.inj hcounts
      exact .refl _
  | cons file files ih =>
    have hgiveUp (hnot : ¬ file.GroupsTotal columnIndex) (hr : r = none) :
        (r = none → ∃ file' ∈ file :: files, ¬ file'.GroupsTotal columnIndex ∨
          ∃ histogram ∈ file'.histograms columnIndex, ∃ bucket ∈ histogram.2,
            file'.payloadOf bucket.key.toNat = none) ∧
        ∀ counts', r = some counts' → (∀ file' ∈ file :: files, file'.GroupsTotal columnIndex) ∧
          Tallied counts.grouped counts'.grouped (histogramPairs columnIndex (file :: files)) := by
      refine ⟨fun _ => ⟨file, List.mem_cons_self, .inl hnot⟩, fun counts' hcounts => ?_⟩
      rw [hr] at hcounts
      cases hcounts
    unfold histogramGroupsFrom at h
    cases hcolumn : file.table.columns[columnIndex]? with
    | none =>
      rw [hcolumn] at h
      cases h
    | some column =>
      have hhistograms : file.histograms columnIndex = file.histogramsOf column.columnId := by
        unfold FileMetadata.histograms
        rw [hcolumn]
        rfl
      rw [hcolumn] at h
      dsimp only at h
      cases hdictionary : file.dictionary with
      | none =>
        rw [hdictionary] at h
        refine hgiveUp (fun htotal => ?_) (Except.ok.inj h).symm
        have hsome := htotal.1
        rw [hdictionary] at hsome
        cases hsome
      | some dictionary =>
        rw [hdictionary] at h
        dsimp only at h
        rw [FileMetadata.exactPayloadEntries_eq, ok_bind, ← hhistograms] at h
        by_cases hempty : ((file.histograms columnIndex).map
            (@histogramPart validJson)).isEmpty = true
        · rw [if_pos hempty] at h
          refine hgiveUp (fun htotal => htotal.2.1.1 ?_) (Except.ok.inj h).symm
          simpa using hempty
        · rw [if_neg hempty] at h
          obtain ⟨grouped, hgrouped, h⟩ := bind_eq_ok.mp h
          obtain ⟨hnone, hsome⟩ := groupHistograms_spec hdictionary hgrouped
          cases grouped with
          | none =>
            obtain rfl := Except.ok.inj h
            refine ⟨fun _ => ⟨file, List.mem_cons_self, .inr (hnone rfl)⟩, fun _ hr => ?_⟩
            cases hr
          | some next =>
            obtain ⟨covered, nulls, next⟩ := next
            obtain ⟨hcovered, hnulls, htallied⟩ := hsome covered nulls next rfl
            rw [Nat.zero_add] at hcovered hnulls
            dsimp only at h
            by_cases hcheck : covered ≠ file.table.rowCount ∨ nulls ≠ 0
            · rw [if_pos hcheck] at h
              refine hgiveUp (fun htotal => ?_) (Except.ok.inj h).symm
              rcases hcheck with hrows | hnull
              · exact hrows (hcovered.trans htotal.2.1.2)
              · exact hnull (hnulls.trans htotal.2.2)
            · rw [if_neg hcheck] at h
              obtain ⟨hrows, hnull⟩ := not_or.mp hcheck
              have htotal : file.GroupsTotal columnIndex := by
                refine ⟨hdictionary ▸ rfl, ⟨?_, hcovered.symm.trans (not_not.mp hrows)⟩,
                  hnulls.symm.trans (not_not.mp hnull)⟩
                simpa using hempty
              obtain ⟨hnone', hsome'⟩ := ih h
              refine ⟨fun hr => ?_, fun counts' hcounts => ?_⟩
              · obtain ⟨file', hin, hwhy⟩ := hnone' hr
                exact ⟨file', List.mem_cons_of_mem _ hin, hwhy⟩
              · obtain ⟨hall, hrest⟩ := hsome' counts' hcounts
                exact ⟨List.forall_mem_cons.mpr ⟨htotal, hall⟩, htallied.trans hrest⟩

theorem groupEntries_spec {file : FileMetadata validJson} {dictionary : FileDictionary}
    (hdictionary : file.dictionary = some dictionary) {covered covered' : List RowRef}
    {entries : List LookupEntry}
    (h : groupEntries dictionary file.table.tableId covered counts entries =
      .ok (some (covered', counts'))) :
    covered' = covered ++ entries.flatMap (fun entry => entry.tableRows file.table.tableId) ∧
      (∀ entry ∈ entries, (file.payloadOf entry.key).isSome) ∧
      Tallied counts.grouped counts'.grouped (file.entryPairs entries) := by
  induction entries generalizing covered counts with
  | nil =>
    obtain ⟨rfl, rfl⟩ := Option.some.inj (Except.ok.inj h)
    refine ⟨(List.append_nil _).symm, fun entry hentry => ?_, .refl _⟩
    cases hentry
  | cons entry entries ih =>
    unfold groupEntries at h
    by_cases hlarge : entry.key ≥ 2 ^ 32
    · rw [if_pos hlarge] at h
      cases Except.ok.inj h
    · rw [if_neg hlarge] at h
      obtain ⟨value, hvalue, h⟩ := bind_eq_ok.mp h
      cases value with
      | redactedPresent => cases Except.ok.inj h
      | rawBytes canonical =>
        obtain ⟨next, hnext, h⟩ := bind_eq_ok.mp h
        obtain ⟨rfl, hdecodes, htallied⟩ := ih h
        have hpayload := FileMetadata.payloadOf_of_decode hdictionary hvalue
        refine ⟨?_, List.forall_mem_cons.mpr ⟨hpayload ▸ rfl, hdecodes⟩, ?_⟩
        · rw [List.flatMap_cons, List.append_assoc]
        · have hpairs : file.entryPairs (entry :: entries) =
              [(canonical, (entry.tableRows file.table.tableId).length)] ++
                file.entryPairs entries := by
            unfold FileMetadata.entryPairs
            rw [List.filterMap_cons, hpayload]
            rfl
          rw [hpairs]
          exact (GroupedCounts.tallied_add hnext).trans htallied

/-- A lookup index that lists as many rows as the table has, under codes of the dictionary. -/
structure LookupTotal (file : FileMetadata validJson) (lookup : LookupIndex) : Prop where
  rows : (lookup.entries.flatMap fun entry =>
    entry.tableRows file.table.tableId).dedup.length = file.table.rowCount
  decodes : ∀ entry ∈ lookup.entries, (file.payloadOf entry.key).isSome

/-- The lookup path of the groups adds up the listed rows of all files by value. -/
theorem lookupGroupsFrom_spec (h : lookupGroupsFrom columnIndex counts files = .ok (some counts')) :
    ∃ lookups, List.Forall₂ (fun file lookup => file.lookup columnIndex = some lookup ∧
        LookupTotal file lookup) files lookups ∧
      Tallied counts.grouped counts'.grouped
        ((files.zip lookups).flatMap fun pair => pair.1.entryPairs pair.2.entries) := by
  induction files generalizing counts with
  | nil =>
    obtain rfl := Option.some.inj (Except.ok.inj h)
    exact ⟨[], .nil, .refl _⟩
  | cons file files ih =>
    unfold lookupGroupsFrom at h
    cases hcolumn : file.table.columns[columnIndex]? with
    | none =>
      rw [hcolumn] at h
      cases h
    | some column =>
      rw [hcolumn] at h
      dsimp only at h
      cases hlookup : file.lookupFor column.columnId with
      | none =>
        rw [hlookup] at h
        cases Except.ok.inj h
      | some lookup =>
        rw [hlookup] at h
        dsimp only at h
        by_cases hkind : lookup.header.keyKind = .fileCode
        · rw [if_neg (not_not.mpr hkind)] at h
          cases hdictionary : file.dictionary with
          | none =>
            rw [hdictionary] at h
            cases Except.ok.inj h
          | some dictionary =>
            rw [hdictionary] at h
            dsimp only at h
            obtain ⟨grouped, hgrouped, h⟩ := bind_eq_ok.mp h
            cases grouped with
            | none => cases Except.ok.inj h
            | some next =>
              obtain ⟨covered, next⟩ := next
              dsimp only at h
              obtain ⟨rfl, hdecodes, htallied⟩ := groupEntries_spec hdictionary hgrouped
              by_cases hrows : (([] : List RowRef) ++ lookup.entries.flatMap fun entry =>
                  entry.tableRows file.table.tableId).dedup.length = file.table.rowCount
              · rw [if_neg (not_not.mpr hrows)] at h
                obtain ⟨lookups, hall, hrest⟩ := ih h
                have hhere : file.lookup columnIndex = some lookup := by
                  unfold FileMetadata.lookup
                  rw [hcolumn, Option.bind_some, hlookup, Option.filter_some,
                    if_pos (beq_iff_eq.mpr hkind)]
                exact ⟨lookup :: lookups, .cons ⟨hhere, hrows, hdecodes⟩ hall,
                  htallied.trans hrest⟩
              · rw [if_pos hrows] at h
                cases Except.ok.inj h
        · rw [if_pos hkind] at h
          cases Except.ok.inj h

end Cove
