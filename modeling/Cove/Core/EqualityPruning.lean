import Cove.Core.Dictionary
import Cove.Core.PredicateTree
import Cove.Lib.SortedList

/-!
# Equality with a file code over one zone

The verdict on `column = code` joins three kinds of evidence: the counts and the rank interval
of the zone, the domain of the column, and an exact set of its codes. A domain is trusted once
`is_safe` accepts it, and then a code without a rank counts as absent from the column.

- `ColumnDomain.parse`: the domain of a section.
- `ZoneEvidence`: what evidence gathered from the rows of a zone says of them.
- `CodeFound`: the evidence finds a code, wherever the verdict looks for it.
- `equality_sound_iff`: **the verdict is sound exactly when every code of the zone is found**.
- `present_code_refuted`: a safe domain without a rank for one of its own codes.
-/

namespace Cove

open PredicateZoneOutcome ThreeValued.Truth

/-! ## The section -/

/-- `COLUMN_DOMAIN_HEADER_LEN`. -/
def columnDomainHeaderLen : Nat := 40

structure ColumnDomainHeaderV1 where
  tableOrObjectId : Nat
  columnOrPropertyId : Nat
  logicalType : Nat
  collationId : Nat
  domainCount : Nat
  sortedFileCodesOffset : Nat
  fileCodeToRankOffset : Nat
  flags : Nat
  checksum : Nat
  deriving DecidableEq, Repr

section

/- The checksum of a byte string. -/
variable (crc32c : List UInt8 → Nat)

def ColumnDomainHeaderV1.parse (bytes : List UInt8) : Except CoveError ColumnDomainHeaderV1 :=
  if bytes.length < columnDomainHeaderLen then .error .bufferTooShort
  else
    let bytes := bytes.take columnDomainHeaderLen
    let checksum := fieldNat bytes 36 4
    if crc32c (bytes.take 36 ++ [0, 0, 0, 0]) ≠ checksum then .error .checksumMismatch
    else
      .ok {
        tableOrObjectId := fieldNat bytes 0 4
        columnOrPropertyId := fieldNat bytes 4 4
        logicalType := fieldNat bytes 8 2
        collationId := fieldNat bytes 10 2
        domainCount := fieldNat bytes 12 4
        sortedFileCodesOffset := fieldNat bytes 16 8
        fileCodeToRankOffset := fieldNat bytes 24 8
        flags := fieldNat bytes 32 4
        checksum := checksum
      }

/-- The 32-bit words of a region. -/
def readU32Words (bytes : List UInt8) (offset count : Nat) : List Nat :=
  (List.range count).map fun i => fieldNat bytes (offset + i * 4) 4

/-- `ColumnDomain::parse`. The rank map takes what is left of the section. -/
def ColumnDomain.parse (bytes : List UInt8) : Except CoveError ColumnDomain := do
  let header ← ColumnDomainHeaderV1.parse crc32c bytes
  let sfcOff := header.sortedFileCodesOffset
  let sfcBytes ← checkedMul header.domainCount 4
  let sfcEnd ← checkedAdd sfcOff sfcBytes
  if sfcEnd > bytes.length then .error .offsetRange
  else if sfcOff < columnDomainHeaderLen then .error .badDomain
  else
    let sortedFileCodes := readU32Words bytes sfcOff header.domainCount
    if !SortedList.strictWindows sortedFileCodes then .error .badDomain
    else
      let rankOff := header.fileCodeToRankOffset
      if rankOff < columnDomainHeaderLen || rankOff > bytes.length then .error .offsetRange
      else if (bytes.length - rankOff) % 4 ≠ 0 then .error .badDomain
      else
        .ok {
          tableOrObjectId := header.tableOrObjectId
          columnOrPropertyId := header.columnOrPropertyId
          sortedFileCodes := sortedFileCodes
          fileCodeToRank := readU32Words bytes rankOff ((bytes.length - rankOff) / 4)
        }

end

/-! ## Evidence -/

section

variable (zone : List (Option Nat)) (zoneStats : Option ZoneStatsEntry)
  (domain : Option ColumnDomain) (exactSet : Option ExactSetIndex)

/-- Evidence gathered from the rows of a zone: the counts of its statistics, an interval that
holds the places of its codes in the domain, a parsed domain that lists them, and an exact set
that does. Only a sorted list keeps the keys an exact set was built from. -/
structure ZoneEvidence (crc32c : List UInt8 → Nat) : Prop where
  rowCount : ∀ stats ∈ zoneStats, stats.stats.rowCount = zone.length
  nullCount : ∀ stats ∈ zoneStats, stats.stats.nullCount = zone.count none
  parsed : ∀ d ∈ domain, ∃ bytes, ColumnDomain.parse crc32c bytes = .ok d
  inDomain : ∀ d ∈ domain, ∀ c, some c ∈ zone → c ∈ d.sortedFileCodes
  interval : ∀ stats ∈ zoneStats, ∀ d ∈ domain, stats.hasDomainRange = true →
    ∀ c, some c ∈ zone → ∀ rank, d.sortedFileCodes[rank]? = some c →
      stats.minDomainRank ≤ rank ∧ rank ≤ stats.maxDomainRank
  inSet : ∀ s ∈ exactSet, s.header.keyKind = .fileCode → s.header.representation = .sortedList →
    ∀ c, some c ∈ zone → c ∈ s.keys

/-- The zone is constant at the rank of a code and holds no NULL. -/
def ConstantAt (fileCode : Nat) : Prop :=
  ∃ d ∈ usableDomain domain, ∃ stats ∈ zoneStats, d.rankOf fileCode = some stats.minDomainRank ∧
    stats.hasDomainRange = true ∧ stats.stats.flags.contains .constant = true ∧
    stats.maxDomainRank = stats.minDomainRank ∧ stats.stats.nullCount = 0

/-- The evidence finds a code: a trusted domain ranks it, and an exact set of file codes keeps
its keys unless the domain settles the zone before. -/
def CodeFound (fileCode : Nat) : Prop :=
  (∀ d ∈ usableDomain domain, (d.rankOf fileCode).isSome = true) ∧
    (ConstantAt zoneStats domain fileCode ∨
      ∀ s ∈ exactSet, s.header.keyKind = .fileCode → s.header.representation = .sortedList)

end

variable {zone : List (Option Nat)} {zoneStats : Option ZoneStatsEntry}
  {domain : Option ColumnDomain} {exactSet : Option ExactSetIndex} {crc32c : List UInt8 → Nat}
  {fileCode : Nat}

variable {stats : ZoneStatsEntry}

namespace ZoneEvidence

/-- A zone with a code is not null-only. -/
theorem not_nullOnly (h : ZoneEvidence zone zoneStats domain exactSet crc32c)
    (hmem : some fileCode ∈ zone) : zoneStats.any ZoneStatsEntry.nullOnly = false := by
  cases zoneStats with
  | none => rfl
  | some stats =>
    show stats.nullOnly = false
    refine beq_eq_false_iff_ne.mpr fun heq => ?_
    rw [h.nullCount _ rfl, h.rowCount _ rfl] at heq
    exact absurd (List.count_eq_length.mp heq _ hmem) (by simp)

/-- A zone without NULLs holds only codes. -/
theorem isSome_of_nullCount (h : ZoneEvidence zone zoneStats domain exactSet crc32c)
    (hstats : stats ∈ zoneStats) (hnull : stats.stats.nullCount = 0) :
    ∀ row ∈ zone, ∃ c, row = some c := by
  intro row hrow
  rw [h.nullCount _ hstats] at hnull
  cases row with
  | none => exact absurd hrow (List.count_eq_zero.mp hnull)
  | some c => exact ⟨c, rfl⟩

/-- The rank of a code of the zone lies in the interval. -/
theorem rank_mem_interval (h : ZoneEvidence zone zoneStats domain exactSet crc32c)
    (hstats : stats ∈ zoneStats) {d : ColumnDomain}
    (hd : d ∈ usableDomain domain) (hrange : stats.hasDomainRange = true) {rank : Nat}
    (hrank : d.rankOf fileCode = some rank) (hmem : some fileCode ∈ zone) :
    stats.minDomainRank ≤ rank ∧ rank ≤ stats.maxDomainRank := by
  obtain ⟨hdomain, hsafe⟩ := Option.mem_filter_iff.mp hd
  exact h.interval _ hstats _ hdomain hrange _ hmem _ (ColumnDomain.getElem?_of_rankOf hsafe hrank)

/-- A zone constant at the rank of a code holds that code everywhere. -/
theorem eq_of_constantAt (h : ZoneEvidence zone zoneStats domain exactSet crc32c)
    (hconstant : ConstantAt zoneStats domain fileCode) : ∀ row ∈ zone, row = some fileCode := by
  obtain ⟨d, hd, stats, hstats, hrank, hrange, -, hmax, hnull⟩ := hconstant
  obtain ⟨hdomain, hsafe⟩ := Option.mem_filter_iff.mp hd
  intro row hrow
  obtain ⟨c, rfl⟩ := h.isSome_of_nullCount hstats hnull row hrow
  obtain ⟨place, hplace⟩ := List.mem_iff_getElem?.mp (h.inDomain _ hdomain _ hrow)
  obtain ⟨hlo, hhi⟩ := h.interval _ hstats _ hdomain hrange _ hrow _ hplace
  obtain rfl : place = stats.minDomainRank := by omega
  rw [ColumnDomain.getElem?_of_rankOf hsafe hrank] at hplace
  rw [Option.some.inj hplace]

end ZoneEvidence

/-! ## The verdict of the domain -/

variable (fileCode zoneStats) in
/-- **What a domain says of a zone.** The cases are those of the source: no rank, a rank outside
the interval of the zone, a zone constant at the rank, or nothing. -/
theorem domainVerdict_cases (d : ColumnDomain) :
    (d.rankOf fileCode = none ∧
        ∃ e, domainVerdict fileCode zoneStats d = some e ∧ e.finalOutcome = noMatch) ∨
    (∃ rank, d.rankOf fileCode = some rank ∧ ∃ stats ∈ zoneStats, stats.hasDomainRange = true ∧
        (rank < stats.minDomainRank ∨ stats.maxDomainRank < rank) ∧
        ∃ e, domainVerdict fileCode zoneStats d = some e ∧ e.finalOutcome = noMatch) ∨
    ((∃ stats ∈ zoneStats, d.rankOf fileCode = some stats.minDomainRank ∧
        stats.hasDomainRange = true ∧ stats.stats.flags.contains .constant = true ∧
        stats.maxDomainRank = stats.minDomainRank ∧ stats.stats.nullCount = 0) ∧
        ∃ e, domainVerdict fileCode zoneStats d = some e ∧ e.finalOutcome = allMatch) ∨
    ((d.rankOf fileCode).isSome = true ∧
      (¬ ∃ stats ∈ zoneStats, d.rankOf fileCode = some stats.minDomainRank ∧
        stats.hasDomainRange = true ∧ stats.stats.flags.contains .constant = true ∧
        stats.maxDomainRank = stats.minDomainRank ∧ stats.stats.nullCount = 0) ∧
      domainVerdict fileCode zoneStats d = none) := by
  unfold domainVerdict
  cases hrank : d.rankOf fileCode with
  | none => exact .inl ⟨rfl, _, rfl, rfl⟩
  | some rank =>
    cases zoneStats with
    | none => exact .inr (.inr (.inr ⟨rfl, by simp, rfl⟩))
    | some stats =>
      dsimp only
      split
      · next hout =>
        simp only [Bool.and_eq_true, Bool.or_eq_true, decide_eq_true_eq] at hout
        exact .inr (.inl ⟨rank, rfl, stats, rfl, hout.1, hout.2, _, rfl, rfl⟩)
      next hin =>
      split
      · next hconst =>
        simp only [Bool.and_eq_true, beq_iff_eq] at hconst
        obtain ⟨⟨⟨⟨hrange, hflag⟩, hmin⟩, hmax⟩, hnull⟩ := hconst
        refine .inr (.inr (.inl ⟨⟨stats, rfl, by rw [hmin], hrange, hflag, ?_, hnull⟩, _, rfl, rfl⟩))
        rw [hmax, hmin]
      · next hconst =>
        refine .inr (.inr (.inr ⟨rfl, ?_, rfl⟩))
        rintro ⟨_, hstats, hrank', hrange, hflag, hmax, hnull⟩
        obtain rfl := Option.mem_some_iff.mp hstats
        obtain rfl := Option.some.inj hrank'
        refine hconst ?_
        simp [hrange, hflag, hmax, hnull]

/-! ## Soundness -/

/-- The verdict once the domain has spoken. -/
theorem explain_of_domainVerdict (hnull : zoneStats.any ZoneStatsEntry.nullOnly = false)
    {e : PruningExplanation}
    (hverdict : (usableDomain domain).bind (domainVerdict fileCode zoneStats) = some e) :
    explainFileCodeEquality fileCode zoneStats domain exactSet = e := by
  unfold explainFileCodeEquality
  rw [if_neg (by simp [hnull]), hverdict]

variable (exactSet) in
/-- The verdict when the domain has nothing to say: only an exact set of file codes refutes. -/
theorem explain_of_no_domainVerdict (hnull : zoneStats.any ZoneStatsEntry.nullOnly = false)
    (hverdict : (usableDomain domain).bind (domainVerdict fileCode zoneStats) = none) :
    (explainFileCodeEquality fileCode zoneStats domain exactSet).finalOutcome ≠ allMatch ∧
      ((explainFileCodeEquality fileCode zoneStats domain exactSet).finalOutcome = noMatch ↔
        ∃ s ∈ exactSet, s.header.keyKind = .fileCode ∧ s.contains fileCode = false) := by
  unfold explainFileCodeEquality
  rw [if_neg (by simp [hnull]), hverdict]
  dsimp only
  cases hset : exactSetMembership exactSet fileCode with
  | some contains =>
    obtain ⟨s, rfl, hs⟩ := Option.bind_eq_some_iff.mp hset
    split at hs
    · cases hs
    next hkind =>
    rw [Classical.not_not] at hkind
    obtain rfl := Option.some.inj hs
    cases hcontains : s.contains fileCode with
    | true => simp [hcontains]
    | false => simp [hcontains, hkind]
  | none =>
    have hother : ¬ ∃ s ∈ exactSet, s.header.keyKind = .fileCode ∧
        s.contains fileCode = false := by
      rintro ⟨s, hs, hkind, -⟩
      obtain rfl : exactSet = some s := hs
      simp [exactSetMembership, hkind] at hset
    rw [iff_false_right hother]
    dsimp only
    split
    · simp
    · split <;> simp

/-- An exact set of file codes misses a code of the zone exactly when it has lost its keys. -/
theorem ZoneEvidence.exactSet_misses_iff
    (h : ZoneEvidence zone zoneStats domain exactSet crc32c) (hmem : some fileCode ∈ zone) :
    (∃ s ∈ exactSet, s.header.keyKind = .fileCode ∧ s.contains fileCode = false) ↔
      ¬ ∀ s ∈ exactSet, s.header.keyKind = .fileCode → s.header.representation = .sortedList := by
  constructor
  · rintro ⟨s, hs, hkind, hcontains⟩ hkept
    have hin := ExactSetIndex.contains_iff.mpr (h.inSet _ hs hkind (hkept _ hs hkind) _ hmem)
    rw [hcontains] at hin
    cases hin
  · intro hlost
    push Not at hlost
    obtain ⟨s, hs, hkind, hrep⟩ := hlost
    refine ⟨s, hs, hkind, ?_⟩
    by_contra hcontains
    have hkey := ExactSetIndex.contains_iff.mp (Bool.not_eq_false _ ▸ hcontains)
    rw [s.keys_nil hrep] at hkey
    cases hkey

theorem fileCodeEq_eq_tt {row : Option Nat} : fileCodeEq fileCode row = tt ↔ row = some fileCode := by
  cases row with
  | none => simp [fileCodeEq]
  | some c =>
    show ofBool (c == fileCode) = tt ↔ some c = some fileCode
    by_cases hc : c = fileCode
    · simp [hc, ofBool]
    · rw [beq_eq_false_iff_ne.mpr hc]
      simp [hc, ofBool]

/-- What a sound verdict is, in terms of the codes. -/
theorem sound_fileCodeEq_iff {o : PredicateZoneOutcome} :
    o.Sound zone (fileCodeEq fileCode) ↔
      (o = allMatch → ∀ row ∈ zone, row = some fileCode) ∧ (o = noMatch → some fileCode ∉ zone) := by
  unfold PredicateZoneOutcome.Sound
  simp only [fileCodeEq_eq_tt, ne_eq]
  refine and_congr_right fun _ => forall_congr' fun _ => ?_
  exact ⟨fun hrows hmem => hrows _ hmem rfl, fun hmem row hrow heq => hmem (heq ▸ hrow)⟩

/-- **Exactly when the verdict is sound**: every code of the zone that is probed is found. -/
theorem equality_sound_iff (h : ZoneEvidence zone zoneStats domain exactSet crc32c) :
    (explainFileCodeEquality fileCode zoneStats domain exactSet).finalOutcome.Sound zone
        (fileCodeEq fileCode) ↔
      (some fileCode ∈ zone → CodeFound zoneStats domain exactSet fileCode) := by
  rw [sound_fileCodeEq_iff]
  by_cases hnull : zoneStats.any ZoneStatsEntry.nullOnly = true
  · -- a null-only zone has no code to find
    have hmem : some fileCode ∉ zone := by
      intro hmem
      rw [h.not_nullOnly hmem] at hnull
      cases hnull
    have houtcome : (explainFileCodeEquality fileCode zoneStats domain exactSet).finalOutcome =
        noMatch := by
      unfold explainFileCodeEquality
      rw [if_pos hnull, singleStep_finalOutcome]
    simp [houtcome, hmem]
  rw [Bool.not_eq_true] at hnull
  unfold CodeFound
  cases hdomain : usableDomain domain with
  | none =>
    have hverdict : (usableDomain domain).bind (domainVerdict fileCode zoneStats) = none := by
      rw [hdomain, Option.bind_none]
    obtain ⟨hall, hno⟩ := explain_of_no_domainVerdict exactSet hnull hverdict
    have hconstant : ¬ ConstantAt zoneStats domain fileCode := by
      rintro ⟨d, hd, -⟩
      rw [hdomain] at hd
      cases hd
    simp only [hall, false_implies, true_and, hno, hconstant, false_or]
    constructor
    · intro hsound hmem
      refine ⟨fun d hd => (Option.not_mem_none _ hd).elim, ?_⟩
      by_contra hlost
      exact hsound ((h.exactSet_misses_iff hmem).mpr hlost) hmem
    · intro hfound hmiss hmem
      exact (h.exactSet_misses_iff hmem).mp hmiss (hfound hmem).2
  | some d =>
    have hd : d ∈ usableDomain domain := hdomain
    have hbind : (usableDomain domain).bind (domainVerdict fileCode zoneStats) =
        domainVerdict fileCode zoneStats d := by
      rw [hdomain, Option.bind_some]
    rcases domainVerdict_cases zoneStats fileCode d with
      ⟨hrank, e, hverdict, houtcome⟩ |
        ⟨rank, hrank, stats, hstats, hrange, hout, e, hverdict, houtcome⟩ |
        ⟨⟨stats, hstats, hrank, hrest⟩, e, hverdict, houtcome⟩ | ⟨hrank, hconst, hverdict⟩
    · -- no rank: refuted, whether the zone has the code or not
      rw [explain_of_domainVerdict hnull (hbind.trans hverdict), houtcome]
      constructor
      · intro hsound hmem
        exact absurd hmem (hsound.2 rfl)
      · intro hfound
        refine ⟨fun hall => PredicateZoneOutcome.noConfusion hall, fun _ hmem => ?_⟩
        have := (hfound hmem).1 d rfl
        rw [hrank] at this
        cases this
    · -- a rank outside the interval: the zone does not have the code
      rw [explain_of_domainVerdict hnull (hbind.trans hverdict), houtcome]
      have hmem : some fileCode ∉ zone := by
        intro hmem
        have := h.rank_mem_interval hstats hd hrange hrank hmem
        omega
      simp [hmem]
    · -- a constant zone: every row has the code
      have hconstant : ConstantAt zoneStats domain fileCode := ⟨d, hd, stats, hstats, hrank, hrest⟩
      rw [explain_of_domainVerdict hnull (hbind.trans hverdict), houtcome]
      refine iff_of_true ⟨fun _ => h.eq_of_constantAt hconstant, fun hno => PredicateZoneOutcome.noConfusion hno⟩ ?_
      intro _
      refine ⟨fun d' hd' => ?_, .inl hconstant⟩
      obtain rfl := Option.mem_some_iff.mp hd'
      rw [hrank]
      rfl
    · -- the exact set decides
      obtain ⟨hall, hno⟩ :=
        explain_of_no_domainVerdict exactSet hnull (hbind.trans hverdict)
      have hconstant : ¬ ConstantAt zoneStats domain fileCode := by
        rintro ⟨d', hd', hstats⟩
        obtain rfl := Option.some.inj (hdomain.symm.trans hd')
        exact hconst hstats
      have hranked : ∀ d' ∈ some d, (d'.rankOf fileCode).isSome = true := by
        intro d' hd'
        obtain rfl := Option.mem_some_iff.mp hd'
        exact hrank
      simp only [hall, false_implies, true_and, hno, hconstant, false_or]
      constructor
      · intro hsound hmem
        refine ⟨hranked, ?_⟩
        by_contra hlost
        exact hsound ((h.exactSet_misses_iff hmem).mpr hlost) hmem
      · intro hfound hmiss hmem
        exact (h.exactSet_misses_iff hmem).mp hmiss (hfound hmem).2

/-! ## Two domains -/

/-- One segment of one column. -/
def zoneEntry (stats : ZoneStats) (minDomainRank maxDomainRank : Nat) : ZoneStatsEntry where
  tableId := 1
  segmentId := 0
  morselId := 0
  columnId := 2
  stats := stats
  minDomainRank := minDomainRank
  maxDomainRank := maxDomainRank

/-- A section that lists the codes 0 and 2 and ranks them. -/
def rankedSection : List UInt8 :=
  [
    1, 0, 0, 0, 2, 0, 0, 0, 0, 0, 0, 0, 2, 0, 0, 0, 40, 0, 0, 0, 0, 0, 0, 0,
    48, 0, 0, 0, 0, 0, 0, 0, 0, 0, 0, 0, 148, 11, 50, 86, 0, 0, 0, 0, 2, 0, 0, 0,
    0, 0, 0, 0, 255, 255, 255, 255, 1, 0, 0, 0]

def rankedDomain : ColumnDomain := ⟨1, 2, [0, 2], [0, invalidRank, 1]⟩

/-- Code 2 in a zone of a code and a NULL, with its rank. -/
theorem ranked_zone_sound :
    (explainFileCodeEquality 2 (some (zoneEntry ⟨2, 1, none, none, .hasDomainRange⟩ 1 1))
      (some rankedDomain) none).finalOutcome.Sound [some 2, none] (fileCodeEq 2) := by
  have hevidence : ZoneEvidence [some 2, none]
      (some (zoneEntry ⟨2, 1, none, none, .hasDomainRange⟩ 1 1)) (some rankedDomain) none
      (fun _ => 1446120340) := by
    refine ⟨by simp [zoneEntry], by simp [zoneEntry], ?_, ?_, ?_, by simp⟩
    · intro d hd
      obtain rfl := Option.mem_some_iff.mp hd
      exact ⟨rankedSection, by decide +kernel⟩
    · intro d hd c hc
      obtain rfl := Option.mem_some_iff.mp hd
      obtain rfl : c = 2 := by simpa using hc
      decide
    · intro stats hstats d hd _ c hc rank hrank
      obtain rfl := Option.mem_some_iff.mp hd
      obtain rfl := Option.mem_some_iff.mp hstats
      obtain rfl : c = 2 := by simpa using hc
      obtain _ | _ | rank := rank
      · cases hrank
      · decide
      · cases hrank
  exact (equality_sound_iff hevidence).mpr fun _ => ⟨by decide, .inr (by simp)⟩

/-- A section that lists the code 0 and leaves its rank invalid. -/
def unrankedSection : List UInt8 :=
  [
    1, 0, 0, 0, 2, 0, 0, 0, 0, 0, 0, 0, 1, 0, 0, 0, 40, 0, 0, 0, 0, 0, 0, 0,
    44, 0, 0, 0, 0, 0, 0, 0, 0, 0, 0, 0, 74, 75, 39, 236, 0, 0, 0, 0, 255, 255, 255, 255]

def unrankedDomain : ColumnDomain := ⟨1, 2, [0], [invalidRank]⟩

/-- **A present code refuted.** The section is parsed and its domain is safe, the only row of the
zone carries the code 0, which the domain lists, and the verdict is that no row does. -/
theorem present_code_refuted :
    ColumnDomain.parse (fun _ => 3961998154) unrankedSection = .ok unrankedDomain ∧
      ZoneEvidence [some 0] (some (zoneEntry ⟨1, 0, none, none, .hasDomainRange⟩ 0 0))
        (some unrankedDomain) none (fun _ => 3961998154) ∧
      unrankedDomain.isSafe = true ∧
      (explainFileCodeEquality 0 (some (zoneEntry ⟨1, 0, none, none, .hasDomainRange⟩ 0 0))
        (some unrankedDomain) none).finalOutcome = noMatch ∧
      ¬ (explainFileCodeEquality 0 (some (zoneEntry ⟨1, 0, none, none, .hasDomainRange⟩ 0 0))
        (some unrankedDomain) none).finalOutcome.Sound [some 0] (fileCodeEq 0) := by
  have hparse : ColumnDomain.parse (fun _ => 3961998154) unrankedSection = .ok unrankedDomain := by
    decide +kernel
  refine ⟨hparse, ⟨by simp [zoneEntry], by simp [zoneEntry], ?_, ?_, ?_, by simp⟩, by decide,
    by decide, fun h => h.2 (by decide) (some 0) (List.mem_singleton_self _) rfl⟩
  · intro d hd
    obtain rfl := Option.mem_some_iff.mp hd
    exact ⟨unrankedSection, hparse⟩
  · intro d hd c hc
    obtain rfl := Option.mem_some_iff.mp hd
    obtain rfl : c = 0 := by simpa using hc
    decide
  · intro stats hstats d hd _ c hc rank hrank
    obtain rfl := Option.mem_some_iff.mp hd
    obtain rfl := Option.mem_some_iff.mp hstats
    obtain _ | rank := rank
    · decide
    · cases hrank

end Cove
