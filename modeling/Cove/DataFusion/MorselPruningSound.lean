import Cove.Core.RangePruning
import Cove.DataFusion.MorselPruning

/-!
# When morsel pruning is sound

Morsel pruning is compared with the content of the table. Every index is assumed to tell
the truth about the zone it was built from. Zone statistics, lookup, inverted and
composite entries name their zone; an exact set or a Bloom filter does not, and the
planner takes the first of the column for every morsel.

- `TableContent`, `FilterHolds`: the rows of the table and the meaning of a filter.
- `Truthful`: the evidence that names its zone is true of it.
- `PickedIndexesCover`: the exact set and the Bloom filter picked for a column speak for
  a code.
- `morselPruned_sound_iff`: **pruning a morsel is sound for every plan exactly when the
  picked indexes cover every code of the morsel**.
-/

namespace Cove

open Ieee754

/-! ## Content and filters -/

/-- The value of a column in a row. -/
inductive Cell where
  | null
  | fileCode (code : Nat)
  | num (v : LogicalValue)
  | bytes (bytes : List UInt8)
  deriving DecidableEq, Repr

/-- The rows of a table, by segment, morsel, column id and row in the morsel. -/
structure TableContent where
  rowCount : Nat → Nat → Nat
  cell : (segmentId morselId columnId row : Nat) → Cell
  code_lt : ∀ s m c r code, cell s m c r = .fileCode code → code < 2 ^ 32
  id_lt : ∀ s m, rowCount s m ≠ 0 → s < 2 ^ 32 ∧ m < 2 ^ 32 - 1

/-- A predicate accepts a value. -/
def CovePredicate.Holds (cell : Cell) : CovePredicate → Prop
  | .null _ .isNull => cell = .null
  | .null _ .isNotNull => cell ≠ .null
  | .numeric _ op literal => ∃ v, cell = .num v ∧ compareLogical v op literal = true
  | .fileCodeIn _ fileCodes _ => ∃ code ∈ fileCodes.codes, cell = .fileCode code
  | .varBytesEq _ literal => cell = .bytes literal

/-- A filter accepts a row of a morsel. -/
def FilterHolds (state : DatasetState) (content : TableContent)
    (segmentId morselId row : Nat) (filter : FilterPlan) : Prop :=
  ∀ predicate, filter.predicate = some predicate →
    ∃ column, state.table.columns[predicateColumnIndex predicate]? = some column ∧
      predicate.Holds (content.cell segmentId morselId column.columnId row)

/-! ## Truthful evidence -/

/-- A statistic of floats for a float, one of integers for an integer. -/
def NumericStatValue.fits : NumericStatValue → LogicalValue → Bool
  | .float64 _, .float _ => true
  | .float64 _, .int _ => false
  | _, .int _ => true
  | _, .float _ => false

/-- The statistics of a zone are true of the morsel and column they name. Ranks are those
of the domain of the column. -/
structure ZoneTruthful (content : TableContent) (domain : Option ColumnDomain)
    (entry : ZoneStatsEntry) : Prop where
  rows : entry.stats.rowCount = content.rowCount entry.segmentId entry.morselId
  nulls : entry.stats.nullCount =
    (List.range (content.rowCount entry.segmentId entry.morselId)).countP fun row =>
      content.cell entry.segmentId entry.morselId entry.columnId row == .null
  bounds : ∀ lo hi, entry.numericBounds = some (lo, hi) →
    ∀ row < content.rowCount entry.segmentId entry.morselId, ∀ v,
      content.cell entry.segmentId entry.morselId entry.columnId row = .num v →
        lo.fits v = true ∧ ∀ a, v.exact = some a →
          (∀ x, lo.exact = some x → x ≤ a) ∧ ∀ y, hi.exact = some y → a ≤ y
  ranks : entry.hasDomainRange = true →
    ∀ row < content.rowCount entry.segmentId entry.morselId, ∀ code,
      content.cell entry.segmentId entry.morselId entry.columnId row = .fileCode code →
        ∀ d ∈ domain, ∀ rank, d.rankOf code = some rank →
          entry.minDomainRank ≤ rank ∧ rank ≤ entry.maxDomainRank

/-- The bit of a morsel is set in the bitmap of an entry. -/
def InvertedEntry.Marks (entry : InvertedEntry) (bitmapData : List UInt8) (ordinal : Nat) :
    Prop :=
  ordinal / 8 < entry.morselBitmapLength ∧
    ∃ byte, bitmapData[entry.morselBitmapOffset + ordinal / 8]? = some byte ∧
      byte.toNat.testBit (ordinal % 8) = true

/-- The packed entry of a tuple of codes. -/
def tupleEntry (codes : List Nat) (segmentId morselId : Nat) : List UInt8 :=
  codes.flatMap (LittleEndian.toLe 8) ++ LittleEndian.toLe 4 segmentId ++
    LittleEndian.toLe 4 morselId

/-- `u32::MAX`, the morsel id of the statistics of a whole segment. -/
def wholeSegment : Nat := 2 ^ 32 - 1

/-- All evidence about the table that names its zone is true of it. -/
structure Truthful (state : DatasetState) (content : TableContent) : Prop where
  zones : ∀ entry ∈ state.pruning.zoneStats.flatten, entry.tableId = state.table.tableId →
    entry.morselId ≠ wholeSegment →
    ZoneTruthful content (state.columnDomainFor entry.columnId) entry
  domains : ∀ domain ∈ state.pruning.columnDomains,
    domain.tableOrObjectId = state.table.tableId →
    ∀ s m, ∀ r < content.rowCount s m, ∀ code,
      content.cell s m domain.columnOrPropertyId r = .fileCode code →
        (domain.rankOf code).isSome
  lookups : ∀ index ∈ state.pruning.lookups, index.header.tableId = state.table.tableId →
    index.header.keyKind = .fileCode →
    ∀ s m, ∀ r < content.rowCount s m, ∀ code,
      content.cell s m index.header.columnId r = .fileCode code →
        index.Lists code ⟨state.table.tableId, s, m, r⟩
  inverted : ∀ index ∈ state.pruning.inverted, index.header.tableId = state.table.tableId →
    index.header.keyKind = .fileCode →
    ∀ s m, ∀ r < content.rowCount s m, ∀ code,
      content.cell s m index.header.columnId r = .fileCode code →
        ∀ ordinal, globalMorselOrdinal state s m = some ordinal →
          ∃ entry ∈ index.entries, entry.key = code ∧ entry.Marks index.bitmapData ordinal
  composites : ∀ index ∈ state.pruning.composites,
    index.header.tableId = state.table.tableId → index.header.transformKind = .tuple →
    ∀ s m, ∀ r < content.rowCount s m,
    ∀ codes, (index.keyColumns.map fun c => content.cell s m c r) = codes.map .fileCode →
      tupleEntry codes s m ∈ chunksExact (index.keyColumns.length * 8 + 8) index.entries

/-- The exact set and the Bloom filter picked for a column speak for a code: the set
lists it, unless the domain decides the zone first, and the filter does not exclude it. -/
def PickedIndexesCover (state : DatasetState) (segmentId morselId columnId code : Nat) : Prop :=
  (exactSetMembership (state.exactSetFor columnId) code = some false →
    ((usableDomain (state.columnDomainFor columnId)).bind
      (domainVerdict code (state.zoneStatsFor segmentId morselId columnId))).isSome) ∧
  bloomExcludesFileCode state columnId code (state.bloomFor columnId) ≠ .ok true

/-! ## Soundness, one kind of evidence at a time -/

variable {entry : ZoneStatsEntry} {literal : PredicateLiteral} {op : NumericPredicateOp}
  {v : LogicalValue} {code : Nat} {codes : List Nat} {filters : List FilterPlan}

variable {range : NumericRange} {fileCodes : FileCodes} {codeSets : List FileCodes}

section

variable {state : DatasetState} {content : TableContent} (htruth : Truthful state content)
  {segmentId morselId columnId row : Nat} (hrow : row < content.rowCount segmentId morselId)

include htruth hrow in
/-- The statistics picked for a morsel with rows are true of it. -/
theorem zoneTruthful_of_zoneStatsFor
    (h : state.zoneStatsFor segmentId morselId columnId = some entry) :
    ZoneTruthful content (state.columnDomainFor columnId) entry ∧
      entry.segmentId = segmentId ∧ entry.morselId = morselId ∧ entry.columnId = columnId := by
  have hkey := List.find?_some h
  simp only [Bool.and_eq_true, beq_iff_eq] at hkey
  obtain ⟨⟨⟨ht, hs⟩, hm⟩, hc⟩ := hkey
  have hid := (content.id_lt segmentId morselId (by omega)).2
  refine ⟨hc ▸ htruth.zones entry (List.mem_of_find?_eq_some h) ht ?_, hs, hm, hc⟩
  rw [hm, wholeSegment]
  omega

include htruth hrow in
/-- A zone with a non-null row is not null only. -/
theorem nullOnly_eq_false (h : state.zoneStatsFor segmentId morselId columnId = some entry)
    (hcell : content.cell segmentId morselId columnId row ≠ .null) :
    entry.nullOnly = false := by
  obtain ⟨hzone, rfl, rfl, rfl⟩ := zoneTruthful_of_zoneStatsFor htruth hrow h
  rw [ZoneStatsEntry.nullOnly, hzone.nulls, hzone.rows, beq_eq_false_iff_ne]
  intro hall
  have := List.countP_eq_length.mp (hall.trans List.length_range.symm) row
    (List.mem_range.mpr hrow)
  exact hcell (beq_iff_eq.mp this)

include htruth hrow in
/-- A zone with a null row has a null count. -/
theorem nullCount_pos (h : state.zoneStatsFor segmentId morselId columnId = some entry)
    (hcell : content.cell segmentId morselId columnId row = .null) :
    entry.stats.nullCount ≠ 0 := by
  obtain ⟨hzone, rfl, rfl, rfl⟩ := zoneTruthful_of_zoneStatsFor htruth hrow h
  rw [hzone.nulls]
  exact (List.countP_pos_iff.mpr ⟨row, List.mem_range.mpr hrow, by simpa using hcell⟩).ne'

/-! ### Null tests -/

include htruth hrow in
theorem explainIsNull_sound (hcell : content.cell segmentId morselId columnId row = .null) :
    (explainIsNull (state.zoneStatsFor segmentId morselId columnId)).finalOutcome ≠ .noMatch := by
  cases h : state.zoneStatsFor segmentId morselId columnId with
  | none => simp [explainIsNull]
  | some zone =>
    have hne := nullCount_pos htruth hrow h hcell
    rw [explainIsNull, if_neg hne]
    split
    · simp
    · simp only [singleStep_finalOutcome]
      split <;> simp

include htruth hrow in
theorem explainIsNotNull_sound (hcell : content.cell segmentId morselId columnId row ≠ .null) :
    (explainIsNotNull (state.zoneStatsFor segmentId morselId columnId)).finalOutcome ≠
      .noMatch := by
  cases h : state.zoneStatsFor segmentId morselId columnId with
  | none => simp [explainIsNotNull]
  | some zone =>
    have hfalse := nullOnly_eq_false htruth hrow h hcell
    rw [ZoneStatsEntry.nullOnly, beq_eq_false_iff_ne] at hfalse
    rw [explainIsNotNull, if_neg hfalse]
    split <;> simp

/-! ### Numeric ranges -/

/-- Comparing exact values. -/
theorem compareLogical_eq_exact {s : NumericStatValue} (hs : numericStatValue literal = .ok s)
    (hfit : s.fits v = true) :
    compareLogical v op literal = compareOrdered partialCmpValues v.exact op s.exact := by
  cases literal with
  | int64 l =>
    obtain rfl := Except.ok.inj hs
    cases v with
    | int x =>
      refine compareOrdered_congr ?_ op
      simp only [LogicalValue.exact, NumericStatValue.exact, partialCmpValues, intCmp,
        NumericStatValue.compare_mul_one]
    | float x => cases hfit
  | uint64 l =>
    obtain rfl := Except.ok.inj hs
    cases v with
    | int x =>
      refine compareOrdered_congr ?_ op
      simp only [LogicalValue.exact, NumericStatValue.exact, partialCmpValues, intCmp,
        NumericStatValue.compare_mul_one]
    | float x => cases hfit
  | float64 l =>
    simp only [numericStatValue] at hs
    split at hs
    · cases hs
    · obtain rfl := Except.ok.inj hs
      cases v with
      | int x => cases hfit
      | float x => rfl

theorem fits_of_kindsMatch {x y : NumericStatValue}
    (h : x.kindsMatch y = true) : x.fits v = y.fits v := by
  cases x <;> cases y <;> cases v <;> first | rfl | cases h

/-- The relation an operator tests on exact values. -/
def NumericPredicateOp.Rel (a b : Int) : NumericPredicateOp → Prop
  | .eq => a = b
  | .lt => a < b
  | .ltEq => a ≤ b
  | .gt => b < a
  | .gtEq => b ≤ a

theorem compareOrdered_values_iff {a b : Int} :
    compareOrdered partialCmpValues (some a) op (some b) = true ↔ op.Rel a b := by
  rcases lt_trichotomy a b with h | h | h
  · have := Int.compare_eq_lt.mpr h
    cases op <;> simp [compareOrdered, partialCmpValues, NumericPredicateOp.Rel, this] <;> omega
  · subst h
    cases op <;> simp [compareOrdered, partialCmpValues, NumericPredicateOp.Rel]
  · have := Int.compare_eq_gt.mpr h
    cases op <;> simp [compareOrdered, partialCmpValues, NumericPredicateOp.Rel, this] <;> omega

/-- A range disjoint from the zone accepts none of its values. -/
theorem not_accepts_of_disjoint {lo hi : NumericStatValue}
    (hrange : numericBounds op literal = .ok range) (hfit : lo.fits v = true)
    (hbounds : ∀ a, v.exact = some a →
      (∀ x, lo.exact = some x → x ≤ a) ∧ ∀ y, hi.exact = some y → a ≤ y)
    (hkinds : lo.kindsMatch hi = true) (hdisjoint : range.disjointFrom lo hi = true) :
    ¬ compareLogical v op literal = true := by
  intro haccept
  obtain ⟨s, hs, hrange⟩ := Checked.bind_eq_ok.mp hrange
  obtain rfl := Except.ok.inj hrange
  -- whichever side refutes the zone, the literal has the kind of its bounds
  have hrel : ∀ u, s.fits v = true → s.exact = some u → ∃ a, v.exact = some a ∧ op.Rel a u := by
    intro u hsfit hu
    rw [compareLogical_eq_exact hs hsfit, hu] at haccept
    cases ha : v.exact with
    | none => rw [ha] at haccept; cases op <;> cases haccept
    | some a => exact ⟨a, rfl, compareOrdered_values_iff.mp (ha ▸ haccept)⟩
  have hbelow : ∀ inclusive, s.strictlyBelow lo inclusive = true →
      ∃ a u, op.Rel a u ∧ u ≤ a ∧ (inclusive = true → u < a) := by
    intro inclusive h
    obtain ⟨hk, u, x, hu, hx, hle, hlt⟩ := strictlyBelow_spec h
    obtain ⟨a, ha, hop⟩ := hrel u ((fits_of_kindsMatch hk).trans hfit) hu
    have := (hbounds a ha).1 x hx
    exact ⟨a, u, hop, by omega, fun hi => by have := hlt hi; omega⟩
  have habove : ∀ inclusive, s.strictlyAbove hi inclusive = true →
      ∃ a l, op.Rel a l ∧ a ≤ l ∧ (inclusive = true → a < l) := by
    intro inclusive h
    obtain ⟨hk, l, y, hl, hy, hle, hlt⟩ := strictlyAbove_spec h
    have hhi : hi.fits v = true := (fits_of_kindsMatch hkinds).symm.trans hfit
    obtain ⟨a, ha, hop⟩ := hrel l ((fits_of_kindsMatch hk).trans hhi) hl
    have := (hbounds a ha).2 y hy
    exact ⟨a, l, hop, by omega, fun hi => by have := hlt hi; omega⟩
  cases op <;> simp only [NumericRange.disjointFrom, Option.any_some, Option.any_none,
    Bool.or_false, Bool.false_or, Bool.or_eq_true] at hdisjoint
  case eq =>
    rcases hdisjoint with h | h
    · obtain ⟨a, u, hop, -, hlt⟩ := hbelow _ h
      have := hlt rfl
      simp only [NumericPredicateOp.Rel] at hop
      omega
    · obtain ⟨a, l, hop, -, hlt⟩ := habove _ h
      have := hlt rfl
      simp only [NumericPredicateOp.Rel] at hop
      omega
  case lt =>
    obtain ⟨a, u, hop, hle, -⟩ := hbelow _ hdisjoint
    exact absurd hop (not_lt.mpr hle)
  case ltEq =>
    obtain ⟨a, u, hop, -, hlt⟩ := hbelow _ hdisjoint
    exact absurd hop (not_le.mpr (hlt rfl))
  case gt =>
    obtain ⟨a, l, hop, hle, -⟩ := habove _ hdisjoint
    exact absurd hop (not_lt.mpr hle)
  case gtEq =>
    obtain ⟨a, l, hop, -, hlt⟩ := habove _ hdisjoint
    exact absurd hop (not_le.mpr (hlt rfl))

include htruth hrow in
/-- A range the zone refutes accepts no value of the morsel. -/
theorem explainNumcodeRange_sound (hrange : numericBounds op literal = .ok range)
    (hcell : content.cell segmentId morselId columnId row = .num v)
    (haccept : compareLogical v op literal = true) :
    (explainNumcodeRange range (state.zoneStatsFor segmentId morselId columnId)).finalOutcome ≠
      .noMatch := by
  cases h : state.zoneStatsFor segmentId morselId columnId with
  | none => simp [explainNumcodeRange]
  | some zone =>
    have hnull := nullOnly_eq_false htruth hrow h (by simp [hcell])
    obtain ⟨hzone, rfl, rfl, rfl⟩ := zoneTruthful_of_zoneStatsFor htruth hrow h
    rw [explainNumcodeRange, hnull]
    simp only [Bool.false_eq_true, if_false]
    split
    · simp
    split
    · simp
    split
    · simp
    split
    · simp
    next lo hi hlohi =>
    obtain ⟨hfit, hbounds⟩ := hzone.bounds lo hi hlohi row hrow v hcell
    split
    · simp
    next hkinds =>
    simp only [Bool.or_eq_true, Bool.not_eq_true', not_or, Bool.not_eq_false] at hkinds
    split
    · next hdisjoint =>
      exact absurd haccept (not_accepts_of_disjoint hrange hfit hbounds hkinds.2 hdisjoint)
    · split <;> simp

/-! ### Membership of a file code -/

include htruth hrow in
/-- A true domain never refutes a code that occurs. -/
theorem domainVerdict_sound {domain : ColumnDomain} {verdict : PruningExplanation}
    (hcell : content.cell segmentId morselId columnId row = .fileCode code)
    (hdomain : state.columnDomainFor columnId = some domain)
    (h : domainVerdict code (state.zoneStatsFor segmentId morselId columnId) domain =
      some verdict) : verdict.finalOutcome ≠ .noMatch := by
  have hkey := List.find?_some hdomain
  simp only [Bool.and_eq_true, beq_iff_eq] at hkey
  obtain ⟨⟨htable, -⟩, rfl⟩ := hkey
  obtain ⟨rank, hrank⟩ := Option.isSome_iff_exists.mp
    (htruth.domains domain (List.mem_of_find?_eq_some hdomain) htable _ _ row hrow code hcell)
  unfold domainVerdict at h
  simp only [hrank] at h
  split at h
  · cases h
  next zone hzone =>
  obtain ⟨htrue, rfl, rfl, hcolumn⟩ := zoneTruthful_of_zoneStatsFor htruth hrow hzone
  split at h
  · next hout =>
    simp only [Bool.and_eq_true, Bool.or_eq_true, decide_eq_true_eq] at hout
    have := htrue.ranks hout.1 row hrow code (hcolumn ▸ hcell) domain hdomain rank hrank
    omega
  · split at h
    · obtain rfl := Option.some.inj h
      simp
    · cases h

include htruth hrow in
/-- A code that occurs is refuted by the picked exact set alone. -/
theorem explainFileCodeEquality_noMatch
    (hcell : content.cell segmentId morselId columnId row = .fileCode code) :
    (explainFileCodeEquality code (state.zoneStatsFor segmentId morselId columnId)
      (state.columnDomainFor columnId) (state.exactSetFor columnId)).finalOutcome = .noMatch ↔
    exactSetMembership (state.exactSetFor columnId) code = some false ∧
      (usableDomain (state.columnDomainFor columnId)).bind
        (domainVerdict code (state.zoneStatsFor segmentId morselId columnId)) = none := by
  have hnull : (state.zoneStatsFor segmentId morselId columnId).any ZoneStatsEntry.nullOnly =
      false := by
    cases h : state.zoneStatsFor segmentId morselId columnId with
    | none => rfl
    | some zone => exact nullOnly_eq_false htruth hrow h (by simp [hcell])
  rw [explainFileCodeEquality, hnull]
  simp only [Bool.false_eq_true, if_false]
  split
  · next verdict hverdict =>
    obtain ⟨domain, hdomain, hverdict'⟩ := Option.bind_eq_some_iff.mp hverdict
    have hfor := (Option.filter_eq_some_iff.mp hdomain).1
    have hsound := domainVerdict_sound htruth hrow hcell hfor hverdict'
    rw [hverdict]
    simp [hsound]
  · next hnone =>
    simp only [hnone, and_true]
    split
    · next contains hcontains =>
      cases contains <;> simp [hcontains]
    · next hmember =>
      simp only [hmember, reduceCtorEq, iff_false]
      split
      · simp
      · split <;> simp

include htruth hrow in
/-- A lookup index that lists the row does not prune it. -/
theorem lookupPrunesFileCodes_sound
    (hcell : content.cell segmentId morselId columnId row = .fileCode code)
    (hmem : code ∈ fileCodes.codes) :
    lookupPrunesFileCodes state segmentId morselId columnId fileCodes = false := by
  unfold lookupPrunesFileCodes
  split
  · rfl
  next index hindex =>
  split
  · rfl
  next hkind =>
  have hkey := List.find?_some hindex
  simp only [Bool.and_eq_true, beq_iff_eq] at hkey
  obtain ⟨htable, rfl⟩ := hkey
  obtain ⟨rows, hrows, hlisted⟩ := LookupIndex.lists_iff.mp
    (htruth.lookups index (List.mem_of_find?_eq_some hindex) htable (not_not.mp hkind)
      segmentId morselId row hrow code hcell)
  refine List.all_eq_false.mpr ⟨code, hmem, ?_⟩
  simp only [hrows, List.all_eq_true, not_forall]
  exact ⟨_, hlisted, by simp⟩

theorem bitmapContains_of_marks {entry : InvertedEntry} {bitmapData : List UInt8}
    {ordinal : Nat} (h : entry.Marks bitmapData ordinal) :
    bitmapContains bitmapData entry.morselBitmapOffset entry.morselBitmapLength ordinal =
      true := by
  obtain ⟨hlt, byte, hbyte, hbit⟩ := h
  unfold bitmapContains
  split
  · rfl
  · rw [if_neg (by omega), hbyte, Option.getD_some, hbit]

include htruth hrow in
/-- An inverted index whose bitmap marks the morsel does not prune it. -/
theorem invertedPrunesFileCodes_sound
    (hcell : content.cell segmentId morselId columnId row = .fileCode code)
    (hmem : code ∈ fileCodes.codes) :
    invertedPrunesFileCodes state segmentId morselId columnId fileCodes = false := by
  unfold invertedPrunesFileCodes
  split
  · rfl
  next index hindex =>
  split
  · rfl
  next hkind =>
  split
  · rfl
  next ordinal hordinal =>
  have hkey := List.find?_some hindex
  simp only [Bool.and_eq_true, beq_iff_eq] at hkey
  obtain ⟨htable, rfl⟩ := hkey
  obtain ⟨entry, hentry, rfl, hmarks⟩ := htruth.inverted index
    (List.mem_of_find?_eq_some hindex) htable (not_not.mp hkind)
    segmentId morselId row hrow code hcell ordinal hordinal
  obtain ⟨i, hi, hat⟩ := BinarySearch.binarySearchByKey_of_mem index.entries_sorted hentry
  refine List.all_eq_false.mpr ⟨entry.key, hmem, ?_⟩
  simp [hi, hat, bitmapContains_of_marks hmarks]

/-! ### Composite tuples -/

/-- Word `i` of a concatenation of eight-byte words. -/
theorem word_flatMap (codes : List Nat) (tail : List UInt8) {i : Nat} (h : codes[i]? = some code) :
    ((codes.flatMap (LittleEndian.toLe 8) ++ tail).drop (i * 8)).take 8 =
      LittleEndian.toLe 8 code := by
  induction codes generalizing i with
  | nil => cases h
  | cons c codes ih =>
    rw [List.flatMap_cons, List.append_assoc]
    cases i with
    | zero =>
      obtain rfl := Option.some.inj h
      rw [Nat.zero_mul, List.drop_zero]
      exact List.take_left' (LittleEndian.length_toLe 8 c)
    | succ i =>
      rw [Nat.succ_mul, Nat.add_comm, ← List.drop_drop,
        List.drop_left' (LittleEndian.length_toLe 8 c)]
      exact ih h

theorem length_flatMap_toLe (codes : List Nat) :
    (codes.flatMap (LittleEndian.toLe 8)).length = codes.length * 8 := by
  induction codes with
  | nil => rfl
  | cons c codes ih =>
    rw [List.flatMap_cons, List.length_append, ih, LittleEndian.length_toLe, List.length_cons]
    omega

/-- The codes of a tuple that the filters all list match its entry. -/
theorem tupleMatches_tupleEntry
    (h : List.Forall₂ (fun code set => code ∈ set.codes ∧ code < 2 ^ 32) codes codeSets)
    (segmentId morselId : Nat) :
    tupleMatches (tupleEntry codes segmentId morselId) codeSets = true := by
  unfold tupleMatches
  rw [List.all_eq_true]
  rintro ⟨set, i⟩ hset
  have hat : codeSets[i]? = some set := List.mem_zipIdx_iff_getElem?.mp hset
  obtain ⟨hset', rfl⟩ := List.getElem?_eq_some_iff.mp hat
  have hlt : i < codes.length := h.length_eq ▸ hset'
  obtain ⟨hmem, hcode⟩ := (List.forall₂_iff_get.mp h).2 i hlt hset'
  have hword := word_flatMap codes
    (LittleEndian.toLe 4 segmentId ++ LittleEndian.toLe 4 morselId)
    (List.getElem?_eq_getElem hlt)
  rw [← List.append_assoc] at hword
  simp only [List.get_eq_getElem] at hmem hcode
  have hof := LittleEndian.ofLe_toLe (show codes[i] < 256 ^ 8 by omega)
  simp only [tupleEntry, hword, hof, Bool.and_eq_true, decide_eq_true_eq]
  exact ⟨hcode, FileCodes.contains_iff.mpr hmem⟩

include htruth hrow in
/-- A composite index that lists the tuple of the row matches it. -/
theorem compositeTupleHasMatch_sound {index : CompositeIndex}
    (hindex : index ∈ state.compositeIndexes)
    (hcells : (index.keyColumns.map fun c => content.cell segmentId morselId c row) =
      codes.map .fileCode)
    (hcodes : List.Forall₂ (fun code set => code ∈ set.codes ∧ code < 2 ^ 32) codes codeSets) :
    compositeTupleHasMatch segmentId morselId index codeSets ≠ some false := by
  obtain ⟨hmem, hkind⟩ := List.mem_filter.mp hindex
  simp only [Bool.and_eq_true, beq_iff_eq] at hkind
  have hentry := htruth.composites index hmem hkind.1 hkind.2 segmentId morselId row hrow codes
    hcells
  have hlen : codes.length = index.keyColumns.length := by
    have := congrArg List.length hcells
    simpa using this.symm
  obtain ⟨hs, hm⟩ := content.id_lt segmentId morselId (by omega)
  have hdrop : ((tupleEntry codes segmentId morselId).drop (index.keyColumns.length * 8)) =
      LittleEndian.toLe 4 segmentId ++ LittleEndian.toLe 4 morselId := by
    rw [tupleEntry, List.append_assoc, ← hlen]
    exact List.drop_left' (length_flatMap_toLe codes)
  unfold compositeTupleHasMatch
  dsimp only
  split
  · simp
  rw [ne_eq, Option.some.injEq, Bool.not_eq_false, List.any_eq_true]
  refine ⟨_, hentry, ?_⟩
  rw [← List.drop_drop, hdrop, tupleMatches_tupleEntry hcodes,
    List.take_left' (LittleEndian.length_toLe 4 segmentId),
    List.drop_left' (LittleEndian.length_toLe 4 segmentId),
    LittleEndian.ofLe_toLe (show segmentId < 256 ^ 4 by omega),
    List.take_of_length_le (LittleEndian.length_toLe 4 morselId).le,
    LittleEndian.ofLe_toLe (show morselId < 256 ^ 4 by omega)]
  simp

theorem fileCodeFilterForColumn_mem {columnIndex : Nat}
    {codes : FileCodes} (h : fileCodeFilterForColumn filters columnIndex = some codes) :
    ∃ filter ∈ filters, ∃ values,
      filter.predicate = some (.fileCodeIn columnIndex codes values) := by
  obtain ⟨filter, hmem, hfilter⟩ := List.exists_of_findSome?_eq_some h
  refine ⟨filter, hmem, ?_⟩
  split at hfilter
  · next candidate fileCodes values hp =>
    split at hfilter
    · next heq => exact ⟨values, by rw [hp, heq, Option.some.inj hfilter]⟩
    · cases hfilter
  · cases hfilter

/-- On a row all filters accept, the collected sets list the row's codes. -/
theorem collectCodeSets_sound {filters : List FilterPlan}
    (hholds : ∀ filter ∈ filters, FilterHolds state content segmentId morselId row filter)
    {keyColumns : List Nat} {done : List FileCodes} :
    match collectCodeSets state filters keyColumns done with
    | .emptyFilter => False
    | .unfiltered => True
    | .collected codeSets => ∃ codes rest, codeSets = done ++ rest ∧
        (keyColumns.map fun c => content.cell segmentId morselId c row) = codes.map .fileCode ∧
        List.Forall₂ (fun code set => code ∈ set.codes ∧ code < 2 ^ 32) codes rest := by
  induction keyColumns generalizing done with
  | nil => exact ⟨[], [], (List.append_nil done).symm, rfl, .nil⟩
  | cons columnId keyColumns ih =>
    rw [collectCodeSets]
    cases hfind : state.table.columns.findIdx? fun column => column.columnId == columnId with
    | none => trivial
    | some columnIndex =>
      dsimp only
      cases hcodes : fileCodeFilterForColumn filters columnIndex with
      | none => trivial
      | some set =>
        obtain ⟨filter, hmem, _, hp⟩ := fileCodeFilterForColumn_mem hcodes
        obtain ⟨column, hcolumn, code, hcode, hcell⟩ := hholds filter hmem _ hp
        have hid : column.columnId = columnId := by
          obtain ⟨hlt, hkey, -⟩ := List.findIdx?_eq_some_iff_getElem.mp hfind
          rw [predicateColumnIndex, List.getElem?_eq_getElem hlt] at hcolumn
          rw [← Option.some.inj hcolumn]
          exact beq_iff_eq.mp hkey
        rw [hid] at hcell
        have hne : set.codes.isEmpty = false := by
          cases hc : set.codes with
          | nil => rw [hc] at hcode; cases hcode
          | cons c cs => rfl
        dsimp only
        rw [hne, if_neg Bool.false_ne_true]
        have := @ih (done ++ [set])
        split
        · next h => rw [h] at this; exact this
        · trivial
        · next codeSets h =>
          rw [h] at this
          obtain ⟨codes, rest, rfl, hcells, hall⟩ := this
          refine ⟨code :: codes, set :: rest, by simp, ?_, .cons ⟨hcode, ?_⟩ hall⟩
          · rw [List.map_cons, hcell, hcells, List.map_cons]
          · exact content.code_lt _ _ _ _ _ hcell

include htruth hrow in
/-- The composite indexes do not prune a morsel with an accepted row. -/
theorem compositePrunesMorsel_sound
    (hholds : ∀ filter ∈ filters, FilterHolds state content segmentId morselId row filter) :
    compositePrunesMorsel state segmentId morselId filters = false := by
  suffices h : ∀ indexes, (∀ index ∈ indexes, index ∈ state.compositeIndexes) →
      compositeLoop state segmentId morselId filters indexes = false from h _ fun _ h => h
  intro indexes hindexes
  induction indexes with
  | nil => rfl
  | cons index indexes ih =>
    obtain ⟨hindex, hrest⟩ := List.forall_mem_cons.mp hindexes
    have hsets := @collectCodeSets_sound state content segmentId morselId row filters hholds
      index.keyColumns []
    rw [compositeLoop]
    split
    · next h => rw [h] at hsets; exact hsets.elim
    · exact ih hrest
    · next codeSets h =>
      rw [h] at hsets
      obtain ⟨codes, rest, rfl, hcells, hall⟩ := hsets
      have hmatch := compositeTupleHasMatch_sound htruth hrow hindex hcells hall
      split
      · next hasMatch hm =>
        cases hasMatch
        · exact absurd hm hmatch
        · rfl
      · exact ih hrest

/-! ## Pruning a morsel -/

theorem fileCodesRefuted_mem
    (h : fileCodesRefuted state segmentId morselId columnId codes = .ok true)
    (hmem : code ∈ codes) :
    (explainFileCodeEquality code (state.zoneStatsFor segmentId morselId columnId)
      (state.columnDomainFor columnId) (state.exactSetFor columnId)).finalOutcome = .noMatch ∨
    bloomExcludesFileCode state columnId code (state.bloomFor columnId) = .ok true := by
  induction codes with
  | nil => cases hmem
  | cons c codes ih =>
    rw [fileCodesRefuted] at h
    split at h
    · next hno =>
      rcases List.mem_cons.mp hmem with rfl | hmem
      · exact .inl hno
      · exact ih h hmem
    · obtain ⟨excluded, hbloom, h⟩ := Checked.bind_eq_ok.mp h
      cases excluded with
      | false => cases h
      | true =>
        rcases List.mem_cons.mp hmem with rfl | hmem
        · exact .inr hbloom
        · exact ih h hmem

include htruth hrow in
/-- The evidence on one filter does not prune a row it accepts, when the picked indexes
cover the codes of the row. -/
theorem predicatePrunesMorsel_sound {predicate : CovePredicate} {column : ColumnEntry}
    (hcolumn : state.table.columns[predicateColumnIndex predicate]? = some column)
    (hholds : predicate.Holds (content.cell segmentId morselId column.columnId row))
    (hcover : ∀ code, content.cell segmentId morselId column.columnId row = .fileCode code →
      PickedIndexesCover state segmentId morselId column.columnId code) :
    predicatePrunesMorsel state segmentId morselId predicate ≠ .ok true := by
  intro hprune
  unfold predicatePrunesMorsel at hprune
  rw [hcolumn] at hprune
  cases predicate with
  | null c kind =>
    cases kind with
    | isNull =>
      have h := beq_iff_eq.mp (Except.ok.inj hprune)
      exact explainIsNull_sound htruth hrow hholds h
    | isNotNull =>
      have h := beq_iff_eq.mp (Except.ok.inj hprune)
      exact explainIsNotNull_sound htruth hrow hholds h
  | numeric c op literal =>
    obtain ⟨range, hrange, h⟩ := Checked.bind_eq_ok.mp hprune
    obtain ⟨v, hcell, haccept⟩ := hholds
    exact explainNumcodeRange_sound htruth hrow hrange hcell haccept
      (beq_iff_eq.mp (Except.ok.inj h))
  | fileCodeIn c fileCodes canonicalValues =>
    obtain ⟨code, hmem, hcell⟩ := hholds
    have hne : emptyMembership (.fileCodeIn c fileCodes canonicalValues) = false := by
      rw [emptyMembership, List.isEmpty_eq_false_iff]
      exact List.ne_nil_of_mem hmem
    rw [hne, if_neg Bool.false_ne_true] at hprune
    dsimp only at hprune
    rw [lookupPrunesFileCodes_sound htruth hrow hcell hmem, if_neg Bool.false_ne_true,
      invertedPrunesFileCodes_sound htruth hrow hcell hmem, if_neg Bool.false_ne_true] at hprune
    obtain ⟨hexact, hbloom⟩ := hcover code hcell
    rcases fileCodesRefuted_mem hprune hmem with hno | hexcluded
    · obtain ⟨hmember, hverdict⟩ :=
        (explainFileCodeEquality_noMatch htruth hrow hcell).mp hno
      have := hexact hmember
      rw [hverdict] at this
      cases this
    · exact hbloom hexcluded
  | varBytesEq c literal => cases hprune

theorem anyFilterPrunes_eq_true {crc32c : List UInt8 → Nat}
    (h : anyFilterPrunes state segmentId morselId crc32c filters = .ok true) :
    ∃ filter ∈ filters, filterPrunesMorsel state segmentId morselId crc32c filter = .ok true := by
  induction filters with
  | nil => cases h
  | cons filter filters ih =>
    obtain ⟨prunes, hfilter, h⟩ := Checked.bind_eq_ok.mp h
    cases prunes with
    | true => exact ⟨filter, List.mem_cons_self, hfilter⟩
    | false =>
      obtain ⟨f, hf, hp⟩ := ih h
      exact ⟨f, List.mem_cons_of_mem _ hf, hp⟩

/-- A plan without coverage forms: its evidence is that of the indexes. -/
def ScanPlan.WithoutCoverage (plan : ScanPlan) : Prop :=
  plan.coverageExpr = none ∧ ∀ filter ∈ plan.filters, filter.coveragePredicateFormRef = none

/-- Pruning is sound for the morsel: no row of a pruned morsel passes all filters. -/
def PruningSound (crc32c : List UInt8 → Nat) (state : DatasetState) (content : TableContent)
    (segmentId morselId : Nat) : Prop :=
  ∀ plan : ScanPlan, plan.WithoutCoverage →
    morselPruned state segmentId morselId crc32c plan = .ok true →
    ∀ row < content.rowCount segmentId morselId,
      ¬ ∀ filter ∈ plan.filters, FilterHolds state content segmentId morselId row filter

end

/-- The codes of a membership filter for one code. -/
def oneCode (code : Nat) : FileCodes := ⟨[code], List.pairwise_singleton _ _⟩

theorem mem_oneCode (code : Nat) : code ∈ (oneCode code).codes := List.mem_singleton_self code

/-- The plan of one membership filter for one code. -/
def codePlan (columnIndex code : Nat) : ScanPlan :=
  ⟨[⟨some (.fileCodeIn columnIndex (oneCode code) []), none⟩], none⟩

/-- **Pruning a morsel is sound exactly when the picked indexes cover its codes.** -/
theorem morselPruned_sound_iff (crc32c : List UInt8 → Nat) {state : DatasetState}
    {content : TableContent} (htruth : Truthful state content) (segmentId morselId : Nat) :
    PruningSound crc32c state content segmentId morselId ↔
      ∀ column ∈ state.table.columns, ∀ row < content.rowCount segmentId morselId, ∀ code,
        content.cell segmentId morselId column.columnId row = .fileCode code →
          PickedIndexesCover state segmentId morselId column.columnId code := by
  constructor
  · intro hsound column hcolumn row hrow code hcell
    obtain ⟨i, hi⟩ := List.mem_iff_getElem?.mp hcolumn
    have hholds : ∀ filter ∈ (codePlan i code).filters,
        FilterHolds state content segmentId morselId row filter := by
      intro filter hfilter predicate hp
      obtain rfl := List.mem_singleton.mp hfilter
      obtain rfl := Option.some.inj hp
      exact ⟨column, hi, code, mem_oneCode code, hcell⟩
    have hkept : morselPruned state segmentId morselId crc32c (codePlan i code) ≠ .ok true :=
      fun h => hsound _ ⟨rfl, by simp [codePlan]⟩ h row hrow hholds
    have hrefuted : ¬ fileCodesRefuted state segmentId morselId column.columnId
        (oneCode code).codes = .ok true := by
      intro h
      apply hkept
      have hempty : emptyMembership (.fileCodeIn i (oneCode code) []) = false := rfl
      rw [morselPruned, compositePrunesMorsel_sound htruth hrow hholds]
      simp only [codePlan, Option.any_none, Bool.false_eq_true, if_false, anyFilterPrunes,
        filterPrunesMorsel, coverageProofPrunesMorsel, predicatePrunesMorsel, hempty,
        predicateColumnIndex, hi, h,
        lookupPrunesFileCodes_sound htruth hrow hcell (mem_oneCode code),
        invertedPrunesFileCodes_sound htruth hrow hcell (mem_oneCode code)]
      rfl
    have hnoMatch := explainFileCodeEquality_noMatch htruth hrow hcell
    simp only [oneCode, fileCodesRefuted] at hrefuted
    split at hrefuted
    · exact absurd rfl hrefuted
    · next hno =>
      rw [hnoMatch, not_and] at hno
      refine ⟨fun hmember => Option.isSome_iff_ne_none.mpr (hno hmember), fun hexcluded => ?_⟩
      rw [hexcluded] at hrefuted
      exact hrefuted rfl
  · rintro hcover plan ⟨hexpr, hrefs⟩ hprune row hrow hholds
    rw [morselPruned, compositePrunesMorsel_sound htruth hrow hholds, hexpr] at hprune
    simp only [Bool.false_eq_true, if_false, Option.any_none] at hprune
    obtain ⟨filter, hfilter, hprune⟩ := anyFilterPrunes_eq_true hprune
    unfold filterPrunesMorsel at hprune
    split at hprune
    · cases hprune
    · next predicate hp =>
      obtain ⟨column, hcolumn, haccepts⟩ := hholds filter hfilter predicate hp
      have hproof : coverageProofPrunesMorsel state segmentId morselId crc32c filter predicate =
          false := by
        rw [coverageProofPrunesMorsel, hrefs filter hfilter]
      rw [hproof, if_neg Bool.false_ne_true] at hprune
      exact predicatePrunesMorsel_sound htruth hrow hcolumn haccepts
        (fun code hcell => hcover column (List.mem_of_getElem? hcolumn) row hrow code hcell) hprune

/-! ## Two morsels with one code each -/

/-- Two morsels of one row in one column: code 1 in the first, code 2 in the second. -/
def twoCodes : TableContent where
  rowCount := fun s m => if s = 0 ∧ m < 2 then 1 else 0
  cell := fun _ m _ _ => if m < 2 then .fileCode (m + 1) else .null
  code_lt := by
    intro s m c r code h
    split at h
    · obtain rfl := Cell.fileCode.inj h
      omega
    · cases h
  id_lt := by
    intro s m h
    split at h
    · omega
    · exact absurd rfl h

/-- The exact set of the first morsel. -/
def firstMorselSet : ExactSetIndex where
  header := ⟨1, 5, .morsel, .fileCode, .sortedList⟩
  keys := [1]
  keys_sorted := List.pairwise_singleton _ _
  keys_nil := fun h => absurd rfl h

def twoCodesState : DatasetState where
  table := ⟨1, 2, [⟨5, .utf8, .fileCode, 0, 0⟩]⟩
  segments := [⟨0, 0, 2, 2, 1⟩]
  files := [.all]
  dictionary := none
  pruning := { PruningMetadata.empty with exactSets := [firstMorselSet] }

theorem twoCodesState_truthful : Truthful twoCodesState twoCodes where
  zones := fun _ hentry => absurd hentry List.not_mem_nil
  domains := fun _ hdomain => absurd hdomain List.not_mem_nil
  lookups := fun _ hindex => absurd hindex List.not_mem_nil
  inverted := fun _ hindex => absurd hindex List.not_mem_nil
  composites := fun _ hindex => absurd hindex List.not_mem_nil

/-- The first morsel, which the exact set was built from. -/
theorem morselPruned_sound_first : PruningSound (fun _ => 0) twoCodesState twoCodes 0 0 := by
  refine (morselPruned_sound_iff (fun _ => 0) twoCodesState_truthful 0 0).mpr ?_
  intro column hcolumn row _ code hcell
  obtain rfl := List.mem_singleton.mp hcolumn
  obtain rfl : 1 = code := Cell.fileCode.inj hcell
  exact ⟨by decide, by decide⟩

/-- An exact set is true of a morsel: it lists the codes of its column there. -/
def ExactSetIndex.TrueOf (self : ExactSetIndex) (content : TableContent)
    (segmentId morselId : Nat) : Prop :=
  ∀ row < content.rowCount segmentId morselId, ∀ code,
    content.cell segmentId morselId self.header.columnId row = .fileCode code →
      self.contains code = true

/-- An exact set is true of some zone of its granularity. -/
def ExactSetIndex.TrueSomewhere (self : ExactSetIndex) (content : TableContent) : Prop :=
  match self.header.granularity with
  | .segment => ∃ s, ∀ m, self.TrueOf content s m
  | .morsel => ∃ s m, self.TrueOf content s m

/-- A Bloom filter is true of a morsel: it excludes no code of its column there. -/
def BloomFilterIndex.TrueOf (self : BloomFilterIndex) (state : DatasetState)
    (content : TableContent) (segmentId morselId : Nat) : Prop :=
  ∀ row < content.rowCount segmentId morselId, ∀ code,
    content.cell segmentId morselId self.header.columnId row = .fileCode code →
      bloomExcludesFileCode state self.header.columnId code (some self) ≠ .ok true

def BloomFilterIndex.TrueSomewhere (self : BloomFilterIndex) (state : DatasetState)
    (content : TableContent) : Prop :=
  match self.header.granularity with
  | .segment => ∃ s, ∀ m, self.TrueOf state content s m
  | .morsel => ∃ s m, self.TrueOf state content s m

/-- The set of the first morsel prunes the second for the code the second holds. -/
theorem morselPruned_by_other_morsel :
    ¬ ∀ (crc32c : List UInt8 → Nat) (state : DatasetState) (content : TableContent),
      Truthful state content →
      (∀ set ∈ state.pruning.exactSets, set.TrueSomewhere content) →
      (∀ bloom ∈ state.pruning.blooms, bloom.TrueSomewhere state content) →
      ∀ segmentId morselId, PruningSound crc32c state content segmentId morselId := by
  intro h
  have htrue : firstMorselSet.TrueOf twoCodes 0 0 := by
    intro row _ code hcell
    obtain rfl : 1 = code := Cell.fileCode.inj hcell
    decide
  have hsets : ∀ set ∈ twoCodesState.pruning.exactSets, set.TrueSomewhere twoCodes := by
    intro set hset
    obtain rfl := List.mem_singleton.mp hset
    exact ⟨0, 0, htrue⟩
  refine h (fun _ => 0) _ _ twoCodesState_truthful hsets nofun 0 1 (codePlan 0 2)
    ⟨rfl, by simp [codePlan]⟩ (by decide) 0 (by decide) fun filter hfilter predicate hp => ?_
  obtain rfl := List.mem_singleton.mp hfilter
  obtain rfl := Option.some.inj hp
  exact ⟨⟨5, .utf8, .fileCode, 0, 0⟩, rfl, 2, mem_oneCode 2, rfl⟩

end Cove
