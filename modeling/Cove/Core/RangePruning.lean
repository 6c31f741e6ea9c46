import Cove.Core.Pruning
import Mathlib.Order.Lattice

/-!
# Ranges over one zone

The verdicts on a range of numbers and on a range of domain ranks, compared with the rows of the
zone. A row is a value or NULL, which no range accepts.

- `NumericRange.Accepts`: what a range of numbers says of a value, by exact numbers.
- `numcodeRange_sound`: **the verdict on a numeric range is sound**.
- `RankResolution`: an interval of ranks that stands for a range of values of a domain.
- `domainRankRange_sound`: **the verdict on an interval of ranks is sound for the ranks, and for
  the values they stand for**.
-/

namespace Cove

/-! ## Comparisons -/

variable {x y upper lower : NumericStatValue} {domain : ColumnDomain}

theorem kindsMatch_of_compareNumeric {o : Ordering}
    (h : x.compareNumeric y = some o) : x.kindsMatch y = true := by
  cases x <;> cases y <;> first | rfl | cases h

variable {inclusive : Bool} {entry : ZoneStatsEntry}

/-- An upper bound below the zone. -/
theorem strictlyBelow_spec {lo : NumericStatValue} (h : upper.strictlyBelow lo inclusive = true) :
    upper.kindsMatch lo = true ∧ ∃ u x, upper.exact = some u ∧ lo.exact = some x ∧
      u ≤ x ∧ (inclusive = true → u < x) := by
  unfold NumericStatValue.strictlyBelow at h
  split at h
  · next o ho =>
    obtain ⟨u, x, hu, hx, hcmp⟩ := NumericStatValue.compareNumeric_eq_some ho
    refine ⟨kindsMatch_of_compareNumeric ho, u, x, hu, hx, ?_⟩
    simp only [Bool.or_eq_true, beq_iff_eq, Bool.and_eq_true, Bool.not_eq_true'] at h
    rcases h with rfl | ⟨hinc, rfl⟩
    · have := Int.compare_eq_lt.mp hcmp
      exact ⟨this.le, fun _ => this⟩
    · exact ⟨(Int.compare_eq_eq.mp hcmp).le, fun hi => by rw [hinc] at hi; cases hi⟩
  · cases h

/-- A lower bound above the zone. -/
theorem strictlyAbove_spec {hi : NumericStatValue} (h : lower.strictlyAbove hi inclusive = true) :
    lower.kindsMatch hi = true ∧ ∃ l y, lower.exact = some l ∧ hi.exact = some y ∧
      y ≤ l ∧ (inclusive = true → y < l) := by
  unfold NumericStatValue.strictlyAbove at h
  split at h
  · next o ho =>
    obtain ⟨l, y, hl, hy, hcmp⟩ := NumericStatValue.compareNumeric_eq_some ho
    refine ⟨kindsMatch_of_compareNumeric ho, l, y, hl, hy, ?_⟩
    simp only [Bool.or_eq_true, beq_iff_eq, Bool.and_eq_true, Bool.not_eq_true'] at h
    rcases h with rfl | ⟨hinc, rfl⟩
    · have := Int.compare_eq_gt.mp hcmp
      exact ⟨this.le, fun _ => this⟩
    · exact ⟨(Int.compare_eq_eq.mp hcmp).ge, fun hi => by rw [hinc] at hi; cases hi⟩
  · cases h

/-- A zone above the lower bound. -/
theorem satisfiesLower_spec {lo : NumericStatValue} (h : lo.satisfiesLower lower inclusive = true) :
    lo.kindsMatch lower = true ∧ ∃ x l, lo.exact = some x ∧ lower.exact = some l ∧
      (l < x ∨ inclusive = true ∧ l = x) := by
  unfold NumericStatValue.satisfiesLower at h
  split at h
  · next o ho =>
    obtain ⟨x, l, hx, hl, hcmp⟩ := NumericStatValue.compareNumeric_eq_some ho
    refine ⟨kindsMatch_of_compareNumeric ho, x, l, hx, hl, ?_⟩
    simp only [Bool.or_eq_true, beq_iff_eq, Bool.and_eq_true] at h
    rcases h with rfl | ⟨hinc, rfl⟩
    · exact .inl (Int.compare_eq_gt.mp hcmp)
    · exact .inr ⟨hinc, (Int.compare_eq_eq.mp hcmp).symm⟩
  · cases h

/-- A zone below the upper bound. -/
theorem satisfiesUpper_spec {hi : NumericStatValue} (h : hi.satisfiesUpper upper inclusive = true) :
    hi.kindsMatch upper = true ∧ ∃ y u, hi.exact = some y ∧ upper.exact = some u ∧
      (y < u ∨ inclusive = true ∧ y = u) := by
  unfold NumericStatValue.satisfiesUpper at h
  split at h
  · next o ho =>
    obtain ⟨y, u, hy, hu, hcmp⟩ := NumericStatValue.compareNumeric_eq_some ho
    refine ⟨kindsMatch_of_compareNumeric ho, y, u, hy, hu, ?_⟩
    simp only [Bool.or_eq_true, beq_iff_eq, Bool.and_eq_true] at h
    rcases h with rfl | ⟨hinc, rfl⟩
    · exact .inl (Int.compare_eq_lt.mp hcmp)
    · exact .inr ⟨hinc, Int.compare_eq_eq.mp hcmp⟩
  · cases h

theorem kindsMatch_trans {z : NumericStatValue} (hxy : x.kindsMatch y = true)
    (hyz : y.kindsMatch z = true) : x.kindsMatch z = true := by
  cases x <;> cases y <;> first
    | exact absurd hxy Bool.false_ne_true
    | (cases z <;> first | rfl | exact absurd hyz Bool.false_ne_true)

/-! ## Numeric ranges -/

/-- The value is of the kind of a lower bound, and not below it. -/
def NumericStatValue.Above (v lower : NumericStatValue) (inclusive : Bool) : Prop :=
  v.kindsMatch lower = true ∧ ∃ a l, v.exact = some a ∧ lower.exact = some l ∧
    (l < a ∨ inclusive = true ∧ l = a)

/-- The value is of the kind of an upper bound, and not above it. -/
def NumericStatValue.Below (v upper : NumericStatValue) (inclusive : Bool) : Prop :=
  v.kindsMatch upper = true ∧ ∃ a u, v.exact = some a ∧ upper.exact = some u ∧
    (a < u ∨ inclusive = true ∧ a = u)

namespace NumericRange

/-- The range accepts a value: each bound that is present does. -/
def Accepts (range : NumericRange) (v : NumericStatValue) : Prop :=
  (∀ lower ∈ range.lower, v.Above lower range.lowerInclusive) ∧
    ∀ upper ∈ range.upper, v.Below upper range.upperInclusive

/-- The range accepts a row: a NULL is not accepted. -/
def AcceptsRow (range : NumericRange) (row : Option NumericStatValue) : Prop :=
  ∃ v, row = some v ∧ range.Accepts v

variable {range : NumericRange} {v lo hi : NumericStatValue}

/-- A range disjoint from the zone accepts none of its values. -/
theorem not_accepts_of_disjointFrom (hlo : v.Above lo true) (hhi : v.Below hi true)
    (h : range.disjointFrom lo hi = true) : ¬ range.Accepts v := by
  rintro ⟨hlower, hupper⟩
  obtain ⟨-, a, x, ha, hx, hle⟩ := hlo
  obtain ⟨-, a', y, ha', hy, hge⟩ := hhi
  obtain rfl := Option.some.inj (ha.symm.trans ha')
  rcases Bool.or_eq_true_iff.mp h with h | h
  · obtain ⟨upper, hmem, hbelow⟩ := (Option.any_eq_true _ _).mp h
    obtain ⟨-, u, x', hu, hx', hux, hlt⟩ := strictlyBelow_spec hbelow
    obtain ⟨-, a', u', ha', hu', hau⟩ := hupper upper hmem
    obtain rfl := Option.some.inj (ha.symm.trans ha')
    obtain rfl := Option.some.inj (hu.symm.trans hu')
    obtain rfl := Option.some.inj (hx.symm.trans hx')
    rcases hau with hau | ⟨hinc, rfl⟩
    · omega
    · have := hlt hinc
      omega
  · obtain ⟨lower, hmem, habove⟩ := (Option.any_eq_true _ _).mp h
    obtain ⟨-, l, y', hl, hy', hyl, hlt⟩ := strictlyAbove_spec habove
    obtain ⟨-, a', l', ha', hl', hla⟩ := hlower lower hmem
    obtain rfl := Option.some.inj (ha.symm.trans ha')
    obtain rfl := Option.some.inj (hl.symm.trans hl')
    obtain rfl := Option.some.inj (hy.symm.trans hy')
    rcases hla with hla | ⟨hinc, rfl⟩
    · omega
    · have := hlt hinc
      omega

/-- A range that contains the zone accepts all of its values. -/
theorem accepts_of_contains (hlo : v.Above lo true) (hhi : v.Below hi true)
    (h : range.contains lo hi = true) : range.Accepts v := by
  obtain ⟨hlokind, a, x, ha, hx, hle⟩ := hlo
  obtain ⟨hhikind, a', y, ha', hy, hge⟩ := hhi
  obtain rfl := Option.some.inj (ha.symm.trans ha')
  obtain ⟨hlower, hupper⟩ := Bool.and_eq_true_iff.mp h
  constructor
  · intro lower hmem
    obtain ⟨hkind, x', l, hx', hl, hlx⟩ :=
      satisfiesLower_spec ((Option.all_eq_true _ _).mp hlower lower hmem)
    obtain rfl := Option.some.inj (hx.symm.trans hx')
    refine ⟨kindsMatch_trans hlokind hkind, a, l, ha, hl, ?_⟩
    rcases hlx with hlx | ⟨hinc, rfl⟩
    · exact .inl (by omega)
    · exact hle.imp_right fun heq => ⟨hinc, heq.2⟩
  · intro upper hmem
    obtain ⟨hkind, y', u, hy', hu, hyu⟩ :=
      satisfiesUpper_spec ((Option.all_eq_true _ _).mp hupper upper hmem)
    obtain rfl := Option.some.inj (hy.symm.trans hy')
    refine ⟨kindsMatch_trans hhikind hkind, a, u, ha, hu, ?_⟩
    rcases hyu with hyu | ⟨hinc, rfl⟩
    · exact .inl (by omega)
    · exact hge.imp_right fun heq => ⟨hinc, heq.2⟩

end NumericRange

/-- Statistics of a zone: exact counts, and a minimum and a maximum that bound its values, which
NaN does not unless it is flagged. -/
structure NumericZone (zone : List (Option NumericStatValue)) (entry : ZoneStatsEntry) : Prop where
  rowCount : entry.stats.rowCount = zone.length
  nullCount : entry.stats.nullCount = zone.count none
  bounds : entry.stats.flags.contains .hasNan = false → ∀ v, some v ∈ zone →
    ∀ lo hi, entry.numericBounds = some (lo, hi) → v.Above lo true ∧ v.Below hi true

/-- Exact counts: a null-only zone has no value, and a zone without NULLs has nothing else. -/
theorem not_nullOnly_of_mem {α : Type u} [DecidableEq α] {zone : List (Option α)}
    (hrow : entry.stats.rowCount = zone.length)
    (hnull : entry.stats.nullCount = zone.count none) {v : α} (hmem : some v ∈ zone) :
    entry.nullOnly = false := by
  refine beq_eq_false_iff_ne.mpr fun heq => ?_
  rw [hnull, hrow] at heq
  exact absurd (List.count_eq_length.mp heq _ hmem) (by simp)

theorem exists_of_nullCount_zero {α : Type u} [DecidableEq α] {zone : List (Option α)}
    (hnull : entry.stats.nullCount = zone.count none)
    (hzero : entry.stats.nullCount = 0) {row : Option α} (hrow : row ∈ zone) :
    ∃ v, row = some v := by
  rw [hnull] at hzero
  cases row with
  | none => exact absurd hrow (List.count_eq_zero.mp hzero)
  | some v => exact ⟨v, rfl⟩

/-- **The verdict on a numeric range is sound**: no row is accepted where it says that none matches,
and every row is, NULLs included, where it says that all do. -/
theorem numcodeRange_sound {zone : List (Option NumericStatValue)} {entry : ZoneStatsEntry}
    (h : NumericZone zone entry) (range : NumericRange) :
    ((explainNumcodeRange range (some entry)).finalOutcome = .noMatch →
        ∀ row ∈ zone, ¬ range.AcceptsRow row) ∧
      ((explainNumcodeRange range (some entry)).finalOutcome = .allMatch →
        ∀ row ∈ zone, range.AcceptsRow row) := by
  unfold explainNumcodeRange
  dsimp only
  split
  next hnull =>
    refine ⟨fun _ => ?_, by simp⟩
    rintro row hrow ⟨v, rfl, -⟩
    rw [not_nullOnly_of_mem h.rowCount h.nullCount hrow] at hnull
    cases hnull
  split
  · simp
  split
  · simp
  next hnan =>
  split
  · simp
  split
  · simp
  next lo hi hbounds =>
  have hbounded := fun v hv => h.bounds (Bool.eq_false_iff.mpr hnan) v hv lo hi hbounds
  split
  · simp
  split
  · next hdisjoint =>
    refine ⟨fun _ => ?_, by simp⟩
    rintro row hrow ⟨v, rfl, haccepts⟩
    obtain ⟨hlo, hhi⟩ := hbounded v hrow
    exact NumericRange.not_accepts_of_disjointFrom hlo hhi hdisjoint haccepts
  split
  · next hcontains =>
    refine ⟨by simp, fun _ row hrow => ?_⟩
    obtain ⟨hcontains, hzero⟩ := Bool.and_eq_true_iff.mp hcontains
    obtain ⟨v, rfl⟩ := exists_of_nullCount_zero h.nullCount (eq_of_beq hzero) hrow
    obtain ⟨hlo, hhi⟩ := hbounded v hrow
    exact ⟨v, rfl, NumericRange.accepts_of_contains hlo hhi hcontains⟩
  · simp

/-- A zone of a three and a NULL. -/
def threeEntry : ZoneStatsEntry where
  tableId := 1
  segmentId := 0
  morselId := 0
  columnId := 2
  stats :=
    { rowCount := 2
      nullCount := 1
      min := some ⟨.int64, [3, 0, 0, 0, 0, 0, 0, 0], false⟩
      max := some ⟨.int64, [3, 0, 0, 0, 0, 0, 0, 0], false⟩
      flags := .hasMinMax }
  minDomainRank := 0
  maxDomainRank := 0

/-- The range above three refutes it. -/
theorem numcodeRange_sound_three :
    (explainNumcodeRange ⟨some (.int64 3), false, none, true⟩ (some threeEntry)).finalOutcome =
      .noMatch ∧
    ∀ row ∈ [some (.int64 3), none],
      ¬ NumericRange.AcceptsRow ⟨some (.int64 3), false, none, true⟩ row := by
  have houtcome : (explainNumcodeRange ⟨some (.int64 3), false, none, true⟩
      (some threeEntry)).finalOutcome = .noMatch := by decide +kernel
  have hzone : NumericZone [some (.int64 3), none] threeEntry := by
    refine ⟨rfl, rfl, fun _ v hv lo hi hbounds => ?_⟩
    have hthree : threeEntry.numericBounds = some (.int64 3, .int64 3) := by decide +kernel
    obtain ⟨rfl, rfl⟩ := Prod.mk.inj (Option.some.inj (hthree.symm.trans hbounds))
    obtain rfl : v = .int64 3 := by simpa using hv
    exact ⟨⟨rfl, _, _, rfl, rfl, .inr ⟨rfl, rfl⟩⟩, ⟨rfl, _, _, rfl, rfl, .inr ⟨rfl, rfl⟩⟩⟩
  exact ⟨houtcome, (numcodeRange_sound hzone _).1 houtcome⟩

/-! ## Intervals of domain ranks -/

section

variable {V : Type u} [LinearOrder V]

/-- Bounds of a range of values, each of them absent, inclusive or exclusive. -/
structure ValueRange (V : Type u) where
  lower : Option (V × Bool)
  upper : Option (V × Bool)

/-- The range holds a value. -/
def ValueRange.Holds (range : ValueRange V) (v : V) : Prop :=
  (∀ b ∈ range.lower, b.1 < v ∨ b.2 = true ∧ b.1 = v) ∧
    ∀ b ∈ range.upper, v < b.1 ∨ b.2 = true ∧ v = b.1

/-- An interval of ranks stands for a range of values: it holds the ranks of the domain whose values
the range holds. -/
def RankResolution (domain : ColumnDomain) (value : Nat → V) (range : ValueRange V)
    (minRank maxRank : Nat) : Prop :=
  ∀ rank (h : rank < domain.sortedFileCodes.length),
    range.Holds (value domain.sortedFileCodes[rank]) ↔ minRank ≤ rank ∧ rank ≤ maxRank

/-! ### The rows of a zone -/

/-- Statistics of a zone of codes: exact counts, ranks for all of its codes, and an interval that
holds them. -/
structure RankedZone (domain : ColumnDomain) (zone : List (Option Nat)) (entry : ZoneStatsEntry) :
    Prop where
  rowCount : entry.stats.rowCount = zone.length
  nullCount : entry.stats.nullCount = zone.count none
  ranks : ∀ c, some c ∈ zone → ∃ rank, domain.rankOf c = some rank ∧
    (entry.hasDomainRange = true → entry.minDomainRank ≤ rank ∧ rank ≤ entry.maxDomainRank)

/-- The row has a code whose rank lies in an interval. -/
def RankedWithin (domain : ColumnDomain) (minRank maxRank : Nat) (row : Option Nat) : Prop :=
  ∃ c rank, row = some c ∧ domain.rankOf c = some rank ∧ minRank ≤ rank ∧ rank ≤ maxRank

theorem rankedWithin_some {minRank maxRank c rank : Nat} (hrank : domain.rankOf c = some rank) :
    RankedWithin domain minRank maxRank (some c) ↔ minRank ≤ rank ∧ rank ≤ maxRank := by
  constructor
  · rintro ⟨c', rank', hrow, hrank', hwithin⟩
    obtain rfl := Option.some.inj hrow
    obtain rfl := Option.some.inj (hrank.symm.trans hrank')
    exact hwithin
  · exact fun hwithin => ⟨c, rank, rfl, hrank, hwithin⟩

/-- The verdict is sound for the ranks. -/
theorem domainRankRange_sound_ranks {zone : List (Option Nat)}
    (h : RankedZone domain zone entry) (minRank maxRank : Nat) :
    ((explainResolvedDomainRankRange minRank maxRank (some entry) (some domain)).finalOutcome =
        .noMatch → ∀ row ∈ zone, ¬ RankedWithin domain minRank maxRank row) ∧
      ((explainResolvedDomainRankRange minRank maxRank (some entry) (some domain)).finalOutcome =
        .allMatch → ∀ row ∈ zone, RankedWithin domain minRank maxRank row) := by
  unfold explainResolvedDomainRankRange
  split
  next hempty =>
    refine ⟨fun _ => ?_, by simp⟩
    rintro row - ⟨c, rank, -, -, hmin, hmax⟩
    omega
  dsimp only
  split
  next hnull =>
    refine ⟨fun _ => ?_, by simp⟩
    rintro row hrow ⟨c, -, rfl, -⟩
    rw [not_nullOnly_of_mem h.rowCount h.nullCount hrow] at hnull
    cases hnull
  split
  · simp
  split
  · simp
  next hrange =>
  rw [Bool.not_eq_true', Bool.not_eq_false] at hrange
  split
  · next hout =>
    refine ⟨fun _ => ?_, by simp⟩
    rintro row hrow ⟨c, rank, rfl, hrank, hmin, hmax⟩
    obtain ⟨rank', hrank', hbounds⟩ := h.ranks c hrow
    obtain rfl := Option.some.inj (hrank.symm.trans hrank')
    have := hbounds hrange
    omega
  split
  · next hin =>
    refine ⟨by simp, fun _ row hrow => ?_⟩
    obtain ⟨hmin, hmax, hzero⟩ := hin
    obtain ⟨c, rfl⟩ := exists_of_nullCount_zero h.nullCount hzero hrow
    obtain ⟨rank, hrank, hbounds⟩ := h.ranks c hrow
    have := hbounds hrange
    exact (rankedWithin_some hrank).mpr ⟨by omega, by omega⟩
  · simp

/-- **The verdict on an interval of ranks is sound**: for the ranks of the rows, and for every range
of values that the interval stands for in a safe domain. -/
theorem domainRankRange_sound {domain : ColumnDomain} (hsafe : domain.isSafe = true)
    {zone : List (Option Nat)} {entry : ZoneStatsEntry} (h : RankedZone domain zone entry)
    (minRank maxRank : Nat) :
    let outcome :=
      (explainResolvedDomainRankRange minRank maxRank (some entry) (some domain)).finalOutcome
    ((outcome = .noMatch → ∀ row ∈ zone, ¬ RankedWithin domain minRank maxRank row) ∧
        (outcome = .allMatch → ∀ row ∈ zone, RankedWithin domain minRank maxRank row)) ∧
      ∀ (V : Type) [LinearOrder V] (value : Nat → V) (range : ValueRange V),
        RankResolution domain value range minRank maxRank →
          (outcome = .noMatch → ∀ c, some c ∈ zone → ¬ range.Holds (value c)) ∧
            (outcome = .allMatch → ∀ row ∈ zone, ∃ c, row = some c ∧ range.Holds (value c)) := by
  intro outcome
  obtain ⟨hno, hall⟩ := domainRankRange_sound_ranks h minRank maxRank
  refine ⟨⟨hno, hall⟩, fun V _ value range hresolved => ?_⟩
  -- a code of the zone stands in the domain at its rank
  have hholds : ∀ c, some c ∈ zone →
      (range.Holds (value c) ↔ RankedWithin domain minRank maxRank (some c)) := by
    intro c hmem
    obtain ⟨rank, hrank, -⟩ := h.ranks c hmem
    obtain ⟨hlt, hcode⟩ :=
      List.getElem?_eq_some_iff.mp (ColumnDomain.getElem?_of_rankOf hsafe hrank)
    rw [rankedWithin_some hrank, ← hresolved rank hlt, hcode]
  refine ⟨fun houtcome c hmem hheld => ?_, fun houtcome row hrow => ?_⟩
  · exact hno houtcome _ hmem ((hholds c hmem).mp hheld)
  · have hwithin := hall houtcome row hrow
    obtain ⟨c, -, rfl, -⟩ := id hwithin
    exact ⟨c, rfl, (hholds c hrow).mpr hwithin⟩

end

/-- A zone of the second code of a domain and a NULL, refuted by the rank of the first. -/
theorem domainRankRange_sound_second :
    (explainResolvedDomainRankRange 0 0
      (some ⟨1, 0, 0, 2, ⟨2, 1, none, none, .hasDomainRange⟩, 1, 1⟩)
      (some ⟨1, 2, [0, 2], [0, invalidRank, 1]⟩)).finalOutcome = .noMatch ∧
    ∀ row ∈ [some 2, none],
      ¬ RankedWithin ⟨1, 2, [0, 2], [0, invalidRank, 1]⟩ 0 0 row := by
  have houtcome : (explainResolvedDomainRankRange 0 0
      (some ⟨1, 0, 0, 2, ⟨2, 1, none, none, .hasDomainRange⟩, 1, 1⟩)
      (some ⟨1, 2, [0, 2], [0, invalidRank, 1]⟩)).finalOutcome = .noMatch := by decide +kernel
  have hzone : RankedZone ⟨1, 2, [0, 2], [0, invalidRank, 1]⟩ [some 2, none]
      ⟨1, 0, 0, 2, ⟨2, 1, none, none, .hasDomainRange⟩, 1, 1⟩ := by
    refine ⟨rfl, rfl, fun c hc => ?_⟩
    obtain rfl : c = 2 := by simpa using hc
    exact ⟨1, by decide, fun _ => ⟨Nat.le_refl _, Nat.le_refl _⟩⟩
  exact ⟨houtcome, (domainRankRange_sound (by decide) hzone 0 0).1.1 houtcome⟩

end Cove
