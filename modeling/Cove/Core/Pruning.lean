import Cove.Core.Predicate
import Cove.Core.ZoneStats
import Cove.Core.Domain
import Cove.Core.Index

/-!
# Pruning explanations

An explanation is a verdict on a zone with the evidence that led to it. Explanations are
combined like the verdicts they carry; an explanation without evidence is neutral.

- `PruningExplanation.and/or/negate`: the combinators.
- `explainIsNull`, `explainIsNotNull`, `explainFileCodeEquality`,
  `explainResolvedDomainRankRange`, `explainNumcodeRange`, `explainBloomMembership`: the leaf
  explainers, one per kind of comparison.
-/

namespace Cove

/-- Source of a pruning decision. -/
inductive PruningEvidence where
  | noMetadata
  | zoneStats
  | columnDomain
  | exactSet
  | bloomFilter
  | fallbackToScan
  deriving DecidableEq, Repr

/-- One recorded piece of evidence. -/
structure PruningStep where
  evidence : PruningEvidence
  outcome : PredicateZoneOutcome
  specSection : String
  deriving DecidableEq, Repr

/-- A verdict with its evidence. -/
structure PruningExplanation where
  steps : List PruningStep
  finalOutcome : PredicateZoneOutcome
  deriving DecidableEq, Repr

namespace PruningExplanation

/-- No evidence, nothing known. -/
def new : PruningExplanation := ⟨[], .unknown⟩

/-- Record a step, conjoining its outcome with the running one. -/
def record (self : PruningExplanation) (evidence : PruningEvidence)
    (outcome : PredicateZoneOutcome) (specSection : String) : PruningExplanation where
  steps := self.steps ++ [⟨evidence, outcome, specSection⟩]
  finalOutcome := if self.steps.isEmpty then outcome else self.finalOutcome.and outcome

def and (self other : PruningExplanation) : PruningExplanation :=
  if self.steps.isEmpty then other
  else if other.steps.isEmpty then self
  else ⟨self.steps ++ other.steps, self.finalOutcome.and other.finalOutcome⟩

def or (self other : PruningExplanation) : PruningExplanation :=
  if self.steps.isEmpty then other
  else if other.steps.isEmpty then self
  else ⟨self.steps ++ other.steps, self.finalOutcome.or other.finalOutcome⟩

def negate (self : PruningExplanation) : PruningExplanation :=
  { self with finalOutcome := self.finalOutcome.negate }

end PruningExplanation

/-- An explanation with one piece of evidence. -/
def singleStep (evidence : PruningEvidence) (outcome : PredicateZoneOutcome)
    (specSection : String) : PruningExplanation :=
  PruningExplanation.new.record evidence outcome specSection

@[simp] theorem singleStep_finalOutcome (e : PruningEvidence) (o : PredicateZoneOutcome)
    (s : String) : (singleStep e o s).finalOutcome = o := rfl

@[simp] theorem singleStep_steps (e : PruningEvidence) (o : PredicateZoneOutcome)
    (s : String) : (singleStep e o s).steps = [⟨e, o, s⟩] := rfl

/-! ## Null tests -/

def explainIsNull : Option ZoneStatsEntry → PruningExplanation
  | some zone =>
    if zone.stats.nullCount = 0 then singleStep .zoneStats .noMatch "§37.4"
    else if zone.stats.nullCount = zone.stats.rowCount then
      singleStep .zoneStats .allMatch "§37.4"
    else
      singleStep .zoneStats (if zone.stats.nullCount > 0 then .someMatch else .unknown)
        "§37.4"
  | none => singleStep .noMetadata .unknown "§37.4"

def explainIsNotNull : Option ZoneStatsEntry → PruningExplanation
  | some zone =>
    if zone.stats.nullCount = zone.stats.rowCount then
      singleStep .zoneStats .noMatch "§37.4"
    else if zone.stats.nullCount = 0 then singleStep .zoneStats .allMatch "§37.4"
    else singleStep .zoneStats .someMatch "§37.4"
  | none => singleStep .noMetadata .unknown "§37.4"

/-! ## Equality with a file code -/

/-- A domain is used only when it is safe. -/
def usableDomain (domain : Option ColumnDomain) : Option ColumnDomain :=
  domain.filter ColumnDomain.isSafe

def exactSetMembership (exactSet : Option ExactSetIndex) (fileCode : Nat) : Option Bool :=
  exactSet.bind fun s =>
    if s.header.keyKind ≠ .fileCode then none else some (s.contains fileCode)

/-- The zone holds nothing but NULLs. -/
def ZoneStatsEntry.nullOnly (zone : ZoneStatsEntry) : Bool :=
  zone.stats.nullCount == zone.stats.rowCount

def ZoneStatsEntry.hasDomainRange (zone : ZoneStatsEntry) : Bool :=
  zone.stats.flags.contains .hasDomainRange

/-- The verdict of a safe domain on one zone, when it has one: the code is absent, its
rank is outside the zone's interval, or the zone is constant and equal to it. -/
def domainVerdict (fileCode : Nat) (zoneStats : Option ZoneStatsEntry)
    (domain : ColumnDomain) : Option PruningExplanation :=
  match domain.rankOf fileCode with
  | none => some (singleStep .columnDomain .noMatch "§37.1")
  | some rank =>
    match zoneStats with
    | none => none
    | some zone =>
      if zone.hasDomainRange && (decide (rank < zone.minDomainRank) ||
          decide (zone.maxDomainRank < rank)) then
        some (singleStep .columnDomain .noMatch "§37.1")
      else if zone.hasDomainRange && zone.stats.flags.contains .constant &&
          zone.minDomainRank == rank && zone.maxDomainRank == rank &&
          zone.stats.nullCount == 0 then
        some (singleStep .columnDomain .allMatch "§37.1")
      else none

/-- A ranked code in a zone with a rank interval overlaps it. -/
def domainOverlap (fileCode : Nat) (zoneStats : Option ZoneStatsEntry)
    (domain : Option ColumnDomain) : Bool :=
  match zoneStats, domain with
  | some zone, some domain => zone.hasDomainRange && (domain.rankOf fileCode).isSome
  | _, _ => false

/-- **Equality with a file code**: null-only zones first, then the domain, then the
exact set. -/
def explainFileCodeEquality (fileCode : Nat) (zoneStats : Option ZoneStatsEntry)
    (domain : Option ColumnDomain) (exactSet : Option ExactSetIndex) :
    PruningExplanation :=
  if zoneStats.any ZoneStatsEntry.nullOnly then singleStep .zoneStats .noMatch "§37.1"
  else
    match (usableDomain domain).bind (domainVerdict fileCode zoneStats) with
    | some verdict => verdict
    | none =>
      match exactSetMembership exactSet fileCode with
      | some contains =>
        singleStep .exactSet (if contains then .someMatch else .noMatch) "§37.1"
      | none =>
        if domainOverlap fileCode zoneStats (usableDomain domain) then
          singleStep .columnDomain .someMatch "§37.1"
        else if zoneStats.isSome || domain.isSome || exactSet.isSome then
          singleStep .fallbackToScan .unknown "§37.1"
        else singleStep .noMetadata .unknown "§37.1"

/-! ## Ranges of domain ranks -/

/-- **An interval of resolved domain ranks** against the interval of a zone. -/
def explainResolvedDomainRankRange (minRank maxRank : Nat) (zoneStats : Option ZoneStatsEntry)
    (domain : Option ColumnDomain) : PruningExplanation :=
  if minRank > maxRank then singleStep .columnDomain .noMatch "§37.2"
  else
    match zoneStats with
    | none => singleStep .noMetadata .unknown "§37.2"
    | some zone =>
      if zone.nullOnly then singleStep .zoneStats .noMatch "§37.2"
      else if (usableDomain domain).isNone then singleStep .fallbackToScan .unknown "§37.2"
      else if !zone.hasDomainRange then singleStep .fallbackToScan .unknown "§37.2"
      else if zone.maxDomainRank < minRank ∨ zone.minDomainRank > maxRank then
        singleStep .columnDomain .noMatch "§37.2"
      else if zone.minDomainRank ≥ minRank ∧ zone.maxDomainRank ≤ maxRank ∧
          zone.stats.nullCount = 0 then
        singleStep .columnDomain .allMatch "§37.2"
      else singleStep .columnDomain .someMatch "§37.2"

/-! ## Numeric ranges -/

namespace NumericStatValue

/-- `range_satisfies_lower`. -/
def satisfiesLower (zoneMin lower : NumericStatValue) (inclusive : Bool) : Bool :=
  match zoneMin.compareNumeric lower with
  | some o => o == .gt || (inclusive && o == .eq)
  | none => false

/-- `range_satisfies_upper`. -/
def satisfiesUpper (zoneMax upper : NumericStatValue) (inclusive : Bool) : Bool :=
  match zoneMax.compareNumeric upper with
  | some o => o == .lt || (inclusive && o == .eq)
  | none => false

/-- `is_strictly_below`: the upper bound lies below the zone. -/
def strictlyBelow (upper zoneMin : NumericStatValue) (inclusive : Bool) : Bool :=
  match upper.compareNumeric zoneMin with
  | some o => o == .lt || (!inclusive && o == .eq)
  | none => false

/-- `is_strictly_above`: the lower bound lies above the zone. -/
def strictlyAbove (lower zoneMax : NumericStatValue) (inclusive : Bool) : Bool :=
  match lower.compareNumeric zoneMax with
  | some o => o == .gt || (!inclusive && o == .eq)
  | none => false

end NumericStatValue

/-- A numeric interval with optional bounds. -/
structure NumericRange where
  lower : Option NumericStatValue
  lowerInclusive : Bool
  upper : Option NumericStatValue
  upperInclusive : Bool
  deriving DecidableEq, Repr

namespace NumericRange

/-- `numeric_bounds_share_kind` for both bounds. -/
def shareKind (r : NumericRange) (base : NumericStatValue) : Bool :=
  r.lower.all (·.kindsMatch base) && r.upper.all (·.kindsMatch base)

/-- `predicate_disjoint_from_zone`. -/
def disjointFrom (r : NumericRange) (zoneMin zoneMax : NumericStatValue) : Bool :=
  r.upper.any (·.strictlyBelow zoneMin r.upperInclusive) ||
    r.lower.any (·.strictlyAbove zoneMax r.lowerInclusive)

/-- `zone_fully_within_predicate`. -/
def contains (r : NumericRange) (zoneMin zoneMax : NumericStatValue) : Bool :=
  r.lower.all (zoneMin.satisfiesLower · r.lowerInclusive) &&
    r.upper.all (zoneMax.satisfiesUpper · r.upperInclusive)

end NumericRange

/-- The typed minimum and maximum of a zone, when both can be read. -/
def ZoneStatsEntry.numericBounds (zone : ZoneStatsEntry) :
    Option (NumericStatValue × NumericStatValue) :=
  match zone.stats.min.bind StatScalar.numericValue with
  | none => none
  | some min =>
    match zone.stats.max.bind StatScalar.numericValue with
    | none => none
    | some max => some (min, max)

/-- **A numeric range** against the typed minimum and maximum of a zone. -/
def explainNumcodeRange (r : NumericRange) :
    Option ZoneStatsEntry → PruningExplanation
  | none => singleStep .noMetadata .unknown "§37.3"
  | some zone =>
    if zone.nullOnly then singleStep .zoneStats .noMatch "§37.3"
    else if !zone.stats.flags.contains .hasMinMax then
      singleStep .fallbackToScan .unknown "§37.3"
    else if zone.stats.flags.contains .hasNan then
      singleStep .fallbackToScan .unknown "§37.3"
    else if zone.stats.flags.contains .minmaxTruncated then
      singleStep .fallbackToScan .unknown "§37.3"
    else
      match zone.numericBounds with
      | none => singleStep .fallbackToScan .unknown "§37.3"
      | some (min, max) =>
        if !r.shareKind min || !min.kindsMatch max then
          singleStep .fallbackToScan .unknown "§37.3"
        else if r.disjointFrom min max then singleStep .zoneStats .noMatch "§37.3"
        else if r.contains min max && zone.stats.nullCount == 0 then
          singleStep .zoneStats .allMatch "§37.3"
        else singleStep .zoneStats .someMatch "§37.3"

/-! ## Bloom membership -/

def explainBloomMembership (value : List UInt8) :
    Option BloomFilterIndex → Bool → PruningExplanation
  | none, _ => singleStep .noMetadata .unknown "§31"
  | some _, true => singleStep .fallbackToScan .unknown "§73"
  | some bloom, false =>
    if bloom.mightContain value then singleStep .bloomFilter .someMatch "§31"
    else singleStep .bloomFilter .noMatch "§31"

end Cove
