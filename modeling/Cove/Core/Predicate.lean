/-!
# Predicate outcomes over a zone

The verdict a zone's metadata gives on a predicate, and its combinators.

- `PredicateZoneOutcome`: all rows match, none does, some may, nothing is known.
- `PredicateZoneOutcome.and/or/negate`: the combinators of the planner.
- `PredicateZoneOutcome.decided b`: the two definite verdicts; the lemmas of this file
  say which operands make a combination definite.
-/

namespace Cove

/-- Outcome of evaluating a predicate against a zone from its metadata. -/
inductive PredicateZoneOutcome where
  | allMatch
  | noMatch
  | someMatch
  | unknown
  deriving DecidableEq, Repr, Inhabited

variable {y : PredicateZoneOutcome}

namespace PredicateZoneOutcome

/-- Conjunction. -/
def and : PredicateZoneOutcome → PredicateZoneOutcome → PredicateZoneOutcome
  | noMatch, _ => noMatch
  | _, noMatch => noMatch
  | allMatch, x => x
  | x, allMatch => x
  | unknown, unknown => unknown
  | unknown, someMatch => someMatch
  | someMatch, unknown => someMatch
  | someMatch, someMatch => someMatch

/-- Disjunction. -/
def or : PredicateZoneOutcome → PredicateZoneOutcome → PredicateZoneOutcome
  | allMatch, _ => allMatch
  | _, allMatch => allMatch
  | noMatch, x => x
  | x, noMatch => x
  | unknown, unknown => unknown
  | unknown, someMatch => someMatch
  | someMatch, unknown => someMatch
  | someMatch, someMatch => someMatch

/-- Negation, which turns the two definite verdicts into each other. -/
def negate : PredicateZoneOutcome → PredicateZoneOutcome
  | allMatch => noMatch
  | noMatch => allMatch
  | someMatch => someMatch
  | unknown => unknown

/-- The definite verdict for "the predicate holds everywhere" (`true`) or "nowhere". -/
def decided : Bool → PredicateZoneOutcome
  | true => allMatch
  | false => noMatch

@[simp] theorem decided_true : decided true = allMatch := rfl

@[simp] theorem decided_false : decided false = noMatch := rfl

@[simp] theorem negate_negate (o : PredicateZoneOutcome) : o.negate.negate = o := by
  cases o <;> rfl

@[simp] theorem negate_decided (b : Bool) : (decided b).negate = decided !b := by
  cases b <;> rfl

theorem negate_eq_decided_iff {o : PredicateZoneOutcome} {b : Bool} :
    o.negate = decided b ↔ o = decided !b := by
  cases o <;> cases b <;> decide

@[simp] theorem and_eq_allMatch_iff {x : PredicateZoneOutcome} :
    x.and y = allMatch ↔ x = allMatch ∧ y = allMatch := by
  cases x <;> cases y <;> decide

@[simp] theorem and_eq_noMatch_iff {x : PredicateZoneOutcome} :
    x.and y = noMatch ↔ x = noMatch ∨ y = noMatch := by
  cases x <;> cases y <;> decide

@[simp] theorem or_eq_allMatch_iff {x : PredicateZoneOutcome} :
    x.or y = allMatch ↔ x = allMatch ∨ y = allMatch := by
  cases x <;> cases y <;> decide

@[simp] theorem or_eq_noMatch_iff {x : PredicateZoneOutcome} :
    x.or y = noMatch ↔ x = noMatch ∧ y = noMatch := by
  cases x <;> cases y <;> decide

end PredicateZoneOutcome

end Cove
