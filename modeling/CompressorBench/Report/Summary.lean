import CompressorBench.Evaluation

/-!
# Summaries

What a list of outcomes comes to: how many cases there are, how many passed, and their scores. The
scores are added from the first to the last in binary64 arithmetic, and the average is taken over
all cases, not only those that passed.
-/

namespace CompressorBench.Report

/-- The numbers of a run. -/
structure Summary where
  total : Nat
  passed : Nat
  totalScore : Float
  averageScore : Float

namespace Summary

/-- The scores of the cases that passed, in order. -/
def scores (outcomes : List Outcome) : List Float :=
  outcomes.filterMap fun outcome => outcome.verdict.score?

/-- The sum of scores, from the first to the last. -/
def sum (scores : List Float) : Float := scores.foldl (· + ·) 0.0

/-- The summary of a list of outcomes. -/
def ofOutcomes (outcomes : List Outcome) : Summary :=
  let scores := scores outcomes
  let total := sum scores
  { total := outcomes.length
    passed := scores.length
    totalScore := total
    averageScore := if outcomes.isEmpty then 0.0 else total / Float.ofNat outcomes.length }

/-- The cases that passed are those that were a success. -/
theorem passed_eq_countP (outcomes : List Outcome) :
    (ofOutcomes outcomes).passed = outcomes.countP fun outcome => outcome.verdict.isSuccess := by
  show (outcomes.filterMap fun outcome => outcome.verdict.score?).length = _
  rw [List.length_filterMap_eq_countP]
  simp only [Verdict.isSome_score?]

/-- Whether every case passed. -/
def allPassed (summary : Summary) : Bool := summary.passed == summary.total

end Summary

/-- How many outcomes have a mark. -/
def countMark (mark : Mark) (outcomes : List Outcome) : Nat :=
  outcomes.countP fun outcome => outcome.verdict.mark == mark

end CompressorBench.Report
