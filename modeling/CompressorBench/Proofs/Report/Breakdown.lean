import CompressorBench.Proofs.Report.Characters

/-!
# The failures of a summary

A summary says how many cases passed, and a line of it counts the failures by their marks. The two
are counted apart: what passed by the scores, and the failures by the marks. They add up to the
number of all cases, and no order of the outcomes changes any of them.

* `sum_countMark`: every outcome is counted once.
* `isBreakdown_failureCounts`: the entries of the line.
* `failures_add_up`: what a summary says of the failures.
-/

namespace CompressorBench.Report

variable {outcomes others : List Outcome} {mark : Mark} {count : Nat}

/-! ## Counting -/

theorem countMark_ok (outcomes : List Outcome) :
    countMark .ok outcomes = outcomes.countP fun outcome => outcome.verdict.isSuccess := by
  refine List.countP_congr fun outcome _ => ?_
  rw [beq_iff_eq, Verdict.mark_eq_ok_iff]

theorem countMark_cons (mark : Mark) (outcome : Outcome) (outcomes : List Outcome) :
    countMark mark (outcome :: outcomes) =
      countMark mark outcomes + if outcome.verdict.mark = mark then 1 else 0 := by
  simp only [countMark, List.countP_cons, beq_iff_eq]

/-- **Every outcome is counted once**: it passed, or it has one of the marks of failures. -/
theorem sum_countMark (outcomes : List Outcome) :
    (Mark.failures.map fun mark => countMark mark outcomes).sum + countMark .ok outcomes =
      outcomes.length := by
  induction outcomes with
  | nil => rfl
  | cons outcome outcomes ih =>
    simp only [Mark.failures, List.map_cons, List.map_nil, List.sum_cons, List.sum_nil,
      List.length_cons, countMark_cons] at ih ⊢
    cases outcome.verdict.mark <;> simp <;> omega

theorem countMark_pos_iff :
    0 < countMark mark outcomes ↔ ∃ outcome ∈ outcomes, outcome.verdict.mark = mark := by
  simp only [countMark, List.countP_pos_iff, beq_iff_eq]

theorem countMark_perm (h : outcomes.Perm others) (mark : Mark) :
    countMark mark outcomes = countMark mark others := h.countP_eq _

/-! ## The entries -/

/-- The entries of a list of failures: the marks are those of failures in their order, each with the
number of outcomes that have it, and none is left out that some outcome has. -/
structure IsBreakdown (outcomes : List Outcome) (entries : List (Mark × Nat)) : Prop where
  ordered : (entries.map Prod.fst).Sublist
    [.timeLimit, .runtimeError, .presentationError, .wrongAnswer]
  mem_iff : ∀ mark count, (mark, count) ∈ entries ↔
    mark ≠ .ok ∧ 0 < count ∧ count = outcomes.countP fun outcome => outcome.verdict.mark == mark
  addsUp : (entries.map Prod.snd).sum + (Summary.ofOutcomes outcomes).passed =
    (Summary.ofOutcomes outcomes).total

theorem mem_failureCounts_iff :
    (mark, count) ∈ failureCounts outcomes ↔
      mark ≠ .ok ∧ 0 < count ∧ count = countMark mark outcomes := by
  simp only [failureCounts, List.mem_filter, List.mem_map, Prod.mk.injEq, decide_eq_true_eq]
  constructor
  · rintro ⟨⟨mark, hmark, rfl, rfl⟩, hpos⟩
    exact ⟨(Mark.mem_failures_iff mark).mp hmark, hpos, rfl⟩
  · rintro ⟨hmark, hpos, rfl⟩
    exact ⟨⟨mark, (Mark.mem_failures_iff mark).mpr hmark, rfl, rfl⟩, hpos⟩

/-- What is left out counts nothing. -/
theorem sum_filter_pos (entries : List (Mark × Nat)) :
    ((entries.filter fun entry => 0 < entry.2).map Prod.snd).sum =
      (entries.map Prod.snd).sum := by
  induction entries with
  | nil => rfl
  | cons entry entries ih =>
    rw [List.filter_cons]
    split
    · rw [List.map_cons, List.map_cons, List.sum_cons, List.sum_cons, ih]
    · next hzero =>
      rw [decide_eq_true_eq, not_lt, Nat.le_zero] at hzero
      rw [List.map_cons, List.sum_cons, hzero, Nat.zero_add, ih]

theorem isBreakdown_failureCounts (outcomes : List Outcome) :
    IsBreakdown outcomes (failureCounts outcomes) := by
  refine ⟨?_, fun _ _ => mem_failureCounts_iff, ?_⟩
  · have hsub := (List.filter_sublist (p := fun entry : Mark × Nat => 0 < entry.2)
      (l := Mark.failures.map fun mark => (mark, countMark mark outcomes))).map Prod.fst
    simpa [failureCounts, Mark.failures] using hsub
  · rw [Summary.passed_eq_countP, ← countMark_ok]
    show _ = outcomes.length
    rw [← sum_countMark outcomes, failureCounts, sum_filter_pos, List.map_map]
    rfl

theorem failureCounts_ne_nil (h : ∃ outcome ∈ outcomes, outcome.verdict.isSuccess = false) :
    failureCounts outcomes ≠ [] := by
  obtain ⟨outcome, houtcome, hfailed⟩ := h
  have hmark : outcome.verdict.mark ≠ .ok := by
    rw [Ne, Verdict.mark_eq_ok_iff, hfailed]
    exact Bool.false_ne_true
  have hpos : 0 < countMark outcome.verdict.mark outcomes :=
    countMark_pos_iff.mpr ⟨outcome, houtcome, rfl⟩
  exact List.ne_nil_of_mem (mem_failureCounts_iff.mpr ⟨hmark, hpos, rfl⟩)

/-! ## The line -/

theorem allPassed_iff :
    (Summary.ofOutcomes outcomes).allPassed = true ↔
      ∀ outcome ∈ outcomes, outcome.verdict.isSuccess = true := by
  rw [Summary.allPassed, beq_iff_eq, Summary.passed_eq_countP]
  exact List.countP_eq_length

/-- The lines of a text that count failures. -/
def failuresLines (text : String) : List (List Char) :=
  (Text.split '\n' text.toList).filter fun line => "Failures:".toList.isPrefixOf line

theorem split_summaryText (outcomes : List Outcome) (summary : Summary) :
    Text.split '\n' (render false (summaryText outcomes summary)).toList =
      summaryLines outcomes summary := by
  rw [render, String.toList_ofList, renderChars_summaryText]
  refine Text.split_join (List.append_ne_nil_of_right_ne_nil _ (List.cons_ne_nil _ _)) ?_
  intro line hline
  exact (showsOnly_of_mem_summaryLines hline).lineFeed_not_mem

theorem failuresLines_summaryText (outcomes : List Outcome) (summary : Summary) :
    failuresLines (render false (summaryText outcomes summary)) =
      if summary.allPassed then [] else [failuresChars (failureCounts outcomes)] := by
  have hfailures : "Failures:".toList.isPrefixOf (failuresChars (failureCounts outcomes)) = true :=
    by simp [failuresChars, labelled]
  have hpassed : "Failures:".toList.isPrefixOf (passedChars summary) = false := by
    simp [passedChars, labelled, List.isPrefixOf_cons_cons]
  have haverage : "Failures:".toList.isPrefixOf (averageChars summary) = false := by
    simp [averageChars, labelled, List.isPrefixOf_cons_cons]
  have htotal : "Failures:".toList.isPrefixOf (totalChars summary) = false := by
    simp [totalChars, labelled, List.isPrefixOf_cons_cons]
  rw [failuresLines, split_summaryText, summaryLines, List.filter_append]
  cases summary.allPassed <;> simp only [if_true, if_false, Bool.false_eq_true, List.filter_cons,
    List.filter_nil, List.append_nil, hfailures, hpassed, haverage, htotal]

theorem failuresLines_of_success
    (h : ∀ outcome ∈ outcomes, outcome.verdict.isSuccess = true) :
    failuresLines (render false (summaryText outcomes (Summary.ofOutcomes outcomes))) = [] := by
  rw [failuresLines_summaryText, if_pos (allPassed_iff.mpr h)]

theorem failuresLines_of_failure
    (h : ∃ outcome ∈ outcomes, outcome.verdict.isSuccess = false) :
    failuresLines (render false (summaryText outcomes (Summary.ofOutcomes outcomes))) =
      [failuresChars (failureCounts outcomes)] := by
  obtain ⟨outcome, houtcome, hfailed⟩ := h
  have hnot : ¬ (Summary.ofOutcomes outcomes).allPassed = true := by
    intro hall
    rw [allPassed_iff.mp hall outcome houtcome] at hfailed
    cases hfailed
  rw [failuresLines_summaryText, if_neg hnot]

/-- What a summary says of outcomes, in numbers and in its text. -/
structure AddsUp (outcomes : List Outcome) (summary : Summary) (text : String) : Prop where
  total : summary.total = outcomes.length
  passed : summary.passed = outcomes.countP fun outcome => outcome.verdict.isSuccess
  passed_mark : summary.passed = outcomes.countP fun outcome => outcome.verdict.mark == .ok
  passed_score : summary.passed = outcomes.countP fun outcome => outcome.verdict.score?.isSome
  unlisted : (∀ outcome ∈ outcomes, outcome.verdict.isSuccess = true) → failuresLines text = []
  /-- If there is any failure, one line counts the failures, and it has entries. -/
  listed : (∃ outcome ∈ outcomes, outcome.verdict.isSuccess = false) →
    ∃ entries, entries ≠ [] ∧ failuresLines text = [failuresChars entries] ∧
      IsBreakdown outcomes entries

theorem addsUp_summaryText (outcomes : List Outcome) :
    AddsUp outcomes (Summary.ofOutcomes outcomes)
      (render false (summaryText outcomes (Summary.ofOutcomes outcomes))) where
  total := rfl
  passed := Summary.passed_eq_countP outcomes
  passed_mark := (Summary.passed_eq_countP outcomes).trans (countMark_ok outcomes).symm
  passed_score := by
    rw [Summary.passed_eq_countP]
    simp only [Verdict.isSome_score?]
  unlisted := failuresLines_of_success
  listed h := ⟨failureCounts outcomes, failureCounts_ne_nil h, failuresLines_of_failure h,
    isBreakdown_failureCounts outcomes⟩

/-- **The failures add up.** A summary counts all outcomes and those that passed, be it by
their verdicts, their marks or their scores. Its text has a line for the failures if and only if
some outcome did not pass. That line has an entry for each mark of failures that occurs and no
other, in their order and with the exact number, and these numbers add up to the number of the
outcomes that did not pass. All of that is the same for the outcomes in any other order. -/
theorem failures_add_up (outcomes : List Outcome) :
    AddsUp outcomes (Summary.ofOutcomes outcomes)
        (render false (summaryText outcomes (Summary.ofOutcomes outcomes))) ∧
      ∀ others, outcomes.Perm others →
        (Summary.ofOutcomes others).total = (Summary.ofOutcomes outcomes).total ∧
        (Summary.ofOutcomes others).passed = (Summary.ofOutcomes outcomes).passed ∧
        failuresLines (render false (summaryText others (Summary.ofOutcomes others))) =
          failuresLines (render false (summaryText outcomes (Summary.ofOutcomes outcomes))) := by
  refine ⟨addsUp_summaryText outcomes, fun others hperm => ?_⟩
  have htotal : (Summary.ofOutcomes others).total = (Summary.ofOutcomes outcomes).total :=
    hperm.length_eq.symm
  have hpassed : (Summary.ofOutcomes others).passed = (Summary.ofOutcomes outcomes).passed := by
    rw [Summary.passed_eq_countP, Summary.passed_eq_countP, hperm.countP_eq]
  have hcounts : failureCounts others = failureCounts outcomes := by
    simp only [failureCounts, countMark_perm hperm]
  refine ⟨htotal, hpassed, ?_⟩
  rw [failuresLines_summaryText, failuresLines_summaryText, hcounts, Summary.allPassed,
    Summary.allPassed, htotal, hpassed]

/-- A success and two failures. -/
def threeOutcomes : List Outcome :=
  [⟨1, "a", some 3, some 3, .success 3 1000.0, .zero⟩,
    ⟨2, "b", some 3, some 3, .wrongAnswer, .zero⟩,
    ⟨3, "c", some 3, none, .timeLimitExceeded .compress, .zero⟩]

theorem failures_of_three_outcomes :
    failuresLines (render false
        (summaryText threeOutcomes.reverse (Summary.ofOutcomes threeOutcomes.reverse))) =
      ["Failures:        TL x1,  WA x1".toList] := by
  have hperm : threeOutcomes.Perm threeOutcomes.reverse := (List.reverse_perm _).symm
  have hfailed : ∃ outcome ∈ threeOutcomes, outcome.verdict.isSuccess = false :=
    ⟨_, List.mem_cons_of_mem _ List.mem_cons_self, rfl⟩
  rw [((failures_add_up threeOutcomes).2 _ hperm).2.2, failuresLines_of_failure hfailed]
  decide +kernel

end CompressorBench.Report
