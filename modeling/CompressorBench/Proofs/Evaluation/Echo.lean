import CompressorBench.Report.Layout
import CompressorBench.Proofs.Evaluation.Coherence
import CompressorBench.Proofs.Evaluation.Points
import CompressorBench.Proofs.Pool.Runs

/-!
# A program that gives back what it gets

A program that prints its payload and a line break passes every case that is accepted, whatever the
payload is: the line break is trimmed, what is left is the payload as it stands, and so it is
accepted again and equal to the text of the case. Nothing is gained, so every case scores 1000, and
the scores of a run are added without rounding.

* `verdict?_of_echoes`: an accepted case passes with 1000 points.
* `scores_of_echoes`: so does every case of a run.
* `echo_law`: single cases and whole runs.
-/

namespace CompressorBench

open Decimal.Binary64

variable {program : Program} {case : TestCase} {input : Payload}

/-! ## One case -/

theorem score_payload (input : Payload) : score input.size input.size = 1000.0 := by
  have hle : input.size ≤ 2 ^ 21 := input.size_le
  exact score_self (by omega)

/-- **An accepted case passes with 1000 points.** -/
theorem verdict?_of_echoes (h : Echoes program) (hinput : case.payload = .ok input) (index : Nat)
    (hfit : TimesFit program [(.compress, input.token), (.decompress, input.token)]) :
    (evaluate program index case).verdict? = some (.success input.size 1000.0) := by
  rw [← score_payload input]
  exact ((h.course input).evaluate_eq hinput index).2 hfit

/-- The sizes before and after are the same. -/
theorem sizes_of_echoes (h : Echoes program) (hinput : case.payload = .ok input) (index : Nat) :
    (evaluate program index case).outcome.inputSize? = some input.size ∧
      (evaluate program index case).outcome.compressedSize? = some input.size := by
  constructor
  · show (evaluate program index case).case.size? = _
    rw [case_evaluate, TestCase.size?, hinput]
  · exact compressedSize?_of_writes hinput (h.writes .compress input) input.decodedSize_token index

/-! ## Many cases -/

theorem filterMap_eq_replicate {α β : Type} {f : α → Option β} {items : List α} {b : β}
    (h : ∀ a ∈ items, f a = some b) : items.filterMap f = List.replicate items.length b := by
  induction items with
  | nil => rfl
  | cons a items ih =>
    rw [List.filterMap_cons_some (h a List.mem_cons_self),
      ih fun c hc => h c (List.mem_cons_of_mem a hc)]
    rfl

/-- **Every case of a run scores 1000.** -/
theorem scores_of_echoes (h : Echoes program) {cases : List TestCase}
    (hendures : Endures program cases)
    (hcases : ∀ case ∈ cases, ∃ input, case.payload = .ok input) :
    Report.Summary.scores ((evaluateAll program cases).map Evaluation.outcome) =
      List.replicate cases.length 1000.0 := by
  have hlength : ((evaluateAll program cases).map Evaluation.outcome).length = cases.length := by
    rw [List.length_map, evaluateAll, List.length_mapIdx]
  rw [← hlength]
  refine filterMap_eq_replicate fun outcome houtcome => ?_
  obtain ⟨evaluation, hevaluation, rfl⟩ := List.mem_map.mp houtcome
  obtain ⟨case, hcase, index, rfl⟩ := mem_evaluateAll hevaluation
  obtain ⟨input, hinput⟩ := hcases case hcase
  have hfit := hendures case hcase index
  rw [calls_of_echoes h hinput] at hfit
  have hverdict := Evaluation.verdict_outcome (verdict?_of_echoes h hinput index hfit)
  rw [hverdict]
  rfl

namespace Report

/-- The summary of a run in which all of `n` cases passed with 1000 points. -/
structure PassesEvenly (n : Nat) (outcomes : List Outcome) (summary : Summary) : Prop where
  total : summary.total = n
  passed : summary.passed = n
  /-- The sum is exact. -/
  totalScore : Denotes summary.totalScore (1000 * n : ℕ)
  averageScore : 1 ≤ n → summary.averageScore = 1000.0
  /-- There is no line for failures. -/
  text : summaryText outcomes summary =
    [colored .yellow "Passed tests:   ".toList, colored .green (Decimal.natChars n ++ '/' ::
        Decimal.natChars n), lineBreak,
      colored .yellow "Average points: ".toList, colored .cyan (scoreText summary.averageScore),
      lineBreak,
      colored .yellow "Total points:   ".toList, colored .cyan (scoreText summary.totalScore)]

theorem passesEvenly_of_scores {outcomes : List Outcome}
    (h : Summary.scores outcomes = List.replicate outcomes.length 1000.0)
    (hlength : outcomes.length < 2 ^ 43) :
    PassesEvenly outcomes.length outcomes (Summary.ofOutcomes outcomes) := by
  have hpassed : (Summary.ofOutcomes outcomes).passed = outcomes.length := by
    show (Summary.scores outcomes).length = _
    rw [h, List.length_replicate]
  have htotal : (Summary.ofOutcomes outcomes).total = outcomes.length := rfl
  refine ⟨htotal, hpassed, ?_, fun hpos => ?_, ?_⟩
  · show Denotes (Summary.sum (Summary.scores outcomes)) _
    rw [h]
    exact Summary.denotes_sum_replicate hlength
  · have hsome : outcomes.isEmpty = false := by
      rw [List.isEmpty_eq_false_iff]
      exact List.length_pos_iff.mp hpos
    simp only [Summary.ofOutcomes, hsome, h, Bool.false_eq_true, if_false]
    exact Summary.average_replicate hpos hlength
  · have hall : (Summary.ofOutcomes outcomes).allPassed = true := by
      rw [Summary.allPassed, hpassed, htotal, beq_self_eq_true]
    rw [summaryText, if_pos hall, if_pos hall, hpassed, htotal]
    rfl

end Report

/-- **What an echo comes to.** A file whose case is rejected is not invoked at all; for every other
one the program is given the payload in both phases, and the case passes with 1000 points if the two
times add up. A run of fewer than `2 ^ 43` accepted cases, with as many workers as a pool can have
and times that add up, passes all of them, in whatever order its tasks move, and its sum and its
average are exact. -/
theorem echo_law (h : Echoes program) :
    (∀ index name contents,
      match (TestCase.ofContents name contents).payload with
      | .error defect =>
        (evaluate program index (TestCase.ofContents name contents)).verdict? =
            some (.presentationError .input defect) ∧
          (evaluate program index (TestCase.ofContents name contents)).calls = []
      | .ok input =>
        (TimesFit program [(.compress, input.token), (.decompress, input.token)] →
          (evaluate program index (TestCase.ofContents name contents)).verdict? =
            some (.success input.size 1000.0)) ∧
          (evaluate program index (TestCase.ofContents name contents)).outcome.inputSize? =
            some input.size ∧
          (evaluate program index (TestCase.ofContents name contents)).outcome.compressedSize? =
            some input.size ∧
          (evaluate program index (TestCase.ofContents name contents)).calls =
            [(.compress, input.token), (.decompress, input.token)]) ∧
    ∀ jobs schedule cases, jobs ≤ Pool.maxWorkers → Endures program cases →
      cases.length < 2 ^ 43 → (∀ case ∈ cases, ∃ input, TestCase.payload case = .ok input) →
      ∃ pool, Pool.runAll jobs program schedule cases = .ok pool ∧
        Report.PassesEvenly cases.length pool.outcomes
          (Report.Summary.ofOutcomes pool.outcomes) := by
  refine ⟨fun index name contents => ?_,
    fun jobs schedule cases hjobs hendures hlength hcases => ?_⟩
  · cases hpayload : (TestCase.ofContents name contents).payload with
    | error defect => exact verdict?_of_rejected hpayload program index
    | ok input =>
      obtain ⟨hinput, hcompressed⟩ := sizes_of_echoes h hpayload index
      exact ⟨verdict?_of_echoes h hpayload index, hinput, hcompressed,
        calls_of_echoes h hpayload index⟩
  · have hrun := Pool.runAll_of_le hjobs hendures schedule
    refine ⟨_, hrun, ?_⟩
    have houtcomes := Pool.outcomes_of_runAll hrun
    generalize (Pool.start jobs cases).run program schedule 0 = pool at houtcomes ⊢
    have hcount : pool.outcomes.length = cases.length := by
      rw [houtcomes, List.length_map, evaluateAll, List.length_mapIdx]
    have hscores := scores_of_echoes h hendures hcases
    rw [← houtcomes, ← hcount] at hscores
    rw [← hcount] at hlength ⊢
    exact Report.passesEvenly_of_scores hscores hlength

/-- A case whose second word is the text of a payload is accepted. -/
theorem payload_of_wordAt? {contents : String}
    (h : Text.wordAt? 1 contents.toList = some input.token.toList) (name : String) :
    (TestCase.ofContents name contents).payload = .ok input := by
  rw [TestCase.ofContents, h]
  show Payload.ofToken (String.ofList input.token.toList) = .ok input
  rw [String.ofList_toList]
  exact input.ofToken_token

/-- An echo that takes as long as a duration can be. -/
def slowEcho : Program := fun _ payload => .ok ⟨.success, payload ++ "\n", "", .longest⟩

theorem echoes_slowEcho : Echoes slowEcho := fun _ _ => ⟨_, rfl, rfl, rfl⟩

/-- **With too many jobs even an echo has no summary**, and with times that do not add up it has no
verdict. -/
theorem no_summary_of_many_jobs :
    (∃ input, (TestCase.ofContents "a.txt" "l QUJD").payload = .ok input) ∧
      Echoes echo ∧
      (∀ schedule, Pool.runAll 2305843009213693952 echo schedule
          [TestCase.ofContents "a.txt" "l QUJD"] =
        .error (.ofCause (.tooManyWorkers 2305843009213693952))) ∧
      Echoes slowEcho ∧
      (evaluate slowEcho 1 (TestCase.ofContents "a.txt" "l QUJD")).verdict? = none := by
  have hpayload : (TestCase.ofContents "a.txt" "l QUJD").payload =
      .ok ⟨"QUJD", 3, by decide +kernel, rfl⟩ :=
    payload_of_wordAt? (by decide +kernel) "a.txt"
  have hjobs : ¬ 2305843009213693952 ≤ Pool.maxWorkers := by decide
  have hlong : ¬ TimesFit slowEcho [(.compress, "QUJD"), (.decompress, "QUJD")] := by
    rw [TimesFit, nanosecondsOf_pair]
    decide +kernel
  refine ⟨⟨_, hpayload⟩, echoes_echo, fun schedule => Pool.runAll_of_lt hjobs echo schedule _,
    echoes_slowEcho, ?_⟩
  cases hverdict : (evaluate slowEcho 1 (TestCase.ofContents "a.txt" "l QUJD")).verdict? with
  | none => rfl
  | some verdict =>
    have hfit := (isBroken_evaluate_eq_false_iff slowEcho 1 _).mp
      (Evaluation.isBroken_of_verdict? hverdict)
    rw [calls_of_echoes echoes_slowEcho hpayload] at hfit
    exact absurd hfit hlong

/-- Two cases, the second with bits in its last symbol that belong to no byte. -/
theorem echo_law_of_echo :
    ∃ pool, Pool.runAll 2 echo id
        [TestCase.ofContents "a" "A QUJD", TestCase.ofContents "b" "B QR==\n"] = .ok pool ∧
      (Report.Summary.ofOutcomes pool.outcomes).passed = 2 ∧
      (Report.Summary.ofOutcomes pool.outcomes).averageScore = 1000.0 := by
  have hcases : ∀ case ∈ [TestCase.ofContents "a" "A QUJD", TestCase.ofContents "b" "B QR==\n"],
      ∃ input, TestCase.payload case = .ok input := by
    intro case hcase
    rcases List.mem_pair.mp hcase with rfl | rfl
    · exact ⟨⟨"QUJD", 3, by decide +kernel, rfl⟩, payload_of_wordAt? (by decide +kernel) "a"⟩
    · exact ⟨⟨"QR==", 1, by decide +kernel, rfl⟩, payload_of_wordAt? (by decide +kernel) "b"⟩
  obtain ⟨pool, hrun, hpasses⟩ := (echo_law echoes_echo).2 2 id _ (by decide)
    (isMeasured_echo.endures _) (by decide) hcases
  exact ⟨pool, hrun, hpasses.passed, hpasses.averageScore (by decide)⟩

end CompressorBench
