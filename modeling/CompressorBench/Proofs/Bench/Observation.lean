import CompressorBench.Proofs.Bench.Report
import CompressorBench.Proofs.Evaluation.Coherence

/-!
# What a run observes of a program

Of a reply it counts how it ended and, if that is success, the text that was written up to the
blanks at its end. Two programs whose replies agree in this much (`Program.Agrees`) are invoked
alike: the text that the compression wrote is the same, so the next payload is the same for both.
What else the programs write, why an invocation fails and how long it takes is lost on the way, and
a report tells of it at most the time. Only if the times of a case do not add up, then one of the
evaluations can break down while the other one comes to its verdict.

* `Program.Agrees.course`: programs that agree take the same course.
* `Program.Agrees.outcome_evaluate`: they come to the same outcome but for the time.
* `runs_of_agreeing_programs`: what whole runs have in common.
-/

namespace CompressorBench

variable {program program' : Program} {reply reply' : Reply} {phase : Phase}

/-! ## Replies that agree -/

/-- Two replies agree in what counts: both are failures, or both ended the same way and, if that is
success, wrote the same text up to blanks at its end. -/
inductive Reply.Agrees : Reply → Reply → Prop where
  | failures {failure failure' : Failure} : Agrees (.error failure) (.error failure')
  | answers {answer answer' : Answer} (hending : answer'.ending = answer.ending)
      (htext : answer.ending = .success →
        Text.trimEnd answer'.stdout = Text.trimEnd answer.stdout) :
      Agrees (.ok answer) (.ok answer')

theorem Reply.Agrees.refl (reply : Reply) : reply.Agrees reply := by
  cases reply with
  | error failure => exact .failures
  | ok answer => exact .answers rfl fun _ => rfl

/-- An evaluation does not look further than this. -/
theorem Reply.Agrees.outputText_eq (h : reply.Agrees reply') (phase : Phase) :
    Position.outputText phase reply' = Position.outputText phase reply := by
  cases h with
  | failures => rfl
  | @answers answer answer' hending htext =>
    simp only [Position.outputText, hending]
    cases hsuccess : answer.ending with
    | success => rw [htext hsuccess]
    | failed code => rfl
    | timedOut => rfl

theorem Reply.Agrees.resume_eq (h : reply.Agrees reply') (position : Position) :
    position.resume reply' = position.resume reply := by
  cases position with
  | compressing input =>
    simp only [Position.resume, Position.afterCompression, h.outputText_eq]
  | decompressing input compressed =>
    simp only [Position.resume, Position.finalVerdict, h.outputText_eq]
  | decided verdict compressedSize? => rfl
  | brokenDown compressedSize? => rfl

/-- Two programs agree if their replies to every invocation do. -/
def Program.Agrees (program program' : Program) : Prop :=
  ∀ phase payload, (program phase payload).Agrees (program' phase payload)

/-- A program that writes something else whenever it does not end with success. -/
def Program.withLateOutput (program : Program) (late : Phase → String → String) : Program :=
  fun phase payload =>
    match program phase payload with
    | .error failure => .error failure
    | .ok answer =>
      if answer.ending = .success then .ok answer
      else .ok { answer with stdout := late phase payload }

theorem Program.agrees_withLateOutput (program : Program) (late : Phase → String → String) :
    program.Agrees (program.withLateOutput late) := by
  intro phase payload
  rw [withLateOutput]
  cases program phase payload with
  | error failure => exact .failures
  | ok answer =>
    by_cases hsuccess : answer.ending = .success
    · simp only [if_pos hsuccess]
      exact .refl _
    · simp only [if_neg hsuccess]
      exact .answers rfl fun h => absurd h hsuccess

/-! ## Evaluations of programs that agree -/

namespace Program.Agrees

variable {payload text : String} {verdict : Verdict} {input : Payload}
  {calls : List (Phase × String)}

theorem writes (h : program.Agrees program') (hwrites : Writes program phase payload text) :
    Writes program' phase payload text := by
  rw [← outputText_eq_ok_iff] at hwrites ⊢
  rw [(h phase payload).outputText_eq, hwrites]

theorem fails (h : program.Agrees program') (hfails : Fails program phase payload verdict) :
    Fails program' phase payload verdict := by
  rw [← outputText_eq_error_iff] at hfails ⊢
  rw [(h phase payload).outputText_eq, hfails]

/-- **Programs that agree take the same course**: the payload of the decompression is the same,
because it is the text that the compression wrote. -/
theorem course (h : program.Agrees program') (hcourse : Course program input verdict calls) :
    Course program' input verdict calls := by
  cases hcourse with
  | compressionFails hfails => exact .compressionFails (h.fails hfails)
  | notBase64 hwrites hsize => exact .notBase64 (h.writes hwrites) hsize
  | tooLarge hwrites hsize hlarge => exact .tooLarge (h.writes hwrites) hsize hlarge
  | decompressionFails hwrites hsize hle hfails =>
    exact .decompressionFails (h.writes hwrites) hsize hle (h.fails hfails)
  | wrongAnswer hwrites hsize hle hother hne =>
    exact .wrongAnswer (h.writes hwrites) hsize hle (h.writes hother) hne
  | success hwrites hsize hle hback => exact .success (h.writes hwrites) hsize hle (h.writes hback)

/-- They are invoked alike, whatever the times are. -/
theorem calls_evaluate (h : program.Agrees program') (case : TestCase) (i j : Nat) :
    (evaluate program' j case).calls = (evaluate program i case).calls := by
  cases hpayload : case.payload with
  | error defect => rw [(evaluate_of_error hpayload _ _).2, (evaluate_of_error hpayload _ _).2]
  | ok input =>
    obtain ⟨verdict, hcourse, -⟩ := course_evaluate hpayload program i
    exact ((h.course hcourse).evaluate_eq hpayload j).1

theorem compressedSize?_evaluate (h : program.Agrees program') (case : TestCase) (i j : Nat) :
    (evaluate program' j case).outcome.compressedSize? =
      (evaluate program i case).outcome.compressedSize? := by
  cases hpayload : case.payload with
  | error defect => rw [evaluate_of_rejected hpayload, evaluate_of_rejected hpayload]; rfl
  | ok input =>
    have hafter := (h .compress input.token).resume_eq (.compressing input)
    rw [CompressorBench.compressedSize?_evaluate hpayload,
      CompressorBench.compressedSize?_evaluate hpayload]
    exact congrArg Position.compressedSize? hafter

theorem verdict?_evaluate (h : program.Agrees program') (case : TestCase) (i j : Nat)
    (hfit : TimesFit program (evaluate program i case).calls)
    (hfit' : TimesFit program' (evaluate program' j case).calls) :
    (evaluate program' j case).verdict? = (evaluate program i case).verdict? := by
  cases hpayload : case.payload with
  | error defect =>
    rw [(verdict?_of_rejected hpayload _ _).1, (verdict?_of_rejected hpayload _ _).1]
  | ok input =>
    obtain ⟨verdict, hcourse, hverdict⟩ := course_evaluate hpayload program i
    rw [h.calls_evaluate case i j] at hfit'
    rw [hverdict hfit, ((h.course hcourse).evaluate_eq hpayload j).2 hfit']

/-- **They come to the same outcome**, but for the index and the time, if the times of both add
up. -/
theorem outcome_evaluate (h : program.Agrees program') (case : TestCase) (i j : Nat)
    (hfit : TimesFit program (evaluate program i case).calls)
    (hfit' : TimesFit program' (evaluate program' j case).calls) :
    (evaluate program' j case).outcome.untimed =
      { (evaluate program i case).outcome.untimed with index := j } := by
  have hsize : (evaluate program' j case).position.compressedSize? =
      (evaluate program i case).position.compressedSize? := h.compressedSize?_evaluate case i j
  simp only [Evaluation.outcome, Outcome.untimed, h.verdict?_evaluate case i j hfit hfit', hsize,
    index_evaluate, case_evaluate]

end Program.Agrees

section

variable {cases : List TestCase}

theorem untimed_evaluateAll (h : Endures program cases) (h' : Endures program' cases)
    (hagree : program.Agrees program') :
    ((evaluateAll program' cases).map Evaluation.outcome).map Outcome.untimed =
      ((evaluateAll program cases).map Evaluation.outcome).map Outcome.untimed := by
  refine List.ext_getElem (by simp [evaluateAll]) fun i hi hi' => ?_
  simp only [evaluateAll, List.getElem_map, List.getElem_mapIdx]
  rw [hagree.outcome_evaluate _ (i + 1) (i + 1) (h _ (List.getElem_mem _) _)
    (h' _ (List.getElem_mem _) _)]
  simp only [Evaluation.outcome, Outcome.untimed, index_evaluate]

theorem calls_evaluateAll (hagree : program.Agrees program') (cases : List TestCase) :
    (evaluateAll program' cases).map Evaluation.calls =
      (evaluateAll program cases).map Evaluation.calls := by
  refine List.ext_getElem (by simp [evaluateAll]) fun i hi hi' => ?_
  simp only [evaluateAll, List.getElem_map, List.getElem_mapIdx]
  exact hagree.calls_evaluate _ _ _

/-- A program that agrees and takes as long endures the same cases. -/
theorem Endures.of_agrees (h : Endures program cases) (hagree : program.Agrees program')
    (htimes : ∀ call, (program'.exchange call).elapsed = (program.exchange call).elapsed) :
    Endures program' cases := by
  intro case hcase index
  have hfit := h case hcase index
  rw [← hagree.calls_evaluate case index index] at hfit
  rwa [TimesFit, nanosecondsOf_congr htimes]

/-- What a program writes too late takes no time. -/
theorem Endures.withLateOutput (h : Endures program cases) (late : Phase → String → String) :
    Endures (program.withLateOutput late) cases := by
  refine h.of_agrees (program.agrees_withLateOutput late) fun call => ?_
  simp only [Exchange.elapsed, Program.exchange, Program.withLateOutput]
  cases program call.1 call.2 with
  | error failure => rfl
  | ok answer =>
    by_cases hsuccess : answer.ending = .success <;> simp only [hsuccess, if_true, if_false]

end

namespace Report

variable {outcomes outcomes' : List Outcome}

/-- A summary counts and adds up without looking at the times. -/
theorem ofOutcomes_untimed (outcomes : List Outcome) :
    Summary.ofOutcomes (outcomes.map Outcome.untimed) = Summary.ofOutcomes outcomes := by
  have hscores : Summary.scores (outcomes.map Outcome.untimed) = Summary.scores outcomes :=
    List.filterMap_map
  simp only [Summary.ofOutcomes, hscores, List.length_map, List.isEmpty_map]

theorem countMark_untimed (mark : Mark) (outcomes : List Outcome) :
    countMark mark (outcomes.map Outcome.untimed) = countMark mark outcomes :=
  List.countP_map

/-- The time of a case is not printed. -/
theorem resultText_untimed (layout : Layout) (outcomes : List Outcome) (summary : Summary) :
    resultText layout (outcomes.map Outcome.untimed) summary =
      resultText layout outcomes summary := by
  have hlines : ((outcomes.map Outcome.untimed).flatMap fun outcome =>
      layout.line outcome ++ [lineBreak]) =
        outcomes.flatMap fun outcome => layout.line outcome ++ [lineBreak] :=
    List.flatMap_map ..
  simp only [resultText, summaryText, failuresLine, failureCounts, hlines, countMark_untimed]

theorem ofOutcomes_eq_of_untimed
    (h : outcomes'.map Outcome.untimed = outcomes.map Outcome.untimed) :
    Summary.ofOutcomes outcomes' = Summary.ofOutcomes outcomes := by
  rw [← ofOutcomes_untimed outcomes', h, ofOutcomes_untimed]

end Report

/-- Outcomes that differ in their times only are printed the same. -/
theorem Bench.printedText_eq_of_untimed {outcomes outcomes' : List Outcome}
    (h : outcomes'.map Outcome.untimed = outcomes.map Outcome.untimed) (cases : List TestCase) :
    Bench.printedText cases outcomes' = Bench.printedText cases outcomes := by
  simp only [printedText]
  rw [Report.ofOutcomes_eq_of_untimed h, ← Report.resultText_untimed _ outcomes', h,
    Report.resultText_untimed]

/-! ## A program that answers too late -/

/-- A program that gives its payload back, except that the decompression is stopped at its limit. It
may have written something by then. -/
def Program.stopped (blanks written : String) (taken : Duration) : Program
  | .compress, payload =>
    .ok { ending := .success, stdout := payload ++ blanks, stderr := "", elapsed := taken }
  | .decompress, _ =>
    .ok { ending := .timedOut, stdout := written, stderr := written, elapsed := taken }

theorem Program.agrees_stopped (written written' : String) (taken taken' : Duration) :
    (stopped "" written taken).Agrees (stopped "\n" written' taken') := by
  intro phase payload
  cases phase with
  | decompress => exact .answers rfl nofun
  | compress =>
    refine .answers rfl fun _ => ?_
    have hblank : ∀ c ∈ ['\n'], Text.isBlank c = true := List.forall_mem_singleton.mpr rfl
    rw [← String.toList_inj, Text.toList_trimEnd, Text.toList_trimEnd]
    simp only [String.toList_append, String.toList_empty, List.append_nil]
    exact Text.trimEndChars_append hblank payload.toList

theorem Program.isMeasured_stopped (blanks written : String) (taken : ClockTime) :
    (stopped blanks written taken.duration).IsMeasured := by
  intro phase payload answer hreply
  cases phase <;> cases hreply <;> exact ⟨taken, rfl⟩

/-! ## Whole runs -/

namespace Pool

/-- What the ends of two runs over cases have in common: the same outcomes but for the times, the
same invocations, and for each case in the same order, and the same report. -/
structure SameResults (cases : List TestCase) (final final' : Pool) : Prop where
  outcomes : final'.outcomes.map Outcome.untimed = final.outcomes.map Outcome.untimed
  calls : final'.calls.Perm final.calls
  callsOfEach : final'.evaluations.map Evaluation.calls = final.evaluations.map Evaluation.calls
  summary : Report.Summary.ofOutcomes final'.outcomes = Report.Summary.ofOutcomes final.outcomes
  printed : ∀ colors, Report.renderChars colors (Bench.printedText cases final'.outcomes) =
    Report.renderChars colors (Bench.printedText cases final.outcomes)

variable {jobs : Nat} {schedule schedule' : Schedule} {cases : List TestCase} {final final' : Pool}

theorem calls_of_runAll (h : runAll jobs program schedule cases = .ok final) :
    final.calls.Perm ((evaluateAll program cases).flatMap Evaluation.calls) := by
  have hendures := endures_of_runAll h
  obtain ⟨hsteps, hstuck⟩ := (runAll_eq_ok_iff (le_of_runAll h) hendures).mp ⟨schedule, h⟩
  exact calls_of_stuck ((accounts_start jobs program cases).steps hendures hsteps) hstuck

theorem sameResults_of_runAll (hagree : program.Agrees program')
    (h : runAll jobs program schedule cases = .ok final)
    (h' : runAll jobs program' schedule' cases = .ok final') :
    SameResults cases final final' := by
  have hendures := endures_of_runAll h
  have hendures' := endures_of_runAll h'
  have houtcomes : final'.outcomes.map Outcome.untimed = final.outcomes.map Outcome.untimed := by
    rw [outcomes_of_runAll h, outcomes_of_runAll h', untimed_evaluateAll hendures hendures' hagree]
  have hcalls := calls_evaluateAll hagree cases
  constructor
  case outcomes => exact houtcomes
  case calls =>
    have hflat : (evaluateAll program' cases).flatMap Evaluation.calls =
        (evaluateAll program cases).flatMap Evaluation.calls := by
      rw [List.flatMap_def, List.flatMap_def, hcalls]
    exact (calls_of_runAll h').trans (hflat ▸ (calls_of_runAll h).symm)
  case callsOfEach => rw [evaluations_of_runAll h, evaluations_of_runAll h', hcalls]
  case summary => exact Report.ofOutcomes_eq_of_untimed houtcomes
  case printed =>
    intro colors
    rw [Bench.printedText_eq_of_untimed houtcomes]

theorem exists_sameResults (hagree : program.Agrees program') (hjobs : jobs ≤ maxWorkers)
    (h : Endures program cases) (h' : Endures program' cases) (schedule schedule' : Schedule) :
    ∃ final final', runAll jobs program schedule cases = .ok final ∧
      runAll jobs program' schedule' cases = .ok final' ∧ SameResults cases final final' := by
  have hrun := runAll_of_le hjobs h schedule
  have hrun' := runAll_of_le hjobs h' schedule'
  exact ⟨_, _, hrun, hrun', sameResults_of_runAll hagree hrun hrun'⟩

/-- **Runs of programs that agree have the same results**, in whatever order the tasks of either run
move, as long as a pool can have the workers and the times of every case add up. In particular
nothing depends on what an invocation writes that fails or is stopped at its limit, even if the
output is delivered. -/
theorem runs_of_agreeing_programs {program program' : Program} (hagree : program.Agrees program')
    {jobs : Nat} (hjobs : jobs ≤ maxWorkers) {cases : List TestCase}
    (h : Endures program cases) (h' : Endures program' cases) (schedule schedule' : Schedule) :
    (∃ final final', runAll jobs program schedule cases = .ok final ∧
      runAll jobs program' schedule' cases = .ok final' ∧ SameResults cases final final') ∧
    ∀ late, ∃ final final', runAll jobs program schedule cases = .ok final ∧
      runAll jobs (program.withLateOutput late) schedule' cases = .ok final' ∧
      SameResults cases final final' :=
  ⟨exists_sameResults hagree hjobs h h' schedule schedule',
    fun late => exists_sameResults (program.agrees_withLateOutput late) hjobs h
      (h.withLateOutput late) schedule schedule'⟩

/-- It makes no difference if the right answer was written before the program was stopped. -/
theorem runs_of_late_answer :
    (Program.stopped "" "" .zero).Agrees (.stopped "\n" "QQ==" Runner.defaultLimit) ∧
      ∃ final final', runAll 1 (.stopped "" "" .zero) id [⟨"a", .ok .oneByte⟩] = .ok final ∧
        runAll 1 (.stopped "\n" "QQ==" Runner.defaultLimit) id [⟨"a", .ok .oneByte⟩] = .ok final' ∧
        SameResults [⟨"a", .ok .oneByte⟩] final final' := by
  have hagree := Program.agrees_stopped "" "QQ==" .zero Runner.defaultLimit
  have hjobs : 1 ≤ maxWorkers := by decide
  have hendures : Endures (.stopped "" "" .zero) [⟨"a", .ok .oneByte⟩] :=
    (Program.isMeasured_stopped "" "" .start).endures _
  have hendures' : Endures (.stopped "\n" "QQ==" Runner.defaultLimit) [⟨"a", .ok .oneByte⟩] :=
    (Program.isMeasured_stopped "\n" "QQ==" (.after Runner.defaultLimit)).endures _
  exact ⟨hagree, (runs_of_agreeing_programs hagree hjobs hendures hendures' id id).1⟩

/-- A program that is stopped when it has given its payload back is invoked twice all the same. -/
theorem calls_stopped (written : String) (taken : Duration) (index : Nat) :
    (evaluate (.stopped "\n" written taken) index ⟨"a", .ok .oneByte⟩).calls =
      [(.compress, "QQ=="), (.decompress, "QQ==")] := by
  have htext : Text.trimEnd ("QQ==" ++ "\n") = "QQ==" := by decide +kernel
  have hwrites : Writes (.stopped "\n" written taken) .compress "QQ==" "QQ==" :=
    ⟨_, rfl, rfl, htext⟩
  have hcourse : Course (.stopped "\n" written taken) .oneByte _ _ :=
    .decompressionFails hwrites Payload.oneByte.decodedSize_token Payload.oneByte.size_le
      (.timedOut rfl rfl)
  exact (hcourse.evaluate_eq rfl index).1

/-- **Times that do not add up make a difference**, although the programs agree; and with more jobs
than a pool can have permits for there are no results at all. -/
theorem results_of_long_times_differ :
    (Program.stopped "" "" .zero).Agrees (.stopped "\n" "" .longest) ∧
      (∃ final, runAll 1 (.stopped "" "" .zero) id [⟨"a", .ok .oneByte⟩] = .ok final) ∧
      (∀ schedule, runAll 1 (.stopped "\n" "" .longest) schedule [⟨"a", .ok .oneByte⟩] =
        .error (TaskEnd.panicFailure TaskEnd.overflowReport)) ∧
      ∀ program schedule, runAll 2305843009213693952 program schedule [⟨"a", .ok .oneByte⟩] =
        .error (.ofCause (.tooManyWorkers 2305843009213693952)) := by
  have hendures : Endures (.stopped "" "" .zero) [⟨"a", .ok .oneByte⟩] :=
    (Program.isMeasured_stopped "" "" .start).endures _
  have hlong : ¬ Endures (.stopped "\n" "" .longest) [⟨"a", .ok .oneByte⟩] := by
    intro hendures
    have hfit := hendures _ List.mem_cons_self 1
    rw [calls_stopped, TimesFit, nanosecondsOf_pair] at hfit
    exact absurd hfit (by decide +kernel)
  exact ⟨Program.agrees_stopped "" "" .zero .longest, ⟨_, runAll_of_le (by decide) hendures id⟩,
    runAll_of_not_endures (by decide) hlong,
    fun program schedule => runAll_of_lt (by decide) program schedule _⟩

end Pool

end CompressorBench
