import CompressorBench.Proofs.Bench.Report
import CompressorBench.Proofs.Report.LineBreaks

/-!
# A line for each case

A report is read line by line: there is one for each case, at the place of its index, and three or
four for the summary. Of all that files and programs bring about, only the name of a file gets into
a line as it is: once as the name, and a second time in the message that the file cannot be read.
Every line break in a name is a line too many, and nothing else is.

* `count_ownChars_evaluate`: the line breaks that a line takes over from an evaluation.
* `printed_of_result`: what a run prints, in terms of its outcomes.
* `lines_of_report`: the lines of a report.
-/

namespace CompressorBench

open Report (ownChars reasonChars ShowsOnly)

variable {program : Program} {tree : FileTree} {path : String} {verdict : Verdict} {defect : Defect}

/-! ## What a line takes over -/

/-- How often the line of a case shows its name. -/
def Verdict.timesNamed : Verdict → Nat
  | .presentationError .input (.unreadableFile _) => 2
  | _ => 1

theorem Verdict.timesNamed_pos (verdict : Verdict) : 0 < verdict.timesNamed := by
  unfold timesNamed
  split <;> decide

theorem OsError.showsOnly_message (error : OsError) : ShowsOnly [] error.message.toList := by
  cases error <;> exact Report.showsOnly_of_all (by decide)

/-- The message that a file cannot be read holds the path once, and no other line break. -/
theorem FileTree.count_message_of_readContents {error : FileError}
    (h : tree.readContents path = .error error) :
    error.message.toList.count '\n' = path.toList.count '\n' := by
  rw [readContents] at h
  cases hread : tree.readText path with
  | ok text => rw [hread] at h; cases h
  | error cause =>
    rw [hread] at h
    obtain rfl := Except.error.inj h
    have hbefore : ShowsOnly [] "Cannot read file (".toList := Report.showsOnly_of_all (by decide)
    have hbetween : ShowsOnly [] "): ".toList := Report.showsOnly_of_all (by decide)
    show ("Cannot read file (" ++ path ++ "): " ++ cause.message).toList.count '\n' = _
    rw [String.toList_append, String.toList_append, String.toList_append, List.count_append,
      List.count_append, List.count_append, hbefore.count_eq_zero, hbetween.count_eq_zero,
      cause.showsOnly_message.count_eq_zero, Nat.zero_add, Nat.add_zero]

theorem Defect.showsOnly_message_tooLarge (size : Nat) :
    ShowsOnly [] (Defect.tooLarge size).message.toList := by
  show ShowsOnly [] ("too large (" ++ toString size ++ ")").toList
  simp [Report.isVisible]

/-- The line of a rejected case shows the name again if the file cannot be read. -/
theorem TestCase.count_message_of_load (h : (TestCase.load tree path).payload = .error defect) :
    path.toList.count '\n' + defect.message.toList.count '\n' =
      (Verdict.presentationError .input defect).timesNamed * path.toList.count '\n' := by
  cases hread : tree.readContents path with
  | error error =>
    obtain rfl : Defect.unreadableFile error.message = defect := by
      rw [TestCase.load, hread] at h
      exact Except.error.inj h
    have hlabel : ShowsOnly [] "failed to read file: ".toList :=
      Report.showsOnly_of_all (by decide)
    show path.toList.count '\n' + ("failed to read file: " ++ error.message).toList.count '\n' =
      2 * path.toList.count '\n'
    rw [String.toList_append, List.count_append, hlabel.count_eq_zero,
      FileTree.count_message_of_readContents hread, Nat.zero_add, Nat.two_mul]
  | ok contents =>
    -- what is wrong with a text that was read is told without the text
    have htame : ShowsOnly [] defect.message.toList ∧
        (Verdict.presentationError .input defect).timesNamed = 1 := by
      rw [TestCase.load, hread] at h
      simp only [TestCase.ofContents] at h
      split at h
      · cases h
        exact ⟨Report.showsOnly_of_all (by decide), rfl⟩
      · rcases Payload.ofToken_eq_error_iff.mp h with ⟨rfl, -⟩ | ⟨size, rfl, -⟩
        · exact ⟨Report.showsOnly_of_all (by decide), rfl⟩
        · exact ⟨Defect.showsOnly_message_tooLarge size, rfl⟩
    rw [htame.1.count_eq_zero, htame.2, Nat.add_zero, Nat.one_mul]

theorem Fails.count_reasonChars {phase : Phase} {payload : String}
    (h : Fails program phase payload verdict) :
    (reasonChars verdict).count '\n' = 0 ∧ verdict.timesNamed = 1 := by
  cases h <;> exact ⟨rfl, rfl⟩

/-- What is wrong with an output is told without the output. -/
theorem Course.count_reasonChars {input : Payload} {calls : List (Phase × String)}
    (h : Course program input verdict calls) :
    (reasonChars verdict).count '\n' = 0 ∧ verdict.timesNamed = 1 := by
  cases h with
  | compressionFails hfails => exact hfails.count_reasonChars
  | notBase64 => exact ⟨(Report.showsOnly_of_all (by decide)).count_eq_zero, rfl⟩
  | @tooLarge _ size => exact ⟨(Defect.showsOnly_message_tooLarge size).count_eq_zero, rfl⟩
  | decompressionFails _ _ _ hfails => exact hfails.count_reasonChars
  | wrongAnswer => exact ⟨rfl, rfl⟩
  | success => exact ⟨rfl, rfl⟩

/-- **A line takes over the line breaks of the name**, once for every time that it shows the
name. -/
theorem count_ownChars_evaluate (program : Program) (index : Nat) (tree : FileTree)
    (path : String) :
    (ownChars (evaluate program index (TestCase.load tree path)).outcome).count '\n' =
      (evaluate program index (TestCase.load tree path)).outcome.verdict.timesNamed *
        path.toList.count '\n' := by
  have hname : (evaluate program index (TestCase.load tree path)).outcome.name = path := by
    show (evaluate program index (TestCase.load tree path)).case.name = path
    rw [case_evaluate, TestCase.name_load]
  rw [ownChars, hname, List.count_append]
  cases hpayload : (TestCase.load tree path).payload with
  | ok input =>
    obtain ⟨hreason, htimes⟩ : (reasonChars _).count '\n' = 0 ∧ Verdict.timesNamed _ = 1 := by
      cases hbroken : (evaluate program index (TestCase.load tree path)).isBroken with
      | false => exact (course_outcome hpayload hbroken).count_reasonChars
      | true =>
        obtain ⟨-, -, -, hverdict⟩ := record_of_isBroken hpayload hbroken
        rw [hverdict]
        exact ⟨rfl, rfl⟩
    rw [hreason, htimes, Nat.add_zero, Nat.one_mul]
  | error defect =>
    rw [(evaluate_of_error hpayload program index).1]
    exact TestCase.count_message_of_load hpayload

end CompressorBench

namespace CompressorBench.Bench

open Report (renderChars resultText ownChars Layout Summary)

variable {machine : Machine} {config : Config} {schedule : Pool.Schedule}
  {outcomes : List Outcome}

/-! ## The outcomes of a run -/

/-- What a run that succeeds has evaluated, file by file, and what it prints of it. -/
theorem exists_names_of_result (h : (run machine config schedule).result = .ok outcomes) :
    ∃ names : List String, outcomes = names.mapIdx (outcomeOf machine config) ∧
      (run machine config schedule).printed = printedText (names.map fun name =>
        TestCase.load machine.tree (Pathname.join config.casesDirectory name)) outcomes := by
  obtain ⟨cases, hcases, houtcomes, hprinted⟩ := exists_of_result h
  obtain ⟨_, _, names, -, -, -, rfl⟩ := FileTree.exists_of_cases hcases
  rw [outcomes_evaluateAll] at houtcomes
  exact ⟨names, houtcomes, hprinted⟩

theorem exists_name_of_result (h : (run machine config schedule).result = .ok outcomes) {i : Nat}
    {outcome : Outcome} (houtcome : outcomes[i]? = some outcome) :
    ∃ name, outcome = outcomeOf machine config i name := by
  obtain ⟨names, rfl, -⟩ := exists_names_of_result h
  rw [List.getElem?_mapIdx] at houtcome
  obtain ⟨name, -, rfl⟩ := Option.map_eq_some_iff.mp houtcome
  exact ⟨name, rfl⟩

theorem count_ownChars_of_result (h : (run machine config schedule).result = .ok outcomes) :
    ∀ outcome ∈ outcomes, (ownChars outcome).count '\n' =
      outcome.verdict.timesNamed * outcome.name.toList.count '\n' := by
  intro outcome houtcome
  obtain ⟨i, hi⟩ := List.mem_iff_getElem?.mp houtcome
  obtain ⟨name, rfl⟩ := exists_name_of_result h hi
  rw [name_outcomeOf]
  exact count_ownChars_evaluate _ _ _ _

/-- The columns are laid out before the run, by the names that the outcomes will have. -/
theorem printed_of_result (h : (run machine config schedule).result = .ok outcomes) :
    (run machine config schedule).printed =
      (Layout.ofNames (outcomes.map Outcome.name)).header outcomes.length ++ [Report.lineBreak] ++
        resultText (Layout.ofNames (outcomes.map Outcome.name)) outcomes
          (Summary.ofOutcomes outcomes) := by
  obtain ⟨names, houtcomes, hprinted⟩ := exists_names_of_result h
  have hnames : (names.map fun name => TestCase.load machine.tree
      (Pathname.join config.casesDirectory name)).map TestCase.name =
        outcomes.map Outcome.name := by
    rw [houtcomes]
    refine List.ext_getElem (by simp) fun i hi hi' => ?_
    simp [name_outcomeOf]
  rw [hprinted, printedText, hnames, List.length_map, houtcomes, List.length_mapIdx]

theorem exists_glob_of_toOption (pattern : String) (child : String × Entry)
    (h : (Glob.ofString pattern).toOption.map (FileTree.isListed · child) = some true) :
    ∃ glob, Glob.ofString pattern = .ok glob ∧ FileTree.isListed glob child = true := by
  cases hglob : Glob.ofString pattern with
  | error e => rw [hglob] at h; cases h
  | ok glob => rw [hglob] at h; exact ⟨glob, rfl, Option.some.inj h⟩

/-- A listed file has an outcome, if no document is to be written. -/
theorem exists_outcome_of_isListed (config : Config) (schedule : Pool.Schedule) {glob : Glob}
    {entries : List (String × Entry)} {child : String × Entry}
    (hglob : Glob.ofString config.pattern = .ok glob)
    (hentries : machine.tree.readDirectory config.casesDirectory = .ok entries)
    (hmem : child ∈ entries) (hlisted : FileTree.isListed glob child = true)
    (hjobs : config.jobs ≤ Pool.maxWorkers) (hreport : config.jsonReport? = none) :
    ∃ outcomes, (run machine config schedule).result = .ok outcomes ∧
      ∃ outcome ∈ outcomes, outcome.name = Pathname.join config.casesDirectory child.1 := by
  obtain ⟨cases, hcases⟩ := FileTree.exists_cases hglob hentries hmem hlisted
  obtain ⟨outcomes, hresult⟩ : ∃ outcomes, (run machine config schedule).result = .ok outcomes :=
    exists_result hcases hjobs hreport
  obtain ⟨cases', hcases', houtcomes, -⟩ := exists_of_result hresult
  obtain ⟨glob', entries', names, hglob', hentries', hlists, rfl⟩ :=
    FileTree.exists_of_cases hcases'
  cases hglob.symm.trans hglob'
  cases hentries.symm.trans hentries'
  rw [outcomes_evaluateAll] at houtcomes
  have hname : child.1 ∈ names :=
    (hlists.mem_iff _).mpr ⟨child.2, hmem, FileTree.isListed_iff.mp hlisted⟩
  obtain ⟨i, hi⟩ := List.mem_iff_getElem?.mp hname
  have hget : outcomes[i]? = some (outcomeOf machine config i child.1) := by
    rw [houtcomes, List.getElem?_mapIdx, hi]
    rfl
  exact ⟨outcomes, hresult, _, List.mem_of_getElem? hget, name_outcomeOf _ _ _ _⟩

/-! ## The lines -/

/-- The number of lines if there is one for each case: those of the cases and of the summary. -/
def lineCount (outcomes : List Outcome) : Nat :=
  outcomes.length + if (Summary.ofOutcomes outcomes).allPassed then 3 else 4

/-- What follows the header of a report. -/
def resultChars (colors : Bool) (outcomes : List Outcome) : List Char :=
  renderChars colors (resultText (Layout.ofNames (outcomes.map Outcome.name)) outcomes
    (Summary.ofOutcomes outcomes))

/-- What follows the header has a line for each outcome and those of the summary. A line break in a
name is a further line, for every time that the name is shown; before the first broken name, every
line is at its place. -/
structure HasLines (colors : Bool) (outcomes : List Outcome) : Prop where
  ends : (resultChars colors outcomes).getLast? = some '\n'
  count : (resultChars colors outcomes).count '\n' =
    lineCount outcomes + (outcomes.map fun outcome =>
      outcome.verdict.timesNamed * outcome.name.toList.count '\n').sum
  count_eq_iff : (resultChars colors outcomes).count '\n' = lineCount outcomes ↔
    ∀ outcome ∈ outcomes, '\n' ∉ outcome.name.toList
  line : ∀ i outcome, outcomes[i]? = some outcome →
    (∀ other ∈ outcomes.take (i + 1), '\n' ∉ other.name.toList) →
    outcome.index = i + 1 ∧ (Text.split '\n' (resultChars colors outcomes))[i]? =
      some (renderChars colors ((Layout.ofNames (outcomes.map Outcome.name)).line outcome))

theorem hasLines_of_result (h : (run machine config schedule).result = .ok outcomes)
    (colors : Bool) : HasLines colors outcomes := by
  have hown := count_ownChars_of_result h
  have hcount : (resultChars colors outcomes).count '\n' =
      lineCount outcomes + (outcomes.map fun outcome =>
        outcome.verdict.timesNamed * outcome.name.toList.count '\n').sum := by
    rw [resultChars, Report.count_resultText, List.map_congr_left hown]
    rfl
  refine ⟨Report.getLast?_resultText _ _ _ _, hcount, ?_, fun i outcome houtcome hnames => ?_⟩
  · rw [hcount, Nat.add_eq_left, List.sum_eq_zero_iff, List.forall_mem_map]
    refine forall₂_congr fun outcome _ => ?_
    rw [mul_eq_zero, or_iff_right outcome.verdict.timesNamed_pos.ne', List.count_eq_zero]
  · obtain ⟨name, hname⟩ := exists_name_of_result h houtcome
    have hindex : outcome.index = i + 1 := by rw [hname, index_outcomeOf]
    refine ⟨hindex, Report.getElem?_split_resultText colors _ _ houtcome fun other hother => ?_⟩
    rw [← List.count_eq_zero, hown other (List.mem_of_mem_take hother),
      List.count_eq_zero.mpr (hnames other hother), Nat.mul_zero]

/-- **The lines of a report.** What a run prints is the header and, after it, what ends with a line
break and has a line for each case and three or four for the summary, exactly if no name of a case
holds a line break. A name that does has as many lines too many as it has line breaks, and twice as
many if the file cannot be read. As long as no name up to that of a case is broken, its line is the
one at the place of its index. -/
theorem lines_of_report (h : (run machine config schedule).result = .ok outcomes)
    (colors : Bool) :
    renderChars colors (run machine config schedule).printed =
        renderChars colors
          ((Layout.ofNames (outcomes.map Outcome.name)).header outcomes.length) ++
            '\n' :: resultChars colors outcomes ∧
      HasLines colors outcomes := by
  refine ⟨?_, hasLines_of_result h colors⟩
  rw [printed_of_result h, Report.renderChars_append, Report.renderChars_append,
    Report.renderChars_lineBreak, List.append_assoc, List.singleton_append, resultChars]

/-- The lines of a report of a case that the program passes. -/
theorem lines_of_echo :
    ∃ outcomes, (run echoMachine plainConfig (fun time => time)).result = .ok outcomes ∧
      (∃ outcome ∈ outcomes, outcome.name = "cases/a.txt") ∧ HasLines true outcomes := by
  obtain ⟨glob, hglob, haccepts⟩ := exists_glob
  have hlisted : FileTree.isListed glob ("a.txt", .file oneByteText false) = true :=
    FileTree.isListed_iff.mpr ⟨rfl, haccepts "a.txt" (by decide)⟩
  obtain ⟨outcomes, hresult, outcome, houtcome, hname⟩ := exists_outcome_of_isListed
    plainConfig (fun time => time) hglob (FileTree.readDirectory_of_resolve resolve_echoMachine)
    List.mem_cons_self hlisted (by decide) rfl
  exact ⟨outcomes, hresult, ⟨outcome, houtcome, hname.trans (by decide +kernel)⟩,
    (lines_of_report hresult true).2⟩

/-- A computer with one case file, whose name holds a line break. -/
def brokenNameMachine : Machine :=
  { echoMachine with
    tree := ⟨[("cases", .directory [("a\nb.txt", .file oneByteText false)])], [],
      .directory (by decide) (by simp [Node.Proper.file, Node.Proper.directory])⟩ }

/-- A name with a line break breaks the line of its case. -/
theorem broken_name_breaks_the_line :
    ∃ outcomes, (run brokenNameMachine plainConfig (fun time => time)).result = .ok outcomes ∧
      ∀ colors, (resultChars colors outcomes).count '\n' ≠
        outcomes.length + if (Summary.ofOutcomes outcomes).allPassed then 3 else 4 := by
  have hentries := FileTree.readDirectory_of_resolve
    (@resolve_casesDirectory brokenNameMachine.tree rfl rfl)
  obtain ⟨glob, hglob, hlisted⟩ := exists_glob_of_toOption "*.txt"
    ("a\nb.txt", .file oneByteText false) (by decide +kernel)
  obtain ⟨outcomes, hresult, outcome, houtcome, hname⟩ := exists_outcome_of_isListed
    plainConfig (fun time => time) hglob hentries List.mem_cons_self hlisted (by decide) rfl
  refine ⟨outcomes, hresult, fun colors hcount => ?_⟩
  have hunbroken := (hasLines_of_result hresult colors).count_eq_iff.mp hcount outcome houtcome
  rw [hname] at hunbroken
  exact hunbroken (by decide +kernel)

end CompressorBench.Bench
