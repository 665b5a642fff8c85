import CompressorBench.Bench
import CompressorBench.Proofs.Child.Input
import CompressorBench.Proofs.Evaluation.Echo
import CompressorBench.Proofs.Files.Lookup
import CompressorBench.Proofs.Pool.Runs
import CompressorBench.Proofs.Report.Characters

/-!
# The report of a run

What a run that succeeds reports is a matter of the files and of the program alone. Each listed file
is evaluated as if it were the only one, at its place among the ascending names; neither the order
of the directory nor the schedule of the pool leaves a trace.

* `exists_of_result`, `exists_result`: what a run that succeeds hands out and prints, and that
  nothing that happens to a case keeps it from succeeding.
* `outcomes_evaluateAll`: the outcomes file by file.
-/

namespace CompressorBench.Bench

open Report (renderChars summaryText Layout Summary)

variable {machine : Machine} {config : Config} {schedule : Pool.Schedule}
  {outcomes : List Outcome}

/-! ## The printed text -/

/-- The header, a line for each outcome and the summary, each with a line feed after it. -/
theorem renderChars_report (colors : Bool) (layout : Layout) (count : Nat)
    (outcomes : List Outcome) (summary : Summary) :
    renderChars colors (layout.header count ++ [Report.lineBreak] ++
        Report.resultText layout outcomes summary) =
      renderChars colors (layout.header count) ++ ['\n'] ++
        (outcomes.flatMap fun outcome => renderChars colors (layout.line outcome) ++ ['\n']) ++
        renderChars colors (summaryText outcomes summary) ++ ['\n'] := by
  simp only [Report.renderChars_append, Report.renderChars_resultText,
    Report.renderChars_lineBreak, List.append_assoc]

/-! ## Runs that succeed -/

theorem run_of_cases {cases : List TestCase}
    (h : Discovery.cases machine.tree config.casesDirectory config.pattern = .ok cases) :
    run machine config schedule = runCases machine config schedule cases := by
  rw [run, h]

/-- The text that is printed for cases with their outcomes. -/
def printedText (cases : List TestCase) (outcomes : List Outcome) : Report.StyledText :=
  let layout := Layout.ofNames (cases.map TestCase.name)
  layout.header cases.length ++ [Report.lineBreak] ++
    Report.resultText layout outcomes (Summary.ofOutcomes outcomes)

/-- The title tells how many cases there are. -/
theorem exists_printedText (cases : List TestCase) (outcomes : List Outcome) :
    ∃ rest, renderChars false (printedText cases outcomes) =
      Layout.bar ++ " Running ".toList ++ Decimal.natChars cases.length ++ " tests ".toList ++
        Layout.bar ++ '\n' :: rest := by
  rw [printedText, Report.renderChars_append, Report.renderChars_append,
    Report.renderChars_header, Report.titleChars, List.append_assoc, List.append_assoc]
  exact ⟨_, rfl⟩

theorem runCases_of_runAll {cases : List TestCase} {pool : Pool}
    (h : Pool.runAll config.jobs (config.runner.invoke machine) schedule cases = .ok pool) :
    (runCases machine config schedule cases).printed = printedText cases pool.outcomes ∧
      (runCases machine config schedule cases).result =
        (writeReport config (config.runner.treeAfter machine pool.calls) pool.outcomes).1.map
          fun _ => pool.outcomes := by
  simp only [runCases, h, printedText, true_and]

/-- The times of a program are read from a clock, so no task of a run panics. -/
theorem runAll_invoke {jobs : Nat} (hjobs : jobs ≤ Pool.maxWorkers) (runner : Runner)
    (machine : Machine) (schedule : Pool.Schedule) (cases : List TestCase) :
    ∃ pool, Pool.runAll jobs (runner.invoke machine) schedule cases = .ok pool :=
  ⟨_, Pool.runAll_of_le hjobs ((isMeasured_invoke runner machine).endures cases) schedule⟩

/-- A run that succeeds has found its cases, and hands out what they come to one by one. -/
theorem exists_of_result (h : (run machine config schedule).result = .ok outcomes) :
    ∃ cases, Discovery.cases machine.tree config.casesDirectory config.pattern = .ok cases ∧
      outcomes = (evaluateAll (config.runner.invoke machine) cases).map Evaluation.outcome ∧
      (run machine config schedule).printed = printedText cases outcomes := by
  cases hcases : Discovery.cases machine.tree config.casesDirectory config.pattern with
  | error cause =>
    rw [run, hcases] at h
    cases h
  | ok cases =>
    rw [run_of_cases hcases] at h ⊢
    cases hpool : Pool.runAll config.jobs (config.runner.invoke machine) schedule cases with
    | error failure =>
      rw [runCases, hpool] at h
      cases h
    | ok pool =>
      obtain ⟨hprinted, hresult⟩ := runCases_of_runAll hpool
      have houtcomes : outcomes = pool.outcomes := by
        rw [hresult] at h
        cases hwritten :
            (writeReport config (config.runner.treeAfter machine pool.calls) pool.outcomes).1 with
        | error e => rw [hwritten] at h; cases h
        | ok done => rw [hwritten] at h; exact (Except.ok.inj h).symm
      rw [houtcomes]
      exact ⟨cases, rfl, Pool.outcomes_of_runAll hpool, hprinted⟩

/-- Nothing that happens to a case keeps a run from succeeding. -/
theorem exists_result {cases : List TestCase}
    (hcases : Discovery.cases machine.tree config.casesDirectory config.pattern = .ok cases)
    (hjobs : config.jobs ≤ Pool.maxWorkers) (hreport : config.jsonReport? = none) :
    ∃ outcomes, (run machine config schedule).result = .ok outcomes := by
  obtain ⟨pool, hpool⟩ := runAll_invoke hjobs config.runner machine schedule cases
  rw [run_of_cases hcases, (runCases_of_runAll hpool).2, writeReport, hreport]
  exact ⟨_, rfl⟩

/-! ## Every file -/

/-- What a file comes to if it is the only one, at a position counted from 0. -/
def outcomeOf (machine : Machine) (config : Config) (i : Nat) (name : String) : Outcome :=
  (evaluate (config.runner.invoke machine) (i + 1)
    (TestCase.load machine.tree (Pathname.join config.casesDirectory name))).outcome

theorem index_outcomeOf (machine : Machine) (config : Config) (i : Nat) (name : String) :
    (outcomeOf machine config i name).index = i + 1 := index_evaluate _ _ _

theorem name_outcomeOf (machine : Machine) (config : Config) (i : Nat) (name : String) :
    (outcomeOf machine config i name).name = Pathname.join config.casesDirectory name := by
  show (evaluate _ _ _).case.name = _
  rw [case_evaluate, TestCase.name_load]

/-- A file that cannot be read is a rejected case. -/
theorem verdict_outcomeOf {name : String} {error : FileError} (i : Nat)
    (h : machine.tree.readContents (Pathname.join config.casesDirectory name) = .error error) :
    (outcomeOf machine config i name).verdict =
      .presentationError .input (.unreadableFile error.message) := by
  have hpayload : (TestCase.load machine.tree (Pathname.join config.casesDirectory name)).payload =
      .error (.unreadableFile error.message) := by
    rw [TestCase.load, h]
    rfl
  exact (evaluate_of_error hpayload _ _).1

theorem outcomes_evaluateAll (machine : Machine) (config : Config) (names : List String) :
    (evaluateAll (config.runner.invoke machine) (names.map fun name =>
        TestCase.load machine.tree (Pathname.join config.casesDirectory name))).map
      Evaluation.outcome = names.mapIdx (outcomeOf machine config) := by
  refine List.ext_getElem (by simp [evaluateAll]) fun i hi hi' => ?_
  simp only [evaluateAll, List.getElem_map, List.getElem_mapIdx, outcomeOf]

/-! ## A computer with few cases -/

/-- The names of the case files below. -/
def fewNames : List String := ["a.txt", "b.txt", "c.txt"]

/-- The pattern of case files accepts them. -/
theorem exists_glob :
    ∃ glob, Glob.ofString "*.txt" = .ok glob ∧ ∀ name ∈ fewNames, glob.accepts name = true := by
  have hsome : (Glob.ofString "*.txt").toOption.map (fun glob => fewNames.all glob.accepts) =
      some true := by decide +kernel
  cases hglob : Glob.ofString "*.txt" with
  | error e => rw [hglob] at hsome; cases hsome
  | ok glob =>
    rw [hglob] at hsome
    exact ⟨glob, rfl, List.all_eq_true.mp (Option.some.inj hsome)⟩

section

variable {tree : FileTree} {children : List (String × Entry)} {names : List String}

/-- Entries of a directory that are listed one and all, under names in ascending order. -/
structure FewFiles (children : List (String × Entry)) (names : List String) : Prop where
  nonempty : names ≠ []
  few : names.Sublist fewNames
  perm : (children.map Prod.fst).Perm names
  files : ∀ child ∈ children, child.2.isDirectory = false

theorem FewFiles.lists (h : FewFiles children names) {glob : Glob}
    (haccepts : ∀ name ∈ fewNames, glob.accepts name = true) :
    FileTree.Lists glob children names := by
  have hascending : names.Pairwise fun a b => a.toUTF8.toList < b.toUTF8.toList := by
    have hfew : fewNames.Pairwise fun a b => a < b := by decide
    exact (hfew.imp FileTree.toUTF8_lt_toUTF8).sublist h.few
  have hdistinct : names.Nodup := by
    refine List.Pairwise.imp ?_ hascending
    rintro a _ hless rfl
    exact List.lt_irrefl _ hless
  refine ⟨h.perm.nodup_iff.mpr hdistinct, fun name => ?_, hascending⟩
  rw [← h.perm.mem_iff, List.mem_map]
  constructor
  · rintro ⟨child, hchild, rfl⟩
    have hname := h.perm.mem_iff.mp (List.mem_map_of_mem hchild)
    exact ⟨child.2, hchild, h.files child hchild, haccepts _ (h.few.subset hname)⟩
  · rintro ⟨entry, hentry, -⟩
    exact ⟨_, hentry, rfl⟩

section

variable (hworking : tree.workingDirectory = [])
  (hdirectory : tree.get? ["cases"] = some .directory)
include hworking hdirectory

theorem resolve_casesDirectory :
    tree.resolve .reach "cases" = .ok (.occupied ["cases"] .directory) := by
  have hsteps : Pathname.steps "cases" = ["cases"] := by decide
  exact FileTree.resolve_of_steps hworking hsteps (by decide)
    (.enter (by decide) hdirectory .arrive)

/-- A file of the directory that holds a payload is an accepted case. -/
theorem payload_of_case {path : String} (name : String) {executable : Bool}
    (hsteps : Pathname.steps path = ["cases", name])
    (hpath : FileTree.pathDefect? path = none ∧ Pathname.endsInSlash path = false)
    (hname : FileTree.LooksUp .reach name [] false)
    (hfile : tree.get? ["cases", name] = some (.file oneByteText executable)) :
    (TestCase.load tree path).payload = .ok .oneByte := by
  have hcases : FileTree.LooksUp .reach "cases" [name] false :=
    ⟨by decide, by decide, nofun, by decide⟩
  exact payload_of_resolve (FileTree.resolve_of_steps hworking hsteps hpath
    (.enter hcases hdirectory (.file hname hfile (.inr rfl))))

end

variable (hresolve : tree.resolve .reach "cases" = .ok (.occupied ["cases"] .directory))
  (hfew : FewFiles (tree.children ["cases"]) names)
include hresolve hfew

theorem caseFiles_of_fewFiles :
    Discovery.caseFiles tree "cases" "*.txt" = .ok (names.map (Pathname.join "cases")) := by
  obtain ⟨glob, hglob, haccepts⟩ := exists_glob
  exact FileTree.caseFiles_of_lists hglob (FileTree.readDirectory_of_resolve hresolve)
    (hfew.lists haccepts)

theorem cases_of_fewFiles : Discovery.cases tree "cases" "*.txt" =
    .ok (names.map fun name => TestCase.load tree (Pathname.join "cases" name)) := by
  rw [Discovery.cases, caseFiles_of_fewFiles hresolve hfew]
  cases names with
  | nil => exact absurd rfl hfew.nonempty
  | cons name rest =>
    simp only [List.map_cons, List.map_map]
    rfl

end

/-- A file that holds one byte passes if the program gives back what it gets. -/
theorem verdict_of_oneByte {runner : Runner} {case : TestCase} (h : Echoes (runner.invoke machine))
    (hpayload : case.payload = .ok .oneByte) (index : Nat) :
    (evaluate (runner.invoke machine) index case).outcome.verdict = .success 1 1000.0 := by
  have hfit := (isMeasured_invoke runner machine).timesFit_pair
    (.compress, Payload.oneByte.token) (.decompress, Payload.oneByte.token)
  exact Evaluation.verdict_outcome (verdict?_of_echoes h hpayload index hfit)

/-- A computer with one case file, which holds a payload, and with a program on its search path that
gives back what it gets. -/
def echoMachine : Machine where
  tree := ⟨[("cases", .directory [("a.txt", .file oneByteText false)])], [],
    .directory (by decide) (by simp [Node.Proper.file, Node.Proper.directory])⟩
  behaviour _ := Script.echoing.child
  commands _ := .ok ⟨#[]⟩

/-- The settings of a run over the files of `cases`. -/
def plainConfig : Config :=
  { program := "echo", programArguments := [], casesDirectory := "cases", pattern := "*.txt",
    timeLimit := Runner.defaultLimit, jobs := 2, jsonReport? := none, showProgress := false }

theorem resolve_echoMachine :
    echoMachine.tree.resolve .reach "cases" = .ok (.occupied ["cases"] .directory) :=
  resolve_casesDirectory rfl rfl

theorem fewFiles_echoMachine : FewFiles (echoMachine.tree.children ["cases"]) ["a.txt"] :=
  ⟨nofun, by decide, by decide, by decide⟩

theorem cases_echoMachine : Discovery.cases echoMachine.tree "cases" "*.txt" =
    .ok [TestCase.load echoMachine.tree "cases/a.txt"] :=
  cases_of_fewFiles resolve_echoMachine fewFiles_echoMachine

theorem payload_echoMachine :
    (TestCase.load echoMachine.tree "cases/a.txt").payload = .ok .oneByte :=
  payload_of_case rfl rfl "a.txt" (by decide) (by decide) (by decide) rfl

/-- The program gives back what it gets, whatever the files are. -/
theorem echoes_plainConfig (tree : FileTree) :
    Echoes (plainConfig.runner.invoke { echoMachine with tree }) := by
  have hlaunch : Machine.launch { echoMachine with tree } "echo" [] =
      .ok (Script.echoing.child []) := by
    have hfind : Machine.findExecutable { echoMachine with tree } "echo" = .ok ⟨#[]⟩ := by
      rw [Machine.findExecutable, if_neg (by decide)]
      rfl
    rw [Machine.launch, hfind]
    rfl
  exact echoes_of_launch hlaunch (by decide)

/-! ## The report -/

/-- **A run reports every listed file**, once and at the place of its name among the ascending
names, with what the file comes to alone; one that cannot be read is a rejected case. The number of
files is told by the title, and it is that of the lines and of the summary. As long as there is
anything to list and no document to write, the run succeeds whatever the files hold. -/
theorem report_of_every_file (machine : Machine) (config : Config) (schedule : Pool.Schedule) :
    (∀ outcomes, (run machine config schedule).result = .ok outcomes →
      ∃ glob entries names, Glob.ofString config.pattern = .ok glob ∧
        machine.tree.readDirectory config.casesDirectory = .ok entries ∧
        FileTree.Lists glob entries names ∧
        outcomes = names.mapIdx (outcomeOf machine config) ∧
        (∀ i outcome, outcomes[i]? = some outcome → ∃ name, names[i]? = some name ∧
          outcome.index = i + 1 ∧ outcome.name = Pathname.join config.casesDirectory name ∧
          ∀ error, machine.tree.readContents outcome.name = .error error →
            outcome.verdict = .presentationError .input (.unreadableFile error.message)) ∧
        outcomes.length = names.length ∧ (Summary.ofOutcomes outcomes).total = names.length ∧
        (∃ rest, renderChars false (run machine config schedule).printed =
          Layout.bar ++ " Running ".toList ++ Decimal.natChars names.length ++
            " tests ".toList ++ Layout.bar ++ '\n' :: rest) ∧
        ∀ colors, renderChars colors (run machine config schedule).printed =
          renderChars colors ((Layout.ofNames (outcomes.map Outcome.name)).header names.length) ++
            ['\n'] ++
            (outcomes.flatMap fun outcome =>
              renderChars colors ((Layout.ofNames (outcomes.map Outcome.name)).line outcome) ++
                ['\n']) ++
            renderChars colors (summaryText outcomes (Summary.ofOutcomes outcomes)) ++ ['\n']) ∧
    ∀ glob entries child, Glob.ofString config.pattern = .ok glob →
      machine.tree.readDirectory config.casesDirectory = .ok entries → child ∈ entries →
      FileTree.isListed glob child = true → config.jobs ≤ Pool.maxWorkers →
      config.jsonReport? = none →
      ∃ outcomes, (run machine config schedule).result = .ok outcomes := by
  constructor
  · intro outcomes h
    obtain ⟨cases, hcases, houtcomes, hprinted⟩ := exists_of_result h
    obtain ⟨glob, entries, names, hglob, hentries, hlists, rfl⟩ := FileTree.exists_of_cases hcases
    rw [outcomes_evaluateAll] at houtcomes
    have hlength : outcomes.length = names.length := by rw [houtcomes, List.length_mapIdx]
    refine ⟨glob, entries, names, hglob, hentries, hlists, houtcomes, ?_, hlength, hlength, ?_, ?_⟩
    · intro i outcome hi
      rw [houtcomes, List.getElem?_mapIdx] at hi
      obtain ⟨name, hname, rfl⟩ := Option.map_eq_some_iff.mp hi
      refine ⟨name, hname, index_outcomeOf _ _ _ _, name_outcomeOf _ _ _ _, fun error h => ?_⟩
      rw [name_outcomeOf] at h
      exact verdict_outcomeOf i h
    · obtain ⟨rest, hrest⟩ := exists_printedText (names.map fun name =>
        TestCase.load machine.tree (Pathname.join config.casesDirectory name)) outcomes
      rw [List.length_map] at hrest
      exact ⟨rest, by rw [hprinted, hrest]⟩
    · intro colors
      -- the columns were laid out before the run, by the names of the cases
      have hnames : outcomes.map Outcome.name = (names.map fun name =>
          TestCase.load machine.tree (Pathname.join config.casesDirectory name)).map
            TestCase.name := by
        rw [houtcomes]
        refine List.ext_getElem (by simp) fun i hi hi' => ?_
        simp [name_outcomeOf]
      rw [hprinted, printedText, renderChars_report, hnames, List.length_map]
  · intro glob entries child hglob hentries hmem hlisted hjobs hreport
    obtain ⟨cases, hcases⟩ := FileTree.exists_cases hglob hentries hmem hlisted
    exact exists_result hcases hjobs hreport

/-- A run over one file with a program that gives back what it gets: it is invoked twice, and the
file is reported with its place and its name. -/
theorem report_of_echo :
    ∃ outcomes, (run echoMachine plainConfig (fun time => time)).result = .ok outcomes ∧
      (∃ outcome ∈ outcomes, outcome.index = 1 ∧ outcome.name = "cases/a.txt") ∧
      (evaluate (plainConfig.runner.invoke echoMachine) 1
        (TestCase.load echoMachine.tree "cases/a.txt")).calls =
          [(.compress, "QQ=="), (.decompress, "QQ==")] := by
  obtain ⟨hreport, hsucceeds⟩ := report_of_every_file echoMachine plainConfig (fun time => time)
  obtain ⟨glob, hglob, haccepts⟩ := exists_glob
  have hentries := FileTree.readDirectory_of_resolve resolve_echoMachine
  have hlisted : FileTree.isListed glob ("a.txt", .file oneByteText false) = true :=
    FileTree.isListed_iff.mpr ⟨rfl, haccepts "a.txt" (by decide)⟩
  obtain ⟨outcomes, hresult⟩ := hsucceeds glob _ _ hglob hentries List.mem_cons_self hlisted
    (by decide) rfl
  obtain ⟨_, _, names, hglob', hentries', hlists, houtcomes, houtcome, -⟩ :=
    hreport outcomes hresult
  cases hglob.symm.trans hglob'
  cases hentries.symm.trans hentries'
  cases hlists.sortNames_eq.symm.trans (fewFiles_echoMachine.lists haccepts).sortNames_eq
  obtain ⟨name, hname, hindex, hjoin, -⟩ := houtcome 0 _ (by rw [houtcomes]; rfl)
  cases hname
  have hmem := List.mem_of_getElem? (i := 0) (l := outcomes) (by rw [houtcomes]; rfl)
  exact ⟨outcomes, hresult, ⟨_, hmem, hindex, hjoin.trans (by decide)⟩,
    calls_of_echoes (echoes_plainConfig _) payload_echoMachine 1⟩

end CompressorBench.Bench
