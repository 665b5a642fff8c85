import CompressorBench.CommandLine.Run
import CompressorBench.Proofs.Bench.Machines
import CompressorBench.Proofs.Files.Effects
import CompressorBench.Utilities

/-!
# The exit status of a run

A run ends with 2 if there was nothing to run, with 0 if all that was asked for was done, and with 1
otherwise. So the exit status is a matter of the files alone: of what the search for cases comes to,
and of whether the document can be written. Whether the program is there at all and which verdicts
it gets is left to the report. What it does to the files counts, though: the document is written
into those that it has left (`exit_status_of_split`).

A search that finds no case is the end of the run. Nothing was printed, launched or written then.

* `run_of_error`, `run_of_ok`: the two ways through a run.
* `tells_run`: which exit status stands for what.
* `AsksTheSame.exitCode_eq`: what the exit status does not depend on.
* `exit_status_tells_search`: all of it, for any options.
-/

namespace CompressorBench

/-! ## Launches -/

/-- The message about the launch of a command for an invocation. -/
def launchEntry (command : String) (call : Phase × String) : LogEntry :=
  ⟨.debug, "Launching " ++ command ++ " (" ++ call.1.tag ++ ", " ++
    toString call.2.utf8ByteSize ++ " bytes of payload)"⟩

theorem launchEntry_mem_exchange (command name : String) (exchange : Exchange) :
    launchEntry command exchange.call ∈ exchange.log command name := by
  unfold Exchange.log
  split
  · exact List.mem_cons_self
  · split <;> exact List.mem_cons_self

/-- The log holds a message for every launch. -/
theorem launchEntry_mem_log (command : String) {evaluation : Evaluation} {call : Phase × String}
    (h : call ∈ evaluation.calls) : launchEntry command call ∈ evaluation.log command := by
  obtain ⟨exchange, hexchange, rfl⟩ := List.mem_map.mp h
  refine List.mem_append_left _ (List.mem_flatMap.mpr ⟨exchange, hexchange, ?_⟩)
  exact launchEntry_mem_exchange command evaluation.case.name exchange

/-- It is not the message about a directory that does not exist. -/
theorem launchEntry_ne (command : String) (call : Phase × String) (directory : String) :
    launchEntry command call ≠ ⟨.debug, directory ++ " does not exist"⟩ := by
  intro h
  have hends := congrArg (fun entry => entry.message.toList.reverse.head?) h
  simp [launchEntry] at hends

/-- A search that ends a run logs no more than that the directory does not exist. -/
theorem launchEntry_not_mem_of_error {tree : FileTree} {directory pattern : String}
    {cause : Failure.Cause} (h : Discovery.cases tree directory pattern = .error cause)
    (command : String) (call : Phase × String) :
    launchEntry command call ∉ Discovery.log tree directory pattern := by
  unfold Discovery.log
  cases hfiles : tree.listMatching directory pattern with
  | error e =>
    by_cases hmissing : Discovery.isMissing e = true
    · simp [hmissing, launchEntry_ne]
    · simp [hmissing]
  | ok files =>
    cases files with
    | nil => exact List.not_mem_nil
    | cons file files =>
      simp only [Discovery.cases, Discovery.caseFiles, hfiles] at h
      cases h

/-! ## The two ways through a run -/

/-- The exit status for how a run ended. -/
def BenchRun.exitCode (run : BenchRun) : Nat :=
  match run.result with
  | .ok _ => 0
  | .error failure => failure.exitCode

namespace Bench

open Discovery (Finds FindsNothing IsRefused)

variable {machine : Machine} {config : Config} {schedule : Pool.Schedule} {tree : FileTree}
  {cases : List TestCase} {path : String}

/-- A run without cases is over with the search for them. -/
theorem run_of_error {cause : Failure.Cause}
    (h : Discovery.cases machine.tree config.casesDirectory config.pattern = .error cause)
    (schedule : Pool.Schedule) :
    run machine config schedule =
      { printed := []
        result := .error (.ofCause cause)
        tree := machine.tree
        log := Discovery.log machine.tree config.casesDirectory config.pattern } := by
  rw [run, h]

/-- What all cases come to with the program of a run. -/
def outcomesOf (machine : Machine) (config : Config) (cases : List TestCase) : List Outcome :=
  (evaluateAll (config.runner.invoke machine) cases).map Evaluation.outcome

/-- A run with cases evaluates all of them and then writes its document into the files that the
program has left. -/
theorem run_of_ok
    (h : Discovery.cases machine.tree config.casesDirectory config.pattern = .ok cases)
    (hjobs : config.jobs ≤ Pool.maxWorkers) (schedule : Pool.Schedule) :
    let written := writeReport config (left machine config schedule)
      (outcomesOf machine config cases)
    (run machine config schedule).result =
        written.1.map (fun _ => outcomesOf machine config cases) ∧
      (run machine config schedule).tree = written.2.1 ∧
      ∀ evaluation ∈ evaluateAll (config.runner.invoke machine) cases,
        ∀ entry ∈ evaluation.log config.program, entry ∈ (run machine config schedule).log := by
  obtain ⟨pool, hpool⟩ := runAll_invoke hjobs config.runner machine schedule cases
  have houtcomes := Pool.outcomes_of_runAll hpool
  have hevaluations := Pool.evaluations_of_runAll hpool
  rw [run_of_cases h, left_of_runAll h hpool]
  simp only [runCases, hpool, houtcomes, hevaluations, outcomesOf, true_and]
  intro evaluation hevaluation entry hentry
  refine List.mem_append_left _ (List.mem_append_right _ ?_)
  exact List.mem_flatMap.mpr ⟨evaluation, hevaluation, hentry⟩

/-- The document of a run over cases. -/
def documentText (machine : Machine) (config : Config) (cases : List TestCase) : String :=
  (Report.reportJson (outcomesOf machine config cases)).indented

/-- How writing the document of a run over cases to a path goes. -/
def documentOf (machine : Machine) (config : Config) (schedule : Pool.Schedule)
    (cases : List TestCase) (path : String) : FileTree.Change :=
  (left machine config schedule).createFile path (documentText machine config cases).toUTF8

/-- The exit status for how writing the document went. -/
def statusOf : Except FileError Unit → Nat
  | .ok _ => 0
  | .error _ => 1

/-- A case was found and no document is asked for. -/
theorem run_of_none
    (h : Discovery.cases machine.tree config.casesDirectory config.pattern = .ok cases)
    (hjobs : config.jobs ≤ Pool.maxWorkers) (hjson : config.jsonReport? = none) :
    (run machine config schedule).exitCode = 0 ∧
      (run machine config schedule).tree = left machine config schedule := by
  obtain ⟨hresult, htree, -⟩ := run_of_ok h hjobs schedule
  rw [writeReport, hjson] at hresult htree
  rw [BenchRun.exitCode, hresult, htree]
  exact ⟨rfl, rfl⟩

/-- A case was found and a document is asked for. -/
theorem run_of_some
    (h : Discovery.cases machine.tree config.casesDirectory config.pattern = .ok cases)
    (hjobs : config.jobs ≤ Pool.maxWorkers) (hjson : config.jsonReport? = some path) :
    (run machine config schedule).exitCode =
        statusOf (documentOf machine config schedule cases path).1 ∧
      (run machine config schedule).tree =
        (documentOf machine config schedule cases path).2 := by
  obtain ⟨hresult, htree, -⟩ := run_of_ok h hjobs schedule
  rw [BenchRun.exitCode, hresult, htree, writeReport, hjson]
  cases hdocument : documentOf machine config schedule cases path with
  | mk result written =>
    rw [documentOf, documentText] at hdocument
    simp only [FileTree.createJson, hdocument]
    cases result with
    | ok done => exact ⟨rfl, rfl⟩
    | error error => exact ⟨rfl, rfl⟩

/-! ## What the exit status stands for -/

/-- No document is asked for and the files are those that the program left, or the document of all
cases was written into these; then the path leads to it from then on. -/
inductive Reports (machine : Machine) (config : Config) (schedule : Pool.Schedule) :
    FileTree → Prop where
  | unasked (hjson : config.jsonReport? = none) :
      Reports machine config schedule (left machine config schedule)
  | written {tree : FileTree} {path : String} {cases : List TestCase}
      (hjson : config.jsonReport? = some path)
      (hcases : Discovery.cases machine.tree config.casesDirectory config.pattern = .ok cases)
      (hdocument : documentOf machine config schedule cases path = (.ok (), tree))
      (hreads : (left machine config schedule).HasPlace →
        tree.readContents path = .ok (documentText machine config cases)) :
      Reports machine config schedule tree

/-- A document is asked for, but it could not be written into the files that the program left. -/
inductive FailsToReport (machine : Machine) (config : Config) (schedule : Pool.Schedule) :
    FileTree → Prop where
  | refused {tree : FileTree} {path : String} {cases : List TestCase} {error : FileError}
      (hjson : config.jsonReport? = some path)
      (hcases : Discovery.cases machine.tree config.casesDirectory config.pattern = .ok cases)
      (hdocument : documentOf machine config schedule cases path = (.error error, tree)) :
      FailsToReport machine config schedule tree

theorem exitCode_of_findsNothing
    (h : FindsNothing machine.tree config.casesDirectory config.pattern) :
    (run machine config schedule).exitCode = 2 := by
  rw [run_of_error (Discovery.cases_of_findsNothing h)]
  rfl

theorem exitCode_of_isRefused
    (h : IsRefused machine.tree config.casesDirectory config.pattern) :
    (run machine config schedule).exitCode = 1 := by
  obtain ⟨error, herror⟩ := Discovery.cases_of_isRefused h
  rw [run_of_error herror]
  rfl

theorem exitCode_of_reports (h : Finds machine.tree config.casesDirectory config.pattern)
    (hjobs : config.jobs ≤ Pool.maxWorkers) (hreports : Reports machine config schedule tree) :
    (run machine config schedule).exitCode = 0 := by
  cases hreports with
  | unasked hjson =>
    obtain ⟨cases, hcases⟩ := Discovery.cases_of_finds h
    exact (run_of_none hcases hjobs hjson).1
  | written hjson hcases hdocument =>
    rw [(run_of_some hcases hjobs hjson).1, hdocument, statusOf]

theorem exitCode_of_failsToReport (hjobs : config.jobs ≤ Pool.maxWorkers)
    (hfails : FailsToReport machine config schedule tree) :
    (run machine config schedule).exitCode = 1 := by
  cases hfails with
  | refused hjson hcases hdocument =>
    rw [(run_of_some hcases hjobs hjson).1, hdocument, statusOf]

theorem reports_or_failsToReport (h : Finds machine.tree config.casesDirectory config.pattern)
    (hjobs : config.jobs ≤ Pool.maxWorkers) (schedule : Pool.Schedule) :
    Reports machine config schedule (run machine config schedule).tree ∨
      FailsToReport machine config schedule (run machine config schedule).tree := by
  obtain ⟨cases, hcases⟩ := Discovery.cases_of_finds h
  cases hjson : config.jsonReport? with
  | none =>
    rw [(run_of_none hcases hjobs hjson).2]
    exact .inl (.unasked hjson)
  | some path =>
    rw [(run_of_some hcases hjobs hjson).2]
    cases hdocument : documentOf machine config schedule cases path with
    | mk result tree =>
      cases result with
      | error error => exact .inr (.refused hjson hcases hdocument)
      | ok done =>
        refine .inl (.written hjson hcases hdocument fun hplace => ?_)
        obtain ⟨_, _, hstores⟩ := FileTree.exists_stores_of_createFile hplace hdocument
        exact hstores.reads

/-- An exit status and the files after a run tell how the search for cases and the writing of the
document went. -/
structure Tells (machine : Machine) (config : Config) (schedule : Pool.Schedule) (exitCode : Nat)
    (tree : FileTree) : Prop where
  nothing : exitCode = 2 ↔ FindsNothing machine.tree config.casesDirectory config.pattern
  done : exitCode = 0 ↔ Finds machine.tree config.casesDirectory config.pattern ∧
    Reports machine config schedule tree
  failed : exitCode = 1 ↔ IsRefused machine.tree config.casesDirectory config.pattern ∨
    Finds machine.tree config.casesDirectory config.pattern ∧
      FailsToReport machine config schedule tree
  one_of_three : exitCode = 0 ∨ exitCode = 1 ∨ exitCode = 2

/-- A run goes one of three ways, each with an exit status of its own. -/
theorem exitCode_cases (machine : Machine) (hjobs : config.jobs ≤ Pool.maxWorkers)
    (schedule : Pool.Schedule) :
    ((run machine config schedule).exitCode = 0 ∧
        Finds machine.tree config.casesDirectory config.pattern ∧
        Reports machine config schedule (run machine config schedule).tree) ∨
      ((run machine config schedule).exitCode = 1 ∧
        (IsRefused machine.tree config.casesDirectory config.pattern ∨
          Finds machine.tree config.casesDirectory config.pattern ∧
            FailsToReport machine config schedule (run machine config schedule).tree)) ∨
      ((run machine config schedule).exitCode = 2 ∧
        FindsNothing machine.tree config.casesDirectory config.pattern) := by
  rcases Discovery.finds_or_findsNothing_or_isRefused machine.tree config.casesDirectory
    config.pattern with hfinds | hnothing | hrefused
  · rcases reports_or_failsToReport hfinds hjobs schedule with hreports | hfails
    · exact .inl ⟨exitCode_of_reports hfinds hjobs hreports, hfinds, hreports⟩
    · exact .inr (.inl ⟨exitCode_of_failsToReport hjobs hfails, .inr ⟨hfinds, hfails⟩⟩)
  · exact .inr (.inr ⟨exitCode_of_findsNothing hnothing, hnothing⟩)
  · exact .inr (.inl ⟨exitCode_of_isRefused hrefused, .inl hrefused⟩)

theorem tells_run (hjobs : config.jobs ≤ Pool.maxWorkers) (schedule : Pool.Schedule) :
    Tells machine config schedule (run machine config schedule).exitCode
      (run machine config schedule).tree := by
  -- a status leads back to its way because the other two ways have other statuses
  have hways := exitCode_cases machine hjobs schedule
  refine ⟨⟨fun hcode => ?_, exitCode_of_findsNothing⟩,
    ⟨fun hcode => ?_, fun h => exitCode_of_reports h.1 hjobs h.2⟩, ⟨fun hcode => ?_, ?_⟩, ?_⟩
  · rcases hways with ⟨h, -⟩ | ⟨h, -⟩ | ⟨-, hnothing⟩
    · omega
    · omega
    · exact hnothing
  · rcases hways with ⟨-, hdone⟩ | ⟨h, -⟩ | ⟨h, -⟩
    · exact hdone
    · omega
    · omega
  · rcases hways with ⟨h, -⟩ | ⟨-, hfailed⟩ | ⟨h, -⟩
    · omega
    · exact hfailed
    · omega
  · rintro (hrefused | ⟨-, hfails⟩)
    · exact exitCode_of_isRefused hrefused
    · exact exitCode_of_failsToReport hjobs hfails
  · rcases hways with ⟨h, -⟩ | ⟨h, -⟩ | ⟨h, -⟩ <;> omega

/-! ## What the exit status does not depend on -/

/-- Two runs see the same entries in their directories of cases, with the same pattern, and ask for
a document at the same path, which can be written for both or for none into the files that their
programs leave. Other than that the programs may do anything, or be missing. -/
structure AsksTheSame (machine : Machine) (config : Config) (schedule : Pool.Schedule)
    (machine' : Machine) (config' : Config) (schedule' : Pool.Schedule) : Prop where
  listing : machine'.tree.enumerate config'.casesDirectory =
    machine.tree.enumerate config.casesDirectory
  pattern : config'.pattern = config.pattern
  jsonReport? : config'.jsonReport? = config.jsonReport?
  writing : ∀ path contents, config.jsonReport? = some path →
    ((left machine' config' schedule').createFile path contents).1 =
      ((left machine config schedule).createFile path contents).1

variable {machine' : Machine} {config' : Config} {schedule' : Pool.Schedule}

/-- Programs that leave the files alone ask the same if the files are the same. -/
theorem AsksTheSame.of_leavesFiles (htree : machine'.tree = machine.tree)
    (hdirectory : config'.casesDirectory = config.casesDirectory)
    (hpattern : config'.pattern = config.pattern)
    (hjson : config'.jsonReport? = config.jsonReport?) (hleaves : LeavesFiles config machine)
    (hleaves' : LeavesFiles config' machine') :
    AsksTheSame machine config schedule machine' config' schedule' where
  listing := by rw [htree, hdirectory]
  pattern := hpattern
  jsonReport? := hjson
  writing path contents _ := by rw [hleaves.left_eq, hleaves'.left_eq, htree]

theorem AsksTheSame.exitCode_eq (h : AsksTheSame machine config schedule machine' config' schedule')
    (hjobs : config.jobs ≤ Pool.maxWorkers) (hjobs' : config'.jobs ≤ Pool.maxWorkers) :
    (run machine' config' schedule').exitCode = (run machine config schedule).exitCode := by
  rcases Discovery.finds_or_findsNothing_or_isRefused machine.tree config.casesDirectory
    config.pattern with hfinds | hnothing | hrefused
  · have hfinds' : Finds machine'.tree config'.casesDirectory config'.pattern := by
      rw [Finds, h.listing, h.pattern]
      exact hfinds
    obtain ⟨cases, hcases⟩ := Discovery.cases_of_finds hfinds
    obtain ⟨cases', hcases'⟩ := Discovery.cases_of_finds hfinds'
    cases hjson : config.jsonReport? with
    | none =>
      rw [(run_of_none hcases hjobs hjson).1,
        (run_of_none hcases' hjobs' (h.jsonReport?.trans hjson)).1]
    -- the documents differ, but whether one can be written is not a matter of its contents
    | some path =>
      rw [(run_of_some hcases hjobs hjson).1,
        (run_of_some hcases' hjobs' (h.jsonReport?.trans hjson)).1, documentOf, documentOf,
        h.writing path _ hjson, FileTree.fst_createFile]
  · rw [exitCode_of_findsNothing hnothing]
    refine exitCode_of_findsNothing ?_
    rw [FindsNothing, h.listing, h.pattern]
    exact hnothing
  · rw [exitCode_of_isRefused hrefused]
    refine exitCode_of_isRefused ?_
    rw [IsRefused, h.listing, h.pattern]
    exact hrefused

/-- Without a case, runs over the same files do not differ at all. -/
theorem run_eq_of_not_finds (hfinds : ¬ Finds machine.tree config.casesDirectory config.pattern)
    (htree : machine'.tree = machine.tree)
    (hdirectory : config'.casesDirectory = config.casesDirectory)
    (hpattern : config'.pattern = config.pattern) :
    run machine' config' schedule' = run machine config schedule := by
  obtain ⟨cause, hcause⟩ := Discovery.exists_cause hfinds
  have hcause' := hcause
  rw [← htree, ← hdirectory, ← hpattern] at hcause'
  rw [run_of_error hcause', run_of_error hcause, htree, hdirectory, hpattern]

end Bench

namespace CommandLine

open Discovery (Finds FindsNothing)

theorem exitCode_runOptions (machine : Machine) (processors : Nat) (schedule : Pool.Schedule)
    (options : Options) :
    (runOptions machine processors schedule options).exitCode =
      (Bench.run machine (.ofOptions processors options) schedule).exitCode := by
  simp only [runOptions, BenchRun.exitCode]
  cases (Bench.run machine (.ofOptions processors options) schedule).result <;> rfl

theorem tree_runOptions (machine : Machine) (processors : Nat) (schedule : Pool.Schedule)
    (options : Options) :
    (runOptions machine processors schedule options).tree =
      (Bench.run machine (.ofOptions processors options) schedule).tree := by
  simp only [runOptions]
  cases (Bench.run machine (.ofOptions processors options) schedule).result <;> rfl

theorem stdout_runOptions (machine : Machine) (processors : Nat) (schedule : Pool.Schedule)
    (options : Options) :
    (runOptions machine processors schedule options).stdout =
      (Bench.run machine (.ofOptions processors options) schedule).printed := by
  simp only [runOptions]
  cases (Bench.run machine (.ofOptions processors options) schedule).result <;> rfl

/-- **The exit status tells how the search for cases and the writing of the document went.** The
document is written into the files that the program has left by the invocations of the cases, and
only through these can the program matter: runs that see the same entries and can write the same
document, or cannot, have the same exit status, whatever their programs are. With programs that
leave the files alone it is enough that the files are the same. There is a message for every launch.
When no case is found, there is none, nothing was printed or written, and the run is the same for
every program. -/
theorem exit_status_tells_search (machine : Machine) (processors : Nat)
    (schedule : Pool.Schedule) (options : Options)
    (hjobs : (Config.ofOptions processors options).jobs ≤ Pool.maxWorkers) :
    let config := Config.ofOptions processors options
    let run := runOptions machine processors schedule options
    Bench.Tells machine config schedule run.exitCode run.tree ∧
      (∀ machine' processors' schedule' options',
        (Config.ofOptions processors' options').jobs ≤ Pool.maxWorkers →
        (Bench.AsksTheSame machine config schedule machine' (.ofOptions processors' options')
            schedule' →
          (runOptions machine' processors' schedule' options').exitCode = run.exitCode) ∧
        (machine'.tree = machine.tree → options'.casesDirectory? = options.casesDirectory? →
          options'.pattern? = options.pattern? → options'.json? = options.json? →
          Bench.LeavesFiles config machine →
          Bench.LeavesFiles (.ofOptions processors' options') machine' →
          (runOptions machine' processors' schedule' options').exitCode = run.exitCode)) ∧
      (∀ cases, Discovery.cases machine.tree config.casesDirectory config.pattern = .ok cases →
        (∃ calls, calls.Perm ((evaluateAll (config.runner.invoke machine) cases).flatMap
            Evaluation.calls) ∧
          Bench.left machine config schedule = config.runner.treeAfter machine calls) ∧
        ∀ evaluation ∈ evaluateAll (config.runner.invoke machine) cases,
        ∀ call ∈ evaluation.calls,
          launchEntry config.program call ∈ (Bench.run machine config schedule).log) ∧
      (¬ Finds machine.tree config.casesDirectory config.pattern →
        run.stdout = [] ∧ run.tree = machine.tree ∧
          (∀ command call, launchEntry command call ∉ (Bench.run machine config schedule).log) ∧
          ∀ machine' config' schedule', machine'.tree = machine.tree →
            config'.casesDirectory = config.casesDirectory → config'.pattern = config.pattern →
            Bench.run machine' config' schedule' = Bench.run machine config schedule) := by
  intro config run
  refine ⟨?_, fun machine' processors' schedule' options' hjobs' => ?_,
    fun cases hcases => ⟨Bench.exists_calls_left hcases hjobs schedule,
      fun evaluation hevaluation call hcall => ?_⟩, fun hfinds => ?_⟩
  · rw [exitCode_runOptions, tree_runOptions]
    exact Bench.tells_run hjobs schedule
  · have hsame : Bench.AsksTheSame machine config schedule machine'
          (.ofOptions processors' options') schedule' →
        (runOptions machine' processors' schedule' options').exitCode = run.exitCode := by
      intro hsame
      rw [exitCode_runOptions, exitCode_runOptions]
      exact hsame.exitCode_eq hjobs hjobs'
    refine ⟨hsame, fun htree hdirectory hpattern hjson hleaves hleaves' => hsame ?_⟩
    exact .of_leavesFiles htree (congrArg (·.getD Config.defaultCasesDirectory) hdirectory)
      (congrArg (·.getD Config.defaultPattern) hpattern) hjson hleaves hleaves'
  · have hlog := (Bench.run_of_ok hcases hjobs schedule).2.2 evaluation hevaluation
    exact hlog _ (launchEntry_mem_log config.program hcall)
  · obtain ⟨cause, hcause⟩ := Discovery.exists_cause hfinds
    rw [stdout_runOptions, tree_runOptions, Bench.run_of_error hcause]
    refine ⟨rfl, rfl, launchEntry_not_mem_of_error hcause, ?_⟩
    rw [← Bench.run_of_error hcause schedule]
    intro machine' config' schedule' htree hdirectory hpattern
    exact Bench.run_eq_of_not_finds hfinds htree hdirectory hpattern

/-! ## Examples -/

/-- The settings of a run of a program that writes a document to a path. -/
def documentOptions (program path : String) : Options :=
  { Options.none with program? := some program, json? := some path }

/-- Over the one case of a computer the exit status is that of the document. -/
theorem exitCode_documentOptions {machine : Machine}
    (htree : machine.tree = Bench.echoMachine.tree) (program path : String)
    (schedule : Pool.Schedule) (contents : ByteArray) :
    (runOptions machine 1 schedule (documentOptions program path)).exitCode =
      Bench.statusOf ((Bench.left machine (.ofOptions 1 (documentOptions program path))
        schedule).createFile path contents).1 := by
  have hcases : Discovery.cases machine.tree "cases" "*.txt" =
      .ok [TestCase.load Bench.echoMachine.tree "cases/a.txt"] := by
    rw [htree]
    exact Bench.cases_echoMachine
  have hjobs : (Config.ofOptions 1 (documentOptions program path)).jobs ≤ Pool.maxWorkers := by
    show 1 ≤ Pool.maxWorkers
    decide
  rw [exitCode_runOptions]
  have hexit := (@Bench.run_of_some _ _ schedule _ path hcases hjobs rfl).1
  rw [hexit, Bench.documentOf, FileTree.fst_createFile]

theorem createFile_echoMachine (contents : ByteArray) :
    (Bench.echoMachine.tree.createFile "report.json" contents).1 = .ok () := by
  have hsteps : Pathname.steps "report.json" = ["report.json"] := by decide
  have hparent : Pathname.parent? "report.json" = some "" := by decide +kernel
  have hresolve : Bench.echoMachine.tree.resolve .write "report.json" =
      .ok (.vacant ["report.json"]) :=
    FileTree.resolve_of_steps rfl hsteps (by decide) (.vacant (by decide) rfl)
  rw [FileTree.createFile, hparent]
  dsimp only
  rw [if_pos rfl, FileTree.writeFile, FileTree.writeBytes, hresolve]

/-- A program that gives back what it gets is launched, and the document is written. -/
theorem exit_status_of_echo :
    (Config.ofOptions 1 (documentOptions "echo" "report.json")).jobs ≤ Pool.maxWorkers ∧
      (runOptions Bench.echoMachine 1 id (documentOptions "echo" "report.json")).exitCode = 0 ∧
      (∃ text, (runOptions Bench.echoMachine 1 id
        (documentOptions "echo" "report.json")).tree.readContents "report.json" = .ok text) ∧
      launchEntry "echo" (.compress, "QQ==") ∈ (Bench.run Bench.echoMachine
        (.ofOptions 1 (documentOptions "echo" "report.json")) id).log := by
  have hjobs : (Config.ofOptions 1 (documentOptions "echo" "report.json")).jobs ≤
      Pool.maxWorkers := by decide
  obtain ⟨htells, -, hlaunches, -⟩ := exit_status_tells_search Bench.echoMachine 1 id
    (documentOptions "echo" "report.json") hjobs
  have hleft : Bench.left Bench.echoMachine (.ofOptions 1 (documentOptions "echo" "report.json"))
      id = Bench.echoMachine.tree := Bench.LeavesFiles.left_eq (fun _ _ => rfl) id
  have hexit : (runOptions Bench.echoMachine 1 id
      (documentOptions "echo" "report.json")).exitCode = 0 := by
    rw [exitCode_documentOptions rfl "echo" "report.json" id ByteArray.empty, hleft,
      createFile_echoMachine]
    rfl
  refine ⟨hjobs, hexit, ?_, ?_⟩
  · obtain ⟨-, hreports⟩ := htells.done.mp hexit
    generalize (runOptions Bench.echoMachine 1 id (documentOptions "echo" "report.json")).tree =
      tree at hreports ⊢
    cases hreports with
    | unasked hjson => cases hjson
    | written hjson _ _ hreads =>
      cases hjson
      exact ⟨_, hreads (by rw [hleft]; rfl)⟩
  · obtain ⟨-, hlaunches⟩ := hlaunches _ Bench.cases_echoMachine
    have hcall : (Phase.compress, "QQ==") ∈ (evaluate
        (Bench.plainConfig.runner.invoke Bench.echoMachine) 1
        (TestCase.load Bench.echoMachine.tree "cases/a.txt")).calls := by
      have hechoes : Echoes (Bench.plainConfig.runner.invoke Bench.echoMachine) :=
        Bench.echoes_plainConfig Bench.echoMachine.tree
      rw [calls_of_echoes hechoes Bench.payload_echoMachine 1]
      exact List.mem_cons_self
    exact hlaunches _ List.mem_cons_self _ hcall

/-- A computer whose search path leads to programs of the system. -/
def systemMachine : Machine :=
  { Bench.echoMachine with
    behaviour := Utilities.behaviour Script.echoing.child, commands := Utilities.commands }

/-- A file is kept in the working directory. -/
def KeepsInput (tree : FileTree) : Prop :=
  tree.workingDirectory = [] ∧ ∃ held runs, tree.get? ["xaa"] = some (.file held runs)

theorem keepsInput_writeFile {tree : FileTree} (hworking : tree.workingDirectory = [])
    (h : tree.get? ["xaa"] = none ∨ KeepsInput tree) (contents : ByteArray) :
    KeepsInput (tree.writeFile "xaa" contents).2 := by
  have hsteps : Pathname.steps "xaa" = ["xaa"] := by decide
  have hputs : ∀ runs, tree.get? ["xaa"] ≠ some .directory →
      KeepsInput (tree.insert ["xaa"] (.file contents runs)) := by
    intro runs hne
    have hputs := @FileTree.puts_insert tree [] "xaa" rfl hne (.file contents runs)
    exact ⟨hputs.workingDirectory.trans hworking, contents, runs, hputs.put⟩
  rcases h with hnone | ⟨-, held, runs, hfile⟩
  · have hresolve : tree.resolve .write "xaa" = .ok (.vacant ["xaa"]) :=
      FileTree.resolve_of_steps hworking hsteps (by decide) (.vacant (by decide) hnone)
    rw [FileTree.writeFile, FileTree.writeBytes, hresolve]
    exact hputs false (by rw [hnone]; exact (Option.some_ne_none _).symm)
  · have hresolve : tree.resolve .write "xaa" = .ok (.occupied ["xaa"] (.file held runs)) :=
      FileTree.resolve_of_steps hworking hsteps (by decide)
        (.file (by decide) hfile (.inr rfl))
    rw [FileTree.writeFile, FileTree.writeBytes, hresolve]
    exact hputs runs (by rw [hfile]; simp)

/-- The settings of a run whose program keeps its input. -/
def splitConfig : Config := .ofOptions 1 (documentOptions "split" "xaa/report.json")

theorem launch_split : systemMachine.launch "split" [] = .ok (Utilities.split []) := by
  have hfind : systemMachine.findExecutable splitConfig.program = .ok Utilities.splitContents := by
    rw [Machine.findExecutable, if_neg (by decide)]
    rfl
  exact Bench.launch_of_find hfind (by decide) (by decide)

/-- Each invocation writes its input. -/
theorem fileEffect_split (call : Phase × String) (tree : FileTree) :
    ∃ contents, splitConfig.runner.fileEffect systemMachine call tree =
      (tree.writeFile "xaa" contents).2 := by
  have hsize : (Runner.inputFor call.1 call.2).toUTF8.size ≠ 0 := by
    rw [toUTF8_inputFor, ByteArray.size_append, ByteArray.size_append]
    show _ + 1 + _ ≠ 0
    omega
  refine ⟨(Runner.inputFor call.1 call.2).toUTF8, ?_⟩
  have hlaunch : systemMachine.launch splitConfig.runner.command splitConfig.runner.arguments =
      .ok (Utilities.split []) := launch_split
  simp only [Runner.fileEffect, hlaunch, Utilities.split, if_neg hsize]

/-- After some invocations the input of one of them is kept. -/
theorem keepsInput_foldl (calls : List (Phase × String)) {tree : FileTree}
    (h : KeepsInput tree) : KeepsInput
      (calls.foldl (fun tree call => splitConfig.runner.fileEffect systemMachine call tree)
        tree) := by
  induction calls generalizing tree with
  | nil => exact h
  | cons call rest ih =>
    obtain ⟨contents, heffect⟩ := fileEffect_split call tree
    rw [List.foldl_cons, heffect]
    exact ih (keepsInput_writeFile h.1 (.inr h) contents)

/-- So it is after a run. -/
theorem keepsInput_left : KeepsInput (Bench.left systemMachine splitConfig id) := by
  obtain ⟨calls, hperm, hleft⟩ :=
    @Bench.exists_calls_left systemMachine splitConfig _ Bench.cases_echoMachine (by decide) id
  obtain ⟨verdict, hcourse, -⟩ := course_evaluate Bench.payload_echoMachine
    (splitConfig.runner.invoke systemMachine) 1
  have hcalls : calls.Perm (evaluate (splitConfig.runner.invoke systemMachine) 1
      (TestCase.load Bench.echoMachine.tree "cases/a.txt")).calls := by
    simpa [evaluateAll] using hperm
  rw [hleft]
  cases calls with
  | nil =>
    rw [hcalls.nil_eq.symm] at hcourse
    cases hcourse
  | cons call rest =>
    obtain ⟨contents, heffect⟩ := fileEffect_split call systemMachine.tree
    rw [Runner.treeAfter, List.foldl_cons, heffect]
    exact keepsInput_foldl rest (keepsInput_writeFile rfl (.inl rfl) contents)

/-- **What a program does to the files counts**: the same run ends with 1 or 0, as the program that
is asked for stands in the way of the document or is not there at all. -/
theorem exit_status_of_split :
    (runOptions systemMachine 1 id (documentOptions "split" "xaa/report.json")).exitCode = 1 ∧
      (runOptions systemMachine 1 id (documentOptions "missing" "xaa/report.json")).exitCode =
        0 := by
  have hsteps : Pathname.steps "xaa/report.json" = ["xaa", "report.json"] := by decide
  constructor
  · obtain ⟨hworking, held, runs, hfile⟩ := keepsInput_left
    have hrefused := FileTree.createFile_ne_ok_of_file hworking hfile hsteps (by decide)
      (by decide) ByteArray.empty
    rw [@exitCode_documentOptions systemMachine rfl "split" "xaa/report.json" id .empty]
    show Bench.statusOf ((Bench.left systemMachine splitConfig id).createFile _ _).1 = 1
    cases hcreate : ((Bench.left systemMachine splitConfig id).createFile "xaa/report.json"
      ByteArray.empty).1 with
    | ok done => exact absurd hcreate hrefused
    | error error => rfl
  · have hfind : systemMachine.findExecutable "missing" = .error .notFound := by
      rw [Machine.findExecutable, if_neg (by decide)]
      rfl
    obtain ⟨error, hlaunch⟩ := Bench.exists_launch_error hfind []
    have hleft : Bench.left systemMachine
        (.ofOptions 1 (documentOptions "missing" "xaa/report.json")) id = Bench.echoMachine.tree :=
      Bench.left_of_fileEffect (Bench.fileEffect_of_launch_error hlaunch) id
    have hparent : Pathname.parent? "xaa/report.json" = some "xaa" := by decide +kernel
    have hresolve : (Bench.echoMachine.tree.insert ["xaa"] .directory).resolve .write
        "xaa/report.json" = .ok (.vacant ["xaa", "report.json"]) :=
      FileTree.resolve_of_steps rfl hsteps (by decide)
        (.enter (by decide) rfl (.vacant (by decide) rfl))
    rw [@exitCode_documentOptions systemMachine rfl "missing" "xaa/report.json" id .empty, hleft,
      FileTree.createFile_of_vacant rfl (by decide) (by decide) (by decide) rfl (by decide) hparent,
      FileTree.writeFile, FileTree.writeBytes, hresolve]
    rfl

end CommandLine

end CompressorBench
