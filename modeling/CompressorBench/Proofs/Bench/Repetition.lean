import CompressorBench.Proofs.Bench.Machines
import CompressorBench.Proofs.Files.Growth

/-!
# Running the benchmark once more

A run that writes a report as a document changes the files that the next run finds. As long as the
document is none of the files that were read, the next run finds the same cases with the same texts
and reports the same. The directories that were made for the document are no cases, whatever their
names are. They do matter in one way: a command whose path goes through one of them could not be
started before and can be now (`started_by_repeating`).

* `FileTree.Receives.lists`, `FileTree.Receives.resolve_file`: what is listed and read once more.
* `Spares`: the document is none of the files that a run depends on.
* `run_repeats`: what the second run comes to.
-/

namespace CompressorBench

open Report (Summary)

/-! ## What is found once more -/

namespace FileTree

variable {tree tree' : FileTree} {report path : String} {location here other : Location}
  {contents : ByteArray} {executable : Bool}

/-- A file that is not the written one is found as before. -/
theorem Receives.resolve_file (h : Receives tree tree' report location contents executable)
    {held : ByteArray} {runs : Bool} (hne : other ≠ location)
    (hresolve : tree.resolve .reach path = .ok (.occupied other (.file held runs))) :
    tree'.resolve .reach path = tree.resolve .reach path := by
  refine resolve_eq_of_looks h.workingDirectory fun _ => ?_
  obtain ⟨-, looked, hlooks⟩ := exists_looks_of_ok hresolve
  refine ⟨looked, _, hlooks, fun l hl => ?_⟩
  rcases Follows.isPassage_or_endsAt hlooks rfl l hl with hpassage | hends
  · exact h.get?_of_isPassage hpassage
  · cases hends with
    | file hfile => rw [hfile, h.keeps _ _ hne hfile]

theorem Receives.resolve_directory (h : Receives tree tree' report location contents executable)
    (hresolve : tree.resolve .reach path = .ok (.occupied here .directory)) :
    tree'.resolve .reach path = .ok (.occupied here .directory) :=
  resolve_directory_of_isPassage h.workingDirectory (fun _ => h.get?_of_isPassage) hresolve

/-- **The same names are listed**, as long as the written file is no new one with a name that
matches. New directories are not listed. -/
theorem Receives.lists (h : Receives tree tree' report location contents executable) {glob : Glob}
    {names : List String} (hlists : Lists glob (tree.children here) names)
    (hfresh : ∀ name, location = here ++ [name] → tree.get? location = none →
      glob.accepts name = false) :
    Lists glob (tree'.children here) names := by
  refine ⟨nodup_children tree' here, fun name => ?_, hlists.ascending⟩
  rw [hlists.mem_iff]
  simp only [mem_children_iff]
  by_cases hlocation : here ++ [name] = location
  · have hwritten := get?_of_resolve (h.leads .reach nofun)
    constructor
    · rintro ⟨entry, hentry, hfile, haccepts⟩
      exact ⟨_, hlocation ▸ hwritten, rfl, haccepts⟩
    · rintro ⟨entry, hentry, hfile, haccepts⟩
      rcases h.writable with hnone | ⟨held, runs, hheld⟩
      · rw [hfresh name hlocation.symm hnone] at haccepts
        cases haccepts
      · exact ⟨_, hlocation ▸ hheld, rfl, haccepts⟩
  · constructor
    · rintro ⟨entry, hentry, hlisted⟩
      exact ⟨entry, h.keeps _ _ hlocation hentry, hlisted⟩
    · rintro ⟨entry, hentry, hfile, haccepts⟩
      cases hold : tree.get? (here ++ [name]) with
      | some old =>
        rw [h.keeps _ _ hlocation hold] at hentry
        cases hentry
        exact ⟨_, rfl, hfile, haccepts⟩
      | none =>
        rcases h.adds _ hlocation hold with hnone | hdirectory
        · rw [hnone] at hentry
          cases hentry
        · rw [hdirectory] at hentry
          cases hentry
          cases hfile

/-- A file whose bytes can be read is where its path leads. -/
theorem exists_of_readBytes {bytes : ByteArray} (h : tree.readBytes path = .ok bytes) :
    ∃ location executable,
      tree.resolve .reach path = .ok (.occupied location (.file bytes executable)) := by
  unfold readBytes at h
  split at h
  · cases h
  · cases h
  · next location held executable hresolve =>
    cases h
    exact ⟨location, executable, hresolve⟩
  · cases h
  · cases h

theorem exists_of_executable (h : tree.executable path = .ok contents) :
    ∃ location, tree.resolve .reach path = .ok (.occupied location (.file contents true)) := by
  unfold FileTree.executable at h
  split at h
  · cases h
  · cases h
  · next location held hresolve =>
    cases h
    exact ⟨location, hresolve⟩
  · cases h

end FileTree

/-! ## Documents and runs -/

namespace Bench

variable {machine machine' : Machine} {config : Config} {schedule schedule' : Pool.Schedule}
  {outcomes : List Outcome}

/-- A path leads to an entry at a location. -/
def LeadsTo (tree : FileTree) (path : String) (location : Location) : Prop :=
  ∃ entry, tree.resolve .reach path = .ok (.occupied location entry)

/-- The document that a path leads to in the new tree is none of the files that a run over the old
tree depends on: neither the program nor what a listed file stands for, nor a new file of the
directory with a name that matches. -/
structure Spares (config : Config) (tree tree' : FileTree) (report : String) : Prop where
  program : config.program.toList.contains '/' = true →
    ∀ location, LeadsTo tree' report location → ¬ LeadsTo tree config.program location
  files : ∀ location, LeadsTo tree' report location →
    ∀ paths, Discovery.caseFiles tree config.casesDirectory config.pattern = .ok paths →
      ∀ path ∈ paths, ¬ LeadsTo tree path location
  fresh : ∀ location, LeadsTo tree' report location →
    ∀ here glob name, LeadsTo tree config.casesDirectory here →
      Glob.ofString config.pattern = .ok glob → location = here ++ [name] →
      tree.get? location = none → glob.accepts name = false

/-- What a run that succeeds comes to: the files that the program left, or those with the
document. -/
theorem tree_of_result (h : (run machine config schedule).result = .ok outcomes) :
    config.jsonReport? = none ∧
        (run machine config schedule).tree = left machine config schedule ∨
      ∃ report, config.jsonReport? = some report ∧
        (left machine config schedule).createJson report (.ok (Report.reportJson outcomes)) =
          (.ok (), (run machine config schedule).tree) := by
  obtain ⟨cases, hcases, -⟩ := exists_of_result h
  rw [run_of_cases hcases] at h ⊢
  cases hpool : Pool.runAll config.jobs (config.runner.invoke machine) schedule cases with
  | error failure =>
    rw [runCases, hpool] at h
    cases h
  | ok pool =>
    rw [left_of_runAll hcases hpool]
    generalize hleft : config.runner.treeAfter machine pool.calls = left
    simp only [runCases, hpool, hleft] at h ⊢
    cases hreport : config.jsonReport? with
    | none =>
      simp only [writeReport, hreport]
      exact .inl ⟨trivial, trivial⟩
    | some report =>
      simp only [writeReport, hreport] at h ⊢
      cases hwrite : left.createJson report (.ok (Report.reportJson pool.outcomes)) with
      | mk result written =>
        cases result with
        | error e =>
          simp only [hwrite] at h
          cases h
        | ok done =>
          simp only [hwrite] at h ⊢
          cases h
          exact .inr ⟨report, rfl, hwrite⟩

/-- A run that finds its cases and can write its document succeeds. -/
theorem exists_result_of_writeReport {cases : List TestCase}
    (hcases : Discovery.cases machine.tree config.casesDirectory config.pattern = .ok cases)
    (hjobs : config.jobs ≤ Pool.maxWorkers) (hleaves : LeavesFiles config machine)
    (hwrite : ∀ outcomes, (writeReport config machine.tree outcomes).1 = .ok ()) :
    ∃ outcomes, (run machine config schedule).result = .ok outcomes := by
  obtain ⟨pool, hpool⟩ := runAll_invoke hjobs config.runner machine schedule cases
  rw [run_of_cases hcases, (runCases_of_runAll hpool).2,
    treeAfter_of_fileEffect hleaves.fileEffect_eq, hwrite]
  exact ⟨_, rfl⟩

/-- Two runs over the same cases with programs that agree have the same outcomes but for the times,
and print the same. -/
theorem results_eq {outcomes' : List Outcome}
    (hresult : (run machine config schedule).result = .ok outcomes)
    (hresult' : (run machine' config schedule').result = .ok outcomes')
    (hcases : Discovery.cases machine'.tree config.casesDirectory config.pattern =
      Discovery.cases machine.tree config.casesDirectory config.pattern)
    (hagree : (config.runner.invoke machine).Agrees (config.runner.invoke machine')) :
    outcomes'.map Outcome.untimed = outcomes.map Outcome.untimed ∧
      (run machine' config schedule').printed = (run machine config schedule).printed := by
  obtain ⟨cases, hfound, houtcomes, hprinted⟩ := exists_of_result hresult
  obtain ⟨cases', hfound', houtcomes', hprinted'⟩ := exists_of_result hresult'
  rw [hcases, hfound] at hfound'
  cases hfound'
  have huntimed : outcomes'.map Outcome.untimed = outcomes.map Outcome.untimed := by
    rw [houtcomes, houtcomes']
    exact untimed_evaluateAll ((isMeasured_invoke config.runner machine).endures cases)
      ((isMeasured_invoke config.runner machine').endures cases) hagree
  refine ⟨huntimed, ?_⟩
  rw [hprinted, hprinted', printedText_eq_of_untimed huntimed]

/-! ## The second run -/

/-- Every file that is listed can be read. -/
def AllReadable (config : Config) (tree : FileTree) : Prop :=
  ∀ paths, Discovery.caseFiles tree config.casesDirectory config.pattern = .ok paths →
    ∀ path ∈ paths, ∃ bytes, tree.readBytes path = .ok bytes

/-- What the second run needs: the same cases, the same program, and a place for the document. -/
structure Repeatable (config : Config) (machine machine' : Machine) : Prop where
  cases : Discovery.cases machine'.tree config.casesDirectory config.pattern =
    Discovery.cases machine.tree config.casesDirectory config.pattern
  launches : LaunchesAlike config machine machine'
  writes : ∀ outcomes, (writeReport config machine'.tree outcomes).1 = .ok ()

theorem repeatable_of_eq (halike : ActsAlike config machine machine')
    (htree : machine'.tree = machine.tree) (hreport : config.jsonReport? = none) :
    Repeatable config machine machine' where
  cases := by rw [htree]
  launches := .of_executable halike fun _ => .inl (by rw [htree])
  writes outcomes := by rw [writeReport, hreport]

variable {report : String} {location : Location} {contents : ByteArray} {executable : Bool}

theorem leadsTo_of_receives
    (hreceives : machine.tree.Receives machine'.tree report location contents executable) :
    LeadsTo machine'.tree report location :=
  ⟨_, hreceives.leads .reach (by simp)⟩

/-- The cases are found once more. -/
theorem cases_of_receives
    (hreceives : machine.tree.Receives machine'.tree report location contents executable)
    (hspares : Spares config machine.tree machine'.tree report)
    (hreadable : AllReadable config machine.tree) {cases : List TestCase}
    (hcases : Discovery.cases machine.tree config.casesDirectory config.pattern = .ok cases) :
    Discovery.cases machine'.tree config.casesDirectory config.pattern =
      Discovery.cases machine.tree config.casesDirectory config.pattern := by
  have hleads : LeadsTo machine'.tree report location := leadsTo_of_receives hreceives
  obtain ⟨glob, entries, names, hglob, hentries, hlists, -⟩ := FileTree.exists_of_cases hcases
  obtain ⟨here, hdirectory, rfl⟩ := FileTree.exists_of_readDirectory hentries
  have hlists' := hreceives.lists hlists fun name hlocation hnone =>
    hspares.fresh location hleads here glob name ⟨_, hdirectory⟩ hglob hlocation hnone
  have hentries' := FileTree.readDirectory_of_resolve (hreceives.resolve_directory hdirectory)
  have hfiles := FileTree.caseFiles_of_lists hglob hentries hlists
  refine FileTree.cases_congr hfiles (FileTree.caseFiles_of_lists hglob hentries' hlists')
    fun path hpath => FileTree.readContents_eq ?_
  obtain ⟨bytes, hbytes⟩ := hreadable _ hfiles path hpath
  obtain ⟨other, runs, hresolve⟩ := FileTree.exists_of_readBytes hbytes
  refine hreceives.resolve_file ?_ hresolve
  rintro rfl
  exact hspares.files _ hleads _ hfiles path hpath ⟨_, hresolve⟩

/-- A program that was started is started once more. -/
theorem launches_of_receives (halike : ActsAlike config machine machine')
    (hreceives : machine.tree.Receives machine'.tree report location contents executable)
    (hspares : Spares config machine.tree machine'.tree report)
    (hstarts : ∀ error, machine.launch config.program config.programArguments = .error error →
      ∃ error', machine'.launch config.program config.programArguments = .error error') :
    LaunchesAlike config machine machine' := by
  cases hlaunch : machine.launch config.program config.programArguments with
  | error error =>
    obtain ⟨error', hlaunch'⟩ := hstarts error hlaunch
    exact .neither hlaunch hlaunch'
  | ok start =>
    refine .of_executable halike fun hslash => .inl ?_
    obtain ⟨held, hfind, -⟩ := exists_of_launch hlaunch
    rw [Machine.findExecutable, if_pos hslash] at hfind
    obtain ⟨other, hresolve⟩ := FileTree.exists_of_executable hfind
    have hne : other ≠ location := by
      rintro rfl
      exact hspares.program hslash _ (leadsTo_of_receives hreceives) ⟨_, hresolve⟩
    exact FileTree.executable_eq (hreceives.resolve_file hne hresolve)

/-- The document is written once more. -/
theorem writes_of_createFile (hplace : machine.tree.HasPlace)
    (hreport : config.jsonReport? = some report)
    (hwrite : machine.tree.createFile report contents = (.ok (), machine'.tree))
    (outcomes : List Outcome) : (writeReport config machine'.tree outcomes).1 = .ok () := by
  have hagain := FileTree.createFile_again hplace hwrite
    (Report.reportJson outcomes).indented.toUTF8
  simp only [writeReport, hreport, FileTree.createJson]
  cases hwritten : machine'.tree.createFile report (Report.reportJson outcomes).indented.toUTF8 with
  | mk result written =>
    rw [hwritten] at hagain
    cases hagain
    rfl

/-- Whatever a run has left, it can be repeated. -/
theorem repeatable_of_result (hplace : machine.tree.HasPlace)
    (hresult : (run machine config schedule).result = .ok outcomes)
    (hafter : machine'.tree = (run machine config schedule).tree)
    (halike : ActsAlike config machine machine') (hleaves : LeavesFiles config machine)
    (hreadable : AllReadable config machine.tree)
    (hspares : ∀ report, config.jsonReport? = some report →
      Spares config machine.tree machine'.tree report)
    (hstarts : ∀ error, machine.launch config.program config.programArguments = .error error →
      ∃ error', machine'.launch config.program config.programArguments = .error error') :
    Repeatable config machine machine' := by
  have htree := tree_of_result hresult
  rw [hleaves.left_eq, ← hafter] at htree
  rcases htree with ⟨hreport, htree⟩ | ⟨report, hreport, hwrite⟩
  · exact repeatable_of_eq halike htree hreport
  · obtain ⟨cases, hcases, -⟩ := exists_of_result hresult
    obtain ⟨location, executable, hreceives⟩ := FileTree.receives_createFile hplace hwrite
    exact ⟨cases_of_receives hreceives (hspares report hreport) hreadable hcases,
      launches_of_receives halike hreceives (hspares report hreport) hstarts,
      writes_of_createFile hplace hreport hwrite⟩

/-- A directory is no case. -/
theorem ne_of_directory {here : Location} {name : String}
    (hresult : (run machine config schedule).result = .ok outcomes)
    (hdirectory : machine.tree.resolve .reach config.casesDirectory =
      .ok (.occupied here .directory))
    (hentry : machine.tree.get? (here ++ [name]) = some .directory) :
    ∀ outcome ∈ outcomes, outcome.name ≠ Pathname.join config.casesDirectory name := by
  obtain ⟨cases, hcases, houtcomes, -⟩ := exists_of_result hresult
  obtain ⟨glob, entries, names, -, hentries, hlists, rfl⟩ := FileTree.exists_of_cases hcases
  cases (FileTree.readDirectory_of_resolve hdirectory).symm.trans hentries
  rw [outcomes_evaluateAll] at houtcomes
  intro outcome houtcome hname
  rw [houtcomes] at houtcome
  obtain ⟨i, hi, rfl⟩ := List.mem_mapIdx.mp houtcome
  rw [name_outcomeOf] at hname
  obtain ⟨entry, hlisted, hfile, -⟩ := (hlists.mem_iff _).mp (List.getElem_mem hi)
  rw [Pathname.join_inj hname, FileTree.mem_children_iff, hentry] at hlisted
  cases hlisted
  cases hfile

/-- **A run can be repeated**, although it may have written a document. If the program leaves the
files alone, every listed file could be read, and the document is none of the files that the run
depends on, then the next run succeeds, prints the same and has the same outcomes but for the times;
no directory that was made for the document is a case. A program that could not be started must not
become one that can. -/
theorem run_repeats {machine machine' : Machine} {config : Config}
    {schedule schedule' : Pool.Schedule} {outcomes : List Outcome}
    (hplace : machine.tree.HasPlace)
    (hresult : (run machine config schedule).result = .ok outcomes)
    (hafter : machine'.tree = (run machine config schedule).tree)
    (halike : ActsAlike config machine machine')
    (hleaves : LeavesFiles config machine) (hleaves' : LeavesFiles config machine')
    (hreadable : AllReadable config machine.tree)
    (hspares : ∀ report, config.jsonReport? = some report →
      Spares config machine.tree machine'.tree report)
    (hstarts : ∀ error, machine.launch config.program config.programArguments = .error error →
      ∃ error', machine'.launch config.program config.programArguments = .error error') :
    ∃ outcomes', (run machine' config schedule').result = .ok outcomes' ∧
      (run machine' config schedule').printed = (run machine config schedule).printed ∧
      outcomes'.map Outcome.untimed = outcomes.map Outcome.untimed ∧
      Summary.ofOutcomes outcomes' = Summary.ofOutcomes outcomes ∧
      ∀ here name, machine'.tree.resolve .reach config.casesDirectory =
          .ok (.occupied here .directory) →
        machine'.tree.get? (here ++ [name]) = some .directory →
        ∀ outcome ∈ outcomes', outcome.name ≠ Pathname.join config.casesDirectory name := by
  have hrepeatable := repeatable_of_result hplace hresult hafter halike hleaves hreadable
    hspares hstarts
  obtain ⟨cases, hcases, -⟩ := exists_of_result hresult
  obtain ⟨outcomes', hresult'⟩ : ∃ outcomes', (run machine' config schedule').result =
      .ok outcomes' := exists_result_of_writeReport (hrepeatable.cases.trans hcases)
    (jobs_le_of_result hresult) hleaves' hrepeatable.writes
  have hagree := agrees_invoke halike hrepeatable.launches
  obtain ⟨huntimed, hprinted⟩ := results_eq hresult hresult' hrepeatable.cases hagree
  exact ⟨outcomes', hresult', hprinted, huntimed, Report.ofOutcomes_eq_of_untimed huntimed,
    fun here name hdirectory hentry => ne_of_directory hresult' hdirectory hentry⟩

/-! ## A program behind a new directory -/

/-- A computer with one case file and, beside it, a program that gives back what it gets. -/
def detourMachine : Machine :=
  { echoMachine with
    tree := ⟨[("cases", .directory [("a.txt", .file oneByteText false)]),
        ("prog", .file ⟨#[]⟩ true)], [],
      .directory (by decide) (by simp [Node.Proper.file, Node.Proper.directory])⟩ }

/-- The settings of a run that makes a directory for its document. -/
def detourConfig (program : String) : Config :=
  { program, programArguments := [], casesDirectory := "cases",
    pattern := "*.txt", timeLimit := Runner.defaultLimit, jobs := 1,
    jsonReport? := some "new/report.json", showProgress := false }

/-- The files with the document. -/
def documentedTree (contents : ByteArray) : FileTree :=
  (detourMachine.tree.insert ["new"] .directory).insert ["new", "report.json"]
    (.file contents false)

theorem createFile_detour (contents : ByteArray) :
    detourMachine.tree.createFile "new/report.json" contents =
      (.ok (), documentedTree contents) := by
  have hparent : Pathname.parent? "new/report.json" = some "new" := by decide +kernel
  have hsteps : Pathname.steps "new/report.json" = ["new", "report.json"] := by decide
  have hreport : (detourMachine.tree.insert ["new"] .directory).resolve .write "new/report.json" =
      .ok (.vacant ["new", "report.json"]) :=
    FileTree.resolve_of_steps rfl hsteps (by decide)
      (.enter (by decide) rfl (.vacant (by decide) rfl))
  rw [FileTree.createFile_of_vacant rfl (by decide) (by decide) (by decide) rfl (by decide) hparent,
    FileTree.writeFile, FileTree.writeBytes, hreport]
  rfl

theorem fewFiles_detour : FewFiles (detourMachine.tree.children ["cases"]) ["a.txt"] :=
  ⟨nofun, by decide, by decide, by decide⟩

theorem caseFiles_detour :
    Discovery.caseFiles detourMachine.tree "cases" "*.txt" = .ok ["cases/a.txt"] :=
  caseFiles_of_fewFiles (resolve_casesDirectory rfl rfl) fewFiles_detour

theorem cases_detour : Discovery.cases detourMachine.tree "cases" "*.txt" =
    .ok [TestCase.load detourMachine.tree "cases/a.txt"] :=
  cases_of_fewFiles (resolve_casesDirectory rfl rfl) fewFiles_detour

theorem resolve_case_detour : detourMachine.tree.resolve .reach "cases/a.txt" =
    .ok (.occupied ["cases", "a.txt"] (.file oneByteText false)) := by
  have hsteps : Pathname.steps "cases/a.txt" = ["cases", "a.txt"] := by decide
  exact FileTree.resolve_of_steps rfl hsteps (by decide)
    (.enter (by decide) rfl (.file (by decide) rfl (.inr rfl)))

theorem payload_detour :
    (TestCase.load detourMachine.tree "cases/a.txt").payload = .ok .oneByte :=
  payload_of_resolve resolve_case_detour

/-- No program of these computers does anything to the files. -/
theorem leavesFiles_detour (config : Config) (tree : FileTree) :
    LeavesFiles config { detourMachine with tree } := fun _ _ => rfl

/-- Nothing can be found in a directory that is not there. -/
theorem resolve_behind_detour :
    detourMachine.tree.resolve .reach "new/../prog" = .error .notFound := by
  have hsteps : Pathname.steps "new/../prog" = ["new", "..", "prog"] := by decide
  exact FileTree.resolve_of_steps rfl hsteps (by decide)
    (.missing (by decide) rfl (by decide))

theorem launch_detour : ∃ error, detourMachine.launch "new/../prog" [] = .error error := by
  have hfind : detourMachine.findExecutable "new/../prog" = .error .notFound := by
    rw [Machine.findExecutable, if_pos (by decide), FileTree.executable, resolve_behind_detour]
  exact exists_launch_error hfind []

/-- Once the directory is made, the program behind it is found. -/
theorem echoes_documented (contents : ByteArray) :
    Echoes ((detourConfig "new/../prog").runner.invoke
      { detourMachine with tree := documentedTree contents }) := by
  have hsteps : Pathname.steps "new/../prog" = ["new", "..", "prog"] := by decide
  have hresolve : (documentedTree contents).resolve .reach "new/../prog" =
      .ok (.occupied ["prog"] (.file ⟨#[]⟩ true)) :=
    FileTree.resolve_of_steps rfl hsteps (by decide)
      (.enter (by decide) rfl (.leave (.file (by decide) rfl (.inr rfl))))
  have hfind : Machine.findExecutable { detourMachine with tree := documentedTree contents }
      "new/../prog" = .ok ⟨#[]⟩ := findExecutable_of_resolve (by decide) hresolve
  exact echoes_of_launch (launch_of_find hfind (by decide) (by decide)) (by decide)

theorem readable_detour (program : String) :
    AllReadable (detourConfig program) detourMachine.tree := by
  intro paths hpaths path hpath
  cases caseFiles_detour.symm.trans hpaths
  rw [List.mem_singleton.mp hpath, FileTree.readBytes, resolve_case_detour]
  exact ⟨_, rfl⟩

theorem spares_detour {program : String}
    (hprogram : ¬ LeadsTo detourMachine.tree program ["new", "report.json"])
    (contents : ByteArray) :
    Spares (detourConfig program) detourMachine.tree (documentedTree contents)
      "new/report.json" := by
  have hlocation : ∀ location, LeadsTo (documentedTree contents) "new/report.json" location →
      location = ["new", "report.json"] := by
    rintro location ⟨entry, hleads⟩
    have hsteps : Pathname.steps "new/report.json" = ["new", "report.json"] := by decide
    have hresolve : (documentedTree contents).resolve .reach "new/report.json" =
        .ok (.occupied ["new", "report.json"] (.file contents false)) :=
      FileTree.resolve_of_steps rfl hsteps (by decide)
        (.enter (by decide) rfl (.file (by decide) rfl (.inr rfl)))
    cases hresolve.symm.trans hleads
    rfl
  constructor
  · intro _ location hleads
    rw [hlocation _ hleads]
    exact hprogram
  · rintro location hleads paths hpaths path hpath ⟨entry, hfile⟩
    cases caseFiles_detour.symm.trans hpaths
    rw [List.mem_singleton.mp hpath] at hfile
    cases resolve_case_detour.symm.trans hfile
    exact absurd (hlocation _ hleads) (by decide)
  · rintro location hleads here glob name ⟨entry, hdirectory⟩ - hname
    cases (resolve_casesDirectory rfl rfl).symm.trans hdirectory
    have hhead : some "new" = some "cases" :=
      congrArg List.head? ((hlocation _ hleads).symm.trans hname)
    exact absurd hhead (by decide)

/-- The run makes the directory and writes its document, whatever the program does. -/
theorem result_detour (program : String) : ∃ contents,
    (run detourMachine (detourConfig program) id).result =
        .ok [(evaluate ((detourConfig program).runner.invoke detourMachine) 1
          (TestCase.load detourMachine.tree "cases/a.txt")).outcome] ∧
      (run detourMachine (detourConfig program) id).tree = documentedTree contents := by
  have hwrite : ∀ outcomes,
      (writeReport (detourConfig program) detourMachine.tree outcomes).1 = .ok () := by
    intro outcomes
    simp only [writeReport, detourConfig, FileTree.createJson, createFile_detour]
  obtain ⟨outcomes, hresult⟩ : ∃ outcomes,
      (run detourMachine (detourConfig program) id).result = .ok outcomes :=
    exists_result_of_writeReport cases_detour (Nat.le_of_ble_eq_true rfl)
      (leavesFiles_detour _ _) hwrite
  obtain ⟨cases, hcases, houtcomes, -⟩ := exists_of_result hresult
  cases cases_detour.symm.trans hcases
  have htree := tree_of_result hresult
  rw [(leavesFiles_detour _ _).left_eq] at htree
  rw [hresult, houtcomes]
  rcases htree with ⟨hreport, -⟩ | ⟨report, hreport, hdocument⟩
  · cases hreport
  · cases hreport
    rw [FileTree.createJson, createFile_detour] at hdocument
    exact ⟨_, rfl, (Prod.mk.inj hdocument).2.symm⟩

/-- **A program whose path goes through a directory that is made for the document** cannot be
started by the first run, and is started by the second one. -/
theorem started_by_repeating :
    ∃ config machine' outcomes outcomes', config = detourConfig "new/../prog" ∧
      detourMachine.tree.HasPlace ∧
      (run detourMachine config id).result = .ok outcomes ∧
      machine' = { detourMachine with tree := (run detourMachine config id).tree } ∧
      AllReadable config detourMachine.tree ∧
      (∀ report, config.jsonReport? = some report →
        Spares config detourMachine.tree machine'.tree report) ∧
      (run machine' config id).result = .ok outcomes' ∧
      outcomes'.map Outcome.untimed ≠ outcomes.map Outcome.untimed := by
  obtain ⟨contents, hresult, htree⟩ := result_detour "new/../prog"
  let config := detourConfig "new/../prog"
  let machine' : Machine := { detourMachine with tree := (run detourMachine config id).tree }
  have hplace : detourMachine.tree.HasPlace := rfl
  have hspares : Spares config detourMachine.tree machine'.tree "new/report.json" := by
    show Spares _ _ (run detourMachine config id).tree _
    rw [htree]
    refine spares_detour ?_ contents
    rintro ⟨entry, hleads⟩
    cases resolve_behind_detour.symm.trans hleads
  -- the second run finds the case and writes its document
  have hcreate : detourMachine.tree.createFile "new/report.json" contents =
      (.ok (), machine'.tree) := by
    rw [createFile_detour, ← htree]
  obtain ⟨location, executable, hreceives⟩ := FileTree.receives_createFile hplace hcreate
  have hcases : Discovery.cases machine'.tree "cases" "*.txt" =
      .ok [TestCase.load detourMachine.tree "cases/a.txt"] :=
    (cases_of_receives hreceives hspares (readable_detour _) cases_detour).trans cases_detour
  obtain ⟨outcomes', hresult'⟩ : ∃ outcomes', (run machine' config id).result = .ok outcomes' :=
    exists_result_of_writeReport hcases (Nat.le_of_ble_eq_true rfl) (leavesFiles_detour _ _)
      (writes_of_createFile hplace rfl hcreate)
  obtain ⟨cases, hfound, houtcomes', -⟩ := exists_of_result hresult'
  cases hcases.symm.trans hfound
  -- the verdicts are different
  obtain ⟨error, hlaunch⟩ := launch_detour
  have hverdict : (evaluate (config.runner.invoke detourMachine) 1
      (TestCase.load detourMachine.tree "cases/a.txt")).outcome.verdict =
        .runtimeError .compress none := verdict_of_launch_error hlaunch payload_detour 1
  have hechoes : Echoes (config.runner.invoke machine') := by
    show Echoes (config.runner.invoke
      { detourMachine with tree := (run detourMachine config id).tree })
    rw [htree]
    exact echoes_documented contents
  have hverdict' := verdict_of_oneByte hechoes payload_detour 1
  refine ⟨config, machine', _, outcomes', rfl, hplace, hresult, rfl, readable_detour _, ?_,
    hresult', ?_⟩
  · rintro report hreport
    cases hreport
    exact hspares
  · intro huntimed
    rw [houtcomes'] at huntimed
    have hsame := congrArg Outcome.verdict (List.cons.inj huntimed).1
    cases hverdict'.symm.trans (hsame.trans hverdict)

/-- A program that is there all the time is run by both runs. -/
theorem run_repeats_on_the_spot :
    ∃ config machine' outcomes outcomes', config = detourConfig "./prog" ∧
      (run detourMachine config id).result = .ok outcomes ∧
      machine' = { detourMachine with tree := (run detourMachine config id).tree } ∧
      (run machine' config id).result = .ok outcomes' ∧
      outcomes'.map Outcome.untimed = outcomes.map Outcome.untimed := by
  obtain ⟨contents, hresult, htree⟩ := result_detour "./prog"
  let config := detourConfig "./prog"
  let machine' : Machine := { detourMachine with tree := (run detourMachine config id).tree }
  have hplace : detourMachine.tree.HasPlace := rfl
  have hsteps : Pathname.steps "./prog" = [".", "prog"] := by decide
  have hresolve : detourMachine.tree.resolve .reach "./prog" =
      .ok (.occupied ["prog"] (.file ⟨#[]⟩ true)) :=
    FileTree.resolve_of_steps rfl hsteps (by decide)
      (.stay (.file (by decide) rfl (.inr rfl)))
  have hspares : ∀ report, config.jsonReport? = some report →
      Spares config detourMachine.tree machine'.tree report := by
    rintro report hreport
    cases hreport
    show Spares _ _ (run detourMachine config id).tree _
    rw [htree]
    refine spares_detour ?_ contents
    rintro ⟨entry, hleads⟩
    rw [hresolve] at hleads
    have hhead : some "prog" = some "new" :=
      congrArg List.head? (FileTree.Place.occupied.inj (Except.ok.inj hleads)).1
    exact absurd hhead (by decide)
  have hfind : detourMachine.findExecutable config.program = .ok ⟨#[]⟩ :=
    findExecutable_of_resolve (by decide) hresolve
  have hlaunch := launch_of_find hfind (by decide) (by decide)
  have hstarts : ∀ error, detourMachine.launch config.program config.programArguments =
      .error error → ∃ error', machine'.launch config.program config.programArguments =
        .error error' := by
    intro error herror
    cases hlaunch.symm.trans herror
  have halike : ActsAlike config detourMachine machine' := .of_eq rfl rfl
  obtain ⟨outcomes', hresult', -, huntimed, -⟩ : ∃ outcomes',
      (run machine' config id).result = .ok outcomes' ∧ _ :=
    run_repeats hplace hresult rfl halike (leavesFiles_detour _ _) (leavesFiles_detour _ _)
      (readable_detour _) hspares hstarts
  exact ⟨config, machine', _, outcomes', rfl, hresult, rfl, hresult', huntimed⟩

end Bench

end CompressorBench
