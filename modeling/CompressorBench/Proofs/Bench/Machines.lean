import CompressorBench.Proofs.Bench.Observation

/-!
# Machines and what programs do to them

A program can do to the files what it likes, and a run writes its document into the files that the
program has left (`left`). They are those of before if the program leaves the files alone.

If, in two runs under the same settings on two machines, the executable files of the
machines act alike up to the time they take (`ActsAlike`), and the program is started on both or on
none (`LaunchesAlike`), then the two programs agree, and a file with the same text on both comes to
the same outcome but for its index and the time.

* `exists_calls_left`: what the files that are left depend on.
* `agrees_invoke`: the programs of two such machines agree.
* `outcomeOf_untimed`: what a file comes to.
* `jobs_le_of_result`: a run that succeeds has not asked for too many workers.
-/

namespace CompressorBench.Bench

variable {machine machine' : Machine} {config : Config} {schedule : Pool.Schedule}

/-! ## The files that a program leaves -/

/-- The files that the program leaves in a run. -/
def left (machine : Machine) (config : Config) (schedule : Pool.Schedule) : FileTree :=
  match Discovery.cases machine.tree config.casesDirectory config.pattern with
  | .error _ => machine.tree
  | .ok cases =>
    match Pool.runAll config.jobs (config.runner.invoke machine) schedule cases with
    | .error _ => machine.tree
    | .ok pool => config.runner.treeAfter machine pool.calls

theorem left_of_runAll {cases : List TestCase} {pool : Pool}
    (hcases : Discovery.cases machine.tree config.casesDirectory config.pattern = .ok cases)
    (h : Pool.runAll config.jobs (config.runner.invoke machine) schedule cases = .ok pool) :
    left machine config schedule = config.runner.treeAfter machine pool.calls := by
  simp only [left, hcases, h]

/-- **The files that are left are a matter of the invocations**: those that the cases make alone, in
some order. -/
theorem exists_calls_left {cases : List TestCase}
    (hcases : Discovery.cases machine.tree config.casesDirectory config.pattern = .ok cases)
    (hjobs : config.jobs ≤ Pool.maxWorkers) (schedule : Pool.Schedule) :
    ∃ calls, calls.Perm ((evaluateAll (config.runner.invoke machine) cases).flatMap
        Evaluation.calls) ∧
      left machine config schedule = config.runner.treeAfter machine calls := by
  have hendures := (isMeasured_invoke config.runner machine).endures cases
  obtain ⟨pool, hpool⟩ := runAll_invoke hjobs config.runner machine schedule cases
  obtain ⟨hsteps, hstuck⟩ := (Pool.runAll_eq_ok_iff hjobs hendures).mp ⟨schedule, hpool⟩
  have haccounts := (Pool.accounts_start config.jobs _ cases).steps hendures hsteps
  exact ⟨pool.calls, Pool.calls_of_stuck haccounts hstuck, left_of_runAll hcases hpool⟩

/-- A command that is started is an executable file that was found. -/
theorem exists_of_launch {command : String} {arguments : List String}
    {start : ByteArray → ChildRun} (h : machine.launch command arguments = .ok start) :
    ∃ contents, machine.findExecutable command = .ok contents ∧
      start = machine.behaviour contents arguments := by
  unfold Machine.launch at h
  split at h
  · cases h
  · split at h
    · cases h
    · next contents hfind =>
      split at h
      · cases h
        exact ⟨contents, hfind, rfl⟩
      · cases h

section

variable (h : ∀ call, config.runner.fileEffect machine call = id)
include h

theorem treeAfter_of_fileEffect (calls : List (Phase × String)) :
    config.runner.treeAfter machine calls = machine.tree := by
  unfold Runner.treeAfter
  generalize machine.tree = tree
  induction calls with
  | nil => rfl
  | cons call rest ih =>
    rw [List.foldl_cons, h call]
    exact ih

/-- The files are those of before if no invocation does anything to them. -/
theorem left_of_fileEffect (schedule : Pool.Schedule) :
    left machine config schedule = machine.tree := by
  unfold left
  split
  · rfl
  · split
    · rfl
    · exact treeAfter_of_fileEffect h _

end

/-- A program that is not started does nothing. -/
theorem fileEffect_of_launch_error {error : OsError}
    (h : machine.launch config.program config.programArguments = .error error)
    (call : Phase × String) : config.runner.fileEffect machine call = id := by
  simp only [Runner.fileEffect, Config.runner, h]

/-- The program leaves the files as they are, whatever it is given. -/
def LeavesFiles (config : Config) (machine : Machine) : Prop :=
  ∀ contents input, (machine.behaviour contents config.programArguments input).files = id

theorem LeavesFiles.fileEffect_eq (h : LeavesFiles config machine) (call : Phase × String) :
    config.runner.fileEffect machine call = id := by
  cases hlaunch : machine.launch config.program config.programArguments with
  | error error => exact fileEffect_of_launch_error hlaunch call
  | ok start =>
    obtain ⟨contents, -, rfl⟩ := exists_of_launch hlaunch
    simp only [Runner.fileEffect, Config.runner, hlaunch]
    exact h contents _

theorem LeavesFiles.left_eq (h : LeavesFiles config machine) (schedule : Pool.Schedule) :
    left machine config schedule = machine.tree :=
  left_of_fileEffect h.fileEffect_eq schedule

/-! ## Acting alike -/

/-- Two machines act alike: what an executable file does with an input is the same on both, as far
as it counts, and if the program has to be searched for, the same file is found for it. -/
structure ActsAlike (config : Config) (machine machine' : Machine) : Prop where
  replies : ∀ contents input, Reply.Agrees
    (Runner.replyOf config.timeLimit (machine.behaviour contents config.programArguments input))
    (Runner.replyOf config.timeLimit (machine'.behaviour contents config.programArguments input))
  commands : config.program.toList.contains '/' = false →
    machine'.commands config.program = machine.commands config.program

theorem ActsAlike.of_eq (h : machine'.behaviour = machine.behaviour)
    (hcommands : machine'.commands = machine.commands) : ActsAlike config machine machine' where
  replies contents input := by
    rw [h]
    exact .refl _
  commands _ := by rw [hcommands]

/-- The program is started with the same behaviour on both machines, or on none. -/
inductive LaunchesAlike (config : Config) (machine machine' : Machine) : Prop where
  | neither {error error' : OsError}
      (h : machine.launch config.program config.programArguments = .error error)
      (h' : machine'.launch config.program config.programArguments = .error error')
  | both {contents : ByteArray}
      (h : machine.launch config.program config.programArguments =
        .ok (machine.behaviour contents config.programArguments))
      (h' : machine'.launch config.program config.programArguments =
        .ok (machine'.behaviour contents config.programArguments))

/-- A command that is not found is not launched. -/
theorem exists_launch_error {command : String} {error : OsError}
    (h : machine.findExecutable command = .error error) (arguments : List String) :
    ∃ error', machine.launch command arguments = .error error' := by
  unfold Machine.launch
  rw [h]
  split <;> exact ⟨_, rfl⟩

/-- A command with a slash is the file that it leads to. -/
theorem findExecutable_of_resolve {command : String} {location : Location} {contents : ByteArray}
    (hslash : command.toList.contains '/' = true)
    (hresolve : machine.tree.resolve .reach command =
      .ok (.occupied location (.file contents true))) :
    machine.findExecutable command = .ok contents := by
  rw [Machine.findExecutable, if_pos hslash, FileTree.executable, hresolve]

/-- How a command that is found is launched. -/
theorem launch_of_find {contents : ByteArray}
    (h : machine.findExecutable config.program = .ok contents)
    (hnul : ¬ ((config.program :: config.programArguments).any fun text =>
      text.toList.contains '\x00') = true)
    (hlimits : Machine.areWithinLimits (config.program :: config.programArguments) = true) :
    machine.launch config.program config.programArguments =
      .ok (machine.behaviour contents config.programArguments) := by
  simp only [Machine.launch, if_neg hnul, h, if_pos hlimits]

/-- The same executable file is launched alike. -/
theorem LaunchesAlike.of_find {contents : ByteArray}
    (h : machine.findExecutable config.program = .ok contents)
    (h' : machine'.findExecutable config.program = .ok contents) :
    LaunchesAlike config machine machine' := by
  by_cases hnul : ((config.program :: config.programArguments).any fun text =>
      text.toList.contains '\x00') = true
  · exact .neither (by rw [Machine.launch, if_pos hnul]) (by rw [Machine.launch, if_pos hnul])
  · by_cases hlimits : Machine.areWithinLimits (config.program :: config.programArguments) = true
    · exact .both (launch_of_find h hnul hlimits) (launch_of_find h' hnul hlimits)
    · exact .neither (by simp only [Machine.launch, if_neg hnul, h, if_neg hlimits]; rfl)
        (by simp only [Machine.launch, if_neg hnul, h', if_neg hlimits]; rfl)

/-- A command with a slash is looked for in the tree, and any other one on the search path. -/
theorem LaunchesAlike.of_executable (halike : ActsAlike config machine machine')
    (h : config.program.toList.contains '/' = true →
      machine'.tree.executable config.program = machine.tree.executable config.program ∨
        ∃ error error', machine.tree.executable config.program = .error error ∧
          machine'.tree.executable config.program = .error error') :
    LaunchesAlike config machine machine' := by
  have hfind : machine'.findExecutable config.program = machine.findExecutable config.program ∨
      ∃ error error', machine.findExecutable config.program = .error error ∧
        machine'.findExecutable config.program = .error error' := by
    unfold Machine.findExecutable
    cases hslash : config.program.toList.contains '/' with
    | true => exact h hslash
    | false => exact .inl (halike.commands hslash)
  rcases hfind with hsame | ⟨error, error', herror, herror'⟩
  · cases hfind : machine.findExecutable config.program with
    | ok contents => exact .of_find hfind (hsame.trans hfind)
    | error error =>
      obtain ⟨_, hlaunch⟩ := exists_launch_error hfind config.programArguments
      obtain ⟨_, hlaunch'⟩ := exists_launch_error (hsame.trans hfind) config.programArguments
      exact .neither hlaunch hlaunch'
  · obtain ⟨_, hlaunch⟩ := exists_launch_error herror config.programArguments
    obtain ⟨_, hlaunch'⟩ := exists_launch_error herror' config.programArguments
    exact .neither hlaunch hlaunch'

/-- **The programs of two machines that act alike agree.** -/
theorem agrees_invoke (halike : ActsAlike config machine machine')
    (hlaunches : LaunchesAlike config machine machine') :
    (config.runner.invoke machine).Agrees (config.runner.invoke machine') := by
  intro phase payload
  cases hlaunches with
  | neither h h' =>
    simp only [Runner.invoke, Runner.run, Config.runner, h, h']
    exact .failures
  | both h h' =>
    simp only [Runner.invoke, Runner.run, Config.runner, h, h']
    exact halike.replies _ _

/-- **A file with the same text on both machines comes to the same outcome**, but for the index and
the time. -/
theorem outcomeOf_untimed {name : String}
    (hagree : (config.runner.invoke machine).Agrees (config.runner.invoke machine'))
    (htext : machine'.tree.readContents (Pathname.join config.casesDirectory name) =
      machine.tree.readContents (Pathname.join config.casesDirectory name)) (i j : Nat) :
    (outcomeOf machine' config j name).untimed =
      { (outcomeOf machine config i name).untimed with index := j + 1 } := by
  have hload : TestCase.load machine'.tree (Pathname.join config.casesDirectory name) =
      TestCase.load machine.tree (Pathname.join config.casesDirectory name) := by
    rw [TestCase.load, htext, TestCase.load]
  have hfit := (isMeasured_invoke config.runner machine).timesFit_evaluate
  have hfit' := (isMeasured_invoke config.runner machine').timesFit_evaluate
  rw [outcomeOf, hload]
  exact hagree.outcome_evaluate _ (i + 1) (j + 1) (hfit _ _) (hfit' _ _)

/-- At the same place the index is the same, too. -/
theorem outcomeOf_untimed_self {name : String}
    (hagree : (config.runner.invoke machine).Agrees (config.runner.invoke machine'))
    (htext : machine'.tree.readContents (Pathname.join config.casesDirectory name) =
      machine.tree.readContents (Pathname.join config.casesDirectory name)) (i : Nat) :
    (outcomeOf machine' config i name).untimed = (outcomeOf machine config i name).untimed := by
  rw [outcomeOf_untimed hagree htext i i, ← index_outcomeOf machine config i name]
  rfl

/-- A run that succeeds has not asked for too many workers. -/
theorem jobs_le_of_result {outcomes : List Outcome}
    (h : (run machine config schedule).result = .ok outcomes) : config.jobs ≤ Pool.maxWorkers := by
  obtain ⟨cases, hcases, -⟩ := exists_of_result h
  rw [run_of_cases hcases] at h
  cases hpool : Pool.runAll config.jobs (config.runner.invoke machine) schedule cases with
  | error failure =>
    rw [runCases, hpool] at h
    cases h
  | ok pool => exact Pool.le_of_runAll hpool

end CompressorBench.Bench
