import CompressorBench.Child
import CompressorBench.CommandLine.Options
import CompressorBench.Log
import CompressorBench.Pool
import CompressorBench.Report.Document
import CompressorBench.Report.Layout

/-!
# A run of the benchmark

The cases are found, every one is evaluated with the program, and the report is printed and, if
asked for, written as a document, into the files that the program has left. What happens to a case
is part of the report; only what keeps the run from being done is a failure.
-/

namespace CompressorBench

/-! ## Settings -/

/-- The settings of a run. -/
structure Config where
  program : String
  programArguments : List String
  casesDirectory : String
  pattern : String
  timeLimit : Duration
  jobs : Nat
  jsonReport? : Option String
  showProgress : Bool
deriving DecidableEq, Repr

namespace Config

/-- The program if none is given. -/
def defaultProgram : String := "../build/solution"

/-- The directory of the cases if none is given. -/
def defaultCasesDirectory : String := "cases"

/-- The pattern of the case files if none is given. -/
def defaultPattern : String := "*.txt"

/-- The settings that options ask for. The number of jobs is that of the processors if it is not
given. -/
def ofOptions (processors : Nat) (options : CommandLine.Options) : Config :=
  { program := options.program?.getD defaultProgram
    programArguments := []
    casesDirectory := options.casesDirectory?.getD defaultCasesDirectory
    pattern := options.pattern?.getD defaultPattern
    timeLimit := options.timeout?.getD Runner.defaultLimit
    jobs := options.jobs?.getD processors
    jsonReport? := options.json?
    showProgress := !options.noProgress }

/-- How the settings run the program. -/
def runner (config : Config) : Runner :=
  { command := config.program, arguments := config.programArguments, limit := config.timeLimit }

end Config

/-! ## Runs -/

/-- What a run leaves behind. -/
structure BenchRun where
  /-- What was printed. -/
  printed : Report.StyledText
  /-- The outcomes in the order of the cases. -/
  result : Except Failure (List Outcome)
  /-- The files after the run. -/
  tree : FileTree
  log : List LogEntry

namespace Bench

/-- The messages about how the cases are run. -/
def startLog (config : Config) (cases : Nat) : List LogEntry :=
  [⟨.info, "Program: " ++ config.program ++ " (time limit " ++
      toString config.timeLimit.milliseconds ++ "ms)"⟩,
    ⟨.info, "Running " ++ toString cases ++ " testcases with " ++
      toString (Pool.workers config.jobs) ++ " workers"⟩]

/-- Writes the document, if it is asked for: how it went, the tree after it, and the messages. -/
def writeReport (config : Config) (tree : FileTree) (outcomes : List Outcome) :
    Except Failure Unit × FileTree × List LogEntry :=
  match config.jsonReport? with
  | none => (.ok (), tree, [])
  | some path =>
    match tree.createJson path (.ok (Report.reportJson outcomes)) with
    | (.ok (), written) => (.ok (), written, [⟨.info, "Wrote JSON report to " ++ path⟩])
    | (.error e, left) =>
      (.error ((Failure.ofCause (.file e)).addContext "Failed to write JSON report"), left, [])

/-- Runs the cases that were found. -/
def runCases (machine : Machine) (config : Config) (schedule : Pool.Schedule)
    (cases : List TestCase) : BenchRun :=
  let layout := Report.Layout.ofNames (cases.map TestCase.name)
  let header := layout.header cases.length ++ [Report.lineBreak]
  let log := Discovery.log machine.tree config.casesDirectory config.pattern ++
    startLog config cases.length
  match Pool.runAll config.jobs (config.runner.invoke machine) schedule cases with
  | .error failure => { printed := header, result := .error failure, tree := machine.tree, log }
  | .ok pool =>
    let outcomes := pool.outcomes
    let left := config.runner.treeAfter machine pool.calls
    let (written, tree, writeLog) := writeReport config left outcomes
    { printed :=
        header ++ Report.resultText layout outcomes (Report.Summary.ofOutcomes outcomes)
      result := written.map fun _ => outcomes
      tree
      log := log ++ pool.evaluations.flatMap (Evaluation.log config.program) ++ writeLog }

/-- Finds the cases and runs them. -/
def run (machine : Machine) (config : Config) (schedule : Pool.Schedule) : BenchRun :=
  match Discovery.cases machine.tree config.casesDirectory config.pattern with
  | .error cause =>
    { printed := []
      result := .error (.ofCause cause)
      tree := machine.tree
      log := Discovery.log machine.tree config.casesDirectory config.pattern }
  | .ok cases => runCases machine config schedule cases

end Bench

end CompressorBench
