import CompressorBench.Bench

/-!
# A run from the command line

The arguments are read, the benchmark is run with the settings they ask for, and its end decides the
exit status. The last line on the standard error output tells why a run failed.
-/

namespace CompressorBench.CommandLine

/-- What a run from the command line leaves behind. -/
structure CommandRun where
  exitCode : Nat
  stdout : Report.StyledText
  /-- The lines on the standard error output, the log and the message of a failure. -/
  stderr : List String
  tree : FileTree

/-- The lines that tell of a failure. -/
def failureLines (failure : Failure) : List String := Text.lines ("Error: " ++ failure.chain)

/-- Runs the benchmark with options. -/
def runOptions (machine : Machine) (processors : Nat) (schedule : Pool.Schedule)
    (options : Options) : CommandRun :=
  let run := Bench.run machine (.ofOptions processors options) schedule
  let log := (LogEntry.shown options.verbosity run.log).flatMap LogEntry.lines
  match run.result with
  | .ok _ => { exitCode := 0, stdout := run.printed, stderr := log, tree := run.tree }
  | .error failure =>
    { exitCode := failure.exitCode
      stdout := run.printed
      stderr := log ++ failureLines failure
      tree := run.tree }

end CompressorBench.CommandLine
