import CompressorBench.CommandLine.Run
import CompressorBench.CommandLine.Usage
import CompressorBench.Json.Reader
import CompressorBench.Workplace

/-!
# The command line

Runs the benchmark with the arguments on the machine that the standard input describes. The member
`processors` tells how many cases are evaluated at once if the arguments do not, and the files that
the member `show` names are printed as they are after the run.
-/

namespace CompressorBench.CommandLine

/-- Reads a stream to its end, behind the text that was read before. -/
partial def readToEnd (input : IO.FS.Stream) (text : String) : IO String := do
  let line ← input.getLine
  if line.isEmpty then return text
  readToEnd input (text ++ line)

/-- Answers arguments that ask for no run. -/
def refuse (error : UsageError) : IO UInt32 := do
  if error.exitCode = 0 then error.lines.forM fun line => IO.println line
  else error.lines.forM fun line => IO.eprintln line
  return error.exitCode.toUInt32

/-- Prints a file. -/
def printFile (tree : FileTree) (path : String) : IO Unit :=
  match tree.readContents path with
  | .ok contents => IO.print contents
  | .error error => IO.eprintln error.message

/-- Runs the benchmark on a described machine. -/
def perform (options : Options) (description : Json) : IO UInt32 := do
  let processors := max 1 (description.natMember "processors")
  let run := runOptions (.ofJson description) processors id options
  IO.print (Report.render false run.stdout)
  run.stderr.forM fun line => IO.eprintln line
  (description.textsMember "show").forM (printFile run.tree)
  return run.exitCode.toUInt32

end CompressorBench.CommandLine

open CompressorBench in
/-- The program: arguments in, exit status out. -/
def main (arguments : List String) : IO UInt32 := do
  match CommandLine.readOptions arguments with
  | .error error => CommandLine.refuse error
  | .ok options =>
    match Json.read? (← CommandLine.readToEnd (← IO.getStdin) "") with
    | some description => CommandLine.perform options description
    | none =>
      IO.eprintln "error: the description of the machine is not JSON"
      return 2
