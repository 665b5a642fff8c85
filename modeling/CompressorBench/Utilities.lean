import CompressorBench.Child
import CompressorBench.Files
import CompressorBench.Text.Blank
import CompressorBench.Text.Split

/-!
# Programs of the system

Besides the program under test a machine has programs that its search path leads to. Two of them are
told here, as far as they are used as programs under test.

* `split` writes nothing, and keeps its input in a file of the working directory.
* `sh` runs the commands of a script one after the other. A command with `&` behind it is left
  behind, and goes on while the script does; it holds the outputs open also after the script has
  ended. Of the commands only `echo` and `sleep` are known.
-/

namespace CompressorBench.Utilities

/-! ## Keeping the input in a file -/

/-- Keeps its input, unless that is empty, in the file `xaa`. The inputs that it gets here are too
short for a second file. -/
def split : Child := fun _ input =>
  let over? : Option ClockTime := some (.after (.ofMilliseconds 2))
  { readsInput := true
    stdout := ByteArray.empty
    stderr := ByteArray.empty
    ending := .exited 0
    inputOver? := over?
    stdoutOver? := over?
    stderrOver? := over?
    exitAt? := over?
    files := fun tree => if input.size = 0 then tree else (tree.writeFile "xaa" input).2 }

/-! ## Running a script -/

/-- A command of a script with its words in one piece, and whether it is left behind. -/
structure ShellCommand where
  text : List Char
  leftBehind : Bool

/-- Cuts a script into its commands, behind what was read of the first one, last character first. -/
def commandsFrom (read : List Char) : List Char → List ShellCommand
  | [] => [⟨read.reverse, false⟩]
  | '&' :: rest => ⟨read.reverse, true⟩ :: commandsFrom [] rest
  | ';' :: rest => ⟨read.reverse, false⟩ :: commandsFrom [] rest
  | '\n' :: rest => ⟨read.reverse, false⟩ :: commandsFrom [] rest
  | c :: rest => commandsFrom (c :: read) rest

/-- How far a script has come. The times are milliseconds from its start. -/
structure ShellState where
  now : Nat
  /-- When the last command that was left behind is over. -/
  leftUntil : Nat
  stdout : List Char
  stderr : List Char
  /-- The exit code of the last command. -/
  status : Nat

/-- The start of a script. -/
def ShellState.start : ShellState :=
  { now := 2, leftUntil := 0, stdout := [], stderr := [], status := 0 }

/-- The number that digits stand for. -/
def numberOf (digits : List Char) : Nat :=
  digits.foldl (fun n c => n * 10 + (c.toNat - '0'.toNat)) 0

/-- When a sleep of so many seconds from a time on is over. -/
def sleepFor (now : Nat) (seconds : List Char) : Nat := now + 1000 * numberOf seconds

/-- Runs the words of a command. -/
def ShellState.runWords (state : ShellState) : List (List Char) → ShellState
  | [] => state
  | name :: arguments =>
    if name = ['e', 'c', 'h', 'o'] then
      { state with
        stdout := state.stdout ++ List.intercalate [' '] arguments ++ ['\n'], status := 0 }
    else if name = ['s', 'l', 'e', 'e', 'p'] then
      { state with now := arguments.foldl sleepFor state.now, status := 0 }
    else
      { state with
        stderr := state.stderr ++ "sh: ".toList ++ name ++ ": not found\n".toList, status := 127 }

/-- Runs a command. The script does not wait for one that is left behind. -/
def ShellState.run (state : ShellState) (command : ShellCommand) : ShellState :=
  let after := state.runWords (Text.words command.text)
  if command.leftBehind then
    { after with now := state.now, leftUntil := max state.leftUntil after.now, status := 0 }
  else after

/-- Runs the script that its arguments give, or else its input. -/
def shell : Child := fun arguments input =>
  let (script, readsInput) :=
    match arguments with
    | ["-c", script] => (script, false)
    | _ => (Text.decodeWithReplacement input, true)
  let final := (commandsFrom [] script.toList).foldl ShellState.run .start
  let exitAt? : Option ClockTime := some (.after (.ofMilliseconds final.now))
  let over? : Option ClockTime := some (.after (.ofMilliseconds (max final.now final.leftUntil)))
  { readsInput
    stdout := (String.ofList final.stdout).toUTF8
    stderr := (String.ofList final.stderr).toUTF8
    ending := .exited final.status
    inputOver? := exitAt?
    stdoutOver? := over?
    stderrOver? := over?
    exitAt?
    files := id }

/-! ## The search path -/

/-- The contents of the file of a program, which are no text: they only tell programs apart. -/
def splitContents : ByteArray := ⟨#[0xFD]⟩

/-- The contents of the file of the shell. -/
def shellContents : ByteArray := ⟨#[0xFE]⟩

/-- What a search path leads to that has these programs. Dots alone stand for a directory
everywhere. -/
def commands (command : String) : Except OsError ByteArray :=
  if command = "split" then .ok splitContents
  else if command = "sh" then .ok shellContents
  else if FileTree.maxNameLength < command.utf8ByteSize then .error .nameTooLong
  else if command = "." ∨ command = ".." then .error .permissionDenied
  else .error .notFound

/-- What these programs do, next to that of a child in all other files. -/
def behaviour (other : Child) (contents : ByteArray) : Child :=
  if contents == splitContents then split
  else if contents == shellContents then shell
  else other

end CompressorBench.Utilities
