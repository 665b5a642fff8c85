import CompressorBench.FileTree.Operations
import CompressorBench.Invocation
import CompressorBench.Text.Utf8

/-!
# Child processes

The program under test is an executable file. It is started with its arguments, and gets the phase
and the payload on its standard input, one line for the phase and then the payload. All of this has
to be over within the time limit: the input is written, the standard output and the standard error
output have come to their ends, and the process has exited. The outputs may stay open after the
exit, because processes that it left behind hold them. What was written is decoded as UTF-8 with
replacements. A child that is not over in time is killed, and nothing of what it wrote is kept.

A child need not read its input. If it ends with its input unread, writing the input breaks off, and
that alone is no failure: its end decides.

A child can do to the files what it likes.
-/

namespace CompressorBench

/-! ## Children -/

/-- How a process ends by itself. -/
inductive ChildEnding where
  | exited (code : Nat)
  | signalled (signal : Nat)
deriving DecidableEq, Repr

/-- What a process does, with all that it starts. A time is counted from its start; there is none
for what does not come to an end as long as clocks go. -/
structure ChildRun where
  /-- Whether it reads its standard input to the end. -/
  readsInput : Bool
  stdout : ByteArray
  stderr : ByteArray
  ending : ChildEnding
  /-- When all of the input is written, or writing it breaks off. -/
  inputOver? : Option ClockTime
  stdoutOver? : Option ClockTime
  stderrOver? : Option ClockTime
  /-- When the process itself ends. -/
  exitAt? : Option ClockTime
  /-- What it does to the files. -/
  files : FileTree → FileTree

/-- When everything that a run waits for is over. -/
def ChildRun.over? (run : ChildRun) : Option ClockTime :=
  ClockTime.later? (ClockTime.later? run.inputOver? run.stdoutOver?)
    (ClockTime.later? run.stderrOver? run.exitAt?)

/-- A process as a function of its arguments and its standard input. -/
abbrev Child := List String → ByteArray → ChildRun

/-- The files of a computer, and what its executable files do. -/
structure Machine where
  tree : FileTree
  behaviour : ByteArray → Child
  /-- The executable file that a command without a slash stands for, by the search path. -/
  commands : String → Except OsError ByteArray

/-! ## Launching -/

/-- Finds the file to execute for a command. A command with a slash is a path. -/
def Machine.findExecutable (machine : Machine) (command : String) : Except OsError ByteArray :=
  if command.toList.contains '/' then machine.tree.executable command
  else machine.commands command

/-- The longest command or argument in bytes. -/
def Machine.maxArgumentLength : Nat := 131071

/-- The most bytes that a command takes with its arguments. -/
def Machine.maxArgumentBytes : Nat := 2097152

/-- The bytes that texts take when a process is given them: their own, one that ends each, and eight
to tell where it is. -/
def Machine.argumentBytes : List String → Nat
  | [] => 0
  | text :: rest => text.utf8ByteSize + 9 + argumentBytes rest

/-- Whether a command and its arguments can be passed on. -/
def Machine.areWithinLimits (texts : List String) : Bool :=
  texts.all (fun text => decide (text.utf8ByteSize ≤ maxArgumentLength)) &&
    decide (argumentBytes texts ≤ maxArgumentBytes)

/-- Starts a command with arguments. -/
def Machine.launch (machine : Machine) (command : String) (arguments : List String) :
    Except OsError (ByteArray → ChildRun) :=
  if (command :: arguments).any fun text => text.toList.contains '\x00' then
    .error .nulInCommand
  else
    match machine.findExecutable command with
    | .error e => .error e
    | .ok contents =>
      if Machine.areWithinLimits (command :: arguments) then
        .ok (machine.behaviour contents arguments)
      else .error .argumentsTooLong

/-! ## Runs -/

/-- How the program under test is run. -/
structure Runner where
  command : String
  arguments : List String
  limit : Duration
deriving DecidableEq, Repr

/-- The time limit if none is given. -/
def Runner.defaultLimit : Duration := .ofMilliseconds 2000

namespace Runner

/-- What the end of a process says about the run: only the low eight bits of an exit code get
through, and a signal counts as its negated number. -/
def endingOf : ChildEnding → Ending
  | .exited code => if code % 256 = 0 then .success else .failed (code % 256 : Nat)
  | .signalled signal => .failed (-(signal : Int))

/-- How writing the standard input of a process goes. -/
def writeInput (run : ChildRun) : Except OsError Unit :=
  if run.readsInput then .ok () else .error .brokenPipe

/-- How the communication with a process that ends goes. An input that is left unread is no
failure. -/
def communicate (run : ChildRun) : Except OsError Unit :=
  match writeInput run with
  | .error .brokenPipe => .ok ()
  | result => result

/-- The answer of a process that was stopped at the time limit. -/
def stoppedAnswer (limit : Duration) : Answer :=
  { ending := .timedOut, stdout := "", stderr := "", elapsed := (ClockTime.after limit).duration }

/-- The failure to communicate with a process. -/
def communicationFailure (error : OsError) : Failure :=
  (Failure.ofCause (.os error)).addContext "Failed to communicate with subprocess"

/-- What a process gives within a time limit. -/
def replyOf (limit : Duration) (run : ChildRun) : Reply :=
  match run.over? with
  | none => .ok (stoppedAnswer limit)
  | some moment =>
    if limit.nanoseconds ≤ moment.duration.nanoseconds then .ok (stoppedAnswer limit)
    else
      match communicate run with
      | .error e => .error (communicationFailure e)
      | .ok () =>
        .ok { ending := endingOf run.ending
              stdout := Text.decodeWithReplacement run.stdout
              stderr := Text.decodeWithReplacement run.stderr
              elapsed := moment.duration }

/-- The failure to start a command. -/
def launchFailure (command : String) (error : OsError) : Failure :=
  (Failure.ofCause (.os error)).addContext ("Failed to spawn '" ++ command ++ "'")

/-- Runs the program with a standard input. -/
def run (runner : Runner) (machine : Machine) (input : String) : Reply :=
  match machine.launch runner.command runner.arguments with
  | .error e => .error (launchFailure runner.command e)
  | .ok start => replyOf runner.limit (start input.toUTF8)

/-- The standard input for a phase and a payload. -/
def inputFor (phase : Phase) (payload : String) : String := phase.tag ++ "\n" ++ payload

/-- Runs the program for a phase with a payload. -/
def invoke (runner : Runner) (machine : Machine) : Program :=
  fun phase payload => runner.run machine (inputFor phase payload)

/-- What an invocation of the program does to the files. -/
def fileEffect (runner : Runner) (machine : Machine) (call : Phase × String) :
    FileTree → FileTree :=
  match machine.launch runner.command runner.arguments with
  | .error _ => id
  | .ok start => (start (inputFor call.1 call.2).toUTF8).files

/-- The files after invocations of the program, one after the other. The program is the one that was
there before. -/
def treeAfter (runner : Runner) (machine : Machine) (calls : List (Phase × String)) : FileTree :=
  calls.foldl (fun tree call => runner.fileEffect machine call tree) machine.tree

end Runner

end CompressorBench
