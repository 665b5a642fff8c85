import CompressorBench.Discovery
import CompressorBench.Evaluation
import CompressorBench.Text.Literal

/-!
# Log messages

What a run tells about itself besides its report. Every message has a level, and the verbosity says
up to which level messages are shown.
-/

namespace CompressorBench

/-! ## Levels and messages -/

/-- The levels, from the most to the least urgent. -/
inductive LogLevel where
  | error
  | warn
  | info
  | debug
  | trace
deriving DecidableEq, Repr

namespace LogLevel

/-- The name of a level. -/
def name : LogLevel → String
  | .error => "ERROR"
  | .warn => "WARN"
  | .info => "INFO"
  | .debug => "DEBUG"
  | .trace => "TRACE"

/-- The smallest verbosity at which messages of a level are shown. -/
def verbosity : LogLevel → Nat
  | .error => 0
  | .warn => 0
  | .info => 1
  | .debug => 2
  | .trace => 3

end LogLevel

/-- A message of the log. -/
structure LogEntry where
  level : LogLevel
  message : String
deriving DecidableEq, Repr

namespace LogEntry

/-- The lines of a message. The lines after the first are indented. -/
def lines (entry : LogEntry) : List String :=
  match Text.lines (entry.level.name ++ " " ++ entry.message) with
  | [] => []
  | first :: rest => first :: rest.map ("    " ++ ·)

/-- The messages that a verbosity shows. -/
def shown (verbosity : Nat) (log : List LogEntry) : List LogEntry :=
  log.filter fun entry => decide (entry.level.verbosity ≤ verbosity)

end LogEntry

/-! ## Finding the cases -/

/-- The message about a case file that cannot be read. -/
def TestCase.loadLog (tree : FileTree) (path : String) : List LogEntry :=
  match tree.readContents path with
  | .ok _ => []
  | .error e => [⟨.warn, e.message⟩]

/-- The messages about the search for cases. -/
def Discovery.log (tree : FileTree) (directory pattern : String) : List LogEntry :=
  match tree.listMatching directory pattern with
  | .error e => if isMissing e then [⟨.debug, directory ++ " does not exist"⟩] else []
  | .ok [] => []
  | .ok files =>
    ⟨.info, "Found " ++ toString files.length ++ " testcases in " ++ directory⟩ ::
      files.flatMap (TestCase.loadLog tree)

/-! ## Evaluations -/

/-- The name of a phase in a message about a verdict. -/
def Phase.describe : Phase → String
  | .compress => "Compress"
  | .decompress => "Decompress"

/-- A stage in a message about a verdict. -/
def Stage.describe : Stage → String
  | .input => "Input"
  | .output phase => "Output(" ++ phase.describe ++ ")"

/-- A defect in a message about a verdict. -/
def Defect.describe : Defect → String
  | .invalidBase64 => "InvalidBase64"
  | .tooLarge size => "TooLarge(" ++ toString size ++ ")"
  | .unreadableFile message => "UnreadableFile(" ++ Text.literal message ++ ")"
  | .missingPayload => "MissingPayload"

/-- An exit code in a message about a verdict. -/
def describeExit : Option Int → String
  | some code => "Some(" ++ toString code ++ ")"
  | none => "None"

/-- A name with the fields that belong to it. -/
def describeFields (name : String) (fields : List (String × String)) : String :=
  name ++ " \x7b " ++
    String.intercalate ", " (fields.map fun field => field.1 ++ ": " ++ field.2) ++ " \x7d"

/-- A verdict in a message. -/
def Verdict.describe : Verdict → String
  | .success compressedSize score =>
    describeFields "Success"
      [("compressed_size", toString compressedSize),
        ("score", String.ofList (Json.floatChars score))]
  | .timeLimitExceeded phase => describeFields "TimeLimitExceeded" [("phase", phase.describe)]
  | .runtimeError phase exitCode =>
    describeFields "RuntimeError"
      [("phase", phase.describe), ("exit_code", describeExit exitCode)]
  | .presentationError stage defect =>
    describeFields "PresentationError"
      [("stage", stage.describe), ("reason", defect.describe)]
  | .wrongAnswer => "WrongAnswer"

/-- The messages about an exchange with a command. -/
def Exchange.log (command name : String) (exchange : Exchange) : List LogEntry :=
  let case := name ++ " (" ++ exchange.phase.tag ++ ")"
  let launch : LogEntry := ⟨.debug, "Launching " ++ command ++ " (" ++ exchange.phase.tag ++ ", " ++
    toString exchange.payload.utf8ByteSize ++ " bytes of payload)"⟩
  match exchange.reply with
  | .error failure => [launch, ⟨.error, case ++ ": " ++ failure.chain⟩]
  | .ok answer =>
    if answer.stderr = "" then [launch]
    else [launch, ⟨.trace, case ++ " stderr: " ++ Text.trimEnd answer.stderr⟩]

/-- The messages about the evaluation of a case with a command. -/
def Evaluation.log (command : String) (evaluation : Evaluation) : List LogEntry :=
  evaluation.exchanges.flatMap (Exchange.log command evaluation.case.name) ++
    [⟨.debug, evaluation.case.name ++ ": " ++ evaluation.outcome.verdict.describe⟩]

end CompressorBench
