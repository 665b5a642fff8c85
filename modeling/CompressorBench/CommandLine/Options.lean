import CompressorBench.CommandLine.Values
import CompressorBench.Text.ControlSequence

/-!
# Options

The options of the command line, read from the left. An option with a value takes it from the same
argument or from the next one; a value from the next argument is kept pending, and looked at only
when something else is recognised or the arguments end. There are no positional arguments.

An argument that starts with a dash is never the value of the option before it.
-/

namespace CompressorBench.CommandLine

/-! ## Names -/

/-- The options that take a value. -/
inductive ValueOption where
  | program
  | casesDirectory
  | pattern
  | timeout
  | jobs
  | json
deriving DecidableEq, Repr

/-- The options without a value. -/
inductive Switch where
  | noProgress
  | verbose
  | help
  | version
deriving DecidableEq, Repr

/-- What the name of an option stands for. -/
inductive Name where
  | valued (option : ValueOption)
  | switch (switch : Switch)
deriving DecidableEq, Repr

/-- The long names, without their dashes. -/
def longName? (text : String) : Option Name :=
  [("bin", Name.valued .program), ("cases-dir", .valued .casesDirectory),
    ("pattern", .valued .pattern), ("timeout", .valued .timeout), ("jobs", .valued .jobs),
    ("json", .valued .json), ("no-progress", .switch .noProgress), ("verbose", .switch .verbose),
    ("help", .switch .help), ("version", .switch .version)].lookup text

/-- The short names. -/
def shortName? (c : Char) : Option Name :=
  [('j', Name.valued .jobs), ('v', .switch .verbose), ('h', .switch .help),
    ('V', .switch .version)].lookup c

/-! ## Options that were given -/

/-- The options of a command line; a missing one was not given. -/
structure Options where
  program? : Option String
  casesDirectory? : Option String
  pattern? : Option String
  timeout? : Option Duration
  jobs? : Option Nat
  json? : Option String
  noProgress : Bool
  verbosity : Nat
deriving DecidableEq, Repr

/-- No options at all. -/
def Options.none : Options :=
  { program? := .none, casesDirectory? := .none, pattern? := .none, timeout? := .none,
    jobs? := .none, json? := .none, noProgress := false, verbosity := 0 }

/-- Why the arguments are not accepted, or why they ask for something else than a run. -/
inductive UsageError where
  | unknownArgument
  /-- An option has no value, or an empty one where that makes no sense. -/
  | missingValue
  /-- A value cannot be read. -/
  | invalidValue (option value reason : String)
  /-- An option without value was given one. -/
  | unexpectedValue
  /-- An option was given twice. -/
  | repeated
  | helpRequested
  | versionRequested
deriving DecidableEq, Repr

/-- The text for a value that cannot be read. The value is shown without what a terminal would take
as orders. -/
def invalidValueMessage (option value reason : String) : String :=
  "error: invalid value '" ++ Text.withoutControls value ++ "' for '" ++ option ++ "': " ++ reason

namespace Options

/-- The largest verbosity that is counted. -/
def maxVerbosity : Nat := 255

/-- Gives an option a value; an option is given at most once. -/
def setOnce {α : Type} (old : Option α) (new : Except UsageError α) :
    Except UsageError (Option α) :=
  match old with
  | some _ => .error .repeated
  | .none => new.map some

/-- A text that must not be empty. -/
def nonempty (value : String) : Except UsageError String :=
  if value = "" then .error .missingValue else .ok value

/-- Gives an option its value. -/
def setValue (options : Options) (option : ValueOption) (value : String) :
    Except UsageError Options :=
  match option with
  | .program => do return { options with program? := ← setOnce options.program? (nonempty value) }
  | .casesDirectory => do
    return { options with casesDirectory? := ← setOnce options.casesDirectory? (nonempty value) }
  | .pattern => do return { options with pattern? := ← setOnce options.pattern? (.ok value) }
  | .timeout => do
    let seconds := (readSeconds value).mapError fun e =>
      .invalidValue "--timeout <SECONDS>" value e.message
    return { options with timeout? := ← setOnce options.timeout? seconds }
  | .jobs => do
    let count := (readCount value).mapError fun e => .invalidValue "--jobs <JOBS>" value e.message
    return { options with jobs? := ← setOnce options.jobs? count }
  | .json => do return { options with json? := ← setOnce options.json? (nonempty value) }

/-- Turns a switch on. -/
def setSwitch (options : Options) : Switch → Except UsageError Options
  | .noProgress =>
    if options.noProgress then .error .repeated else .ok { options with noProgress := true }
  | .verbose => .ok { options with verbosity := min (options.verbosity + 1) maxVerbosity }
  | .help => .error .helpRequested
  | .version => .error .versionRequested

end Options

/-! ## Reading -/

/-- An option whose value is not looked at yet. -/
structure Pending where
  option : ValueOption
  value? : Option String
deriving DecidableEq, Repr

/-- What was read so far. -/
structure Progress where
  options : Options
  pending? : Option Pending
deriving DecidableEq, Repr

namespace Progress

/-- The options with the pending one among them. -/
def settle (progress : Progress) : Except UsageError Options :=
  match progress.pending? with
  | .none => .ok progress.options
  | some ⟨_, .none⟩ => .error .missingValue
  | some ⟨option, some value⟩ => progress.options.setValue option value

/-- An option with a value in the same argument. -/
def attach (progress : Progress) (option : ValueOption) (value : String) :
    Except UsageError Progress := do
  let options ← progress.settle
  return ⟨← options.setValue option value, .none⟩

/-- An option whose value is in the next argument. -/
def expect (progress : Progress) (option : ValueOption) : Except UsageError Progress := do
  return ⟨← progress.settle, some ⟨option, .none⟩⟩

/-- A switch. -/
def turnOn (progress : Progress) (switch : Switch) : Except UsageError Progress := do
  let options ← progress.settle
  return ⟨← options.setSwitch switch, .none⟩

/-- An argument with a long name. -/
def readLong (progress : Progress) (name : List Char) (value? : Option (List Char)) :
    Except UsageError Progress :=
  match longName? (String.ofList name), value? with
  | .none, _ => .error .unknownArgument
  | some (.valued option), some value => progress.attach option (String.ofList value)
  | some (.valued option), .none => progress.expect option
  | some (.switch _), some _ => .error .unexpectedValue
  | some (.switch switch), .none => progress.turnOn switch

/-- An argument with short names. The first option with a value takes the rest of the argument. -/
def readShorts (progress : Progress) : List Char → Except UsageError Progress
  | [] => .ok progress
  | c :: rest =>
    match shortName? c with
    | .none => .error .unknownArgument
    | some (.valued option) =>
      match rest with
      | [] => progress.expect option
      | '=' :: value => progress.attach option (String.ofList value)
      | value => progress.attach option (String.ofList value)
    | some (.switch switch) => do readShorts (← progress.turnOn switch) rest

/-- A text that is no option: the value of the pending option if it has none yet. -/
def readText (progress : Progress) (text : String) : Except UsageError Progress :=
  match progress.pending? with
  | some ⟨option, .none⟩ => .ok { progress with pending? := some ⟨option, some text⟩ }
  | _ => .error .unknownArgument

/-- Splits a long argument at its first equals sign. -/
def splitValue (cs : List Char) : List Char × Option (List Char) :=
  match cs.dropWhile (· != '=') with
  | [] => (cs, .none)
  | _ :: value => (cs.takeWhile (· != '='), some value)

/-- Reads one argument. -/
def readArgument (progress : Progress) (argument : String) : Except UsageError Progress :=
  match argument.toList with
  | '-' :: '-' :: rest =>
    let (name, value?) := splitValue rest
    progress.readLong name value?
  | '-' :: c :: rest => progress.readShorts (c :: rest)
  | _ => progress.readText argument

/-- Reads all arguments. After two dashes alone every argument is positional, and none is known. -/
def readAll (progress : Progress) : List String → Except UsageError Progress
  | [] => .ok progress
  | argument :: rest =>
    if argument = "--" then (if rest = [] then .ok progress else .error .unknownArgument)
    else do readAll (← progress.readArgument argument) rest

end Progress

/-- Reads the arguments of a command line. -/
def readOptions (arguments : List String) : Except UsageError Options := do
  (← Progress.readAll ⟨.none, .none⟩ arguments).settle

end CompressorBench.CommandLine
