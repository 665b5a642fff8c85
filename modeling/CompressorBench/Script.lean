import CompressorBench.Child

/-!
# Scripted programs

A program can be given by rules instead of a file: the first rule that applies to a phase and a
payload says what is written and how the program ends. A program without a rule that applies writes
the payload with a line break.

The same script is a program that is called directly, and a child process that reads the phase and
the payload from its standard input.
-/

namespace CompressorBench

/-! ## Rules -/

/-- A part of what a rule writes. -/
inductive Script.Part where
  | bytes (contents : ByteArray)
  | payload
  | phase
  /-- The arguments with a bar between them. -/
  | arguments

/-- How a scripted program ends. -/
inductive Script.End where
  | exits (code : Int)
  | signalled (signal : Nat)
  /-- It does not end within any time limit. -/
  | hangs
  /-- It cannot be called at all. -/
  | refuses (message : String)

/-- What a program does with a phase and a payload, if they are those of the rule. -/
structure Script.Rule where
  phase? : Option ByteArray
  payload? : Option ByteArray
  stdout : List Script.Part
  stderr : List Script.Part
  ending : Script.End
  elapsed : Duration

/-- A scripted program. -/
structure Script where
  rules : List Script.Rule
  /-- Whether the program ends without reading its standard input. -/
  ignoresInput : Bool

namespace Script

/-- What a rule sees of an invocation. -/
structure Call where
  phase : ByteArray
  payload : ByteArray
  arguments : List String

/-- Whether a rule applies. -/
def Rule.applies (call : Call) (rule : Rule) : Bool :=
  (match rule.phase? with
    | some phase => phase == call.phase
    | none => true) &&
  (match rule.payload? with
    | some payload => payload == call.payload
    | none => true)

/-- The rule for all invocations that no other rule applies to. -/
def echo : Rule :=
  { phase? := none, payload? := none, stdout := [.payload, .bytes "\n".toUTF8], stderr := []
    ending := .exits 0, elapsed := .zero }

/-- The rule that decides an invocation. -/
def ruleFor (script : Script) (call : Call) : Rule :=
  (script.rules.find? (Rule.applies call)).getD echo

/-- What a part stands for in an invocation. -/
def Part.contents (call : Call) : Part → ByteArray
  | .bytes contents => contents
  | .payload => call.payload
  | .phase => call.phase
  | .arguments => (String.intercalate "|" call.arguments).toUTF8

/-- What a row of parts stands for. -/
def output (call : Call) (parts : List Part) : ByteArray :=
  parts.foldl (fun written part => written ++ part.contents call) ByteArray.empty

/-! ## Direct calls -/

/-- The answer to a direct call. A program that hangs has still written its output. -/
def answer (rule : Rule) (call : Call) : Reply :=
  let answer (ending : Ending) : Answer :=
    { ending
      stdout := Text.decodeWithReplacement (output call rule.stdout)
      stderr := Text.decodeWithReplacement (output call rule.stderr)
      elapsed := rule.elapsed }
  match rule.ending with
  | .refuses message => .error (.ofCause (.other message))
  | .hangs => .ok (answer .timedOut)
  | .signalled signal => .ok (answer (.failed (-(signal : Int))))
  | .exits code => .ok (answer (if code = 0 then .success else .failed code))

/-- The script as a program. -/
def program (script : Script) : Program := fun phase payload =>
  let call : Call := ⟨phase.tag.toUTF8, payload.toUTF8, []⟩
  answer (script.ruleFor call) call

/-! ## Child processes -/

/-- The bytes before the first line break and those after it. Without a line break all bytes are
after it. -/
def splitInput (input : ByteArray) : ByteArray × ByteArray :=
  match input.toList.findIdx? (· == 0x0A) with
  | some i => (input.extract 0 i, input.extract (i + 1) input.size)
  | none => (ByteArray.empty, input)

/-- When a scripted child is over, counted from its start. -/
def overAt : ClockTime := .after (.ofMilliseconds 10)

/-- The script as a child process, which is over all at once. A rule that refuses calls ends it with
an exit code. -/
def child (script : Script) : Child := fun arguments input =>
  let (phase, payload) :=
    if script.ignoresInput then (ByteArray.empty, ByteArray.empty) else splitInput input
  let call : Call := ⟨phase, payload, arguments⟩
  let rule := script.ruleFor call
  let over? : Option ClockTime :=
    match rule.ending with
    | .hangs => none
    | _ => some overAt
  { readsInput := !script.ignoresInput
    stdout := output call rule.stdout
    stderr := output call rule.stderr
    ending :=
      match rule.ending with
      | .signalled signal => .signalled signal
      | .exits code => .exited (code % 256).toNat
      | .hangs => .exited 0
      | .refuses _ => .exited 1
    inputOver? := over?
    stdoutOver? := over?
    stderrOver? := over?
    exitAt? := over?
    files := id }

end Script

end CompressorBench
