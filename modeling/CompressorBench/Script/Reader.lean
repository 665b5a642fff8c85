import CompressorBench.Json.Members
import CompressorBench.Script

/-!
# Reading a script

A scripted program is described by a JSON object with its rules. A rule names the phase and the
payload it is for, what is written, and how the program ends; everything may be left out.
-/

namespace CompressorBench.Script

/-- A piece of what a rule writes: something that depends on the invocation, or a piece of text. -/
def Part.ofJson : Json → Part
  | .obj [("echo", _)] => .payload
  | .obj [("phase", _)] => .phase
  | .obj [("args", _)] => .arguments
  | piece => .bytes (Json.appendPiece ByteArray.empty piece)

/-- What a rule writes. -/
def Part.listOfJson : Json → List Part
  | .str text => [.bytes text.toUTF8]
  | .arr pieces => pieces.map Part.ofJson
  | _ => []

/-- How a rule ends: of several ends the one that leaves the least to be seen. -/
def End.ofJson (rule : Json) : End :=
  match rule.get? "fail" with
  | some message => .refuses message.spelledText
  | none =>
    if rule.flagMember "timeout" then .hangs
    else
      match (rule.member "signal").asNat? with
      | some signal => .signalled signal
      | none => .exits ((rule.member "exit").asInt?.getD 0)

/-- A rule. -/
def Rule.ofJson (rule : Json) : Rule :=
  { phase? := (rule.get? "phase").map Json.spelledBytes
    payload? := (rule.get? "payload").map Json.spelledBytes
    stdout := Part.listOfJson (rule.member "out")
    stderr := Part.listOfJson (rule.member "err")
    ending := .ofJson rule
    elapsed := .ofMicroseconds (rule.natMember "us") }

/-- A scripted program. -/
def ofJson (script : Json) : Script :=
  { rules := (script.itemsMember "rules").map Rule.ofJson
    ignoresInput := script.flagMember "noread" }

end CompressorBench.Script
