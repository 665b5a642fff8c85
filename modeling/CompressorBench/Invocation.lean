import CompressorBench.Duration
import CompressorBench.Failure
import CompressorBench.Verdict

/-!
# Invocations

A program under test is run for a phase with a payload. It may not even start, which is a failure;
otherwise it answers.
-/

namespace CompressorBench

/-- How a run of the program ended. -/
inductive Ending where
  | success
  /-- The exit code, or the negated number of the signal that ended the program. -/
  | failed (code : Int)
  | timedOut
deriving DecidableEq, Repr

/-- What a run of the program gave. -/
structure Answer where
  ending : Ending
  stdout : String
  stderr : String
  elapsed : Duration
deriving DecidableEq, Repr

/-- An answer, or why there is none. -/
abbrev Reply := Except Failure Answer

/-- A program whose reply depends on the phase and the payload only. -/
abbrev Program := Phase → String → Reply

/-- An invocation that was made, with its reply. -/
structure Exchange where
  phase : Phase
  payload : String
  reply : Reply

/-- The exchange of a program for an invocation. -/
def Program.exchange (program : Program) (call : Phase × String) : Exchange :=
  ⟨call.1, call.2, program call.1 call.2⟩

/-- The time that an exchange counts for; a failure counts for none. -/
def Exchange.elapsed (exchange : Exchange) : Duration :=
  match exchange.reply with
  | .ok answer => answer.elapsed
  | .error _ => .zero

/-- The phase and the payload of an exchange. -/
def Exchange.call (exchange : Exchange) : Phase × String := (exchange.phase, exchange.payload)

end CompressorBench
