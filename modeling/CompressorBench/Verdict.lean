/-!
# Verdicts

What became of a test case. A case passes through two phases; the verdict says that both went well,
or which of them failed and how. A mark sums up a verdict in two letters.
-/

namespace CompressorBench

/-! ## Phases and stages -/

/-- The two runs of the program for a case. -/
inductive Phase where
  | compress
  | decompress
deriving DecidableEq, Repr

/-- The word that tells the program which phase it is in. -/
def Phase.tag : Phase → String
  | .compress => "compress"
  | .decompress => "decompress"

/-- The noun for a phase in a report. -/
def Phase.noun : Phase → String
  | .compress => "compression"
  | .decompress => "decompression"

/-- Where a payload was found to be defective: in the case file or in what a phase wrote. -/
inductive Stage where
  | input
  | output (phase : Phase)
deriving DecidableEq, Repr

/-! ## Defects -/

/-- What is wrong with a payload. -/
inductive Defect where
  | invalidBase64
  | tooLarge (size : Nat)
  | unreadableFile (message : String)
  | missingPayload
deriving DecidableEq, Repr

/-- The text of a defect. -/
def Defect.message : Defect → String
  | .invalidBase64 => "invalid base64"
  | .tooLarge size => "too large (" ++ toString size ++ ")"
  | .unreadableFile message => "failed to read file: " ++ message
  | .missingPayload => "missing payload token"

/-- The size of a defective payload, known only if it is base64. -/
def Defect.size? : Defect → Option Nat
  | .tooLarge size => some size
  | _ => none

/-! ## Verdicts and marks -/

/-- What became of a test case. An exit code is missing if the program did not get as far as to
exit. -/
inductive Verdict where
  | success (compressedSize : Nat) (score : Float)
  | timeLimitExceeded (phase : Phase)
  | runtimeError (phase : Phase) (exitCode : Option Int)
  | presentationError (stage : Stage) (defect : Defect)
  | wrongAnswer

/-- The two letter sum of a verdict. -/
inductive Mark where
  | ok
  | timeLimit
  | runtimeError
  | presentationError
  | wrongAnswer
deriving DecidableEq, Repr

/-- The two letters of a mark. -/
def Mark.code : Mark → String
  | .ok => "OK"
  | .timeLimit => "TL"
  | .runtimeError => "RE"
  | .presentationError => "PE"
  | .wrongAnswer => "WA"

/-- The marks of failures in the order in which a summary lists them. -/
def Mark.failures : List Mark := [.timeLimit, .runtimeError, .presentationError, .wrongAnswer]

/-- Every mark but the one of success is listed, and none twice. -/
theorem Mark.mem_failures_iff (mark : Mark) : mark ∈ Mark.failures ↔ mark ≠ .ok := by
  cases mark <;> decide

namespace Verdict

/-- The mark of a verdict. -/
def mark : Verdict → Mark
  | .success .. => .ok
  | .timeLimitExceeded _ => .timeLimit
  | .runtimeError .. => .runtimeError
  | .presentationError .. => .presentationError
  | .wrongAnswer => .wrongAnswer

/-- Whether the case passed. -/
def isSuccess : Verdict → Bool
  | .success .. => true
  | _ => false

/-- The score of a case that passed. -/
def score? : Verdict → Option Float
  | .success _ score => some score
  | _ => none

/-- A case passed exactly if its mark says so. -/
theorem mark_eq_ok_iff (v : Verdict) : v.mark = .ok ↔ v.isSuccess = true := by
  cases v <;> simp [mark, isSuccess]

/-- A case has a score exactly if it passed. -/
theorem isSome_score? (v : Verdict) : v.score?.isSome = v.isSuccess := by
  cases v <;> rfl

end Verdict

end CompressorBench
