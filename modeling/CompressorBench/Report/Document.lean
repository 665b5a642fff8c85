import CompressorBench.Json.Printer
import CompressorBench.Report.Summary

/-!
# The report as a document

The outcomes of a run and their summary as a JSON value, with the members in a fixed order.
-/

namespace CompressorBench.Report

/-- The milliseconds that 64 bits cannot hold, `2 ^ 64`. -/
def millisecondsLimit : Nat := 18446744073709551616

/-- Time is told in whole milliseconds, of which the low 64 bits are kept. -/
def millisecondsJson (elapsed : Duration) : Json :=
  .ofNat (elapsed.milliseconds % millisecondsLimit)

/-- A phase by its word. -/
def phaseJson (phase : Phase) : Json := .str phase.tag

/-- A stage: a word, or the phase whose output it is. -/
def stageJson : Stage → Json
  | .input => .str "input"
  | .output phase => .obj [("output", phaseJson phase)]

/-- A defect by its kind and, if it has one, its detail. -/
def defectJson : Defect → Json
  | .invalidBase64 => .obj [("kind", .str "invalid_base64")]
  | .tooLarge size => .obj [("kind", .str "too_large"), ("detail", .ofNat size)]
  | .unreadableFile message => .obj [("kind", .str "unreadable_file"), ("detail", .str message)]
  | .missingPayload => .obj [("kind", .str "missing_payload")]

/-- A verdict by its kind and what belongs to it. -/
def verdictJson : Verdict → Json
  | .success compressedSize score =>
    .obj [("verdict", .str "success"), ("compressed_size", .ofNat compressedSize),
      ("score", .float score)]
  | .timeLimitExceeded phase =>
    .obj [("verdict", .str "time_limit_exceeded"), ("phase", phaseJson phase)]
  | .runtimeError phase exitCode =>
    .obj [("verdict", .str "runtime_error"), ("phase", phaseJson phase),
      ("exit_code", .ofOption .int exitCode)]
  | .presentationError stage defect =>
    .obj [("verdict", .str "presentation_error"), ("stage", stageJson stage),
      ("reason", defectJson defect)]
  | .wrongAnswer => .obj [("verdict", .str "wrong_answer")]

/-- An outcome. -/
def outcomeJson (outcome : Outcome) : Json :=
  .obj [("index", .ofNat outcome.index),
    ("name", .str outcome.name),
    ("original_size", .ofOption .ofNat outcome.inputSize?),
    ("compressed_size", .ofOption .ofNat outcome.compressedSize?),
    ("verdict", verdictJson outcome.verdict),
    ("execution_time", millisecondsJson outcome.elapsed)]

/-- A summary. -/
def summaryJson (summary : Summary) : Json :=
  .obj [("num_total", .ofNat summary.total),
    ("num_passed", .ofNat summary.passed),
    ("total_score", .float summary.totalScore),
    ("average_score", .float summary.averageScore)]

/-- The report of a run. -/
def reportJson (outcomes : List Outcome) : Json :=
  .obj [("cases", .arr (outcomes.map outcomeJson)),
    ("summary", summaryJson (Summary.ofOutcomes outcomes))]

end CompressorBench.Report
