import CompressorBench.Decimal.Fixed
import CompressorBench.Report.Style
import CompressorBench.Report.Summary
import CompressorBench.Text.Pad

/-!
# The printed report

A header of two lines, a line for each outcome, and a summary. The columns are the index of the
case, its name, its size, and one column for each phase; the name column is as wide as the longest
name.
-/

namespace CompressorBench.Report

/-! ## Columns -/

/-- The layout of a report. -/
structure Layout where
  nameWidth : Nat
deriving DecidableEq, Repr

/-- The narrowest name column: its heading has four letters. -/
def minNameWidth : Nat := 4

/-- The layout that has room for all names. -/
def Layout.ofNames (names : List String) : Layout :=
  ⟨names.foldl (fun width name => max width name.length) minNameWidth⟩

/-- The text of a number at the right of a column. -/
def numberColumn (width n : Nat) : List Char := Text.alignRight width (Decimal.natChars n)

/-- The text of a score or of a sum of scores. -/
def scoreText (score : Float) : List Char := (Decimal.fixed 3 score).toList

namespace Layout

/-- The bar on either side of the title. -/
def bar : List Char := List.replicate 22 '='

/-- The header: a title and the headings of the columns. -/
def header (layout : Layout) (cases : Nat) : StyledText :=
  [colored .yellow (bar ++ " Running ".toList ++ Decimal.natChars cases ++ " tests ".toList ++ bar),
    lineBreak,
    colored .yellow ("Idx  ".toList ++ Text.alignLeft layout.nameWidth "Name".toList ++ ' ' ::
      (Text.alignRight 7 "Size".toList ++ "   Compression   Decompression ".toList))]

/-- The columns before those of the phases. An unknown size is a question mark. -/
def caseColumns (layout : Layout) (outcome : Outcome) : StyledText :=
  let size := match outcome.inputSize? with
    | some size => Decimal.natChars size
    | none => ['?']
  [colored .yellow (numberColumn 4 outcome.index),
    plain (' ' :: (Text.alignLeft layout.nameWidth outcome.name.toList ++ [' '])),
    colored .cyan (Text.alignRight 7 size),
    plain "   ".toList]

/-- The compression column of a compression that went well. -/
def compressionColumn (size : Nat) : StyledText :=
  [colored .green "OK".toList, plain [' '], colored .cyan (numberColumn 7 size),
    plain "    ".toList]

/-- The compression column, if the compressed size is known. -/
def compressionColumn? : Option Nat → StyledText
  | some size => compressionColumn size
  | none => []

/-- A failure in a phase. One in the compression takes the place of the compression column. -/
def failureIn (phase : Phase) (compressedSize? : Option Nat) (message : Piece) : StyledText :=
  match phase with
  | .compress => [message]
  | .decompress => compressionColumn? compressedSize? ++ [message]

/-- The text for a defect at a stage. -/
def defectMessage : Stage → Defect → String
  | .input, .invalidBase64 => "invalid base64 in file"
  | .input, .tooLarge size => "original input too large (" ++ toString size ++ ")"
  | .input, .missingPayload => "missing payload token in file"
  | .input, .unreadableFile message => (Defect.unreadableFile message).message
  | .output phase, .invalidBase64 => "invalid base64 (" ++ phase.noun ++ " output)"
  | .output _, .tooLarge size => "too big output (" ++ toString size ++ ")"
  | .output phase, defect => defect.message ++ " (" ++ phase.noun ++ " output)"

/-- How a program failed: with an exit code, or without having been launched. -/
def exitMessage : Option Int → String
  | some code => "exitcode=" ++ toString code
  | none => "failed to launch"

/-- The columns of the phases. -/
def phaseColumns (compressedSize? : Option Nat) : Verdict → StyledText
  | .success compressedSize score =>
    compressionColumn compressedSize ++
      [colored .green "OK".toList, plain [' '],
        colored .cyan (Text.alignRight 9 (scoreText score))]
  | .timeLimitExceeded phase =>
    failureIn phase compressedSize?
      (markMessage .timeLimit ("timeout expired (" ++ phase.noun ++ ")"))
  | .runtimeError phase exitCode =>
    failureIn phase compressedSize?
      (markMessage .runtimeError (exitMessage exitCode ++ " (" ++ phase.noun ++ ")"))
  | .presentationError stage defect =>
    [markMessage .presentationError (defectMessage stage defect)]
  | .wrongAnswer =>
    compressionColumn? compressedSize? ++ [markMessage .wrongAnswer "wrong decompressed block"]

/-- The line of an outcome. -/
def line (layout : Layout) (outcome : Outcome) : StyledText :=
  layout.caseColumns outcome ++ phaseColumns outcome.compressedSize? outcome.verdict

end Layout

/-! ## The summary -/

/-- The entry of a mark in the list of failures: its icon and how often it occurs. -/
def failureEntry (mark : Mark) (count : Nat) : StyledText :=
  [icon mark, ⟨⟨some .dimmed, none, none⟩, ['x']⟩,
    ⟨⟨some .bold, none, none⟩, Decimal.natChars count⟩]

/-- The marks of failures that occur, with their counts. -/
def failureCounts (outcomes : List Outcome) : List (Mark × Nat) :=
  (Mark.failures.map fun mark => (mark, countMark mark outcomes)).filter fun entry => 0 < entry.2

/-- Puts a comma between the entries of a list. -/
def joinEntries : List StyledText → StyledText
  | [] => []
  | [entry] => entry
  | entry :: next :: rest => entry ++ plain ", ".toList :: joinEntries (next :: rest)

/-- The line that counts the failures. -/
def failuresLine (outcomes : List Outcome) : StyledText :=
  colored .yellow "Failures:      ".toList :: plain [' '] ::
    joinEntries ((failureCounts outcomes).map fun entry => failureEntry entry.1 entry.2)

/-- The summary. The failures have a line if there are any. -/
def summaryText (outcomes : List Outcome) (summary : Summary) : StyledText :=
  (if summary.allPassed then [] else failuresLine outcomes ++ [lineBreak]) ++
    [colored .yellow "Passed tests:   ".toList,
      colored (if summary.allPassed then .green else .red)
        (Decimal.natChars summary.passed ++ '/' :: Decimal.natChars summary.total),
      lineBreak,
      colored .yellow "Average points: ".toList,
      colored .cyan (scoreText summary.averageScore),
      lineBreak,
      colored .yellow "Total points:   ".toList,
      colored .cyan (scoreText summary.totalScore)]

/-- The lines of all outcomes and the summary, each with a line break after it. -/
def resultText (layout : Layout) (outcomes : List Outcome) (summary : Summary) : StyledText :=
  (outcomes.flatMap fun outcome => layout.line outcome ++ [lineBreak]) ++
    summaryText outcomes summary ++ [lineBreak]

theorem renderChars_lines (colors : Bool) (layout : Layout) (outcomes : List Outcome) :
    renderChars colors (outcomes.flatMap fun outcome => layout.line outcome ++ [lineBreak]) =
      outcomes.flatMap fun outcome => renderChars colors (layout.line outcome) ++ ['\n'] := by
  induction outcomes with
  | nil => rfl
  | cons outcome rest ih =>
    simp only [List.flatMap_cons, renderChars_append, ih, renderChars_lineBreak]

/-- With or without colours, the lines and the summary end with the same line breaks. -/
theorem renderChars_resultText (colors : Bool) (layout : Layout) (outcomes : List Outcome)
    (summary : Summary) :
    renderChars colors (resultText layout outcomes summary) =
      (outcomes.flatMap fun outcome => renderChars colors (layout.line outcome) ++ ['\n']) ++
        renderChars colors (summaryText outcomes summary) ++ ['\n'] := by
  rw [resultText, renderChars_append, renderChars_append, renderChars_lines, renderChars_lineBreak]

end CompressorBench.Report
