import CompressorBench.Proofs.Evaluation.Coherence
import CompressorBench.Report.Layout

/-!
# The line of an outcome

A report knows nothing but the outcome, yet its lines tell which invocations were made. The
compression column is there if and only if the decompression was invoked, and it shows the size of
what the decompression was given. Without it, what stands there is the failure that kept the
decompression from being invoked.

A layout also has an answer for outcomes that make no sense, such as a failed decompression of
nothing (`IsFallback`). No evaluation leads to one of these.

* `columnChars_isPrefix_iff`: the size can be read off the column.
* `line_tells_invocations`: all of it, for any case and any program.
-/

namespace CompressorBench.Report

variable {program : Program} {case : TestCase} {input : Payload} {evaluation : Evaluation}
  {verdict : Verdict} {text : String} {size other : Nat} {columns result : List Char}

/-! ## The compression column -/

/-- The compression column, as it is read without colours. -/
def columnChars (size : Nat) : List Char :=
  "OK ".toList ++ Text.alignRight 7 (Decimal.natChars size) ++ "    ".toList

@[simp] theorem renderChars_compressionColumn (size : Nat) :
    renderChars false (Layout.compressionColumn size) = columnChars size := by
  simp [renderChars, Layout.compressionColumn, columnChars, colored, plain, numberColumn]

/-- The digits of the size in a line that begins with a compression column. -/
def sizeDigits (columns : List Char) : List Char :=
  ((columns.drop 3).dropWhile (· == ' ')).takeWhile (· != ' ')

theorem sizeDigits_columnChars (size : Nat) (result : List Char) :
    sizeDigits (columnChars size ++ result) = Decimal.natChars size := by
  have hdigits : ∀ c ∈ Decimal.natChars size, (c != ' ') = true := by
    intro c hc
    have hdigit := Decimal.isDigit_of_mem_natChars hc
    rw [bne_iff_ne]
    rintro rfl
    cases hdigit
  have hfill : ∀ c ∈ Text.fill 7 (Decimal.natChars size).length, (c == ' ') = true := by
    intro c hc
    rw [List.eq_of_mem_replicate hc, beq_self_eq_true]
  have hshape : (columnChars size ++ result).drop 3 =
      Text.fill 7 (Decimal.natChars size).length ++
        (Decimal.natChars size ++ ' ' :: ' ' :: ' ' :: ' ' :: result) := by
    simp [columnChars, Text.alignRight]
  rw [sizeDigits, hshape, List.dropWhile_append_of_pos hfill]
  -- the first digit is no blank, so nothing but the fill is dropped
  obtain ⟨digit, digits, h⟩ := List.exists_cons_of_ne_nil (Decimal.natChars_ne_nil size)
  rw [h] at hdigits ⊢
  rw [List.cons_append, List.dropWhile_cons_of_neg (by simpa using hdigits digit (by simp)),
    ← List.cons_append, List.takeWhile_append_of_pos hdigits]
  simp

/-- **The column shows one size only.** -/
theorem columnChars_isPrefix_iff :
    columnChars other <+: columnChars size ++ result ↔ other = size := by
  constructor
  · rintro ⟨rest, hrest⟩
    have hdigits := congrArg sizeDigits hrest
    rwa [sizeDigits_columnChars, sizeDigits_columnChars, Decimal.natChars_inj] at hdigits
  · rintro rfl
    exact List.prefix_append _ _

/-! ## What is shown of a verdict -/

/-- What stands after the compression column of a size. -/
inductive ShownAfter (size : Nat) : Verdict → List Char → Prop where
  | success {points : Float} :
      ShownAfter size (.success size points) ("OK ".toList ++ Text.alignRight 9 (scoreText points))
  | timeLimitExceeded :
      ShownAfter size (.timeLimitExceeded .decompress)
        "TL timeout expired (decompression)".toList
  | runtimeError {exitCode : Option Int} :
      ShownAfter size (.runtimeError .decompress exitCode)
        ("RE " ++ Layout.exitMessage exitCode ++ " (decompression)").toList
  | wrongAnswer : ShownAfter size .wrongAnswer "WA wrong decompressed block".toList

/-- What stands in the place of the compression column. -/
inductive ShownAlone : Verdict → List Char → Prop where
  | timeLimitExceeded :
      ShownAlone (.timeLimitExceeded .compress) "TL timeout expired (compression)".toList
  | runtimeError {exitCode : Option Int} :
      ShownAlone (.runtimeError .compress exitCode)
        ("RE " ++ Layout.exitMessage exitCode ++ " (compression)").toList
  | presentationError {stage : Stage} {defect : Defect} :
      ShownAlone (.presentationError stage defect)
        ("PE " ++ Layout.defectMessage stage defect).toList

theorem ShownAfter.code_isPrefix (h : ShownAfter size verdict result) :
    verdict.mark.code.toList ++ [' '] <+: result := by
  cases h <;> simp [Verdict.mark, Mark.code]

theorem ShownAlone.code_isPrefix (h : ShownAlone verdict columns) :
    verdict.mark.code.toList ++ [' '] <+: columns := by
  cases h <;> simp [Verdict.mark, Mark.code]

theorem ShownAlone.mark_mem (h : ShownAlone verdict columns) :
    verdict.mark ∈ [Mark.timeLimit, .runtimeError, .presentationError] := by
  cases h <;> simp [Verdict.mark]

/-- A code in the place of the compression column is not taken for one. -/
theorem ShownAlone.not_columnChars_isPrefix (h : ShownAlone verdict columns) :
    ¬ columnChars size <+: columns := by
  cases h <;> simp [columnChars]

theorem exists_shownAfter_of_fails (h : Fails program .decompress text verdict) :
    ∃ result, ShownAfter size verdict result := by
  cases h with
  | failure => exact ⟨_, .runtimeError⟩
  | timedOut => exact ⟨_, .timeLimitExceeded⟩
  | failed => exact ⟨_, .runtimeError⟩

/-- A message after the compression column, as it is read without colours. -/
theorem renderChars_column_append (size : Nat) (message : Piece) :
    renderChars false (Layout.compressionColumn size ++ [message]) =
      columnChars size ++ message.chars := by
  rw [renderChars_append, renderChars_compressionColumn]
  simp [renderChars]

theorem renderChars_of_shownAfter (h : ShownAfter size verdict result) :
    renderChars false (Layout.phaseColumns (some size) verdict) = columnChars size ++ result := by
  cases h with
  | success =>
    rw [Layout.phaseColumns, renderChars_append, renderChars_compressionColumn]
    simp [renderChars, colored, plain]
  | timeLimitExceeded =>
    rw [Layout.phaseColumns, Layout.failureIn, Layout.compressionColumn?, renderChars_column_append]
    simp [Mark.code, Phase.noun]
  | runtimeError =>
    rw [Layout.phaseColumns, Layout.failureIn, Layout.compressionColumn?, renderChars_column_append]
    simp [Mark.code, Phase.noun]
  | wrongAnswer =>
    rw [Layout.phaseColumns, Layout.compressionColumn?, renderChars_column_append]
    simp [Mark.code]

theorem renderChars_of_shownAlone (h : ShownAlone verdict columns) (size? : Option Nat) :
    renderChars false (Layout.phaseColumns size? verdict) = columns := by
  cases h <;> simp [renderChars, Layout.phaseColumns, Layout.failureIn, Mark.code, Phase.noun]

/-! ## The branches that nothing leads to -/

/-- A layout falls back on something for an outcome that makes no sense: what needs a compressed
size has none, or the defect of an output is one that only a file can have. -/
def IsFallback (compressedSize? : Option Nat) : Verdict → Prop
  | .timeLimitExceeded .decompress => compressedSize? = none
  | .runtimeError .decompress _ => compressedSize? = none
  | .wrongAnswer => compressedSize? = none
  | .presentationError (.output _) .missingPayload => True
  | .presentationError (.output _) (.unreadableFile _) => True
  | _ => False

theorem ShownAfter.not_isFallback (h : ShownAfter size verdict result) :
    ¬ IsFallback (some size) verdict := by
  cases h <;> simp [IsFallback]

theorem exists_shownAlone_of_fails (h : Fails program .compress text verdict) :
    ∃ columns, ShownAlone verdict columns ∧ ∀ size?, ¬ IsFallback size? verdict := by
  cases h with
  | failure => exact ⟨_, .runtimeError, fun _ => id⟩
  | timedOut => exact ⟨_, .timeLimitExceeded, fun _ => id⟩
  | failed => exact ⟨_, .runtimeError, fun _ => id⟩

/-! ## Lines and invocations -/

/-- The columns of the phases tell what was invoked for a case and what came of it. -/
structure Tells (program : Program) (case : TestCase) (evaluation : Evaluation)
    (columns : List Char) : Prop where
  /-- A column shows the size of what the decompression was given, and there is none without it. -/
  column_iff : ∀ size, columnChars size <+: columns ↔
    ∃ text, (Phase.decompress, text) ∈ evaluation.calls ∧ Base64.decodedSize text = .ok size
  /-- The column shows the size of what the compression wrote; then comes the result. -/
  decompressed : ∀ text, (Phase.decompress, text) ∈ evaluation.calls →
    (∃ input, case.payload = .ok input ∧ Writes program .compress input.token text) ∧
      ∃ size result, Base64.decodedSize text = .ok size ∧ columns = columnChars size ++ result ∧
        ShownAfter size evaluation.outcome.verdict result ∧
        evaluation.outcome.verdict.mark.code.toList ++ [' '] <+: result
  /-- Otherwise the failure stands alone. -/
  notDecompressed : (∀ text, (Phase.decompress, text) ∉ evaluation.calls) →
    ShownAlone evaluation.outcome.verdict columns ∧
      evaluation.outcome.verdict.mark ∈ [Mark.timeLimit, .runtimeError, .presentationError] ∧
      evaluation.outcome.verdict.mark.code.toList ++ [' '] <+: columns
  notFallback : ¬ IsFallback evaluation.outcome.compressedSize? evaluation.outcome.verdict

/-- There is a compression column if and only if the decompression was invoked. -/
theorem Tells.hasColumn_iff (h : Tells program case evaluation columns) :
    (∃ size, columnChars size <+: columns) ↔
      ∃ text, (Phase.decompress, text) ∈ evaluation.calls := by
  constructor
  · rintro ⟨size, hprefix⟩
    obtain ⟨text, htext, -⟩ := (h.column_iff size).mp hprefix
    exact ⟨text, htext⟩
  · rintro ⟨text, htext⟩
    obtain ⟨-, size, result, -, hcolumns, -⟩ := h.decompressed text htext
    exact ⟨size, result, hcolumns.symm⟩

/-- The columns of the phases without colours. -/
def columnsOf (outcome : Outcome) : List Char :=
  renderChars false (Layout.phaseColumns outcome.compressedSize? outcome.verdict)

theorem tells_of_shownAfter (h : case.payload = .ok input)
    (hwrites : Writes program .compress input.token text)
    (hsize : Base64.decodedSize text = .ok size)
    (hcompressed : evaluation.outcome.compressedSize? = some size)
    (hverdict : evaluation.outcome.verdict = verdict)
    (hcalls : evaluation.calls = [(.compress, input.token), (.decompress, text)])
    (hshown : ShownAfter size verdict result) :
    Tells program case evaluation (columnsOf evaluation.outcome) := by
  subst hverdict
  have hmem : ∀ {other}, (Phase.decompress, other) ∈ evaluation.calls ↔ other = text := by
    simp [hcalls]
  rw [columnsOf, hcompressed, renderChars_of_shownAfter hshown]
  refine ⟨fun other => ?_, fun other hother => ?_, fun hnot => ?_, ?_⟩
  · rw [columnChars_isPrefix_iff]
    simp only [hmem, exists_eq_left, hsize, Except.ok.injEq]
    exact eq_comm
  · rw [hmem.mp hother]
    exact ⟨⟨input, h, hwrites⟩, size, result, hsize, rfl, hshown, hshown.code_isPrefix⟩
  · exact absurd (hmem.mpr rfl) (hnot text)
  · rw [hcompressed]
    exact hshown.not_isFallback

theorem tells_of_shownAlone (hverdict : evaluation.outcome.verdict = verdict)
    (hcalls : ∀ text, (Phase.decompress, text) ∉ evaluation.calls)
    (hshown : ShownAlone verdict columns) (hfallback : ∀ size?, ¬ IsFallback size? verdict) :
    Tells program case evaluation (columnsOf evaluation.outcome) := by
  subst hverdict
  rw [columnsOf, renderChars_of_shownAlone hshown]
  refine ⟨fun size => ?_, fun text htext => absurd htext (hcalls text), fun _ => ?_,
    hfallback _⟩
  · simp [hshown.not_columnChars_isPrefix, hcalls]
  · exact ⟨hshown, hshown.mark_mem, hshown.code_isPrefix⟩

/-- A course that ends before the decompression shows its failure alone, and one that comes to the
decompression shows the compression column first. -/
theorem tells_of_ok (h : case.payload = .ok input) (program : Program) (index : Nat) :
    Tells program case (evaluate program index case)
      (columnsOf (evaluate program index case).outcome) := by
  cases hbroken : (evaluate program index case).isBroken with
  | true =>
    -- both invocations were made, and a wrong answer is on record
    obtain ⟨compressed, hwrites, hcalls, hverdict⟩ := record_of_isBroken h hbroken
    have hsome := compressedSize?_of_writes h hwrites compressed.decodedSize_token index
    exact tells_of_shownAfter h hwrites compressed.decodedSize_token hsome hverdict hcalls
      .wrongAnswer
  | false =>
    have hcourse := course_outcome h hbroken
    generalize hverdict : (evaluate program index case).outcome.verdict = verdict at hcourse
    generalize hcalls : (evaluate program index case).calls = calls at hcourse
    cases hcourse with
    | compressionFails hfails =>
      obtain ⟨columns, hshown, hfallback⟩ := exists_shownAlone_of_fails hfails
      exact tells_of_shownAlone hverdict (by simp [hcalls]) hshown hfallback
    | notBase64 =>
      exact tells_of_shownAlone hverdict (by simp [hcalls]) .presentationError (fun _ => id)
    | tooLarge =>
      exact tells_of_shownAlone hverdict (by simp [hcalls]) .presentationError (fun _ => id)
    | decompressionFails hwrites hsize hle hfails =>
      obtain ⟨result, hshown⟩ := exists_shownAfter_of_fails hfails
      have hsome := compressedSize?_of_writes h hwrites hsize index
      exact tells_of_shownAfter h hwrites hsize hsome hverdict hcalls hshown
    | wrongAnswer hwrites hsize =>
      have hsome := compressedSize?_of_writes h hwrites hsize index
      exact tells_of_shownAfter h hwrites hsize hsome hverdict hcalls .wrongAnswer
    | success hwrites hsize =>
      have hsome := compressedSize?_of_writes h hwrites hsize index
      exact tells_of_shownAfter h hwrites hsize hsome hverdict hcalls .success

theorem tells_of_error {defect : Defect} (h : case.payload = .error defect) (program : Program)
    (index : Nat) :
    Tells program case (evaluate program index case)
      (columnsOf (evaluate program index case).outcome) := by
  obtain ⟨hverdict, hcalls⟩ := evaluate_of_error h program index
  exact tells_of_shownAlone hverdict (by simp [hcalls]) .presentationError (fun _ => id)

/-- **A line tells what was invoked.** Without colours and after its fixed columns, it begins with
the compression column if and only if the decompression was invoked, and then shows the size of what
the compression wrote, followed by what came of the decompression; otherwise it begins with the code
of the failure. No line falls back on anything. -/
theorem line_tells_invocations (program : Program) (index : Nat) (case : TestCase)
    (layout : Layout) :
    ∃ columns,
      renderChars false (layout.line (evaluate program index case).outcome) =
        renderChars false (layout.caseColumns (evaluate program index case).outcome) ++ columns ∧
      ((∃ size, columnChars size <+: columns) ↔
        ∃ text, (Phase.decompress, text) ∈ (evaluate program index case).calls) ∧
      Tells program case (evaluate program index case) columns := by
  have htells : Tells program case (evaluate program index case)
      (columnsOf (evaluate program index case).outcome) := by
    cases h : case.payload with
    | error defect => exact tells_of_error h program index
    | ok input => exact tells_of_ok h program index
  exact ⟨_, renderChars_append false _ _, htells.hasColumn_iff, htells⟩

end CompressorBench.Report
