import CompressorBench.Report.Document
import CompressorBench.Proofs.Json.RoundTrip

/-!
# The document tells the report

A document is read with a decoder of its own, which knows nothing of the report: an outcome is put
together from its members, a verdict from its kind and what belongs to that kind. What it finds in
either text of a report are the outcomes, with their times in whole milliseconds, and the summary.

Only a sum of scores can be missing in a document, since it may be too large for binary64 although
every score is finite. The decoder then adds up the scores of the cases again.

* `verdict?_verdictJson`, `outcome?_outcomeJson`, `summary?_summaryJson`: the parts are read back.
* `document_tells_report`: both texts are well-formed, mean the same, and lose nothing.
-/

namespace CompressorBench

/-- The score of a verdict is a number, if it has one. -/
def Verdict.HasFiniteScore (verdict : Verdict) : Prop :=
  ∀ points, verdict.score? = some points → points.isFinite = true

namespace Report

open Json (asRead)

/-! ## Reading a document -/

/-- The members of a document are read as numbers, texts or what else they are made of. -/
def member? {α : Type} (read? : Json → Option α) (value : Json) (name : String) : Option α :=
  (value.get? name).bind read?

/-- A value that may be absent. -/
def optional? {α : Type} (read? : Json → Option α) : Json → Option (Option α)
  | .null => some none
  | value => (read? value).map some

/-- A floating point number. -/
def float? : Json → Option Float
  | .float x => some x
  | _ => none

/-- A phase by its word. -/
def phase? : Json → Option Phase
  | .str "compress" => some .compress
  | .str "decompress" => some .decompress
  | _ => none

/-- A stage: a word, or the phase whose output it is. -/
def stage? : Json → Option Stage
  | .str "input" => some .input
  | value => (member? phase? value "output").map .output

/-- A defect by its kind and its detail. -/
def defect? (value : Json) : Option Defect := do
  match ← member? Json.asString? value "kind" with
  | "invalid_base64" => some .invalidBase64
  | "too_large" => (member? Json.asNat? value "detail").map .tooLarge
  | "unreadable_file" => (member? Json.asString? value "detail").map .unreadableFile
  | "missing_payload" => some .missingPayload
  | _ => none

/-- A verdict by its kind and what belongs to it. -/
def verdict? (value : Json) : Option Verdict := do
  match ← member? Json.asString? value "verdict" with
  | "success" =>
    return .success (← member? Json.asNat? value "compressed_size") (← member? float? value "score")
  | "time_limit_exceeded" => (member? phase? value "phase").map .timeLimitExceeded
  | "runtime_error" =>
    return .runtimeError (← member? phase? value "phase")
      (← member? (optional? Json.asInt?) value "exit_code")
  | "presentation_error" =>
    return .presentationError (← member? stage? value "stage") (← member? defect? value "reason")
  | "wrong_answer" => some .wrongAnswer
  | _ => none

/-- An outcome. -/
def outcome? (value : Json) : Option Outcome := do
  return {
    index := ← member? Json.asNat? value "index"
    name := ← member? Json.asString? value "name"
    inputSize? := ← member? (optional? Json.asNat?) value "original_size"
    compressedSize? := ← member? (optional? Json.asNat?) value "compressed_size"
    verdict := ← member? verdict? value "verdict"
    elapsed := .ofMilliseconds (← member? Json.asNat? value "execution_time") }

/-- A score of a summary. A sum that is not finite is missing, and is the one that the cases add up
to. -/
def summaryScore? (sum : Float) (value : Json) : Option Float :=
  (optional? float? value).map fun score? => score?.getD sum

/-- A summary, with the cases that it is about. -/
def summary? (outcomes : List Outcome) (value : Json) : Option Summary := do
  return {
    total := ← member? Json.asNat? value "num_total"
    passed := ← member? Json.asNat? value "num_passed"
    totalScore := ← member? (summaryScore? (Summary.ofOutcomes outcomes).totalScore) value
      "total_score"
    averageScore := ← member? (summaryScore? (Summary.ofOutcomes outcomes).averageScore) value
      "average_score" }

/-- The cases and the summary of a document. -/
def report? (value : Json) : Option (List Outcome × Summary) := do
  let cases ← member? Json.asArray? value "cases"
  let outcomes ← cases.mapM outcome?
  return (outcomes, ← member? (summary? outcomes) value "summary")

/-! ## What is read back -/

/-- What a document tells of an outcome: all of it, but the time in whole milliseconds, of which the
low 64 bits are kept. -/
def told (outcome : Outcome) : Outcome :=
  { outcome with elapsed := .ofMilliseconds (outcome.elapsed.milliseconds % millisecondsLimit) }

theorem told_of_elapsed {outcome : Outcome} {elapsed : Duration}
    (h : Duration.ofMilliseconds (outcome.elapsed.milliseconds % millisecondsLimit) = elapsed) :
    told outcome = { outcome with elapsed } := by
  rw [told, h]

theorem verdict_told (outcome : Outcome) : (told outcome).verdict = outcome.verdict := by
  unfold told
  generalize Duration.ofMilliseconds _ = elapsed
  rfl

/-- A reader that keeps every whole number. -/
def keepsAll : Int → Bool := fun _ => true

theorem asRead_ofOption_ofNat (n? : Option Nat) :
    asRead keepsAll (.ofOption .ofNat n?) = .ofOption .ofNat n? := by
  cases n? <;> rfl

theorem phase?_phaseJson (phase : Phase) :
    phase? (asRead keepsAll (phaseJson phase)) = some phase := by
  cases phase <;> rfl

theorem stage?_stageJson (stage : Stage) :
    stage? (asRead keepsAll (stageJson stage)) = some stage := by
  cases stage with
  | input => rfl
  | output phase => exact congrArg (Option.map Stage.output) (phase?_phaseJson phase)

theorem defect?_defectJson (defect : Defect) :
    defect? (asRead keepsAll (defectJson defect)) = some defect := by
  cases defect <;> rfl

/-- A finite number is read as it is. -/
theorem floatAsRead_of_isFinite {x : Float} (h : x.isFinite = true) :
    Json.floatAsRead x = .float x := by
  have hunpack := Decimal.Binary64.ofUnpacked_unpack x.toBits
  have hfinite : x.toModel.unpack.isFinite = true := h
  change Decimal.Binary64.ofUnpacked x.toModel.unpack = Decimal.Binary64.ofFloat x at hunpack
  unfold Json.floatAsRead
  rw [← hunpack]
  generalize x.toModel.unpack = u at hfinite
  cases u with
  | notANumber => cases hfinite
  | infinity sign => cases hfinite
  | zero sign => rfl
  | finite sign mantissa exponent hpos => rfl

/-- A number that is not finite is missing. -/
theorem floatAsRead_cases (x : Float) :
    Json.floatAsRead x = .float x ∨ Json.floatAsRead x = .null := by
  unfold Json.floatAsRead
  split
  · exact .inl rfl
  · exact .inr rfl

theorem verdict?_verdictJson {verdict : Verdict} (h : verdict.HasFiniteScore) :
    verdict? (asRead keepsAll (verdictJson verdict)) = some verdict := by
  cases verdict with
  | success size points =>
    have hpoints := floatAsRead_of_isFinite (h points rfl)
    have hread : asRead keepsAll (verdictJson (.success size points)) =
        .obj [("verdict", .str "success"), ("compressed_size", .ofNat size),
          ("score", .float points)] := by
      rw [← hpoints]
      rfl
    rw [hread]
    rfl
  | timeLimitExceeded phase =>
    exact congrArg (Option.map Verdict.timeLimitExceeded) (phase?_phaseJson phase)
  | runtimeError phase exitCode => cases phase <;> cases exitCode <;> rfl
  | presentationError stage defect =>
    have hread : asRead keepsAll (verdictJson (.presentationError stage defect)) =
        .obj [("verdict", .str "presentation_error"), ("stage", asRead keepsAll (stageJson stage)),
          ("reason", asRead keepsAll (defectJson defect))] := rfl
    have hstage : member? stage? (asRead keepsAll (verdictJson (.presentationError stage defect)))
        "stage" = some stage := stage?_stageJson stage
    have hreason : member? defect? (asRead keepsAll (verdictJson (.presentationError stage defect)))
        "reason" = some defect := defect?_defectJson defect
    have hkind : member? Json.asString? (asRead keepsAll (verdictJson
        (.presentationError stage defect))) "verdict" = some "presentation_error" := rfl
    unfold verdict?
    rw [hkind, hstage, hreason]
    rfl
  | wrongAnswer => rfl

theorem optional?_ofOption_ofNat (n? : Option Nat) :
    optional? Json.asNat? (.ofOption .ofNat n?) = some n? := by
  cases n? <;> rfl

theorem outcome?_outcomeJson {outcome : Outcome} (h : outcome.verdict.HasFiniteScore) :
    outcome? (asRead keepsAll (outcomeJson outcome)) = some (told outcome) := by
  have hinput : member? (optional? Json.asNat?) (asRead keepsAll (outcomeJson outcome))
      "original_size" = some outcome.inputSize? :=
    (congrArg _ (asRead_ofOption_ofNat _)).trans (optional?_ofOption_ofNat _)
  have hcompressed : member? (optional? Json.asNat?) (asRead keepsAll (outcomeJson outcome))
      "compressed_size" = some outcome.compressedSize? :=
    (congrArg _ (asRead_ofOption_ofNat _)).trans (optional?_ofOption_ofNat _)
  have hverdict : member? verdict? (asRead keepsAll (outcomeJson outcome)) "verdict" =
      some outcome.verdict := verdict?_verdictJson h
  unfold outcome?
  rw [hinput, hcompressed, hverdict]
  rfl

/-! ## Whole reports -/

theorem ofOutcomes_map_told (outcomes : List Outcome) :
    Summary.ofOutcomes (outcomes.map told) = Summary.ofOutcomes outcomes := by
  have hscores : Summary.scores (outcomes.map told) = Summary.scores outcomes := by
    simp only [Summary.scores, List.filterMap_map, Function.comp_def, verdict_told]
  have hempty : (outcomes.map told).isEmpty = outcomes.isEmpty := List.isEmpty_map
  simp only [Summary.ofOutcomes, hscores, hempty, List.length_map]

theorem summaryScore?_asRead (x : Float) :
    summaryScore? x (Json.floatAsRead x) = some x := by
  rcases floatAsRead_cases x with h | h <;> rw [h] <;> rfl

theorem summary?_summaryJson (outcomes : List Outcome) :
    summary? (outcomes.map told) (asRead keepsAll (summaryJson (Summary.ofOutcomes outcomes))) =
      some (Summary.ofOutcomes outcomes) := by
  unfold summary?
  rw [ofOutcomes_map_told]
  generalize Summary.ofOutcomes outcomes = summary
  have htotal : member? (summaryScore? summary.totalScore) (asRead keepsAll (summaryJson summary))
      "total_score" = some summary.totalScore := summaryScore?_asRead _
  have haverage : member? (summaryScore? summary.averageScore)
      (asRead keepsAll (summaryJson summary)) "average_score" = some summary.averageScore :=
    summaryScore?_asRead _
  rw [htotal, haverage]
  rfl

theorem mapM_outcome? {outcomes : List Outcome}
    (h : ∀ outcome ∈ outcomes, outcome.verdict.HasFiniteScore) :
    (Json.itemsAsRead keepsAll (outcomes.map outcomeJson)).mapM outcome? =
      some (outcomes.map told) := by
  induction outcomes with
  | nil => rfl
  | cons outcome outcomes ih =>
    have hfirst := outcome?_outcomeJson (h outcome List.mem_cons_self)
    have hrest := ih fun other hother => h other (List.mem_cons_of_mem _ hother)
    rw [List.map_cons, Json.itemsAsRead, List.mapM_cons, hfirst, hrest]
    rfl

/-- **What is read of a document is the report.** -/
theorem report?_reportJson {outcomes : List Outcome}
    (h : ∀ outcome ∈ outcomes, outcome.verdict.HasFiniteScore) :
    report? (asRead keepsAll (reportJson outcomes)) =
      some (outcomes.map told, Summary.ofOutcomes outcomes) := by
  have hcases : member? Json.asArray? (asRead keepsAll (reportJson outcomes)) "cases" =
      some (Json.itemsAsRead keepsAll (outcomes.map outcomeJson)) := rfl
  have hsummary : member? (summary? (outcomes.map told))
      (asRead keepsAll (reportJson outcomes)) "summary" = some (Summary.ofOutcomes outcomes) :=
    summary?_summaryJson outcomes
  simp only [report?, hcases, Option.bind_eq_bind, Option.bind_some, mapM_outcome? h, hsummary]
  rfl

/-- The cases and the summary that a text tells of. Every whole number is kept as it is. -/
def reportOfText? (text : String) : Option (List Outcome × Summary) :=
  (Json.readWith? keepsAll text).bind report?

theorem reportOfText?_reportJson {outcomes : List Outcome}
    (h : ∀ outcome ∈ outcomes, outcome.verdict.HasFiniteScore) :
    reportOfText? (reportJson outcomes).compact =
        some (outcomes.map told, Summary.ofOutcomes outcomes) ∧
      reportOfText? (reportJson outcomes).indented =
        some (outcomes.map told, Summary.ofOutcomes outcomes) := by
  obtain ⟨hcompact, hindented⟩ := Json.readWith?_compact_indented keepsAll (reportJson outcomes)
  constructor
  · rw [reportOfText?, hcompact]
    exact report?_reportJson h
  · rw [reportOfText?, hindented]
    exact report?_reportJson h

/-- **The document of a report loses nothing.** Whatever whole numbers a reader keeps, the usual
reader among them, it reads both texts as the same value. The outcomes with their times in whole
milliseconds and the four numbers of the summary are found in either text; so reports that agree in
one of their texts agree in all of that. -/
theorem document_tells_report {outcomes : List Outcome}
    (h : ∀ outcome ∈ outcomes, outcome.verdict.HasFiniteScore) :
    (∀ keeps, ∃ value, Json.readWith? keeps (reportJson outcomes).compact = some value ∧
      Json.readWith? keeps (reportJson outcomes).indented = some value) ∧
    reportOfText? (reportJson outcomes).compact =
      some (outcomes.map told, Summary.ofOutcomes outcomes) ∧
    reportOfText? (reportJson outcomes).indented =
      some (outcomes.map told, Summary.ofOutcomes outcomes) ∧
    ∀ others : List Outcome, (∀ outcome ∈ others, outcome.verdict.HasFiniteScore) →
      (reportJson outcomes).compact = (reportJson others).compact ∨
        (reportJson outcomes).indented = (reportJson others).indented →
      outcomes.map told = others.map told ∧
        Summary.ofOutcomes outcomes = Summary.ofOutcomes others := by
  obtain ⟨hcompact, hindented⟩ := reportOfText?_reportJson h
  refine ⟨fun keeps => ⟨_, Json.readWith?_compact_indented keeps _⟩, hcompact, hindented, ?_⟩
  intro others hothers htexts
  obtain ⟨hcompact', hindented'⟩ := reportOfText?_reportJson hothers
  have hsome : some (outcomes.map told, Summary.ofOutcomes outcomes) =
      some (others.map told, Summary.ofOutcomes others) := by
    rcases htexts with htexts | htexts
    · rw [← hcompact, htexts, hcompact']
    · rw [← hindented, htexts, hindented']
  exact Prod.mk.inj (Option.some.inj hsome)

/-- A success, and a failure whose name and message need escapes. -/
def twoOutcomes : List Outcome :=
  [⟨1, "a", some 3, some 3, .success 3 1000.0, .ofMicroseconds 1500⟩,
    ⟨2, "\"\\\n", none, none, .presentationError .input (.unreadableFile "\t"), .zero⟩]

theorem document_tells_two_outcomes :
    reportOfText? (reportJson twoOutcomes).compact =
      some ([⟨1, "a", some 3, some 3, .success 3 1000.0, .ofMilliseconds 1⟩,
          ⟨2, "\"\\\n", none, none, .presentationError .input (.unreadableFile "\t"), .zero⟩],
        ⟨2, 1, 1000.0, 500.0⟩) := by
  have hfinite : ∀ outcome ∈ twoOutcomes, outcome.verdict.HasFiniteScore := by
    intro outcome houtcome points hpoints
    rcases List.mem_pair.mp houtcome with rfl | rfl
    · cases hpoints
      decide +kernel
    · cases hpoints
  have hsummary : Summary.ofOutcomes twoOutcomes = ⟨2, 1, 1000.0, 500.0⟩ := by
    have htotal : Summary.sum [1000.0] = 1000.0 := by decide +kernel
    have haverage : (1000.0 : Float) / Float.ofNat 2 = 500.0 := by decide +kernel
    rw [← haverage, ← htotal]
    rfl
  have htold := (document_tells_report hfinite).2.1
  have houtcomes : twoOutcomes.map told =
      [⟨1, "a", some 3, some 3, .success 3 1000.0, .ofMilliseconds 1⟩,
        ⟨2, "\"\\\n", none, none, .presentationError .input (.unreadableFile "\t"), .zero⟩] := by
    have hfirst : Duration.ofMilliseconds
        ((Duration.ofMicroseconds 1500).milliseconds % millisecondsLimit) = .ofMilliseconds 1 := by
      decide +kernel
    have hsecond : Duration.ofMilliseconds (Duration.zero.milliseconds % millisecondsLimit) =
        .zero := by decide +kernel
    exact congrArg₂ List.cons (told_of_elapsed hfirst)
      (congrArg (fun outcome => [outcome]) (told_of_elapsed hsecond))
  rw [hsummary, houtcomes] at htold
  exact htold

end Report

end CompressorBench
