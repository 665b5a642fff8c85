import CompressorBench.Evaluation
import CompressorBench.Proofs.Base64.Symbols

/-!
# The course of an evaluation

Which verdict an evaluation comes to, and which invocations it makes on the way, told without the
evaluation: there is one rule for each of its exits (`Course`), and the first step that fails
decides. After the first reply an evaluation is decided or waits for the second one, and after the
second it is decided (`Evaluated`).

The times of the invocations have no part in the verdict, but have to add up: if they do not, then
the evaluation breaks down after the last invocation, and there is no verdict.

* `evaluated_evaluate`: the three ways through the evaluation of an accepted case.
* `isBroken_evaluate_iff`: an evaluation breaks down exactly if its times do not add up.
* `course_evaluate`: an evaluation takes a course that the rules allow.
* `Course.unique`: the rules allow one course only.
* `verdict_eq_success_iff`: what success takes.
-/

namespace CompressorBench

variable {program : Program} {phase : Phase} {payload text : String}

/-! ## Invocations -/

/-- An invocation goes well: the program ends with success, and without the blanks at its end its
output is the given text. -/
def Writes (program : Program) (phase : Phase) (payload text : String) : Prop :=
  ∃ answer, program phase payload = .ok answer ∧ answer.ending = .success ∧
    Text.trimEnd answer.stdout = text

/-- An invocation fails, which leads to a verdict. -/
inductive Fails (program : Program) (phase : Phase) (payload : String) : Verdict → Prop where
  /-- There is no answer at all. -/
  | failure {failure : Failure} (hreply : program phase payload = .error failure) :
      Fails program phase payload (.runtimeError phase none)
  | timedOut {answer : Answer} (hreply : program phase payload = .ok answer)
      (hending : answer.ending = .timedOut) :
      Fails program phase payload (.timeLimitExceeded phase)
  | failed {answer : Answer} {code : Int} (hreply : program phase payload = .ok answer)
      (hending : answer.ending = .failed code) :
      Fails program phase payload (.runtimeError phase (some code))

theorem outputText_eq_ok_iff :
    Position.outputText phase (program phase payload) = .ok text ↔
      Writes program phase payload text := by
  cases hreply : program phase payload with
  | error failure => simp [Position.outputText, Writes, hreply]
  | ok answer =>
    cases hending : answer.ending <;> simp [Position.outputText, Writes, hreply, hending]

theorem outputText_eq_error_iff {verdict : Verdict} :
    Position.outputText phase (program phase payload) = .error verdict ↔
      Fails program phase payload verdict := by
  constructor
  · intro h
    unfold Position.outputText at h
    split at h
    · next hreply => cases h; exact .failure hreply
    · next answer hreply =>
      split at h
      · cases h
      · next hending => cases h; exact .failed hreply hending
      · next hending => cases h; exact .timedOut hreply hending
  · intro h
    cases h with
    | failure hreply => simp only [Position.outputText, hreply]
    | timedOut hreply hending => simp only [Position.outputText, hreply, hending]
    | failed hreply hending => simp only [Position.outputText, hreply, hending]

theorem Writes.unique {other : String} (h : Writes program phase payload text)
    (h' : Writes program phase payload other) : text = other := by
  rw [← outputText_eq_ok_iff] at h h'
  exact Except.ok.inj (h.symm.trans h')

theorem Fails.unique {verdict other : Verdict} (h : Fails program phase payload verdict)
    (h' : Fails program phase payload other) : verdict = other := by
  rw [← outputText_eq_error_iff] at h h'
  exact Except.error.inj (h.symm.trans h')

theorem Fails.not_writes {verdict : Verdict} (h : Fails program phase payload verdict) :
    ¬ Writes program phase payload text := by
  rw [← outputText_eq_error_iff] at h
  rw [← outputText_eq_ok_iff, h]
  exact nofun

/-- A text without blanks is written if nothing but blanks follows it in the output. -/
theorem writes_iff_of_not_blank (h : ∀ c ∈ text.toList, Text.isBlank c = false) :
    Writes program phase payload text ↔
      ∃ answer blanks, program phase payload = .ok answer ∧ answer.ending = .success ∧
        (∀ c ∈ blanks, Text.isBlank c = true) ∧ answer.stdout = text ++ String.ofList blanks := by
  have htrim : ∀ output : String, Text.trimEnd output = text ↔ ∃ blanks : List Char,
      (∀ c ∈ blanks, Text.isBlank c = true) ∧ output = text ++ String.ofList blanks := by
    intro output
    rw [← String.toList_inj, Text.toList_trimEnd, Text.trimEndChars_eq_iff h]
    simp only [← String.toList_inj, String.toList_append, String.toList_ofList]
  constructor
  · rintro ⟨answer, hreply, hending, houtput⟩
    obtain ⟨blanks, hblanks, heq⟩ := (htrim _).mp houtput
    exact ⟨answer, blanks, hreply, hending, hblanks, heq⟩
  · rintro ⟨answer, blanks, hreply, hending, hblanks, heq⟩
    exact ⟨answer, hreply, hending, (htrim _).mpr ⟨blanks, hblanks, heq⟩⟩

/-! ## The rules -/

/-- **The exits of an evaluation**, in the order in which they are come to: the verdict, and the
invocations that were made. -/
inductive Course (program : Program) (input : Payload) :
    Verdict → List (Phase × String) → Prop where
  | compressionFails {verdict : Verdict} (hfails : Fails program .compress input.token verdict) :
      Course program input verdict [(.compress, input.token)]
  | notBase64 {text : String} {error : Base64.Error}
      (hwrites : Writes program .compress input.token text)
      (hsize : Base64.decodedSize text = .error error) :
      Course program input (.presentationError (.output .compress) .invalidBase64)
        [(.compress, input.token)]
  | tooLarge {text : String} {size : Nat} (hwrites : Writes program .compress input.token text)
      (hsize : Base64.decodedSize text = .ok size) (hlarge : maxPayloadSize < size) :
      Course program input (.presentationError (.output .compress) (.tooLarge size))
        [(.compress, input.token)]
  | decompressionFails {text : String} {size : Nat} {verdict : Verdict}
      (hwrites : Writes program .compress input.token text)
      (hsize : Base64.decodedSize text = .ok size) (hle : size ≤ maxPayloadSize)
      (hfails : Fails program .decompress text verdict) :
      Course program input verdict [(.compress, input.token), (.decompress, text)]
  | wrongAnswer {text other : String} {size : Nat}
      (hwrites : Writes program .compress input.token text)
      (hsize : Base64.decodedSize text = .ok size) (hle : size ≤ maxPayloadSize)
      (hother : Writes program .decompress text other) (hne : other ≠ input.token) :
      Course program input .wrongAnswer [(.compress, input.token), (.decompress, text)]
  | success {text : String} {size : Nat} (hwrites : Writes program .compress input.token text)
      (hsize : Base64.decodedSize text = .ok size) (hle : size ≤ maxPayloadSize)
      (hback : Writes program .decompress text input.token) :
      Course program input (.success size (score input.size size))
        [(.compress, input.token), (.decompress, text)]

/-! ## Times -/

/-- The nanoseconds that invocations take together. One that fails takes none. -/
def nanosecondsOf (program : Program) : List (Phase × String) → Nat
  | [] => 0
  | call :: rest => (program.exchange call).elapsed.nanoseconds + nanosecondsOf program rest

/-- The times of invocations add up to a duration. -/
def TimesFit (program : Program) (calls : List (Phase × String)) : Prop :=
  nanosecondsOf program calls < Duration.limitNanoseconds

theorem nanosecondsOf_singleton (program : Program) (call : Phase × String) :
    nanosecondsOf program [call] = (program.exchange call).elapsed.nanoseconds :=
  Nat.add_zero _

theorem nanosecondsOf_pair (program : Program) (first second : Phase × String) :
    nanosecondsOf program [first, second] =
      (program.exchange first).elapsed.nanoseconds +
        (program.exchange second).elapsed.nanoseconds := by
  rw [nanosecondsOf, nanosecondsOf_singleton]

/-- Programs that take the same times take as long together. -/
theorem nanosecondsOf_congr {program' : Program}
    (h : ∀ call, (program'.exchange call).elapsed = (program.exchange call).elapsed)
    (calls : List (Phase × String)) :
    nanosecondsOf program' calls = nanosecondsOf program calls := by
  induction calls with
  | nil => rfl
  | cons call rest ih => rw [nanosecondsOf, nanosecondsOf, h, ih]

theorem timesFit_nil (program : Program) : TimesFit program [] :=
  (by decide : 0 < Duration.limitNanoseconds)

/-- A single time is no sum that could be too long. -/
theorem timesFit_singleton (program : Program) (call : Phase × String) :
    TimesFit program [call] := by
  rw [TimesFit, nanosecondsOf_singleton]
  exact (program.exchange call).elapsed.isShort

theorem timesFit_pair_iff {first second : Phase × String} :
    TimesFit program [first, second] ↔
      ∃ sum, (program.exchange first).elapsed.add? (program.exchange second).elapsed =
        some sum := by
  rw [TimesFit, nanosecondsOf_pair, ← Option.isSome_iff_exists, ← Option.ne_none_iff_isSome, ne_eq,
    Duration.add?_eq_none_iff, Nat.not_le]

/-! ## From position to position -/

/-- **The ways through the evaluation of an accepted case**: it is decided after the compression, or
after the decompression, or it breaks down then. -/
inductive Evaluated (program : Program) (index : Nat) (case : TestCase) (input : Payload) :
    Evaluation → Prop where
  | once {verdict : Verdict} {size? : Option Nat}
      (hafter : Position.afterCompression input (program .compress input.token) =
        .decided verdict size?) :
      Evaluated program index case input
        { index, case
          position := .decided verdict size?
          exchanges := [program.exchange (.compress, input.token)]
          elapsed := (program.exchange (.compress, input.token)).elapsed }
  | twice {compressed : Payload} {elapsed : Duration}
      (hafter : Position.afterCompression input (program .compress input.token) =
        .decompressing input compressed)
      (hsum : (program.exchange (.compress, input.token)).elapsed.add?
        (program.exchange (.decompress, compressed.token)).elapsed = some elapsed) :
      Evaluated program index case input
        { index, case
          position := .decided
            (Position.finalVerdict input compressed (program .decompress compressed.token))
            (some compressed.size)
          exchanges := [program.exchange (.compress, input.token),
            program.exchange (.decompress, compressed.token)]
          elapsed }
  | broken {compressed : Payload}
      (hafter : Position.afterCompression input (program .compress input.token) =
        .decompressing input compressed)
      (hsum : (program.exchange (.compress, input.token)).elapsed.add?
        (program.exchange (.decompress, compressed.token)).elapsed = none) :
      Evaluated program index case input
        { index, case
          position := .brokenDown (some compressed.size)
          exchanges := [program.exchange (.compress, input.token),
            program.exchange (.decompress, compressed.token)]
          elapsed := (program.exchange (.compress, input.token)).elapsed }

/-- After the reply to the compression an evaluation is decided or waits for the decompression. -/
theorem Position.afterCompression_cases (input : Payload) (reply : Reply) :
    (∃ verdict size?, afterCompression input reply = .decided verdict size?) ∨
      ∃ compressed, afterCompression input reply = .decompressing input compressed := by
  unfold afterCompression
  split
  · exact .inl ⟨_, _, rfl⟩
  · split
    · exact .inr ⟨_, rfl⟩
    · exact .inl ⟨_, _, rfl⟩

/-- The first invocation, whose time cannot be too long. -/
theorem evaluate_of_ok {case : TestCase} {input : Payload} (h : case.payload = .ok input)
    (program : Program) (index : Nat) :
    evaluate program index case = Evaluation.finish program
      { index, case
        position := Position.afterCompression input (program .compress input.token)
        exchanges := [program.exchange (.compress, input.token)]
        elapsed := (program.exchange (.compress, input.token)).elapsed } := by
  have hstart : Evaluation.start index case =
      ⟨index, case, .compressing input, [], .zero⟩ := by
    simp only [Evaluation.start, Position.start, h]
  have hcall : (Evaluation.start index case).position.pending? =
      some (.compress, input.token) := by
    rw [hstart]
    rfl
  rw [evaluate, ← Evaluation.finish_step, Evaluation.step_of_pending? hcall, hstart,
    Evaluation.receive_of_add? (Duration.zero_add? _)]
  rfl

theorem evaluated_evaluate {case : TestCase} {input : Payload} (h : case.payload = .ok input)
    (program : Program) (index : Nat) :
    Evaluated program index case input (evaluate program index case) := by
  rw [evaluate_of_ok h]
  rcases Position.afterCompression_cases input (program .compress input.token) with
    ⟨verdict, size?, hafter⟩ | ⟨compressed, hafter⟩
  · rw [hafter, Evaluation.finish_eq_self rfl]
    exact .once hafter
  · rw [hafter, ← Evaluation.finish_step,
      @Evaluation.step_of_pending? _ (.decompress, compressed.token) rfl]
    cases hsum : (program.exchange (.compress, input.token)).elapsed.add?
        (program.exchange (.decompress, compressed.token)).elapsed with
    | some elapsed =>
      rw [Evaluation.receive_of_add? hsum, Evaluation.finish_eq_self rfl]
      exact .twice hafter hsum
    | none =>
      rw [Evaluation.receive_of_add?_eq_none hsum, Evaluation.finish_eq_self rfl]
      exact .broken hafter hsum

/-- A rejected case is decided at once. -/
theorem evaluate_of_rejected {case : TestCase} {defect : Defect}
    (h : case.payload = .error defect) (program : Program) (index : Nat) :
    evaluate program index case =
      ⟨index, case, .decided (.presentationError .input defect) none, [], .zero⟩ := by
  have hstart : Evaluation.start index case =
      ⟨index, case, .decided (.presentationError .input defect) none, [], .zero⟩ := by
    simp only [Evaluation.start, Position.start, h]
  rw [evaluate, hstart, Evaluation.finish_eq_self rfl]

theorem evaluate_of_error {case : TestCase} {defect : Defect} (h : case.payload = .error defect)
    (program : Program) (index : Nat) :
    (evaluate program index case).outcome.verdict = .presentationError .input defect ∧
      (evaluate program index case).calls = [] := by
  rw [evaluate_of_rejected h]
  exact ⟨rfl, rfl⟩

/-- **An evaluation breaks down exactly if the times of its invocations do not add up.** -/
theorem isBroken_evaluate_iff (program : Program) (index : Nat) (case : TestCase) :
    (evaluate program index case).isBroken = true ↔
      ¬ TimesFit program (evaluate program index case).calls := by
  have hsound : ∀ {calls : List (Phase × String)}, TimesFit program calls →
      (false = true ↔ ¬ TimesFit program calls) :=
    fun hfit => iff_of_false Bool.false_ne_true (not_not_intro hfit)
  cases hpayload : case.payload with
  | error defect =>
    rw [evaluate_of_rejected hpayload]
    exact hsound (timesFit_nil program)
  | ok input =>
    have hevaluated := evaluated_evaluate hpayload program index
    generalize evaluate program index case = evaluation at hevaluated ⊢
    cases hevaluated with
    | once => exact hsound (timesFit_singleton program _)
    | twice _ hsum => exact hsound (timesFit_pair_iff.mpr ⟨_, hsum⟩)
    | broken _ hsum =>
      refine iff_of_true rfl fun hfit => ?_
      obtain ⟨sum, hsome⟩ := timesFit_pair_iff.mp hfit
      cases hsum.symm.trans hsome

theorem isBroken_evaluate_eq_false_iff (program : Program) (index : Nat) (case : TestCase) :
    (evaluate program index case).isBroken = false ↔
      TimesFit program (evaluate program index case).calls := by
  rw [← Bool.not_eq_true, isBroken_evaluate_iff, Classical.not_not]

/-- The time of an evaluation that does not break down is that of its invocations. -/
theorem elapsed_evaluate {index : Nat} {case : TestCase}
    (h : (evaluate program index case).isBroken = false) :
    (evaluate program index case).elapsed.nanoseconds =
      nanosecondsOf program (evaluate program index case).calls := by
  cases hpayload : case.payload with
  | error defect =>
    rw [evaluate_of_rejected hpayload]
    rfl
  | ok input =>
    have hevaluated := evaluated_evaluate hpayload program index
    generalize evaluate program index case = evaluation at h hevaluated ⊢
    cases hevaluated with
    | once => exact (nanosecondsOf_singleton _ _).symm
    | twice _ hsum =>
      rw [Duration.add?_eq_some_iff.mp hsum]
      exact (nanosecondsOf_pair _ _ _).symm
    | broken => cases h

/-! ## The course of an evaluation -/

/-- What a text that a compression wrote is worth decides how it goes on. -/
theorem course_finalVerdict {input compressed : Payload}
    (hwrites : Writes program .compress input.token compressed.token) :
    Course program input
      (Position.finalVerdict input compressed (program .decompress compressed.token))
      [(.compress, input.token), (.decompress, compressed.token)] := by
  have hsize := compressed.decodedSize_token
  have hle := compressed.size_le
  unfold Position.finalVerdict
  split
  · next hfails => exact .decompressionFails hwrites hsize hle (outputText_eq_error_iff.mp hfails)
  · next other hother =>
    rw [outputText_eq_ok_iff] at hother
    split
    · next heq => exact .success hwrites hsize hle (heq ▸ hother)
    · next hne => exact .wrongAnswer hwrites hsize hle hother hne

/-- A verdict that is decided after the compression. -/
theorem course_of_decided {input : Payload} {verdict : Verdict} {size? : Option Nat}
    (h : Position.afterCompression input (program .compress input.token) =
      .decided verdict size?) :
    Course program input verdict [(.compress, input.token)] := by
  unfold Position.afterCompression at h
  split at h
  · next hfails =>
    cases h
    exact .compressionFails (outputText_eq_error_iff.mp hfails)
  · next text hwrites =>
    rw [outputText_eq_ok_iff] at hwrites
    split at h
    · cases h
    · next defect hofToken =>
      cases h
      rcases Payload.ofToken_eq_error_iff.mp hofToken with
        ⟨rfl, error, herror⟩ | ⟨size, rfl, hsize, hlarge⟩
      · exact .notBase64 hwrites herror
      · exact .tooLarge hwrites hsize hlarge

/-- What the compression wrote if the decompression comes next. -/
theorem writes_of_decompressing {input compressed : Payload}
    (h : Position.afterCompression input (program .compress input.token) =
      .decompressing input compressed) :
    Writes program .compress input.token compressed.token := by
  unfold Position.afterCompression at h
  split at h
  · cases h
  · next text hwrites =>
    rw [outputText_eq_ok_iff] at hwrites
    split at h
    · next hofToken =>
      cases h
      rwa [Payload.token_of_ofToken hofToken]
    · cases h

/-- **The evaluation of an accepted case takes a course that the rules allow.** Its verdict is
decided if the times add up. -/
theorem course_evaluate {case : TestCase} {input : Payload} (h : case.payload = .ok input)
    (program : Program) (index : Nat) :
    ∃ verdict, Course program input verdict (evaluate program index case).calls ∧
      (TimesFit program (evaluate program index case).calls →
        (evaluate program index case).verdict? = some verdict) := by
  have hbroken := isBroken_evaluate_iff program index case
  have hevaluated := evaluated_evaluate h program index
  generalize evaluate program index case = evaluation at hbroken hevaluated ⊢
  cases hevaluated with
  | once hafter => exact ⟨_, course_of_decided hafter, fun _ => rfl⟩
  | twice hafter =>
    exact ⟨_, course_finalVerdict (writes_of_decompressing hafter), fun _ => rfl⟩
  | broken hafter =>
    exact ⟨_, course_finalVerdict (writes_of_decompressing hafter),
      fun hfit => absurd hfit (hbroken.mp rfl)⟩

/-- What is on record if the evaluation did not break down is the verdict of its course. -/
theorem course_outcome {case : TestCase} {input : Payload} (h : case.payload = .ok input)
    {index : Nat} (hsound : (evaluate program index case).isBroken = false) :
    Course program input (evaluate program index case).outcome.verdict
      (evaluate program index case).calls := by
  obtain ⟨verdict, hcourse, hverdict⟩ := course_evaluate h program index
  have hfit := (isBroken_evaluate_eq_false_iff program index case).mp hsound
  rwa [Evaluation.verdict_outcome (hverdict hfit)]

/-- What is on record if it did: nothing followed from the second reply. -/
theorem record_of_isBroken {case : TestCase} {input : Payload} (h : case.payload = .ok input)
    {index : Nat} (hbroken : (evaluate program index case).isBroken = true) :
    ∃ compressed : Payload, Writes program .compress input.token compressed.token ∧
      (evaluate program index case).calls =
        [(.compress, input.token), (.decompress, compressed.token)] ∧
      (evaluate program index case).outcome.verdict = .wrongAnswer := by
  have hevaluated := evaluated_evaluate h program index
  generalize evaluate program index case = evaluation at hbroken hevaluated ⊢
  cases hevaluated with
  | once => cases hbroken
  | twice => cases hbroken
  | @broken compressed hafter => exact ⟨compressed, writes_of_decompressing hafter, rfl, rfl⟩

/-! ## One course only -/

/-- The rules allow one course only. -/
theorem Course.unique {input : Payload} {verdict other : Verdict}
    {calls calls' : List (Phase × String)} (h : Course program input verdict calls)
    (h' : Course program input other calls') : verdict = other ∧ calls = calls' := by
  cases h with
  | compressionFails hfails =>
    cases h' with
    | compressionFails hfails' => exact ⟨hfails.unique hfails', rfl⟩
    | _ => exact absurd ‹Writes program .compress _ _› hfails.not_writes
  -- the compression wrote one text, which has one size, so the other rules are ruled out by either
  | notBase64 hwrites hsize => cases h' <;> grind [Writes.unique, Fails.not_writes]
  | tooLarge hwrites hsize hlarge => cases h' <;> grind [Writes.unique, Fails.not_writes]
  | decompressionFails hwrites hsize hle hfails =>
    cases h' <;> grind [Writes.unique, Fails.unique, Fails.not_writes]
  | wrongAnswer hwrites hsize hle hother hne =>
    cases h' <;> grind [Writes.unique, Fails.not_writes]
  | success hwrites hsize hle hback => cases h' <;> grind [Writes.unique, Fails.not_writes]

/-- What the rules say of an accepted case is what its evaluation does. -/
theorem Course.evaluate_eq {case : TestCase} {input : Payload} {verdict : Verdict}
    {calls : List (Phase × String)} (hcourse : Course program input verdict calls)
    (h : case.payload = .ok input) (index : Nat) :
    (evaluate program index case).calls = calls ∧
      (TimesFit program calls → (evaluate program index case).verdict? = some verdict) := by
  obtain ⟨other, hother, hverdict⟩ := course_evaluate h program index
  obtain ⟨rfl, rfl⟩ := hother.unique hcourse
  exact ⟨rfl, hverdict⟩

/-- The invocations do not depend on the place of the case among others. -/
theorem calls_evaluate_eq (program : Program) (case : TestCase) (i j : Nat) :
    (evaluate program i case).calls = (evaluate program j case).calls := by
  cases hpayload : case.payload with
  | error defect =>
    rw [(evaluate_of_error hpayload program i).2, (evaluate_of_error hpayload program j).2]
  | ok input =>
    obtain ⟨verdict, hcourse, -⟩ := course_evaluate hpayload program j
    exact (hcourse.evaluate_eq hpayload i).1

/-- A verdict that is decided is that of the course. -/
theorem course_of_verdict? {case : TestCase} {input : Payload} (h : case.payload = .ok input)
    {index : Nat} {verdict : Verdict}
    (hverdict : (evaluate program index case).verdict? = some verdict) :
    Course program input verdict (evaluate program index case).calls ∧
      TimesFit program (evaluate program index case).calls := by
  have hfit := (isBroken_evaluate_eq_false_iff program index case).mp
    (Evaluation.isBroken_of_verdict? hverdict)
  obtain ⟨other, hcourse, hother⟩ := course_evaluate h program index
  rw [hother hfit] at hverdict
  cases hverdict
  exact ⟨hcourse, hfit⟩

theorem verdict?_of_rejected {case : TestCase} {defect : Defect} (h : case.payload = .error defect)
    (program : Program) (index : Nat) :
    (evaluate program index case).verdict? = some (.presentationError .input defect) ∧
      (evaluate program index case).calls = [] := by
  rw [evaluate_of_rejected h]
  exact ⟨rfl, rfl⟩

/-- Success means that both invocations went well, and that the second one gave the input back. -/
theorem verdict?_eq_success_iff {case : TestCase} {input : Payload} (h : case.payload = .ok input)
    (index : Nat) {size : Nat} {points : Float} :
    (evaluate program index case).verdict? = some (.success size points) ↔
      points = score input.size size ∧ size ≤ maxPayloadSize ∧
        ∃ text, Writes program .compress input.token text ∧
          Base64.decodedSize text = .ok size ∧ Writes program .decompress text input.token ∧
          TimesFit program [(.compress, input.token), (.decompress, text)] := by
  constructor
  · intro hverdict
    obtain ⟨hcourse, hfit⟩ := course_of_verdict? h hverdict
    generalize (evaluate program index case).calls = calls at hcourse hfit
    cases hcourse with
    | compressionFails hfails => cases hfails
    | decompressionFails hwrites hsize hle hfails => cases hfails
    | success hwrites hsize hle hback => exact ⟨rfl, hle, _, hwrites, hsize, hback, hfit⟩
  · rintro ⟨rfl, hle, text, hwrites, hsize, hback, hfit⟩
    exact ((Course.success hwrites hsize hle hback).evaluate_eq h index).2 hfit

theorem verdict_eq_success_iff {case : TestCase} {input : Payload} (h : case.payload = .ok input)
    (index : Nat) {size : Nat} {points : Float} :
    (evaluate program index case).outcome.verdict = .success size points ↔
      points = score input.size size ∧ size ≤ maxPayloadSize ∧
        ∃ text, Writes program .compress input.token text ∧
          Base64.decodedSize text = .ok size ∧ Writes program .decompress text input.token ∧
          TimesFit program [(.compress, input.token), (.decompress, text)] :=
  Evaluation.verdict_outcome_eq_success_iff.trans (verdict?_eq_success_iff h index)

/-! ## A program that gives back what it gets -/

/-- A program that prints its payload and a line break and exits with success, in both phases. -/
def Echoes (program : Program) : Prop :=
  ∀ phase payload, ∃ answer, program phase payload = .ok answer ∧ answer.ending = .success ∧
    answer.stdout = payload ++ "\n"

/-- The line break is trimmed, and a payload has no blanks of its own. -/
theorem Echoes.writes (h : Echoes program) (phase : Phase) (input : Payload) :
    Writes program phase input.token input.token := by
  obtain ⟨answer, hreply, hending, hstdout⟩ := h phase input.token
  rw [writes_iff_of_not_blank (Base64.isBlank_of_decodedSize input.decodedSize_token)]
  refine ⟨answer, ['\n'], hreply, hending, fun c hc => ?_, hstdout⟩
  rw [List.mem_singleton.mp hc]
  decide

theorem Echoes.course (h : Echoes program) (input : Payload) :
    Course program input (.success input.size (score input.size input.size))
      [(.compress, input.token), (.decompress, input.token)] :=
  .success (h.writes .compress input) input.decodedSize_token input.size_le
    (h.writes .decompress input)

theorem calls_of_echoes (h : Echoes program) {case : TestCase} {input : Payload}
    (hinput : case.payload = .ok input) (index : Nat) :
    (evaluate program index case).calls =
      [(.compress, input.token), (.decompress, input.token)] :=
  ((h.course input).evaluate_eq hinput index).1

/-- A payload that stands for one byte. -/
def Payload.oneByte : Payload where
  token := "QQ=="
  size := 1
  decodedSize_token := by
    rw [Base64.decodedSize, Text.toList_toUTF8]
    rfl
  withinLimit_size := by decide

/-- The second word of a case file is its payload. -/
theorem TestCase.payload_oneByte (name : String) :
    (ofContents name "x QQ==").payload = .ok .oneByte := by
  have hword : Text.wordAt? 1 "x QQ==".toList = some "QQ==".toList := by decide
  rw [ofContents, hword]
  exact Payload.ofToken_token .oneByte

/-- The program that prints its payload and a line break, at once. -/
def echo : Program := fun _ payload => .ok ⟨.success, payload ++ "\n", "", .zero⟩

theorem echoes_echo : Echoes echo := fun _ _ => ⟨_, rfl, rfl, rfl⟩

end CompressorBench
