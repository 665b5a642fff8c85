import CompressorBench.Discovery
import CompressorBench.Proofs.Evaluation.Course

/-!
# The fields of an outcome go together

An outcome is put together on the way through an evaluation, which is left at many places. Wherever
that happens, the sizes are those that the verdict is about, and no size is known that was not
found out (`SizesFit`). A report relies on this.

Which sizes can occur at all is a matter of the file too: a payload is a word, so it stands for at
least one byte, and a case that was refused as too large is larger than the limit
(`TestCase.IsSound`).

* `compressedSize?_eq_some_iff`: the compressed size is known if the compression wrote base64.
* `coherent_of_file`: all of it, for the case of any file and any program.
-/

namespace CompressorBench

variable {program : Program} {index : Nat} {case : TestCase} {input : Payload}

/-! ## Cases of files -/

namespace TestCase

/-- What holds of the payload of a case that comes from a file. -/
structure IsSound (case : TestCase) : Prop where
  size_pos : ∀ input, case.payload = .ok input → 1 ≤ input.size
  size_gt : ∀ size, case.payload = .error (.tooLarge size) → maxPayloadSize < size

theorem isSound_ofContents (name contents : String) : (ofContents name contents).IsSound := by
  unfold ofContents
  split
  · exact ⟨nofun, nofun⟩
  · next word hword =>
    rw [Text.wordAt?_eq_getElem?] at hword
    have hne := Text.ne_nil_of_mem_words (List.mem_of_getElem? hword)
    refine ⟨fun input hinput => ?_, fun size hsize => ?_⟩
    · have hpos := Payload.decodedSize_of_ofToken hinput
      exact Base64.pos_of_decodedSize (by rwa [String.toList_ofList]) hpos
    · rcases Payload.ofToken_eq_error_iff.mp hsize with ⟨hdefect, -⟩ | ⟨_, hdefect, -, hlarge⟩
      · cases hdefect
      · cases hdefect
        exact hlarge

theorem isSound_load (tree : FileTree) (path : String) : (load tree path).IsSound := by
  unfold load
  split
  · exact isSound_ofContents _ _
  · exact ⟨nofun, nofun⟩

end TestCase

/-! ## The compressed size -/

/-- **The size is known if the compression went well and wrote base64**, whether or not that is
within the limit. -/
theorem Position.compressedSize?_afterCompression {size : Nat} :
    (afterCompression input (program .compress input.token)).compressedSize? = some size ↔
      ∃ text, Writes program .compress input.token text ∧ Base64.decodedSize text = .ok size := by
  unfold afterCompression
  split
  · next hfails =>
    rw [outputText_eq_error_iff] at hfails
    simp [compressedSize?, hfails.not_writes]
  · next text hwrites =>
    rw [outputText_eq_ok_iff] at hwrites
    -- there is no other text that the compression writes
    have honly : (∃ other, Writes program .compress input.token other ∧
        Base64.decodedSize other = .ok size) ↔ Base64.decodedSize text = .ok size := by
      constructor
      · rintro ⟨other, hother, hsize⟩
        rwa [hwrites.unique hother]
      · exact fun hsize => ⟨text, hwrites, hsize⟩
    rw [honly]
    split
    · next compressed hofToken =>
      rw [Payload.decodedSize_of_ofToken hofToken]
      simp [compressedSize?]
    · next defect hofToken =>
      rcases Payload.ofToken_eq_error_iff.mp hofToken with ⟨rfl, error, herror⟩ | ⟨_, rfl, hok, -⟩
      · rw [herror]
        simp [compressedSize?, Defect.size?]
      · rw [hok]
        simp [compressedSize?, Defect.size?]

/-- The decompression leaves the size as it is, however it ends. -/
theorem compressedSize?_evaluate (h : case.payload = .ok input) (program : Program)
    (index : Nat) :
    (evaluate program index case).outcome.compressedSize? =
      (Position.afterCompression input (program .compress input.token)).compressedSize? := by
  have hevaluated := evaluated_evaluate h program index
  generalize evaluate program index case = evaluation at hevaluated ⊢
  cases hevaluated with
  | once hafter => rw [hafter]; rfl
  | twice hafter => rw [hafter]; rfl
  | broken hafter => rw [hafter]; rfl

theorem compressedSize?_eq_some_iff (h : case.payload = .ok input) (index : Nat) {size : Nat} :
    (evaluate program index case).outcome.compressedSize? = some size ↔
      ∃ text, Writes program .compress input.token text ∧ Base64.decodedSize text = .ok size := by
  rw [compressedSize?_evaluate h, Position.compressedSize?_afterCompression]

theorem compressedSize?_of_writes {text : String} {size : Nat} (h : case.payload = .ok input)
    (hwrites : Writes program .compress input.token text)
    (hsize : Base64.decodedSize text = .ok size) (index : Nat) :
    (evaluate program index case).outcome.compressedSize? = some size :=
  (compressedSize?_eq_some_iff h index).mpr ⟨text, hwrites, hsize⟩

theorem compressedSize?_eq_none_iff (h : case.payload = .ok input) (index : Nat) :
    (evaluate program index case).outcome.compressedSize? = none ↔
      ∀ text size, Writes program .compress input.token text →
        Base64.decodedSize text ≠ .ok size := by
  rw [Option.eq_none_iff_forall_ne_some]
  simp only [ne_eq, compressedSize?_eq_some_iff h, not_exists, not_and]
  exact forall_comm

/-- Nothing is compressed of a case that was rejected. -/
theorem compressedSize?_of_error {defect : Defect} (h : case.payload = .error defect)
    (program : Program) (index : Nat) :
    (evaluate program index case).outcome.compressedSize? = none := by
  rw [evaluate_of_rejected h]
  rfl

/-! ## The sizes that belong to a verdict -/

/-- A size is known, and it is that of an accepted case. -/
def IsAccepted (size? : Option Nat) : Prop :=
  ∃ size, size? = some size ∧ 1 ≤ size ∧ size ≤ maxPayloadSize

/-- A size is known and within the limit. -/
def IsWithin (size? : Option Nat) : Prop := ∃ size, size? = some size ∧ size ≤ maxPayloadSize

/-- **Which sizes go with a verdict.** There is one row for each way out of an evaluation; the last
row holds the verdicts that none of them leads to. -/
def SizesFit (inputSize? compressedSize? : Option Nat) : Verdict → Prop
  | .success size _ =>
    IsAccepted inputSize? ∧ compressedSize? = some size ∧ size ≤ maxPayloadSize
  | .wrongAnswer => IsAccepted inputSize? ∧ IsWithin compressedSize?
  | .timeLimitExceeded .compress => IsAccepted inputSize? ∧ compressedSize? = none
  | .timeLimitExceeded .decompress => IsAccepted inputSize? ∧ IsWithin compressedSize?
  | .runtimeError .compress _ => IsAccepted inputSize? ∧ compressedSize? = none
  | .runtimeError .decompress _ => IsAccepted inputSize? ∧ IsWithin compressedSize?
  | .presentationError .input (.tooLarge size) =>
    inputSize? = some size ∧ maxPayloadSize < size ∧ compressedSize? = none
  | .presentationError .input _ => inputSize? = none ∧ compressedSize? = none
  | .presentationError (.output .compress) .invalidBase64 =>
    IsAccepted inputSize? ∧ compressedSize? = none
  | .presentationError (.output .compress) (.tooLarge size) =>
    IsAccepted inputSize? ∧ compressedSize? = some size ∧ maxPayloadSize < size
  | .presentationError (.output _) _ => False

theorem TestCase.IsSound.isAccepted (hsound : case.IsSound) (h : case.payload = .ok input) :
    IsAccepted case.size? := by
  refine ⟨input.size, ?_, hsound.size_pos input h, input.size_le⟩
  rw [TestCase.size?, h]

/-- Every course of an evaluation leaves the sizes as they belong to its verdict. -/
theorem Course.sizesFit {verdict : Verdict} {calls : List (Phase × String)}
    (hcourse : Course program input verdict calls) (h : case.payload = .ok input)
    (hsound : case.IsSound) (index : Nat) :
    SizesFit case.size? (evaluate program index case).outcome.compressedSize? verdict := by
  have haccepted := hsound.isAccepted h
  cases hcourse with
  | compressionFails hfails =>
    have hnone := (compressedSize?_eq_none_iff h index).mpr fun text size hwrites =>
      absurd hwrites hfails.not_writes
    cases hfails with
    | failure => exact ⟨haccepted, hnone⟩
    | timedOut => exact ⟨haccepted, hnone⟩
    | failed => exact ⟨haccepted, hnone⟩
  | notBase64 hwrites herror =>
    have hnone := (compressedSize?_eq_none_iff h index).mpr fun other size hother hsize => by
      rw [← hwrites.unique hother, herror] at hsize
      cases hsize
    exact ⟨haccepted, hnone⟩
  | tooLarge hwrites hsize hlarge =>
    have hsome := compressedSize?_of_writes h hwrites hsize index
    exact ⟨haccepted, hsome, hlarge⟩
  | decompressionFails hwrites hsize hle hfails =>
    have hwithin : IsWithin (evaluate program index case).outcome.compressedSize? :=
      ⟨_, compressedSize?_of_writes h hwrites hsize index, hle⟩
    cases hfails with
    | failure => exact ⟨haccepted, hwithin⟩
    | timedOut => exact ⟨haccepted, hwithin⟩
    | failed => exact ⟨haccepted, hwithin⟩
  | wrongAnswer hwrites hsize hle =>
    have hsome := compressedSize?_of_writes h hwrites hsize index
    exact ⟨haccepted, _, hsome, hle⟩
  | success hwrites hsize hle =>
    have hsome := compressedSize?_of_writes h hwrites hsize index
    exact ⟨haccepted, hsome, hle⟩

theorem sizesFit_of_error {defect : Defect} (h : case.payload = .error defect)
    (hsound : case.IsSound) (program : Program) (index : Nat) :
    SizesFit case.size? (evaluate program index case).outcome.compressedSize?
      (.presentationError .input defect) := by
  have hnone := compressedSize?_of_error h program index
  have hsize : case.size? = defect.size? := by rw [TestCase.size?, h]
  cases defect with
  | tooLarge size => exact ⟨hsize, hsound.size_gt size h, hnone⟩
  | invalidBase64 => exact ⟨hsize, hnone⟩
  | unreadableFile message => exact ⟨hsize, hnone⟩
  | missingPayload => exact ⟨hsize, hnone⟩

theorem sizesFit_of_ok (h : case.payload = .ok input) (hsound : case.IsSound)
    (program : Program) (index : Nat) :
    SizesFit case.size? (evaluate program index case).outcome.compressedSize?
      (evaluate program index case).outcome.verdict := by
  cases hbroken : (evaluate program index case).isBroken with
  | false => exact (course_outcome h hbroken).sizesFit h hsound index
  | true =>
    obtain ⟨compressed, hwrites, -, hverdict⟩ := record_of_isBroken h hbroken
    have hsome := compressedSize?_of_writes h hwrites compressed.decodedSize_token index
    rw [hverdict]
    exact ⟨hsound.isAccepted h, _, hsome, compressed.size_le⟩

/-! ## The outcome as a whole -/

/-- The fields of the outcome of a case go together with each other, with the case, and with what
the program did. -/
structure Coherent (program : Program) (case : TestCase) (evaluation : Evaluation) : Prop where
  inputSize : evaluation.outcome.inputSize? = case.size?
  sizesFit : SizesFit evaluation.outcome.inputSize? evaluation.outcome.compressedSize?
    evaluation.outcome.verdict
  compressedSize : ∀ size, evaluation.outcome.compressedSize? = some size ↔
    ∃ input text, case.payload = .ok input ∧ Writes program .compress input.token text ∧
      Base64.decodedSize text = .ok size
  /-- The outcome is handed out exactly if the times of the invocations add up. -/
  returned : evaluation.isBroken = false ↔ TimesFit program evaluation.calls
  elapsed : evaluation.isBroken = false →
    evaluation.outcome.elapsed.nanoseconds = nanosecondsOf program evaluation.calls

theorem coherent_of_isSound (hsound : case.IsSound) (program : Program) (index : Nat) :
    Coherent program case (evaluate program index case) where
  inputSize := by
    show (evaluate program index case).case.size? = case.size?
    rw [case_evaluate]
  sizesFit := by
    show SizesFit (evaluate program index case).case.size? _ _
    rw [case_evaluate]
    cases h : case.payload with
    | error defect =>
      rw [(evaluate_of_error h program index).1]
      exact sizesFit_of_error h hsound program index
    | ok input => exact sizesFit_of_ok h hsound program index
  compressedSize size := by
    cases h : case.payload with
    | error defect => simp [compressedSize?_of_error h]
    | ok input => simp [compressedSize?_eq_some_iff h]
  returned := isBroken_evaluate_eq_false_iff program index case
  elapsed := elapsed_evaluate

/-- **Whatever a file holds and whatever the program does, the fields of the outcome go together.**
The compressed size is known if and only if the compression wrote base64; it is beyond the limit for
one verdict only, and every other verdict has the sizes of its row. The time is that of the
invocations that were made, and there is an outcome unless that is longer than a duration can be. -/
theorem coherent_of_file (program : Program) (index : Nat) (tree : FileTree)
    (path name contents : String) :
    Coherent program (TestCase.load tree path)
        (evaluate program index (TestCase.load tree path)) ∧
      Coherent program (TestCase.ofContents name contents)
        (evaluate program index (TestCase.ofContents name contents)) :=
  ⟨coherent_of_isSound (TestCase.isSound_load tree path) program index,
    coherent_of_isSound (TestCase.isSound_ofContents name contents) program index⟩

end CompressorBench
