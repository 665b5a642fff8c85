import CompressorBench.Utilities
import CompressorBench.Proofs.Evaluation.Times
import CompressorBench.Proofs.Text.Utf8

/-!
# What a child process has to write

The output of a child is decoded with replacements and trimmed before it is looked at. Neither step
makes a good output of a bad one: a replacement character is no blank, so it is not trimmed away,
and no base64 text holds one. The condition on the characters is therefore one on the raw bytes.

* `trimEnd_decodeWithReplacement_eq_iff`: bytes decode to an ASCII text and blanks exactly if they
  are the bytes of that text with those of blanks after them.
* `isMeasured_invoke`: the times of children are read from a clock, so they add up.
* `writes_invoke_iff`: what it takes for an invocation to go well, in terms of the child.
* `isSuccess_iff_roundTrip`: what it takes for a case to pass, in terms of the bytes that the two
  children write.
-/

namespace CompressorBench

/-! ## Bytes -/

/-- The bytes are those of a text, with nothing but the bytes of blanks after them. -/
def Spells (text : String) (bytes : ByteArray) : Prop :=
  ∃ blanks : List Char, (∀ c ∈ blanks, Text.isBlank c = true) ∧
    bytes.toList = text.toUTF8.toList ++ Text.encode blanks

theorem isBlank_replacement : Text.isBlank Text.replacement = false := by decide

theorem Spells.isValidUTF8 {text : String} {bytes : ByteArray} (h : Spells text bytes) :
    bytes.IsValidUTF8 := by
  obtain ⟨blanks, -, hbytes⟩ := h
  rw [Text.toList_toUTF8, ← Text.encode_append] at hbytes
  exact Text.isValidUTF8_iff.mpr ⟨_, hbytes⟩

theorem replacement_not_mem_append {cs blanks : List Char} (hascii : ∀ c ∈ cs, c.toNat < 0x80)
    (hblanks : ∀ c ∈ blanks, Text.isBlank c = true) : Text.replacement ∉ cs ++ blanks := by
  intro hmem
  rcases List.mem_append.mp hmem with hmem | hmem
  · exact absurd (hascii _ hmem) (by decide)
  · have hblank := hblanks _ hmem
    rw [isBlank_replacement] at hblank
    cases hblank

/-- **Decoding and trimming add nothing to what the bytes spell.** -/
theorem trimEnd_decodeWithReplacement_eq_iff {text : String} {bytes : ByteArray}
    (hascii : ∀ c ∈ text.toList, c.toNat < 0x80)
    (hblank : ∀ c ∈ text.toList, Text.isBlank c = false) :
    Text.trimEnd (Text.decodeWithReplacement bytes) = text ↔ Spells text bytes := by
  rw [← String.toList_inj, Text.toList_trimEnd, Text.decodeWithReplacement, String.toList_ofList,
    Text.trimEndChars_eq_iff hblank]
  simp only [Spells, Text.toList_toUTF8, ← Text.encode_append]
  constructor
  · rintro ⟨blanks, hblanks, heq⟩
    -- neither the text nor the blanks hold a replacement, so nothing was lost in decoding
    have hmem := replacement_not_mem_append hascii hblanks
    rw [← heq] at hmem
    exact ⟨blanks, hblanks, by rw [← heq, Text.encode_decodeChars bytes.toList hmem]⟩
  · rintro ⟨blanks, hblanks, heq⟩
    exact ⟨blanks, hblanks, by rw [heq, Text.decodeChars_encode]⟩

/-- The text that is left of bytes that are not UTF-8 is never base64. -/
theorem decodedSize_of_not_isValidUTF8 {bytes : ByteArray} (h : ¬ bytes.IsValidUTF8) :
    ∃ error, Base64.decodedSize (Text.trimEnd (Text.decodeWithReplacement bytes)) =
      .error error := by
  have hmem : Text.replacement ∈ (Text.trimEnd (Text.decodeWithReplacement bytes)).toList := by
    rw [Text.toList_trimEnd, Text.decodeWithReplacement, String.toList_ofList]
    exact Text.mem_trimEndChars (Text.replacement_mem_decodeChars h) isBlank_replacement
  cases hsize : Base64.decodedSize (Text.trimEnd (Text.decodeWithReplacement bytes)) with
  | error error => exact ⟨error, rfl⟩
  | ok size => exact absurd (Base64.isAscii_of_decodedSize hsize _ hmem) (by decide)

/-! ## Children -/

/-- A process ends well: by itself, with an exit code whose low eight bits are zero, and before the
time limit, as do its two outputs and the writing of its input. Whether it read its input does not
matter. -/
structure EndsWell (limit : Duration) (run : ChildRun) : Prop where
  inputOver : ClockTime.IsWithin limit run.inputOver?
  stdoutOver : ClockTime.IsWithin limit run.stdoutOver?
  stderrOver : ClockTime.IsWithin limit run.stderrOver?
  exitAt : ClockTime.IsWithin limit run.exitAt?
  ending : ∃ code, run.ending = .exited code ∧ code % 256 = 0

theorem isWithin_over?_iff {limit : Duration} {run : ChildRun} :
    ClockTime.IsWithin limit run.over? ↔
      (ClockTime.IsWithin limit run.inputOver? ∧ ClockTime.IsWithin limit run.stdoutOver?) ∧
        ClockTime.IsWithin limit run.stderrOver? ∧ ClockTime.IsWithin limit run.exitAt? := by
  simp only [ChildRun.over?, ClockTime.isWithin_later?]

theorem endsWell_iff {limit : Duration} {run : ChildRun} :
    EndsWell limit run ↔ ClockTime.IsWithin limit run.over? ∧
      ∃ code, run.ending = .exited code ∧ code % 256 = 0 := by
  rw [isWithin_over?_iff]
  constructor
  · rintro ⟨hinput, hstdout, hstderr, hexit, hending⟩
    exact ⟨⟨⟨hinput, hstdout⟩, hstderr, hexit⟩, hending⟩
  · rintro ⟨⟨⟨hinput, hstdout⟩, hstderr, hexit⟩, hending⟩
    exact ⟨hinput, hstdout, hstderr, hexit, hending⟩

theorem communicate_eq_ok (run : ChildRun) : Runner.communicate run = .ok () := by
  unfold Runner.communicate Runner.writeInput
  cases run.readsInput <;> rfl

theorem endingOf_eq_success_iff {ending : ChildEnding} :
    Runner.endingOf ending = .success ↔ ∃ code, ending = .exited code ∧ code % 256 = 0 := by
  cases ending with
  | signalled signal => simp [Runner.endingOf]
  | exited code =>
    rw [Runner.endingOf]
    split
    · next h => simp [h]
    · next h => simp [h]

/-- A run that is not over within the limit is stopped. -/
theorem replyOf_of_not_isWithin {limit : Duration} {run : ChildRun}
    (h : ¬ ClockTime.IsWithin limit run.over?) :
    Runner.replyOf limit run = .ok (Runner.stoppedAnswer limit) := by
  unfold Runner.replyOf
  cases hover : run.over? with
  | none => rfl
  | some moment =>
    have hlate : limit.nanoseconds ≤ moment.duration.nanoseconds := by
      rw [hover] at h
      exact Nat.not_lt.mp fun hlt => h ⟨moment, rfl, hlt⟩
    exact if_pos hlate

/-- A run that is over within the limit is answered. -/
theorem replyOf_of_isWithin {limit : Duration} {run : ChildRun}
    (h : ClockTime.IsWithin limit run.over?) :
    ∃ moment : ClockTime, Runner.replyOf limit run =
      .ok ⟨Runner.endingOf run.ending, Text.decodeWithReplacement run.stdout,
        Text.decodeWithReplacement run.stderr, moment.duration⟩ := by
  obtain ⟨moment, hover, hlt⟩ := h
  refine ⟨moment, ?_⟩
  unfold Runner.replyOf
  rw [hover, communicate_eq_ok]
  exact if_neg (Nat.not_le.mpr hlt)

theorem replyOf_eq_success_iff {limit : Duration} {run : ChildRun} {output : String} :
    (∃ answer, Runner.replyOf limit run = .ok answer ∧ answer.ending = .success ∧
        answer.stdout = output) ↔
      EndsWell limit run ∧ Text.decodeWithReplacement run.stdout = output := by
  rw [endsWell_iff, ← endingOf_eq_success_iff]
  by_cases hwithin : ClockTime.IsWithin limit run.over?
  · obtain ⟨moment, hreply⟩ := replyOf_of_isWithin hwithin
    simp [hreply, hwithin]
  · simp [replyOf_of_not_isWithin hwithin, hwithin, Runner.stoppedAnswer]

/-- The run of a started child for a phase with a payload. -/
def childRun (start : ByteArray → ChildRun) (phase : Phase) (payload : String) : ChildRun :=
  start (Runner.inputFor phase payload).toUTF8

variable {runner : Runner} {machine : Machine} {phase : Phase} {payload : String}

theorem invoke_of_launch {start : ByteArray → ChildRun}
    (h : machine.launch runner.command runner.arguments = .ok start) :
    runner.invoke machine phase payload =
      Runner.replyOf runner.limit (childRun start phase payload) := by
  simp only [Runner.invoke, Runner.run, h, childRun]

theorem invoke_of_launch_error {error : OsError}
    (h : machine.launch runner.command runner.arguments = .error error) :
    runner.invoke machine phase payload = .error (Runner.launchFailure runner.command error) := by
  simp only [Runner.invoke, Runner.run, h]

/-- A clock tells how long a process took. -/
theorem isMeasured_invoke (runner : Runner) (machine : Machine) :
    (runner.invoke machine).IsMeasured := by
  intro phase payload answer hreply
  cases hlaunch : machine.launch runner.command runner.arguments with
  | error error =>
    rw [invoke_of_launch_error hlaunch] at hreply
    cases hreply
  | ok start =>
    rw [invoke_of_launch hlaunch] at hreply
    by_cases hwithin : ClockTime.IsWithin runner.limit (childRun start phase payload).over?
    · obtain ⟨moment, hover⟩ := replyOf_of_isWithin hwithin
      cases hover.symm.trans hreply
      exact ⟨moment, rfl⟩
    · cases (replyOf_of_not_isWithin hwithin).symm.trans hreply
      exact ⟨.after runner.limit, rfl⟩

/-- **What it takes for an invocation to go well**: the command can be launched, and its process
ends well with an output that decodes to the text and blanks. -/
theorem writes_invoke_iff {text : String} :
    Writes (runner.invoke machine) phase payload text ↔
      ∃ start, machine.launch runner.command runner.arguments = .ok start ∧
        EndsWell runner.limit (childRun start phase payload) ∧
        Text.trimEnd (Text.decodeWithReplacement (childRun start phase payload).stdout) = text := by
  cases hlaunch : machine.launch runner.command runner.arguments with
  | error e => simp [Writes, Runner.invoke, Runner.run, hlaunch]
  | ok start =>
    rw [Writes, invoke_of_launch hlaunch]
    constructor
    · rintro ⟨answer, hreply, hending, htext⟩
      obtain ⟨hends, houtput⟩ := replyOf_eq_success_iff.mp ⟨answer, hreply, hending, rfl⟩
      exact ⟨start, rfl, hends, by rw [houtput, htext]⟩
    · rintro ⟨_, heq, hends, htext⟩
      cases heq
      obtain ⟨answer, hreply, hending, houtput⟩ := replyOf_eq_success_iff.mpr ⟨hends, rfl⟩
      exact ⟨answer, hreply, hending, by rw [houtput, htext]⟩

/-- For a base64 text this is a condition on the raw bytes. -/
theorem writes_invoke_iff_spells {text : String} {size : Nat}
    (hsize : Base64.decodedSize text = .ok size) :
    Writes (runner.invoke machine) phase payload text ↔
      ∃ start, machine.launch runner.command runner.arguments = .ok start ∧
        EndsWell runner.limit (childRun start phase payload) ∧
        Spells text (childRun start phase payload).stdout := by
  simp only [writes_invoke_iff, trimEnd_decodeWithReplacement_eq_iff
    (Base64.isAscii_of_decodedSize hsize) (Base64.isBlank_of_decodedSize hsize)]

/-! ## Round trips -/

/-- What the children of a round trip have to do: the first one gets the payload and spells an
accepted text, and the second one gets that text and spells the payload. -/
def RoundTrip (limit : Duration) (start : ByteArray → ChildRun) (input compressed : Payload) :
    Prop :=
  (EndsWell limit (childRun start .compress input.token) ∧
    Spells compressed.token (childRun start .compress input.token).stdout) ∧
  EndsWell limit (childRun start .decompress compressed.token) ∧
    Spells input.token (childRun start .decompress compressed.token).stdout

theorem isSuccess_iff_roundTrip {case : TestCase} {input : Payload} (h : case.payload = .ok input)
    (index : Nat) :
    (evaluate (runner.invoke machine) index case).outcome.verdict.isSuccess = true ↔
      ∃ start, machine.launch runner.command runner.arguments = .ok start ∧
        ∃ compressed, RoundTrip runner.limit start input compressed := by
  constructor
  · intro hsuccess
    cases hverdict : (evaluate (runner.invoke machine) index case).outcome.verdict with
    | success size points =>
      obtain ⟨-, hle, text, hwrites, hsize, hback, -⟩ :=
        (verdict_eq_success_iff h index).mp hverdict
      obtain ⟨compressed, rfl, -⟩ := Payload.exists_of_decodedSize hsize hle
      rw [writes_invoke_iff_spells hsize] at hwrites
      rw [writes_invoke_iff_spells input.decodedSize_token] at hback
      obtain ⟨start, hlaunch, hcompress⟩ := hwrites
      obtain ⟨start', hlaunch', hdecompress⟩ := hback
      rw [hlaunch] at hlaunch'
      cases hlaunch'
      exact ⟨start, hlaunch, compressed, hcompress, hdecompress⟩
    | _ => rw [hverdict] at hsuccess; cases hsuccess
  · rintro ⟨start, hlaunch, compressed, hcompress, hdecompress⟩
    have hwrites := (writes_invoke_iff_spells compressed.decodedSize_token).mpr
      ⟨start, hlaunch, hcompress⟩
    have hback := (writes_invoke_iff_spells input.decodedSize_token).mpr
      ⟨start, hlaunch, hdecompress⟩
    have hverdict := (verdict_eq_success_iff h index).mpr
      ⟨rfl, compressed.size_le, _, hwrites, compressed.decodedSize_token, hback,
        (isMeasured_invoke runner machine).timesFit_pair _ _⟩
    rw [hverdict]
    rfl

/-- Every child that was run for a case that passed wrote UTF-8. -/
theorem isValidUTF8_of_isSuccess {case : TestCase} {input : Payload}
    (h : case.payload = .ok input) {index : Nat} {start : ByteArray → ChildRun}
    (hlaunch : machine.launch runner.command runner.arguments = .ok start)
    (hsuccess : (evaluate (runner.invoke machine) index case).outcome.verdict.isSuccess = true) :
    ∀ call ∈ (evaluate (runner.invoke machine) index case).calls,
      (childRun start call.1 call.2).stdout.IsValidUTF8 := by
  obtain ⟨_, heq, compressed, hcompress, hdecompress⟩ :=
    (isSuccess_iff_roundTrip h index).mp hsuccess
  rw [hlaunch] at heq
  cases heq
  have hcourse : Course (runner.invoke machine) input _ _ :=
    .success
      ((writes_invoke_iff_spells compressed.decodedSize_token).mpr ⟨start, hlaunch, hcompress⟩)
      compressed.decodedSize_token compressed.size_le
      ((writes_invoke_iff_spells input.decodedSize_token).mpr ⟨start, hlaunch, hdecompress⟩)
  rw [(hcourse.evaluate_eq h index).1]
  intro call hcall
  rcases List.mem_cons.mp hcall with rfl | hcall
  · exact hcompress.2.isValidUTF8
  · rw [List.mem_singleton.mp hcall]
    exact hdecompress.2.isValidUTF8

/-- An output of the compression that is not UTF-8 is no base64, and the decompression is not
started. -/
theorem evaluate_of_not_isValidUTF8 {case : TestCase} {input : Payload}
    (h : case.payload = .ok input) (index : Nat) {start : ByteArray → ChildRun}
    (hlaunch : machine.launch runner.command runner.arguments = .ok start)
    (hends : EndsWell runner.limit (childRun start .compress input.token))
    (hinvalid : ¬ (childRun start .compress input.token).stdout.IsValidUTF8) :
    (evaluate (runner.invoke machine) index case).outcome.verdict =
        .presentationError (.output .compress) .invalidBase64 ∧
      (evaluate (runner.invoke machine) index case).calls = [(.compress, input.token)] := by
  obtain ⟨error, hsize⟩ := decodedSize_of_not_isValidUTF8 hinvalid
  have hwrites := writes_invoke_iff.mpr ⟨start, hlaunch, hends, rfl⟩
  obtain ⟨hcalls, hverdict⟩ := (Course.notBase64 hwrites hsize).evaluate_eq h index
  exact ⟨Evaluation.verdict_outcome (hverdict (timesFit_singleton _ _)), hcalls⟩

/-- What cannot be launched fails in the first invocation. -/
theorem verdict_of_launch_error {error : OsError}
    (hlaunch : machine.launch runner.command runner.arguments = .error error) {case : TestCase}
    {input : Payload} (h : case.payload = .ok input) (index : Nat) :
    (evaluate (runner.invoke machine) index case).outcome.verdict =
      .runtimeError .compress none := by
  have hcourse : Course (runner.invoke machine) input _ _ :=
    .compressionFails (.failure (invoke_of_launch_error hlaunch))
  exact Evaluation.verdict_outcome ((hcourse.evaluate_eq h index).2 (timesFit_singleton _ _))

/-! ## A program with a fixed output -/

/-- A computer with one program, which reads nothing and writes the same whatever it is given. -/
def Machine.ofOutput (output : ByteArray) : Machine where
  tree := ⟨[("fixed", .file ⟨#[]⟩ true)], [], .directory (by decide) (by simp [Node.Proper.file])⟩
  behaviour _ _ _ :=
    { readsInput := false, stdout := output, stderr := ⟨#[]⟩, ending := .exited 256
      inputOver? := some .start, stdoutOver? := some .start, stderrOver? := some .start
      exitAt? := some .start, files := id }
  commands _ := .error .notFound

theorem launch_ofOutput (output : ByteArray) :
    (Machine.ofOutput output).launch "/fixed" [] =
      .ok ((Machine.ofOutput output).behaviour ⟨#[]⟩ []) := by
  have hresolve : (Machine.ofOutput output).tree.resolve .reach "/fixed" =
      .ok (.occupied ["fixed"] (.file ⟨#[]⟩ true)) := by
    have hsteps : Pathname.steps "/fixed" = ["fixed"] := by decide +kernel
    rw [FileTree.resolve, hsteps, FileTree.walk]
    rfl
  have hfind : (Machine.ofOutput output).findExecutable "/fixed" = .ok ⟨#[]⟩ := by
    rw [Machine.findExecutable, if_pos (by decide +kernel), FileTree.executable, hresolve]
  rw [Machine.launch, hfind]
  rfl

/-! ## The raw bytes decide -/

/-- **The raw bytes of the two children decide whether a case passes.** The compression has to spell
an accepted text, and the decompression, which gets this text, has to spell the payload; both are
ASCII. Bytes that are not UTF-8 never lead to success, and from the compression they lead to one
verdict before the decompression is started. -/
theorem success_by_raw_bytes {machine : Machine} {runner : Runner} {index : Nat} {case : TestCase}
    {input : Payload} (h : case.payload = .ok input) :
    (∀ c ∈ input.token.toList, c.toNat < 0x80) ∧
    ((evaluate (runner.invoke machine) index case).outcome.verdict.isSuccess = true ↔
      ∃ start, machine.launch runner.command runner.arguments = .ok start ∧
        ∃ compressed : Payload, (∀ c ∈ compressed.token.toList, c.toNat < 0x80) ∧
          RoundTrip runner.limit start input compressed) ∧
    ∀ start, machine.launch runner.command runner.arguments = .ok start →
      ((evaluate (runner.invoke machine) index case).outcome.verdict.isSuccess = true →
        ∀ call ∈ (evaluate (runner.invoke machine) index case).calls,
          (childRun start call.1 call.2).stdout.IsValidUTF8) ∧
      (EndsWell runner.limit (childRun start .compress input.token) →
        ¬ (childRun start .compress input.token).stdout.IsValidUTF8 →
        (evaluate (runner.invoke machine) index case).outcome.verdict =
            .presentationError (.output .compress) .invalidBase64 ∧
          (evaluate (runner.invoke machine) index case).calls = [(.compress, input.token)]) := by
  refine ⟨Base64.isAscii_of_decodedSize input.decodedSize_token, ?_, fun start hlaunch =>
    ⟨isValidUTF8_of_isSuccess h hlaunch, evaluate_of_not_isValidUTF8 h index hlaunch⟩⟩
  rw [isSuccess_iff_roundTrip h]
  constructor
  · rintro ⟨start, hlaunch, compressed, htrip⟩
    exact ⟨start, hlaunch, compressed, Base64.isAscii_of_decodedSize compressed.decodedSize_token,
      htrip⟩
  · rintro ⟨start, hlaunch, compressed, -, htrip⟩
    exact ⟨start, hlaunch, compressed, htrip⟩

/-- A payload passes through a program that writes its text and a line feed, and not through one
that writes a byte that is never part of UTF-8. -/
theorem success_of_fixed_output :
    (evaluate (Runner.invoke ⟨"/fixed", [], Runner.defaultLimit⟩ (.ofOutput "QQ==\n".toUTF8)) 1
      ⟨"case", .ok .oneByte⟩).outcome.verdict.isSuccess = true ∧
    (evaluate (Runner.invoke ⟨"/fixed", [], Runner.defaultLimit⟩ (.ofOutput ⟨#[0xFF]⟩)) 1
      ⟨"case", .ok .oneByte⟩).calls = [(.compress, "QQ==")] := by
  have hstart : ClockTime.IsWithin Runner.defaultLimit (some .start) := ⟨.start, rfl, by decide⟩
  have hends : ∀ output,
      EndsWell Runner.defaultLimit ((Machine.ofOutput output).behaviour ⟨#[]⟩ [] ⟨#[]⟩) :=
    fun output => ⟨hstart, hstart, hstart, hstart, 256, rfl, rfl⟩
  have hspells : Spells "QQ==" "QQ==\n".toUTF8 := by
    refine ⟨['\n'], fun c hc => ?_, by decide +kernel⟩
    rw [List.mem_singleton.mp hc]
    decide
  have hinvalid : ¬ (ByteArray.mk #[0xFF]).IsValidUTF8 := by decide +kernel
  have h := fun output => @success_by_raw_bytes (.ofOutput output)
    ⟨"/fixed", [], Runner.defaultLimit⟩ 1 ⟨"case", .ok .oneByte⟩ .oneByte rfl
  constructor
  · obtain ⟨hascii, hsuccess, -⟩ := h "QQ==\n".toUTF8
    exact hsuccess.mpr
      ⟨_, launch_ofOutput _, .oneByte, hascii, ⟨hends _, hspells⟩, hends _, hspells⟩
  · obtain ⟨-, -, hbytes⟩ := h ⟨#[0xFF]⟩
    exact ((hbytes _ (launch_ofOutput _)).2 (hends _) hinvalid).2

/-! ## A process that ends before its output does -/

/-- A computer without files, whose search path leads to the programs of the system. -/
def Machine.ofUtilities : Machine where
  tree := FileTree.empty
  behaviour := Utilities.behaviour Utilities.split
  commands := Utilities.commands

/-- The shell with a script that leaves a command behind, which holds the outputs open. -/
def Runner.ofOpenOutput : Runner where
  command := "sh"
  arguments := ["-c", "sleep 2 & echo QQ=="]
  limit := .ofMilliseconds 500

/-- What the script does, whatever its input is. -/
def ChildRun.ofOpenOutput : ChildRun := Utilities.shell ["-c", "sleep 2 & echo QQ=="] ⟨#[]⟩

theorem launch_ofOpenOutput :
    Machine.ofUtilities.launch Runner.ofOpenOutput.command Runner.ofOpenOutput.arguments =
      .ok fun _ => .ofOpenOutput := by
  have hfind : Machine.ofUtilities.findExecutable "sh" = .ok Utilities.shellContents := by
    rw [Machine.findExecutable, if_neg (by decide +kernel)]
    rfl
  rw [Runner.ofOpenOutput, Machine.launch, hfind]
  rfl

/-- **A process that has ended at once and written the right bytes is stopped all the same** if its
output does not come to an end in time. -/
theorem stopped_with_open_output :
    Machine.ofUtilities.launch Runner.ofOpenOutput.command Runner.ofOpenOutput.arguments =
        .ok (fun _ => .ofOpenOutput) ∧
      ClockTime.IsWithin Runner.ofOpenOutput.limit ChildRun.ofOpenOutput.exitAt? ∧
      ChildRun.ofOpenOutput.ending = .exited 0 ∧
      Spells Payload.oneByte.token ChildRun.ofOpenOutput.stdout ∧
      (evaluate (Runner.ofOpenOutput.invoke .ofUtilities) 1 ⟨"a", .ok .oneByte⟩).verdict? =
        some (.timeLimitExceeded .compress) := by
  have hstdout : ChildRun.ofOpenOutput.stdout = "QQ==\n".toUTF8 := by decide +kernel
  have hspells : Spells Payload.oneByte.token ChildRun.ofOpenOutput.stdout := by
    rw [hstdout]
    exact ⟨['\n'], List.forall_mem_singleton.mpr rfl, by decide +kernel⟩
  have hopen : ChildRun.ofOpenOutput.stdoutOver? = some (.after (.ofMilliseconds 2002)) := by
    decide +kernel
  have hlate : ¬ ClockTime.IsWithin Runner.ofOpenOutput.limit ChildRun.ofOpenOutput.over? := by
    rw [isWithin_over?_iff, hopen]
    rintro ⟨⟨-, time, htime, hlt⟩, -⟩
    cases htime
    exact absurd hlt (by decide +kernel)
  have hreply : Runner.ofOpenOutput.invoke .ofUtilities .compress Payload.oneByte.token =
      .ok (Runner.stoppedAnswer Runner.ofOpenOutput.limit) :=
    (invoke_of_launch launch_ofOpenOutput).trans (replyOf_of_not_isWithin hlate)
  have hcourse : Course (Runner.ofOpenOutput.invoke .ofUtilities) .oneByte _ _ :=
    .compressionFails (.timedOut hreply rfl)
  exact ⟨launch_ofOpenOutput, ⟨.after (.ofMilliseconds 2), by decide +kernel, by decide +kernel⟩,
    by decide +kernel, hspells, (hcourse.evaluate_eq rfl 1).2 (timesFit_singleton _ _)⟩

end CompressorBench
