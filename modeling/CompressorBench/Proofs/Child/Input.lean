import CompressorBench.Proofs.Child.Bytes
import CompressorBench.Proofs.Files.Listing
import CompressorBench.Proofs.Pool.Permits
import CompressorBench.Script

/-!
# What a child is given

The standard input of a child is the phase, a line feed and the payload. It can be taken apart again
because an accepted payload holds no blank, whether it comes from a case file or was written by the
program under test, and it is passed on as it was written. This holds in every run, also if the
program does something else each time it is invoked.

* `framed_token`: the input for an accepted payload can be taken apart.
* `Evaluation.Converses.step`: what was exchanged in an evaluation, and where it stands after that.
* `Pool.Records.step`: the same for all evaluations of a pool.
* `Pool.every_input_is_framed`: what holds of all invocations of a run.
-/

namespace CompressorBench

/-! ## Taking an input apart -/

theorem lineFeed_not_mem {text : String} {size : Nat} (h : Base64.decodedSize text = .ok size) :
    (0x0A : UInt8) ∉ text.toUTF8.toList := by
  intro hmem
  have hdigit := Base64.isDigit_of_decodedSizeBytes h 0x0A hmem
  exact absurd hdigit (by decide)

theorem lineFeed_not_mem_tag (phase : Phase) : (0x0A : UInt8) ∉ phase.tag.toUTF8.toList := by
  rw [Text.toList_toUTF8]
  cases phase <;> decide

theorem toList_append (a b : ByteArray) : (a ++ b).toList = a.toList ++ b.toList := by
  simp [Text.toList_eq_data]

theorem toUTF8_inputFor (phase : Phase) (payload : String) :
    (Runner.inputFor phase payload).toUTF8 =
      phase.tag.toUTF8 ++ ByteArray.mk #[0x0A] ++ payload.toUTF8 := by
  simp [Runner.inputFor]
  rfl

/-- **An input is split where its first line feed is.** -/
theorem splitInput_append {before : ByteArray} (h : (0x0A : UInt8) ∉ before.toList)
    (after : ByteArray) :
    Script.splitInput (before ++ ByteArray.mk #[0x0A] ++ after) = (before, after) := by
  have hfind : (before ++ ByteArray.mk #[0x0A] ++ after).toList.findIdx? (· == 0x0A) =
      some before.size := by
    have hnone : before.toList.findIdx? (· == 0x0A) = none := by
      refine List.findIdx?_eq_none_iff.mpr fun byte hbyte => ?_
      exact beq_eq_false_iff_ne.mpr (ne_of_mem_of_not_mem hbyte h)
    have hsize : before.toList.length = before.size := by
      rw [Text.toList_eq_data]
      rfl
    have hfirst : (ByteArray.mk #[0x0A]).toList = [0x0A] := by rw [Text.toList_eq_data]
    rw [toList_append, toList_append, hfirst, List.append_assoc, List.findIdx?_append, hnone, hsize]
    simp [List.findIdx?_cons]
  rw [Script.splitInput, hfind]
  dsimp only
  rw [ByteArray.append_assoc, ByteArray.extract_append_eq_left rfl, ← ByteArray.append_assoc,
    ByteArray.extract_append_eq_right (by rw [ByteArray.size_append]; rfl) ByteArray.size_append]

/-! ## Framed inputs -/

/-- A payload is accepted, so the input that holds it can be taken apart at its only line feed. -/
structure Framed (phase : Phase) (payload : String) : Prop where
  accepted : ∃ size, Base64.decodedSize payload = .ok size ∧ size ≤ maxPayloadSize
  noBlank : ∀ c ∈ payload.toList, Text.isBlank c = false
  /-- This is what a child gets. -/
  given : ∀ (runner : Runner) (machine : Machine) (start : ByteArray → ChildRun),
    machine.launch runner.command runner.arguments = .ok start →
      runner.invoke machine phase payload =
        Runner.replyOf runner.limit (start (Runner.inputFor phase payload).toUTF8)
  bytes : (Runner.inputFor phase payload).toUTF8 =
    phase.tag.toUTF8 ++ ByteArray.mk #[0x0A] ++ payload.toUTF8
  oneLineFeed : (Runner.inputFor phase payload).toUTF8.toList.count 0x0A = 1
  split : Script.splitInput (Runner.inputFor phase payload).toUTF8 =
    (phase.tag.toUTF8, payload.toUTF8)
  lines : Text.lines (Runner.inputFor phase payload) = [phase.tag, payload]

/-- **An accepted payload is framed safely.** -/
theorem framed_token (phase : Phase) (payload : Payload) : Framed phase payload.token where
  accepted := ⟨payload.size, payload.decodedSize_token, payload.size_le⟩
  noBlank := Base64.isBlank_of_decodedSize payload.decodedSize_token
  given _ _ _ hlaunch := invoke_of_launch hlaunch
  bytes := toUTF8_inputFor phase payload.token
  oneLineFeed := by
    have hfirst : (ByteArray.mk #[0x0A]).toList = [0x0A] := by rw [Text.toList_eq_data]
    rw [toUTF8_inputFor, toList_append, toList_append, hfirst, List.count_append, List.count_append,
      List.count_eq_zero.mpr (lineFeed_not_mem_tag phase),
      List.count_eq_zero.mpr (lineFeed_not_mem payload.decodedSize_token)]
    rfl
  split := by
    rw [toUTF8_inputFor]
    exact splitInput_append (lineFeed_not_mem_tag phase) _
  lines := by
    have htag : '\n' ∉ phase.tag.toList := by cases phase <;> decide
    have htoken : '\n' ∉ payload.token.toList := by
      intro hmem
      have hblank := Base64.isBlank_of_decodedSize payload.decodedSize_token _ hmem
      exact absurd hblank (by decide)
    have hchars : (Runner.inputFor phase payload.token).toList =
        phase.tag.toList ++ '\n' :: payload.token.toList := by
      simp [Runner.inputFor]
    rw [Text.lines, hchars, Text.split_append, Text.split_of_not_mem htag,
      Text.split_of_not_mem htoken]
    simp

/-! ## A child that gives back its payload -/

/-- The script without a rule. -/
def Script.echoing : Script := { rules := [], ignoresInput := false }

/-- What it writes is its payload and a line break, whatever the payload is. -/
theorem stdout_echoing (arguments : List String) (phase : Phase) (payload : String) :
    (Script.echoing.child arguments (Runner.inputFor phase payload).toUTF8).stdout =
      payload.toUTF8 ++ "\n".toUTF8 := by
  have hsplit : Script.splitInput (Runner.inputFor phase payload).toUTF8 =
      (phase.tag.toUTF8, payload.toUTF8) := by
    rw [toUTF8_inputFor]
    exact splitInput_append (lineFeed_not_mem_tag phase) _
  have hwritten : ∀ call : Script.Call,
      Script.output call [.payload, .bytes "\n".toUTF8] = call.payload ++ "\n".toUTF8 := by
    intro call
    simp [Script.output, Script.Part.contents]
  simp only [Script.child, Script.echoing, Bool.false_eq_true, if_false, hsplit]
  exact hwritten _

/-- A runner that starts such a child is a program that gives back what it gets. -/
theorem echoes_of_launch {runner : Runner} {machine : Machine} {arguments : List String}
    (h : machine.launch runner.command runner.arguments = .ok (Script.echoing.child arguments))
    (hlimit : Script.overAt.duration.nanoseconds < runner.limit.nanoseconds) :
    Echoes (runner.invoke machine) := by
  intro phase payload
  have hstdout := stdout_echoing arguments phase payload
  rw [invoke_of_launch h]
  obtain ⟨moment, hreply⟩ : ∃ moment : ClockTime, Runner.replyOf runner.limit
      (childRun (Script.echoing.child arguments) phase payload) = _ :=
    replyOf_of_isWithin ⟨Script.overAt, rfl, hlimit⟩
  refine ⟨_, hreply, rfl, ?_⟩
  rw [childRun, hstdout, ← String.toList_inj, Text.decodeWithReplacement, String.toList_ofList,
    toList_append, Text.toList_toUTF8, Text.toList_toUTF8, ← Text.encode_append,
    Text.decodeChars_encode, String.toList_append]

/-! ## What is exchanged -/

/-- What was exchanged in the evaluation of a case, where it stands after that, and the time that it
took. The payload of the decompression is the text that the compression wrote, up to the blanks at
its end. -/
inductive Conversation (case : TestCase) : Position → List Exchange → Duration → Prop where
  | rejected {defect : Defect} {verdict : Verdict} {size? : Option Nat} {elapsed : Duration}
      (hcase : case.payload = .error defect) :
      Conversation case (.decided verdict size?) [] elapsed
  /-- No time has passed before the first reply. -/
  | opened {input : Payload} (hcase : case.payload = .ok input) :
      Conversation case (.compressing input) [] .zero
  | ended {input : Payload} {reply : Reply} {verdict : Verdict} {size? : Option Nat}
      {elapsed : Duration} (hcase : case.payload = .ok input) :
      Conversation case (.decided verdict size?) [⟨.compress, input.token, reply⟩] elapsed
  | answered {input compressed : Payload} {answer : Answer} {elapsed : Duration}
      (hcase : case.payload = .ok input) (hending : answer.ending = .success)
      (htext : Text.trimEnd answer.stdout = compressed.token) :
      Conversation case (.decompressing input compressed)
        [⟨.compress, input.token, .ok answer⟩] elapsed
  | returned {input compressed : Payload} {answer : Answer} {reply : Reply} {verdict : Verdict}
      {size? : Option Nat} {elapsed : Duration} (hcase : case.payload = .ok input)
      (hending : answer.ending = .success)
      (htext : Text.trimEnd answer.stdout = compressed.token) :
      Conversation case (.decided verdict size?)
        [⟨.compress, input.token, .ok answer⟩, ⟨.decompress, compressed.token, reply⟩] elapsed
  | broken {input compressed : Payload} {answer : Answer} {reply : Reply} {size? : Option Nat}
      {elapsed : Duration} (hcase : case.payload = .ok input) (hending : answer.ending = .success)
      (htext : Text.trimEnd answer.stdout = compressed.token) :
      Conversation case (.brokenDown size?)
        [⟨.compress, input.token, .ok answer⟩, ⟨.decompress, compressed.token, reply⟩] elapsed

/-- What an evaluation has exchanged so far. -/
def Evaluation.Converses (evaluation : Evaluation) : Prop :=
  Conversation evaluation.case evaluation.position evaluation.exchanges evaluation.elapsed

theorem converses_start (index : Nat) (case : TestCase) :
    (Evaluation.start index case).Converses := by
  unfold Evaluation.Converses Evaluation.start Position.start
  dsimp only
  split
  · next hcase => exact .opened hcase
  · next hcase => exact .rejected hcase

/-- After the reply to the compression an evaluation is decided, or its next payload is the text of
the reply. -/
theorem Position.decided_or_decompressing (input : Payload) (reply : Reply) :
    (∃ verdict size?, afterCompression input reply = .decided verdict size?) ∨
      ∃ answer compressed, reply = .ok answer ∧ answer.ending = .success ∧
        Text.trimEnd answer.stdout = compressed.token ∧
        afterCompression input reply = .decompressing input compressed := by
  unfold afterCompression
  split
  · exact .inl ⟨_, _, rfl⟩
  · next text htext =>
    split
    · next compressed hcompressed =>
      unfold outputText at htext
      split at htext
      · cases htext
      · next answer =>
        split at htext
        · next hending =>
          cases htext
          exact .inr ⟨answer, compressed, rfl, hending,
            (Payload.token_of_ofToken hcompressed).symm, rfl⟩
        · cases htext
        · cases htext
    · exact .inl ⟨_, _, rfl⟩

/-- **An exchange goes on with the conversation.** -/
theorem Evaluation.Converses.step {evaluation : Evaluation} (h : evaluation.Converses)
    (program : Program) : (evaluation.step program).Converses := by
  obtain ⟨index, case, position, exchanges, elapsed⟩ := evaluation
  unfold Evaluation.Converses at h
  cases h with
  | rejected hcase => exact .rejected hcase
  | ended hcase => exact .ended hcase
  | returned hcase hending htext => exact .returned hcase hending htext
  | broken hcase hending htext => exact .broken hcase hending htext
  | @answered input compressed answer _ hcase hending htext =>
    rw [@step_of_pending? _ (.decompress, compressed.token) rfl, receive]
    dsimp only
    split
    · exact .broken hcase hending htext
    · exact .returned hcase hending htext
  | @opened input hcase =>
    rw [@step_of_pending? _ (.compress, input.token) rfl,
      receive_of_add? (Duration.zero_add? _)]
    unfold Evaluation.Converses
    show Conversation case (Position.afterCompression input (program .compress input.token))
      [⟨.compress, input.token, program .compress input.token⟩] _
    rcases Position.decided_or_decompressing input (program .compress input.token) with
      ⟨verdict, size?, hafter⟩ | ⟨answer, compressed, hreply, hending, htext, hafter⟩
    · rw [hafter]
      exact .ended hcase
    · rw [hafter, hreply]
      exact .answered hcase hending htext

/-! ## What a pool records -/

/-- The evaluation that a task has under way or has ended with. -/
def Task.evaluation? : Task → Option Evaluation
  | .running evaluation => some evaluation
  | .finished (.evaluated evaluation) => some evaluation
  | _ => none

/-- The task waits for its start. -/
def Task.isWaiting : Task → Bool
  | .waiting .. => true
  | _ => false

namespace Pool

/-- An evaluation is under way in a pool, has ended, or was joined. -/
def Holds (pool : Pool) (evaluation : Evaluation) : Prop :=
  evaluation ∈ pool.joined ∨ ∃ task ∈ pool.tasks, task.evaluation? = some evaluation

/-- An evaluation was held by a pool in some state of a run. -/
def Occurs (first pool : Pool) (evaluation : Evaluation) : Prop :=
  ∃ earlier : Pool, Relation.ReflTransGen AnyStep first earlier ∧
    Relation.ReflTransGen AnyStep earlier pool ∧ earlier.Holds evaluation

/-- What holds of a pool in a run over cases, whatever its program does at each step. -/
structure Records (cases : List TestCase) (pool : Pool) : Prop where
  waiting : ∀ index case, Task.waiting index case ∈ pool.tasks → case ∈ cases
  case_mem : ∀ evaluation, pool.Holds evaluation → evaluation.case ∈ cases
  converses : ∀ evaluation, pool.Holds evaluation → evaluation.Converses

variable {cases : List TestCase} {first pool next : Pool} {i : Nat} {old new : Task}
  {evaluation : Evaluation}

theorem mem_of_waiting_mem {first index : Nat} {case : TestCase}
    (h : Task.waiting index case ∈ tasksFrom first cases) : case ∈ cases := by
  induction cases generalizing first with
  | nil => cases h
  | cons head rest ih =>
    rcases List.mem_cons.mp h with heq | h
    · cases heq
      exact List.mem_cons_self
    · exact List.mem_cons_of_mem head (ih h)

theorem records_start (jobs : Nat) (cases : List TestCase) : Records cases (start jobs cases) := by
  have hnone : ∀ evaluation, ¬ (start jobs cases).Holds evaluation := by
    rintro evaluation (hjoined | ⟨task, htask, hsome⟩)
    · cases hjoined
    · obtain ⟨index, case, rfl⟩ := eq_waiting_of_mem_tasksFrom htask
      cases hsome
  exact ⟨fun index case htask => mem_of_waiting_mem htask,
    fun evaluation h => absurd h (hnone evaluation),
    fun evaluation h => absurd h (hnone evaluation)⟩

theorem holds_of_setTask (h : (pool.setTask i new).Holds evaluation) :
    new.evaluation? = some evaluation ∨ pool.Holds evaluation := by
  rcases h with hjoined | ⟨task, hmem, hsome⟩
  · exact .inr (.inl hjoined)
  · rcases List.mem_or_eq_of_mem_set hmem with hmem | rfl
    · exact .inr (.inr ⟨task, hmem, hsome⟩)
    · exact .inl hsome

theorem holds_of_getElem? (htask : pool.tasks[i]? = some old)
    (hsome : old.evaluation? = some evaluation) : pool.Holds evaluation :=
  .inr ⟨old, List.mem_of_getElem? htask, hsome⟩

/-- A task is set that does not wait, and whose evaluation keeps to what is recorded. -/
theorem Records.setTask (h : Records cases pool) (hwaiting : new.isWaiting = false)
    (hnew : ∀ evaluation, new.evaluation? = some evaluation →
      evaluation.case ∈ cases ∧ evaluation.Converses) :
    Records cases (pool.setTask i new) where
  waiting index case hmem := by
    rcases List.mem_or_eq_of_mem_set hmem with hmem | heq
    · exact h.waiting index case hmem
    · subst heq
      cases hwaiting
  case_mem evaluation hholds := by
    rcases holds_of_setTask hholds with hsome | hholds
    · exact (hnew evaluation hsome).1
    · exact h.case_mem evaluation hholds
  converses evaluation hholds := by
    rcases holds_of_setTask hholds with hsome | hholds
    · exact (hnew evaluation hsome).2
    · exact h.converses evaluation hholds

/-- An evaluation that is held may be counted as joined. -/
theorem Records.joined (h : Records cases pool) (hholds : pool.Holds evaluation) :
    Records cases { pool with joined := pool.joined ++ [evaluation] } := by
  have hback : ∀ other, Holds { pool with joined := pool.joined ++ [evaluation] } other →
      pool.Holds other := by
    rintro other (hjoined | htask)
    · rcases List.mem_append.mp hjoined with hjoined | hjoined
      · exact .inl hjoined
      · rw [List.mem_singleton.mp hjoined]
        exact hholds
    · exact .inr htask
  exact ⟨h.waiting, fun other hother => h.case_mem other (hback other hother),
    fun other hother => h.converses other (hback other hother)⟩

theorem evaluation?_taskEnd {kept : Evaluation}
    (h : Task.evaluation? (.finished evaluation.taskEnd) = some kept) : kept = evaluation := by
  unfold Evaluation.taskEnd at h
  split at h
  · cases h
  · cases h
    rfl

/-- **Every step keeps the records**, with whatever program it is taken. -/
theorem Records.step {program : Program} (h : Records cases pool) (hstep : Step program pool next) :
    Records cases next := by
  obtain ⟨i, hi⟩ := hstep
  cases (step?_eq_some_iff.mp hi).2 with
  | @acquire index case htask =>
    have hset : Records cases (pool.setTask i (.running (.start index case))) := by
      refine h.setTask rfl fun evaluation hsome => ?_
      cases hsome
      exact ⟨h.waiting index case (List.mem_of_getElem? htask), converses_start index case⟩
    exact ⟨hset.waiting, hset.case_mem, hset.converses⟩
  | refuse htask => exact h.setTask rfl fun _ hsome => by cases hsome
  | @exchange evaluation call htask hcall =>
    have hholds := holds_of_getElem? htask rfl
    have hset : Records cases (pool.setTask i (.running (evaluation.step program))) := by
      refine h.setTask rfl fun kept hsome => ?_
      cases hsome
      rw [Evaluation.case_step]
      exact ⟨h.case_mem _ hholds, (h.converses _ hholds).step program⟩
    exact ⟨hset.waiting, hset.case_mem, hset.converses⟩
  | @complete evaluation htask =>
    have hholds := holds_of_getElem? htask rfl
    have hset : Records cases (pool.setTask i (.finished evaluation.taskEnd)) := by
      refine h.setTask rfl fun kept hsome => ?_
      rw [evaluation?_taskEnd hsome]
      exact ⟨h.case_mem _ hholds, h.converses _ hholds⟩
    exact ⟨hset.waiting, hset.case_mem, hset.converses⟩
  | @join ending htask =>
    have hnone : ∀ evaluation, Task.evaluation? .joined = some evaluation →
        evaluation.case ∈ cases ∧ evaluation.Converses := fun _ hsome => by cases hsome
    cases ending with
    | evaluated evaluation =>
      -- the evaluation is taken in first, so nothing is lost with its task
      have hset := (h.joined (holds_of_getElem? htask rfl)).setTask (i := i) rfl hnone
      exact ⟨hset.waiting, hset.case_mem, hset.converses⟩
    | _ =>
      have hset := h.setTask (i := i) rfl hnone
      exact ⟨hset.waiting, hset.case_mem, hset.converses⟩

theorem Records.steps (h : Records cases pool) (hsteps : Relation.ReflTransGen AnyStep pool next) :
    Records cases next := by
  induction hsteps with
  | refl => exact h
  | tail _ hstep ih =>
    obtain ⟨program, hstep⟩ := hstep
    exact ih.step hstep

/-- Every invocation belongs to an evaluation that occurs in the run, also if the task of that
evaluation panics later. -/
theorem exists_occurs (hfirst : first.calls = [])
    (hsteps : Relation.ReflTransGen AnyStep first pool) :
    ∀ call ∈ pool.calls, ∃ evaluation, Occurs first pool evaluation ∧ call ∈ evaluation.calls := by
  induction hsteps with
  | refl =>
    rw [hfirst]
    exact nofun
  | @tail before after hbefore hstep ih =>
    have hearlier : ∀ call ∈ before.calls, ∃ evaluation,
        Occurs first after evaluation ∧ call ∈ evaluation.calls := by
      intro call hcall
      obtain ⟨evaluation, ⟨earlier, hto, hfrom, hholds⟩, hmem⟩ := ih call hcall
      exact ⟨evaluation, ⟨earlier, hto, hfrom.tail hstep, hholds⟩, hmem⟩
    intro call hcall
    by_cases hsame : after.calls = before.calls
    · exact hearlier call (hsame ▸ hcall)
    · obtain ⟨program, i, hi⟩ := id hstep
      obtain ⟨evaluation, made, -, hpending, hcalls, htask⟩ := calls_of_step hi hsame
      rw [hcalls, List.mem_append] at hcall
      rcases hcall with hcall | hcall
      · exact hearlier call hcall
      · refine ⟨evaluation.step program, ⟨after, hbefore.tail hstep, .refl,
          holds_of_getElem? htask rfl⟩, ?_⟩
        rw [Evaluation.calls_step hpending]
        exact List.mem_append_right _ hcall

end Pool

/-! ## Where payloads come from -/

/-- An evaluation has made an invocation, or waits for its reply. -/
def Evaluation.Asks (evaluation : Evaluation) (call : Phase × String) : Prop :=
  call ∈ evaluation.calls ∨ evaluation.position.pending? = some call

/-- Where the payload of an invocation comes from: the compression gets the second word of the case
file, and the decompression the text that the compression wrote, up to the blanks at its end. If
that text was decoded from bytes, then those bytes are the ones of the payload and of blanks. -/
inductive Origin (tree : FileTree) (paths : List String) (evaluation : Evaluation) :
    Phase → String → Prop where
  | ofFile {path contents : String} {word : List Char} (hpath : path ∈ paths)
      (hcase : evaluation.case = TestCase.load tree path)
      (hcontents : tree.readContents path = .ok contents)
      (hword : (Text.words contents.toList)[1]? = some word) :
      Origin tree paths evaluation .compress (String.ofList word)
  | ofAnswer {input : String} {answer : Answer}
      (hexchange : evaluation.exchanges.head? = some ⟨.compress, input, .ok answer⟩)
      (hending : answer.ending = .success)
      (hbytes : ∀ bytes, answer.stdout = Text.decodeWithReplacement bytes →
        Spells (Text.trimEnd answer.stdout) bytes) :
      Origin tree paths evaluation .decompress (Text.trimEnd answer.stdout)

variable {tree : FileTree} {paths : List String} {evaluation : Evaluation}

/-- An accepted case is one of a file with a second word. -/
theorem origin_of_payload {input : Payload}
    (hmem : evaluation.case ∈ paths.map (TestCase.load tree))
    (hcase : evaluation.case.payload = .ok input) :
    Origin tree paths evaluation .compress input.token := by
  obtain ⟨path, hpath, hload⟩ := List.mem_map.mp hmem
  rw [← hload, TestCase.load] at hcase
  cases hcontents : tree.readContents path with
  | error e =>
    rw [hcontents] at hcase
    cases hcase
  | ok contents =>
    rw [hcontents] at hcase
    simp only [TestCase.ofContents, Text.wordAt?_eq_getElem?] at hcase
    cases hword : (Text.words contents.toList)[1]? with
    | none =>
      rw [hword] at hcase
      cases hcase
    | some word =>
      rw [hword] at hcase
      rw [Payload.token_of_ofToken hcase]
      exact .ofFile hpath hload.symm hcontents hword

theorem origin_of_answer {input : String} {compressed : Payload} {answer : Answer}
    (hexchange : evaluation.exchanges.head? = some ⟨.compress, input, .ok answer⟩)
    (hending : answer.ending = .success)
    (htext : Text.trimEnd answer.stdout = compressed.token) :
    Origin tree paths evaluation .decompress compressed.token := by
  rw [← htext]
  refine .ofAnswer hexchange hending fun bytes hbytes => ?_
  -- the text is base64, so nothing was replaced when it was decoded
  have hsize := compressed.decodedSize_token
  rw [htext]
  rw [hbytes] at htext
  exact (trimEnd_decodeWithReplacement_eq_iff (Base64.isAscii_of_decodedSize hsize)
    (Base64.isBlank_of_decodedSize hsize)).mp htext

/-- **What an evaluation asks for is framed safely, and comes from where it should.** -/
theorem Evaluation.Converses.framed (h : evaluation.Converses)
    (hmem : evaluation.case ∈ paths.map (TestCase.load tree)) :
    ∀ call, evaluation.Asks call →
      Framed call.1 call.2 ∧ Origin tree paths evaluation call.1 call.2 := by
  have hcompress : ∀ {input : Payload}, evaluation.case.payload = .ok input →
      Framed .compress input.token ∧ Origin tree paths evaluation .compress input.token :=
    fun hcase => ⟨framed_token .compress _, origin_of_payload hmem hcase⟩
  have hdecompress : ∀ {input : String} {compressed : Payload} {answer : Answer},
      evaluation.exchanges.head? = some ⟨.compress, input, .ok answer⟩ →
      answer.ending = .success → Text.trimEnd answer.stdout = compressed.token →
      Framed .decompress compressed.token ∧
        Origin tree paths evaluation .decompress compressed.token :=
    fun hexchange hending htext =>
      ⟨framed_token .decompress _, origin_of_answer hexchange hending htext⟩
  obtain ⟨index, case, position, exchanges, elapsed⟩ := evaluation
  unfold Evaluation.Converses at h
  rintro call (hcall | hcall)
  · cases h with
    | rejected => cases hcall
    | opened => cases hcall
    | ended hcase =>
      cases List.mem_singleton.mp hcall
      exact hcompress hcase
    | answered hcase =>
      cases List.mem_singleton.mp hcall
      exact hcompress hcase
    | returned hcase hending htext | broken hcase hending htext =>
      rcases List.mem_cons.mp hcall with heq | hcall
      · cases heq
        exact hcompress hcase
      · cases List.mem_singleton.mp hcall
        exact hdecompress rfl hending htext
  · cases h with
    | rejected => cases hcall
    | opened hcase =>
      cases hcall
      exact hcompress hcase
    | ended => cases hcall
    | answered hcase hending htext =>
      cases hcall
      exact hdecompress rfl hending htext
    | returned => cases hcall
    | broken => cases hcall

/-- An accepted text that the compression writes is the next payload as it stands, whatever else it
could have been written as. -/
theorem Evaluation.Converses.pending?_step (h : evaluation.Converses) {program : Program}
    {payload : String} {answer : Answer} {size : Nat}
    (hpending : evaluation.position.pending? = some (.compress, payload))
    (hreply : program .compress payload = .ok answer) (hending : answer.ending = .success)
    (hsize : Base64.decodedSize (Text.trimEnd answer.stdout) = .ok size)
    (hle : size ≤ maxPayloadSize) :
    (evaluation.step program).position.pending? =
      some (.decompress, Text.trimEnd answer.stdout) := by
  obtain ⟨index, case, position, exchanges, elapsed⟩ := evaluation
  unfold Evaluation.Converses at h
  cases h with
  | @opened input =>
    cases hpending
    obtain ⟨compressed, htoken, -⟩ := Payload.exists_of_decodedSize hsize hle
    have haccepted : Payload.ofToken (Text.trimEnd answer.stdout) = .ok compressed := by
      rw [← htoken, Payload.ofToken_token]
    rw [@step_of_pending? _ (.compress, input.token) rfl,
      receive_of_add? (Duration.zero_add? _)]
    simp only [Program.exchange, hreply, Position.resume, Position.afterCompression,
      Position.outputText, hending, haccepted, Position.pending?, htoken]
  | _ => cases hpending

/-- Bits that do not count may be set in an accepted text. -/
example : (Base64.decodedSize "QR==").toOption = some 1 := by decide +kernel

/-- No text at all is accepted, too. -/
example : (Base64.decodedSize "").toOption = some 0 := by decide +kernel

/-- The text of a case file that holds a payload. -/
def oneByteText : ByteArray := ⟨#[0x78, 0x20, 0x51, 0x51, 0x3D, 0x3D]⟩

theorem payload_of_resolve {path : String} {location : Location} {executable : Bool}
    (h : tree.resolve .reach path = .ok (.occupied location (.file oneByteText executable))) :
    (TestCase.load tree path).payload = .ok .oneByte := by
  have htext : String.fromUTF8? oneByteText = some "x QQ==" := by decide
  rw [FileTree.load_of_resolve h htext]
  exact TestCase.payload_oneByte _

namespace Pool

/-- **Every input of every run can be taken apart**, and its payload is passed on byte by byte. The
program may do something else at each step. Each invocation belongs to an evaluation; its payload is
accepted and holds no blank, so the input has one line feed, and whether it is split there or read
line by line, phase and payload come back. The compression gets the second word of a case file as it
stands, and the decompression an accepted text as the compression wrote it. -/
theorem every_input_is_framed {tree : FileTree} {jobs : Nat} {paths : List String} {pool : Pool}
    (hsteps : Relation.ReflTransGen AnyStep (start jobs (paths.map (TestCase.load tree))) pool) :
    (∀ call ∈ pool.calls, ∃ evaluation,
      Occurs (start jobs (paths.map (TestCase.load tree))) pool evaluation ∧
        call ∈ evaluation.calls) ∧
    ∀ evaluation, Occurs (start jobs (paths.map (TestCase.load tree))) pool evaluation →
      (∀ call, evaluation.Asks call →
        Framed call.1 call.2 ∧ Origin tree paths evaluation call.1 call.2) ∧
      ∀ program payload answer size,
        evaluation.position.pending? = some (.compress, payload) →
        program .compress payload = .ok answer → answer.ending = .success →
        Base64.decodedSize (Text.trimEnd answer.stdout) = .ok size → size ≤ maxPayloadSize →
        (evaluation.step program).position.pending? =
          some (.decompress, Text.trimEnd answer.stdout) := by
  refine ⟨exists_occurs rfl hsteps, ?_⟩
  rintro evaluation ⟨earlier, hto, -, hholds⟩
  have hrecords := (records_start jobs (paths.map (TestCase.load tree))).steps hto
  have hconverses := hrecords.converses evaluation hholds
  refine ⟨hconverses.framed (hrecords.case_mem evaluation hholds), ?_⟩
  intro program payload answer size hpending hreply hending hsize hle
  exact hconverses.pending?_step hpending hreply hending hsize hle

/-- A tree with one case file. -/
def oneCaseTree : FileTree :=
  ⟨[("a.txt", .file oneByteText false)], [],
    .directory (by decide) (by simp [Node.Proper.file])⟩

theorem payload_oneCaseTree : (TestCase.load oneCaseTree "a.txt").payload = .ok .oneByte := by
  have hresolve : oneCaseTree.resolve .reach "a.txt" =
      .ok (.occupied ["a.txt"] (.file oneByteText false)) := by
    have hsteps : Pathname.steps "a.txt" = ["a.txt"] := by decide
    rw [FileTree.resolve, hsteps, FileTree.walk]
    rfl
  exact payload_of_resolve hresolve

/-- The payload of a case file is given to the program. -/
theorem input_of_one_case : ∃ pool, Relation.ReflTransGen AnyStep
    (start 1 (["a.txt"].map (TestCase.load oneCaseTree))) pool ∧
      (Phase.compress, "QQ==") ∈ pool.calls ∧ Framed .compress "QQ==" := by
  let case := TestCase.load oneCaseTree "a.txt"
  let evaluation := Evaluation.start 1 case
  let program : Program := fun _ _ => .error (.ofCause (.other "no answer"))
  let before : Pool := start 1 [case]
  let running : Pool := { before.setTask 0 (.running evaluation) with
    free := 0, busiest := max before.busiest (before.held + 1) }
  let asked : Pool := { running.setTask 0 (.running (evaluation.step program)) with
    calls := running.calls ++ [(.compress, "QQ==")] }
  have hpending : evaluation.position.pending? = some (.compress, "QQ==") := by
    have hposition : evaluation.position = .compressing .oneByte := by
      show Position.start case = _
      rw [Position.start, payload_oneCaseTree]
    rw [hposition]
    rfl
  have hacquire : AnyStep before running :=
    ⟨program, 0, step?_eq_some_iff.mpr ⟨rfl, .acquire rfl rfl (Nat.zero_lt_one)⟩⟩
  have hexchange : AnyStep running asked :=
    ⟨program, 0, step?_eq_some_iff.mpr ⟨rfl, .exchange rfl hpending⟩⟩
  have hsteps : Relation.ReflTransGen AnyStep
      (start 1 (["a.txt"].map (TestCase.load oneCaseTree))) asked :=
    (Relation.ReflTransGen.single hacquire).tail hexchange
  have hcall : (Phase.compress, "QQ==") ∈ asked.calls := List.mem_append_right _ List.mem_cons_self
  obtain ⟨hcalls, hframed⟩ := every_input_is_framed hsteps
  obtain ⟨held, hholds, hmem⟩ := hcalls _ hcall
  exact ⟨asked, hsteps, hcall, ((hframed held hholds).1 _ (.inl hmem)).1⟩

end Pool

end CompressorBench
