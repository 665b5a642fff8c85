import CompressorBench.Case
import CompressorBench.Invocation
import CompressorBench.Score

/-!
# Evaluating a test case

An evaluation waits for the compression, then for the decompression, and then the verdict is
decided. A reply of the program moves it on. The first step that fails decides the verdict, and
nothing is invoked after that.

The times of the invocations are added up, before anything else of a reply is looked at. If the sum
is longer than a duration can be, then the evaluation breaks down and has no outcome.

The text that the compression writes, without the blanks at its end, is the payload of the
decompression as it stands, and the decompression has to give back the text of the case as it
stands: another text for the same bytes is wrong.
-/

namespace CompressorBench

/-! ## Outcomes -/

/-- What became of a test case, as a report tells it. -/
structure Outcome where
  /-- The position of the case among all, counted from 1. -/
  index : Nat
  name : String
  inputSize? : Option Nat
  /-- Known once the output of the compression is base64. -/
  compressedSize? : Option Nat
  verdict : Verdict
  elapsed : Duration

/-! ## Positions -/

/-- How far the evaluation of a case has come. -/
inductive Position where
  | compressing (input : Payload)
  | decompressing (input compressed : Payload)
  | decided (verdict : Verdict) (compressedSize? : Option Nat)
  /-- The times could not be added up. -/
  | brokenDown (compressedSize? : Option Nat)

namespace Position

/-- Where the evaluation of a case starts. A rejected case is decided at once. -/
def start (case : TestCase) : Position :=
  match case.payload with
  | .ok input => .compressing input
  | .error defect => .decided (.presentationError .input defect) none

/-- The invocation that a position waits for. -/
def pending? : Position → Option (Phase × String)
  | .compressing input => some (.compress, input.token)
  | .decompressing _ compressed => some (.decompress, compressed.token)
  | .decided _ _ => none
  | .brokenDown _ => none

/-- What a reply of the program in a phase says: the text it wrote, without the blanks at its end,
or the verdict that it leads to. -/
def outputText (phase : Phase) : Reply → Except Verdict String
  | .error _ => .error (.runtimeError phase none)
  | .ok answer =>
    match answer.ending with
    | .success => .ok (Text.trimEnd answer.stdout)
    | .failed code => .error (.runtimeError phase (some code))
    | .timedOut => .error (.timeLimitExceeded phase)

/-- What follows from the reply to the compression. -/
def afterCompression (input : Payload) (reply : Reply) : Position :=
  match outputText .compress reply with
  | .error verdict => .decided verdict none
  | .ok text =>
    match Payload.ofToken text with
    | .ok compressed => .decompressing input compressed
    | .error defect => .decided (.presentationError (.output .compress) defect) defect.size?

/-- The verdict after the decompression. -/
def finalVerdict (input compressed : Payload) (reply : Reply) : Verdict :=
  match outputText .decompress reply with
  | .error verdict => verdict
  | .ok text =>
    if text = input.token then .success compressed.size (score input.size compressed.size)
    else .wrongAnswer

/-- Where a reply to the pending invocation leads. -/
def resume (position : Position) (reply : Reply) : Position :=
  match position with
  | .compressing input => afterCompression input reply
  | .decompressing input compressed =>
    .decided (finalVerdict input compressed reply) (some compressed.size)
  | .decided verdict compressedSize? => .decided verdict compressedSize?
  | .brokenDown compressedSize? => .brokenDown compressedSize?

/-- The size of what the compression wrote, as far as it is known. -/
def compressedSize? : Position → Option Nat
  | .compressing _ => none
  | .decompressing _ compressed => some compressed.size
  | .decided _ compressedSize? => compressedSize?
  | .brokenDown compressedSize? => compressedSize?

/-- How many invocations may still come. -/
def remaining : Position → Nat
  | .compressing _ => 2
  | .decompressing _ _ => 1
  | .decided _ _ => 0
  | .brokenDown _ => 0

theorem remaining_afterCompression_le (input : Payload) (reply : Reply) :
    (afterCompression input reply).remaining ≤ 1 := by
  unfold afterCompression
  split
  · exact Nat.zero_le _
  · split
    · exact Nat.le_refl _
    · exact Nat.zero_le _

/-- A reply brings a position that waits for one closer to the end. -/
theorem remaining_resume_lt {position : Position} {call : Phase × String}
    (h : position.pending? = some call) (reply : Reply) :
    (position.resume reply).remaining < position.remaining := by
  cases position with
  | compressing input =>
    exact Nat.lt_of_le_of_lt (remaining_afterCompression_le input reply) (Nat.lt_succ_self 1)
  | decompressing input compressed => exact Nat.zero_lt_one
  | decided verdict size => cases h
  | brokenDown size => cases h

end Position

/-! ## Evaluations -/

/-- The evaluation of one case: where it stands, the exchanges so far in order, and the time that
they took together. -/
structure Evaluation where
  index : Nat
  case : TestCase
  position : Position
  exchanges : List Exchange
  elapsed : Duration

namespace Evaluation

/-- The start of an evaluation. -/
def start (index : Nat) (case : TestCase) : Evaluation :=
  { index, case, position := .start case, exchanges := [], elapsed := .zero }

/-- Takes in the exchange that an evaluation waits for. Its time comes first: without a sum nothing
follows from the reply. -/
def receive (evaluation : Evaluation) (exchange : Exchange) : Evaluation :=
  let exchanges := evaluation.exchanges ++ [exchange]
  match evaluation.elapsed.add? exchange.elapsed with
  | none =>
    { evaluation with position := .brokenDown evaluation.position.compressedSize?, exchanges }
  | some elapsed =>
    { evaluation with position := evaluation.position.resume exchange.reply, exchanges, elapsed }

/-- Makes the pending invocation, if there is one, and goes on with its reply. -/
def step (program : Program) (evaluation : Evaluation) : Evaluation :=
  match evaluation.position.pending? with
  | none => evaluation
  | some call => evaluation.receive (program.exchange call)

/-- A reply with a time that can be added brings an evaluation to where it leads. -/
theorem receive_of_add? {evaluation : Evaluation} {exchange : Exchange} {elapsed : Duration}
    (h : evaluation.elapsed.add? exchange.elapsed = some elapsed) :
    evaluation.receive exchange =
      { evaluation with
        position := evaluation.position.resume exchange.reply
        exchanges := evaluation.exchanges ++ [exchange]
        elapsed } := by
  simp only [receive, h]

/-- A reply with a time that cannot be added is the end of an evaluation. -/
theorem receive_of_add?_eq_none {evaluation : Evaluation} {exchange : Exchange}
    (h : evaluation.elapsed.add? exchange.elapsed = none) :
    evaluation.receive exchange =
      { evaluation with
        position := .brokenDown evaluation.position.compressedSize?
        exchanges := evaluation.exchanges ++ [exchange] } := by
  simp only [receive, h]

@[simp] theorem index_receive (evaluation : Evaluation) (exchange : Exchange) :
    (evaluation.receive exchange).index = evaluation.index := by
  unfold receive
  split <;> rfl

@[simp] theorem case_receive (evaluation : Evaluation) (exchange : Exchange) :
    (evaluation.receive exchange).case = evaluation.case := by
  unfold receive
  split <;> rfl

@[simp] theorem exchanges_receive (evaluation : Evaluation) (exchange : Exchange) :
    (evaluation.receive exchange).exchanges = evaluation.exchanges ++ [exchange] := by
  unfold receive
  split <;> rfl

theorem step_of_pending? {evaluation : Evaluation} {call : Phase × String}
    (h : evaluation.position.pending? = some call) (program : Program) :
    evaluation.step program = evaluation.receive (program.exchange call) := by
  simp only [step, h]

theorem remaining_step_lt {evaluation : Evaluation} {call : Phase × String}
    (h : evaluation.position.pending? = some call) (program : Program) :
    (evaluation.step program).position.remaining < evaluation.position.remaining := by
  have hresume := Position.remaining_resume_lt h (program.exchange call).reply
  rw [step_of_pending? h, receive]
  split
  · exact Nat.lt_of_le_of_lt (Nat.zero_le _) hresume
  · exact hresume

/-- Makes invocations until none is pending. -/
def finish (program : Program) (evaluation : Evaluation) : Evaluation :=
  match _h : evaluation.position.pending? with
  | none => evaluation
  | some _ => (evaluation.step program).finish program
termination_by evaluation.position.remaining
decreasing_by exact remaining_step_lt _h program

/-- An evaluation without a pending invocation is finished. -/
theorem finish_eq_self {evaluation : Evaluation} (h : evaluation.position.pending? = none)
    (program : Program) : evaluation.finish program = evaluation := by
  rw [finish]
  split
  · rfl
  · next hcall => rw [h] at hcall; cases hcall

/-- A step does not change how an evaluation ends. -/
@[simp] theorem finish_step (program : Program) (evaluation : Evaluation) :
    (evaluation.step program).finish program = evaluation.finish program := by
  cases h : evaluation.position.pending? with
  | none => simp only [step, h]
  | some call =>
    rw [finish.eq_def program evaluation]
    split
    · next hnone => rw [h] at hnone; cases hnone
    · rfl

/-- The invocations that were made, in order. -/
def calls (evaluation : Evaluation) : List (Phase × String) :=
  evaluation.exchanges.map Exchange.call

/-- Whether the times could not be added up. -/
def isBroken (evaluation : Evaluation) : Bool :=
  match evaluation.position with
  | .brokenDown _ => true
  | _ => false

/-- The verdict that is decided. -/
def verdict? (evaluation : Evaluation) : Option Verdict :=
  match evaluation.position with
  | .decided verdict _ => some verdict
  | _ => none

/-- An evaluation with a verdict has not broken down. -/
theorem isBroken_of_verdict? {evaluation : Evaluation} {verdict : Verdict}
    (h : evaluation.verdict? = some verdict) : evaluation.isBroken = false := by
  unfold verdict? at h
  unfold isBroken
  split at h
  · next hposition => rw [hposition]
  · cases h

/-- What is on record for the outcome of an evaluation. It is a wrong answer until the verdict is
decided, and handed out only then. -/
def outcome (evaluation : Evaluation) : Outcome :=
  { index := evaluation.index
    name := evaluation.case.name
    inputSize? := evaluation.case.size?
    compressedSize? := evaluation.position.compressedSize?
    verdict := evaluation.verdict?.getD .wrongAnswer
    elapsed := evaluation.elapsed }

/-- A verdict that is decided is on record. -/
theorem verdict_outcome {evaluation : Evaluation} {verdict : Verdict}
    (h : evaluation.verdict? = some verdict) : evaluation.outcome.verdict = verdict := by
  simp only [outcome, h, Option.getD_some]

/-- A success on record is decided. -/
theorem verdict_outcome_eq_success_iff {evaluation : Evaluation} {size : Nat} {points : Float} :
    evaluation.outcome.verdict = .success size points ↔
      evaluation.verdict? = some (.success size points) := by
  refine ⟨fun h => ?_, verdict_outcome⟩
  simp only [outcome] at h
  cases hverdict : evaluation.verdict? with
  | none => rw [hverdict] at h; cases h
  | some verdict =>
    rw [hverdict] at h
    exact congrArg some h

theorem calls_step {evaluation : Evaluation} {call : Phase × String}
    (h : evaluation.position.pending? = some call) (program : Program) :
    (evaluation.step program).calls = evaluation.calls ++ [call] := by
  simp [step_of_pending? h, calls, Exchange.call, Program.exchange]

@[simp] theorem index_step (program : Program) (evaluation : Evaluation) :
    (evaluation.step program).index = evaluation.index := by
  unfold step
  split
  · rfl
  · exact index_receive evaluation _

@[simp] theorem index_finish (program : Program) (evaluation : Evaluation) :
    (evaluation.finish program).index = evaluation.index := by
  fun_induction finish program evaluation with
  | case1 => rfl
  | case2 evaluation _ _ ih => rw [ih, index_step]

@[simp] theorem case_step (program : Program) (evaluation : Evaluation) :
    (evaluation.step program).case = evaluation.case := by
  unfold step
  split
  · rfl
  · exact case_receive evaluation _

@[simp] theorem case_finish (program : Program) (evaluation : Evaluation) :
    (evaluation.finish program).case = evaluation.case := by
  fun_induction finish program evaluation with
  | case1 => rfl
  | case2 evaluation _ _ ih => rw [ih, case_step]

end Evaluation

/-- Evaluates a case with a program. -/
def evaluate (program : Program) (index : Nat) (case : TestCase) : Evaluation :=
  (Evaluation.start index case).finish program

@[simp] theorem index_evaluate (program : Program) (index : Nat) (case : TestCase) :
    (evaluate program index case).index = index := Evaluation.index_finish program _

@[simp] theorem case_evaluate (program : Program) (index : Nat) (case : TestCase) :
    (evaluate program index case).case = case := Evaluation.case_finish program _

end CompressorBench
