import CompressorBench.Proofs.Pool.Permits

/-!
# Runs that end with a panic

The task of a case whose times do not add up panics when it has made its last invocation. As long as
the run goes on, such a task is somewhere between its start and its panic (`Task.WillPanic`), so a
run without a failure never comes to a halt; and every run comes to a halt.

* `exists_willPanic_of_step`: a step leaves such a task in the pool, or is the end of the run.
* `failure?_of_stuck`: what a complete run comes to.
-/

namespace CompressorBench

/-- A task that panics if it is left to itself, or has panicked. -/
def Task.WillPanic (program : Program) : Task → Prop
  | .waiting index case => (evaluate program index case).isBroken = true
  | .running evaluation => (evaluation.finish program).isBroken = true
  | .finished (.panicked _) => True
  | _ => False

namespace Pool

variable {jobs : Nat} {program : Program} {cases : List TestCase} {pool next final : Pool} {i : Nat}
  {task : Task}

/-- A task of a pool will panic. -/
def WillPanic (program : Program) (pool : Pool) : Prop :=
  ∃ (i : Nat) (task : Task), pool.tasks[i]? = some task ∧ task.WillPanic program

/-- A step leaves all tasks but one where they are. -/
theorem getElem?_of_move (h : Move program pool i next) {k : Nat} (hne : k ≠ i) :
    next.tasks[k]? = pool.tasks[k]? := by
  cases h with
  | @join ending => cases ending <;> exact List.getElem?_set_ne (Ne.symm hne)
  | _ => exact List.getElem?_set_ne (Ne.symm hne)

/-- The task that moves comes closer to its panic, or the run ends with it. -/
theorem willPanic_of_move (h : Move program pool i next) (hopen : pool.closed = false)
    (htask : pool.tasks[i]? = some task) (hpanic : task.WillPanic program) :
    next.failure? ≠ none ∨ next.WillPanic program := by
  have hset : ∀ {new : Task}, (pool.tasks.set i new)[i]? = some new :=
    List.getElem?_set_self (List.getElem?_eq_some_iff.mp htask).1
  cases h with
  | acquire hwaiting =>
    cases htask.symm.trans hwaiting
    exact .inr ⟨i, _, hset, hpanic⟩
  | refuse _ hclosed =>
    rw [hopen] at hclosed
    cases hclosed
  | exchange hrunning =>
    cases htask.symm.trans hrunning
    refine .inr ⟨i, _, hset, ?_⟩
    rw [Task.WillPanic, Evaluation.finish_step]
    exact hpanic
  | complete hrunning hdone =>
    cases htask.symm.trans hrunning
    refine .inr ⟨i, _, hset, ?_⟩
    rw [Task.WillPanic, Evaluation.finish_eq_self hdone] at hpanic
    rw [Evaluation.taskEnd, if_pos hpanic]
    trivial
  | @join ending hfinished =>
    cases htask.symm.trans hfinished
    cases ending with
    | panicked report => exact .inl (Option.some_ne_none _)
    | evaluated => cases hpanic
    | poolClosed => cases hpanic

/-- **A step leaves a task that will panic in the pool, or is the end of the run.** -/
theorem exists_willPanic_of_step (hstep : Step program pool next) (hopen : pool.closed = false)
    (h : pool.WillPanic program) : next.failure? ≠ none ∨ next.WillPanic program := by
  obtain ⟨i, hi⟩ := hstep
  have hmove := (step?_eq_some_iff.mp hi).2
  obtain ⟨k, task, htask, hpanic⟩ := h
  by_cases hki : k = i
  · subst hki
    exact willPanic_of_move hmove hopen htask hpanic
  · exact .inr ⟨k, task, (getElem?_of_move hmove hki).trans htask, hpanic⟩

/-- At the start the task of a case whose times do not add up waits for a permit. -/
theorem willPanic_start (h : ¬ Endures program cases) : (start jobs cases).WillPanic program := by
  obtain ⟨case, hcase, index, hlong⟩ : ∃ case ∈ cases, ∃ index,
      ¬ TimesFit program (evaluate program index case).calls := by
    simpa only [Endures, Classical.not_forall, exists_prop] using h
  obtain ⟨k, hk⟩ := List.mem_iff_getElem?.mp hcase
  refine ⟨k, .waiting (k + 1) case, getElem?_tasksFrom hk, ?_⟩
  rw [Task.WillPanic, isBroken_evaluate_iff, calls_evaluate_eq program case (k + 1) index]
  exact hlong

/-- As long as a run goes on, there is such a task. -/
theorem willPanic_of_steps (h : ¬ Endures program cases)
    (hsteps : Relation.ReflTransGen (Step program) (start jobs cases) pool) :
    pool.failure? ≠ none ∨ pool.WillPanic program := by
  induction hsteps with
  | refl => exact .inr (willPanic_start h)
  | @tail before after hbefore hstep ih =>
    obtain ⟨i, hi⟩ := hstep
    have hgoesOn := (step?_eq_some_iff.mp hi).1
    have horderly := orderly_of_steps (anySteps_of_steps hbefore)
    obtain ⟨ledger, horderly⟩ := horderly
    exact exists_willPanic_of_step ⟨i, hi⟩ horderly.isOpen (ih.resolve_left (not_not_intro hgoesOn))

/-- **A run over a case whose times do not add up fails**, whatever the other cases come to. -/
theorem failure?_of_stuck (h : ¬ Endures program cases)
    (hsteps : Relation.ReflTransGen (Step program) (start jobs cases) final)
    (hstuck : Stuck program final) :
    final.failure? = some (TaskEnd.panicFailure TaskEnd.overflowReport) := by
  obtain ⟨ledger, horderly⟩ := orderly_of_steps (anySteps_of_steps hsteps)
  cases hfailure : final.failure? with
  | some failure => exact congrArg some (horderly.failure failure hfailure)
  | none =>
    obtain ⟨k, task, htask, hpanic⟩ :=
      (willPanic_of_steps h hsteps).resolve_left (not_not_intro hfailure)
    have hjoined := isJoined_of_stuck horderly.isOpen hfailure horderly.permits hstuck
      (List.mem_of_getElem? htask)
    rw [hjoined] at hpanic
    cases hpanic

end Pool

end CompressorBench
