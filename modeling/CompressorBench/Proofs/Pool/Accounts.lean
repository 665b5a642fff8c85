import Mathlib.Logic.Relation
import CompressorBench.Pool
import CompressorBench.Proofs.Evaluation.Course

/-!
# What a pool accounts for

A pool is measured by the list of its cases evaluated one after the other (`evaluateAll`). Whatever
steps were taken, the evaluations that were joined together with those that the tasks still owe are
this list up to order, and the invocations that were made are those of the joined evaluations and of
the tasks under way. An evaluation under way owes what it would end as if it went on alone, so a
step of one task leaves the accounts of all others alone.

This is so as long as the times of every case add up (`Endures`); otherwise a task panics.

* `Accounts.step`: every step keeps the accounts.
* `Accounts.steps`: so does every run.
-/

namespace CompressorBench

/-- The evaluations of all cases, one after the other, counted from 1. -/
def evaluateAll (program : Program) (cases : List TestCase) : List Evaluation :=
  cases.mapIdx fun i case => evaluate program (i + 1) case

/-- The times of every case add up. -/
def Endures (program : Program) (cases : List TestCase) : Prop :=
  ∀ case ∈ cases, ∀ index, TimesFit program (evaluate program index case).calls

theorem mem_evaluateAll {program : Program} {cases : List TestCase} {evaluation : Evaluation}
    (h : evaluation ∈ evaluateAll program cases) :
    ∃ case ∈ cases, ∃ index, evaluation = evaluate program index case := by
  obtain ⟨i, hi, rfl⟩ := List.mem_mapIdx.mp h
  exact ⟨cases[i], List.getElem_mem hi, i + 1, rfl⟩

theorem Endures.isBroken_eq_false {program : Program} {cases : List TestCase}
    {evaluation : Evaluation} (h : Endures program cases)
    (hmem : evaluation ∈ evaluateAll program cases) : evaluation.isBroken = false := by
  obtain ⟨case, hcase, index, rfl⟩ := mem_evaluateAll hmem
  exact (isBroken_evaluate_eq_false_iff program index case).mpr (h case hcase index)

theorem Evaluation.taskEnd_of_isBroken_eq_false {evaluation : Evaluation}
    (h : evaluation.isBroken = false) : evaluation.taskEnd = .evaluated evaluation := by
  rw [taskEnd, h]
  rfl

/-! ## Tasks -/

namespace Task

/-- The evaluations that a task will still hand in if it is left to itself: one or none. -/
def owed (program : Program) : Task → List Evaluation
  | .waiting index case => [evaluate program index case]
  | .running evaluation => [evaluation.finish program]
  | .finished (.evaluated evaluation) => [evaluation]
  | .finished _ => []
  | .joined => []

/-- The invocations that were made for a task, until it is joined. -/
def made : Task → List (Phase × String)
  | .running evaluation => evaluation.calls
  | .finished (.evaluated evaluation) => evaluation.calls
  | _ => []

/-- A task that ended without an evaluation. -/
def IsBroken : Task → Prop
  | .finished .poolClosed => True
  | .finished (.panicked _) => True
  | _ => False

end Task

/-! ## One task among others -/

section

variable {α : Type} {tasks : List Task} {i : Nat} {old new : Task} {f : Task → List α}

/-- Setting a task changes one place of the list and nothing on either side of it. -/
theorem exists_set_eq (h : tasks[i]? = some old) :
    ∃ before after, tasks = before ++ old :: after ∧
      ∀ new, tasks.set i new = before ++ new :: after := by
  obtain ⟨hi, rfl⟩ := List.getElem?_eq_some_iff.mp h
  refine ⟨tasks.take i, tasks.drop (i + 1), ?_, fun new => ?_⟩
  · rw [← List.drop_eq_getElem_cons hi, List.take_append_drop]
  · rw [List.set_eq_take_append_cons_drop, if_pos hi]

theorem flatMap_set_of_eq (h : tasks[i]? = some old) (hf : f new = f old) :
    (tasks.set i new).flatMap f = tasks.flatMap f := by
  obtain ⟨before, after, htasks, hset⟩ := exists_set_eq h
  rw [hset, htasks]
  simp only [List.flatMap_append, List.flatMap_cons, hf]

/-- What one task gains all tasks together gain. -/
theorem flatMap_set_of_gain {gain : List α} (h : tasks[i]? = some old)
    (hf : f new = f old ++ gain) :
    ((tasks.set i new).flatMap f).Perm (tasks.flatMap f ++ gain) := by
  obtain ⟨before, after, htasks, hset⟩ := exists_set_eq h
  rw [hset, htasks]
  simp only [List.flatMap_append, List.flatMap_cons, hf, List.append_assoc]
  exact List.perm_append_comm.append_left _ |>.append_left _

/-- What one task loses all tasks together lose. -/
theorem flatMap_set_of_nil (h : tasks[i]? = some old) (hf : f new = []) :
    (f old ++ (tasks.set i new).flatMap f).Perm (tasks.flatMap f) := by
  obtain ⟨before, after, htasks, hset⟩ := exists_set_eq h
  rw [hset, htasks]
  simp only [List.flatMap_append, List.flatMap_cons, hf, List.nil_append, ← List.append_assoc]
  exact List.perm_append_comm.append_right _

end

/-! ## The accounts -/

namespace Pool

/-- What holds of a pool in a run over cases, whatever steps were taken. -/
structure Accounts (jobs : Nat) (program : Program) (cases : List TestCase) (pool : Pool) :
    Prop where
  isOpen : pool.closed = false
  noFailure : pool.failure? = none
  noBroken : ∀ task ∈ pool.tasks, ¬ task.IsBroken
  /-- Every permit is free or held by one task. -/
  permits : pool.free + pool.held = workers jobs
  /-- What was joined and what is owed are the evaluations of all cases. -/
  evaluations : (pool.joined ++ pool.tasks.flatMap (Task.owed program)).Perm
    (evaluateAll program cases)
  calls : pool.calls.Perm
    (pool.joined.flatMap Evaluation.calls ++ pool.tasks.flatMap Task.made)
  announced : pool.announced = pool.joined.map Evaluation.outcome

variable {jobs : Nat} {program : Program} {cases : List TestCase} {pool : Pool} {i : Nat}
  {old : Task}

theorem held_setTask (h : pool.tasks[i]? = some old) (new : Task) :
    (pool.setTask i new).held + old.holdsPermit.toNat = pool.held + new.holdsPermit.toNat := by
  obtain ⟨before, after, htasks, hset⟩ := exists_set_eq h
  show (pool.tasks.set i new).countP _ + _ = pool.tasks.countP _ + _
  rw [hset, htasks]
  simp only [List.countP_append, List.countP_cons]
  cases old.holdsPermit <;> cases new.holdsPermit <;> simp <;> omega

theorem noBroken_set {new : Task} (h : ∀ task ∈ pool.tasks, ¬ task.IsBroken)
    (hnew : ¬ new.IsBroken) : ∀ task ∈ pool.tasks.set i new, ¬ task.IsBroken := by
  intro task htask
  rcases List.mem_or_eq_of_mem_set htask with htask | rfl
  · exact h task htask
  · exact hnew

theorem owed_tasksFrom (program : Program) (first : Nat) (cases : List TestCase) :
    (tasksFrom first cases).flatMap (Task.owed program) =
      cases.mapIdx fun i case => evaluate program (i + first) case := by
  induction cases generalizing first with
  | nil => rfl
  | cons case rest ih =>
    rw [tasksFrom, List.flatMap_cons, List.mapIdx_cons, ih, Task.owed, Nat.zero_add]
    simp only [List.singleton_append, Nat.add_right_comm, Nat.add_assoc]

theorem eq_waiting_of_mem_tasksFrom {first : Nat} {task : Task}
    (h : task ∈ tasksFrom first cases) : ∃ index case, task = .waiting index case := by
  induction cases generalizing first with
  | nil => cases h
  | cons case rest ih =>
    rcases List.mem_cons.mp h with rfl | h
    · exact ⟨first, case, rfl⟩
    · exact ih h

theorem setUp_of_le (h : jobs ≤ maxWorkers) (cases : List TestCase) :
    setUp jobs cases = .ok (start jobs cases) := by
  have hworkers : workers jobs ≤ maxWorkers := Nat.max_le.mpr ⟨h, by decide⟩
  rw [setUp, if_pos hworkers]

theorem held_start (jobs : Nat) (cases : List TestCase) : (start jobs cases).held = 0 := by
  refine List.countP_eq_zero.mpr fun task h => ?_
  obtain ⟨index, case, rfl⟩ := eq_waiting_of_mem_tasksFrom h
  exact Bool.false_ne_true

/-- At the start everything is owed. -/
theorem accounts_start (jobs : Nat) (program : Program) (cases : List TestCase) :
    Accounts jobs program cases (start jobs cases) := by
  have hwaiting : ∀ task ∈ (start jobs cases).tasks, ∃ index case, task = .waiting index case :=
    fun task h => eq_waiting_of_mem_tasksFrom h
  have hmade : (start jobs cases).tasks.flatMap Task.made = [] := by
    refine List.flatMap_eq_nil_iff.mpr fun task h => ?_
    obtain ⟨index, case, rfl⟩ := hwaiting task h
    rfl
  refine ⟨rfl, rfl, fun task h => ?_, ?_, ?_, ?_, rfl⟩
  · obtain ⟨index, case, rfl⟩ := hwaiting task h
    exact id
  · rw [held_start]
    rfl
  · show ((tasksFrom 1 cases).flatMap (Task.owed program)).Perm _
    rw [owed_tasksFrom]
    exact .refl _
  · rw [hmade]
    exact .refl _

/-! ## Steps -/

/-- A task moves on: it owes what it owed before, and the invocations it makes are recorded. -/
theorem Accounts.advance {new : Task} {free busiest : Nat} {calls more : List (Phase × String)}
    (h : Accounts jobs program cases pool) (htask : pool.tasks[i]? = some old)
    (hsound : ¬ new.IsBroken) (howed : new.owed program = old.owed program)
    (hmade : new.made = old.made ++ more)
    (hfree : free + new.holdsPermit.toNat = pool.free + old.holdsPermit.toNat)
    (hcalls : calls = pool.calls ++ more) :
    Accounts jobs program cases { pool.setTask i new with free, busiest, calls } where
  isOpen := h.isOpen
  noFailure := h.noFailure
  noBroken := noBroken_set h.noBroken hsound
  permits := by
    have hheld := held_setTask htask new
    have hpermits := h.permits
    show free + (pool.setTask i new).held = workers jobs
    omega
  evaluations := by
    show (pool.joined ++ (pool.tasks.set i new).flatMap _).Perm _
    rw [flatMap_set_of_eq htask howed]
    exact h.evaluations
  calls := by
    have hgain := (flatMap_set_of_gain htask hmade).symm
    show calls.Perm (_ ++ (pool.tasks.set i new).flatMap _)
    rw [hcalls]
    refine (h.calls.append_right more).trans ?_
    rw [List.append_assoc]
    exact hgain.append_left _
  announced := h.announced

theorem Accounts.join {evaluation : Evaluation} (h : Accounts jobs program cases pool)
    (htask : pool.tasks[i]? = some (.finished (.evaluated evaluation))) :
    Accounts jobs program cases ((pool.setTask i .joined).collect (.evaluated evaluation)) where
  isOpen := h.isOpen
  noFailure := h.noFailure
  noBroken := noBroken_set h.noBroken id
  permits := by
    have hheld := held_setTask htask .joined
    have := h.permits
    simp only [Task.holdsPermit, Bool.toNat_false] at hheld
    show pool.free + (pool.setTask i _).held = workers jobs
    omega
  -- what the task owed is now joined, and what was made for it is counted with its evaluation
  evaluations := by
    have hloss := flatMap_set_of_nil htask (rfl : Task.owed program .joined = [])
    show (pool.joined ++ [evaluation] ++ (pool.tasks.set i _).flatMap _).Perm _
    rw [List.append_assoc]
    exact (hloss.append_left _).trans h.evaluations
  calls := by
    have hloss := flatMap_set_of_nil htask (rfl : Task.made .joined = [])
    show pool.calls.Perm
      ((pool.joined ++ [evaluation]).flatMap _ ++ (pool.tasks.set i _).flatMap _)
    rw [List.flatMap_append, List.flatMap_singleton, List.append_assoc]
    exact h.calls.trans (hloss.symm.append_left _)
  announced := by
    show pool.announced ++ [evaluation.outcome] = (pool.joined ++ [evaluation]).map _
    rw [List.map_append, h.announced]
    rfl

/-- **Every step keeps the accounts.** The pool is open, so no task is refused a permit, and no task
panics, so every end that is joined is an evaluation. -/
theorem Accounts.step {next : Pool} (hendures : Endures program cases)
    (h : Accounts jobs program cases pool) (hstep : Step program pool next) :
    Accounts jobs program cases next := by
  obtain ⟨i, hi⟩ := hstep
  cases (step?_eq_some_iff.mp hi).2 with
  | @acquire index case htask _ hfree =>
    have hmade : Task.made (.running (.start index case)) =
        Task.made (.waiting index case) ++ [] := rfl
    have hpermit : pool.free - 1 + 1 = pool.free := Nat.sub_add_cancel hfree
    exact h.advance htask id rfl hmade hpermit (List.append_nil _).symm
  | refuse _ hclosed =>
    rw [h.isOpen] at hclosed
    cases hclosed
  | exchange htask hcall =>
    -- one invocation more is made, and the evaluation will end as it would have
    refine h.advance htask id ?_ (Evaluation.calls_step hcall program) rfl rfl
    rw [Task.owed, Evaluation.finish_step, Task.owed]
  | @complete evaluation htask hdone =>
    have howed : Task.owed program (.finished (.evaluated evaluation)) =
        Task.owed program (.running evaluation) := by
      rw [Task.owed, Task.owed, Evaluation.finish_eq_self hdone]
    -- what is owed is one of the evaluations, and none of them broke down
    have hmem : evaluation ∈ evaluateAll program cases := by
      refine h.evaluations.mem_iff.mp (List.mem_append_right _ (List.mem_flatMap.mpr
        ⟨_, List.mem_of_getElem? htask, ?_⟩))
      rw [← howed]
      exact List.mem_cons_self
    rw [Evaluation.taskEnd_of_isBroken_eq_false (hendures.isBroken_eq_false hmem)]
    have hmade : Task.made (.finished (.evaluated evaluation)) =
        Task.made (.running evaluation) ++ [] := (List.append_nil _).symm
    exact h.advance htask id howed hmade rfl (List.append_nil _).symm
  | @join ending htask =>
    have hsound := h.noBroken _ (List.mem_of_getElem? htask)
    cases ending with
    | evaluated evaluation => exact h.join htask
    | poolClosed => exact absurd trivial hsound
    | panicked report => exact absurd trivial hsound

theorem Accounts.steps {final : Pool} (hendures : Endures program cases)
    (h : Accounts jobs program cases pool)
    (hsteps : Relation.ReflTransGen (Step program) pool final) :
    Accounts jobs program cases final := by
  induction hsteps with
  | refl => exact h
  | tail _ hstep ih => exact ih.step hendures hstep

end Pool

end CompressorBench
