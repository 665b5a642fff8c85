import CompressorBench.Proofs.Pool.Panics

/-!
# What a pool comes to

A run of a pool is any row of steps, and it is complete if no task can move any more. Because all
permits are accounted for, this is only so when every task is joined; then nothing is owed, and the
evaluations by their indexes are those of the cases one after the other.

* `ordered_eq_of_perm`: sorting by the indexes undoes the order of joining.
* `runAll_eq_ok_iff`: the schedules give exactly the complete runs.
* `runAll_of_not_endures`: a run fails if the times of a case do not add up.
-/

namespace CompressorBench.Pool

variable {jobs : Nat} {program : Program} {cases : List TestCase} {pool final : Pool}

/-! ## The end of a run -/

theorem Accounts.eq_joined_of_stuck (h : Accounts jobs program cases pool)
    (hstuck : Stuck program pool) {task : Task} (htask : task ∈ pool.tasks) : task = .joined :=
  isJoined_of_stuck h.isOpen h.noFailure h.permits hstuck htask

theorem flatMap_of_stuck {α : Type} {f : Task → List α} (hf : f .joined = [])
    (h : Accounts jobs program cases pool) (hstuck : Stuck program pool) :
    pool.tasks.flatMap f = [] := by
  refine List.flatMap_eq_nil_iff.mpr fun task htask => ?_
  rw [h.eq_joined_of_stuck hstuck htask, hf]

theorem joined_of_stuck (h : Accounts jobs program cases pool) (hstuck : Stuck program pool) :
    pool.joined.Perm (evaluateAll program cases) := by
  have hall := h.evaluations
  rw [flatMap_of_stuck rfl h hstuck, List.append_nil] at hall
  exact hall

theorem calls_of_stuck (h : Accounts jobs program cases pool) (hstuck : Stuck program pool) :
    pool.calls.Perm ((evaluateAll program cases).flatMap Evaluation.calls) := by
  have hcalls := h.calls
  rw [flatMap_of_stuck rfl h hstuck, List.append_nil] at hcalls
  exact hcalls.trans ((joined_of_stuck h hstuck).flatMap_right _)

/-! ## The order of the outcomes -/

theorem map_index_evaluateAll (program : Program) (cases : List TestCase) :
    (evaluateAll program cases).map Evaluation.index = List.range' 1 cases.length := by
  refine List.ext_getElem (by simp [evaluateAll]) fun i hi hi' => ?_
  simp [evaluateAll, index_evaluate, Nat.add_comm]

theorem pairwise_evaluateAll (program : Program) (cases : List TestCase) :
    (evaluateAll program cases).Pairwise fun a b => a.index < b.index := by
  rw [← List.pairwise_map, map_index_evaluateAll]
  exact List.pairwise_lt_range'

theorem eq_of_index_eq {a b : Evaluation} (ha : a ∈ evaluateAll program cases)
    (hb : b ∈ evaluateAll program cases) (h : a.index = b.index) : a = b := by
  obtain ⟨i, hi, rfl⟩ := List.mem_mapIdx.mp ha
  obtain ⟨j, hj, rfl⟩ := List.mem_mapIdx.mp hb
  rw [index_evaluate, index_evaluate] at h
  cases h
  rfl

theorem pairwise_ordered (evaluations : List Evaluation) :
    (ordered evaluations).Pairwise fun a b => a.index ≤ b.index := by
  have hsorted : (ordered evaluations).Pairwise fun a b => decide (a.index ≤ b.index) = true := by
    refine List.pairwise_mergeSort ?_ ?_ evaluations
    · intro a b c hab hbc
      simp only [decide_eq_true_eq] at *
      omega
    · intro a b
      simp only [Bool.or_eq_true, decide_eq_true_eq]
      omega
  exact hsorted.imp of_decide_eq_true

/-- **Sorting by the indexes undoes the order of joining**, because no two cases share one. -/
theorem ordered_eq_of_perm {evaluations : List Evaluation}
    (h : evaluations.Perm (evaluateAll program cases)) :
    ordered evaluations = evaluateAll program cases := by
  have hperm : (ordered evaluations).Perm (evaluateAll program cases) :=
    (List.mergeSort_perm _ _).trans h
  refine hperm.eq_of_pairwise ?_ (pairwise_ordered evaluations)
    ((pairwise_evaluateAll program cases).imp Nat.le_of_lt)
  intro a b ha hb hab hba
  exact eq_of_index_eq (hperm.mem_iff.mp ha) hb (Nat.le_antisymm hab hba)

theorem evaluations_of_stuck (h : Accounts jobs program cases pool)
    (hstuck : Stuck program pool) : pool.evaluations = evaluateAll program cases :=
  ordered_eq_of_perm (joined_of_stuck h hstuck)

theorem stuck_iff : Stuck program pool ↔ pool.movable = [] := by
  have hsome : (∃ next, Step program pool next) ↔ ∃ i, i ∈ pool.movable := by
    simp only [@mem_movable_iff program, Option.isSome_iff_exists, Step]
    exact exists_comm
  rw [Stuck, ← not_exists, hsome, List.eq_nil_iff_forall_not_mem, not_exists]

theorem run_of_stuck (h : Stuck program pool) (schedule : Schedule) (time : Nat) :
    pool.run program schedule time = pool := by
  rw [run, stuck_iff.mp h]
  rfl

theorem run_of_step {schedule : Schedule} {time i : Nat} {next : Pool}
    (hi : pool.movable[schedule time % pool.movable.length]? = some i)
    (hstep : pool.step? program i = some next) :
    pool.run program schedule time = next.run program schedule (time + 1) := by
  rw [run, hi]
  dsimp only
  split
  · next hnone => rw [hstep] at hnone; cases hnone
  · next hsome => rw [hstep] at hsome; cases hsome; rfl

/-- A schedule picks a task as long as one can move. -/
theorem exists_step_of_not_stuck (h : ¬ Stuck program pool) (schedule : Schedule) (time : Nat) :
    ∃ i next, pool.movable[schedule time % pool.movable.length]? = some i ∧
      pool.step? program i = some next := by
  have hpos : 0 < pool.movable.length := by
    rw [stuck_iff] at h
    exact List.length_pos_iff.mpr h
  have hlt := Nat.mod_lt (schedule time) hpos
  have hmem := List.getElem_mem hlt
  obtain ⟨next, hnext⟩ := Option.isSome_iff_exists.mp (mem_movable_iff.mp hmem)
  exact ⟨_, next, List.getElem?_eq_getElem hlt, hnext⟩

/-- What a schedule gives is a complete run. -/
theorem steps_run (program : Program) (schedule : Schedule) (time : Nat) (pool : Pool) :
    Relation.ReflTransGen (Step program) pool (pool.run program schedule time) ∧
      Stuck program (pool.run program schedule time) := by
  by_cases hstuck : Stuck program pool
  · rw [run_of_stuck hstuck]
    exact ⟨.refl, hstuck⟩
  · obtain ⟨i, next, hi, hnext⟩ := exists_step_of_not_stuck hstuck schedule time
    rw [run_of_step hi hnext]
    have ih := steps_run program schedule (time + 1) next
    exact ⟨ih.1.head ⟨i, hnext⟩, ih.2⟩
termination_by pool.work
decreasing_by exact work_step?_lt hnext

/-- A run depends on the choices from its start on only. -/
theorem run_congr {schedule other : Schedule} {time : Nat}
    (h : ∀ t, time ≤ t → schedule t = other t) (pool : Pool) :
    pool.run program schedule time = pool.run program other time := by
  by_cases hstuck : Stuck program pool
  · rw [run_of_stuck hstuck, run_of_stuck hstuck]
  · obtain ⟨i, next, hi, hnext⟩ := exists_step_of_not_stuck hstuck schedule time
    have hi' := hi
    rw [h time (Nat.le_refl time)] at hi'
    rw [run_of_step hi hnext, run_of_step hi' hnext]
    exact run_congr (fun t ht => h t (by omega)) next
termination_by pool.work
decreasing_by exact work_step?_lt hnext

/-- Every complete run is what some schedule gives. -/
theorem exists_schedule (hsteps : Relation.ReflTransGen (Step program) pool final)
    (hstuck : Stuck program final) (time : Nat) :
    ∃ schedule, pool.run program schedule time = final := by
  induction hsteps using Relation.ReflTransGen.head_induction_on generalizing time with
  | refl => exact ⟨fun _ => 0, run_of_stuck hstuck _ time⟩
  | @head before next hstep _ ih =>
    obtain ⟨i, hi⟩ := hstep
    obtain ⟨schedule, hrun⟩ := ih (time + 1)
    have hmem : i ∈ before.movable := mem_movable_iff.mpr (by rw [hi]; rfl)
    obtain ⟨k, hk, hget⟩ := List.getElem_of_mem hmem
    -- the schedule picks this step first, and then does what it did
    let prepended : Schedule := fun t => if t = time then k else schedule t
    have hfirst : before.movable[prepended time % before.movable.length]? = some i := by
      show before.movable[(if time = time then k else _) % before.movable.length]? = some i
      rw [if_pos rfl, Nat.mod_eq_of_lt hk, List.getElem?_eq_getElem hk, hget]
    have hrest : ∀ t, time + 1 ≤ t → prepended t = schedule t := by
      intro t ht
      exact if_neg (by omega)
    refine ⟨prepended, ?_⟩
    rw [run_of_step hfirst hi, run_congr hrest, hrun]

/-! ## Whole runs -/

/-- Too many workers are a failure whatever the program is. -/
theorem runAll_of_lt (h : ¬ jobs ≤ maxWorkers) (program : Program) (schedule : Schedule)
    (cases : List TestCase) :
    runAll jobs program schedule cases = .error (.ofCause (.tooManyWorkers jobs)) := by
  have hworkers : ¬ workers jobs ≤ maxWorkers := fun hle =>
    h (Nat.le_trans (Nat.le_max_left jobs 1) hle)
  rw [runAll, setUp, if_neg hworkers]

theorem le_of_runAll {schedule : Schedule}
    (h : runAll jobs program schedule cases = .ok final) : jobs ≤ maxWorkers := by
  by_cases hjobs : jobs ≤ maxWorkers
  · exact hjobs
  · rw [runAll_of_lt hjobs] at h
    cases h

theorem runAll_of_le (h : jobs ≤ maxWorkers) (hendures : Endures program cases)
    (schedule : Schedule) :
    runAll jobs program schedule cases = .ok ((start jobs cases).run program schedule 0) := by
  have haccounts := (accounts_start jobs program cases).steps hendures
    (steps_run program schedule 0 (start jobs cases)).1
  simp only [runAll, setUp_of_le h, haccounts.noFailure]

/-- **A run fails if the times of a case do not add up**, in whatever order its tasks move. -/
theorem runAll_of_not_endures (h : jobs ≤ maxWorkers) (hlong : ¬ Endures program cases)
    (schedule : Schedule) :
    runAll jobs program schedule cases =
      .error (TaskEnd.panicFailure TaskEnd.overflowReport) := by
  obtain ⟨hsteps, hstuck⟩ := steps_run program schedule 0 (start jobs cases)
  simp only [runAll, setUp_of_le h, failure?_of_stuck hlong hsteps hstuck]

/-- A run that ends well has times that add up. -/
theorem endures_of_runAll {schedule : Schedule}
    (h : runAll jobs program schedule cases = .ok final) : Endures program cases := by
  refine Classical.byContradiction fun hlong => ?_
  rw [runAll_of_not_endures (le_of_runAll h) hlong] at h
  cases h

/-- **The schedules give exactly the complete runs.** -/
theorem runAll_eq_ok_iff (h : jobs ≤ maxWorkers) (hendures : Endures program cases) :
    (∃ schedule, runAll jobs program schedule cases = .ok final) ↔
      Relation.ReflTransGen (Step program) (start jobs cases) final ∧ Stuck program final := by
  simp only [runAll_of_le h hendures, Except.ok.injEq]
  constructor
  · rintro ⟨schedule, rfl⟩
    exact steps_run program schedule 0 (start jobs cases)
  · rintro ⟨hsteps, hstuck⟩
    exact exists_schedule hsteps hstuck 0

/-- What is kept does not depend on the schedule. -/
theorem evaluations_of_runAll {schedule : Schedule}
    (h : runAll jobs program schedule cases = .ok final) :
    final.evaluations = evaluateAll program cases := by
  have hendures := endures_of_runAll h
  obtain ⟨hsteps, hstuck⟩ := (runAll_eq_ok_iff (le_of_runAll h) hendures).mp ⟨schedule, h⟩
  exact evaluations_of_stuck ((accounts_start jobs program cases).steps hendures hsteps) hstuck

/-- What is handed out does not depend on the schedule. -/
theorem outcomes_of_runAll {schedule : Schedule}
    (h : runAll jobs program schedule cases = .ok final) :
    final.outcomes = (evaluateAll program cases).map Evaluation.outcome := by
  rw [outcomes, evaluations_of_runAll h]

/-! ## Runs on the clock -/

end CompressorBench.Pool
