import CompressorBench.Proofs.Pool.Times

/-!
# Permits

A task needs a permit to invoke the program, so no more invocations are under way at once than there
are permits. A ledger keeps for every task how many permits it took out of the pool and how many it
put back (`Ledger`): whatever becomes of its case, that is one each in the end, so nothing is lost
and no task waits for ever.

The program may answer as it likes, also differently to the same invocation.

* `Orderly.step`: every step keeps the ledger in order.
* `exists_step`: as long as a task is not joined, some task can move.
* `isJoined_of_stuck`: so a run comes to a halt only when every task is joined.
* `permits_bound_invocations`: what follows for every state that a pool can come to.
-/

namespace CompressorBench

namespace Task

/-- Whether the program is under way for a task. -/
def invokes : Task → Bool
  | .running evaluation => evaluation.position.pending?.isSome
  | _ => false

/-- Whether the verdict on the case of a task is decided. -/
def HasEnded : Task → Prop
  | .finished _ => True
  | .joined => True
  | _ => False

/-- How many permits a task of an open pool took to come to where it is. -/
def permitsTaken : Task → Nat
  | .waiting _ _ => 0
  | _ => 1

/-- How many permits a task of an open pool put back to come to where it is. -/
def permitsReturned : Task → Nat
  | .finished _ => 1
  | .joined => 1
  | _ => 0

/-- A task is not refused, and panics only because its times do not add up. -/
def IsProper : Task → Prop
  | .finished .poolClosed => False
  | .finished (.panicked report) => report = TaskEnd.overflowReport
  | _ => True

theorem isProper_taskEnd (evaluation : Evaluation) : IsProper (.finished evaluation.taskEnd) := by
  unfold Evaluation.taskEnd
  split
  · rfl
  · trivial

theorem permitsTaken_eq (task : Task) :
    task.permitsTaken = task.permitsReturned + task.holdsPermit.toNat := by
  cases task <;> rfl

theorem permitsTaken_le_one (task : Task) : task.permitsTaken ≤ 1 := by
  cases task <;> simp [permitsTaken]

theorem HasEnded.permitsReturned_eq {task : Task} (h : task.HasEnded) :
    task.permitsReturned = 1 := by
  cases task with
  | finished => rfl
  | joined => rfl
  | waiting => cases h
  | running => cases h

/-- The program is under way only for a task with a permit. -/
theorem holdsPermit_of_invokes {task : Task} (h : task.invokes = true) :
    task.holdsPermit = true := by
  cases task with
  | running => rfl
  | waiting => cases h
  | finished => cases h
  | joined => cases h

end Task

namespace Pool

/-! ## Ledgers -/

/-- How many permits each task took out of a pool and put back. -/
structure Ledger where
  taken : Nat → Nat
  returned : Nat → Nat

/-- The ledger of a run without steps. -/
def Ledger.empty : Ledger := ⟨fun _ => 0, fun _ => 0⟩

/-- Enters a step of the task at a position: what the pool has less after it was taken, and what it
has more was put back. -/
def Ledger.enter (ledger : Ledger) (i before after : Nat) : Ledger where
  taken k := if k = i then ledger.taken k + (before - after) else ledger.taken k
  returned k := if k = i then ledger.returned k + (after - before) else ledger.returned k

/-- The states that a pool can come to, each with the ledger of the steps that led there. -/
inductive Run (first : Pool) : Ledger → Pool → Prop where
  | start : Run first .empty first
  | step {ledger : Ledger} {pool next : Pool} {program : Program} {i : Nat}
      (hrun : Run first ledger pool) (hstep : pool.step? program i = some next) :
      Run first (ledger.enter i pool.free next.free) next

/-- One state follows another for some answer of the program. -/
def AnyStep (before after : Pool) : Prop := ∃ program, Step program before after

variable {jobs i : Nat} {cases : List TestCase} {ledger : Ledger} {first pool next : Pool}
  {program : Program} {old new task : Task}

/-- Keeping a ledger does not keep a pool from any of its states. -/
theorem exists_run_iff :
    (∃ ledger, Run first ledger pool) ↔ Relation.ReflTransGen AnyStep first pool := by
  constructor
  · rintro ⟨ledger, hrun⟩
    induction hrun with
    | start => exact .refl
    | step _ hstep ih => exact ih.tail ⟨_, _, hstep⟩
  · intro h
    induction h with
    | refl => exact ⟨_, .start⟩
    | tail _ hstep ih =>
      obtain ⟨program, i, hi⟩ := hstep
      obtain ⟨ledger, hrun⟩ := ih
      exact ⟨_, hrun.step hi⟩

theorem anySteps_of_steps (hsteps : Relation.ReflTransGen (Step program) first pool) :
    Relation.ReflTransGen AnyStep first pool :=
  Relation.ReflTransGen.mono (fun _ _ hstep => ⟨program, hstep⟩) _ _ hsteps

/-! ## The invariant -/

/-- What holds of a pool and its ledger, whatever steps were taken and whatever was answered. -/
structure Orderly (jobs : Nat) (cases : List TestCase) (ledger : Ledger) (pool : Pool) :
    Prop where
  isOpen : pool.closed = false
  /-- Nothing but a panic ends the run. -/
  failure : ∀ failure, pool.failure? = some failure →
    failure = TaskEnd.panicFailure TaskEnd.overflowReport
  noRefusal : ∀ task ∈ pool.tasks, task.IsProper
  length : pool.tasks.length = cases.length
  permits : pool.free + pool.held = workers jobs
  busiest_le : pool.busiest ≤ workers jobs
  taken : ∀ i task, pool.tasks[i]? = some task → ledger.taken i = task.permitsTaken
  returned : ∀ i task, pool.tasks[i]? = some task → ledger.returned i = task.permitsReturned

theorem length_tasksFrom (first : Nat) (cases : List TestCase) :
    (tasksFrom first cases).length = cases.length := by
  induction cases generalizing first with
  | nil => rfl
  | cons case rest ih => rw [tasksFrom, List.length_cons, List.length_cons, ih]

theorem getElem?_tasksFrom {first k : Nat} {case : TestCase} (h : cases[k]? = some case) :
    (tasksFrom first cases)[k]? = some (.waiting (k + first) case) := by
  induction cases generalizing first k with
  | nil => cases h
  | cons head rest ih =>
    cases k with
    | zero =>
      cases h
      rw [Nat.zero_add]
      rfl
    | succ k =>
      rw [Nat.succ_add_eq_add_succ]
      exact ih h

/-- At the start all permits are in the pool. -/
theorem orderly_start (jobs : Nat) (cases : List TestCase) :
    Orderly jobs cases .empty (start jobs cases) := by
  have hwaiting : ∀ task ∈ (start jobs cases).tasks, ∃ index case, task = .waiting index case :=
    fun task h => eq_waiting_of_mem_tasksFrom h
  refine ⟨rfl, nofun, fun task h => ?_, length_tasksFrom 1 cases, ?_, Nat.zero_le _,
    fun i task h => ?_, fun i task h => ?_⟩
  · obtain ⟨index, case, rfl⟩ := hwaiting task h
    trivial
  · rw [held_start]
    rfl
  · obtain ⟨index, case, rfl⟩ := hwaiting task (List.mem_of_getElem? h)
    rfl
  · obtain ⟨index, case, rfl⟩ := hwaiting task (List.mem_of_getElem? h)
    rfl

/-- The entry for the task that moved is what its new state tells, and no other entry changes. -/
theorem entry_of_set {tasks : List Task} {count : Nat → Nat} {f : Task → Nat} {gain : Nat}
    (h : ∀ k task, tasks[k]? = some task → count k = f task) (htask : tasks[i]? = some old)
    (hnew : f new = f old + gain) (k : Nat) (task : Task)
    (hk : (tasks.set i new)[k]? = some task) :
    (if k = i then count k + gain else count k) = f task := by
  by_cases hki : k = i
  · rw [if_pos hki, hki, h i old htask, ← hnew]
    rw [hki, List.getElem?_set_self (List.getElem?_eq_some_iff.mp htask).1] at hk
    rw [Option.some.inj hk]
  · rw [if_neg hki]
    rw [List.getElem?_set_ne (Ne.symm hki)] at hk
    exact h k task hk

/-- A task moves on. Whether it holds a permit before and after decides what it takes and puts
back. -/
theorem Orderly.advance (h : Orderly jobs cases ledger pool) (htask : pool.tasks[i]? = some old)
    (htasks : next.tasks = pool.tasks.set i new) (hproper : new.IsProper)
    (hclosed : next.closed = pool.closed)
    (hfailure : ∀ failure, next.failure? = some failure →
      failure = TaskEnd.panicFailure TaskEnd.overflowReport)
    (hbusiest : next.busiest ≤ workers jobs)
    (hfree : next.free + new.holdsPermit.toNat = pool.free + old.holdsPermit.toNat)
    (htaken : new.permitsTaken =
      old.permitsTaken + (new.holdsPermit.toNat - old.holdsPermit.toNat))
    (hreturned : new.permitsReturned =
      old.permitsReturned + (old.holdsPermit.toNat - new.holdsPermit.toNat)) :
    Orderly jobs cases (ledger.enter i pool.free next.free) next where
  isOpen := hclosed.trans h.isOpen
  failure := hfailure
  noRefusal := by
    rw [htasks]
    intro task hmem
    rcases List.mem_or_eq_of_mem_set hmem with hmem | rfl
    · exact h.noRefusal task hmem
    · exact hproper
  length := by rw [htasks, List.length_set, h.length]
  permits := by
    have hheld := held_setTask htask new
    have hpermits := h.permits
    have hnext : next.held = (pool.setTask i new).held := by
      rw [held, htasks]
      rfl
    omega
  busiest_le := hbusiest
  taken := by
    have hgain : pool.free - next.free = new.holdsPermit.toNat - old.holdsPermit.toNat := by
      omega
    rw [htasks]
    rw [← hgain] at htaken
    exact entry_of_set h.taken htask htaken
  returned := by
    have hgain : next.free - pool.free = old.holdsPermit.toNat - new.holdsPermit.toNat := by
      omega
    rw [htasks]
    rw [← hgain] at hreturned
    exact entry_of_set h.returned htask hreturned

/-- **Every step keeps the ledger in order.** -/
theorem Orderly.step (h : Orderly jobs cases ledger pool)
    (hstep : pool.step? program i = some next) :
    Orderly jobs cases (ledger.enter i pool.free next.free) next := by
  cases (step?_eq_some_iff.mp hstep).2 with
  | acquire htask _ hfree =>
    -- the permit was free, so fewer than all were held
    have hpermits := h.permits
    have hbusiest : max pool.busiest (pool.held + 1) ≤ workers jobs :=
      Nat.max_le.mpr ⟨h.busiest_le, by omega⟩
    exact h.advance htask rfl trivial rfl h.failure hbusiest (Nat.sub_add_cancel hfree) rfl rfl
  | refuse _ hclosed =>
    rw [h.isOpen] at hclosed
    cases hclosed
  | exchange htask => exact h.advance htask rfl trivial rfl h.failure h.busiest_le rfl rfl rfl
  | complete htask =>
    exact h.advance htask rfl (Task.isProper_taskEnd _) rfl h.failure h.busiest_le rfl rfl rfl
  | @join ending htask =>
    have hproper := h.noRefusal _ (List.mem_of_getElem? htask)
    cases ending with
    | evaluated => exact h.advance htask rfl trivial rfl h.failure h.busiest_le rfl rfl rfl
    | poolClosed => cases hproper
    | panicked report =>
      cases (show report = TaskEnd.overflowReport from hproper)
      exact h.advance htask rfl trivial rfl (fun _ hfailure => (Option.some.inj hfailure).symm)
        h.busiest_le rfl rfl rfl

theorem Orderly.run (hrun : Run (start jobs cases) ledger pool) :
    Orderly jobs cases ledger pool := by
  induction hrun with
  | start => exact orderly_start jobs cases
  | step _ hstep ih => exact ih.step hstep

theorem orderly_of_steps (hsteps : Relation.ReflTransGen AnyStep (start jobs cases) pool) :
    ∃ ledger, Orderly jobs cases ledger pool := by
  obtain ⟨ledger, hrun⟩ := exists_run_iff.mpr hsteps
  exact ⟨ledger, Orderly.run hrun⟩

/-! ## Invocations -/

/-- How many invocations are under way. -/
def inFlight (pool : Pool) : Nat := pool.tasks.countP Task.invokes

theorem inFlight_le_held (pool : Pool) : pool.inFlight ≤ pool.held :=
  List.countP_mono_left fun _ _ => Task.holdsPermit_of_invokes

/-- A step that adds an invocation ends one that was under way, and the permit is kept. -/
theorem calls_of_step (hstep : pool.step? program i = some next)
    (hcalls : next.calls ≠ pool.calls) :
    ∃ evaluation call, pool.tasks[i]? = some (.running evaluation) ∧
      evaluation.position.pending? = some call ∧ next.calls = pool.calls ++ [call] ∧
      next.tasks[i]? = some (.running (evaluation.step program)) := by
  cases (step?_eq_some_iff.mp hstep).2 with
  | exchange htask hcall =>
    have hi := (List.getElem?_eq_some_iff.mp htask).1
    exact ⟨_, _, htask, hcall, rfl, List.getElem?_set_self hi⟩
  | acquire => exact absurd rfl hcalls
  | refuse => exact absurd rfl hcalls
  | complete => exact absurd rfl hcalls
  | @join ending htask => cases ending <;> exact absurd rfl hcalls

/-! ## Progress -/

theorem exists_step_of_move (hfailure : pool.failure? = none) (h : Move program pool i next) :
    ∃ next, Step program pool next :=
  ⟨next, i, step?_eq_some_iff.mpr ⟨hfailure, h⟩⟩

/-- A task with a permit can always move: each invocation comes to its end. -/
theorem exists_step_of_running {evaluation : Evaluation} (hfailure : pool.failure? = none)
    (hi : pool.tasks[i]? = some (.running evaluation)) (program : Program) :
    ∃ next, Step program pool next := by
  cases hcall : evaluation.position.pending? with
  | none => exact exists_step_of_move hfailure (.complete hi hcall)
  | some call => exact exists_step_of_move hfailure (.exchange hi hcall)

/-- **As long as a task is not joined, some task can move.** A task that waits in vain for a permit
is no obstacle, because then another one holds it. -/
theorem exists_step (hopen : pool.closed = false) (hfailure : pool.failure? = none)
    (hpermits : 0 < pool.free + pool.held) (htask : task ∈ pool.tasks) (hne : task ≠ .joined)
    (program : Program) : ∃ next, Step program pool next := by
  obtain ⟨i, hi⟩ := List.mem_iff_getElem?.mp htask
  cases task with
  | joined => exact absurd rfl hne
  | finished ending => exact exists_step_of_move hfailure (.join hi)
  | running evaluation => exact exists_step_of_running hfailure hi program
  | waiting index case =>
    by_cases hfree : 0 < pool.free
    · exact exists_step_of_move hfailure (.acquire hi hopen hfree)
    -- all permits are held, so there is a task under way, which never waits for another one
    · have hheld : 0 < pool.held := by omega
      obtain ⟨other, hother, hholds⟩ := List.countP_pos_iff.mp hheld
      obtain ⟨k, hk⟩ := List.mem_iff_getElem?.mp hother
      cases other with
      | running evaluation => exact exists_step_of_running hfailure hk program
      | waiting => cases hholds
      | finished => cases hholds
      | joined => cases hholds

/-- No task can move. -/
def Stuck (program : Program) (pool : Pool) : Prop := ∀ next, ¬ Step program pool next

/-- **A run comes to a halt only when every task is joined.** -/
theorem isJoined_of_stuck (hopen : pool.closed = false) (hfailure : pool.failure? = none)
    (hpermits : pool.free + pool.held = workers jobs) (hstuck : Stuck program pool)
    (htask : task ∈ pool.tasks) : task = .joined := by
  by_cases hjoined : task = .joined
  · exact hjoined
  · have hpositive : 0 < pool.free + pool.held := by
      rw [hpermits]
      exact Nat.le_max_right jobs 1
    obtain ⟨next, hnext⟩ := exists_step hopen hfailure hpositive htask hjoined program
    exact absurd hnext (hstuck next)

/-! ## Every state of a pool -/

/-- **Permits bound the invocations, and no permit is lost.** In every state that a pool can come
to, the free permits and the held ones are as many as the workers, so no more invocations than that
are under way. Each task takes one permit at most, invokes the program only while it has it, and has
put it back once when its verdict is decided, whatever that is. As long as a task is not joined,
some task can move. -/
theorem permits_bound_invocations {jobs : Nat} (h : jobs ≤ maxWorkers) (cases : List TestCase) :
    ∃ first, setUp jobs cases = .ok first ∧
      (∀ pool, (∃ ledger, Run first ledger pool) ↔ Relation.ReflTransGen AnyStep first pool) ∧
      (∀ pool, Relation.ReflTransGen AnyMeasuredStep first pool → pool.failure? = none) ∧
      ∀ ledger pool, Run first ledger pool →
        pool.free + pool.held = max jobs 1 ∧
        pool.inFlight ≤ max jobs 1 ∧ pool.busiest ≤ max jobs 1 ∧
        (∀ program i next, pool.step? program i = some next → next.calls ≠ pool.calls →
          ∃ evaluation call, pool.tasks[i]? = some (.running evaluation) ∧
            evaluation.position.pending? = some call ∧ next.calls = pool.calls ++ [call] ∧
            next.tasks[i]? = some (.running (evaluation.step program))) ∧
        pool.tasks.length = cases.length ∧
        (∀ i task, pool.tasks[i]? = some task → ledger.taken i ≤ 1 ∧
          ledger.taken i = ledger.returned i + task.holdsPermit.toNat ∧
          (task.HasEnded → ledger.returned i = 1)) ∧
        ((∃ task ∈ pool.tasks, task ≠ .joined) → (∀ program, ∃ next, Step program pool next) ∨
          pool.failure? = some (TaskEnd.panicFailure TaskEnd.overflowReport)) := by
  refine ⟨start jobs cases, setUp_of_le h cases, fun pool => exists_run_iff,
    fun pool hsteps => (timely_of_steps hsteps).noFailure, fun ledger pool hrun => ?_⟩
  have horderly := Orderly.run hrun
  have hpermits : pool.free + pool.held = max jobs 1 := horderly.permits
  refine ⟨hpermits, ?_, horderly.busiest_le, ?_, horderly.length, ?_, ?_⟩
  · have hle := inFlight_le_held pool
    omega
  · intro program i next hstep hcalls
    exact calls_of_step hstep hcalls
  · intro i task htask
    rw [horderly.taken i task htask, horderly.returned i task htask]
    exact ⟨task.permitsTaken_le_one, task.permitsTaken_eq, Task.HasEnded.permitsReturned_eq⟩
  · rintro ⟨task, htask, hne⟩
    cases hfailure : pool.failure? with
    | some failure => exact .inr (congrArg some (horderly.failure failure hfailure))
    | none =>
      exact .inl fun program => exists_step horderly.isOpen hfailure (by omega) htask hne program

/-- Two cases and no worker asked for: there is one permit, and the second case takes it and makes
its first invocation. Then no permit is left in the pool, but it does not come to a halt. -/
theorem one_permit_of_two_cases :
    0 ≤ maxWorkers ∧ ∃ first second third,
      setUp 0 [⟨"a", .ok .oneByte⟩, ⟨"b", .ok .oneByte⟩] = .ok first ∧
      first.step? echo 1 = some second ∧ second.step? echo 1 = some third ∧
      third.calls = [(.compress, "QQ==")] ∧ third.free = 0 ∧ third.held = 1 ∧
      third.inFlight ≤ 1 ∧ third.tasks.length = 2 ∧ ∀ program, ∃ last, Step program third last := by
  have hjobs : 0 ≤ maxWorkers := Nat.zero_le maxWorkers
  obtain ⟨first, hsetUp, -, -, hstates⟩ := permits_bound_invocations hjobs
    [⟨"a", .ok .oneByte⟩, ⟨"b", .ok .oneByte⟩]
  have hsteps : ∃ second third, first.step? echo 1 = some second ∧
      second.step? echo 1 = some third ∧ third.calls = [(.compress, "QQ==")] ∧ third.free = 0 ∧
        third.failure? = none ∧ ∃ task ∈ third.tasks, task ≠ .joined := by
    cases hsetUp
    exact ⟨_, _, rfl, rfl, rfl, rfl, rfl, .waiting 1 _, List.mem_cons_self, nofun⟩
  obtain ⟨second, third, hacquire, hexchange, hcalls, hfree, hfailure, hleft⟩ := hsteps
  obtain ⟨hpermits, hflight, -, -, hlength, -, hprogress⟩ :=
    hstates _ third ((Run.start.step hacquire).step hexchange)
  rw [hfree, Nat.zero_add] at hpermits
  have hnext := (hprogress hleft).resolve_right (by rw [hfailure]; exact nofun)
  exact ⟨hjobs, first, second, third, hsetUp, hacquire, hexchange, hcalls, hfree, hpermits, hflight,
    hlength, hnext⟩

end Pool

end CompressorBench
