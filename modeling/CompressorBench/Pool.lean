import CompressorBench.Evaluation

/-!
# A bounded pool of workers

All cases of a run are evaluated by a pool in which a bounded number of permits go around. A task
waits for a permit, holds it while its case is evaluated, gives it back when the verdict is decided,
and is joined at last. Any task that can move may be the next to do so: the order is up to a
schedule. The outcomes are handed out by the index of their cases, whatever the order was.

A task can also end without an outcome: there is no permit to be had from a closed pool, and a task
panics if its evaluation breaks down. The permit goes back all the same. The first such end that is
joined is the failure of the whole run.

Every step takes a task closer to being joined (`work_step?_lt`), so every run ends.
-/

namespace CompressorBench

/-! ## Tasks -/

/-- How a task ends. -/
inductive TaskEnd where
  | evaluated (evaluation : Evaluation)
  /-- The pool was closed while the task waited for a permit. -/
  | poolClosed
  /-- The task panicked, as the report tells. -/
  | panicked (report : String)

/-- What is reported of a task whose times cannot be added up, without the number of the task. -/
def TaskEnd.overflowReport : String :=
  "task panicked with message \"overflow when adding durations\""

/-- The failure of a run in which a task panicked. -/
def TaskEnd.panicFailure (report : String) : Failure :=
  (Failure.ofCause (.other report)).addContext "Worker task panicked"

/-- What the end of a task is for the run: an evaluation, or the failure of the run. -/
def TaskEnd.result : TaskEnd → Except Failure Evaluation
  | .evaluated evaluation => .ok evaluation
  | .poolClosed =>
    .error ((Failure.ofCause (.other "semaphore closed")).addContext "Worker pool was closed")
  | .panicked report => .error (panicFailure report)

/-- How the task of an evaluation ends. -/
def Evaluation.taskEnd (evaluation : Evaluation) : TaskEnd :=
  if evaluation.isBroken then .panicked TaskEnd.overflowReport else .evaluated evaluation

/-- Where the task for a case stands. -/
inductive Task where
  | waiting (index : Nat) (case : TestCase)
  /-- The task holds a permit. -/
  | running (evaluation : Evaluation)
  | finished (ending : TaskEnd)
  | joined

namespace Task

/-- How many steps a task still takes at most. -/
def work : Task → Nat
  | .waiting _ _ => 5
  | .running evaluation => evaluation.position.remaining + 2
  | .finished _ => 1
  | .joined => 0

/-- Whether a task holds a permit. -/
def holdsPermit : Task → Bool
  | .running _ => true
  | _ => false

/-- Whether nothing is left to do for a task. -/
def isJoined : Task → Bool
  | .joined => true
  | _ => false

end Task

/-- The state of a pool. -/
structure Pool where
  /-- The permits that are free. -/
  free : Nat
  /-- Whether no more permits are given out. -/
  closed : Bool
  /-- The tasks in the order of their cases. -/
  tasks : List Task
  /-- The evaluations that were joined, in the order of joining. -/
  joined : List Evaluation
  /-- The outcomes that the listener was told of, one after the other. -/
  announced : List Outcome
  /-- The invocations that were made and answered, in the order of the answers. -/
  calls : List (Phase × String)
  /-- The failure that ended the run. -/
  failure? : Option Failure
  /-- The largest number of permits that were held at once. -/
  busiest : Nat

namespace Pool

/-- The most permits that a pool can have, `2 ^ 61 - 1`. -/
def maxWorkers : Nat := 2305843009213693951

/-- The number of workers for a number of jobs: at least one. -/
def workers (jobs : Nat) : Nat := max jobs 1

/-- The tasks for a list of cases, counted from `first`. -/
def tasksFrom (first : Nat) : List TestCase → List Task
  | [] => []
  | case :: rest => .waiting first case :: tasksFrom (first + 1) rest

/-- A pool before its first step: all permits are free, and all tasks wait. -/
def start (jobs : Nat) (cases : List TestCase) : Pool :=
  { free := workers jobs, closed := false, tasks := tasksFrom 1 cases, joined := [],
    announced := [], calls := [], failure? := none, busiest := 0 }

/-! ## Steps -/

/-- How many permits are held. -/
def held (pool : Pool) : Nat := pool.tasks.countP Task.holdsPermit

/-- The pool with a task changed. -/
def setTask (pool : Pool) (i : Nat) (task : Task) : Pool :=
  { pool with tasks := pool.tasks.set i task }

/-- Takes in the end of a task. An evaluation is announced and kept; anything else ends the run. -/
def collect (pool : Pool) (ending : TaskEnd) : Pool :=
  match ending.result with
  | .ok evaluation =>
    { pool with
      joined := pool.joined ++ [evaluation]
      announced := pool.announced ++ [evaluation.outcome] }
  | .error failure => { pool with failure? := some failure }

/-- A step of a task, which is known to be at position `i`. A waiting task needs a free permit, or
learns that the pool is closed, and a joined one takes no step. -/
def stepTask? (program : Program) (pool : Pool) (i : Nat) : Task → Option Pool
  | .waiting index case =>
    if pool.closed then some (pool.setTask i (.finished .poolClosed))
    else if 0 < pool.free then
      some { pool.setTask i (.running (.start index case)) with
        free := pool.free - 1, busiest := max pool.busiest (pool.held + 1) }
    else none
  | .running evaluation =>
    match evaluation.position.pending? with
    | some call =>
      some { pool.setTask i (.running (evaluation.step program)) with
        calls := pool.calls ++ [call] }
    | none =>
      some { pool.setTask i (.finished evaluation.taskEnd) with free := pool.free + 1 }
  | .finished ending => some ((pool.setTask i .joined).collect ending)
  | .joined => none

/-- A step of the task at a position, if it can take one. A failure is the end of the run. -/
def step? (program : Program) (pool : Pool) (i : Nat) : Option Pool :=
  match pool.failure?, pool.tasks[i]? with
  | none, some task => pool.stepTask? program i task
  | _, _ => none

/-- One state follows another by a step of some task. -/
def Step (program : Program) (before after : Pool) : Prop :=
  ∃ i, before.step? program i = some after

/-- What a step of the task at a position does, rule by rule. -/
inductive Move (program : Program) (pool : Pool) (i : Nat) : Pool → Prop where
  /-- A waiting task takes a free permit. -/
  | acquire {index : Nat} {case : TestCase} (htask : pool.tasks[i]? = some (.waiting index case))
      (hopen : pool.closed = false) (hfree : 0 < pool.free) :
      Move program pool i { pool.setTask i (.running (.start index case)) with
        free := pool.free - 1, busiest := max pool.busiest (pool.held + 1) }
  /-- A waiting task learns that the pool is closed. -/
  | refuse {index : Nat} {case : TestCase} (htask : pool.tasks[i]? = some (.waiting index case))
      (hclosed : pool.closed = true) :
      Move program pool i (pool.setTask i (.finished .poolClosed))
  /-- A phase comes to its end: the program answers. -/
  | exchange {evaluation : Evaluation} {call : Phase × String}
      (htask : pool.tasks[i]? = some (.running evaluation))
      (hcall : evaluation.position.pending? = some call) :
      Move program pool i { pool.setTask i (.running (evaluation.step program)) with
        calls := pool.calls ++ [call] }
  /-- The verdict is decided, or the task panics, and the permit goes back. -/
  | complete {evaluation : Evaluation} (htask : pool.tasks[i]? = some (.running evaluation))
      (hdone : evaluation.position.pending? = none) :
      Move program pool i { pool.setTask i (.finished evaluation.taskEnd) with
        free := pool.free + 1 }
  /-- The end of a task is taken in. -/
  | join {ending : TaskEnd} (htask : pool.tasks[i]? = some (.finished ending)) :
      Move program pool i ((pool.setTask i .joined).collect ending)

/-- **The rules say all that a step can do.** -/
theorem step?_eq_some_iff {program : Program} {pool next : Pool} {i : Nat} :
    pool.step? program i = some next ↔ pool.failure? = none ∧ Move program pool i next := by
  constructor
  · intro h
    unfold step? at h
    split at h
    · next task hfailure htask =>
      refine ⟨hfailure, ?_⟩
      unfold stepTask? at h
      split at h
      · split at h
        · next hclosed => cases h; exact .refuse htask hclosed
        · next hopen =>
          split at h
          · next hfree => cases h; exact .acquire htask (by simpa using hopen) hfree
          · cases h
      · split at h
        · next hcall => cases h; exact .exchange htask hcall
        · next hdone => cases h; exact .complete htask hdone
      · cases h; exact .join htask
      · cases h
    · cases h
  · rintro ⟨hfailure, hmove⟩
    cases hmove with
    | acquire htask hopen hfree => simp [step?, stepTask?, hfailure, htask, hopen, hfree]
    | refuse htask hclosed => simp [step?, stepTask?, hfailure, htask, hclosed]
    | exchange htask hcall => simp [step?, stepTask?, hfailure, htask, hcall]
    | complete htask hdone => simp [step?, stepTask?, hfailure, htask, hdone]
    | join htask => simp [step?, stepTask?, hfailure, htask]

/-- How many steps tasks together still take at most. -/
def workOf : List Task → Nat
  | [] => 0
  | task :: rest => task.work + workOf rest

/-- How many steps all tasks of a pool together still take at most. -/
def work (pool : Pool) : Nat := workOf pool.tasks

theorem workOf_set_lt {tasks : List Task} {i : Nat} {old new : Task}
    (h : tasks[i]? = some old) (hw : new.work < old.work) :
    workOf (tasks.set i new) < workOf tasks := by
  induction tasks generalizing i with
  | nil => simp at h
  | cons head rest ih =>
    cases i with
    | zero =>
      simp only [List.getElem?_cons_zero, Option.some.injEq] at h
      subst h
      simp only [List.set_cons_zero, workOf]
      omega
    | succ i =>
      simp only [List.getElem?_cons_succ] at h
      have := ih h
      simp only [List.set_cons_succ, workOf]
      omega

@[simp] theorem work_collect (pool : Pool) (ending : TaskEnd) :
    (pool.collect ending).work = pool.work := by
  unfold collect
  split <;> rfl

/-- Every step takes a task closer to being joined. -/
theorem work_step?_lt {program : Program} {before after : Pool} {i : Nat}
    (h : before.step? program i = some after) : after.work < before.work := by
  cases (step?_eq_some_iff.mp h).2 with
  | @acquire index case htask =>
    refine workOf_set_lt htask ?_
    show (Evaluation.start index case).position.remaining + 2 < 5
    have : (Evaluation.start index case).position.remaining ≤ 2 := by
      simp only [Evaluation.start]
      cases Position.start case <;> simp [Position.remaining]
    omega
  | refuse htask => exact workOf_set_lt htask (by simp [Task.work])
  | exchange htask hcall =>
    refine workOf_set_lt htask ?_
    have := Evaluation.remaining_step_lt hcall program
    simp only [Task.work]
    omega
  | complete htask => exact workOf_set_lt htask (by simp only [Task.work]; omega)
  | join htask =>
    rw [work_collect]
    exact workOf_set_lt htask (by simp [Task.work])

/-! ## Runs -/

/-- Whether a task can take a step when a waiting task can or cannot. -/
def canStep (waitingCan : Bool) : Task → Bool
  | .waiting _ _ => waitingCan
  | .running _ => true
  | .finished _ => true
  | .joined => false

/-- The positions of the tasks that can take a step, counted from `first`. -/
def movableFrom (waitingCan : Bool) (first : Nat) : List Task → List Nat
  | [] => []
  | task :: rest =>
    if canStep waitingCan task then first :: movableFrom waitingCan (first + 1) rest
    else movableFrom waitingCan (first + 1) rest

/-- Whether the wait for a permit is over: there is one, or there will be none. -/
def answersWaiting (pool : Pool) : Bool := pool.closed || decide (0 < pool.free)

/-- The positions of the tasks that can take a step. -/
def movable (pool : Pool) : List Nat :=
  if pool.failure?.isSome then [] else movableFrom pool.answersWaiting 0 pool.tasks

theorem mem_movableFrom {waitingCan : Bool} {first i : Nat} {tasks : List Task} :
    i ∈ movableFrom waitingCan first tasks ↔
      first ≤ i ∧ ∃ task, tasks[i - first]? = some task ∧ canStep waitingCan task = true := by
  induction tasks generalizing first with
  | nil => simp [movableFrom]
  | cons task rest ih =>
    have hrest : i ∈ movableFrom waitingCan (first + 1) rest ↔
        first < i ∧ ∃ task', (task :: rest)[i - first]? = some task' ∧
          canStep waitingCan task' = true := by
      rw [ih]
      refine and_congr_right fun h => ?_
      rw [show i - first = i - (first + 1) + 1 by omega, List.getElem?_cons_succ]
    rw [movableFrom]
    rcases Nat.lt_trichotomy i first with h | rfl | h
    · split
      · simp only [List.mem_cons, hrest]; omega
      · rw [hrest]; omega
    · split
      · next ht => simp [ht]
      · next ht => rw [hrest]; simp [ht]
    · split
      · simp only [List.mem_cons, hrest]
        exact ⟨fun hm => hm.elim (fun he => absurd he (by omega)) fun hm => ⟨by omega, hm.2⟩,
          fun hm => .inr ⟨h, hm.2⟩⟩
      · rw [hrest]
        exact ⟨fun hm => ⟨by omega, hm.2⟩, fun hm => ⟨h, hm.2⟩⟩

theorem isSome_stepTask? (program : Program) (pool : Pool) (i : Nat) (task : Task) :
    (pool.stepTask? program i task).isSome = canStep pool.answersWaiting task := by
  cases task with
  | waiting index case =>
    rw [stepTask?, canStep, answersWaiting]
    cases pool.closed with
    | true => rfl
    | false => by_cases hfree : 0 < pool.free <;> simp [hfree]
  | running evaluation =>
    rw [stepTask?, canStep]
    split <;> rfl
  | finished ending => rfl
  | joined => rfl

/-- The movable positions are those whose tasks can take a step. -/
theorem mem_movable_iff {program : Program} {pool : Pool} {i : Nat} :
    i ∈ pool.movable ↔ (pool.step? program i).isSome = true := by
  rw [movable]
  cases hfailure : pool.failure? with
  | some failure => simp [step?, hfailure]
  | none =>
    rw [if_neg (by simp), mem_movableFrom]
    cases htask : pool.tasks[i]? with
    | none => simp [step?, hfailure, htask]
    | some task => simp [step?, hfailure, htask, isSome_stepTask?]

/-- Chooses who moves next: any numbers, each taken modulo the number of the tasks that can move. -/
abbrev Schedule := Nat → Nat

/-- Takes steps until no task can move. -/
def run (program : Program) (schedule : Schedule) (time : Nat) (pool : Pool) : Pool :=
  match pool.movable[schedule time % pool.movable.length]? with
  | none => pool
  | some i =>
    match _h : pool.step? program i with
    | none => pool
    | some next => next.run program schedule (time + 1)
termination_by pool.work
decreasing_by exact work_step?_lt _h

/-- The evaluations by the index of their cases. -/
def ordered (evaluations : List Evaluation) : List Evaluation :=
  evaluations.mergeSort fun a b => decide (a.index ≤ b.index)

/-- The evaluations of a pool by the index of their cases. -/
def evaluations (pool : Pool) : List Evaluation := ordered pool.joined

/-- The outcomes of a pool by the index of their cases. -/
def outcomes (pool : Pool) : List Outcome := pool.evaluations.map Evaluation.outcome

/-- What the run comes to when its pool is in a state; nothing as long as it goes on. -/
def result? (pool : Pool) : Option (Except Failure (List Outcome)) :=
  match pool.failure? with
  | some failure => some (.error failure)
  | none => if pool.tasks.all Task.isJoined then some (.ok pool.outcomes) else none

/-- Sets up the pool for a run, which fails if the workers are too many. -/
def setUp (jobs : Nat) (cases : List TestCase) : Except Failure Pool :=
  if workers jobs ≤ maxWorkers then .ok (start jobs cases)
  else .error (.ofCause (.tooManyWorkers jobs))

/-- Evaluates all cases and gives the pool at the end, or the failure of the run. -/
def runAll (jobs : Nat) (program : Program) (schedule : Schedule) (cases : List TestCase) :
    Except Failure Pool :=
  match setUp jobs cases with
  | .error failure => .error failure
  | .ok pool =>
    let final := pool.run program schedule 0
    match final.failure? with
    | some failure => .error failure
    | none => .ok final

end Pool

end CompressorBench
