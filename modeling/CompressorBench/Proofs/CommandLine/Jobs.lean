import CompressorBench.Proofs.Bench.Observation
import CompressorBench.Proofs.CommandLine.Arguments
import CompressorBench.Proofs.CommandLine.ExitStatus
import CompressorBench.Proofs.Json.Number

/-!
# The number of jobs

Every number of 64 bits is accepted as a number of jobs, and a pool has as many workers, but one at
least. There is no such care at the upper end: a pool cannot have more permits than 61 bits count.
With more jobs the header is printed, and then the run is over before any case is evaluated.

* `exists_readCount_iff`, `exists_jobs_iff`: the numbers that are accepted.
* `isKept_hasReadJobs`: every argument keeps that the number was read from a text.
* `jobs_complete_or_abort`: what becomes of a run.
-/

namespace CompressorBench

open Decimal

namespace CommandLine

/-! ## Counts -/

/-- What a row of digits comes to behind a value that was read before. -/
def digitsValueFrom (value : ℕ) (digits : List Char) : ℕ :=
  digits.foldl (fun n c => n * 10 + (c.toNat - '0'.toNat)) value

theorem le_digitsValueFrom (value : ℕ) (digits : List Char) :
    value ≤ digitsValueFrom value digits := by
  induction digits generalizing value with
  | nil => exact le_rfl
  | cons c digits ih =>
    have hle := ih (value * 10 + (c.toNat - '0'.toNat))
    exact le_trans (by omega) hle

/-- Digits are read as long as their value is not too large. -/
theorem readDigits_of_lt {value : ℕ} {digits : List Char} (h : Literal.AllDigits digits)
    (hlt : digitsValueFrom value digits < countLimit) :
    readDigits value digits = .ok (digitsValueFrom value digits) := by
  induction digits generalizing value with
  | nil => rfl
  | cons c digits ih =>
    obtain ⟨hc, hdigits⟩ := List.forall_mem_cons.mp h
    have hnext : value * 10 + (c.toNat - '0'.toNat) < countLimit :=
      lt_of_le_of_lt (le_digitsValueFrom _ digits) hlt
    rw [readDigits, if_pos hc]
    dsimp only
    rw [if_pos hnext, ih hdigits hlt]
    rfl

/-- What is read is never too large. -/
theorem lt_of_readDigits {value n : ℕ} {digits : List Char} (hvalue : value < countLimit)
    (h : readDigits value digits = .ok n) : n < countLimit := by
  induction digits generalizing value with
  | nil =>
    cases h
    exact hvalue
  | cons c digits ih =>
    rw [readDigits] at h
    split at h
    · dsimp only at h
      split at h
      · next hnext => exact ih hnext h
      · cases h
    · cases h

theorem lt_of_readCount {text : String} {n : ℕ} (h : readCount text = .ok n) : n < countLimit := by
  unfold readCount at h
  split at h
  · cases h
  · cases h
  · exact lt_of_readDigits (by decide) h
  · exact lt_of_readDigits (by decide) h

theorem readCount_natChars {n : ℕ} (h : n < countLimit) :
    readCount (String.ofList (natChars n)) = .ok n := by
  have hvalue : digitsValueFrom 0 (natChars n) = n := Literal.digitsValue_natChars n
  have hread := readDigits_of_lt (Literal.allDigits_natChars n) (hvalue.symm ▸ h)
  unfold readCount
  rw [String.toList_ofList]
  split
  · next hnil => exact absurd hnil (natChars_ne_nil n)
  · next hplus =>
    have hdigit := isDigit_of_mem_natChars (hplus ▸ List.mem_singleton_self '+')
    cases hdigit
  · next digits hplus =>
    have hdigit := isDigit_of_mem_natChars (hplus ▸ List.mem_cons_self)
    cases hdigit
  · rw [hread, hvalue]

/-- **The counts that are accepted** are those of 64 bits. -/
theorem exists_readCount_iff {n : ℕ} : (∃ text, readCount text = .ok n) ↔ n < 2 ^ 64 :=
  ⟨fun ⟨_, h⟩ => lt_of_readCount h, fun h => ⟨_, readCount_natChars h⟩⟩

/-! ## Options -/

theorem jobs?_of_setValue {options next : Options} {option : ValueOption} {value : String}
    (h : options.setValue option value = .ok next) :
    next.jobs? = options.jobs? ∨ ∃ n, readCount value = .ok n ∧ next.jobs? = some n := by
  cases option <;> obtain ⟨new, hnew, hnext⟩ := bind_eq_ok.mp h <;> cases hnext
  case jobs => exact .inr (exists_of_setOnce hnew)
  all_goals exact .inl rfl

/-- **Every argument keeps that the number of jobs was read from a text.** -/
theorem isKept_hasReadJobs : IsKept (HasRead Options.jobs? readCount) :=
  isKept_hasRead rfl jobs?_of_setValue fun h => (values_of_setSwitch h).2

/-- A number of jobs alone, in one argument with the name of the option. -/
theorem readOptions_jobs {text : String} {n : ℕ} (h : readCount text = .ok n) :
    readOptions ["--" ++ "jobs" ++ "=" ++ text] = .ok { Options.none with jobs? := some n } := by
  rw [readOptions_attached (by decide +kernel : longName? "jobs" = some (.valued .jobs))
    (by decide), Options.setValue, h]
  rfl

/-- **The numbers of jobs that are accepted** are those of 64 bits. -/
theorem exists_jobs_iff {n : ℕ} :
    (∃ arguments options, readOptions arguments = .ok options ∧ options.jobs? = some n) ↔
      n < 2 ^ 64 := by
  constructor
  · rintro ⟨arguments, options, hread, hjobs⟩
    exact exists_readCount_iff.mp (isKept_hasReadJobs.readOptions hread n hjobs)
  · intro h
    obtain ⟨text, hread⟩ := exists_readCount_iff.mpr h
    exact ⟨_, _, readOptions_jobs hread, rfl⟩

end CommandLine

/-! ## Workers -/

/-- The workers for a number of jobs are not too many if it is less than `2 ^ 61`. -/
theorem Pool.workers_le_iff {n : ℕ} : Pool.workers n ≤ Pool.maxWorkers ↔ n < 2 ^ 61 := by
  rw [Pool.workers, Nat.max_le, and_iff_left (by decide : 1 ≤ Pool.maxWorkers),
    Pool.maxWorkers]
  omega

theorem Pool.le_maxWorkers_iff {n : ℕ} : n ≤ Pool.maxWorkers ↔ n < 2 ^ 61 := by
  rw [Pool.maxWorkers]
  omega

/-! ## Runs -/

namespace Bench

/-- With a number of jobs, every case of every run has its outcome if the times of each case add up,
as they always do if they are read from a clock, and the report is printed. -/
structure Completes (n : ℕ) : Prop where
  runAll : ∀ program schedule cases, Endures program cases →
    ∃ final, Pool.runAll n program schedule cases = .ok final ∧
      final.outcomes = (evaluateAll program cases).map Evaluation.outcome
  run : ∀ machine config schedule cases, config.jobs = n →
    Discovery.cases machine.tree config.casesDirectory config.pattern = .ok cases →
    (run machine config schedule).printed =
        printedText cases (outcomesOf machine config cases) ∧
      (config.jsonReport? = none →
        (run machine config schedule).result = .ok (outcomesOf machine config cases))

/-- With a number of jobs, no run has any outcome: whatever the cases are, it is over when the
header is printed. -/
structure Aborts (n : ℕ) : Prop where
  runAll : ∀ program schedule cases,
    Pool.runAll n program schedule cases = .error (.ofCause (.tooManyWorkers n))
  run : ∀ machine config schedule cases, config.jobs = n →
    Discovery.cases machine.tree config.casesDirectory config.pattern = .ok cases →
    (run machine config schedule).printed =
        (Report.Layout.ofNames (cases.map TestCase.name)).header cases.length ++
          [Report.lineBreak] ∧
      (run machine config schedule).result = .error (.ofCause (.tooManyWorkers n)) ∧
      (run machine config schedule).exitCode = 101 ∧
      (run machine config schedule).tree = machine.tree

theorem completes_of_lt {n : ℕ} (h : n < 2 ^ 61) : Completes n := by
  have hjobs := Pool.le_maxWorkers_iff.mpr h
  constructor
  · intro program schedule cases hendures
    have hpool := Pool.runAll_of_le hjobs hendures schedule
    exact ⟨_, hpool, Pool.outcomes_of_runAll hpool⟩
  · rintro machine config schedule cases rfl hcases
    obtain ⟨pool, hpool⟩ := runAll_invoke hjobs config.runner machine schedule cases
    obtain ⟨hprinted, -⟩ := runCases_of_runAll hpool
    obtain ⟨hresult, -⟩ := run_of_ok hcases hjobs schedule
    refine ⟨?_, fun hreport => ?_⟩
    · rw [run_of_cases hcases, hprinted, Pool.outcomes_of_runAll hpool]
      rfl
    · rw [hresult, writeReport, hreport]
      rfl

theorem aborts_of_le {n : ℕ} (h : 2 ^ 61 ≤ n) : Aborts n := by
  have hjobs : ¬ n ≤ Pool.maxWorkers := by rwa [Pool.le_maxWorkers_iff, not_lt]
  constructor
  · exact Pool.runAll_of_lt hjobs
  · rintro machine config schedule cases rfl hcases
    have hpool := Pool.runAll_of_lt hjobs (config.runner.invoke machine) schedule cases
    rw [run_of_cases hcases]
    simp only [runCases, hpool, BenchRun.exitCode, true_and, and_true]
    rfl

end Bench

namespace CommandLine

open Bench (Completes Aborts)

/-- The settings of a run have the number of jobs that was given. -/
theorem jobs_ofOptions {options : Options} {n : ℕ} (h : options.jobs? = some n) (processors : ℕ) :
    (Config.ofOptions processors options).jobs = n := by
  rw [Config.ofOptions, h]
  rfl

/-- **Not every number of jobs that is accepted works.** The accepted numbers are those of 64 bits,
a run has the number that it is given, and there is always a worker. Below `2 ^ 61` every run gives
all cases their outcomes and prints them. From there on the workers are too many, and every run is
over after its header. -/
theorem jobs_complete_or_abort (n : ℕ) :
    ((∃ arguments options, readOptions arguments = .ok options ∧ options.jobs? = some n) ↔
        n < 2 ^ 64) ∧
      (∀ options processors, options.jobs? = some n →
        (Config.ofOptions processors options).jobs = n) ∧
      1 ≤ Pool.workers n ∧ (Pool.workers n ≤ Pool.maxWorkers ↔ n < 2 ^ 61) ∧
      (n < 2 ^ 61 → Completes n) ∧ (2 ^ 61 ≤ n → Aborts n) := by
  have hpositive : 1 ≤ Pool.workers n := Nat.le_max_right n 1
  refine ⟨exists_jobs_iff, ?_, hpositive, Pool.workers_le_iff, ?_, ?_⟩
  · intro options processors hjobs
    exact jobs_ofOptions hjobs processors
  · intro hfew
    exact Bench.completes_of_lt hfew
  · intro hmany
    exact Bench.aborts_of_le hmany

/-- No job is asked for, and the run has one worker and completes. -/
theorem completes_without_jobs : Pool.workers 0 = 1 ∧ Completes 0 :=
  ⟨rfl, (jobs_complete_or_abort 0).2.2.2.2.1 (by decide)⟩

/-- A number of jobs is accepted, and a run over a single case fails. -/
theorem accepted_jobs_abort :
    ∃ options, readOptions ["--jobs", "2305843009213693952"] = .ok options ∧
      options.jobs? = some 2305843009213693952 ∧
      Pool.maxWorkers < Pool.workers 2305843009213693952 ∧
      Pool.runAll 2305843009213693952 (.stopped "" "" .zero) id [⟨"a", .ok .oneByte⟩] =
        .error (.ofCause (.tooManyWorkers 2305843009213693952)) := by
  have hread : readOptions ["--jobs", "2305843009213693952"] =
      .ok { Options.none with jobs? := some 2305843009213693952 } := by decide +kernel
  exact ⟨_, hread, rfl, by decide, rfl⟩

end CommandLine

end CompressorBench
