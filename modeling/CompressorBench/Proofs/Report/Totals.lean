import CompressorBench.Proofs.Evaluation.Echo
import CompressorBench.Proofs.Evaluation.Ranking
import CompressorBench.Proofs.Json.Number
import CompressorBench.Report.Document

/-!
# Sums and averages of scores

The scores of a run are added up with a rounding at every step. A score lies between a small power
of two and 2000; rounding keeps the order and leaves multiples of 2000 as they are, so a sum never
exceeds 2000 for each of its scores, and it is not zero if there are any. Leaving a score out never
makes a sum greater.

* `IsPoints.exists_add`: what one more score does to a sum.
* `exists_denotes_foldl`, `exists_foldl_le`: what adding up many scores comes to, and that fewer of
  them do not come to more.
* `exists_denotes_div`: averages.
* `summary_stays_in_range`: the numbers of a summary.
-/

namespace CompressorBench

open Decimal Binary64

variable {a sum total : Float} {x y : ℚ} {k n : ℕ} {points others : List Float}
  {outcomes : List Outcome}

/-! ## Rounded operations -/

theorem Decimal.Binary64.Denotes.rounds (h : Denotes a x) : Rounds x x := by
  obtain ⟨m, e, hfinite, rfl⟩ := h
  exact rounds_self (isStandard_of_ofBits hfinite).1

/-- A power of two is a number of the format, unless it is very small. -/
theorem rounds_two_zpow {e : ℤ} (he : -1022 ≤ e) : Rounds (2 ^ e) (2 ^ e) := by
  have hvalue : ((fullMantissa : ℕ) : ℚ) * 2 ^ (e - 52) = 2 ^ e := by
    have hfull : ((fullMantissa : ℕ) : ℚ) = 2 ^ (52 : ℤ) := by norm_num [fullMantissa]
    rw [hfull, ← zpow_add₀ two_ne_zero]
    congr 1
    ring
  have hself := rounds_self (m := fullMantissa) (e := e - 52) ⟨by decide, by omega, .inl le_rfl⟩
  rwa [hvalue] at hself

/-- A result that is at most a whole number of 53 binary digits is rounded to such a one. -/
theorem exists_rounds_le (hx : 0 ≤ x) (hle : x ≤ n) (hn : n < 2 * fullMantissa) :
    ∃ z, Rounds x z ∧ z ≤ n ∧ z < 2 ^ 1024 := by
  obtain ⟨z, hz⟩ := exists_rounds hx
  have hzle : z ≤ n := hz.mono (rounds_natCast hn) hle
  exact ⟨z, hz, hzle, hzle.trans_lt (natCast_lt_limit hn)⟩

/-! ## Sums of scores -/

/-- The range of the scores of cases that pass. -/
def IsPoints (a : Float) : Prop := ∃ x, Denotes a x ∧ 2 ^ (-42 : ℤ) ≤ x ∧ x ≤ 2000

theorem Sizes.isPoints (s : Sizes) : IsPoints s.score := by
  obtain ⟨x, hx, hrounds⟩ := s.rounds_score
  refine ⟨x, hx, (rounds_two_zpow (by decide)).mono hrounds s.lt_exact.le, ?_⟩
  exact_mod_cast rounds_le hrounds

/-- **One more score** makes a sum at least as great as it was and as great as the score. -/
theorem IsPoints.exists_add (ha : IsPoints a) (hsum : Denotes sum x) (hx : x ≤ (2000 * k : ℕ))
    (hk : 2000 * (k + 1) < 2 * fullMantissa) :
    ∃ y z, Denotes a y ∧ Rounds (x + y) z ∧ Denotes (sum + a) z ∧ x ≤ z ∧
      2 ^ (-42 : ℤ) ≤ z ∧ z ≤ (2000 * (k + 1) : ℕ) := by
  obtain ⟨y, hy, hlow, hhigh⟩ := ha
  have hx0 := hsum.nonneg
  have hy0 := hy.nonneg
  have hexact : x + y ≤ (2000 * (k + 1) : ℕ) := by
    push_cast at hx ⊢
    linarith
  obtain ⟨z, hz, hzle, hlimit⟩ := exists_rounds_le (by linarith) hexact hk
  have hxz : x ≤ z := hsum.rounds.mono hz (by linarith)
  have hyz : y ≤ z := hy.rounds.mono hz (by linarith)
  exact ⟨y, z, hy, hz, hsum.add hy hz hlimit, hxz, hlow.trans hyz, hzle⟩

/-- **A sum of scores** is at most 2000 for each of them, and it is not zero if there are any. -/
theorem exists_denotes_foldl (hpoints : ∀ a ∈ points, IsPoints a) (hsum : Denotes sum x)
    (hx : x ≤ (2000 * k : ℕ)) (hk : 2000 * (k + points.length) < 2 * fullMantissa) :
    ∃ y, Denotes (points.foldl (· + ·) sum) y ∧ x ≤ y ∧ y ≤ (2000 * (k + points.length) : ℕ) ∧
      (points ≠ [] → 2 ^ (-42 : ℤ) ≤ y) := by
  induction points generalizing sum x k with
  | nil => exact ⟨x, hsum, le_rfl, hx, fun hne => absurd rfl hne⟩
  | cons a rest ih =>
    obtain ⟨ha, hrest⟩ := List.forall_mem_cons.mp hpoints
    have hlength : k + (a :: rest).length = k + 1 + rest.length := by
      rw [List.length_cons]
      omega
    rw [hlength] at hk ⊢
    obtain ⟨-, z, -, -, hz, hxz, hlow, hzle⟩ := ha.exists_add hsum hx (by omega)
    obtain ⟨y, hy, hzy, hyle, -⟩ := ih hrest hz hzle hk
    exact ⟨y, hy, hxz.trans hzy, hyle, fun _ => hlow.trans hzy⟩

/-- **Fewer scores do not come to more**, since rounding keeps the order at every step. -/
theorem exists_foldl_le (hsub : points.Sublist others) (hothers : ∀ a ∈ others, IsPoints a)
    (hsum : Denotes sum x) (htotal : Denotes total y) (hxy : x ≤ y) (hy : y ≤ (2000 * k : ℕ))
    (hk : 2000 * (k + others.length) < 2 * fullMantissa) :
    ∃ u v, Denotes (points.foldl (· + ·) sum) u ∧ Denotes (others.foldl (· + ·) total) v ∧
      u ≤ v := by
  induction hsub generalizing sum total x y k with
  | slnil => exact ⟨x, y, hsum, htotal, hxy⟩
  | cons a _ ih =>
    obtain ⟨ha, hrest⟩ := List.forall_mem_cons.mp hothers
    rw [List.length_cons] at hk
    obtain ⟨-, z, -, -, hz, hyz, -, hzle⟩ := ha.exists_add htotal hy (by omega)
    exact ih hrest hsum hz (hxy.trans hyz) hzle (by omega)
  | cons_cons a _ ih =>
    obtain ⟨ha, hrest⟩ := List.forall_mem_cons.mp hothers
    rw [List.length_cons] at hk
    obtain ⟨p, z, hp, hroundsz, hz, -, -, hzle⟩ := ha.exists_add htotal hy (by omega)
    obtain ⟨q, w, hq, hroundsw, hw, -, -, -⟩ := ha.exists_add hsum (hxy.trans hy) (by omega)
    obtain rfl := hp.eq hq
    exact ih hrest hw hz (hroundsw.mono hroundsz (by linarith)) hzle (by omega)

/-! ## Averages -/

/-- **An average of scores** is at most 2000, and it is not zero unless the sum is. -/
theorem exists_denotes_div (htotal : Denotes total x) (hx : x ≤ (2000 * n : ℕ)) (hn : 0 < n)
    (hlt : 2000 * n < 2 * fullMantissa) :
    ∃ z, Denotes (total / Float.ofNat n) z ∧ Rounds (x / n) z ∧ z ≤ 2000 ∧
      (2 ^ (-42 : ℤ) ≤ x → 0 < z) := by
  have hpos : (0 : ℚ) < n := by exact_mod_cast hn
  have hle : x / n ≤ (2000 : ℕ) := by
    rw [div_le_iff₀ hpos]
    exact_mod_cast hx
  obtain ⟨z, hz, hzle, hlimit⟩ :=
    exists_rounds_le (div_nonneg htotal.nonneg hpos.le) hle (by decide)
  have hcount : Denotes (Float.ofNat n) n := denotes_ofNat (by omega)
  refine ⟨z, htotal.div hcount hpos.ne' hz hlimit, hz, by exact_mod_cast hzle, fun hlow => ?_⟩
  have hcast : (n : ℚ) ≤ 2 ^ (53 : ℤ) := by
    have : n ≤ 2 ^ 53 := by
      simp only [fullMantissa] at hlt
      omega
    exact_mod_cast this
  -- the smallest quotient is still a number of the format
  have hquotient : (2 : ℚ) ^ (-95 : ℤ) ≤ x / n := by
    rw [le_div_iff₀ hpos]
    calc (2 : ℚ) ^ (-95 : ℤ) * n ≤ 2 ^ (-95 : ℤ) * 2 ^ (53 : ℤ) := by gcongr
      _ = 2 ^ (-42 : ℤ) := by rw [← zpow_add₀ two_ne_zero]; norm_num
      _ ≤ x := hlow
  exact lt_of_lt_of_le (by positivity) ((rounds_two_zpow (by decide)).mono hz hquotient)

/-! ## Outcomes of evaluations -/

/-- A case that is made of the text of a file, or of the failure to read one. -/
inductive TestCase.IsOfFile : TestCase → Prop where
  | contents (name contents : String) : IsOfFile (.ofContents name contents)
  | unreadable (name message : String) : IsOfFile (.unreadable name message)

/-- An outcome that an evaluation of such a case has produced. -/
inductive Outcome.IsEvaluated : Outcome → Prop where
  | evaluate (program : Program) (index : Nat) {case : TestCase} (h : case.IsOfFile) :
      IsEvaluated (evaluate program index case).outcome

theorem TestCase.IsOfFile.isSound {case : TestCase} (h : case.IsOfFile) : case.IsSound := by
  cases h with
  | contents name contents => exact isSound_ofContents name contents
  | unreadable name message => exact ⟨nofun, nofun⟩

theorem Outcome.IsEvaluated.isPoints {outcome : Outcome} (h : outcome.IsEvaluated)
    (hscore : outcome.verdict.score? = some a) : IsPoints a := by
  obtain ⟨program, index, hcase⟩ := h
  cases hverdict : (CompressorBench.evaluate program index _).outcome.verdict with
  | success size points =>
    rw [hverdict] at hscore
    obtain ⟨s, -, -, rfl⟩ := exists_sizes_of_success hcase.isSound hverdict
    cases hscore
    exact s.isPoints
  | timeLimitExceeded => rw [hverdict] at hscore; cases hscore
  | runtimeError => rw [hverdict] at hscore; cases hscore
  | presentationError => rw [hverdict] at hscore; cases hscore
  | wrongAnswer => rw [hverdict] at hscore; cases hscore

namespace Report.Summary

theorem isPoints_of_mem_scores (h : ∀ outcome ∈ outcomes, outcome.IsEvaluated)
    (ha : a ∈ scores outcomes) : IsPoints a := by
  obtain ⟨outcome, houtcome, hscore⟩ := List.mem_filterMap.mp ha
  exact (h outcome houtcome).isPoints hscore

theorem scores_eq_nil_iff :
    scores outcomes = [] ↔ ∀ outcome ∈ outcomes, outcome.verdict.isSuccess = false := by
  rw [scores, List.filterMap_eq_nil_iff]
  simp only [← Verdict.isSome_score?, Option.isSome_eq_false_iff, Option.isNone_iff_eq_none]

/-- Turning an outcome into a failure leaves its score out. -/
theorem scores_set_sublist {failed : Outcome} (h : failed.verdict.isSuccess = false)
    (outcomes : List Outcome) (i : Nat) :
    (scores (outcomes.set i failed)).Sublist (scores outcomes) := by
  have hnone : failed.verdict.score? = none := by
    rwa [← Option.isNone_iff_eq_none, ← Option.isSome_eq_false_iff, Verdict.isSome_score?]
  induction outcomes generalizing i with
  | nil => exact .slnil
  | cons outcome rest ih =>
    cases i with
    | zero =>
      have hleft : scores (failed :: rest) = scores rest := List.filterMap_cons_none hnone
      rw [List.set_cons_zero, hleft]
      exact (List.sublist_cons_self outcome rest).filterMap _
    | succ i =>
      rw [List.set_cons_succ, scores, scores, List.filterMap_cons, List.filterMap_cons]
      split
      · exact ih i
      · exact (ih i).cons_cons _

/-! ## Summaries -/

/-- What the numbers of a summary stand for. -/
structure Amounts (summary : Summary) (sum mean : ℚ) : Prop where
  total : Denotes summary.totalScore sum
  average : Denotes summary.averageScore mean
  sum_le : sum ≤ (2000 * summary.passed : ℕ)
  mean_le : mean ≤ 2000
  sum_eq_zero_iff : sum = 0 ↔ summary.passed = 0
  mean_eq_zero_iff : mean = 0 ↔ summary.passed = 0

theorem averageScore_of_ne_nil (h : outcomes ≠ []) :
    (ofOutcomes outcomes).averageScore =
      (ofOutcomes outcomes).totalScore / Float.ofNat outcomes.length := by
  have hempty : outcomes.isEmpty = false := List.isEmpty_eq_false_iff.mpr h
  simp only [ofOutcomes, hempty, Bool.false_eq_true, if_false]

theorem exists_amounts (h : ∀ outcome ∈ outcomes, outcome.IsEvaluated)
    (hlt : 2000 * outcomes.length < 2 * fullMantissa) :
    ∃ sum mean, Amounts (ofOutcomes outcomes) sum mean := by
  have hpassed : (scores outcomes).length ≤ outcomes.length := List.length_filterMap_le _ _
  obtain ⟨sum, hsum, -, hle, hlow⟩ := exists_denotes_foldl (k := 0)
    (fun a ha => isPoints_of_mem_scores h ha) denotes_zero (by simp) (by omega)
  rw [Nat.zero_add] at hle
  have hzero : sum = 0 ↔ (scores outcomes).length = 0 := by
    rw [List.length_eq_zero_iff]
    constructor
    · rintro rfl
      by_contra hne
      exact absurd (hlow hne) (by norm_num)
    · intro hnil
      rw [hnil] at hle
      exact le_antisymm (by simpa using hle) hsum.nonneg
  rcases eq_or_ne outcomes [] with rfl | hne
  · exact ⟨sum, 0, hsum, denotes_zero, hle, by norm_num, hzero, by simp [ofOutcomes, scores]⟩
  · have hall : sum ≤ (2000 * outcomes.length : ℕ) := hle.trans (by exact_mod_cast (by omega))
    obtain ⟨mean, hmean, hrounds, hmeanle, hpos⟩ :=
      exists_denotes_div hsum hall (List.length_pos_iff.mpr hne) hlt
    refine ⟨sum, mean, hsum, averageScore_of_ne_nil hne ▸ hmean, hle, hmeanle, hzero, ?_⟩
    show mean = 0 ↔ (scores outcomes).length = 0
    rw [← hzero]
    constructor
    · rintro rfl
      by_contra hsum0
      have hscores : scores outcomes ≠ [] := mt (congrArg List.length) (mt hzero.mpr hsum0)
      exact absurd (hpos (hlow hscores)) (lt_irrefl 0)
    · rintro rfl
      rw [zero_div] at hrounds
      exact hrounds.unique rounds_zero_zero

/-- **Turning an outcome into a failure** never makes the sum or the average greater. -/
theorem le_of_failed {failed : Outcome} (h : ∀ outcome ∈ outcomes, outcome.IsEvaluated)
    (hlt : 2000 * outcomes.length < 2 * fullMantissa) (hfailed : failed.verdict.isSuccess = false)
    (i : Nat) :
    (ofOutcomes (outcomes.set i failed)).totalScore ≤ (ofOutcomes outcomes).totalScore ∧
      (ofOutcomes (outcomes.set i failed)).averageScore ≤ (ofOutcomes outcomes).averageScore := by
  have hpassed : (scores outcomes).length ≤ outcomes.length := List.length_filterMap_le _ _
  obtain ⟨sum, hsum, -, hle, -⟩ := exists_denotes_foldl (k := 0)
    (fun a ha => isPoints_of_mem_scores h ha) denotes_zero (by simp) (by omega)
  obtain ⟨less, sum', hless, hsum', hlesssum⟩ := exists_foldl_le (k := 0)
    (scores_set_sublist hfailed outcomes i) (fun a ha => isPoints_of_mem_scores h ha) denotes_zero
    denotes_zero le_rfl (by simp) (by omega)
  obtain rfl := hsum.eq hsum'
  refine ⟨(hless.le_iff hsum).mpr hlesssum, ?_⟩
  rcases eq_or_ne outcomes [] with rfl | hne
  · exact (denotes_zero.le_iff denotes_zero).mpr le_rfl
  · have hpos := List.length_pos_iff.mpr hne
    have hset : outcomes.set i failed ≠ [] := by simpa using hne
    have hall : sum ≤ (2000 * outcomes.length : ℕ) := hle.trans (by exact_mod_cast (by omega))
    obtain ⟨mean, hmean, hrounds, -⟩ := exists_denotes_div hsum hall hpos hlt
    obtain ⟨mean', hmean', hrounds', -⟩ :=
      exists_denotes_div hless (hlesssum.trans hall) hpos hlt
    rw [averageScore_of_ne_nil hne, averageScore_of_ne_nil hset, List.length_set]
    exact (hmean'.le_iff hmean).mpr (hrounds'.mono hrounds (by gcongr))

theorem passed_eq_zero_iff :
    (ofOutcomes outcomes).passed = 0 ↔
      ∀ outcome ∈ outcomes, outcome.verdict.isSuccess = false := by
  rw [← scores_eq_nil_iff]
  exact List.length_eq_zero_iff

/-! ## Ranges -/

/-- A number lies between zero and a bound, and its text is that of a number. -/
structure IsWithin (bound a : Float) : Prop where
  nonneg : 0.0 ≤ a
  le : a ≤ bound
  isNaN : a.isNaN = false
  isInf : a.isInf = false
  chars_ne : ∀ layout depth, (Json.float a).chars layout depth ≠ Json.null.chars layout depth

theorem isWithin_of_le {bound : Float} (ha : Denotes a x) (hbound : Denotes bound y)
    (h : x ≤ y) : IsWithin bound a where
  nonneg := (denotes_zero.le_iff ha).mpr ha.nonneg
  le := (ha.le_iff hbound).mpr h
  isNaN := by
    show a.toModel.unpack.isNaN = false
    rcases ha.unpack with ⟨-, hunpack⟩ | ⟨m, e, hm, -, -, hunpack⟩ <;> rw [hunpack] <;> rfl
  isInf := by
    show a.toModel.unpack.isInf = false
    rcases ha.unpack with ⟨-, hunpack⟩ | ⟨m, e, hm, -, -, hunpack⟩ <;> rw [hunpack] <;> rfl
  chars_ne layout depth hnull := by
    obtain ⟨m, e, hfinite, -⟩ := ha
    have htext : Json.IsNumberText Json.isExact (Json.floatChars a) (.float a) :=
      Json.isNumberText_floatChars hfinite
    obtain ⟨c, tail, hchars, hc⟩ := htext.exists_cons
    have hcons : Json.floatChars a = 'n' :: "ull".toList := hnull
    rw [hchars] at hcons
    cases hcons
    exact absurd hc (by decide)

theorem denotes_twoThousand : Denotes 2000.0 2000 :=
  ⟨2000 * 2 ^ 42, -42, by decide +kernel, by norm_num⟩

/-- **The numbers of a summary stay in range.** For outcomes of evaluations, fewer than would take
the sum beyond the whole numbers of 53 binary digits, the sum of the scores lies between zero and
2000 for each case that passed, and the average between zero and 2000; both are finite, and their
texts are those of numbers. Either is zero exactly if no case passed. Turning any of the outcomes
into a failure makes neither of them greater. -/
theorem summary_stays_in_range (h : ∀ outcome ∈ outcomes, outcome.IsEvaluated)
    (hlt : 2000 * outcomes.length < 2 ^ 53) :
    IsWithin (Float.ofNat (2000 * (ofOutcomes outcomes).passed))
        (ofOutcomes outcomes).totalScore ∧
      IsWithin 2000.0 (ofOutcomes outcomes).averageScore ∧
      ((ofOutcomes outcomes).totalScore = 0.0 ↔
        ∀ outcome ∈ outcomes, outcome.verdict.isSuccess = false) ∧
      ((ofOutcomes outcomes).averageScore = 0.0 ↔
        ∀ outcome ∈ outcomes, outcome.verdict.isSuccess = false) ∧
      ∀ i failed, failed.verdict.isSuccess = false →
        (ofOutcomes (outcomes.set i failed)).totalScore ≤ (ofOutcomes outcomes).totalScore ∧
          (ofOutcomes (outcomes.set i failed)).averageScore ≤
            (ofOutcomes outcomes).averageScore := by
  obtain ⟨sum, mean, hamounts⟩ := exists_amounts h hlt
  have hbound : Denotes (Float.ofNat (2000 * (ofOutcomes outcomes).passed))
      (2000 * (ofOutcomes outcomes).passed : ℕ) := by
    have hpassed : (ofOutcomes outcomes).passed ≤ outcomes.length := List.length_filterMap_le _ _
    refine denotes_ofNat ?_
    simp only [fullMantissa]
    omega
  refine ⟨isWithin_of_le hamounts.total hbound hamounts.sum_le,
    isWithin_of_le hamounts.average denotes_twoThousand hamounts.mean_le, ?_, ?_,
    fun i failed hfailed => le_of_failed h hlt hfailed i⟩
  · rw [hamounts.total.eq_iff denotes_zero, hamounts.sum_eq_zero_iff, passed_eq_zero_iff]
  · rw [hamounts.average.eq_iff denotes_zero, hamounts.mean_eq_zero_iff, passed_eq_zero_iff]

/-- The outcomes of a case that an echo passes and of a file that cannot be read. -/
def twoEvaluated : List Outcome :=
  [(evaluate echo 1 (.ofContents "a" "A QUJD")).outcome,
    (evaluate echo 2 (.unreadable "b" "gone")).outcome]

theorem sum_of_two_evaluated :
    (∀ outcome ∈ twoEvaluated, outcome.IsEvaluated) ∧ 2000 * twoEvaluated.length < 2 ^ 53 ∧
      (ofOutcomes twoEvaluated).totalScore ≠ 0.0 ∧
      (ofOutcomes twoEvaluated).averageScore ≤ 2000.0 := by
  have hevaluated : ∀ outcome ∈ twoEvaluated, outcome.IsEvaluated := by
    intro outcome houtcome
    rcases List.mem_pair.mp houtcome with rfl | rfl
    · exact .evaluate echo 1 (.contents "a" "A QUJD")
    · exact .evaluate echo 2 (.unreadable "b" "gone")
  have hlength : 2000 * twoEvaluated.length < 2 ^ 53 := by decide
  obtain ⟨-, haverage, htotal, -⟩ := summary_stays_in_range hevaluated hlength
  refine ⟨hevaluated, hlength, fun hzero => ?_, haverage.le⟩
  have hpayload : (TestCase.ofContents "a" "A QUJD").payload =
      .ok ⟨"QUJD", 3, by decide +kernel, rfl⟩ := payload_of_wordAt? (by decide +kernel) "a"
  have hfailed := htotal.mp hzero _ List.mem_cons_self
  have hverdict := Evaluation.verdict_outcome
    (verdict?_of_echoes echoes_echo hpayload 1 (isMeasured_echo.timesFit_pair _ _))
  rw [hverdict] at hfailed
  cases hfailed

end Report.Summary

end CompressorBench
