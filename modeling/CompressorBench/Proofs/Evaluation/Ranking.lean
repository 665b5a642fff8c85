import CompressorBench.Proofs.Decimal.Order
import CompressorBench.Proofs.Evaluation.Coherence
import CompressorBench.Proofs.Evaluation.Points

/-!
# Scores rank cases by their compression

The sizes of a case that passes are so small that everything on the way to its score is exact; only
the division at the end rounds, and it rounds the exact score to the nearest number. The scores of
two cases with different ratios are fractions with small denominators, which lie further apart than
the numbers of the format do below 2000. So rounding never makes two of them equal, let alone swaps
them.

* `Sizes.rounds_score`: a score is the exact one, rounded once.
* `Sizes.add_lt_of_exact_lt`: different exact scores are far apart.
* `scores_rank_by_ratio`: scores compare as the ratios of the sizes do.
-/

namespace CompressorBench

open Decimal Binary64

/-! ## The sizes of a case -/

/-- The sizes that the score of a case is computed from: a payload is not empty, and neither it nor
what it is compressed to is longer than two mebibytes. -/
structure Sizes where
  original : ℕ
  compressed : ℕ
  original_pos : 0 < original
  original_le : original ≤ 2 ^ 21
  compressed_le : compressed ≤ 2 ^ 21

namespace Sizes

variable (s t : Sizes)

/-- The score of a case of these sizes. -/
def score : Float := CompressorBench.score s.original s.compressed

/-- The score before any rounding. -/
def exact : ℚ := 2000 * s.original / (s.original + s.compressed)

/-- The steps on the way to a score do not round; the division does, and to the nearest number. -/
structure IsRoundedOnce : Prop where
  numerator_lt : 1000 * (2 * s.original) < 2 ^ 53
  denominator_lt : s.original + s.compressed < 2 ^ 53
  original : Denotes (Float.ofNat s.original) s.original
  compressed : Denotes (Float.ofNat s.compressed) s.compressed
  denominator :
    Denotes (Float.ofNat s.original + Float.ofNat s.compressed) (s.original + s.compressed : ℕ)
  double : Denotes (2.0 * Float.ofNat s.original) (2 * s.original : ℕ)
  numerator : Denotes (1000.0 * (2.0 * Float.ofNat s.original)) (1000 * (2 * s.original) : ℕ)
  /-- There is one number that the exact score is rounded to, and the score is that number. -/
  score : ∃ value, Denotes s.score value ∧ ∀ z, Rounds s.exact z ↔ z = value

theorem sum_pos : (0 : ℚ) < s.original + s.compressed := by
  have := s.original_pos
  positivity

theorem sum_lt : s.original + s.compressed < 2 * fullMantissa := by
  have := s.original_le
  have := s.compressed_le
  simp only [fullMantissa]
  omega

theorem sum_le : (s.original + s.compressed : ℚ) ≤ 2 ^ 22 := by
  have hle : s.original + s.compressed ≤ 2 ^ 22 := by
    have := s.original_le
    have := s.compressed_le
    omega
  exact_mod_cast hle

theorem lt_exact : 2 ^ (-42 : ℤ) < s.exact := by
  have hpos : (1 : ℚ) ≤ s.original := by exact_mod_cast s.original_pos
  unfold exact
  rw [lt_div_iff₀ s.sum_pos]
  calc (2 : ℚ) ^ (-42 : ℤ) * (s.original + s.compressed) ≤ 2 ^ (-42 : ℤ) * 2 ^ 22 := by
        gcongr
        exact s.sum_le
    _ < 2000 * 1 := by norm_num
    _ ≤ 2000 * s.original := by gcongr

theorem exact_le : s.exact ≤ 2000 := by
  unfold exact
  rw [div_le_iff₀ s.sum_pos]
  have : (0 : ℚ) ≤ s.compressed := by positivity
  linarith

variable {s} in
/-- The exact score is at most 2000, which is a number of the format. -/
theorem rounds_le {x : ℚ} (h : Rounds s.exact x) : x ≤ (2000 : ℕ) := by
  refine h.mono (rounds_natCast (by decide)) ?_
  exact_mod_cast s.exact_le

theorem denotes_double :
    Denotes (2.0 * Float.ofNat s.original) (2 * s.original : ℕ) := by
  have hle := s.original_le
  refine denotes_mul_nat denotes_two (denotes_ofNat ?_) ?_ <;> simp only [fullMantissa] <;> omega

theorem denotes_numerator :
    Denotes (1000.0 * (2.0 * Float.ofNat s.original)) (1000 * (2 * s.original) : ℕ) := by
  have hle := s.original_le
  refine denotes_mul_nat denotes_thousand s.denotes_double ?_
  simp only [fullMantissa]
  omega

/-- **A score is the exact one, rounded once.** -/
theorem rounds_score : ∃ value, Denotes s.score value ∧ Rounds s.exact value := by
  have hpos := s.original_pos
  obtain ⟨value, hvalue⟩ := exists_rounds (le_trans (by positivity) s.lt_exact.le)
  have hexact : s.exact =
      (1000 * (2 * s.original) : ℕ) / (s.original + s.compressed : ℕ) := by
    unfold exact
    push_cast
    ring
  have hlimit : value < 2 ^ 1024 :=
    (rounds_le hvalue).trans_lt (natCast_lt_limit (n := 2000) (by decide))
  refine ⟨value, ?_, hvalue⟩
  rw [score, (score_of_pos (by omega) s.sum_lt).2]
  rw [hexact] at hvalue
  refine s.denotes_numerator.div (denotes_sizes s.sum_lt) ?_ hvalue hlimit
  exact_mod_cast (by omega : s.original + s.compressed ≠ 0)

theorem isRoundedOnce : s.IsRoundedOnce := by
  have hsum := s.sum_lt
  have hle := s.original_le
  have hle' := s.compressed_le
  obtain ⟨value, hvalue, hrounds⟩ := s.rounds_score
  exact {
    numerator_lt := by omega
    denominator_lt := hsum
    original := denotes_ofNat (by omega)
    compressed := denotes_ofNat (by omega)
    denominator := denotes_sizes hsum
    double := s.denotes_double
    numerator := s.denotes_numerator
    score := ⟨value, hvalue, fun z => ⟨fun hz => hz.unique hrounds, fun hz => hz ▸ hrounds⟩⟩ }

/-! ## Ratios -/

variable {s t}

theorem exact_lt_iff :
    s.exact < t.exact ↔ s.original * t.compressed < t.original * s.compressed := by
  unfold exact
  rw [div_lt_div_iff₀ s.sum_pos t.sum_pos]
  constructor
  · intro h
    have : (s.original * t.compressed : ℚ) < t.original * s.compressed := by linarith
    exact_mod_cast this
  · intro h
    have : (s.original * t.compressed : ℚ) < t.original * s.compressed := by exact_mod_cast h
    linarith

theorem exact_eq_iff :
    s.exact = t.exact ↔ s.original * t.compressed = t.original * s.compressed := by
  rw [eq_iff_le_not_lt, ← not_lt, exact_lt_iff, exact_lt_iff]
  constructor <;> intro h <;> omega

/-- **Different exact scores are far apart**: by more than the last place of any number below 2048,
because their denominators are below `2 ^ 22`. -/
theorem add_lt_of_exact_lt (h : s.exact < t.exact) : s.exact + 2 ^ (-42 : ℤ) < t.exact := by
  have hs := s.sum_pos
  have ht := t.sum_pos
  have hproduct : (s.original + s.compressed : ℚ) * (t.original + t.compressed) ≤ 2 ^ 44 := by
    calc (s.original + s.compressed : ℚ) * (t.original + t.compressed)
        ≤ 2 ^ 22 * 2 ^ 22 := mul_le_mul s.sum_le t.sum_le ht.le (by positivity)
      _ = 2 ^ 44 := by norm_num
  -- the numerators of the difference are whole numbers, so they differ by one at least
  have hstep : (s.original * t.compressed + 1 : ℚ) ≤ t.original * s.compressed := by
    exact_mod_cast exact_lt_iff.mp h
  have hdifference : t.exact - s.exact =
      2000 * (t.original * s.compressed - s.original * t.compressed) /
        ((s.original + s.compressed) * (t.original + t.compressed)) := by
    unfold exact
    field_simp
    ring
  have hgap : (2 : ℚ) ^ (-42 : ℤ) < t.exact - s.exact := by
    rw [hdifference, lt_div_iff₀ (by positivity)]
    calc (2 : ℚ) ^ (-42 : ℤ) * ((s.original + s.compressed) * (t.original + t.compressed))
        ≤ 2 ^ (-42 : ℤ) * 2 ^ 44 := by gcongr
      _ = 4 := by norm_num
      _ < 2000 * (t.original * s.compressed - s.original * t.compressed) := by linarith
  linarith

/-! ## Scores -/

theorem rounds_lt_of_exact_lt {x y : ℚ} (hx : Rounds s.exact x) (hy : Rounds t.exact y)
    (h : s.exact < t.exact) : x < y := by
  refine hx.lt_of_gap hy (e := -42) ?_ (by decide) (add_lt_of_exact_lt h)
  exact t.exact_le.trans_lt (by norm_num)

theorem rounds_lt_iff {x y : ℚ} (hx : Rounds s.exact x) (hy : Rounds t.exact y) :
    x < y ↔ s.exact < t.exact :=
  ⟨fun hlt => not_le.mp fun hle => absurd (hy.mono hx hle) (not_le.mpr hlt),
    rounds_lt_of_exact_lt hx hy⟩

theorem rounds_eq_iff {x y : ℚ} (hx : Rounds s.exact x) (hy : Rounds t.exact y) :
    x = y ↔ s.exact = t.exact := by
  rw [le_antisymm_iff, le_antisymm_iff, ← not_lt, ← not_lt, ← not_lt, ← not_lt,
    rounds_lt_iff hx hy, rounds_lt_iff hy hx]

/-- How the scores of two cases compare. -/
structure RankByRatio (s t : Sizes) : Prop where
  lt_iff : s.score < t.score ↔ s.original * t.compressed < t.original * s.compressed
  eq_iff : s.score = t.score ↔ s.original * t.compressed = t.original * s.compressed
  beq_iff : (s.score == t.score) = true ↔ s.original * t.compressed = t.original * s.compressed

/-- **Scores compare as the ratios of the sizes do.** -/
theorem rankByRatio (s t : Sizes) : RankByRatio s t := by
  obtain ⟨x, hx, hsx⟩ := s.rounds_score
  obtain ⟨y, hy, hty⟩ := t.rounds_score
  exact {
    lt_iff := by rw [hx.lt_iff hy, rounds_lt_iff hsx hty, exact_lt_iff]
    eq_iff := by rw [hx.eq_iff hy, rounds_eq_iff hsx hty, exact_eq_iff]
    beq_iff := by rw [hx.beq_iff hy, rounds_eq_iff hsx hty, exact_eq_iff] }

/-- Sizes of a case that gains nothing. -/
def parity : Sizes := ⟨1, 1, by decide, by decide, by decide⟩

/-- Sizes of a case that is compressed to nothing. -/
def vanishing : Sizes := ⟨1, 0, by decide, by decide, by decide⟩

theorem score_parity : parity.score = 1000.0 := score_self (by decide)

theorem score_vanishing : vanishing.score = 2000.0 := by decide +kernel

theorem score_eq_thousand_iff (s : Sizes) : s.score = 1000.0 ↔ s.original = s.compressed := by
  rw [← score_parity, (rankByRatio s parity).eq_iff]
  simp only [parity]
  omega

theorem score_eq_two_thousand_iff (s : Sizes) : s.score = 2000.0 ↔ s.compressed = 0 := by
  rw [← score_vanishing, (rankByRatio s vanishing).eq_iff]
  simp only [vanishing]
  omega

theorem score_pos (s : Sizes) : 0.0 < s.score := by
  obtain ⟨x, hx, hsx⟩ := s.rounds_score
  rw [denotes_zero.lt_iff hx]
  refine rounds_zero_zero.lt_of_gap hsx (e := -42) (s.exact_le.trans_lt (by norm_num))
    (by decide) ?_
  rw [zero_add]
  exact s.lt_exact

theorem score_le (s : Sizes) : s.score ≤ 2000.0 := by
  obtain ⟨x, hx, hsx⟩ := s.rounds_score
  have htop : Denotes 2000.0 (2000 : ℕ) :=
    ⟨2000 * 2 ^ 42, -42, by decide +kernel, by norm_num⟩
  rw [hx.le_iff htop]
  exact rounds_le hsx

end Sizes

/-! ## The divisor -/

/-- What a score divides by. -/
def divisor (n c : ℕ) : Float := Float.ofNat n + Float.ofNat c

/-- A size of one word is rounded, but not to zero. -/
theorem exists_denotes_ofNat {n : ℕ} (hn : n < 2 ^ 64) :
    ∃ x, Denotes (Float.ofNat n) x ∧ x < 2 ^ 65 ∧ (0 < n → 1 ≤ x) := by
  obtain ⟨x, hx⟩ := exists_rounds (Nat.cast_nonneg (α := ℚ) n)
  have hcast : (n : ℚ) < 2 ^ 64 := by exact_mod_cast hn
  have hlt : x < 2 ^ 65 :=
    calc x ≤ n + 2 ^ (11 : ℤ) / 2 :=
          (hx.bounds (hcast.trans_eq (by norm_num)) (by decide)).2
      _ < 2 ^ 64 + 2 ^ (11 : ℤ) / 2 := by gcongr
      _ < 2 ^ 65 := by norm_num
  refine ⟨x, ?_, hlt, fun hpos => ?_⟩
  · refine denotes_ofScientific (e := 0) (by simpa [decimalValue] using hx) (hlt.trans_le ?_)
    exact pow_le_pow_right₀ one_le_two (by decide)
  · have hone : Rounds 1 1 := by simpa using rounds_natCast (n := 1) (by decide)
    exact hone.mono hx (by exact_mod_cast hpos)

/-- **The divisor is zero only if both sizes are.** -/
theorem exists_denotes_divisor {n c : ℕ} (hn : n < 2 ^ 64) (hc : c < 2 ^ 64) (h : 0 < n + c) :
    ∃ d, Denotes (divisor n c) d ∧ 1 ≤ d := by
  obtain ⟨x, hx, hxlt, hxpos⟩ := exists_denotes_ofNat hn
  obtain ⟨y, hy, hylt, hypos⟩ := exists_denotes_ofNat hc
  have hx0 := hx.nonneg
  have hy0 := hy.nonneg
  have hone : 1 ≤ x + y := by
    rcases Nat.eq_zero_or_pos n with rfl | hpos
    · linarith [hypos (by omega)]
    · linarith [hxpos hpos]
  obtain ⟨d, hd⟩ := exists_rounds (x := x + y) (by linarith)
  have hsum : x + y < 2 ^ 66 := by linarith
  have hlt : d < 2 ^ 67 :=
    calc d ≤ x + y + 2 ^ (13 : ℤ) / 2 :=
          (hd.bounds (hsum.trans_eq (by norm_num)) (by decide)).2
      _ < 2 ^ 66 + 2 ^ (13 : ℤ) / 2 := by gcongr
      _ < 2 ^ 67 := by norm_num
  refine ⟨d, hx.add hy hd (hlt.trans_le (pow_le_pow_right₀ one_le_two (by decide))), ?_⟩
  have hrounds : Rounds 1 1 := by simpa using rounds_natCast (n := 1) (by decide)
  exact hrounds.mono hd hone

/-- **The guard of a score is for two empty sizes**, whatever fits into a word otherwise. -/
theorem score_of_word (n c : UInt64) :
    n = 0 ∧ c = 0 ∧ score n.toNat c.toNat = 1000.0 ∨
      0.0 < divisor n.toNat c.toNat ∧
        score n.toNat c.toNat =
          1000.0 * (2.0 * Float.ofNat n.toNat) / divisor n.toNat c.toNat := by
  rcases Nat.eq_zero_or_pos (n.toNat + c.toNat) with hzero | hpos
  · obtain ⟨hn, hc⟩ := Nat.add_eq_zero_iff.mp hzero
    refine .inl ⟨UInt64.toNat_inj.mp hn, UInt64.toNat_inj.mp hc, ?_⟩
    rw [hn, hc]
    exact score_self (by decide)
  · obtain ⟨d, hd, hone⟩ := exists_denotes_divisor n.toNat_lt c.toNat_lt hpos
    have hguard := beq_zero_of_pos hd (by linarith)
    refine .inr ⟨(denotes_zero.lt_iff hd).mpr (by linarith), ?_⟩
    unfold divisor at hguard ⊢
    simp only [score, hguard, Bool.false_eq_true, if_false]

/-! ## Scores of evaluations -/

/-- A case that passes has such sizes, and its points are their score. -/
theorem exists_sizes_of_success {case : TestCase} (hsound : case.IsSound) {program : Program}
    {index size : ℕ} {points : Float}
    (h : (evaluate program index case).outcome.verdict = .success size points) :
    ∃ s : Sizes, case.size? = some s.original ∧ s.compressed = size ∧ points = s.score := by
  cases hpayload : case.payload with
  | error defect =>
    rw [(evaluate_of_error hpayload program index).1] at h
    cases h
  | ok input =>
    obtain ⟨hpoints, hle, -⟩ := (verdict_eq_success_iff hpayload index).mp h
    let s : Sizes := ⟨input.size, size, hsound.size_pos input hpayload, input.size_le, hle⟩
    refine ⟨s, ?_, rfl, hpoints⟩
    rw [TestCase.size?, hpayload]

/-- **Scores rank cases exactly by their compression.** Every operation before the division is
exact, and the division gives the number nearest to the exact score. So scores compare as the
compressed sizes do, each multiplied by the original size of the other case; they are 1000 for no
gain, 2000 for an empty output only, and between zero and that otherwise. These are the scores of
all evaluations, and whatever two words are given as sizes, nothing is divided by zero. -/
theorem scores_rank_by_ratio :
    (∀ s : Sizes, s.IsRoundedOnce ∧ (s.score = 1000.0 ↔ s.original = s.compressed) ∧
      (s.score = 2000.0 ↔ s.compressed = 0) ∧ 0.0 < s.score ∧ s.score ≤ 2000.0) ∧
    (∀ s t : Sizes, s.RankByRatio t) ∧
    (∀ tree path program index size points,
      (evaluate program index (TestCase.load tree path)).outcome.verdict = .success size points →
        ∃ s : Sizes, (TestCase.load tree path).size? = some s.original ∧ s.compressed = size ∧
          points = s.score) ∧
    ∀ n c : UInt64, n = 0 ∧ c = 0 ∧ score n.toNat c.toNat = 1000.0 ∨
      0.0 < divisor n.toNat c.toNat ∧
        score n.toNat c.toNat =
          1000.0 * (2.0 * Float.ofNat n.toNat) / divisor n.toNat c.toNat := by
  refine ⟨fun s => ?_, Sizes.rankByRatio, ?_, score_of_word⟩
  · exact ⟨s.isRoundedOnce, s.score_eq_thousand_iff, s.score_eq_two_thousand_iff, s.score_pos,
      s.score_le⟩
  · intro tree path program index size points h
    exact exists_sizes_of_success (TestCase.isSound_load tree path) h

end CompressorBench
