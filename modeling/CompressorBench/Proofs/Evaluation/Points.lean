import CompressorBench.Report.Summary
import CompressorBench.Proofs.Decimal.Scientific

/-!
# Points of programs that gain nothing

Scores are computed in binary64 arithmetic. The sizes of payloads are far below the range in which
whole numbers are rounded, so the sums and products on the way to a score are exact, and what is
compressed to its own size scores exactly 1000. Sums and averages of such scores stay exact up to
`2 ^ 43` cases.

* `score_of_pos`: the guard of a score is for the case that both sizes are zero.
* `score_self`: no gain scores 1000.
* `sum_replicate`, `average_replicate`: many such scores are added without rounding.
-/

namespace CompressorBench

open Decimal Binary64

theorem denotes_thousand : Denotes 1000.0 (1000 : ℕ) :=
  (@denotes_of_isPowerOfTen 1000.0 3 (by decide +kernel)).of_eq (by norm_num)

theorem denotes_two : Denotes 2.0 (2 : ℕ) :=
  ⟨fullMantissa, -51, by decide +kernel, by norm_num [fullMantissa]⟩

section Exact

variable {a b : Float} {m n : ℕ}

/-! ## Whole numbers -/

theorem denotes_add_nat (ha : Denotes a m) (hb : Denotes b n) (h : m + n < 2 * fullMantissa) :
    Denotes (a + b) (m + n : ℕ) := by
  refine ha.add hb ?_ (natCast_lt_limit h)
  rw [← Nat.cast_add]
  exact rounds_natCast h

theorem denotes_mul_nat (ha : Denotes a m) (hb : Denotes b n) (h : m * n < 2 * fullMantissa) :
    Denotes (a * b) (m * n : ℕ) := by
  refine ha.mul hb ?_ (natCast_lt_limit h)
  rw [← Nat.cast_mul]
  exact rounds_natCast h

/-- A division without a rest is exact. -/
theorem denotes_div_nat (ha : Denotes a (m * n : ℕ)) (hb : Denotes b n) (hn : 0 < n)
    (h : m < 2 * fullMantissa) : Denotes (a / b) m := by
  have hne : (n : ℚ) ≠ 0 := by exact_mod_cast hn.ne'
  refine ha.div hb hne ?_ (natCast_lt_limit h)
  rw [Nat.cast_mul, mul_div_cancel_right₀ _ hne]
  exact rounds_natCast h

/-- What is not zero is not equal to zero. -/
theorem beq_zero_of_pos {x : ℚ} (ha : Denotes a x) (hx : x ≠ 0) : (a == 0.0) = false := by
  rcases ha.unpack with ⟨hzero, -⟩ | ⟨m, e, hm, -, -, hunpack⟩
  · exact absurd hzero hx
  · rcases denotes_zero.unpack with ⟨-, hnone⟩ | ⟨k, f, hk, -, hvalue, -⟩
    · show Float.Model.UnpackedFloat.beq a.toModel.unpack (0.0 : Float).toModel.unpack = false
      rw [hunpack, hnone]
      rfl
    · have : (0 : ℚ) < k * 2 ^ f := by positivity
      exact absurd hvalue this.ne

end Exact

/-! ## Scores -/

/-- The sum of two sizes. -/
theorem denotes_sizes {n c : ℕ} (h : n + c < 2 * fullMantissa) :
    Denotes (Float.ofNat n + Float.ofNat c) (n + c : ℕ) :=
  denotes_add_nat (denotes_ofNat (by omega)) (denotes_ofNat (by omega)) h

/-- **The guard of a score does not apply** unless both sizes are zero. -/
theorem score_of_pos {n c : ℕ} (hpos : 0 < n + c) (h : n + c < 2 * fullMantissa) :
    (Float.ofNat n + Float.ofNat c == 0.0) = false ∧
      score n c = 1000.0 * (2.0 * Float.ofNat n) / (Float.ofNat n + Float.ofNat c) := by
  have hguard := beq_zero_of_pos (denotes_sizes h) (by exact_mod_cast hpos.ne')
  refine ⟨hguard, ?_⟩
  simp only [score, hguard, Bool.false_eq_true, if_false]

/-- **What is compressed to its own size scores 1000**, even if it is nothing. -/
theorem score_self {n : ℕ} (h : n < 2 ^ 42) : score n n = 1000.0 := by
  rcases Nat.eq_zero_or_pos n with rfl | hpos
  · decide +kernel
  · have hsum : n + n < 2 * fullMantissa := by
      simp only [fullMantissa]
      omega
    rw [(score_of_pos (by omega) hsum).2]
    have htwice : Denotes (2.0 * Float.ofNat n) (n + n : ℕ) := by
      rw [← two_mul] at hsum ⊢
      exact denotes_mul_nat denotes_two (denotes_ofNat (by omega)) hsum
    have hproduct : Denotes (1000.0 * (2.0 * Float.ofNat n)) (1000 * (n + n) : ℕ) := by
      refine denotes_mul_nat denotes_thousand htwice ?_
      simp only [fullMantissa]
      omega
    have hquotient := denotes_div_nat hproduct (denotes_sizes hsum) (by omega) (by decide)
    exact hquotient.unique denotes_thousand

/-! ## Sums and averages -/

/-- A number is added over and over again. -/
theorem denotes_foldl_replicate {a sum : Float} {k m : ℕ} (ha : Denotes a k) (hsum : Denotes sum m)
    (n : ℕ) (h : m + k * n < 2 * fullMantissa) :
    Denotes ((List.replicate n a).foldl (· + ·) sum) (m + k * n : ℕ) := by
  induction n generalizing sum m with
  | zero => exact hsum
  | succ n ih =>
    have hcount : m + k * (n + 1) = m + k + k * n := by ring
    rw [hcount] at h ⊢
    exact ih (denotes_add_nat hsum ha (by omega)) h

namespace Report.Summary

/-- The sum of many such scores. -/
theorem denotes_sum_replicate {n : ℕ} (h : n < 2 ^ 43) :
    Denotes (sum (List.replicate n 1000.0)) (1000 * n : ℕ) := by
  have hzero : Denotes 0.0 (0 : ℕ) := denotes_zero.of_eq Nat.cast_zero.symm
  have hsum := denotes_foldl_replicate denotes_thousand hzero n
    (by simp only [fullMantissa]; omega)
  rwa [Nat.zero_add] at hsum

/-- Their average. -/
theorem average_replicate {n : ℕ} (hn : 0 < n) (h : n < 2 ^ 43) :
    sum (List.replicate n 1000.0) / Float.ofNat n = 1000.0 := by
  have hcount : Denotes (Float.ofNat n) n := denotes_ofNat (by simp only [fullMantissa]; omega)
  exact (denotes_div_nat (denotes_sum_replicate h) hcount hn (by decide)).unique denotes_thousand

end Report.Summary

end CompressorBench
