/-!
# Rounding a quotient

A quotient of natural numbers is rounded to the nearest whole number, and a half goes to the even
neighbour.

Main statement: the result lies within half a unit of the quotient (`roundDiv_close`).
-/

namespace CompressorBench.Decimal

/-- The whole number nearest to `numerator / denominator`; of two equally near ones the even one. -/
def roundDiv (numerator denominator : Nat) : Nat :=
  let quotient := numerator / denominator
  let rest := numerator % denominator
  if 2 * rest < denominator then quotient
  else if denominator < 2 * rest then quotient + 1
  else if quotient % 2 = 0 then quotient else quotient + 1

/-- **The rounded quotient is within half a unit.** -/
theorem roundDiv_close (n d : Nat) (hd : 0 < d) :
    2 * (roundDiv n d * d) ≤ 2 * n + d ∧ 2 * n ≤ 2 * (roundDiv n d * d) + d := by
  have hdiv : d * (n / d) + n % d = n := Nat.div_add_mod n d
  have hlt : n % d < d := Nat.mod_lt n hd
  have hcomm : n / d * d = d * (n / d) := Nat.mul_comm _ _
  have hsucc : (n / d + 1) * d = d * (n / d) + d := by rw [Nat.add_mul, hcomm, Nat.one_mul]
  unfold roundDiv
  simp only
  split
  · omega
  · split
    · omega
    · split <;> omega

/-- A half goes to the even neighbour. -/
theorem roundDiv_half {n d : Nat} (h : 2 * (n % d) = d) : roundDiv n d % 2 = 0 := by
  unfold roundDiv
  simp only [h, Nat.lt_irrefl, if_false]
  split <;> omega

/-- A quotient without a rest is not changed. -/
theorem roundDiv_of_mod_eq_zero {n d : Nat} (hd : 0 < d) (h : n % d = 0) :
    roundDiv n d = n / d := by
  simp [roundDiv, h, hd]

end CompressorBench.Decimal
