import CompressorBench.Decimal.Binary64
import CompressorBench.Decimal.Rounding
import Mathlib

/-!
# The nearest binary64 number

What it means that a number of the format is the nearest to a rational number. A number that is not
zero has a last place: the power of two that its mantissa counts. Rounding counts the last places
and takes the nearest whole number of them, of two equally near ones the even one.

* `Rounds.mono`: a smaller number is not rounded to a greater one; so there is one result only.
* `rounds_self`: a number of the format is rounded to itself.
* `rounds_of_near`: the numbers that are rounded to a given one.
-/

namespace CompressorBench.Decimal

/-! ## The nearest whole number -/

/-- A whole number is nearest to a rational one; of two equally near ones the even one is. -/
structure IsNearest (q : ℚ) (n : ℕ) : Prop where
  ge : (n : ℚ) - 1 / 2 ≤ q
  le : q ≤ n + 1 / 2
  even : q = n - 1 / 2 ∨ q = n + 1 / 2 → n % 2 = 0

theorem isNearest_self (n : ℕ) : IsNearest n n where
  ge := by linarith
  le := by linarith
  even h := by rcases h with h | h <;> linarith

/-- The nearest whole number does not get smaller. -/
theorem IsNearest.mono {q r : ℚ} {m n : ℕ} (hm : IsNearest q m) (hn : IsNearest r n)
    (h : q ≤ r) : m ≤ n := by
  by_contra hlt
  have hsucc : (n : ℚ) + 1 ≤ m := by exact_mod_cast not_le.mp hlt
  -- both lie at the middle between two neighbours, which are not both even
  have hge := hm.ge
  have hle := hn.le
  have hneighbour : m = n + 1 := by
    have : (m : ℚ) = (n + 1 : ℕ) := by push_cast; linarith
    exact_mod_cast this
  have hm2 := hm.even (.inl (by linarith))
  have hn2 := hn.even (.inr (by linarith))
  omega

theorem IsNearest.unique {q : ℚ} {m n : ℕ} (hm : IsNearest q m) (hn : IsNearest q n) : m = n :=
  le_antisymm (hm.mono hn le_rfl) (hn.mono hm le_rfl)

/-- What is rounded to no whole number at all is a half at most. -/
theorem IsNearest.eq_zero_iff {q : ℚ} {n : ℕ} (h : IsNearest q n) : n = 0 ↔ q ≤ 1 / 2 := by
  constructor
  · rintro rfl
    simpa using h.le
  · intro hq
    have hhalf : IsNearest (1 / 2) 0 := ⟨by norm_num, by norm_num, fun _ => rfl⟩
    exact Nat.le_zero.mp (h.mono hhalf hq)

/-- At the middle between two whole numbers the rest is half the divisor. -/
theorem two_mul_mod_of_half {n d k : ℕ} (hd : 0 < d) (h : 2 * n = 2 * d * k + d) :
    2 * (n % d) = d := by
  rw [← Nat.mul_mod_mul_left, h, Nat.mul_add_mod, Nat.mod_eq_of_lt (by omega)]

/-- A rounded quotient is the nearest whole number. -/
theorem isNearest_roundDiv (n : ℕ) {d : ℕ} (hd : 0 < d) :
    IsNearest (n / d : ℚ) (roundDiv n d) := by
  have hpos : (0 : ℚ) < d := by exact_mod_cast hd
  obtain ⟨hle, hge⟩ := roundDiv_close n d hd
  have hle' : (2 : ℚ) * (roundDiv n d * d) ≤ 2 * n + d := by exact_mod_cast hle
  have hge' : (2 : ℚ) * n ≤ 2 * (roundDiv n d * d) + d := by exact_mod_cast hge
  refine ⟨?_, ?_, fun htie => ?_⟩
  · rw [le_div_iff₀ hpos]
    linarith
  · rw [div_le_iff₀ hpos]
    linarith
  · refine roundDiv_half ?_
    rw [div_eq_iff hpos.ne', div_eq_iff hpos.ne'] at htie
    rcases htie with htie | htie
    · have hround : (2 : ℚ) * n + d = 2 * d * roundDiv n d := by linarith
      norm_cast at hround
      cases hk : roundDiv n d with
      | zero => rw [hk] at hround; omega
      | succ k =>
        rw [hk, Nat.mul_succ] at hround
        exact two_mul_mod_of_half hd (k := k) (by omega)
    · have hround : (2 : ℚ) * n = 2 * d * roundDiv n d + d := by linarith
      exact two_mul_mod_of_half hd (by exact_mod_cast hround)

namespace Binary64

/-! ## Last places -/

/-- The last place of a number is `2 ^ exponent`: the number has 53 binary digits down to it, or
fewer if it is the smallest place of the format. -/
structure HasLastPlace (x : ℚ) (exponent : ℤ) : Prop where
  lt : x < 2 ^ (exponent + 53)
  ge : -1074 ≤ exponent
  full : 2 ^ (exponent + 52) ≤ x ∨ exponent = -1074

theorem HasLastPlace.mono {x y : ℚ} {e f : ℤ} (hx : HasLastPlace x e) (hy : HasLastPlace y f)
    (h : x ≤ y) : e ≤ f := by
  by_contra hlt
  rcases hx.full with hfull | hsmall
  · have hstep : (2 : ℚ) ^ (f + 53) ≤ 2 ^ (e + 52) := zpow_le_zpow_right₀ (by norm_num) (by omega)
    have := hy.lt
    linarith
  · have := hy.ge
    omega

/-- A whole number of last places that is rounded has at most 53 binary digits, or is one more. -/
theorem HasLastPlace.le_of_isNearest {x : ℚ} {e : ℤ} {n : ℕ} (hx : HasLastPlace x e)
    (hn : IsNearest (x / 2 ^ e) n) : n ≤ 2 * fullMantissa := by
  refine hn.mono (isNearest_self _) ?_
  have hpos : (0 : ℚ) < 2 ^ e := by positivity
  rw [div_le_iff₀ hpos]
  have hlt := hx.lt
  rw [zpow_add₀ (by norm_num)] at hlt
  norm_num [fullMantissa] at hlt ⊢
  linarith

theorem HasLastPlace.ge_of_isNearest {x : ℚ} {e : ℤ} {n : ℕ} (hx : HasLastPlace x e)
    (hn : IsNearest (x / 2 ^ e) n) : fullMantissa ≤ n ∨ e = -1074 := by
  refine hx.full.imp_left fun hfull => ?_
  refine (isNearest_self _).mono hn ?_
  have hpos : (0 : ℚ) < 2 ^ e := by positivity
  rw [le_div_iff₀ hpos]
  rw [zpow_add₀ (by norm_num)] at hfull
  norm_num [fullMantissa] at hfull ⊢
  linarith

/-! ## Rounding -/

/-- A number is rounded to another one: to the nearest whole number of its last place. -/
def Rounds (x y : ℚ) : Prop :=
  ∃ e n, HasLastPlace x e ∧ IsNearest (x / 2 ^ e) n ∧ y = n * 2 ^ e

/-- **Rounding keeps the order.** -/
theorem Rounds.mono {x y u v : ℚ} (hx : Rounds x u) (hy : Rounds y v) (h : x ≤ y) : u ≤ v := by
  obtain ⟨e, m, he, hm, rfl⟩ := hx
  obtain ⟨f, n, hf, hn, rfl⟩ := hy
  have hpos : (0 : ℚ) < 2 ^ e := by positivity
  rcases (he.mono hf h).eq_or_lt with rfl | hlt
  · have hle := hm.mono hn (by gcongr)
    gcongr
  · -- the smaller number is at most the first one that has the greater last place
    have hm53 := he.le_of_isNearest hm
    have hn52 : fullMantissa ≤ n := (hf.ge_of_isNearest hn).resolve_right (by have := he.ge; omega)
    have hstep : (2 : ℚ) * 2 ^ e ≤ 2 ^ f := by
      rw [← zpow_one_add₀ (by norm_num)]
      exact zpow_le_zpow_right₀ (by norm_num) (by omega)
    calc (m : ℚ) * 2 ^ e ≤ (2 * fullMantissa : ℕ) * 2 ^ e := by gcongr
      _ = fullMantissa * (2 * 2 ^ e) := by push_cast; ring
      _ ≤ fullMantissa * 2 ^ f := by gcongr
      _ ≤ n * 2 ^ f := by gcongr

theorem Rounds.unique {x u v : ℚ} (hu : Rounds x u) (hv : Rounds x v) : u = v :=
  le_antisymm (hu.mono hv le_rfl) (hv.mono hu le_rfl)

/-! ## The numbers of the format -/

/-- The form in which a number of the format is kept: the mantissa has its full length, unless the
exponent is the smallest one. Exponents have no upper bound here. -/
structure IsStandard (mantissa : ℕ) (exponent : ℤ) : Prop where
  lt : mantissa < 2 * fullMantissa
  ge : -1074 ≤ exponent
  full : fullMantissa ≤ mantissa ∨ exponent = -1074

theorem IsStandard.hasLastPlace {m : ℕ} {e : ℤ} (h : IsStandard m e) :
    HasLastPlace (m * 2 ^ e) e where
  lt := by
    have hm : (m : ℚ) < 2 ^ (53 : ℤ) := by exact_mod_cast h.lt
    rw [zpow_add₀ two_ne_zero, mul_comm]
    gcongr
  ge := h.ge
  full := by
    refine h.full.imp_left fun hfull => ?_
    have hm : (2 : ℚ) ^ (52 : ℤ) ≤ m := by exact_mod_cast hfull
    rw [zpow_add₀ two_ne_zero, mul_comm]
    gcongr

/-- A number has one standard form only. -/
theorem IsStandard.unique {m n : ℕ} {e f : ℤ} (hm : IsStandard m e) (hn : IsStandard n f)
    (h : (m : ℚ) * 2 ^ e = n * 2 ^ f) : m = n ∧ e = f := by
  obtain rfl : e = f := le_antisymm (hm.hasLastPlace.mono hn.hasLastPlace h.le)
    (hn.hasLastPlace.mono hm.hasLastPlace h.ge)
  have hpos : (2 : ℚ) ^ e ≠ 0 := by positivity
  exact ⟨by exact_mod_cast mul_right_cancel₀ hpos h, rfl⟩

/-- A number of the format is rounded to itself. -/
theorem rounds_self {m : ℕ} {e : ℤ} (h : IsStandard m e) : Rounds (m * 2 ^ e) (m * 2 ^ e) := by
  have hpos : (2 : ℚ) ^ e ≠ 0 := by positivity
  refine ⟨e, m, h.hasLastPlace, ?_, rfl⟩
  rw [mul_div_cancel_right₀ _ hpos]
  exact isNearest_self m

/-- Zero has the smallest exponent. -/
theorem isStandard_zero : IsStandard 0 (-1074) := ⟨by decide, le_rfl, .inr rfl⟩

theorem IsStandard.exponent_of_zero {e : ℤ} (h : IsStandard 0 e) : e = -1074 :=
  h.full.resolve_left (by decide)

theorem rounds_zero_zero : Rounds 0 0 := by simpa using rounds_self isStandard_zero

/-- How far below a number the middle to the one before it lies, counted in last places. Below the
smallest mantissa of full length the numbers lie twice as close. -/
def gapBelow (mantissa : ℕ) (exponent : ℤ) : ℚ :=
  if mantissa = fullMantissa ∧ -1074 < exponent then 1 / 4 else 1 / 2

theorem gapBelow_le (m : ℕ) (e : ℤ) : gapBelow m e ≤ 1 / 2 := by
  unfold gapBelow
  split <;> norm_num

theorem gapBelow_of_odd {m : ℕ} (h : m % 2 = 1) (e : ℤ) : gapBelow m e = 1 / 2 := by
  refine if_neg fun hfull => ?_
  rw [hfull.1] at h
  exact absurd h (by decide)

/-- Just below the smallest mantissa of full length, the last place is that of the number before. -/
theorem rounds_of_short {x : ℚ} {e : ℤ} (he : -1074 < e)
    (hlow : (fullMantissa : ℚ) - 1 / 4 ≤ x / 2 ^ e) (hshort : x < 2 ^ (e + 52)) :
    Rounds x (fullMantissa * 2 ^ e) := by
  have hpos : (0 : ℚ) < 2 ^ e := by positivity
  have hhigh : x / 2 ^ e < fullMantissa := by
    rw [div_lt_iff₀ hpos]
    rw [zpow_add₀ two_ne_zero, mul_comm] at hshort
    exact hshort.trans_eq (by norm_num [fullMantissa])
  have htwice : x / 2 ^ (e - 1) = 2 * (x / 2 ^ e) := by
    rw [zpow_sub_one₀ two_ne_zero]
    field_simp
  refine ⟨e - 1, 2 * fullMantissa, ⟨?_, by omega, .inl ?_⟩, ⟨?_, ?_, fun _ => by decide⟩, ?_⟩
  · rwa [show e - 1 + 53 = e + 52 by ring]
  · rw [show e - 1 + 52 = 51 + e by ring, zpow_add₀ two_ne_zero, ← le_div_iff₀ hpos]
    norm_num [fullMantissa] at hlow ⊢
    linarith
  · rw [htwice]
    push_cast
    linarith
  · rw [htwice]
    push_cast
    linarith
  · rw [zpow_sub_one₀ two_ne_zero]
    push_cast
    ring

/-- **The numbers that are rounded to a given one** lie between the middles to its neighbours; the
middles themselves do if the mantissa is even. -/
theorem rounds_of_near {x : ℚ} {m : ℕ} {e : ℤ} (h : IsStandard m e)
    (hlow : (m : ℚ) - gapBelow m e ≤ x / 2 ^ e) (hhigh : x / 2 ^ e ≤ m + 1 / 2)
    (hodd : m % 2 = 1 → (m : ℚ) - gapBelow m e < x / 2 ^ e ∧ x / 2 ^ e < m + 1 / 2) :
    Rounds x (m * 2 ^ e) := by
  have hpos : (0 : ℚ) < 2 ^ e := by positivity
  have hgap := gapBelow_le m e
  by_cases hfull : 2 ^ (e + 52) ≤ x ∨ e = -1074
  · have hm53 : (m : ℚ) + 1 ≤ 2 ^ (53 : ℤ) := by exact_mod_cast h.lt
    have hlt : x < 2 ^ (e + 53) := by
      rw [zpow_add₀ two_ne_zero, mul_comm, ← div_lt_iff₀ hpos]
      linarith
    refine ⟨e, m, ⟨hlt, h.ge, hfull⟩, ⟨by linarith, hhigh, fun htie => ?_⟩, rfl⟩
    by_contra hm2
    have hm1 : m % 2 = 1 := by omega
    have hstrict := hodd hm1
    rw [gapBelow_of_odd hm1] at hstrict
    rcases htie with htie | htie <;> linarith
  · obtain ⟨hshort, hbig⟩ := not_or.mp hfull
    rw [not_le] at hshort
    have hge := h.ge
    -- only the smallest mantissa of full length has numbers below it that are that near
    have hm : m = fullMantissa := by
      have hsmall : x / 2 ^ e < 2 ^ (52 : ℤ) := by
        rwa [div_lt_iff₀ hpos, mul_comm, ← zpow_add₀ two_ne_zero]
      have hm52 : (m : ℚ) < 2 ^ (52 : ℤ) + 1 := by linarith
      have hnat : m < fullMantissa + 1 := by exact_mod_cast hm52
      have := h.full.resolve_right hbig
      omega
    subst hm
    have hquarter : gapBelow fullMantissa e = 1 / 4 := if_pos ⟨rfl, by omega⟩
    rw [hquarter] at hlow
    exact rounds_of_short (by omega) hlow hshort

end Binary64

end CompressorBench.Decimal
