import CompressorBench.Decimal.Literal
import CompressorBench.Proofs.Decimal.Arithmetic

/-!
# Decimal numbers are rounded to the nearest

A number in scientific notation is found by one operation on floating point numbers if both parts
are exact, by exact arithmetic otherwise, and without any arithmetic if it is far out of range.
Each of these gives what the number is rounded to.

* `denotes_ofScientific`: scientific notation is rounded to the nearest.
* `denotes_ofNat`: a whole number of at most 53 binary digits is kept as it is.
* `denotes_magnitude`: a literal is rounded to the nearest.
-/

namespace CompressorBench.Decimal.Binary64

open Float.Model Float.Model.UnpackedFloat

/-! ## Numbers that are too large or too small -/

/-- A number that is rounded to one of the range is less than its end. -/
theorem Rounds.lt_limit {x z : ℚ} (h : Rounds x z) (hz : z < 2 ^ 1024) : x < 2 ^ 1024 := by
  by_contra hx
  have hlimit : Rounds (2 ^ 1024) (2 ^ 1024) := by
    have hfull : (fullMantissa : ℚ) = 2 ^ 52 := by norm_num [fullMantissa]
    have hself := rounds_self (m := fullMantissa) (e := 972) ⟨by decide, by decide, .inl le_rfl⟩
    rw [hfull, ← zpow_natCast, ← zpow_add₀ two_ne_zero] at hself
    rw [← zpow_natCast]
    exact hself
  exact absurd (hlimit.mono h (not_lt.mp hx)) (not_le.mpr hz)

/-- A number below half the smallest one is rounded to zero. -/
theorem rounds_zero {x : ℚ} (hx : 0 ≤ x) (hlt : x < 2 ^ (-1075 : ℤ)) : Rounds x 0 := by
  have hpos : (0 : ℚ) < 2 ^ (-1074 : ℤ) := by positivity
  have hhalf : x / 2 ^ (-1074 : ℤ) < 1 / 2 := by
    rw [div_lt_iff₀ hpos]
    rw [show (-1075 : ℤ) = -1 + -1074 by norm_num, zpow_add₀ (by norm_num)] at hlt
    simpa using hlt
  have hnonneg : 0 ≤ x / 2 ^ (-1074 : ℤ) := div_nonneg hx hpos.le
  have hgap : gapBelow 0 (-1074) = 1 / 2 := if_neg fun h => absurd h.1 (by decide)
  have hlow : ((0 : ℕ) : ℚ) - gapBelow 0 (-1074) ≤ x / 2 ^ (-1074 : ℤ) := by
    rw [hgap, Nat.cast_zero]
    exact le_trans (by norm_num) hnonneg
  have hhigh : x / 2 ^ (-1074 : ℤ) ≤ (0 : ℕ) + 1 / 2 := by
    rw [Nat.cast_zero, zero_add]
    exact hhalf.le
  have hrounds := rounds_of_near isStandard_zero hlow hhigh fun hodd => absurd hodd (by decide)
  rwa [Nat.cast_zero, zero_mul] at hrounds

theorem denotes_zero : Denotes 0.0 0 := ⟨0, -1074, by decide +kernel, by simp⟩

/-! ## Powers of ten -/

/-- A floating point number is a power of ten, up to a power of two that is divided out. -/
def isPowerOfTen (a : Float) (exponent : ℕ) : Bool :=
  match ofFloat a with
  | .finite false m e => decide (-52 ≤ e ∧ m * 2 ^ (e + 52).toNat = 10 ^ exponent * 2 ^ 52)
  | _ => false

theorem denotes_of_isPowerOfTen {a : Float} {exponent : ℕ} (h : isPowerOfTen a exponent = true) :
    Denotes a (10 ^ exponent) := by
  unfold isPowerOfTen at h
  split at h
  · next m e ha =>
    obtain ⟨hge, heq⟩ := of_decide_eq_true h
    refine ⟨m, e, ha, ?_⟩
    have hcast : (m : ℚ) * 2 ^ (e + 52).toNat = 10 ^ exponent * 2 ^ 52 := by exact_mod_cast heq
    have hpow : (2 : ℚ) ^ (e + 52).toNat = 2 ^ e * 2 ^ 52 := by
      rw [← zpow_natCast, Int.toNat_of_nonneg (by omega), zpow_add₀ (by norm_num)]
      rfl
    rw [hpow, ← mul_assoc] at hcast
    exact (mul_right_cancel₀ (by norm_num) hcast).symm
  · cases h

theorem isPowerOfTen_table : ∀ i : Fin Float.exactlyRepresentablePowersOfTen.size,
    isPowerOfTen Float.exactlyRepresentablePowersOfTen[i] i.val = true := by
  decide +kernel

/-- The table of the powers of ten is right. -/
theorem denotes_exactlyRepresentablePowersOfTen {e : ℕ}
    (he : e < Float.exactlyRepresentablePowersOfTen.size) :
    Denotes Float.exactlyRepresentablePowersOfTen[e] (10 ^ e) :=
  denotes_of_isPowerOfTen (isPowerOfTen_table ⟨e, he⟩)

/-! ## Scientific notation -/

theorem natCast_lt_limit {n : ℕ} (hn : n < 2 * fullMantissa) : (n : ℚ) < 2 ^ 1024 := by
  have hsmall : (n : ℚ) < 2 ^ 53 := by exact_mod_cast hn
  exact hsmall.trans_le (pow_le_pow_right₀ one_le_two (by decide))

/-- A whole number of one word. -/
theorem denotes_toFloat {n : ℕ} (hn : n < 2 * fullMantissa) : Denotes n.toUInt64.toFloat n := by
  have hword : n.toUInt64.toNat = n := by
    refine UInt64.toNat_ofNat_of_lt' (hn.trans ?_)
    decide
  have hrounded := isRounded_normalize n.toUInt64.toNat 0
  rw [zpow_zero, mul_one] at hrounded
  refine denotes_of_isRounded hrounded ?_ (natCast_lt_limit hn)
  rw [hword]
  exact rounds_natCast hn

/-- What `coefficient * 10 ^ exponent` is. -/
def decimalValue (coefficient : ℕ) (exponent : ℤ) : ℚ := coefficient * 10 ^ exponent

theorem decimalValue_of_eq {m k : ℕ} {e : ℤ} (h : e = k) : decimalValue m e = m * 10 ^ k := by
  rw [decimalValue, h, zpow_natCast]

theorem decimalValue_of_eq_neg {m k : ℕ} {e : ℤ} (h : e = -k) :
    decimalValue m e = m / 10 ^ k := by
  rw [decimalValue, h, zpow_neg, zpow_natCast, ← div_eq_mul_inv]

/-- The end of the range has fewer than four hundred digits. -/
theorem limit_le_ten_zpow {e : ℤ} (he : 400 ≤ e) : (2 : ℚ) ^ 1024 ≤ 10 ^ e :=
  calc (2 : ℚ) ^ 1024 ≤ 2 ^ (3 * 400) := pow_le_pow_right₀ one_le_two (by decide)
    _ = (2 ^ 3) ^ 400 := pow_mul _ _ _
    _ ≤ 10 ^ 400 := pow_le_pow_left₀ (by norm_num) (by norm_num) _
    _ ≤ 10 ^ e := by
      rw [← zpow_natCast]
      exact zpow_le_zpow_right₀ (by norm_num) he

theorem ten_zpow_le_two_zpow {e : ℤ} (he : e ≤ 0) : (10 : ℚ) ^ e ≤ 2 ^ (3 * e) := by
  obtain ⟨k, rfl⟩ := Int.exists_eq_neg_ofNat he
  rw [zpow_mul, zpow_neg, zpow_neg, zpow_natCast, zpow_natCast]
  exact inv_anti₀ (by positivity) (pow_le_pow_left₀ (by norm_num) (by norm_num) _)

/-- The exponent outweighs the digits of the coefficient. -/
theorem rounds_zero_of_lt {m : ℕ} {e : ℤ} (he : e < -((2048 : ℤ) + m.log2)) :
    Rounds (decimalValue m e) 0 := by
  have hbound : (m : ℚ) < 2 ^ ((m.log2 : ℤ) + 1) := by
    exact_mod_cast Nat.lt_log2_self (n := m)
  unfold decimalValue
  refine rounds_zero (by positivity) ?_
  calc (m : ℚ) * 10 ^ e < 2 ^ ((m.log2 : ℤ) + 1) * 10 ^ e := by gcongr
    _ ≤ 2 ^ ((m.log2 : ℤ) + 1) * 2 ^ (3 * e) :=
      mul_le_mul_of_nonneg_left (ten_zpow_le_two_zpow (by omega)) (by positivity)
    _ ≤ 2 ^ (-1075 : ℤ) := by
      rw [← zpow_add₀ two_ne_zero]
      exact zpow_le_zpow_right₀ one_le_two (by omega)

/-- A coefficient is shifted far enough that its product has enough digits. -/
theorem le_log2_shiftLeft_mul {m n : ℕ} (hm : 0 < m) (hn : 0 < n) :
    52 ≤ (m <<< 53 * n).log2 := by
  have hshift : 0 < m <<< 53 := Nat.shiftLeft_pos_iff.mpr hm
  refine (Nat.le_log2 (Nat.mul_pos hshift hn).ne').mpr ?_
  calc 2 ^ 52 ≤ m * 2 ^ 53 := by omega
    _ = m <<< 53 := (Nat.shiftLeft_eq m 53).symm
    _ ≤ m <<< 53 * n := Nat.le_mul_of_pos_right _ hn

/-- Exponents that are far out of range are refused without any computation. -/
theorem isRounded_ofScientific {m : ℕ} {e : ℤ} (h : decimalValue m e < 2 ^ 1024) :
    IsRounded (ofScientific Format.binary64 m e) false (decimalValue m e) := by
  rw [UnpackedFloat.ofScientific]
  split
  · next hzero =>
    rw [decimalValue, hzero, Nat.cast_zero, zero_mul]
    exact isRounded_zero rounds_zero_zero .positive
  · next hm =>
    have hpos : 0 < m := Nat.pos_of_ne_zero hm
    have hone : (1 : ℚ) ≤ m := by exact_mod_cast hpos
    split
    · next hlarge =>
      replace hlarge : (2048 : ℤ) < e := hlarge
      refine absurd h (not_lt.mpr ?_)
      calc (2 : ℚ) ^ 1024 ≤ 10 ^ e := limit_le_ten_zpow (by omega)
        _ ≤ (m : ℚ) * 10 ^ e := le_mul_of_one_le_left (by positivity) hone
    · split
      · next hsmall =>
        exact isRounded_zero (rounds_zero_of_lt hsmall) .positive
      · split
        · next hnonneg =>
          have hshift : 0 < m <<< 53 := Nat.shiftLeft_pos_iff.mpr hpos
          have hten : 0 < 10 ^ e.toNat := Nat.pow_pos (by decide)
          have hvalue : decimalValue m e =
              ((m <<< 53 : ℕ) : ℚ) * 2 ^ (-53 : ℤ) * ((10 ^ e.toNat : ℕ) * 2 ^ (0 : ℤ)) := by
            rw [decimalValue_of_eq (Int.toNat_of_nonneg hnonneg).symm, cast_shiftLeft]
            norm_num
            ring
          rw [hvalue]
          exact isRounded_mul hshift hten (.inl (le_log2_shiftLeft_mul hpos hten))
        · next hneg =>
          have hten : 0 < 10 ^ (-e).toNat := Nat.pow_pos (by decide)
          have hvalue : decimalValue m e =
              m * 2 ^ (0 : ℤ) / ((10 ^ (-e).toNat : ℕ) * 2 ^ (0 : ℤ)) := by
            rw [decimalValue_of_eq_neg (show e = -(-e).toNat by omega)]
            norm_num
          rw [hvalue]
          exact isRounded_div hpos hten

/-- **A number in scientific notation is rounded to the nearest**, whichever way it is computed. -/
theorem denotes_ofScientific {m : ℕ} {e : ℤ} {z : ℚ} (h : Rounds (decimalValue m e) z)
    (hz : z < 2 ^ 1024) : Denotes (Float.ofScientific m (decide (e < 0)) e.natAbs) z := by
  unfold Float.ofScientific
  split
  · next hfast =>
    have hm := denotes_toFloat hfast.1
    have hten := denotes_exactlyRepresentablePowersOfTen (Nat.lt_succ_of_le hfast.2)
    by_cases hneg : e < 0
    · rw [decimalValue_of_eq_neg (show e = -(e.natAbs : ℤ) by omega)] at h
      simp only [hneg, decide_true, if_true]
      exact hm.div hten (by positivity) h hz
    · rw [decimalValue_of_eq (show e = (e.natAbs : ℤ) by omega)] at h
      simp only [hneg, decide_false, if_false, Bool.false_eq_true]
      exact hm.mul hten h hz
  · have hexponent : (if decide (e < 0) = true then Int.negOfNat e.natAbs else .ofNat e.natAbs) =
        e := by
      split
      · next hneg =>
        have := of_decide_eq_true hneg
        rw [Int.negOfNat_eq, Int.ofNat_eq_natCast]
        omega
      · next hneg =>
        rw [decide_eq_true_iff] at hneg
        rw [Int.ofNat_eq_natCast]
        omega
    simp only [hexponent]
    exact denotes_of_isRounded (isRounded_ofScientific (h.lt_limit hz)) h hz

/-- A whole number of at most 53 binary digits is kept as it is. -/
theorem denotes_ofNat {n : ℕ} (hn : n < 2 * fullMantissa) : Denotes (Float.ofNat n) n := by
  refine denotes_ofScientific (e := 0) ?_ (natCast_lt_limit hn)
  rw [decimalValue, zpow_zero, mul_one]
  exact rounds_natCast hn

/-! ## Literals -/

theorem lt_pow_length_toDigits (n : ℕ) : n < 10 ^ (Nat.toDigits 10 n).length :=
  (Nat.length_toDigits_le_iff (by decide) Nat.length_toDigits_pos).mp le_rfl

theorem pow_length_toDigits_le {n : ℕ} (hn : 0 < n) :
    10 ^ ((Nat.toDigits 10 n).length - 1) ≤ n := by
  have hpos : 0 < (Nat.toDigits 10 n).length := Nat.length_toDigits_pos
  rcases Nat.eq_zero_or_pos ((Nat.toDigits 10 n).length - 1) with hone | hmore
  · rw [hone, Nat.pow_zero]
    exact hn
  · by_contra hlt
    have := (Nat.length_toDigits_le_iff (by decide) hmore).mpr (not_le.mp hlt)
    omega

/-- The number of digits and the exponent tell how large a number is. -/
theorem decimalValue_bounds {m : ℕ} (hm : 0 < m) (e : ℤ) :
    (10 : ℚ) ^ ((Nat.toDigits 10 m).length - 1 + e) ≤ decimalValue m e ∧
      decimalValue m e < 10 ^ ((Nat.toDigits 10 m).length + e) := by
  have hpos : 0 < (Nat.toDigits 10 m).length := Nat.length_toDigits_pos
  have hle : (10 : ℚ) ^ ((Nat.toDigits 10 m).length - 1) ≤ m := by
    exact_mod_cast pow_length_toDigits_le hm
  have hlt : (m : ℚ) < 10 ^ (Nat.toDigits 10 m).length := by
    exact_mod_cast lt_pow_length_toDigits m
  generalize (Nat.toDigits 10 m).length = digits at *
  have hdigits : (digits : ℤ) - 1 = (digits - 1 : ℕ) := by omega
  unfold decimalValue
  rw [hdigits, zpow_add₀ (by norm_num), zpow_add₀ (by norm_num), zpow_natCast, zpow_natCast]
  constructor <;> gcongr

/-- **A literal is rounded to the nearest.** -/
theorem denotes_magnitude {m : ℕ} {e : ℤ} {z : ℚ} (h : Rounds (decimalValue m e) z)
    (hz : z < 2 ^ 1024) : Denotes (Literal.magnitude m e) z := by
  have hlt := h.lt_limit hz
  simp only [Literal.magnitude]
  by_cases hzero : m = 0
  · rw [if_pos hzero]
    rw [decimalValue, hzero, Nat.cast_zero, zero_mul] at h
    rw [h.unique rounds_zero_zero]
    exact denotes_zero
  · obtain ⟨hlow, hhigh⟩ := decimalValue_bounds (Nat.pos_of_ne_zero hzero) e
    rw [if_neg hzero]
    generalize ((Nat.toDigits 10 m).length : ℤ) = digits at *
    by_cases hlarge : Literal.overflowExponent < digits + e
    · replace hlarge : 400 < digits + e := hlarge
      -- a number with so many digits before the point is out of range
      exact absurd hlt (not_lt.mpr ((limit_le_ten_zpow (by omega)).trans hlow))
    · rw [if_neg hlarge]
      by_cases hsmall : digits + e < Literal.underflowExponent
      · rw [if_pos hsmall]
        replace hsmall : digits + e < -400 := hsmall
        have hnone : Rounds (decimalValue m e) 0 := by
          refine rounds_zero (by unfold decimalValue; positivity) (hhigh.trans_le ?_)
          calc (10 : ℚ) ^ (digits + e) ≤ 2 ^ (3 * (digits + e)) := ten_zpow_le_two_zpow (by omega)
            _ ≤ 2 ^ (-1075 : ℤ) := zpow_le_zpow_right₀ one_le_two (by omega)
        rw [h.unique hnone]
        exact denotes_zero
      · rw [if_neg hsmall]
        exact denotes_ofScientific h hz

end CompressorBench.Decimal.Binary64
