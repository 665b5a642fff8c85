import CompressorBench.Proofs.Decimal.Bits

/-!
# Arithmetic rounds exact results

An operation finds a mantissa of enough digits together with the mark for a rest; rounding shifts
the digits below the last place into that mark and then takes the nearest whole number. So the
result is what the exact result is rounded to, whatever the operands are.

* `isRounded_roundWithAccuracy`: a mantissa with a rest is rounded to the nearest number.
* `Denotes.add`, `Denotes.mul`, `Denotes.div`: sums, products and quotients are rounded exact ones.
* `rounds_natCast`: a whole number of at most 53 binary digits is a number of the format.
-/

namespace CompressorBench.Decimal.Binary64

open Float.Model Float.Model.UnpackedFloat

/-! ## Mantissas with a rest -/

/-- A mantissa with its next binary digit. -/
def floorHalf (em : ExtendedMantissa) : ℚ :=
  em.mantissa + if em.roundBit then 1 / 2 else 0

/-- What a mantissa says of a number together with its next digit and the mark for a rest beyond
that: the number lies between two neighbouring halves, or it is the lower one. -/
def Represents (em : ExtendedMantissa) (q : ℚ) : Prop :=
  if em.stickyBit then floorHalf em < q ∧ q < floorHalf em + 1 / 2 else q = floorHalf em

theorem Represents.bounds {em : ExtendedMantissa} {q : ℚ} (h : Represents em q) :
    (em.mantissa : ℚ) ≤ q ∧ q < em.mantissa + 1 := by
  unfold Represents floorHalf at h
  split at h <;> split at h <;> constructor <;> linarith

theorem Represents.lt {em : ExtendedMantissa} {q : ℚ} (h : Represents em q)
    (hrest : (em.roundBit || em.stickyBit) = true) : (em.mantissa : ℚ) < q := by
  unfold Represents floorHalf at h
  rcases Bool.or_eq_true_iff.mp hrest with hhalf | hmark
  · rw [if_pos hhalf] at h
    split at h <;> linarith
  · rw [if_pos hmark] at h
    split at h <;> linarith

theorem floorHalf_shiftRightOne (em : ExtendedMantissa) :
    floorHalf em.shiftRightOne = em.mantissa / 2 := by
  have hm := Nat.div_add_mod em.mantissa 2
  have hcast : (em.mantissa : ℚ) = 2 * (em.mantissa / 2 : ℕ) + (em.mantissa % 2 : ℕ) := by
    exact_mod_cast hm.symm
  rw [floorHalf, ExtendedMantissa.shiftRightOne, hcast]
  rcases Nat.mod_two_eq_zero_or_one em.mantissa with h | h
  · simp [h]
  · simp [h]
    ring

/-- Halving a number shifts its digits by one. -/
theorem Represents.shiftRightOne {em : ExtendedMantissa} {q : ℚ} (h : Represents em q) :
    Represents em.shiftRightOne (q / 2) := by
  have hrest : em.shiftRightOne.stickyBit = (em.roundBit || em.stickyBit) := rfl
  obtain ⟨hle, hlt⟩ := h.bounds
  rw [Represents, floorHalf_shiftRightOne, hrest]
  split
  · next hmark =>
    have := h.lt hmark
    constructor <;> linarith
  · next hmark =>
    obtain ⟨hhalf, hnone⟩ : em.roundBit = false ∧ em.stickyBit = false := by simpa using hmark
    rw [Represents, hnone, floorHalf, hhalf] at h
    simp at h
    rw [h]

theorem Represents.shiftRight {em : ExtendedMantissa} {q : ℚ} (h : Represents em q) (n : ℕ) :
    Represents (em >>> n) (q / 2 ^ n) := by
  show Represents (n.repeat ExtendedMantissa.shiftRightOne em) _
  induction n with
  | zero => simpa [Nat.repeat] using h
  | succ n ih =>
    rw [Nat.repeat, pow_succ, ← div_div]
    exact ih.shiftRightOne

/-- The rounded mantissa is the nearest whole number. -/
theorem Represents.isNearest {em : ExtendedMantissa} {q : ℚ} (h : Represents em q) :
    IsNearest q em.roundedMantissa := by
  obtain ⟨m, half, rest⟩ := em
  cases half <;> cases rest <;>
    simp only [Represents, floorHalf, ExtendedMantissa.roundedMantissa, ExtendedMantissa.accuracy,
      Accuracy.roundToNearestEven, if_true, if_false, Bool.false_eq_true, add_zero] at h ⊢
  · exact h ▸ isNearest_self m
  · exact ⟨by linarith, by linarith, fun htie => by rcases htie with htie | htie <;> linarith⟩
  · rcases Nat.mod_two_eq_zero_or_one m with hm | hm
    · rw [hm, add_zero]
      exact ⟨by linarith, by linarith, fun _ => hm⟩
    · rw [hm]
      refine ⟨?_, ?_, fun _ => by omega⟩ <;> push_cast <;> linarith
  · refine ⟨by push_cast; linarith, by push_cast; linarith, fun htie => ?_⟩
    push_cast at htie
    rcases htie with htie | htie <;> linarith

/-! ## Rounding to the format -/

theorem targetExponent_eq (m : ℕ) (e : ℤ) :
    Format.binary64.targetExponent (totalExponent m e) = max (m.log2 + e - 52) (-1074) := by
  show max ((m.log2 : ℤ) + 1 + e - 53) (-1074) = _
  congr 1
  ring

/-- The exponent that is aimed at is that of the last place, if the mantissa is long enough. -/
theorem hasLastPlace_target {m : ℕ} {e : ℤ} {x : ℚ} (hle : (m : ℚ) ≤ x / 2 ^ e)
    (hlt : x / 2 ^ e < m + 1) (hlong : 52 ≤ m.log2 ∨ e ≤ -1074) :
    HasLastPlace x (max (m.log2 + e - 52) (-1074)) := by
  have hpos : (0 : ℚ) < 2 ^ e := by positivity
  rw [le_div_iff₀ hpos] at hle
  rw [div_lt_iff₀ hpos] at hlt
  refine ⟨?_, le_max_right _ _, ?_⟩
  · have hm : ((m : ℚ) + 1) ≤ 2 ^ (m.log2 + 1) := by exact_mod_cast Nat.lt_log2_self
    calc x < (m + 1) * 2 ^ e := hlt
      _ ≤ 2 ^ (m.log2 + 1) * 2 ^ e := by gcongr
      _ = 2 ^ ((m.log2 : ℤ) + 1 + e) := by
        rw [zpow_add₀ (by norm_num), ← Nat.cast_succ, zpow_natCast]
      _ ≤ _ := zpow_le_zpow_right₀ (by norm_num) (by omega)
  · rcases le_or_gt ((m.log2 : ℤ) + e - 52) (-1074) with hsmall | hlarge
    · exact .inr (max_eq_right hsmall)
    · left
      have hm0 : m ≠ 0 := by
        rintro rfl
        rw [Nat.log2_zero] at hlarge hlong
        omega
      have hm : (2 ^ m.log2 : ℚ) ≤ m := by exact_mod_cast Nat.log2_self_le hm0
      rw [max_eq_left hlarge.le]
      calc (2 : ℚ) ^ ((m.log2 : ℤ) + e - 52 + 52) = 2 ^ m.log2 * 2 ^ e := by
            rw [sub_add_cancel, zpow_add₀ (by norm_num), zpow_natCast]
        _ ≤ m * 2 ^ e := by gcongr
        _ ≤ x := hle

/-- A mantissa that is short enough is not shifted. -/
theorem shiftToTargetExponent_exact {m : ℕ} {e : ℤ} (hm : m < 2 * fullMantissa) (he : -1074 ≤ e) :
    shiftToTargetExponent Format.binary64 m e .exact = (⟨m, false, false⟩, e) := by
  have hlog : m.log2 < 53 := by
    rcases Nat.eq_zero_or_pos m with rfl | hpos
    · rw [Nat.log2_zero]
      omega
    · exact (Nat.log2_lt hpos.ne').mpr hm
  have hshift : (Format.binary64.targetExponent (totalExponent m e) - e).toNat = 0 := by
    rw [targetExponent_eq]
    omega
  rw [shiftToTargetExponent, shiftToExponent, hshift]
  simp [HShiftRight.hShiftRight, Nat.repeat, ExtendedMantissa.ofMantissaAndAccuracy]

/-- A mantissa that is too long by one digit is shifted by one. -/
theorem shiftToTargetExponent_long {e : ℤ} (he : -1074 ≤ e) :
    shiftToTargetExponent Format.binary64 (2 * fullMantissa) e .exact =
      (⟨fullMantissa, false, false⟩, e + 1) := by
  have hshift : (Format.binary64.targetExponent (totalExponent (2 * fullMantissa) e) - e).toNat =
      1 := by
    rw [targetExponent_eq, show (2 * fullMantissa).log2 = 53 by decide +kernel]
    omega
  rw [shiftToTargetExponent, shiftToExponent, hshift]
  rfl

/-- Rounding shifts twice: down to the last place, and once more if the mantissa got too long. -/
theorem ofUnpacked_roundWithAccuracy (sign : Sign) (m : ℕ) (e : ℤ) (accuracy : Accuracy) :
    ofUnpacked (roundWithAccuracy Format.binary64 sign m e accuracy) =
      let first := shiftToTargetExponent Format.binary64 m e accuracy
      let last := shiftToTargetExponent Format.binary64 first.1.roundedMantissa first.2 .exact
      .finite (isMinus sign) last.1.mantissa (if last.1.mantissa = 0 then -1074 else last.2) := by
  rw [roundWithAccuracy]
  dsimp only
  split
  · next hzero => rw [ofUnpacked, hzero]
  · rfl

/-- An unpacked number is what a number that is not negative is rounded to, with a sign. -/
def IsRounded (u : UnpackedFloat) (negative : Bool) (x : ℚ) : Prop :=
  ∃ n f, IsStandard n f ∧ Rounds x (n * 2 ^ f) ∧ ofUnpacked u = .finite negative n f

/-- A rounded mantissa is brought into the form of the format. It is in that form already, or it has
got too long by one digit, which is zero. -/
theorem isStandard_shiftToTargetExponent {x : ℚ} {f : ℤ} {n : ℕ} (hplace : HasLastPlace x f)
    (hnearest : IsNearest (x / 2 ^ f) n) :
    let last := shiftToTargetExponent Format.binary64 n f .exact
    IsStandard last.1.mantissa last.2 ∧ Rounds x (last.1.mantissa * 2 ^ last.2) := by
  have hge := hplace.ge
  have hrounds : Rounds x (n * 2 ^ f) := ⟨f, n, hplace, hnearest, rfl⟩
  rcases (hplace.le_of_isNearest hnearest).eq_or_lt with rfl | hn
  · rw [shiftToTargetExponent_long hge]
    have hfull : IsStandard fullMantissa (f + 1) := ⟨by decide, by omega, .inl le_rfl⟩
    refine ⟨hfull, ?_⟩
    have hvalue : ((fullMantissa : ℕ) : ℚ) * 2 ^ (f + 1) = (2 * fullMantissa : ℕ) * 2 ^ f := by
      rw [zpow_add_one₀ (by norm_num)]
      push_cast
      ring
    rwa [← hvalue] at hrounds
  · rw [shiftToTargetExponent_exact hn hge]
    exact ⟨⟨hn, hge, hplace.ge_of_isNearest hnearest⟩, hrounds⟩

/-- **A mantissa with a rest is rounded to the nearest number of the format.** -/
theorem isRounded_roundWithAccuracy {m : ℕ} {e : ℤ} {accuracy : Accuracy} {x : ℚ}
    (h : Represents (.ofMantissaAndAccuracy m accuracy) (x / 2 ^ e))
    (hlong : 52 ≤ m.log2 ∨ e ≤ -1074) (sign : Sign) :
    IsRounded (roundWithAccuracy Format.binary64 sign m e accuracy) (isMinus sign) x := by
  have hmantissa : (ExtendedMantissa.ofMantissaAndAccuracy m accuracy).mantissa = m := by
    cases accuracy with
    | exact => rfl
    | inexact side => cases side <;> rfl
  obtain ⟨hle, hlt⟩ := h.bounds
  rw [hmantissa] at hle hlt
  have hplace := hasLastPlace_target hle hlt hlong
  unfold IsRounded
  rw [ofUnpacked_roundWithAccuracy, shiftToTargetExponent, targetExponent_eq, shiftToExponent]
  generalize hf : max ((m.log2 : ℤ) + e - 52) (-1074) = f at hplace
  have hshift : e + (f - e).toNat = f := by omega
  -- the digits below the last place go into the rest
  have hshifted := h.shiftRight (f - e).toNat
  rw [div_div, ← zpow_natCast, ← zpow_add₀ (by norm_num), hshift] at hshifted
  obtain ⟨hstandard, hrounds⟩ := isStandard_shiftToTargetExponent hplace hshifted.isNearest
  simp only [hshift]
  refine ⟨_, _, hstandard, hrounds, ?_⟩
  split
  · next hzero =>
    rw [hzero] at hstandard
    rw [hstandard.exponent_of_zero]
  · rfl

theorem represents_exact {m : ℕ} {q : ℚ} (h : q = m) :
    Represents (.ofMantissaAndAccuracy m .exact) q := by
  simp [Represents, ExtendedMantissa.ofMantissaAndAccuracy, floorHalf, h]

theorem log2_shiftLeft {m : ℕ} (hm : 0 < m) (k : ℕ) : (m <<< k).log2 = m.log2 + k := by
  have hle := Nat.log2_self_le hm.ne'
  have hlt := Nat.lt_log2_self (n := m)
  rw [Nat.shiftLeft_eq, Nat.log2_eq_iff (Nat.mul_pos hm (Nat.two_pow_pos k)).ne',
    Nat.add_right_comm, Nat.pow_add, Nat.pow_add]
  exact ⟨Nat.mul_le_mul_right _ hle, Nat.mul_lt_mul_of_pos_right hlt (Nat.two_pow_pos k)⟩

theorem cast_shiftLeft (m k : ℕ) : ((m <<< k : ℕ) : ℚ) = m * 2 ^ k := by
  rw [Nat.shiftLeft_eq]
  push_cast
  rfl

/-- A mantissa that is too short is made longer first. -/
theorem isRounded_round {m : ℕ} (hm : 0 < m) (e : ℤ) (sign : Sign) :
    IsRounded (UnpackedFloat.round Format.binary64 sign m e) (isMinus sign) (m * 2 ^ e) := by
  rw [UnpackedFloat.round, targetExponent_eq]
  simp only [decreaseExponent]
  generalize ht : max ((m.log2 : ℤ) + e - 52) (-1074) = t
  generalize hk : (e - t).toNat = k
  have hpos : (0 : ℚ) < 2 ^ (e - k : ℤ) := by positivity
  refine isRounded_roundWithAccuracy (represents_exact ?_) ?_ sign
  · rw [div_eq_iff hpos.ne', cast_shiftLeft, mul_assoc, ← zpow_natCast,
      ← zpow_add₀ (by norm_num), add_sub_cancel]
  · rw [log2_shiftLeft hm]
    omega

theorem isRounded_zero {x : ℚ} (h : Rounds x 0) (sign : Sign) :
    IsRounded (.zero sign) (isMinus sign) x :=
  ⟨0, -1074, isStandard_zero, by rwa [Nat.cast_zero, zero_mul], rfl⟩

theorem isRounded_normalize (n : ℕ) (e : ℤ) :
    IsRounded (UnpackedFloat.normalize Format.binary64 n e .positive) false (n * 2 ^ e) := by
  rcases Nat.eq_zero_or_pos n with rfl | hn
  · rw [Nat.cast_zero, Nat.cast_zero, zero_mul]
    exact isRounded_zero rounds_zero_zero .positive
  · have hcompare : compare (n : ℤ) 0 = .gt := Int.compare_eq_gt.mpr (by omega)
    rw [UnpackedFloat.normalize, hcompare]
    exact isRounded_round hn e .positive

/-! ## Operations on unpacked numbers -/

/-- The product of two mantissas is exact. -/
theorem isRounded_mul {m n : ℕ} {e f : ℤ} (hm : 0 < m) (hn : 0 < n)
    (hlong : 52 ≤ (m * n).log2 ∨ e + f ≤ -1074) :
    IsRounded (mul Format.binary64 (.finite .positive m e hm) (.finite .positive n f hn)) false
      (m * 2 ^ e * (n * 2 ^ f)) := by
  have hpos : (0 : ℚ) < 2 ^ (e + f) := by positivity
  refine isRounded_roundWithAccuracy (represents_exact ?_) hlong .positive
  rw [div_eq_iff hpos.ne', zpow_add₀ (by norm_num)]
  push_cast
  ring

/-- The rest of a division says where the quotient lies between two whole numbers. -/
theorem represents_accuracyOfFraction (m : ℕ) {n : ℕ} (hn : 0 < n) :
    Represents (.ofMantissaAndAccuracy (m / n) (accuracyOfFraction (m % n) n)) (m / n : ℚ) := by
  have hpos : (0 : ℚ) < n := by exact_mod_cast hn
  have hlt : ((m % n : ℕ) : ℚ) < n := by exact_mod_cast Nat.mod_lt m hn
  have hdiv : (m / n : ℚ) = (m / n : ℕ) + (m % n : ℕ) / n := by
    have hcast : (m : ℚ) = n * (m / n : ℕ) + (m % n : ℕ) := by
      exact_mod_cast (Nat.div_add_mod m n).symm
    rw [div_eq_iff hpos.ne', add_mul, div_mul_cancel₀ _ hpos.ne', mul_comm, ← hcast]
  generalize m % n = rest at hlt hdiv
  rw [hdiv, accuracyOfFraction]
  have hless : (rest / n : ℚ) < 1 := (div_lt_one hpos).mpr hlt
  split
  · next hzero => simp [Represents, ExtendedMantissa.ofMantissaAndAccuracy, floorHalf, hzero]
  · next hrest =>
    have hmore : (0 : ℚ) < rest / n := div_pos (by exact_mod_cast Nat.pos_of_ne_zero hrest) hpos
    -- the rest is compared with half the divisor
    cases hcompare : compare (2 * rest) n with
    | lt =>
      have hhalf : (rest / n : ℚ) < 1 / 2 := by
        have : (2 : ℚ) * rest < n := by exact_mod_cast Nat.compare_eq_lt.mp hcompare
        rw [div_lt_iff₀ hpos]
        linarith
      simp only [Represents, ExtendedMantissa.ofMantissaAndAccuracy, floorHalf, if_true, if_false,
        Bool.false_eq_true]
      constructor <;> linarith
    | eq =>
      have hhalf : (rest / n : ℚ) = 1 / 2 := by
        have : (2 : ℚ) * rest = n := by exact_mod_cast Nat.compare_eq_eq.mp hcompare
        rw [div_eq_iff hpos.ne']
        linarith
      simp only [Represents, ExtendedMantissa.ofMantissaAndAccuracy, floorHalf, if_true, if_false,
        Bool.false_eq_true, hhalf]
    | gt =>
      have hhalf : 1 / 2 < (rest / n : ℚ) := by
        have : (n : ℚ) < 2 * rest := by exact_mod_cast Nat.compare_eq_gt.mp hcompare
        rw [lt_div_iff₀ hpos]
        linarith
      simp only [Represents, ExtendedMantissa.ofMantissaAndAccuracy, floorHalf, if_true]
      constructor <;> linarith

/-- The quotient of a number with `a + 53` digits by one with `a` digits has full length. -/
theorem le_log2_div {m n k : ℕ} (hm : 0 < m) (hn : 0 < n) (hk : n.log2 + 53 ≤ m.log2 + k) :
    52 ≤ ((m <<< k) / n).log2 := by
  have hquotient : 2 ^ 52 ≤ (m <<< k) / n := by
    rw [Nat.le_div_iff_mul_le hn]
    calc 2 ^ 52 * n ≤ 2 ^ 52 * 2 ^ (n.log2 + 1) :=
          Nat.mul_le_mul_left _ Nat.lt_log2_self.le
      _ = 2 ^ (n.log2 + 53) := by rw [← Nat.pow_add]; congr 1; omega
      _ ≤ 2 ^ (m <<< k).log2 := Nat.pow_le_pow_right (by decide) (by rwa [log2_shiftLeft hm])
      _ ≤ m <<< k := Nat.log2_self_le (by
        rw [Nat.shiftLeft_eq]
        exact (Nat.mul_pos hm (Nat.two_pow_pos k)).ne')
  exact (Nat.le_log2 (by omega)).mpr hquotient

/-- A quotient is found with enough digits and the mark for a rest. -/
theorem isRounded_div {m n : ℕ} {e f : ℤ} (hm : 0 < m) (hn : 0 < n) :
    IsRounded (div Format.binary64 (.finite .positive m e hm) (.finite .positive n f hn)) false
      (m * 2 ^ e / (n * 2 ^ f)) := by
  rw [UnpackedFloat.div, divCore]
  have htarget : Format.binary64.targetExponent (totalExponent m e - totalExponent n f) =
      max ((m.log2 : ℤ) + e - n.log2 - f - 53) (-1074) := by
    show max ((m.log2 : ℤ) + 1 + e - (n.log2 + 1 + f) - 53) (-1074) = _
    congr 1
    ring
  simp only [htarget]
  generalize ht : min (e - f) (max ((m.log2 : ℤ) + e - n.log2 - f - 53) (-1074)) = t
  generalize hk : (e - f - t).toNat = k
  refine isRounded_roundWithAccuracy ?_ ?_ .positive
  · convert represents_accuracyOfFraction (m <<< k) hn using 1
    have hpow : (2 : ℚ) ^ e = 2 ^ k * 2 ^ f * 2 ^ t := by
      rw [← zpow_natCast, ← zpow_add₀ (by norm_num), ← zpow_add₀ (by norm_num)]
      congr 1
      omega
    have hpos : (0 : ℚ) < n := by exact_mod_cast hn
    rw [cast_shiftLeft, hpow]
    field_simp
  · rcases le_or_gt t (-1074) with hsmall | hlarge
    · exact .inr hsmall
    · exact .inl (le_log2_div hm hn (by omega))

theorem isRounded_add {m n : ℕ} {e f : ℤ} (hm : 0 < m) (hn : 0 < n) :
    IsRounded (add Format.binary64 (.finite .positive m e hm) (.finite .positive n f hn)) false
      (m * 2 ^ e + n * 2 ^ f) := by
  rw [UnpackedFloat.add]
  simp only [decreaseExponent, Sign.apply]
  generalize ht : min e f = t
  have hshift : ∀ (k : ℕ) (d : ℤ), t ≤ d →
      ((k <<< (d - t).toNat : ℕ) : ℚ) * 2 ^ t = k * 2 ^ d := by
    intro k d hd
    rw [cast_shiftLeft, mul_assoc, ← zpow_natCast, ← zpow_add₀ (by norm_num)]
    congr 2
    omega
  have hsum : (m * 2 ^ e + n * 2 ^ f : ℚ) =
      ((m <<< (e - t).toNat + n <<< (f - t).toNat : ℕ) : ℚ) * 2 ^ t := by
    rw [Nat.cast_add, add_mul, hshift m e (by omega), hshift n f (by omega)]
  rw [hsum]
  exact isRounded_normalize _ t

/-! ## Floating point numbers -/

/-- A floating point number is not negative and has a value. -/
def Denotes (a : Float) (x : ℚ) : Prop :=
  ∃ m e, ofFloat a = .finite false m e ∧ x = m * 2 ^ e

/-- A value has one floating point number. -/
theorem Denotes.unique {a b : Float} {x : ℚ} (ha : Denotes a x) (hb : Denotes b x) : a = b := by
  obtain ⟨m, e, ha, rfl⟩ := ha
  obtain ⟨n, f, hb, heq⟩ := hb
  obtain ⟨rfl, rfl⟩ := (isStandard_of_ofBits ha).1.unique (isStandard_of_ofBits hb).1 heq
  exact eq_of_ofFloat ha hb

theorem Denotes.eq {a : Float} {x y : ℚ} (hx : Denotes a x) (hy : Denotes a y) : x = y := by
  obtain ⟨m, e, ha, rfl⟩ := hx
  obtain ⟨n, f, hb, rfl⟩ := hy
  rw [ha] at hb
  cases hb
  rfl

theorem Denotes.of_eq {a : Float} {x y : ℚ} (h : Denotes a x) (heq : x = y) : Denotes a y :=
  heq ▸ h

/-- A value is unpacked as zero or as a number of the format. -/
theorem Denotes.unpack {a : Float} {x : ℚ} (h : Denotes a x) :
    (x = 0 ∧ a.toModel.unpack = .zero .positive) ∨
      ∃ m e hm, IsStandard m e ∧ x = m * 2 ^ e ∧ a.toModel.unpack = .finite .positive m e hm := by
  obtain ⟨m, e, ha, rfl⟩ := h
  have hstandard := (isStandard_of_ofBits ha).1
  have hunpack := (ofUnpacked_unpack a.toBits).trans ha
  replace hunpack : ofUnpacked a.toModel.unpack = .finite false m e := hunpack
  generalize a.toModel.unpack = u at hunpack
  cases u with
  | notANumber => cases hunpack
  | infinity sign => cases hunpack
  | zero sign =>
    cases sign <;> cases hunpack
    exact .inl ⟨by simp, rfl⟩
  | finite sign mantissa exponent hpos =>
    cases sign <;> cases hunpack
    exact .inr ⟨m, e, hpos, hstandard, rfl, rfl⟩

/-- What is unpacked is not rounded any more. -/
theorem isRounded_finite {m : ℕ} {e : ℤ} (h : IsStandard m e) (hm : 0 < m) :
    IsRounded (.finite .positive m e hm) false (m * 2 ^ e) :=
  ⟨m, e, h, rounds_self h, rfl⟩

/-- **What is rounded to less than `2 ^ 1024` is packed as a value.** -/
theorem denotes_of_isRounded {u : UnpackedFloat} {x y : ℚ} (hu : IsRounded u false x)
    (h : Rounds x y) (hy : y < 2 ^ 1024) : Denotes (.ofModel (.pack u)) y := by
  obtain ⟨n, f, hstandard, hrounds, hunpacked⟩ := hu
  obtain rfl := hrounds.unique h
  refine ⟨n, f, ofBits_pack hunpacked hstandard ?_, rfl⟩
  by_contra hlarge
  have hn : fullMantissa ≤ n := hstandard.full.resolve_right (by omega)
  have hmantissa : (2 : ℚ) ^ 52 ≤ n := by
    have : (fullMantissa : ℚ) = 2 ^ 52 := by norm_num [fullMantissa]
    rw [← this]
    exact_mod_cast hn
  have hpow : (2 : ℚ) ^ 972 ≤ 2 ^ f := by
    rw [← zpow_natCast]
    exact zpow_le_zpow_right₀ (by norm_num) (by omega)
  refine absurd hy (not_lt.mpr ?_)
  calc (2 : ℚ) ^ 1024 = 2 ^ 52 * 2 ^ 972 := by rw [← pow_add]
    _ ≤ (n : ℚ) * 2 ^ f := by
      refine mul_le_mul hmantissa hpow (pow_nonneg zero_le_two _) ?_
      exact Nat.cast_nonneg n

theorem Denotes.add {a b : Float} {x y z : ℚ} (ha : Denotes a x) (hb : Denotes b y)
    (h : Rounds (x + y) z) (hz : z < 2 ^ 1024) : Denotes (a + b) z := by
  refine denotes_of_isRounded ?_ h hz
  rcases ha.unpack with ⟨rfl, hua⟩ | ⟨m, e, hm, hme, rfl, hua⟩ <;>
    rcases hb.unpack with ⟨rfl, hub⟩ | ⟨n, f, hn, hnf, rfl, hub⟩ <;> rw [hua, hub]
  · rw [add_zero]
    exact isRounded_zero rounds_zero_zero .positive
  · rw [zero_add]
    exact isRounded_finite hnf hn
  · rw [add_zero]
    exact isRounded_finite hme hm
  · exact isRounded_add hm hn

/-- A product of numbers of the format has enough digits. -/
theorem IsStandard.le_log2_mul {m n : ℕ} {e f : ℤ} (hme : IsStandard m e) (hnf : IsStandard n f)
    (hm : 0 < m) (hn : 0 < n) : 52 ≤ (m * n).log2 ∨ e + f ≤ -1074 := by
  have hle : ∀ {k : ℕ}, fullMantissa ≤ k → k ≤ m * n → 52 ≤ (m * n).log2 := fun hfull hk =>
    (Nat.le_log2 (Nat.mul_pos hm hn).ne').mpr (hfull.trans hk)
  rcases hme.full with hfull | rfl
  · exact .inl (hle hfull (Nat.le_mul_of_pos_right m hn))
  · rcases hnf.full with hfull | rfl
    · exact .inl (hle hfull (Nat.le_mul_of_pos_left n hm))
    · exact .inr (by decide)

theorem Denotes.mul {a b : Float} {x y z : ℚ} (ha : Denotes a x) (hb : Denotes b y)
    (h : Rounds (x * y) z) (hz : z < 2 ^ 1024) : Denotes (a * b) z := by
  refine denotes_of_isRounded ?_ h hz
  rcases ha.unpack with ⟨rfl, hua⟩ | ⟨m, e, hm, hme, rfl, hua⟩ <;>
    rcases hb.unpack with ⟨rfl, hub⟩ | ⟨n, f, hn, hnf, rfl, hub⟩ <;> rw [hua, hub]
  · rw [mul_zero]
    exact isRounded_zero rounds_zero_zero .positive
  · rw [zero_mul]
    exact isRounded_zero rounds_zero_zero .positive
  · rw [mul_zero]
    exact isRounded_zero rounds_zero_zero .positive
  · exact isRounded_mul hm hn (hme.le_log2_mul hnf hm hn)

theorem Denotes.div {a b : Float} {x y z : ℚ} (ha : Denotes a x) (hb : Denotes b y) (hy : y ≠ 0)
    (h : Rounds (x / y) z) (hz : z < 2 ^ 1024) : Denotes (a / b) z := by
  refine denotes_of_isRounded ?_ h hz
  rcases hb.unpack with ⟨rfl, -⟩ | ⟨n, f, hn, hnf, rfl, hub⟩
  · exact absurd rfl hy
  · rw [hub]
    rcases ha.unpack with ⟨rfl, hua⟩ | ⟨m, e, hm, hme, rfl, hua⟩
    · rw [hua, zero_div]
      exact isRounded_zero rounds_zero_zero .positive
    · rw [hua]
      exact isRounded_div hm hn

theorem isMinus_neg (sign : Sign) : isMinus (-sign) = !isMinus sign := by cases sign <;> rfl

/-- Negation changes the sign only. -/
theorem ofFloat_neg {a : Float} {negative : Bool} {m : ℕ} {e : ℤ}
    (h : ofFloat a = .finite negative m e) : ofFloat (-a) = .finite (!negative) m e := by
  obtain ⟨hstandard, hle⟩ := isStandard_of_ofBits h
  refine ofBits_pack ?_ hstandard hle
  have hunpack := (ofUnpacked_unpack a.toBits).trans h
  replace hunpack : ofUnpacked a.toModel.unpack = .finite negative m e := hunpack
  generalize a.toModel.unpack = u at hunpack
  cases u with
  | notANumber => cases hunpack
  | infinity sign => cases hunpack
  | zero sign =>
    cases hunpack
    rw [← isMinus_neg]
    rfl
  | finite sign mantissa exponent hpos =>
    cases hunpack
    rw [← isMinus_neg]
    rfl

/-! ## Whole numbers -/

/-- A whole number of at most 53 binary digits is a number of the format. -/
theorem rounds_natCast {n : ℕ} (hn : n < 2 * fullMantissa) : Rounds n n := by
  rcases Nat.eq_zero_or_pos n with rfl | hpos
  · rw [Nat.cast_zero]
    exact rounds_zero_zero
  · have hlog : n.log2 < 53 := (Nat.log2_lt hpos.ne').mpr hn
    generalize hk : 52 - n.log2 = k
    have hshifted : (n <<< k).log2 = 52 := by
      rw [log2_shiftLeft hpos]
      omega
    have hshiftpos : 0 < n <<< k := by
      rw [Nat.shiftLeft_eq]
      exact Nat.mul_pos hpos (Nat.two_pow_pos k)
    have hlt : n <<< k < 2 ^ 53 := (Nat.log2_lt hshiftpos.ne').mp (by omega)
    have hvalue : (n : ℚ) = ((n <<< k : ℕ) : ℚ) * 2 ^ (-k : ℤ) := by
      rw [cast_shiftLeft, mul_assoc, ← zpow_natCast, ← zpow_add₀ (by norm_num), add_neg_cancel,
        zpow_zero, mul_one]
    rw [hvalue]
    have hge : -1074 ≤ (-k : ℤ) := by omega
    exact rounds_self ⟨hlt, hge, .inl ((log2_eq_iff hshiftpos hlt).mp hshifted)⟩

end CompressorBench.Decimal.Binary64
