import CompressorBench.Decimal.Shortest
import CompressorBench.Proofs.Decimal.Scientific

/-!
# The fewest digits are rounded back

The interval around a number of the format holds exactly the decimal numbers that are rounded to
it. The search goes through the decimal grids until one has a point in the interval; from seventeen
digits on the grid is so fine that the point nearest to the number lies in it, so the search does
not miss.

* `rounds_of_holds`: what lies in the interval is rounded to the number.
* `exists_firstHit?`: the search does not miss.
* `rounds_shortest`: the fewest digits are rounded to the number they were made from.
-/

namespace CompressorBench.Decimal

open Binary64

/-! ## Fractions -/

theorem cast_scaleByTwo (n : ℕ) (e : ℤ) :
    ((scaleByTwo n e).1 : ℚ) / (scaleByTwo n e).2 = n * 2 ^ e := by
  cases e with
  | ofNat k => simp [scaleByTwo, powTwo]
  | negSucc k =>
    have hpow : ((powTwo (k + 1) : ℕ) : ℚ) = 2 ^ (k + 1) := by simp [powTwo]
    rw [zpow_negSucc, scaleByTwo, hpow, div_eq_mul_inv]

theorem cast_powTen (k : ℤ) : (powTen k.toNat : ℚ) / powTen (-k).toNat = 10 ^ k := by
  have hnat : ∀ n : ℕ, (powTen n : ℚ) = 10 ^ n := fun n => by simp [powTen]
  rw [hnat, hnat, ← zpow_natCast, ← zpow_natCast, ← zpow_sub₀ (by norm_num)]
  congr 1
  omega

/-! ## The interval -/

/-- What lies in an interval, told by the ends as fractions. -/
theorem Interval.holds_iff {i : Interval} (hunit : 0 < i.unit) (c : ℕ) (k : ℤ) :
    i.holds c k = true ↔
      if i.closed then
        (i.low / i.unit : ℚ) ≤ decimalValue c k ∧ decimalValue c k ≤ (i.high / i.unit : ℚ)
      else (i.low / i.unit : ℚ) < decimalValue c k ∧ decimalValue c k < (i.high / i.unit : ℚ) := by
  have hu : (0 : ℚ) < i.unit := by exact_mod_cast hunit
  have hd : (0 : ℚ) < powTen (-k).toNat := by exact_mod_cast powTen_pos _
  have hvalue : decimalValue c k = c * powTen k.toNat / powTen (-k).toNat := by
    rw [decimalValue, ← cast_powTen, mul_div_assoc]
  rw [hvalue]
  unfold Interval.holds
  split
  · dsimp only
    rw [Bool.and_eq_true, decide_eq_true_iff, decide_eq_true_iff, div_le_div_iff₀ hu hd,
      div_le_div_iff₀ hd hu]
    norm_cast
  · dsimp only
    rw [Bool.and_eq_true, decide_eq_true_iff, decide_eq_true_iff, div_lt_div_iff₀ hu hd,
      div_lt_div_iff₀ hd hu]
    norm_cast

theorem unit_interval (m : ℕ) (e : ℤ) : 0 < (interval m e).unit := scaleByTwo_pos _ _

theorem scaleByTwo_snd (m n : ℕ) (e : ℤ) : (scaleByTwo m e).2 = (scaleByTwo n e).2 := by
  cases e <;> rfl

theorem value_interval (m : ℕ) (e : ℤ) :
    ((interval m e).value / (interval m e).unit : ℚ) = m * 2 ^ e := by
  show ((scaleByTwo (4 * m) (e - 2)).1 : ℚ) / (scaleByTwo (4 * m) (e - 2)).2 = _
  rw [cast_scaleByTwo, zpow_sub₀ (by norm_num)]
  norm_num
  ring

theorem high_interval (m : ℕ) (e : ℤ) :
    ((interval m e).high / (interval m e).unit : ℚ) = (m + 1 / 2) * 2 ^ e := by
  show ((scaleByTwo (4 * m + 2) (e - 2)).1 : ℚ) / (scaleByTwo (4 * m) (e - 2)).2 = _
  rw [scaleByTwo_snd (4 * m) (4 * m + 2), cast_scaleByTwo, zpow_sub₀ (by norm_num)]
  push_cast
  ring

theorem low_interval {m : ℕ} (hm : 0 < m) (e : ℤ) :
    ((interval m e).low / (interval m e).unit : ℚ) = (m - gapBelow m e) * 2 ^ e := by
  have hcast : ∀ below ≤ 2, (((scaleByTwo (4 * m - below) (e - 2)).1 : ℚ) /
      (scaleByTwo (4 * m) (e - 2)).2) = (m - below / 4) * 2 ^ e := by
    intro below hbelow
    rw [scaleByTwo_snd (4 * m) (4 * m - below), cast_scaleByTwo, zpow_sub₀ (by norm_num),
      Nat.cast_sub (by omega)]
    push_cast
    ring
  show ((scaleByTwo (4 * m - if m = fullMantissa ∧ -1074 < e then 1 else 2) (e - 2)).1 : ℚ) /
    (scaleByTwo (4 * m) (e - 2)).2 = _
  unfold gapBelow
  split
  · rw [hcast 1 (by decide)]
    norm_num
  · rw [hcast 2 le_rfl]
    norm_num

/-- **What lies in the interval around a number is rounded to it.** -/
theorem rounds_of_holds {m : ℕ} {e : ℤ} (h : IsStandard m e) (hm : 0 < m) {c : ℕ} {k : ℤ}
    (hholds : (interval m e).holds c k = true) : Rounds (decimalValue c k) (m * 2 ^ e) := by
  have hpos : (0 : ℚ) < 2 ^ e := by positivity
  rw [Interval.holds_iff (unit_interval m e), low_interval hm, high_interval] at hholds
  rw [← le_div_iff₀ hpos, ← lt_div_iff₀ hpos, ← div_le_iff₀ hpos, ← div_lt_iff₀ hpos] at hholds
  have hclosed : (interval m e).closed = (m % 2 == 0) := rfl
  rw [hclosed] at hholds
  split at hholds
  · next heven =>
    rw [beq_iff_eq] at heven
    exact rounds_of_near h hholds.1 hholds.2 fun hodd => by omega
  · exact rounds_of_near h hholds.1.le hholds.2.le fun _ => hholds

/-! ## The search -/

theorem Interval.holds_of_gridPoint? {i : Interval} {k : ℤ} {p : Scientific}
    (h : i.gridPoint? k = some p) : i.holds p.coefficient p.exponent = true := by
  unfold Interval.gridPoint? at h
  dsimp only at h
  split at h
  · cases h; assumption
  · split at h
    · cases h; assumption
    · split at h
      · cases h; assumption
      · cases h

theorem Interval.holds_of_firstHit? {i : Interval} {grids : ℕ} {k : ℤ} {p : Scientific}
    (h : i.firstHit? grids k = some p) : i.holds p.coefficient p.exponent = true := by
  fun_induction Interval.firstHit? i grids k with
  | case1 => cases h
  | case2 _ _ _ hpoint => cases h; exact holds_of_gridPoint? hpoint
  | case3 _ _ _ ih => exact ih h

/-- The grid point nearest to the middle of an interval. -/
def Interval.nearest (i : Interval) (k : ℤ) : ℕ :=
  roundDiv (i.value * powTen (-k).toNat) (powTen k.toNat * i.unit)

theorem Interval.exists_firstHit? {i : Interval} {j grids : ℕ} {k : ℤ} (hj : j < grids)
    (h : i.holds (i.nearest (k - j)) (k - j) = true) : ∃ p, i.firstHit? grids k = some p := by
  induction j generalizing grids k with
  | zero =>
    obtain ⟨grids, rfl⟩ := Nat.exists_eq_succ_of_ne_zero hj.ne'
    rw [Nat.cast_zero, sub_zero] at h
    have hpoint : i.gridPoint? k = some ⟨i.nearest k, k⟩ := if_pos h
    exact ⟨_, by rw [firstHit?, hpoint]⟩
  | succ j ih =>
    obtain ⟨grids, rfl⟩ := Nat.exists_eq_succ_of_ne_zero (Nat.ne_zero_of_lt hj)
    rw [firstHit?]
    split
    · exact ⟨_, rfl⟩
    · refine ih (by omega) ?_
      rwa [show k - 1 - j = k - (j + 1 : ℕ) by push_cast; ring]

/-- The nearest grid point is at most half a grid away. -/
theorem Interval.nearest_close {i : Interval} (hunit : 0 < i.unit) (k : ℤ) :
    (i.value / i.unit : ℚ) - 10 ^ k / 2 ≤ decimalValue (i.nearest k) k ∧
      decimalValue (i.nearest k) k ≤ (i.value / i.unit : ℚ) + 10 ^ k / 2 := by
  have hu : (0 : ℚ) < i.unit := by exact_mod_cast hunit
  have hup : (0 : ℚ) < powTen k.toNat := by exact_mod_cast powTen_pos _
  have hd : (0 : ℚ) < powTen (-k).toNat := by exact_mod_cast powTen_pos _
  obtain ⟨hle, hge⟩ := roundDiv_close (i.value * powTen (-k).toNat) (powTen k.toNat * i.unit)
    (Nat.mul_pos (powTen_pos _) hunit)
  change 2 * (i.nearest k * _) ≤ _ at hle
  change _ ≤ 2 * (i.nearest k * _) + _ at hge
  have hle' : (2 : ℚ) * (i.nearest k * (powTen k.toNat * i.unit)) ≤
      2 * (i.value * powTen (-k).toNat) + powTen k.toNat * i.unit := by exact_mod_cast hle
  have hge' : (2 : ℚ) * (i.value * powTen (-k).toNat) ≤
      2 * (i.nearest k * (powTen k.toNat * i.unit)) + powTen k.toNat * i.unit := by
    exact_mod_cast hge
  rw [decimalValue, ← cast_powTen]
  generalize (powTen k.toNat : ℚ) = up at *
  generalize (powTen (-k).toNat : ℚ) = down at *
  constructor
  · rw [← sub_nonneg]
    have : (i.nearest k : ℚ) * (up / down) - ((i.value : ℚ) / i.unit - up / down / 2) =
        (2 * (i.nearest k * (up * i.unit)) + up * i.unit - 2 * (i.value * down)) /
          (2 * i.unit * down) := by
      field_simp
      ring
    rw [this]
    exact div_nonneg (by linarith) (by positivity)
  · rw [← sub_nonneg]
    have : (i.value : ℚ) / i.unit + up / down / 2 - (i.nearest k : ℚ) * (up / down) =
        (2 * (i.value * down) + up * i.unit - 2 * (i.nearest k * (up * i.unit))) /
          (2 * i.unit * down) := by
      field_simp
    rw [this]
    exact div_nonneg (by linarith) (by positivity)

/-- The leading digit is not put too high. -/
theorem Interval.pow_leading_le {i : Interval} (hunit : 0 < i.unit) (hvalue : 0 < i.value) :
    (10 : ℚ) ^ i.leading ≤ i.value / i.unit := by
  have hu : (0 : ℚ) < i.unit := by exact_mod_cast hunit
  have hshift : i.unit < powTen (natChars i.unit).length := lt_pow_length_toDigits i.unit
  unfold Interval.leading
  dsimp only
  generalize (natChars i.unit).length = shift at *
  generalize hn : i.value * powTen shift / i.unit = n
  have hpos : 0 < n := by
    rw [← hn]
    exact Nat.div_pos (hshift.le.trans (Nat.le_mul_of_pos_left _ hvalue)) hunit
  have hdigits : (10 : ℚ) ^ ((natChars n).length - 1) ≤ n := by
    exact_mod_cast pow_length_toDigits_le hpos
  have hquotient : (n : ℚ) ≤ i.value * 10 ^ shift / i.unit := by
    have hcast : (powTen shift : ℚ) = 10 ^ shift := by simp [powTen]
    rw [← hn, ← hcast, ← Nat.cast_mul]
    exact Nat.cast_div_le
  have hlength : 0 < (natChars n).length := List.length_pos_iff.mpr (natChars_ne_nil n)
  have hexponent : ((natChars n).length : ℤ) - 1 = ((natChars n).length - 1 : ℕ) := by omega
  rw [hexponent, zpow_sub₀ (by norm_num), zpow_natCast, zpow_natCast,
    div_le_iff₀ (by positivity), div_mul_eq_mul_div]
  exact hdigits.trans hquotient

/-- **The search does not miss.** With seventeen digits the grid is finer than the interval. -/
theorem exists_firstHit? {m : ℕ} {e : ℤ} (h : IsStandard m e) (hm : 0 < m) :
    ∃ p, (interval m e).firstHit? 19 ((interval m e).leading + 1) = some p := by
  have hunit := unit_interval m e
  have hpos : (0 : ℚ) < 2 ^ e := by positivity
  have hvalue : 0 < (interval m e).value := by
    have hcast : (0 : ℚ) < (interval m e).value / (interval m e).unit := by
      rw [value_interval]
      have : (0 : ℚ) < m := by exact_mod_cast hm
      positivity
    have hu : (0 : ℚ) < (interval m e).unit := by exact_mod_cast hunit
    exact_mod_cast (div_pos_iff_of_pos_right hu).mp hcast
  refine Interval.exists_firstHit? (j := 18) (by decide) ?_
  have hleading := Interval.pow_leading_le hunit hvalue
  obtain ⟨hlow, hhigh⟩ := Interval.nearest_close hunit ((interval m e).leading + 1 - (18 : ℕ))
  rw [Interval.holds_iff hunit, low_interval hm, high_interval]
  rw [value_interval] at hleading hlow hhigh
  generalize (interval m e).leading = leading at *
  generalize decimalValue _ _ = x at *
  -- half a grid is less than a quarter of the last place
  have hgrid : (10 : ℚ) ^ (leading + 1 - (18 : ℕ)) / 2 < 2 ^ e / 4 := by
    have hm53 : (m : ℚ) < 2 ^ 53 := by exact_mod_cast h.lt
    rw [show leading + 1 - (18 : ℕ) = leading + -17 by push_cast; ring, zpow_add₀ (by norm_num)]
    have hbound : (10 : ℚ) ^ leading < 2 ^ 53 * 2 ^ e := hleading.trans_lt (by gcongr)
    norm_num at hbound ⊢
    linarith
  have hgap : (1 / 4 : ℚ) ≤ gapBelow m e := by
    unfold gapBelow
    split <;> norm_num
  have hstrict : (m - gapBelow m e) * 2 ^ e < x ∧ x < (m + 1 / 2) * 2 ^ e := by
    constructor
    · calc (m - gapBelow m e) * 2 ^ e ≤ (m - 1 / 4) * 2 ^ e := by gcongr
        _ = m * 2 ^ e - 2 ^ e / 4 := by ring
        _ < x := by linarith
    · calc x < m * 2 ^ e + 2 ^ e / 4 := by linarith
        _ ≤ (m + 1 / 2) * 2 ^ e := by linarith
  split
  · exact ⟨hstrict.1.le, hstrict.2.le⟩
  · exact hstrict

/-- **The fewest digits are rounded to the number they were made from.** -/
theorem rounds_shortest {m : ℕ} {e : ℤ} (h : IsStandard m e) :
    Rounds (decimalValue (shortest m e).coefficient (shortest m e).exponent) (m * 2 ^ e) := by
  unfold shortest
  split
  · next hm =>
    subst hm
    simpa [decimalValue] using rounds_self h
  · next hm =>
    have hpos := Nat.pos_of_ne_zero hm
    obtain ⟨p, hp⟩ := exists_firstHit? h hpos
    simp only [hp, Option.getD_some]
    exact rounds_of_holds h hpos (Interval.holds_of_firstHit? hp)

end CompressorBench.Decimal
