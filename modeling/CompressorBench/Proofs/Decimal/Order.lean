import CompressorBench.Proofs.Decimal.Arithmetic

/-!
# Numbers in order

Floating point numbers are compared by their exponents first and then by their mantissas. In the
form of the format the exponent tells which of two numbers has more digits, so this is the order of
what the numbers stand for.

Rounding moves a number by half a last place at most. So numbers that are further apart than one
last place stay apart when they are rounded.

* `Denotes.lt_iff`, `Denotes.le_iff`, `Denotes.beq_iff`: numbers are compared by their values.
* `exists_rounds`: every number that is not negative is rounded to some number.
* `Rounds.lt_of_gap`: a gap of more than a last place survives rounding.
-/

namespace CompressorBench.Decimal.Binary64

open Float.Model Float.Model.UnpackedFloat

/-! ## Comparing -/

/-- The greater exponent belongs to the greater number. -/
theorem IsStandard.lt_of_exponent_lt {m n : ℕ} {e f : ℤ} (hm : IsStandard m e)
    (hn : IsStandard n f) (h : e < f) : (m : ℚ) * 2 ^ e < n * 2 ^ f := by
  by_contra hle
  exact absurd (hn.hasLastPlace.mono hm.hasLastPlace (not_lt.mp hle)) (not_le.mpr h)

/-- **Exponents are compared before mantissas**, which is the order of the numbers. -/
theorem IsStandard.compare_eq {m n : ℕ} {e f : ℤ} (hm : IsStandard m e) (hn : IsStandard n f) :
    (compare e f).then (compare m n) = compare ((m : ℚ) * 2 ^ e) (n * 2 ^ f) := by
  rcases lt_trichotomy e f with h | rfl | h
  · rw [compare_lt_iff_lt.mpr h, compare_lt_iff_lt.mpr (hm.lt_of_exponent_lt hn h)]
    rfl
  · have hpos : (0 : ℚ) < 2 ^ e := by positivity
    rw [compare_eq_iff_eq.mpr rfl, Ordering.then]
    rcases lt_trichotomy m n with h | rfl | h
    · have hcast : (m : ℚ) < n := by exact_mod_cast h
      rw [compare_lt_iff_lt.mpr h, compare_lt_iff_lt.mpr (by gcongr)]
    · rw [compare_eq_iff_eq.mpr rfl, compare_eq_iff_eq.mpr rfl]
    · have hcast : (n : ℚ) < m := by exact_mod_cast h
      rw [compare_gt_iff_gt.mpr h, compare_gt_iff_gt.mpr (by gcongr)]
  · rw [compare_gt_iff_gt.mpr h, compare_gt_iff_gt.mpr (hn.lt_of_exponent_lt hm h)]
    rfl

section Values

variable {a b : Float} {x y : ℚ}

theorem Denotes.nonneg (h : Denotes a x) : 0 ≤ x := by
  obtain ⟨m, e, -, rfl⟩ := h
  positivity

theorem Denotes.compare_unpack (ha : Denotes a x) (hb : Denotes b y) :
    a.toModel.unpack.compare b.toModel.unpack = some (compare x y) := by
  rcases ha.unpack with ⟨rfl, hua⟩ | ⟨m, e, hm, hme, rfl, hua⟩ <;>
    rcases hb.unpack with ⟨rfl, hub⟩ | ⟨n, f, hn, hnf, rfl, hub⟩ <;> rw [hua, hub]
  · rfl
  · have hpos : (0 : ℚ) < n * 2 ^ f := by positivity
    rw [compare_lt_iff_lt.mpr hpos]
    rfl
  · have hpos : (0 : ℚ) < m * 2 ^ e := by positivity
    rw [compare_gt_iff_gt.mpr hpos]
    rfl
  · exact congrArg some (hme.compare_eq hnf)

theorem Denotes.lt_iff (ha : Denotes a x) (hb : Denotes b y) : a < b ↔ x < y := by
  show decide (a.toModel.unpack.lt b.toModel.unpack = true) = true ↔ x < y
  rw [decide_eq_true_iff, UnpackedFloat.lt, ha.compare_unpack hb, beq_iff_eq, Option.some_inj,
    compare_lt_iff_lt]

theorem Denotes.le_iff (ha : Denotes a x) (hb : Denotes b y) : a ≤ b ↔ x ≤ y := by
  show decide (a.toModel.unpack.le b.toModel.unpack = true) = true ↔ x ≤ y
  rw [decide_eq_true_iff, UnpackedFloat.le, ha.compare_unpack hb, Option.any_some,
    Ordering.isLE_iff_ne_gt]
  exact compare_le_iff_le

theorem Denotes.beq_iff (ha : Denotes a x) (hb : Denotes b y) : (a == b) = true ↔ x = y := by
  show a.toModel.unpack.beq b.toModel.unpack = true ↔ x = y
  rw [UnpackedFloat.beq, ha.compare_unpack hb, beq_iff_eq, Option.some_inj, compare_eq_iff_eq]

theorem Denotes.eq_iff (ha : Denotes a x) (hb : Denotes b y) : a = b ↔ x = y :=
  ⟨fun h => ha.eq (h ▸ hb), fun h => ha.unique (h ▸ hb)⟩

end Values

/-! ## How far rounding goes -/

/-- Every number that is not negative is rounded to some number. -/
theorem exists_rounds {x : ℚ} (hx : 0 ≤ x) : ∃ z, Rounds x z := by
  rcases hx.eq_or_lt with rfl | hpos
  · exact ⟨0, rounds_zero_zero⟩
  · have hnum : 0 < x.num.toNat := by
      have := Rat.num_pos.mpr hpos
      omega
    obtain ⟨n, f, -, hrounds, -⟩ := isRounded_div (e := 0) (f := 0) hnum x.den_pos
    have hcast : ((x.num.toNat : ℕ) : ℚ) = x.num := by
      exact_mod_cast Int.toNat_of_nonneg (Rat.num_nonneg.mpr hx)
    rw [zpow_zero, mul_one, mul_one, hcast, Rat.num_div_den] at hrounds
    exact ⟨_, hrounds⟩

/-- A number of at most 53 binary digits down to a place has no last place above it. -/
theorem HasLastPlace.le_of_lt {x : ℚ} {e f : ℤ} (hx : HasLastPlace x e) (hlt : x < 2 ^ (f + 53))
    (hf : -1074 ≤ f) : e ≤ f := by
  rcases hx.full with hfull | rfl
  · by_contra hlarge
    have hstep : (2 : ℚ) ^ (f + 53) ≤ 2 ^ (e + 52) :=
      zpow_le_zpow_right₀ (by norm_num) (by omega)
    linarith
  · exact hf

/-- **Rounding moves a number by half a last place at most.** -/
theorem Rounds.bounds {x z : ℚ} {e : ℤ} (h : Rounds x z) (hlt : x < 2 ^ (e + 53))
    (he : -1074 ≤ e) : x - 2 ^ e / 2 ≤ z ∧ z ≤ x + 2 ^ e / 2 := by
  obtain ⟨f, n, hplace, hnearest, rfl⟩ := h
  have hpos : (0 : ℚ) < 2 ^ f := by positivity
  have hstep : (2 : ℚ) ^ f ≤ 2 ^ e :=
    zpow_le_zpow_right₀ (by norm_num) (hplace.le_of_lt hlt he)
  have hge := hnearest.ge
  have hle := hnearest.le
  rw [le_div_iff₀ hpos, sub_mul] at hge
  rw [div_le_iff₀ hpos, add_mul] at hle
  constructor <;> linarith

/-- **A gap of more than a last place survives rounding.** -/
theorem Rounds.lt_of_gap {x y u v : ℚ} {e : ℤ} (hx : Rounds x u) (hy : Rounds y v)
    (hlt : y < 2 ^ (e + 53)) (he : -1074 ≤ e) (hgap : x + 2 ^ e < y) : u < v := by
  have hpos : (0 : ℚ) < 2 ^ e := by positivity
  have hu := (hx.bounds (by linarith) he).2
  have hv := (hy.bounds hlt he).1
  linarith

end CompressorBench.Decimal.Binary64
