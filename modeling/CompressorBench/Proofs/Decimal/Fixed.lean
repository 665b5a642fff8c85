import CompressorBench.Decimal.Fixed
import CompressorBench.Proofs.Decimal.Order
import CompressorBench.Proofs.Decimal.Scientific
import CompressorBench.Proofs.Decimal.Shortest

/-!
# The text of a number with fixed places

How many characters the text of a number has, and which ones. A number below a power of ten may be
rounded up to it, so that the text has one digit more before the point than the number has.

* `exists_finite_of_lt`: what comparing a floating point number with zero and with a bound says.
* `length_fixed_le`: the text of a number below a power of ten.
* `isFixedChar_of_mem`: the characters of a text.
-/

namespace CompressorBench.Decimal

open Binary64

/-! ## Digits -/

theorem length_natChars_le_iff {n k : ℕ} (hk : 0 < k) : (natChars n).length ≤ k ↔ n < 10 ^ k :=
  Nat.length_toDigits_le_iff (by decide) hk

theorem length_paddedNatChars {width n : ℕ} (hwidth : 0 < width) (h : n < 10 ^ width) :
    (paddedNatChars width n).length = width := by
  have hle := (length_natChars_le_iff hwidth).mpr h
  simp only [paddedNatChars, List.length_append, List.length_replicate]
  omega

/-- The digits before the point, the point, and the places. -/
theorem length_unitsChars_le {places digits units : ℕ} (hplaces : 0 < places) (hdigits : 0 < digits)
    (h : units < 10 ^ digits * powTen places) :
    (unitsChars places units).length ≤ digits + 1 + places := by
  have hpos : 0 < powTen places := powTen_pos places
  have hwhole : (natChars (units / powTen places)).length ≤ digits := by
    rw [length_natChars_le_iff hdigits]
    exact Nat.div_lt_of_lt_mul (by rwa [Nat.mul_comm])
  have hfraction : (paddedNatChars places (units % powTen places)).length = places :=
    length_paddedNatChars hplaces (Nat.mod_lt units hpos)
  rw [unitsChars, if_neg hplaces.ne', List.length_append, List.length_cons, hfraction]
  omega

/-! ## How long a text is -/

/-- Rounding to places does not leave a power of ten behind. -/
theorem scaledToPlaces_le {places digits m : ℕ} {e : ℤ} (h : (m : ℚ) * 2 ^ e < 10 ^ digits) :
    scaledToPlaces places m e ≤ 10 ^ digits * powTen places := by
  have hnearest := isNearest_roundDiv ((scaleByTwo m e).1 * powTen places) (scaleByTwo_pos m e)
  refine hnearest.mono (isNearest_self _) ?_
  rw [Nat.cast_mul, mul_div_right_comm, cast_scaleByTwo]
  push_cast
  exact mul_le_mul_of_nonneg_right h.le (Nat.cast_nonneg _)

@[simp] theorem scaledToPlaces_zero (places : ℕ) (e : ℤ) : scaledToPlaces places 0 e = 0 := by
  have hzero : (scaleByTwo 0 e).1 = 0 := by cases e <;> simp [scaleByTwo]
  rw [scaledToPlaces, hzero, Nat.zero_mul, roundDiv_of_mod_eq_zero (scaleByTwo_pos 0 e) (by simp),
    Nat.zero_div]

theorem unpack_zero : (0.0 : Float).toModel.unpack = .zero .positive := by
  rcases denotes_zero.unpack with ⟨-, h⟩ | ⟨m, e, hm, -, hzero, -⟩
  · exact h
  · have hpos : (0 : ℚ) < m * 2 ^ e := by
      have hcast : (0 : ℚ) < m := by exact_mod_cast hm
      positivity
    exact absurd hzero hpos.ne

/-- A floating point number from zero up to a bound is finite, and only zero may have a minus. -/
theorem exists_finite_of_lt {x y : Float} {bound : ℚ} (hy : Denotes y bound) (hnonneg : 0.0 ≤ x)
    (hlt : x < y) :
    ∃ negative m e, ofFloat x = .finite negative m e ∧ (m : ℚ) * 2 ^ e < bound ∧
      (negative = true → m = 0) := by
  have hunpacked : ofUnpacked x.toModel.unpack = ofFloat x := ofUnpacked_unpack x.toBits
  have hle : (0.0 : Float).toModel.unpack.le x.toModel.unpack = true := of_decide_eq_true hnonneg
  have hbelow : x.toModel.unpack.lt y.toModel.unpack = true := of_decide_eq_true hlt
  rw [unpack_zero] at hle
  cases hx : x.toModel.unpack with
  | notANumber =>
    rw [hx] at hle
    cases hle
  | infinity sign =>
    rw [hx] at hle hbelow
    cases sign with
    | negative => cases hle
    | positive =>
      rcases hy.unpack with ⟨-, hy⟩ | ⟨n, f, hn, -, -, hy⟩ <;> rw [hy] at hbelow <;> cases hbelow
  | zero sign =>
    rw [hx] at hunpacked hbelow
    refine ⟨_, _, _, hunpacked.symm, ?_, fun _ => rfl⟩
    rcases hy.unpack with ⟨-, hy⟩ | ⟨n, f, hn, -, rfl, hy⟩
    · rw [hy] at hbelow
      cases hbelow
    · have hcast : (0 : ℚ) < n := by exact_mod_cast hn
      rw [Nat.cast_zero, zero_mul]
      positivity
  | finite sign m e hm =>
    rw [hx] at hunpacked hle
    cases sign with
    | negative => cases hle
    | positive =>
      have hdenotes : Denotes x (m * 2 ^ e) := ⟨m, e, hunpacked.symm, rfl⟩
      exact ⟨false, m, e, hunpacked.symm, (hdenotes.lt_iff hy).mp hlt, nofun⟩

/-- **The text of a number below a power of ten.** Rounding may add a digit before the point, but
not a minus: only the text of a zero has one, and that has a single digit there. -/
theorem length_fixed_le {places digits : ℕ} {x y : Float} (hplaces : 0 < places)
    (hdigits : 0 < digits) (hy : Denotes y (10 ^ digits)) (hnonneg : 0.0 ≤ x) (hlt : x < y) :
    (fixed places x).toList.length ≤ digits + 2 + places := by
  obtain ⟨negative, m, e, hx, hbelow, hzero⟩ := exists_finite_of_lt hy hnonneg hlt
  rw [fixed, hx]
  cases negative with
  | true =>
    obtain rfl := hzero rfl
    have hle : (unitsChars places 0).length ≤ 1 + 1 + places :=
      length_unitsChars_le hplaces Nat.one_pos (Nat.mul_pos (by decide) (powTen_pos places))
    simp only [if_true, scaledToPlaces_zero, String.toList_append, String.toList_ofList,
      List.length_append]
    have hminus : "-".toList.length = 1 := rfl
    omega
  | false =>
    have hscaled : scaledToPlaces places m e ≤ 10 ^ digits * powTen places :=
      scaledToPlaces_le hbelow
    have hpos : 0 < powTen places := powTen_pos places
    have hunits : scaledToPlaces places m e < 10 ^ (digits + 1) * powTen places := by
      refine lt_of_le_of_lt hscaled (Nat.mul_lt_mul_of_pos_right ?_ hpos)
      exact Nat.pow_lt_pow_right (by decide) (Nat.lt_succ_self digits)
    have hle := length_unitsChars_le hplaces (Nat.succ_pos digits) hunits
    simp only [Bool.false_eq_true, if_false, String.toList_append, String.toList_ofList,
      List.length_append]
    simpa using hle

/-! ## Which characters a text has -/

/-- The characters of a text: digits, the minus, the point, and the letters of what is no number. -/
def isFixedChar (c : Char) : Bool := c.isDigit || "-.Nainf".toList.contains c

theorem isFixedChar_of_mem_natChars {n : ℕ} {c : Char} (h : c ∈ natChars n) :
    isFixedChar c = true := by
  rw [isFixedChar, isDigit_of_mem_natChars h, Bool.true_or]

theorem isFixedChar_of_mem_unitsChars {places units : ℕ} {c : Char}
    (h : c ∈ unitsChars places units) : isFixedChar c = true := by
  rcases List.mem_append.mp h with hwhole | hfraction
  · exact isFixedChar_of_mem_natChars hwhole
  split at hfraction
  · exact absurd hfraction List.not_mem_nil
  rcases List.mem_cons.mp hfraction with rfl | hplaces
  · decide
  rcases List.mem_append.mp hplaces with hzero | hdigit
  · rw [List.eq_of_mem_replicate hzero]
    decide
  · exact isFixedChar_of_mem_natChars hdigit

theorem isFixedChar_of_mem {places : ℕ} {x : Float} {c : Char}
    (h : c ∈ (fixed places x).toList) : isFixedChar c = true := by
  rw [fixed] at h
  split at h
  · exact List.all_eq_true.mp (by decide) c h
  · exact List.all_eq_true.mp (by decide) c h
  · exact List.all_eq_true.mp (by decide) c h
  · next negative m e _ =>
    rw [String.toList_append, String.toList_ofList, List.mem_append] at h
    rcases h with hminus | hunits
    · cases negative with
      | true => exact List.all_eq_true.mp (by decide) c hminus
      | false => exact absurd hminus List.not_mem_nil
    · exact isFixedChar_of_mem_unitsChars hunits

end CompressorBench.Decimal
