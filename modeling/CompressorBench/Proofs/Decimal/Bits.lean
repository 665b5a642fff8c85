import CompressorBench.Proofs.Decimal.Nearest

/-!
# Bit patterns and what they stand for

Arithmetic works on unpacked numbers: a sign, a mantissa and an exponent. Bit patterns are unpacked
before an operation and packed after it. Neither changes what is meant, as long as a number is in
the form of the format; so a finite number is told by its sign, its mantissa and its exponent.

* `ofUnpacked_unpack`, `ofBits_pack`: unpacking and packing keep what is meant.
* `isStandard_of_ofBits`: every finite number is in the form of the format.
* `eq_of_ofFloat`: a finite number is told by its parts.
-/

namespace CompressorBench.Decimal.Binary64

open Float.Model Float.Model.UnpackedFloat

/-- A sign as a truth value. -/
def isMinus : Sign → Bool
  | .negative => true
  | .positive => false

/-- What an unpacked number stands for. -/
def ofUnpacked : UnpackedFloat → Binary64
  | .notANumber => .nan
  | .infinity sign => .infinite (isMinus sign)
  | .zero sign => .finite (isMinus sign) 0 (-1074)
  | .finite sign mantissa exponent _ => .finite (isMinus sign) mantissa exponent

/-! ## Bits -/

theorem toNat_unpackMantissa (b : BitVec 64) :
    (@unpackMantissa Format.binary64 b).toNat = b.toNat % fullMantissa := by
  simp [unpackMantissa, fullMantissa]

theorem toNat_unpackExponent (b : BitVec 64) :
    (@unpackExponent Format.binary64 b).toNat = b.toNat / fullMantissa % 2048 := by
  simp [unpackExponent, fullMantissa, Nat.shiftRight_eq_div_pow]

theorem isMinus_unpackSign (b : BitVec 64) :
    isMinus (Sign.ofBitVec (@unpackSign Format.binary64 b)) =
      decide (2048 * fullMantissa ≤ b.toNat) := by
  have hlt := b.isLt
  have hbit : (@unpackSign Format.binary64 b).toNat = b.toNat / 9223372036854775808 % 2 := by
    simp [unpackSign, Nat.shiftRight_eq_div_pow]
  unfold Sign.ofBitVec
  split
  · next hzero =>
    rw [hzero] at hbit
    simp only [isMinus, fullMantissa, BitVec.toNat_ofNat] at hbit ⊢
    refine (decide_eq_false ?_).symm
    omega
  · next hone =>
    rw [← BitVec.toNat_inj, hbit] at hone
    simp only [isMinus, fullMantissa, BitVec.toNat_ofNat] at hone ⊢
    refine (decide_eq_true ?_).symm
    omega

/-- The leading digit of a mantissa of full length is put before the others. -/
theorem toNat_one_append (v : BitVec 52) : (1#1 ++ v).toNat = fullMantissa + v.toNat := by
  rw [BitVec.toNat_append, ← Nat.shiftLeft_add_eq_or_of_lt v.isLt]
  rfl

/-- **Unpacking keeps what bits stand for.** -/
theorem ofUnpacked_unpack (bits : UInt64) :
    ofUnpacked (UnpackedFloat.unpack Format.binary64 bits.toBitVec) = ofBits bits := by
  have hm := toNat_unpackMantissa bits.toBitVec
  have he := toNat_unpackExponent bits.toBitVec
  have hs := isMinus_unpackSign bits.toBitVec
  have htop : @unpackExponent Format.binary64 bits.toBitVec = -1#_ ↔
      (@unpackExponent Format.binary64 bits.toBitVec).toNat = 2047 := BitVec.toNat_inj.symm
  have hbottom : @unpackExponent Format.binary64 bits.toBitVec = 0#_ ↔
      (@unpackExponent Format.binary64 bits.toBitVec).toNat = 0 := BitVec.toNat_inj.symm
  have hnone : @unpackMantissa Format.binary64 bits.toBitVec = 0#_ ↔
      (@unpackMantissa Format.binary64 bits.toBitVec).toNat = 0 := BitVec.toNat_inj.symm
  simp only [UInt64.toNat_toBitVec] at hm he hs
  simp only [UnpackedFloat.unpack, ofBits, ← hm, ← he, ← hs, htop, hbottom, hnone]
  split
  · split <;> rfl
  · split
    · next hzero =>
      split
      · next hfraction => rw [hfraction]; rfl
      · rw [hzero]; rfl
    · rw [ofUnpacked, toNat_one_append]
      rfl

/-- What is unpacked is in the form of the format. -/
theorem isStandard_of_ofBits {bits : UInt64} {negative : Bool} {m : ℕ} {e : ℤ}
    (h : ofBits bits = .finite negative m e) : IsStandard m e ∧ e ≤ 971 := by
  have hlt := mantissa_lt h
  simp only [ofBits] at h
  have hfield : bits.toNat / fullMantissa % 2048 < 2048 := Nat.mod_lt _ (by decide)
  split at h
  · split at h <;> cases h
  · split at h
    · injection h with _ hm he
      exact ⟨⟨hlt, by omega, .inr he.symm⟩, by omega⟩
    · injection h with _ hm he
      exact ⟨⟨hlt, by omega, .inl (by omega)⟩, by omega⟩

/-- A finite number is told by its sign, its exponent and its mantissa. -/
theorem toNat_of_ofBits {bits : UInt64} {negative : Bool} {m : ℕ} {e : ℤ}
    (h : ofBits bits = .finite negative m e) :
    bits.toNat = (negative.toNat * 2048 + (e + 1074).toNat) * fullMantissa + m := by
  have hlt := bits.toNat_lt
  have hsign : (decide (2048 * fullMantissa ≤ bits.toNat)).toNat =
      bits.toNat / (2048 * fullMantissa) := by
    by_cases htop : 2048 * fullMantissa ≤ bits.toNat
    · rw [decide_eq_true htop]
      simp only [fullMantissa, Bool.toNat_true] at *
      omega
    · rw [decide_eq_false htop]
      simp only [fullMantissa, Bool.toNat_false] at *
      omega
  simp only [ofBits] at h
  split at h
  · split at h <;> cases h
  · split at h
    · injection h with hs hm he
      rw [← hs, ← hm, ← he, hsign]
      simp only [fullMantissa] at *
      omega
    · injection h with hs hm he
      rw [← hs, ← hm, ← he, hsign]
      simp only [fullMantissa] at *
      omega

theorem eq_of_ofFloat {a b : Float} {negative : Bool} {m : ℕ} {e : ℤ}
    (ha : ofFloat a = .finite negative m e) (hb : ofFloat b = .finite negative m e) : a = b := by
  have hbits : a.toBits = b.toBits :=
    UInt64.toNat_inj.mp ((toNat_of_ofBits ha).trans (toNat_of_ofBits hb).symm)
  obtain ⟨⟨bits, hvalid⟩⟩ := a
  obtain ⟨⟨bits', hvalid'⟩⟩ := b
  cases hbits
  rfl

/-! ## Packing -/

theorem toNat_packComponents (sign : Sign) (exponent : BitVec 11) (mantissa : BitVec 52) :
    (packComponents Format.binary64 sign exponent mantissa).toNat =
      ((isMinus sign).toNat * 2048 + exponent.toNat) * fullMantissa + mantissa.toNat := by
  have hsign : sign.toBitVec.toNat = (isMinus sign).toNat := by cases sign <;> rfl
  show (sign.toBitVec ++ exponent ++ mantissa).toNat = _
  rw [BitVec.toNat_append, ← Nat.shiftLeft_add_eq_or_of_lt mantissa.isLt, BitVec.toNat_append,
    ← Nat.shiftLeft_add_eq_or_of_lt exponent.isLt, hsign, Nat.shiftLeft_eq, Nat.shiftLeft_eq]
  rfl

/-- The parts of a bit pattern are read off it again. -/
theorem ofBits_packComponents (sign : Sign) (exponent : BitVec 11) (mantissa : BitVec 52)
    (h : exponent.toNat ≠ 2047) :
    ofBits (.ofBitVec (packComponents Format.binary64 sign exponent mantissa)) =
      if exponent.toNat = 0 then .finite (isMinus sign) mantissa.toNat (-1074)
      else
        .finite (isMinus sign) (fullMantissa + mantissa.toNat) ((exponent.toNat : ℤ) - 1075) := by
  have hexponent := exponent.isLt
  have hmantissa : mantissa.toNat < fullMantissa := mantissa.isLt
  have hn := toNat_packComponents sign exponent mantissa
  have hdiv : ∀ k, (k * fullMantissa + mantissa.toNat) / fullMantissa = k := fun k => by
    rw [Nat.mul_comm, Nat.mul_add_div (by decide), Nat.div_eq_of_lt hmantissa, Nat.add_zero]
  have hmod : ∀ k,
      (k * fullMantissa + mantissa.toNat) % fullMantissa = mantissa.toNat := fun k => by
    rw [Nat.mul_comm, Nat.mul_add_mod, Nat.mod_eq_of_lt hmantissa]
  have hfield : ((isMinus sign).toNat * 2048 + exponent.toNat) % 2048 = exponent.toNat := by
    rw [Nat.mul_comm, Nat.mul_add_mod, Nat.mod_eq_of_lt hexponent]
  have hnegative : decide (2048 * fullMantissa ≤
      ((isMinus sign).toNat * 2048 + exponent.toNat) * fullMantissa + mantissa.toNat) =
        isMinus sign := by
    cases isMinus sign
    · simp [fullMantissa] at hmantissa ⊢
      omega
    · simp [fullMantissa]
      omega
  simp only [ofBits, UInt64.toNat_ofBitVec, hn, hdiv, hmod, hfield, hnegative, if_neg h]

theorem log2_eq_iff {m : ℕ} (hpos : 0 < m) (hlt : m < 2 * fullMantissa) :
    m.log2 = 52 ↔ fullMantissa ≤ m := by
  have hle : m.log2 < 53 := (Nat.log2_lt hpos.ne').mpr hlt
  have hge : 52 ≤ m.log2 ↔ fullMantissa ≤ m := Nat.le_log2 hpos.ne'
  rw [← hge]
  omega

/-- **Packing keeps a number of the format.** -/
theorem ofBits_pack {u : UnpackedFloat} {negative : Bool} {m : ℕ} {e : ℤ}
    (hu : ofUnpacked u = .finite negative m e) (h : IsStandard m e) (hle : e ≤ 971) :
    ofBits (.ofBitVec (UnpackedFloat.pack Format.binary64 u)) = .finite negative m e := by
  cases u with
  | infinity sign => cases hu
  | notANumber => cases hu
  | zero sign =>
    rw [← hu]
    exact ofBits_packComponents sign 0 0 (by decide)
  | finite sign mantissa exponent hpos =>
    cases hu
    have hge := h.ge
    have hlt := h.lt
    simp only [UnpackedFloat.pack]
    generalize hbiased : (e + Format.binary64.exponentBias + 52).toNat = biased
    replace hbiased : (e + 1023 + 52).toNat = biased := hbiased
    have hroom : ¬ 2 ^ Format.binary64.exponentBits ≤ biased + 1 := by
      show ¬ 2048 ≤ biased + 1
      omega
    have hlog : m.log2 + 1 = Format.binary64.mantissaBits ↔ fullMantissa ≤ m := by
      rw [← log2_eq_iff hpos hlt]
      show m.log2 + 1 = 53 ↔ _
      omega
    rw [if_neg hroom]
    simp only [hlog]
    split
    · next hfull =>
      have hexponent : (BitVec.ofNat 11 biased).toNat = biased := by
        rw [BitVec.toNat_ofNat, Nat.mod_eq_of_lt (by omega)]
      have hmantissa : (BitVec.ofNat 52 m).toNat = m - fullMantissa := by
        rw [BitVec.toNat_ofNat]
        simp only [fullMantissa] at *
        omega
      refine (ofBits_packComponents sign (BitVec.ofNat 11 biased) (BitVec.ofNat 52 m)
        (by omega)).trans ?_
      rw [hexponent, hmantissa, if_neg (by omega), Nat.add_sub_cancel' hfull,
        show (biased : ℤ) - 1075 = e by omega]
    · next hshort =>
      have hmantissa : (BitVec.ofNat 52 m).toNat = m := by
        rw [BitVec.toNat_ofNat]
        simp only [fullMantissa] at *
        omega
      refine (ofBits_packComponents sign 0 (BitVec.ofNat 52 m) (by decide)).trans ?_
      rw [hmantissa, if_pos (show BitVec.toNat 0 = 0 from rfl), h.full.resolve_left hshort]

end CompressorBench.Decimal.Binary64
