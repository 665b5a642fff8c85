import CompressorBench.Decimal.Power

/-!
# Binary floating point numbers as exact values

A finite binary64 number is a mantissa times a power of two with a sign. All decimal texts are
computed from this exact value in integer arithmetic.
-/

namespace CompressorBench.Decimal

/-- What a binary64 bit pattern stands for. A finite number is `mantissa * 2 ^ exponent`; the sign
is kept apart so that both zeros exist. -/
inductive Binary64 where
  | nan
  | infinite (negative : Bool)
  | finite (negative : Bool) (mantissa : Nat) (exponent : Int)
deriving DecidableEq, Repr

namespace Binary64

/-- The smallest mantissa of full length, `2 ^ 52`. -/
def fullMantissa : Nat := 4503599627370496

/-- Splits a bit pattern into one sign bit, eleven exponent bits and 52 fraction bits. -/
def ofBits (bits : UInt64) : Binary64 :=
  let n : Nat := bits.toNat
  let negative := decide (2048 * fullMantissa ≤ n)
  let field : Nat := n / fullMantissa % 2048
  let fraction : Nat := n % fullMantissa
  if field = 2047 then (if fraction = 0 then .infinite negative else .nan)
  else if field = 0 then .finite negative fraction (-1074)
  else .finite negative (fullMantissa + fraction) ((field : Int) - 1075)

/-- The exact value of a floating point number. -/
def ofFloat (x : Float) : Binary64 := ofBits x.toBits

/-- The mantissa of a bit pattern has at most 53 bits. -/
theorem mantissa_lt {bits : UInt64} {negative : Bool} {mantissa : Nat} {exponent : Int}
    (h : ofBits bits = .finite negative mantissa exponent) : mantissa < 2 * fullMantissa := by
  simp only [ofBits] at h
  have hlt : bits.toNat % fullMantissa < fullMantissa := Nat.mod_lt _ (by decide)
  split at h
  · split at h <;> cases h
  · split at h <;> injection h with _ hm _ <;> omega

example : ofBits 0x3FF0000000000000 = .finite false fullMantissa (-52) := by decide
example : ofBits 0x8000000000000000 = .finite true 0 (-1074) := by decide
example : ofBits 0x7FF0000000000000 = .infinite false := by decide

end Binary64

/-- Multiplies by a power of two as a fraction: `(numerator, denominator)`, the denominator
positive. -/
def scaleByTwo (n : Nat) (exponent : Int) : Nat × Nat :=
  match exponent with
  | .ofNat e => (n * powTwo e, 1)
  | .negSucc e => (n, powTwo (e + 1))

theorem scaleByTwo_pos (n : Nat) (exponent : Int) : 0 < (scaleByTwo n exponent).2 := by
  unfold scaleByTwo
  split
  · exact Nat.one_pos
  · exact powTwo_pos _

end CompressorBench.Decimal
