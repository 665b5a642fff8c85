/-!
# Powers of two and of ten

The scales of binary and of decimal numbers.
-/

namespace CompressorBench.Decimal

/-- A power of two. -/
def powTwo (n : Nat) : Nat := Nat.pow 2 n

/-- A power of ten. -/
def powTen (n : Nat) : Nat := Nat.pow 10 n

theorem powTwo_pos (n : Nat) : 0 < powTwo n := Nat.pow_pos (by decide)

theorem powTen_pos (n : Nat) : 0 < powTen n := Nat.pow_pos (by decide)

end CompressorBench.Decimal
