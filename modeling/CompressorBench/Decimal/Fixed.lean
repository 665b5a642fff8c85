import CompressorBench.Decimal.Binary64
import CompressorBench.Decimal.Rounding

/-!
# A fixed number of decimal places

A number is written with a given number of digits after the point. The exact binary value is
rounded, a half to the even neighbour. There is never an exponent, and a negative number that
rounds to zero keeps its sign.
-/

namespace CompressorBench.Decimal

/-- The decimal digits of a natural number. -/
def natChars (n : Nat) : List Char := Nat.toDigits 10 n

theorem isDigit_of_mem_natChars {n : Nat} {c : Char} (h : c ∈ natChars n) : c.isDigit = true :=
  Nat.isDigit_of_mem_toDigits (by decide) (by decide) h

theorem natChars_ne_nil (n : Nat) : natChars n ≠ [] := Nat.toDigits_ne_nil

/-- A number is told by its digits. -/
theorem natChars_inj {m n : Nat} : natChars m = natChars n ↔ m = n := by
  constructor
  · intro h
    have hread := congrArg (fun digits => Nat.ofDigitChars 10 digits 0) h
    simpa [natChars] using hread
  · exact congrArg natChars

/-- The decimal digits of a natural number, with zeros in front up to the given width. -/
def paddedNatChars (width n : Nat) : List Char :=
  List.replicate (width - (natChars n).length) '0' ++ natChars n

/-- How many units of `10 ^ -places` the number `mantissa * 2 ^ exponent` has, to the nearest. -/
def scaledToPlaces (places mantissa : Nat) (exponent : Int) : Nat :=
  let fraction := scaleByTwo mantissa exponent
  roundDiv (fraction.1 * powTen places) fraction.2

/-- A whole number of units of `10 ^ -places` with the point put in. -/
def unitsChars (places units : Nat) : List Char :=
  natChars (units / powTen places) ++
    (if places = 0 then [] else '.' :: paddedNatChars places (units % powTen places))

/-- The text of a number with a fixed number of places. -/
def fixed (places : Nat) (x : Float) : String :=
  match Binary64.ofFloat x with
  | .nan => "NaN"
  | .infinite false => "inf"
  | .infinite true => "-inf"
  | .finite negative mantissa exponent =>
    (if negative then "-" else "") ++
      String.ofList (unitsChars places (scaledToPlaces places mantissa exponent))

/-- A half goes to the even neighbour: 0.0625 is one half of 0.125. -/
example : scaledToPlaces 3 1 (-4) = 62 := by decide

end CompressorBench.Decimal
