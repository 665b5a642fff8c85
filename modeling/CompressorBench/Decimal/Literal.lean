/-!
# Decimal literals

The text of a number: a sign, digits with or without a point, an exponent; or one of the words for
infinity and for what is not a number. A literal is first read as an exact decimal, then rounded to
binary64.
-/

namespace CompressorBench.Decimal

/-- What a literal says. A number is `coefficient * 10 ^ exponent`. -/
inductive Literal where
  | number (negative : Bool) (coefficient : Nat) (exponent : Int)
  | infinity (negative : Bool)
  | nan
deriving DecidableEq, Repr

namespace Literal

/-! ## Reading -/

/-- Whether a character is one of the ten digits. -/
def isDigit (c : Char) : Bool := decide ('0' ≤ c) && decide (c ≤ '9')

/-- The value of a row of digits. -/
def digitsValue (digits : List Char) : Nat :=
  digits.foldl (fun n c => n * 10 + (c.toNat - '0'.toNat)) 0

/-- Takes a sign off the front: whether it is a minus, and the rest. -/
def splitSign : List Char → Bool × List Char
  | '-' :: rest => (true, rest)
  | '+' :: rest => (false, rest)
  | cs => (false, cs)

/-- Reads the exponent that follows a mantissa: nothing, or `e`, a sign and digits. -/
def readExponent? : List Char → Option Int
  | [] => some 0
  | c :: rest =>
    if c = 'e' ∨ c = 'E' then
      let (negative, digits) := splitSign rest
      if digits ≠ [] ∧ digits.all isDigit then
        some (if negative then -(digitsValue digits : Int) else digitsValue digits)
      else none
    else none

/-- Reads the digits after the point, if there is a point: the digits and the rest. -/
def splitFraction : List Char → List Char × List Char
  | '.' :: rest => (rest.takeWhile isDigit, rest.dropWhile isDigit)
  | cs => ([], cs)

/-- Reads a literal without its sign. At least one digit stands before or after the point. -/
def readUnsigned? (negative : Bool) (cs : List Char) : Option Literal :=
  let whole := cs.takeWhile isDigit
  let (fraction, rest) := splitFraction (cs.dropWhile isDigit)
  if whole = [] ∧ fraction = [] then
    let word := cs.map Char.toLower
    if word = "inf".toList ∨ word = "infinity".toList then some (.infinity negative)
    else if word = "nan".toList then some .nan
    else none
  else
    (readExponent? rest).map fun exponent =>
      .number negative (digitsValue (whole ++ fraction)) (exponent - fraction.length)

/-- Reads a whole text as a literal. -/
def read? (text : String) : Option Literal :=
  let (negative, rest) := splitSign text.toList
  readUnsigned? negative rest

/-! ## Rounding to binary64 -/

/-- The decimal exponent from which on every number rounds to infinity. -/
def overflowExponent : Int := 400

/-- The decimal exponent below which every number rounds to zero. -/
def underflowExponent : Int := -400

/-- The binary64 number nearest to `coefficient * 10 ^ exponent`. -/
def magnitude (coefficient : Nat) (exponent : Int) : Float :=
  let leading := (Nat.toDigits 10 coefficient).length + exponent
  if coefficient = 0 then 0.0
  else if overflowExponent < leading then 1.0 / 0.0
  else if leading < underflowExponent then 0.0
  else Float.ofScientific coefficient (decide (exponent < 0)) exponent.natAbs

/-- The binary64 number nearest to a literal. -/
def toFloat : Literal → Float
  | .number false coefficient exponent => magnitude coefficient exponent
  | .number true coefficient exponent => -magnitude coefficient exponent
  | .infinity false => 1.0 / 0.0
  | .infinity true => -1.0 / 0.0
  | .nan => 0.0 / 0.0

end Literal

example : Literal.read? "-1.50e2" = some (.number true 150 0) := by decide +kernel
example : Literal.read? ".5" = some (.number false 5 (-1)) := by decide +kernel
example : Literal.read? "Infinity" = some (.infinity false) := by decide +kernel
example : Literal.read? "." = none := by decide +kernel
example : Literal.read? "1e" = none := by decide +kernel

end CompressorBench.Decimal
