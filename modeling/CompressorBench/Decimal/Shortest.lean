import CompressorBench.Decimal.Binary64
import CompressorBench.Decimal.Fixed

/-!
# The fewest digits that read back

A number is written with the fewest decimal digits that are nearer to it than to any other number
of its format; of several such texts the nearest is taken, and of two equally near ones the even.

The reals that round to `m * 2 ^ q` form an interval, which holds its ends when `m` is even. The
decimal grids are tried from coarse to fine; on each grid only the two neighbours of the value can
lie in the interval.
-/

namespace CompressorBench.Decimal

/-! ## The interval -/

/-- The interval of the reals that round to a number, on the common denominator `unit`. -/
structure Interval where
  low : Nat
  value : Nat
  high : Nat
  unit : Nat
  closed : Bool
deriving DecidableEq, Repr

/-- The interval around `mantissa * 2 ^ exponent`. Below the smallest mantissa of full length the
numbers lie twice as close. -/
def interval (mantissa : Nat) (exponent : Int) : Interval :=
  let below := if mantissa = Binary64.fullMantissa ∧ -1074 < exponent then 1 else 2
  let value := scaleByTwo (4 * mantissa) (exponent - 2)
  { low := (scaleByTwo (4 * mantissa - below) (exponent - 2)).1
    value := value.1
    high := (scaleByTwo (4 * mantissa + 2) (exponent - 2)).1
    unit := value.2
    closed := mantissa % 2 == 0 }

/-- Whether `coefficient * 10 ^ exponent` lies in the interval. -/
def Interval.holds (i : Interval) (coefficient : Nat) (exponent : Int) : Bool :=
  let up := powTen exponent.toNat
  let down := powTen (-exponent).toNat
  let n := coefficient * up * i.unit
  if i.closed then decide (i.low * down ≤ n) && decide (n ≤ i.high * down)
  else decide (i.low * down < n) && decide (n < i.high * down)

/-! ## The search -/

/-- A decimal number `coefficient * 10 ^ exponent`. -/
structure Scientific where
  coefficient : Nat
  exponent : Int
deriving DecidableEq, Repr

/-- The best point of the grid `10 ^ exponent` in the interval, if it has one. -/
def Interval.gridPoint? (i : Interval) (exponent : Int) : Option Scientific :=
  let up := powTen exponent.toNat * i.unit
  let n := i.value * powTen (-exponent).toNat
  let nearest := roundDiv n up
  let below := n / up
  let above := below + 1
  if i.holds nearest exponent then some ⟨nearest, exponent⟩
  else if i.holds below exponent then some ⟨below, exponent⟩
  else if i.holds above exponent then some ⟨above, exponent⟩
  else none

/-- The first grid with a hit, going from `exponent` to finer grids. -/
def Interval.firstHit? (i : Interval) : (grids : Nat) → (exponent : Int) → Option Scientific
  | 0, _ => none
  | grids + 1, exponent =>
    match i.gridPoint? exponent with
    | some point => some point
    | none => i.firstHit? grids (exponent - 1)

/-- The exponent of the leading decimal digit of a positive number. -/
def Interval.leading (i : Interval) : Int :=
  let shift := (natChars i.unit).length
  (natChars (i.value * powTen shift / i.unit)).length - 1 - shift

/-- The fewest digits that read back as `mantissa * 2 ^ exponent`. Seventeen digits always do, and
the search starts one grid above the leading digit. -/
def shortest (mantissa : Nat) (exponent : Int) : Scientific :=
  if mantissa = 0 then ⟨0, 0⟩
  else
    let i := interval mantissa exponent
    (i.firstHit? 19 (i.leading + 1)).getD ⟨mantissa, 0⟩

example : shortest 1 (-1074) = ⟨5, -324⟩ := by decide +kernel
example : shortest 0x1999999999999A (-56) = ⟨1, -1⟩ := by decide +kernel

/-! ## The text -/

/-- How a number with a given decimal point is written: positional if the exponent of its leading
digit lies in a range, otherwise with an exponent. -/
structure FloatForm where
  leastPositional : Int
  mostPositional : Int
  exponentMark : String
  positiveSign : String

/-- The digits of a number with the point put `point` places after their start. -/
def positionalChars (digits : List Char) (point : Int) : List Char :=
  if point ≤ 0 then '0' :: '.' :: (List.replicate (-point).toNat '0' ++ digits)
  else if digits.length ≤ point.toNat then
    digits ++ List.replicate (point.toNat - digits.length) '0' ++ ['.', '0']
  else digits.take point.toNat ++ '.' :: digits.drop point.toNat

/-- The digits with a point after the first, if there are more. -/
def mantissaChars : List Char → List Char
  | [] => []
  | [c] => [c]
  | c :: rest => c :: '.' :: rest

/-- The text of a decimal number in a form. -/
def FloatForm.chars (form : FloatForm) (x : Scientific) : List Char :=
  if x.coefficient = 0 then ['0', '.', '0']
  else
    let digits := natChars x.coefficient
    let leading := (digits.length : Int) - 1 + x.exponent
    if form.leastPositional ≤ leading ∧ leading ≤ form.mostPositional then
      positionalChars digits (leading + 1)
    else
      mantissaChars digits ++ form.exponentMark.toList ++
        (if leading < 0 then '-' :: natChars (-leading).toNat
        else form.positiveSign.toList ++ natChars leading.toNat)

/-- The text of a finite number with the fewest digits that read back; none for the others. -/
def FloatForm.chars? (form : FloatForm) (x : Float) : Option (List Char) :=
  match Binary64.ofFloat x with
  | .nan => none
  | .infinite _ => none
  | .finite negative mantissa exponent =>
    some ((if negative then ['-'] else []) ++ form.chars (shortest mantissa exponent))

end CompressorBench.Decimal
