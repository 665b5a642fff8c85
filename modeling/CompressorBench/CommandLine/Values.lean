import CompressorBench.Decimal.Literal
import CompressorBench.Duration

/-!
# Values of options

The values that options take besides texts: a number of seconds and a count. A value that cannot be
read is answered with the reason.
-/

namespace CompressorBench.CommandLine

/-! ## Seconds -/

/-- Why a text is no time limit. -/
inductive SecondsError where
  | empty
  | notANumber
  | notPositive (text : String)
  | tooLong
deriving DecidableEq, Repr

/-- The text of the reason. -/
def SecondsError.message : SecondsError → String
  | .empty => "cannot parse float from empty string"
  | .notANumber => "invalid float literal"
  | .notPositive text => "must be a positive number of seconds: " ++ text
  | .tooLong => "cannot convert float seconds to Duration: value is either too big or NaN"

/-- The duration of a number of seconds in binary64; it has to be positive and finite. -/
def secondsOf (text : String) (seconds : Float) : Except SecondsError Duration :=
  match Decimal.Binary64.ofFloat seconds with
  | .finite false mantissa exponent =>
    if mantissa = 0 then .error (.notPositive text)
    else
      match Duration.ofBinarySeconds? mantissa exponent with
      | none => .error .tooLong
      | some duration => .ok duration
  | _ => .error (.notPositive text)

/-- Reads a time limit in seconds. -/
def readSeconds (text : String) : Except SecondsError Duration :=
  if text = "" then .error .empty
  else
    match Decimal.Literal.read? text with
    | none => .error .notANumber
    | some literal => secondsOf text literal.toFloat

/-! ## Counts -/

/-- Why a text is no count. -/
inductive CountError where
  | empty
  | invalidDigit
  | tooLarge
deriving DecidableEq, Repr

/-- The text of the reason. -/
def CountError.message : CountError → String
  | .empty => "cannot parse integer from empty string"
  | .invalidDigit => "invalid digit found in string"
  | .tooLarge => "number too large to fit in target type"

/-- The first count that is too large, `2 ^ 64`. -/
def countLimit : Nat := 18446744073709551616

/-- Reads digits from the left, behind a value that was read before. The first character that is no
digit or makes the value too large decides the error. -/
def readDigits (value : Nat) : List Char → Except CountError Nat
  | [] => .ok value
  | c :: rest =>
    if Decimal.Literal.isDigit c then
      let next := value * 10 + (c.toNat - '0'.toNat)
      if next < countLimit then readDigits next rest else .error .tooLarge
    else .error .invalidDigit

/-- Reads a count. It may have a plus sign in front of its digits. -/
def readCount (text : String) : Except CountError Nat :=
  match text.toList with
  | [] => .error .empty
  | ['+'] => .error .invalidDigit
  | '+' :: digits => readDigits 0 digits
  | digits => readDigits 0 digits

end CompressorBench.CommandLine
