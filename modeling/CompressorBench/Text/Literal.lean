import CompressorBench.Text.Printable
import CompressorBench.Text.Quoted

/-!
# Texts in messages

A text that is quoted in a message stands between quotation marks. Quotation marks, backslashes and
the usual control characters have escapes of one letter; everything else that has no look of its own
is written by its code in braces.
-/

namespace CompressorBench.Text

/-- The lower case hexadecimal digits of a number. -/
def hexChars (n : Nat) : List Char := Nat.toDigits 16 n

/-- A character as it stands in a quoted text. -/
def literalChar (c : Char) : List Char :=
  if c = '\x00' then ['\\', '0']
  else if c = '\t' then ['\\', 't']
  else if c = '\r' then ['\\', 'r']
  else if c = '\n' then ['\\', 'n']
  else if c = '\\' then ['\\', '\\']
  else if c = '"' then ['\\', '"']
  else if isPrintable c then [c]
  else ['\\', 'u', '\x7b'] ++ hexChars c.toNat ++ ['\x7d']

/-- A quoted text. -/
def literal (text : String) : String :=
  String.ofList ('"' :: (text.toList.flatMap literalChar ++ ['"']))

end CompressorBench.Text
