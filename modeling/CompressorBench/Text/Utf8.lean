/-!
# Decoding UTF-8 with replacement

Bytes are decoded to characters from the left. Where they are not UTF-8, the longest start of a
character that stands there, or else a single byte, is replaced by U+FFFD.

A lead byte says how many continuation bytes follow and in which range the first of them lies; this
range leaves out overlong forms, surrogates and values above U+10FFFF.
-/

namespace CompressorBench.Text

/-- What a lead byte of more than one byte announces. -/
structure Lead where
  /-- The bits of the value that the lead byte holds. -/
  bits : Nat
  /-- How many continuation bytes follow. -/
  count : Nat
  /-- The range of the first of them. -/
  low : Nat
  high : Nat
deriving DecidableEq, Repr

/-- The character that stands for what could not be decoded. -/
def replacement : Char := '\uFFFD'

/-- What a byte announces as a lead byte; none if it cannot be one. -/
def lead? (byte : UInt8) : Option Lead :=
  let n := byte.toNat
  if n < 0xC2 then none
  else if n < 0xE0 then some ⟨n - 0xC0, 1, 0x80, 0xBF⟩
  else if n = 0xE0 then some ⟨0, 2, 0xA0, 0xBF⟩
  else if n = 0xED then some ⟨0xD, 2, 0x80, 0x9F⟩
  else if n < 0xF0 then some ⟨n - 0xE0, 2, 0x80, 0xBF⟩
  else if n = 0xF0 then some ⟨0, 3, 0x90, 0xBF⟩
  else if n < 0xF4 then some ⟨n - 0xF0, 3, 0x80, 0xBF⟩
  else if n = 0xF4 then some ⟨4, 3, 0x80, 0x8F⟩
  else none

/-- The continuation bytes at the front, at most `count`. The first lies between `low` and `high`,
and the others are any continuation bytes. -/
def continuations (low high : Nat) : (count : Nat) → List UInt8 → List UInt8
  | 0, _ => []
  | _ + 1, [] => []
  | count + 1, byte :: rest =>
    if low ≤ byte.toNat && byte.toNat ≤ high then byte :: continuations 0x80 0xBF count rest
    else []

/-- The value of a lead byte with its continuation bytes. -/
def joinBits (bits : Nat) (bytes : List UInt8) : Nat :=
  bytes.foldl (fun value byte => value * 64 + (byte.toNat - 0x80)) bits

/-- The first character of a text of bytes, and how many bytes after the first it takes. -/
def decodeFirst (byte : UInt8) (rest : List UInt8) : Char × Nat :=
  if byte.toNat < 0x80 then (Char.ofNat byte.toNat, 0)
  else
    match lead? byte with
    | none => (replacement, 0)
    | some lead =>
      let bytes := continuations lead.low lead.high lead.count rest
      if bytes.length = lead.count then (Char.ofNat (joinBits lead.bits bytes), lead.count)
      else (replacement, bytes.length)

/-- Decodes bytes behind the characters `decoded`, last one first. -/
def decodeFrom (decoded : List Char) : List UInt8 → List Char
  | [] => decoded.reverse
  | byte :: rest =>
    decodeFrom ((decodeFirst byte rest).1 :: decoded) (rest.drop (decodeFirst byte rest).2)
termination_by bytes => bytes.length
decreasing_by
  simp only [List.length_drop, List.length_cons]
  omega

/-- The characters of a text of bytes. -/
def decodeChars (bytes : List UInt8) : List Char := decodeFrom [] bytes

/-- The text that bytes stand for, with replacements where they are not UTF-8. -/
def decodeWithReplacement (bytes : ByteArray) : String :=
  String.ofList (decodeChars bytes.toList)

example : decodeChars [0xE6, 0x97, 0xA5, 0x41] = ['日', 'A'] := by decide +kernel
example : decodeChars [0xE6, 0x97, 0x41] = [replacement, 'A'] := by decide +kernel
example : decodeChars [0xED, 0xA0, 0x80] = [replacement, replacement, replacement] := by
  decide +kernel

end CompressorBench.Text
