/-!
# Base64 texts

The standard alphabet, with padding required. A text is read for its decoded size only: how many
bytes it stands for, or the first thing wrong with it. The bits of the last symbol that belong to no
byte may have any value.

The text is cut before its last group of one to four bytes. All bytes before the cut have to be
symbols; the last group is one to four symbols and paddings.
-/

namespace CompressorBench.Base64

/-! ## The alphabet -/

/-- The value of a symbol: `A`–`Z`, `a`–`z`, `0`–`9`, `+` and `/` stand for 0 to 63. -/
def value? (byte : UInt8) : Option Nat :=
  let n := byte.toNat
  if 0x41 ≤ n && n ≤ 0x5A then some (n - 0x41)
  else if 0x61 ≤ n && n ≤ 0x7A then some (n - 0x61 + 26)
  else if 0x30 ≤ n && n ≤ 0x39 then some (n - 0x30 + 52)
  else if n == 0x2B then some 62
  else if n == 0x2F then some 63
  else none

/-- A byte of the alphabet. -/
def isSymbol (byte : UInt8) : Bool :=
  (value? byte).isSome

/-- The padding sign `=`. -/
def pad : UInt8 := 0x3D

theorem isSymbol_pad : isSymbol pad = false := by decide

/-! ## What can be wrong -/

/-- What is wrong with a text that is not base64. -/
inductive Error where
  /-- A byte that may not stand at its offset. -/
  | invalidSymbol (offset : Nat) (byte : UInt8)
  /-- Too few symbols in the last group; all symbols are counted, and paddings are not. -/
  | invalidLength (symbols : Nat)
  /-- The last group is not filled up to four. -/
  | invalidPadding
deriving DecidableEq, Repr

/-- The text of an error. -/
def Error.message : Error → String
  | .invalidSymbol offset byte =>
    "Invalid symbol " ++ toString byte.toNat ++ ", offset " ++ toString offset ++ "."
  | .invalidLength symbols => "Invalid input length: " ++ toString symbols
  | .invalidPadding => "Invalid padding"

/-! ## Reading -/

/-- The first byte that is no symbol, with its offset; the first byte has offset `start`. -/
def firstForeign? (start : Nat) : List UInt8 → Option (Nat × UInt8)
  | [] => none
  | byte :: rest => if isSymbol byte then firstForeign? (start + 1) rest else some (start, byte)

/-- The symbols and the paddings that the last group of a text holds. -/
structure Group where
  symbols : Nat
  paddings : Nat
deriving DecidableEq, Repr

/-- Reads the last group, which starts at the offset `start`. Paddings follow at least two symbols,
and no symbol follows a padding. -/
def readGroup (start : Nat) (group : Group) : List UInt8 → Except Error Group
  | [] => .ok group
  | byte :: rest =>
    if byte = pad then
      if group.symbols + group.paddings < 2 then
        .error (.invalidSymbol (start + group.symbols + group.paddings) pad)
      else readGroup start { group with paddings := group.paddings + 1 } rest
    else if 0 < group.paddings then .error (.invalidSymbol (start + group.symbols) pad)
    else if isSymbol byte then readGroup start { group with symbols := group.symbols + 1 } rest
    else .error (.invalidSymbol (start + group.symbols) byte)

/-- Where the last group starts: at the last multiple of four before the end. -/
def lastGroupStart (length : Nat) : Nat := (length - 1) / 4 * 4

/-- A single byte after the last whole group that is neither a symbol nor a padding. It is reported
before anything else. -/
def strayEnd? (bytes : List UInt8) : Option UInt8 :=
  if bytes.length % 4 = 1 then
    match bytes.getLast? with
    | some byte => if isSymbol byte || byte == pad then none else some byte
    | none => none
  else none

/-- The number of bytes that a text of the given bytes decodes to. -/
def decodedSizeBytes (bytes : List UInt8) : Except Error Nat :=
  let start := lastGroupStart bytes.length
  match strayEnd? bytes with
  | some byte => .error (.invalidSymbol (bytes.length - 1) byte)
  | none =>
    match firstForeign? 0 (bytes.take start) with
    | some (offset, byte) => .error (.invalidSymbol offset byte)
    | none => do
      let group ← readGroup start ⟨0, 0⟩ (bytes.drop start)
      if bytes ≠ [] ∧ group.symbols < 2 then .error (.invalidLength (start + group.symbols))
      else if (group.symbols + group.paddings) % 4 ≠ 0 then .error .invalidPadding
      else .ok (start / 4 * 3 + group.symbols * 6 / 8)

/-- The number of bytes that a text decodes to, without decoding it. -/
def decodedSize (text : String) : Except Error Nat :=
  decodedSizeBytes text.toUTF8.toList

end CompressorBench.Base64
