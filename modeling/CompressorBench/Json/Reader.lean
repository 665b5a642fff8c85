import CompressorBench.Decimal.Literal
import CompressorBench.Json.Basic
import CompressorBench.Text.Quoted

/-!
# Reading JSON

A reader for JSON texts. Every step hands on the rest of the text with the proof that it is shorter,
so the reader needs no other bound.

A number without a point and an exponent is a whole number; every other number is a floating point
number. A reader need not keep all whole numbers as such: the usual one keeps those that fit 64
bits, with or without a sign, and takes the others as floating point numbers.
-/

namespace CompressorBench.Json

/-! ## Blanks and numbers -/

/-- The blanks that JSON allows between its parts. -/
def isSpace (c : Char) : Bool := c == ' ' || c == '\t' || c == '\n' || c == '\r'

/-- The text without the blanks at its front. -/
def skipSpace (cs : List Char) : List Char := cs.dropWhile isSpace

theorem length_skipSpace_le (cs : List Char) : (skipSpace cs).length ≤ cs.length :=
  (List.dropWhile_suffix isSpace).length_le

theorem length_lt_of_skipSpace {cs rest : List Char} {c : Char} (h : skipSpace cs = c :: rest) :
    rest.length < cs.length := by
  have := length_skipSpace_le cs
  rw [h, List.length_cons] at this
  omega

/-- The characters that numbers are made of. -/
def isNumberChar (c : Char) : Bool :=
  Decimal.Literal.isDigit c || c == '-' || c == '+' || c == '.' || c == 'e' || c == 'E'

/-- Whether a text is a whole number: digits, with no zero in front of others. -/
def isWhole : List Char → Bool
  | [] => false
  | ['0'] => true
  | c :: rest => c != '0' && (c :: rest).all Decimal.Literal.isDigit

/-- Whether a text is the fraction of a number: nothing, or a point and at least one digit. -/
def isFraction : List Char → Bool
  | [] => true
  | c :: digits => c == '.' && !digits.isEmpty && digits.all Decimal.Literal.isDigit

/-- Whole numbers are kept as such from -2 ^ 63 up to 2 ^ 64 - 1. -/
def isExact (n : Int) : Bool :=
  decide (-9223372036854775808 ≤ n) && decide (n ≤ 18446744073709551615)

/-- The value of a number without its sign. Whole numbers are kept as such if `keeps` says so. -/
def readUnsigned? (keeps : Int → Bool) (negative : Bool) (cs : List Char) : Option Json :=
  let whole := cs.takeWhile Decimal.Literal.isDigit
  let rest := cs.dropWhile Decimal.Literal.isDigit
  let fraction := rest.takeWhile fun c => c == '.' || Decimal.Literal.isDigit c
  if isWhole whole && isFraction fraction then
    if rest.isEmpty then
      let magnitude : Int := Decimal.Literal.digitsValue whole
      let n := if negative then -magnitude else magnitude
      if keeps n && !(negative && n == 0) then some (.int n)
      else some (.float (Decimal.Literal.number negative magnitude.toNat 0).toFloat)
    else (Decimal.Literal.readUnsigned? negative cs).map fun literal => .float literal.toFloat
  else none

/-- The value of a number. -/
def readNumber? (keeps : Int → Bool) : List Char → Option Json
  | '-' :: rest => readUnsigned? keeps true rest
  | cs => readUnsigned? keeps false cs

/-! ## Values -/

/-- What is left of a text after something was read off its front. -/
abbrev Rest (cs : List Char) := { rest : List Char // rest.length < cs.length }

theorem length_lt_of_readQuoted? {acc cs text rest : List Char}
    (h : Text.readQuoted? acc cs = some (text, rest)) : rest.length < cs.length := by
  fun_induction Text.readQuoted? acc cs with
  | case1 acc tail =>
    obtain ⟨-, rfl⟩ : acc.reverse = text ∧ tail = rest := by simpa using h
    simp
  | case2 => cases h
  | case3 acc cs _ c n hread ih =>
    have hpos := Text.readChar?_pos hread
    have := ih h
    simp only [List.length_drop] at this
    omega

/-- Takes a given word off the front of a text. -/
def dropWord? : (word cs : List Char) → Option (List Char)
  | [], cs => some cs
  | _ :: _, [] => none
  | w :: word, c :: cs => if w = c then dropWord? word cs else none

theorem length_dropWord? {word cs rest : List Char} (h : dropWord? word cs = some rest) :
    rest.length + word.length = cs.length := by
  fun_induction dropWord? word cs with
  | case1 => cases h; rfl
  | case2 => cases h
  | case3 w word cs ih => simp only [List.length_cons]; have := ih h; omega
  | case4 => cases h

/-- Reads one of the words for a value. -/
def readName? (name : List Char) (value : Json) (cs : List Char) (hn : name ≠ []) :
    Option (Json × Rest cs) :=
  match h : dropWord? name cs with
  | none => none
  | some rest =>
    some (value, ⟨rest, by
      have := length_dropWord? h
      have : 0 < name.length := List.length_pos_iff.mpr hn
      omega⟩)

/-- Reads the text after an opening quotation mark. -/
def readText? (cs : List Char) : Option (String × Rest cs) :=
  match h : Text.readQuoted? [] cs with
  | none => none
  | some (text, rest) => some (String.ofList text, ⟨rest, length_lt_of_readQuoted? h⟩)

theorem length_dropWhile_lt {p : Char → Bool} {cs taken : List Char} {c : Char}
    (h : cs.takeWhile p = c :: taken) : (cs.dropWhile p).length < cs.length := by
  have hlength : (cs.takeWhile p).length + (cs.dropWhile p).length = cs.length := by
    rw [← List.length_append, List.takeWhile_append_dropWhile]
  rw [h, List.length_cons] at hlength
  omega

/-- Reads a number off the front of a text. -/
def readNumberPart? (keeps : Int → Bool) (cs : List Char) : Option (Json × Rest cs) :=
  match h : cs.takeWhile isNumberChar with
  | [] => none
  | c :: digits =>
    (readNumber? keeps (c :: digits)).map fun value =>
      (value, ⟨cs.dropWhile isNumberChar, length_dropWhile_lt h⟩)

mutual

/-- Reads a value off the front of a text. -/
def readValue? (keeps : Int → Bool) (cs : List Char) : Option (Json × Rest cs) :=
  match h : skipSpace cs with
  | [] => none
  | c :: rest =>
    have hlt : rest.length < cs.length := length_lt_of_skipSpace h
    have hle : (c :: rest).length ≤ cs.length := by simp only [List.length_cons]; omega
    if c = '"' then
      match readText? rest with
      | none => none
      | some (text, ⟨tail, ht⟩) => some (.str text, ⟨tail, by omega⟩)
    else if c = '[' then
      match h' : skipSpace rest with
      | ']' :: tail => some (.arr [], ⟨tail, by have := length_lt_of_skipSpace h'; omega⟩)
      | _ =>
        match readItems? keeps rest with
        | none => none
        | some (items, ⟨tail, ht⟩) => some (.arr items, ⟨tail, by omega⟩)
    else if c = '\x7b' then
      match h' : skipSpace rest with
      | '\x7d' :: tail => some (.obj [], ⟨tail, by have := length_lt_of_skipSpace h'; omega⟩)
      | _ =>
        match readMembers? keeps rest with
        | none => none
        | some (members, ⟨tail, ht⟩) => some (.obj members, ⟨tail, by omega⟩)
    else
      let scalar :=
        if c = 'n' then readName? "null".toList .null (c :: rest) (by decide)
        else if c = 't' then readName? "true".toList (.bool true) (c :: rest) (by decide)
        else if c = 'f' then readName? "false".toList (.bool false) (c :: rest) (by decide)
        else readNumberPart? keeps (c :: rest)
      match scalar with
      | none => none
      | some (value, ⟨tail, ht⟩) => some (value, ⟨tail, by omega⟩)
termination_by (cs.length, 0)

/-- Reads the items of an array up to the closing bracket. -/
def readItems? (keeps : Int → Bool) (cs : List Char) : Option (List Json × Rest cs) :=
  match readValue? keeps cs with
  | none => none
  | some (item, ⟨rest, hr⟩) =>
    match h : skipSpace rest with
    | ']' :: tail => some ([item], ⟨tail, by have := length_lt_of_skipSpace h; omega⟩)
    | ',' :: tail =>
      have htail : tail.length < cs.length := by have := length_lt_of_skipSpace h; omega
      match readItems? keeps tail with
      | none => none
      | some (items, ⟨last, hl⟩) => some (item :: items, ⟨last, by omega⟩)
    | _ => none
termination_by (cs.length, 1)

/-- Reads the members of an object up to the closing brace. -/
def readMembers? (keeps : Int → Bool) (cs : List Char) : Option (List (String × Json) × Rest cs) :=
  match h0 : skipSpace cs with
  | '"' :: rest0 =>
    have h0' : rest0.length < cs.length := length_lt_of_skipSpace h0
    match readText? rest0 with
    | none => none
    | some (name, ⟨rest1, h1⟩) =>
      match h2 : skipSpace rest1 with
      | ':' :: rest2 =>
        have h2' : rest2.length < cs.length := by have := length_lt_of_skipSpace h2; omega
        match readValue? keeps rest2 with
        | none => none
        | some (value, ⟨rest3, h3⟩) =>
          match h4 : skipSpace rest3 with
          | '\x7d' :: tail =>
            some ([(name, value)], ⟨tail, by have := length_lt_of_skipSpace h4; omega⟩)
          | ',' :: tail =>
            have htail : tail.length < cs.length := by have := length_lt_of_skipSpace h4; omega
            match readMembers? keeps tail with
            | none => none
            | some (members, ⟨last, hl⟩) => some ((name, value) :: members, ⟨last, by omega⟩)
          | _ => none
      | _ => none
  | _ => none
termination_by (cs.length, 1)

end

/-- Reads a whole text as one value, with a choice of the whole numbers that are kept as such. -/
def readWith? (keeps : Int → Bool) (text : String) : Option Json :=
  match readValue? keeps text.toList with
  | none => none
  | some (value, ⟨rest, _⟩) => if (skipSpace rest).isEmpty then some value else none

/-- Reads a whole text as one value. -/
def read? (text : String) : Option Json := readWith? isExact text

end CompressorBench.Json
