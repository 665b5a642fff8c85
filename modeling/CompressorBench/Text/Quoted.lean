/-!
# Quoted strings

A string is written between quotation marks. Quotation marks, backslashes and the characters below
U+0020 are escaped, five of them by a letter and the others by four hexadecimal digits; nothing
else is.

Main statement: what is written is read back, whatever text follows it (`readQuoted?_escape`).
-/

namespace CompressorBench.Text

/-! ## Hexadecimal digits -/

/-- The lower case hexadecimal digit of a value below 16. -/
def hexDigit (n : Nat) : Char :=
  if n < 10 then Char.ofNat (0x30 + n) else Char.ofNat (0x61 + n - 10)

/-- The value of a hexadecimal digit, of either case. -/
def hexValue? (c : Char) : Option Nat :=
  let n := c.toNat
  if 0x30 ≤ n && n ≤ 0x39 then some (n - 0x30)
  else if 0x61 ≤ n && n ≤ 0x66 then some (n - 0x61 + 10)
  else if 0x41 ≤ n && n ≤ 0x46 then some (n - 0x41 + 10)
  else none

theorem hexValue?_hexDigit {n : Nat} (h : n < 16) : hexValue? (hexDigit n) = some n := by
  have hall : ∀ k ∈ List.range 16, hexValue? (hexDigit k) = some k := by decide
  exact hall n (List.mem_range.mpr h)

/-! ## Escaping -/

/-- A character as it stands inside quotation marks. -/
def escapeChar (c : Char) : List Char :=
  if c = '"' then ['\\', '"']
  else if c = '\\' then ['\\', '\\']
  else if c = '\x08' then ['\\', 'b']
  else if c = '\x0c' then ['\\', 'f']
  else if c = '\n' then ['\\', 'n']
  else if c = '\r' then ['\\', 'r']
  else if c = '\t' then ['\\', 't']
  else if c.toNat < 0x20 then
    ['\\', 'u', '0', '0', hexDigit (c.toNat / 16), hexDigit (c.toNat % 16)]
  else [c]

/-- A text as it stands inside quotation marks. -/
def escape (cs : List Char) : List Char := cs.flatMap escapeChar

/-- A text between quotation marks. -/
def quoted (text : String) : List Char :=
  '"' :: (escape text.toList ++ ['"'])

/-! ## Reading back -/

/-- The value of four hexadecimal digits. -/
def unit16? (a b c d : Char) : Option Nat :=
  match hexValue? a, hexValue? b, hexValue? c, hexValue? d with
  | some a, some b, some c, some d => some (((a * 16 + b) * 16 + c) * 16 + d)
  | _, _, _, _ => none

/-- The character that a letter after a backslash stands for. -/
def escapedLetter? (c : Char) : Option Char :=
  if c = '"' then some '"'
  else if c = '\\' then some '\\'
  else if c = '/' then some '/'
  else if c = 'b' then some '\x08'
  else if c = 'f' then some '\x0c'
  else if c = 'n' then some '\n'
  else if c = 'r' then some '\r'
  else if c = 't' then some '\t'
  else none

/-- Whether a 16 bit unit is the first half of a pair that stands for one character. -/
def isHighUnit (n : Nat) : Bool := decide (0xD800 ≤ n) && decide (n < 0xDC00)

/-- Whether a 16 bit unit is the second half of such a pair. -/
def isLowUnit (n : Nat) : Bool := decide (0xDC00 ≤ n) && decide (n < 0xE000)

/-- One character of a quoted text and how many characters it takes there. No character is read at
the closing quotation mark, at a control character and at a broken escape. -/
def readChar? : List Char → Option (Char × Nat)
  | [] => none
  | '\\' :: 'u' :: a :: b :: c :: d :: rest =>
    match unit16? a b c d with
    | none => none
    | some high =>
      if isHighUnit high then
        match rest with
        | '\\' :: 'u' :: e :: f :: g :: h :: _ =>
          match unit16? e f g h with
          | some low =>
            if isLowUnit low then
              some (Char.ofNat (0x10000 + (high - 0xD800) * 0x400 + (low - 0xDC00)), 12)
            else none
          | none => none
        | _ => none
      else if isLowUnit high then none
      else some (Char.ofNat high, 6)
  | '\\' :: c :: _ =>
    match escapedLetter? c with
    | some plain => some (plain, 2)
    | none => none
  | c :: _ => if c = '"' ∨ c = '\\' ∨ c.toNat < 0x20 then none else some (c, 1)

theorem readChar?_pos {cs : List Char} {c : Char} {n : Nat} (h : readChar? cs = some (c, n)) :
    0 < n ∧ n ≤ cs.length := by
  revert h
  fun_cases readChar? cs <;> grind [readChar?, List.length_cons]

/-- Reads a quoted text up to its closing quotation mark: the text, collected behind `acc`, and the
rest after the mark. -/
def readQuoted? (acc : List Char) (cs : List Char) : Option (List Char × List Char) :=
  match cs with
  | '"' :: rest => some (acc.reverse, rest)
  | cs =>
    match _h : readChar? cs with
    | none => none
    | some (c, n) => readQuoted? (c :: acc) (cs.drop n)
termination_by cs.length
decreasing_by
  have := readChar?_pos _h
  simp only [List.length_drop]
  omega

theorem unit16?_low {n : Nat} (h : n < 0x20) :
    unit16? '0' '0' (hexDigit (n / 16)) (hexDigit (n % 16)) = some n := by
  have hzero : hexValue? '0' = some 0 := by decide
  rw [unit16?, hzero, hexValue?_hexDigit (by omega), hexValue?_hexDigit (by omega)]
  simp only [Option.some.injEq]
  omega

/-- An escaped character is read back as that character. -/
theorem readChar?_escapeChar (c : Char) (rest : List Char) :
    readChar? (escapeChar c ++ rest) = some (c, (escapeChar c).length) := by
  by_cases hq : c = '"'
  · subst hq; rfl
  by_cases hb : c = '\\'
  · subst hb; rfl
  by_cases h8 : c = '\x08'
  · subst h8; rfl
  by_cases hf : c = '\x0c'
  · subst hf; rfl
  by_cases hn : c = '\n'
  · subst hn; rfl
  by_cases hr : c = '\r'
  · subst hr; rfl
  by_cases ht : c = '\t'
  · subst ht; rfl
  by_cases hlow : c.toNat < 0x20
  · have hhigh : isHighUnit c.toNat = false := by simp [isHighUnit]; omega
    have hsecond : isLowUnit c.toNat = false := by simp [isLowUnit]; omega
    simp only [escapeChar, hq, hb, h8, hf, hn, hr, ht, hlow, if_true, if_false, List.cons_append,
      List.nil_append, readChar?, unit16?_low hlow, hhigh, hsecond, List.length_cons,
      List.length_nil, Char.ofNat_toNat, Bool.false_eq_true]
  · simp [escapeChar, hq, hb, h8, hf, hn, hr, ht, hlow, readChar?]

/-- An escaped character does not start with a quotation mark. -/
theorem escapeChar_ne_quote (c : Char) (rest tail : List Char) :
    escapeChar c ++ rest ≠ '"' :: tail := by
  intro h
  have hread := readChar?_escapeChar c rest
  rw [h] at hread
  simp [readChar?] at hread

/-- **A quoted text is read back, whatever follows it.** -/
theorem readQuoted?_escape (cs acc rest : List Char) :
    readQuoted? acc (escape cs ++ '"' :: rest) = some (acc.reverse ++ cs, rest) := by
  induction cs generalizing acc with
  | nil => simp [escape, readQuoted?]
  | cons c cs ih =>
    have hsplit : escape (c :: cs) ++ '"' :: rest = escapeChar c ++ (escape cs ++ '"' :: rest) := by
      simp [escape]
    rw [hsplit, readQuoted?]
    · split
      · next h => rw [readChar?_escapeChar] at h; cases h
      · next h =>
        rw [readChar?_escapeChar] at h
        obtain ⟨rfl, rfl⟩ : c = _ ∧ _ = _ := by simpa using h
        rw [List.drop_left, ih]
        simp
    · intro tail h
      exact escapeChar_ne_quote c _ _ h

end CompressorBench.Text
