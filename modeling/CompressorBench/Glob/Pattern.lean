/-!
# File name patterns

A pattern is a row of tokens: a character that stands for itself, `?` for any character, `*` for any
run of characters, `**` for whole path components, and a bracketed set of characters, which `!`
turns into its complement. There are no escapes.

The reader consumes the pattern from the left, and the first error wins. It ends because every token
takes at least one character.
-/

namespace CompressorBench.Glob

/-! ## Tokens -/

/-- A part of a bracketed set. -/
inductive Member where
  | single (c : Char)
  | range (first last : Char)
deriving DecidableEq, Repr

/-- A token of a pattern. -/
inductive Token where
  | char (c : Char)
  | anyChar
  | anyRun
  /-- Whole path components, with the separator that follows. -/
  | anyComponents
  | oneOf (set : List Member)
  | noneOf (set : List Member)
deriving DecidableEq, Repr

/-! ## Errors -/

/-- Why a pattern cannot be read. -/
inductive Fault where
  | wildcards
  | componentWildcards
  | set
deriving DecidableEq, Repr

/-- A fault and where in the pattern it is, counted in characters. -/
structure SyntaxError where
  position : Nat
  fault : Fault
deriving DecidableEq, Repr

/-- The text of a fault. -/
def Fault.message : Fault → String
  | .wildcards => "wildcards are either regular \x60*\x60 or recursive \x60**\x60"
  | .componentWildcards => "recursive wildcards must form a single path component"
  | .set => "invalid range pattern"

/-- The text of an error. -/
def SyntaxError.message (e : SyntaxError) : String :=
  "Pattern syntax error near position " ++ toString e.position ++ ": " ++ e.fault.message

/-! ## Reading -/

/-- The separator of path components. -/
def separator : Char := '/'

/-- The members of a set. A `-` between two characters makes a range; any other is itself. -/
def readMembers : List Char → List Member
  | first :: '-' :: last :: rest => .range first last :: readMembers rest
  | c :: rest => .single c :: readMembers rest
  | [] => []

/-- Splits the text after an opening bracket into the set and what follows the closing bracket. The
first character of the set is never the closing bracket. -/
def splitSet? : List Char → Option (List Char × List Char)
  | [] => none
  | first :: more =>
    match more.dropWhile (· != ']') with
    | [] => none
    | _ :: rest => some (first :: more.takeWhile (· != ']'), rest)

theorem length_splitSet? {cs set rest : List Char} (h : splitSet? cs = some (set, rest)) :
    rest.length < cs.length := by
  unfold splitSet? at h
  split at h
  · cases h
  · next first more =>
    split at h
    · cases h
    · next c tail hdrop =>
      obtain ⟨-, rfl⟩ : first :: more.takeWhile (· != ']') = set ∧ tail = rest := by simpa using h
      have := (List.dropWhile_suffix (l := more) (· != ']')).length_le
      rw [hdrop] at this
      simp only [List.length_cons] at *
      omega

/-- The token for a set and the text after it; none if the brackets are not closed. -/
def readSet? : List Char → Option (Token × List Char)
  | '!' :: cs => (splitSet? cs).map fun parts => (.noneOf (readMembers parts.1), parts.2)
  | cs => (splitSet? cs).map fun parts => (.oneOf (readMembers parts.1), parts.2)

theorem length_readSet? {cs rest : List Char} {token : Token}
    (h : readSet? cs = some (token, rest)) : rest.length < cs.length := by
  unfold readSet? at h
  split at h <;> obtain ⟨⟨set, tail⟩, hsplit, heq⟩ := Option.map_eq_some_iff.mp h <;> cases heq
  · have := length_splitSet? hsplit
    simp only [List.length_cons]
    omega
  · exact length_splitSet? hsplit

/-- Reads the tokens of a pattern whose rest starts at `position` after the character `previous`. -/
def readTokens (position : Nat) (previous : Option Char) (cs : List Char) :
    Except SyntaxError (List Token) :=
  match cs with
  | [] => .ok []
  | '?' :: rest => (readTokens (position + 1) (some '?') rest).map (.anyChar :: ·)
  | '*' :: '*' :: '*' :: _ => .error ⟨position + 2, .wildcards⟩
  | '*' :: '*' :: rest =>
    if previous = none ∨ previous = some separator then
      match rest with
      | [] => .ok [.anyComponents]
      | c :: rest =>
        if c = separator then
          (readTokens (position + 3) (some separator) rest).map (.anyComponents :: ·)
        else .error ⟨position + 2, .componentWildcards⟩
    else .error ⟨position - 1, .componentWildcards⟩
  | '*' :: rest => (readTokens (position + 1) (some '*') rest).map (.anyRun :: ·)
  | '[' :: rest =>
    match _h : readSet? rest with
    | none => .error ⟨position, .set⟩
    | some (token, tail) =>
      (readTokens (position + (rest.length + 1 - tail.length)) (some ']') tail).map (token :: ·)
  | c :: rest => (readTokens (position + 1) (some c) rest).map (.char c :: ·)
termination_by cs.length
decreasing_by
  all_goals first
    | exact Nat.lt_succ_of_lt (length_readSet? _h)
    | (simp only [List.length_cons]; omega)

end CompressorBench.Glob

namespace CompressorBench

/-- A pattern with its tokens. -/
structure Glob where
  tokens : List Glob.Token
deriving DecidableEq, Repr

/-- Reads a pattern. -/
def Glob.ofString (text : String) : Except Glob.SyntaxError Glob :=
  (Glob.readTokens 0 none text.toList).map Glob.mk

example : Glob.ofString "a***" = .error ⟨3, .wildcards⟩ := by cbv
example : Glob.ofString "a**" = .error ⟨0, .componentWildcards⟩ := by cbv
example : Glob.ofString "[]a-c]" = .ok ⟨[.oneOf [.single ']', .range 'a' 'c']]⟩ := by cbv

end CompressorBench
