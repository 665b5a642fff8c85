import CompressorBench.Glob.Pattern

/-!
# Matching file names

A name matches a pattern if it can be cut into pieces that fit the tokens one after the other. Two
rules go beyond that: letters of ASCII match without regard to case, and a dot at the start of a
path component is matched by a dot of the pattern only.

The search gives up as a whole when a token finds the name used up, because then every other way to
cut the name fails as well.
-/

namespace CompressorBench.Glob

/-! ## Single characters -/

/-- Whether a character is one of ASCII. -/
def isAscii (c : Char) : Bool := decide (c.toNat < 0x80)

/-- Two characters are the same; letters of ASCII also if they differ in case only. -/
def sameChar (a b : Char) : Bool :=
  if isAscii a && isAscii b then a.toLower == b.toLower else a == b

/-- Whether a character lies between two others, both included. -/
def between (first last c : Char) : Bool := decide (first ≤ c) && decide (c ≤ last)

/-- Whether a character belongs to a part of a set. A range between two letters of ASCII holds the
letters of either case. -/
def Member.holds (c : Char) : Member → Bool
  | .single other => sameChar c other
  | .range first last =>
    (isAscii c && first.isAlpha && last.isAlpha
      && between first.toLower last.toLower c.toLower)
    || between first last c

/-- Whether a character belongs to a set. -/
def inSet (set : List Member) (c : Char) : Bool := set.any (Member.holds c)

/-- Whether a token that stands for one character takes `c`. After a separator a wildcard and a set
take no dot. -/
def Token.takes (afterSeparator : Bool) (c : Char) : Token → Bool
  | .char other => sameChar c other
  | .anyChar => !(afterSeparator && c == '.')
  | .oneOf set => !(afterSeparator && c == '.') && inSet set c
  | .noneOf set => !(afterSeparator && c == '.') && !inSet set c
  | .anyRun => false
  | .anyComponents => false

/-! ## The search -/

/-- How the search for a match ends. -/
inductive Search where
  | matched
  /-- This way to cut the name fails. -/
  | failed
  /-- The name is used up before the pattern is, so no way to cut it is left. -/
  | usedUp
deriving DecidableEq, Repr

/-- Tries the continuation after each longer piece for a run of characters. A run takes no dot at
the start of a component; a run of whole components only ends after a separator. -/
def stretch (continuation : Bool → List Char → Search) (components : Bool) (afterSeparator : Bool) :
    List Char → Search
  | [] => continuation afterSeparator []
  | c :: rest =>
    if afterSeparator && c == '.' then .failed
    else if components && c != separator then stretch continuation components false rest
    else
      match continuation (c == separator) rest with
      | .failed => stretch continuation components (c == separator) rest
      | result => result

/-- Searches for a match of the tokens with the rest of a name. -/
def search : List Token → Bool → List Char → Search
  | [], _, cs => if cs.isEmpty then .matched else .failed
  | token :: tokens, afterSeparator, cs =>
    if token = .anyRun ∨ token = .anyComponents then
      match search tokens afterSeparator cs with
      | .failed => stretch (search tokens) (token == .anyComponents) afterSeparator cs
      | result => result
    else
      match cs with
      | [] => .usedUp
      | c :: rest =>
        if token.takes afterSeparator c then search tokens (c == separator) rest else .failed

end CompressorBench.Glob

namespace CompressorBench

/-- Whether a name matches a pattern. -/
def Glob.accepts (pattern : Glob) (name : String) : Bool :=
  Glob.search pattern.tokens true name.toList == .matched

example : (Glob.ofString "*.txt").toOption.map (·.accepts "A.TXT") = some true := by decide +kernel
example : (Glob.ofString "*.txt").toOption.map (·.accepts ".txt") = some true := by decide +kernel
example : (Glob.ofString "*.txt").toOption.map (·.accepts ".a.txt") = some false := by
  decide +kernel
example : (Glob.ofString "*[!b]c").toOption.map (·.accepts "abcac") = some true := by
  decide +kernel

end CompressorBench
