import CompressorBench.Decimal.Shortest
import CompressorBench.Json.Basic
import CompressorBench.Text.Quoted

/-!
# Writing JSON

One printer for both layouts. The compact layout has no blanks; the indented layout gives every item
and member a line of its own, two spaces deeper than what holds it. An empty array or object takes
no lines.
-/

namespace CompressorBench.Json

/-- Floating point numbers are positional from 1e-5 up to 1e16 and have an exponent with a sign
otherwise. -/
def floatForm : Decimal.FloatForm :=
  { leastPositional := -5, mostPositional := 15, exponentMark := "e", positiveSign := "+" }

/-- What stands between the parts of a value. -/
structure Layout where
  /-- What comes before an item or a closing bracket at a depth. -/
  lineBreak : Nat → List Char
  /-- What stands between the name and the value of a member. -/
  colon : List Char

/-- No blanks at all. -/
def Layout.compact : Layout :=
  { lineBreak := fun _ => [], colon := [':'] }

/-- A line for every item and member, indented by two spaces for each level. -/
def Layout.indented : Layout :=
  { lineBreak := fun depth => '\n' :: List.replicate (2 * depth) ' ', colon := [':', ' '] }

/-- The text of a whole number. -/
def intChars : Int → List Char
  | .ofNat n => Decimal.natChars n
  | .negSucc n => '-' :: Decimal.natChars (n + 1)

/-- The text of a floating point number; infinities and what is not a number are `null`. -/
def floatChars (x : Float) : List Char :=
  (floatForm.chars? x).getD "null".toList

mutual

/-- The text of a value at a depth. -/
def chars (layout : Layout) (depth : Nat) : Json → List Char
  | .null => "null".toList
  | .bool true => "true".toList
  | .bool false => "false".toList
  | .int n => intChars n
  | .float x => floatChars x
  | .str text => Text.quoted text
  | .arr [] => ['[', ']']
  | .arr (item :: rest) =>
    '[' :: (layout.lineBreak (depth + 1) ++ itemsChars layout (depth + 1) (item :: rest)
      ++ layout.lineBreak depth ++ [']'])
  | .obj [] => ['\x7b', '\x7d']
  | .obj (member :: rest) =>
    '\x7b' :: (layout.lineBreak (depth + 1) ++ membersChars layout (depth + 1) (member :: rest)
      ++ layout.lineBreak depth ++ ['\x7d'])

/-- The items of an array with what stands between them. -/
def itemsChars (layout : Layout) (depth : Nat) : List Json → List Char
  | [] => []
  | [item] => chars layout depth item
  | item :: next :: rest =>
    chars layout depth item ++ ',' :: (layout.lineBreak depth ++
      itemsChars layout depth (next :: rest))

/-- The members of an object with what stands between them. -/
def membersChars (layout : Layout) (depth : Nat) : List (String × Json) → List Char
  | [] => []
  | [(name, value)] => Text.quoted name ++ layout.colon ++ chars layout depth value
  | (name, value) :: next :: rest =>
    Text.quoted name ++ layout.colon ++ chars layout depth value ++ ',' ::
      (layout.lineBreak depth ++ membersChars layout depth (next :: rest))

end

/-- The text of a value without blanks. -/
def compact (value : Json) : String := String.ofList (value.chars .compact 0)

/-- The text of a value on indented lines. -/
def indented (value : Json) : String := String.ofList (value.chars .indented 0)

example : compact (.obj [("a", .arr [.int 1, .null]), ("b", .obj [])])
    = "\x7b\"a\":[1,null],\"b\":\x7b\x7d\x7d" := by decide +kernel
example : indented (.arr [.int (-1), .str "x"]) = "[\n  -1,\n  \"x\"\n]" := by decide +kernel

end CompressorBench.Json
