import CompressorBench.Verdict

/-!
# Coloured text

A text for a terminal is a row of pieces, each with a style of its own. With colours off the styles
do not show. With colours on, a styled piece stands between the sequence that opens its style and a
reset; a reset inside the piece is followed by the opening sequence again, so that the rest of the
piece keeps its style.
-/

namespace CompressorBench.Report

/-! ## Styles -/

/-- The colours in use. -/
inductive Color where
  | red
  | green
  | yellow
  | magenta
  | cyan
  | brightRed
  | brightWhite
deriving DecidableEq, Repr

/-- The code of a colour for the text; ten more for the background. -/
def Color.code : Color → Nat
  | .red => 31
  | .green => 32
  | .yellow => 33
  | .magenta => 35
  | .cyan => 36
  | .brightRed => 91
  | .brightWhite => 97

/-- How strongly a text is written. -/
inductive Weight where
  | bold
  | dimmed
deriving DecidableEq, Repr

/-- The code of a weight. -/
def Weight.code : Weight → Nat
  | .bold => 1
  | .dimmed => 2

/-- The look of a piece of text. -/
structure Style where
  weight? : Option Weight
  background? : Option Color
  foreground? : Option Color
deriving DecidableEq, Repr

/-- No style at all. -/
def Style.plain : Style := ⟨none, none, none⟩

/-- A colour for the text and nothing else. -/
def Style.ofColor (color : Color) : Style := ⟨none, none, some color⟩

/-- The codes of a style: weight, background, foreground. -/
def Style.codes (style : Style) : List Nat :=
  (style.weight?.map Weight.code).toList
    ++ (style.background?.map fun color => color.code + 10).toList
    ++ (style.foreground?.map Color.code).toList

/-! ## Sequences -/

/-- The character that starts a sequence. -/
def escape : Char := '\x1b'

/-- The numbers of a sequence with what stands between them. -/
def codesChars : List Nat → List Char
  | [] => []
  | [code] => Nat.toDigits 10 code
  | code :: next :: rest => Nat.toDigits 10 code ++ ';' :: codesChars (next :: rest)

/-- The sequence with the given codes. -/
def sequence (codes : List Nat) : List Char :=
  escape :: '[' :: (codesChars codes ++ ['m'])

/-- The sequence that ends every style. -/
def reset : List Char := sequence [0]

/-- Puts a text after every reset in another. -/
def afterResets (insertion : List Char) (cs : List Char) : List Char :=
  match cs with
  | [] => []
  | c :: rest =>
    if reset.isPrefixOf (c :: rest) then
      reset ++ insertion ++ afterResets insertion (rest.drop (reset.length - 1))
    else c :: afterResets insertion rest
termination_by cs.length
decreasing_by
  all_goals simp only [List.length_cons, List.length_drop]; omega

/-! ## Pieces -/

/-- A piece of text with its style. -/
structure Piece where
  style : Style
  chars : List Char
deriving DecidableEq, Repr

/-- Text for a terminal. -/
abbrev StyledText := List Piece

/-- A text without style. -/
def plain (chars : List Char) : Piece := ⟨.plain, chars⟩

/-- A text in a colour. -/
def colored (color : Color) (chars : List Char) : Piece := ⟨.ofColor color, chars⟩

/-- A line break. -/
def lineBreak : Piece := plain ['\n']

/-- The text of a piece. -/
def Piece.render (colors : Bool) (piece : Piece) : List Char :=
  let codes := piece.style.codes
  if colors && !codes.isEmpty then
    sequence codes ++ afterResets (sequence codes) piece.chars ++ reset
  else piece.chars

/-- The text of a row of pieces, as a list of characters. -/
def renderChars (colors : Bool) (text : StyledText) : List Char :=
  text.flatMap (Piece.render colors)

/-- The text of a row of pieces. -/
def render (colors : Bool) (text : StyledText) : String :=
  String.ofList (renderChars colors text)

/-- With colours off a piece is its text. -/
@[simp] theorem Piece.render_false (piece : Piece) : piece.render false = piece.chars := by
  simp [Piece.render]

@[simp] theorem renderChars_nil (colors : Bool) : renderChars colors [] = [] := rfl

theorem renderChars_cons (colors : Bool) (piece : Piece) (text : StyledText) :
    renderChars colors (piece :: text) = piece.render colors ++ renderChars colors text :=
  List.flatMap_cons

theorem renderChars_append (colors : Bool) (first second : StyledText) :
    renderChars colors (first ++ second) =
      renderChars colors first ++ renderChars colors second := List.flatMap_append

/-- A line break looks the same with and without colours. -/
@[simp] theorem renderChars_lineBreak (colors : Bool) :
    renderChars colors [lineBreak] = ['\n'] := by
  cases colors <;> rfl

/-! ## Marks -/

/-- The colour that stands for a mark. -/
def markColor : Mark → Color
  | .ok => .green
  | .wrongAnswer => .yellow
  | .timeLimit => .red
  | .runtimeError => .magenta
  | .presentationError => .brightRed

/-- The code of a mark on a field of its colour. -/
def icon (mark : Mark) : Piece :=
  ⟨⟨some .bold, some (markColor mark), some .brightWhite⟩, ' ' :: (mark.code.toList ++ [' '])⟩

/-- The code of a mark with a message, green for success and red otherwise. -/
def markMessage (mark : Mark) (message : String) : Piece :=
  colored (if mark = .ok then .green else .red) (mark.code.toList ++ ' ' :: message.toList)

@[simp] theorem chars_markMessage (mark : Mark) (message : String) :
    (markMessage mark message).chars = mark.code.toList ++ ' ' :: message.toList := rfl

end CompressorBench.Report
