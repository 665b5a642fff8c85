/-!
# Columns

A text is filled up with blanks to the width of its column, counted in code points. A text that is
wider than its column is left as it is.
-/

namespace CompressorBench.Text

/-- The blanks that a text of a length lacks in a column. -/
def fill (width length : Nat) : List Char := List.replicate (width - length) ' '

/-- A text at the left of its column. -/
def alignLeft (width : Nat) (cs : List Char) : List Char := cs ++ fill width cs.length

/-- A text at the right of its column. -/
def alignRight (width : Nat) (cs : List Char) : List Char := fill width cs.length ++ cs

@[simp] theorem length_alignLeft (width : Nat) (cs : List Char) :
    (alignLeft width cs).length = max width cs.length := by
  simp only [alignLeft, fill, List.length_append, List.length_replicate]
  omega

@[simp] theorem length_alignRight (width : Nat) (cs : List Char) :
    (alignRight width cs).length = max width cs.length := by
  simp only [alignRight, fill, List.length_append, List.length_replicate]
  omega

end CompressorBench.Text
