/-!
# Splitting at a character

A text is cut at every occurrence of a separator, so that the pieces joined by the separator give
the text back.

Main statements: joining is the inverse of splitting (`join_split`), and splitting is the inverse of
joining (`split_join`).
-/

namespace CompressorBench.Text

/-- A run of characters is cut off as a whole, and nothing behind it. -/
theorem takeWhile_append_of_head? {p : Char → Bool} {run rest : List Char}
    (hrun : ∀ c ∈ run, p c = true) (hend : ∀ c, rest.head? = some c → p c = false) :
    (run ++ rest).takeWhile p = run ∧ (run ++ rest).dropWhile p = rest := by
  rw [List.takeWhile_append_of_pos hrun, List.dropWhile_append_of_pos hrun]
  cases rest with
  | nil => exact ⟨List.append_nil run, rfl⟩
  | cons c rest =>
    have hc := hend c rfl
    simp [hc]

/-- The pieces between the separators; `piece` holds the current one, last character first. -/
def splitFrom (separator : Char) (piece : List Char) : List Char → List (List Char)
  | [] => [piece.reverse]
  | c :: rest =>
    if c = separator then piece.reverse :: splitFrom separator [] rest
    else splitFrom separator (c :: piece) rest

/-- The pieces between the separators. There is one more piece than there are separators. -/
def split (separator : Char) (cs : List Char) : List (List Char) := splitFrom separator [] cs

/-- Puts a separator between the pieces. -/
def join (separator : Char) : List (List Char) → List Char
  | [] => []
  | [piece] => piece
  | piece :: next :: rest => piece ++ separator :: join separator (next :: rest)

theorem splitFrom_ne_nil (separator : Char) (piece cs : List Char) :
    splitFrom separator piece cs ≠ [] := by
  fun_induction splitFrom separator piece cs <;> simp_all

theorem join_cons {separator : Char} {piece : List Char} {pieces : List (List Char)}
    (h : pieces ≠ []) :
    join separator (piece :: pieces) = piece ++ separator :: join separator pieces := by
  cases pieces with
  | nil => exact absurd rfl h
  | cons => rfl

theorem join_splitFrom (separator : Char) (piece cs : List Char) :
    join separator (splitFrom separator piece cs) = piece.reverse ++ cs := by
  induction cs generalizing piece with
  | nil => simp [splitFrom, join]
  | cons c rest ih =>
    rw [splitFrom]
    split
    · next h => rw [join_cons (splitFrom_ne_nil _ _ _), ih, h]; simp
    · rw [ih]; simp

/-- **Joining is the inverse of splitting.** -/
theorem join_split (separator : Char) (cs : List Char) :
    join separator (split separator cs) = cs := by
  simp [split, join_splitFrom]

theorem splitFrom_append (separator : Char) (piece before after : List Char) :
    splitFrom separator piece (before ++ separator :: after) =
      splitFrom separator piece before ++ split separator after := by
  induction before generalizing piece with
  | nil => simp [splitFrom, split]
  | cons c rest ih =>
    rw [List.cons_append, splitFrom, splitFrom]
    split
    · rw [ih, List.cons_append]
    · exact ih _

/-- A separator parts the pieces before it from those after it. -/
theorem split_append (separator : Char) (before after : List Char) :
    split separator (before ++ separator :: after) =
      split separator before ++ split separator after :=
  splitFrom_append separator [] before after

theorem splitFrom_of_not_mem {separator : Char} {cs : List Char} (h : separator ∉ cs)
    (piece : List Char) : splitFrom separator piece cs = [piece.reverse ++ cs] := by
  induction cs generalizing piece with
  | nil => rw [splitFrom, List.append_nil]
  | cons c rest ih =>
    rw [List.mem_cons, not_or] at h
    rw [splitFrom, if_neg fun hc => h.1 hc.symm, ih h.2, List.reverse_cons, List.append_assoc,
      List.singleton_append]

/-- What holds no separator is one piece. -/
theorem split_of_not_mem {separator : Char} {cs : List Char} (h : separator ∉ cs) :
    split separator cs = [cs] :=
  splitFrom_of_not_mem h []

/-- **Splitting is the inverse of joining** pieces that hold no separator. -/
theorem split_join {separator : Char} {pieces : List (List Char)} (hpieces : pieces ≠ [])
    (h : ∀ piece ∈ pieces, separator ∉ piece) :
    split separator (join separator pieces) = pieces := by
  fun_induction join separator pieces with
  | case1 => exact absurd rfl hpieces
  | case2 piece => exact split_of_not_mem (h piece List.mem_cons_self)
  | case3 piece next rest ih =>
    obtain ⟨hpiece, hrest⟩ := List.forall_mem_cons.mp h
    rw [split_append, split_of_not_mem hpiece, ih (List.cons_ne_nil _ _) hrest,
      List.singleton_append]

/-- No piece holds the separator. -/
theorem not_mem_of_mem_splitFrom {separator : Char} {piece cs p : List Char}
    (hpiece : separator ∉ piece) (hp : p ∈ splitFrom separator piece cs) : separator ∉ p := by
  induction cs generalizing piece with
  | nil =>
    rw [splitFrom, List.mem_singleton] at hp
    simpa [hp] using hpiece
  | cons c rest ih =>
    rw [splitFrom] at hp
    split at hp
    · rcases List.mem_cons.mp hp with rfl | hp
      · simpa using hpiece
      · exact ih List.not_mem_nil hp
    · next h =>
      refine ih ?_ hp
      simp only [List.mem_cons, not_or]
      exact ⟨fun he => h he.symm, hpiece⟩

/-- The lines of a text. A line break at the end opens a last empty line. -/
def lines (text : String) : List String := (split '\n' text.toList).map String.ofList

/-- The characters before the first line break, which is a line feed or a carriage return with a
line feed. A carriage return alone breaks no line. -/
def takeLine : List Char → List Char
  | [] => []
  | c :: rest =>
    if c = '\n' ∨ c = '\r' ∧ rest.head? = some '\n' then [] else c :: takeLine rest

/-- The first line of a text. -/
def firstLine (text : String) : String := String.ofList (takeLine text.toList)

example : takeLine ['a', '\r', '\n', 'b'] = ['a'] := by decide
example : takeLine ['a', '\r', 'b'] = ['a', '\r', 'b'] := by decide

end CompressorBench.Text
