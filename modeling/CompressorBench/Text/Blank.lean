/-!
# Blanks and words

A blank is a character with the Unicode property White_Space. Blanks separate the words of a case
file, and the blanks at the end of a program's output do not count.

Main statements: `wordAt?` picks an entry of `words`, every word is free of blanks, and `trimEnd`
removes blanks only and leaves none at the end.
-/

namespace CompressorBench.Text

/-! ## The property -/

/-- The code points of White_Space, as ranges with both ends included. -/
def blankRanges : List (Nat × Nat) :=
  [(0x9, 0xD), (0x20, 0x20), (0x85, 0x85), (0xA0, 0xA0), (0x1680, 0x1680), (0x2000, 0x200A),
    (0x2028, 0x2029), (0x202F, 0x202F), (0x205F, 0x205F), (0x3000, 0x3000)]

/-- A character is blank if its code point lies in one of the ranges of White_Space. -/
def isBlank (c : Char) : Bool :=
  blankRanges.any fun range => decide (range.1 ≤ c.toNat) && decide (c.toNat ≤ range.2)

/-- White_Space has 25 code points. -/
example : (blankRanges.map fun range => range.2 + 1 - range.1).sum = 25 := by decide

/-! ## The end of a text -/

/-- A list of characters without the blanks at its end. -/
def trimEndChars (cs : List Char) : List Char :=
  (cs.reverse.dropWhile isBlank).reverse

/-- A text without the blanks at its end. -/
def trimEnd (text : String) : String :=
  String.ofList (trimEndChars text.toList)

@[simp] theorem toList_trimEnd (text : String) :
    (trimEnd text).toList = trimEndChars text.toList := by
  simp [trimEnd]

/-- Trimming takes a run of blanks off the end. -/
theorem trimEndChars_append_blanks (cs : List Char) :
    ∃ blanks : List Char, (∀ c ∈ blanks, isBlank c = true) ∧ trimEndChars cs ++ blanks = cs := by
  refine ⟨(cs.reverse.takeWhile isBlank).reverse, ?_, ?_⟩
  · intro c hc
    exact (List.all_eq_true.mp List.all_takeWhile) c (List.mem_reverse.mp hc)
  · rw [trimEndChars, ← List.reverse_append, List.takeWhile_append_dropWhile, List.reverse_reverse]

/-- Blanks at the end do not count. -/
theorem trimEndChars_append {blanks : List Char} (h : ∀ c ∈ blanks, isBlank c = true)
    (cs : List Char) : trimEndChars (cs ++ blanks) = trimEndChars cs := by
  have hreverse : ∀ c ∈ blanks.reverse, isBlank c = true := fun c hc =>
    h c (List.mem_reverse.mp hc)
  rw [trimEndChars, List.reverse_append, List.dropWhile_append_of_pos hreverse, trimEndChars]

/-- A list without blanks stays as it is. -/
theorem trimEndChars_eq_self {cs : List Char} (h : ∀ c ∈ cs, isBlank c = false) :
    trimEndChars cs = cs := by
  have hdrop : cs.reverse.dropWhile isBlank = cs.reverse := by
    cases hreverse : cs.reverse with
    | nil => rfl
    | cons c rest =>
      have hc : c ∈ cs := List.mem_reverse.mp (by rw [hreverse]; exact List.mem_cons_self)
      exact List.dropWhile_cons_of_neg (by simp [h c hc])
  rw [trimEndChars, hdrop, List.reverse_reverse]

/-- A list without blanks is what is left after trimming if only blanks follow it. -/
theorem trimEndChars_eq_iff {cs ds : List Char} (h : ∀ c ∈ ds, isBlank c = false) :
    trimEndChars cs = ds ↔ ∃ blanks, (∀ c ∈ blanks, isBlank c = true) ∧ cs = ds ++ blanks := by
  constructor
  · rintro rfl
    obtain ⟨blanks, hblanks, heq⟩ := trimEndChars_append_blanks cs
    exact ⟨blanks, hblanks, heq.symm⟩
  · rintro ⟨blanks, hblanks, rfl⟩
    rw [trimEndChars_append hblanks, trimEndChars_eq_self h]

/-- What is not blank is never trimmed. -/
theorem mem_trimEndChars {cs : List Char} {c : Char} (hc : c ∈ cs) (h : isBlank c = false) :
    c ∈ trimEndChars cs := by
  obtain ⟨blanks, hblanks, heq⟩ := trimEndChars_append_blanks cs
  rw [← heq] at hc
  rcases List.mem_append.mp hc with hc | hc
  · exact hc
  · rw [hblanks c hc] at h
    cases h

/-! ## Words -/

/-- The blanks that a text starts with are skipped. -/
def skipBlanks (cs : List Char) : List Char :=
  cs.dropWhile isBlank

/-- The characters before the first blank. -/
def firstWord (cs : List Char) : List Char :=
  cs.takeWhile fun c => !isBlank c

/-- What follows the characters before the first blank. -/
def afterWord (cs : List Char) : List Char :=
  cs.dropWhile fun c => !isBlank c

theorem length_skipBlanks_le (cs : List Char) : (skipBlanks cs).length ≤ cs.length :=
  (List.dropWhile_suffix isBlank).length_le

/-- What is left behind the blanks starts with a character that is none. -/
theorem isBlank_of_skipBlanks {cs rest : List Char} {c : Char} (h : skipBlanks cs = c :: rest) :
    isBlank c = false := by
  have hne : skipBlanks cs ≠ [] := by simp [h]
  have hhead := List.head_dropWhile_not isBlank hne
  have hc0 : (skipBlanks cs).head hne = c := by simp [h]
  have hhead' : isBlank ((skipBlanks cs).head hne) = false := by
    simpa [skipBlanks] using hhead
  rwa [hc0] at hhead'

/-- A text that starts with no blank gets shorter when its first word is taken off. -/
theorem length_afterWord_lt {cs rest : List Char} {c : Char} (h : skipBlanks cs = c :: rest) :
    (afterWord (c :: rest)).length < cs.length := by
  have hc := isBlank_of_skipBlanks h
  have hle := length_skipBlanks_le cs
  rw [h] at hle
  have : afterWord (c :: rest) = afterWord rest := by simp [afterWord, hc]
  rw [this]
  have := (List.dropWhile_suffix (l := rest) fun c => !isBlank c).length_le
  simp only [List.length_cons] at hle
  unfold afterWord
  omega

/-- The maximal runs of characters that are not blank, in order. -/
def words (cs : List Char) : List (List Char) :=
  match _h : skipBlanks cs with
  | [] => []
  | c :: rest => firstWord (c :: rest) :: words (afterWord (c :: rest))
termination_by cs.length
decreasing_by exact length_afterWord_lt _h

theorem words_of_skipBlanks_nil {cs : List Char} (h : skipBlanks cs = []) : words cs = [] := by
  rw [words]
  split
  · rfl
  · next h' => rw [h] at h'; cases h'

theorem words_of_skipBlanks_cons {cs rest : List Char} {c : Char} (h : skipBlanks cs = c :: rest) :
    words cs = firstWord (c :: rest) :: words (afterWord (c :: rest)) := by
  rw [words]
  split
  · next h' => rw [h] at h'; cases h'
  · next h' => rw [h] at h'; cases h'; rfl

/-- The word at a position counted from 0, found without cutting up the words after it. -/
def wordAt? : Nat → List Char → Option (List Char)
  | 0, cs =>
    match skipBlanks cs with
    | [] => none
    | c :: rest => some (firstWord (c :: rest))
  | n + 1, cs =>
    match skipBlanks cs with
    | [] => none
    | c :: rest => wordAt? n (afterWord (c :: rest))

/-- `wordAt?` picks an entry of the list of words. -/
theorem wordAt?_eq_getElem? (n : Nat) (cs : List Char) : wordAt? n cs = (words cs)[n]? := by
  induction n generalizing cs with
  | zero =>
    rw [wordAt?]
    split
    · next h => simp [words_of_skipBlanks_nil h]
    · next h => simp [words_of_skipBlanks_cons h]
  | succ n ih =>
    rw [wordAt?]
    split
    · next h => simp [words_of_skipBlanks_nil h]
    · next h => simp [words_of_skipBlanks_cons h, ih]

/-- No word holds a blank. -/
theorem isBlank_of_mem_words {word : List Char} {cs : List Char} (hw : word ∈ words cs) :
    ∀ c ∈ word, isBlank c = false := by
  fun_induction words cs with
  | case1 => simp at hw
  | case2 cs c rest h ih =>
    rcases List.mem_cons.mp hw with rfl | hw
    · intro x hx
      simpa using (List.all_eq_true.mp List.all_takeWhile) x hx
    · exact ih hw

/-- No word is empty. -/
theorem ne_nil_of_mem_words {word : List Char} {cs : List Char} (hw : word ∈ words cs) :
    word ≠ [] := by
  fun_induction words cs with
  | case1 => simp at hw
  | case2 cs c rest h ih =>
    rcases List.mem_cons.mp hw with rfl | hw
    · simp [firstWord, isBlank_of_skipBlanks h]
    · exact ih hw

end CompressorBench.Text
