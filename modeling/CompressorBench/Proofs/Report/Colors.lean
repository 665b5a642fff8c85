import CompressorBench.Proofs.Report.Characters

/-!
# Colours

Colours put sequences into a text and take nothing away. Without its sequences a coloured text is
the text that is printed with colours off, and every sequence that opens a style is followed by a
reset before any other sequence comes. Both hold of what is built by `Colors`, and so of every row
of pieces without an escape character of their own.

* `Colors.withoutSequences_eq`: what is left without the sequences.
* `Colors.isClosed`: every style is closed.
* `colors_renderChars`: a row of pieces without an escape character.
* `report_adds_sequences`: all texts of a report.
-/

namespace CompressorBench.Report

variable {codes : List Nat} {cs ds rest inside shown others : List Char} {c : Char}

/-! ## Removing sequences -/

/-- The characters of a sequence between the bracket and the last letter. -/
def isCode (c : Char) : Bool := c.isDigit || c == ';'

/-- What follows the sequence at the start of a text, if there is one. -/
def behindSequence? : List Char → Option (List Char)
  | '\x1b' :: '[' :: rest =>
    match rest.dropWhile isCode with
    | 'm' :: rest => some rest
    | _ => none
  | _ => none

theorem length_lt_of_behindSequence? (h : behindSequence? cs = some rest) :
    rest.length < cs.length := by
  unfold behindSequence? at h
  split at h
  · next tail =>
    split at h
    · next after heq =>
      obtain rfl := Option.some.inj h
      have hle := (List.dropWhile_suffix isCode (l := tail)).length_le
      rw [heq] at hle
      simp only [List.length_cons] at hle ⊢
      omega
    · cases h
  · cases h

/-- A text without its sequences. -/
def withoutSequences (cs : List Char) : List Char :=
  match cs with
  | [] => []
  | c :: rest =>
    match _h : behindSequence? (c :: rest) with
    | some behind => withoutSequences behind
    | none => c :: withoutSequences rest
termination_by cs.length
decreasing_by
  · exact length_lt_of_behindSequence? _h
  · exact Nat.lt_succ_self _

theorem withoutSequences_cons (hc : c ≠ escape) :
    withoutSequences (c :: rest) = c :: withoutSequences rest := by
  have hnone : behindSequence? (c :: rest) = none := by
    unfold behindSequence?
    split
    · next heq => exact absurd (List.cons.inj heq).1 hc
    · rfl
  rw [withoutSequences]
  split
  · next h =>
    rw [hnone] at h
    cases h
  · rfl

theorem withoutSequences_append (h : escape ∉ cs) :
    withoutSequences (cs ++ rest) = cs ++ withoutSequences rest := by
  induction cs with
  | nil => rfl
  | cons c cs ih =>
    rw [List.mem_cons, not_or] at h
    rw [List.cons_append, withoutSequences_cons (Ne.symm h.1), ih h.2, List.cons_append]

theorem isCode_of_mem_codesChars (h : c ∈ codesChars codes) : isCode c = true := by
  have hdigit : ∀ {code : Nat}, c ∈ Nat.toDigits 10 code → isCode c = true := by
    intro code hmem
    rw [isCode, Decimal.isDigit_of_mem_natChars hmem, Bool.true_or]
  fun_induction codesChars codes with
  | case1 => exact absurd h List.not_mem_nil
  | case2 code => exact hdigit h
  | case3 code next rest ih =>
    rcases List.mem_append.mp h with hmem | hmem
    · exact hdigit hmem
    rcases List.mem_cons.mp hmem with rfl | hmem
    · decide
    · exact ih hmem

theorem behindSequence?_sequence_append (codes : List Nat) (rest : List Char) :
    behindSequence? (sequence codes ++ rest) = some rest := by
  have hdrop : (codesChars codes ++ ['m'] ++ rest).dropWhile isCode = 'm' :: rest := by
    rw [List.append_assoc, List.dropWhile_append_of_pos fun _ => isCode_of_mem_codesChars]
    exact List.dropWhile_cons_of_neg (by decide)
  simp only [sequence, escape, List.cons_append, behindSequence?, hdrop]

theorem withoutSequences_sequence_append (codes : List Nat) (rest : List Char) :
    withoutSequences (sequence codes ++ rest) = withoutSequences rest := by
  have hbehind := behindSequence?_sequence_append codes rest
  generalize hcs : sequence codes ++ rest = cs at hbehind
  cases cs with
  | nil => cases hcs
  | cons c tail =>
    rw [withoutSequences]
    split
    · next behind h => rw [Option.some.inj (hbehind.symm.trans h)]
    · next h =>
      rw [hbehind] at h
      cases h

example : withoutSequences "a\x1b[1;33mb\x1b[0m\x1b[x".toList = "ab\x1b[x".toList := by cbv

/-! ## Coloured texts -/

/-- A text with sequences and what it shows. A style is opened, a text without any sequence comes,
and a reset closes the style; between styles there is text without sequences. -/
inductive Colors : List Char → List Char → Prop where
  | nil : Colors [] []
  | char {c : Char} {cs shown : List Char} (hc : c ≠ escape) (h : Colors cs shown) :
      Colors (c :: cs) (c :: shown)
  | style {inside cs shown : List Char} (codes : List Nat) (hinside : escape ∉ inside)
      (h : Colors cs shown) :
      Colors (sequence codes ++ (inside ++ (reset ++ cs))) (inside ++ shown)

theorem Colors.append (h : Colors cs shown) (hothers : Colors ds others) :
    Colors (cs ++ ds) (shown ++ others) := by
  induction h with
  | nil => exact hothers
  | char hc _ ih => exact .char hc ih
  | style codes hinside _ ih => simpa only [List.append_assoc] using .style codes hinside ih

/-- A text without sequences shows itself. -/
theorem colors_of_not_mem (h : escape ∉ cs) : Colors cs cs := by
  induction cs with
  | nil => exact .nil
  | cons c cs ih =>
    rw [List.mem_cons, not_or] at h
    exact .char (Ne.symm h.1) (ih h.2)

/-- **What is left without the sequences is what a text shows.** -/
theorem Colors.withoutSequences_eq (h : Colors cs shown) : withoutSequences cs = shown := by
  induction h with
  | nil => rw [withoutSequences]
  | char hc _ ih => rw [withoutSequences_cons hc, ih]
  | style codes hinside _ ih =>
    rw [withoutSequences_sequence_append, withoutSequences_append hinside, reset,
      withoutSequences_sequence_append, ih]

/-! ## Every style is closed -/

/-- Where there is an escape character, either a reset stands there, or a sequence opens a style,
and the next sequence is a reset. -/
def IsClosed (cs : List Char) : Prop :=
  ∀ before after, cs = before ++ escape :: after →
    (∃ rest, escape :: after = reset ++ rest) ∨
      ∃ codes inside rest, escape ∉ inside ∧
        escape :: after = sequence codes ++ (inside ++ (reset ++ rest))

theorem exists_of_append_eq {before after : List Char} (h : escape ∉ cs)
    (heq : cs ++ rest = before ++ escape :: after) :
    ∃ skipped, rest = skipped ++ escape :: after := by
  rcases List.append_eq_append_iff.mp heq with ⟨skipped, -, hrest⟩ | ⟨skipped, hcs, hafter⟩
  · exact ⟨skipped, hrest⟩
  cases skipped with
  | nil => exact ⟨[], hafter.symm⟩
  | cons c skipped =>
    obtain ⟨rfl, -⟩ := List.cons.inj hafter
    exact absurd (by simp [hcs]) h

/-- The head of a sequence is the only escape character in it. -/
theorem escape_not_mem_tail_sequence (codes : List Nat) :
    escape ∉ '[' :: (codesChars codes ++ ['m']) := by
  intro h
  rcases List.mem_cons.mp h with h | h
  · cases h
  rcases List.mem_append.mp h with h | h
  · cases isCode_of_mem_codesChars h
  · simp [escape] at h

theorem Colors.isClosed (h : Colors cs shown) : IsClosed cs := by
  induction h with
  | nil =>
    intro before after heq
    simp at heq
  | char hc _ ih =>
    intro before after heq
    cases before with
    | nil => exact absurd (List.cons.inj heq).1 hc
    | cons c before => exact ih before after (List.cons.inj heq).2
  | @style inside cs shown codes hinside _ ih =>
    intro before after heq
    cases before with
    | nil => exact .inr ⟨codes, inside, cs, hinside, heq.symm⟩
    | cons c before =>
      -- the escape character is none of this sequence, and none of what the style is for
      obtain ⟨skipped, heq⟩ :=
        exists_of_append_eq (escape_not_mem_tail_sequence codes) (List.cons.inj heq).2
      obtain ⟨skipped, heq⟩ := exists_of_append_eq hinside heq
      cases skipped with
      | nil => exact .inl ⟨cs, heq.symm⟩
      | cons c skipped =>
        obtain ⟨skipped, heq⟩ :=
          exists_of_append_eq (escape_not_mem_tail_sequence [0]) (List.cons.inj heq).2
        exact ih skipped after heq

/-! ## Pieces -/

/-- Nothing is put into a text without sequences. -/
theorem afterResets_of_not_mem (insertion : List Char) (h : escape ∉ cs) :
    afterResets insertion cs = cs := by
  induction cs with
  | nil => rw [afterResets]
  | cons c cs ih =>
    rw [List.mem_cons, not_or] at h
    have hreset : ¬ reset.isPrefixOf (c :: cs) = true := by
      rw [List.isPrefixOf_iff_prefix]
      rintro ⟨rest, heq⟩
      exact h.1 (List.cons.inj heq).1
    rw [afterResets, if_neg hreset, ih h.2]

theorem Piece.colors_render {piece : Piece} (h : escape ∉ piece.chars) :
    Colors (piece.render true) piece.chars := by
  rw [Piece.render]
  split
  · rw [afterResets_of_not_mem _ h]
    simpa using Colors.style piece.style.codes h .nil
  · exact colors_of_not_mem h

/-- **A row of pieces without an escape character.** -/
theorem colors_renderChars {text : StyledText} (h : escape ∉ renderChars false text) :
    Colors (renderChars true text) (renderChars false text) := by
  induction text with
  | nil => exact .nil
  | cons piece text ih =>
    rw [renderChars_cons, Piece.render_false, List.mem_append, not_or] at h
    rw [renderChars_cons, renderChars_cons, Piece.render_false]
    exact (Piece.colors_render h.1).append (ih h.2)

/-! ## Reports -/

/-- Colours put nothing but sequences into a text, and close every style that they open. -/
structure AddsSequences (text : StyledText) : Prop where
  withoutSequences_eq :
    withoutSequences (render true text).toList = (render false text).toList
  isClosed : IsClosed (render true text).toList

theorem addsSequences_of_showsOnly {text : StyledText} {own : List Char}
    (h : ShowsOnly own (renderChars false text)) (hown : escape ∉ own) : AddsSequences text := by
  have hcolors := colors_renderChars (h.not_mem (by decide) hown)
  constructor
  · rw [render, render, String.toList_ofList, String.toList_ofList]
    exact hcolors.withoutSequences_eq
  · rw [render, String.toList_ofList]
    exact hcolors.isClosed

/-- **Colours change nothing but sequences.** If there is no escape character in the names and in
the reasons of presentation errors, then the header, every line, the summary and all that follows
the header are the same with and without colours once the sequences are removed, and every style is
closed by a reset. -/
theorem report_adds_sequences (layout : Layout) (count : Nat) (outcomes : List Outcome)
    (summary : Summary)
    (h : ∀ outcome ∈ outcomes,
      escape ∉ outcome.name.toList ∧ escape ∉ reasonChars outcome.verdict) :
    AddsSequences (layout.header count) ∧
      (∀ outcome ∈ outcomes, AddsSequences (layout.line outcome)) ∧
      AddsSequences (summaryText outcomes summary) ∧
      AddsSequences (resultText layout outcomes summary) := by
  have hown : ∀ outcome ∈ outcomes, escape ∉ ownChars outcome := by
    intro outcome houtcome
    rw [ownChars, List.mem_append, not_or]
    exact h outcome houtcome
  have hbreak : escape ∉ ['\n'] := by decide
  have hall : escape ∉ '\n' :: outcomes.flatMap ownChars := by
    rw [← List.singleton_append, List.mem_append, List.mem_flatMap]
    rintro (hmem | ⟨outcome, houtcome, hmem⟩)
    · exact hbreak hmem
    · exact hown outcome houtcome hmem
  refine ⟨addsSequences_of_showsOnly (showsOnly_header layout count) hbreak,
    fun outcome houtcome => ?_, ?_, ?_⟩
  · exact addsSequences_of_showsOnly (showsOnly_line layout outcome) (hown outcome houtcome)
  · exact addsSequences_of_showsOnly (showsOnly_summaryText outcomes summary) hbreak
  · exact addsSequences_of_showsOnly (showsOnly_resultText layout outcomes summary) hall

/-- A success, and a file that could not be read, with a name beyond ASCII. -/
def mixedOutcomes : List Outcome :=
  [⟨1, "a.txt", some 3, some 3, .success 3 1000.0, .zero⟩,
    ⟨2, "é.txt", none, none, .presentationError .input (.unreadableFile "denied"), .zero⟩]

theorem mixed_report_adds_sequences :
    AddsSequences (resultText (Layout.ofNames (mixedOutcomes.map Outcome.name)) mixedOutcomes
      (Summary.ofOutcomes mixedOutcomes)) := by
  have hown : ∀ outcome ∈ mixedOutcomes,
      escape ∉ outcome.name.toList ∧ escape ∉ reasonChars outcome.verdict := by
    intro outcome houtcome
    rcases List.mem_pair.mp houtcome with rfl | rfl <;> decide
  exact (report_adds_sequences _ 2 mixedOutcomes _ hown).2.2.2

end CompressorBench.Report
