import CompressorBench.Proofs.Decimal.Fixed
import CompressorBench.Proofs.Report.Line

/-!
# The characters of a report

A report prints visible characters of ASCII. Nothing else gets into it but line breaks and what it
takes over from a case: the name, and the reason of a presentation error, which may hold a message
of the operating system.

* `showsOnly_line`: the characters of a line.
* `showsOnly_resultText`: the characters of all that follows the header.
-/

namespace CompressorBench.Report

variable {own other cs ds : List Char} {c : Char}

/-! ## Visible characters -/

/-- Whether a character is one of ASCII and no control character. -/
def isVisible (c : Char) : Bool := decide (' ' ≤ c) && decide (c ≤ '~')

/-- A text has visible characters only, and some of its own. -/
def ShowsOnly (own cs : List Char) : Prop := ∀ c ∈ cs, isVisible c = true ∨ c ∈ own

instance : Decidable (ShowsOnly own cs) :=
  inferInstanceAs (Decidable (∀ c ∈ cs, isVisible c = true ∨ c ∈ own))

/-- A character that is not visible and none of its own is not in a text. -/
theorem ShowsOnly.not_mem (h : ShowsOnly own cs) (hc : isVisible c = false) (hown : c ∉ own) :
    c ∉ cs := by
  intro hmem
  rcases h c hmem with hvisible | hmem
  · rw [hc] at hvisible
    cases hvisible
  · exact hown hmem

/-- A text without any of its own has no line break. -/
theorem ShowsOnly.lineFeed_not_mem (h : ShowsOnly [] cs) : '\n' ∉ cs :=
  h.not_mem (by decide) List.not_mem_nil

theorem ShowsOnly.mono (h : ShowsOnly own cs) (hsub : own ⊆ other) : ShowsOnly other cs :=
  fun c hc => (h c hc).imp_right (@hsub c)

theorem showsOnly_self (cs : List Char) : ShowsOnly cs cs := fun _ hc => .inr hc

@[simp] theorem showsOnly_nil : ShowsOnly own [] := fun _ hc => absurd hc List.not_mem_nil

@[simp] theorem showsOnly_cons :
    ShowsOnly own (c :: cs) ↔ (isVisible c = true ∨ c ∈ own) ∧ ShowsOnly own cs :=
  List.forall_mem_cons

@[simp] theorem showsOnly_append :
    ShowsOnly own (cs ++ ds) ↔ ShowsOnly own cs ∧ ShowsOnly own ds :=
  List.forall_mem_append

/-- A text of visible characters alone. -/
theorem showsOnly_of_all (h : cs.all isVisible = true) : ShowsOnly own cs :=
  fun c hc => .inl (List.all_eq_true.mp h c hc)

theorem isVisible_of_isDigit (h : c.isDigit = true) : isVisible c = true := by
  simp only [Char.isDigit, Bool.and_eq_true, decide_eq_true_eq] at h
  simp only [isVisible, Bool.and_eq_true, decide_eq_true_eq, Char.le_def]
  exact ⟨UInt32.le_trans (by decide) h.1, UInt32.le_trans h.2 (by decide)⟩

@[simp] theorem showsOnly_natChars (n : Nat) : ShowsOnly own (Decimal.natChars n) :=
  fun _ hc => .inl (isVisible_of_isDigit (Decimal.isDigit_of_mem_natChars hc))

@[simp] theorem showsOnly_fill (width length : Nat) : ShowsOnly own (Text.fill width length) := by
  intro c hc
  rw [List.eq_of_mem_replicate hc]
  exact .inl rfl

@[simp] theorem showsOnly_alignLeft {width : Nat} :
    ShowsOnly own (Text.alignLeft width cs) ↔ ShowsOnly own cs := by
  rw [Text.alignLeft, showsOnly_append, and_iff_left (showsOnly_fill _ _)]

@[simp] theorem showsOnly_alignRight {width : Nat} :
    ShowsOnly own (Text.alignRight width cs) ↔ ShowsOnly own cs := by
  rw [Text.alignRight, showsOnly_append, and_iff_right (showsOnly_fill _ _)]

@[simp] theorem showsOnly_scoreText (score : Float) : ShowsOnly own (scoreText score) := by
  intro c hc
  have hfixed := Decimal.isFixedChar_of_mem hc
  rw [Decimal.isFixedChar, Bool.or_eq_true] at hfixed
  rcases hfixed with hdigit | hother
  · exact .inl (isVisible_of_isDigit hdigit)
  · exact .inl (List.all_eq_true.mp (by decide : "-.Nainf".toList.all isVisible = true) c
      (List.contains_iff_mem.mp hother))

@[simp] theorem showsOnly_toDigits (n : Nat) : ShowsOnly own (Nat.toDigits 10 n) :=
  showsOnly_natChars n

@[simp] theorem showsOnly_intRepr (i : Int) : ShowsOnly own i.repr.toList := by
  cases i with
  | ofNat n => simp [Int.repr]
  | negSucc n => simp [Int.repr, isVisible]

@[simp] theorem showsOnly_code (mark : Mark) : ShowsOnly own mark.code.toList :=
  showsOnly_of_all (by cases mark <;> decide)

@[simp] theorem showsOnly_noun (phase : Phase) : ShowsOnly own phase.noun.toList :=
  showsOnly_of_all (by cases phase <;> decide)

/-- A label and what stands after it. -/
def labelled (label : String) (cs : List Char) : List Char := label.toList ++ cs

@[simp] theorem showsOnly_labelled {label : String} :
    ShowsOnly own (labelled label cs) ↔ ShowsOnly own label.toList ∧ ShowsOnly own cs :=
  showsOnly_append

/-! ## The header -/

/-- The title, as it is read without colours. -/
def titleChars (cases : Nat) : List Char :=
  Layout.bar ++ " Running ".toList ++ Decimal.natChars cases ++ " tests ".toList ++ Layout.bar

/-- The headings of the columns, as they are read without colours. -/
def headingChars (layout : Layout) : List Char :=
  labelled "Idx  " (Text.alignLeft layout.nameWidth "Name".toList ++ ' ' ::
    (Text.alignRight 7 "Size".toList ++ "   Compression   Decompression ".toList))

theorem renderChars_header (layout : Layout) (cases : Nat) :
    renderChars false (layout.header cases) = titleChars cases ++ '\n' :: headingChars layout := by
  simp [renderChars, Layout.header, titleChars, headingChars, labelled, colored, lineBreak, plain]

theorem showsOnly_titleChars (cases : Nat) : ShowsOnly own (titleChars cases) := by
  simp [titleChars, Layout.bar, isVisible]

theorem showsOnly_headingChars (layout : Layout) : ShowsOnly own (headingChars layout) := by
  simp [headingChars, isVisible]

/-! ## Lines -/

/-- The text of the reason of a presentation error. -/
def reasonChars : Verdict → List Char
  | .presentationError _ defect => defect.message.toList
  | _ => []

/-- What a line takes over from an outcome: the name, and the reason of a presentation error. -/
def ownChars (outcome : Outcome) : List Char :=
  outcome.name.toList ++ reasonChars outcome.verdict

@[simp] theorem showsOnly_columnChars (size : Nat) : ShowsOnly own (columnChars size) := by
  simp [columnChars, isVisible]

@[simp] theorem showsOnly_compressionColumn? (size? : Option Nat) :
    ShowsOnly own (renderChars false (Layout.compressionColumn? size?)) := by
  cases size? with
  | none => exact showsOnly_nil
  | some size =>
    rw [Layout.compressionColumn?, renderChars_compressionColumn]
    exact showsOnly_columnChars size

@[simp] theorem showsOnly_exitMessage (exitCode : Option Int) :
    ShowsOnly own (Layout.exitMessage exitCode).toList := by
  cases exitCode with
  | none => simp [Layout.exitMessage, isVisible]
  | some code => simp [Layout.exitMessage, isVisible]

/-- The text for a defect repeats the message of the defect or is made of visible characters. -/
theorem showsOnly_defectMessage (stage : Stage) {defect : Defect}
    (hown : ShowsOnly own defect.message.toList) :
    ShowsOnly own (Layout.defectMessage stage defect).toList := by
  -- each case names its text, since the equations of `defectMessage` evaluate all texts
  cases stage with
  | input =>
    cases defect with
    | invalidBase64 => exact showsOnly_of_all (by decide)
    | tooLarge size =>
      show ShowsOnly own ("original input too large (" ++ toString size ++ ")").toList
      simp [isVisible]
    | unreadableFile message =>
      show ShowsOnly own (Defect.unreadableFile message).message.toList
      exact hown
    | missingPayload => exact showsOnly_of_all (by decide)
  | output phase =>
    cases defect with
    | invalidBase64 =>
      show ShowsOnly own ("invalid base64 (" ++ phase.noun ++ " output)").toList
      simp [isVisible]
    | tooLarge size =>
      show ShowsOnly own ("too big output (" ++ toString size ++ ")").toList
      simp [isVisible]
    | unreadableFile message =>
      show ShowsOnly own
        ((Defect.unreadableFile message).message ++ " (" ++ phase.noun ++ " output)").toList
      simp [isVisible, hown]
    | missingPayload =>
      show ShowsOnly own (Defect.missingPayload.message ++ " (" ++ phase.noun ++ " output)").toList
      simp [isVisible, hown]

/-- A code with a message, as it is read without colours. -/
theorem renderChars_markMessage (mark : Mark) (message : String) :
    renderChars false [markMessage mark message] =
      mark.code.toList ++ ' ' :: message.toList := by
  simp [renderChars]

theorem showsOnly_markMessage (mark : Mark) {message : String}
    (h : ShowsOnly own message.toList) :
    ShowsOnly own (renderChars false [markMessage mark message]) := by
  rw [renderChars_markMessage]
  simp [isVisible, h]

theorem showsOnly_failureIn (phase : Phase) (size? : Option Nat) (mark : Mark) {message : String}
    (h : ShowsOnly own message.toList) :
    ShowsOnly own (renderChars false
      (Layout.failureIn phase size? (markMessage mark message))) := by
  cases phase with
  | compress => exact showsOnly_markMessage mark h
  | decompress =>
    rw [Layout.failureIn, renderChars_append, showsOnly_append]
    exact ⟨showsOnly_compressionColumn? size?, showsOnly_markMessage mark h⟩

theorem showsOnly_phaseColumns (size? : Option Nat) (verdict : Verdict) :
    ShowsOnly (reasonChars verdict) (renderChars false (Layout.phaseColumns size? verdict)) := by
  cases verdict with
  | success size score =>
    rw [Layout.phaseColumns, renderChars_append, renderChars_compressionColumn, showsOnly_append]
    refine ⟨showsOnly_columnChars size, ?_⟩
    simp [renderChars, colored, plain, isVisible]
  | timeLimitExceeded phase =>
    exact showsOnly_failureIn phase size? .timeLimit (by simp [isVisible])
  | runtimeError phase exitCode =>
    exact showsOnly_failureIn phase size? .runtimeError (by simp [isVisible])
  | presentationError stage defect =>
    exact showsOnly_markMessage .presentationError
      (showsOnly_defectMessage stage (showsOnly_self defect.message.toList))
  | wrongAnswer =>
    rw [Layout.phaseColumns, renderChars_append, showsOnly_append]
    exact ⟨showsOnly_compressionColumn? size?,
      showsOnly_markMessage .wrongAnswer (by simp [isVisible])⟩

/-- **The characters of a line.** Besides visible characters it has those of the name, and those of
the reason of a presentation error. -/
theorem showsOnly_line (layout : Layout) (outcome : Outcome) :
    ShowsOnly (ownChars outcome) (renderChars false (layout.line outcome)) := by
  have hcase : ShowsOnly (ownChars outcome) (renderChars false (layout.caseColumns outcome)) := by
    have hname : ShowsOnly (ownChars outcome) outcome.name.toList :=
      (showsOnly_self _).mono (List.subset_append_left _ _)
    cases hsize : outcome.inputSize? <;>
      simp [renderChars, Layout.caseColumns, numberColumn, colored, plain, isVisible, hsize, hname]
  rw [Layout.line, renderChars_append, showsOnly_append]
  exact ⟨hcase, (showsOnly_phaseColumns _ _).mono (List.subset_append_right _ _)⟩

/-! ## The summary -/

/-- The entry of a mark in the list of failures, as it is read without colours. -/
def entryChars (entry : Mark × Nat) : List Char :=
  ' ' :: (entry.1.code.toList ++ ' ' :: 'x' :: Decimal.natChars entry.2)

/-- The line that counts failures, as it is read without colours. -/
def failuresChars (entries : List (Mark × Nat)) : List Char :=
  labelled "Failures:      " (' ' :: ", ".toList.intercalate (entries.map entryChars))

/-- The line that counts the cases that passed, as it is read without colours. -/
def passedChars (summary : Summary) : List Char :=
  labelled "Passed tests:   "
    (Decimal.natChars summary.passed ++ '/' :: Decimal.natChars summary.total)

/-- The line of the average, as it is read without colours. -/
def averageChars (summary : Summary) : List Char :=
  labelled "Average points: " (scoreText summary.averageScore)

/-- The line of the sum, as it is read without colours. -/
def totalChars (summary : Summary) : List Char :=
  labelled "Total points:   " (scoreText summary.totalScore)

/-- The lines of a summary. That of the failures is there unless all cases passed. -/
def summaryLines (outcomes : List Outcome) (summary : Summary) : List (List Char) :=
  (if summary.allPassed then [] else [failuresChars (failureCounts outcomes)]) ++
    [passedChars summary, averageChars summary, totalChars summary]

theorem renderChars_joinEntries (entries : List StyledText) :
    renderChars false (joinEntries entries) =
      ", ".toList.intercalate (entries.map (renderChars false)) := by
  fun_induction joinEntries entries with
  | case1 => rfl
  | case2 entry => simp
  | case3 entry next rest ih =>
    rw [renderChars_append, renderChars_cons, ih]
    simp [plain]

theorem renderChars_failureEntry (entry : Mark × Nat) :
    renderChars false (failureEntry entry.1 entry.2) = entryChars entry := by
  simp [renderChars, failureEntry, icon, entryChars]

theorem renderChars_failuresLine (outcomes : List Outcome) :
    renderChars false (failuresLine outcomes) = failuresChars (failureCounts outcomes) := by
  have hentries : (failureCounts outcomes).map
        (renderChars false ∘ fun entry => failureEntry entry.1 entry.2) =
      (failureCounts outcomes).map entryChars :=
    List.map_congr_left fun entry _ => renderChars_failureEntry entry
  rw [failuresLine, renderChars_cons, renderChars_cons, renderChars_joinEntries, List.map_map,
    hentries, Piece.render_false, Piece.render_false]
  rfl

/-- A summary is its lines, with line breaks between them. -/
theorem renderChars_summaryText (outcomes : List Outcome) (summary : Summary) :
    renderChars false (summaryText outcomes summary) =
      Text.join '\n' (summaryLines outcomes summary) := by
  have hbreak : lineBreak.chars = ['\n'] := rfl
  rw [summaryText, summaryLines, renderChars_append]
  cases summary.allPassed with
  | true =>
    simp only [if_true, renderChars_cons, renderChars_nil, Piece.render_false, hbreak, colored,
      passedChars, averageChars, totalChars, labelled, Text.join, List.nil_append,
      List.append_assoc, List.cons_append, List.append_nil]
  | false =>
    simp only [Bool.false_eq_true, if_false, renderChars_append, renderChars_failuresLine,
      renderChars_cons, renderChars_nil, Piece.render_false, hbreak, colored, passedChars,
      averageChars, totalChars, labelled, Text.join, List.nil_append, List.append_assoc,
      List.cons_append, List.append_nil]

theorem showsOnly_entryChars (entry : Mark × Nat) : ShowsOnly own (entryChars entry) := by
  simp [entryChars, isVisible]

/-- What is put between texts and what they have in common is all that joined texts have. -/
theorem showsOnly_intercalate {separator : List Char} {pieces : List (List Char)}
    (hseparator : ShowsOnly own separator) (hpieces : ∀ piece ∈ pieces, ShowsOnly own piece) :
    ShowsOnly own (separator.intercalate pieces) := by
  induction pieces with
  | nil => exact showsOnly_nil
  | cons piece rest ih =>
    obtain ⟨hpiece, hrest⟩ := List.forall_mem_cons.mp hpieces
    cases rest with
    | nil => simpa using hpiece
    | cons next rest =>
      rw [List.intercalate_cons_cons, showsOnly_append, showsOnly_append]
      exact ⟨⟨hpiece, hseparator⟩, ih hrest⟩

theorem showsOnly_join {separator : Char} {pieces : List (List Char)} (hseparator : separator ∈ own)
    (hpieces : ∀ piece ∈ pieces, ShowsOnly own piece) :
    ShowsOnly own (Text.join separator pieces) := by
  fun_induction Text.join separator pieces with
  | case1 => exact showsOnly_nil
  | case2 piece => exact hpieces piece List.mem_cons_self
  | case3 piece next rest ih =>
    obtain ⟨hpiece, hrest⟩ := List.forall_mem_cons.mp hpieces
    rw [showsOnly_append, showsOnly_cons]
    exact ⟨hpiece, .inr hseparator, ih hrest⟩

theorem showsOnly_failuresChars (entries : List (Mark × Nat)) :
    ShowsOnly own (failuresChars entries) := by
  have hentries : ShowsOnly own (", ".toList.intercalate (entries.map entryChars)) := by
    refine showsOnly_intercalate (showsOnly_of_all (by decide)) fun piece hpiece => ?_
    obtain ⟨entry, -, rfl⟩ := List.mem_map.mp hpiece
    exact showsOnly_entryChars entry
  rw [failuresChars, showsOnly_labelled, showsOnly_cons]
  exact ⟨showsOnly_of_all (by decide), .inl rfl, hentries⟩

/-- The lines of a summary take nothing over. -/
theorem showsOnly_of_mem_summaryLines {outcomes : List Outcome} {summary : Summary}
    (h : cs ∈ summaryLines outcomes summary) : ShowsOnly own cs := by
  rcases List.mem_append.mp h with hfailures | hnumbers
  · split at hfailures
    · exact absurd hfailures List.not_mem_nil
    · rw [List.mem_singleton.mp hfailures]
      exact showsOnly_failuresChars _
  · simp only [List.mem_cons, List.not_mem_nil, or_false] at hnumbers
    rcases hnumbers with rfl | rfl | rfl
    · simp [passedChars, isVisible]
    · simp [averageChars, isVisible]
    · simp [totalChars, isVisible]

theorem showsOnly_summaryText (outcomes : List Outcome) (summary : Summary) :
    ShowsOnly ['\n'] (renderChars false (summaryText outcomes summary)) := by
  rw [renderChars_summaryText]
  exact showsOnly_join (List.mem_singleton_self _) fun _ => showsOnly_of_mem_summaryLines

/-! ## The whole report -/

theorem showsOnly_header (layout : Layout) (cases : Nat) :
    ShowsOnly ['\n'] (renderChars false (layout.header cases)) := by
  rw [renderChars_header, showsOnly_append, showsOnly_cons]
  exact ⟨showsOnly_titleChars cases, .inr (List.mem_singleton_self _),
    showsOnly_headingChars layout⟩

/-- **The characters of all that follows the header.** Besides visible characters and line breaks it
has what the lines take over. -/
theorem showsOnly_resultText (layout : Layout) (outcomes : List Outcome) (summary : Summary) :
    ShowsOnly ('\n' :: outcomes.flatMap ownChars)
      (renderChars false (resultText layout outcomes summary)) := by
  have hbreak : ['\n'] ⊆ '\n' :: outcomes.flatMap ownChars :=
    List.cons_subset_cons _ (List.nil_subset _)
  have hsummary := (showsOnly_summaryText outcomes summary).mono hbreak
  rw [renderChars_resultText, showsOnly_append, showsOnly_append]
  refine ⟨⟨fun c hc => ?_, hsummary⟩, (showsOnly_self _).mono hbreak⟩
  obtain ⟨outcome, houtcome, hc⟩ := List.mem_flatMap.mp hc
  rcases List.mem_append.mp hc with hline | hend
  · rcases showsOnly_line layout outcome c hline with hvisible | hown
    · exact .inl hvisible
    · exact .inr (List.mem_cons_of_mem _ (List.mem_flatMap.mpr ⟨outcome, houtcome, hown⟩))
  · exact .inr (hbreak hend)

end CompressorBench.Report
