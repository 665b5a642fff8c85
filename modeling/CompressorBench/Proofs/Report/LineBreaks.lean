import CompressorBench.Proofs.Report.Breakdown
import CompressorBench.Proofs.Report.Colors
import CompressorBench.Proofs.Report.Columns

/-!
# Line breaks

What follows the header has a line break after every line and a few in the summary. A line has no
others but those that it takes over from its outcome, and colours neither add one nor take one away.

* `count_renderChars`: colours leave the line breaks alone.
* `count_line`: the line breaks of a line.
* `count_resultText`: the line breaks of all that follows the header.
* `getElem?_split_resultText`: where a line is, as long as no line before it is broken.
-/

namespace CompressorBench.Text

variable {separator : Char}

/-! ## Pieces -/

theorem length_splitFrom (separator : Char) (piece cs : List Char) :
    (splitFrom separator piece cs).length = cs.count separator + 1 := by
  induction cs generalizing piece with
  | nil => rfl
  | cons c rest ih =>
    rw [splitFrom, List.count_cons]
    split
    · next h => rw [List.length_cons, ih, h, beq_self_eq_true, if_pos rfl]
    · next h => rw [ih, beq_false_of_ne h, if_neg Bool.false_ne_true, Nat.add_zero]

/-- There is one more piece than there are separators. -/
theorem length_split (separator : Char) (cs : List Char) :
    (split separator cs).length = cs.count separator + 1 :=
  length_splitFrom separator [] cs

/-- Texts with a separator after each are pieces, up to the first that is itself cut. -/
theorem getElem?_split_flatMap {α : Type} {text : α → List Char} {items : List α} {item : α}
    {i : Nat} (hitem : items[i]? = some item)
    (hitems : ∀ item ∈ items.take (i + 1), separator ∉ text item) (rest : List Char) :
    (split separator ((items.flatMap fun item => text item ++ [separator]) ++ rest))[i]? =
      some (text item) := by
  induction items generalizing i with
  | nil => cases hitem
  | cons first items ih =>
    rw [List.take_succ_cons, List.forall_mem_cons] at hitems
    rw [List.flatMap_cons, List.append_assoc, List.append_assoc, List.singleton_append,
      split_append, split_of_not_mem hitems.1, List.singleton_append]
    cases i with
    | zero => exact congrArg (some ∘ text) (Option.some.inj hitem)
    | succ i =>
      rw [List.getElem?_cons_succ] at hitem ⊢
      exact ih hitem hitems.2

end CompressorBench.Text

namespace CompressorBench.Report

variable {insertion cs : List Char} {outcomes : List Outcome} {outcome : Outcome}

theorem ShowsOnly.count_eq_zero (h : ShowsOnly [] cs) : cs.count '\n' = 0 :=
  List.count_eq_zero.mpr h.lineFeed_not_mem

/-! ## Colours -/

theorem count_sequence (codes : List Nat) : (sequence codes).count '\n' = 0 := by
  refine List.count_eq_zero.mpr fun h => ?_
  simp only [sequence, escape, List.mem_cons, List.mem_append, List.not_mem_nil, or_false] at h
  rcases h with h | h | h | h
  · exact absurd h (by decide)
  · exact absurd h (by decide)
  · exact absurd (isCode_of_mem_codesChars h) (by decide)
  · exact absurd h (by decide)

theorem count_afterResets (h : insertion.count '\n' = 0) (cs : List Char) :
    (afterResets insertion cs).count '\n' = cs.count '\n' := by
  fun_induction afterResets insertion cs with
  | case1 => rfl
  | case2 c rest hreset ih =>
    obtain ⟨behind, hbehind⟩ := List.isPrefixOf_iff_prefix.mp hreset
    have hdrop : rest.drop (reset.length - 1) = behind := by
      rw [show reset = escape :: reset.tail from rfl, List.cons_append] at hbehind
      rw [← (List.cons.inj hbehind).2]
      rfl
    rw [List.count_append, List.count_append, ih, hdrop, ← hbehind, List.count_append, h,
      Nat.add_zero]
  | case3 c rest _ ih => rw [List.count_cons, List.count_cons, ih]

theorem Piece.count_render (colors : Bool) (piece : Piece) :
    (piece.render colors).count '\n' = piece.chars.count '\n' := by
  simp only [Piece.render]
  split
  · have hreset : reset.count '\n' = 0 := count_sequence [0]
    rw [List.count_append, List.count_append, count_afterResets (count_sequence _),
      count_sequence, hreset, Nat.zero_add, Nat.add_zero]
  · rfl

/-- **Colours leave the line breaks alone.** -/
theorem count_renderChars (colors : Bool) (text : StyledText) :
    (renderChars colors text).count '\n' = (renderChars false text).count '\n' := by
  induction text with
  | nil => rfl
  | cons piece text ih =>
    simp only [renderChars_cons, List.count_append, Piece.count_render, ih]

/-! ## Lines -/

/-- The text for a defect has the line breaks of the message of the defect. -/
theorem count_defectMessage (stage : Stage) (defect : Defect) :
    (Layout.defectMessage stage defect).toList.count '\n' = defect.message.toList.count '\n' := by
  by_cases htame : ShowsOnly [] defect.message.toList
  · rw [(showsOnly_defectMessage stage htame).count_eq_zero, htame.count_eq_zero]
  -- the message of a file that cannot be read is the only one that may hold a line break
  cases defect with
  | invalidBase64 => exact absurd (showsOnly_of_all (by decide)) htame
  | tooLarge size =>
    refine absurd ?_ htame
    show ShowsOnly [] ("too large (" ++ toString size ++ ")").toList
    simp [isVisible]
  | missingPayload => exact absurd (showsOnly_of_all (by decide)) htame
  | unreadableFile message =>
    cases stage with
    | input => rfl
    | output phase =>
      have hnoun : ShowsOnly [] (" (" ++ phase.noun ++ " output)").toList := by simp [isVisible]
      show ((Defect.unreadableFile message).message ++ " (" ++ phase.noun ++
        " output)").toList.count '\n' = _
      rw [String.append_assoc, String.append_assoc, String.toList_append, List.count_append,
        ← String.append_assoc, hnoun.count_eq_zero, Nat.add_zero]

theorem count_columnsOf (outcome : Outcome) :
    (columnsOf outcome).count '\n' = (reasonChars outcome.verdict).count '\n' := by
  have hcolumns := showsOnly_phaseColumns outcome.compressedSize? outcome.verdict
  rw [columnsOf]
  cases hverdict : outcome.verdict with
  | presentationError stage defect =>
    have hcode : ShowsOnly [] (Mark.presentationError.code.toList ++ [' ']) := by
      simp [isVisible]
    rw [Layout.phaseColumns, renderChars_markMessage, ← List.singleton_append,
      ← List.append_assoc, List.count_append, hcode.count_eq_zero, Nat.zero_add,
      count_defectMessage, reasonChars]
  | _ =>
    rw [hverdict] at hcolumns
    exact hcolumns.count_eq_zero

theorem count_caseChars (layout : Layout) (outcome : Outcome) :
    (caseChars layout outcome).count '\n' = outcome.name.toList.count '\n' := by
  have hindex : ShowsOnly [] (Text.alignRight 4 (Decimal.natChars outcome.index)) := by simp
  have hfill : ShowsOnly [] (Text.fill layout.nameWidth outcome.name.toList.length) :=
    showsOnly_fill _ _
  have hsize : ShowsOnly [] (' ' :: (Text.alignRight 7 (sizeChars outcome.inputSize?) ++
      "   ".toList)) := by
    cases outcome.inputSize? <;> simp [sizeChars, isVisible]
  rw [caseChars, List.count_append, hindex.count_eq_zero, List.count_cons_of_ne (by decide),
    List.count_append, hsize.count_eq_zero, Text.alignLeft, List.count_append,
    hfill.count_eq_zero, Nat.zero_add, Nat.add_zero]

/-- **A line has the line breaks that it takes over.** -/
theorem count_line (colors : Bool) (layout : Layout) (outcome : Outcome) :
    (renderChars colors (layout.line outcome)).count '\n' = (ownChars outcome).count '\n' := by
  rw [count_renderChars, renderChars_line, List.count_append, count_caseChars, count_columnsOf,
    ownChars, List.count_append]

theorem lineFeed_not_mem_line_iff {colors : Bool} {layout : Layout} :
    '\n' ∉ renderChars colors (layout.line outcome) ↔ '\n' ∉ ownChars outcome := by
  rw [← List.count_eq_zero, count_line, List.count_eq_zero]

/-! ## All that follows the header -/

/-- A summary has a line break between two lines, and a line more if there are failures. -/
theorem count_summaryText (colors : Bool) (outcomes : List Outcome) (summary : Summary) :
    (renderChars colors (summaryText outcomes summary)).count '\n' =
      if summary.allPassed then 2 else 3 := by
  have hlines := split_summaryText outcomes summary
  rw [render, String.toList_ofList] at hlines
  have hlength := congrArg List.length hlines
  rw [Text.length_split, ← count_renderChars colors, summaryLines] at hlength
  cases hpassed : summary.allPassed <;> rw [hpassed] at hlength <;> exact Nat.succ.inj hlength

/-- **The line breaks of all that follows the header**: one after each line, those of the summary,
and those that the lines take over. -/
theorem count_resultText (colors : Bool) (layout : Layout) (outcomes : List Outcome)
    (summary : Summary) :
    (renderChars colors (resultText layout outcomes summary)).count '\n' =
      outcomes.length + (if summary.allPassed then 3 else 4) +
        (outcomes.map fun outcome => (ownChars outcome).count '\n').sum := by
  have hlines : (outcomes.flatMap fun outcome =>
      renderChars colors (layout.line outcome) ++ ['\n']).count '\n' =
        outcomes.length + (outcomes.map fun outcome => (ownChars outcome).count '\n').sum := by
    induction outcomes with
    | nil => rfl
    | cons outcome rest ih =>
      rw [List.flatMap_cons, List.count_append, List.count_append, count_line, ih,
        List.count_singleton_self, List.length_cons, List.map_cons, List.sum_cons]
      omega
  rw [renderChars_resultText, List.count_append, List.count_append, hlines, count_summaryText,
    List.count_singleton_self]
  split <;> omega

/-- Whatever the summary is, what follows the header ends with a line break. -/
theorem getLast?_resultText (colors : Bool) (layout : Layout) (outcomes : List Outcome)
    (summary : Summary) :
    (renderChars colors (resultText layout outcomes summary)).getLast? = some '\n' := by
  rw [renderChars_resultText, List.getLast?_concat]

/-- **A line stands at its place** as long as neither it nor any line before it is broken. -/
theorem getElem?_split_resultText (colors : Bool) (layout : Layout) (summary : Summary) {i : Nat}
    (houtcome : outcomes[i]? = some outcome)
    (hunbroken : ∀ outcome ∈ outcomes.take (i + 1), '\n' ∉ ownChars outcome) :
    (Text.split '\n' (renderChars colors (resultText layout outcomes summary)))[i]? =
      some (renderChars colors (layout.line outcome)) := by
  rw [renderChars_resultText, List.append_assoc]
  refine Text.getElem?_split_flatMap houtcome (fun outcome hmem => ?_) _
  exact lineFeed_not_mem_line_iff.mpr (hunbroken outcome hmem)

end CompressorBench.Report
