import CompressorBench.Proofs.Report.Characters

/-!
# Columns that line up

The header and the lines are built apart, and their columns have the same widths as long as nothing
is wider than its column. Widths count code points.

* `nameWidth_le_iff`: the name column is as wide as the longest name, and not narrower than its
  heading.
* `standsOnlyAt_compression`, `standsOnlyAt_decompression`: where the headings of the phases are.
* `columns_line_up`: where the columns of an outcome are.
-/

namespace CompressorBench.Report

variable {layout : Layout} {outcome : Outcome} {before after word : List Char} {c : Char}

/-! ## The name column -/

theorem foldl_max_length_le_iff (names : List String) (start bound : Nat) :
    names.foldl (fun width name => max width name.length) start ≤ bound ↔
      start ≤ bound ∧ ∀ name ∈ names, name.length ≤ bound := by
  induction names generalizing start with
  | nil => simp
  | cons name names ih => rw [List.foldl_cons, ih, Nat.max_le, List.forall_mem_cons, and_assoc]

/-- **The name column is as wide as the longest name**, and not narrower than four. -/
theorem nameWidth_le_iff {names : List String} {bound : Nat} :
    (Layout.ofNames names).nameWidth ≤ bound ↔ 4 ≤ bound ∧ ∀ name ∈ names, name.length ≤ bound :=
  foldl_max_length_le_iff names minNameWidth bound

theorem four_le_nameWidth (names : List String) : 4 ≤ (Layout.ofNames names).nameWidth :=
  (nameWidth_le_iff.mp le_rfl).1

theorem length_le_nameWidth {names : List String} {name : String} (h : name ∈ names) :
    name.length ≤ (Layout.ofNames names).nameWidth :=
  (nameWidth_le_iff.mp le_rfl).2 name h

/-! ## The header -/

/-- A word stands at one place of a line and nowhere else. -/
def StandsOnlyAt (word line : List Char) (offset : Nat) : Prop :=
  ∀ n, word <+: line.drop n ↔ n = offset

/-- A word stands where the only occurrence of its first character is. -/
theorem standsOnlyAt_append (hbefore : c ∉ before) (hafter : c ∉ word ++ after) :
    StandsOnlyAt (c :: word) (before ++ (c :: word ++ after)) before.length := by
  intro n
  constructor
  · rintro ⟨rest, hrest⟩
    have hget : (before ++ (c :: word ++ after))[n]? = some c := by
      rw [← List.head?_drop, ← hrest]
      rfl
    rcases Nat.lt_trichotomy n before.length with hlt | heq | hgt
    · rw [List.getElem?_append_left hlt] at hget
      exact absurd (List.mem_of_getElem? hget) hbefore
    · exact heq
    · obtain ⟨k, rfl⟩ := Nat.exists_eq_add_of_lt hgt
      rw [List.getElem?_append_right (by omega), Nat.add_assoc, Nat.add_sub_cancel_left,
        List.cons_append, List.getElem?_cons_succ] at hget
      exact absurd (List.mem_of_getElem? hget) hafter
  · rintro rfl
    rw [List.drop_left]
    exact List.prefix_append _ _

/-- What stands before the headings of the phases. -/
def headingStart (layout : Layout) : List Char :=
  labelled "Idx  " (Text.alignLeft layout.nameWidth "Name".toList ++ ' ' ::
    (Text.alignRight 7 "Size".toList ++ "   ".toList))

theorem length_headingStart (h : 4 ≤ layout.nameWidth) :
    (headingStart layout).length = layout.nameWidth + 16 := by
  have hname : (Text.alignLeft layout.nameWidth "Name".toList).length = layout.nameWidth := by
    rw [Text.length_alignLeft]
    exact Nat.max_eq_left h
  simp [headingStart, labelled]
  omega

theorem headingChars_eq (layout : Layout) :
    headingChars layout = headingStart layout ++ "Compression   Decompression ".toList := by
  simp [headingChars, headingStart, labelled]

theorem standsOnlyAt_compression (h : 4 ≤ layout.nameWidth) :
    StandsOnlyAt "Compression".toList (headingChars layout) (layout.nameWidth + 16) := by
  have hbefore : 'C' ∉ headingStart layout := by
    simp [headingStart, labelled, Text.alignLeft, Text.alignRight, Text.fill]
  have hafter : 'C' ∉ "ompression".toList ++ "   Decompression ".toList := by decide
  have hstands := standsOnlyAt_append hbefore hafter
  rw [length_headingStart h] at hstands
  rw [headingChars_eq]
  exact hstands

theorem standsOnlyAt_decompression (h : 4 ≤ layout.nameWidth) :
    StandsOnlyAt "Decompression".toList (headingChars layout) (layout.nameWidth + 30) := by
  have hbefore : 'D' ∉ headingStart layout ++ "Compression   ".toList := by
    simp [headingStart, labelled, Text.alignLeft, Text.alignRight, Text.fill]
  have hafter : 'D' ∉ "ecompression".toList ++ " ".toList := by decide
  have hlength : (headingStart layout ++ "Compression   ".toList).length =
      layout.nameWidth + 30 := by
    rw [List.length_append, length_headingStart h]
    rfl
  have hstands := standsOnlyAt_append hbefore hafter
  rw [hlength, List.append_assoc] at hstands
  rw [headingChars_eq]
  exact hstands

/-! ## The lines -/

/-- The size of an input as a line shows it. -/
def sizeChars : Option Nat → List Char
  | some size => Decimal.natChars size
  | none => ['?']

/-- The columns before those of the phases, as they are read without colours. -/
def caseChars (layout : Layout) (outcome : Outcome) : List Char :=
  Text.alignRight 4 (Decimal.natChars outcome.index) ++ ' ' ::
    (Text.alignLeft layout.nameWidth outcome.name.toList ++ ' ' ::
      (Text.alignRight 7 (sizeChars outcome.inputSize?) ++ "   ".toList))

theorem renderChars_line (layout : Layout) (outcome : Outcome) :
    renderChars false (layout.line outcome) = caseChars layout outcome ++ columnsOf outcome := by
  have hcase : renderChars false (layout.caseColumns outcome) = caseChars layout outcome := by
    cases hsize : outcome.inputSize? <;>
      simp [Layout.caseColumns, renderChars, caseChars, sizeChars, numberColumn, colored, plain,
        hsize]
  rw [Layout.line, renderChars_append, hcase, columnsOf]

/-- Nothing is wider than its column. -/
structure Fits (layout : Layout) (outcome : Outcome) : Prop where
  index : outcome.index ≤ 9999
  name : outcome.name.length ≤ layout.nameWidth
  size : ∀ size, outcome.inputSize? = some size → size < 10 ^ 7

theorem length_sizeChars_le {size? : Option Nat} (h : ∀ size, size? = some size → size < 10 ^ 7) :
    (sizeChars size?).length ≤ 7 := by
  cases size? with
  | none => decide
  | some size => exact (Decimal.length_natChars_le_iff (by decide)).mpr (h size rfl)

theorem Fits.length_caseChars (h : Fits layout outcome) :
    (caseChars layout outcome).length = layout.nameWidth + 16 := by
  have hindex : (Decimal.natChars outcome.index).length ≤ 4 :=
    (Decimal.length_natChars_le_iff (by decide)).mpr (Nat.lt_succ_of_le h.index)
  have hname : outcome.name.toList.length ≤ layout.nameWidth := h.name
  have hsize := length_sizeChars_le h.size
  simp only [caseChars, List.length_append, List.length_cons, Text.length_alignLeft,
    Text.length_alignRight, Nat.max_eq_left hindex, Nat.max_eq_left hname, Nat.max_eq_left hsize]
  show 4 + (layout.nameWidth + (7 + 3 + 1) + 1) = layout.nameWidth + 16
  omega

theorem length_columnChars {size : Nat} (h : size < 10 ^ 7) : (columnChars size).length = 14 := by
  have hsize : (Decimal.natChars size).length ≤ 7 :=
    (Decimal.length_natChars_le_iff (by decide)).mpr h
  simp [columnChars, Nat.max_eq_left hsize]

theorem denotes_tenThousand : Decimal.Binary64.Denotes 10000.0 (10 ^ 4) := by
  refine ⟨5497558138880000, -39, by decide +kernel, ?_⟩
  norm_num

theorem length_columnsOf_success {size : Nat} {points : Float}
    (hverdict : outcome.verdict = .success size points) (hsize : size < 10 ^ 7)
    (hnonneg : 0.0 ≤ points) (hlt : points < 10000.0) : (columnsOf outcome).length = 26 := by
  have hpoints : (scoreText points).length ≤ 9 :=
    Decimal.length_fixed_le (by decide) (by decide) denotes_tenThousand hnonneg hlt
  have hcolumns : columnsOf outcome =
      columnChars size ++ ("OK ".toList ++ Text.alignRight 9 (scoreText points)) := by
    rw [columnsOf, hverdict]
    exact renderChars_of_shownAfter .success
  rw [hcolumns, List.length_append, length_columnChars hsize, List.length_append,
    Text.length_alignRight, Nat.max_eq_left hpoints]
  rfl

/-! ## Header and lines -/

/-- The line of an outcome has its columns where the header has the headings. -/
structure LinesUp (layout : Layout) (outcome : Outcome) (line : List Char) : Prop where
  caseColumns : line.take (layout.nameWidth + 16) = caseChars layout outcome
  phaseColumns : line.drop (layout.nameWidth + 16) = columnsOf outcome
  /-- What follows the compression column. -/
  decompression : ∀ size rest, size < 10 ^ 7 → columnsOf outcome = columnChars size ++ rest →
    line.drop (layout.nameWidth + 30) = rest
  /-- All lines of successes have the same length. -/
  length : ∀ size points, outcome.verdict = .success size points → size < 10 ^ 7 →
    0.0 ≤ points → points < 10000.0 → line.length = layout.nameWidth + 42

theorem Fits.linesUp (h : Fits layout outcome) :
    LinesUp layout outcome (render false (layout.line outcome)).toList := by
  have hlength := h.length_caseChars
  rw [render, String.toList_ofList, renderChars_line]
  constructor
  · exact List.take_left' hlength
  · exact List.drop_left' hlength
  · intro size rest hsize hcolumns
    rw [hcolumns, ← List.append_assoc]
    exact List.drop_left' (by rw [List.length_append, hlength, length_columnChars hsize])
  · intro size points hverdict hsize hnonneg hlt
    rw [List.length_append, hlength, length_columnsOf_success hverdict hsize hnonneg hlt]

/-- The header and the lines of a layout have the same columns. -/
structure ColumnsLineUp (outcomes : List Outcome) (layout : Layout) (count : Nat) : Prop where
  nameWidth : ∀ bound, layout.nameWidth ≤ bound ↔
    4 ≤ bound ∧ ∀ outcome ∈ outcomes, outcome.name.length ≤ bound
  header : ∃ title headings,
    Text.split '\n' (render false (layout.header count)).toList = [title, headings] ∧
      StandsOnlyAt "Compression".toList headings (layout.nameWidth + 16) ∧
      StandsOnlyAt "Decompression".toList headings (layout.nameWidth + 30)
  /-- The names of the outcomes have room. -/
  fits : ∀ outcome ∈ outcomes, outcome.index ≤ 9999 →
    (∀ size, outcome.inputSize? = some size → size < 10 ^ 7) → Fits layout outcome
  line : ∀ outcome, Fits layout outcome →
    LinesUp layout outcome (render false (layout.line outcome)).toList

theorem split_header (layout : Layout) (count : Nat) :
    Text.split '\n' (render false (layout.header count)).toList =
      [titleChars count, headingChars layout] := by
  have htitle : '\n' ∉ titleChars count := (showsOnly_titleChars count).lineFeed_not_mem
  have hheadings : '\n' ∉ headingChars layout :=
    (showsOnly_headingChars layout).lineFeed_not_mem
  rw [render, String.toList_ofList, renderChars_header, Text.split_append,
    Text.split_of_not_mem htitle, Text.split_of_not_mem hheadings, List.singleton_append]

/-- **Columns line up.** The name column has room for the names of all outcomes. Where the header
has the heading of the compression, the lines of all outcomes with a place of four digits and a size
of seven have the columns of the phases, behind the index, the name and the size at the right and
the left of their columns. If such a line has a compression column with a size of seven digits, then
what follows stands where the header has the heading of the decompression. All lines of successes
with a score below ten thousand have the same length. -/
theorem columns_line_up (outcomes : List Outcome) (count : Nat) :
    ColumnsLineUp outcomes (Layout.ofNames (outcomes.map Outcome.name)) count := by
  have hwidth := four_le_nameWidth (outcomes.map Outcome.name)
  refine ⟨fun bound => ?_, ?_, fun outcome houtcome hindex hsize => ?_, fun _ => Fits.linesUp⟩
  · rw [nameWidth_le_iff, List.forall_mem_map]
  · exact ⟨_, _, split_header _ count, standsOnlyAt_compression hwidth,
      standsOnlyAt_decompression hwidth⟩
  · exact ⟨hindex, length_le_nameWidth (List.mem_map_of_mem houtcome), hsize⟩

/-- A success with a name of seven characters and of more bytes. -/
def successOfLongName : Outcome := ⟨12, "日本語.txt", some 3, some 3, .success 3 1000.0, .zero⟩

theorem length_line_successOfLongName :
    (render false
      ((Layout.ofNames [successOfLongName.name]).line successOfLongName)).toList.length =
        7 + 42 := by
  have hcolumns := columns_line_up [successOfLongName] 1
  have hsize : ∀ size, successOfLongName.inputSize? = some size → size < 10 ^ 7 := by
    intro size h
    cases h
    decide
  have hfits := hcolumns.fits _ (List.mem_singleton_self _) (by decide) hsize
  exact (hcolumns.line _ hfits).length 3 1000.0 rfl (by decide) (by decide +kernel)
    (by decide +kernel)

end CompressorBench.Report
