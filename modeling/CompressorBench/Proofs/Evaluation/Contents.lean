import CompressorBench.Proofs.Base64.Grammar
import CompressorBench.Proofs.Evaluation.Coherence
import CompressorBench.Proofs.Evaluation.Points
import CompressorBench.Text.Split

/-!
# What a case file says

A text is cut into maximal runs of characters that are not blank. A case is made of the second run
and of nothing else in the text: the run in front of it, the blanks around it and all that follows
may be anything. What an accepted case holds is never empty, so a score is never asked for that
would divide nothing by nothing.

* `runs_iff`: cutting into words finds the maximal runs, and they are told by what they are.
* `ofContents_second_run`: the second run decides.
-/

namespace CompressorBench

namespace Text

/-! ## Maximal runs -/

/-- **The maximal runs of characters that are not blank**, in order. Blanks may stand in front of a
run, and the character behind it, if there is one, is blank. -/
inductive Runs : List Char → List (List Char) → Prop where
  | none {blanks : List Char} (hblanks : ∀ c ∈ blanks, isBlank c = true) : Runs blanks []
  | run {blanks run rest : List Char} {runs : List (List Char)}
      (hblanks : ∀ c ∈ blanks, isBlank c = true) (hne : run ≠ [])
      (hrun : ∀ c ∈ run, isBlank c = false) (hend : ∀ c, rest.head? = some c → isBlank c = true)
      (hrest : Runs rest runs) :
      Runs (blanks ++ (run ++ rest)) (run :: runs)

theorem skipBlanks_of_blanks {cs : List Char} (h : ∀ c ∈ cs, isBlank c = true) :
    skipBlanks cs = [] :=
  List.dropWhile_eq_nil_iff.mpr h

theorem skipBlanks_append {blanks : List Char} (h : ∀ c ∈ blanks, isBlank c = true)
    (cs : List Char) : skipBlanks (blanks ++ cs) = skipBlanks cs :=
  List.dropWhile_append_of_pos h

/-- A run is taken as a whole, and nothing behind it. -/
theorem firstWord_append {run rest : List Char} (hrun : ∀ c ∈ run, isBlank c = false)
    (hend : ∀ c, rest.head? = some c → isBlank c = true) :
    firstWord (run ++ rest) = run ∧ afterWord (run ++ rest) = rest := by
  refine takeWhile_append_of_head? ?_ ?_
  · intro c hc
    rw [hrun c hc]
    rfl
  · intro c hc
    rw [hend c hc]
    rfl

/-- What is left behind the first word starts with a blank. -/
theorem isBlank_of_head?_afterWord {cs : List Char} {c : Char}
    (h : (afterWord cs).head? = some c) : isBlank c = true := by
  have := List.head?_dropWhile_not (fun c => !isBlank c) cs
  unfold afterWord at h
  rw [h] at this
  simpa using this

theorem words_of_runs {cs : List Char} {runs : List (List Char)} (h : Runs cs runs) :
    words cs = runs := by
  induction h with
  | none hblanks => exact words_of_skipBlanks_nil (skipBlanks_of_blanks hblanks)
  | @run blanks run rest runs hblanks hne hrun hend hrest ih =>
    obtain ⟨hword, hafter⟩ := firstWord_append hrun hend
    obtain ⟨c, tail, rfl⟩ := List.exists_cons_of_ne_nil hne
    have hc : isBlank c = false := hrun c List.mem_cons_self
    have hskip : skipBlanks (blanks ++ (c :: tail ++ rest)) = c :: (tail ++ rest) := by
      rw [skipBlanks_append hblanks]
      exact List.dropWhile_cons_of_neg (by simp [hc])
    rw [words_of_skipBlanks_cons hskip]
    rw [List.cons_append] at hword hafter
    rw [hword, hafter, ih]

theorem runs_words (cs : List Char) : Runs cs (words cs) := by
  fun_induction words cs with
  | case1 cs hskip =>
    exact .none (List.dropWhile_eq_nil_iff.mp hskip)
  | case2 cs c rest hskip ih =>
    have hsplit : cs =
        cs.takeWhile isBlank ++ (firstWord (c :: rest) ++ afterWord (c :: rest)) := by
      rw [firstWord, afterWord, List.takeWhile_append_dropWhile, ← hskip, skipBlanks,
        List.takeWhile_append_dropWhile]
    have hmem : firstWord (c :: rest) ∈ words cs := by
      rw [words_of_skipBlanks_cons hskip]
      exact List.mem_cons_self
    rw [hsplit]
    exact .run (List.all_eq_true.mp List.all_takeWhile) (ne_nil_of_mem_words hmem)
      (isBlank_of_mem_words hmem) (fun _ => isBlank_of_head?_afterWord) ih

/-- **Cutting a text into words finds its maximal runs**, and a text has no other ones. -/
theorem runs_iff {cs : List Char} {runs : List (List Char)} : Runs cs runs ↔ words cs = runs :=
  ⟨words_of_runs, fun h => h ▸ runs_words cs⟩

end Text

/-! ## The second run -/

/-- The groups of four bytes of a payload stand for three bytes each, the last one for fewer. -/
theorem Payload.utf8ByteSize_token (payload : Payload) :
    payload.token.utf8ByteSize = 4 * ((payload.size + 2) / 3) := by
  obtain ⟨body, pads, -, -, hpads, hfour, hsize⟩ :=
    Base64.decodedSize_eq_ok_iff.mp payload.decodedSize_token
  omega

namespace TestCase

/-- What a text says of a case, told by its second run alone. -/
inductive Says (case : TestCase) : Option (List Char) → Prop where
  /-- There are fewer than two runs. -/
  | missing (hpayload : case.payload = .error .missingPayload) (hsize : case.size? = none) :
      Says case none
  | notBase64 {run : List Char} {error : Base64.Error}
      (herror : Base64.decodedSize (String.ofList run) = .error error)
      (hpayload : case.payload = .error .invalidBase64) (hsize : case.size? = none) :
      Says case (some run)
  | tooLarge {run : List Char} {size : Nat}
      (hok : Base64.decodedSize (String.ofList run) = .ok size) (hlarge : 2 ^ 21 < size)
      (hpayload : case.payload = .error (.tooLarge size)) (hsize : case.size? = some size) :
      Says case (some run)
  | accepted {run : List Char} {payload : Payload}
      (hok : Base64.decodedSize (String.ofList run) = .ok payload.size)
      (hle : payload.size ≤ 2 ^ 21) (hpayload : case.payload = .ok payload)
      (htoken : payload.token = String.ofList run) (hsize : case.size? = some payload.size) :
      Says case (some run)

theorem says_ofContents (name contents : String) :
    Says (ofContents name contents) (Text.words contents.toList)[1]? := by
  rw [← Text.wordAt?_eq_getElem?]
  unfold ofContents
  cases Text.wordAt? 1 contents.toList with
  | none => exact .missing rfl rfl
  | some run =>
    cases hpayload : Payload.ofToken (String.ofList run) with
    | ok payload =>
      have hok := Payload.decodedSize_of_ofToken hpayload
      exact .accepted hok payload.size_le hpayload (Payload.token_of_ofToken hpayload)
        (by simp only [size?, hpayload])
    | error defect =>
      rcases Payload.ofToken_eq_error_iff.mp hpayload with
        ⟨rfl, error, herror⟩ | ⟨size, rfl, hok, hlarge⟩
      · exact .notBase64 herror hpayload (by simp only [size?, hpayload]; rfl)
      · exact .tooLarge hok hlarge hpayload (by simp only [size?, hpayload]; rfl)

theorem ofContents_congr {contents other : String}
    (h : (Text.words contents.toList)[1]? = (Text.words other.toList)[1]?) (name : String) :
    ofContents name contents = ofContents name other := by
  unfold ofContents
  rw [Text.wordAt?_eq_getElem?, Text.wordAt?_eq_getElem?, h]

/-- **The second run of a text is the case.** The runs of a text are told by what they are, and only
the second one counts. An accepted case has at least one byte and at most `2 ^ 21`, which take four
characters for every three of them begun; so whatever a program does with it, its score is never
the one for nothing compressed to nothing. -/
theorem ofContents_second_run (contents : String) :
    ∃ runs, (∀ other, Text.Runs contents.toList other ↔ other = runs) ∧
      ∀ name, (ofContents name contents).name = name ∧ Says (ofContents name contents) runs[1]? ∧
        (∀ contents' runs', Text.Runs contents'.toList runs' → runs'[1]? = runs[1]? →
          ofContents name contents' = ofContents name contents) ∧
        ∀ payload, (ofContents name contents).payload = .ok payload →
          1 ≤ payload.size ∧ payload.size ≤ 2 ^ 21 ∧
          payload.token.utf8ByteSize = 4 * ((payload.size + 2) / 3) ∧
          (∀ c ∈ payload.token.toList, Text.isBlank c = false) ∧
          ∀ program index size points,
            (evaluate program index (ofContents name contents)).outcome.verdict =
              .success size points →
            (Float.ofNat payload.size + Float.ofNat size == 0.0) = false ∧
              points = 1000.0 * (2.0 * Float.ofNat payload.size) /
                (Float.ofNat payload.size + Float.ofNat size) := by
  refine ⟨Text.words contents.toList, fun other => ?_, fun name => ⟨name_ofContents name contents,
    says_ofContents name contents, fun contents' runs' hruns hsecond => ?_,
    fun payload hpayload => ?_⟩⟩
  · rw [Text.runs_iff, eq_comm]
  · rw [Text.runs_iff] at hruns
    subst hruns
    exact ofContents_congr hsecond name
  · have hpos := (isSound_ofContents name contents).size_pos payload hpayload
    have hle : payload.size ≤ 2 ^ 21 := payload.size_le
    refine ⟨hpos, hle, payload.utf8ByteSize_token,
      Base64.isBlank_of_decodedSize payload.decodedSize_token, ?_⟩
    intro program index size points hverdict
    obtain ⟨rfl, hsize, -⟩ := (verdict_eq_success_iff hpayload index).mp hverdict
    replace hsize : size ≤ 2 ^ 21 := hsize
    exact score_of_pos (by omega) (by simp only [Decimal.Binary64.fullMantissa]; omega)

end TestCase

end CompressorBench
