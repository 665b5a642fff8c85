import CompressorBench.Proofs.Glob.Search

/-!
# Names that start with a dot

Only a dot of the pattern takes the dot at the start of a name. So what stands in front of that dot
in the pattern takes nothing, and only runs can do so. The pattern from the dot on is itself a
pattern, which accepts the name as well.

* `cuts_dotted_iff`: which tokens such a name can be cut by.
* `exists_of_readTokens`, `readTokens_of_runs`: the same tokens in the text of a pattern.
* `accepts_dotted_iff`: which patterns accept such a name.
-/

namespace CompressorBench.Glob

variable {fold : Bool} {tokens : List Token} {name : List Char}

/-! ## Tokens -/

/-- A name that starts with a dot is cut by a dot that stands behind runs only. -/
theorem cuts_dotted_iff :
    Cuts fold true tokens ('.' :: name) ↔
      ∃ runs more, tokens = runs ++ .char '.' :: more ∧ (∀ run ∈ runs, run.IsRun) ∧
        Cuts fold true (.char '.' :: more) ('.' :: name) := by
  constructor
  · intro h
    induction tokens with
    | nil => cases cuts_nil.mp h
    | cons token tokens ih =>
      by_cases hrun : token.IsRun
      · obtain hskip | ⟨hdot, -⟩ := (cuts_run_cons hrun).mp h
        · obtain ⟨runs, more, rfl, hruns, hcuts⟩ := ih hskip
          exact ⟨token :: runs, more, rfl, List.forall_mem_cons.mpr ⟨hrun, hruns⟩, hcuts⟩
        · exact absurd ⟨rfl, rfl⟩ hdot
      · obtain rfl := ((cuts_single_cons hrun).mp h).2.1 rfl rfl
        exact ⟨[], tokens, rfl, List.forall_mem_nil _, h⟩
  · rintro ⟨runs, more, rfl, hruns, hcuts⟩
    induction runs with
    | nil => exact hcuts
    | cons run runs ih =>
      obtain ⟨hrun, hruns⟩ := List.forall_mem_cons.mp hruns
      exact (ih hruns).skip hrun

/-! ## Texts -/

/-- The text of a run; one of components has its separator with it. -/
def IsRunText (text : List Char) : Prop := text = ['*'] ∨ text = ['*', '*', separator]

/-- The tokens of a pattern do not depend on where it stands. -/
theorem readTokens_congr {position : Nat} {previous : Option Char} {cs : List Char}
    (h : readTokens position previous cs = .ok tokens) (other : Nat) :
    readTokens other previous cs = .ok tokens := by
  fun_induction readTokens position previous cs generalizing tokens other with
  | case1 => simpa only [readTokens] using h
  | case2 position previous rest ih =>
    obtain ⟨more, hmore, rfl⟩ := exists_of_map_eq_ok h
    rw [readTokens, ih hmore]
    rfl
  | case4 position previous hprevious =>
    rw [readTokens, if_pos hprevious]
    exact h
  | case5 position previous hprevious rest hne ih =>
    obtain ⟨more, hmore, rfl⟩ := exists_of_map_eq_ok h
    rw [readTokens, if_pos hprevious]
    · simp only [if_pos]
      rw [ih hmore]
      rfl
    · exact hne
  | case8 position previous rest hstars hstar ih =>
    obtain ⟨more, hmore, rfl⟩ := exists_of_map_eq_ok h
    rw [readTokens, ih hmore]
    · rfl
    · exact hstars
    · exact hstar
  | case10 position previous rest token tail hset ih =>
    obtain ⟨more, hmore, rfl⟩ := exists_of_map_eq_ok h
    rw [readTokens]
    split
    · next hnone =>
      rw [hset] at hnone
      cases hnone
    · next hset' =>
      cases hset.symm.trans hset'
      rw [ih hmore]
      rfl
  | case11 position previous c rest h1 h2 h3 h4 h5 ih =>
    obtain ⟨more, hmore, rfl⟩ := exists_of_map_eq_ok h
    rw [readTokens, ih hmore]
    · rfl
    all_goals assumption
  | _ => cases h

theorem readTokens_dot (position : Nat) (previous : Option Char) (cs : List Char) :
    readTokens position previous ('.' :: cs) =
      (readTokens (position + 1) (some '.') cs).map (.char '.' :: ·) := by
  simp [readTokens]

/-- What a first token that is a run or a dot was read from. A run of components has no separator
with it if it is the last token. -/
theorem exists_of_readTokens_cons {position : Nat} {previous : Option Char} {cs : List Char}
    {token : Token} (h : readTokens position previous cs = .ok (token :: tokens)) :
    (token.IsRun → tokens ≠ [] → ∃ text rest, cs = text ++ rest ∧ IsRunText text ∧
      ∃ position' previous', readTokens position' previous' rest = .ok tokens) ∧
    (token = .char '.' → ∃ rest, cs = '.' :: rest ∧
      ∃ position', readTokens position' (some '.') rest = .ok tokens) := by
  revert h
  fun_cases readTokens position previous cs <;> intro h
  case case1 => cases h
  case case2 rest =>
    obtain ⟨more, hmore, heq⟩ := exists_of_map_eq_ok h
    cases heq
    exact ⟨fun hrun => by cases hrun <;> contradiction, nofun⟩
  case case4 =>
    cases h
    exact ⟨fun _ hne => absurd rfl hne, nofun⟩
  case case5 hprevious rest hne =>
    obtain ⟨more, hmore, heq⟩ := exists_of_map_eq_ok h
    cases heq
    exact ⟨fun _ _ => ⟨_, rest, rfl, .inr rfl, _, _, hmore⟩, nofun⟩
  case case8 rest hstars hstar =>
    obtain ⟨more, hmore, heq⟩ := exists_of_map_eq_ok h
    cases heq
    exact ⟨fun _ _ => ⟨_, rest, rfl, .inl rfl, _, _, hmore⟩, nofun⟩
  case case10 rest token tail hset =>
    obtain ⟨more, hmore, heq⟩ := exists_of_map_eq_ok h
    cases heq
    obtain ⟨set, rfl | rfl⟩ := exists_of_readSet? hset <;>
      exact ⟨fun hrun => by cases hrun <;> contradiction, nofun⟩
  case case11 c rest _ _ _ _ _ =>
    obtain ⟨more, hmore, heq⟩ := exists_of_map_eq_ok h
    cases heq
    refine ⟨fun hrun => absurd rfl (hrun.ne_char c), fun hdot => ?_⟩
    cases hdot
    exact ⟨rest, rfl, _, hmore⟩
  all_goals cases h

/-- A dot behind runs was read from a dot behind the texts of runs. -/
theorem exists_of_readTokens {runs more : List Token} {position : Nat} {previous : Option Char}
    {cs : List Char} (h : readTokens position previous cs = .ok (runs ++ .char '.' :: more))
    (hruns : ∀ run ∈ runs, run.IsRun) :
    ∃ (texts : List (List Char)) (rest : List Char), cs = texts.flatten ++ '.' :: rest ∧
      (∀ text ∈ texts, IsRunText text) ∧
      ∃ position', readTokens position' (some '.') rest = .ok more := by
  induction runs generalizing position previous cs with
  | nil =>
    obtain ⟨rest, rfl, hrest⟩ := (exists_of_readTokens_cons h).2 rfl
    exact ⟨[], rest, rfl, List.forall_mem_nil _, hrest⟩
  | cons run runs ih =>
    obtain ⟨hrun, hruns⟩ := List.forall_mem_cons.mp hruns
    obtain ⟨text, rest, rfl, htext, position', previous', hrest⟩ :=
      (exists_of_readTokens_cons h).1 hrun (by simp)
    obtain ⟨texts, rest, rfl, htexts, hmore⟩ := ih hrest hruns
    exact ⟨text :: texts, rest, by simp, List.forall_mem_cons.mpr ⟨htext, htexts⟩, hmore⟩

/-- Behind a run of characters no other run can be read. -/
theorem readTokens_star_ne {text : List Char} {texts : List (List Char)} {rest : List Char}
    {position : Nat} {previous : Option Char} (htexts : ∀ next ∈ text :: texts, IsRunText next) :
    readTokens position previous ('*' :: ((text :: texts).flatten ++ '.' :: rest)) ≠
      .ok tokens := by
  obtain ⟨htext, htail⟩ := List.forall_mem_cons.mp htexts
  obtain rfl | rfl := htext
  · cases texts with
    | nil =>
      have hdot : ¬ '.' = separator := by decide
      simp only [List.flatten_cons, List.flatten_nil, List.append_nil, List.cons_append,
        List.nil_append]
      rw [readTokens, if_neg hdot]
      · split <;> simp
      · simp
    | cons next texts =>
      obtain ⟨hnext, -⟩ := List.forall_mem_cons.mp htail
      obtain rfl | rfl := hnext <;> simp [readTokens]
  · simp [readTokens]

/-- The texts of runs and the dot behind them are read as such. -/
theorem readTokens_of_runs {texts : List (List Char)} {rest : List Char} {position : Nat}
    {previous : Option Char} (htexts : ∀ text ∈ texts, IsRunText text)
    (h : readTokens position previous (texts.flatten ++ '.' :: rest) = .ok tokens) :
    ∃ runs more, tokens = runs ++ .char '.' :: more ∧ (∀ run ∈ runs, run.IsRun) ∧
      ∃ position', readTokens position' (some '.') rest = .ok more := by
  induction texts generalizing position previous tokens with
  | nil =>
    obtain ⟨more, hmore, rfl⟩ := exists_of_map_eq_ok ((readTokens_dot _ _ _).symm.trans h)
    exact ⟨[], more, rfl, List.forall_mem_nil _, _, hmore⟩
  | cons text texts ih =>
    obtain ⟨htext, htail⟩ := List.forall_mem_cons.mp htexts
    obtain ⟨run, hrun, next, position', previous', hnext, rfl⟩ : ∃ run, run.IsRun ∧
        ∃ next position' previous',
          readTokens position' previous' (texts.flatten ++ '.' :: rest) = .ok next ∧
            run :: next = tokens := by
      obtain rfl | rfl := htext
      · cases texts with
        | nil =>
          have hstar : readTokens position previous ('*' :: '.' :: rest) =
              (readTokens (position + 1) (some '*') ('.' :: rest)).map (.anyRun :: ·) := by
            rw [readTokens] <;> simp
          obtain ⟨next, hnext, rfl⟩ := exists_of_map_eq_ok (hstar.symm.trans h)
          exact ⟨_, .inl rfl, next, _, _, hnext, rfl⟩
        | cons text texts =>
          exact absurd h (readTokens_star_ne htail)
      · simp only [List.flatten_cons, List.cons_append, List.nil_append] at h
        rw [readTokens] at h
        · split at h
          · obtain ⟨next, hnext, rfl⟩ := exists_of_map_eq_ok h
            exact ⟨_, .inr rfl, next, _, _, hnext, rfl⟩
          · cases h
        · simp [separator]
    obtain ⟨runs, more, rfl, hruns, hmore⟩ := ih htail hnext
    exact ⟨run :: runs, more, rfl, List.forall_mem_cons.mpr ⟨hrun, hruns⟩, hmore⟩

/-! ## Patterns -/

/-- A pattern is made of the texts of runs and then of a text that starts with a dot and accepts a
name as a pattern of its own. -/
def AcceptsBehindRuns (pattern name : String) : Prop :=
  ∃ (texts : List (List Char)) (rest : List Char) (dotted : Glob),
    (∀ text ∈ texts, IsRunText text) ∧
    pattern.toList = texts.flatten ++ '.' :: rest ∧
    Glob.ofString (String.ofList ('.' :: rest)) = .ok dotted ∧ dotted.accepts name = true

theorem ofString_dot {rest : List Char} {position : Nat} {more : List Token}
    (h : readTokens position (some '.') rest = .ok more) :
    Glob.ofString (String.ofList ('.' :: rest)) = .ok ⟨.char '.' :: more⟩ := by
  rw [Glob.ofString, String.toList_ofList, readTokens_dot, readTokens_congr h]
  rfl

/-- **A name that starts with a dot** is accepted exactly if the pattern is made of runs and then of
one that starts with a dot and accepts the name. -/
theorem accepts_dotted_iff {pattern name : String} {glob : Glob}
    (hglob : Glob.ofString pattern = .ok glob) (hname : separator ∉ name.toList)
    (hdot : name.toList.head? = some '.') :
    glob.accepts name = true ↔ AcceptsBehindRuns pattern name := by
  obtain ⟨tail, htail⟩ := List.head?_eq_some_iff.mp hdot
  have haccepts {rest : List Char} {position : Nat} {more : List Token}
      (h : readTokens position (some '.') rest = .ok more) :
      Glob.accepts ⟨.char '.' :: more⟩ name = true ↔
        Cuts true true (.char '.' :: more) ('.' :: tail) := by
    rw [accepts_iff (ofString_dot h) hname, htail]
  obtain ⟨tokens, htokens, rfl⟩ := exists_of_map_eq_ok hglob
  rw [accepts_iff hglob hname, htail, cuts_dotted_iff]
  constructor
  · rintro ⟨runs, more, rfl, hruns, hcuts⟩
    obtain ⟨texts, rest, hpattern, htexts, position, hmore⟩ := exists_of_readTokens htokens hruns
    exact ⟨texts, rest, _, htexts, hpattern, ofString_dot hmore, (haccepts hmore).mpr hcuts⟩
  · rintro ⟨texts, rest, dotted, htexts, hpattern, hdotted, hmatch⟩
    rw [hpattern] at htokens
    obtain ⟨runs, more, rfl, hruns, position, hmore⟩ := readTokens_of_runs htexts htokens
    cases hdotted.symm.trans (ofString_dot hmore)
    exact ⟨runs, more, rfl, hruns, (haccepts hmore).mp hmatch⟩

end CompressorBench.Glob
