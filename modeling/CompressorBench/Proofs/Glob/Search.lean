import CompressorBench.Proofs.Glob.Cuts

/-!
# What the search finds

The search tries to cut a name and gives up as a whole once a token finds the name used up. This is
right for the tokens of a pattern: a run of components stands in front of everything else or behind
a separator (`Fronted`), and the part behind a separator is never reached in a name that has none.

* `Token.takes_iff`: a token takes the characters that fit it, letters of ASCII in either case.
* `tells_search`: what the search says of tokens without a run of components in front. If it gives
  up, no later part of the name can be cut either.
* `decides_search`: the same with runs of components in front.
* `fronted_of_readTokens`: where runs of components stand in a pattern.
* `accepts_iff`: a name without a separator is accepted exactly if it can be cut.
-/

namespace CompressorBench.Glob

variable {start : Bool} {token : Token} {tokens : List Token} {name : List Char}

/-! ## Letters of either case -/

theorem isAlpha_toLower (c : Char) : c.toLower.isAlpha = c.isAlpha := by
  delta Char.toLower Char.isAlpha Char.isUpper Char.isLower
  grind

theorem toLower_of_not_isAlpha {c : Char} (h : c.isAlpha ≠ true) : c.toLower = c := by
  delta Char.toLower Char.isAlpha Char.isUpper Char.isLower at *
  grind

theorem isAscii_iff {c : Char} : isAscii c = true ↔ c.val < 0x80 := by
  rw [isAscii, decide_eq_true_iff, UInt32.lt_iff_toNat_lt]
  rfl

theorem isAscii_of_isAlpha {c : Char} (h : c.isAlpha = true) : isAscii c = true := by
  rw [isAscii_iff]
  delta Char.isAlpha Char.isUpper Char.isLower at h
  grind

/-- A character whose small form comes before that of a letter is one of ASCII. -/
theorem isAscii_of_toLower_le {c last : Char} (hlast : last.isAlpha = true)
    (h : c.toLower ≤ last.toLower) : isAscii c = true := by
  by_cases hc : c.isAlpha = true
  · exact isAscii_of_isAlpha hc
  · have hsmall : isAscii last.toLower = true :=
      isAscii_of_isAlpha ((isAlpha_toLower last).trans hlast)
    rw [toLower_of_not_isAlpha hc] at h
    exact isAscii_iff.mpr (UInt32.lt_of_le_of_lt h (isAscii_iff.mp hsmall))

theorem toLower_eq_toLower_iff {a b : Char} :
    a.toLower = b.toLower ↔ SameChar true a b := by
  constructor
  · intro h
    have halpha : a.isAlpha = b.isAlpha := by
      rw [← isAlpha_toLower a, h, isAlpha_toLower]
    by_cases ha : a.isAlpha = true
    · exact .inr ⟨rfl, ha, halpha ▸ ha, h⟩
    · rw [toLower_of_not_isAlpha ha, toLower_of_not_isAlpha (halpha ▸ ha)] at h
      exact .inl h
  · rintro (rfl | ⟨-, -, -, h⟩)
    · rfl
    · exact h

/-- Rows of characters are the same exactly if they are so in small letters. -/
theorem forall₂_sameChar_iff {cs others : List Char} :
    List.Forall₂ (SameChar true) cs others ↔ cs.map Char.toLower = others.map Char.toLower := by
  rw [← List.forall₂_eq_eq_eq, List.forall₂_map_left_iff, List.forall₂_map_right_iff]
  simp only [toLower_eq_toLower_iff]

theorem sameChar_iff {a b : Char} : sameChar a b = true ↔ SameChar true a b := by
  unfold sameChar
  split
  · rw [beq_iff_eq, toLower_eq_toLower_iff]
  · next hascii =>
    rw [beq_iff_eq]
    refine ⟨.inl, fun h => h.eq fun ⟨ha, hb⟩ => hascii ?_⟩
    rw [isAscii_of_isAlpha ha, isAscii_of_isAlpha hb, Bool.and_self]

theorem Member.holds_iff {c : Char} {member : Member} :
    member.holds c = true ↔ member.Holds true c := by
  cases member with
  | single other => exact sameChar_iff
  | range first last =>
    simp only [holds, Holds, between, Bool.or_eq_true, Bool.and_eq_true, decide_eq_true_eq,
      true_and]
    constructor
    · rintro (⟨⟨⟨-, hfirst⟩, hlast⟩, hletters⟩ | hbetween)
      · exact .inr ⟨hfirst, hlast, hletters⟩
      · exact .inl hbetween
    · rintro (hbetween | ⟨hfirst, hlast, hletters⟩)
      · exact .inr hbetween
      · exact .inl ⟨⟨⟨isAscii_of_toLower_le hlast hletters.2, hfirst⟩, hlast⟩, hletters⟩

theorem inSet_iff {set : List Member} {c : Char} :
    inSet set c = true ↔ ∃ member ∈ set, member.Holds true c := by
  simp only [inSet, List.any_eq_true, Member.holds_iff]

/-- A token that is no run takes the characters that fit it; a dot at the start only if it is one
itself. -/
theorem Token.takes_iff {c : Char} (hsingle : ¬ token.IsRun) :
    token.takes start c = true ↔
      token.Fits true [c] ∧ (start = true → c = '.' → token = .char '.') := by
  have hdot : (!(start && c == '.')) = true ↔ (start = true → ¬ c = '.') := by
    cases start <;> simp
  cases token with
  | char other =>
    simp only [takes, Fits, sameChar_iff, List.cons.injEq, and_true, exists_eq_left']
    refine ⟨fun h => ⟨h, fun _ hc => ?_⟩, And.left⟩
    subst hc
    rw [← h.eq fun hletters => absurd hletters.1 (by decide)]
  | anyChar =>
    rw [takes, hdot]
    simp [Fits]
  | oneOf set =>
    rw [takes, Bool.and_eq_true, hdot, inSet_iff]
    simp [Fits, and_comm]
  | noneOf set =>
    have hnone : (!inSet set c) = true ↔ ∀ member ∈ set, ¬ member.Holds true c := by
      rw [Bool.not_eq_true', ← Bool.not_eq_true, inSet_iff]
      simp
    rw [takes, Bool.and_eq_true, hdot, hnone]
    simp [Fits, and_comm]
  | anyRun => exact absurd (.inl rfl) hsingle
  | anyComponents => exact absurd (.inr rfl) hsingle

/-! ## Tokens without a run of components in front -/

/-- No part at the end of a name can be cut, the whole name included. -/
def IsHopeless (tokens : List Token) (name : List Char) : Prop :=
  ∀ later, later <:+ name → ¬ Cuts true false tokens later

theorem isHopeless_nil_iff : IsHopeless tokens [] ↔ ¬ Cuts true false tokens [] := by
  simp [IsHopeless]

theorem isHopeless_cons_iff {c : Char} :
    IsHopeless tokens (c :: name) ↔
      ¬ Cuts true false tokens (c :: name) ∧ IsHopeless tokens name := by
  simp [IsHopeless, List.suffix_cons_iff]

theorem IsHopeless.not_cuts (h : IsHopeless tokens name) : ¬ Cuts true start tokens name :=
  fun hcuts => h name List.suffix_rfl hcuts.unstart

/-- A token in front does not help. -/
theorem IsHopeless.cons (h : IsHopeless tokens name) : IsHopeless (token :: tokens) name := by
  intro later hlater hcuts
  obtain ⟨piece, rest, rfl, -, -, -, hrest⟩ := cuts_cons.mp hcuts
  exact h rest ((List.suffix_append piece rest).trans hlater) hrest.unstart

/-- How a search ends tells whether the name can be cut. -/
def Search.Tells (start : Bool) (tokens : List Token) (name : List Char) : Search → Prop
  | .matched => Cuts true start tokens name
  | .failed => ¬ Cuts true start tokens name
  | .usedUp => IsHopeless tokens name

theorem search_run (hrun : token.IsRun) :
    search (token :: tokens) start name =
      match search tokens start name with
      | .failed => stretch (search tokens) (token == .anyComponents) start name
      | result => result := by
  cases name <;> rw [search] <;> exact if_pos hrun

theorem search_single_nil (hsingle : ¬ token.IsRun) :
    search (token :: tokens) start [] = .usedUp := by
  rw [search]
  exact if_neg hsingle

theorem search_single_cons (hsingle : ¬ token.IsRun) {c : Char} :
    search (token :: tokens) start (c :: name) =
      if token.takes start c then search tokens (c == separator) name else .failed := by
  rw [search]
  exact if_neg hsingle

/-- A longer piece for a run of characters is found if there is one. -/
theorem tells_stretch
    (hsearch : ∀ start name, separator ∉ name → (search tokens start name).Tells start tokens name)
    (hname : separator ∉ name) (hfirst : ¬ Cuts true start tokens name) :
    (stretch (search tokens) false start name).Tells start (.anyRun :: tokens) name := by
  induction name generalizing start with
  | nil =>
    have htells := hsearch start [] hname
    rw [stretch]
    cases hend : search tokens start [] <;> rw [hend] at htells
    · exact absurd htells hfirst
    · exact fun h => htells ((cuts_run_nil (.inl rfl)).mp h)
    · exact htells.cons
  | cons c rest ih =>
    obtain ⟨hc, hrest⟩ := List.ne_and_not_mem_of_not_mem_cons hname
    have hseparator : (c == separator) = false := beq_false_of_ne hc.symm
    rw [stretch, hseparator]
    by_cases hdot : start = true ∧ c = '.'
    · rw [if_pos (by simpa using hdot)]
      exact fun h => (cuts_anyRun_cons.mp h).elim hfirst fun h => h.1 hdot
    · rw [if_neg (by simpa using hdot), if_neg (by simp)]
      -- away from the start the first try fails as well, because no dot is in the way
      have hfirst' : ¬ Cuts true false tokens (c :: rest) := by
        cases start with
        | false => exact hfirst
        | true => exact fun h => hfirst (cuts_of_head_ne (by simpa using hdot) h)
      have htells := hsearch false rest hrest
      cases hnext : search tokens false rest <;> rw [hnext] at htells
      · exact cuts_anyRun_cons.mpr (.inr ⟨hdot, Cuts.skip htells (.inl rfl)⟩)
      · have hlonger := ih hrest htells
        cases hend : stretch (search tokens) false false rest <;> rw [hend] at hlonger
        · exact cuts_anyRun_cons.mpr (.inr ⟨hdot, hlonger⟩)
        · exact fun h => (cuts_anyRun_cons.mp h).elim hfirst fun h => hlonger h.2
        · refine isHopeless_cons_iff.mpr ⟨fun h => ?_, hlonger⟩
          exact (cuts_anyRun_cons.mp h).elim hfirst' fun h => hlonger.not_cuts h.2
      · exact (isHopeless_cons_iff.mpr ⟨hfirst', htells⟩).cons

/-- No run of components stands in front of the first separator. -/
inductive Plain : List Token → Prop where
  | nil : Plain []
  | separator (tokens : List Token) : Plain (.char separator :: tokens)
  | cons {token : Token} {tokens : List Token} (ne : token ≠ .anyComponents)
      (plain : Plain tokens) : Plain (token :: tokens)

theorem eq_separator {c : Char} (h : (Token.char separator).Fits true [c]) : c = separator := by
  obtain ⟨d, hd, hsame⟩ := h
  exact (List.head_eq_of_cons_eq hd).trans (hsame.eq fun hletters => absurd hletters.2 (by decide))

/-- A token that is no run takes the first character, or the search ends. -/
theorem tells_search_single (hsingle : ¬ token.IsRun) (hname : separator ∉ name)
    (hsearch : token ≠ .char separator → ∀ start name, separator ∉ name →
      (search tokens start name).Tells start tokens name) :
    (search (token :: tokens) start name).Tells start (token :: tokens) name := by
  cases name with
  | nil =>
    rw [search_single_nil hsingle]
    exact isHopeless_nil_iff.mpr (not_cuts_single_nil hsingle)
  | cons c rest =>
    obtain ⟨hc, hrest⟩ := List.ne_and_not_mem_of_not_mem_cons hname
    rw [search_single_cons hsingle, beq_false_of_ne hc.symm]
    split
    · next htakes =>
      obtain ⟨hfits, hdot⟩ := (Token.takes_iff hsingle).mp htakes
      -- the name has no separator, so nothing is asked of the tokens behind one
      have hne : token ≠ .char separator :=
        fun htoken => hc (eq_separator (htoken ▸ hfits)).symm
      have htells := hsearch hne false rest hrest
      cases hend : search tokens false rest <;> rw [hend] at htells
      · exact (cuts_single_cons hsingle).mpr ⟨hfits, hdot, htells⟩
      · exact fun h => htells ((cuts_single_cons hsingle).mp h).2.2
      · refine isHopeless_cons_iff.mpr ⟨fun h => ?_, htells.cons⟩
        exact htells.not_cuts ((cuts_single_cons hsingle).mp h).2.2
    · next htakes =>
      intro h
      obtain ⟨hfits, hdot, -⟩ := (cuts_single_cons hsingle).mp h
      exact htakes ((Token.takes_iff hsingle).mpr ⟨hfits, hdot⟩)

/-- The search is right about tokens without a run of components in front. -/
theorem tells_search (hplain : Plain tokens) (hname : separator ∉ name) :
    (search tokens start name).Tells start tokens name := by
  induction hplain generalizing start name with
  | nil =>
    rw [search]
    cases name with
    | nil => exact cuts_nil.mpr rfl
    | cons c rest => exact fun h => nomatch cuts_nil.mp h
  | separator tokens =>
    exact tells_search_single (fun hrun => hrun.ne_char _ rfl) hname fun h => absurd rfl h
  | @cons token tokens hne hplain ih =>
    by_cases hrun : token = .anyRun
    · subst hrun
      have htells : (search tokens start name).Tells start tokens name := ih hname
      rw [search_run (.inl rfl)]
      cases hend : search tokens start name <;> rw [hend] at htells
      · exact Cuts.skip htells (.inl rfl)
      · exact tells_stretch (fun start name hname => ih hname) hname htells
      · exact htells.cons
    · exact tells_search_single (not_or.mpr ⟨hrun, hne⟩) hname fun _ start name hname => ih hname

/-! ## Runs of components in front -/

/-- Runs of components only stand in front of everything else or behind a separator. -/
inductive Fronted : List Token → Prop where
  | plain {tokens : List Token} (plain : Plain tokens) : Fronted tokens
  | components {tokens : List Token} (fronted : Fronted tokens) :
    Fronted (.anyComponents :: tokens)

/-- How a search ends decides whether the name can be cut. If it is used up, then nothing is left
for the tokens to take at its end either. -/
def Search.Decides (start : Bool) (tokens : List Token) (name : List Char) : Search → Prop
  | .matched => Cuts true start tokens name
  | .failed => ¬ Cuts true start tokens name
  | .usedUp => ¬ Cuts true start tokens name ∧ ¬ Cuts true false tokens []

/-- A run of components goes on to the end of a name. -/
theorem stretch_components {continuation : Bool → List Char → Search}
    (hname : separator ∉ name) : stretch continuation true false name = continuation false [] := by
  induction name with
  | nil => rfl
  | cons c rest ih =>
    obtain ⟨hc, hrest⟩ := List.ne_and_not_mem_of_not_mem_cons hname
    rw [stretch, if_neg (by simp), if_pos (by simpa using hc.symm), ih hrest]

/-- A run of components does not help tokens that can take neither the name nor nothing. -/
theorem not_cuts_anyComponents (hname : ¬ Cuts true start tokens name)
    (hnil : ¬ Cuts true false tokens []) : ¬ Cuts true start (.anyComponents :: tokens) name := by
  intro h
  cases name with
  | nil => exact hname ((cuts_run_nil (.inr rfl)).mp h)
  | cons c rest => exact (cuts_anyComponents_cons.mp h).elim hname fun h => hnil h.2

/-- If a run of components cannot take nothing, then it takes all of the name or the search ends. -/
theorem decides_stretch (hsearch : ∀ start, (search tokens start []).Decides start tokens [])
    (hname : separator ∉ name) (hfirst : ¬ Cuts true start tokens name) :
    (stretch (search tokens) true start name).Decides start (.anyComponents :: tokens) name := by
  cases name with
  | nil =>
    have hdecides := hsearch start
    rw [stretch]
    cases hend : search tokens start [] <;> rw [hend] at hdecides
    · exact absurd hdecides hfirst
    · exact fun h => hdecides ((cuts_run_nil (.inr rfl)).mp h)
    · exact ⟨not_cuts_anyComponents hdecides.1 hdecides.2,
        not_cuts_anyComponents hdecides.2 hdecides.2⟩
  | cons c rest =>
    obtain ⟨hc, hrest⟩ := List.ne_and_not_mem_of_not_mem_cons hname
    rw [stretch]
    by_cases hdot : start = true ∧ c = '.'
    · rw [if_pos (by simpa using hdot)]
      exact fun h => (cuts_anyComponents_cons.mp h).elim hfirst fun h => h.1 hdot
    · rw [if_neg (by simpa using hdot), if_pos (by simpa using hc.symm), stretch_components hrest]
      have hdecides := hsearch false
      cases hend : search tokens false [] <;> rw [hend] at hdecides
      · exact cuts_anyComponents_cons.mpr (.inr ⟨hdot, hdecides⟩)
      · exact not_cuts_anyComponents hfirst hdecides
      · exact ⟨not_cuts_anyComponents hfirst hdecides.2,
          not_cuts_anyComponents hdecides.2 hdecides.2⟩

/-- The search is right about tokens with runs of components in front. -/
theorem decides_search (hfronted : Fronted tokens) (hname : separator ∉ name) :
    (search tokens start name).Decides start tokens name := by
  induction hfronted generalizing start name with
  | @plain tokens hplain =>
    have htells : (search tokens start name).Tells start tokens name := tells_search hplain hname
    cases hend : search tokens start name <;> rw [hend] at htells
    · exact htells
    · exact htells
    · exact ⟨htells.not_cuts, htells [] List.nil_suffix⟩
  | @components tokens _ ih =>
    have hdecides : (search tokens start name).Decides start tokens name := ih hname
    rw [search_run (.inr rfl)]
    cases hend : search tokens start name <;> rw [hend] at hdecides
    · exact Cuts.skip hdecides (.inr rfl)
    · exact decides_stretch (fun start => ih nofun) hname hdecides
    · exact ⟨not_cuts_anyComponents hdecides.1 hdecides.2,
        not_cuts_anyComponents hdecides.2 hdecides.2⟩

/-! ## The tokens of a pattern -/

theorem exists_of_map_eq_ok {ε α β : Type} {f : α → β} {result : Except ε α} {b : β}
    (h : result.map f = .ok b) : ∃ a, result = .ok a ∧ f a = b := by
  cases result with
  | error e => cases h
  | ok a => exact ⟨a, rfl, Except.ok.inj h⟩

theorem exists_of_readSet? {cs rest : List Char} (h : readSet? cs = some (token, rest)) :
    ∃ set, token = .oneOf set ∨ token = .noneOf set := by
  unfold readSet? at h
  split at h <;> obtain ⟨parts, -, heq⟩ := Option.map_eq_some_iff.mp h <;> cases heq
  · exact ⟨_, .inr rfl⟩
  · exact ⟨_, .inl rfl⟩

/-- In the tokens of a pattern runs of components stand in front only; they do not stand there in
the part behind a character that is no separator. -/
theorem fronted_of_readTokens {position : Nat} {previous : Option Char} {cs : List Char}
    (h : readTokens position previous cs = .ok tokens) :
    Fronted tokens ∧ (¬ (previous = none ∨ previous = some separator) → Plain tokens) := by
  have of_plain {previous : Option Char} {tokens : List Token} (hplain : Plain tokens) :
      Fronted tokens ∧ (¬ (previous = none ∨ previous = some separator) → Plain tokens) :=
    ⟨.plain hplain, fun _ => hplain⟩
  fun_induction readTokens generalizing tokens with
  | case1 =>
    cases h
    exact of_plain .nil
  | case2 position previous rest ih =>
    obtain ⟨more, hmore, rfl⟩ := exists_of_map_eq_ok h
    exact of_plain (.cons nofun ((ih hmore).2 (by decide)))
  | case4 position previous hprevious =>
    cases h
    exact ⟨.components (.plain .nil), fun hne => absurd hprevious hne⟩
  | case5 position previous hprevious rest _ ih =>
    obtain ⟨more, hmore, rfl⟩ := exists_of_map_eq_ok h
    exact ⟨.components (ih hmore).1, fun hne => absurd hprevious hne⟩
  | case8 position previous rest _ _ ih =>
    obtain ⟨more, hmore, rfl⟩ := exists_of_map_eq_ok h
    exact of_plain (.cons nofun ((ih hmore).2 (by decide)))
  | case10 position previous rest token tail hset ih =>
    obtain ⟨more, hmore, rfl⟩ := exists_of_map_eq_ok h
    obtain ⟨set, rfl | rfl⟩ := exists_of_readSet? hset <;>
      exact of_plain (.cons nofun ((ih hmore).2 (by decide)))
  | case11 position previous c rest _ _ _ _ _ ih =>
    obtain ⟨more, hmore, rfl⟩ := exists_of_map_eq_ok h
    by_cases hc : c = separator
    · subst hc
      exact of_plain (.separator more)
    · exact of_plain (.cons nofun ((ih hmore).2 (by simpa using hc)))
  | _ => cases h

theorem fronted_of_ofString {pattern : String} {glob : Glob}
    (h : Glob.ofString pattern = .ok glob) : Fronted glob.tokens := by
  obtain ⟨tokens, htokens, rfl⟩ := exists_of_map_eq_ok h
  exact (fronted_of_readTokens htokens).1

/-- **A name without a separator is accepted** exactly if it can be cut into pieces that fit the
tokens, letters of ASCII in either case. -/
theorem accepts_iff {pattern name : String} {glob : Glob} (hglob : Glob.ofString pattern = .ok glob)
    (hname : separator ∉ name.toList) :
    glob.accepts name = true ↔ Cuts true true glob.tokens name.toList := by
  have hdecides : (search glob.tokens true name.toList).Decides true glob.tokens name.toList :=
    decides_search (fronted_of_ofString hglob) hname
  rw [Glob.accepts]
  cases hend : search glob.tokens true name.toList <;> rw [hend] at hdecides
  · exact iff_of_true rfl hdecides
  · exact iff_of_false nofun hdecides
  · exact iff_of_false nofun hdecides.1

end CompressorBench.Glob
