import Mathlib.Data.List.Basic
import Mathlib.Data.List.Forall2
import Mathlib.Data.List.Pairwise
import CompressorBench.Glob.Match

/-!
# Names cut by a pattern

A name fits a pattern if it can be cut into consecutive pieces, one for each token (`IsCut`). The
rules below say how a cut begins, by the kind of the first token and by whether anything is left of
the name.

* `cuts_cons`: the first token takes a piece off the front.
* `cuts_single_cons`, `cuts_anyRun_cons`, `cuts_anyComponents_cons`: the pieces it can take.
* `cuts_chars_iff`: tokens that stand for themselves.
-/

namespace CompressorBench.Glob

/-! ## What tokens take -/

/-- Two characters are the same; if case is folded, letters of ASCII also are if they differ in case
only. -/
def SameChar (fold : Bool) (a b : Char) : Prop :=
  a = b ∨ fold = true ∧ a.isAlpha = true ∧ b.isAlpha = true ∧ a.toLower = b.toLower

/-- A part of a set has a character. If case is folded, a range between two letters of ASCII has the
letters of either case. -/
def Member.Holds (fold : Bool) (c : Char) : Member → Prop
  | .single other => SameChar fold c other
  | .range first last =>
    first ≤ c ∧ c ≤ last ∨
      fold = true ∧ first.isAlpha = true ∧ last.isAlpha = true ∧
        first.toLower ≤ c.toLower ∧ c.toLower ≤ last.toLower

/-- A piece fits a token: any piece fits a run, and all else takes one character. -/
def Token.Fits (fold : Bool) (piece : List Char) : Token → Prop
  | .char other => ∃ c, piece = [c] ∧ SameChar fold c other
  | .anyChar => ∃ c, piece = [c]
  | .oneOf set => ∃ c, piece = [c] ∧ ∃ member ∈ set, member.Holds fold c
  | .noneOf set => ∃ c, piece = [c] ∧ ∀ member ∈ set, ¬ member.Holds fold c
  | .anyRun => True
  | .anyComponents => True

/-- A name is cut into consecutive pieces, one for each token. A run of components takes nothing or
all that is left, and a dot at the start of the name is taken by a dot of the pattern only. -/
structure IsCut (fold start : Bool) (tokens : List Token) (name : List Char)
    (cut : List (Token × List Char)) : Prop where
  tokens_eq : cut.map Prod.fst = tokens
  name_eq : cut.flatMap Prod.snd = name
  fits : ∀ part ∈ cut, part.1.Fits fold part.2
  components : cut.Pairwise fun part later =>
    part.1 = .anyComponents → part.2 = [] ∨ later.2 = []
  dot : start = true → ∀ token rest,
    cut.find? (fun part => !part.2.isEmpty) = some (token, '.' :: rest) → token = .char '.'

/-- A name can be cut. -/
def Cuts (fold start : Bool) (tokens : List Token) (name : List Char) : Prop :=
  ∃ cut, IsCut fold start tokens name cut

variable {fold start : Bool} {token : Token} {tokens : List Token} {name : List Char}

/-! ## Cutting off the first piece -/

theorem cuts_nil : Cuts fold start [] name ↔ name = [] := by
  constructor
  · rintro ⟨cut, hcut⟩
    have hnil : cut = [] := List.map_eq_nil_iff.mp hcut.tokens_eq
    rw [← hcut.name_eq, hnil]
    rfl
  · rintro rfl
    exact ⟨[], rfl, rfl, by simp, .nil, by simp⟩

theorem isCut_cons_iff {piece : List Char} {cut : List (Token × List Char)} :
    IsCut fold start (token :: tokens) name ((token, piece) :: cut) ↔
      ∃ rest, name = piece ++ rest ∧ token.Fits fold piece ∧
        (start = true → piece.head? = some '.' → token = .char '.') ∧
        (token = .anyComponents → piece = [] ∨ rest = []) ∧
        IsCut fold (start && piece.isEmpty) tokens rest cut := by
  constructor
  · intro h
    refine ⟨cut.flatMap Prod.snd, h.name_eq.symm, h.fits _ List.mem_cons_self, ?_, ?_, ?_⟩
    · intro hstart hhead
      obtain ⟨more, rfl⟩ := List.head?_eq_some_iff.mp hhead
      exact h.dot hstart token more rfl
    · intro htoken
      by_cases hpiece : piece = []
      · exact .inl hpiece
      · refine .inr (List.flatMap_eq_nil_iff.mpr fun later hlater => ?_)
        have hlast := (List.pairwise_cons.mp h.components).1 later hlater htoken
        exact hlast.resolve_left hpiece
    · refine ⟨(List.cons.inj h.tokens_eq).2, rfl, fun part hpart => ?_,
        (List.pairwise_cons.mp h.components).2, fun hstart => ?_⟩
      · exact h.fits part (List.mem_cons_of_mem _ hpart)
      · obtain ⟨hstart, hpiece⟩ := Bool.and_eq_true_iff.mp hstart
        have hdot := h.dot hstart
        rw [List.find?_cons_of_neg (by simpa using hpiece)] at hdot
        exact hdot
  · rintro ⟨rest, rfl, hfits, hdot, hcomponents, hrest⟩
    refine ⟨congrArg _ hrest.tokens_eq, congrArg _ hrest.name_eq, ?_, ?_, fun hstart => ?_⟩
    · intro part hpart
      obtain rfl | hpart := List.mem_cons.mp hpart
      · exact hfits
      · exact hrest.fits part hpart
    · refine List.pairwise_cons.mpr ⟨fun later hlater htoken => ?_, hrest.components⟩
      refine (hcomponents htoken).imp_right fun hnil => ?_
      exact List.flatMap_eq_nil_iff.mp (hrest.name_eq.trans hnil) later hlater
    · cases piece with
      | nil => exact hrest.dot (by simpa using hstart)
      | cons c more =>
        intro other tail hfirst
        cases hfirst
        exact hdot hstart rfl

/-- **The first token takes a piece off the front**, and the rest is cut by the other tokens. -/
theorem cuts_cons :
    Cuts fold start (token :: tokens) name ↔
      ∃ piece rest, name = piece ++ rest ∧ token.Fits fold piece ∧
        (start = true → piece.head? = some '.' → token = .char '.') ∧
        (token = .anyComponents → piece = [] ∨ rest = []) ∧
        Cuts fold (start && piece.isEmpty) tokens rest := by
  constructor
  · rintro ⟨cut, hcut⟩
    have htokens := hcut.tokens_eq
    cases cut with
    | nil => cases htokens
    | cons part cut =>
      obtain ⟨other, piece⟩ := part
      obtain ⟨rfl, -⟩ := List.cons.inj htokens
      obtain ⟨rest, hname, hfits, hdot, hcomponents, hrest⟩ := isCut_cons_iff.mp hcut
      exact ⟨piece, rest, hname, hfits, hdot, hcomponents, cut, hrest⟩
  · rintro ⟨piece, rest, hname, hfits, hdot, hcomponents, cut, hrest⟩
    exact ⟨(token, piece) :: cut,
      isCut_cons_iff.mpr ⟨rest, hname, hfits, hdot, hcomponents, hrest⟩⟩

/-- A dot at the start only matters if there is one. -/
theorem cuts_of_head_ne {start' : Bool} (hhead : name.head? ≠ some '.')
    (h : Cuts fold start tokens name) : Cuts fold start' tokens name := by
  induction tokens generalizing name start start' with
  | nil => exact cuts_nil.mpr (cuts_nil.mp h)
  | cons token tokens ih =>
    obtain ⟨piece, rest, rfl, hfits, -, hcomponents, hrest⟩ := cuts_cons.mp h
    cases piece with
    | nil =>
      exact cuts_cons.mpr ⟨[], rest, rfl, hfits, nofun, hcomponents, ih hhead hrest⟩
    | cons c more =>
      refine cuts_cons.mpr ⟨c :: more, rest, rfl, hfits, fun _ hdot => absurd hdot hhead,
        hcomponents, ?_⟩
      simpa using hrest

/-- What can be cut at the start can be cut elsewhere. -/
theorem Cuts.unstart (h : Cuts fold start tokens name) : Cuts fold false tokens name := by
  induction tokens generalizing name start with
  | nil => exact cuts_nil.mpr (cuts_nil.mp h)
  | cons token tokens ih =>
    obtain ⟨piece, rest, hname, hfits, -, hcomponents, hrest⟩ := cuts_cons.mp h
    exact cuts_cons.mpr ⟨piece, rest, hname, hfits, nofun, hcomponents, ih hrest⟩

/-! ## Runs -/

/-- A token that takes pieces of any length. -/
def Token.IsRun (token : Token) : Prop := token = .anyRun ∨ token = .anyComponents

theorem Token.IsRun.fits (hrun : token.IsRun) (piece : List Char) : token.Fits fold piece := by
  obtain rfl | rfl := hrun <;> trivial

theorem Token.IsRun.ne_char (hrun : token.IsRun) (c : Char) : token ≠ .char c := by
  obtain rfl | rfl := hrun <;> nofun

/-- A run can take nothing. -/
theorem Cuts.skip (h : Cuts fold start tokens name) (hrun : token.IsRun) :
    Cuts fold start (token :: tokens) name :=
  cuts_cons.mpr ⟨[], name, rfl, hrun.fits [], nofun, fun _ => .inl rfl, by simpa using h⟩

theorem cuts_run_nil (hrun : token.IsRun) :
    Cuts fold start (token :: tokens) [] ↔ Cuts fold start tokens [] := by
  refine ⟨fun h => ?_, fun h => h.skip hrun⟩
  obtain ⟨piece, rest, hname, -, -, -, hrest⟩ := cuts_cons.mp h
  obtain ⟨rfl, rfl⟩ := List.append_eq_nil_iff.mp hname.symm
  simpa using hrest

/-- A run takes nothing, or a first character that is no dot at the start, and then more. -/
theorem cuts_run_cons (hrun : token.IsRun) {c : Char} :
    Cuts fold start (token :: tokens) (c :: name) ↔
      Cuts fold start tokens (c :: name) ∨
        ¬ (start = true ∧ c = '.') ∧ ∃ piece rest, name = piece ++ rest ∧
          (token = .anyComponents → rest = []) ∧ Cuts fold false tokens rest := by
  constructor
  · intro h
    obtain ⟨piece, rest, hname, -, hdot, hcomponents, hrest⟩ := cuts_cons.mp h
    cases piece with
    | nil =>
      obtain rfl : c :: name = rest := hname
      exact .inl (by simpa using hrest)
    | cons d more =>
      obtain ⟨rfl, rfl⟩ := List.cons.inj hname
      refine .inr ⟨fun ⟨hstart, hc⟩ => ?_, more, rest, rfl, fun htoken => ?_, by simpa using hrest⟩
      · exact hrun.ne_char '.' (hdot hstart (congrArg some hc))
      · exact (hcomponents htoken).resolve_left nofun
  · rintro (h | ⟨hdot, piece, rest, rfl, hcomponents, h⟩)
    · exact h.skip hrun
    · refine cuts_cons.mpr ⟨c :: piece, rest, rfl, hrun.fits _, fun hstart hc => ?_,
        fun htoken => .inr (hcomponents htoken), by simpa using h⟩
      exact absurd ⟨hstart, Option.some.inj hc⟩ hdot

/-- A run of characters takes nothing, or a character and then more. -/
theorem cuts_anyRun_cons {c : Char} :
    Cuts fold start (.anyRun :: tokens) (c :: name) ↔
      Cuts fold start tokens (c :: name) ∨
        ¬ (start = true ∧ c = '.') ∧ Cuts fold false (.anyRun :: tokens) name := by
  have hmore : Cuts fold false (.anyRun :: tokens) name ↔
      ∃ piece rest, name = piece ++ rest ∧ Cuts fold false tokens rest := by
    rw [cuts_cons]
    simp [Token.Fits]
  rw [cuts_run_cons (.inl rfl), hmore]
  simp

/-- A run of components takes nothing or all of the name. -/
theorem cuts_anyComponents_cons {c : Char} :
    Cuts fold start (.anyComponents :: tokens) (c :: name) ↔
      Cuts fold start tokens (c :: name) ∨
        ¬ (start = true ∧ c = '.') ∧ Cuts fold false tokens [] := by
  rw [cuts_run_cons (.inr rfl)]
  simp

/-! ## Single characters -/

theorem Token.Fits.exists_eq {piece : List Char} (h : token.Fits fold piece)
    (hsingle : ¬ token.IsRun) : ∃ c, piece = [c] := by
  cases token with
  | char other => exact h.imp fun _ => And.left
  | anyChar => exact h
  | oneOf set => exact h.imp fun _ => And.left
  | noneOf set => exact h.imp fun _ => And.left
  | anyRun => exact absurd (.inl rfl) hsingle
  | anyComponents => exact absurd (.inr rfl) hsingle

theorem not_cuts_single_nil (hsingle : ¬ token.IsRun) :
    ¬ Cuts fold start (token :: tokens) [] := by
  intro h
  obtain ⟨piece, rest, hname, hfits, -⟩ := cuts_cons.mp h
  obtain ⟨c, rfl⟩ := hfits.exists_eq hsingle
  cases hname

/-- A token that is no run takes one character. -/
theorem cuts_single_cons (hsingle : ¬ token.IsRun) {c : Char} :
    Cuts fold start (token :: tokens) (c :: name) ↔
      token.Fits fold [c] ∧ (start = true → c = '.' → token = .char '.') ∧
        Cuts fold false tokens name := by
  constructor
  · intro h
    obtain ⟨piece, rest, hname, hfits, hdot, -, hrest⟩ := cuts_cons.mp h
    obtain ⟨d, rfl⟩ := hfits.exists_eq hsingle
    obtain ⟨rfl, rfl⟩ := List.cons.inj hname
    exact ⟨hfits, fun hstart hc => hdot hstart (congrArg some hc), by simpa using hrest⟩
  · rintro ⟨hfits, hdot, hrest⟩
    exact cuts_cons.mpr ⟨[c], name, rfl, hfits, fun hstart hc => hdot hstart (Option.some.inj hc),
      fun htoken => absurd (.inr htoken) hsingle, by simpa using hrest⟩

theorem Token.not_isRun_char (c : Char) : ¬ (Token.char c).IsRun := fun hrun => hrun.ne_char c rfl

/-- Only letters can be the same as others. -/
theorem SameChar.eq {a b : Char} (h : SameChar fold a b)
    (hletters : ¬ (a.isAlpha = true ∧ b.isAlpha = true)) : a = b :=
  h.resolve_right fun ⟨_, ha, hb, _⟩ => hletters ⟨ha, hb⟩

/-- Tokens that stand for themselves take characters that are the same. -/
theorem cuts_chars_iff {chars : List Char} :
    Cuts fold start (chars.map .char) name ↔ List.Forall₂ (SameChar fold) name chars := by
  induction chars generalizing start name with
  | nil => rw [List.map_nil, cuts_nil, List.forall₂_nil_right_iff]
  | cons other chars ih =>
    have hsingle : ¬ (Token.char other).IsRun := Token.not_isRun_char other
    rw [List.map_cons]
    cases name with
    | nil => exact iff_of_false (not_cuts_single_nil hsingle) nofun
    | cons c rest =>
      rw [cuts_single_cons hsingle, ih, List.forall₂_cons]
      constructor
      · rintro ⟨⟨d, hd, hsame⟩, -, hrest⟩
        exact ⟨List.head_eq_of_cons_eq hd ▸ hsame, hrest⟩
      · rintro ⟨hsame, hrest⟩
        refine ⟨⟨c, rfl, hsame⟩, fun _ hc => ?_, hrest⟩
        subst hc
        rw [← hsame.eq fun hletters => absurd hletters.1 (by decide)]

/-- If case matters, they take nothing but themselves. -/
theorem cuts_chars_iff_eq {chars : List Char} :
    Cuts false start (chars.map .char) name ↔ name = chars := by
  have hsame : SameChar false = Eq := by
    funext a b
    simp [SameChar]
  rw [cuts_chars_iff, hsame, List.forall₂_eq_eq_eq]

end CompressorBench.Glob
