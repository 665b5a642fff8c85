import CompressorBench.Bench
import CompressorBench.Proofs.CommandLine.Given
import CompressorBench.Proofs.Decimal.Shortest

/-!
# The time limit of a command line

A text is a time limit if the binary64 number it stands for is positive and less than `2 ^ 64`; the
limit is that number of seconds, rounded to the nearest nanosecond. The check is made before the
rounding, so half a nanosecond or less is accepted and gives no time at all.

Whatever else stands on a command line, the limit is what the one text says that is given for it, or
the usual one if there is none; and a text that is no time limit is a reason to refuse all of it.

* `readSeconds_eq_ok_iff`, `exists_readSeconds_iff`: what the accepted texts give, and which they
  are.
* `AsksFor.pos_iff`: when the limit is positive.
* `limit_of_accepted_options`: what the limit of accepted arguments is.
-/

namespace CompressorBench

open Decimal Binary64

/-! ## Rounding to nanoseconds -/

namespace Duration

theorem isNearest_nanoseconds (m : ℕ) (e : ℤ) :
    IsNearest (m * 2 ^ e * 10 ^ 9)
      (roundDiv ((scaleByTwo m e).1 * 1000000000) (scaleByTwo m e).2) := by
  have hnearest := isNearest_roundDiv ((scaleByTwo m e).1 * 1000000000) (scaleByTwo_pos m e)
  have hvalue : (((scaleByTwo m e).1 * 1000000000 : ℕ) : ℚ) / (scaleByTwo m e).2 =
      m * 2 ^ e * 10 ^ 9 := by
    rw [← cast_scaleByTwo]
    push_cast
    ring
  rwa [hvalue] at hnearest

theorem ofBinarySeconds?_eq_some_iff {m : ℕ} {e : ℤ} {d : Duration} :
    ofBinarySeconds? m e = some d ↔ IsNearest (m * 2 ^ e * 10 ^ 9) d.nanoseconds := by
  have hnearest := isNearest_nanoseconds m e
  refine ofNanoseconds?_eq_some_iff.trans ⟨fun heq => ?_, fun h => h.unique hnearest⟩
  rw [heq]
  exact hnearest

theorem limitNanoseconds_pos : 0 < limitNanoseconds := by decide

theorem cast_limitNanoseconds : ((limitNanoseconds : ℕ) : ℚ) = 2 ^ 64 * 10 ^ 9 := by
  rw [show limitNanoseconds = 2 ^ 64 * 10 ^ 9 from rfl]
  norm_num

/-- Below `2 ^ 64` there is a whole second between a binary64 number and the limit. -/
theorem le_pred_of_lt {m : ℕ} {e : ℤ} (hm : m < 2 * fullMantissa)
    (h : (m : ℚ) * 2 ^ e < 2 ^ 64) : (m : ℚ) * 2 ^ e ≤ 2 ^ 64 - 1 := by
  cases e with
  | ofNat k =>
    have hpow : (m : ℚ) * 2 ^ (Int.ofNat k) = (m * 2 ^ k : ℕ) := by simp
    rw [hpow] at h ⊢
    have hnat : m * 2 ^ k < 2 ^ 64 := by exact_mod_cast h
    have hcast : ((m * 2 ^ k + 1 : ℕ) : ℚ) ≤ (2 ^ 64 : ℕ) := by
      exact_mod_cast Nat.succ_le_of_lt hnat
    push_cast at hcast ⊢
    linarith
  | negSucc k =>
    have hone : (2 : ℚ) ^ (Int.negSucc k) ≤ 1 :=
      zpow_le_one_of_nonpos₀ (by norm_num) (Int.negSucc_lt_zero k).le
    have hmq : (m : ℚ) ≤ 2 ^ 64 - 1 := by
      have hle : m ≤ 2 ^ 64 - 1 := by
        simp only [fullMantissa] at hm
        omega
      have hcast : ((m : ℕ) : ℚ) ≤ ((2 ^ 64 - 1 : ℕ) : ℚ) := by exact_mod_cast hle
      norm_num at hcast ⊢
      exact hcast
    have hm0 : (0 : ℚ) ≤ m := Nat.cast_nonneg m
    nlinarith

/-- **A number of seconds that binary64 has is short enough** if it is less than `2 ^ 64`. -/
theorem exists_ofBinarySeconds?_iff {m : ℕ} {e : ℤ} (hm : m < 2 * fullMantissa) :
    (∃ d, ofBinarySeconds? m e = some d) ↔ (m : ℚ) * 2 ^ e < 2 ^ 64 := by
  have hnearest := isNearest_nanoseconds m e
  constructor
  · rintro ⟨d, hd⟩
    by_contra hlarge
    have hle : ((limitNanoseconds : ℕ) : ℚ) ≤ m * 2 ^ e * 10 ^ 9 := by
      rw [cast_limitNanoseconds]
      linarith
    have hlong := (isNearest_self limitNanoseconds).mono (ofBinarySeconds?_eq_some_iff.mp hd) hle
    exact absurd d.isShort (Nat.not_lt.mpr hlong)
  · intro h
    have hpred : ((limitNanoseconds - 1 : ℕ) : ℚ) = 2 ^ 64 * 10 ^ 9 - 1 := by
      rw [Nat.cast_sub limitNanoseconds_pos, cast_limitNanoseconds, Nat.cast_one]
    have hbound : (m : ℚ) * 2 ^ e * 10 ^ 9 ≤ ((limitNanoseconds - 1 : ℕ) : ℚ) := by
      have hle := le_pred_of_lt hm h
      rw [hpred]
      linarith
    have hshort := hnearest.mono (isNearest_self (limitNanoseconds - 1)) hbound
    have hlt := lt_of_le_of_lt hshort (Nat.sub_lt limitNanoseconds_pos Nat.one_pos)
    exact ⟨⟨_, hlt⟩, ofNanoseconds?_eq_some_iff.mpr rfl⟩

end Duration

namespace CommandLine

/-! ## Texts of seconds -/

/-- A text is a literal, and the binary64 number it stands for is positive and finite. -/
def IsSeconds (text : String) (seconds : ℚ) : Prop :=
  ∃ literal, Literal.read? text = some literal ∧ Denotes literal.toFloat seconds ∧ 0 < seconds

theorem secondsOf_eq_ok_iff {text : String} {x : Float} {limit : Duration} :
    secondsOf text x = .ok limit ↔
      ∃ seconds, Denotes x seconds ∧ 0 < seconds ∧ IsNearest (seconds * 10 ^ 9)
        limit.nanoseconds := by
  constructor
  · intro h
    unfold secondsOf at h
    split at h
    · next m e hx =>
      split at h
      · cases h
      · next hm =>
        split at h
        · cases h
        · next duration hduration =>
          cases h
          have hpos : (0 : ℚ) < m := by exact_mod_cast Nat.pos_of_ne_zero hm
          exact ⟨_, ⟨m, e, hx, rfl⟩, by positivity,
            Duration.ofBinarySeconds?_eq_some_iff.mp hduration⟩
    · cases h
  · rintro ⟨_, ⟨m, e, hx, rfl⟩, hpos, hnearest⟩
    have hm : m ≠ 0 := by
      rintro rfl
      simp at hpos
    unfold secondsOf
    rw [hx]
    dsimp only
    rw [if_neg hm, Duration.ofBinarySeconds?_eq_some_iff.mpr hnearest]

/-- A binary64 number of seconds is a time limit if it is less than `2 ^ 64`. -/
theorem exists_nearest_iff {x : Float} {seconds : ℚ} (h : Denotes x seconds) :
    (∃ limit : Duration, IsNearest (seconds * 10 ^ 9) limit.nanoseconds) ↔ seconds < 2 ^ 64 := by
  obtain ⟨m, e, hx, rfl⟩ := h
  rw [← Duration.exists_ofBinarySeconds?_iff (mantissa_lt hx)]
  exact exists_congr fun limit => Duration.ofBinarySeconds?_eq_some_iff.symm

/-- What a text says as a time limit: its number of seconds, to the nearest nanosecond. That is some
time only if the number is more than half a nanosecond. -/
inductive Means (text : String) (limit : Duration) : Prop where
  | intro (seconds : ℚ) (isSeconds : IsSeconds text seconds) (lt : seconds < 2 ^ 64)
    (isNearest : IsNearest (seconds * 10 ^ 9) limit.nanoseconds)
    (pos_iff : 0 < limit.nanoseconds ↔ 1 / 2 < seconds * 10 ^ 9)

theorem means_iff {text : String} {limit : Duration} :
    Means text limit ↔
      ∃ seconds, IsSeconds text seconds ∧ IsNearest (seconds * 10 ^ 9) limit.nanoseconds := by
  constructor
  · rintro ⟨seconds, hseconds, -, hnearest, -⟩
    exact ⟨seconds, hseconds, hnearest⟩
  · rintro ⟨seconds, hseconds, hnearest⟩
    obtain ⟨literal, -, hdenotes, -⟩ := id hseconds
    refine ⟨seconds, hseconds, (exists_nearest_iff hdenotes).mp ⟨limit, hnearest⟩, hnearest, ?_⟩
    rw [Nat.pos_iff_ne_zero, ne_eq, hnearest.eq_zero_iff, not_le]

/-- **What the accepted texts give.** -/
theorem readSeconds_eq_ok_iff {text : String} {limit : Duration} :
    readSeconds text = .ok limit ↔ Means text limit := by
  rw [means_iff]
  unfold readSeconds
  split
  · next hempty =>
    refine ⟨nofun, ?_⟩
    rintro ⟨seconds, ⟨literal, hliteral, -⟩, -⟩
    rw [hempty, show Literal.read? "" = none by decide +kernel] at hliteral
    cases hliteral
  · split
    · next hnone =>
      refine ⟨nofun, ?_⟩
      rintro ⟨seconds, ⟨literal, hliteral, -⟩, -⟩
      rw [hnone] at hliteral
      cases hliteral
    · next literal hliteral =>
      rw [secondsOf_eq_ok_iff]
      constructor
      · rintro ⟨seconds, hdenotes, hpos, hnearest⟩
        exact ⟨seconds, ⟨literal, hliteral, hdenotes, hpos⟩, hnearest⟩
      · rintro ⟨seconds, ⟨other, hother, hdenotes, hpos⟩, hnearest⟩
        obtain rfl := Option.some.inj (hliteral.symm.trans hother)
        exact ⟨seconds, hdenotes, hpos, hnearest⟩

/-- A text is accepted as a time limit: it stands for a positive number of seconds, less than
`2 ^ 64`. -/
def IsTimeLimit (text : String) : Prop := ∃ seconds, IsSeconds text seconds ∧ seconds < 2 ^ 64

/-- **The texts that are accepted.** -/
theorem exists_readSeconds_iff {text : String} :
    (∃ limit, readSeconds text = .ok limit) ↔ IsTimeLimit text := by
  simp only [readSeconds_eq_ok_iff]
  constructor
  · rintro ⟨limit, seconds, hseconds, hlt, -⟩
    exact ⟨seconds, hseconds, hlt⟩
  · rintro ⟨seconds, hseconds, hlt⟩
    obtain ⟨literal, -, hdenotes, -⟩ := id hseconds
    obtain ⟨limit, hnearest⟩ := (exists_nearest_iff hdenotes).mpr hlt
    exact ⟨limit, means_iff.mpr ⟨seconds, hseconds, hnearest⟩⟩

/-! ## The limit of a run -/

/-- A text alone is accepted with the name of the option if it is a time limit. -/
theorem exists_readOptions_iff {text : String} :
    (∃ options, readOptions ["--timeout=" ++ text] = .ok options) ↔ IsTimeLimit text := by
  have hname : longName? "timeout" = some (.valued .timeout) := by decide +kernel
  have hread : readOptions ["--timeout=" ++ text] = Options.none.setValue .timeout text :=
    readOptions_attached hname (by decide) text
  rw [← exists_readSeconds_iff, hread, Options.setValue]
  cases readSeconds text with
  | ok limit => exact iff_of_true ⟨_, rfl⟩ ⟨_, rfl⟩
  | error error =>
    refine iff_of_false ?_ ?_
    · rintro ⟨options, h⟩
      cases h
    · rintro ⟨limit, h⟩
      cases h

/-- The limit that arguments ask for: the usual one if no text is given for it, else what the one
text says. -/
inductive AsksFor (arguments : List String) (limit : Duration) : Prop where
  | usual (none : timeoutTexts arguments = []) (eq : limit = .ofMilliseconds 2000)
  | read (text : String) (given : timeoutTexts arguments = [text]) (means : Means text limit)

theorem asksFor_of_readOptions {arguments : List String} {options : Options}
    (h : readOptions arguments = .ok options) (processors : ℕ) :
    AsksFor arguments (Config.ofOptions processors options).runner.limit := by
  have hlimit : (Config.ofOptions processors options).runner.limit =
      options.timeout?.getD Runner.defaultLimit := rfl
  rw [hlimit]
  have hsettles := settles_readOptions h
  generalize htexts : timeoutTexts arguments = texts at hsettles
  generalize options.timeout? = limit? at hsettles
  cases hsettles with
  | keep => exact .usual htexts rfl
  | read hread => exact .read _ htexts (readSeconds_eq_ok_iff.mp hread)

/-- Arguments with a text that is no time limit are refused. -/
theorem exists_error_of_text {arguments : List String} {text : String}
    (hgiven : text ∈ timeoutTexts arguments) (htext : ¬ IsTimeLimit text) :
    ∃ error, readOptions arguments = .error error := by
  cases hread : readOptions arguments with
  | error error => exact ⟨error, rfl⟩
  | ok options =>
    have hsettles := settles_readOptions hread
    generalize timeoutTexts arguments = texts at hgiven hsettles
    generalize options.timeout? = limit? at hsettles
    cases hsettles with
    | keep => cases hgiven
    | read haccepted =>
      rw [List.mem_singleton.mp hgiven] at htext
      exact absurd (exists_readSeconds_iff.mp ⟨_, haccepted⟩) htext

/-- **The limit is positive** exactly if a text that is given for it stands for more than half a
nanosecond. -/
theorem AsksFor.pos_iff {arguments : List String} {limit : Duration} (h : AsksFor arguments limit) :
    0 < limit.nanoseconds ↔
      ∀ text ∈ timeoutTexts arguments, ∀ seconds, IsSeconds text seconds →
        1 / 2 < seconds * 10 ^ 9 := by
  cases h with
  | usual hnone hlimit =>
    rw [hnone, hlimit]
    exact iff_of_true (by decide) nofun
  | read text hgiven hmeans =>
    obtain ⟨seconds, hseconds, -, -, hpos⟩ := hmeans
    obtain ⟨literal, hliteral, hdenotes, -⟩ := id hseconds
    rw [hgiven, List.forall_mem_singleton, hpos]
    constructor
    · intro hlarge other hother
      obtain ⟨literal', hliteral', hother, -⟩ := hother
      obtain rfl := Option.some.inj (hliteral.symm.trans hliteral')
      rwa [hother.eq hdenotes]
    · intro hall
      exact hall seconds hseconds

/-- **The time limit of a command line.** A text is accepted exactly if it stands for a positive
number of seconds that is less than `2 ^ 64`, be it read by itself or given alone; any other one is
a reason to refuse the arguments that give it. The limit of arguments that are accepted is what
their one text means, to the nearest nanosecond, or the usual one if there is no text. So it is
positive only if the number is more than half a nanosecond. -/
theorem limit_of_accepted_options (arguments : List String) (processors : ℕ) :
    (∀ text limit, readSeconds text = .ok limit ↔ Means text limit) ∧
    (∀ text, (∃ limit, readSeconds text = .ok limit) ↔ IsTimeLimit text) ∧
    (∀ text, (∃ options, readOptions ["--timeout=" ++ text] = .ok options) ↔ IsTimeLimit text) ∧
    (∀ text ∈ timeoutTexts arguments, ¬ IsTimeLimit text →
      ∃ error, readOptions arguments = .error error) ∧
    ∀ options, readOptions arguments = .ok options →
      AsksFor arguments (Config.ofOptions processors options).runner.limit ∧
      (0 < (Config.ofOptions processors options).runner.limit.nanoseconds ↔
        ∀ text ∈ timeoutTexts arguments, ∀ seconds, IsSeconds text seconds →
          1 / 2 < seconds * 10 ^ 9) := by
  refine ⟨fun _ _ => readSeconds_eq_ok_iff, fun _ => exists_readSeconds_iff,
    fun _ => exists_readOptions_iff, fun _ => exists_error_of_text, fun options h => ?_⟩
  have hasks := asksFor_of_readOptions h processors
  exact ⟨hasks, hasks.pos_iff⟩

/-- Half a second is accepted, and is the limit. -/
theorem limit_of_half_a_second :
    ∃ options, readOptions ["--timeout", "0.5", "-v"] = .ok options ∧
      (Config.ofOptions 1 options).runner.limit = .ofMilliseconds 500 ∧
      timeoutTexts ["--timeout", "0.5", "-v"] = ["0.5"] ∧
      Means "0.5" (.ofMilliseconds 500) := by
  have hread : readOptions ["--timeout", "0.5", "-v"] =
      .ok { Options.none with timeout? := some (.ofMilliseconds 500), verbosity := 1 } := by
    decide +kernel
  have htexts : timeoutTexts ["--timeout", "0.5", "-v"] = ["0.5"] := by decide +kernel
  refine ⟨_, hread, rfl, htexts, ?_⟩
  obtain ⟨-, -, -, -, hall⟩ := limit_of_accepted_options ["--timeout", "0.5", "-v"] 1
  cases (hall _ hread).1 with
  | usual hnone => cases htexts.symm.trans hnone
  | read text hgiven hmeans =>
    cases htexts.symm.trans hgiven
    exact hmeans

/-- A tenth of a nanosecond is accepted, and leaves no time for anything. -/
theorem zero_limit_of_accepted_options :
    ∃ options, readOptions ["--timeout=1e-10"] = .ok options ∧
      (Config.ofOptions 1 options).runner.limit = .zero := by
  have hread : readOptions ["--timeout=1e-10"] =
      .ok { Options.none with timeout? := some .zero } := by decide +kernel
  exact ⟨_, hread, rfl⟩

end CommandLine

end CompressorBench
