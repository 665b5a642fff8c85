import CompressorBench.CommandLine.Options

/-!
# What every argument keeps

Arguments change options in two ways only: an option is given its value, or a switch is turned on.
What both of them keep is kept by every argument, and so holds of the options of every command line
that is accepted.

* `IsKept.readShorts`, `IsKept.readAll`: by induction on the names in one argument, and on the
  arguments.
* `IsKept.readOptions`: what holds of accepted options.
* `isKept_hasRead`: a value among accepted options was read from a text.
* `readOptions_attached`: a value in one argument with the name of its option.
-/

namespace CompressorBench.CommandLine

theorem bind_eq_ok {ε α β : Type} {x : Except ε α} {f : α → Except ε β} {b : β} :
    (x >>= f) = .ok b ↔ ∃ a, x = .ok a ∧ f a = .ok b := by
  cases x <;> simp [bind, Except.bind]

/-- A property that options have to begin with, and that every value and every switch keeps. -/
structure IsKept (P : Options → Prop) : Prop where
  none : P .none
  setValue : ∀ {options next : Options} {option : ValueOption} {value : String},
    P options → options.setValue option value = .ok next → P next
  setSwitch : ∀ {options next : Options} {switch : Switch},
    P options → options.setSwitch switch = .ok next → P next

namespace IsKept

variable {P : Options → Prop} {progress next : Progress}

theorem settle {options : Options} (hkept : IsKept P) (h : P progress.options)
    (hsettle : progress.settle = .ok options) : P options := by
  unfold Progress.settle at hsettle
  split at hsettle
  · cases hsettle
    exact h
  · cases hsettle
  · exact hkept.setValue h hsettle

theorem attach {option : ValueOption} {value : String} (hkept : IsKept P) (h : P progress.options)
    (hattach : progress.attach option value = .ok next) : P next.options := by
  obtain ⟨options, hsettle, hrest⟩ := bind_eq_ok.mp hattach
  obtain ⟨last, hset, hnext⟩ := bind_eq_ok.mp hrest
  cases hnext
  exact hkept.setValue (hkept.settle h hsettle) hset

theorem expect {option : ValueOption} (hkept : IsKept P) (h : P progress.options)
    (hexpect : progress.expect option = .ok next) : P next.options := by
  obtain ⟨options, hsettle, hnext⟩ := bind_eq_ok.mp hexpect
  cases hnext
  exact hkept.settle h hsettle

theorem turnOn {switch : Switch} (hkept : IsKept P) (h : P progress.options)
    (hturn : progress.turnOn switch = .ok next) : P next.options := by
  obtain ⟨options, hsettle, hrest⟩ := bind_eq_ok.mp hturn
  obtain ⟨last, hset, hnext⟩ := bind_eq_ok.mp hrest
  cases hnext
  exact hkept.setSwitch (hkept.settle h hsettle) hset

theorem readLong {name : List Char} {value? : Option (List Char)} (hkept : IsKept P)
    (h : P progress.options) (hread : progress.readLong name value? = .ok next) :
    P next.options := by
  unfold Progress.readLong at hread
  split at hread
  · cases hread
  · exact hkept.attach h hread
  · exact hkept.expect h hread
  · cases hread
  · exact hkept.turnOn h hread

/-- Several switches may stand in one argument, so this is by induction on its names. -/
theorem readShorts {names : List Char} (hkept : IsKept P) (h : P progress.options)
    (hread : progress.readShorts names = .ok next) : P next.options := by
  induction names generalizing progress with
  | nil =>
    cases hread
    exact h
  | cons c rest ih =>
    unfold Progress.readShorts at hread
    split at hread
    · cases hread
    · split at hread
      · exact hkept.expect h hread
      · exact hkept.attach h hread
      · exact hkept.attach h hread
    · obtain ⟨turned, hturn, hrest⟩ := bind_eq_ok.mp hread
      exact ih (hkept.turnOn h hturn) hrest

theorem readText {text : String} (h : P progress.options)
    (hread : progress.readText text = .ok next) : P next.options := by
  unfold Progress.readText at hread
  split at hread
  · cases hread
    exact h
  · cases hread

theorem readArgument {argument : String} (hkept : IsKept P) (h : P progress.options)
    (hread : progress.readArgument argument = .ok next) : P next.options := by
  unfold Progress.readArgument at hread
  split at hread
  · exact hkept.readLong h hread
  · exact hkept.readShorts h hread
  · exact readText h hread

/-- **Every argument keeps what every value and every switch keeps.** -/
theorem readAll {arguments : List String} (hkept : IsKept P) (h : P progress.options)
    (hread : progress.readAll arguments = .ok next) : P next.options := by
  induction arguments generalizing progress with
  | nil =>
    cases hread
    exact h
  | cons argument rest ih =>
    unfold Progress.readAll at hread
    split at hread
    · split at hread
      · cases hread
        exact h
      · cases hread
    · obtain ⟨read, hargument, hrest⟩ := bind_eq_ok.mp hread
      exact ih (hkept.readArgument h hargument) hrest

theorem readOptions {arguments : List String} {options : Options} (hkept : IsKept P)
    (h : CommandLine.readOptions arguments = .ok options) : P options := by
  obtain ⟨last, hread, hsettle⟩ := bind_eq_ok.mp h
  exact hkept.settle (hkept.readAll hkept.none hread) hsettle

end IsKept

/-! ## Values that are read -/

/-- What switches leave alone. -/
theorem values_of_setSwitch {options next : Options} {switch : Switch}
    (h : options.setSwitch switch = .ok next) :
    next.timeout? = options.timeout? ∧ next.jobs? = options.jobs? := by
  unfold Options.setSwitch at h
  split at h
  · split at h
    · cases h
    · cases h
      exact ⟨rfl, rfl⟩
  · cases h
    exact ⟨rfl, rfl⟩
  · cases h
  · cases h

section Values

variable {α ε : Type} {field : Options → Option α} {read : String → Except ε α}

theorem exists_of_setOnce {old new : Option α} {result : Except ε α} {message : ε → UsageError}
    (h : Options.setOnce old (result.mapError message) = .ok new) :
    ∃ x, result = .ok x ∧ new = some x := by
  unfold Options.setOnce at h
  split at h
  · cases h
  · cases result with
    | error e => cases h
    | ok x =>
      cases h
      exact ⟨x, rfl, rfl⟩

/-- A value among options, if there is one, was read from a text. -/
def HasRead (field : Options → Option α) (read : String → Except ε α) (options : Options) : Prop :=
  ∀ x, field options = some x → ∃ text, read text = .ok x

/-- **Every argument keeps that a value was read from a text**, if it is read when an option is
given its value, and nothing else changes it. -/
theorem isKept_hasRead (hnone : field .none = none)
    (hvalue : ∀ {options next : Options} {option : ValueOption} {value : String},
      options.setValue option value = .ok next →
        field next = field options ∨ ∃ x, read value = .ok x ∧ field next = some x)
    (hswitch : ∀ {options next : Options} {switch : Switch},
      options.setSwitch switch = .ok next → field next = field options) :
    IsKept (HasRead field read) := by
  constructor
  · intro x hx
    rw [hnone] at hx
    cases hx
  · intro options next option value h hset x hx
    rcases hvalue hset with hsame | ⟨y, hread, hnew⟩
    · exact h x (hsame ▸ hx)
    · rw [hnew] at hx
      exact ⟨value, Option.some.inj hx ▸ hread⟩
  · intro options next switch h hset x hx
    exact h x (hswitch hset ▸ hx)

end Values

/-! ## Names and values in one argument -/

/-- A name ends at the first equals sign. -/
theorem splitValue_append {name : List Char} (h : '=' ∉ name) (value : List Char) :
    Progress.splitValue (name ++ '=' :: value) = (name, some value) := by
  have hname : ∀ c ∈ name, (c != '=') = true := fun c hc =>
    bne_iff_ne.mpr (ne_of_mem_of_not_mem hc h)
  unfold Progress.splitValue
  rw [List.dropWhile_append_of_pos hname, List.takeWhile_append_of_pos hname]
  simp

theorem splitValue_of_not_mem {name : List Char} (h : '=' ∉ name) :
    Progress.splitValue name = (name, none) := by
  have hname : ∀ c ∈ name, (c != '=') = true := fun c hc =>
    bne_iff_ne.mpr (ne_of_mem_of_not_mem hc h)
  have hdrop := @List.dropWhile_append_of_pos _ _ _ [] hname
  rw [List.append_nil, List.dropWhile_nil] at hdrop
  rw [Progress.splitValue, hdrop]

/-- An option that is given its value in one argument, and nothing else. -/
theorem readOptions_attached {name : String} {option : ValueOption}
    (hname : longName? name = some (.valued option)) (hequals : '=' ∉ name.toList)
    (text : String) :
    readOptions ["--" ++ name ++ "=" ++ text] = Options.none.setValue option text := by
  have hlist : ("--" ++ name ++ "=" ++ text).toList =
      '-' :: '-' :: (name.toList ++ '=' :: text.toList) := by simp
  have hne : "--" ++ name ++ "=" ++ text ≠ "--" := by
    intro heq
    have hchars := congrArg String.toList heq
    rw [hlist] at hchars
    simp at hchars
  have hread : Progress.readArgument ⟨.none, .none⟩ ("--" ++ name ++ "=" ++ text) =
      Progress.attach ⟨.none, .none⟩ option text := by
    unfold Progress.readArgument
    rw [hlist]
    show Progress.readLong _ (Progress.splitValue _).1 (Progress.splitValue _).2 = _
    rw [splitValue_append hequals]
    unfold Progress.readLong
    rw [String.ofList_toList, hname]
    exact congrArg (Progress.attach _ option) String.ofList_toList
  rw [readOptions, Progress.readAll, if_neg hne, hread]
  cases hset : Options.none.setValue option text with
  | error error =>
    show (Except.bind (Except.bind (Except.bind (Options.none.setValue option text) _) _) _) = _
    rw [hset]
    rfl
  | ok options =>
    show (Except.bind (Except.bind (Except.bind (Options.none.setValue option text) _) _) _) = _
    rw [hset]
    rfl

end CompressorBench.CommandLine
