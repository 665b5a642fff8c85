import CompressorBench.Proofs.CommandLine.Arguments

/-!
# What the arguments say about the time limit

A text is given for the time limit in the same argument as the name of the option, or in the next
one (`timeoutTexts`). The arguments are read from the left, and a text may be held back until
something else comes up. Along the way, what is read and what is not read yet are together all of
the texts (`Progress.Takes`). So if the arguments are accepted, all texts in them were read, and
there was one at most.

* `takes_readShorts`, `takes_readLong`: what the names in one argument make of the texts.
* `takes_readArgument`, `settles_readAll`: by cases on an argument, and by induction on all of them.
* `settles_readOptions`: the texts of accepted arguments.
-/

namespace CompressorBench.CommandLine

/-! ## Texts -/

/-- The text that an argument gives together with the name. -/
def attachedText? (argument : String) : Option String :=
  if "--timeout=".toList <+: argument.toList then
    some (String.ofList (argument.toList.drop "--timeout=".length))
  else none

theorem attachedText?_eq_some_iff {argument text : String} :
    attachedText? argument = some text ↔ argument = "--timeout=" ++ text := by
  unfold attachedText?
  rw [← @String.toList_inj argument, String.toList_append]
  constructor
  · intro h
    split at h
    · next hprefix =>
      obtain ⟨rest, hrest⟩ := hprefix
      rw [← hrest] at h ⊢
      have hdrop : ("--timeout=".toList ++ rest).drop "--timeout=".length = rest :=
        List.drop_left' (by decide)
      rw [hdrop] at h
      obtain rfl := Option.some.inj h
      exact congrArg ("--timeout=".toList ++ ·) String.toList_ofList.symm
    · cases h
  · intro h
    have hdrop : ("--timeout=".toList ++ text.toList).drop "--timeout=".length = text.toList :=
      List.drop_left' (by decide)
    rw [h, if_pos (List.prefix_append _ _), hdrop, String.ofList_toList]

/-- What an argument gives: the text in it, or, if it is the name alone, the next argument. -/
def givenTexts (argument : String) (next? : Option String) : List String :=
  (attachedText? argument).toList ++ if argument = "--timeout" then next?.toList else []

/-- The texts that arguments give as a time limit. -/
def timeoutTexts : List String → List String
  | [] => []
  | argument :: rest => givenTexts argument rest.head? ++ timeoutTexts rest

example : timeoutTexts ["--timeout", "0.5", "-v", "--timeout=2"] = ["0.5", "2"] := by
  decide +kernel

/-- Reading texts one after the other turns a time limit into another one: only one can be read,
when there is none yet. -/
inductive Settles : Option Duration → List String → Option Duration → Prop where
  | keep {limit? : Option Duration} : Settles limit? [] limit?
  | read {text : String} {limit : Duration} (h : readSeconds text = .ok limit) :
      Settles none [text] (some limit)

theorem Settles.trans {first second third : Option Duration} {texts more : List String}
    (h : Settles first texts second) (h' : Settles second more third) :
    Settles first (texts ++ more) third := by
  cases h with
  | keep => exact h'
  | read hread =>
    cases h' with
    | keep => exact .read hread

namespace Progress

/-- The text that was not read yet: it is held back, or it is the next argument. -/
def texts (progress : Progress) (next? : Option String) : List String :=
  match progress.pending? with
  | some ⟨.timeout, some text⟩ => [text]
  | some ⟨.timeout, none⟩ => next?.toList
  | _ => []

/-- An argument takes what was not read yet: what is read now, and what is not read after it, are
together what was not read before it and what the argument gives. -/
def Takes (progress : Progress) (argument : String) (given : Option String → List String)
    (next : Progress) : Prop :=
  ∃ taken, Settles progress.options.timeout? taken next.options.timeout? ∧
    ∀ next?, taken ++ next.texts next? = progress.texts (some argument) ++ given next?

end Progress

variable {progress next : Progress} {argument : String}

theorem Progress.Takes.trans {middle : Progress} {given : Option String → List String}
    (h : progress.Takes argument (fun _ => []) middle) (h' : middle.Takes argument given next) :
    progress.Takes argument given next := by
  obtain ⟨taken, hsettles, htexts⟩ := h
  obtain ⟨more, hmore, hrest⟩ := h'
  refine ⟨taken ++ more, hsettles.trans hmore, fun next? => ?_⟩
  rw [List.append_assoc, hrest, ← List.append_assoc, htexts, List.append_nil]

/-! ## Names -/

theorem settles_setValue {options next : Options} {option : ValueOption} {value : String}
    (h : options.setValue option value = .ok next) :
    Settles options.timeout? (if option = .timeout then [value] else []) next.timeout? := by
  cases option <;> obtain ⟨new, hnew, hnext⟩ := bind_eq_ok.mp h <;> cases hnext
  case timeout =>
    have hnone : options.timeout? = none := by
      cases hold : options.timeout? with
      | none => rfl
      | some limit =>
        rw [hold] at hnew
        cases hnew
    obtain ⟨limit, hread, rfl⟩ := exists_of_setOnce hnew
    rw [hnone]
    exact .read hread
  all_goals exact .keep

/-- What is held back is read; nothing may be missing. -/
theorem settles_settle {options : Options} (h : progress.settle = .ok options) :
    ∃ held, (∀ next?, progress.texts next? = held) ∧
      Settles progress.options.timeout? held options.timeout? := by
  obtain ⟨before, pending?⟩ := progress
  unfold Progress.settle at h
  split at h
  · next hnone =>
    cases h
    cases hnone
    exact ⟨[], fun _ => rfl, .keep⟩
  · cases h
  · next option value hsome =>
    cases hsome
    refine ⟨_, fun next? => ?_, settles_setValue h⟩
    cases option <;> rfl

theorem takes_attach {option : ValueOption} {value : String}
    (h : progress.attach option value = .ok next) :
    progress.Takes argument (fun _ => if option = .timeout then [value] else []) next := by
  obtain ⟨options, hsettle, hrest⟩ := bind_eq_ok.mp h
  obtain ⟨last, hset, hnext⟩ := bind_eq_ok.mp hrest
  cases hnext
  obtain ⟨held, hheld, hsettles⟩ := settles_settle hsettle
  refine ⟨_, hsettles.trans (settles_setValue hset), fun next? => ?_⟩
  rw [hheld, Progress.texts, List.append_nil]

theorem takes_expect {option : ValueOption} (h : progress.expect option = .ok next) :
    progress.Takes argument
      (fun next? => if option = .timeout then next?.toList else []) next := by
  obtain ⟨options, hsettle, hnext⟩ := bind_eq_ok.mp h
  cases hnext
  obtain ⟨held, hheld, hsettles⟩ := settles_settle hsettle
  refine ⟨held, hsettles, fun next? => ?_⟩
  rw [hheld]
  cases option <;> rfl

theorem takes_turnOn {switch : Switch} (h : progress.turnOn switch = .ok next) :
    progress.Takes argument (fun _ => []) next := by
  obtain ⟨options, hsettle, hrest⟩ := bind_eq_ok.mp h
  obtain ⟨last, hset, hnext⟩ := bind_eq_ok.mp hrest
  cases hnext
  obtain ⟨held, hheld, hsettles⟩ := settles_settle hsettle
  refine ⟨held, ?_, fun next? => ?_⟩
  · rw [(values_of_setSwitch hset).1]
    exact hsettles
  · rw [hheld]
    rfl

theorem ne_timeout_of_shortName? {c : Char} {option : ValueOption}
    (h : shortName? c = some (.valued option)) : option ≠ .timeout := by
  simp only [shortName?, List.lookup_cons, List.lookup_nil] at h
  repeat' split at h
  all_goals cases h
  decide

/-- The time limit has no short name. -/
theorem takes_readShorts {c : Char} {names : List Char}
    (h : progress.readShorts (c :: names) = .ok next) :
    progress.Takes argument (fun _ => []) next := by
  induction names generalizing c progress with
  | nil =>
    unfold Progress.readShorts at h
    split at h
    · cases h
    · next option hname =>
      have hexpect : progress.Takes argument
          (fun next? => if option = .timeout then next?.toList else []) next := takes_expect h
      simpa only [if_neg (ne_timeout_of_shortName? hname)] using hexpect
    · obtain ⟨turned, hturn, hrest⟩ := bind_eq_ok.mp h
      cases hrest
      exact takes_turnOn hturn
  | cons c' names ih =>
    unfold Progress.readShorts at h
    split at h
    · cases h
    · next option hname =>
      have hvalue : ∀ value, progress.attach option value = .ok next →
          progress.Takes argument (fun _ => []) next := by
        intro value hattach
        have htakes : progress.Takes argument
            (fun _ => if option = .timeout then [value] else []) next := takes_attach hattach
        simpa only [if_neg (ne_timeout_of_shortName? hname)] using htakes
      split at h
      · next hnil => cases hnil
      · exact hvalue _ h
      · exact hvalue _ h
    · obtain ⟨turned, hturn, hrest⟩ := bind_eq_ok.mp h
      exact (takes_turnOn hturn).trans (ih hrest)

theorem eq_timeout_iff_of_longName? {text : String} {option : ValueOption}
    (h : longName? text = some (.valued option)) : option = .timeout ↔ text = "timeout" := by
  simp only [longName?, List.lookup_cons, List.lookup_nil] at h
  repeat' split at h
  all_goals cases h
  all_goals simp_all

/-- What a long name gives: its value if there is one, or else the next argument. -/
def longTexts (name : List Char) (value? : Option (List Char)) (next? : Option String) :
    List String :=
  if String.ofList name = "timeout" then
    match value? with
    | some value => [String.ofList value]
    | none => next?.toList
  else []

theorem takes_readLong {name : List Char} {value? : Option (List Char)}
    (h : progress.readLong name value? = .ok next) :
    progress.Takes argument (longTexts name value?) next := by
  unfold Progress.readLong at h
  cases hname : longName? (String.ofList name) with
  | none =>
    rw [hname] at h
    cases h
  | some found =>
    cases found with
    | valued option =>
      unfold longTexts
      simp only [← eq_timeout_iff_of_longName? hname]
      rw [hname] at h
      cases value? with
      | some value => exact takes_attach h
      | none => exact takes_expect h
    | switch switch =>
      have hne : String.ofList name ≠ "timeout" := by
        intro heq
        rw [heq] at hname
        cases hname
      unfold longTexts
      simp only [if_neg hne]
      rw [hname] at h
      cases value? with
      | some value => cases h
      | none => exact takes_turnOn h

/-! ## Arguments -/

/-- Where a long argument is split. -/
theorem splitValue_cases (chars : List Char) :
    (∃ name value, '=' ∉ name ∧ chars = name ++ '=' :: value ∧
        Progress.splitValue chars = (name, some value)) ∨
      '=' ∉ chars ∧ Progress.splitValue chars = (chars, none) := by
  by_cases h : '=' ∈ chars
  · obtain ⟨name, value, rfl, hname⟩ := List.eq_append_cons_of_mem h
    exact .inl ⟨name, value, hname, rfl, splitValue_append hname value⟩
  · exact .inr ⟨h, splitValue_of_not_mem h⟩

/-- The name of the option, without its dashes. -/
def timeoutName : List Char := ['t', 'i', 'm', 'e', 'o', 'u', 't']

theorem ofList_eq_timeout_iff {name : List Char} :
    String.ofList name = "timeout" ↔ name = timeoutName := by
  rw [← String.toList_inj, String.toList_ofList]
  rfl

theorem toList_timeout (text : String) :
    ("--timeout=" ++ text).toList = '-' :: '-' :: (timeoutName ++ '=' :: text.toList) := by
  rw [String.toList_append]
  rfl

theorem equals_not_mem_timeoutName : '=' ∉ timeoutName := by decide

/-- An argument without two dashes gives nothing. -/
theorem givenTexts_of_ne (h : ∀ rest, argument.toList ≠ '-' :: '-' :: rest)
    (next? : Option String) : givenTexts argument next? = [] := by
  have hname : argument ≠ "--timeout" := by
    rintro rfl
    exact h _ rfl
  have hnone : attachedText? argument = none := by
    cases htext : attachedText? argument with
    | none => rfl
    | some text =>
      rw [attachedText?_eq_some_iff.mp htext] at h
      exact absurd (toList_timeout text) (h _)
  rw [givenTexts, hnone, if_neg hname]
  rfl

theorem eq_timeout_iff_of_long {rest : List Char} (hlist : argument.toList = '-' :: '-' :: rest) :
    argument = "--timeout" ↔ rest = timeoutName := by
  rw [← String.toList_inj, hlist]
  simp [timeoutName]

theorem attachedText?_of_long {rest : List Char} (hlist : argument.toList = '-' :: '-' :: rest)
    {text : String} :
    attachedText? argument = some text ↔ rest = timeoutName ++ '=' :: text.toList := by
  rw [attachedText?_eq_some_iff, ← String.toList_inj, hlist, toList_timeout]
  simp

/-- An argument with two dashes and an equals sign gives its value, if it has the name. -/
theorem givenTexts_of_value {name value : List Char} (hno : '=' ∉ name)
    (hlist : argument.toList = '-' :: '-' :: (name ++ '=' :: value)) (next? : Option String) :
    givenTexts argument next? = longTexts name (some value) next? := by
  have hne : name ++ '=' :: value ≠ timeoutName := by
    intro heq
    exact equals_not_mem_timeoutName (heq ▸ List.mem_append_right _ List.mem_cons_self)
  rw [givenTexts, if_neg (mt (eq_timeout_iff_of_long hlist).mp hne), List.append_nil]
  by_cases hname : name = timeoutName
  · have htext : attachedText? argument = some (String.ofList value) :=
      (attachedText?_of_long hlist).mpr (by rw [hname, String.toList_ofList])
    rw [htext, longTexts, if_pos (ofList_eq_timeout_iff.mpr hname)]
    rfl
  · rw [longTexts, if_neg (mt ofList_eq_timeout_iff.mp hname)]
    cases htext : attachedText? argument with
    | none => rfl
    | some text =>
      have hsplit := congrArg Progress.splitValue ((attachedText?_of_long hlist).mp htext)
      rw [splitValue_append hno, splitValue_append equals_not_mem_timeoutName] at hsplit
      exact absurd (Prod.mk.inj hsplit).1 hname

/-- An argument with two dashes and no equals sign gives the next one, if it is the name. -/
theorem givenTexts_of_name {name : List Char} (hno : '=' ∉ name)
    (hlist : argument.toList = '-' :: '-' :: name) (next? : Option String) :
    givenTexts argument next? = longTexts name none next? := by
  have hnone : attachedText? argument = none := by
    cases htext : attachedText? argument with
    | none => rfl
    | some text =>
      rw [(attachedText?_of_long hlist).mp htext] at hno
      exact absurd (List.mem_append_right _ List.mem_cons_self) hno
  unfold givenTexts longTexts
  simp only [eq_timeout_iff_of_long hlist, ofList_eq_timeout_iff]
  rw [hnone]
  rfl

/-- An argument with two dashes gives what its name and value give. -/
theorem givenTexts_of_long {rest name : List Char} {value? : Option (List Char)}
    (hlist : argument.toList = '-' :: '-' :: rest)
    (hsplit : Progress.splitValue rest = (name, value?)) (next? : Option String) :
    givenTexts argument next? = longTexts name value? next? := by
  rcases splitValue_cases rest with ⟨name', value, hno, rfl, hcut⟩ | ⟨hno, hcut⟩
  · obtain ⟨rfl, rfl⟩ := Prod.mk.inj (hcut.symm.trans hsplit)
    exact givenTexts_of_value hno hlist next?
  · obtain ⟨rfl, rfl⟩ := Prod.mk.inj (hcut.symm.trans hsplit)
    exact givenTexts_of_name hno hlist next?

/-- A text that is no option becomes the value that is missing. -/
theorem takes_readText (h : progress.readText argument = .ok next) :
    progress.Takes argument (fun _ => []) next := by
  obtain ⟨options, pending?⟩ := progress
  unfold Progress.readText at h
  split at h
  · next option hpending =>
    cases h
    cases hpending
    refine ⟨[], .keep, fun next? => ?_⟩
    cases option <;> rfl
  · cases h

theorem takes_readArgument (h : progress.readArgument argument = .ok next) :
    progress.Takes argument (givenTexts argument) next := by
  unfold Progress.readArgument at h
  split at h
  · next rest hlist =>
    cases hsplit : Progress.splitValue rest with
    | mk name value? =>
      rw [hsplit] at h
      rw [funext (givenTexts_of_long hlist hsplit)]
      exact takes_readLong h
  · next c rest hlong hlist =>
    have hne : ∀ more, argument.toList ≠ '-' :: '-' :: more := by
      intro more heq
      rw [hlist] at heq
      exact hlong (List.cons.inj (List.cons.inj heq).2).1
    rw [funext (givenTexts_of_ne hne)]
    exact takes_readShorts h
  · next hlong _ =>
    rw [funext (givenTexts_of_ne fun more heq => hlong more heq)]
    exact takes_readText h

/-- **All texts are read in the end**, those not read yet and those of the arguments to come. -/
theorem settles_readAll {arguments : List String} {last : Progress} {options : Options}
    (h : progress.readAll arguments = .ok last) (hsettle : last.settle = .ok options) :
    Settles progress.options.timeout?
      (progress.texts arguments.head? ++ timeoutTexts arguments) options.timeout? := by
  induction arguments generalizing progress with
  | nil =>
    cases h
    obtain ⟨held, hheld, hsettles⟩ := settles_settle hsettle
    rw [hheld, timeoutTexts, List.append_nil]
    exact hsettles
  | cons argument rest ih =>
    unfold Progress.readAll at h
    split at h
    · next hdashes =>
      split at h
      · next hrest =>
        cases h
        obtain ⟨held, hheld, hsettles⟩ := settles_settle hsettle
        rw [hheld, hdashes, hrest]
        have hnone : timeoutTexts ["--"] = [] := by decide +kernel
        rw [hnone, List.append_nil]
        exact hsettles
      · cases h
    · obtain ⟨next, hargument, hrest⟩ := bind_eq_ok.mp h
      obtain ⟨taken, hsettles, htexts⟩ := takes_readArgument hargument
      have hall := hsettles.trans (ih hrest)
      rw [← List.append_assoc, htexts] at hall
      rw [timeoutTexts, ← List.append_assoc]
      exact hall

/-- **The texts of accepted arguments** are all read: there is one at most, and the time limit is
what it says. -/
theorem settles_readOptions {arguments : List String} {options : Options}
    (h : readOptions arguments = .ok options) :
    Settles none (timeoutTexts arguments) options.timeout? := by
  obtain ⟨last, hread, hsettle⟩ := bind_eq_ok.mp h
  exact settles_readAll hread hsettle

end CompressorBench.CommandLine
