import CompressorBench.Proofs.Json.Number

/-!
# Values are read back

Both layouts are written by one printer, which differs in nothing but the blanks between the parts
of a value, and the reader skips these. So the two texts of a value are read as the same value. It
is the value that was written, up to what a text cannot tell or a reader does not keep: a floating
point number that is not finite is read as `null`, and a whole number that is not kept is read as
the nearest floating point number.

The reader is first freed of the proofs that every rest is shorter, by one equation for each of its
functions. From these come rules, one for each way a value, the items of an array or the members of
an object can be read; the induction over the value then uses the rules only.

* `reads_chars`: a value is read back, whatever blanks stand before it and whatever follows it.
* `readWith?_compact_indented`: both texts are read as the same value.
-/

namespace CompressorBench.Json

open Decimal.Binary64 (ofFloat)

variable {keeps : ℤ → Bool} {cs rest tail more : List Char} {c : Char}

/-! ## The rules of the reader -/

/-- What was read, and the rest, without the proof that the rest is shorter. -/
def plainRest {α : Type} (result : α × Rest cs) : α × List Char := (result.1, result.2.val)

/-- A value is read off the front of a text, and a rest is left. -/
def Reads (keeps : ℤ → Bool) (cs : List Char) (value : Json) (rest : List Char) : Prop :=
  (readValue? keeps cs).map plainRest = some (value, rest)

/-- The items of an array are read up to the closing bracket. -/
def ReadsItems (keeps : ℤ → Bool) (cs : List Char) (items : List Json) (rest : List Char) : Prop :=
  (readItems? keeps cs).map plainRest = some (items, rest)

/-- The members of an object are read up to the closing brace. -/
def ReadsMembers (keeps : ℤ → Bool) (cs : List Char) (members : List (String × Json))
    (rest : List Char) : Prop :=
  (readMembers? keeps cs).map plainRest = some (members, rest)

/-- A result is known up to the proof that its rest is shorter. -/
theorem exists_of_map_plainRest {α : Type} {result? : Option (α × Rest cs)} {a : α}
    (h : result?.map plainRest = some (a, rest)) :
    ∃ hlt, result? = some (a, ⟨rest, hlt⟩) := by
  obtain ⟨⟨b, other, hlt⟩, hresult, heq⟩ := Option.map_eq_some_iff.mp h
  cases heq
  exact ⟨hlt, hresult⟩

theorem readText?_eq {text : List Char} (h : Text.readQuoted? [] cs = some (text, rest)) :
    (readText? cs).map plainRest = some (String.ofList text, rest) := by
  unfold readText?
  split
  · next hnone => rw [h] at hnone; cases hnone
  · next hsome =>
    rw [h] at hsome
    cases hsome
    rfl

/-- A value by its first character. -/
theorem plainRest_readValue? (hskip : skipSpace cs = c :: tail) :
    (readValue? keeps cs).map plainRest =
      if c = '"' then ((readText? tail).map plainRest).map (Prod.map .str id)
      else if c = '[' then
        match skipSpace tail with
        | ']' :: more => some (.arr [], more)
        | _ => ((readItems? keeps tail).map plainRest).map (Prod.map .arr id)
      else if c = '\x7b' then
        match skipSpace tail with
        | '\x7d' :: more => some (.obj [], more)
        | _ => ((readMembers? keeps tail).map plainRest).map (Prod.map .obj id)
      else
        (if c = 'n' then readName? "null".toList .null (c :: tail) (by decide)
        else if c = 't' then readName? "true".toList (.bool true) (c :: tail) (by decide)
        else if c = 'f' then readName? "false".toList (.bool false) (c :: tail) (by decide)
        else readNumberPart? keeps (c :: tail)).map plainRest := by
  rw [readValue?]
  split
  · next hnil => rw [hskip] at hnil; cases hnil
  · next hcons =>
    rw [hskip] at hcons
    cases hcons
    split
    · cases readText? tail <;> rfl
    · split
      · split
        · next hclose => simp only [hclose]; rfl
        · next hno =>
          cases readItems? keeps tail <;> dsimp only <;> split
          · next more hclose => exact absurd hclose (hno more)
          · rfl
          · next more hclose => exact absurd hclose (hno more)
          · rfl
      · split
        · split
          · next hclose => simp only [hclose]; rfl
          · next hno =>
            cases readMembers? keeps tail <;> dsimp only <;> split
            · next more hclose => exact absurd hclose (hno more)
            · rfl
            · next more hclose => exact absurd hclose (hno more)
            · rfl
        · dsimp only
          generalize (if c = 'n' then _ else _ : Option (Json × Rest (c :: tail))) = scalar
          cases scalar <;> rfl

theorem reads_string {text : List Char} (hskip : skipSpace cs = '"' :: tail)
    (h : Text.readQuoted? [] tail = some (text, rest)) :
    Reads keeps cs (.str (String.ofList text)) rest := by
  rw [Reads, plainRest_readValue? hskip, if_pos rfl, readText?_eq h]
  rfl

theorem reads_array_nil (hskip : skipSpace cs = '[' :: tail) (h : skipSpace tail = ']' :: rest) :
    Reads keeps cs (.arr []) rest := by
  rw [Reads, plainRest_readValue? hskip, if_neg (by decide), if_pos rfl, h]
  rfl

theorem reads_array {items : List Json} (hskip : skipSpace cs = '[' :: tail)
    (hmore : ∀ more, skipSpace tail ≠ ']' :: more) (h : ReadsItems keeps tail items rest) :
    Reads keeps cs (.arr items) rest := by
  rw [Reads, plainRest_readValue? hskip, if_neg (by decide), if_pos rfl]
  split
  · next more hclose => exact absurd hclose (hmore more)
  · rw [h]
    rfl

theorem reads_object_nil (hskip : skipSpace cs = '\x7b' :: tail)
    (h : skipSpace tail = '\x7d' :: rest) : Reads keeps cs (.obj []) rest := by
  rw [Reads, plainRest_readValue? hskip, if_neg (by decide), if_neg (by decide), if_pos rfl, h]
  rfl

theorem reads_object {members : List (String × Json)} (hskip : skipSpace cs = '\x7b' :: tail)
    (hmore : ∀ more, skipSpace tail ≠ '\x7d' :: more) (h : ReadsMembers keeps tail members rest) :
    Reads keeps cs (.obj members) rest := by
  rw [Reads, plainRest_readValue? hskip, if_neg (by decide), if_neg (by decide), if_pos rfl]
  split
  · next more hclose => exact absurd hclose (hmore more)
  · rw [h]
    rfl

/-- A word or a number: what neither opens a string nor an array nor an object. -/
theorem reads_scalar {value : Json} (hskip : skipSpace cs = c :: tail)
    (hc : c ≠ '"' ∧ c ≠ '[' ∧ c ≠ '\x7b')
    (h : (if c = 'n' then readName? "null".toList .null (c :: tail) (by decide)
      else if c = 't' then readName? "true".toList (.bool true) (c :: tail) (by decide)
      else if c = 'f' then readName? "false".toList (.bool false) (c :: tail) (by decide)
      else readNumberPart? keeps (c :: tail)).map plainRest = some (value, rest)) :
    Reads keeps cs value rest := by
  rw [Reads, plainRest_readValue? hskip, if_neg hc.1, if_neg hc.2.1, if_neg hc.2.2]
  exact h

/-- Items by what follows the first one. -/
theorem plainRest_readItems? {item : Json} (hitem : Reads keeps cs item tail) :
    (readItems? keeps cs).map plainRest =
      match skipSpace tail with
      | ']' :: more => some ([item], more)
      | ',' :: more => ((readItems? keeps more).map plainRest).map (Prod.map (item :: ·) id)
      | _ => none := by
  obtain ⟨hlt, hvalue⟩ := exists_of_map_plainRest hitem
  rw [readItems?]
  simp only [hvalue]
  split
  · next hclose => simp only [hclose]; rfl
  · next more hcomma =>
    simp only [hcomma]
    cases readItems? keeps more <;> rfl
  · next hno hno' =>
    split
    · next more hclose => exact absurd hclose (hno more)
    · next more hcomma => exact absurd hcomma (hno' more)
    · rfl

theorem readsItems_last {item : Json} (hitem : Reads keeps cs item tail)
    (hskip : skipSpace tail = ']' :: rest) : ReadsItems keeps cs [item] rest := by
  rw [ReadsItems, plainRest_readItems? hitem, hskip]
  rfl

theorem readsItems_more {item : Json} {items : List Json} (hitem : Reads keeps cs item tail)
    (hskip : skipSpace tail = ',' :: more) (hitems : ReadsItems keeps more items rest) :
    ReadsItems keeps cs (item :: items) rest := by
  rw [ReadsItems, plainRest_readItems? hitem, hskip]
  show ((readItems? keeps more).map plainRest).map _ = _
  rw [hitems]
  rfl

/-- What comes before the value of a member: a name and a colon. -/
def ReadsName (cs : List Char) (name : String) (rest : List Char) : Prop :=
  ∃ opened text closed, skipSpace cs = '"' :: opened ∧
    Text.readQuoted? [] opened = some (text, closed) ∧ String.ofList text = name ∧
    skipSpace closed = ':' :: rest

/-- Members by what follows the first one. -/
theorem plainRest_readMembers? {name : String} {value : Json} {after : List Char}
    (hname : ReadsName cs name after) (hvalue : Reads keeps after value tail) :
    (readMembers? keeps cs).map plainRest =
      match skipSpace tail with
      | '\x7d' :: more => some ([(name, value)], more)
      | ',' :: more =>
        ((readMembers? keeps more).map plainRest).map (Prod.map ((name, value) :: ·) id)
      | _ => none := by
  obtain ⟨opened, text, closed, hopen, htext, rfl, hcolon⟩ := hname
  obtain ⟨hlt, hread⟩ := exists_of_map_plainRest (readText?_eq htext)
  obtain ⟨hlt', hreadValue⟩ := exists_of_map_plainRest hvalue
  rw [readMembers?]
  split
  · next hquote =>
    rw [hopen] at hquote
    cases hquote
    simp only [hread]
    split
    · next hc =>
      rw [hcolon] at hc
      cases hc
      simp only [hreadValue]
      split
      · next hclose => simp only [hclose]; rfl
      · next more hcomma =>
        simp only [hcomma]
        cases readMembers? keeps more <;> rfl
      · next hno hno' =>
        split
        · next more hclose => exact absurd hclose (hno more)
        · next more hcomma => exact absurd hcomma (hno' more)
        · rfl
    · next hno => exact absurd hcolon (hno after)
  · next hno => exact absurd hopen (hno opened)

theorem readsMembers_last {name : String} {value : Json} {after : List Char}
    (hname : ReadsName cs name after) (hvalue : Reads keeps after value tail)
    (hskip : skipSpace tail = '\x7d' :: rest) : ReadsMembers keeps cs [(name, value)] rest := by
  rw [ReadsMembers, plainRest_readMembers? hname hvalue, hskip]
  rfl

theorem readsMembers_more {name : String} {value : Json} {after : List Char}
    {members : List (String × Json)} (hname : ReadsName cs name after)
    (hvalue : Reads keeps after value tail) (hskip : skipSpace tail = ',' :: more)
    (hmembers : ReadsMembers keeps more members rest) :
    ReadsMembers keeps cs ((name, value) :: members) rest := by
  rw [ReadsMembers, plainRest_readMembers? hname hvalue, hskip]
  show ((readMembers? keeps more).map plainRest).map _ = _
  rw [hmembers]
  rfl

/-! ## Blanks -/

theorem skipSpace_append {blanks : List Char} (h : ∀ c ∈ blanks, isSpace c = true)
    (cs : List Char) : skipSpace (blanks ++ cs) = skipSpace cs :=
  List.dropWhile_append_of_pos h

theorem skipSpace_cons (h : isSpace c = false) (cs : List Char) : skipSpace (c :: cs) = c :: cs :=
  List.dropWhile_cons_of_neg (by simp [h])

/-- A layout puts nothing but blanks between the parts of a value, apart from the colon. -/
structure Layout.IsBlank (layout : Layout) : Prop where
  lineBreak : ∀ depth, ∀ c ∈ layout.lineBreak depth, isSpace c = true
  colon : ∃ blanks, layout.colon = ':' :: blanks ∧ ∀ c ∈ blanks, isSpace c = true

theorem Layout.isBlank_compact : Layout.compact.IsBlank where
  lineBreak _ _ hc := absurd hc List.not_mem_nil
  colon := ⟨[], rfl, fun _ hc => absurd hc List.not_mem_nil⟩

theorem Layout.isBlank_indented : Layout.indented.IsBlank where
  lineBreak depth c hc := by
    rcases List.mem_cons.mp hc with rfl | hc
    · decide
    · rw [List.eq_of_mem_replicate hc]
      decide
  colon := ⟨[' '], rfl, fun c hc => by rw [List.mem_singleton.mp hc]; decide⟩

/-! ## Words and numbers -/

/-- What follows a value in a text does not belong to a number. -/
def Ends (rest : List Char) : Prop := ∀ c, rest.head? = some c → isNumberChar c = false

theorem ends_nil : Ends [] := nofun

theorem ends_cons (h : isNumberChar c = false) (cs : List Char) : Ends (c :: cs) := by
  intro d hd
  cases hd
  exact h

theorem isNumberChar_of_isSpace (h : isSpace c = true) : isNumberChar c = false := by
  simp only [isSpace, Bool.or_eq_true, beq_iff_eq] at h
  rcases h with ((rfl | rfl) | rfl) | rfl <;> decide

theorem isSpace_of_isNumberChar (h : isNumberChar c = true) : isSpace c = false := by
  by_contra hblank
  rw [isNumberChar_of_isSpace (by simpa using hblank)] at h
  cases h

theorem ends_append {blanks : List Char} (h : ∀ c ∈ blanks, isSpace c = true) (hrest : Ends rest) :
    Ends (blanks ++ rest) := by
  cases blanks with
  | nil => exact hrest
  | cons c blanks => exact ends_cons (isNumberChar_of_isSpace (h c List.mem_cons_self)) _

theorem dropWord?_append (word rest : List Char) : dropWord? word (word ++ rest) = some rest := by
  induction word with
  | nil => rfl
  | cons c word ih => rw [List.cons_append, dropWord?, if_pos rfl, ih]

theorem readName?_append (word rest : List Char) (value : Json) (hn : word ≠ []) :
    (readName? word value (word ++ rest) hn).map plainRest = some (value, rest) := by
  unfold readName?
  split
  · next hnone => rw [dropWord?_append] at hnone; cases hnone
  · next hsome =>
    rw [dropWord?_append] at hsome
    cases hsome
    rfl

theorem readNumberPart?_append {value : Json} (h : IsNumberText keeps cs value)
    (hrest : Ends rest) :
    (readNumberPart? keeps (cs ++ rest)).map plainRest = some (value, rest) := by
  have htake := Text.takeWhile_append_of_head? h.numberChars hrest
  unfold readNumberPart?
  split
  · next hnil => exact absurd (htake.1.symm.trans hnil) h.ne_nil
  · next c digits hcons =>
    have hread : readNumber? keeps (c :: digits) = some value := by
      rw [← hcons, htake.1]
      exact h.read
    rw [hread]
    simp only [Option.map_some, plainRest, htake.2]

variable {blanks : List Char}

theorem reads_null (hblanks : ∀ c ∈ blanks, isSpace c = true) (rest : List Char) :
    Reads keeps (blanks ++ ("null".toList ++ rest)) .null rest := by
  refine reads_scalar (c := 'n') (skipSpace_append hblanks _) (by decide) ?_
  exact readName?_append "null".toList rest .null (by decide)

theorem reads_bool (hblanks : ∀ c ∈ blanks, isSpace c = true) (layout : Layout) (depth : ℕ)
    (value : Bool) (rest : List Char) :
    Reads keeps (blanks ++ (chars layout depth (.bool value) ++ rest)) (.bool value) rest := by
  cases value with
  | true =>
    refine reads_scalar (c := 't') (skipSpace_append hblanks _) (by decide) ?_
    exact readName?_append "true".toList rest (.bool true) (by decide)
  | false =>
    refine reads_scalar (c := 'f') (skipSpace_append hblanks _) (by decide) ?_
    exact readName?_append "false".toList rest (.bool false) (by decide)

theorem reads_number {value : Json} (hblanks : ∀ c ∈ blanks, isSpace c = true)
    (h : IsNumberText keeps cs value) (hrest : Ends rest) :
    Reads keeps (blanks ++ (cs ++ rest)) value rest := by
  have hread := readNumberPart?_append h hrest
  obtain ⟨c, tail, rfl, hc⟩ := h.exists_cons
  have hskip : skipSpace (blanks ++ (c :: tail ++ rest)) = c :: (tail ++ rest) := by
    rw [skipSpace_append hblanks]
    exact skipSpace_cons (isSpace_of_isNumberChar hc) _
  have hne : ∀ d, isNumberChar d = false → c ≠ d := by
    rintro d hd rfl
    rw [hc] at hd
    cases hd
  refine reads_scalar hskip
    ⟨hne _ (by decide), hne _ (by decide), hne _ (by decide)⟩ ?_
  rwa [if_neg (hne 'n' (by decide)), if_neg (hne 't' (by decide)), if_neg (hne 'f' (by decide))]

theorem reads_quoted (hblanks : ∀ c ∈ blanks, isSpace c = true) (text : String)
    (rest : List Char) :
    Reads keeps (blanks ++ (Text.quoted text ++ rest)) (.str text) rest := by
  have hread := Text.readQuoted?_escape text.toList [] rest
  rw [List.reverse_nil, List.nil_append] at hread
  have hskip : skipSpace (blanks ++ (Text.quoted text ++ rest)) =
      '"' :: (Text.escape text.toList ++ '"' :: rest) := by
    rw [skipSpace_append hblanks, Text.quoted, List.cons_append, List.append_assoc]
    exact skipSpace_cons (by decide) _
  have h : Reads keeps (blanks ++ (Text.quoted text ++ rest)) _ rest := reads_string hskip hread
  rwa [String.ofList_toList] at h

/-! ## Values -/

/-- How a floating point number is read: what is not finite is written as `null`. -/
def floatAsRead (x : Float) : Json :=
  match ofFloat x with
  | .finite _ _ _ => .float x
  | _ => .null

mutual

/-- **What is read of a value**: the value itself, apart from whole numbers that the reader does not
keep and floating point numbers that are not finite. -/
def asRead (keeps : ℤ → Bool) : Json → Json
  | .null => .null
  | .bool value => .bool value
  | .int n => intAsRead keeps n
  | .float x => floatAsRead x
  | .str text => .str text
  | .arr items => .arr (itemsAsRead keeps items)
  | .obj members => .obj (membersAsRead keeps members)

/-- What is read of the items of an array. -/
def itemsAsRead (keeps : ℤ → Bool) : List Json → List Json
  | [] => []
  | item :: items => asRead keeps item :: itemsAsRead keeps items

/-- What is read of the members of an object. -/
def membersAsRead (keeps : ℤ → Bool) : List (String × Json) → List (String × Json)
  | [] => []
  | (name, value) :: members => (name, asRead keeps value) :: membersAsRead keeps members

end

theorem reads_float (hblanks : ∀ c ∈ blanks, isSpace c = true) (x : Float) (hrest : Ends rest) :
    Reads keeps (blanks ++ (floatChars x ++ rest)) (floatAsRead x) rest := by
  unfold floatAsRead
  split
  · next h => exact reads_number hblanks (isNumberText_floatChars h) hrest
  · next h =>
    have hnull : floatChars x = "null".toList := by
      unfold floatChars Decimal.FloatForm.chars?
      split
      · rfl
      · rfl
      · next hfinite => exact absurd hfinite (h _ _ _)
    rw [hnull]
    exact reads_null hblanks rest

/-- A value starts with a character that is neither a blank nor closes an array. -/
theorem exists_chars (layout : Layout) (depth : ℕ) (value : Json) :
    ∃ c tail, chars layout depth value = c :: tail ∧ isSpace c = false ∧ c ≠ ']' := by
  have hnumber : ∀ {cs value}, IsNumberText isExact cs value →
      ∃ c tail, cs = c :: tail ∧ isSpace c = false ∧ c ≠ ']' := by
    intro cs value h
    obtain ⟨c, tail, rfl, hc⟩ := h.exists_cons
    refine ⟨c, tail, rfl, isSpace_of_isNumberChar hc, ?_⟩
    rintro rfl
    cases hc
  cases value with
  | null => exact ⟨_, _, rfl, by decide, by decide⟩
  | bool value => cases value <;> exact ⟨_, _, rfl, by decide, by decide⟩
  | int n => exact hnumber (isNumberText_intChars n)
  | float x =>
    cases h : ofFloat x with
    | finite negative m e => exact hnumber (isNumberText_floatChars h)
    | nan =>
      refine ⟨'n', "ull".toList, ?_, by decide, by decide⟩
      simp only [chars, floatChars, Decimal.FloatForm.chars?, h]
      rfl
    | infinite negative =>
      refine ⟨'n', "ull".toList, ?_, by decide, by decide⟩
      simp only [chars, floatChars, Decimal.FloatForm.chars?, h]
      rfl
  | str text => exact ⟨_, _, rfl, by decide, by decide⟩
  | arr items => cases items <;> exact ⟨_, _, rfl, by decide, by decide⟩
  | obj members => cases members <;> exact ⟨_, _, rfl, by decide, by decide⟩

/-- The first value of an array does not close it. -/
theorem skipSpace_chars_ne (hblanks : ∀ c ∈ blanks, isSpace c = true) (layout : Layout)
    (depth : ℕ) (value : Json) (rest more : List Char) :
    skipSpace (blanks ++ (chars layout depth value ++ rest)) ≠ ']' :: more := by
  obtain ⟨c, tail, hchars, hspace, hc⟩ := exists_chars layout depth value
  rw [skipSpace_append hblanks, hchars, List.cons_append, skipSpace_cons hspace]
  intro h
  cases h
  exact hc rfl

/-- The text of items starts with that of the first one. -/
theorem exists_itemsChars (layout : Layout) (depth : ℕ) (item : Json) (items : List Json) :
    ∃ after, itemsChars layout depth (item :: items) = chars layout depth item ++ after := by
  cases items with
  | nil => exact ⟨[], by rw [itemsChars, List.append_nil]⟩
  | cons next items => exact ⟨_, by rw [itemsChars]⟩

/-- The text of members starts with a quotation mark. -/
theorem exists_membersChars (layout : Layout) (depth : ℕ) (name : String) (value : Json)
    (members : List (String × Json)) :
    ∃ after, membersChars layout depth ((name, value) :: members) = '"' :: after := by
  cases members with
  | nil => exact ⟨_, by rw [membersChars, Text.quoted, List.cons_append, List.cons_append]⟩
  | cons next members =>
    exact ⟨_, by rw [membersChars, Text.quoted, List.cons_append, List.cons_append,
      List.cons_append]⟩

/-- The name of a member is read with the blanks before it and the colon behind it. -/
theorem readsName_quoted {layout : Layout} (hlayout : layout.IsBlank)
    (hblanks : ∀ c ∈ blanks, isSpace c = true) (name : String) :
    ∃ spaces, (∀ c ∈ spaces, isSpace c = true) ∧ ∀ rest,
      ReadsName (blanks ++ (Text.quoted name ++ (layout.colon ++ rest))) name (spaces ++ rest) := by
  obtain ⟨spaces, hcolon, hspaces⟩ := hlayout.colon
  refine ⟨spaces, hspaces, fun rest => ?_⟩
  refine ⟨_, name.toList, _, ?_, Text.readQuoted?_escape name.toList [] (layout.colon ++ rest),
    String.ofList_toList, ?_⟩
  · rw [skipSpace_append hblanks, Text.quoted, List.cons_append, List.append_assoc]
    exact skipSpace_cons (by decide) _
  · rw [hcolon, List.cons_append]
    exact skipSpace_cons (by decide) _

mutual

/-- **A value is read back**, whatever blanks stand before it and whatever follows it. -/
theorem reads_chars {layout : Layout} (hlayout : layout.IsBlank) : ∀ (value : Json) (depth : ℕ)
    {blanks rest : List Char}, (∀ c ∈ blanks, isSpace c = true) → Ends rest →
    Reads keeps (blanks ++ (chars layout depth value ++ rest)) (asRead keeps value) rest
  | .null, depth, _, rest, hblanks, _ => by
    rw [chars, asRead]
    exact reads_null hblanks rest
  | .bool value, depth, _, rest, hblanks, _ => by
    rw [asRead]
    exact reads_bool hblanks layout depth value rest
  | .int n, depth, _, rest, hblanks, hrest => by
    rw [chars, asRead]
    exact reads_number hblanks (isNumberText_intChars n) hrest
  | .float x, depth, _, rest, hblanks, hrest => by
    rw [chars, asRead]
    exact reads_float hblanks x hrest
  | .str text, depth, _, rest, hblanks, _ => by
    rw [chars, asRead]
    exact reads_quoted hblanks text rest
  | .arr [], depth, _, rest, hblanks, _ => by
    rw [chars, asRead, itemsAsRead]
    refine reads_array_nil ?_ (skipSpace_cons (by decide) rest)
    rw [skipSpace_append hblanks]
    exact skipSpace_cons (by decide) _
  | .arr (item :: items), depth, _, rest, hblanks, _ => by
    have hopen := hlayout.lineBreak (depth + 1)
    have hitems := readsItems_chars hlayout (item :: items) (depth + 1)
      (List.cons_ne_nil item items) hopen (hlayout.lineBreak depth) rest
    have htext : chars layout depth (.arr (item :: items)) ++ rest =
        '[' :: (layout.lineBreak (depth + 1) ++ (itemsChars layout (depth + 1) (item :: items) ++
          (layout.lineBreak depth ++ ']' :: rest))) := by
      rw [chars]
      simp only [List.cons_append, List.append_assoc, List.nil_append]
    rw [htext, asRead]
    refine reads_array (by rw [skipSpace_append hblanks]; exact skipSpace_cons (by decide) _)
      (fun more => ?_) hitems
    obtain ⟨after, hafter⟩ := exists_itemsChars layout (depth + 1) item items
    rw [hafter, List.append_assoc]
    exact skipSpace_chars_ne hopen layout (depth + 1) item _ more
  | .obj [], depth, _, rest, hblanks, _ => by
    rw [chars, asRead, membersAsRead]
    refine reads_object_nil ?_ (skipSpace_cons (by decide) rest)
    rw [skipSpace_append hblanks]
    exact skipSpace_cons (by decide) _
  | .obj ((name, value) :: members), depth, _, rest, hblanks, _ => by
    have hopen := hlayout.lineBreak (depth + 1)
    have hmembers := readsMembers_chars hlayout ((name, value) :: members) (depth + 1)
      (List.cons_ne_nil _ members) hopen (hlayout.lineBreak depth) rest
    have htext : chars layout depth (.obj ((name, value) :: members)) ++ rest =
        '\x7b' :: (layout.lineBreak (depth + 1) ++
          (membersChars layout (depth + 1) ((name, value) :: members) ++
            (layout.lineBreak depth ++ '\x7d' :: rest))) := by
      rw [chars]
      simp only [List.cons_append, List.append_assoc, List.nil_append]
    rw [htext, asRead]
    refine reads_object (by rw [skipSpace_append hblanks]; exact skipSpace_cons (by decide) _)
      (fun more hclose => ?_) hmembers
    obtain ⟨after, hafter⟩ := exists_membersChars layout (depth + 1) name value members
    rw [hafter, skipSpace_append hopen, List.cons_append, skipSpace_cons (by decide)] at hclose
    cases hclose

/-- The items of an array are read back. -/
theorem readsItems_chars {layout : Layout} (hlayout : layout.IsBlank) : ∀ (items : List Json)
    (depth : ℕ) {blanks close : List Char}, items ≠ [] → (∀ c ∈ blanks, isSpace c = true) →
    (∀ c ∈ close, isSpace c = true) → ∀ rest,
    ReadsItems keeps (blanks ++ (itemsChars layout depth items ++ (close ++ ']' :: rest)))
      (itemsAsRead keeps items) rest
  | [], _, _, _, hne, _, _, _ => absurd rfl hne
  | [item], depth, _, close, _, hblanks, hclose, rest => by
    rw [itemsChars, itemsAsRead, itemsAsRead]
    have hend : Ends (close ++ ']' :: rest) := ends_append hclose (ends_cons (by decide) rest)
    have hitem := reads_chars hlayout item depth hblanks hend
    refine readsItems_last hitem ?_
    rw [skipSpace_append hclose]
    exact skipSpace_cons (by decide) rest
  | item :: next :: items, depth, _, close, _, hblanks, hclose, rest => by
    have htext : itemsChars layout depth (item :: next :: items) ++ (close ++ ']' :: rest) =
        chars layout depth item ++ ',' :: (layout.lineBreak depth ++
          (itemsChars layout depth (next :: items) ++ (close ++ ']' :: rest))) := by
      rw [itemsChars]
      simp only [List.cons_append, List.append_assoc]
    rw [htext, itemsAsRead]
    exact readsItems_more (reads_chars hlayout item depth hblanks (ends_cons (by decide) _))
      (skipSpace_cons (by decide) _)
      (readsItems_chars hlayout (next :: items) depth (List.cons_ne_nil next items)
        (hlayout.lineBreak depth) hclose rest)

/-- The members of an object are read back. -/
theorem readsMembers_chars {layout : Layout} (hlayout : layout.IsBlank) :
    ∀ (members : List (String × Json)) (depth : ℕ) {blanks close : List Char}, members ≠ [] →
    (∀ c ∈ blanks, isSpace c = true) → (∀ c ∈ close, isSpace c = true) → ∀ rest,
    ReadsMembers keeps (blanks ++ (membersChars layout depth members ++ (close ++ '\x7d' :: rest)))
      (membersAsRead keeps members) rest
  | [], _, _, _, hne, _, _, _ => absurd rfl hne
  | [(name, value)], depth, _, close, _, hblanks, hclose, rest => by
    obtain ⟨spaces, hspaces, hname⟩ := readsName_quoted hlayout hblanks name
    have htext : membersChars layout depth [(name, value)] ++ (close ++ '\x7d' :: rest) =
        Text.quoted name ++ (layout.colon ++ (chars layout depth value ++
          (close ++ '\x7d' :: rest))) := by
      rw [membersChars]
      simp only [List.append_assoc]
    rw [htext, membersAsRead, membersAsRead]
    have hend : Ends (close ++ '\x7d' :: rest) := ends_append hclose (ends_cons (by decide) rest)
    have hvalue := reads_chars hlayout value depth hspaces hend
    refine readsMembers_last (hname _) hvalue ?_
    rw [skipSpace_append hclose]
    exact skipSpace_cons (by decide) rest
  | (name, value) :: next :: members, depth, _, close, _, hblanks, hclose, rest => by
    obtain ⟨spaces, hspaces, hname⟩ := readsName_quoted hlayout hblanks name
    have htext : membersChars layout depth ((name, value) :: next :: members) ++
        (close ++ '\x7d' :: rest) =
        Text.quoted name ++ (layout.colon ++ (chars layout depth value ++
          ',' :: (layout.lineBreak depth ++
            (membersChars layout depth (next :: members) ++
              (close ++ '\x7d' :: rest))))) := by
      rw [membersChars]
      simp only [List.cons_append, List.append_assoc]
    rw [htext, membersAsRead]
    exact readsMembers_more (hname _)
      (reads_chars hlayout value depth hspaces (ends_cons (by decide) _))
      (skipSpace_cons (by decide) _)
      (readsMembers_chars hlayout (next :: members) depth (List.cons_ne_nil next members)
        (hlayout.lineBreak depth) hclose rest)

end

/-! ## Whole texts -/

theorem readWith?_of_reads {text : String} {value : Json} (h : Reads keeps text.toList value []) :
    readWith? keeps text = some value := by
  obtain ⟨hlt, hvalue⟩ := exists_of_map_plainRest h
  unfold readWith?
  rw [hvalue]
  rfl

/-- **Both texts of a value are read as the same value.** -/
theorem readWith?_compact_indented (keeps : ℤ → Bool) (value : Json) :
    readWith? keeps value.compact = some (asRead keeps value) ∧
      readWith? keeps value.indented = some (asRead keeps value) := by
  have hread : ∀ {layout : Layout}, layout.IsBlank →
      readWith? keeps (String.ofList (chars layout 0 value)) = some (asRead keeps value) := by
    intro layout hlayout
    have h : Reads keeps ([] ++ (chars layout 0 value ++ [])) (asRead keeps value) [] :=
      reads_chars hlayout value 0 nofun ends_nil
    rw [List.nil_append, List.append_nil] at h
    refine readWith?_of_reads ?_
    rwa [String.toList_ofList]
  exact ⟨hread Layout.isBlank_compact, hread Layout.isBlank_indented⟩

end CompressorBench.Json
