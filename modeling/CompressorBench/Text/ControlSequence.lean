/-!
# Text without control sequences

A terminal takes some characters as orders: control characters, and sequences that an escape
character opens. What is left of a text without them is what it shows.

There are escape sequences, control sequences, device control strings, operating system commands and
other strings that go on until they are ended. The characters are read one after the other, and a
state says what is open.

Main statements: what is left holds no control character but the blank ones (`isShown_of_mem`), a
text without any is left alone (`withoutControls_eq_self`), and so nothing more goes the second time
(`withoutControls_idem`).
-/

namespace CompressorBench.Text

/-! ## Classes of characters -/

/-- The control characters that lay a text out: tab, line feed, form feed and carriage return. -/
def isLayout (c : Char) : Bool := c == '\t' || c == '\n' || c == '\x0c' || c == '\r'

/-- Whether a character outside all sequences is shown: it is no control character, or it lays the
text out. Control characters above ASCII count as others. -/
def isShown (c : Char) : Bool :=
  isLayout c || (decide (0x20 ≤ c.toNat) && decide (c.toNat ≠ 0x7F))

/-- Whether a character lies between two others, both ends included. -/
def isBetween (low high c : Char) : Bool := decide (low ≤ c) && decide (c ≤ high)

/-- Whether a byte of the UTF-8 form of a character is the one that ends a string where characters
have eight bits. -/
def hasTerminator (c : Char) : Bool := (String.utf8EncodeChar c).contains 0x9C

/-! ## States -/

/-- What is open after some characters of a text. -/
inductive ControlState where
  /-- Nothing is open. -/
  | ground
  /-- An escape character was read. -/
  | escape
  /-- An escape sequence with intermediate characters. -/
  | intermediate
  /-- A control sequence. -/
  | sequence
  /-- A device control string, of which nothing is read. -/
  | deviceStart
  /-- A device control string in its parameters. -/
  | deviceParameters
  /-- A device control string with intermediate characters. -/
  | deviceIntermediate
  /-- A string that ends at a terminator. -/
  | controlString
  /-- An operating system command, which a bell ends as well. -/
  | command
deriving DecidableEq, Repr

namespace ControlState

/-- The state after a character that follows an escape character. -/
def afterEscape (c : Char) : ControlState :=
  if isBetween ' ' '/' c then .intermediate
  else if c = '[' then .sequence
  else if c = ']' then .command
  else if c = 'P' then .deviceStart
  else if c = 'X' ∨ c = '^' ∨ c = '_' then .controlString
  else if isBetween '0' '~' c then .ground
  else .escape

/-- The state after a character in the head of a device control string. The parameters consist of
digits, colons and semicolons, and only the first character may be another one. A head that is not
well formed, and the final character of one, leave a string to be skipped. -/
def afterDevice (state : ControlState) (c : Char) : ControlState :=
  if isBetween ' ' '/' c then .deviceIntermediate
  else if isBetween '@' '~' c then .controlString
  else
    match state with
    | .deviceStart => if isBetween '0' '?' c then .deviceParameters else .deviceStart
    | .deviceParameters => if isBetween '<' '?' c then .controlString else .deviceParameters
    | _ => if isBetween '0' '?' c then .controlString else .deviceIntermediate

/-- The state after a character that is not shown. An escape character opens a new sequence
everywhere, and the characters `CAN` and `SUB` close everything. -/
def next (state : ControlState) (c : Char) : ControlState :=
  if c = '\x1b' then .escape
  else if c = '\x18' ∨ c = '\x1a' then .ground
  else
    match state with
    | .ground => .ground
    | .escape => afterEscape c
    | .intermediate => if isBetween '0' '~' c then .ground else .intermediate
    | .sequence => if isBetween '@' '~' c then .ground else .sequence
    | .controlString => if hasTerminator c then .ground else .controlString
    | .command => if c = '\x07' then .ground else .command
    | device => device.afterDevice c

/-- Whether a character is shown. Outside strings a layout character is, and closes what is open. -/
def shows (state : ControlState) (c : Char) : Bool :=
  match state with
  | .ground => isShown c
  | .escape | .intermediate | .sequence => isLayout c
  | _ => false

end ControlState

/-! ## Removing -/

/-- The characters that are shown. -/
def removeControls (state : ControlState) : List Char → List Char
  | [] => []
  | c :: rest =>
    if state.shows c then c :: removeControls .ground rest else removeControls (state.next c) rest

/-- A text without control sequences and control characters, layout characters apart. -/
def withoutControls (text : String) : String :=
  String.ofList (removeControls .ground text.toList)

/-! ## Laws -/

theorem isShown_of_shows {state : ControlState} {c : Char} (h : state.shows c = true) :
    isShown c = true := by
  cases state <;> simp_all [ControlState.shows, isShown]

theorem isShown_of_mem_removeControls {state : ControlState} {cs : List Char} {c : Char}
    (h : c ∈ removeControls state cs) : isShown c = true := by
  induction cs generalizing state with
  | nil => exact absurd h List.not_mem_nil
  | cons head rest ih =>
    rw [removeControls] at h
    split at h
    · next hs =>
      rcases List.mem_cons.mp h with rfl | h
      · exact isShown_of_shows hs
      · exact ih h
    · exact ih h

/-- Every character that is left is shown. -/
theorem isShown_of_mem {text : String} {c : Char} (h : c ∈ (withoutControls text).toList) :
    isShown c = true := by
  rw [withoutControls, String.toList_ofList] at h
  exact isShown_of_mem_removeControls h

theorem removeControls_eq_self {cs : List Char} (h : ∀ c ∈ cs, isShown c = true) :
    removeControls .ground cs = cs := by
  induction cs with
  | nil => rfl
  | cons c rest ih =>
    rw [removeControls, ControlState.shows, if_pos (h c List.mem_cons_self),
      ih fun d hd => h d (List.mem_cons_of_mem c hd)]

/-- A text whose characters are all shown is left alone. -/
theorem withoutControls_eq_self {text : String} (h : ∀ c ∈ text.toList, isShown c = true) :
    withoutControls text = text := by
  rw [withoutControls, removeControls_eq_self h, String.ofList_toList]

/-- Nothing more goes the second time. -/
theorem withoutControls_idem (text : String) :
    withoutControls (withoutControls text) = withoutControls text :=
  withoutControls_eq_self fun _ h => isShown_of_mem h

example : removeControls .ground "a\x1b[31mb\x7fc\x1b]0;t\x07d\x1b(Be".toList =
    ['a', 'b', 'c', 'd', 'e'] := by decide
example : removeControls .ground "a\x1b[3\nb\x1bPqé\x1b\\c".toList = ['a', '\n', 'b', 'c'] := by
  decide
example : removeControls .ground "\x1bP:\u271ca\x1bP<:\u271cb\x1bP:<\u271cc".toList = ['c'] := by
  decide

end CompressorBench.Text
