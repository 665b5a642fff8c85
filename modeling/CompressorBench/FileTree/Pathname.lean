import CompressorBench.Text.Split

/-!
# Path names

A path name is a text cut at its slashes. To the operating system it is a row of steps; the parent
of a path, by contrast, is a matter of its text alone: the last piece is taken off, and what is left
is trimmed of empty pieces and of dots at its end.
-/

namespace CompressorBench.Pathname

/-! ## Steps -/

/-- The pieces of a path between its slashes. -/
def pieces (path : String) : List String := (Text.split '/' path.toList).map String.ofList

/-- Whether a path starts at the root. -/
def isAbsolute (path : String) : Bool := path.toList.head? == some '/'

/-- Whether a path ends in a slash, so that it has to lead to a directory. -/
def endsInSlash (path : String) : Bool := path.toList.getLast? == some '/'

/-- The pieces that a lookup goes through, one after the other. -/
def steps (path : String) : List String := (pieces path).filter (· != "")

/-! ## Joining -/

/-- The path of a name in a directory. -/
def join (directory name : String) : String :=
  if directory = "" ∨ endsInSlash directory then directory ++ name else directory ++ "/" ++ name

theorem steps_append_slash (before after : String) :
    steps (before ++ "/" ++ after) = steps before ++ steps after := by
  have hchars : (before ++ "/" ++ after).toList = before.toList ++ '/' :: after.toList := by simp
  rw [steps, pieces, hchars, Text.split_append, List.map_append, List.filter_append]
  rfl

/-- A slash at the end adds no step. -/
theorem steps_of_endsInSlash {before : String} (h : endsInSlash before = true) (after : String) :
    steps (before ++ after) = steps before ++ steps after := by
  obtain ⟨cs, hcs⟩ := List.getLast?_eq_some_iff.mp (beq_iff_eq.mp h)
  have hbefore : before = String.ofList cs ++ "/" ++ "" := by
    rw [← String.toList_inj, hcs]
    simp
  have hempty : steps "" = [] := by decide +kernel
  rw [hbefore, String.append_empty, steps_append_slash, ← String.append_empty (s := _ ++ "/"),
    steps_append_slash, hempty, List.append_nil]

/-- Different names have different paths. -/
theorem join_inj {directory name other : String}
    (h : join directory name = join directory other) : name = other := by
  unfold join at h
  split at h <;> exact (String.append_right_inj _).mp h

/-- The steps of a path in a directory are those to the directory and then those of the path. -/
theorem steps_join {directory : String} (h : directory ≠ "") (name : String) :
    steps (join directory name) = steps directory ++ steps name := by
  rw [join]
  split
  · next hends => exact steps_of_endsInSlash (hends.resolve_left h) name
  · exact steps_append_slash directory name

theorem isAbsolute_join {directory : String} (h : directory ≠ "") (name : String) :
    isAbsolute (join directory name) = isAbsolute directory := by
  obtain ⟨c, cs, hcs⟩ := List.exists_cons_of_ne_nil (mt String.toList_eq_nil_iff.mp h)
  rw [join]
  split <;> simp [isAbsolute, hcs]

/-! ## Parents -/

/-- Whether a piece, given the pieces before it, is no component of a path: it is empty, or a dot
that does not start a relative path. -/
def isVoid (absolute : Bool) (before : List String) (piece : String) : Bool :=
  piece == "" || (piece == "." && (absolute || !before.isEmpty))

/-- The pieces of a path, last one first, without the void ones at its end. -/
def trim (absolute : Bool) : List String → List String
  | [] => []
  | piece :: before =>
    if isVoid absolute before piece then trim absolute before else piece :: before

theorem length_trim_le (absolute : Bool) (reversed : List String) :
    (trim absolute reversed).length ≤ reversed.length := by
  induction reversed with
  | nil => simp [trim]
  | cons piece before ih =>
    rw [trim]
    split <;> simp only [List.length_cons] <;> omega

/-- The path with the given pieces, last one first. -/
def ofReversed (absolute : Bool) (reversed : List String) : String :=
  (if absolute then "/" else "") ++ String.intercalate "/" reversed.reverse

/-- The pieces of the parents of a path of trimmed pieces, the nearest parent first. -/
def parentsFrom (absolute : Bool) : List String → List (List String)
  | [] => []
  | _ :: before => trim absolute before :: parentsFrom absolute (trim absolute before)
termination_by reversed => reversed.length
decreasing_by
  have := length_trim_le absolute before
  simp only [List.length_cons]
  omega

/-- The pieces of the parents of a path, last piece first. The nearest parent comes first; the last
one is the root, or the empty path for a relative path. -/
def parentPieces (path : String) : List (List String) :=
  let absolute := isAbsolute path
  let reversed := (pieces path).reverse
  parentsFrom absolute (trim absolute (if absolute then reversed.dropLast else reversed))

/-- The parents of a path, the nearest first. -/
def parents (path : String) : List String :=
  (parentPieces path).map (ofReversed (isAbsolute path))

/-- The parent of a path; the root and the empty path have none. -/
def parent? (path : String) : Option String :=
  (parentPieces path).head?.map (ofReversed (isAbsolute path))

example : parents "a/./b//c" = ["a/./b", "a", ""] := by decide +kernel
example : parents "./a" = [".", ""] := by decide +kernel
example : parents "//a/b/" = ["//a", "/"] := by decide +kernel
example : parents "/" = [] := by decide +kernel

end CompressorBench.Pathname
