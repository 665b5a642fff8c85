import CompressorBench.Failure
import CompressorBench.FileTree.Operations
import CompressorBench.Glob.Match
import CompressorBench.Json.Printer

/-!
# Files by path

File operations as the rest of the library uses them: each error tells what was to be done with
which path. Operations that may change the tree give the tree back in any case, because directories
made on the way stay when a later part fails.
-/

namespace CompressorBench.FileTree

/-! ## Reading -/

/-- The text of a file. -/
def readContents (tree : FileTree) (path : String) : Except FileError String :=
  (tree.readText path).mapError (.refused .readFile path)

/-- The names in a directory with what they stand for. -/
def readDirectory (tree : FileTree) (path : String) : Except FileError (List (String × Entry)) :=
  (tree.enumerate path).mapError (.refused .readDirectory path)

/-- Whether an entry of a directory is listed: it is itself no directory, and its name matches. -/
def isListed (pattern : Glob) (child : String × Entry) : Bool :=
  !child.2.isDirectory && pattern.accepts child.1

/-- Texts in ascending order. -/
def sortNames (names : List String) : List String :=
  names.mergeSort fun a b => decide (a ≤ b)

/-- The paths of the entries of a directory that match a pattern, by ascending names. The pattern is
read before the directory. -/
def listMatching (tree : FileTree) (directory pattern : String) :
    Except FileError (List String) :=
  match Glob.ofString pattern with
  | .error e => .error (.badPattern pattern e)
  | .ok glob =>
    (tree.readDirectory directory).map fun children =>
      (sortNames ((children.filter (isListed glob)).map Prod.fst)).map (Pathname.join directory)

/-! ## Writing -/

/-- What an operation that may change the tree gives: how it went, and the tree after it. -/
abbrev Change := Except FileError Unit × FileTree

/-- Makes a directory with all its parents. -/
def createDirectory (tree : FileTree) (path : String) : Change :=
  let (result, tree) := tree.makeDirectoryAll path
  (result.mapError (.refused .createDirectory path), tree)

/-- Writes a file into a directory that is there. -/
def writeFile (tree : FileTree) (path : String) (contents : ByteArray) : Change :=
  match tree.writeBytes path contents with
  | .ok written => (.ok (), written)
  | .error e => (.error (.refused .writeFile path e), tree)

/-- Whether a file can be written does not depend on what is written. -/
theorem fst_writeFile (tree : FileTree) (path : String) (contents other : ByteArray) :
    (tree.writeFile path contents).1 = (tree.writeFile path other).1 := by
  simp only [writeFile, writeBytes]
  cases tree.resolve .write path with
  | error e => rfl
  | ok place =>
    cases place with
    | vacant location => rfl
    | occupied location entry => cases entry <;> rfl

/-- Writes a file after making the directory it belongs to. -/
def createFile (tree : FileTree) (path : String) (contents : ByteArray) : Change :=
  match Pathname.parent? path with
  | none => tree.writeFile path contents
  | some parent =>
    if parent = "" then tree.writeFile path contents
    else
      match tree.createDirectory parent with
      | (.ok (), tree) => tree.writeFile path contents
      | (.error e, tree) => (.error e, tree)

theorem fst_createFile (tree : FileTree) (path : String) (contents other : ByteArray) :
    (tree.createFile path contents).1 = (tree.createFile path other).1 := by
  unfold createFile
  split
  · exact fst_writeFile tree path contents other
  · split
    · exact fst_writeFile tree path contents other
    · split
      · exact fst_writeFile _ path contents other
      · rfl

/-- Writes a value as an indented JSON document. A value that has no text leaves the tree alone. -/
def createJson (tree : FileTree) (path : String) (value : Except Json.Unserializable Json) :
    Change :=
  match value with
  | .error e => (.error (.unserializable path e), tree)
  | .ok value => tree.createFile path value.indented.toUTF8

end CompressorBench.FileTree
