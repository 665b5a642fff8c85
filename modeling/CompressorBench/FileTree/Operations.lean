import CompressorBench.FileTree.Resolve

/-!
# Operations on a file tree

What the operating system does: reading and writing a file, making and enumerating a directory. An
operation that changes the tree gives the new tree only when it succeeds; making a directory with
all its parents takes several operations, and the directories made before a failure stay.
-/

namespace CompressorBench.FileTree

/-! ## Reading -/

/-- The contents of a file. -/
def readBytes (tree : FileTree) (path : String) : Except OsError ByteArray :=
  match tree.resolve .reach path with
  | .error e => .error e
  | .ok (.vacant _) => .error .notFound
  | .ok (.occupied _ (.file contents _)) => .ok contents
  | .ok (.occupied _ .directory) => .error .isADirectory
  | .ok (.occupied _ (.link _)) => .error .tooManyLinks

/-- The contents of a file as a text. -/
def readText (tree : FileTree) (path : String) : Except OsError String :=
  match tree.readBytes path with
  | .error e => .error e
  | .ok contents =>
    match String.fromUTF8? contents with
    | some text => .ok text
    | none => .error .notUtf8

/-- The names in a directory with what they stand for, in the order of enumeration. -/
def enumerate (tree : FileTree) (path : String) : Except OsError (List (String × Entry)) :=
  match tree.resolve .reach path with
  | .error e => .error e
  | .ok (.vacant _) => .error .notFound
  | .ok (.occupied location .directory) => .ok (tree.children location)
  | .ok (.occupied _ _) => .error .notADirectory

/-- The contents of a file that can be executed. -/
def executable (tree : FileTree) (path : String) : Except OsError ByteArray :=
  match tree.resolve .reach path with
  | .error e => .error e
  | .ok (.vacant _) => .error .notFound
  | .ok (.occupied _ (.file contents true)) => .ok contents
  | .ok (.occupied _ _) => .error .permissionDenied

/-! ## Changing -/

/-- Gives a file new contents; a file that is not there is created. -/
def writeBytes (tree : FileTree) (path : String) (contents : ByteArray) :
    Except OsError FileTree :=
  match tree.resolve .write path with
  | .error e => .error e
  | .ok (.vacant location) => .ok (tree.insert location (.file contents false))
  | .ok (.occupied location (.file _ executable)) =>
    .ok (tree.insert location (.file contents executable))
  | .ok (.occupied _ .directory) => .error .isADirectory
  | .ok (.occupied _ (.link _)) => .error .tooManyLinks

/-- Puts a new entry where nothing is. -/
def makeEntry (tree : FileTree) (path : String) (entry : Entry) : Except OsError FileTree :=
  match tree.resolve .make path with
  | .error e => .error e
  | .ok (.vacant location) => .ok (tree.insert location entry)
  | .ok (.occupied _ _) => .error .alreadyExists

/-- Makes a directory in a directory that is there. -/
def makeDirectory (tree : FileTree) (path : String) : Except OsError FileTree :=
  tree.makeEntry path .directory

/-- Makes a symbolic link. Its target is a path, but need not lead anywhere. -/
def makeLink (tree : FileTree) (path target : String) : Except OsError FileTree :=
  match pathDefect? target with
  | some e => .error e
  | none => tree.makeEntry path (.link target)

/-- Makes a directory; a directory that is there already is as good. -/
def ensureDirectory (tree : FileTree) (path : String) : Except OsError FileTree :=
  match tree.makeDirectory path with
  | .ok made => .ok made
  | .error e => if tree.isDirectory path then .ok tree else .error e

/-- Makes a path a directory. What comes after it are the pieces of its parents, the nearest parent
first; a parent is made only where something is missing on the way. -/
def makeDirectories (absolute : Bool) (path : String) (parents : List (List String))
    (tree : FileTree) : Except OsError Unit × FileTree :=
  if path = "" then (.ok (), tree)
  else
    match tree.makeDirectory path with
    | .ok made => (.ok (), made)
    | .error .notFound =>
      match parents with
      | [] => (.error .notFound, tree)
      | parent :: parents =>
        match makeDirectories absolute (Pathname.ofReversed absolute parent) parents tree with
        | (.error e, tree) => (.error e, tree)
        | (.ok (), tree) =>
          match tree.ensureDirectory path with
          | .ok made => (.ok (), made)
          | .error e => (.error e, tree)
    | .error e => if tree.isDirectory path then (.ok (), tree) else (.error e, tree)

/-- Makes a directory with all its parents. -/
def makeDirectoryAll (tree : FileTree) (path : String) : Except OsError Unit × FileTree :=
  makeDirectories (Pathname.isAbsolute path) path (Pathname.parentPieces path) tree

end CompressorBench.FileTree
