import CompressorBench.FileTree.Operations
import CompressorBench.Files
import CompressorBench.Script.Reader
import CompressorBench.Utilities

/-!
# A machine by description

A machine to run the benchmark on, described by a JSON object: the files of its working directory
and the script of the program under test. The program is the only executable file in the tree, and
links beside the working directory lead to it; the search path leads to programs of the system.
-/

namespace CompressorBench

namespace FileTree

/-- The location of the working directory. -/
def workplace : Location := ["s", "w"]

/-- The path of the program. -/
def programPath : String := "/program"

/-- The contents of the program, which are no text. -/
def programContents : ByteArray := ⟨#[0xFF]⟩

/-- The entries around an empty working directory: the program, links to it, and the script that it
follows as a document. -/
def surroundings (script : Json) : List (Location × Entry) :=
  [(["program"], .file programContents true),
    (["s"], .directory),
    (["s", "child"], .link programPath),
    (["s", "build"], .directory),
    (["s", "build", "solution"], .link programPath),
    (["s", "prog.json"], .file script.sorted.compact.toUTF8 false),
    (workplace, .directory)]

/-- The files before anything is planted. -/
def bare (script : Json) : FileTree :=
  (surroundings script).foldl (fun tree item => tree.insert item.1 item.2)
    { FileTree.empty with workingDirectory := workplace }

/-- Plants an item: a link, a directory, or a file with a text. Parents are made as needed; an item
that cannot be made is left out. -/
def plant (tree : FileTree) (item : Json) : FileTree :=
  let path := item.textMember "path"
  match item.get? "link" with
  | some target =>
    let grown := match Pathname.parent? path with
      | some parent => (tree.createDirectory parent).2
      | none => tree
    match grown.makeLink path target.spelledText with
    | .ok linked => linked
    | .error _ => grown
  | none =>
    if item.flagMember "dir" then (tree.createDirectory path).2
    else (tree.createFile path (item.bytesMember "text")).2

end FileTree

/-- The machine of a description with the members `tree` and `prog`. -/
def Machine.ofJson (description : Json) : Machine :=
  let script := description.member "prog"
  { tree := (description.itemsMember "tree").foldl FileTree.plant (.bare script)
    behaviour := Utilities.behaviour (Script.ofJson script).child
    commands := Utilities.commands }

end CompressorBench
