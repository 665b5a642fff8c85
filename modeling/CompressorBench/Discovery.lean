import CompressorBench.Case
import CompressorBench.Files

/-!
# Finding the test cases

The test cases of a directory are its files whose names match a pattern, by ascending names. A
directory that does not exist holds no cases; a file that cannot be read is a rejected case.
-/

namespace CompressorBench

/-- The case of a file. -/
def TestCase.load (tree : FileTree) (path : String) : TestCase :=
  match tree.readContents path with
  | .ok contents => .ofContents path contents
  | .error e => .unreadable path e.message

@[simp] theorem TestCase.name_load (tree : FileTree) (path : String) :
    (load tree path).name = path := by
  unfold load
  split
  · exact name_ofContents _ _
  · rfl

namespace Discovery

/-- Whether the directory was not found, which is not an error of its own. -/
def isMissing : FileError → Bool
  | .refused _ _ .notFound => true
  | _ => false

/-- The paths of the case files. -/
def caseFiles (tree : FileTree) (directory pattern : String) : Except FileError (List String) :=
  match tree.listMatching directory pattern with
  | .error e => if isMissing e then .ok [] else .error e
  | .ok files => .ok files

/-- The test cases of a directory, of which there has to be one. -/
def cases (tree : FileTree) (directory pattern : String) :
    Except Failure.Cause (List TestCase) :=
  match caseFiles tree directory pattern with
  | .error e => .error (.file e)
  | .ok [] => .error (.noTestcase directory pattern)
  | .ok (file :: files) => .ok ((file :: files).map (TestCase.load tree))

end Discovery

end CompressorBench
