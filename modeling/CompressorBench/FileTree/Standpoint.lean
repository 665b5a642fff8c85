import CompressorBench.FileTree.Basic

/-!
# Standpoints

Where a lookup stands: a directory, together with all directories that it is in, so that each step
down or up takes the same little work. Going up undoes going down (`above_enter`).
-/

namespace CompressorBench.FileTree

/-- A directory on the way of a lookup. Beside what it holds, there are the names that lead to it
from the root, the last one first, and beside each name the children of the directory it is in. -/
structure Standpoint where
  way : List (String × List (String × Node))
  children : List (String × Node)

namespace Standpoint

/-- The location of the directory. -/
def location (here : Standpoint) : Location := (here.way.map Prod.fst).reverse

/-- The directory of a name in this one. -/
def enter (here : Standpoint) (name : String) (children : List (String × Node)) : Standpoint :=
  ⟨(name, here.children) :: here.way, children⟩

/-- The directory that this one is in; the root is in itself. -/
def above (here : Standpoint) : Standpoint :=
  match here.way with
  | [] => here
  | (_, siblings) :: way => ⟨way, siblings⟩

/-- The directory that a row of names leads to. -/
def descend (here : Standpoint) : List String → Standpoint
  | [] => here
  | name :: rest =>
    match here.children.lookup name with
    | some node => (here.enter name node.children).descend rest
    | none => (here.enter name []).descend rest

theorem above_enter (here : Standpoint) (name : String) (children : List (String × Node)) :
    (here.enter name children).above = here := rfl

theorem location_enter (here : Standpoint) (name : String) (children : List (String × Node)) :
    (here.enter name children).location = here.location ++ [name] := by
  simp [location, enter]

end Standpoint

/-- The root directory as a standpoint. -/
def rootStandpoint (tree : FileTree) : Standpoint := ⟨[], tree.top⟩

/-- Where a path starts. -/
def start (tree : FileTree) (path : String) : Standpoint :=
  if Pathname.isAbsolute path then tree.rootStandpoint
  else tree.rootStandpoint.descend tree.workingDirectory

end CompressorBench.FileTree
