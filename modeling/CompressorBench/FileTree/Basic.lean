import CompressorBench.FileTree.OsError
import CompressorBench.FileTree.Pathname
import CompressorBench.FileTree.Proper

/-!
# File trees

A file tree is the root directory with all that is below it, and the working directory. Each entry
is at a location, the names that lead to it from the root. Putting an entry at a location leaves all
other locations alone (`get?_insert_self`, `get?_insert_of_ne`).
-/

namespace CompressorBench

/-- The names that lead from the root to an entry. -/
abbrev Location := List String

/-- What is where, and which directory relative paths start from. -/
structure FileTree where
  /-- What is in the root directory. -/
  top : List (String × Node)
  workingDirectory : Location
  proper : (Node.directory top).Proper

namespace FileTree

/-- A tree that holds nothing. -/
def empty : FileTree := ⟨[], [], .directory List.nodup_nil (by simp)⟩

/-- The root directory. -/
def root (tree : FileTree) : Node := .directory tree.top

/-- The node at a location. -/
def node? (tree : FileTree) (location : Location) : Option Node := tree.root.find? location

/-- What is at a location. -/
def get? (tree : FileTree) (location : Location) : Option Entry :=
  (tree.node? location).map Node.entry

/-- The names in a directory with what they stand for, in the order of enumeration. -/
def children (tree : FileTree) (location : Location) : List (String × Entry) :=
  match tree.node? location with
  | some node => node.children.map fun child => (child.1, child.2.entry)
  | none => []

theorem directory_children_put (tree : FileTree) (new : Node) (location : Location) :
    Node.directory (Node.put new location tree.root).children = Node.put new location tree.root :=
  (Node.entry_eq_directory_iff.mp (Node.entry_put new location tree.root)).symm

theorem proper_put (tree : FileTree) (entry : Entry) (location : Location) :
    (Node.directory (Node.put (.ofEntry entry) location tree.root).children).Proper := by
  rw [directory_children_put]
  exact (Node.proper_ofEntry entry).put tree.proper

/-- The tree with an entry put at a location: in the place of the old one, or after all others of
its directory. -/
def insert (tree : FileTree) (location : Location) (entry : Entry) : FileTree :=
  { tree with
    top := (Node.put (.ofEntry entry) location tree.root).children
    proper := proper_put tree entry location }

theorem node?_insert (tree : FileTree) (location other : Location) (entry : Entry) :
    (tree.insert location entry).node? other =
      (Node.put (.ofEntry entry) location tree.root).find? other := by
  rw [node?, root, insert, directory_children_put]

/-- The entry that was put into a directory is there. -/
theorem get?_insert_self {tree : FileTree} {directory : Location} {name : String} {entry : Entry}
    (h : tree.get? directory = some .directory) :
    (tree.insert (directory ++ [name]) entry).get? (directory ++ [name]) = some entry := by
  obtain ⟨node, hnode, hentry⟩ := Option.map_eq_some_iff.mp h
  rw [Node.entry_eq_directory_iff.mp hentry] at hnode
  rw [get?, node?_insert, Node.find?_put_self hnode, Option.map_some, Node.entry_ofEntry]

/-- Nothing changes at any other location, if no directory was there. -/
theorem get?_insert_of_ne {tree : FileTree} {location other : Location} {entry : Entry}
    (hold : tree.get? location ≠ some .directory) (hne : other ≠ location) :
    (tree.insert location entry).get? other = tree.get? other := by
  rw [get?, node?_insert]
  refine Node.entry_find?_put_of_ne (Node.children_ofEntry entry) (fun old h => ?_) hne
  refine Node.children_eq_nil_of_entry fun he => hold ?_
  rw [get?, node?, h, Option.map_some, he]

end FileTree

end CompressorBench
