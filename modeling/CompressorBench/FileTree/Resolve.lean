import CompressorBench.FileTree.Standpoint

/-!
# Following a path

A path is followed step by step from a directory. A step to a symbolic link goes on with the steps
of its target, and a lookup follows at most forty links. The walk ends because every step either
takes a piece off the path or uses up one of the links.
-/

namespace CompressorBench.FileTree

/-- Where a path leads. -/
inductive Place where
  /-- An entry is there. -/
  | occupied (location : Location) (entry : Entry)
  /-- The directory is there, and it has no entry of that name. -/
  | vacant (location : Location)
deriving DecidableEq

/-- What a lookup is for. -/
inductive Intent where
  /-- To reach what the path stands for, through all links. -/
  | reach
  /-- To write a file, which is created if nothing is there; a slash at the end is refused. -/
  | write
  /-- To make a new entry; a link at the end is an entry that exists. -/
  | make
deriving DecidableEq, Repr

/-- The longest name of an entry in bytes. -/
def maxNameLength : Nat := 255

/-- The longest path in bytes. -/
def maxPathLength : Nat := 4095

/-- How many links a lookup follows. -/
def maxLinks : Nat := 40

/-- Follows steps from a directory. `slash` tells that a slash ends the path. -/
def walk (tree : FileTree) (intent : Intent) (links : Nat) (here : Standpoint)
    (steps : List String) (slash : Bool) : Except OsError Place :=
  match steps with
  | [] => .ok (.occupied here.location .directory)
  | step :: rest =>
    if step = "." then tree.walk intent links here rest slash
    else if step = ".." then tree.walk intent links here.above rest slash
    else if intent = .write ∧ rest = [] ∧ slash then .error .isADirectory
    else if maxNameLength < step.utf8ByteSize then .error .nameTooLong
    else
      match here.children.lookup step with
      | none => if rest = [] then .ok (.vacant (here.location ++ [step])) else .error .notFound
      | some (.directory children) => tree.walk intent links (here.enter step children) rest slash
      | some (.file contents executable) =>
        if rest = [] ∧ (intent = .make ∨ !slash) then
          .ok (.occupied (here.location ++ [step]) (.file contents executable))
        else .error .notADirectory
      | some (.link target) =>
        if rest = [] ∧ intent = .make then
          .ok (.occupied (here.location ++ [step]) (.link target))
        else
          match links with
          | 0 => .error .tooManyLinks
          | links + 1 =>
            let origin := if Pathname.isAbsolute target then tree.rootStandpoint else here
            tree.walk intent links origin (Pathname.steps target ++ rest)
              (slash || (rest.isEmpty && Pathname.endsInSlash target))
termination_by (links, steps.length)

/-- Why a text is no path at all. -/
def pathDefect? (path : String) : Option OsError :=
  if path.toList.contains '\x00' then some .nulInPath
  else if path = "" then some .notFound
  else if maxPathLength < path.utf8ByteSize then some .nameTooLong
  else none

/-- Finds where a path leads. -/
def resolve (tree : FileTree) (intent : Intent) (path : String) : Except OsError Place :=
  match pathDefect? path with
  | some e => .error e
  | none =>
    tree.walk intent maxLinks (tree.start path) (Pathname.steps path) (Pathname.endsInSlash path)

/-- Whether a path leads to a directory. -/
def isDirectory (tree : FileTree) (path : String) : Bool :=
  match tree.resolve .reach path with
  | .ok (.occupied _ .directory) => true
  | _ => false

end CompressorBench.FileTree
