import CompressorBench.FileTree.OsError
import CompressorBench.Glob.Pattern
import CompressorBench.Json.Basic

/-!
# Failures

What stops a run as a whole. A failure has a cause, and every place that hands it on may add a
context to it. The exit status tells apart the one case in which there was nothing to run.
-/

namespace CompressorBench

/-! ## Errors of file operations -/

/-- What was to be done with a file. -/
inductive FileAction where
  | createDirectory
  | writeFile
  | readFile
  | readDirectory
deriving DecidableEq, Repr

/-- What the text of an error says about the action. -/
def FileAction.message : FileAction → String
  | .createDirectory => "Cannot create dir"
  | .writeFile => "Cannot write file"
  | .readFile => "Cannot read file"
  | .readDirectory => "Cannot read dir"

/-- Why a file operation failed. -/
inductive FileError where
  | refused (action : FileAction) (path : String) (cause : OsError)
  | badPattern (pattern : String) (cause : Glob.SyntaxError)
  | unserializable (path : String) (cause : Json.Unserializable)
deriving DecidableEq, Repr

namespace FileError

/-- The text of what lies behind an error. -/
def causeMessage : FileError → String
  | .refused _ _ cause => cause.message
  | .badPattern _ cause => cause.message
  | .unserializable _ cause => cause.message

/-- The text of an error, which ends with that of its cause. -/
def message : FileError → String
  | .refused action path cause => action.message ++ " (" ++ path ++ "): " ++ cause.message
  | .badPattern pattern cause => "Invalid glob pattern '" ++ pattern ++ "': " ++ cause.message
  | .unserializable path cause =>
    "Cannot serialize to JSON (dest='" ++ path ++ "'): " ++ cause.message

end FileError

/-! ## Failures of a run -/

/-- What a failure goes back to. -/
inductive Failure.Cause where
  | noTestcase (directory pattern : String)
  | file (error : FileError)
  | os (error : OsError)
  /-- More workers were asked for than a pool can have. -/
  | tooManyWorkers (jobs : Nat)
  | other (message : String)
deriving DecidableEq, Repr

/-- The text of a cause. -/
def Failure.Cause.message : Failure.Cause → String
  | .noTestcase directory pattern =>
    "No testcase matched '" ++ pattern ++ "' in '" ++ directory ++ "'"
  | .file error => error.message
  | .os error => error.message
  | .tooManyWorkers _ =>
    "a semaphore may not have more than MAX_PERMITS permits (2305843009213693951)"
  | .other message => message

/-- The texts of a cause and of everything behind it, outermost first. -/
def Failure.Cause.chain : Failure.Cause → List String
  | .file error => [error.message, error.causeMessage]
  | cause => [cause.message]

/-- A cause with the contexts added to it, the last added one first. -/
structure Failure where
  contexts : List String
  cause : Failure.Cause
deriving DecidableEq, Repr

namespace Failure

/-- A failure without context. -/
def ofCause (cause : Cause) : Failure := ⟨[], cause⟩

/-- Adds a context around all others. -/
def addContext (failure : Failure) (context : String) : Failure :=
  { failure with contexts := context :: failure.contexts }

/-- The outermost text of a failure. -/
def text (failure : Failure) : String :=
  match failure.contexts with
  | [] => failure.cause.message
  | context :: _ => context

/-- All texts of a failure, from the outermost context to the innermost cause. -/
def chain (failure : Failure) : String :=
  String.intercalate ": " (failure.contexts ++ failure.cause.chain)

/-- The exit status of a run that ends with a failure: 2 if there was nothing to run. -/
def exitCode (failure : Failure) : Nat :=
  match failure.cause with
  | .noTestcase .. => 2
  | .tooManyWorkers _ => 101
  | _ => 1

/-- A context does not change the exit status. -/
@[simp] theorem exitCode_addContext (failure : Failure) (context : String) :
    (failure.addContext context).exitCode = failure.exitCode := rfl

end Failure

end CompressorBench
