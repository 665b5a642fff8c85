/-!
# Errors of the operating system

Why the operating system refuses an operation on files or a launch.
-/

namespace CompressorBench

/-- A reason to refuse an operation. -/
inductive OsError where
  | notFound
  /-- The arguments of a command take too many bytes. -/
  | argumentsTooLong
  | permissionDenied
  | alreadyExists
  | notADirectory
  | isADirectory
  | nameTooLong
  | tooManyLinks
  /-- Nobody reads from the other end of a pipe. -/
  | brokenPipe
  /-- A path holds a character with code 0. -/
  | nulInPath
  /-- A command or an argument holds a character with code 0. -/
  | nulInCommand
  /-- A text that was to be read is not UTF-8. -/
  | notUtf8
deriving DecidableEq, Repr

/-- The text of an error, with the number that the operating system gives it. -/
def OsError.message : OsError → String
  | .notFound => "No such file or directory (os error 2)"
  | .argumentsTooLong => "Argument list too long (os error 7)"
  | .permissionDenied => "Permission denied (os error 13)"
  | .alreadyExists => "File exists (os error 17)"
  | .notADirectory => "Not a directory (os error 20)"
  | .isADirectory => "Is a directory (os error 21)"
  | .brokenPipe => "Broken pipe (os error 32)"
  | .nameTooLong => "File name too long (os error 36)"
  | .tooManyLinks => "Too many levels of symbolic links (os error 40)"
  | .nulInPath => "file name contained an unexpected NUL byte"
  | .nulInCommand => "nul byte found in provided data"
  | .notUtf8 => "stream did not contain valid UTF-8"

end CompressorBench
