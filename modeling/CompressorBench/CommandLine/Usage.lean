import CompressorBench.CommandLine.Options

/-!
# Answers to a command line that asks for no run

What is printed when the arguments are not accepted, or when they ask about the program itself.
-/

namespace CompressorBench.CommandLine

/-- The version of the program. -/
def versionText : String := "0.1.0"

/-- The options with what they mean. -/
def helpLines : List String :=
  ["Options:",
    "      --bin <PATH>          the program to run",
    "      --cases-dir <DIR>     the directory of the test cases",
    "      --pattern <GLOB>      the names of the test cases",
    "      --timeout <SECONDS>   the time limit of one run of the program",
    "  -j, --jobs <JOBS>         how many test cases are evaluated at once",
    "      --json <PATH>         where to write the report as JSON",
    "      --no-progress         show no progress",
    "  -v, --verbose             log more; may be given several times",
    "  -h, --help                print this text",
    "  -V, --version             print the version"]

namespace UsageError

/-- The exit status for arguments that ask for no run; a question about the program is no error. -/
def exitCode : UsageError → Nat
  | .helpRequested => 0
  | .versionRequested => 0
  | _ => 2

/-- The lines that answer the arguments. -/
def lines : UsageError → List String
  | .unknownArgument => ["error: unexpected argument found"]
  | .missingValue => ["error: a value is required but none was supplied"]
  | .invalidValue option value reason => [invalidValueMessage option value reason]
  | .unexpectedValue => ["error: unexpected value for an option that takes none"]
  | .repeated => ["error: an option cannot be used multiple times"]
  | .helpRequested => helpLines
  | .versionRequested => [versionText]

end UsageError

end CompressorBench.CommandLine
