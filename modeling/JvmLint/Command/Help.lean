import JvmLint.Command.Options
import JvmLint.Finding.Report

/-!
# Help and usage messages
-/
namespace JvmLint.Command

def usage : String :=
  "Usage: " ++ Report.toolName ++ " [OPTIONS] --input <PATH>"

def versionText : String :=
  Report.toolName ++ " " ++ Report.toolVersion ++ "\n"

def helpText : String :=
  "Nullness and format-string checks over JVM analysis units, reported as SARIF.\n\n" ++
    usage ++ "\n\n" ++
    "Options:\n" ++
    "      --input <PATH>   Analysis unit file, or a directory searched for `*.json` units\n" ++
    "      --output <PATH>  Write SARIF here instead of stdout (`-` is stdout)\n" ++
    "      --quiet          \n" ++
    "      --timing         \n" ++
    "      --otel <URL>     OTLP/HTTP collector endpoint for trace export\n" ++
    "  -h, --help           Print help\n" ++
    "  -V, --version        Print version\n"

/-- An option as it is written, with the name of its value. -/
def Key.text (key : Key) : String :=
  (Flag.key key).name ++ match key with
    | .input | .output => " <PATH>"
    | .otel => " <URL>"

def Flag.text : Flag → String
  | key k => k.text
  | flag => flag.name

/-- What is printed instead of a report. -/
def UsageError.message : UsageError → String
  | helpAsked => helpText
  | versionAsked => versionText
  | missingValue key | emptyValue key =>
    problem ("a value is required for '" ++ key.text ++ "' but none was supplied")
  | repeated flag => problem ("the argument '" ++ flag.text ++ "' cannot be used multiple times")
  | unexpectedValue flag =>
    problem ("unexpected value for '" ++ flag.text ++ "' found; no more were expected")
  | unknownArgument argument => problem ("unexpected argument '" ++ argument ++ "' found")
  | missingInput =>
    problem ("the following required arguments were not provided:\n  " ++ Key.text .input)
where
  problem (text : String) : String :=
    "error: " ++ text ++ "\n\n" ++ usage ++ "\n\nFor more information, try '--help'.\n"

end JvmLint.Command
