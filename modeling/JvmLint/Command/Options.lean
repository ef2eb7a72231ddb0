/-!
# Command line options

An option takes a value, either in the same argument after `=` or as the argument
that follows; a switch takes none. An argument that starts with `-` is never the
value of the option before it, a lone `-` apart. After `--` no options follow.

What an option was given is looked at when the next option or switch is met, or
at the end, so that an unknown argument in between is reported first.
-/
namespace JvmLint.Command

/-- What a run of the tool is asked to do. -/
structure Options where
  input : String
  output : Option String
  /-- Where traces are to be sent. -/
  otel : Option String
  quiet : Bool
  timing : Bool
  deriving DecidableEq, Repr

/-- The options that take a value. -/
inductive Key where
  | input | output | otel
  deriving DecidableEq, Repr

/-- The options that take none. -/
inductive Switch where
  | quiet | timing
  deriving DecidableEq, Repr

inductive Flag where
  | key (key : Key)
  | switch (switch : Switch)
  | help
  | version
  deriving DecidableEq, Repr

namespace Flag

def ofName? : String → Option Flag
  | "input" => some (key .input)
  | "output" => some (key .output)
  | "otel" => some (key .otel)
  | "quiet" => some (switch .quiet)
  | "timing" => some (switch .timing)
  | "help" => some help
  | "version" => some version
  | _ => none

def ofLetter? : Char → Option Flag
  | 'h' => some help
  | 'V' => some version
  | _ => none

def name : Flag → String
  | key .input => "--input"
  | key .output => "--output"
  | key .otel => "--otel"
  | switch .quiet => "--quiet"
  | switch .timing => "--timing"
  | help => "--help"
  | version => "--version"

end Flag

/-- Why there is nothing to run. -/
inductive UsageError where
  | missingValue (key : Key)
  | emptyValue (key : Key)
  | repeated (flag : Flag)
  | unexpectedValue (flag : Flag)
  | unknownArgument (argument : String)
  | missingInput
  | helpAsked
  | versionAsked
  deriving DecidableEq, Repr

/-- The options read so far. -/
structure Given where
  input : Option String := none
  output : Option String := none
  otel : Option String := none
  quiet : Bool := false
  timing : Bool := false
  deriving DecidableEq, Repr

namespace Given

def get? (given : Given) : Key → Option String
  | .input => given.input
  | .output => given.output
  | .otel => given.otel

/-- Whether a key must not be given an empty value. -/
def demandsText : Key → Bool
  | .input | .output => true
  | .otel => false

/-- Stores the value of an option. -/
def set (given : Given) (key : Key) (value : String) : Except UsageError Given :=
  if (given.get? key).isSome then .error (.repeated (.key key))
  else if demandsText key && value.isEmpty then .error (.emptyValue key)
  else .ok <| match key with
    | .input => { given with input := some value }
    | .output => { given with output := some value }
    | .otel => { given with otel := some value }

/-- Turns a switch on. -/
def turnOn (given : Given) : Switch → Except UsageError Given
  | .quiet =>
    if given.quiet then .error (.repeated (.switch .quiet)) else .ok { given with quiet := true }
  | .timing =>
    if given.timing then .error (.repeated (.switch .timing)) else .ok { given with timing := true }

end Given

/-- Where a scan of the arguments stands: the options read so far, and one whose
value has yet to be stored or to be met. -/
structure Scan where
  given : Given
  pending : Option (Key × Option String)
  deriving DecidableEq, Repr

namespace Scan

/-- Stores the pending option. -/
def settle (scan : Scan) : Except UsageError Given :=
  match scan.pending with
  | none => .ok scan.given
  | some (key, none) => .error (.missingValue key)
  | some (key, some value) => scan.given.set key value

/-- Takes an option or switch, with the value in the same argument if any. -/
def take (scan : Scan) : Flag → Option String → Except UsageError Scan
  | .key key, none => do
    return ⟨← scan.settle, some (key, none)⟩
  | .key key, some value => do
    return ⟨← (← scan.settle).set key value, none⟩
  | .switch switch, none => do
    return ⟨← (← scan.settle).turnOn switch, none⟩
  | .help, none => do
    let _ ← scan.settle
    .error .helpAsked
  | .version, none => do
    let _ ← scan.settle
    .error .versionAsked
  | flag, some _ => .error (.unexpectedValue flag)

/-- Splits a long option at its first `=`. -/
def splitLong (text : List Char) : String × Option String :=
  let name := String.ofList (text.takeWhile (· ≠ '='))
  match text.dropWhile (· ≠ '=') with
  | [] => (name, none)
  | _ :: value => (name, some (String.ofList value))

/-- Takes one argument. -/
def step (scan : Scan) (argument : String) : Except UsageError Scan :=
  match argument.toList with
  | '-' :: '-' :: text =>
    let (name, value) := splitLong text
    match Flag.ofName? name with
    | some flag => scan.take flag value
    | none => .error (.unknownArgument argument)
  | '-' :: letter :: _ =>
    match Flag.ofLetter? letter with
    | some flag => scan.take flag none
    | none => .error (.unknownArgument argument)
  | _ =>
    match scan.pending with
    | some (key, none) => .ok { scan with pending := some (key, some argument) }
    | _ => .error (.unknownArgument argument)

/-- Takes all arguments. -/
def run (scan : Scan) : List String → Except UsageError Scan
  | [] => .ok scan
  | ["--"] => .ok scan
  | "--" :: argument :: _ => .error (.unknownArgument argument)
  | argument :: rest => do (← scan.step argument).run rest

end Scan

/-- Reads the arguments after the name of the program. -/
def Options.parse (arguments : List String) : Except UsageError Options := do
  let scan ← Scan.run ⟨{}, none⟩ arguments
  let given ← scan.settle
  match given.input with
  | none => .error .missingInput
  | some input =>
    .ok
      { input
        output := given.output
        otel := given.otel
        quiet := given.quiet
        timing := given.timing }

end JvmLint.Command
