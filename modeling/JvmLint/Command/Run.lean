import JvmLint.Command.Options
import JvmLint.Input.Load

/-!
# A run of the tool

Loads the units at the input path, applies all rules and makes the report. The
place for the report is looked at last.
-/
namespace JvmLint.Command

/-- Why a run ends without a report. -/
inductive RunError where
  | load (error : LoadError)
  /-- The analysis of some body never ends. -/
  | endless
  /-- A rule asked a question that has no answer. -/
  | query (error : QueryError)
  | cannotOpen (path : String) (reason : String)
  deriving DecidableEq, Repr

def RunError.message : RunError → String
  | load error => error.message
  | endless => "analysis does not end"
  | query error => error.message
  | cannotOpen path reason => "failed to open " ++ path ++ ": " ++ reason

/-- The loaded units and what was found in them. -/
structure Outcome where
  units : List LoadedUnit
  findings : List Finding

/-- Applies all rules to loaded units. -/
def Outcome.ofUnits (units : List LoadedUnit) : Except RunError Outcome :=
  match analyzeUnits (units.map LoadedUnit.unit) with
  | .ok findings => .ok { units, findings }
  | .error (.analysis _ .endless) => .error .endless
  | .error error => .error (.query error)

/-- The report; `base` is what relative paths start from. -/
def Outcome.report (outcome : Outcome) (base : String) (call : Option Report.Call) : Json.Value :=
  Report.log call (outcome.units.map (LoadedUnit.artifact base)) outcome.units.length
    outcome.findings

/-- Whether a path stands for the standard output: a dash, which slashes and dots
may follow. -/
def isStandardOutput (path : String) : Bool :=
  match path.splitOn "/" with
  | [] => false
  | first :: rest => first == "-" && rest.all fun name => name == "" || name == "."

/-- The file that the report goes to; none for the standard output. -/
def Options.outputFile? (options : Options) : Option String :=
  options.output.filter fun path => !isStandardOutput path

/-- The report of a run over a tree of files. -/
def run (root : FileTree) (options : Options) : Except RunError Json.Value := do
  let units ← (loadUnits options.input (root.find? options.input)).mapError .load
  let outcome ← Outcome.ofUnits units
  match options.outputFile?.bind fun path => (root.openFault? path).map (path, ·) with
  | some (path, fault) => .error (.cannotOpen path fault.message)
  | none => .ok (outcome.report "/" none)

end JvmLint.Command
