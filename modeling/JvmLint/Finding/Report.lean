import JvmLint.Finding.Lint
import JvmLint.Json.Value

/-!
# Reports

Findings as a SARIF log: one run of the tool, with the rules, the files that
were looked at and the findings. What is unknown or empty is left out.
-/
namespace JvmLint

/-- A file that was looked at. -/
structure Artifact where
  uri : String
  /-- The size in bytes. -/
  length : Nat
  deriving DecidableEq, Repr

namespace Report

open Json (Value)

def schema : String := "https://schemastore.azurewebsites.net/schemas/json/sarif-2.1.0.json"

def toolName : String := "dataflint"

def toolVersion : String := "0.1.0"

def textObject (text : String) : Value :=
  .object [("text", .string text)]

/-- A rule as the tool declares it. -/
def ofRule (rule : Rule) : Value :=
  .object
    [("id", .string rule.id),
     ("name", .string rule.title),
     ("shortDescription", textObject rule.description)]

/-- Where a finding is: the file, with the line if it is known. -/
def physicalLocation (finding : Finding) : Value :=
  let file : String × Value :=
    ("artifactLocation", .object [("uri", .string finding.sourceFile)])
  match finding.line with
  | some line => .object [file, ("region", .object [("startLine", .number line)])]
  | none => .object [file]

/-- Where a finding is, with the method or body around it if that is known. -/
def location (finding : Finding) : Value :=
  let physical : String × Value := ("physicalLocation", physicalLocation finding)
  match finding.enclosing with
  | some name =>
    let logical := Value.object [("kind", .string "function"), ("name", .string name)]
    .object [("logicalLocations", .array [logical]), physical]
  | none => .object [physical]

def ofFinding (finding : Finding) : Value :=
  .object
    [("locations", .array [location finding]),
     ("message", textObject finding.message),
     ("ruleId", .string finding.rule.id)]

def ofArtifact (artifact : Artifact) : Value :=
  .object
    [("length", .number artifact.length),
     ("location", .object [("uri", .string artifact.uri)]),
     ("roles", .array [.string "analysisTarget"])]

/-- How the tool was called, and how many milliseconds it took. -/
structure Call where
  arguments : List String
  scanTime : Nat
  analysisTime : Nat
  deriving DecidableEq, Repr

/-- The account of a successful call; without a call only the counts. -/
def invocation (call : Option Call) (unitCount artifactCount resultCount : Nat) : Value :=
  let count (name : String) (n : Nat) : String × Value := (toolName ++ "." ++ name, .number n)
  let counts (analysis scan : List (String × Value)) : String × Value :=
    ("properties", .object <|
      analysis ++ [count "artifact_count" artifactCount, count "result_count" resultCount] ++
        scan ++ [count "unit_count" unitCount])
  let success : String × Value := ("executionSuccessful", .bool true)
  match call with
  | none => .object [success, counts [] []]
  | some call =>
    .object
      [("arguments", .array (call.arguments.map .string)),
       ("commandLine", .string (" ".intercalate call.arguments)),
       success,
       counts [count "analysis_ms" call.analysisTime] [count "scan_ms" call.scanTime]]

/-- The log of one run. -/
def log (call : Option Call) (artifacts : List Artifact) (unitCount : Nat)
    (findings : List Finding) : Value :=
  let driver := Value.object
    [("name", .string toolName),
     ("rules", .array (Rule.all.map ofRule)),
     ("version", .string toolVersion)]
  let files : List (String × Value) :=
    if artifacts.isEmpty then [] else [("artifacts", .array (artifacts.map ofArtifact))]
  let run := files ++
    [("invocations", .array [invocation call unitCount artifacts.length findings.length]),
     ("results", .array (findings.map ofFinding)),
     ("tool", .object [("driver", driver)])]
  .object
    [("$schema", .string schema),
     ("runs", .array [.object run]),
     ("version", .string "2.1.0")]

/-- The log as it is written. -/
def text (log : Value) : String :=
  log.pretty 0 ++ "\n"

end Report

end JvmLint
