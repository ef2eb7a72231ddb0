import JvmLint.Command.Help
import JvmLint.Command.Run

/-!
# The program

Reads the files, prints the report and the messages; all else is done by `Command`.
-/
namespace JvmLint.Command

/-- Reads what stands at a path. Only the content of unit files is looked at. -/
partial def readTree (path : String) : IO FileTree := do
  let place := (← IO.currentDir) / path
  if ← place.isDir then
    let entries ← place.readDir
    let trees ← entries.toList.mapM fun entry => do
      return (entry.fileName, ← readTree (joinPath path entry.fileName))
    return .directory trees
  else if isUnitName (fileName path) then
    return .file (← IO.FS.readBinFile place).toList
  else
    return .file []

/-- Reads what stands at a path, if anything does. -/
def readTree? (path : String) : IO (Option FileTree) := do
  let place := (← IO.currentDir) / path
  if ← place.pathExists then return some (← readTree path) else return none

/-- Prints a message and gives the exit code of a failed run. -/
def fail (error : RunError) : IO UInt32 := do
  IO.eprintln ("Error: " ++ error.message)
  return 1

/-- Why a file could not be opened, in words. -/
def openReason : IO.Error → String
  | .noFileOrDirectory _ code details | .inappropriateType _ code details
  | .invalidArgument _ code details | .permissionDenied _ code details
  | .resourceExhausted _ code details | .noSuchThing _ code details =>
    details ++ " (os error " ++ toString code ++ ")"
  | error => toString error

/-- Writes the report to its file or to the standard output. -/
def writeReport (options : Options) (text : String) : IO (Except RunError Unit) := do
  match options.outputFile? with
  | none =>
    let output ← IO.getStdout
    output.putStr text
    output.flush
    return .ok ()
  | some path =>
    if '\x00' ∈ path.toList then
      return .error (.cannotOpen path (FileTree.OpenFault.message .nulInPath))
    try
      IO.FS.writeFile path text
      return .ok ()
    catch error => return .error (.cannotOpen path (openReason error))

/-- Runs the tool with options that were read. -/
def execute (arguments : List String) (options : Options) : IO UInt32 := do
  let start ← IO.monoMsNow
  let loaded := loadUnits options.input (← readTree? options.input)
  let scanned ← IO.monoMsNow
  match loaded.mapError RunError.load >>= Outcome.ofUnits with
  | .error error => fail error
  | .ok outcome =>
    let analyzed ← IO.monoMsNow
    let program ← IO.appPath
    let call : Report.Call :=
      { arguments := program.toString :: arguments
        scanTime := scanned - start
        analysisTime := analyzed - scanned }
    let base ← IO.currentDir
    let report := outcome.report base.toString (some call)
    match ← writeReport options (Report.text report) with
    | .error error => fail error
    | .ok () =>
      if options.timing && !options.quiet then
        let done ← IO.monoMsNow
        IO.eprintln <| s!"timing: total_ms={done - start} scan_ms={call.scanTime} " ++
          s!"analysis_ms={call.analysisTime} units={outcome.units.length} " ++
          s!"results={outcome.findings.length}"
      return 0

end JvmLint.Command

open JvmLint.Command in
def main (arguments : List String) : IO UInt32 := do
  match Options.parse arguments with
  | .error .helpAsked => IO.print helpText; return 0
  | .error .versionAsked => IO.print versionText; return 0
  | .error error => IO.eprint error.message; return 2
  | .ok options => execute arguments options
