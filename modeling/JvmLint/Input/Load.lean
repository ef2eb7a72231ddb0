import JvmLint.Finding.Report
import JvmLint.Input.FileTree
import JvmLint.Unit.Decode

/-!
# Loading units

A unit is read from a file with the extension `json`. Of a directory all such
files are read, those of inner directories too, sorted by path level by level;
other files are passed over.
-/
namespace JvmLint

/-- The part of a file name after its last dot, unless nothing stands before
that dot. -/
def fileExtension? (name : String) : Option String :=
  let reversed := name.toList.reverse
  match reversed.dropWhile (· ≠ '.') with
  | _ :: _ :: _ => some (String.ofList (reversed.takeWhile (· ≠ '.')).reverse)
  | _ => none

def isUnitName (name : String) : Bool :=
  fileExtension? name == some "json"

/-- The path of an entry of a directory. -/
def joinPath (directory name : String) : String :=
  if directory.endsWith "/" then directory ++ name else directory ++ "/" ++ name

/-- The last name of a path. -/
def fileName (path : String) : String :=
  String.ofList (path.toList.reverse.takeWhile (· ≠ '/')).reverse

/-- The address of a file; `base` is what a relative path starts from. -/
def fileUri (base path : String) : String :=
  "file://" ++ if path.startsWith "/" then path else joinPath base path

namespace FileTree

mutual

/-- The unit files in a tree that stands at a path, in the order in which they
are read. -/
def unitFiles (path : String) : FileTree → List (String × List UInt8)
  | file content => if isUnitName (fileName path) then [(path, content)] else []
  | directory entries =>
    ((entryFiles path entries).mergeSort fun a b => decide (a.1 ≤ b.1)).flatMap Prod.snd

/-- The unit files under the path of each entry of a directory. -/
def entryFiles (path : String) :
    List (String × FileTree) → List (String × List (String × List UInt8))
  | [] => []
  | (name, tree) :: rest =>
    (joinPath path name, unitFiles (joinPath path name) tree) :: entryFiles path rest

end

end FileTree

/-- A unit, and the file it was read from. -/
structure LoadedUnit where
  path : String
  /-- The size of the file in bytes. -/
  length : Nat
  unit : SourceUnit

/-- Why units cannot be loaded. -/
inductive LoadError where
  | notFound (path : String)
  | unsupported (path : String)
  | undecodable (path : String) (error : Json.DecodeError)
  deriving DecidableEq, Repr

def LoadError.message : LoadError → String
  | notFound path => "input not found: " ++ path
  | unsupported path => "unsupported input file: " ++ path
  | undecodable path error =>
    "failed to parse " ++ path ++
      match error.cause with
      | .misfit => ": at " ++ error.path.text
      | .fault _ => ""

/-- Decodes one file. -/
def LoadedUnit.ofFile (file : String × List UInt8) : Except LoadError LoadedUnit :=
  match SourceUnit.ofBytes file.2 with
  | .ok unit => .ok { path := file.1, length := file.2.length, unit }
  | .error error => .error (.undecodable file.1 error)

/-- Loads the units at a path, given what stands there. -/
def loadUnits (path : String) : Option FileTree → Except LoadError (List LoadedUnit)
  | none => .error (.notFound path)
  | some (.file content) =>
    if isUnitName (fileName path) then (LoadedUnit.ofFile (path, content)).map fun unit => [unit]
    else .error (.unsupported path)
  | some tree => (tree.unitFiles path).mapM LoadedUnit.ofFile

def LoadedUnit.artifact (base : String) (loaded : LoadedUnit) : Artifact where
  uri := fileUri base loaded.path
  length := loaded.length

end JvmLint
