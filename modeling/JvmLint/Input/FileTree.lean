/-!
# File trees

Directories and files as values. A path is followed name by name from a
directory; `..` goes back to the directory before, and an empty name, as after a
slash at the end, or `.` stays where it is but demands a directory.
-/
namespace JvmLint

inductive FileTree where
  | file (content : List UInt8)
  | directory (entries : List (String × FileTree))

namespace FileTree

def isDirectory : FileTree → Bool
  | directory _ => true
  | file _ => false

/-- What a directory holds under a name. -/
def entry? (name : String) : FileTree → Option FileTree
  | directory entries => entries.lookup name
  | file _ => none

/-- Follows names from the directory on top of `above`, below which stand those
that `..` leads back to. -/
def follow : (above : List FileTree) → (names : List String) → Option (List FileTree)
  | above, [] => some above
  | [], _ => none
  | here :: above, name :: names =>
    if !here.isDirectory then none
    else if name = "" ∨ name = "." then follow (here :: above) names
    else if name = ".." then follow (if above.isEmpty then [here] else above) names
    else match here.entry? name with
      | some next => follow (next :: here :: above) names
      | none => none

/-- The most bytes that a name in a path may have. -/
def maxName : Nat := 255

/-- The most bytes that a path may have. -/
def maxPath : Nat := 4095

/-- What stands at a path. -/
def find? (root : FileTree) (path : String) : Option FileTree :=
  if maxPath < path.utf8ByteSize then none
  else (follow [root] (path.splitOn "/")).bind List.head?

/-- Why a file cannot be opened for writing. -/
inductive OpenFault where
  /-- The path holds the character with number zero. -/
  | nulInPath
  /-- The path, or a name in it, has too many bytes. -/
  | nameTooLong
  | notFound
  | notDirectory
  | isDirectory
  deriving DecidableEq, Repr

def OpenFault.message : OpenFault → String
  | nulInPath => "file name contained an unexpected NUL byte"
  | nameTooLong => "File name too long (os error 36)"
  | notFound => "No such file or directory (os error 2)"
  | notDirectory => "Not a directory (os error 20)"
  | isDirectory => "Is a directory (os error 21)"

/-- Follows names down to the directory that a new file is put into. When
`closed`, a slash follows the last name; then no file can be meant, whatever
stands there. -/
def openFaultBelow (closed : Bool) :
    (above : List FileTree) → (names : List String) → Option OpenFault
  | [], _ => none
  | _, [] => some .isDirectory
  | here :: above, name :: names =>
    if !here.isDirectory then some .notDirectory
    else if name = "." then openFaultBelow closed (here :: above) names
    else if name = ".." then
      openFaultBelow closed (if above.isEmpty then [here] else above) names
    else if names.isEmpty && closed then some .isDirectory
    else if maxName < name.utf8ByteSize then some .nameTooLong
    else match here.entry? name, names with
      | some next, [] => if next.isDirectory then some .isDirectory else none
      | none, [] => none
      | some next, names => openFaultBelow closed (next :: here :: above) names
      | none, _ => some .notFound

/-- The fault, if any, when the file at a path is opened for writing. -/
def openFault? (root : FileTree) (path : String) : Option OpenFault :=
  if '\x00' ∈ path.toList then some .nulInPath
  else if maxPath < path.utf8ByteSize then some .nameTooLong
  else
    openFaultBelow (path.toList.getLast? == some '/') [root]
      ((path.splitOn "/").filter (· ≠ ""))

/-- Puts a tree at a path, making the directories on the way. -/
def insert (tree : FileTree) : (names : List String) → FileTree → FileTree
  | [], new => new
  | name :: names, new =>
    let entries := match tree with
      | directory entries => entries
      | file _ => []
    let inner := (entries.lookup name).getD (directory [])
    directory (entries.filter (·.1 ≠ name) ++ [(name, inner.insert names new)])

end FileTree

end JvmLint
