import JvmLint.Type.Hierarchy
import JvmLint.Unit.Body
import JvmLint.Unit.Call

/-!
# Source units

All that is known of one source file.
-/
namespace JvmLint

structure SourceUnit where
  sourceFile : String
  classes : List ClassEntry
  bodies : List Body
  formatCalls : List FormatCall
  methods : List MethodDeclaration

end JvmLint
