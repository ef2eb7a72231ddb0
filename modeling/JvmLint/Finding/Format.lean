import JvmLint.Finding.Basic
import JvmLint.Format.Declaration
import JvmLint.Unit.Basic

/-!
# Findings about format strings

A call or a method that cannot be checked is passed over.
-/
namespace JvmLint

namespace Finding

/-- The finding for a call in a unit. -/
def ofCall (rule : Rule) (unit : SourceUnit) (call : FormatCall) (message : String) : Finding where
  rule
  sourceFile := unit.sourceFile
  enclosing := call.enclosing
  line := call.line
  message

/-- The finding for a call whose callee does not demand a valid format. -/
def ofPlainCall? (hierarchy : Hierarchy) (unit : SourceUnit) (call : FormatCall) :
    Option Finding :=
  match Format.checkCall hierarchy call.method call.arguments with
  | .ok (some problem) => some (ofCall .formatString unit call problem.message)
  | .ok none | .error _ => none

/-- The finding for a call of a format method. -/
def ofStrictCall? (hierarchy : Hierarchy) (unit : SourceUnit) (call : FormatCall) :
    Option Finding :=
  match Format.checkStrictCall hierarchy call.method call.arguments call.scope with
  | .ok (some problem) => some (ofCall .formatMethod unit call problem.message)
  | .ok none | .error _ => none

/-- The finding for the header of a declared method. -/
def ofDeclaration? (unit : SourceUnit) (declaration : MethodDeclaration) : Option Finding :=
  match Format.checkDeclaration declaration.method with
  | .ok (some problem) => some
    { rule := .formatMethod
      sourceFile := unit.sourceFile
      enclosing := some declaration.method.qualifiedName
      line := declaration.line
      message := problem.message }
  | .ok none | .error _ => none

end Finding

namespace SourceUnit

/-- The findings of the format string rule. -/
def formatStringFindings (hierarchy : Hierarchy) (unit : SourceUnit) : List Finding :=
  (unit.formatCalls.filter fun call => !call.strict).filterMap
    (Finding.ofPlainCall? hierarchy unit)

/-- The findings of the rule on format methods: calls, then declarations. -/
def formatAnnotationFindings (hierarchy : Hierarchy) (unit : SourceUnit) : List Finding :=
  (unit.formatCalls.filter fun call => call.strict).filterMap (Finding.ofStrictCall? hierarchy unit)
    ++ unit.methods.filterMap (Finding.ofDeclaration? unit)

end SourceUnit

end JvmLint
