import JvmLint.Format.Strict

/-!
# Headers of format methods

Checks that a declared method uses `@FormatMethod` and `@FormatString` as they
are meant: at most one parameter takes the format, it is a `String`, and it is one
of a format method. The first parameter that breaks a rule is reported.
-/
namespace JvmLint.Format

/-- What is wrong with a method header. -/
inductive DeclarationProblem where
  | notFormatMethod (type : JavaType) (parameterName : String)
  | notString
  | secondFormat
  | noString
  deriving DecidableEq, Repr

namespace DeclarationProblem

/-- A parameter as it is declared; its name may be unknown. -/
def parameterText (type : JavaType) (name : String) : String :=
  "@FormatString " ++ type.text ++ if name.isEmpty then "" else " " ++ name

def message : DeclarationProblem → String
  | notFormatMethod type name =>
    "A parameter can only be annotated @FormatString in a method annotated @FormatMethod: " ++
      parameterText type name
  | notString => "Only strings can be annotated @FormatString."
  | secondFormat => "A method cannot have more than one @FormatString parameter."
  | noString => "An @FormatMethod must contain at least one String parameter."

end DeclarationProblem

/-- The declared name of the parameter at a position. -/
def parameterName (method : Method) (position : Nat) : String :=
  (method.parameters[position]?.map Parameter.name).getD ""

/-- Checks the parameters from a position on. `found` says whether an earlier one
takes the format. -/
def parameterProblem? (method : Method) (position : Nat) (found : Bool) :
    List JavaType → Option DeclarationProblem
  | [] => none
  | type :: rest =>
    if FormatMethod.isParameterAnnotated method position then
      if !FormatMethod.isAnnotated method then
        some (.notFormatMethod type (parameterName method position))
      else if !isStringType type then some .notString
      else if found then some .secondFormat
      else parameterProblem? method (position + 1) true rest
    else parameterProblem? method (position + 1) found rest

/-- Checks the header of a declared method. -/
def checkDeclaration (method : Method) : Except HeaderError (Option DeclarationProblem) :=
  match headerType method with
  | .error error => .error error
  | .ok type =>
    match parameterProblem? method 0 false type.parameters with
    | some problem => .ok (some problem)
    | none =>
      if FormatMethod.isAnnotated method && !type.parameters.any isStringType then
        .ok (some .noString)
      else .ok none

end JvmLint.Format
