import JvmLint.Format.CallSite

/-!
# Calls of format methods

A method annotated `@FormatMethod` takes its format in a parameter annotated
`@FormatString`, or else in its first `String` parameter. Its callers must pass a
format that is provably valid: a constant, a final local variable that was
initialised with one, or the format parameter of a format method that itself
takes arguments of the same types.
-/
namespace JvmLint.Format

def isStringType (type : JavaType) : Bool :=
  type.erasure == .ofClass Hierarchy.stringClass

namespace FormatMethod

def methodMark : String := "FormatMethod"

def parameterMark : String := "FormatString"

def isAnnotated (method : Method) : Bool :=
  Annotations.mem methodMark method.annotations

def isParameterAnnotated (method : Method) (position : Nat) : Bool :=
  Annotations.mem parameterMark (method.parameterAnnotations position)

/-- Whether the parameter at a position takes the format: it is annotated, or no
parameter is and it is the first of type `String`. -/
def isFormatParameter (method : Method) (parameters : List JavaType) (position : Nat) : Bool :=
  parameters[position]?.any isStringType && isAnnotated method &&
    (isParameterAnnotated method position ||
      (!(List.range parameters.length).any (isParameterAnnotated method) &&
        parameters.findIdx? isStringType == some position))

end FormatMethod

/-- What is wrong with a call of a format method. -/
inductive StrictProblem where
  | call (problem : CallProblem)
  | neitherLiteralNorVariable (source : String)
  | notFinal
  | neitherLocalNorConstant (source : String)
  | notInitialized (declaration : String)
  | notAssignedConstant (declaration : String)
  | notFormatParameter (source : String)
  | argumentCount (passed expected : Nat)
  | argumentTypes (passed expected : List (Option JavaType))
  deriving DecidableEq, Repr

namespace StrictProblem

def typeList (types : List (Option JavaType)) : String :=
  "[" ++ ", ".intercalate (types.map JavaType.textOrUnknown) ++ "]"

def message : StrictProblem → String
  | call problem => problem.message
  | neitherLiteralNorVariable source =>
    "Format strings must be either literals or variables. Other expressions are not valid.\n" ++
      "Invalid format string: " ++ source
  | notFinal => "All variables passed as @FormatString must be final or effectively final"
  | neitherLocalNorConstant source =>
    "Variables used as format strings that are not local variables must be compile time constants.\n" ++
      source ++ " is neither a local variable nor a compile time constant."
  | notInitialized declaration =>
    "Variables used as format strings must be initialized when they are declared.\n" ++
      "Invalid declaration: " ++ declaration
  | notAssignedConstant declaration =>
    "Local format string variables must only be assigned to compile time constant values. " ++
      "Invalid format string assignment: " ++ declaration
  | notFormatParameter source =>
    "Format strings must be compile time constants or parameters annotated @FormatString: " ++
      source
  | argumentCount passed expected =>
    "The number of format arguments passed with an @FormatString must match the number of " ++
      "format arguments in the @FormatMethod header where the format string was declared.\n" ++
      "\tFormat args passed: " ++ toString passed ++ "\n" ++
      "\tFormat args expected: " ++ toString expected
  | argumentTypes passed expected =>
    "The format argument types passed with an @FormatString must match the types of the " ++
      "format arguments in the @FormatMethod header where the format string was declared.\n" ++
      "\tFormat arg types passed: " ++ typeList passed ++ "\n" ++
      "\tFormat arg types expected: " ++ typeList expected

end StrictProblem

/-- Why a method header cannot be looked at. -/
structure HeaderError where
  owner : String
  name : String
  error : DescriptorError
  deriving DecidableEq, Repr

def HeaderError.message (error : HeaderError) : String :=
  "parse descriptor of " ++ error.owner ++ "." ++ error.name ++ ": " ++
    MethodType.parseErrorMessage error.error

/-- The types of a method, for a check of its header. -/
def headerType (method : Method) : Except HeaderError MethodType :=
  match method.type? with
  | .ok type => .ok type
  | .error error => .error ⟨method.owner, method.name, error⟩

/-- Why a call of a format method cannot be checked. -/
inductive StrictError where
  | call (error : CallError)
  | undeclared (variableName : String)
  | header (error : HeaderError)
  deriving DecidableEq, Repr

def StrictError.message : StrictError → String
  | call error => error.message
  | undeclared variableName =>
    "Could not find the Tree where local variable " ++ variableName ++
      " is declared. This should be impossible."
  | header error => error.message

/-- Checks a call with a format that is known. -/
def checkKnown (hierarchy : Hierarchy) (method : Option Method) (arguments : List Expr) :
    Except StrictError (Option StrictProblem) :=
  match checkCall hierarchy method arguments with
  | .ok problem => .ok (problem.map .call)
  | .error error => .error (.call error)

/-- Checks a call whose format is a local variable. -/
def checkLocal (hierarchy : Hierarchy) (declaration : LocalDeclaration) (rest : List Expr) :
    Except StrictError (Option StrictProblem) :=
  match declaration.initializer with
  | none => .ok (some (.notInitialized declaration.source))
  | some initializer =>
    if initializer.constantText?.isNone then
      .ok (some (.notAssignedConstant declaration.source))
    else checkKnown hierarchy none (initializer :: rest)

/-- Whether the types passed are those expected, as far as they are known. -/
def sameTypes (passed expected : List (Option JavaType)) : Bool :=
  (passed.zip expected).all fun
    | (some type, some type') => type == type'
    | _ => false

/-- Checks a call whose format is a parameter of the method around it. -/
def checkForwarded (symbol : VariableSymbol) (source : String) (rest : List Expr) :
    Except StrictError (Option StrictProblem) :=
  match symbol.owner, symbol.parameterIndex with
  | some owner, some position =>
    match headerType owner with
    | .error error => .error (.header error)
    | .ok type =>
      if FormatMethod.isFormatParameter owner type.parameters position then
        let expected := type.parameters.drop (position + 1)
        if rest.length ≠ expected.length then
          .ok (some (.argumentCount rest.length expected.length))
        else
          let passed := rest.map fun argument => argument.type.map JavaType.erasure
          let expected := expected.map fun type => some type.erasure
          .ok (if sameTypes passed expected then none else some (.argumentTypes passed expected))
      else .ok (some (.notFormatParameter source))
  | _, _ => .ok (some (.notFormatParameter source))

/-- Checks a call of a format method; its arguments start with the format, and
`scope` holds the local declarations that it sees. -/
def checkStrictCall (hierarchy : Hierarchy) (method : Option Method) (arguments : List Expr)
    (scope : List LocalDeclaration) : Except StrictError (Option StrictProblem) :=
  match arguments with
  | [] => .error (.call .noFormat)
  | format :: rest =>
    if isMatcher format then .ok none
    else if format.constant.isSome then checkKnown hierarchy method arguments
    else
      match format.kind with
      | .reference symbol =>
        if !symbol.isFinal && !symbol.isEffectivelyFinal then .ok (some .notFinal)
        else
          match symbol.kind with
          | .parameter => checkForwarded symbol format.source rest
          | .localVariable =>
            match scope.find? (·.symbolId == symbol.id) with
            | some declaration => checkLocal hierarchy declaration rest
            | none => .error (.undeclared symbol.name)
          | .field | .other => .ok (some (.neitherLocalNorConstant format.source))
      | _ => .ok (some (.neitherLiteralNorVariable format.source))

end JvmLint.Format
