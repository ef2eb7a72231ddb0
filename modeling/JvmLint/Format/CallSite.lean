import JvmLint.Format.Check

/-!
# Format calls

Checks a call that passes a format string followed by the arguments to format.
A call whose format is not known, or whose arguments come in an array, passes.
-/
namespace JvmLint.Format

/-- What is wrong with a call. -/
inductive CallProblem where
  | format (error : FormatError)
  | extraArguments (used provided : Nat)
  deriving DecidableEq, Repr

def CallProblem.message : CallProblem → String
  | format error => error.message
  | extraArguments used provided =>
    "extra format arguments: used " ++ toString used ++ ", provided " ++ toString provided

/-- Why a call cannot be checked. -/
inductive CallError where
  | noFormat
  deriving DecidableEq, Repr

def CallError.message : CallError → String
  | noFormat => "format validation needs the format string argument"

/-- The classes whose static methods stand for arguments of mocked calls. -/
def matcherOwners : List String :=
  ["org.mockito.ArgumentMatchers", "org.mockito.Matchers", "org.mockito.Mockito"]

/-- Whether an expression stands for any argument of a mocked call, and so is no
format. -/
def isMatcher (expr : Expr) : Bool :=
  match expr.kind with
  | .methodCall method => method.isStatic && matcherOwners.contains method.owner
  | _ => false

/-- The formats an expression may evaluate to: those of both arms of a
conditional, else its constant text. -/
def candidates : Expr → Option (List String)
  | ⟨.conditional thenExpr elseExpr, _, _, _⟩ => do
    return (← candidates thenExpr) ++ (← candidates elseExpr)
  | expr => expr.constantText?.map fun text => [text]

/-- Whether an argument is an array of objects, which may hold all arguments. -/
def isObjectArray (expr : Expr) : Bool :=
  match expr.type with
  | some (.array element) => element.erasure == .ofClass Hierarchy.objectClass
  | _ => false

/-- Whether the arguments come in one array. -/
def passesArray (method : Option Method) (arguments : List Expr) : Bool :=
  match arguments with
  | [argument] => method.all Method.isVarargs && isObjectArray argument
  | _ => false

/-- Checks one format against arguments: it must format, and need them all. -/
def checkCandidate (arguments : List Sample) (format : String) : Option CallProblem :=
  match check format arguments with
  | .error error => some (.format error)
  | .ok () =>
    let used := usedArguments format arguments
    if used < arguments.length then some (.extraArguments used arguments.length) else none

/-- Checks a call; its arguments start with the format. -/
def checkCall (hierarchy : Hierarchy) (method : Option Method) (arguments : List Expr) :
    Except CallError (Option CallProblem) :=
  match arguments with
  | [] => .error .noFormat
  | format :: rest =>
    if isMatcher format then .ok none
    else
      match candidates format with
      | none => .ok none
      | some formats =>
        if passesArray method rest then .ok none
        else .ok (formats.findSome? (checkCandidate (rest.map (Sample.ofExprOrNull hierarchy))))

end JvmLint.Format
