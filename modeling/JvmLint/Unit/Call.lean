import JvmLint.Unit.Member

/-!
# Format calls

Calls that pass a format string, with their argument expressions as far as the
checks look into them.
-/
namespace JvmLint

inductive SymbolKind where
  | localVariable | parameter | field | other
  deriving DecidableEq, Repr

/-- A variable that an expression refers to. -/
structure VariableSymbol where
  id : Nat
  name : String
  kind : SymbolKind
  isFinal : Bool
  isEffectivelyFinal : Bool
  /-- The method that declares a parameter, and its position there. -/
  owner : Option Method
  parameterIndex : Option Nat
  deriving DecidableEq, Repr

mutual

/-- An argument expression; `source` is its text. -/
structure Expr where
  kind : ExprKind
  type : Option JavaType
  constant : Option Constant
  source : String

inductive ExprKind where
  | literal
  | conditional (thenExpr elseExpr : Expr)
  | reference (symbol : VariableSymbol)
  | methodCall (method : Method)
  | other

end

/-- The text of an expression that is a string constant. -/
def Expr.constantText? (expr : Expr) : Option String :=
  expr.constant.bind Constant.text?

/-- The declaration of a local variable that a call can see. -/
structure LocalDeclaration where
  symbolId : Nat
  initializer : Option Expr
  source : String

/-- A call whose first argument is a format string. -/
structure FormatCall where
  method : Option Method
  arguments : List Expr
  /-- Whether the callee demands a format string that is provably valid. -/
  strict : Bool
  scope : List LocalDeclaration
  enclosing : Option String
  line : Option Nat

end JvmLint
