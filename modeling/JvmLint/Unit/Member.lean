import JvmLint.Json.Number
import JvmLint.Type.Annotations
import JvmLint.Type.Reader

/-!
# Constants and members

Compile-time constants, and the methods and fields that code refers to.
-/
namespace JvmLint

/-- The compile-time constant value of an expression, variable or field. -/
inductive Constant where
  | boolean (value : Bool)
  | byte (value : Int)
  | short (value : Int)
  | int (value : Int)
  | long (value : Int)
  | char (value : Char)
  | float (value : Json.Number)
  | double (value : Json.Number)
  | string (value : String)
  deriving DecidableEq, Repr

/-- The text of a string constant. -/
def Constant.text? : Constant → Option String
  | string value => some value
  | _ => none

/-- What a declaration says of a parameter besides its type. -/
structure Parameter where
  name : String
  annotations : List String
  deriving DecidableEq, Repr

/-- A method that is called or declared. -/
structure Method where
  owner : String
  name : String
  descriptor : String
  isStatic : Bool
  isVarargs : Bool
  annotations : List String
  parameters : List Parameter
  deriving DecidableEq, Repr

namespace Method

/-- The types that the descriptor spells. -/
def type? (method : Method) : Except DescriptorError MethodType :=
  MethodType.parse method.descriptor

/-- The annotations of the parameter at a position. -/
def parameterAnnotations (method : Method) (position : Nat) : List String :=
  (method.parameters[position]?.map Parameter.annotations).getD []

/-- The name by which a declared method is reported. -/
def qualifiedName (method : Method) : String :=
  method.owner ++ "." ++ method.name ++ method.descriptor

end Method

/-- A field that is read or written. -/
structure Field where
  owner : String
  name : String
  type : JavaType
  isStatic : Bool
  isFinal : Bool
  isEnumConstant : Bool
  constant : Option Constant
  annotations : List String
  deriving DecidableEq, Repr

/-- A method declared in a source file. -/
structure MethodDeclaration where
  method : Method
  line : Option Nat
  deriving DecidableEq, Repr

end JvmLint
