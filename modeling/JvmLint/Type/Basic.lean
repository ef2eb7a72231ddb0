/-!
# Java types

The static types that expressions, variables and members carry. Class types
name a class by its dotted binary name and keep their type arguments; all else
about generics is erased.

* `JavaType.text`: the type as messages show it.
* `JavaType.erasure`: the type without type arguments.
* `JavaType.unboxed`: the primitive behind a wrapper class.
-/
namespace JvmLint

/-- The primitive types. -/
inductive Primitive where
  | boolean | byte | short | int | long | char | float | double
  deriving DecidableEq, Repr

namespace Primitive

/-- The keyword of the source language. -/
def keyword : Primitive → String
  | boolean => "boolean"
  | byte => "byte"
  | short => "short"
  | int => "int"
  | long => "long"
  | char => "char"
  | float => "float"
  | double => "double"

/-- The class that boxes a primitive value. -/
def wrapper : Primitive → String
  | boolean => "java.lang.Boolean"
  | byte => "java.lang.Byte"
  | short => "java.lang.Short"
  | int => "java.lang.Integer"
  | long => "java.lang.Long"
  | char => "java.lang.Character"
  | float => "java.lang.Float"
  | double => "java.lang.Double"

def all : List Primitive := [boolean, byte, short, int, long, char, float, double]

/-- The primitive that a wrapper class boxes. -/
def ofWrapper? (className : String) : Option Primitive :=
  all.find? (·.wrapper == className)

/-- The other primitives that a value widens to. -/
def wider : Primitive → List Primitive
  | boolean => []
  | byte => [short, int, long, float, double]
  | short | char => [int, long, float, double]
  | int => [long, float, double]
  | long => [float, double]
  | float => [double]
  | double => []

/-- The widening conversions, the identity included. -/
def widensTo (sub sup : Primitive) : Bool :=
  sub == sup || sub.wider.contains sup

end Primitive

/-- A static type. `null` is the type of the null literal. -/
inductive JavaType where
  | primitive (kind : Primitive)
  | object (className : String) (arguments : List JavaType)
  | array (element : JavaType)
  | null
  | void
  deriving Repr, Inhabited

namespace JavaType

mutual

/-- Equality of types is decided part by part. -/
def decEq : (a b : JavaType) → Decidable (a = b)
  | .primitive p, .primitive q =>
    if h : p = q then isTrue (by rw [h]) else isFalse (by simp [h])
  | .object m as, .object n bs =>
    if h : m = n then
      match decEqList as bs with
      | isTrue h' => isTrue (by rw [h, h'])
      | isFalse h' => isFalse (by simp [h'])
    else isFalse (by simp [h])
  | .array a, .array b =>
    match decEq a b with
    | isTrue h => isTrue (by rw [h])
    | isFalse h => isFalse (by simp [h])
  | .null, .null => isTrue rfl
  | .void, .void => isTrue rfl
  | .primitive _, .object .. | .primitive _, .array _ | .primitive _, .null | .primitive _, .void
  | .object .., .primitive _ | .object .., .array _ | .object .., .null | .object .., .void
  | .array _, .primitive _ | .array _, .object .. | .array _, .null | .array _, .void
  | .null, .primitive _ | .null, .object .. | .null, .array _ | .null, .void
  | .void, .primitive _ | .void, .object .. | .void, .array _ | .void, .null =>
    isFalse (by simp)

def decEqList : (as bs : List JavaType) → Decidable (as = bs)
  | [], [] => isTrue rfl
  | a :: as, b :: bs =>
    match decEq a b, decEqList as bs with
    | isTrue h, isTrue h' => isTrue (by rw [h, h'])
    | isFalse h, _ => isFalse (by simp [h])
    | _, isFalse h => isFalse (by simp [h])
  | [], _ :: _ | _ :: _, [] => isFalse (by simp)

end

instance : DecidableEq JavaType := decEq

/-- The class type without type arguments. -/
abbrev ofClass (className : String) : JavaType := .object className []

def isPrimitive : JavaType → Bool
  | primitive _ => true
  | _ => false

def isBoolean : JavaType → Bool
  | primitive .boolean => true
  | _ => false

/-- Class and array types, and the type of the null literal. -/
def isReference : JavaType → Bool
  | object .. | array _ | null => true
  | _ => false

def className? : JavaType → Option String
  | object name _ => some name
  | _ => none

def typeArguments : JavaType → List JavaType
  | object _ arguments => arguments
  | _ => []

/-- The type without type arguments, at every array level. -/
def erasure : JavaType → JavaType
  | object name _ => ofClass name
  | array element => array element.erasure
  | primitive kind => primitive kind
  | null => null
  | void => void

/-- The primitive behind a wrapper class, else the type itself. -/
def unboxed (type : JavaType) : JavaType :=
  match type.className?.bind Primitive.ofWrapper? with
  | some kind => primitive kind
  | none => type

mutual

/-- The type as messages show it. -/
def text : JavaType → String
  | primitive kind => kind.keyword
  | object name [] => name
  | object name (first :: rest) =>
    name ++ "<" ++ ",".intercalate (text first :: texts rest) ++ ">"
  | array element => text element ++ "[]"
  | null => "<nulltype>"
  | void => "void"

def texts : List JavaType → List String
  | [] => []
  | type :: rest => text type :: texts rest

end

/-- `text`, or the word for a type that is not known. -/
def textOrUnknown : Option JavaType → String
  | some type => type.text
  | none => "<unknown>"

/-- `dimensions` array levels over a type. -/
def arrayOf (dimensions : Nat) (element : JavaType) : JavaType :=
  match dimensions with
  | 0 => element
  | n + 1 => array (arrayOf n element)

end JavaType

end JvmLint
