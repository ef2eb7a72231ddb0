import JvmLint.Type.Basic

/-!
# Descriptors

A descriptor spells a type in one letter (`I`, `V`, ...), as `L` followed by a
class name and `;`, or as `[` followed by the descriptor of the element; a
method descriptor is a parenthesised list of them followed by one more. Names
are written with slashes and stand with dots in the types.

A text is taken apart by a `Descriptor.Reader`. What it finds, a `TypeDescriptor`
or a `MethodDescriptor`, is then turned into types.

* `JavaType.parseWith`, `MethodType.parseWith`: the types that a text spells, with
  any reader.
* `JavaType.descriptor`, `MethodType.descriptor`: the writers.
-/
namespace JvmLint

/-- A type as it is spelled: a class name has slashes, and array levels are a
count. -/
inductive TypeDescriptor where
  | boolean
  | byte
  | short
  | integer
  | long
  | char
  | float
  | double
  | void
  | object (name : String)
  | array (element : TypeDescriptor) (dimensions : Nat)
  deriving DecidableEq, Repr

/-- The parameter and return types of a method as they are spelled. -/
structure MethodDescriptor where
  parameterTypes : List TypeDescriptor
  returnType : TypeDescriptor
  deriving DecidableEq, Repr

/-- The parameter and return types of a method. -/
structure MethodType where
  parameters : List JavaType
  result : JavaType
  deriving DecidableEq, Repr

namespace Descriptor

/-- A reader of texts that should be descriptors; `ε` is what it says of others. -/
structure Reader (ε : Type) where
  type : String → Except ε TypeDescriptor
  method : String → Except ε MethodDescriptor

/-- The types that are spelled in one letter. -/
def letters : List (Char × TypeDescriptor) :=
  [('Z', .boolean), ('B', .byte), ('S', .short), ('I', .integer), ('J', .long), ('C', .char),
    ('F', .float), ('D', .double), ('V', .void)]

/-- The largest number of array levels a descriptor may spell. -/
def maxDimensions : Nat := 255

/-- The letter of a primitive type. -/
def letter : Primitive → Char
  | .boolean => 'Z'
  | .byte => 'B'
  | .short => 'S'
  | .int => 'I'
  | .long => 'J'
  | .char => 'C'
  | .float => 'F'
  | .double => 'D'

/-- A class name with dots for slashes. -/
def dotted (name : List Char) : List Char :=
  name.map fun c => if c = '/' then '.' else c

/-- A class name with slashes for dots. -/
def slashed (name : List Char) : List Char :=
  name.map fun c => if c = '.' then '/' else c

end Descriptor

/-- The type that is spelled. -/
def TypeDescriptor.javaType : TypeDescriptor → JavaType
  | boolean => .primitive .boolean
  | byte => .primitive .byte
  | short => .primitive .short
  | integer => .primitive .int
  | long => .primitive .long
  | char => .primitive .char
  | float => .primitive .float
  | double => .primitive .double
  | void => .void
  | object name => .ofClass (String.ofList (Descriptor.dotted name.toList))
  | array element dimensions => element.javaType.arrayOf dimensions

/-- The types of a method that are spelled. -/
def MethodDescriptor.methodType (descriptor : MethodDescriptor) : MethodType where
  parameters := descriptor.parameterTypes.map TypeDescriptor.javaType
  result := descriptor.returnType.javaType

namespace JavaType

/-- The type that a text spells; the word `null` is the null type. -/
def parseWith {ε : Type} (reader : Descriptor.Reader ε) (text : String) : Except ε JavaType :=
  if text = "null" then .ok .null
  else (reader.type text).map TypeDescriptor.javaType

/-- The descriptor of a type. Type arguments are not written. -/
def descriptor : JavaType → List Char
  | primitive kind => [Descriptor.letter kind]
  | object name _ => 'L' :: Descriptor.slashed name.toList ++ [';']
  | array element => '[' :: element.descriptor
  | null => "null".toList
  | void => ['V']

end JavaType

namespace MethodType

/-- The types of a method that a text spells. -/
def parseWith {ε : Type} (reader : Descriptor.Reader ε) (text : String) : Except ε MethodType :=
  (reader.method text).map MethodDescriptor.methodType

/-- The descriptor of a method with these types. -/
def descriptor (type : MethodType) : List Char :=
  '(' :: type.parameters.flatMap JavaType.descriptor ++ ')' :: type.result.descriptor

end MethodType

end JvmLint
