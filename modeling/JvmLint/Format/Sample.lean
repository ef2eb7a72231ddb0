import JvmLint.Type.Hierarchy
import JvmLint.Unit.Call

/-!
# Samples

A format is tried on sample arguments: for each argument expression one value
that stands for all it may evaluate to, as far as formatting tells them apart.
-/
namespace JvmLint.Format

/-- A value that is formatted. Floating values are all formatted alike. -/
inductive Sample where
  | null
  | boolean (value : Bool)
  | byte (value : Int)
  | short (value : Int)
  | int (value : Int)
  | long (value : Int)
  | char (value : Char)
  | float
  | double
  | string (value : String)
  | bigDecimal
  | bigInteger
  | date
  | calendar
  | localDateTime
  /-- Any other object, of which only the class is known. -/
  | object (className : String)
  deriving DecidableEq, Repr

namespace Sample

/-- The class of the value, as messages name it. -/
def className : Sample → String
  | null => "null"
  | boolean _ => Primitive.boolean.wrapper
  | byte _ => Primitive.byte.wrapper
  | short _ => Primitive.short.wrapper
  | int _ => Primitive.int.wrapper
  | long _ => Primitive.long.wrapper
  | char _ => Primitive.char.wrapper
  | float => Primitive.float.wrapper
  | double => Primitive.double.wrapper
  | string _ => Hierarchy.stringClass
  | bigDecimal => "java.math.BigDecimal"
  | bigInteger => "java.math.BigInteger"
  | date => "java.util.Date"
  | calendar => "java.util.GregorianCalendar"
  | localDateTime => "java.time.LocalDateTime"
  | object className => className

/-- The value of a constant. -/
def ofConstant : Constant → Sample
  | .boolean value => boolean value
  | .byte value => byte value
  | .short value => short value
  | .int value => int value
  | .long value => long value
  | .char value => char value
  | .float _ => float
  | .double _ => double
  | .string value => string value

def ofPrimitive : Primitive → Sample
  | .boolean => boolean false
  | .byte => byte 1
  | .short => short 2
  | .int => int 3
  | .long => long 4
  | .char => char 'c'
  | .float => float
  | .double => double

/-- The classes whose subclasses have a sample of their own. The first that is a
supertype decides. -/
def categories : List (String × Sample) := [
  (Hierarchy.stringClass, string "string"),
  ("java.math.BigDecimal", bigDecimal),
  ("java.math.BigInteger", bigInteger),
  ("java.util.Date", date),
  ("java.util.Calendar", calendar),
  ("java.time.temporal.TemporalAccessor", localDateTime)]

/-- A sample of a type that does not defer to another one. -/
def ofErasure (hierarchy : Hierarchy) (type : JavaType) : Sample :=
  match type.unboxed with
  | .primitive kind => ofPrimitive kind
  | _ =>
    match categories.find? fun (name, _) => hierarchy.isSubtype type (.ofClass name) with
    | some (_, sample) => sample
    | none => object Hierarchy.objectClass

/-- The class of arguments that are computed when they are formatted; the type
argument tells what they give. -/
def lazyArgument : String := "com.google.common.flogger.LazyArg"

/-- Why a type has no sample. -/
inductive Error where
  | lazyWithoutArgument
  deriving DecidableEq, Repr

def Error.message : Error → String
  | lazyWithoutArgument => lazyArgument ++ " used without a type argument"

/-- A sample of a type. -/
def ofType (hierarchy : Hierarchy) : JavaType → Except Error Sample
  | .null | .void => .ok null
  | .object name arguments =>
    if name = lazyArgument then
      match arguments with
      | [] => .error .lazyWithoutArgument
      | argument :: _ => ofType hierarchy argument
    else .ok (ofErasure hierarchy (.ofClass name))
  | type => .ok (ofErasure hierarchy type.erasure)

/-- A sample of an expression: its constant value, else a sample of its type. An
expression without a type gives `null`. -/
def ofExpr (hierarchy : Hierarchy) (expr : Expr) : Except Error Sample :=
  match expr.constant, expr.type with
  | some constant, _ => .ok (ofConstant constant)
  | none, some type => ofType hierarchy type
  | none, none => .ok null

/-- A sample of an expression, `null` where its type has none. -/
def ofExprOrNull (hierarchy : Hierarchy) (expr : Expr) : Sample :=
  match ofExpr hierarchy expr with
  | .ok sample => sample
  | .error _ => null

end Sample

end JvmLint.Format
