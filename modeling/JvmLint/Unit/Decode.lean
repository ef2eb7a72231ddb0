import JvmLint.Json.Decoder
import JvmLint.Unit.Basic

/-!
# Source units in JSON

The decoders of the data types of a unit. Field names and tags are those of the
file format; the fields of a record are listed in the order of its list form.
-/
namespace JvmLint

open Json (Draft Reading Fault Place Decoder Fields Variant DecodeError)
open Json.Decoder (string bool char number signed natural nullable list record payload choice)
open Json.Fields (required withDefault optional flag listOf)

/-! ## Types -/

/-- Why a draft is no type. -/
inductive TypeError where
  | descriptor (text : String) (error : DescriptorError)
  | argumentsOfNonClass (type : JavaType)
  | noTypeForm
  deriving DecidableEq, Repr

def TypeError.message : TypeError → String
  | descriptor text _ => "parse type descriptor " ++ text
  | argumentsOfNonClass type => "type arguments on non-class type " ++ type.text
  | noTypeForm => "data did not match any variant of untagged enum TypeRepr"

namespace JavaType

/-- Reads a descriptor. -/
def ofDescriptor (text : String) : Except TypeError JavaType :=
  match parse text with
  | .ok type => .ok type
  | .error error => .error (.descriptor text error)

/-- Gives a class type its arguments. -/
def withArguments (arguments : List JavaType) : JavaType → Except TypeError JavaType
  | object name _ => .ok (object name arguments)
  | type => .error (.argumentsOfNonClass type)

/-- The member of an object with a name, if no two have it. -/
def uniqueMember? (name : String) (members : List (Reading String × Draft)) :
    Except TypeError (Option Draft) :=
  match members.filter fun (key, _) => key.used.toOption == some name with
  | [] => .ok none
  | [(_, draft)] => .ok (some draft)
  | _ => .error .noTypeForm

/-- Reads a type: a descriptor, or an object with the descriptor of a class and
its type arguments. `depth` bounds how deep arguments are nested. -/
def ofDraft (depth : Nat) : Draft → Except TypeError JavaType
  | .string ⟨.ok text, _⟩ => ofDescriptor text
  | .object members _ =>
    match depth with
    | 0 => .error .noTypeForm
    | depth + 1 => do
      let arguments ←
        match ← uniqueMember? "arguments" members with
        | none => pure []
        | some (.array items _) =>
          items.mapM fun item =>
            match ofDraft depth item with
            | .ok type => .ok type
            | .error _ => .error .noTypeForm
        | some _ => .error .noTypeForm
      match ← uniqueMember? "descriptor" members with
      | some (.string ⟨.ok text, _⟩) => (← ofDescriptor text).withArguments arguments
      | _ => .error .noTypeForm
  | _ => .error .noTypeForm

/-- A type is read as one piece: first all of its text, then its meaning. -/
def decoder : Decoder JavaType := fun place draft =>
  match draft.useFault place.room with
  | some fault => .error (place.fault fault)
  | none =>
    match ofDraft place.room draft with
    | .ok type => .ok type
    | .error _ => .error place.misfit

end JavaType

/-! ## Classes, constants and members -/

def ClassEntry.decoder : Decoder ClassEntry :=
  record ["name", "super_name", "interfaces"]
    (ClassEntry.mk <$> required "name" string <*> optional "super_name" string <*>
      listOf "interfaces" string)

def Constant.variants : List (String × Variant Constant) := [
  ("boolean", carry bool .boolean),
  ("byte", carry (signed 8) .byte),
  ("short", carry (signed 16) .short),
  ("int", carry (signed 32) .int),
  ("long", carry (signed 64) .long),
  ("char", carry Decoder.char .char),
  ("float", carry number .float),
  ("double", carry number .double),
  ("string", carry Decoder.string .string)]
where
  carry {α : Type} (decoder : Decoder α) (build : α → Constant) : Variant Constant :=
    .carrying fun place draft => build <$> decoder place draft

def Constant.decoder : Decoder Constant :=
  choice Constant.variants

def Parameter.decoder : Decoder Parameter :=
  record ["name", "annotations"]
    (Parameter.mk <$> withDefault "name" string "" <*> listOf "annotations" string)

def Method.decoder : Decoder Method :=
  record ["owner", "name", "descriptor", "is_static", "is_varargs", "annotations", "parameters"]
    (Method.mk <$> required "owner" string <*> required "name" string <*>
      required "descriptor" string <*> flag "is_static" <*> flag "is_varargs" <*>
      listOf "annotations" string <*> listOf "parameters" Parameter.decoder)

def Field.decoder : Decoder Field :=
  record
    ["owner", "name", "type", "is_static", "is_final", "is_enum_constant", "constant",
      "annotations"]
    (Field.mk <$> required "owner" string <*> required "name" string <*>
      required "type" JavaType.decoder <*> flag "is_static" <*> flag "is_final" <*>
      flag "is_enum_constant" <*> optional "constant" Constant.decoder <*>
      listOf "annotations" string)

/-- Line numbers, tree ids and symbol ids have 32 bits, other ids 64. -/
def lineNumber : Decoder Nat := natural 32

def identifier : Decoder Nat := natural 64

def MethodDeclaration.decoder : Decoder MethodDeclaration :=
  record ["method", "line"]
    (MethodDeclaration.mk <$> required "method" Method.decoder <*> optional "line" lineNumber)

/-! ## Bodies -/

def VariableKind.decoder : Decoder VariableKind :=
  choice [
    ("local", .plain .localVariable),
    ("parameter", .plain .parameter),
    ("catch_parameter", .plain .catchParameter),
    ("resource", .plain .resource)]

def Variable.decoder : Decoder Variable :=
  record ["name", "type", "kind", "constant", "annotations"]
    (Variable.mk <$> required "name" string <*> required "type" JavaType.decoder <*>
      withDefault "kind" VariableKind.decoder .localVariable <*>
      optional "constant" Constant.decoder <*> listOf "annotations" string)

namespace NodeKind

/-- An alternative with one node or variable id. -/
def one (field : String) (build : Nat → NodeKind) : Variant NodeKind :=
  .carrying (payload [field] (build <$> required field identifier))

/-- An alternative with two node ids. -/
def two (first second : String) (build : Nat → Nat → NodeKind) : Variant NodeKind :=
  .carrying
    (payload [first, second]
      (build <$> required first identifier <*> required second identifier))

def variants : List (String × Variant NodeKind) := [
  ("null_literal", .plain .nullLiteral),
  ("value_literal", .plain .valueLiteral),
  ("this", .plain .self),
  ("class_name", .plain .className),
  ("local_variable", one "variable" .localVariable),
  ("variable_declaration", one "variable" .variableDeclaration),
  ("assignment", two "target" "expression" .assignment),
  ("field_access", .carrying
    (payload ["receiver", "field"]
      (.fieldAccess <$> optional "receiver" identifier <*> optional "field" Field.decoder))),
  ("array_access", one "array" .arrayAccess),
  ("method_invocation", .carrying
    (payload ["receiver", "arguments", "method"]
      (.methodInvocation <$> optional "receiver" identifier <*> listOf "arguments" identifier <*>
        optional "method" Method.decoder))),
  ("object_creation", .plain .objectCreation),
  ("array_creation", .plain .arrayCreation),
  ("class_declaration", .plain .classDeclaration),
  ("functional_interface", .plain .functionalInterface),
  ("type_cast", .carrying
    (payload ["operand", "annotations"]
      (.typeCast <$> required "operand" identifier <*> listOf "annotations" string))),
  ("instance_of", one "operand" .instanceOf),
  ("string_concatenate", .plain .stringConcatenate),
  ("string_conversion", .plain .stringConversion),
  ("numerical_operation", .plain .numericalOperation),
  ("bitwise_operation", .plain .bitwiseOperation),
  ("numerical_comparison", .plain .numericalComparison),
  ("narrowing_conversion", .plain .narrowingConversion),
  ("widening_conversion", .plain .wideningConversion),
  ("equal_to", two "left" "right" .equalTo),
  ("not_equal", two "left" "right" .notEqual),
  ("conditional_and", .plain .conditionalAnd),
  ("conditional_or", .plain .conditionalOr),
  ("conditional_not", .plain .conditionalNot),
  ("ternary", two "then_operand" "else_operand" .ternary),
  ("synchronized", .plain .synchronization),
  ("throw", .plain .throwing),
  ("case", .plain .switchCase),
  ("return", .plain .returning),
  ("marker", .plain .marker)]

def decoder : Decoder NodeKind :=
  choice variants

end NodeKind

def Node.decoder : Decoder Node :=
  record ["kind", "type", "tree", "line"]
    (Node.mk <$> required "kind" NodeKind.decoder <*> optional "type" JavaType.decoder <*>
      optional "tree" (natural 32) <*> optional "line" lineNumber)

def FlowRule.decoder : Decoder FlowRule :=
  choice [
    ("each_to_each", .plain .eachToEach),
    ("then_to_both", .plain .thenToBoth),
    ("else_to_both", .plain .elseToBoth),
    ("then_to_then", .plain .thenToThen),
    ("else_to_else", .plain .elseToElse)]

def Edge.decoder : Decoder Edge :=
  record ["target", "rule"]
    (Edge.mk <$> required "target" identifier <*>
      withDefault "rule" FlowRule.decoder .eachToEach)

def Block.decoder : Decoder Block :=
  record ["nodes", "successors"]
    (Block.mk <$> listOf "nodes" identifier <*> listOf "successors" Edge.decoder)

def Body.decoder : Decoder Body :=
  record ["name", "line", "variables", "nodes", "blocks"]
    (build <$> required "name" string <*> optional "line" lineNumber <*>
      listOf "variables" Variable.decoder <*> required "nodes" (list Node.decoder) <*>
      required "blocks" (list Block.decoder))
where
  build (name : String) (line : Option Nat) (locals : List Variable) (nodes : List Node)
      (blocks : List Block) : Body :=
    ⟨name, line, locals.toArray, nodes.toArray, blocks.toArray⟩

/-! ## Format calls -/

def SymbolKind.decoder : Decoder SymbolKind :=
  choice [
    ("local", .plain .localVariable),
    ("parameter", .plain .parameter),
    ("field", .plain .field),
    ("other", .plain .other)]

def VariableSymbol.decoder : Decoder VariableSymbol :=
  record
    ["id", "name", "kind", "is_final", "is_effectively_final", "owner", "parameter_index"]
    (VariableSymbol.mk <$> required "id" (natural 32) <*> required "name" string <*>
      required "kind" SymbolKind.decoder <*> flag "is_final" <*> flag "is_effectively_final" <*>
      optional "owner" Method.decoder <*> optional "parameter_index" identifier)

namespace Expr

/-- Expressions whose arms are nested less than `depth` deep. -/
def nested : (depth : Nat) → Decoder Expr
  | 0 => fun place _ => .error (place.fault .malformed)
  | depth + 1 =>
    record ["kind", "type", "constant", "source"]
      (Expr.mk <$> withDefault "kind" (kind (nested depth)) .other <*>
        optional "type" JavaType.decoder <*> optional "constant" Constant.decoder <*>
        withDefault "source" string "")
where
  kind (arm : Decoder Expr) : Decoder ExprKind :=
    choice [
      ("literal", .plain .literal),
      ("conditional", .carrying
        (payload ["then_expr", "else_expr"]
          (.conditional <$> required "then_expr" arm <*> required "else_expr" arm))),
      ("variable", .carrying fun place draft =>
        .reference <$> VariableSymbol.decoder place draft),
      ("method_call", .carrying
        (payload ["method"] (.methodCall <$> required "method" Method.decoder))),
      ("other", .plain .other)]

/-- Every arm lies deeper in the text than its conditional, so the depth to which
a text may be nested bounds the nesting of arms too. -/
def decoder : Decoder Expr :=
  nested (Place.maxDepth + 1)

end Expr

def LocalDeclaration.decoder : Decoder LocalDeclaration :=
  record ["variable", "initializer", "source"]
    (LocalDeclaration.mk <$> required "variable" (natural 32) <*>
      optional "initializer" Expr.decoder <*> withDefault "source" string "")

def FormatCall.decoder : Decoder FormatCall :=
  record ["method", "arguments", "strict", "scope", "enclosing", "line"]
    (FormatCall.mk <$> optional "method" Method.decoder <*>
      required "arguments" (list Expr.decoder) <*> flag "strict" <*>
      listOf "scope" LocalDeclaration.decoder <*> optional "enclosing" string <*>
      optional "line" lineNumber)

def SourceUnit.decoder : Decoder SourceUnit :=
  record ["source_file", "classes", "bodies", "format_calls", "methods"]
    (SourceUnit.mk <$> required "source_file" string <*> listOf "classes" ClassEntry.decoder <*>
      listOf "bodies" Body.decoder <*> listOf "format_calls" FormatCall.decoder <*>
      listOf "methods" MethodDeclaration.decoder)

/-- Reads a unit from the bytes of a file. -/
def SourceUnit.ofBytes (bytes : List UInt8) : Except DecodeError SourceUnit :=
  SourceUnit.decoder Place.ofText (Draft.ofBytes bytes)

end JvmLint
