import JvmLint.Unit.Member

/-!
# Bodies

The body of a method as a control-flow graph. A block is a straight run of
nodes; a node is one evaluation step and refers to its operands by their place
in the list of nodes. An edge carries the facts that hold at the end of a block
to another one, and its rule says which of them: those that hold when the
block's condition was true (`then`), those when it was false (`else`), or both.
-/
namespace JvmLint

abbrev VariableId := Nat
abbrev NodeId := Nat
abbrev BlockId := Nat

/-- Names a source expression; several nodes may belong to one. -/
abbrev TreeId := Nat

inductive VariableKind where
  | localVariable | parameter | catchParameter | resource
  deriving DecidableEq, Repr

/-- A variable of a body, known by its place in the list of variables. -/
structure Variable where
  name : String
  type : JavaType
  kind : VariableKind
  constant : Option Constant
  annotations : List String
  deriving DecidableEq, Repr

/-- What a node does. -/
inductive NodeKind where
  | nullLiteral
  | valueLiteral
  /-- The receiver of the running method. -/
  | self
  | className
  | localVariable (id : VariableId)
  | variableDeclaration (id : VariableId)
  | assignment (target expression : NodeId)
  /-- Without a receiver the field is read through the running method's own. -/
  | fieldAccess (receiver : Option NodeId) (field : Option Field)
  | arrayAccess (array : NodeId)
  | methodInvocation (receiver : Option NodeId) (arguments : List NodeId) (method : Option Method)
  | objectCreation
  | arrayCreation
  | classDeclaration
  | functionalInterface
  | typeCast (operand : NodeId) (annotations : List String)
  | instanceOf (operand : NodeId)
  | stringConcatenate
  | stringConversion
  | numericalOperation
  | bitwiseOperation
  | numericalComparison
  | narrowingConversion
  | wideningConversion
  | equalTo (left right : NodeId)
  | notEqual (left right : NodeId)
  | conditionalAnd
  | conditionalOr
  | conditionalNot
  | ternary (thenOperand elseOperand : NodeId)
  | synchronization
  | throwing
  | switchCase
  | returning
  | marker
  deriving DecidableEq, Repr

structure Node where
  kind : NodeKind
  type : Option JavaType
  tree : Option TreeId
  line : Option Nat
  deriving DecidableEq, Repr

def Node.hasPrimitiveType (node : Node) : Bool :=
  node.type.any JavaType.isPrimitive

/-- Which facts of a block flow into which facts of its successor. -/
inductive FlowRule where
  | eachToEach | thenToBoth | elseToBoth | thenToThen | elseToElse
  deriving DecidableEq, Repr

structure Edge where
  target : BlockId
  rule : FlowRule
  deriving DecidableEq, Repr

structure Block where
  nodes : List NodeId
  successors : List Edge
  deriving DecidableEq, Repr

/-- A method, constructor, initializer or lambda body. -/
structure Body where
  name : String
  line : Option Nat
  locals : Array Variable
  nodes : Array Node
  blocks : Array Block
  deriving DecidableEq, Repr

namespace Body

/-- The kind of the node with an id, if there is one. -/
def kind? (body : Body) (id : NodeId) : Option NodeKind :=
  body.nodes[id]?.map Node.kind

/-- The tree of the node with an id. -/
def tree? (body : Body) (id : NodeId) : Option TreeId :=
  body.nodes[id]?.bind Node.tree

/-- The nodes that belong to a tree. -/
def nodesOfTree (body : Body) (tree : TreeId) : List NodeId :=
  (List.range body.nodes.size).filter fun id => body.tree? id == some tree

end Body

end JvmLint
