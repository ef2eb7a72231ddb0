import JvmLint.Nullness.Action
import JvmLint.Nullness.Library
import JvmLint.Nullness.Policy

/-!
# What each node does

The access path that a node names, and the action of each kind of node under a
policy.

The path of a field access is found by following receivers from node to node.
Nothing keeps the receivers of a body from running in a circle, and a search in
a circle never ends: such a search has the answer `none`, and so has the action
of a node that needs it. A search that is not over after as many steps as there
are nodes is in a circle.
-/
namespace JvmLint

namespace Body

/-- The path that a node of some kind names, given the search from its receiver. -/
def pathOfKind (body : Body) (search : NodeId → Option (Option AccessPath)) :
    NodeKind → Option (Option AccessPath)
  | .localVariable id | .variableDeclaration id => some (some (.slot id))
  | .fieldAccess receiver (some field) =>
    if field.isStatic then some none
    else match receiver with
      | none => some (some (AccessPath.self.field field.name))
      | some node =>
        if body.kind? node = some .self then some (some (AccessPath.self.field field.name))
        else (search node).map fun path => path.map (·.field field.name)
  | _ => some none

/-- The path that a node names, if that is known within some steps. -/
def pathWithin (body : Body) : (steps : Nat) → NodeId → Option (Option AccessPath)
  | 0, _ => none
  | steps + 1, node =>
    match body.kind? node with
    | none => some none
    | some kind => body.pathOfKind (body.pathWithin steps) kind

/-- The path that the node with an id names: a variable, a declaration, or a
chain of instance fields. `none` if the search never ends. -/
def path (body : Body) (node : NodeId) : Option (Option AccessPath) :=
  body.pathWithin (body.nodes.size + 1) node

/-- The variable that the node with an id reads. -/
def localRead? (body : Body) (node : NodeId) : Option VariableId :=
  match body.kind? node with
  | some (.localVariable id) => some id
  | _ => none

/-- The variables that a call passes at the arguments a table names. -/
def localsAt (body : Body) (arguments : List NodeId) (indexes : List Int) : List VariableId :=
  (indexes.filterMap (Library.resolveIndex · arguments.length)).filterMap fun position =>
    arguments[position]?.bind body.localRead?

end Body

namespace Transfer

/-- Refines what a node names, if it names a path. -/
def refine (body : Body) (node : NodeId) (source : Source) : Option (List Refinement) :=
  (body.path node).map fun path => path.toList.map (·, source)

/-- After a dereference the node named is not null. -/
def refineNonNull (body : Body) (node : NodeId) : Option (List Refinement) :=
  refine body node (.known .nonNull)

/-- A receiver is dereferenced unless the member is known to be static. -/
def refineReceiver (body : Body) (isStatic : Bool) : Option NodeId → Option (List Refinement)
  | some receiver => if isStatic then some [] else refineNonNull body receiver
  | none => some []

/-- The value of a variable that is read. -/
def variableValue (body : Body) (node : Node) (id : VariableId) : Source :=
  match body.locals[id]? with
  | none => .known .nullable
  | some declared =>
    if node.hasPrimitiveType || declared.type.isPrimitive || declared.constant.isSome
    then .known .nonNull
    else .stored (.slot id)

/-- The value of a field that is read. -/
def fieldValue (policy : Policy) (path : Option AccessPath) : Option Field → Source
  | none => .known .nullable
  | some field =>
    if field.name == "class" || field.isEnumConstant || field.type.isPrimitive
      || field.constant.isSome
      || (field.isStatic && field.isFinal && Library.hasNonNullConstants field.owner)
    then .known .nonNull
    else
      let declared := (policy.field field).getD .nullable
      match path with
      | some path => .storedField path declared
      | none => .known declared

/-- What a call returns. -/
def returnValue (policy : Policy) (method : Method) : Nullness :=
  match policy.methodReturn method with
  | some declared => declared
  | none =>
    let isPrimitive := match method.type? with
      | .ok type => type.result.isPrimitive
      | .error _ => false
    if isPrimitive || Library.returnsNonNull method.owner method.name
      || policy.returnsNonNull method
    then .nonNull
    else .nullable

/-- Whether a call is a condition. -/
def isCondition (method : Method) : Bool :=
  match method.type? with
  | .ok type => type.result.isBoolean
  | .error _ => false

/-- What holds after an assignment. A field cell is taken to be distinct from
every other path. -/
def assignmentRefinements (body : Body) (target expression : NodeId) : Option (List Refinement) :=
  match body.kind? target with
  | some (.localVariable id) | some (.variableDeclaration id) =>
    some [(.slot id, .operand expression)]
  | some (.arrayAccess array) => refineNonNull body array
  | some (.fieldAccess receiver field) => do
    let dereferenced ← refineReceiver body (field.any Field.isStatic) receiver
    let assigned ← refine body target (.operand expression)
    some (dereferenced ++ assigned)
  | _ => some []

/-- What a call makes of the variables that it passes where a table says. -/
def marks (body : Body) (arguments : List NodeId) (method : Method)
    (table : List Library.ArgumentFact) (value : Nullness) : List Refinement :=
  (body.localsAt arguments (Library.indexes table method.owner method.name)).map fun id =>
    (.slot id, .known value)

/-- The variable that a call of `equals` compares with. -/
def compared (body : Body) (arguments : List NodeId) (method : Method) : List VariableId :=
  match method.name, arguments with
  | "equals", [argument] => (body.localRead? argument).toList
  | _, _ => []

/-- What holds when a call was true. -/
def callThen (body : Body) (arguments : List NodeId) (method : Method) : List Refinement :=
  marks body arguments method Library.nonNullIffTrue .nonNull
    ++ marks body arguments method Library.nullIffTrue .null
    ++ (compared body arguments method).map fun id => (.slot id, .known .nonNull)

/-- What holds when a call was false. -/
def callElse (body : Body) (arguments : List NodeId) (method : Method) : List Refinement :=
  marks body arguments method Library.nullImpliesTrue .nonNull
    ++ marks body arguments method Library.nonNullIffTrue .null
    ++ marks body arguments method Library.nullIffTrue .nonNull

/-- The effect of a call that dereferences its receiver. -/
def callEffect (body : Body) (arguments : List NodeId) (method : Method)
    (dereferenced : List Refinement) : Effect :=
  let always := dereferenced ++ marks body arguments method Library.requiredNonNull .nonNull
  if isCondition method then
    .branch (callThen body arguments method ++ always) (callElse body arguments method ++ always)
  else .regular always

/-- What a call of a known method does. -/
def callAction (policy : Policy) (body : Body) (receiver : Option NodeId)
    (arguments : List NodeId) (method : Method) : Option Action :=
  (refineReceiver body method.isStatic receiver).map fun dereferenced =>
    ⟨.known (returnValue policy method), callEffect body arguments method dereferenced⟩

/-- What holds of two operands that are equal, and of two that are not. -/
def equalityRefinements (body : Body) (left right : NodeId) :
    Option (List Refinement × List Refinement) := do
  let a := Source.operand left
  let b := Source.operand right
  let equalLeft ← refine body left (.both a b)
  let equalRight ← refine body right (.both a b)
  let unequalLeft ← refine body left (.unequal a b)
  let unequalRight ← refine body right (.unequal b a)
  some (equalLeft ++ equalRight, unequalLeft ++ unequalRight)

/-- What a node does; `none` if finding out never ends. -/
def action? (policy : Policy) (body : Body) (node : Node) : Option Action :=
  match node.kind with
  | .nullLiteral => some (.ofValue (.known .null))
  | .valueLiteral | .self | .stringConcatenate | .stringConversion | .numericalOperation
  | .bitwiseOperation | .numericalComparison | .narrowingConversion | .wideningConversion
  | .objectCreation | .arrayCreation | .classDeclaration | .functionalInterface =>
    some (.ofValue (.known .nonNull))
  | .className | .synchronization | .throwing | .switchCase | .returning | .marker =>
    some (.ofValue (.known .nullable))
  | .localVariable id => some (.ofValue (variableValue body node id))
  | .variableDeclaration id =>
    let isCaught := body.locals[id]?.any (·.kind = .catchParameter)
    some ⟨.known .nullable, .regular (if isCaught then [(.slot id, .known .nonNull)] else [])⟩
  | .assignment target expression => do
    let refinements ← assignmentRefinements body target expression
    some ⟨.operand expression, .regular refinements⟩
  | .fieldAccess receiver field => do
    let dereferenced ← refineReceiver body (field.any Field.isStatic) receiver
    let path ← body.pathOfKind body.path node.kind
    some ⟨fieldValue policy path field, .regular dereferenced⟩
  | .arrayAccess array => do
    let dereferenced ← refineNonNull body array
    some ⟨.known (if node.hasPrimitiveType then .nonNull else .nullable), .regular dereferenced⟩
  | .methodInvocation _ _ none => some (.ofValue (.known .nullable))
  | .methodInvocation receiver arguments (some method) =>
    callAction policy body receiver arguments method
  | .typeCast operand annotations =>
    some <| .ofValue <| match Annotations.declaredNullness annotations with
      | some declared => .known declared
      | none => if node.hasPrimitiveType then .known .nonNull else .operand operand
  | .instanceOf operand => do
    let onThen ← refineNonNull body operand
    some ⟨.known .nonNull, .branch onThen []⟩
  | .equalTo left right => do
    let (whenEqual, whenUnequal) ← equalityRefinements body left right
    some ⟨.known .nonNull, .branch whenEqual whenUnequal⟩
  | .notEqual left right => do
    let (whenEqual, whenUnequal) ← equalityRefinements body left right
    some ⟨.known .nonNull, .branch whenUnequal whenEqual⟩
  | .conditionalAnd | .conditionalOr => some ⟨.known .nonNull, .pass⟩
  | .conditionalNot => some ⟨.known .nonNull, .swap⟩
  | .ternary thenOperand elseOperand =>
    some (.ofValue (.either (.arm thenOperand) (.arm elseOperand)))

/-- The facts on entry to a body: what the policy believes of its parameters. -/
def entryStore (policy : Policy) (body : Body) : Store :=
  Store.empty.update <| (List.range body.locals.size).filterMap fun id =>
    (body.locals[id]?.bind policy.parameter).map (AccessPath.slot id, ·)

end Transfer

end JvmLint
