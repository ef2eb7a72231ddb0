import JvmLint.Finding.Basic
import JvmLint.Nullness.Analysis
import JvmLint.Unit.Basic

/-!
# Findings about null

Both rules go through the bodies of a unit in one session and ask it about the
expressions of each. A body that is no control-flow graph is passed over; a
question without an answer ends the rule.

What the answers come to is said by solutions: `nullDereferenceFindings` and
`redundantCheckFindings`, which are `none` if the analysis of a body never ends.
-/
namespace JvmLint

namespace Finding

/-- The finding at a node of a body. -/
def atNode (rule : Rule) (unit : SourceUnit) (body : Body) (line : Option Nat)
    (message : String) : Finding where
  rule
  sourceFile := unit.sourceFile
  enclosing := some body.name
  line := line <|> body.line
  message

end Finding

/-! ## Null dereferences -/

/-- A member access through a receiver that is an expression of its own. -/
structure Dereference where
  tree : TreeId
  receiver : NodeId
  line : Option Nat
  /-- What is done, in words. -/
  deed : String
  deriving DecidableEq, Repr

namespace Dereference

/-- The access that a node makes, if its member is known. -/
def ofNode? (body : Body) (node : Node) : Option Dereference :=
  match node.kind with
  | .methodInvocation (some receiver) _ (some method) =>
    (body.tree? receiver).map fun tree =>
      { tree, receiver, line := node.line, deed := s!"calling {method.owner}.{method.name}()" }
  | .fieldAccess (some receiver) (some field) =>
    (body.tree? receiver).map fun tree =>
      { tree, receiver, line := node.line, deed := s!"reading {field.owner}.{field.name}" }
  | _ => none

/-- The first access of each tree. -/
def firsts : List Dereference → List Dereference
  | [] => []
  | access :: rest => access :: (firsts rest).filter (·.tree ≠ access.tree)

/-- The receiver, in words. -/
def receiverText (body : Body) (access : Dereference) : String :=
  match body.kind? access.receiver with
  | some (.localVariable id) =>
    match body.locals[id]? with
    | some declared => s!"'{declared.name}'"
    | none => "the receiver"
  | some .nullLiteral => "the null literal"
  | _ => "the receiver"

def finding (unit : SourceUnit) (body : Body) (access : Dereference) : Finding :=
  .atNode .nullDereference unit body access.line
    (s!"Null dereference: {access.receiverText body} is always null " ++
      s!"when {access.deed} in {body.name}")

end Dereference

namespace Body

/-- The accesses of a body, one for each expression that is accessed. -/
def dereferences (body : Body) : List Dereference :=
  Dereference.firsts (body.nodes.toList.filterMap (Dereference.ofNode? body))

/-- The accesses of a body, with what to report of them. -/
def dereferenceReports (unit : SourceUnit) (body : Body) : List (TreeId × Finding) :=
  body.dereferences.map fun access => (access.tree, access.finding unit body)

/-- Reports the accesses to what is always null. -/
def nullDereferenceFindings (unit : SourceUnit) (body : Body) (solution : Solution) :
    List Finding :=
  (body.dereferences.filter fun access => solution.treeNullness body access.tree = .null).map
    (Dereference.finding unit body)

end Body

/-! ## Redundant null checks -/

/-- A comparison of an expression with the null literal. -/
structure NullCheck where
  tree : TreeId
  operand : NodeId
  line : Option Nat
  deriving DecidableEq, Repr

namespace NullCheck

/-- The operand of a comparison whose other operand, and only that, is the null
literal. -/
def operand? (body : Body) (left right : NodeId) : Option NodeId :=
  let isNull (node : NodeId) : Bool := body.kind? node = some .nullLiteral
  match isNull left, isNull right with
  | false, true => some left
  | true, false => some right
  | _, _ => none

/-- The check that a node makes. -/
def ofNode? (body : Body) (node : Node) : Option NullCheck :=
  match node.kind with
  | .equalTo left right | .notEqual left right => do
    let operand ← operand? body left right
    let tree ← body.tree? operand
    some { tree, operand, line := node.line }
  | _ => none

/-- The operand, in words. -/
def operandText (body : Body) (check : NullCheck) : String :=
  match body.kind? check.operand with
  | some (.localVariable id) =>
    match body.locals[id]? with
    | some declared => s!"'{declared.name}'"
    | none => "the value"
  | some (.methodInvocation _ _ (some method)) => s!"the result of {method.owner}.{method.name}()"
  | _ => "the value"

def finding (unit : SourceUnit) (body : Body) (check : NullCheck) : Finding :=
  .atNode .redundantNullCheck unit body check.line
    s!"Redundant null check: {check.operandText body} is never null in {body.name}"

end NullCheck

namespace Body

/-- The null checks of a body, with what to report of them. -/
def nullCheckReports (unit : SourceUnit) (body : Body) : List (TreeId × Finding) :=
  (body.nodes.toList.filterMap (NullCheck.ofNode? body)).map fun check =>
    (check.tree, check.finding unit body)

/-- Reports the null checks of what is never null. -/
def redundantCheckFindings (unit : SourceUnit) (body : Body) (solution : Solution) :
    List Finding :=
  ((body.nodes.toList.filterMap (NullCheck.ofNode? body)).filter fun check =>
    solution.treeNullness body check.tree = .nonNull).map (NullCheck.finding unit body)

end Body

/-! ## Questions -/

/-- Asks about expressions of a body and reports those that have a nullness. -/
def Session.report (body : Body) (nullness : Nullness) :
    Session → List (TreeId × Finding) → Except QueryError (List Finding × Session)
  | session, [] => .ok ([], session)
  | session, (tree, finding) :: rest => do
    let (answer, session) ← session.query [body] body.name tree
    let (found, session) ← session.report body nullness rest
    return (if answer = nullness then finding :: found else found, session)

namespace SourceUnit

/-- What is reported about the expressions of bodies that have a nullness, body by
body in one session. -/
def askedFindings (nullness : Nullness) (reports : Body → List (TreeId × Finding)) :
    Session → List Body → Except QueryError (List Finding)
  | _, [] => .ok []
  | session, body :: rest =>
    match session.analyze body with
    | .error .endless => .error (.analysis body.name .endless)
    | .error (.graph _) => askedFindings nullness reports session rest
    | .ok (_, session) => do
      let (found, session) ← session.report body nullness (reports body)
      let others ← askedFindings nullness reports session rest
      return found ++ others

/-- Runs the null dereference rule, which believes the code only. -/
def runNullDereference (unit : SourceUnit) : Except QueryError (List Finding) :=
  askedFindings .null (Body.dereferenceReports unit) (.start .codeOnly) unit.bodies

/-- Runs the null check rule, which trusts annotations. -/
def runRedundantCheck (unit : SourceUnit) : Except QueryError (List Finding) :=
  askedFindings .nonNull (Body.nullCheckReports unit) (.start .trusting) unit.bodies

end SourceUnit

/-! ## Solutions -/

namespace SourceUnit

/-- What a check of single bodies finds, body by body in one session. -/
def solvedFindings (check : Body → Solution → List Finding) :
    Session → List Body → Option (List Finding)
  | _, [] => some []
  | session, body :: rest =>
    match session.analyze body with
    | .error .endless => none
    | .error (.graph _) => solvedFindings check session rest
    | .ok (solution, session) =>
      (solvedFindings check session rest).map (check body solution ++ ·)

/-- The findings of the null dereference rule. -/
def nullDereferenceFindings (unit : SourceUnit) : Option (List Finding) :=
  solvedFindings (Body.nullDereferenceFindings unit) (.start .codeOnly) unit.bodies

/-- The findings of the null check rule. -/
def redundantCheckFindings (unit : SourceUnit) : Option (List Finding) :=
  solvedFindings (Body.redundantCheckFindings unit) (.start .trusting) unit.bodies

end SourceUnit

end JvmLint
