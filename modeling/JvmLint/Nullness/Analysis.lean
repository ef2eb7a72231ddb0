import JvmLint.Nullness.Solver

/-!
# Nullness queries

A session answers questions about bodies under one policy. It keeps the solution
of each body under the body's name: a later body of the same name is not solved
but takes the solution of the first. A body that cannot be solved is not kept.
-/
namespace JvmLint

/-- Why a body has no solution. -/
inductive AnalysisError where
  | graph (error : GraphError)
  /-- The analysis never ends. -/
  | endless
  deriving DecidableEq, Repr

/-- The message for the body with a name. -/
def AnalysisError.message (name : String) : AnalysisError → String
  | graph error => s!"nullness analysis of {name}: {error.message name}"
  | endless => s!"nullness analysis of {name}: no end"

/-- The nullness of an expression: the join over the nodes that belong to it;
those that were never reached add nothing. -/
def Solution.treeNullness (solution : Solution) (body : Body) (tree : TreeId) : Nullness :=
  ((body.nodesOfTree tree).filterMap solution.values.get?).foldl Nullness.join .bottom

structure Session where
  policy : Policy
  /-- The solutions found so far, by the name of the body. -/
  known : List (String × Solution)

/-- Why a question has no answer. -/
inductive QueryError where
  | noBody (name : String)
  | noTree (tree : TreeId) (name : String)
  | analysis (name : String) (error : AnalysisError)
  deriving DecidableEq, Repr

def QueryError.message : QueryError → String
  | noBody name => s!"no body named {name} in scope"
  | noTree tree name => s!"tree {tree} is not part of {name}"
  | analysis name error => error.message name

namespace Session

/-- A session that has solved nothing yet. -/
def start (policy : Policy) : Session := ⟨policy, []⟩

/-- The solution of a body, and the session that keeps it. -/
def analyze (session : Session) (body : Body) : Except AnalysisError (Solution × Session) :=
  match session.known.lookup body.name with
  | some solution => .ok (solution, session)
  | none =>
    match body.solve session.policy with
    | .error error => .error (.graph error)
    | .ok none => .error .endless
    | .ok (some solution) =>
      .ok (solution, { session with known := (body.name, solution) :: session.known })

/-- The nullness of an expression of the first body with a name. -/
def query (session : Session) (bodies : List Body) (name : String) (tree : TreeId) :
    Except QueryError (Nullness × Session) :=
  match bodies.find? (·.name == name) with
  | none => .error (.noBody name)
  | some body =>
    if (body.nodesOfTree tree).isEmpty then .error (.noTree tree body.name)
    else match session.analyze body with
      | .error error => .error (.analysis body.name error)
      | .ok (solution, session) => .ok (solution.treeNullness body tree, session)

end Session

end JvmLint
