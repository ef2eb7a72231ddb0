import JvmLint.Nullness.Store

/-!
# Flows

The facts at a point of a body, kept apart by the outcome of the condition that
was evaluated last: a store for the case that it was true and one for the case
that it was false. A missing side has not been reached.
-/
namespace JvmLint

/-- The join of two stores that may be missing; a missing one adds nothing. -/
def joinOption : Option Store → Option Store → Option Store
  | some s, some t => some (s.join t)
  | some s, none => some s
  | none, side => side

structure Flow where
  /-- The facts when the condition was true. -/
  thenSide : Option Store
  /-- The facts when the condition was false. -/
  elseSide : Option Store
  deriving DecidableEq

namespace Flow

def unreached : Flow := ⟨none, none⟩

/-- The same facts on both sides. -/
def regular (store : Store) : Flow := ⟨some store, some store⟩

def conditional (thenStore elseStore : Store) : Flow := ⟨some thenStore, some elseStore⟩

def isReached (flow : Flow) : Bool :=
  flow.thenSide.isSome || flow.elseSide.isSome

/-- The facts that hold whatever the condition's outcome was. -/
def merged (flow : Flow) : Option Store :=
  joinOption flow.thenSide flow.elseSide

/-- Changes each side that is reached. -/
def mapSides (flow : Flow) (onThen onElse : Store → Store) : Flow :=
  ⟨flow.thenSide.map onThen, flow.elseSide.map onElse⟩

/-- The facts after the condition is negated. -/
def swapped (flow : Flow) : Flow :=
  ⟨flow.elseSide, flow.thenSide⟩

/-- The facts that an edge carries. -/
def route (flow : Flow) : FlowRule → Flow
  | .eachToEach => flow
  | .thenToBoth => ⟨flow.thenSide, flow.thenSide⟩
  | .elseToBoth => ⟨flow.elseSide, flow.elseSide⟩
  | .thenToThen => ⟨flow.thenSide, none⟩
  | .elseToElse => ⟨none, flow.elseSide⟩

/-- The facts where two flows meet. -/
def merge (f g : Flow) : Flow :=
  ⟨joinOption f.thenSide g.thenSide, joinOption f.elseSide g.elseSide⟩

/-- Sides are compared one by one, and a missing one is below every store. -/
instance : LE Flow where
  le f g :=
    (∀ s ∈ f.thenSide, ∃ t ∈ g.thenSide, s ≤ t) ∧ (∀ s ∈ f.elseSide, ∃ t ∈ g.elseSide, s ≤ t)

end Flow

end JvmLint
