import JvmLint.Nullness.Flow

/-!
# Actions

What a node does to the facts, written out as data: which nullness its own value
has, and how it changes the stores that flow through it. Values are described by
a small language of sources, read off the incoming facts and off the values that
were recorded for other nodes.
-/
namespace JvmLint

/-- The nullness last computed for each node, if any. -/
structure NodeValues where
  cells : Array (Option Nullness)
  deriving DecidableEq, Repr

namespace NodeValues

/-- No value for any of `count` nodes. -/
def unset (count : Nat) : NodeValues :=
  ⟨Array.replicate count none⟩

def get? (values : NodeValues) (node : NodeId) : Option Nullness :=
  values.cells[node]?.join

def record (values : NodeValues) (node : NodeId) (value : Nullness) : NodeValues :=
  ⟨values.cells.setIfInBounds node (some value)⟩

/-- The number of nodes that have a value. -/
def count (values : NodeValues) : Nat :=
  values.cells.countP Option.isSome

end NodeValues

/-- Where the nullness of a value comes from. -/
inductive Source where
  | known (value : Nullness)
  /-- What the store says of a path, else unknown. -/
  | stored (path : AccessPath)
  /-- The same, but an entry that excludes every value counts as none, and
  without one the declared nullness stands. -/
  | storedField (path : AccessPath) (declared : Nullness)
  /-- The value of an operand; one that has none is unknown. -/
  | operand (node : NodeId)
  /-- The value of an arm; one that has none was not reached. -/
  | arm (node : NodeId)
  /-- One or the other. -/
  | either (first second : Source)
  /-- Both at once. -/
  | both (first second : Source)
  /-- The first, given that it differs from the second. -/
  | unequal (first second : Source)
  deriving DecidableEq, Repr

/-- The nullness that a source has for some facts and values. -/
def Source.eval (store : Store) (values : NodeValues) : Source → Nullness
  | known value => value
  | stored path => (store.get? path).getD .nullable
  | storedField path declared =>
    match store.get? path with
    | none | some .bottom => declared
    | some value => value
  | operand node => (values.get? node).getD .nullable
  | arm node => (values.get? node).getD .bottom
  | either first second => (first.eval store values).join (second.eval store values)
  | both first second => (first.eval store values).meet (second.eval store values)
  | unequal first second =>
    (first.eval store values).meet (second.eval store values).whenNotEqual

/-- An entry to write, with its value yet to be computed. -/
abbrev Refinement := AccessPath × Source

/-- How a node changes the stores that flow through it. -/
inductive Effect where
  /-- The sides merge, and the merged store is refined. -/
  | regular (refinements : List Refinement)
  /-- The node is a condition: each side is refined by itself. -/
  | branch (onThen onElse : List Refinement)
  /-- The sides stay as they are. -/
  | pass
  /-- The sides change places. -/
  | swap
  deriving DecidableEq, Repr

namespace Effect

/-- The entries of a batch, with their values worked out. -/
def updates (store : Store) (values : NodeValues) (refinements : List Refinement) : List Update :=
  refinements.map fun (path, source) => (path, source.eval store values)

/-- The facts after an effect; `store` holds those that hold on both sides before. -/
def apply (effect : Effect) (store : Store) (input : Flow) (values : NodeValues) : Flow :=
  match effect with
  | regular refinements => .regular (store.update (updates store values refinements))
  | branch onThen onElse =>
    input.mapSides (·.update (updates store values onThen)) (·.update (updates store values onElse))
  | pass => input
  | swap => input.swapped

end Effect

structure Action where
  value : Source
  effect : Effect
  deriving DecidableEq, Repr

namespace Action

/-- A node whose only effect is its value. -/
def ofValue (value : Source) : Action := ⟨value, .regular []⟩

/-- The value of the node and the facts after it. -/
def run (action : Action) (input : Flow) (values : NodeValues) : Nullness × Flow :=
  let store := input.merged.getD .empty
  (action.value.eval store values, action.effect.apply store input values)

end Action

end JvmLint
