import JvmLint.Nullness.Transfer

/-!
# The worklist

Facts flow forward through the blocks of a body until nothing changes. A queue
holds the blocks that are still to be visited, in the order in which they were
added and none of them twice. A visit runs the nodes of a block on the facts
that have arrived there, records the value of each node, and carries the outcome
over the edges; a successor is added to the queue when its own facts rose or a
recorded value changed.

Recorded values are overwritten, not joined, and so a run need not end. `solve`
gives up when the run can only be going round in circles; its answer is then
`none`.
-/
namespace JvmLint

/-- Why a body is no control-flow graph. -/
inductive GraphError where
  | noBlocks
  | unknownNode (block : BlockId) (node : NodeId)
  | unknownBlock (block target : BlockId)
  deriving DecidableEq, Repr

/-- The message for the body with a name. -/
def GraphError.message (name : String) : GraphError → String
  | noBlocks => s!"body {name} has no blocks"
  | unknownNode block node => s!"block {block} of {name} references unknown node {node}"
  | unknownBlock block target => s!"block {block} of {name} jumps to unknown block {target}"

namespace Body

/-- The first mistake of a block: nodes before edges. -/
def blockError? (body : Body) (id : BlockId) (block : Block) : Option GraphError :=
  match block.nodes.find? (body.nodes.size ≤ ·) with
  | some node => some (.unknownNode id node)
  | none =>
    (block.successors.find? (body.blocks.size ≤ ·.target)).map (.unknownBlock id ·.target)

/-- The first mistake of a body, block by block. -/
def graphError? (body : Body) : Option GraphError :=
  if body.blocks.isEmpty then some .noBlocks
  else (List.range body.blocks.size).findSome? fun id =>
    body.blocks[id]?.bind (body.blockError? id)

end Body

/-- A body with the action of every node worked out. -/
structure Graph where
  /-- By node; `none` if working it out never ends. -/
  actions : Array (Option Action)
  blocks : Array Block
  /-- The facts on entry to the first block. -/
  entry : Store

namespace Graph

def ofBody (policy : Policy) (body : Body) : Graph where
  actions := body.nodes.map (Transfer.action? policy body)
  blocks := body.blocks
  entry := Transfer.entryStore policy body

/-- The action of the node with an id. -/
def action? (graph : Graph) (node : NodeId) : Option Action :=
  graph.actions[node]?.join

end Graph

/-- A visit of a block, up to some node. -/
structure Visit where
  flow : Flow
  values : NodeValues
  /-- Whether the value of some node changed. -/
  changed : Bool

namespace Visit

/-- Runs one node. -/
def step (graph : Graph) (visit : Visit) (node : NodeId) : Option Visit :=
  (graph.action? node).map fun action =>
    let (value, flow) := action.run visit.flow visit.values
    { flow
      values := visit.values.record node value
      changed := visit.changed || visit.values.get? node != some value }

/-- Runs the nodes of a block in order. -/
def run (graph : Graph) (nodes : List NodeId) (input : Flow) (values : NodeValues) :
    Option Visit :=
  nodes.foldlM (step graph) { flow := input, values, changed := false }

end Visit

/-- Where a run stands between two visits. -/
structure Worklist where
  /-- The facts that have arrived at each block. -/
  inputs : Array Flow
  values : NodeValues
  queue : List BlockId
  /-- The number of visits so far. -/
  visits : Nat
  deriving DecidableEq

namespace Worklist

/-- The first block is queued, and only it is reached. -/
def initial (graph : Graph) : Worklist where
  inputs := (Array.replicate graph.blocks.size .unreached).setIfInBounds 0 (.regular graph.entry)
  values := .unset graph.actions.size
  queue := [0]
  visits := 0

/-- The facts that have arrived at a block. -/
def input (list : Worklist) (id : BlockId) : Flow :=
  list.inputs[id]?.getD .unreached

/-- Sets the facts at a block. -/
def setInput (list : Worklist) (id : BlockId) (flow : Flow) : Worklist :=
  { list with inputs := list.inputs.setIfInBounds id flow }

/-- Adds a block to the end of the queue unless it waits there already. -/
def enqueue (list : Worklist) (id : BlockId) : Worklist :=
  if list.queue.contains id then list else { list with queue := list.queue ++ [id] }

/-- Carries the outcome of a visit over an edge. -/
def carry (visit : Visit) (list : Worklist) (edge : Edge) : Worklist :=
  let contribution := visit.flow.route edge.rule
  if contribution.isReached then
    let old := list.input edge.target
    let new := old.merge contribution
    if new ≠ old then
      (list.setInput edge.target new).enqueue edge.target
    else if visit.changed then list.enqueue edge.target
    else list
  else list

/-- Takes the next block from the queue and visits it, if it is reached. `none`
if the visit never ends. -/
def step (graph : Graph) (list : Worklist) : Option Worklist :=
  match list.queue with
  | [] => some list
  | id :: rest =>
    let list := { list with queue := rest }
    let input := list.input id
    if input.isReached then do
      let block ← graph.blocks[id]?
      let visit ← Visit.run graph block.nodes input list.values
      let visited := { list with values := visit.values, visits := list.visits + 1 }
      some (block.successors.foldl (carry visit) visited)
    else some list

/-- Visits blocks until the queue is empty; `none` if it is not after `steps`
blocks, or if a visit never ends. -/
def run (graph : Graph) : (steps : Nat) → Worklist → Option Worklist
  | 0, list => if list.queue.isEmpty then some list else none
  | steps + 1, list =>
    if list.queue.isEmpty then some list else (step graph list).bind (run graph steps)

end Worklist

/-- A number of steps that no run exceeds which ends.

The facts at the blocks only rise. A store of `p` paths rises at most `3 * p`
times, an entry going from the least value over the middle and the greatest to
none; so the two sides of all blocks rise at most `2 * b * (3 * p + 1)` times.
While they stay as they are the next step depends on the recorded values and the
queue only, so it repeats itself after at most as many steps as there are values
for `n` nodes and queues of `b` blocks. -/
def Body.stepLimit (body : Body) : Nat :=
  let n := body.nodes.size
  let b := body.blocks.size
  let p := body.locals.size + n
  (2 * b * (3 * p + 1) + 1) * Nat.pow 5 n * Nat.pow (b + 1) b

/-- The values that a finished run leaves, and how many visits it took. -/
structure Solution where
  values : NodeValues
  visits : Nat
  deriving DecidableEq, Repr

/-- Runs a body to the end, under a policy. `none` if that never ends. -/
def Body.solve (policy : Policy) (body : Body) : Except GraphError (Option Solution) :=
  match body.graphError? with
  | some error => .error error
  | none =>
    let graph := Graph.ofBody policy body
    let final := Worklist.run graph body.stepLimit (.initial graph)
    .ok (final.map fun list => { values := list.values, visits := list.visits })

end JvmLint
