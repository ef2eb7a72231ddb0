import JvmLint.Proofs.Nullness.Trace

/-!
# Direct indexing

A body refers to its parts by number in two ways. What a node mentions (operands,
receivers, arguments, variables) is looked up, and a number that stands for nothing
has an answer of its own: no path, no value, an unknown variable. The rest is taken
for granted: the facts and the block of an id from the queue, the nodes that a block
lists, the facts at the target of an edge, and the argument of a call at a position
that a table names. A worklist has a default for these too, which would hide an index
that is out of range.

`Direct` is the analysis without these defaults. It stops with a fault at the first
index that is out of range, and is otherwise the same. The indexes of the tables are
words there, and the distance of a negative one from the end is read without a sign.

The main result is `checks_guard_indexes`: on a body that passes the checks no fault is
ever met, and none is met in the action of any node, whatever it mentions.
-/
namespace JvmLint

/-! ## Indexes as words -/

namespace Library

/-- The position that a word stands for among `count` arguments. -/
def resolveWord (index : Int32) (count : Nat) : Option Nat :=
  if 0 ≤ index then
    let fromStart := index.toUInt32.toNat
    if fromStart < count then some fromStart else none
  else
    -- The least word is its own negative; without a sign that is the distance after all.
    let fromEnd := (-index).toUInt32.toNat
    if fromEnd ≤ count then some (count - fromEnd) else none

theorem toInt_nonneg_iff {index : Int32} : 0 ≤ index.toInt ↔ 0 ≤ index :=
  (Int32.le_iff_toInt_le (x := 0)).symm

/-- A word is what it is without a sign or, in the upper half, the whole range less. -/
theorem toInt_cases (index : Int32) :
    index.toInt = index.toUInt32.toNat ∨
      2 ^ 31 ≤ index.toUInt32.toNat ∧ index.toInt = index.toUInt32.toNat - 2 ^ 32 := by
  rw [← Int32.toInt_toBitVec, BitVec.toInt_eq_toNat_cond, Int32.toNat_toBitVec]
  split
  · exact Or.inl rfl
  · rename_i hupper
    exact Or.inr ⟨by omega, rfl⟩

theorem toInt_of_nonneg {index : Int32} (h : 0 ≤ index) :
    index.toInt = index.toUInt32.toNat := by
  have hsign := toInt_nonneg_iff.2 h
  have hlt := index.toUInt32.toNat_lt
  rcases toInt_cases index with hword | ⟨hupper, hword⟩ <;> omega

theorem toInt_of_neg {index : Int32} (h : ¬ 0 ≤ index) :
    index.toInt = -(-index).toUInt32.toNat := by
  have hsign := mt toInt_nonneg_iff.1 h
  have hlt := index.toUInt32.toNat_lt
  have hneg : (-index).toUInt32.toNat = (2 ^ 32 - index.toUInt32.toNat) % 2 ^ 32 := by
    rw [← Int32.toNat_toBitVec, Int32.toBitVec_neg, BitVec.toNat_neg, Int32.toNat_toBitVec]
  rcases toInt_cases index with hword | ⟨hupper, hword⟩ <;> omega

/-- An index counts from the start, or from the end if it is negative. -/
theorem resolveIndex_eq_some_iff {index : Int} {count position : Nat} :
    resolveIndex index count = some position ↔
      position < count ∧ ((position : Int) = index ∨ (position : Int) = index + count) := by
  cases index with
  | ofNat i =>
    simp only [resolveIndex, Option.ite_none_right_eq_some, Option.some.injEq, Int.ofNat_eq_natCast]
    omega
  | negSucc i =>
    simp only [resolveIndex, Option.ite_none_right_eq_some, Option.some.injEq]
    omega

theorem resolveWord_eq (index : Int32) (count : Nat) :
    resolveWord index count = resolveIndex index.toInt count := by
  refine Option.ext fun position => ?_
  rw [resolveIndex_eq_some_iff, resolveWord]
  split
  · rename_i h
    rw [toInt_of_nonneg h]
    simp only [Option.ite_none_right_eq_some, Option.some.injEq]
    omega
  · rename_i h
    have hsign := mt toInt_nonneg_iff.1 h
    rw [toInt_of_neg h] at hsign ⊢
    simp only [Option.ite_none_right_eq_some, Option.some.injEq]
    omega

end Library

/-! ## The analysis without defaults -/

namespace Direct

/-- What is read at an index that is taken to be in range. -/
inductive Table where
  | inputs | blocks | nodes | arguments
  deriving DecidableEq, Repr

/-- An index that is out of range. -/
structure Fault where
  table : Table
  index : Nat
  deriving DecidableEq, Repr

/-- The element at an index. -/
def fetch {α : Type} (table : Table) (elements : Array α) (index : Nat) : Except Fault α :=
  if h : index < elements.size then return elements[index] else throw ⟨table, index⟩

/-- The elements with another one at an index. -/
def put {α : Type} (table : Table) (elements : Array α) (index : Nat) (element : α) :
    Except Fault (Array α) :=
  if h : index < elements.size then return elements.set index element else throw ⟨table, index⟩

/-- The variables that a call passes at the arguments that some words stand for. -/
def localsAt (body : Body) (arguments : List NodeId) (indexes : List Int32) :
    Except Fault (List VariableId) := do
  let positions := indexes.filterMap (Library.resolveWord · arguments.length)
  let passed ← positions.mapM (fetch .arguments arguments.toArray)
  return passed.filterMap body.localRead?

/-- The variables that a call passes at the arguments of which a fact is known. -/
def marked (body : Body) (arguments : List NodeId) (method : Method)
    (facts : List Library.ArgumentFact) : Except Fault (List VariableId) :=
  localsAt body arguments ((Library.indexes facts method.owner method.name).map Int32.ofInt)

/-- The variable that a call of `equals` compares with. -/
def compared (body : Body) (arguments : List NodeId) (method : Method) :
    Except Fault (List VariableId) :=
  if method.name = "equals" ∧ arguments.length = 1 then do
    let argument ← fetch .arguments arguments.toArray 0
    return (body.localRead? argument).toList
  else return []

/-- The effect of a call that dereferences its receiver. -/
def callEffect (body : Body) (arguments : List NodeId) (method : Method)
    (dereferenced : List Refinement) : Except Fault Effect := do
  let mark (value : Nullness) (ids : List VariableId) : List Refinement :=
    ids.map fun id => (.slot id, .known value)
  let required ← marked body arguments method Library.requiredNonNull
  let falseIfNot ← marked body arguments method Library.nullImpliesTrue
  let nonNull ← marked body arguments method Library.nonNullIffTrue
  let null ← marked body arguments method Library.nullIffTrue
  let equal ← compared body arguments method
  let always := dereferenced ++ mark .nonNull required
  let onThen := mark .nonNull nonNull ++ mark .null null ++ mark .nonNull equal
  let onElse := mark .nonNull falseIfNot ++ mark .null nonNull ++ mark .nonNull null
  return if Transfer.isCondition method then .branch (onThen ++ always) (onElse ++ always)
    else .regular always

/-- What a node does; `none` if finding out never ends. Only a call takes anything at
an index; all else that a node mentions is looked up. -/
def action (policy : Policy) (body : Body) (node : Node) : Except Fault (Option Action) :=
  match node.kind with
  | .methodInvocation receiver arguments (some method) =>
    match Transfer.refineReceiver body method.isStatic receiver with
    | none => return none
    | some dereferenced => do
      let effect ← callEffect body arguments method dereferenced
      return some ⟨.known (Transfer.returnValue policy method), effect⟩
  | _ => return Transfer.action? policy body node

/-- Runs the nodes of a block in order, from where a visit stands. -/
def visit (policy : Policy) (body : Body) : List NodeId → Visit → Except Fault (Option Visit)
  | [], visited => return some visited
  | id :: rest, visited => do
    let node ← fetch .nodes body.nodes id
    match ← action policy body node with
    | none => return none
    | some action =>
      let (value, flow) := action.run visited.flow visited.values
      visit policy body rest
        { flow
          values := visited.values.record id value
          changed := visited.changed || visited.values.get? id != some value }

/-- The first block is queued, and only it is reached. -/
def initial (policy : Policy) (body : Body) : Except Fault Worklist := do
  let unreached := Array.replicate body.blocks.size Flow.unreached
  let inputs ← put .inputs unreached 0 (.regular (Transfer.entryStore policy body))
  return { inputs, values := .unset body.nodes.size, queue := [0], visits := 0 }

/-- Carries the outcome of a visit over an edge. -/
def carry (visit : Visit) (list : Worklist) (edge : Edge) : Except Fault Worklist :=
  let contribution := visit.flow.route edge.rule
  if contribution.isReached then do
    let old ← fetch .inputs list.inputs edge.target
    let new := old.merge contribution
    if new ≠ old then
      let inputs ← put .inputs list.inputs edge.target new
      return { list with inputs }.enqueue edge.target
    else if visit.changed then return list.enqueue edge.target
    else return list
  else return list

/-- Takes the next block from the queue and visits it, if it is reached. -/
def step (policy : Policy) (body : Body) (list : Worklist) : Except Fault (Option Worklist) :=
  match list.queue with
  | [] => return some list
  | id :: rest => do
    let input ← fetch .inputs list.inputs id
    if input.isReached then
      let block ← fetch .blocks body.blocks id
      match ← visit policy body block.nodes ⟨input, list.values, false⟩ with
      | none => return none
      | some visit =>
        let next ← block.successors.foldlM (carry visit) (list.visited rest visit)
        return some next
    else return some { list with queue := rest }

/-- Visits blocks until the queue is empty, or for some steps. -/
def run (policy : Policy) (body : Body) :
    (steps : Nat) → Worklist → Except Fault (Option Worklist)
  | 0, list => return if list.queue.isEmpty then some list else none
  | steps + 1, list =>
    if list.queue.isEmpty then return some list
    else do
      match ← step policy body list with
      | none => return none
      | some next => run policy body steps next

/-- Runs a body to the end, if it passes the checks. -/
def solve (policy : Policy) (body : Body) :
    Except Fault (Except GraphError (Option Solution)) :=
  match body.graphError? with
  | some error => return .error error
  | none => do
    let first ← initial policy body
    let final ← run policy body body.stepLimit first
    return .ok (final.map fun list => { values := list.values, visits := list.visits })

/-! ## Fetching and putting -/

section Fetching

variable {α : Type} {table : Table} {elements : Array α} {index : Nat}

theorem fetch_eq {element : α} (h : elements[index]? = some element) :
    fetch table elements index = pure element := by
  obtain ⟨hlt, rfl⟩ := Array.getElem?_eq_some_iff.1 h
  exact dif_pos hlt

theorem put_eq (h : index < elements.size) (element : α) :
    put table elements index element = pure (elements.setIfInBounds index element) := by
  rw [put, dif_pos h, Array.setIfInBounds, dif_pos h]

theorem mapM_fetch {indexes : List Nat} (h : ∀ index ∈ indexes, index < elements.size) :
    indexes.mapM (fetch table elements) = pure (indexes.filterMap (elements[·]?)) := by
  induction indexes with
  | nil => rfl
  | cons index rest ih =>
    have hget := Array.getElem?_eq_getElem (h index List.mem_cons_self)
    have hrest := ih fun other ho => h other (List.mem_cons_of_mem _ ho)
    rw [List.mapM_cons, fetch_eq hget, hrest, List.filterMap_cons_some hget, pure_bind, pure_bind]

end Fetching

/-! ## Calls -/

/-- No word stands for a position that is out of range. -/
theorem localsAt_eq (body : Body) (arguments : List NodeId) (indexes : List Int32) :
    localsAt body arguments indexes =
      pure (body.localsAt arguments (indexes.map Int32.toInt)) := by
  have hpositions : indexes.filterMap (Library.resolveWord · arguments.length) =
      (indexes.map Int32.toInt).filterMap (Library.resolveIndex · arguments.length) := by
    simp only [List.filterMap_map, Library.resolveWord_eq, Function.comp_def]
  have hlt : ∀ position ∈
      (indexes.map Int32.toInt).filterMap (Library.resolveIndex · arguments.length),
      position < arguments.toArray.size := by
    intro position hposition
    obtain ⟨index, -, hindex⟩ := List.mem_filterMap.1 hposition
    exact (Library.resolveIndex_eq_some_iff.1 hindex).1
  rw [localsAt, hpositions, mapM_fetch hlt, pure_bind, List.filterMap_filterMap]
  simp only [List.getElem?_toArray]
  rfl

/-- The indexes of the tables are words, so nothing is lost when they are read as such. -/
theorem marked_eq (facts : List Library.ArgumentFact)
    (h : ∀ fact ∈ facts, (Int32.ofInt fact.index).toInt = fact.index) (body : Body)
    (arguments : List NodeId) (method : Method) :
    marked body arguments method facts =
      pure (body.localsAt arguments (Library.indexes facts method.owner method.name)) := by
  have hwords : ((Library.indexes facts method.owner method.name).map Int32.ofInt).map Int32.toInt =
      Library.indexes facts method.owner method.name := by
    rw [List.map_map]
    refine (List.map_congr_left fun index hindex => ?_).trans (List.map_id _)
    obtain ⟨fact, hfact, rfl⟩ := List.mem_map.1 hindex
    exact h fact (List.mem_of_mem_filter hfact)
  rw [marked, localsAt_eq, hwords]

theorem compared_eq (body : Body) (arguments : List NodeId) (method : Method) :
    compared body arguments method = pure (Transfer.compared body arguments method) := by
  unfold compared Transfer.compared
  split
  · rename_i h
    obtain ⟨argument, rfl⟩ := List.length_eq_one_iff.1 h.2
    rw [h.1]
    rfl
  · rename_i h
    split
    · rename_i argument hname
      exact absurd ⟨hname, rfl⟩ h
    · rfl

theorem callEffect_eq (body : Body) (arguments : List NodeId) (method : Method)
    (dereferenced : List Refinement) :
    callEffect body arguments method dereferenced =
      pure (Transfer.callEffect body arguments method dereferenced) := by
  simp only [callEffect, compared_eq, pure_bind,
    marked_eq Library.requiredNonNull (by decide), marked_eq Library.nullImpliesTrue (by decide),
    marked_eq Library.nonNullIffTrue (by decide), marked_eq Library.nullIffTrue (by decide)]
  rfl

/-- The action of a node is found without a fault, whatever the node mentions. -/
theorem action_eq (policy : Policy) (body : Body) (node : Node) :
    action policy body node = pure (Transfer.action? policy body node) := by
  unfold action
  split
  · rename_i receiver arguments method hkind
    have hcall : Transfer.action? policy body node =
        Transfer.callAction policy body receiver arguments method := by
      simp only [Transfer.action?, hkind]
    rw [hcall, Transfer.callAction]
    cases Transfer.refineReceiver body method.isStatic receiver with
    | none => rfl
    | some dereferenced =>
      simp only [callEffect_eq, pure_bind]
      rfl
  · rfl

/-! ## Visits and steps -/

section Steps

variable {policy : Policy} {body : Body} {list : Worklist}

theorem visit_eq {nodes : List NodeId} (h : ∀ node ∈ nodes, node < body.nodes.size)
    (visited : Visit) :
    visit policy body nodes visited =
      pure (nodes.foldlM (Visit.step (.ofBody policy body)) visited) := by
  induction nodes generalizing visited with
  | nil => rfl
  | cons id rest ih =>
    obtain ⟨node, hnode⟩ : ∃ node, body.nodes[id]? = some node :=
      ⟨_, Array.getElem?_eq_getElem (h id List.mem_cons_self)⟩
    have haction : (Graph.ofBody policy body).action? id = Transfer.action? policy body node := by
      simp [Graph.action?, Graph.ofBody, hnode]
    have hrest := ih fun node hnode => h node (List.mem_cons_of_mem _ hnode)
    rw [visit, fetch_eq hnode, pure_bind, action_eq, pure_bind, List.foldlM_cons, Visit.step,
      haction]
    cases Transfer.action? policy body node with
    | none => rfl
    | some action => exact hrest _

theorem fetch_inputs {id : BlockId} (h : id < list.inputs.size) :
    fetch .inputs list.inputs id = pure (list.input id) := by
  have hget := Array.getElem?_eq_getElem h
  rw [fetch_eq hget, Worklist.input, hget, Option.getD_some]

theorem carry_eq (visit : Visit) {edge : Edge} (h : edge.target < list.inputs.size) :
    carry visit list edge = pure (Worklist.carry visit list edge) := by
  simp only [carry, Worklist.carry, fetch_inputs h, put_eq h, pure_bind]
  split
  · split
    · rfl
    · split <;> rfl
  · rfl

theorem foldlM_carry_eq (visit : Visit) {edges : List Edge}
    (h : ∀ edge ∈ edges, edge.target < list.inputs.size) :
    edges.foldlM (carry visit) list = pure (edges.foldl (Worklist.carry visit) list) := by
  induction edges generalizing list with
  | nil => rfl
  | cons edge edges ih =>
    have hedge := h edge List.mem_cons_self
    have hcarried : Worklist.Carried visit [edge] list (Worklist.carry visit list edge) :=
      Worklist.carried_carry hedge
    rw [List.foldlM_cons, carry_eq visit hedge, pure_bind, List.foldl_cons]
    -- The tables keep their size from one edge to the next.
    refine ih fun other hother => ?_
    rw [hcarried.size_inputs]
    exact h other (List.mem_cons_of_mem _ hother)

/-- From a worklist that fits the graph, a step of a body that passes the checks meets
no fault. -/
theorem step_eq (hbody : body.graphError? = none)
    (hfits : Worklist.Fits (.ofBody policy body) list) :
    step policy body list = pure (Worklist.step (.ofBody policy body) list) := by
  unfold step
  split
  · rename_i hq
    rw [Worklist.step_of_queue_eq_nil hq]
  · rename_i id rest hq
    have hid : id < body.blocks.size := hfits.queue_lt id (by rw [hq]; exact List.mem_cons_self)
    have hsize : list.inputs.size = body.blocks.size := hfits.size_inputs
    obtain ⟨block, hblock⟩ : ∃ block, (Graph.ofBody policy body).blocks[id]? = some block :=
      ⟨_, Array.getElem?_eq_getElem hid⟩
    obtain ⟨hnodes, htargets⟩ := (Body.graphError?_eq_none.1 hbody).2 id block hblock
    have hfetch : fetch .blocks body.blocks id = pure block := fetch_eq hblock
    have hcarry : ∀ visit, block.successors.foldlM (carry visit) (list.visited rest visit) =
        pure (block.successors.foldl (Worklist.carry visit) (list.visited rest visit)) :=
      fun visit => foldlM_carry_eq visit fun edge hedge =>
        (htargets edge hedge).trans_eq hsize.symm
    rw [Worklist.step_cons hq, hblock, Option.bind_some, fetch_inputs (hsize ▸ hid), pure_bind,
      hfetch, pure_bind, visit_eq hnodes, pure_bind, Visit.run]
    split
    · cases block.nodes.foldlM (Visit.step (.ofBody policy body))
          ⟨list.input id, list.values, false⟩ with
      | none => rfl
      | some visit =>
        simp only [hcarry, pure_bind]
        rfl
    · rfl

-- Without the checks a fault is met: the edge leads to no block.
example :
    let body := Body.ofKinds #[] #[.marker] #[⟨[0], [⟨4, .eachToEach⟩]⟩]
    step .codeOnly body (.initial (.ofBody .codeOnly body)) = .error ⟨.inputs, 4⟩ := by
  decide +kernel

theorem initial_eq (hbody : body.graphError? = none) :
    initial policy body = pure (Worklist.initial (.ofBody policy body)) := by
  have hlt : 0 < (Array.replicate body.blocks.size Flow.unreached).size := by
    rw [Array.size_replicate]
    exact (Body.graphError?_eq_none.1 hbody).1
  rw [initial, put_eq hlt, pure_bind, Worklist.initial, Graph.size_actions_ofBody]
  rfl

theorem run_eq (hbody : body.graphError? = none) (steps : Nat)
    (hfits : Worklist.Fits (.ofBody policy body) list) :
    run policy body steps list = pure (Worklist.run (.ofBody policy body) steps list) := by
  have hv : (Graph.ofBody policy body).Valid := Graph.valid_ofBody hbody
  induction steps generalizing list with
  | zero => rfl
  | succ steps ih =>
    rw [run, Worklist.run, step_eq hbody hfits, pure_bind]
    split
    · rfl
    · rename_i hne
      cases hstep : Worklist.step (.ofBody policy body) list with
      | none => rfl
      | some next =>
        have hnext : Worklist.Next (.ofBody policy body) list next :=
          Worklist.next_of_step (by simpa using hne) hstep
        exact ih (Worklist.fits_of_next hv hfits hnext)

/-- No body meets a fault, since the checks come first. -/
theorem solve_eq (policy : Policy) (body : Body) :
    solve policy body = pure (body.solve policy) := by
  cases hbody : body.graphError? with
  | some error => simp only [solve, Body.solve, hbody]
  | none =>
    have hv : (Graph.ofBody policy body).Valid := Graph.valid_ofBody hbody
    have hfits := Worklist.fits_initial hv
    simp only [solve, Body.solve, hbody, initial_eq hbody, run_eq hbody _ hfits, pure_bind]

end Steps

end Direct

/-! ## The checks -/

theorem Body.graphError?_ne_none {body : Body} :
    body.graphError? ≠ none ↔ body.blocks.size = 0 ∨ ∃ block ∈ body.blocks,
      (∃ node ∈ block.nodes, body.nodes.size ≤ node) ∨
        ∃ edge ∈ block.successors, body.blocks.size ≤ edge.target := by
  constructor
  · intro hbody
    by_contra! hgood
    obtain ⟨hsize, hblocks⟩ := hgood
    refine hbody (graphError?_eq_none.2 ⟨Nat.pos_of_ne_zero hsize, fun id block hblock => ?_⟩)
    exact hblocks block (Array.mem_of_getElem? hblock)
  · intro hbad hbody
    obtain ⟨hsize, hblocks⟩ := graphError?_eq_none.1 hbody
    rcases hbad with hempty | ⟨block, hmem, hbad⟩
    · omega
    · obtain ⟨id, hblock⟩ := Array.mem_iff_getElem?.1 hmem
      obtain ⟨hnodes, htargets⟩ := hblocks id block hblock
      rcases hbad with ⟨node, hnode, hle⟩ | ⟨edge, hedge, hle⟩
      · exact absurd (hnodes node hnode) (Nat.not_lt.2 hle)
      · exact absurd (htargets edge hedge) (Nat.not_lt.2 hle)

/-- Every index that the visit of a waiting block takes is in range: -/
structure Worklist.InRange (body : Body) (list : Worklist) : Prop where
  /-- that of the block itself, -/
  queue_lt : ∀ id ∈ list.queue, id < list.inputs.size ∧ id < body.blocks.size
  /-- those of the nodes that it lists, -/
  node_lt : ∀ id ∈ list.queue, ∀ block ∈ body.blocks[id]?, ∀ node ∈ block.nodes,
    node < body.nodes.size
  /-- and those of the blocks after it. -/
  target_lt : ∀ id ∈ list.queue, ∀ block ∈ body.blocks[id]?, ∀ edge ∈ block.successors,
    edge.target < list.inputs.size ∧ edge.target < body.blocks.size

theorem Worklist.Fits.inRange {policy : Policy} {body : Body} {list : Worklist}
    (hfits : Fits (.ofBody policy body) list) (hbody : body.graphError? = none) :
    list.InRange body := by
  have hsize : list.inputs.size = body.blocks.size := hfits.size_inputs
  obtain ⟨-, hblocks⟩ := Body.graphError?_eq_none.1 hbody
  refine ⟨fun id hid => ?_, fun id _ block hblock => (hblocks id block hblock).1,
    fun id _ block hblock edge hedge => ?_⟩
  · have hlt : id < body.blocks.size := hfits.queue_lt id hid
    exact ⟨hsize ▸ hlt, hlt⟩
  · have hlt := (hblocks id block hblock).2 edge hedge
    exact ⟨hsize ▸ hlt, hlt⟩

/-- **Safe indexing.** The checks refuse a body exactly if it has no block, or one of
its blocks lists a node or has an edge to a block that is not there. If they pass, then
under any policy and after any number of steps, every index that the next visit takes is
in range, and the step that takes indexes directly meets no fault and is the step of the
worklist. So the whole analysis meets none, on any body.

Nothing is asked of what the nodes mention. The action of any node is found without a
fault, and a call takes only arguments that it has, whatever words the indexes of a table
are: a word stands for the position that is so far from the start, or from the end if it
is negative, and for none if there is no such position. -/
theorem checks_guard_indexes (body : Body) :
    (body.graphError? ≠ none ↔ body.blocks.size = 0 ∨ ∃ block ∈ body.blocks,
      (∃ node ∈ block.nodes, body.nodes.size ≤ node) ∨
        ∃ edge ∈ block.successors, body.blocks.size ≤ edge.target) ∧
    (body.graphError? = none → ∀ policy steps,
      (Worklist.trace (.ofBody policy body) steps).InRange body ∧
        Direct.step policy body (Worklist.trace (.ofBody policy body) steps) =
          .ok (Worklist.step (.ofBody policy body)
            (Worklist.trace (.ofBody policy body) steps))) ∧
    (∀ policy, Direct.solve policy body = .ok (body.solve policy)) ∧
    (∀ policy node, Direct.action policy body node = .ok (Transfer.action? policy body node)) ∧
    (∀ arguments indexes, Direct.localsAt body arguments indexes =
      .ok (body.localsAt arguments (indexes.map Int32.toInt))) ∧
    ∀ index count, Library.resolveWord index count = Library.resolveIndex index.toInt count ∧
      ∀ position, Library.resolveIndex index.toInt count = some position ↔ position < count ∧
        ((position : Int) = index.toInt ∨ (position : Int) = index.toInt + count) := by
  refine ⟨Body.graphError?_ne_none, fun hbody policy steps => ?_,
    fun policy => Direct.solve_eq policy body, fun policy node => Direct.action_eq policy body node,
    fun arguments indexes => Direct.localsAt_eq body arguments indexes,
    fun index count => ⟨Library.resolveWord_eq index count, fun position =>
      Library.resolveIndex_eq_some_iff⟩⟩
  have hv : (Graph.ofBody policy body).Valid := Graph.valid_ofBody hbody
  have hfits := Worklist.fits_trace hv steps
  exact ⟨hfits.inRange hbody, Direct.step_eq hbody hfits⟩

/-- Nodes that mention variables and nodes which are not there. What is asserted to be
something is the last argument, `x`, and the last block reads it. -/
def strayMentions : Body :=
  .ofKinds #[⟨"x", .ofClass "java.lang.String", .parameter, none, ["Nullable"]⟩]
    #[.localVariable 0, .localVariable 90,
      .methodInvocation (some 70) [55, 0] (some ⟨"org.junit.Assert", "assertNotNull",
        "(Ljava/lang/String;Ljava/lang/Object;)V", true, false, [], []⟩),
      .methodInvocation (some 71) [80] (some ⟨"java.lang.Object", "equals",
        "(Ljava/lang/Object;)Z", false, false, [], []⟩),
      .fieldAccess (some 99) none, .assignment 41 42, .equalTo 77 0, .ternary 60 61,
      .localVariable 0]
    #[⟨[0, 1, 2, 3], [⟨1, .thenToBoth⟩, ⟨2, .elseToBoth⟩]⟩, ⟨[4, 5, 6], [⟨0, .eachToEach⟩]⟩,
      ⟨[7, 8], []⟩]

theorem checks_guard_indexes_strayMentions :
    strayMentions.graphError? = none ∧
      (Worklist.trace (.ofBody .trusting strayMentions) 1).queue = [1, 2] ∧
      2 < (Worklist.trace (.ofBody .trusting strayMentions) 1).inputs.size ∧
      (∃ solution, Direct.solve .trusting strayMentions = .ok (.ok (some solution)) ∧
        solution.values.get? 8 = some .nonNull) ∧
      Library.resolveWord (-1) 2 = some 1 ∧ Library.resolveWord Int32.minValue 2 = none := by
  have hbody : strayMentions.graphError? = none := by decide +kernel
  have hqueue : (Worklist.trace (.ofBody .trusting strayMentions) 1).queue = [1, 2] := by
    decide +kernel
  have hsolve : strayMentions.solve .trusting = .ok (some
      ⟨⟨#[some .nullable, some .nullable, some .nullable, some .nonNull, some .nullable,
        some .nullable, some .nonNull, some .bottom, some .nonNull]⟩, 4⟩) := by decide +kernel
  obtain ⟨-, hsteps, hsolved, -, -, hwords⟩ := checks_guard_indexes strayMentions
  refine ⟨hbody, hqueue, ?_, ⟨_, (hsolved .trusting).trans (congrArg Except.ok hsolve), rfl⟩,
    ?_, ?_⟩
  · exact ((hsteps hbody .trusting 1).1.queue_lt 2 (by rw [hqueue]; decide)).1
  · obtain ⟨hword, hposition⟩ := hwords (-1) 2
    rw [hword]
    exact (hposition 1).2 (by decide)
  · obtain ⟨hword, hposition⟩ := hwords Int32.minValue 2
    have hleast : Int32.minValue.toInt = -2147483648 := by decide
    rw [hword, Option.eq_none_iff_forall_ne_some]
    intro position hsome
    have hwhere := (hposition position).1 hsome
    rw [hleast] at hwhere
    omega

end JvmLint
