import JvmLint.Proofs.Nullness.FixedPoint
import Mathlib.Order.Bounds.Basic

/-!
# The least solution

In a body without field accesses in which a node reads only what its block lists
before it, the outcome of a block is a monotone function of the facts that arrive
there. The facts on which a finished run comes to rest are then the least ones
that contain the facts on entry and all that the blocks make of them, and the
recorded values are those computed from them (`isLeast_input_of_run`). Neither
depends on the order in which blocks are visited or successors are listed.

* `solves_of_nexts`: when no block waits, the facts are a solution.
* `input_le_of_solves`: at every moment of a run, they are below every solution.
* `computes_of_nexts`: the values are the ones computed from them.
-/
namespace JvmLint

namespace Graph

/-! ## Solutions -/

/-- Facts at each block that contain those on entry and, for each block that is
reached, all that it passes on. -/
structure Solves (graph : Graph) (facts : BlockId → Flow) : Prop where
  entry_le : .regular graph.entry ≤ facts 0
  route_le : ∀ (id : BlockId) (block : Block), graph.blocks[id]? = some block →
    (facts id).isReached = true →
      ∃ visit, Visit.run graph block.nodes (facts id) (.unset graph.actions.size) = some visit ∧
        ∀ edge ∈ block.successors, visit.flow.route edge.rule ≤ facts edge.target

/-- The values that running each reached block on its facts gives; a node of no
such block has none. -/
structure Computes (graph : Graph) (facts : BlockId → Flow) (values : NodeValues) : Prop where
  of_reached : ∀ (id : BlockId) (block : Block), graph.blocks[id]? = some block →
    (facts id).isReached = true →
      ∃ visit, Visit.run graph block.nodes (facts id) (.unset graph.actions.size) = some visit ∧
        ∀ node ∈ block.nodes, values.get? node = visit.values.get? node
  of_unreached : ∀ node, (∀ id, ListedIn graph.blocks id node → (facts id).isReached = false) →
    values.get? node = none

theorem Computes.get?_eq {graph : Graph} {facts : BlockId → Flow} {v w : NodeValues}
    (hv : graph.Computes facts v) (hw : graph.Computes facts w) (node : NodeId) :
    v.get? node = w.get? node := by
  by_cases hnode : ∀ id, ListedIn graph.blocks id node → (facts id).isReached = false
  · rw [hv.of_unreached node hnode, hw.of_unreached node hnode]
  · push Not at hnode
    obtain ⟨id, ⟨block, hblock, hmem⟩, hreached⟩ := hnode
    rw [ne_eq, Bool.not_eq_false] at hreached
    obtain ⟨visit, hrun, hvalues⟩ := hv.of_reached id block hblock hreached
    obtain ⟨visit', hrun', hvalues'⟩ := hw.of_reached id block hblock hreached
    rw [hrun] at hrun'
    cases hrun'
    rw [hvalues node hmem, hvalues' node hmem]

/-! ## Blocks that stand by themselves -/

/-- The outcome of each block is a monotone function of the facts that arrive
there. -/
structure Tame (graph : Graph) : Prop where
  valid : graph.Valid
  once : ListedOnce graph.blocks
  complete : graph.Complete
  plain : ∀ node action, graph.action? node = some action → action.isPlain = true
  /-- A node reads only what its block lists before it. -/
  mem_before : ∀ (id : BlockId) (block : Block), graph.blocks[id]? = some block →
    ∀ before node after, block.nodes = before ++ node :: after →
      ∀ operand ∈ graph.reads node, operand ∈ before

namespace Tame

variable {graph : Graph} {id : BlockId} {block : Block}

theorem notifies (h : graph.Tame) : graph.Notifies := by
  intro id block hblock before node after hsplit operand hoperand
  exact Or.inl (h.mem_before id block hblock before node after hsplit operand hoperand)

theorem exists_run (h : graph.Tame) (hblock : graph.blocks[id]? = some block) (input : Flow)
    (values : NodeValues) : ∃ visit, Visit.run graph block.nodes input values = some visit :=
  Visit.exists_foldlM (fun node hnode => h.complete id node ⟨block, hblock, hnode⟩) _

/-- A replay is what a run from no values at all gives. -/
theorem run_unset_of_replays (h : graph.Tame) (hblock : graph.blocks[id]? = some block)
    {values : NodeValues} {input output : Flow}
    (hreplays : graph.Replays values block.nodes input output) :
    ∃ visit, Visit.run graph block.nodes input (.unset graph.actions.size) = some visit ∧
      visit.flow = output ∧ ∀ node ∈ block.nodes, values.get? node = visit.values.get? node := by
  obtain ⟨visit, hrun⟩ := h.exists_run hblock input (.unset graph.actions.size)
  have hvisit := Visit.replays_of_run h.valid h.once hblock (by simp [NodeValues.unset]) hrun
    fun seen node rest heq m hm hseen =>
      absurd (h.mem_before id block hblock seen node rest heq m hm) hseen
  obtain ⟨hout, hvalues⟩ := hreplays.unique hvisit fun seen node rest heq m hm hseen =>
    absurd (h.mem_before id block hblock seen node rest heq m hm) hseen
  exact ⟨visit, hrun, hout.symm, hvalues⟩

/-- More facts in, more facts out, whatever values were recorded before. -/
theorem run_le_run (h : graph.Tame) (hblock : graph.blocks[id]? = some block) {f g : Flow}
    (hfg : f ≤ g) (hf : f.isReached = true) {v w : NodeValues}
    (hv : v.cells.size = graph.actions.size) (hw : w.cells.size = graph.actions.size)
    {low high : Visit} (hlow : Visit.run graph block.nodes f v = some low)
    (hhigh : Visit.run graph block.nodes g w = some high) : low.flow ≤ high.flow := by
  have hlt := h.valid.node_lt id block hblock
  have hbelow : ∀ node ∈ block.nodes, ∀ a b, graph.action? node = some a →
      graph.action? node = some b → a.Below b := by
    intro node _ a b ha hb
    rw [ha] at hb
    cases hb
    exact Action.below_self (h.plain node a ha)
  exact (Visit.foldlM_le_foldlM hlow hhigh hbelow (by rw [hv]; exact hlt)
    (by rw [hw]; exact hlt) hfg hf fun seen node rest heq m hm hseen =>
      absurd (h.mem_before id block hblock seen node rest heq m hm) hseen).1

end Tame

end Graph

/-! ## Runs -/

namespace Worklist

variable {graph : Graph} {list next final : Worklist} {facts : BlockId → Flow}

theorem input_le_of_solves_next (hg : graph.Tame) (hf : Fits graph list) (hx : graph.Solves facts)
    (hle : ∀ id, list.input id ≤ facts id) (h : Next graph list next) :
    ∀ id, next.input id ≤ facts id := by
  obtain ⟨id, rest, -, hstep⟩ := h.cases hg.valid hf
  cases hstep with
  | skip hunreached => exact hle
  | @visit block visit next hreached hblock hrun hcarried =>
    intro other
    refine hcarried.input_le (hle other) fun edge hedge htarget => ?_
    obtain ⟨visit', hrun', hroutes⟩ := hx.route_le id block hblock
      (Flow.isReached_of_le (hle id) hreached)
    have hflow : visit.flow ≤ visit'.flow := hg.run_le_run hblock (hle id) hreached hf.size_values
      (by simp [NodeValues.unset]) hrun hrun'
    rw [← htarget]
    exact (Flow.route_le_route hflow edge.rule).trans (hroutes edge hedge)

theorem input_initial_le_of_solves (hv : graph.Valid) (hx : graph.Solves facts) (id : BlockId) :
    (initial graph).input id ≤ facts id := by
  rw [input_initial hv]
  split
  · rename_i hid
    rw [hid]
    exact hx.entry_le
  · exact Flow.unreached_le _

theorem input_le_of_solves (hg : graph.Tame) (hx : graph.Solves facts)
    (h : Nexts graph (initial graph) final) : ∀ id, final.input id ≤ facts id :=
  nexts_induction (p := fun list => ∀ id, list.input id ≤ facts id) hg.valid
    (fits_initial hg.valid) (input_initial_le_of_solves hg.valid hx)
    (fun _ _ hf hnext hle => input_le_of_solves_next hg hf hx hle hnext) h

/-- When no block waits, each reached block is what a run from no values gives. -/
theorem exists_run_of_nexts (hg : graph.Tame) (h : Nexts graph (initial graph) final)
    (hempty : final.queue = []) {id : BlockId} {block : Block}
    (hblock : graph.blocks[id]? = some block) (hreached : (final.input id).isReached = true) :
    ∃ visit, Visit.run graph block.nodes (final.input id) (.unset graph.actions.size) =
        some visit ∧
      (∀ edge ∈ block.successors, visit.flow.route edge.rule ≤ final.input edge.target) ∧
        ∀ node ∈ block.nodes, final.values.get? node = visit.values.get? node := by
  obtain ⟨output, hreplays, hroutes⟩ := settled_of_nexts hg.valid hg.once hg.notifies h id block
    hblock hreached (by rw [hempty]; exact List.not_mem_nil)
  obtain ⟨visit, hrun, rfl, hvalues⟩ := hg.run_unset_of_replays hblock hreplays
  exact ⟨visit, hrun, hroutes, hvalues⟩

theorem solves_of_nexts (hg : graph.Tame) (h : Nexts graph (initial graph) final)
    (hempty : final.queue = []) : graph.Solves final.input where
  entry_le := by
    have := input_le_of_nexts hg.valid (fits_initial hg.valid) h 0
    rwa [input_initial hg.valid, if_pos rfl] at this
  route_le id block hblock hreached := by
    obtain ⟨visit, hrun, hroutes, -⟩ := exists_run_of_nexts hg h hempty hblock hreached
    exact ⟨visit, hrun, hroutes⟩

theorem isLeast_of_nexts (hg : graph.Tame) (h : Nexts graph (initial graph) final)
    (hempty : final.queue = []) : IsLeast {facts | graph.Solves facts} final.input :=
  ⟨solves_of_nexts hg h hempty, fun _ hx => input_le_of_solves hg hx h⟩

theorem computes_of_nexts (hg : graph.Tame) (h : Nexts graph (initial graph) final)
    (hempty : final.queue = []) : graph.Computes final.input final.values where
  of_reached id block hblock hreached := by
    obtain ⟨visit, hrun, -, hvalues⟩ := exists_run_of_nexts hg h hempty hblock hreached
    exact ⟨visit, hrun, hvalues⟩
  of_unreached node hnode := by
    by_contra hvalue
    obtain ⟨id, hlisted, hreached⟩ := recorded_of_nexts hg.valid h node hvalue
    rw [hnode id hlisted] at hreached
    cases hreached

end Worklist

/-! ## The order of successors -/

/-- The same blocks, with the edges of each listed in some order. -/
def Reordered (blocks blocks' : Array Block) : Prop :=
  blocks.size = blocks'.size ∧ ∀ (id : BlockId) (a b : Block), blocks[id]? = some a →
    blocks'[id]? = some b → a.nodes = b.nodes ∧ a.successors.Perm b.successors

namespace Reordered

variable {blocks blocks' : Array Block} {id : BlockId}

theorem symm (h : Reordered blocks blocks') : Reordered blocks' blocks :=
  ⟨h.1.symm, fun id a b ha hb => ⟨(h.2 id b a hb ha).1.symm, (h.2 id b a hb ha).2.symm⟩⟩

theorem exists_block (h : Reordered blocks blocks') {b : Block} (hb : blocks'[id]? = some b) :
    ∃ a, blocks[id]? = some a ∧ a.nodes = b.nodes ∧ a.successors.Perm b.successors := by
  have hid : id < blocks.size := h.1 ▸ (Array.getElem?_eq_some_iff.1 hb).1
  have ha : blocks[id]? = some blocks[id] := Array.getElem?_eq_getElem hid
  exact ⟨_, ha, h.2 id _ b ha hb⟩

theorem map_nodes (h : Reordered blocks blocks') :
    blocks.toList.map Block.nodes = blocks'.toList.map Block.nodes := by
  refine List.ext_getElem (by simp [h.1]) fun i hi hi' => ?_
  simp only [List.length_map, Array.length_toList] at hi hi'
  simpa using (h.2 i _ _ (Array.getElem?_eq_getElem hi) (Array.getElem?_eq_getElem hi')).1

theorem listedOnce (h : Reordered blocks blocks') (honce : ListedOnce blocks) :
    ListedOnce blocks' := by
  unfold ListedOnce at honce ⊢
  rwa [List.flatMap_def, ← h.map_nodes, ← List.flatMap_def]

theorem listedIn (h : Reordered blocks blocks') {node : NodeId} (hl : ListedIn blocks' id node) :
    ListedIn blocks id node := by
  obtain ⟨b, hb, hnode⟩ := hl
  obtain ⟨a, ha, hnodes, -⟩ := h.exists_block hb
  exact ⟨a, ha, by rw [hnodes]; exact hnode⟩

end Reordered

namespace Graph

variable {graph : Graph} {blocks : Array Block} {facts : BlockId → Flow} {values : NodeValues}

theorem Tame.reorder (h : graph.Tame) (hr : Reordered graph.blocks blocks) :
    Tame { graph with blocks } where
  valid := by
    refine ⟨hr.1 ▸ h.valid.nonempty, fun id b hb => ?_, fun id b hb edge hedge => ?_⟩
    · obtain ⟨a, ha, hnodes, -⟩ := hr.exists_block hb
      rw [← hnodes]
      exact h.valid.node_lt id a ha
    · obtain ⟨a, ha, -, hperm⟩ := hr.exists_block hb
      exact hr.1 ▸ h.valid.target_lt id a ha edge (hperm.mem_iff.2 hedge)
  once := hr.listedOnce h.once
  complete id node hlisted := h.complete id node (hr.listedIn hlisted)
  plain := h.plain
  mem_before id b hb := by
    obtain ⟨a, ha, hnodes, -⟩ := hr.exists_block hb
    rw [← hnodes]
    exact h.mem_before id a ha

theorem Solves.reorder (h : graph.Solves facts) (hr : Reordered graph.blocks blocks) :
    Solves { graph with blocks } facts where
  entry_le := h.entry_le
  route_le id b hb hreached := by
    obtain ⟨a, ha, hnodes, hperm⟩ := hr.exists_block hb
    obtain ⟨visit, hrun, hroutes⟩ := h.route_le id a ha hreached
    exact ⟨visit, hnodes ▸ hrun, fun edge hedge => hroutes edge (hperm.mem_iff.2 hedge)⟩

theorem Computes.reorder (h : graph.Computes facts values) (hr : Reordered graph.blocks blocks) :
    Computes { graph with blocks } facts values where
  of_reached id b hb hreached := by
    obtain ⟨a, ha, hnodes, -⟩ := hr.exists_block hb
    obtain ⟨visit, hrun, hvalues⟩ := h.of_reached id a ha hreached
    exact ⟨visit, hnodes ▸ hrun, hnodes ▸ hvalues⟩
  of_unreached node hnode :=
    h.of_unreached node fun id hlisted => hnode id (hr.symm.listedIn hlisted)

end Graph

/-- Runs that visit the blocks in any order, and that carry outcomes over the
edges in any order, end in the same place. -/
theorem Worklist.eq_of_reordered {graph : Graph} {blocks : Array Block} {final other : Worklist}
    (hg : graph.Tame) (hr : Reordered graph.blocks blocks)
    (h : Nexts graph (initial graph) final) (hempty : final.queue = [])
    (h' : Nexts { graph with blocks } (initial { graph with blocks }) other)
    (hempty' : other.queue = []) : other.input = final.input ∧ other.values = final.values := by
  have hg' := hg.reorder hr
  have hback : graph.Solves other.input := (solves_of_nexts hg' h' hempty').reorder hr.symm
  have hinput : other.input = final.input :=
    le_antisymm (input_le_of_solves hg' ((solves_of_nexts hg h hempty).reorder hr) h')
      (input_le_of_solves hg hback h)
  refine ⟨hinput, NodeValues.ext_get? ?_ fun node => ?_⟩
  · rw [(fits_of_nexts hg'.valid (fits_initial hg'.valid) h').size_values,
      (fits_of_nexts hg.valid (fits_initial hg.valid) h).size_values]
  · have hcomputes := computes_of_nexts hg' h' hempty'
    rw [hinput] at hcomputes
    exact hcomputes.get?_eq ((computes_of_nexts hg h hempty).reorder hr) node

/-! ## Bodies -/

section OfBody

variable {policy : Policy} {body : Body}

theorem tame_ofBody (hbody : body.graphError? = none)
    (hfields : ∀ node ∈ body.nodes, node.kind.isFieldAccess = false)
    (honce : ListedOnce body.blocks)
    (hreads : body.EachRead fun _ before operand => operand ∈ before) :
    (Graph.ofBody policy body).Tame where
  valid := Graph.valid_ofBody hbody
  once := honce
  complete := Graph.complete_ofBody hbody hfields
  plain node action haction := by
    obtain ⟨n, hn, ha⟩ := Graph.action?_ofBody.1 haction
    exact Transfer.isPlain_action? ha (hfields n (Array.mem_of_getElem? hn))
  mem_before id block hblock before node after hsplit operand hoperand :=
    hreads id block hblock before node after hsplit operand (Graph.reads_ofBody node hoperand)

/-- **Least solution.** In a body without field accesses, in which every node is
listed at most once and every node that is read is listed before its reader in
the same block, a finished run has come to rest on the least facts that contain
those on entry and all that the blocks make of them; and it has recorded the
values computed from these facts. Any other finished run, which may take the
waiting blocks in any order and of a body whose edges are listed in any order,
ends with the same facts and the same values. -/
theorem isLeast_input_of_run (hbody : body.graphError? = none)
    (hfields : ∀ node ∈ body.nodes, node.kind.isFieldAccess = false)
    (honce : ListedOnce body.blocks)
    (hreads : body.EachRead fun _ before operand => operand ∈ before)
    {steps : Nat} {final : Worklist}
    (hrun : Worklist.run (.ofBody policy body) steps (.initial (.ofBody policy body)) =
      some final) :
    IsLeast {facts | (Graph.ofBody policy body).Solves facts} final.input ∧
      (Graph.ofBody policy body).Computes final.input final.values ∧
        ∀ blocks, Reordered body.blocks blocks → ∀ other,
          Worklist.Nexts (.ofBody policy { body with blocks })
            (.initial (.ofBody policy { body with blocks })) other → other.queue = [] →
              other.input = final.input ∧ other.values = final.values := by
  have htame : (Graph.ofBody policy body).Tame := tame_ofBody hbody hfields honce hreads
  obtain ⟨hnexts, hempty⟩ := Worklist.nexts_of_run hrun
  refine ⟨Worklist.isLeast_of_nexts htame hnexts hempty,
    Worklist.computes_of_nexts htame hnexts hempty, fun blocks hr other hother hdone => ?_⟩
  rw [Graph.ofBody_blocks] at hother
  exact Worklist.eq_of_reordered htame hr hnexts hempty hother hdone

end OfBody

/-- `x` is set to null; a loop sets it again as long as it is null. -/
def nullCheckLoop : Body :=
  .ofKinds #[⟨"x", .ofClass "java.lang.String", .localVariable, none, []⟩]
    #[.nullLiteral, .localVariable 0, .assignment 1 0, .localVariable 0, .nullLiteral,
      .equalTo 3 4, .valueLiteral, .assignment 1 6, .localVariable 0]
    #[⟨[0, 2], [⟨1, .eachToEach⟩]⟩, ⟨[3, 4, 5], [⟨2, .thenToBoth⟩, ⟨3, .elseToBoth⟩]⟩,
      ⟨[6, 7], [⟨1, .eachToEach⟩]⟩, ⟨[8], []⟩]

theorem isLeast_input_nullCheckLoop :
    nullCheckLoop.graphError? = none ∧ ListedOnce nullCheckLoop.blocks ∧
      ∃ final, Worklist.run (.ofBody .codeOnly nullCheckLoop) 20
          (.initial (.ofBody .codeOnly nullCheckLoop)) = some final ∧
        IsLeast {facts | (Graph.ofBody .codeOnly nullCheckLoop).Solves facts} final.input ∧
          final.values.get? 3 = some .nullable ∧ final.values.get? 8 = some .nonNull := by
  have hrun : Worklist.run (.ofBody .codeOnly nullCheckLoop) 20
      (.initial (.ofBody .codeOnly nullCheckLoop)) =
        some ((Worklist.run (.ofBody .codeOnly nullCheckLoop) 20
          (.initial (.ofBody .codeOnly nullCheckLoop))).get (by decide +kernel)) :=
    (Option.some_get _).symm
  exact ⟨by decide +kernel, by decide +kernel, _, hrun,
    (isLeast_input_of_run (by decide +kernel) (by decide +kernel) (by decide +kernel)
      (by decide +kernel) hrun).1, by decide +kernel, by decide +kernel⟩

end JvmLint
