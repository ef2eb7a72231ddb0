import JvmLint.Proofs.Nullness.Worklist

/-!
# When the recorded values are a fixed point

A change of a recorded value sends the blocks after it back to the queue, and no
others. So a finished run leaves values that each block reproduces if every
node that is read stands earlier in the block of its reader, or in a block that
passes something on to it directly (`exists_replays_of_run`). A reader that is
two edges away, or that stands before its operand, may be left with a value that
is out of date (`stale_reader`).

The invariant is `Settled`: a block that is reached and does not wait reproduces
its values, and has passed its outcome on.
-/
namespace JvmLint

/-! ## Blocks that tell their readers -/

/-- A visit of a block that lists the operand always carries something to the
reader. -/
def Graph.Announces (graph : Graph) (operand : NodeId) (reader : BlockId) : Prop :=
  ∀ (id : BlockId) (block : Block), graph.blocks[id]? = some block → operand ∈ block.nodes →
    ∃ edge ∈ block.successors, edge.target = reader ∧
      ∀ input values visit, input.isReached = true →
        Visit.run graph block.nodes input values = some visit →
          (visit.flow.route edge.rule).isReached = true

/-- Every operand is listed before its reader in the same block, or announced to
the reader's block. -/
def Graph.Notifies (graph : Graph) : Prop :=
  ∀ (id : BlockId) (block : Block), graph.blocks[id]? = some block →
    ∀ before node after, block.nodes = before ++ node :: after →
      ∀ operand ∈ graph.reads node, operand ∈ before ∨ graph.Announces operand id

/-- Every block that lists the operand has an edge to the reader, which carries
both sides or starts at a block in which the sides merge. -/
def Body.Announces (body : Body) (operand : NodeId) (reader : BlockId) : Prop :=
  ∀ block ∈ body.blocks.toList, operand ∈ block.nodes →
    ∃ edge ∈ block.successors, edge.target = reader ∧
      (edge.rule = .eachToEach ∨
        ∃ node ∈ block.nodes, (body.kind? node).any (!·.isCondition) = true)

instance (body : Body) (operand : NodeId) (reader : BlockId) :
    Decidable (body.Announces operand reader) :=
  inferInstanceAs (Decidable (∀ block ∈ body.blocks.toList, operand ∈ block.nodes →
    ∃ edge ∈ block.successors, edge.target = reader ∧
      (edge.rule = .eachToEach ∨
        ∃ node ∈ block.nodes, (body.kind? node).any (!·.isCondition) = true)))

section OfBody

variable {policy : Policy} {body : Body}

theorem isFull_run_ofBody {nodes : List NodeId} {input : Flow} {values : NodeValues} {visit : Visit}
    (hrun : Visit.run (.ofBody policy body) nodes input values = some visit) {node : NodeId}
    (hnode : node ∈ nodes) (hkind : (body.kind? node).any (!·.isCondition) = true) :
    visit.flow.isFull = true := by
  refine Visit.isFull_foldlM hrun (Or.inr ⟨node, hnode, fun action haction => ?_⟩)
  obtain ⟨n, hn, ha⟩ := Graph.action?_ofBody.1 haction
  refine Transfer.regular_of_action? ha ?_
  simpa [Body.kind?, hn] using hkind

theorem announces_ofBody {operand : NodeId} {reader : BlockId}
    (h : body.Announces operand reader) : (Graph.ofBody policy body).Announces operand reader := by
  intro id block hblock hoperand
  have hmem : block ∈ body.blocks.toList := Array.mem_toList_iff.2 (Array.mem_of_getElem? hblock)
  obtain ⟨edge, hedge, htarget, hrule⟩ := h block hmem hoperand
  refine ⟨edge, hedge, htarget, fun input values visit hreached hrun => ?_⟩
  apply Flow.isReached_route
  rcases hrule with hrule | ⟨node, hnode, hkind⟩
  · exact Or.inr ⟨hrule, Visit.isReached_foldlM hrun hreached⟩
  · exact Or.inl (isFull_run_ofBody hrun hnode hkind)

theorem notifies_ofBody
    (h : body.EachRead fun id before operand => operand ∈ before ∨ body.Announces operand id) :
    (Graph.ofBody policy body).Notifies := by
  intro id block hblock before node after hsplit operand hoperand
  have hread := h id block hblock before node after hsplit operand
    (Graph.reads_ofBody node hoperand)
  exact hread.imp_right announces_ofBody

end OfBody

namespace Worklist

variable {graph : Graph} {list next final : Worklist}

/-! ## Settled blocks -/

/-- Every block that is reached and does not wait reproduces the values of its
nodes, and its outcome has arrived at its successors. -/
def Settled (graph : Graph) (list : Worklist) : Prop :=
  ∀ (id : BlockId) (block : Block), graph.blocks[id]? = some block →
    (list.input id).isReached = true → id ∉ list.queue →
      ∃ output, graph.Replays list.values block.nodes (list.input id) output ∧
        ∀ edge ∈ block.successors, output.route edge.rule ≤ list.input edge.target

theorem settled_initial (hv : graph.Valid) : Settled graph (initial graph) := by
  intro id block hblock hreached hqueue
  have hid : id ≠ 0 := fun h => hqueue (by rw [h]; exact List.mem_singleton_self 0)
  rw [input_initial hv, if_neg hid] at hreached
  cases hreached

theorem get?_eq_of_run {nodes : List NodeId} {input : Flow} {values : NodeValues} {visit : Visit}
    (hrun : Visit.run graph nodes input values = some visit) {node : NodeId}
    (h : node ∈ nodes → visit.changed = false) : values.get? node = visit.values.get? node := by
  by_cases hmem : node ∈ nodes
  · rw [(Visit.changed_foldlM hrun (h hmem)).2]
  · exact (Visit.get?_foldlM_of_not_mem hrun hmem).symm

/-- A visit that changes a value puts every block into the queue to which a node
of the visited block is announced. -/
theorem changed_of_announces {id reader : BlockId} {rest : List BlockId} {block : Block}
    {visit : Visit} {operand : NodeId} (hannounces : graph.Announces operand reader)
    (hblock : graph.blocks[id]? = some block) (hoperand : operand ∈ block.nodes)
    (hreached : (list.input id).isReached = true)
    (hrun : Visit.run graph block.nodes (list.input id) list.values = some visit)
    (hcarried : Carried visit block.successors (list.visited rest visit) next)
    (hqueue : reader ∉ next.queue) : visit.changed = false := by
  obtain ⟨edge, hedge, rfl, hroute⟩ := hannounces id block hblock hoperand
  by_contra hchanged
  rw [Bool.not_eq_false] at hchanged
  exact hqueue (hcarried.mem_of_changed hchanged edge hedge (hroute _ _ _ hreached hrun))

/-- After a visit the block itself is settled, unless it waits again. -/
theorem settled_of_visited (hv : graph.Valid) (honce : ListedOnce graph.blocks)
    (hn : graph.Notifies) (hf : Fits graph list) {id : BlockId} {rest : List BlockId}
    {block : Block} {visit : Visit} (hblock : graph.blocks[id]? = some block)
    (hreached : (list.input id).isReached = true)
    (hrun : Visit.run graph block.nodes (list.input id) list.values = some visit)
    (hcarried : Carried visit block.successors (list.visited rest visit) next)
    (hqueue : id ∉ next.queue) (hinput : next.input id = list.input id) :
    ∃ output, graph.Replays next.values block.nodes (next.input id) output ∧
      ∀ edge ∈ block.successors, output.route edge.rule ≤ next.input edge.target := by
  -- a node that reads ahead in its own block is announced over a loop, and the
  -- loop would have put the block back into the queue
  have hreads : ∀ seen node rest, block.nodes = seen ++ node :: rest → ∀ m ∈ graph.reads node,
      m ∉ seen → list.values.get? m = visit.values.get? m := by
    intro seen node rest hsplit m hm hseen
    have hannounces := (hn id block hblock seen node rest hsplit m hm).resolve_left hseen
    exact get?_eq_of_run hrun fun hmem =>
      changed_of_announces hannounces hblock hmem hreached hrun hcarried hqueue
  refine ⟨visit.flow, ?_, hcarried.route_le⟩
  rw [hcarried.values, hinput]
  exact Visit.replays_of_run hv honce hblock hf.size_values hrun hreads

/-- A visit leaves the other settled blocks settled: it changes none of their own
nodes, and if it changes one that they read then they wait. -/
theorem settled_of_other (honce : ListedOnce graph.blocks) (hn : graph.Notifies)
    {id other : BlockId} {rest : List BlockId} {block otherBlock : Block} {visit : Visit}
    {output : Flow} (hblock : graph.blocks[id]? = some block)
    (hother : graph.blocks[other]? = some otherBlock) (hne : other ≠ id)
    (hreached : (list.input id).isReached = true)
    (hrun : Visit.run graph block.nodes (list.input id) list.values = some visit)
    (hcarried : Carried visit block.successors (list.visited rest visit) next)
    (hqueue : other ∉ next.queue) (hinput : next.input other = list.input other)
    (hreplays : graph.Replays list.values otherBlock.nodes (list.input other) output) :
    graph.Replays next.values otherBlock.nodes (next.input other) output := by
  rw [hcarried.values, hinput]
  have hown : ∀ node ∈ otherBlock.nodes, node ∉ block.nodes := fun node hnode hmem =>
    hne (honce.eq_of_listedIn ⟨otherBlock, hother, hnode⟩ ⟨block, hblock, hmem⟩)
  refine hreplays.congr (fun node hnode => get?_eq_of_run hrun fun hmem =>
    absurd hmem (hown node hnode)) fun node hnode m hm => get?_eq_of_run hrun fun hmem => ?_
  obtain ⟨before, after, hsplit⟩ := List.append_of_mem hnode
  have hannounces := (hn other otherBlock hother before node after hsplit m hm).resolve_left
    fun hbefore => hown m (by rw [hsplit]; exact List.mem_append_left _ hbefore) hmem
  exact changed_of_announces hannounces hblock hmem hreached hrun hcarried hqueue

theorem settled_of_next (hv : graph.Valid) (honce : ListedOnce graph.blocks) (hn : graph.Notifies)
    (hf : Fits graph list) (hs : Settled graph list) (h : Next graph list next) :
    Settled graph next := by
  intro other otherBlock hother hreachedOther hqueue
  obtain ⟨id, rest, hperm, hstep⟩ := h.cases hv hf
  have hwaiting : other ∈ list.queue → other = id ∨ other ∈ rest := fun hmem =>
    List.mem_cons.1 (hperm.mem_iff.2 hmem)
  cases hstep with
  | skip hunreached =>
    have hreached : (list.input other).isReached = true := hreachedOther
    refine hs other otherBlock hother hreached fun hmem => ?_
    rcases hwaiting hmem with rfl | hmem
    · rw [hunreached] at hreached
      cases hreached
    · exact hqueue hmem
  | @visit block visit next hreached hblock hrun hcarried =>
    have hinput : next.input other = list.input other := by
      by_contra hne
      exact hqueue (hcarried.mem_of_raised other hne)
    by_cases hid : other = id
    · subst hid
      rw [hblock] at hother
      cases hother
      exact settled_of_visited hv honce hn hf hblock hreached hrun hcarried hqueue hinput
    · obtain ⟨output, hreplays, hroutes⟩ := hs other otherBlock hother (hinput ▸ hreachedOther)
        fun hmem => hqueue (hcarried.mem_queue other ((hwaiting hmem).resolve_left hid))
      exact ⟨output, settled_of_other honce hn hblock hother hid hreached hrun hcarried hqueue
        hinput hreplays, fun edge hedge => (hroutes edge hedge).trans (hcarried.le_input _)⟩

theorem settled_of_nexts (hv : graph.Valid) (honce : ListedOnce graph.blocks)
    (hn : graph.Notifies) (h : Nexts graph (initial graph) final) : Settled graph final :=
  nexts_induction hv (fits_initial hv) (settled_initial hv)
    (fun _ _ hf hnext hs => settled_of_next hv honce hn hf hs hnext) h

end Worklist

/-! ## The main result -/

/-- **Fixed point.** Let every node be listed at most once, and every node that is
read be listed earlier in the block of its reader, or nowhere, or in a block that
always passes something on to it. However the run went, when it is over each
block that is reached, run from its facts with operands read from the recorded
values, gives every node the value that is recorded for it; and what it leaves
has arrived at its successors. -/
theorem exists_replays_of_run {policy : Policy} {body : Body} (hbody : body.graphError? = none)
    (honce : ListedOnce body.blocks)
    (hreads : body.EachRead fun id before operand =>
      operand ∈ before ∨ body.Announces operand id)
    {steps : Nat} {final : Worklist}
    (hrun : Worklist.run (.ofBody policy body) steps (.initial (.ofBody policy body)) = some final)
    {id : BlockId} {block : Block} (hblock : body.blocks[id]? = some block)
    (hreached : (final.input id).isReached = true) :
    ∃ output, (Graph.ofBody policy body).Replays final.values block.nodes (final.input id) output ∧
      ∀ edge ∈ block.successors, output.route edge.rule ≤ final.input edge.target := by
  have hv : (Graph.ofBody policy body).Valid := Graph.valid_ofBody hbody
  obtain ⟨hnexts, hempty⟩ := Worklist.nexts_of_run hrun
  refine Worklist.settled_of_nexts hv honce (notifies_ofBody hreads) hnexts id block hblock
    hreached ?_
  rw [hempty]
  exact List.not_mem_nil

/-- A loop around a choice: the ternary in the last block reads both arms. -/
def choiceLoop : Body :=
  .ofKinds #[] #[.valueLiteral, .nullLiteral, .objectCreation, .ternary 1 2]
    #[⟨[0], [⟨1, .thenToBoth⟩, ⟨2, .elseToBoth⟩]⟩, ⟨[1], [⟨3, .thenToThen⟩]⟩,
      ⟨[2], [⟨3, .eachToEach⟩]⟩, ⟨[3], [⟨0, .eachToEach⟩]⟩]

theorem exists_replays_choiceLoop :
    choiceLoop.graphError? = none ∧ ListedOnce choiceLoop.blocks ∧
      ∃ final, Worklist.run (.ofBody .trusting choiceLoop) 20
          (.initial (.ofBody .trusting choiceLoop)) = some final ∧
        (final.input 3).isReached = true ∧
        ∃ output, (Graph.ofBody .trusting choiceLoop).Replays final.values [3]
          (final.input 3) output := by
  have hrun : Worklist.run (.ofBody .trusting choiceLoop) 20
      (.initial (.ofBody .trusting choiceLoop)) = some ((Worklist.run (.ofBody .trusting choiceLoop)
        20 (.initial (.ofBody .trusting choiceLoop))).get (by decide +kernel)) :=
    (Option.some_get _).symm
  refine ⟨by decide +kernel, by decide +kernel, _, hrun, by decide +kernel, ?_⟩
  obtain ⟨output, hreplays, -⟩ := exists_replays_of_run (by decide +kernel) (by decide +kernel)
    (by decide +kernel) hrun (show choiceLoop.blocks[3]? = some ⟨[3], [⟨0, .eachToEach⟩]⟩ from rfl)
    (by decide +kernel)
  exact ⟨output, hreplays⟩

/-! ## Readers that are left behind -/

/-- `x` is set to null before a loop that reads it and sets it again; the cast in
the last block reads what the loop read, two edges away. -/
def farReader : Body :=
  .ofKinds #[⟨"x", .ofClass "java.lang.String", .localVariable, none, []⟩]
    #[.nullLiteral, .localVariable 0, .assignment 1 0, .valueLiteral, .assignment 1 3,
      .typeCast 1 []]
    #[⟨[0, 2], [⟨1, .eachToEach⟩]⟩, ⟨[1], [⟨2, .eachToEach⟩]⟩,
      ⟨[3, 4], [⟨3, .eachToEach⟩, ⟨1, .eachToEach⟩]⟩, ⟨[5], []⟩]

/-- A cast that stands before its operand. -/
def earlyReader : Body :=
  .ofKinds #[] #[.typeCast 1 [], .valueLiteral] #[⟨[0, 1], []⟩]

/-- Some run of the body ends with a reached block that does not reproduce the
values of its nodes. -/
def LeavesStale (policy : Policy) (body : Body) : Prop :=
  ∃ steps final id block,
    Worklist.run (.ofBody policy body) steps (.initial (.ofBody policy body)) = some final ∧
      body.blocks[id]? = some block ∧ (final.input id).isReached = true ∧
        ¬ ∃ output, (Graph.ofBody policy body).Replays final.values block.nodes (final.input id)
          output

theorem leavesStale_of_value {policy : Policy} {body : Body} (steps : Nat)
    (hends : (Worklist.run (.ofBody policy body) steps
      (.initial (.ofBody policy body))).isSome = true)
    {id : BlockId} {node : NodeId} {rest : List NodeId} {edges : List Edge}
    (hblock : body.blocks[id]? = some ⟨node :: rest, edges⟩)
    (hreached : ((Option.get _ hends).input id).isReached = true)
    (hvalue : ((Graph.ofBody policy body).action? node).map
        (fun action => (action.run ((Option.get _ hends).input id) (Option.get _ hends).values).1) ≠
      (Option.get _ hends).values.get? node) : LeavesStale policy body := by
  refine ⟨steps, _, id, _, (Option.some_get hends).symm, hblock, hreached, ?_⟩
  rintro ⟨output, hreplays⟩
  cases hreplays with
  | cons haction hnode hrest => exact hvalue (by rw [haction, hnode, Option.map_some])

theorem stale_reader :
    (farReader.graphError? = none ∧ ListedOnce farReader.blocks ∧
        LeavesStale .codeOnly farReader ∧ LeavesStale .trusting farReader) ∧
      (earlyReader.graphError? = none ∧ ListedOnce earlyReader.blocks ∧
        LeavesStale .codeOnly earlyReader ∧ LeavesStale .trusting earlyReader) := by
  have hfar : farReader.blocks[3]? = some ⟨[5], []⟩ := rfl
  have hearly : earlyReader.blocks[0]? = some ⟨[0, 1], []⟩ := rfl
  refine ⟨⟨by decide +kernel, by decide +kernel, ?_, ?_⟩,
    by decide +kernel, by decide +kernel, ?_, ?_⟩
  · exact leavesStale_of_value 20 (by decide +kernel) hfar (by decide +kernel) (by decide +kernel)
  · exact leavesStale_of_value 20 (by decide +kernel) hfar (by decide +kernel) (by decide +kernel)
  · exact leavesStale_of_value 9 (by decide +kernel) hearly (by decide +kernel) (by decide +kernel)
  · exact leavesStale_of_value 9 (by decide +kernel) hearly (by decide +kernel) (by decide +kernel)

end JvmLint
