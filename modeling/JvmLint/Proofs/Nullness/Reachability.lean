import JvmLint.Nullness.Analysis
import JvmLint.Proofs.Nullness.LoopInvariant
import JvmLint.Proofs.Nullness.Refinement

/-!
# Which nodes get a value

Whether anything arrives on a side of a block is a question of the shape of the
body alone. `Body.Reaches` answers it without facts: it follows the sides through
the nodes of a block and over its edges. A finished run has reached exactly these
sides, and has given a value to exactly the nodes of the blocks with one of them
(`get?_ne_none_iff_reaches`). So all policies give values to the same nodes.

One inclusion is an invariant of runs (`Worklist.explained_of_nexts`); the other
holds when no block waits, since then every reached block has passed on what it was
last visited with (`Worklist.has_of_reaches`).
-/
namespace JvmLint

/-! ## The shape of a body -/

/-- Whether something that holds on one side before a node of this kind is carried
to another after it. A condition leaves each side to itself, a negation lets them
change places, and every other node merges them. -/
def NodeKind.Passes (kind : NodeKind) (side out : Bool) : Prop :=
  if kind = .conditionalNot then out = !side else kind.isCondition = true → out = side

/-- Whether an edge with this rule carries what holds on one side to another. -/
def FlowRule.Carries : FlowRule → (side out : Bool) → Prop
  | eachToEach, side, out => out = side
  | thenToBoth, side, _ => side = true
  | elseToBoth, side, _ => side = false
  | thenToThen, side, out => side = true ∧ out = true
  | elseToElse, side, out => side = false ∧ out = false

namespace Body

/-- Whether the nodes, one after the other, carry what holds on one side to
another. -/
def Passes (body : Body) : List NodeId → (side out : Bool) → Prop
  | [], side, out => out = side
  | node :: rest, side, out =>
    ∃ mid, (∀ kind ∈ body.kind? node, kind.Passes side mid) ∧ body.Passes rest mid out

/-- Something can arrive on a side of a block: both sides of the first block are
reached, and from there on what the blocks and their edges carry. -/
inductive Reaches (body : Body) : BlockId → (side : Bool) → Prop
  | entry (side : Bool) : Reaches body 0 side
  | edge {id : BlockId} {block : Block} {edge : Edge} {side last out : Bool}
      (hside : Reaches body id side) (hblock : body.blocks[id]? = some block)
      (hnodes : body.Passes block.nodes side last) (hedge : edge ∈ block.successors)
      (hrule : edge.rule.Carries last out) : Reaches body edge.target out

end Body

/-! ## The sides of a flow -/

namespace Flow

/-- The side is reached. -/
def Has (flow : Flow) (side : Bool) : Prop := (flow.side side).isSome = true

variable {f g : Flow}

theorem isReached_iff : f.isReached = true ↔ ∃ side, f.Has side := by
  simp [isReached, Has, side, or_comm]

theorem has_regular (store : Store) (side : Bool) : (regular store).Has side := by
  cases side <;> rfl

theorem has_merge {side : Bool} : (f.merge g).Has side ↔ f.Has side ∨ g.Has side := by
  have hjoin : ∀ a b : Option Store,
      (joinOption a b).isSome = true ↔ a.isSome = true ∨ b.isSome = true := by
    intro a b
    cases a <;> cases b <;> simp [joinOption]
  cases side <;> exact hjoin _ _

theorem has_route {rule : FlowRule} {out : Bool} :
    (f.route rule).Has out ↔ ∃ side, f.Has side ∧ rule.Carries side out := by
  cases rule <;> cases out <;> simp [route, Has, side, FlowRule.Carries]

theorem Has.of_le {side : Bool} (h : f.Has side) (hfg : f ≤ g) : g.Has side := by
  obtain ⟨s, hs⟩ := Option.isSome_iff_exists.1 h
  cases side with
  | true =>
    obtain ⟨t, ht, -⟩ := hfg.1 s hs
    exact Option.isSome_iff_exists.2 ⟨t, ht⟩
  | false =>
    obtain ⟨t, ht, -⟩ := hfg.2 s hs
    exact Option.isSome_iff_exists.2 ⟨t, ht⟩

end Flow

/-! ## Sides through nodes and blocks -/

/-- Whether an effect carries what holds on one side to another. -/
def Effect.Passes : Effect → (side out : Bool) → Prop
  | regular _, _, _ => True
  | branch _ _, side, out | pass, side, out => out = side
  | swap, side, out => out = !side

theorem Effect.has_apply {effect : Effect} {store : Store} {input : Flow} {values : NodeValues}
    (hreached : input.isReached = true) {out : Bool} :
    (effect.apply store input values).Has out ↔ ∃ side, input.Has side ∧ effect.Passes side out := by
  cases effect with
  | regular batch =>
    obtain ⟨side, hside⟩ := Flow.isReached_iff.1 hreached
    exact iff_of_true (Flow.has_regular _ out) ⟨side, hside, trivial⟩
  | branch onThen onElse =>
    cases out <;> simp [apply, Passes, Flow.Has, Flow.side, Flow.mapSides]
  | pass => simp [apply, Passes]
  | swap => cases out <;> simp [apply, Passes, Flow.Has, Flow.side, Flow.swapped]

namespace Transfer

variable {policy : Policy} {body : Body} {node : Node} {action : Action}

/-- What a node does to the sides is a matter of its kind. -/
theorem passes_of_action? (h : action? policy body node = some action) {side out : Bool} :
    action.effect.Passes side out ↔ node.kind.Passes side out := by
  by_cases hcondition : node.kind.isCondition = true
  · by_cases hconnective : node.kind.isConnective = true
    · obtain ⟨kind, type, tree, line⟩ := node
      cases kind with
      | conditionalAnd => cases h; simp [Effect.Passes, NodeKind.Passes, NodeKind.isCondition]
      | conditionalOr => cases h; simp [Effect.Passes, NodeKind.Passes, NodeKind.isCondition]
      | conditionalNot => cases h; simp [Effect.Passes, NodeKind.Passes]
      | _ => cases hconnective
    · obtain ⟨onThen, onElse, heffect⟩ :=
        branch_of_action? h hcondition (by simpa using hconnective)
      have hnot : node.kind ≠ .conditionalNot := fun hkind => hconnective (by rw [hkind]; rfl)
      simp [heffect, Effect.Passes, NodeKind.Passes, hnot, hcondition]
  · obtain ⟨batch, heffect⟩ := regular_of_action? h (by simpa using hcondition)
    have hnot : node.kind ≠ .conditionalNot := fun hkind => hcondition (by rw [hkind]; rfl)
    simp [heffect, Effect.Passes, NodeKind.Passes, hnot, hcondition]

end Transfer

namespace Visit

variable {policy : Policy} {body : Body} {nodes : List NodeId} {visit visit' : Visit}

theorem has_step {node : NodeId} (h : step (.ofBody policy body) visit node = some visit')
    (hreached : visit.flow.isReached = true) {out : Bool} :
    visit'.flow.Has out ↔
      ∃ side, visit.flow.Has side ∧ ∀ kind ∈ body.kind? node, kind.Passes side out := by
  obtain ⟨action, haction, rfl⟩ := step_eq_some.1 h
  obtain ⟨n, hnode, hn⟩ := Graph.action?_ofBody.1 haction
  have hkind : body.kind? node = some n.kind := by simp [Body.kind?, hnode]
  have hflow : (action.run visit.flow visit.values).2.Has out ↔
      ∃ side, visit.flow.Has side ∧ action.effect.Passes side out := Effect.has_apply hreached
  simp only [hkind, Option.mem_some_iff, forall_eq', ← Transfer.passes_of_action? hn]
  exact hflow

/-- A visit leaves the sides that the nodes of its block carry on. -/
theorem has_foldlM (h : nodes.foldlM (step (.ofBody policy body)) visit = some visit')
    (hreached : visit.flow.isReached = true) {out : Bool} :
    visit'.flow.Has out ↔ ∃ side, visit.flow.Has side ∧ body.Passes nodes side out := by
  induction nodes generalizing visit with
  | nil =>
    cases h
    simp [Body.Passes]
  | cons node rest ih =>
    obtain ⟨mid, hmid, hrest⟩ := foldlM_cons_eq_some.1 h
    have hmidReached : mid.flow.isReached = true := by
      obtain ⟨action, -, rfl⟩ := step_eq_some.1 hmid
      exact action.isReached_run _ hreached
    rw [ih hrest hmidReached]
    simp only [has_step hmid hreached, Body.Passes]
    constructor
    · rintro ⟨between, ⟨side, hside, hnode⟩, hpasses⟩
      exact ⟨side, hside, between, hnode, hpasses⟩
    · rintro ⟨side, hside, between, hnode, hpasses⟩
      exact ⟨between, ⟨side, hside, hnode⟩, hpasses⟩

/-- A visit gives every node of its block a value, and takes none away. -/
theorem get?_foldlM_ne_none {graph : Graph}
    (h : nodes.foldlM (step graph) visit = some visit')
    (hlt : ∀ n ∈ nodes, n < visit.values.cells.size) {node : NodeId}
    (hnode : node ∈ nodes ∨ visit.values.get? node ≠ none) : visit'.values.get? node ≠ none := by
  induction nodes generalizing visit with
  | nil =>
    cases h
    exact hnode.resolve_left List.not_mem_nil
  | cons first rest ih =>
    obtain ⟨mid, hmid, hrest⟩ := foldlM_cons_eq_some.1 h
    obtain ⟨action, -, rfl⟩ := step_eq_some.1 hmid
    have hfirst := hlt first List.mem_cons_self
    refine ih hrest (fun n hn => ?_) ?_
    · rw [NodeValues.size_record]
      exact hlt n (List.mem_cons_of_mem _ hn)
    · rw [NodeValues.get?_record _ _ _ _ hfirst]
      split
      · exact Or.inr (by simp)
      · rename_i hne
        exact hnode.imp_left fun hmem => (List.mem_cons.1 hmem).resolve_left hne

end Visit

/-! ## Runs -/

namespace Worklist

variable {policy : Policy} {body : Body} {graph : Graph} {list next final : Worklist}

/-- Nothing arrives but over a way through the body. -/
def Explained (body : Body) (list : Worklist) : Prop :=
  ∀ id side, (list.input id).Has side → body.Reaches id side

theorem explained_initial (hv : (Graph.ofBody policy body).Valid) :
    Explained body (initial (.ofBody policy body)) := by
  intro id side hside
  rw [input_initial hv] at hside
  split at hside
  · rename_i hid
    rw [hid]
    exact .entry side
  · cases side <;> cases hside

theorem explained_of_next (hv : (Graph.ofBody policy body).Valid)
    (hf : Fits (.ofBody policy body) list) (he : Explained body list)
    (h : Next (.ofBody policy body) list next) : Explained body next := by
  obtain ⟨id, rest, -, hstep⟩ := h.cases hv hf
  cases hstep with
  | skip hunreached => exact he
  | @visit block visit next hreached hblock hrun hcarried =>
    intro other
    refine hcarried.of_merge (fun flow => ∀ out, flow.Has out → body.Reaches other out)
      (fun f g hfs hgs out hout => ?_) other (he other) fun edge hedge htarget out hout => ?_
    · exact (Flow.has_merge.1 hout).elim (hfs out) (hgs out)
    · obtain ⟨last, hlast, hrule⟩ := Flow.has_route.1 hout
      obtain ⟨side, hside, hnodes⟩ := (Visit.has_foldlM hrun hreached).1 hlast
      rw [← htarget]
      exact .edge (he id side hside) hblock hnodes hedge hrule

theorem explained_of_nexts (hv : (Graph.ofBody policy body).Valid)
    (h : Nexts (.ofBody policy body) (initial (.ofBody policy body)) final) :
    Explained body final :=
  nexts_induction hv (fits_initial hv) (explained_initial hv)
    (fun _ _ hf hnext he => explained_of_next hv hf he hnext) h

/-- A value that is recorded may change, but never goes away. -/
theorem get?_ne_none_of_nexts (hv : graph.Valid) (hf : Fits graph list)
    (h : Nexts graph list final) {node : NodeId} (hnode : list.values.get? node ≠ none) :
    final.values.get? node ≠ none := by
  refine nexts_induction (p := fun list => list.values.get? node ≠ none) hv hf hnode
    (fun list next hf hnext hvalue => ?_) h
  obtain ⟨id, rest, -, hstep⟩ := hnext.cases hv hf
  cases hstep with
  | skip hunreached => exact hvalue
  | @visit block visit next hreached hblock hrun hcarried =>
    rw [hcarried.values]
    have hlt : ∀ n ∈ block.nodes, n < list.values.cells.size := by
      rw [hf.size_values]
      exact hv.node_lt id block hblock
    exact Visit.get?_foldlM_ne_none hrun hlt (Or.inr hvalue)

/-- A run that ends, ends at some place of its trace. -/
theorem exists_trace_of_run {steps start : Nat}
    (h : run graph steps (trace graph start) = some final) :
    ∃ last, trace graph last = final ∧ final.queue = [] := by
  induction steps generalizing start with
  | zero =>
    rcases run_cases h with ⟨hempty, rfl⟩ | ⟨fewer, next, hsteps, -⟩
    · exact ⟨start, rfl, hempty⟩
    · cases hsteps
  | succ steps ih =>
    rcases run_cases h with ⟨hempty, rfl⟩ | ⟨fewer, next, hsteps, -, hstep, hrest⟩
    · exact ⟨start, rfl, hempty⟩
    · cases hsteps
      rw [← trace_succ_of_step hstep] at hrest
      exact ih hrest

section Finished

variable {last : Nat} {id : BlockId} {block : Block}

/-- When no block waits, every reached block is current. -/
theorem current_of_queue_eq_nil (hv : graph.Valid) (hempty : (trace graph last).queue = [])
    (hblock : graph.blocks[id]? = some block)
    (hreached : ((trace graph last).input id).isReached = true) : Current graph id block last := by
  refine current_of_not_mem_queue hv hblock hreached ?_
  rw [hempty]
  exact List.not_mem_nil

/-- When no block waits, all has arrived that can arrive. -/
theorem has_of_reaches (hv : (Graph.ofBody policy body).Valid)
    (hempty : (trace (.ofBody policy body) last).queue = []) {side : Bool}
    (h : body.Reaches id side) : ((trace (.ofBody policy body) last).input id).Has side := by
  induction h with
  | entry side =>
    have hentry := input_trace_le hv (Nat.zero_le last) 0
    rw [trace, input_initial hv, if_pos rfl] at hentry
    exact (Flow.has_regular _ side).of_le hentry
  | @edge id block edge side out target _ hblock hnodes hedge hrule ih =>
    have hreached := Flow.isReached_iff.2 ⟨side, ih⟩
    obtain ⟨turn, visit, hlast, hinput, hroutes⟩ :=
      current_of_queue_eq_nil hv hempty hblock hreached
    have hrun := hlast.run_eq hblock
    rw [hinput] at hrun
    have hout : visit.flow.Has out := (Visit.has_foldlM hrun hreached).2 ⟨side, ih, hnodes⟩
    exact (Flow.has_route.2 ⟨out, hout, hrule⟩).of_le (hroutes edge hedge)

/-- When no block waits, every node of a reached block has a value. -/
theorem get?_ne_none_of_reached (hv : graph.Valid) (hempty : (trace graph last).queue = [])
    (hblock : graph.blocks[id]? = some block)
    (hreached : ((trace graph last).input id).isReached = true) {node : NodeId}
    (hnode : node ∈ block.nodes) : (trace graph last).values.get? node ≠ none := by
  obtain ⟨turn, visit, hlast, -⟩ := current_of_queue_eq_nil hv hempty hblock hreached
  have hlt : ∀ n ∈ block.nodes, n < (trace graph turn).values.cells.size := by
    rw [(fits_trace hv turn).size_values]
    exact hv.node_lt id block hblock
  have hvalue : (trace graph (turn + 1)).values.get? node ≠ none := by
    rw [hlast.values]
    exact Visit.get?_foldlM_ne_none (hlast.run_eq hblock) hlt (Or.inl hnode)
  exact get?_ne_none_of_nexts hv (fits_trace hv _) (nexts_trace hlast.lt) hvalue

end Finished

end Worklist

/-! ## Solutions -/

/-- The run of the body under a policy ends, with this solution. -/
def Body.Solved (policy : Policy) (body : Body) (solution : Solution) : Prop :=
  ∃ steps final, Worklist.run (.ofBody policy body) steps (.initial (.ofBody policy body)) =
    some final ∧ solution = ⟨final.values, final.visits⟩

/-- None of the nodes that belong to the tree has a value. -/
def Solution.Misses (solution : Solution) (body : Body) (tree : TreeId) : Prop :=
  ∀ node ∈ body.nodesOfTree tree, solution.values.get? node = none

theorem Solution.treeNullness_of_misses {solution : Solution} {body : Body} {tree : TreeId}
    (h : solution.Misses body tree) : solution.treeNullness body tree = .bottom := by
  rw [treeNullness, List.filterMap_eq_nil_iff.2 h, List.foldl_nil]

namespace Body

variable {policy : Policy} {body : Body} {solution : Solution}

theorem solved_of_solve (h : body.solve policy = .ok (some solution)) :
    body.Solved policy solution := by
  unfold solve at h
  split at h
  · cases h
  · obtain ⟨final, hrun, hsolution⟩ := Option.map_eq_some_iff.1 (Except.ok.inj h)
    exact ⟨body.stepLimit, final, hrun, hsolution.symm⟩

theorem Solved.exists_trace (h : body.Solved policy solution) :
    ∃ last, (Worklist.trace (.ofBody policy body) last).queue = [] ∧
      solution.values = (Worklist.trace (.ofBody policy body) last).values := by
  obtain ⟨steps, final, hrun, rfl⟩ := h
  have hstart : Worklist.run (.ofBody policy body) steps (.trace (.ofBody policy body) 0) =
      some final := hrun
  obtain ⟨last, rfl, hempty⟩ := Worklist.exists_trace_of_run hstart
  exact ⟨last, hempty, rfl⟩

/-- A solution has values for the nodes of the blocks that are reached. -/
theorem Solved.get?_ne_none_iff (hbody : body.graphError? = none)
    (h : body.Solved policy solution) (node : NodeId) :
    solution.values.get? node ≠ none ↔
      ∃ id side, ListedIn body.blocks id node ∧ body.Reaches id side := by
  have hv : (Graph.ofBody policy body).Valid := Graph.valid_ofBody hbody
  obtain ⟨last, hempty, hvalues⟩ := h.exists_trace
  rw [hvalues]
  constructor
  · intro hvalue
    have hnexts : Worklist.Nexts (.ofBody policy body) (.initial (.ofBody policy body))
        (.trace (.ofBody policy body) last) := Worklist.nexts_trace (Nat.zero_le last)
    obtain ⟨id, hlisted, hreached⟩ := Worklist.recorded_of_nexts hv hnexts node hvalue
    obtain ⟨side, hside⟩ := Flow.isReached_iff.1 hreached
    exact ⟨id, side, hlisted, Worklist.explained_of_nexts hv hnexts id side hside⟩
  · rintro ⟨id, side, ⟨block, hblock, hnode⟩, hreaches⟩
    have hside := Worklist.has_of_reaches hv hempty hreaches
    exact Worklist.get?_ne_none_of_reached hv hempty hblock (Flow.isReached_iff.2 ⟨side, hside⟩)
      hnode

end Body

/-- **Shape.** Under any policy, when the run of a body that passes the checks is
over, the nodes that have a value are those listed in a block of which a side is
reached. So under any two policies the same nodes have one; and the trees that
are reported to have no value because none of their nodes is reached are the
same. -/
theorem get?_ne_none_iff_reaches {body : Body} (hbody : body.graphError? = none) :
    (∀ policy solution, body.Solved policy solution → ∀ node,
      solution.values.get? node ≠ none ↔
        ∃ id side, ListedIn body.blocks id node ∧ body.Reaches id side) ∧
    ∀ p q s t, body.Solved p s → body.Solved q t →
      (∀ node, s.values.get? node ≠ none ↔ t.values.get? node ≠ none) ∧
      ∀ tree, (s.treeNullness body tree = .bottom ∧ s.Misses body tree ↔
        t.treeNullness body tree = .bottom ∧ t.Misses body tree) := by
  refine ⟨fun policy solution h => h.get?_ne_none_iff hbody, fun p q s t hs ht => ?_⟩
  have hsame : ∀ node, s.values.get? node ≠ none ↔ t.values.get? node ≠ none := fun node =>
    (hs.get?_ne_none_iff hbody node).trans (ht.get?_ne_none_iff hbody node).symm
  have hmisses : ∀ tree, s.Misses body tree ↔ t.Misses body tree := fun tree =>
    forall₂_congr fun node _ => not_iff_not.1 (hsame node)
  refine ⟨hsame, fun tree => ?_⟩
  rw [and_iff_right_of_imp Solution.treeNullness_of_misses,
    and_iff_right_of_imp Solution.treeNullness_of_misses]
  exact hmisses tree

/-- Only what holds when `x` is null goes on to a negation; the way on from there
for what is true is never taken. -/
def deadBranch : Body :=
  .ofKinds #[⟨"x", .ofClass "java.lang.String", .parameter, none, ["NonNull"]⟩]
    #[.localVariable 0, .nullLiteral, .equalTo 0 1, .conditionalNot, .valueLiteral,
      .objectCreation]
    #[⟨[0, 1, 2], [⟨1, .thenToThen⟩]⟩, ⟨[3], [⟨2, .thenToBoth⟩, ⟨3, .elseToBoth⟩]⟩, ⟨[4], []⟩,
      ⟨[5], []⟩]

/-- Its solution, but for the value of the first read. -/
def deadBranchSolution (read : Nullness) : Solution :=
  ⟨⟨#[some read, some .null, some .nonNull, some .nonNull, none, some .nonNull]⟩, 3⟩

theorem get?_ne_none_deadBranch :
    deadBranch.graphError? = none ∧
      deadBranch.Solved .codeOnly (deadBranchSolution .nullable) ∧
      deadBranch.Solved .trusting (deadBranchSolution .nonNull) ∧
      (∃ id side, ListedIn deadBranch.blocks id 5 ∧ deadBranch.Reaches id side) ∧
      ¬ ∃ id side, ListedIn deadBranch.blocks id 4 ∧ deadBranch.Reaches id side := by
  have hbody : deadBranch.graphError? = none := by decide +kernel
  have hstandard : deadBranch.Solved .codeOnly (deadBranchSolution .nullable) :=
    Body.solved_of_solve (by decide +kernel)
  have htrusting : deadBranch.Solved .trusting (deadBranchSolution .nonNull) :=
    Body.solved_of_solve (by decide +kernel)
  have hshape := (get?_ne_none_iff_reaches hbody).1 _ _ hstandard
  refine ⟨hbody, hstandard, htrusting, (hshape 5).1 ?_, fun hreached => (hshape 4).2 hreached ?_⟩
  · decide
  · decide

end JvmLint
