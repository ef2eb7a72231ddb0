import JvmLint.Proofs.Nullness.LeastSolution
import JvmLint.Proofs.Nullness.Reachability

/-!
# What trust in annotations adds

A graph whose actions and whose facts on entry are below those of another has the
smaller least solution: every solution of the other is one of its own
(`Graph.Below.solves`). A policy that trusts annotations makes such a graph, unless
it is told that a method may return null which is known not to. So where no method
that is called is declared to return null, trust only makes values sharper
(`trusting_le_codeOnly`).
-/
namespace JvmLint

/-! ## Graphs below each other -/

/-- The same blocks, with smaller facts on entry and smaller actions. -/
structure Graph.Below (low high : Graph) : Prop where
  blocks : low.blocks = high.blocks
  entry_le : low.entry ≤ high.entry
  action : ∀ node a b, low.action? node = some a → high.action? node = some b → a.Below b

namespace Graph.Below

variable {low high : Graph} {facts : BlockId → Flow} {id : BlockId} {block : Block}

/-- A block of the lower graph, run on smaller facts, leaves smaller facts and
gives its nodes smaller values. -/
theorem run_le_run (h : low.Below high) (hlow : low.Tame) (hhigh : high.Valid)
    (hblock : low.blocks[id]? = some block) {f g : Flow} (hfg : f ≤ g)
    (hf : f.isReached = true) {visit visit' : Visit}
    (hrun : Visit.run low block.nodes f (.unset low.actions.size) = some visit)
    (hrun' : Visit.run high block.nodes g (.unset high.actions.size) = some visit') :
    visit.flow ≤ visit'.flow ∧ ∀ node ∈ block.nodes,
      Option.Rel (· ≤ ·) (visit.values.get? node) (visit'.values.get? node) := by
  have hltLow := hlow.valid.node_lt id block hblock
  have hltHigh := hhigh.node_lt id block (h.blocks ▸ hblock)
  exact Visit.foldlM_le_foldlM hrun hrun' (fun node _ => h.action node)
    (by simpa [NodeValues.unset] using hltLow) (by simpa [NodeValues.unset] using hltHigh) hfg hf
    fun seen node rest heq m hm hseen =>
      absurd (hlow.mem_before id block hblock seen node rest heq m hm) hseen

/-- A solution of the higher graph is one of the lower graph. -/
theorem solves (h : low.Below high) (hlow : low.Tame) (hhigh : high.Valid)
    (hx : high.Solves facts) : low.Solves facts where
  entry_le := (Flow.regular_le_regular h.entry_le).trans hx.entry_le
  route_le id block hblock hreached := by
    obtain ⟨visit', hrun', hroutes⟩ := hx.route_le id block (h.blocks ▸ hblock) hreached
    obtain ⟨visit, hrun⟩ := hlow.exists_run hblock (facts id) (.unset low.actions.size)
    have hflow := (h.run_le_run hlow hhigh hblock (le_refl _) hreached hrun hrun').1
    exact ⟨visit, hrun, fun edge hedge =>
      (Flow.route_le_route hflow edge.rule).trans (hroutes edge hedge)⟩

end Graph.Below

namespace Worklist

variable {low high : Graph} {final other : Worklist}

/-- When both runs are over, the lower graph has the smaller facts, -/
theorem input_le_of_below (h : low.Below high) (hlow : low.Tame) (hhigh : high.Tame)
    (hfinal : Nexts low (initial low) final) (hother : Nexts high (initial high) other)
    (hempty : other.queue = []) (id : BlockId) : final.input id ≤ other.input id :=
  input_le_of_solves hlow (h.solves hlow hhigh.valid (solves_of_nexts hhigh hother hempty)) hfinal id

/-- and smaller values. -/
theorem get?_le_of_below (h : low.Below high) (hlow : low.Tame) (hhigh : high.Tame)
    (hfinal : Nexts low (initial low) final) (hdone : final.queue = [])
    (hother : Nexts high (initial high) other) (hempty : other.queue = []) {node : NodeId}
    (hnode : final.values.get? node ≠ none) :
    Option.Rel (· ≤ ·) (final.values.get? node) (other.values.get? node) := by
  obtain ⟨id, ⟨block, hblock, hmem⟩, hreached⟩ := recorded_of_nexts hlow.valid hfinal node hnode
  have hle := input_le_of_below h hlow hhigh hfinal hother hempty id
  obtain ⟨visit, hrun, hvalues⟩ :=
    (computes_of_nexts hlow hfinal hdone).of_reached id block hblock hreached
  obtain ⟨visit', hrun', hvalues'⟩ := (computes_of_nexts hhigh hother hempty).of_reached id block
    (h.blocks ▸ hblock) (Flow.isReached_of_le hle hreached)
  rw [hvalues node hmem, hvalues' node hmem]
  exact (h.run_le_run hlow hhigh.valid hblock hle hreached hrun hrun').2 node hmem

end Worklist

/-! ## Annotations -/

namespace Annotations

theorem nullness?_cases (written : String) :
    nullness? written = none ∨ nullness? written = some .nullable ∨
      nullness? written = some .nonNull := by
  unfold nullness?
  split_ifs <;> simp

theorem foldl_meet_nonNull {values : List Nullness} (h : ∀ value ∈ values, value = .nonNull) :
    values.foldl Nullness.meet .nonNull = .nonNull := by
  induction values with
  | nil => rfl
  | cons value values ih =>
    rw [List.foldl_cons, h value List.mem_cons_self]
    exact ih fun other hother => h other (List.mem_cons_of_mem _ hother)

/-- Annotations that do not allow null declare nothing, or exclude it. -/
theorem declaredNullness_of_not_nullable {annotations : List String}
    (h : ∀ written ∈ annotations, nullness? written ≠ some .nullable) :
    declaredNullness annotations = none ∨ declaredNullness annotations = some .nonNull := by
  have hall : ∀ value ∈ annotations.filterMap nullness?, value = .nonNull := by
    intro value hvalue
    obtain ⟨written, hmem, hwritten⟩ := List.mem_filterMap.1 hvalue
    rcases nullness?_cases written with hnone | hnullable | hnonNull
    · rw [hnone] at hwritten
      cases hwritten
    · exact absurd hnullable (h written hmem)
    · rw [hnonNull] at hwritten
      exact (Option.some.inj hwritten).symm
  unfold declaredNullness
  split
  · exact Or.inl rfl
  · rename_i value rest hvalues
    rw [hvalues] at hall
    rw [hall value List.mem_cons_self,
      foldl_meet_nonNull fun other hother => hall other (List.mem_cons_of_mem _ hother)]
    exact Or.inr rfl

end Annotations

/-- The method that a node calls, if it is known. -/
def NodeKind.method? : NodeKind → Option Method
  | .methodInvocation _ _ method => method
  | _ => none

/-- No method that the body calls is annotated to return null. -/
def Body.DeclaresNoNullable (body : Body) : Prop :=
  ∀ node ∈ body.nodes, ∀ method ∈ node.kind.method?, ∀ written ∈ method.annotations,
    Annotations.nullness? written ≠ some .nullable

instance (body : Body) : Decidable body.DeclaresNoNullable :=
  inferInstanceAs (Decidable (∀ node ∈ body.nodes, ∀ method ∈ node.kind.method?,
    ∀ written ∈ method.annotations, Annotations.nullness? written ≠ some .nullable))

theorem Store.le_empty (s : Store) : s ≤ .empty := by
  intro path value hvalue
  rw [get?_empty] at hvalue
  cases hvalue

/-- Two actions that differ in a fixed value only. -/
theorem Action.below_of_known {a b : Nullness} {effect : Effect} (hab : a ≤ b)
    (hp : ∀ r ∈ effect.refinements, r.2.isPlain = true) :
    Below ⟨.known a, effect⟩ ⟨.known b, effect⟩ := by
  intro f g hfg hf v w h
  obtain ⟨s, t, hs, ht, hst⟩ := Flow.exists_merged_le hfg hf
  simp only [run, hs, ht, Option.getD_some]
  exact ⟨hab, Effect.apply_le_apply hst hfg hp fun r hr n hn => h n (mem_reads_of_refinement hr hn)⟩

namespace Transfer

variable {body : Body} {node : Node} {a b : Action}

theorem returnValue_le {method : Method}
    (h : ∀ written ∈ method.annotations, Annotations.nullness? written ≠ some .nullable) :
    returnValue .trusting method ≤ returnValue .codeOnly method := by
  have htrusting : Policy.trusting.methodReturn method =
    Annotations.declaredNullness method.annotations := rfl
  rcases Annotations.declaredNullness_of_not_nullable h with hnone | hsome
  · simp only [returnValue, htrusting, hnone]
    exact le_refl _
  · simp only [returnValue, htrusting, hsome]
    show Nullness.nonNull ≤ ite _ _ _
    split_ifs <;> decide

/-- The two policies tell apart calls of annotated methods and reads of annotated
fields, and no other nodes. -/
theorem below_of_action? (hfield : node.kind.isFieldAccess = false)
    (hmethod : ∀ method ∈ node.kind.method?, ∀ written ∈ method.annotations,
      Annotations.nullness? written ≠ some .nullable)
    (ha : action? .trusting body node = some a) (hb : action? .codeOnly body node = some b) :
    a.Below b := by
  have hsame : action? .trusting body node = action? .codeOnly body node → a.Below b := by
    intro heq
    rw [ha, hb] at heq
    cases heq
    exact Action.below_self (isPlain_action? ha hfield)
  have hplain : ∀ r ∈ a.effect.refinements, r.2.isPlain = true := fun r hr =>
    (sound_of_action? ha r hr).2.2
  obtain ⟨kind, type, tree, line⟩ := node
  cases kind with
  | methodInvocation receiver arguments method =>
    cases method with
    | none => exact hsame rfl
    | some method =>
      obtain ⟨dereferenced, hd, rfl⟩ := Option.map_eq_some_iff.1 ha
      obtain ⟨dereferenced', hd', rfl⟩ := Option.map_eq_some_iff.1 hb
      rw [hd] at hd'
      cases hd'
      exact Action.below_of_known (returnValue_le (hmethod method rfl)) hplain
  | fieldAccess receiver field => cases hfield
  | _ => exact hsame rfl

theorem entryStore_codeOnly (body : Body) : entryStore .codeOnly body = .empty := by
  have hnone : (List.range body.locals.size).filterMap (fun id =>
      (body.locals[id]?.bind Policy.codeOnly.parameter).map (AccessPath.slot id, ·)) = [] := by
    rw [List.filterMap_eq_nil_iff]
    intro id _
    cases body.locals[id]? <;> rfl
  simp only [entryStore, hnone, Store.update_nil]

end Transfer

/-! ## The main result -/

/-- What is declared of parameters does not matter here: going by the code alone
nothing is known of them. -/
theorem below_ofBody {body : Body}
    (hfields : ∀ node ∈ body.nodes, node.kind.isFieldAccess = false)
    (hmethods : body.DeclaresNoNullable) :
    (Graph.ofBody .trusting body).Below (.ofBody .codeOnly body) where
  blocks := rfl
  entry_le := by
    show Transfer.entryStore .trusting body ≤ Transfer.entryStore .codeOnly body
    rw [Transfer.entryStore_codeOnly]
    exact Store.le_empty _
  action id a b ha hb := by
    obtain ⟨node, hnode, ha⟩ := Graph.action?_ofBody.1 ha
    obtain ⟨node', hnode', hb⟩ := Graph.action?_ofBody.1 hb
    rw [hnode] at hnode'
    cases hnode'
    have hmem := Array.mem_of_getElem? hnode
    exact Transfer.below_of_action? (hfields node hmem) (hmethods node hmem) ha hb

/-- **Trust sharpens.** Take a body without field accesses, in which every node is
listed at most once and every node that is read is listed before its reader in the
same block, and which calls no method that is annotated to return null. When the
runs under both policies are over, each node that has a value under the one has a
value under the other, and the one that trusts annotations is at or below the one
that does not. -/
theorem trusting_le_codeOnly {body : Body} (hbody : body.graphError? = none)
    (hfields : ∀ node ∈ body.nodes, node.kind.isFieldAccess = false)
    (honce : ListedOnce body.blocks)
    (hreads : body.EachRead fun _ before operand => operand ∈ before)
    (hmethods : body.DeclaresNoNullable) {trusting standard : Solution}
    (htrusting : body.Solved .trusting trusting) (hstandard : body.Solved .codeOnly standard)
    (node : NodeId) :
    Option.Rel (· ≤ ·) (trusting.values.get? node) (standard.values.get? node) := by
  have hlow : (Graph.ofBody .trusting body).Tame := tame_ofBody hbody hfields honce hreads
  have hhigh : (Graph.ofBody .codeOnly body).Tame := tame_ofBody hbody hfields honce hreads
  have hshape : trusting.values.get? node ≠ none ↔ standard.values.get? node ≠ none :=
    (htrusting.get?_ne_none_iff hbody node).trans (hstandard.get?_ne_none_iff hbody node).symm
  by_cases hnode : trusting.values.get? node = none
  · rw [hnode, not_not.1 fun hne => hshape.2 hne hnode]
    exact .none
  · obtain ⟨steps, final, hrun, rfl⟩ := htrusting
    obtain ⟨steps', other, hrun', rfl⟩ := hstandard
    obtain ⟨hfinal, hdone⟩ := Worklist.nexts_of_run hrun
    obtain ⟨hother, hempty⟩ := Worklist.nexts_of_run hrun'
    exact Worklist.get?_le_of_below (below_ofBody hfields hmethods) hlow hhigh hfinal hdone hother
      hempty hnode

/-- As long as `x` is not null, `x = Source.next()`; then `x` is read. The method is
declared not to return null, and so is the parameter `x`. -/
def refillLoop : Body :=
  .ofKinds #[⟨"x", .ofClass "java.lang.String", .parameter, none, ["NonNull"]⟩]
    #[.localVariable 0, .nullLiteral, .notEqual 0 1, .localVariable 0,
      .methodInvocation none []
        (some ⟨"Source", "next", "()Ljava/lang/String;", true, false, ["NonNull"], []⟩),
      .assignment 3 4, .localVariable 0]
    #[⟨[0, 1, 2], [⟨1, .thenToBoth⟩, ⟨2, .elseToBoth⟩]⟩, ⟨[3, 4, 5], [⟨0, .eachToEach⟩]⟩,
      ⟨[6], []⟩]

/-- Its solution, but for the values of the first read of `x`, of what is put into
it, and of the last read. -/
def refillLoopSolution (read fresh last : Nullness) : Solution :=
  ⟨⟨#[some read, some .null, some .nonNull, some .nonNull, some fresh, some fresh, some last]⟩, 4⟩

theorem trusting_le_codeOnly_refillLoop :
    refillLoop.graphError? = none ∧ refillLoop.DeclaresNoNullable ∧
      refillLoop.Solved .trusting (refillLoopSolution .nonNull .nonNull .bottom) ∧
      refillLoop.Solved .codeOnly (refillLoopSolution .nullable .nullable .null) ∧
      ∀ node, Option.Rel (· ≤ ·)
        ((refillLoopSolution .nonNull .nonNull .bottom).values.get? node)
        ((refillLoopSolution .nullable .nullable .null).values.get? node) := by
  have hbody : refillLoop.graphError? = none := by decide +kernel
  have hmethods : refillLoop.DeclaresNoNullable := by decide +kernel
  have htrusting : refillLoop.Solved .trusting (refillLoopSolution .nonNull .nonNull .bottom) :=
    Body.solved_of_solve (by decide +kernel)
  have hstandard : refillLoop.Solved .codeOnly (refillLoopSolution .nullable .nullable .null) :=
    Body.solved_of_solve (by decide +kernel)
  exact ⟨hbody, hmethods, htrusting, hstandard, trusting_le_codeOnly hbody (by decide +kernel)
    (by decide +kernel) (by decide +kernel) hmethods htrusting hstandard⟩

end JvmLint
