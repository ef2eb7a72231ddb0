import JvmLint.Proofs.Nullness.Termination

/-!
# Bodies in evaluation order

A front end that numbers the nodes of a body as it evaluates them lists every
block upwards and mentions in a node only earlier ones (`Body.InEvaluationOrder`).
Such a body can be analyzed whatever its blocks look like: no receivers run in a
circle, so every node has an action, and no recorded value can go round for ever,
because each comes to rest after the ones that it depends on.
-/
namespace JvmLint

/-- The nodes that a node refers to. -/
def NodeKind.mentions : NodeKind → List NodeId
  | .assignment target expression => [target, expression]
  | .fieldAccess receiver _ => receiver.toList
  | .arrayAccess array => [array]
  | .methodInvocation receiver arguments _ => receiver.toList ++ arguments
  | .typeCast operand _ | .instanceOf operand => [operand]
  | .equalTo left right | .notEqual left right => [left, right]
  | .ternary thenOperand elseOperand => [thenOperand, elseOperand]
  | _ => []

/-- What a node reads it refers to. -/
theorem NodeKind.reads_subset_mentions (kind : NodeKind) : kind.reads ⊆ kind.mentions := by
  cases kind with
  | assignment target expression => exact List.subset_cons_self _ _
  | typeCast operand annotations => exact List.Subset.refl _
  | equalTo left right => exact List.Subset.refl _
  | notEqual left right => exact List.Subset.refl _
  | ternary thenOperand elseOperand => exact List.Subset.refl _
  | _ => exact List.nil_subset _

namespace Body

/-- The nodes that the node with an id refers to. -/
def mentions (body : Body) (id : NodeId) : List NodeId :=
  ((body.kind? id).map NodeKind.mentions).getD []

/-- A node refers to earlier nodes only, and every block is listed upwards. -/
def InEvaluationOrder (body : Body) : Prop :=
  (∀ id < body.nodes.size, ∀ operand ∈ body.mentions id, operand < id) ∧
    ∀ block ∈ body.blocks.toList, block.nodes.Pairwise (· < ·)

instance (body : Body) : Decidable body.InEvaluationOrder :=
  inferInstanceAs (Decidable (_ ∧ _))

theorem reads_subset_mentions (body : Body) (id : NodeId) : body.reads id ⊆ body.mentions id := by
  unfold reads mentions
  cases body.kind? id with
  | none => exact List.Subset.refl _
  | some kind => exact kind.reads_subset_mentions

namespace InEvaluationOrder

variable {body : Body}

theorem lt_of_mentions (h : body.InEvaluationOrder) {id operand : NodeId}
    (hoperand : operand ∈ body.mentions id) : operand < id := by
  by_cases hid : id < body.nodes.size
  · exact h.1 id hid operand hoperand
  · simp [mentions, kind?_eq_none hid] at hoperand

theorem pathsEnd (h : body.InEvaluationOrder) : body.PathsEnd := by
  refine pathsEnd_of_receiver_lt fun id receiver field hk => h.lt_of_mentions ?_
  simp [mentions, hk, NodeKind.mentions]

theorem ordered (h : body.InEvaluationOrder) : body.Ordered id := by
  intro block hblock
  refine ⟨h.2 block hblock, fun node _ operand hoperand _ => ?_⟩
  exact h.lt_of_mentions (body.reads_subset_mentions node hoperand)

end InEvaluationOrder

end Body

/-- **Evaluation order.** Let a body pass the checks, list every node at most once,
and be in evaluation order. Then under every policy each of its nodes has an
action, and the body has a solution. -/
theorem exists_solution_of_inEvaluationOrder {body : Body} (hbody : body.graphError? = none)
    (honce : ListedOnce body.blocks) (horder : body.InEvaluationOrder) (policy : Policy) :
    (∀ node ∈ body.nodes, ∃ action, Transfer.action? policy body node = some action) ∧
      ∃ solution, body.solve policy = .ok (some solution) := by
  refine ⟨fun node _ => Transfer.exists_action? policy horder.pathsEnd node, ?_⟩
  have hv : (Graph.ofBody policy body).Valid := Graph.valid_ofBody hbody
  have hc : (Graph.ofBody policy body).Complete := Graph.complete_of_pathsEnd hbody horder.pathsEnd
  have hsteady : ∀ node, Worklist.Steady (.ofBody policy body) node :=
    Worklist.steady_of_ordered hv hc Graph.writes_ofBody Graph.within_entry_ofBody honce
      (ordered_ofBody horder.ordered)
  have hquiet := Worklist.exists_quiet_of_steady hv hc honce hsteady
  exact (exists_solution_iff hbody hc).2 ((Worklist.queue_eq_nil_iff_quiet hv hc
    Graph.writes_ofBody Graph.within_entry_ofBody).2 hquiet)

/-- A loop that follows a list to its end. -/
def listWalk : Body :=
  .ofKinds #[⟨"x", .ofClass "com.example.Cell", .parameter, none, ["Nullable"]⟩]
    #[.localVariable 0, .nullLiteral, .notEqual 0 1, .localVariable 0,
      .fieldAccess (some 3) (some ⟨"com.example.Cell", "next", .ofClass "com.example.Cell", false,
        false, false, none, []⟩), .localVariable 0, .assignment 5 4, .localVariable 0]
    #[⟨[0, 1, 2], [⟨1, .thenToBoth⟩, ⟨2, .elseToBoth⟩]⟩, ⟨[3, 4, 5, 6], [⟨0, .eachToEach⟩]⟩,
      ⟨[7], []⟩]

theorem exists_solution_listWalk :
    listWalk.graphError? = none ∧ ListedOnce listWalk.blocks ∧ listWalk.InEvaluationOrder ∧
      (∃ solution, listWalk.solve .codeOnly = .ok (some solution)) ∧
      ∃ solution, listWalk.solve .trusting = .ok (some solution) := by
  have hbody : listWalk.graphError? = none := by decide +kernel
  have honce : ListedOnce listWalk.blocks := by decide +kernel
  have horder : listWalk.InEvaluationOrder := by decide +kernel
  exact ⟨hbody, honce, horder,
    (exists_solution_of_inEvaluationOrder hbody honce horder .codeOnly).2,
    (exists_solution_of_inEvaluationOrder hbody honce horder .trusting).2⟩

end JvmLint
