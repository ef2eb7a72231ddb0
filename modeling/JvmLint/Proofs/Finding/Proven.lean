import JvmLint.Proofs.Finding.Namesakes
import JvmLint.Proofs.Finding.Questions
import JvmLint.Proofs.Nullness.Joins
import JvmLint.Proofs.Outcome
import Mathlib.Data.Nat.Find

/-!
# What the null rules report of a body

An expression may belong to several nodes, some of them never reached, and several
accesses may go through one expression. The null dereference rule asks about the
expression at the first access through it; the null check rule asks at every check.

`FoundAt` says that a list holds what is found at certain nodes, in the order of the
nodes. It is kept by going through a list (`FoundAt.filterMap`) and by dropping what
comes behind an access of the same expression (`FoundAt.firsts`). A join of recorded
values is a definite answer exactly if one of them is, and none of the others says
anything else (`Solution.treeNullness_eq_iff`). So in a unit of one body either rule
reports what the recorded values prove (`report_what_is_proven`).
-/
namespace JvmLint

/-! ## Found at nodes -/

/-- The items are those at the chosen nodes, one for each, in the order of the nodes. -/
def FoundAt {α : Type} (item? : NodeId → Option α) (chosen : NodeId → Prop) (items : List α) :
    Prop :=
  ∃ ids : List NodeId, ids.Pairwise (· < ·) ∧ (∀ id, id ∈ ids ↔ chosen id) ∧
    ids.map item? = items.map some

namespace FoundAt

variable {α β : Type} {item? : NodeId → Option α} {chosen : NodeId → Prop} {items : List α}

theorem of_array (items : Array α) : FoundAt (items[·]?) (· < items.size) items.toList := by
  refine ⟨List.range items.size, List.pairwise_lt_range, fun id => List.mem_range, ?_⟩
  apply List.ext_getElem <;> simp

theorem congr {other? : NodeId → Option α} {chosen' : NodeId → Prop}
    (h : FoundAt item? chosen items) (hchosen : ∀ id, chosen id ↔ chosen' id)
    (hitem : ∀ id, chosen id → item? id = other? id) : FoundAt other? chosen' items := by
  obtain ⟨ids, hsorted, hmem, hitems⟩ := h
  refine ⟨ids, hsorted, fun id => (hmem id).trans (hchosen id), ?_⟩
  rw [← hitems]
  exact List.map_congr_left fun id hid => (hitem id ((hmem id).1 hid)).symm

theorem exists_item (h : FoundAt item? chosen items) {id : NodeId} (hid : chosen id) :
    ∃ item, item? id = some item := by
  obtain ⟨ids, -, hmem, hitems⟩ := h
  have hmap := List.mem_map_of_mem (f := item?) ((hmem id).2 hid)
  rw [hitems] at hmap
  obtain ⟨item, -, hitem⟩ := List.mem_map.1 hmap
  exact ⟨item, hitem.symm⟩

theorem cons (h : FoundAt item? chosen items) {id : NodeId} {item : α} (hid : item? id = some item)
    (hlt : ∀ other, chosen other → id < other) :
    FoundAt item? (fun other => other = id ∨ chosen other) (item :: items) := by
  obtain ⟨ids, hsorted, hmem, hitems⟩ := h
  refine ⟨id :: ids, List.pairwise_cons.2 ⟨fun other hother => hlt other ((hmem other).1 hother),
    hsorted⟩, fun other => ?_, ?_⟩
  · rw [List.mem_cons, hmem]
  · rw [List.map_cons, List.map_cons, hid, hitems]

theorem map_filter_isSome {ids : List NodeId} (g : α → Option β)
    (hitems : ids.map item? = items.map some) :
    (ids.filter fun id => ((item? id).bind g).isSome).map (fun id => (item? id).bind g) =
      (items.filterMap g).map some := by
  induction ids generalizing items with
  | nil =>
    cases items with
    | nil => rfl
    | cons item rest => cases hitems
  | cons id ids ih =>
    cases items with
    | nil => cases hitems
    | cons item rest =>
      rw [List.map_cons, List.map_cons, List.cons.injEq] at hitems
      cases hg : g item with
      | none => simp [hitems.1, hg, ih hitems.2]
      | some b => simp [hitems.1, hg, ih hitems.2]

theorem filterMap (h : FoundAt item? chosen items) (g : α → Option β) :
    FoundAt (fun id => (item? id).bind g) (fun id => chosen id ∧ ((item? id).bind g).isSome)
      (items.filterMap g) := by
  obtain ⟨ids, hsorted, hmem, hitems⟩ := h
  refine ⟨ids.filter fun id => ((item? id).bind g).isSome, hsorted.filter _, fun id => ?_,
    map_filter_isSome g hitems⟩
  rw [List.mem_filter, hmem]

theorem of_array_filterMap (items : Array α) (g : α → Option β) :
    FoundAt (fun id => items[id]?.bind g) (fun id => (items[id]?.bind g).isSome)
      (items.toList.filterMap g) := by
  refine ((of_array items).filterMap g).congr (fun id => ?_) fun _ _ => rfl
  refine and_iff_right_of_imp fun hsome => ?_
  by_contra hlt
  simp [Array.getElem?_eq_none (Nat.le_of_not_lt hlt)] at hsome

theorem filter (h : FoundAt item? chosen items) (p : α → Bool) :
    FoundAt item? (fun id => chosen id ∧ (item? id).any p) (items.filter p) := by
  have hguard := h.filterMap (Option.guard p)
  rw [List.filterMap_eq_filter] at hguard
  refine hguard.congr (fun id => ?_) fun id hid => ?_
  · cases item? id <;> simp [Option.guard_eq_ite]
  · obtain ⟨item, hitem⟩ := h.exists_item hid.1
    have hp := hid.2
    rw [hitem] at hp ⊢
    simpa [Option.guard_eq_ite] using hp

theorem map (h : FoundAt item? chosen items) (f : α → β) :
    FoundAt (fun id => (item? id).map f) chosen (items.map f) := by
  have hmap := h.filterMap (some ∘ f)
  rw [List.filterMap_eq_map] at hmap
  refine hmap.congr (fun id => ?_) fun id _ => ?_
  · refine ⟨And.left, fun hid => ⟨hid, ?_⟩⟩
    obtain ⟨item, hitem⟩ := h.exists_item hid
    rw [hitem]
    rfl
  · cases item? id <;> rfl

end FoundAt

/-- Dropping what comes behind an access of the same expression leaves the first access
of each. -/
theorem FoundAt.firsts {access? : NodeId → Option Dereference} {chosen : NodeId → Prop}
    {accesses : List Dereference} (h : FoundAt access? chosen accesses) :
    FoundAt access?
      (fun id => chosen id ∧ ∀ earlier < id, chosen earlier →
        (access? earlier).map Dereference.tree ≠ (access? id).map Dereference.tree)
      (Dereference.firsts accesses) := by
  obtain ⟨ids, hsorted, hmem, haccesses⟩ := h
  induction ids generalizing chosen accesses with
  | nil =>
    cases accesses with
    | nil => exact ⟨[], .nil, by simpa using fun id hid => absurd ((hmem id).2 hid) (by simp), rfl⟩
    | cons access rest => cases haccesses
  | cons first ids ih =>
    cases accesses with
    | nil => cases haccesses
    | cons access rest =>
      rw [List.map_cons, List.map_cons, List.cons.injEq] at haccesses
      rw [List.pairwise_cons] at hsorted
      have hlater := (ih hsorted.2 (fun _ => Iff.rfl) haccesses.2).filter (·.tree ≠ access.tree)
      have hall := hlater.cons haccesses.1 fun other hother => hsorted.1 other hother.1.1
      refine hall.congr (fun id => ?_) fun _ _ => rfl
      -- Nothing comes before the first access, and it comes before all others.
      simp only [← hmem, List.mem_cons]
      constructor
      · rintro (rfl | ⟨⟨hid, hearlier⟩, hne⟩)
        · refine ⟨Or.inl rfl, ?_⟩
          rintro earlier hlt (rfl | hids)
          · exact absurd hlt (Nat.lt_irrefl earlier)
          · exact absurd hlt (Nat.lt_asymm (hsorted.1 earlier hids))
        · refine ⟨Or.inr hid, ?_⟩
          rintro earlier hlt (rfl | hids)
          · obtain ⟨item, hitem, htree⟩ := (Option.any_eq_true _ _).1 hne
            rw [haccesses.1, hitem]
            exact fun heq => of_decide_eq_true htree (Option.some.inj heq).symm
          · exact hearlier earlier hlt hids
      · rintro ⟨rfl | hid, hearlier⟩
        · exact Or.inl rfl
        · have hne := hearlier first (hsorted.1 id hid) (Or.inl rfl)
          refine Or.inr ⟨⟨hid, fun earlier hlt hids => hearlier earlier hlt (Or.inr hids)⟩, ?_⟩
          obtain ⟨item, hitem⟩ :=
            (show FoundAt access? (· ∈ ids) rest from
              ⟨ids, hsorted.2, fun _ => Iff.rfl, haccesses.2⟩).exists_item hid
          rw [haccesses.1, hitem] at hne
          rw [hitem]
          exact decide_eq_true fun heq => hne (congrArg some heq.symm)

/-! ## Accesses and checks -/

namespace Body

/-- The expression through which a node gets at a known member. -/
def accessedTree? (body : Body) (id : NodeId) : Option TreeId :=
  match body.kind? id with
  | some (.methodInvocation (some receiver) _ (some _))
  | some (.fieldAccess (some receiver) (some _)) => body.tree? receiver
  | _ => none

/-- The node is the first that gets at a member through the expression. -/
def FirstAccess (body : Body) (id : NodeId) (tree : TreeId) : Prop :=
  body.accessedTree? id = some tree ∧ ∀ earlier < id, body.accessedTree? earlier ≠ some tree

def isNullLiteral (body : Body) (id : NodeId) : Bool :=
  body.kind? id = some .nullLiteral

/-- The expression that a node compares with null: that of its other operand, if exactly
one of the two is the null literal. -/
def checkedTree? (body : Body) (id : NodeId) : Option TreeId :=
  match body.kind? id with
  | some (.equalTo left right) | some (.notEqual left right) =>
    if body.isNullLiteral left = body.isNullLiteral right then none
    else body.tree? (if body.isNullLiteral left then right else left)
  | _ => none

/-- The access that the node with an id makes. -/
def access? (body : Body) (id : NodeId) : Option Dereference :=
  body.nodes[id]?.bind (Dereference.ofNode? body)

/-- The null check that the node with an id makes. -/
def check? (body : Body) (id : NodeId) : Option NullCheck :=
  body.nodes[id]?.bind (NullCheck.ofNode? body)

variable {body : Body} {id : NodeId} {tree : TreeId}

theorem map_tree_access? (body : Body) (id : NodeId) :
    (body.access? id).map Dereference.tree = body.accessedTree? id := by
  unfold access? accessedTree? kind?
  cases body.nodes[id]? with
  | none => rfl
  | some node =>
    obtain ⟨kind, type, tree, line⟩ := node
    cases kind with
    | methodInvocation receiver arguments method =>
      cases receiver <;> cases method <;> simp [Dereference.ofNode?, Function.comp_def]
    | fieldAccess receiver field =>
      cases receiver <;> cases field <;> simp [Dereference.ofNode?, Function.comp_def]
    | _ => rfl

theorem map_tree_check? (body : Body) (id : NodeId) :
    (body.check? id).map NullCheck.tree = body.checkedTree? id := by
  unfold check? checkedTree? kind?
  cases body.nodes[id]? with
  | none => rfl
  | some node =>
    obtain ⟨kind, type, tree, line⟩ := node
    have hoperand : ∀ left right, (((NullCheck.operand? body left right).bind fun operand =>
        (body.tree? operand).bind fun tree => some (⟨tree, operand, line⟩ : NullCheck)).map
          NullCheck.tree) =
        if body.isNullLiteral left = body.isNullLiteral right then none
        else body.tree? (if body.isNullLiteral left then right else left) := by
      intro left right
      unfold NullCheck.operand? isNullLiteral
      by_cases hleft : body.kind? left = some .nullLiteral <;>
        by_cases hright : body.kind? right = some .nullLiteral <;>
        simp [hleft, hright, Option.map_bind]
    cases kind with
    | equalTo left right => exact hoperand left right
    | notEqual left right => exact hoperand left right
    | _ => rfl

/-- Of the accesses of an expression one is the first. -/
theorem existsUnique_firstAccess (h : body.accessedTree? id = some tree) :
    ∃! first, body.FirstAccess first tree := by
  have hex : ∃ id, body.accessedTree? id = some tree := ⟨id, h⟩
  exact ⟨Nat.find hex, ⟨Nat.find_spec hex, fun _ => Nat.find_min hex⟩, fun other hother =>
    ((Nat.find_eq_iff hex).2 hother).symm⟩

theorem foundAt_accesses (body : Body) :
    FoundAt body.access? (fun id => ∃ tree, body.accessedTree? id = some tree)
      (body.nodes.toList.filterMap (Dereference.ofNode? body)) := by
  refine (FoundAt.of_array_filterMap body.nodes _).congr (fun id => ?_) fun _ _ => rfl
  rw [← map_tree_access?, ← Option.isSome_iff_exists, Option.isSome_map]
  rfl

theorem foundAt_checks (body : Body) :
    FoundAt body.check? (fun id => ∃ tree, body.checkedTree? id = some tree)
      (body.nodes.toList.filterMap (NullCheck.ofNode? body)) := by
  refine (FoundAt.of_array_filterMap body.nodes _).congr (fun id => ?_) fun _ _ => rfl
  rw [← map_tree_check?, ← Option.isSome_iff_exists, Option.isSome_map]
  rfl

theorem foundAt_dereferences (body : Body) :
    FoundAt body.access? (fun id => ∃ tree, body.FirstAccess id tree) body.dereferences := by
  refine body.foundAt_accesses.firsts.congr (fun id => ?_) fun _ _ => rfl
  simp only [map_tree_access?]
  constructor
  · rintro ⟨⟨tree, htree⟩, hearlier⟩
    refine ⟨tree, htree, fun earlier hlt hsame => ?_⟩
    exact hearlier earlier hlt ⟨tree, hsame⟩ (hsame.trans htree.symm)
  · rintro ⟨tree, htree, hearlier⟩
    exact ⟨⟨tree, htree⟩, fun earlier hlt _ hsame => hearlier earlier hlt (hsame.trans htree)⟩

end Body

/-! ## Answers -/

namespace Nullness

theorem foldl_join_le_iff {values : List Nullness} {start bound : Nullness} :
    values.foldl join start ≤ bound ↔ start ≤ bound ∧ ∀ value ∈ values, value ≤ bound := by
  induction values generalizing start with
  | nil => simp
  | cons value rest ih =>
    have hjoin : start.join value ≤ bound ↔ start ≤ bound ∧ value ≤ bound :=
      ⟨fun h => ⟨(le_join_left _ _).trans h, (le_join_right _ _).trans h⟩, fun h => join_le h.1 h.2⟩
    rw [List.foldl_cons, ih, hjoin, List.forall_mem_cons, and_assoc]

/-- A join is a definite value exactly if that is one of the values and all others say
the same or exclude every value. -/
theorem foldl_join_eq_iff {values : List Nullness} {definite : Nullness}
    (hbottom : definite ≠ .bottom) (hnullable : definite ≠ .nullable) :
    values.foldl join .bottom = definite ↔
      definite ∈ values ∧ ∀ value ∈ values, value = definite ∨ value = .bottom := by
  have hbelow : ∀ value, value ≤ definite ↔ value = definite ∨ value = .bottom := fun value => by
    rw [le_iff, or_iff_left hnullable, or_comm]
  constructor
  · intro heq
    have hall : ∀ value ∈ values, value = definite ∨ value = .bottom := fun value hvalue =>
      (hbelow value).1 ((foldl_join_le_iff.1 heq.le).2 value hvalue)
    refine ⟨by_contra fun hmem => ?_, hall⟩
    have hle : values.foldl join .bottom ≤ .bottom :=
      foldl_join_le_iff.2 ⟨le_refl _, fun value hvalue =>
        ((hall value hvalue).resolve_left fun h => hmem (h ▸ hvalue)).le⟩
    rw [heq] at hle
    exact hbottom (le_antisymm hle rfl)
  · rintro ⟨hmem, hall⟩
    refine le_antisymm (foldl_join_le_iff.2 ⟨rfl, fun value hvalue => ?_⟩) ?_
    · exact (hbelow value).2 (hall value hvalue)
    · exact (foldl_join_le_iff.1 (le_refl _)).2 definite hmem

end Nullness

/-- The recorded values prove that the expression has this nullness: one of its nodes has
it, and all others that have a value have the same or none that is possible. -/
def Solution.Proves (solution : Solution) (body : Body) (nullness : Nullness) (tree : TreeId) :
    Prop :=
  (∃ id, body.tree? id = some tree ∧ solution.values.get? id = some nullness) ∧
    ∀ id value, body.tree? id = some tree → solution.values.get? id = some value →
      value = nullness ∨ value = .bottom

theorem Body.mem_nodesOfTree {body : Body} {id : NodeId} {tree : TreeId} :
    id ∈ body.nodesOfTree tree ↔ body.tree? id = some tree := by
  simp only [nodesOfTree, List.mem_filter, List.mem_range, beq_iff_eq, and_iff_right_iff_imp]
  intro htree
  obtain ⟨node, hnode, -⟩ := Option.bind_eq_some_iff.1 htree
  exact (Array.getElem?_eq_some_iff.1 hnode).1

theorem Solution.treeNullness_eq_iff {solution : Solution} {body : Body} {nullness : Nullness}
    {tree : TreeId} (hbottom : nullness ≠ .bottom) (hnullable : nullness ≠ .nullable) :
    solution.treeNullness body tree = nullness ↔ solution.Proves body nullness tree := by
  rw [treeNullness, Nullness.foldl_join_eq_iff hbottom hnullable]
  simp only [List.mem_filterMap, Body.mem_nodesOfTree, Proves]
  refine and_congr_right fun _ => ⟨fun h id value htree hvalue => h value ⟨id, htree, hvalue⟩, ?_⟩
  rintro h value ⟨id, htree, hvalue⟩
  exact h id value htree hvalue

/-! ## Reports -/

/-- Items that each belong to an expression, less those of which nothing is proven. -/
theorem FoundAt.proven {α : Type} {item? : NodeId → Option α} {tree : α → TreeId}
    {At : NodeId → TreeId → Prop} {items : List α} (h : FoundAt item? (fun id => ∃ t, At id t) items)
    (hat : ∀ id t, At id t → (item? id).map tree = some t) {solution : Solution} {body : Body}
    {nullness : Nullness} (hbottom : nullness ≠ .bottom) (hnullable : nullness ≠ .nullable)
    (finding : α → Finding) :
    FoundAt (fun id => (item? id).map finding)
      (fun id => ∃ t, At id t ∧ solution.Proves body nullness t)
      ((items.filter fun item => solution.treeNullness body (tree item) = nullness).map finding) := by
  refine ((h.filter _).map finding).congr (fun id => ?_) fun _ _ => rfl
  rw [← exists_and_right]
  refine exists_congr fun t => and_congr_right fun ht => ?_
  obtain ⟨item, hitem, rfl⟩ := Option.map_eq_some_iff.1 (hat id t ht)
  rw [hitem, Option.any_some, decide_eq_true_iff]
  exact Solution.treeNullness_eq_iff hbottom hnullable

namespace Body

/-- What is reported of the access that a node makes. -/
def accessFinding? (unit : SourceUnit) (body : Body) (id : NodeId) : Option Finding :=
  (body.access? id).map (Dereference.finding unit body)

/-- What is reported of the null check that a node makes. -/
def checkFinding? (unit : SourceUnit) (body : Body) (id : NodeId) : Option Finding :=
  (body.check? id).map (NullCheck.finding unit body)

theorem foundAt_nullDereferenceFindings (unit : SourceUnit) (body : Body) (solution : Solution) :
    FoundAt (body.accessFinding? unit)
      (fun id => ∃ tree, body.FirstAccess id tree ∧ solution.Proves body .null tree)
      (body.nullDereferenceFindings unit solution) :=
  body.foundAt_dereferences.proven (fun id tree hfirst => (map_tree_access? body id).trans hfirst.1)
    (by decide) (by decide) _

theorem foundAt_redundantCheckFindings (unit : SourceUnit) (body : Body) (solution : Solution) :
    FoundAt (body.checkFinding? unit)
      (fun id => ∃ tree, body.checkedTree? id = some tree ∧ solution.Proves body .nonNull tree)
      (body.redundantCheckFindings unit solution) :=
  body.foundAt_checks.proven (fun id tree htree => (map_tree_check? body id).trans htree)
    (by decide) (by decide) _

end Body

/-! ## Units of one body -/

theorem SourceUnit.solvedFindings_of_solve {check : Body → Solution → List Finding}
    {policy : Policy} {body : Body} {solution : Solution}
    (h : body.solve policy = .ok (some solution)) :
    solvedFindings check (.start policy) [body] = some (check body solution) := by
  simp [solvedFindings, Session.analyze, Session.start, h]

/-- **What is proven is reported.** In a unit of one body that is solved, the null
dereference rule reports the first access through each expression which the recorded
values prove to be null, and every expression that is accessed has one first access; and
the null check rule reports every check of an expression which they prove not to be null.
Both report in the order of the nodes, and nothing else. -/
theorem report_what_is_proven {unit : SourceUnit} {body : Body} (hbodies : unit.bodies = [body]) :
    (∀ solution, body.solve .codeOnly = .ok (some solution) →
      ∃ findings, unit.runNullDereference = .ok findings ∧
        FoundAt (body.accessFinding? unit)
          (fun id => ∃ tree, body.FirstAccess id tree ∧ solution.Proves body .null tree)
          findings) ∧
    (∀ id tree, body.accessedTree? id = some tree → ∃! first, body.FirstAccess first tree) ∧
    ∀ solution, body.solve .trusting = .ok (some solution) →
      ∃ findings, unit.runRedundantCheck = .ok findings ∧
        FoundAt (body.checkFinding? unit)
          (fun id => ∃ tree, body.checkedTree? id = some tree ∧
            solution.Proves body .nonNull tree) findings := by
  refine ⟨fun solution hsolve => ?_, fun id tree => Body.existsUnique_firstAccess,
    fun solution hsolve => ?_⟩
  · refine ⟨_, eq_ok_of_toOption ?_, body.foundAt_nullDereferenceFindings unit solution⟩
    rw [SourceUnit.toOption_runNullDereference, SourceUnit.nullDereferenceFindings, hbodies,
      SourceUnit.solvedFindings_of_solve hsolve]
  · refine ⟨_, eq_ok_of_toOption ?_, body.foundAt_redundantCheckFindings unit solution⟩
    rw [SourceUnit.toOption_runRedundantCheck, SourceUnit.redundantCheckFindings, hbodies,
      SourceUnit.solvedFindings_of_solve hsolve]

/-- Two accesses through `null`, an expression that also has a node which is never
reached, and a comparison of a literal with `null`. -/
def sharedTree : Body where
  name := "m"
  line := none
  locals := #[]
  nodes := #[⟨.nullLiteral, none, some 0, none⟩,
    ⟨.methodInvocation (some 0) [] (some lengthMethod), none, some 1, some 3⟩,
    ⟨.methodInvocation (some 0) [] (some lengthMethod), none, some 2, some 4⟩,
    ⟨.valueLiteral, none, some 0, none⟩, ⟨.valueLiteral, none, some 4, none⟩,
    ⟨.notEqual 4 0, none, some 5, some 6⟩]
  blocks := #[⟨[0, 1, 2, 4, 5], []⟩]

def sharedTreeUnit : SourceUnit := ⟨"A.java", [], [sharedTree], [], []⟩

def sharedTreeSolution : Solution :=
  ⟨⟨#[some .null, some .nonNull, some .nonNull, none, some .nonNull, some .nonNull]⟩, 1⟩

theorem report_what_is_proven_shared :
    sharedTreeUnit.bodies = [sharedTree] ∧
      sharedTree.solve .codeOnly = .ok (some sharedTreeSolution) ∧
      sharedTree.solve .trusting = .ok (some sharedTreeSolution) ∧
      (∃ findings, sharedTreeUnit.runNullDereference = .ok findings ∧
        FoundAt (sharedTree.accessFinding? sharedTreeUnit)
          (fun id => ∃ tree, sharedTree.FirstAccess id tree ∧
            sharedTreeSolution.Proves sharedTree .null tree) findings) ∧
      (∃! first, sharedTree.FirstAccess first 0) ∧
      ∃ findings, sharedTreeUnit.runRedundantCheck = .ok findings ∧
        FoundAt (sharedTree.checkFinding? sharedTreeUnit)
          (fun id => ∃ tree, sharedTree.checkedTree? id = some tree ∧
            sharedTreeSolution.Proves sharedTree .nonNull tree) findings := by
  have hcode : sharedTree.solve .codeOnly = .ok (some sharedTreeSolution) := by decide +kernel
  have htrusting : sharedTree.solve .trusting = .ok (some sharedTreeSolution) := by
    decide +kernel
  have h := @report_what_is_proven sharedTreeUnit sharedTree rfl
  exact ⟨rfl, hcode, htrusting, h.1 _ hcode, h.2.1 1 0 (by decide +kernel), h.2.2 _ htrusting⟩

end JvmLint
