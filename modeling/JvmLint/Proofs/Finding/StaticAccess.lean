import JvmLint.Proofs.Finding.Proven
import JvmLint.Proofs.Nullness.Transfer
import Mathlib.Data.List.Forall2

/-!
# Accesses to static members

To get at a static member through an expression does not dereference the expression. The
analysis goes by that: behind an access to another member it takes the receiver not to be
null (`takesNonNull_of_instance`), and for a static member it does not look at the
receiver at all (`ignoresReceiver_of_static`).

The null dereference rule goes by the receiver only. Whatever it reports is the first
access through an expression that is always null, and it is a dereference unless that
first access is to a static member (`reports_dereferences_iff`).
-/
namespace JvmLint

/-! ## What the analysis makes of a receiver -/

namespace NodeKind

/-- The receiver through which a node gets at a known member, and whether the member is
static. -/
def memberAccess? : NodeKind → Option (NodeId × Bool)
  | methodInvocation (some receiver) _ (some method) => some (receiver, method.isStatic)
  | fieldAccess (some receiver) (some field) => some (receiver, field.isStatic)
  | _ => none

/-- The same access by name only. -/
def withoutReceiver : NodeKind → NodeKind
  | methodInvocation _ arguments method => methodInvocation none arguments method
  | fieldAccess _ field => fieldAccess none field
  | kind => kind

end NodeKind

/-- On every side that is reached, the path is known not to be null. -/
def Flow.SaysNonNull (flow : Flow) (path : AccessPath) : Prop :=
  (∀ store ∈ flow.thenSide, store.get? path = some .nonNull) ∧
    ∀ store ∈ flow.elseSide, store.get? path = some .nonNull

namespace Effect

variable {batch : List Refinement} {path : AccessPath}

/-- A batch that is written last decides about its paths. -/
theorem get?_update_of_nonNull (hpath : path ∈ batch.map Prod.fst)
    (hbatch : ∀ r ∈ batch, r.2 = .known .nonNull) (before : List Refinement)
    (target store : Store) (values : NodeValues) :
    (target.update (updates store values (before ++ batch))).get? path = some .nonNull := by
  rw [← map_fst_updates store values] at hpath
  obtain ⟨value, hmem, hget⟩ := Store.get?_update_of_mem hpath
  obtain ⟨⟨other, source⟩, hr, heq⟩ := List.mem_map.1 hmem
  have hsource : source = .known .nonNull := hbatch _ hr
  subst hsource
  cases heq
  rw [updates, List.map_append, Store.update_append]
  exact hget _

theorem saysNonNull_regular (hpath : path ∈ batch.map Prod.fst)
    (hbatch : ∀ r ∈ batch, r.2 = .known .nonNull) (store : Store) (input : Flow)
    (values : NodeValues) : ((regular batch).apply store input values).SaysNonNull path := by
  have h := get?_update_of_nonNull hpath hbatch [] store store values
  constructor
  · rintro side ⟨⟩
    exact h
  · rintro side ⟨⟩
    exact h

theorem saysNonNull_branch (hpath : path ∈ batch.map Prod.fst)
    (hbatch : ∀ r ∈ batch, r.2 = .known .nonNull) (onThen onElse : List Refinement)
    (store : Store) (input : Flow) (values : NodeValues) :
    ((branch (onThen ++ batch) (onElse ++ batch)).apply store input values).SaysNonNull path := by
  constructor
  · intro side hside
    obtain ⟨target, -, rfl⟩ := Option.map_eq_some_iff.1 hside
    exact get?_update_of_nonNull hpath hbatch onThen target store values
  · intro side hside
    obtain ⟨target, -, rfl⟩ := Option.map_eq_some_iff.1 hside
    exact get?_update_of_nonNull hpath hbatch onElse target store values

end Effect

namespace Transfer

variable {node : Node} {receiver : NodeId}

/-- Behind the node, what the receiver names is taken not to be null, whichever way
control goes on. -/
def TakesNonNull (policy : Policy) (body : Body) (node : Node) (receiver : NodeId) : Prop :=
  ∀ action path, action? policy body node = some action →
    body.path receiver = some (some path) →
      ∀ input values, (action.run input values).2.SaysNonNull path

theorem refineReceiver_of_path {body : Body} {path : AccessPath}
    (hpath : body.path receiver = some (some path)) :
    refineReceiver body false (some receiver) = some [(path, .known .nonNull)] := by
  simp [refineReceiver, refineNonNull, refine, hpath]

theorem saysNonNull_callEffect (path : AccessPath) (body : Body) (arguments : List NodeId)
    (method : Method) (store : Store) (input : Flow) (values : NodeValues) :
    ((callEffect body arguments method [(path, .known .nonNull)]).apply store input
      values).SaysNonNull path := by
  -- What the call requires of its arguments is written behind, and is not null either.
  have hbatch : ∀ r ∈ [(path, Source.known .nonNull)] ++
      marks body arguments method Library.requiredNonNull .nonNull, r.2 = .known .nonNull := by
    intro r hr
    rcases List.mem_cons.1 hr with rfl | hr
    · rfl
    · obtain ⟨argument, id, -, rfl, -⟩ := mem_of_marks hr
      rfl
  unfold callEffect
  split
  · exact Effect.saysNonNull_branch List.mem_cons_self hbatch _ _ store input values
  · exact Effect.saysNonNull_regular List.mem_cons_self hbatch store input values

/-- Behind an access to a member that is not static the receiver is taken not to be
null. -/
theorem takesNonNull_of_instance (h : node.kind.memberAccess? = some (receiver, false))
    (policy : Policy) (body : Body) : TakesNonNull policy body node receiver := by
  intro action path haction hpath input values
  have hrefine := refineReceiver_of_path hpath
  unfold action? at haction
  unfold NodeKind.memberAccess? at h
  split at h
  · rename_i base arguments method hkind
    obtain ⟨rfl, hstatic⟩ := Prod.mk.inj (Option.some.inj h)
    simp only [hkind, callAction, hstatic, hrefine, Option.map_some, Option.some.injEq] at haction
    subst haction
    exact saysNonNull_callEffect path body arguments method _ input values
  · rename_i base field hkind
    obtain ⟨rfl, hstatic⟩ := Prod.mk.inj (Option.some.inj h)
    simp only [hkind, Option.any_some, hstatic, hrefine, Option.bind_eq_bind,
      Option.bind_some, Option.bind_eq_some_iff, Option.some.injEq] at haction
    obtain ⟨own, -, rfl⟩ := haction
    exact Effect.saysNonNull_regular List.mem_cons_self (by simp) _ input values
  · cases h

/-- The node does what it does without a receiver. -/
def IgnoresReceiver (policy : Policy) (body : Body) (node : Node) : Prop :=
  action? policy body node = action? policy body { node with kind := node.kind.withoutReceiver }

/-- For a static member it does not matter what the receiver is. -/
theorem ignoresReceiver_of_static (h : node.kind.memberAccess? = some (receiver, true))
    (policy : Policy) (body : Body) : IgnoresReceiver policy body node := by
  obtain ⟨kind, type, tree, line⟩ := node
  unfold NodeKind.memberAccess? at h
  split at h
  · rename_i base arguments method hkind
    cases hkind
    obtain ⟨rfl, hstatic⟩ := Prod.mk.inj (Option.some.inj h)
    simp [IgnoresReceiver, action?, NodeKind.withoutReceiver, callAction, hstatic, refineReceiver]
  · rename_i base field hkind
    cases hkind
    obtain ⟨rfl, hstatic⟩ := Prod.mk.inj (Option.some.inj h)
    simp [IgnoresReceiver, action?, NodeKind.withoutReceiver, hstatic, refineReceiver,
      Body.pathOfKind]
  · cases h

end Transfer

/-! ## Judged bodies -/

/-- A body with the values that it is judged by. -/
structure Judgement where
  body : Body
  solution : Solution

namespace SourceUnit

/-- The bodies that are judged, one by one in one session. -/
def judgements : Session → List Body → Option (List Judgement)
  | _, [] => some []
  | session, body :: rest =>
    match session.analyze body with
    | .error .endless => none
    | .error (.graph _) => judgements session rest
    | .ok (solution, session) => (judgements session rest).map (⟨body, solution⟩ :: ·)

theorem solvedFindings_eq (check : Body → Solution → List Finding) (session : Session)
    (bodies : List Body) : solvedFindings check session bodies =
      (judgements session bodies).map (·.flatMap fun judged => check judged.body judged.solution) := by
  induction bodies generalizing session with
  | nil => rfl
  | cons body rest ih =>
    unfold solvedFindings judgements
    cases session.analyze body with
    | error error =>
      cases error with
      | endless => rfl
      | graph error => exact ih session
    | ok answer =>
      simp only [ih answer.2, Option.map_map]
      rfl

end SourceUnit

/-! ## Dereferences -/

namespace Body

/-- The receiver through which the node with an id gets at a known member, and whether
the member is static. -/
def memberAccess? (body : Body) (id : NodeId) : Option (NodeId × Bool) :=
  (body.kind? id).bind NodeKind.memberAccess?

/-- The node gets at a member that is not static. -/
def Dereferences (body : Body) (id : NodeId) : Prop :=
  ∃ receiver, body.memberAccess? id = some (receiver, false)

/-- The node gets at a static member through an expression. -/
def AccessesStatic (body : Body) (id : NodeId) : Prop :=
  ∃ receiver, body.memberAccess? id = some (receiver, true)

variable {body : Body} {id : NodeId} {tree : TreeId}

theorem accessedTree?_eq (body : Body) (id : NodeId) :
    body.accessedTree? id = (body.memberAccess? id).bind fun access => body.tree? access.1 := by
  unfold accessedTree? memberAccess?
  cases body.kind? id with
  | none => rfl
  | some kind =>
    cases kind with
    | methodInvocation receiver arguments method => cases receiver <;> cases method <;> rfl
    | fieldAccess receiver field => cases receiver <;> cases field <;> rfl
    | _ => rfl

theorem FirstAccess.exists_memberAccess? (h : body.FirstAccess id tree) :
    ∃ receiver isStatic, body.memberAccess? id = some (receiver, isStatic) := by
  obtain ⟨⟨receiver, isStatic⟩, haccess, -⟩ :=
    Option.bind_eq_some_iff.1 ((accessedTree?_eq body id).symm.trans h.1)
  exact ⟨receiver, isStatic, haccess⟩

theorem exists_node_of_memberAccess? {receiver : NodeId} {isStatic : Bool}
    (h : body.memberAccess? id = some (receiver, isStatic)) :
    ∃ node, body.nodes[id]? = some node ∧
      node.kind.memberAccess? = some (receiver, isStatic) := by
  obtain ⟨kind, hkind, haccess⟩ := Option.bind_eq_some_iff.1 h
  obtain ⟨node, hnode, rfl⟩ := Option.map_eq_some_iff.1 hkind
  exact ⟨node, hnode, haccess⟩

theorem FirstAccess.dereferences_iff (h : body.FirstAccess id tree) :
    body.Dereferences id ↔ ¬ body.AccessesStatic id := by
  obtain ⟨receiver, isStatic, haccess⟩ := h.exists_memberAccess?
  simp only [Dereferences, AccessesStatic, haccess, Option.some.injEq, Prod.mk.injEq]
  cases isStatic <;> simp

end Body

namespace Judgement

/-- The node is the first access through an expression that the values prove to be
null. -/
def Reports (judged : Judgement) (id : NodeId) : Prop :=
  ∃ tree, judged.body.FirstAccess id tree ∧ judged.solution.Proves judged.body .null tree

/-- What the analysis makes of an access: it dereferences the receiver, which is taken not
to be null behind it, or it is to a static member, and the receiver does not matter. -/
def ToldApart (judged : Judgement) (id : NodeId) : Prop :=
  ∃ node receiver, judged.body.nodes[id]? = some node ∧
    (judged.body.memberAccess? id = some (receiver, false) ∧
        (∀ policy, Transfer.TakesNonNull policy judged.body node receiver) ∨
      judged.body.memberAccess? id = some (receiver, true) ∧
        ∀ policy, Transfer.IgnoresReceiver policy judged.body node)

theorem Reports.toldApart {judged : Judgement} {id : NodeId} (h : judged.Reports id) :
    judged.ToldApart id := by
  obtain ⟨tree, hfirst, -⟩ := h
  obtain ⟨receiver, isStatic, haccess⟩ := hfirst.exists_memberAccess?
  obtain ⟨node, hnode, hmember⟩ := Body.exists_node_of_memberAccess? haccess
  refine ⟨node, receiver, hnode, ?_⟩
  cases isStatic with
  | false =>
    exact Or.inl ⟨haccess, fun policy => Transfer.takesNonNull_of_instance hmember policy _⟩
  | true =>
    exact Or.inr ⟨haccess, fun policy => Transfer.ignoresReceiver_of_static hmember policy _⟩

end Judgement

/-- **What is reported as a null dereference.** Body by body, the first access through
each expression that is proven to be null is reported, and nothing else. Each of these
either dereferences its receiver or is to a static member, as the analysis has it; and all
of them are dereferences exactly if through no expression proven to be null the first
access is to a static member. -/
theorem reports_dereferences_iff {unit : SourceUnit} {findings : List Finding}
    (h : unit.runNullDereference = .ok findings) :
    ∃ judgements found,
      SourceUnit.judgements (.start .codeOnly) unit.bodies = some judgements ∧
      findings = found.flatten ∧
      List.Forall₂ (fun judged => FoundAt (judged.body.accessFinding? unit) judged.Reports)
        judgements found ∧
      (∀ judged ∈ judgements, ∀ id, judged.Reports id → judged.ToldApart id) ∧
      ((∀ judged ∈ judgements, ∀ id, judged.Reports id → judged.body.Dereferences id) ↔
        ∀ judged ∈ judgements, ∀ id tree, judged.body.FirstAccess id tree →
          judged.solution.Proves judged.body .null tree → ¬ judged.body.AccessesStatic id) := by
  have hfound := unit.toOption_runNullDereference
  rw [h, SourceUnit.nullDereferenceFindings, SourceUnit.solvedFindings_eq] at hfound
  obtain ⟨judgements, hjudgements, hfindings⟩ := Option.map_eq_some_iff.1 hfound.symm
  refine ⟨judgements, judgements.map fun judged =>
    judged.body.nullDereferenceFindings unit judged.solution, hjudgements,
    hfindings.symm.trans List.flatMap_def, ?_,
    fun judged _ id hreports => hreports.toldApart, ?_, ?_⟩
  · rw [List.forall₂_map_right_iff, List.forall₂_same]
    exact fun judged _ => judged.body.foundAt_nullDereferenceFindings unit judged.solution
  · intro hall judged hmem id tree hfirst hproves
    exact hfirst.dereferences_iff.1 (hall judged hmem id ⟨tree, hfirst, hproves⟩)
  · rintro hnone judged hmem id ⟨tree, hfirst, hproves⟩
    exact hfirst.dereferences_iff.2 (hnone judged hmem id tree hfirst hproves)

/-- A static call through `null`; and a static field that is read through another `null`,
before a call through the same. -/
def staticAccesses : Body :=
  .straight "m" #[]
    #[.nullLiteral,
      .methodInvocation (some 0) []
        (some ⟨"java.lang.Thread", "yield", "()V", true, false, [], []⟩),
      .nullLiteral,
      .fieldAccess (some 2) (some ⟨"com.example.Holder", "shared",
        .ofClass "java.lang.String", true, false, false, none, []⟩),
      .methodInvocation (some 2) [] (some lengthMethod)]

def staticAccessUnit : SourceUnit := ⟨"A.java", [], [staticAccesses], [], []⟩

def staticAccessFindings : List Finding :=
  [.atNode .nullDereference staticAccessUnit staticAccesses none
      "Null dereference: the null literal is always null when calling java.lang.Thread.yield() in m",
    .atNode .nullDereference staticAccessUnit staticAccesses none
      "Null dereference: the null literal is always null when reading com.example.Holder.shared in m"]

theorem runNullDereference_staticAccessUnit :
    staticAccessUnit.runNullDereference = .ok staticAccessFindings := by
  decide +kernel

theorem reports_dereferences_iff_static :
    staticAccessUnit.runNullDereference = .ok staticAccessFindings ∧
    ∃ judgements found,
      SourceUnit.judgements (.start .codeOnly) staticAccessUnit.bodies = some judgements ∧
      staticAccessFindings = found.flatten ∧
      List.Forall₂
        (fun judged => FoundAt (judged.body.accessFinding? staticAccessUnit) judged.Reports)
        judgements found ∧
      (∀ judged ∈ judgements, ∀ id, judged.Reports id → judged.ToldApart id) ∧
      ((∀ judged ∈ judgements, ∀ id, judged.Reports id → judged.body.Dereferences id) ↔
        ∀ judged ∈ judgements, ∀ id tree, judged.body.FirstAccess id tree →
          judged.solution.Proves judged.body .null tree → ¬ judged.body.AccessesStatic id) :=
  ⟨runNullDereference_staticAccessUnit,
    reports_dereferences_iff runNullDereference_staticAccessUnit⟩

/-- Both findings are about accesses to static members, and the second stands in the place
of a dereference. -/
theorem static_accesses_reported :
    staticAccessUnit.runNullDereference = .ok staticAccessFindings ∧
    (∀ finding ∈ staticAccessFindings, ∀ id,
      staticAccesses.accessFinding? staticAccessUnit id = some finding →
        ¬ staticAccesses.Dereferences id) ∧
    staticAccesses.accessedTree? 4 = staticAccesses.accessedTree? 3 ∧
    staticAccesses.Dereferences 4 := by
  refine ⟨runNullDereference_staticAccessUnit, ?_, by decide +kernel, 2, by decide +kernel⟩
  rintro finding hfinding id hid ⟨receiver, haccess⟩
  obtain ⟨node, hnode, -⟩ := Body.exists_node_of_memberAccess? haccess
  have hlt : id < 5 := (Array.getElem?_eq_some_iff.1 hnode).1
  have hstatic : ∀ id < 5, ∀ finding ∈ staticAccessFindings,
      staticAccesses.accessFinding? staticAccessUnit id = some finding →
        (staticAccesses.memberAccess? id).map Prod.snd = some true := by
    decide +kernel
  have h := hstatic id hlt finding hfinding hid
  rw [haccess] at h
  cases h

end JvmLint
