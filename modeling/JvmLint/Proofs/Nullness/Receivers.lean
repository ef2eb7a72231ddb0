import JvmLint.Nullness.Solver
import JvmLint.Proofs.Nullness.Transfer
import Mathlib.Data.Fintype.Pigeonhole
import Mathlib.Logic.Relation

/-!
# Chains of receivers

The search for the path of a node follows receivers from one field access to the
next. In a body of any form it ends, unless it comes to a node of a circle: a field
access that is reached again from its own receiver (`Body.path_eq_none_iff`). That the
search is given up after as many steps as there are nodes loses nothing, since a chain
as long as that comes back to one of its nodes (`Body.runsInCircle_of_pathWithin`), and
`Body.path` meets the equation of a search without bound (`Body.path_eq`).

A search that ends finds what the chain of receivers says (`Body.path_eq_some_iff`): the
variable, or the running method's own receiver, at which the chain stops, and the names
of the fields on the way. So every node has an action exactly if no receivers run in a
circle (`Body.search_ends_off_circles`).
-/
namespace JvmLint

namespace Body

/-! ## Chains -/

/-- The chain of receivers from a node: the fields read on the way, the last one first,
and the node at which it stops, if it does not stop at a field without receiver. Only
known instance fields are followed. -/
inductive Chain (body : Body) : NodeId → List Field → Option NodeId → Prop where
  | stop (node : NodeId) : Chain body node [] (some node)
  | own {node : NodeId} {field : Field} :
    body.kind? node = some (.fieldAccess none (some field)) → field.isStatic = false →
      Chain body node [field] none
  | through {node receiver : NodeId} {field : Field} {fields : List Field}
    {last : Option NodeId} :
    body.kind? node = some (.fieldAccess (some receiver) (some field)) →
      field.isStatic = false → Chain body receiver fields last →
        Chain body node (field :: fields) last

/-- The root of the path of a chain: the variable that is read or declared where it stops,
or the running method's own receiver, which counts only behind a field. -/
def root? (body : Body) (fields : List Field) : Option NodeId → Option PathRoot
  | none => some .self
  | some last =>
    match body.kind? last with
    | some (.localVariable id) | some (.variableDeclaration id) => some (.slot id)
    | some .self => if fields.isEmpty then none else some .self
    | _ => none

/-- Some chain from the node has this path. -/
def Denotes (body : Body) (node : NodeId) (path : AccessPath) : Prop :=
  ∃ fields last, body.Chain node fields last ∧ body.root? fields last = some path.root ∧
    path.fields = (fields.map Field.name).reverse

/-- The search from a node goes on from its receiver: the node reads an instance field of
something other than the running method's own receiver. -/
def GoesOn (body : Body) (node receiver : NodeId) : Prop :=
  (∃ field : Field, body.kind? node = some (.fieldAccess (some receiver) (some field)) ∧
    field.isStatic = false) ∧ body.kind? receiver ≠ some .self

/-- The receivers from a node come to a node that they come back to. -/
def RunsInCircle (body : Body) (node : NodeId) : Prop :=
  ∃ again, Relation.ReflTransGen body.GoesOn node again ∧ Relation.TransGen body.GoesOn again again

/-- The search from a node is over after some number of steps. -/
def SearchEnds (body : Body) (node : NodeId) : Prop :=
  ∃ steps path, body.pathWithin steps node = some path

variable {body : Body} {node receiver : NodeId} {path : AccessPath} {steps : Nat}

/-! ## Steps of a search -/

theorem GoesOn.lt_size (h : body.GoesOn node receiver) : node < body.nodes.size := by
  obtain ⟨⟨field, hkind, -⟩, -⟩ := h
  by_contra hlt
  rw [kind?_eq_none hlt] at hkind
  cases hkind

theorem GoesOn.pathWithin (h : body.GoesOn node receiver) (steps : Nat) :
    ∃ name, body.pathWithin (steps + 1) node =
      (body.pathWithin steps receiver).map fun path => path.map (·.field name) := by
  obtain ⟨⟨field, hkind, hstatic⟩, hself⟩ := h
  exact ⟨field.name, by simp [Body.pathWithin, pathOfKind, hkind, hstatic, hself]⟩

/-- A search that is not over goes on. -/
theorem goesOn_of_pathWithin (h : body.pathWithin (steps + 1) node = none) :
    ∃ receiver, body.GoesOn node receiver ∧ body.pathWithin steps receiver = none := by
  rw [pathWithin] at h
  cases hkind : body.kind? node with
  | none => simp [hkind] at h
  | some kind =>
    simp only [hkind] at h
    unfold pathOfKind at h
    split at h
    · cases h
    · cases h
    · rename_i receiver field
      split at h
      · cases h
      · rename_i hstatic
        split at h
        · cases h
        · rename_i receiver
          split at h
          · cases h
          · rename_i hself
            exact ⟨receiver, ⟨⟨field, hkind, by simpa using hstatic⟩, hself⟩, by simpa using h⟩
    · cases h

/-! ## Circles -/

theorem RunsInCircle.goesOn (h : body.RunsInCircle node) :
    ∃ receiver, body.GoesOn node receiver ∧ body.RunsInCircle receiver := by
  obtain ⟨again, hto, hcircle⟩ := h
  rcases hto.cases_head with rfl | ⟨receiver, hstep, hrest⟩
  · obtain ⟨receiver, hstep, hback⟩ := Relation.TransGen.head'_iff.1 hcircle
    exact ⟨receiver, hstep, node, hback, hcircle⟩
  · exact ⟨receiver, hstep, again, hrest, hcircle⟩

theorem RunsInCircle.pathWithin (h : body.RunsInCircle node) (steps : Nat) :
    body.pathWithin steps node = none := by
  induction steps generalizing node with
  | zero => rfl
  | succ steps ih =>
    obtain ⟨receiver, hstep, hcircle⟩ := h.goesOn
    obtain ⟨name, hname⟩ := hstep.pathWithin steps
    rw [hname, ih hcircle, Option.map_none]

/-- The nodes that a search visits until it is given up. -/
theorem exists_walk (h : body.pathWithin steps node = none) :
    ∃ walk : Nat → NodeId, walk 0 = node ∧ ∀ i < steps, body.GoesOn (walk i) (walk (i + 1)) := by
  induction steps generalizing node with
  | zero => exact ⟨fun _ => node, rfl, by simp⟩
  | succ steps ih =>
    obtain ⟨receiver, hstep, hnone⟩ := goesOn_of_pathWithin h
    obtain ⟨walk, hstart, hwalk⟩ := ih hnone
    refine ⟨fun i => i.casesOn node walk, rfl, fun i hi => ?_⟩
    cases i with
    | zero => rwa [← hstart] at hstep
    | succ i => exact hwalk i (by omega)

theorem reflTransGen_walk {walk : Nat → NodeId}
    (hwalk : ∀ i < steps, body.GoesOn (walk i) (walk (i + 1))) {i j : Nat} (hij : i ≤ j)
    (hj : j ≤ steps) : Relation.ReflTransGen body.GoesOn (walk i) (walk j) := by
  induction j, hij using Nat.le_induction with
  | base => exact .refl
  | succ j hij ih => exact (ih (by omega)).tail (hwalk j (by omega))

/-- More steps than there are nodes lead back to one of them. -/
theorem runsInCircle_of_pathWithin (hsteps : body.nodes.size < steps)
    (h : body.pathWithin steps node = none) : body.RunsInCircle node := by
  obtain ⟨walk, rfl, hwalk⟩ := exists_walk h
  have hmaps : ∀ i ∈ Finset.range steps, walk i ∈ Finset.range body.nodes.size := fun i hi =>
    Finset.mem_range.2 (hwalk i (Finset.mem_range.1 hi)).lt_size
  obtain ⟨i, hi, j, hj, hne, heq⟩ := Finset.exists_ne_map_eq_of_card_lt_of_maps_to
    (by simpa using hsteps) hmaps
  wlog hlt : i < j generalizing i j
  · exact this j hj i hi hne.symm heq.symm (by omega)
  rw [Finset.mem_range] at hi hj
  refine ⟨walk i, reflTransGen_walk hwalk (Nat.zero_le i) hi.le, ?_⟩
  have hback := reflTransGen_walk hwalk hlt hj.le
  rw [← heq] at hback
  exact .head' (hwalk i hi) hback

/-- A search has no answer exactly if it runs in a circle. -/
theorem path_eq_none_iff : body.path node = none ↔ body.RunsInCircle node :=
  ⟨runsInCircle_of_pathWithin (Nat.lt_succ_self _), fun h => h.pathWithin _⟩

theorem searchEnds_iff : body.SearchEnds node ↔ ¬ body.RunsInCircle node := by
  constructor
  · rintro ⟨steps, path, hpath⟩ hcircle
    rw [hcircle.pathWithin] at hpath
    cases hpath
  · intro hcircle
    obtain ⟨path, hpath⟩ := Option.ne_none_iff_exists'.1 (mt path_eq_none_iff.1 hcircle)
    exact ⟨_, path, hpath⟩

/-! ## What is found -/

theorem pathWithin_eq_path (hsteps : body.nodes.size < steps) :
    body.pathWithin steps node = body.path node := by
  cases hpath : body.path node with
  | none => exact (path_eq_none_iff.1 hpath).pathWithin steps
  | some path => exact pathWithin_mono hsteps hpath

/-- The search has no bound that shows. -/
theorem path_eq (body : Body) (node : NodeId) :
    body.path node =
      match body.kind? node with
      | none => some none
      | some kind => body.pathOfKind body.path kind :=
  (pathWithin_eq_path (Nat.lt_succ_of_lt (Nat.lt_succ_self _))).symm

theorem Chain.eq_of_self {fields : List Field} {last : Option NodeId}
    (h : body.Chain node fields last) (hself : body.kind? node = some .self) :
    fields = [] ∧ last = some node := by
  cases h with
  | stop => exact ⟨rfl, rfl⟩
  | own hkind _ => rw [hself] at hkind; cases hkind
  | through hkind _ _ => rw [hself] at hkind; cases hkind

/-- A further field changes the root only behind the running method's receiver. -/
theorem Chain.root?_cons {fields : List Field} {last : Option NodeId}
    (h : body.Chain node fields last) (hself : body.kind? node ≠ some .self) (field : Field) :
    body.root? (field :: fields) last = body.root? fields last := by
  cases h with
  | stop =>
    simp only [root?]
    split
    · rfl
    · rfl
    · rename_i hkind
      exact absurd hkind hself
    · rfl
  | own _ _ => rfl
  | through _ _ _ => rfl

theorem path_of_chain {fields : List Field} {last : Option NodeId} {root : PathRoot}
    (h : body.Chain node fields last) (hroot : body.root? fields last = some root) :
    body.path node = some (some ⟨root, (fields.map Field.name).reverse⟩) := by
  induction h generalizing root with
  | stop node =>
    simp only [root?] at hroot
    split at hroot
    · rename_i hkind
      cases hroot
      exact path_of_localVariable hkind
    · rename_i hkind
      cases hroot
      exact path_of_variableDeclaration hkind
    · cases hroot
    · cases hroot
  | own hkind hstatic =>
    cases hroot
    simp [path_eq body, hkind, pathOfKind, hstatic, AccessPath.self, AccessPath.field]
  | @through node receiver field fields last hkind hstatic hchain ih =>
    rw [path_eq body, hkind]
    by_cases hself : body.kind? receiver = some .self
    · obtain ⟨rfl, rfl⟩ := hchain.eq_of_self hself
      simp only [root?, hself] at hroot
      cases hroot
      simp [pathOfKind, hstatic, hself, AccessPath.self, AccessPath.field]
    · rw [hchain.root?_cons hself] at hroot
      simp [pathOfKind, hstatic, hself, ih hroot, AccessPath.field]

/-- By recursion on the number of fields, of which the receiver's path has one less. -/
theorem denotes_of_path {node : NodeId} {path : AccessPath}
    (h : body.path node = some (some path)) : body.Denotes node path := by
  rcases path_cases h with ⟨slot, hkind, rfl⟩ | ⟨receiver, field, hkind, hstatic, hfield⟩
  · refine ⟨[], some node, .stop node, ?_, rfl⟩
    rcases hkind with hkind | hkind <;> simp [root?, hkind, AccessPath.slot]
  · rcases hfield with ⟨hself, rfl⟩ | ⟨receiver, base, rfl, hbase, hpath⟩
    · cases receiver with
      | none => exact ⟨[field], none, .own hkind hstatic, rfl, rfl⟩
      | some receiver =>
        refine ⟨[field], some receiver, .through hkind hstatic (.stop receiver), ?_, rfl⟩
        simp [root?, hself receiver rfl, AccessPath.field, AccessPath.self]
    · obtain ⟨fields, last, hchain, hroot, hnames⟩ := denotes_of_path hbase
      have hself : body.kind? receiver ≠ some .self := by
        intro hself
        rw [path_of_self hself] at hbase
        cases hbase
      refine ⟨field :: fields, last, .through hkind hstatic hchain, ?_, ?_⟩
      · rw [hchain.root?_cons hself, hroot, hpath]
        rfl
      · simp [hpath, AccessPath.field, hnames]
termination_by path.fields.length
decreasing_by simp [hpath, AccessPath.field]

/-- What a search finds is what the chain of receivers says. -/
theorem path_eq_some_iff : body.path node = some (some path) ↔ body.Denotes node path := by
  refine ⟨denotes_of_path, ?_⟩
  rintro ⟨fields, last, hchain, hroot, hnames⟩
  rw [path_of_chain hchain hroot, ← hnames]

/-! ## Actions -/

/-- A field access whose receivers run in a circle has no action. -/
theorem RunsInCircle.action?_eq_none {id : NodeId} (h : body.RunsInCircle id) (policy : Policy)
    {node : Node} (hnode : body.nodes[id]? = some node) :
    Transfer.action? policy body node = none := by
  obtain ⟨receiver, ⟨⟨field, hkind, hstatic⟩, -⟩, hcircle⟩ := h.goesOn
  have hkind : node.kind = .fieldAccess (some receiver) (some field) := by
    simpa [kind?, hnode] using hkind
  have hpath := path_eq_none_iff.2 hcircle
  simp [Transfer.action?, hkind, Transfer.refineReceiver, hstatic, Transfer.refineNonNull,
    Transfer.refine, hpath]

/-- A node has an action, unless receivers of something that it refers to run in a circle. -/
theorem exists_action?_off_circles (policy : Policy) {node : Node}
    (h : ∀ id ∈ body.referents node.kind, ¬ body.RunsInCircle id) :
    ∃ action, Transfer.action? policy body node = some action := by
  refine Transfer.exists_action?_of_referents policy fun id hid => ?_
  exact Option.ne_none_iff_exists'.1 (mt path_eq_none_iff.1 (h id hid))

theorem forall_exists_action?_iff (policy : Policy) :
    (∀ node ∈ body.nodes, ∃ action, Transfer.action? policy body node = some action) ↔
      ∀ id, ¬ body.RunsInCircle id := by
  constructor
  · intro h id hcircle
    obtain ⟨receiver, hstep, -⟩ := hcircle.goesOn
    have hnode := Array.getElem?_eq_getElem hstep.lt_size
    obtain ⟨action, haction⟩ := h _ (Array.mem_of_getElem? hnode)
    rw [hcircle.action?_eq_none policy hnode] at haction
    cases haction
  · intro h node _
    exact exists_action?_off_circles policy fun id _ => h id

/-- **Searches for a path.** From any node of any body the search for its path ends
exactly if the receivers do not run in a circle, and it finds the path of the chain of
receivers, if that has one. So what each node does to the facts is found out, under any
policy, exactly if no receivers in the body run in a circle. -/
theorem search_ends_off_circles (body : Body) :
    (∀ node, (body.SearchEnds node ↔ ¬ body.RunsInCircle node) ∧
      (body.path node = none ↔ ¬ body.SearchEnds node) ∧
      ∀ path, body.path node = some (some path) ↔ body.Denotes node path) ∧
    ∀ policy, (∀ node ∈ body.nodes, ∃ action, Transfer.action? policy body node = some action) ↔
      ∀ id, ¬ body.RunsInCircle id := by
  refine ⟨fun node => ⟨searchEnds_iff, ?_, fun path => path_eq_some_iff⟩, fun policy =>
    forall_exists_action?_iff policy⟩
  rw [path_eq_none_iff, searchEnds_iff, not_not]

end Body

/-- A field of a holder that is a holder itself. -/
def holderField (name : String) : Field :=
  ⟨"com.example.Holder", name, .ofClass "com.example.Holder", false, false, false, none, []⟩

/-- A field access through itself, in a block of its own. -/
def ownReceiver : Body :=
  .ofKinds #[] #[.fieldAccess (some 0) (some (holderField "next"))] #[⟨[0], []⟩]

/-- The body is a graph, but neither the search from its only node nor the analysis of
the body ends. -/
theorem ownReceiver_endless :
    ownReceiver.graphError? = none ∧ ¬ ownReceiver.SearchEnds 0 ∧
      (∀ policy, ∀ node ∈ ownReceiver.nodes,
        Transfer.action? policy ownReceiver node = none) ∧
      ownReceiver.solve .codeOnly = .ok none ∧ ownReceiver.solve .trusting = .ok none := by
  have hstep : ownReceiver.GoesOn 0 0 :=
    ⟨⟨holderField "next", by decide +kernel, rfl⟩, by decide +kernel⟩
  have hcircle : ownReceiver.RunsInCircle 0 := ⟨0, .refl, .single hstep⟩
  refine ⟨by decide +kernel, ?_, fun policy node hnode => ?_, by decide +kernel,
    by decide +kernel⟩
  · rwa [Body.searchEnds_iff, not_not]
  · have hnode : ownReceiver.nodes[0]? = some node := by
      simpa [ownReceiver, Body.ofKinds, eq_comm] using hnode
    exact hcircle.action?_eq_none policy hnode

end JvmLint
