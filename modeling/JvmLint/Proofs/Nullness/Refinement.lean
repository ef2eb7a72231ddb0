import JvmLint.Proofs.Nullness.Receivers

/-!
# Refinements are sound

A concrete state says of every access path whether it is null (`NullState`). A
store is true of it if each entry admits what the state says (`Store.Holds`).

The main result, `refinement_holds_off_circles`, is about the nodes that refine what
is known: accesses, calls, type tests and comparisons. If a store is true of a state,
and the node completes in it, then so is the store that the node leaves, on the side
of any result that it can have there. `Completes` and `Yields` say what a state
must look like for a node to complete and to have a result. There is such a store
unless the receivers of something that the node refers to run in a circle; then there
may be none (`ownReceiverTest_no_store`).
-/
namespace JvmLint

/-! ## Concrete states -/

/-- Which paths are null, and which of the values that have no path. -/
structure NullState where
  path : AccessPath → Bool
  node : NodeId → Bool

/-- Whether the value of a node is null. -/
def NullState.isNull (state : NullState) (body : Body) (node : NodeId) : Bool :=
  match body.path node with
  | some (some path) => state.path path
  | _ => state.node node

namespace Nullness

/-- Whether a value that is null, or that is not, fits a nullness. -/
def Admits : Nullness → (isNull : Bool) → Prop
  | bottom, _ => False
  | null, isNull => isNull = true
  | nonNull, isNull => isNull = false
  | nullable, _ => True

instance (value : Nullness) (isNull : Bool) : Decidable (value.Admits isNull) :=
  match value with
  | bottom => inferInstanceAs (Decidable False)
  | null => inferInstanceAs (Decidable (isNull = true))
  | nonNull => inferInstanceAs (Decidable (isNull = false))
  | nullable => inferInstanceAs (Decidable True)

theorem Admits.of_le {a b : Nullness} {isNull : Bool} :
    a.Admits isNull → a ≤ b → b.Admits isNull := by
  cases a <;> cases b <;> cases isNull <;> decide

theorem Admits.meet {a b : Nullness} {isNull : Bool} :
    a.Admits isNull → b.Admits isNull → (a.meet b).Admits isNull := by
  cases a <;> cases b <;> cases isNull <;> decide

/-- Two references that differ are not both null. -/
theorem Admits.whenNotEqual {b : Nullness} {isNull isNull' : Bool} :
    b.Admits isNull' → ¬ (isNull = true ∧ isNull' = true) → b.whenNotEqual.Admits isNull := by
  cases b <;> cases isNull <;> cases isNull' <;> decide

end Nullness

namespace Store

/-- Every entry admits what the state says of its path. -/
def Holds (state : NullState) (store : Store) : Prop :=
  ∀ path value, store.get? path = some value → value.Admits (state.path path)

variable {state : NullState} {s t : Store}

theorem holds_empty (state : NullState) : empty.Holds state := by
  intro path value hvalue
  rw [get?_empty] at hvalue
  cases hvalue

theorem Holds.of_le (h : s.Holds state) (hst : s ≤ t) : t.Holds state := by
  intro path value hvalue
  obtain ⟨a, ha, hle⟩ := hst path value hvalue
  exact (h path a ha).of_le hle

/-- Of the old entries only those count that the batch leaves alone. -/
theorem holds_update {batch : List Update} (hbatch : ∀ u ∈ batch, u.2.Admits (state.path u.1))
    (hkept : ∀ path, path ∉ batch.map Prod.fst → ∀ value, s.get? path = some value →
      value.Admits (state.path path)) : (s.update batch).Holds state := by
  intro path value hvalue
  by_cases hpath : path ∈ batch.map Prod.fst
  · obtain ⟨written, hmem, hget⟩ := get?_update_of_mem hpath
    rw [hget s] at hvalue
    cases hvalue
    exact hbatch _ hmem
  · rw [get?_update_of_not_mem hpath] at hvalue
    exact hkept path hpath value hvalue

theorem Holds.update {batch : List Update} (h : s.Holds state)
    (hbatch : ∀ u ∈ batch, u.2.Admits (state.path u.1)) : (s.update batch).Holds state :=
  holds_update hbatch fun path _ => h path

end Store

/-! ## Completing, and having a result -/

/-- The arguments of a call that a table names. -/
def argumentsAt (table : List Library.ArgumentFact) (method : Method) (arguments : List NodeId) :
    List NodeId :=
  (Library.indexes table method.owner method.name).filterMap fun index =>
    (Library.resolveIndex index arguments.length).bind (arguments[·]?)

/-- Whether a node refines what is known of its operands. -/
def NodeKind.refines : NodeKind → Bool
  | .fieldAccess _ _ | .arrayAccess _ | .methodInvocation _ _ _ | .instanceOf _ | .equalTo _ _
  | .notEqual _ _ => true
  | _ => false

namespace NullState

/-- In this state the node does not throw: the receiver of a member that is not
known to be static, an array that is accessed, and the arguments that must not be
null are not. -/
def Completes (state : NullState) (body : Body) : NodeKind → Prop
  | .fieldAccess receiver field =>
    ∀ node ∈ receiver, field.any Field.isStatic = false → state.isNull body node = false
  | .arrayAccess array => state.isNull body array = false
  | .methodInvocation receiver arguments method =>
    (∀ node ∈ receiver, method.any Method.isStatic = false → state.isNull body node = false) ∧
      ∀ called ∈ method, ∀ argument ∈ argumentsAt Library.requiredNonNull called arguments,
        state.isNull body argument = false
  | _ => True

/-- In this state the node may be true, or false: only what is not null is an
instance, equal references are both null or neither is, unequal ones are not both
null, and a call does what the tables say of it. -/
def Yields (state : NullState) (body : Body) (result : Bool) : NodeKind → Prop
  | .instanceOf operand => result = true → state.isNull body operand = false
  | .equalTo left right =>
    if result = true then state.isNull body left = state.isNull body right
    else ¬ (state.isNull body left = true ∧ state.isNull body right = true)
  | .notEqual left right =>
    if result = true then ¬ (state.isNull body left = true ∧ state.isNull body right = true)
    else state.isNull body left = state.isNull body right
  | .methodInvocation _ arguments (some method) =>
    (∀ argument ∈ argumentsAt Library.nullImpliesTrue method arguments,
        state.isNull body argument = true → result = true) ∧
      (∀ argument ∈ argumentsAt Library.nonNullIffTrue method arguments,
        result = !state.isNull body argument) ∧
      (∀ argument ∈ argumentsAt Library.nullIffTrue method arguments,
        result = state.isNull body argument) ∧
      (method.name = "equals" → ∀ argument, arguments = [argument] → result = true →
        state.isNull body argument = false)
  | _ => True

end NullState

/-- The facts on the side of a result. -/
def Flow.side (flow : Flow) (result : Bool) : Option Store :=
  if result then flow.thenSide else flow.elseSide

/-! ## Batches that the state bears out -/

/-- The entries that an effect writes on the side of a result. -/
def Effect.batch (result : Bool) : Effect → List Refinement
  | regular refinements => refinements
  | branch onThen onElse => if result then onThen else onElse
  | pass | swap => []

section Batches

variable {body : Body} {state : NullState} {values : NodeValues}

/-- The value of an entry admits what the state says of its path. -/
def Refinement.Holds (state : NullState) (values : NodeValues) (r : Refinement) : Prop :=
  ∀ store, (r.2.eval store values).Admits (state.path r.1)

theorem isNull_of_path {node : NodeId} {path : AccessPath}
    (h : body.path node = some (some path)) : state.isNull body node = state.path path := by
  simp only [NullState.isNull, h]

theorem holds_of_refine {node : NodeId} {source : Source} {batch : List Refinement}
    (h : Transfer.refine body node source = some batch)
    (hsource : ∀ store, (source.eval store values).Admits (state.isNull body node)) :
    ∀ r ∈ batch, Refinement.Holds state values r := by
  intro r hr store
  obtain ⟨hpath, hr⟩ := Transfer.mem_of_refine h hr
  rw [hr, ← isNull_of_path hpath]
  exact hsource store

theorem holds_of_refineReceiver {isStatic : Bool} {receiver : Option NodeId}
    {batch : List Refinement} (h : Transfer.refineReceiver body isStatic receiver = some batch)
    (hreceiver : ∀ node ∈ receiver, isStatic = false → state.isNull body node = false) :
    ∀ r ∈ batch, Refinement.Holds state values r := by
  intro r hr store
  obtain ⟨node, hnode, hstatic, hpath, hr⟩ := Transfer.mem_of_refineReceiver h hr
  rw [hr, ← isNull_of_path hpath]
  exact hreceiver node hnode hstatic

theorem holds_of_marks {arguments : List NodeId} {method : Method}
    {table : List Library.ArgumentFact} {value : Nullness}
    (h : ∀ argument ∈ argumentsAt table method arguments,
      value.Admits (state.isNull body argument)) :
    ∀ r ∈ Transfer.marks body arguments method table value, Refinement.Holds state values r := by
  intro r hr store
  obtain ⟨argument, id, hread, rfl, index, hindex, position, hposition, hargument⟩ :=
    Transfer.mem_of_marks hr
  rw [← isNull_of_path (Body.path_of_localVariable (Body.localRead?_eq_some.1 hread))]
  refine h argument (List.mem_filterMap.2 ⟨index, hindex, ?_⟩)
  rw [hposition, Option.bind_some, hargument]

theorem holds_of_compared {arguments : List NodeId} {method : Method}
    (h : method.name = "equals" → ∀ argument, arguments = [argument] →
      state.isNull body argument = false) :
    ∀ r ∈ (Transfer.compared body arguments method).map fun id => (.slot id, .known .nonNull),
      Refinement.Holds state values r := by
  intro r hr store
  obtain ⟨id, hid, rfl⟩ := List.mem_map.1 hr
  obtain ⟨hname, argument, harguments, hread⟩ := Transfer.mem_of_compared hid
  rw [← isNull_of_path (Body.path_of_localVariable (Body.localRead?_eq_some.1 hread))]
  exact h hname argument harguments

theorem holds_of_callThen {receiver : Option NodeId} {arguments : List NodeId} {method : Method}
    (h : state.Yields body true (.methodInvocation receiver arguments (some method))) :
    ∀ r ∈ Transfer.callThen body arguments method, Refinement.Holds state values r := by
  obtain ⟨-, hnonNull, hnull, hequals⟩ := h
  intro r hr
  simp only [Transfer.callThen, List.mem_append] at hr
  rcases hr with (hr | hr) | hr
  · refine holds_of_marks (fun argument ha => ?_) r hr
    have hisNull : state.isNull body argument = false := by simpa using hnonNull argument ha
    exact hisNull
  · refine holds_of_marks (fun argument ha => ?_) r hr
    exact (hnull argument ha).symm
  · exact holds_of_compared (fun hname argument ha => hequals hname argument ha rfl) r hr

theorem holds_of_callElse {receiver : Option NodeId} {arguments : List NodeId} {method : Method}
    (h : state.Yields body false (.methodInvocation receiver arguments (some method))) :
    ∀ r ∈ Transfer.callElse body arguments method, Refinement.Holds state values r := by
  obtain ⟨himplies, hnonNull, hnull, -⟩ := h
  intro r hr
  simp only [Transfer.callElse, List.mem_append] at hr
  rcases hr with (hr | hr) | hr
  · refine holds_of_marks (fun argument ha => ?_) r hr
    exact Bool.eq_false_iff.2 fun hisNull => Bool.false_ne_true (himplies argument ha hisNull)
  · refine holds_of_marks (fun argument ha => ?_) r hr
    have hisNull : state.isNull body argument = true := by simpa using hnonNull argument ha
    exact hisNull
  · refine holds_of_marks (fun argument ha => ?_) r hr
    exact (hnull argument ha).symm

theorem holds_of_callEffect {receiver : Option NodeId} {arguments : List NodeId} {method : Method}
    {dereferenced : List Refinement} {result : Bool}
    (hd : Transfer.refineReceiver body method.isStatic receiver = some dereferenced)
    (hcompletes : state.Completes body (.methodInvocation receiver arguments (some method)))
    (hyields : Transfer.isCondition method = true →
      state.Yields body result (.methodInvocation receiver arguments (some method))) :
    ∀ r ∈ (Transfer.callEffect body arguments method dereferenced).batch result,
      Refinement.Holds state values r := by
  obtain ⟨hreceiver, hrequired⟩ := hcompletes
  have halways : ∀ r ∈ dereferenced ++
      Transfer.marks body arguments method Library.requiredNonNull .nonNull,
      Refinement.Holds state values r := by
    intro r hr
    rcases List.mem_append.1 hr with hr | hr
    · exact holds_of_refineReceiver hd hreceiver r hr
    · exact holds_of_marks (hrequired method rfl) r hr
  simp only [Transfer.callEffect]
  split
  · rename_i hcondition
    intro r hr
    cases result with
    | true =>
      rcases List.mem_append.1 hr with hr | hr
      · exact holds_of_callThen (hyields hcondition) r hr
      · exact halways r hr
    | false =>
      rcases List.mem_append.1 hr with hr | hr
      · exact holds_of_callElse (hyields hcondition) r hr
      · exact halways r hr
  · exact halways

theorem holds_of_equality {left right : NodeId} {whenEqual whenUnequal : List Refinement}
    (h : Transfer.equalityRefinements body left right = some (whenEqual, whenUnequal))
    (hleft : ((values.get? left).getD .nullable).Admits (state.isNull body left))
    (hright : ((values.get? right).getD .nullable).Admits (state.isNull body right)) :
    (state.isNull body left = state.isNull body right →
        ∀ r ∈ whenEqual, Refinement.Holds state values r) ∧
      (¬ (state.isNull body left = true ∧ state.isNull body right = true) →
        ∀ r ∈ whenUnequal, Refinement.Holds state values r) := by
  obtain ⟨equalLeft, h1, h⟩ := Option.bind_eq_some_iff.1 h
  obtain ⟨equalRight, h2, h⟩ := Option.bind_eq_some_iff.1 h
  obtain ⟨unequalLeft, h3, h⟩ := Option.bind_eq_some_iff.1 h
  obtain ⟨unequalRight, h4, h⟩ := Option.bind_eq_some_iff.1 h
  cases h
  constructor
  · intro heq r hr
    rcases List.mem_append.1 hr with hr | hr
    · exact holds_of_refine h1 (fun _ => hleft.meet (heq ▸ hright)) r hr
    · exact holds_of_refine h2 (fun _ => Nullness.Admits.meet (heq ▸ hleft) hright) r hr
  · intro hne r hr
    rcases List.mem_append.1 hr with hr | hr
    · exact holds_of_refine h3 (fun _ => hleft.meet (hright.whenNotEqual hne)) r hr
    · exact holds_of_refine h4
        (fun _ => hright.meet (hleft.whenNotEqual fun hboth => hne hboth.symm)) r hr

end Batches

/-! ## The main result -/

theorem exists_side_run {state : NullState} {store : Store} (hs : store.Holds state)
    {values : NodeValues} {action : Action} {result : Bool}
    (h : ∀ r ∈ action.effect.batch result, Refinement.Holds state values r) :
    ∃ side, (action.run (.regular store) values).2.side result = some side ∧
      side.Holds state := by
  obtain ⟨value, effect⟩ := action
  have hupdate : ∀ (s base : Store) (batch : List Refinement), s.Holds state →
      (∀ r ∈ batch, Refinement.Holds state values r) →
        (s.update (Effect.updates base values batch)).Holds state := by
    intro s base batch hs hbatch
    refine hs.update fun u hu => ?_
    obtain ⟨r, hr, rfl⟩ := List.mem_map.1 hu
    exact hbatch r hr base
  cases effect with
  | regular batch =>
    cases result <;>
      exact ⟨_, rfl, hupdate _ _ _ (hs.of_le (Store.le_join_left store store)) h⟩
  | branch onThen onElse =>
    cases result <;> exact ⟨_, rfl, hupdate _ _ _ hs h⟩
  | pass => cases result <;> exact ⟨_, rfl, hs⟩
  | swap => cases result <;> exact ⟨_, rfl, hs⟩

/-- The store that a node leaves is true of a state in which the node completes. -/
theorem holds_of_action? {policy : Policy} {body : Body} {node : Node} {action : Action}
    (hkind : node.kind.refines = true) (h : Transfer.action? policy body node = some action)
    {state : NullState} {store : Store} (hs : store.Holds state) {values : NodeValues}
    (hvalues : ∀ operand ∈ node.kind.reads,
      ((values.get? operand).getD .nullable).Admits (state.isNull body operand))
    (hcompletes : state.Completes body node.kind) {result : Bool}
    (hyields : node.kind.isCondition = true → state.Yields body result node.kind) :
    ∃ side, (action.run (.regular store) values).2.side result = some side ∧
      side.Holds state := by
  obtain ⟨kind, type, tree, line⟩ := node
  apply exists_side_run hs
  cases kind with
  | fieldAccess receiver field =>
    obtain ⟨dereferenced, hd, h⟩ := Option.bind_eq_some_iff.1 h
    obtain ⟨path, -, h⟩ := Option.bind_eq_some_iff.1 h
    cases h
    exact holds_of_refineReceiver hd hcompletes
  | arrayAccess array =>
    obtain ⟨dereferenced, hd, h⟩ := Option.bind_eq_some_iff.1 h
    cases h
    exact holds_of_refine hd fun _ => hcompletes
  | methodInvocation receiver arguments method =>
    cases method with
    | none =>
      cases h
      rintro r ⟨⟩
    | some method =>
      obtain ⟨dereferenced, hd, rfl⟩ := Option.map_eq_some_iff.1 h
      exact holds_of_callEffect hd hcompletes hyields
  | instanceOf operand =>
    obtain ⟨batch, hb, h⟩ := Option.bind_eq_some_iff.1 h
    cases h
    cases result with
    | true => exact holds_of_refine hb fun _ => hyields rfl rfl
    | false => rintro r ⟨⟩
  | equalTo left right =>
    obtain ⟨⟨whenEqual, whenUnequal⟩, hb, h⟩ := Option.bind_eq_some_iff.1 h
    cases h
    have hholds := holds_of_equality hb (hvalues left List.mem_cons_self)
      (hvalues right (List.mem_cons_of_mem _ List.mem_cons_self))
    cases result with
    | true => exact hholds.1 (hyields rfl)
    | false => exact hholds.2 (hyields rfl)
  | notEqual left right =>
    obtain ⟨⟨whenEqual, whenUnequal⟩, hb, h⟩ := Option.bind_eq_some_iff.1 h
    cases h
    have hholds := holds_of_equality hb (hvalues left List.mem_cons_self)
      (hvalues right (List.mem_cons_of_mem _ List.mem_cons_self))
    cases result with
    | true => exact hholds.2 (hyields rfl)
    | false => exact hholds.1 (hyields rfl)
  | _ => cases hkind

/-- **Refinements are sound.** Under every policy an access, a call, a type test or a
comparison has an action, unless the receivers of something that it refers to run in a
circle. Take a state of which the incoming store is true and in which the node completes;
for a comparison let the values of the operands admit what they are. Then the store that
the action leaves is true of the state: on both sides if the node is no condition, and if
it is one on the side of every result that it can have. -/
theorem refinement_holds_off_circles (policy : Policy) (body : Body) {node : Node}
    (hkind : node.kind.refines = true) :
    ((∀ id ∈ body.referents node.kind, ¬ body.RunsInCircle id) →
      ∃ action, Transfer.action? policy body node = some action) ∧
    ∀ action, Transfer.action? policy body node = some action →
      ∀ (state : NullState) (store : Store) (values : NodeValues), store.Holds state →
        (∀ operand ∈ node.kind.reads,
          ((values.get? operand).getD .nullable).Admits (state.isNull body operand)) →
        state.Completes body node.kind →
        ∀ result, (node.kind.isCondition = true → state.Yields body result node.kind) →
          ∃ side, (action.run (.regular store) values).2.side result = some side ∧
            side.Holds state :=
  ⟨Body.exists_action?_off_circles policy,
    fun _ haction _ _ _ hs hvalues hcompletes _ hyields =>
      holds_of_action? hkind haction hs hvalues hcompletes hyields⟩

/-- A variable is compared with null. -/
def nullCheck : Body :=
  .ofKinds #[⟨"x", .ofClass "java.lang.String", .localVariable, none, []⟩]
    #[.localVariable 0, .nullLiteral, .equalTo 0 1] #[⟨[0, 1, 2], []⟩]

/-- Everything is null. -/
def NullState.allNull : NullState := ⟨fun _ => true, fun _ => true⟩

/-- Of the variable nothing is known; the literal is null. -/
def nullCheckValues : NodeValues := ⟨#[some .nullable, some .null]⟩

theorem refinement_holds_nullCheck :
    (∀ id ∈ nullCheck.referents (.equalTo 0 1), ¬ nullCheck.RunsInCircle id) ∧
    ∃ action, Transfer.action? .codeOnly nullCheck ⟨.equalTo 0 1, none, none, none⟩ =
        some action ∧ Store.empty.Holds .allNull ∧
      ∃ side, (action.run (.regular .empty) nullCheckValues).2.side true = some side ∧
        side.Holds .allNull ∧ side.get? (.slot 0) = some .null := by
  have hpaths : ∀ id ∈ nullCheck.referents (.equalTo 0 1), nullCheck.path id ≠ none := by
    decide +kernel
  have hcircle : ∀ id ∈ nullCheck.referents (.equalTo 0 1), ¬ nullCheck.RunsInCircle id :=
    fun id hid => mt Body.path_eq_none_iff.2 (hpaths id hid)
  have hslot : ((Transfer.action? .codeOnly nullCheck ⟨.equalTo 0 1, none, none, none⟩).bind
      fun action => (action.run (.regular .empty) nullCheckValues).2.side true).map
        (·.get? (.slot 0)) = some (some .null) := by decide +kernel
  have hvalues : ∀ operand ∈ (NodeKind.equalTo 0 1).reads,
      ((nullCheckValues.get? operand).getD .nullable).Admits
        (NullState.allNull.isNull nullCheck operand) := by decide +kernel
  have hyields : NullState.allNull.Yields nullCheck true (.equalTo 0 1) := by
    change NullState.allNull.isNull nullCheck 0 = NullState.allNull.isNull nullCheck 1
    decide +kernel
  have hstore := Store.holds_empty .allNull
  have hrefines : (Node.mk (.equalTo 0 1) none none none).kind.refines = true := rfl
  obtain ⟨hexists, hholds⟩ := refinement_holds_off_circles .codeOnly nullCheck hrefines
  obtain ⟨action, haction⟩ := hexists hcircle
  obtain ⟨side, hside, hholds⟩ := hholds action haction .allNull .empty nullCheckValues hstore
    hvalues trivial true fun _ => hyields
  rw [haction, Option.bind_some, hside] at hslot
  exact ⟨hcircle, action, haction, hstore, side, hside, hholds, Option.some.inj hslot⟩

/-- A type test of a field access through itself. Only the test is in a block. -/
def ownReceiverTest : Body :=
  .ofKinds #[] #[.fieldAccess (some 0) (some (holderField "next")), .instanceOf 0] #[⟨[1], []⟩]

/-- The body is a graph, the store is true of the state and the test completes in it, but
the test leaves no store, under any policy, and the analysis of the body does not end. -/
theorem ownReceiverTest_no_store :
    ownReceiverTest.graphError? = none ∧ (NodeKind.instanceOf 0).refines = true ∧
    Store.empty.Holds .allNull ∧ NullState.allNull.Completes ownReceiverTest (.instanceOf 0) ∧
    NullState.allNull.Yields ownReceiverTest false (.instanceOf 0) ∧
    (∀ policy, Transfer.action? policy ownReceiverTest ⟨.instanceOf 0, none, none, none⟩ = none) ∧
    ownReceiverTest.solve .codeOnly = .ok none ∧ ownReceiverTest.solve .trusting = .ok none := by
  have hpath : ownReceiverTest.path 0 = none := by decide +kernel
  refine ⟨by decide +kernel, rfl, Store.holds_empty _, trivial,
    fun h => absurd h Bool.false_ne_true, fun policy => ?_, by decide +kernel, by decide +kernel⟩
  simp [Transfer.action?, Transfer.refineNonNull, Transfer.refine, hpath]

end JvmLint
