import JvmLint.Proofs.Nullness.Refinement

/-!
# What an assignment leaves behind

An assignment writes the path of its target and, for a field, that the receiver
is not null. It writes nothing else, so what was known of a longer path, one that
goes on from the target, stays in the store although the assignment may have
changed what that path stands for (`keeps_stale_fact`).

The main result, `holds_assigned_iff`, says that this is the only way in which the
store can be wrong afterwards: it is true of a state after the assignment exactly
if the old entries for the longer paths are.
-/
namespace JvmLint

/-- Two states agree on every path that does not go on from `path`. -/
def NullState.AgreesOff (path : AccessPath) (a b : NullState) : Prop :=
  ∀ other : AccessPath, ¬ other.Extends path → a.path other = b.path other

/-! ## What is written -/

section Written

variable {body : Body} {target : NodeId} {path : AccessPath}

/-- The receiver of a field that is assigned to is not what is assigned. -/
theorem refineReceiver_of_fieldPath {receiver : Option NodeId} {field : Field}
    (h : body.FieldPath receiver field path) :
    ∃ dereferenced, Transfer.refineReceiver body field.isStatic receiver = some dereferenced ∧
      ∀ r ∈ dereferenced, ¬ r.1.Extends path := by
  obtain ⟨hstatic, ⟨hself, rfl⟩ | ⟨node, base, rfl, hbase, rfl⟩⟩ := h
  · cases receiver with
    | none => exact ⟨[], rfl, by simp⟩
    | some node =>
      have hnode := Body.path_of_self (hself node rfl)
      refine ⟨[], ?_, by simp⟩
      simp [Transfer.refineReceiver, Transfer.refineNonNull, Transfer.refine, hnode]
  · refine ⟨[(base, .known .nonNull)], ?_, ?_⟩
    · simp [Transfer.refineReceiver, Transfer.refineNonNull, Transfer.refine, hstatic, hbase]
    · intro r hr
      rw [List.mem_singleton.1 hr]
      exact base.not_extends_field field.name

/-- An assignment to a path writes the value for it, after what holds of the
receiver. -/
theorem assignmentRefinements_of_path (htarget : body.path target = some (some path))
    (expression : NodeId) :
    ∃ dereferenced, Transfer.assignmentRefinements body target expression =
        some (dereferenced ++ [(path, .operand expression)]) ∧
      (∀ r ∈ dereferenced, ¬ r.1.Extends path) ∧
        ∀ (state : NullState) (values : NodeValues),
          (∀ kind ∈ body.kind? target, state.Completes body kind) →
            ∀ r ∈ dereferenced, Refinement.Holds state values r := by
  rcases Body.path_cases htarget with ⟨slot, hk | hk, rfl⟩ | ⟨receiver, field, hk, hfield⟩
  · exact ⟨[], by simp [Transfer.assignmentRefinements, hk], by simp, by simp⟩
  · exact ⟨[], by simp [Transfer.assignmentRefinements, hk], by simp, by simp⟩
  · obtain ⟨dereferenced, hd, hoff⟩ := refineReceiver_of_fieldPath hfield
    refine ⟨dereferenced, ?_, hoff, fun state values hcompletes => ?_⟩
    · simp [Transfer.assignmentRefinements, Transfer.refine, hk, hd, htarget]
    · exact holds_of_refineReceiver hd (hcompletes _ hk)

/-- What is written leaves the longer paths alone. -/
theorem get?_of_longer {dereferenced : List Refinement}
    (hoff : ∀ r ∈ dereferenced, ¬ r.1.Extends path) (source : Source) (store : Store)
    (values : NodeValues) {other : AccessPath} (hextends : other.Extends path)
    (hne : other ≠ path) :
    (store.update (Effect.updates store values (dereferenced ++ [(path, source)]))).get? other =
      store.get? other := by
  refine Store.get?_update_of_not_mem ?_ store
  rw [Effect.map_fst_updates, List.mem_map]
  rintro ⟨r, hr, rfl⟩
  rcases List.mem_append.1 hr with hr | hr
  · exact hoff r hr hextends
  · exact hne (congrArg Prod.fst (List.mem_singleton.1 hr))

/-- A batch that writes the path gives a true store, if what it writes is true and
the old entries for longer paths are. -/
theorem holds_of_longer {batch : List Refinement} (hpath : path ∈ batch.map Prod.fst)
    {before after : NullState} {values : NodeValues}
    (hbatch : ∀ r ∈ batch, Refinement.Holds after values r) {store : Store}
    (hbefore : store.Holds before) (hagrees : after.AgreesOff path before)
    (hlonger : ∀ (other : AccessPath) value, other.Extends path → other ≠ path →
      store.get? other = some value → value.Admits (after.path other)) :
    (store.update (Effect.updates store values batch)).Holds after := by
  refine Store.holds_update (fun u hu => ?_) fun other hother value hget => ?_
  · obtain ⟨r, hr, rfl⟩ := List.mem_map.1 hu
    exact hbatch r hr store
  · rw [Effect.map_fst_updates] at hother
    -- the old entry for the path itself is overwritten and need not be true any more
    have hne : other ≠ path := fun heq => hother (heq ▸ hpath)
    by_cases hextends : other.Extends path
    · exact hlonger other value hextends hne hget
    · rw [hagrees other hextends]
      exact hbefore other value hget

end Written

/-! ## The main result -/

/-- **Assignments.** Let the target of an assignment name a path. The assignment
leaves one store for both sides, in which the entries for longer paths are the
old ones. Take a state of which the incoming store is true, and a state that
differs from it on the path and on longer ones only, that fits the value of the
expression, and in which the receiver is not null. The store that is left is true
of the second state exactly if its entries for the longer paths are. -/
theorem holds_assigned_iff {policy : Policy} {body : Body} {node : Node}
    {target expression : NodeId} (hkind : node.kind = .assignment target expression)
    {path : AccessPath} (htarget : body.path target = some (some path)) :
    ∃ action, Transfer.action? policy body node = some action ∧
      ∀ (values : NodeValues) (store : Store), ∃ next,
        (action.run (.regular store) values).2 = .regular next ∧
        (∀ other : AccessPath, other.Extends path → other ≠ path →
          next.get? other = store.get? other) ∧
        ∀ before after : NullState, store.Holds before → after.AgreesOff path before →
          ((values.get? expression).getD .nullable).Admits (after.path path) →
          (∀ kind ∈ body.kind? target, after.Completes body kind) →
            (next.Holds after ↔ ∀ (other : AccessPath) value, other.Extends path → other ≠ path →
              store.get? other = some value → value.Admits (after.path other)) := by
  obtain ⟨dereferenced, hbatch, hoff, hholds⟩ := assignmentRefinements_of_path htarget expression
  refine ⟨⟨.operand expression, .regular (dereferenced ++ [(path, .operand expression)])⟩, ?_,
    fun values store => ⟨_, by rw [Action.run_regular], ?_, ?_⟩⟩
  · simp only [Transfer.action?, hkind, hbatch]
    rfl
  · exact fun other => get?_of_longer hoff (.operand expression) store values
  · intro before after hbefore hagrees hvalue hcompletes
    constructor
    · intro hnext other value hextends hne hget
      exact hnext other value
        ((get?_of_longer hoff (.operand expression) store values hextends hne).trans hget)
    · refine holds_of_longer (by simp) (fun r hr => ?_) hbefore hagrees
      rcases List.mem_append.1 hr with hr | hr
      · exact hholds after values hcompletes r hr
      · rw [List.mem_singleton.1 hr]
        exact fun _ => hvalue

/-- The path of `x.f`, where `x` is the first variable. -/
def holderPath : AccessPath := (AccessPath.slot 0).field "f"

/-- A literal is assigned to `x.f`. -/
def fieldAssignment : Body :=
  .ofKinds #[⟨"x", .ofClass "com.example.Holder", .parameter, none, []⟩]
    #[.localVariable 0, .fieldAccess (some 0) (some (holderField "f")), .valueLiteral,
      .assignment 1 2] #[⟨[0, 1, 2, 3], []⟩]

def fieldAssignmentValues : NodeValues := ⟨#[some .nullable, some .null, some .nonNull]⟩

/-- Nothing is known of `x`, `x.f` is null, and `x.f.g` is not. -/
def chainStore : Store :=
  Store.empty.update [(.slot 0, .nullable), (holderPath, .null), (holderPath.field "g", .nonNull)]

/-- Nothing is null but what is at the path. -/
def NullState.onlyNull (path : AccessPath) : NullState :=
  ⟨fun other => decide (other = path), fun _ => false⟩

def NullState.noneNull : NullState := ⟨fun _ => false, fun _ => false⟩

theorem holds_fieldAssignment :
    fieldAssignment.path 1 = some (some holderPath) ∧ chainStore.Holds (.onlyNull holderPath) ∧
      ∃ action next, Transfer.action? .trusting fieldAssignment
          ⟨.assignment 1 2, none, none, none⟩ = some action ∧
        (action.run (.regular chainStore) fieldAssignmentValues).2 = .regular next ∧
        next.Holds .noneNull := by
  have htarget : fieldAssignment.path 1 = some (some holderPath) := by decide +kernel
  have hbefore : chainStore.Holds (.onlyNull holderPath) :=
    (Store.holds_empty _).update (by decide +kernel)
  have hagrees : NullState.noneNull.AgreesOff holderPath (.onlyNull holderPath) := by
    intro other hother
    have hne : other ≠ holderPath := by
      rintro rfl
      exact hother (.refl _)
    exact (decide_eq_false hne).symm
  have hcompletes : ∀ kind ∈ fieldAssignment.kind? 1,
      NullState.noneNull.Completes fieldAssignment kind := by
    have hk : fieldAssignment.kind? 1 =
        some (.fieldAccess (some 0) (some (holderField "f"))) := by decide +kernel
    rw [hk]
    rintro kind ⟨⟩ node ⟨⟩ -
    decide +kernel
  have hlonger : ∀ (other : AccessPath) value, other.Extends holderPath → other ≠ holderPath →
      chainStore.get? other = some value → value.Admits (NullState.noneNull.path other) := by
    intro other value _ hne hget
    simp only [chainStore, Store.update_cons, Store.update_nil, Store.get?_insert, if_neg hne,
      Store.get?_empty] at hget
    split at hget
    · cases hget; rfl
    · split at hget
      · cases hget; trivial
      · cases hget
  obtain ⟨action, haction, hruns⟩ := @holds_assigned_iff .trusting fieldAssignment
    ⟨.assignment 1 2, none, none, none⟩ 1 2 rfl holderPath htarget
  obtain ⟨next, hrun, -, hiff⟩ := hruns fieldAssignmentValues chainStore
  exact ⟨htarget, hbefore, action, next, haction, hrun,
    (hiff _ _ hbefore hagrees (by decide +kernel) hcompletes).2 hlonger⟩

/-- What a call returns is assigned to `x`. -/
def reassignment : Body :=
  .ofKinds #[⟨"x", .ofClass "com.example.Holder", .parameter, none, []⟩]
    #[.localVariable 0, .methodInvocation none [] none, .assignment 0 1] #[⟨[0, 1, 2], []⟩]

/-- An assignment to `x` keeps what was known of `x.f`. -/
theorem keeps_stale_fact :
    reassignment.path 0 = some (some (.slot 0)) ∧
      (Store.empty.insert holderPath .nonNull).Holds .noneNull ∧
      (NullState.onlyNull holderPath).AgreesOff (.slot 0) .noneNull ∧
      Nullness.nullable.Admits ((NullState.onlyNull holderPath).path (.slot 0)) ∧
      ∃ action next, Transfer.action? .codeOnly reassignment ⟨.assignment 0 1, none, none, none⟩ =
          some action ∧
        (action.run (.regular (Store.empty.insert holderPath .nonNull))
          ⟨#[some .nullable, some .nullable]⟩).2 = .regular next ∧
        ¬ next.Holds (.onlyNull holderPath) := by
  refine ⟨by decide +kernel, ?_, ?_, trivial,
    ⟨.operand 1, .regular [(.slot 0, .operand 1)]⟩, _, by decide +kernel,
    congrArg Prod.snd (Action.run_regular _ _ _ _), ?_⟩
  · show (Store.empty.update [(holderPath, .nonNull)]).Holds .noneNull
    exact (Store.holds_empty _).update (by decide +kernel)
  · intro other hother
    have hne : other ≠ holderPath := by
      rintro rfl
      exact hother (by decide +kernel)
    exact decide_eq_false hne
  · intro hnext
    exact absurd (hnext holderPath .nonNull (by decide +kernel)) (by decide +kernel)

end JvmLint
