import JvmLint.Proofs.Nullness.Refinement

/-!
# Facts that a condition finds split

The facts that come to a node may be split by a condition that was evaluated
before it. A node that is no condition forgets the split: it does the same on the
two stores as on their join. A condition refines each side by itself, so the
split survives it wherever it writes nothing (`split_survives_check`), even if
the node has nothing to do with the condition that made it.

The main result, `run_conditional_join`, compares the two runs path by path.
-/
namespace JvmLint

/-! ## A side after a condition -/

theorem Effect.side_apply_branch {effect : Effect} {onThen onElse : List Refinement}
    (h : effect = .branch onThen onElse) (store t e : Store) (values : NodeValues)
    (result : Bool) : (effect.apply store (.conditional t e) values).side result =
      some ((cond result t e).update (updates store values (effect.batch result))) := by
  subst h
  cases result <;> rfl

/-- One batch on two stores: they agree where it writes, and keep what they said
elsewhere. -/
theorem Store.get?_update_update (updates : List Update) (s t : Store) (path : AccessPath) :
    (path ∈ updates.map Prod.fst → (s.update updates).get? path = (t.update updates).get? path) ∧
      (path ∉ updates.map Prod.fst → (s.update updates).get? path = s.get? path ∧
        (t.update updates).get? path = t.get? path) := by
  refine ⟨fun h => ?_, fun h => ⟨get?_update_of_not_mem h s, get?_update_of_not_mem h t⟩⟩
  obtain ⟨value, -, hget⟩ := get?_update_of_mem h
  rw [hget s, hget t]

/-! ## The main result -/

/-- **Split facts.** Run a node that is no connective on two sides and on their
join. Its value is the same. If it is no condition, so are the stores that it
leaves. If it is one, then on either side the stores agree on the paths that the
node refines there; of every other path the first run keeps what that side said,
and the second what the join says. -/
theorem run_conditional_join {policy : Policy} {body : Body} {node : Node} {action : Action}
    (h : Transfer.action? policy body node = some action)
    (hconnective : node.kind.isConnective = false) (values : NodeValues) (t e : Store) :
    (action.run (.conditional t e) values).1 = (action.run (.regular (t.join e)) values).1 ∧
      (node.kind.isCondition = false → (action.run (.conditional t e) values).2 =
        (action.run (.regular (t.join e)) values).2) ∧
      (node.kind.isCondition = true → ∀ result, ∃ split joined,
        (action.run (.conditional t e) values).2.side result = some split ∧
        (action.run (.regular (t.join e)) values).2.side result = some joined ∧
        ∀ path, (path ∈ (action.effect.batch result).map Prod.fst →
            split.get? path = joined.get? path) ∧
          (path ∉ (action.effect.batch result).map Prod.fst →
            split.get? path = (cond result t e).get? path ∧
              joined.get? path = (t.join e).get? path)) := by
  rw [Action.run_conditional, Action.run_of_regular]
  refine ⟨rfl, fun hnot => ?_, fun hcondition result => ?_⟩
  · obtain ⟨batch, heffect⟩ := Transfer.regular_of_action? h hnot
    rw [heffect]
    rfl
  · obtain ⟨onThen, onElse, heffect⟩ := Transfer.branch_of_action? h hcondition hconnective
    have hsplit := Effect.side_apply_branch heffect (t.join e) t e values result
    have hjoined := Effect.side_apply_branch heffect (t.join e) (t.join e) (t.join e) values result
    rw [Bool.cond_self] at hjoined
    refine ⟨_, _, hsplit, hjoined, fun path => ?_⟩
    rw [← Effect.map_fst_updates (t.join e) values (action.effect.batch result)]
    exact Store.get?_update_update _ _ _ path

/-- Of `x`, the first variable, is known that it is null, or that it is not. -/
def slotStore (value : Nullness) : Store := Store.empty.insert (.slot 0) value

/-- First `x` is compared with null, then `y`. -/
def comparedTwice : Body :=
  .ofKinds #[⟨"x", .ofClass "java.lang.String", .parameter, none, []⟩,
      ⟨"y", .ofClass "java.lang.String", .parameter, none, []⟩]
    #[.localVariable 0, .nullLiteral, .equalTo 0 1, .localVariable 1, .equalTo 3 1]
    #[⟨[0, 1, 2, 3, 4], []⟩]

def comparedTwiceValues : NodeValues :=
  ⟨#[some .nullable, some .null, some .nonNull, some .nullable]⟩

theorem run_conditional_comparedTwice :
    ∃ action, Transfer.action? .codeOnly comparedTwice ⟨.equalTo 3 1, none, none, none⟩ =
        some action ∧ (NodeKind.equalTo 3 1).isConnective = false ∧
      ∃ split joined,
        (action.run (.conditional (slotStore .null) (slotStore .nonNull)) comparedTwiceValues).2.side
          true = some split ∧
        (action.run (.regular ((slotStore .null).join (slotStore .nonNull)))
          comparedTwiceValues).2.side true = some joined ∧
        split.get? (.slot 1) = joined.get? (.slot 1) ∧
        split.get? (.slot 0) = some .null ∧ joined.get? (.slot 0) = some .nullable := by
  have hpaths : (Transfer.action? .codeOnly comparedTwice ⟨.equalTo 3 1, none, none, none⟩).map
      (fun action => (action.effect.batch true).map Prod.fst) = some [.slot 1] := by
    decide +kernel
  obtain ⟨action, haction, hbatch⟩ := Option.map_eq_some_iff.1 hpaths
  have hrun := run_conditional_join haction rfl comparedTwiceValues (slotStore .null)
    (slotStore .nonNull)
  obtain ⟨split, joined, hsplit, hjoined, hpath⟩ := hrun.2.2 rfl true
  rw [hbatch] at hpath
  have hx := (hpath (.slot 0)).2 (by decide +kernel)
  have hnull : (slotStore .null).get? (.slot 0) = some .null := by decide +kernel
  have hnullable : ((slotStore .null).join (slotStore .nonNull)).get? (.slot 0) =
      some .nullable := by decide +kernel
  exact ⟨action, haction, rfl, split, joined, hsplit, hjoined,
    (hpath (.slot 1)).1 (by decide +kernel), hx.1.trans hnull, hx.2.trans hnullable⟩

/-- A method of which nothing is known but that it returns a truth value. -/
def checkMethod : Method :=
  ⟨"com.example.Check", "check", "(Z)Z", true, false, [], []⟩

/-- Whether `x` is null is passed to a check. -/
def checkedComparison : Body :=
  .ofKinds #[⟨"x", .ofClass "java.lang.String", .parameter, none, []⟩]
    #[.localVariable 0, .nullLiteral, .equalTo 0 1, .methodInvocation none [2] (some checkMethod)]
    #[⟨[0, 1, 2, 3], []⟩]

def checkedComparisonValues : NodeValues := ⟨#[some .nullable, some .null, some .nonNull]⟩

/-- What the comparison found out of `x` on either side is taken for what the
check found out. -/
theorem split_survives_check :
    (Transfer.action? .codeOnly checkedComparison ⟨.equalTo 0 1, none, none, none⟩).map
        (fun comparison => (comparison.run (.regular .empty) checkedComparisonValues).2) =
      some (.conditional (slotStore .null) (slotStore .nonNull)) ∧
    (NodeKind.methodInvocation none [2] (some checkMethod)).isConnective = false ∧
    ∃ action, Transfer.action? .codeOnly checkedComparison
        ⟨.methodInvocation none [2] (some checkMethod), none, none, none⟩ = some action ∧
      (action.run (.conditional (slotStore .null) (slotStore .nonNull)) checkedComparisonValues).2 ≠
        (action.run (.regular ((slotStore .null).join (slotStore .nonNull)))
          checkedComparisonValues).2 := by
  have haction : Transfer.action? .codeOnly checkedComparison
      ⟨.methodInvocation none [2] (some checkMethod), none, none, none⟩ =
        some ⟨.known .nonNull, .branch [] []⟩ := by decide +kernel
  exact ⟨by decide +kernel, rfl, _, haction, by decide +kernel⟩

end JvmLint
