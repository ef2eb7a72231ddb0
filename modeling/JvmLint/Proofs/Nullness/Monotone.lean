import JvmLint.Proofs.Nullness.Transfer

/-!
# How far the analysis is monotone

A node that is run on smaller facts and smaller values leaves smaller facts. Its
own value is smaller too, with one exception. A field access looks its cell up in
the store, and an entry that excludes every value counts as none there. Under a
policy that goes by the code alone the cell can then hold anything, whereas a
larger entry is believed (`read_of_excluded_cell`).

The main result, `run_le_run_iff`, says that values are ordered in every other case
and in this one never.
-/
namespace JvmLint

/-- What is said of a path whatever the outcome of the last condition was. -/
def Flow.get? (flow : Flow) (path : AccessPath) : Option Nullness :=
  flow.merged.bind (·.get? path)

/-! ## Field cells -/

namespace Source

/-- The field cell that a source looks up, if it is such a look-up. -/
def cell? : Source → Option AccessPath
  | storedField path _ => some path
  | _ => none

theorem cell?_of_isPlain {source : Source} (h : source.isPlain = true) : source.cell? = none := by
  cases source with
  | storedField path declared => cases h
  | _ => rfl

/-- A look-up respects the order unless it turns down the smaller entry and
believes the larger one. -/
theorem eval_storedField_le_iff {s t : Store} (hst : s ≤ t) (v w : NodeValues)
    (path : AccessPath) :
    (storedField path .nullable).eval s v ≤ (storedField path .nullable).eval t w ↔
      (s.get? path = some .bottom →
        t.get? path ≠ some .null ∧ t.get? path ≠ some .nonNull) := by
  simp only [eval]
  cases ht : t.get? path with
  | none => simp [Nullness.le_nullable]
  | some b =>
    obtain ⟨a, hs, hab⟩ := hst path b ht
    rw [hs]
    revert hab
    cases a <;> cases b <;> decide

end Source

namespace Transfer

variable {body : Body} {node : Node} {action : Action}

/-- Going by the code alone, a node looks up no cell, or it is a field access that
looks up its own, without a declaration to fall back on. -/
theorem value_codeOnly (h : action? .codeOnly body node = some action) :
    action.value.isPlain = true ∨ ∃ path, action.value = .storedField path .nullable ∧
      node.kind.isFieldAccess = true ∧ body.pathOfKind body.path node.kind = some (some path) := by
  by_cases hfield : node.kind.isFieldAccess = true
  · obtain ⟨kind, type, tree, line⟩ := node
    cases kind with
    | fieldAccess receiver field =>
      obtain ⟨dereferenced, -, h⟩ := Option.bind_eq_some_iff.1 h
      obtain ⟨path, hpath, h⟩ := Option.bind_eq_some_iff.1 h
      cases h
      cases field with
      | none => exact Or.inl rfl
      | some field =>
        simp only [fieldValue]
        split
        · exact Or.inl rfl
        · cases path with
          | none => exact Or.inl rfl
          | some path => exact Or.inr ⟨path, rfl, rfl, hpath⟩
    | _ => cases hfield
  · rw [Bool.not_eq_true] at hfield
    exact Or.inl ((value_of_action? h).2 hfield)

end Transfer

/-! ## The main result -/

/-- **Monotonicity.** Going by the code alone, run a node on facts that are reached
and on values, and again on larger ones. The facts that it leaves are ordered.
The values are ordered as well, exactly unless the node looks up a field cell that
the smaller facts exclude every value for, while the larger ones say that it is
null or that it is not. Only a field access looks up a cell, the one it names. -/
theorem run_le_run_iff {body : Body} {node : Node} {action : Action}
    (h : Transfer.action? .codeOnly body node = some action) {low high : Flow}
    (hle : low ≤ high) (hreached : low.isReached = true) {v w : NodeValues}
    (hvalues : ∀ n, Option.Rel (· ≤ ·) (v.get? n) (w.get? n)) :
    (action.run low v).2 ≤ (action.run high w).2 ∧
      ((action.run low v).1 ≤ (action.run high w).1 ↔
        ∀ path ∈ action.value.cell?, low.get? path = some .bottom →
          high.get? path ≠ some .null ∧ high.get? path ≠ some .nonNull) ∧
      ∀ path ∈ action.value.cell?, node.kind.isFieldAccess = true ∧
        body.pathOfKind body.path node.kind = some (some path) := by
  obtain ⟨s, t, hs, ht, hst⟩ := Flow.exists_merged_le hle hreached
  have hplain : ∀ r ∈ action.effect.refinements, r.2.isPlain = true := fun r hr =>
    (Transfer.sound_of_action? h r hr).2.2
  simp only [Action.run, Flow.get?, hs, ht, Option.getD_some, Option.bind_some]
  refine ⟨Effect.apply_le_apply hst hle hplain fun r _ n _ => hvalues n, ?_⟩
  rcases Transfer.value_codeOnly h with hvalue | ⟨path, hvalue, hfield, hpath⟩
  · have hordered := action.value.eval_le_eval hst hvalue fun n _ => hvalues n
    rw [Source.cell?_of_isPlain hvalue]
    exact ⟨iff_of_true hordered (by simp), by simp⟩
  · rw [hvalue, Source.eval_storedField_le_iff hst]
    have hcell : ∀ other ∈ (Source.storedField path .nullable).cell?, other = path := by
      rintro other ⟨⟩
      rfl
    refine ⟨⟨fun hlookup other hother => ?_, fun hlookup => hlookup path rfl⟩,
      fun other hother => ?_⟩
    · rw [hcell other hother]
      exact hlookup
    · rw [hcell other hother]
      exact ⟨hfield, hpath⟩

/-- A field of the running method's receiver is read. -/
def ownFieldRead : Body :=
  .ofKinds #[] #[.fieldAccess none (some ⟨"com.example.Person", "name",
    .ofClass "java.lang.String", false, false, false, none, []⟩)] #[⟨[0], []⟩]

/-- The only fact is about that field. -/
def ownFieldStore (value : Nullness) : Store :=
  Store.empty.insert (AccessPath.self.field "name") value

theorem ownFieldStore_le {a b : Nullness} (h : a ≤ b) : ownFieldStore a ≤ ownFieldStore b :=
  Store.insert_le_insert (le_refl _) _ h

theorem run_le_run_ownFieldRead :
    ∃ node action, ownFieldRead.nodes[0]? = some node ∧
      Transfer.action? .codeOnly ownFieldRead node = some action ∧
      (⟨some (ownFieldStore .null), none⟩ : Flow) ≤ .regular (ownFieldStore .nullable) ∧
      (action.run ⟨some (ownFieldStore .null), none⟩ (.unset 1)).1 ≤
        (action.run (.regular (ownFieldStore .nullable)) (.unset 1)).1 := by
  have hsome : (ownFieldRead.nodes[0]?.bind (Transfer.action? .codeOnly ownFieldRead)).map
      (fun action => action.value.cell?) = some (some (AccessPath.self.field "name")) := by
    decide +kernel
  obtain ⟨action, hbind, hcell⟩ := Option.map_eq_some_iff.1 hsome
  obtain ⟨node, hnode, haction⟩ := Option.bind_eq_some_iff.1 hbind
  have hle : (⟨some (ownFieldStore .null), none⟩ : Flow) ≤ .regular (ownFieldStore .nullable) :=
    Flow.le_def.2 ⟨.some_some.2 (ownFieldStore_le (by decide)), .none_left _⟩
  have hvalues : ∀ n, Option.Rel (· ≤ ·) ((NodeValues.unset 1).get? n)
      ((NodeValues.unset 1).get? n) := by
    intro n
    rw [NodeValues.get?_unset]
    exact .none
  refine ⟨node, action, hnode, haction, hle, ((run_le_run_iff haction hle rfl hvalues).2.1).2 ?_⟩
  rw [hcell]
  rintro path ⟨⟩
  decide +kernel

/-- Nothing can be in the cell, so the read falls back on what it would say
without an entry; with a larger entry it says more. -/
theorem read_of_excluded_cell :
    ∃ node action, ownFieldRead.nodes[0]? = some node ∧
      Transfer.action? .codeOnly ownFieldRead node = some action ∧
      Flow.regular (ownFieldStore .bottom) ≤ .regular (ownFieldStore .null) ∧
      (Flow.regular (ownFieldStore .bottom)).isReached = true ∧
      ¬ (action.run (.regular (ownFieldStore .bottom)) (.unset 1)).1 ≤
        (action.run (.regular (ownFieldStore .null)) (.unset 1)).1 := by
  have hsome : (ownFieldRead.nodes[0]?.bind (Transfer.action? .codeOnly ownFieldRead)).map
      (fun action => ((action.run (.regular (ownFieldStore .bottom)) (.unset 1)).1,
        (action.run (.regular (ownFieldStore .null)) (.unset 1)).1)) =
      some (.nullable, .null) := by
    decide +kernel
  obtain ⟨action, hbind, hruns⟩ := Option.map_eq_some_iff.1 hsome
  obtain ⟨node, hnode, haction⟩ := Option.bind_eq_some_iff.1 hbind
  refine ⟨node, action, hnode, haction,
    Flow.regular_le_regular (ownFieldStore_le (by decide)), rfl, ?_⟩
  rw [(Prod.mk.inj hruns).1, (Prod.mk.inj hruns).2]
  decide

end JvmLint
