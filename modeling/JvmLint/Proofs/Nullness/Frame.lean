import JvmLint.Proofs.Nullness.Assignment

/-!
# What a node leaves alone

A node writes entries for the places that it refers to (`Body.referents`): what it
assigns to, dereferences, tests, compares or passes on, each by the path that the chain of
receivers from there spells (`Body.Denotes`). The main result, `changesOnly_denotedBy`, is
that it writes nothing else. No entry for any other path changes, appears or goes away, not
even for a path that goes on from one of these.
-/
namespace JvmLint

/-! ## Entries that change -/

namespace Store

variable {s : Store} {named : AccessPath → Prop}

/-- Every path whose entry is changed, or is new, is one of these, and no entry is lost. -/
structure ChangesOnly (named : AccessPath → Prop) (before after : Store) : Prop where
  changed : ∀ path, after.get? path ≠ before.get? path → named path
  kept : ∀ path, before.get? path ≠ none → after.get? path ≠ none

theorem changesOnly_update {batch : List Update} (h : ∀ u ∈ batch, named u.1) :
    s.ChangesOnly named (s.update batch) := by
  constructor
  · intro path hchanged
    by_contra hpath
    refine hchanged (get?_update_of_not_mem ?_ s)
    rw [List.mem_map]
    rintro ⟨u, hu, rfl⟩
    exact hpath (h u hu)
  · intro path hpresent
    by_cases hpath : path ∈ batch.map Prod.fst
    · obtain ⟨value, -, hget⟩ := get?_update_of_mem hpath
      rw [hget s]
      exact Option.some_ne_none value
    · rwa [get?_update_of_not_mem hpath s]

end Store

/-- From one store an effect makes two, each by writing entries of its own. -/
theorem Effect.apply_of_regular (effect : Effect) (store : Store) (values : NodeValues) :
    ∃ onThen onElse : List Update,
      effect.apply store (.regular store) values =
        .conditional (store.update onThen) (store.update onElse) ∧
      ∀ u ∈ onThen ++ onElse, ∃ r ∈ effect.refinements, u.1 = r.1 := by
  have hupdates : ∀ (batch : List Refinement), ∀ u ∈ updates store values batch,
      ∃ r ∈ batch, u.1 = r.1 := by
    intro batch u hu
    obtain ⟨r, hr, rfl⟩ := List.mem_map.1 hu
    exact ⟨r, hr, rfl⟩
  cases effect with
  | regular batch =>
    refine ⟨updates store values batch, updates store values batch, rfl, fun u hu => ?_⟩
    exact hupdates batch u (or_self_iff.1 (List.mem_append.1 hu))
  | branch onThen onElse =>
    refine ⟨updates store values onThen, updates store values onElse, rfl, fun u hu => ?_⟩
    rw [updates, updates, ← List.map_append] at hu
    exact hupdates (onThen ++ onElse) u hu
  | pass => exact ⟨[], [], rfl, by simp⟩
  | swap => exact ⟨[], [], rfl, by simp⟩

/-! ## The main result -/

namespace Body

/-- A node of this kind names the path: the chain of receivers from a node that it refers
to spells it, or it is that of the exception which the node declares. -/
def DenotedBy (body : Body) (kind : NodeKind) (path : AccessPath) : Prop :=
  (∃ id ∈ body.referents kind, body.Denotes id path) ∨ body.Catches kind path

theorem denotedBy_iff_namedBy {body : Body} {kind : NodeKind} {path : AccessPath} :
    body.DenotedBy kind path ↔ body.NamedBy kind path := by
  simp only [DenotedBy, NamedBy, path_eq_some_iff]

end Body

/-- **A node touches only what it names.** Under every policy a node of any kind has an
action, unless the receivers of something that it refers to run in a circle. Whatever
values were recorded, from one store the action makes a store for each side, which differs
from the first in entries for paths that the node names, and in nothing else. -/
theorem changesOnly_denotedBy (policy : Policy) (body : Body) (node : Node) :
    ((∀ id ∈ body.referents node.kind, ¬ body.RunsInCircle id) →
      ∃ action, Transfer.action? policy body node = some action) ∧
    ∀ action, Transfer.action? policy body node = some action →
      ∀ (values : NodeValues) (store : Store), ∃ thenStore elseStore,
        (action.run (.regular store) values).2 = .conditional thenStore elseStore ∧
        store.ChangesOnly (body.DenotedBy node.kind) thenStore ∧
        store.ChangesOnly (body.DenotedBy node.kind) elseStore := by
  refine ⟨Body.exists_action?_off_circles policy, fun action haction values store => ?_⟩
  obtain ⟨onThen, onElse, happly, hbatch⟩ := action.effect.apply_of_regular store values
  have hdenoted : ∀ u ∈ onThen ++ onElse, body.DenotedBy node.kind u.1 := by
    intro u hu
    obtain ⟨r, hr, hpath⟩ := hbatch u hu
    rw [hpath, Body.denotedBy_iff_namedBy]
    exact (Transfer.sound_of_action? haction r hr).1
  refine ⟨_, _, by rw [Action.run_of_regular, happly], ?_, ?_⟩
  · exact Store.changesOnly_update fun u hu => hdenoted u (List.mem_append_left _ hu)
  · exact Store.changesOnly_update fun u hu => hdenoted u (List.mem_append_right _ hu)

/-- `x.f.equals(y)` -/
def fieldEquals : NodeKind :=
  .methodInvocation (some 1) [2]
    (some ⟨"java.lang.Object", "equals", "(Ljava/lang/Object;)Z", false, false, [], []⟩)

def fieldEqualsBody : Body :=
  .ofKinds #[⟨"x", .ofClass "com.example.Holder", .parameter, none, []⟩,
      ⟨"y", .ofClass "com.example.Holder", .parameter, none, []⟩]
    #[.localVariable 0, .fieldAccess (some 0) (some (holderField "f")), .localVariable 1,
      fieldEquals] #[⟨[0, 1, 2, 3], []⟩]

/-- Afterwards `x.f` is not null, and neither is `y` if the call was true; what was known of
`x` and of `x.f.g` stands as before. -/
theorem changesOnly_denotedBy_fieldEquals :
    (∀ id ∈ fieldEqualsBody.referents fieldEquals, ¬ fieldEqualsBody.RunsInCircle id) ∧
    ∃ action thenStore elseStore,
      Transfer.action? .codeOnly fieldEqualsBody ⟨fieldEquals, none, none, none⟩ = some action ∧
      (action.run (.regular chainStore) (.unset 4)).2 = .conditional thenStore elseStore ∧
      chainStore.ChangesOnly (fieldEqualsBody.DenotedBy fieldEquals) thenStore ∧
      chainStore.ChangesOnly (fieldEqualsBody.DenotedBy fieldEquals) elseStore ∧
      [.slot 0, holderPath, holderPath.field "g", .slot 1].map thenStore.get? =
        [some .nullable, some .nonNull, some .nonNull, some .nonNull] ∧
      [.slot 0, holderPath, holderPath.field "g", .slot 1].map elseStore.get? =
        [some .nullable, some .nonNull, some .nonNull, none] := by
  have hpaths : ∀ id ∈ fieldEqualsBody.referents fieldEquals, fieldEqualsBody.path id ≠ none := by
    decide +kernel
  have hcircle : ∀ id ∈ fieldEqualsBody.referents fieldEquals,
      ¬ fieldEqualsBody.RunsInCircle id := fun id hid =>
    mt Body.path_eq_none_iff.2 (hpaths id hid)
  obtain ⟨hexists, hchanges⟩ :=
    changesOnly_denotedBy .codeOnly fieldEqualsBody ⟨fieldEquals, none, none, none⟩
  obtain ⟨action, haction⟩ := hexists hcircle
  obtain ⟨thenStore, elseStore, hrun, hthen, helse⟩ := hchanges action haction (.unset 4) chainStore
  have hentries : (Transfer.action? .codeOnly fieldEqualsBody ⟨fieldEquals, none, none, none⟩).map
      (fun action => [true, false].map fun result =>
        ((action.run (.regular chainStore) (.unset 4)).2.side result).map fun side =>
          [.slot 0, holderPath, holderPath.field "g", .slot 1].map side.get?) =
      some [some [some .nullable, some .nonNull, some .nonNull, some .nonNull],
        some [some .nullable, some .nonNull, some .nonNull, none]] := by
    decide +kernel
  simp only [haction, hrun, Option.map_some, Option.some.injEq] at hentries
  obtain ⟨hentriesThen, hrest⟩ := List.cons.inj hentries
  obtain ⟨hentriesElse, -⟩ := List.cons.inj hrest
  exact ⟨hcircle, action, thenStore, elseStore, haction, hrun, hthen, helse,
    Option.some.inj hentriesThen, Option.some.inj hentriesElse⟩

end JvmLint
