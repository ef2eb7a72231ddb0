import JvmLint.Proofs.Nullness.Order
import Mathlib.Order.Bounds.Basic

/-!
# Joins of stores and of flows

The join of two stores drops every path that only one of them records; where two
flows meet, a side that only one of them reaches is kept. What is absent is on top
in the order on stores, and at the bottom in that on sides. Either way the result is
a least upper bound, and so neither the order nor the grouping of joins matters
(`isSemilattice_of_bounds`).

The operations of an analysis distribute over joins: writing a batch of entries
(`Store.update_join`), changing, swapping and routing sides (`Flow.mapSides_merge`,
`Flow.route_merge`), and forgetting how a condition came out (`Flow.merged_merge`).
All the laws together are `join_merge_laws`.
-/
namespace JvmLint

/-! ## Semilattices -/

/-- Joining is commutative, associative and idempotent and gives least upper bounds. -/
structure IsSemilattice {α : Type} [PartialOrder α] (join : α → α → α) : Prop where
  comm : ∀ a b, join a b = join b a
  assoc : ∀ a b c, join (join a b) c = join a (join b c)
  idem : ∀ a, join a a = a
  isLUB : ∀ a b, IsLUB {a, b} (join a b)

/-- The laws of a join follow from what is above it. -/
theorem isSemilattice_of_bounds {α : Type} [PartialOrder α] {join : α → α → α}
    (left : ∀ a b, a ≤ join a b) (right : ∀ a b, b ≤ join a b)
    (least : ∀ {a b c}, a ≤ c → b ≤ c → join a b ≤ c) : IsSemilattice join := by
  have hle : ∀ a b c, join a b ≤ c ↔ a ≤ c ∧ b ≤ c := fun a b c =>
    ⟨fun h => ⟨(left a b).trans h, (right a b).trans h⟩, fun h => least h.1 h.2⟩
  refine ⟨fun a b => ?_, fun a b c => ?_, fun a => ?_, fun a b => ⟨?_, fun c hc => ?_⟩⟩
  · exact eq_of_forall_ge_iff fun d => by rw [hle, hle, and_comm]
  · exact eq_of_forall_ge_iff fun d => by rw [hle, hle, hle, hle, and_assoc]
  · exact eq_of_forall_ge_iff fun d => by rw [hle, and_self_iff]
  · rintro c (rfl | rfl)
    · exact left c b
    · exact right a c
  · exact least (hc (Set.mem_insert a {b})) (hc (Set.mem_insert_of_mem a rfl))

/-! ## Stores -/

theorem Nullness.le_iff (a b : Nullness) : a ≤ b ↔ a = .bottom ∨ a = b ∨ b = .nullable := by
  cases a <;> cases b <;> decide

theorem Nullness.join_self (a : Nullness) : a.join a = a := by cases a <;> rfl

namespace Store

theorem isSemilattice_join : IsSemilattice join :=
  isSemilattice_of_bounds le_join_left le_join_right join_le

/-- What is written is the same on both sides, and what is not is joined as before. -/
theorem update_join (updates : List Update) (s t : Store) :
    (s.join t).update updates = (s.update updates).join (t.update updates) := by
  ext path : 1
  rw [get?_join]
  by_cases hpath : path ∈ updates.map Prod.fst
  · obtain ⟨value, -, hget⟩ := get?_update_of_mem hpath
    simp only [hget, Option.bind_some, Option.map_some, value.join_self]
  · simp only [get?_update_of_not_mem hpath, get?_join]

end Store

/-! ## Sides -/

namespace SideLE

theorem join_le_iff {a b c : Option Store} :
    SideLE (joinOption a b) c ↔ SideLE a c ∧ SideLE b c :=
  ⟨fun h => ⟨(join_left a b).trans h, (join_right a b).trans h⟩, fun h => join_le h.1 h.2⟩

theorem eq_of_forall_iff {a b : Option Store} (h : ∀ c, SideLE a c ↔ SideLE b c) : a = b :=
  antisymm ((h b).2 (refl b)) ((h a).1 (refl a))

end SideLE

/-- Four sides may be joined by rows or by columns. -/
theorem joinOption_joinOption (a b c d : Option Store) :
    joinOption (joinOption a b) (joinOption c d) =
      joinOption (joinOption a c) (joinOption b d) := by
  refine SideLE.eq_of_forall_iff fun e => ?_
  simp only [SideLE.join_le_iff]
  exact and_and_and_comm

theorem map_joinOption {f : Store → Store} (hf : ∀ s t, f (s.join t) = (f s).join (f t))
    (a b : Option Store) : (joinOption a b).map f = joinOption (a.map f) (b.map f) := by
  cases a with
  | none => rfl
  | some s =>
    cases b with
    | none => rfl
    | some t => exact congrArg some (hf s t)

/-! ## Flows -/

namespace Flow

theorem isSemilattice_merge : IsSemilattice merge :=
  isSemilattice_of_bounds le_merge_left le_merge_right merge_le

theorem unreached_merge (f : Flow) : unreached.merge f = f := rfl

theorem mapSides_merge {onThen onElse : Store → Store}
    (hthen : ∀ s t, onThen (s.join t) = (onThen s).join (onThen t))
    (helse : ∀ s t, onElse (s.join t) = (onElse s).join (onElse t)) (f g : Flow) :
    (f.merge g).mapSides onThen onElse =
      (f.mapSides onThen onElse).merge (g.mapSides onThen onElse) := by
  simp only [mapSides, merge, map_joinOption hthen, map_joinOption helse]

theorem swapped_merge (f g : Flow) : (f.merge g).swapped = f.swapped.merge g.swapped := rfl

theorem route_merge (rule : FlowRule) (f g : Flow) :
    (f.merge g).route rule = (f.route rule).merge (g.route rule) := by
  cases rule <;> rfl

theorem merged_merge (f g : Flow) : (f.merge g).merged = joinOption f.merged g.merged :=
  joinOption_joinOption f.thenSide g.thenSide f.elseSide g.elseSide

end Flow

/-- **Joins.** The stores with their join, and the flows with theirs, are
semilattices, in which a store is below another one if it has every path of it with a
value below. Writing a batch distributes over the join of stores, and two batches may
be written as one. A flow that is not reached adds nothing where two flows meet, and
whatever is done to the sides of a flow distributes over meeting. -/
theorem join_merge_laws :
    ((∀ a b : Nullness, a ≤ b ↔ a = .bottom ∨ a = b ∨ b = .nullable) ∧
      (∀ s t : Store, s ≤ t ↔
        ∀ path b, t.get? path = some b → ∃ a, s.get? path = some a ∧ a ≤ b) ∧
      IsSemilattice Store.join ∧
      (∀ (updates : List Update) (s t : Store),
        (s.join t).update updates = (s.update updates).join (t.update updates)) ∧
      ∀ (first second : List Update) (s : Store),
        (s.update first).update second = s.update (first ++ second)) ∧
    IsSemilattice Flow.merge ∧
      (∀ f : Flow, Flow.unreached.merge f = f ∧ f.merge .unreached = f) ∧
      (∀ (onThen onElse : List Update) (f g : Flow),
        (f.merge g).mapSides (·.update onThen) (·.update onElse) =
          (f.mapSides (·.update onThen) (·.update onElse)).merge
            (g.mapSides (·.update onThen) (·.update onElse))) ∧
      (∀ (rule : FlowRule) (f g : Flow),
        (f.merge g).route rule = (f.route rule).merge (g.route rule)) ∧
      (∀ f g : Flow, (f.merge g).swapped = f.swapped.merge g.swapped) ∧
      ∀ f g : Flow, (f.merge g).merged = joinOption f.merged g.merged := by
  have hright : ∀ f : Flow, f.merge .unreached = f := fun f =>
    (Flow.isSemilattice_merge.comm f .unreached).trans f.unreached_merge
  refine ⟨⟨Nullness.le_iff, fun _ _ => Iff.rfl, Store.isSemilattice_join, Store.update_join,
    fun first second s => (s.update_append first second).symm⟩, Flow.isSemilattice_merge,
    fun f => ⟨f.unreached_merge, hright f⟩, fun onThen onElse => ?_, Flow.route_merge,
    Flow.swapped_merge, Flow.merged_merge⟩
  exact Flow.mapSides_merge (Store.update_join onThen) (Store.update_join onElse)

end JvmLint
