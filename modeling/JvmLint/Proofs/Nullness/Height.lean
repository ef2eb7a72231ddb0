import JvmLint.Proofs.Nullness.Worklist
import Mathlib.Algebra.Group.Action.Defs
import Mathlib.Algebra.Order.BigOperators.Group.Finset

/-!
# How far facts can rise

The height of a store counts, over the paths that a body can name, how often
each entry has risen: from the least value over the middle and the greatest to
none at all. It never falls and is bounded (`Store.height_le`), and of two stores
one of which is below the other, equal heights mean that they are the same
(`Store.eq_of_height_eq`). The same holds of flows and of all the facts of a
worklist.

`Confined` says that the facts speak of named paths only; every run keeps it.
-/
namespace JvmLint

/-! ## Stores -/

def Nullness.height : Nullness → Nat
  | bottom => 0
  | null | nonNull => 1
  | nullable => 2

theorem Nullness.height_le_height {a b : Nullness} : a ≤ b → a.height ≤ b.height := by
  cases a <;> cases b <;> decide

theorem Nullness.eq_of_height_eq {a b : Nullness} : a ≤ b → a.height = b.height → a = b := by
  cases a <;> cases b <;> decide

/-- An entry that is missing stands above all others. -/
def entryHeight : Option Nullness → Nat
  | some value => value.height
  | none => 3

theorem entryHeight_le (entry : Option Nullness) : entryHeight entry ≤ 3 := by
  cases entry with
  | none => exact le_refl 3
  | some value => cases value <;> decide

namespace Store

variable {paths : Finset AccessPath} {s t : Store}

/-- The store records no path but these. -/
def Within (paths : Finset AccessPath) (store : Store) : Prop :=
  ∀ path value, store.get? path = some value → path ∈ paths

def height (paths : Finset AccessPath) (store : Store) : Nat :=
  ∑ path ∈ paths, entryHeight (store.get? path)

theorem entryHeight_get?_le (h : s ≤ t) (path : AccessPath) :
    entryHeight (s.get? path) ≤ entryHeight (t.get? path) := by
  cases ht : t.get? path with
  | none => exact entryHeight_le _
  | some b =>
    obtain ⟨a, ha, hab⟩ := h path b ht
    rw [ha]
    exact Nullness.height_le_height hab

theorem get?_eq_of_entryHeight_eq (h : s ≤ t) {path : AccessPath}
    (heq : entryHeight (s.get? path) = entryHeight (t.get? path)) :
    s.get? path = t.get? path := by
  cases ht : t.get? path with
  | none =>
    cases hs : s.get? path with
    | none => rfl
    | some a =>
      rw [hs, ht] at heq
      cases a <;> cases heq
  | some b =>
    obtain ⟨a, ha, hab⟩ := h path b ht
    rw [ha, ht] at heq
    rw [ha, Nullness.eq_of_height_eq hab heq]

theorem height_le_height (h : s ≤ t) : s.height paths ≤ t.height paths :=
  Finset.sum_le_sum fun path _ => entryHeight_get?_le h path

theorem height_le (paths : Finset AccessPath) (store : Store) :
    store.height paths ≤ 3 * paths.card := by
  have h : store.height paths ≤ paths.card • 3 :=
    Finset.sum_le_card_nsmul _ _ _ fun path _ => entryHeight_le (store.get? path)
  rwa [smul_eq_mul, Nat.mul_comm] at h

theorem Within.of_le (h : s.Within paths) (hst : s ≤ t) : t.Within paths := by
  intro path value hvalue
  obtain ⟨a, ha, -⟩ := hst path value hvalue
  exact h path a ha

theorem eq_of_height_eq (hs : s.Within paths) (h : s ≤ t)
    (heq : s.height paths = t.height paths) : s = t := by
  have hentries := (Finset.sum_eq_sum_iff_of_le fun path _ => entryHeight_get?_le h path).1 heq
  ext path : 1
  by_cases hpath : path ∈ paths
  · exact get?_eq_of_entryHeight_eq h (hentries path hpath)
  · have hnone : ∀ u : Store, u.Within paths → u.get? path = none := fun u hu =>
      Option.eq_none_iff_forall_ne_some.2 fun value hvalue => hpath (hu path value hvalue)
    rw [hnone s hs, hnone t (hs.of_le h)]

theorem within_empty : empty.Within paths := by
  intro path value hvalue
  rw [get?_empty] at hvalue
  cases hvalue

theorem Within.update {batch : List Update} (h : s.Within paths)
    (hbatch : ∀ u ∈ batch, u.1 ∈ paths) : (s.update batch).Within paths := by
  induction batch generalizing s with
  | nil => exact h
  | cons u batch ih =>
    refine ih (fun path value hvalue => ?_) fun v hv => hbatch v (List.mem_cons_of_mem _ hv)
    rw [get?_insert] at hvalue
    split at hvalue
    · rename_i hpath
      rw [hpath]
      exact hbatch u List.mem_cons_self
    · exact h path value hvalue

end Store

/-! ## Flows -/

namespace SideLE

variable {paths : Finset AccessPath} {a b : Option Store}

/-- A side that is not reached stands below all others. -/
def height (paths : Finset AccessPath) : Option Store → Nat
  | some store => store.height paths + 1
  | none => 0

theorem height_le_height (h : SideLE a b) : height paths a ≤ height paths b := by
  cases a with
  | none => exact Nat.zero_le _
  | some s =>
    obtain ⟨t, ht, hst⟩ := h s rfl
    rw [Option.mem_def.1 ht]
    exact Nat.succ_le_succ (Store.height_le_height hst)

theorem height_le (paths : Finset AccessPath) (side : Option Store) :
    height paths side ≤ 3 * paths.card + 1 := by
  cases side with
  | none => exact Nat.zero_le _
  | some s => exact Nat.succ_le_succ (s.height_le paths)

theorem eq_of_height_eq (ha : ∀ s ∈ a, s.Within paths) (h : SideLE a b)
    (heq : height paths a = height paths b) : a = b := by
  cases a with
  | none =>
    cases b with
    | none => rfl
    | some t => cases heq
  | some s =>
    obtain ⟨t, ht, hst⟩ := h s rfl
    rw [Option.mem_def.1 ht] at heq ⊢
    rw [Store.eq_of_height_eq (ha s rfl) hst (Nat.succ.inj heq)]

theorem within_join (ha : ∀ s ∈ a, s.Within paths) (hb : ∀ s ∈ b, s.Within paths) :
    ∀ s ∈ joinOption a b, s.Within paths := by
  cases a with
  | none => exact hb
  | some s =>
    cases b with
    | none => exact ha
    | some t =>
      rintro _ ⟨⟩
      exact (ha s rfl).of_le (Store.le_join_left s t)

end SideLE

namespace Flow

variable {paths : Finset AccessPath} {f g : Flow}

/-- Both sides record no path but these. -/
def Within (paths : Finset AccessPath) (flow : Flow) : Prop :=
  (∀ s ∈ flow.thenSide, s.Within paths) ∧ ∀ s ∈ flow.elseSide, s.Within paths

def height (paths : Finset AccessPath) (flow : Flow) : Nat :=
  SideLE.height paths flow.thenSide + SideLE.height paths flow.elseSide

theorem height_le_height (h : f ≤ g) : f.height paths ≤ g.height paths :=
  Nat.add_le_add (thenSide_le h).height_le_height (elseSide_le h).height_le_height

theorem height_le (paths : Finset AccessPath) (flow : Flow) :
    flow.height paths ≤ 2 * (3 * paths.card + 1) := by
  have hthen := SideLE.height_le paths flow.thenSide
  have helse := SideLE.height_le paths flow.elseSide
  unfold height
  omega

theorem eq_of_height_eq (hf : f.Within paths) (h : f ≤ g)
    (heq : f.height paths = g.height paths) : f = g := by
  have hthen : SideLE.height paths f.thenSide ≤ SideLE.height paths g.thenSide :=
    (thenSide_le h).height_le_height
  have helse : SideLE.height paths f.elseSide ≤ SideLE.height paths g.elseSide :=
    (elseSide_le h).height_le_height
  unfold height at heq
  have h1 := SideLE.eq_of_height_eq hf.1 (thenSide_le h) (by omega)
  have h2 := SideLE.eq_of_height_eq hf.2 (elseSide_le h) (by omega)
  cases f
  cases g
  cases h1
  cases h2
  rfl

theorem within_unreached : unreached.Within paths := by
  constructor
  · rintro _ ⟨⟩
  · rintro _ ⟨⟩

theorem within_regular {s : Store} (h : s.Within paths) : (regular s).Within paths :=
  ⟨by rintro _ ⟨⟩; exact h, by rintro _ ⟨⟩; exact h⟩

namespace Within

theorem merge (hf : f.Within paths) (hg : g.Within paths) : (f.merge g).Within paths :=
  ⟨SideLE.within_join hf.1 hg.1, SideLE.within_join hf.2 hg.2⟩

theorem merged (hf : f.Within paths) : (f.merged.getD .empty).Within paths := by
  cases hm : f.merged with
  | none => exact Store.within_empty
  | some s => exact SideLE.within_join hf.1 hf.2 s hm

theorem route (hf : f.Within paths) (rule : FlowRule) : (f.route rule).Within paths := by
  have hnone : ∀ s ∈ (none : Option Store), s.Within paths := by rintro _ ⟨⟩
  cases rule with
  | eachToEach => exact hf
  | thenToBoth => exact ⟨hf.1, hf.1⟩
  | elseToBoth => exact ⟨hf.2, hf.2⟩
  | thenToThen => exact ⟨hf.1, hnone⟩
  | elseToElse => exact ⟨hnone, hf.2⟩

theorem mapSides (hf : f.Within paths) {onThen onElse : Store → Store}
    (hthen : ∀ s, s.Within paths → (onThen s).Within paths)
    (helse : ∀ s, s.Within paths → (onElse s).Within paths) :
    (f.mapSides onThen onElse).Within paths := by
  constructor
  · intro s hs
    obtain ⟨t, ht, rfl⟩ := Option.map_eq_some_iff.1 hs
    exact hthen t (hf.1 t ht)
  · intro s hs
    obtain ⟨t, ht, rfl⟩ := Option.map_eq_some_iff.1 hs
    exact helse t (hf.2 t ht)

end Within

end Flow

/-! ## Visits -/

section Visits

variable {paths : Finset AccessPath}

theorem Effect.within_apply {effect : Effect} {store : Store} {input : Flow}
    (hstore : store.Within paths) (hinput : input.Within paths)
    (hpaths : ∀ r ∈ effect.refinements, r.1 ∈ paths) (values : NodeValues) :
    (effect.apply store input values).Within paths := by
  have hupdate : ∀ batch ⊆ effect.refinements, ∀ s : Store, s.Within paths →
      (s.update (updates store values batch)).Within paths := by
    intro batch hbatch s hs
    refine hs.update fun u hu => ?_
    obtain ⟨r, hr, rfl⟩ := List.mem_map.1 hu
    exact hpaths r (hbatch hr)
  cases effect with
  | regular batch => exact Flow.within_regular (hupdate batch (List.Subset.refl _) store hstore)
  | branch onThen onElse =>
    exact hinput.mapSides (hupdate onThen (List.subset_append_left _ _))
      (hupdate onElse (List.subset_append_right _ _))
  | pass => exact hinput
  | swap => exact ⟨hinput.2, hinput.1⟩

/-- Every entry that an action of the graph writes is for one of these paths. -/
def Graph.Writes (graph : Graph) (paths : Finset AccessPath) : Prop :=
  ∀ node action, graph.action? node = some action → ∀ r ∈ action.effect.refinements, r.1 ∈ paths

theorem Visit.within_foldlM {graph : Graph} (hw : graph.Writes paths) {nodes : List NodeId}
    {visit visit' : Visit} (h : nodes.foldlM (step graph) visit = some visit')
    (hflow : visit.flow.Within paths) : visit'.flow.Within paths := by
  induction nodes generalizing visit with
  | nil => cases h; exact hflow
  | cons node rest ih =>
    obtain ⟨mid, hmid, hrest⟩ := foldlM_cons_eq_some.1 h
    obtain ⟨action, haction, rfl⟩ := step_eq_some.1 hmid
    exact ih hrest (Effect.within_apply hflow.merged hflow (hw node action haction) _)

end Visits

/-! ## Runs -/

namespace Worklist

variable {graph : Graph} {paths : Finset AccessPath} {list next : Worklist}

/-- The facts at every block speak of these paths only. -/
def Confined (paths : Finset AccessPath) (list : Worklist) : Prop :=
  ∀ id, (list.input id).Within paths

theorem confined_initial (hv : graph.Valid) (h : graph.entry.Within paths) :
    Confined paths (initial graph) := by
  intro id
  rw [input_initial hv]
  split
  · exact Flow.within_regular h
  · exact Flow.within_unreached

theorem confined_of_next (hv : graph.Valid) (hw : graph.Writes paths) (hf : Fits graph list)
    (hc : Confined paths list) (h : Next graph list next) : Confined paths next := by
  obtain ⟨id, rest, -, hstep⟩ := h.cases hv hf
  cases hstep with
  | skip hunreached => exact hc
  | @visit block visit next hreached hblock hrun hcarried =>
    intro other
    have hflow : visit.flow.Within paths := Visit.within_foldlM hw hrun (hc id)
    exact hcarried.of_merge (Flow.Within paths) (fun _ _ => Flow.Within.merge) other (hc other)
      fun edge _ _ => hflow.route edge.rule

/-- The height of the facts at the first `count` blocks together. -/
def height (paths : Finset AccessPath) (count : Nat) (list : Worklist) : Nat :=
  ∑ id ∈ Finset.range count, (list.input id).height paths

theorem height_le_height {count : Nat} (h : ∀ id, list.input id ≤ next.input id) :
    list.height paths count ≤ next.height paths count :=
  Finset.sum_le_sum fun id _ => Flow.height_le_height (h id)

theorem height_le (paths : Finset AccessPath) (count : Nat) (list : Worklist) :
    list.height paths count ≤ 2 * count * (3 * paths.card + 1) := by
  have h : list.height paths count ≤ (Finset.range count).card • (2 * (3 * paths.card + 1)) :=
    Finset.sum_le_card_nsmul _ _ _ fun id _ => (list.input id).height_le paths
  rw [Finset.card_range, smul_eq_mul] at h
  calc list.height paths count ≤ count * (2 * (3 * paths.card + 1)) := h
    _ = 2 * count * (3 * paths.card + 1) := by rw [Nat.mul_left_comm, ← Nat.mul_assoc]

theorem inputs_eq_of_height_eq (hc : Confined paths list)
    (hsize : next.inputs.size = list.inputs.size) (hle : ∀ id, list.input id ≤ next.input id)
    (heq : list.height paths list.inputs.size = next.height paths list.inputs.size) :
    list.inputs = next.inputs := by
  have hheights := (Finset.sum_eq_sum_iff_of_le fun id _ => Flow.height_le_height (hle id)).1 heq
  refine Array.ext hsize.symm fun id hid hid' => ?_
  have hflow := Flow.eq_of_height_eq (hc id) (hle id) (hheights id (Finset.mem_range.2 hid))
  simpa [input, Array.getElem?_eq_getElem hid, Array.getElem?_eq_getElem hid'] using hflow

end Worklist

/-! ## The paths of a body -/

namespace Body

/-- The paths that a body can name: its variables, and what its nodes name. -/
def namedPaths (body : Body) : Finset AccessPath :=
  (Finset.range body.locals.size).image AccessPath.slot ∪
    (Finset.range body.nodes.size).biUnion fun node => (body.path node).join.toFinset

theorem mem_namedPaths {body : Body} {path : AccessPath} (h : body.Names path) :
    path ∈ body.namedPaths := by
  rcases h with ⟨node, hnode⟩ | ⟨id, hid, rfl⟩
  · have hlt : node < body.nodes.size := by
      by_contra hge
      have hkind : body.kind? node = none := by
        rw [kind?, Array.getElem?_eq_none (Nat.le_of_not_lt hge), Option.map_none]
      simp only [Body.path, pathWithin, hkind] at hnode
      cases hnode
    refine Finset.mem_union_right _ (Finset.mem_biUnion.2 ⟨node, Finset.mem_range.2 hlt, ?_⟩)
    rw [hnode, Option.mem_toFinset]
    rfl
  · exact Finset.mem_union_left _ (Finset.mem_image.2 ⟨id, Finset.mem_range.2 hid, rfl⟩)

theorem card_namedPaths_le (body : Body) :
    body.namedPaths.card ≤ body.locals.size + body.nodes.size := by
  have hslots : ((Finset.range body.locals.size).image AccessPath.slot).card ≤ body.locals.size :=
    Finset.card_image_le.trans_eq (Finset.card_range _)
  have hnodes : ((Finset.range body.nodes.size).biUnion fun node =>
      (body.path node).join.toFinset).card ≤ body.nodes.size := by
    refine (Finset.card_biUnion_le_card_mul _ _ 1 fun node _ => ?_).trans_eq (by simp)
    cases (body.path node).join <;> simp
  exact (Finset.card_union_le _ _).trans (Nat.add_le_add hslots hnodes)

end Body

theorem Graph.writes_ofBody {policy : Policy} {body : Body} :
    (ofBody policy body).Writes body.namedPaths := by
  intro id action haction r hr
  obtain ⟨node, -, ha⟩ := action?_ofBody.1 haction
  exact Body.mem_namedPaths (Transfer.sound_of_action? ha r hr).1.names

theorem Graph.within_entry_ofBody {policy : Policy} {body : Body} :
    (ofBody policy body).entry.Within body.namedPaths := by
  refine Store.within_empty.update fun u hu => ?_
  obtain ⟨id, hid, hu⟩ := List.mem_filterMap.1 hu
  obtain ⟨value, -, rfl⟩ := Option.map_eq_some_iff.1 hu
  exact Body.mem_namedPaths (Or.inr ⟨id, List.mem_range.1 hid, rfl⟩)

end JvmLint
