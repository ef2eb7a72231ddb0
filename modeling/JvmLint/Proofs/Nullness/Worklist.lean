import JvmLint.Proofs.Nullness.Visit
import Mathlib.Logic.Relation

/-!
# Runs of the worklist

One step of a run is told apart once, in `Next.cases`, and what it does to the
facts and the queue is collected in `Carried`; the invariants of runs are proved
from these two. A run may take the waiting blocks in any order: `Next` leaves
the choice open, and the order of the queue is one of the choices
(`nexts_of_run`).
-/
namespace JvmLint.Worklist

variable {graph : Graph} {list next final : Worklist} {visit : Visit} {id : BlockId}

/-! ## The queue -/

theorem mem_queue_enqueue {other : BlockId} :
    other ∈ (list.enqueue id).queue ↔ other ∈ list.queue ∨ other = id := by
  unfold enqueue
  split
  · rename_i h
    rw [List.contains_iff_mem] at h
    constructor
    · exact Or.inl
    · rintro (ho | rfl)
      · exact ho
      · exact h
  · simp

theorem nodup_queue_enqueue (h : list.queue.Nodup) :
    (list.enqueue id).queue.Nodup := by
  unfold enqueue
  split
  · exact h
  · rename_i hid
    rw [List.contains_iff_mem] at hid
    rw [List.nodup_append]
    refine ⟨h, List.nodup_singleton id, fun a ha b hb => ?_⟩
    rw [List.mem_singleton] at hb
    rintro rfl
    exact hid (hb ▸ ha)

@[simp]
theorem inputs_enqueue (id : BlockId) : (list.enqueue id).inputs = list.inputs := by
  unfold enqueue
  split <;> rfl

@[simp]
theorem values_enqueue (id : BlockId) : (list.enqueue id).values = list.values := by
  unfold enqueue
  split <;> rfl

@[simp]
theorem visits_enqueue (id : BlockId) : (list.enqueue id).visits = list.visits := by
  unfold enqueue
  split <;> rfl

@[simp]
theorem input_enqueue (id other : BlockId) : (list.enqueue id).input other = list.input other := by
  unfold input
  rw [inputs_enqueue]

/-! ## Carrying an outcome over edges -/

/-- What has become of a worklist when the outcome of a visit was carried over
some edges. -/
structure Carried (visit : Visit) (edges : List Edge) (list final : Worklist) : Prop where
  size_inputs : final.inputs.size = list.inputs.size
  values : final.values = list.values
  visits : final.visits = list.visits
  /-- Facts only rise, -/
  le_input : ∀ id, list.input id ≤ final.input id
  /-- far enough to take in every contribution, -/
  route_le : ∀ edge ∈ edges, visit.flow.route edge.rule ≤ final.input edge.target
  /-- and by nothing else. -/
  of_merge : ∀ (p : Flow → Prop), (∀ f g, p f → p g → p (f.merge g)) → ∀ id, p (list.input id) →
    (∀ edge ∈ edges, edge.target = id → p (visit.flow.route edge.rule)) → p (final.input id)
  mem_queue : ∀ id ∈ list.queue, id ∈ final.queue
  mem_of_raised : ∀ id, final.input id ≠ list.input id → id ∈ final.queue
  mem_of_changed : visit.changed = true → ∀ edge ∈ edges,
    (visit.flow.route edge.rule).isReached = true → edge.target ∈ final.queue
  of_mem_queue : ∀ id ∈ final.queue, id ∈ list.queue ∨ ∃ edge ∈ edges, edge.target = id
  nodup : list.queue.Nodup → final.queue.Nodup
  /-- If nothing changed then nothing was queued. -/
  eq_of_quiet : visit.changed = false → (∀ id, final.input id = list.input id) → final = list

namespace Carried

theorem refl (visit : Visit) (list : Worklist) : Carried visit [] list list where
  size_inputs := rfl
  values := rfl
  visits := rfl
  le_input _ := le_refl _
  route_le _ h := by cases h
  of_merge _ _ _ h _ := h
  mem_queue _ h := h
  mem_of_raised _ h := absurd rfl h
  mem_of_changed _ _ h := by cases h
  of_mem_queue _ h := Or.inl h
  nodup h := h
  eq_of_quiet _ _ := rfl

theorem trans {first second : List Edge} {mid : Worklist} (h : Carried visit first list mid)
    (h' : Carried visit second mid final) : Carried visit (first ++ second) list final where
  size_inputs := h'.size_inputs.trans h.size_inputs
  values := h'.values.trans h.values
  visits := h'.visits.trans h.visits
  le_input id := (h.le_input id).trans (h'.le_input id)
  route_le edge hedge := by
    rcases List.mem_append.1 hedge with hedge | hedge
    · exact (h.route_le edge hedge).trans (h'.le_input _)
    · exact h'.route_le edge hedge
  of_merge p hp id hid hroutes :=
    h'.of_merge p hp id
      (h.of_merge p hp id hid fun edge hedge => hroutes edge (List.mem_append_left _ hedge))
      fun edge hedge => hroutes edge (List.mem_append_right _ hedge)
  mem_queue id hid := h'.mem_queue id (h.mem_queue id hid)
  mem_of_raised id hne := by
    by_cases hmid : final.input id = mid.input id
    · exact h'.mem_queue id (h.mem_of_raised id (hmid ▸ hne))
    · exact h'.mem_of_raised id hmid
  mem_of_changed hc edge hedge hr := by
    rcases List.mem_append.1 hedge with hedge | hedge
    · exact h'.mem_queue _ (h.mem_of_changed hc edge hedge hr)
    · exact h'.mem_of_changed hc edge hedge hr
  of_mem_queue id hid := by
    rcases h'.of_mem_queue id hid with hid | ⟨edge, hedge, heq⟩
    · rcases h.of_mem_queue id hid with hid | ⟨edge, hedge, heq⟩
      · exact Or.inl hid
      · exact Or.inr ⟨edge, List.mem_append_left _ hedge, heq⟩
    · exact Or.inr ⟨edge, List.mem_append_right _ hedge, heq⟩
  nodup hn := h'.nodup (h.nodup hn)
  eq_of_quiet hc hsame := by
    have hmid : ∀ id, mid.input id = list.input id := fun id =>
      le_antisymm ((h'.le_input id).trans_eq (hsame id)) (h.le_input id)
    have hfinal := h'.eq_of_quiet hc fun id => (hsame id).trans (hmid id).symm
    rw [hfinal]
    exact h.eq_of_quiet hc hmid

theorem input_le {edges : List Edge} (h : Carried visit edges list final) {bound : Flow}
    (hle : list.input id ≤ bound)
    (hroutes : ∀ edge ∈ edges, edge.target = id → visit.flow.route edge.rule ≤ bound) :
    final.input id ≤ bound :=
  h.of_merge (· ≤ bound) (fun _ _ => Flow.merge_le) id hle hroutes

end Carried

theorem input_setInput (h : id < list.inputs.size) (flow : Flow) (other : BlockId) :
    (list.setInput id flow).input other = if other = id then flow else list.input other := by
  simp only [input, setInput, Array.getElem?_setIfInBounds]
  by_cases hid : other = id
  · subst hid
    simp [h]
  · rw [if_neg (Ne.symm hid), if_neg hid]

section OneEdge

variable {edge : Edge}

/-- The contribution is known already, and nothing else asks for a visit. -/
theorem carried_keep (hle : visit.flow.route edge.rule ≤ list.input edge.target)
    (hc : visit.changed = true → (visit.flow.route edge.rule).isReached = false) :
    Carried visit [edge] list list where
  size_inputs := rfl
  values := rfl
  visits := rfl
  le_input _ := le_refl _
  route_le e he := by
    rw [List.mem_singleton] at he
    rw [he]
    exact hle
  of_merge _ _ _ h _ := h
  mem_queue _ h := h
  mem_of_raised _ h := absurd rfl h
  mem_of_changed hchanged e he hr := by
    rw [List.mem_singleton] at he
    rw [he, hc hchanged] at hr
    cases hr
  of_mem_queue _ h := Or.inl h
  nodup h := h
  eq_of_quiet _ _ := rfl

/-- The contribution is known already, but a value changed. -/
theorem carried_wait (hle : visit.flow.route edge.rule ≤ list.input edge.target)
    (hc : visit.changed = true) : Carried visit [edge] list (list.enqueue edge.target) where
  size_inputs := by rw [inputs_enqueue]
  values := values_enqueue _
  visits := visits_enqueue _
  le_input id := by rw [input_enqueue]
  route_le e he := by
    rw [List.mem_singleton] at he
    rw [he, input_enqueue]
    exact hle
  of_merge p _ id h _ := by
    rw [input_enqueue]
    exact h
  mem_queue id h := mem_queue_enqueue.2 (Or.inl h)
  mem_of_raised id h := absurd (input_enqueue _ _) h
  mem_of_changed _ e he _ := by
    rw [List.mem_singleton] at he
    exact mem_queue_enqueue.2 (Or.inr (by rw [he]))
  of_mem_queue id h := by
    rcases mem_queue_enqueue.1 h with h | h
    · exact Or.inl h
    · exact Or.inr ⟨edge, List.mem_singleton_self edge, h.symm⟩
  nodup h := nodup_queue_enqueue h
  eq_of_quiet hquiet _ := by
    rw [hc] at hquiet
    cases hquiet

/-- The contribution raises the facts at the target. -/
theorem carried_raise (h : edge.target < list.inputs.size)
    (hne : (list.input edge.target).merge (visit.flow.route edge.rule) ≠ list.input edge.target) :
    Carried visit [edge] list ((list.setInput edge.target
      ((list.input edge.target).merge (visit.flow.route edge.rule))).enqueue edge.target) where
  size_inputs := by rw [inputs_enqueue]; exact Array.size_setIfInBounds
  values := values_enqueue _
  visits := visits_enqueue _
  le_input id := by
    rw [input_enqueue, input_setInput h]
    split
    · rename_i hid
      rw [hid]
      exact Flow.le_merge_left _ _
    · exact le_refl _
  route_le e he := by
    rw [List.mem_singleton] at he
    rw [he, input_enqueue, input_setInput h, if_pos rfl]
    exact Flow.le_merge_right _ _
  of_merge p hp id hid hroutes := by
    rw [input_enqueue, input_setInput h]
    split
    · rename_i heq
      exact hp _ _ (heq ▸ hid) (hroutes edge (List.mem_singleton_self edge) heq.symm)
    · exact hid
  mem_queue id hid := mem_queue_enqueue.2 (Or.inl hid)
  mem_of_raised id hraised := by
    rw [input_enqueue, input_setInput h] at hraised
    split at hraised
    · rename_i hid
      exact mem_queue_enqueue.2 (Or.inr hid)
    · exact absurd rfl hraised
  mem_of_changed _ e he _ := by
    rw [List.mem_singleton] at he
    exact mem_queue_enqueue.2 (Or.inr (by rw [he]))
  of_mem_queue id hid := by
    rcases mem_queue_enqueue.1 hid with hid | hid
    · exact Or.inl hid
    · exact Or.inr ⟨edge, List.mem_singleton_self edge, hid.symm⟩
  nodup hn := nodup_queue_enqueue hn
  eq_of_quiet _ hsame := by
    have := hsame edge.target
    rw [input_enqueue, input_setInput h, if_pos rfl] at this
    exact absurd this hne

theorem carried_carry (h : edge.target < list.inputs.size) :
    Carried visit [edge] list (carry visit list edge) := by
  by_cases hreached : (visit.flow.route edge.rule).isReached = true
  · by_cases hsame :
      (list.input edge.target).merge (visit.flow.route edge.rule) = list.input edge.target
    · have hle : visit.flow.route edge.rule ≤ list.input edge.target := by
        rw [← hsame]
        exact Flow.le_merge_right _ _
      by_cases hc : visit.changed = true
      · have heq : carry visit list edge = list.enqueue edge.target := by
          simp only [carry, if_pos hreached, hsame, ne_eq, not_true_eq_false, if_false, if_pos hc]
        rw [heq]
        exact carried_wait hle hc
      · have heq : carry visit list edge = list := by
          simp only [carry, if_pos hreached, hsame, ne_eq, not_true_eq_false, if_false, if_neg hc]
        rw [heq]
        exact carried_keep hle fun hc' => absurd hc' hc
    · have heq : carry visit list edge = (list.setInput edge.target
          ((list.input edge.target).merge (visit.flow.route edge.rule))).enqueue edge.target := by
        simp only [carry, if_pos hreached, ne_eq, hsame, not_false_eq_true, if_true]
      rw [heq]
      exact carried_raise h hsame
  · have heq : carry visit list edge = list := by
      simp only [carry, if_neg hreached]
    rw [heq]
    rw [Bool.not_eq_true] at hreached
    refine carried_keep ?_ fun _ => hreached
    rw [Flow.not_isReached_iff.1 hreached]
    exact Flow.unreached_le _

end OneEdge

theorem carried_foldl {edges : List Edge} (h : ∀ edge ∈ edges, edge.target < list.inputs.size) :
    Carried visit edges list (edges.foldl (carry visit) list) := by
  induction edges generalizing list with
  | nil => exact .refl visit list
  | cons edge edges ih =>
    have hfirst : Carried visit [edge] list (carry visit list edge) :=
      carried_carry (h edge List.mem_cons_self)
    refine hfirst.trans (ih fun e he => ?_)
    rw [hfirst.size_inputs]
    exact h e (List.mem_cons_of_mem _ he)

/-! ## One step -/

/-- The tables of a worklist fit the graph, and the queue holds blocks of it,
none of them twice. -/
structure Fits (graph : Graph) (list : Worklist) : Prop where
  size_inputs : list.inputs.size = graph.blocks.size
  size_values : list.values.cells.size = graph.actions.size
  nodup : list.queue.Nodup
  queue_lt : ∀ id ∈ list.queue, id < graph.blocks.size

/-- The worklist after the nodes of a block have run, with `rest` still waiting. -/
def visited (list : Worklist) (rest : List BlockId) (visit : Visit) : Worklist :=
  { list with queue := rest, values := visit.values, visits := list.visits + 1 }

theorem step_cons {rest : List BlockId} (h : list.queue = id :: rest) :
    step graph list =
      if (list.input id).isReached = true then
        graph.blocks[id]?.bind fun block =>
          (Visit.run graph block.nodes (list.input id) list.values).bind fun visit =>
            some (block.successors.foldl (carry visit) (list.visited rest visit))
      else some { list with queue := rest } := by
  simp only [step, h]
  rfl

/-- A step that may take any of the waiting blocks. -/
def Next (graph : Graph) (list next : Worklist) : Prop :=
  ∃ id rest, (id :: rest).Perm list.queue ∧ step graph { list with queue := id :: rest } = some next

/-- All that a step from `list` to `next` can be, when it takes the block `id`
and leaves `rest` waiting. -/
inductive Stepped (graph : Graph) (list : Worklist) (id : BlockId) (rest : List BlockId) :
    Worklist → Prop
  /-- Nothing has arrived at the block. -/
  | skip (hunreached : (list.input id).isReached = false) :
      Stepped graph list id rest { list with queue := rest }
  /-- The block is visited. -/
  | visit {block : Block} {visit : Visit} {next : Worklist}
      (hreached : (list.input id).isReached = true) (hblock : graph.blocks[id]? = some block)
      (hrun : Visit.run graph block.nodes (list.input id) list.values = some visit)
      (hcarried : Carried visit block.successors (list.visited rest visit) next) :
      Stepped graph list id rest next

theorem stepped_of_step (hv : graph.Valid) (hsize : list.inputs.size = graph.blocks.size)
    {rest : List BlockId} (h : step graph { list with queue := id :: rest } = some next) :
    Stepped graph list id rest next := by
  rw [step_cons rfl] at h
  have hinput : input { list with queue := id :: rest } id = list.input id := rfl
  rw [hinput] at h
  split at h
  · rename_i hreached
    obtain ⟨block, hblock, h⟩ := Option.bind_eq_some_iff.1 h
    obtain ⟨visit, hrun, h⟩ := Option.bind_eq_some_iff.1 h
    cases h
    refine .visit hreached hblock hrun (carried_foldl fun edge hedge => ?_)
    show edge.target < list.inputs.size
    rw [hsize]
    exact hv.target_lt id block hblock edge hedge
  · rename_i hunreached
    cases h
    exact .skip (by simpa using hunreached)

theorem Next.cases (hv : graph.Valid) (hf : Fits graph list) (h : Next graph list next) :
    ∃ id rest, (id :: rest).Perm list.queue ∧ Stepped graph list id rest next := by
  obtain ⟨id, rest, hperm, hstep⟩ := h
  exact ⟨id, rest, hperm, stepped_of_step hv hf.size_inputs hstep⟩

theorem fits_initial (hv : graph.Valid) : Fits graph (initial graph) where
  size_inputs := by simp [initial]
  size_values := by simp [initial, NodeValues.unset]
  nodup := List.nodup_singleton 0
  queue_lt id h := by
    rw [List.mem_singleton.1 h]
    exact hv.nonempty

theorem fits_of_next (hv : graph.Valid) (hf : Fits graph list) (h : Next graph list next) :
    Fits graph next := by
  obtain ⟨id, rest, hperm, hstep⟩ := h.cases hv hf
  have hnodup : (id :: rest).Nodup := hperm.nodup_iff.2 hf.nodup
  have hrest : ∀ other ∈ rest, other < graph.blocks.size := fun other ho =>
    hf.queue_lt other (hperm.mem_iff.1 (List.mem_cons_of_mem _ ho))
  cases hstep with
  | skip hunreached =>
    exact ⟨hf.size_inputs, hf.size_values, (List.nodup_cons.1 hnodup).2, hrest⟩
  | @visit block visit next hreached hblock hrun hcarried =>
    refine ⟨hcarried.size_inputs.trans hf.size_inputs, ?_,
      hcarried.nodup (List.nodup_cons.1 hnodup).2, fun other ho => ?_⟩
    · rw [hcarried.values]
      exact (Visit.size_foldlM hrun).trans hf.size_values
    · rcases hcarried.of_mem_queue other ho with ho | ⟨edge, hedge, rfl⟩
      · exact hrest other ho
      · exact hv.target_lt id block hblock edge hedge

/-! ## Runs -/

/-- Some steps lead from one worklist to another. -/
abbrev Nexts (graph : Graph) : Worklist → Worklist → Prop := Relation.ReflTransGen (Next graph)

theorem fits_of_nexts (hv : graph.Valid) (hf : Fits graph list) (h : Nexts graph list final) :
    Fits graph final := by
  induction h with
  | refl => exact hf
  | tail _ hstep ih => exact fits_of_next hv ih hstep

/-- What holds at first and is kept by every step holds all along a run. -/
theorem nexts_induction {p : Worklist → Prop} (hv : graph.Valid) (hf : Fits graph list)
    (hfirst : p list)
    (hstep : ∀ list next, Fits graph list → Next graph list next → p list → p next)
    (h : Nexts graph list final) : p final := by
  induction h with
  | refl => exact hfirst
  | tail hsteps hlast ih => exact hstep _ _ (fits_of_nexts hv hf hsteps) hlast ih

theorem next_of_step (hne : list.queue ≠ []) (h : step graph list = some next) :
    Next graph list next := by
  cases hq : list.queue with
  | nil => exact absurd hq hne
  | cons id rest =>
    refine ⟨id, rest, by rw [hq], ?_⟩
    rw [← hq]
    exact h

/-- A run that ends has nothing to do, or takes a step and ends after it. -/
theorem run_cases {steps : Nat} (h : run graph steps list = some final) :
    (list.queue = [] ∧ final = list) ∨
      ∃ fewer next, steps = fewer + 1 ∧ list.queue ≠ [] ∧ step graph list = some next ∧
        run graph fewer next = some final := by
  cases steps with
  | zero =>
    unfold run at h
    split at h
    · rename_i hempty
      cases h
      exact Or.inl ⟨List.isEmpty_iff.1 hempty, rfl⟩
    · cases h
  | succ fewer =>
    unfold run at h
    split at h
    · rename_i hempty
      cases h
      exact Or.inl ⟨List.isEmpty_iff.1 hempty, rfl⟩
    · rename_i hne
      obtain ⟨next, hstep, hrest⟩ := Option.bind_eq_some_iff.1 h
      exact Or.inr ⟨fewer, next, rfl, fun hq => hne (List.isEmpty_iff.2 hq), hstep, hrest⟩

/-- A run that takes the blocks in the order of the queue is a run. -/
theorem nexts_of_run {steps : Nat} (h : run graph steps list = some final) :
    Nexts graph list final ∧ final.queue = [] := by
  induction steps generalizing list with
  | zero =>
    rcases run_cases h with ⟨hempty, rfl⟩ | ⟨fewer, next, hsteps, -⟩
    · exact ⟨.refl, hempty⟩
    · cases hsteps
  | succ steps ih =>
    rcases run_cases h with ⟨hempty, rfl⟩ | ⟨fewer, next, hsteps, hne, hstep, hrest⟩
    · exact ⟨.refl, hempty⟩
    · cases hsteps
      obtain ⟨hnexts, hfinal⟩ := ih hrest
      exact ⟨.head (next_of_step hne hstep) hnexts, hfinal⟩

/-! ## What every run keeps -/

theorem input_le_of_next (hv : graph.Valid) (hf : Fits graph list) (h : Next graph list next)
    (other : BlockId) : list.input other ≤ next.input other := by
  obtain ⟨id, rest, -, hstep⟩ := h.cases hv hf
  cases hstep with
  | skip hunreached => exact le_refl _
  | visit hreached hblock hrun hcarried => exact hcarried.le_input other

/-- The facts at a block only rise. -/
theorem input_le_of_nexts (hv : graph.Valid) (hf : Fits graph list) (h : Nexts graph list final)
    (other : BlockId) : list.input other ≤ final.input other :=
  nexts_induction (p := fun final => list.input other ≤ final.input other) hv hf (le_refl _)
    (fun _ _ hfits hnext hle => hle.trans (input_le_of_next hv hfits hnext other)) h

theorem input_initial (hv : graph.Valid) (other : BlockId) :
    (initial graph).input other = if other = 0 then .regular graph.entry else .unreached := by
  have h0 := hv.nonempty
  simp only [input, initial, Array.getElem?_setIfInBounds, Array.size_replicate]
  by_cases ho : other = 0
  · subst ho
    simp [h0]
  · rw [if_neg (Ne.symm ho), if_neg ho]
    by_cases hlt : other < graph.blocks.size <;> simp [hlt]

/-- A value is recorded only for a node of a block that is reached. -/
def Recorded (graph : Graph) (list : Worklist) : Prop :=
  ∀ node, list.values.get? node ≠ none →
    ∃ id, ListedIn graph.blocks id node ∧ (list.input id).isReached = true

theorem recorded_of_next (hv : graph.Valid) (hf : Fits graph list) (hr : Recorded graph list)
    (h : Next graph list next) : Recorded graph next := by
  intro node hnode
  obtain ⟨id, rest, -, hstep⟩ := h.cases hv hf
  cases hstep with
  | skip hunreached => exact hr node hnode
  | @visit block visit next hreached hblock hrun hcarried =>
    rw [hcarried.values] at hnode
    by_cases hmem : node ∈ block.nodes
    · exact ⟨id, ⟨block, hblock, hmem⟩, Flow.isReached_of_le (hcarried.le_input id) hreached⟩
    · have hsame : visit.values.get? node = list.values.get? node :=
        Visit.get?_foldlM_of_not_mem hrun hmem
      obtain ⟨other, hlisted, hother⟩ := hr node (hsame ▸ hnode)
      exact ⟨other, hlisted, Flow.isReached_of_le (hcarried.le_input other) hother⟩

theorem recorded_of_nexts (hv : graph.Valid) (h : Nexts graph (initial graph) final) :
    Recorded graph final := by
  have hfirst : Recorded graph (initial graph) := fun node hnode =>
    absurd (NodeValues.get?_unset _ node) hnode
  exact nexts_induction hv (fits_initial hv) hfirst
    (fun _ _ hf hnext hr => recorded_of_next hv hf hr hnext) h

end JvmLint.Worklist
