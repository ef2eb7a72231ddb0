import JvmLint.Proofs.Nullness.Height
import Mathlib.Combinatorics.Pigeonhole
import Mathlib.Data.Finset.Option
import Mathlib.Data.Fintype.BigOperators
import Mathlib.Data.Fintype.Option

/-!
# The trace of a run

`trace` lists the worklists of a run one after the other, and a run that is given
some steps ends exactly if no block waits after as many (`run_trace`). Apart from
the number of visits, a worklist determines all that follow it; so a run that is
twice in the same place never ends (`queue_ne_nil_of_same`), and one that ends
does so before it has been in every place there is (`queue_trace_card_places`).
-/
namespace JvmLint.Worklist

variable {graph : Graph} {list next final a b : Worklist} {paths : Finset AccessPath}

/-- The worklist after some steps; one that cannot go on stays as it is. -/
def trace (graph : Graph) : Nat → Worklist
  | 0 => initial graph
  | steps + 1 => (step graph (trace graph steps)).getD (trace graph steps)

/-- The step visits the block with an id. -/
def Takes (graph : Graph) (id : BlockId) (steps : Nat) : Prop :=
  ∃ rest, (trace graph steps).queue = id :: rest ∧
    ((trace graph steps).input id).isReached = true

theorem step_of_queue_eq_nil (h : list.queue = []) : step graph list = some list := by
  simp only [step, h]

theorem exists_step (hc : graph.Complete) (hf : Fits graph list) :
    ∃ next, step graph list = some next := by
  cases hq : list.queue with
  | nil => exact ⟨list, step_of_queue_eq_nil hq⟩
  | cons id rest =>
    have hid : id < graph.blocks.size := hf.queue_lt id (by rw [hq]; exact List.mem_cons_self)
    have hblock : graph.blocks[id]? = some graph.blocks[id] := Array.getElem?_eq_getElem hid
    obtain ⟨visit, hvisit⟩ := Visit.exists_foldlM
      (fun node hnode => hc id node ⟨_, hblock, hnode⟩) ⟨list.input id, list.values, false⟩
    have hrun : Visit.run graph graph.blocks[id].nodes (list.input id) list.values = some visit :=
      hvisit
    rw [step_cons hq, hblock, Option.bind_some, hrun]
    split <;> exact ⟨_, rfl⟩

/-! ## Along a trace -/

theorem trace_succ_of_queue_eq_nil {steps : Nat} (h : (trace graph steps).queue = []) :
    trace graph (steps + 1) = trace graph steps := by
  rw [trace, step_of_queue_eq_nil h, Option.getD_some]

theorem trace_eq_of_queue_eq_nil {steps later : Nat} (h : (trace graph steps).queue = [])
    (hle : steps ≤ later) : trace graph later = trace graph steps := by
  induction later, hle using Nat.le_induction with
  | base => rfl
  | succ later _ ih => rw [trace_succ_of_queue_eq_nil (by rw [ih]; exact h), ih]

theorem trace_succ_of_step {steps : Nat} (h : step graph (trace graph steps) = some next) :
    trace graph (steps + 1) = next := by
  rw [trace, h, Option.getD_some]

/-- From one place of a trace to the next a block is taken from the queue, or
everything stays as it is. -/
theorem trace_succ_cases (graph : Graph) (steps : Nat) :
    trace graph (steps + 1) = trace graph steps ∨
      ∃ id rest, (trace graph steps).queue = id :: rest ∧
        step graph { trace graph steps with queue := id :: rest } =
          some (trace graph (steps + 1)) := by
  cases hq : (trace graph steps).queue with
  | nil => exact Or.inl (trace_succ_of_queue_eq_nil hq)
  | cons id rest =>
    cases hstep : step graph (trace graph steps) with
    | none => exact Or.inl (by rw [trace, hstep, Option.getD_none])
    | some next =>
      refine Or.inr ⟨id, rest, rfl, ?_⟩
      rw [trace_succ_of_step hstep, ← hq]
      exact hstep

theorem nexts_trace {steps later : Nat} (hle : steps ≤ later) :
    Nexts graph (trace graph steps) (trace graph later) := by
  induction later, hle using Nat.le_induction with
  | base => exact .refl
  | succ later _ ih =>
    rcases trace_succ_cases graph later with hsame | ⟨id, rest, hq, hstep⟩
    · rw [hsame]
      exact ih
    · exact ih.tail ⟨id, rest, by rw [hq], hstep⟩

section Valid

variable (hv : graph.Valid)
include hv

theorem fits_trace (steps : Nat) : Fits graph (trace graph steps) :=
  fits_of_nexts hv (fits_initial hv) (nexts_trace (Nat.zero_le steps))

theorem confined_trace (hw : graph.Writes paths) (hentry : graph.entry.Within paths)
    (steps : Nat) : Confined paths (trace graph steps) :=
  nexts_induction hv (fits_initial hv) (confined_initial hv hentry)
    (fun _ _ hf hnext hconfined => confined_of_next hv hw hf hconfined hnext)
    (nexts_trace (Nat.zero_le steps))

theorem input_trace_le {steps later : Nat} (hle : steps ≤ later) (id : BlockId) :
    (trace graph steps).input id ≤ (trace graph later).input id :=
  input_le_of_nexts hv (fits_trace hv steps) (nexts_trace hle) id

end Valid

section Complete

variable (hv : graph.Valid) (hc : graph.Complete)
include hv hc

theorem step_trace (steps : Nat) :
    step graph (trace graph steps) = some (trace graph (steps + 1)) := by
  obtain ⟨next, hnext⟩ := exists_step hc (fits_trace hv steps)
  rw [trace_succ_of_step hnext, hnext]

/-- A run ends within some steps exactly if no block waits after as many. -/
theorem run_trace (steps start : Nat) : run graph steps (trace graph start) =
    if (trace graph (start + steps)).queue = [] then some (trace graph (start + steps))
    else none := by
  induction steps generalizing start with
  | zero => simp only [run, List.isEmpty_iff, Nat.add_zero]
  | succ steps ih =>
    rw [run]
    by_cases hq : (trace graph start).queue = []
    · have hend := trace_eq_of_queue_eq_nil hq (Nat.le_add_right start (steps + 1))
      rw [if_pos (List.isEmpty_iff.2 hq), hend, if_pos hq]
    · rw [if_neg (by rwa [List.isEmpty_iff]), step_trace hv hc, Option.bind_some, ih,
        Nat.add_assoc, Nat.add_comm 1 steps]

end Complete

/-! ## Going round in circles -/

/-- Two worklists that differ at most in the number of visits. -/
def Same (a b : Worklist) : Prop :=
  a.inputs = b.inputs ∧ a.values = b.values ∧ a.queue = b.queue

instance (a b : Worklist) : Decidable (Same a b) :=
  inferInstanceAs (Decidable (a.inputs = b.inputs ∧ a.values = b.values ∧ a.queue = b.queue))

namespace Same

theorem trans (h : Same a b) (h' : Same b list) : Same a list :=
  ⟨h.1.trans h'.1, h.2.1.trans h'.2.1, h.2.2.trans h'.2.2⟩

theorem enqueue (h : Same a b) (id : BlockId) : Same (a.enqueue id) (b.enqueue id) := by
  unfold Worklist.enqueue
  rw [h.2.2]
  split
  · exact h
  · exact ⟨h.1, h.2.1, rfl⟩

theorem input (h : Same a b) (id : BlockId) : a.input id = b.input id := by
  simp only [Worklist.input, h.1]

theorem carry (h : Same a b) (visit : Visit) (edge : Edge) :
    Same (carry visit a edge) (carry visit b edge) := by
  have hset : ∀ flow, Same (a.setInput edge.target flow) (b.setInput edge.target flow) :=
    fun flow => ⟨by simp only [setInput, h.1], h.2.1, h.2.2⟩
  simp only [Worklist.carry, h.input]
  split
  · split
    · exact (hset _).enqueue _
    · split
      · exact h.enqueue _
      · exact h
  · exact h

theorem foldl_carry (h : Same a b) (visit : Visit) (edges : List Edge) :
    Same (edges.foldl (Worklist.carry visit) a) (edges.foldl (Worklist.carry visit) b) := by
  induction edges generalizing a b with
  | nil => exact h
  | cons edge edges ih => exact ih (h.carry visit edge)

theorem step (h : Same a b) : Option.Rel Same (step graph a) (step graph b) := by
  cases hq : b.queue with
  | nil =>
    rw [step_of_queue_eq_nil hq, step_of_queue_eq_nil (h.2.2.trans hq)]
    exact .some h
  | cons id rest =>
    rw [step_cons hq, step_cons (h.2.2.trans hq), h.input, h.2.1]
    split
    · cases graph.blocks[id]? with
      | none => exact .none
      | some block =>
        rw [Option.bind_some, Option.bind_some]
        cases Visit.run graph block.nodes (b.input id) b.values with
        | none => exact .none
        | some visit =>
          have hvisited : Same (a.visited rest visit) (b.visited rest visit) := ⟨h.1, rfl, rfl⟩
          exact .some (hvisited.foldl_carry visit block.successors)
    · exact .some ⟨h.1, rfl, rfl⟩

theorem trace_succ {i j : Nat} (h : Same (trace graph i) (trace graph j)) :
    Same (trace graph (i + 1)) (trace graph (j + 1)) := by
  have hstep : Option.Rel Same (Worklist.step graph (trace graph i))
      (Worklist.step graph (trace graph j)) := h.step
  rw [trace, trace]
  generalize Worklist.step graph (trace graph i) = x at hstep ⊢
  generalize Worklist.step graph (trace graph j) = y at hstep ⊢
  cases hstep with
  | none => exact h
  | some hsame => exact hsame

theorem trace_add {i j : Nat} (h : Same (trace graph i) (trace graph j)) (steps : Nat) :
    Same (trace graph (i + steps)) (trace graph (j + steps)) := by
  induction steps with
  | zero => exact h
  | succ steps ih => exact ih.trace_succ

/-- What happens once between two steps happens again and again. -/
theorem trace_mul {i period : Nat} (h : Same (trace graph i) (trace graph (i + period)))
    (rounds : Nat) : Same (trace graph i) (trace graph (i + rounds * period)) := by
  induction rounds with
  | zero =>
    rw [Nat.zero_mul]
    exact ⟨rfl, rfl, rfl⟩
  | succ rounds ih =>
    have hnext := h.trace_add (rounds * period)
    rw [Nat.add_right_comm, Nat.add_assoc i, ← Nat.succ_mul] at hnext
    exact ih.trans hnext

end Same

/-- A run that is twice in the same place, with a block waiting, never ends. -/
theorem queue_ne_nil_of_same {i j : Nat} (hij : i < j)
    (h : Same (trace graph i) (trace graph j)) (hne : (trace graph i).queue ≠ []) (steps : Nat) :
    (trace graph steps).queue ≠ [] := by
  intro hq
  obtain ⟨period, rfl⟩ := Nat.exists_eq_add_of_le hij.le
  have hlater : steps ≤ i + steps * period := by
    have : steps * 1 ≤ steps * period := Nat.mul_le_mul_left _ (by omega)
    omega
  have hend := trace_eq_of_queue_eq_nil hq hlater
  have hround := (h.trace_mul steps).2.2
  rw [hend, hq] at hround
  exact hne hround

/-! ## The number of places -/

instance : Fintype Nullness where
  elems := {.bottom, .null, .nonNull, .nullable}
  complete value := by cases value <;> decide

/-- Where a run stands: how far the facts have risen, the recorded values and the
queue. -/
def place (paths : Finset AccessPath) (nodes blocks : Nat) (list : Worklist) :
    Nat × (Fin nodes → Option Nullness) × (Fin blocks → Option BlockId) :=
  (list.height paths blocks, fun node => list.values.get? node, fun index => list.queue[index.val]?)

/-- The places that there are. -/
def places (paths : Finset AccessPath) (nodes blocks : Nat) :
    Finset (Nat × (Fin nodes → Option Nullness) × (Fin blocks → Option BlockId)) :=
  Finset.range (2 * blocks * (3 * paths.card + 1) + 1) ×ˢ
    (Finset.univ ×ˢ Fintype.piFinset fun _ => Finset.insertNone (Finset.range blocks))

theorem card_places (paths : Finset AccessPath) (nodes blocks : Nat) :
    (places paths nodes blocks).card =
      (2 * blocks * (3 * paths.card + 1) + 1) * 5 ^ nodes * (blocks + 1) ^ blocks := by
  have hvalues : Fintype.card (Option Nullness) = 5 := rfl
  simp only [places, Finset.card_product, Finset.card_range, Finset.card_univ, Fintype.card_fun,
    hvalues, Fintype.card_fin, Fintype.card_piFinset_const, Finset.card_insertNone]
  exact (Nat.mul_assoc _ _ _).symm

theorem length_queue_le (hf : Fits graph list) : list.queue.length ≤ graph.blocks.size := by
  have hsub : list.queue ⊆ List.range graph.blocks.size := fun id hid =>
    List.mem_range.2 (hf.queue_lt id hid)
  simpa using (hf.nodup.subperm hsub).length_le

theorem place_mem_places (hf : Fits graph list) (paths : Finset AccessPath) :
    list.place paths graph.actions.size graph.blocks.size ∈
      places paths graph.actions.size graph.blocks.size := by
  refine Finset.mem_product.2 ⟨Finset.mem_range.2 (Nat.lt_succ_of_le (list.height_le _ _)),
    Finset.mem_product.2 ⟨Finset.mem_univ _, Fintype.mem_piFinset.2 fun index => ?_⟩⟩
  rw [Finset.mem_insertNone]
  intro id hid
  exact Finset.mem_range.2 (hf.queue_lt id (List.mem_of_getElem? hid))

/-- Of two worklists with ordered facts in one place, one is the other. -/
theorem same_of_place_eq (ha : Fits graph a) (hb : Fits graph b) (hc : Confined paths a)
    (hle : ∀ id, a.input id ≤ b.input id)
    (h : a.place paths graph.actions.size graph.blocks.size =
      b.place paths graph.actions.size graph.blocks.size) : Same a b := by
  simp only [place, Prod.mk.injEq] at h
  obtain ⟨hheight, hvalues, hqueue⟩ := h
  refine ⟨inputs_eq_of_height_eq hc (hb.size_inputs.trans ha.size_inputs.symm) hle
    (by rw [ha.size_inputs]; exact hheight), ?_, ?_⟩
  · refine NodeValues.ext_get? (ha.size_values.trans hb.size_values.symm) fun node => ?_
    by_cases hnode : node < graph.actions.size
    · exact congrFun hvalues ⟨node, hnode⟩
    · have hnone : ∀ list, Fits graph list → list.values.get? node = none := fun list hf => by
        rw [NodeValues.get?, Array.getElem?_eq_none (hf.size_values ▸ Nat.le_of_not_lt hnode),
          Option.join_none]
      rw [hnone a ha, hnone b hb]
  · refine List.ext_getElem? fun index => ?_
    by_cases hindex : index < graph.blocks.size
    · exact congrFun hqueue ⟨index, hindex⟩
    · rw [List.getElem?_eq_none ((length_queue_le ha).trans (by omega)),
        List.getElem?_eq_none ((length_queue_le hb).trans (by omega))]

/-- **Step limit.** A run that ends at all ends within as many steps as there are
places. -/
theorem queue_trace_card_places (hv : graph.Valid) (hw : graph.Writes paths)
    (hentry : graph.entry.Within paths) (hends : ∃ steps, (trace graph steps).queue = []) :
    (trace graph (places paths graph.actions.size graph.blocks.size).card).queue = [] := by
  by_contra hlast
  obtain ⟨i, hi, j, hj, hij, hplace⟩ := Finset.exists_ne_map_eq_of_card_lt_of_maps_to
    (by rw [Finset.card_range]; exact Nat.lt_succ_self _)
    fun steps (_ : steps ∈ Finset.range
        ((places paths graph.actions.size graph.blocks.size).card + 1)) =>
      place_mem_places (fits_trace hv steps) paths
  have hwaits : ∀ steps, steps < (places paths graph.actions.size graph.blocks.size).card + 1 →
      (trace graph steps).queue ≠ [] := fun steps hsteps hq =>
    hlast (by rw [trace_eq_of_queue_eq_nil hq (Nat.le_of_lt_succ hsteps), hq])
  have hsame : ∀ {i j}, i ≤ j → (trace graph i).place paths graph.actions.size graph.blocks.size =
      (trace graph j).place paths graph.actions.size graph.blocks.size →
        Same (trace graph i) (trace graph j) := fun hle =>
    same_of_place_eq (fits_trace hv _) (fits_trace hv _)
      (confined_trace hv hw hentry _) (input_trace_le hv hle)
  obtain ⟨steps, hsteps⟩ := hends
  rcases Nat.lt_or_gt_of_ne hij with hlt | hlt
  · exact queue_ne_nil_of_same hlt (hsame hlt.le hplace) (hwaits i (Finset.mem_range.1 hi)) steps
      hsteps
  · exact queue_ne_nil_of_same hlt (hsame hlt.le hplace.symm) (hwaits j (Finset.mem_range.1 hj))
      steps hsteps

end JvmLint.Worklist
