import JvmLint.Proofs.Nullness.Trace
import Mathlib.Order.Filter.AtTopBot.Finset
import Mathlib.Order.Lattice.Nat

/-!
# When a run ends

The facts rise a bounded number of times, so what keeps a run going is recorded
values that change for ever: a run ends exactly if from some step on no visit
changes a recorded value (`queue_eq_nil_iff_quiet`). There are bodies on which
values do go round in circles (`never_ends`), if a node is listed twice or if
nodes read each other. On a body without either, whose nodes can be put in order
so that each block lists them upwards and every node that is read comes before
its reader, the values come to rest one after the other (`steady_of_ordered`).
-/
namespace JvmLint

namespace Worklist

variable {graph : Graph} {paths : Finset AccessPath}

/-! ## Quiet runs -/

/-- The visit that comes next changes no recorded value. -/
def Quiet (graph : Graph) (list : Worklist) : Prop :=
  ∀ id rest block visit, list.queue = id :: rest → graph.blocks[id]? = some block →
    (list.input id).isReached = true →
      Visit.run graph block.nodes (list.input id) list.values = some visit →
        visit.changed = false

section Ends

variable (hv : graph.Valid) (hc : graph.Complete)
include hv hc

theorem stepped_trace {steps : Nat} {id : BlockId} {rest : List BlockId}
    (h : (trace graph steps).queue = id :: rest) :
    Stepped graph (trace graph steps) id rest (trace graph (steps + 1)) := by
  refine stepped_of_step hv (fits_trace hv steps).size_inputs ?_
  rw [← h]
  exact step_trace hv hc steps

omit hc in
/-- From some step on the facts stay as they are. -/
theorem exists_inputs_eq (hw : graph.Writes paths) (hentry : graph.entry.Within paths) :
    ∃ start, ∀ steps, start ≤ steps →
      (trace graph steps).inputs = (trace graph start).inputs := by
  let heights := Set.range fun steps => (trace graph steps).height paths graph.blocks.size
  have hbounded : BddAbove heights := by
    refine ⟨2 * graph.blocks.size * (3 * paths.card + 1), ?_⟩
    rintro _ ⟨steps, rfl⟩
    exact height_le paths graph.blocks.size _
  obtain ⟨start, hstart⟩ := Nat.sSup_mem (Set.range_nonempty _) hbounded
  refine ⟨start, fun steps hsteps => ?_⟩
  have hle := input_trace_le hv hsteps
  have hsize := (fits_trace hv start).size_inputs
  refine (inputs_eq_of_height_eq (confined_trace hv hw hentry start)
    ((fits_trace hv steps).size_inputs.trans hsize.symm) hle ?_).symm
  rw [hsize]
  refine le_antisymm (height_le_height hle) ?_
  have htop : (trace graph steps).height paths graph.blocks.size ≤ sSup heights :=
    le_csSup hbounded ⟨steps, rfl⟩
  exact htop.trans_eq hstart.symm

theorem queue_succ_of_quiet {steps : Nat} {id : BlockId} {rest : List BlockId}
    (hq : (trace graph steps).queue = id :: rest) (hquiet : Quiet graph (trace graph steps))
    (hinputs : (trace graph (steps + 1)).inputs = (trace graph steps).inputs) :
    (trace graph (steps + 1)).queue = rest := by
  have hstep := stepped_trace hv hc hq
  generalize trace graph (steps + 1) = next at hstep hinputs ⊢
  cases hstep with
  | skip hunreached => rfl
  | @visit block visit next hreached hblock hrun hcarried =>
    have hsame : ∀ other, next.input other = (trace graph steps).input other := fun other => by
      simp only [input, hinputs]
    rw [hcarried.eq_of_quiet (hquiet id rest block visit hq hblock hreached hrun) hsame]
    rfl

/-- **What keeps a run going.** A run ends exactly if from some step on no visit
changes a recorded value. -/
theorem queue_eq_nil_iff_quiet (hw : graph.Writes paths) (hentry : graph.entry.Within paths) :
    (∃ steps, (trace graph steps).queue = []) ↔
      ∃ start, ∀ steps, start ≤ steps → Quiet graph (trace graph steps) := by
  constructor
  · rintro ⟨start, hstart⟩
    refine ⟨start, fun steps hsteps id rest block visit hq => ?_⟩
    rw [trace_eq_of_queue_eq_nil hstart hsteps, hstart] at hq
    cases hq
  · rintro ⟨first, hquiet⟩
    obtain ⟨second, hinputs⟩ := exists_inputs_eq hv hw hentry
    -- with neither facts nor values changing, every step shortens the queue
    have hshrinks : ∀ length steps, first ≤ steps → second ≤ steps →
        (trace graph steps).queue.length = length → ∃ later, (trace graph later).queue = [] := by
      intro length
      induction length with
      | zero => exact fun steps _ _ hlength => ⟨steps, List.length_eq_zero_iff.1 hlength⟩
      | succ length ih =>
        intro steps hfirst hsecond hlength
        obtain ⟨id, rest, hq⟩ := List.exists_cons_of_length_eq_add_one hlength
        have hsame := (hinputs (steps + 1) (by omega)).trans (hinputs steps hsecond).symm
        refine ih (steps + 1) (by omega) (by omega) ?_
        rw [queue_succ_of_quiet hv hc hq (hquiet steps hfirst) hsame]
        rw [hq] at hlength
        exact Nat.succ.inj hlength
    exact hshrinks _ (max first second) (Nat.le_max_left _ _) (Nat.le_max_right _ _) rfl

end Ends

/-! ## Values that come to rest -/

/-- From some step on the value of the node stays as it is. -/
def Steady (graph : Graph) (node : NodeId) : Prop :=
  ∃ start, ∀ steps, start ≤ steps →
    (trace graph steps).values.get? node = (trace graph start).values.get? node

theorem Steady.exists_forall {nodes : Finset NodeId} (h : ∀ node ∈ nodes, Steady graph node) :
    ∃ start, ∀ node ∈ nodes, ∀ steps, start ≤ steps →
      (trace graph steps).values.get? node = (trace graph start).values.get? node := by
  have hall : ∀ᶠ start in Filter.atTop, ∀ node ∈ nodes, ∀ steps, start ≤ steps →
      (trace graph steps).values.get? node = (trace graph start).values.get? node := by
    refine (Filter.eventually_all_finset nodes).2 fun node hnode => ?_
    obtain ⟨first, hfirst⟩ := h node hnode
    refine Filter.eventually_atTop.2 ⟨first, fun start hstart steps hsteps => ?_⟩
    rw [hfirst steps (hstart.trans hsteps), hfirst start hstart]
  exact hall.exists

section Rest

variable (hv : graph.Valid) (hc : graph.Complete)
include hv hc

omit hc in
theorem get?_trace_of_not_listed {node : NodeId} (h : ¬ Listed graph.blocks node) (steps : Nat) :
    (trace graph steps).values.get? node = none := by
  by_contra hne
  obtain ⟨id, hlisted, -⟩ := recorded_of_nexts hv
    (nexts_trace (Nat.zero_le steps)) node hne
  exact h (listed_iff.2 ⟨id, hlisted⟩)

/-- A visit leaves the values that running the nodes of its block gives. -/
theorem exists_visit_trace {id : BlockId} {steps : Nat} (h : Takes graph id steps) {block : Block}
    (hblock : graph.blocks[id]? = some block) :
    ∃ visit, Visit.run graph block.nodes ((trace graph steps).input id) (trace graph steps).values =
        some visit ∧ (trace graph (steps + 1)).values = visit.values := by
  obtain ⟨rest, hq, hreached⟩ := h
  have hstep := stepped_trace hv hc hq
  generalize trace graph (steps + 1) = next at hstep ⊢
  cases hstep with
  | skip hunreached =>
    rw [hunreached] at hreached
    cases hreached
  | @visit block' visit next _ hblock' hrun hcarried =>
    rw [hblock] at hblock'
    cases hblock'
    exact ⟨visit, hrun, hcarried.values⟩

/-- Only a visit of its own block changes the value of a node. -/
theorem get?_trace_succ (honce : ListedOnce graph.blocks) {id : BlockId} {node : NodeId}
    (hlisted : ListedIn graph.blocks id node) {steps : Nat} (hother : ¬ Takes graph id steps) :
    (trace graph (steps + 1)).values.get? node = (trace graph steps).values.get? node := by
  cases hq : (trace graph steps).queue with
  | nil => rw [trace_succ_of_queue_eq_nil hq]
  | cons taken rest =>
    have hstep := stepped_trace hv hc hq
    generalize trace graph (steps + 1) = next at hstep ⊢
    cases hstep with
    | skip hunreached => rfl
    | @visit block visit next hreached hblock hrun hcarried =>
      have hne : taken ≠ id := by
        rintro rfl
        exact hother ⟨rest, hq, hreached⟩
      rw [hcarried.values]
      exact Visit.get?_foldlM_of_not_mem hrun fun hnode =>
        hne (honce.eq_of_listedIn ⟨block, hblock, hnode⟩ hlisted)

/-- A node comes to rest when all visits of its block give it the same value. -/
theorem steady_of_takes (honce : ListedOnce graph.blocks) {id : BlockId} {node : NodeId}
    (hlisted : ListedIn graph.blocks id node) (start : Nat)
    (hagree : ∀ a b, start ≤ a → start ≤ b → Takes graph id a → Takes graph id b →
      (trace graph (a + 1)).values.get? node = (trace graph (b + 1)).values.get? node) :
    Steady graph node := by
  by_cases hvisited : ∃ first, start ≤ first ∧ Takes graph id first
  · obtain ⟨first, hfirst, htakes⟩ := hvisited
    refine ⟨first + 1, fun steps hsteps => ?_⟩
    induction steps, hsteps using Nat.le_induction with
    | base => rfl
    | succ steps hsteps ih =>
      by_cases hagain : Takes graph id steps
      · exact hagree steps first (by omega) hfirst hagain htakes
      · rw [get?_trace_succ hv hc honce hlisted hagain, ih]
  · refine ⟨start, fun steps hsteps => ?_⟩
    induction steps, hsteps using Nat.le_induction with
    | base => rfl
    | succ steps hsteps ih =>
      have hother : ¬ Takes graph id steps := fun htakes => hvisited ⟨steps, hsteps, htakes⟩
      rw [get?_trace_succ hv hc honce hlisted hother, ih]

/-- A visit replays the nodes of its block up to one from which on nothing is
known, if what they read from elsewhere stays as it is. -/
theorem replays_trace_succ (honce : ListedOnce graph.blocks) {id : BlockId} {block : Block}
    (hblock : graph.blocks[id]? = some block) {front back : List NodeId}
    (hsplit : block.nodes = front ++ back) {steps : Nat} (htakes : Takes graph id steps)
    (hreads : ∀ seen n rest, front = seen ++ n :: rest → ∀ m ∈ graph.reads n, m ∉ seen →
      (trace graph steps).values.get? m = (trace graph (steps + 1)).values.get? m) :
    ∃ output, graph.Replays (trace graph (steps + 1)).values front
      ((trace graph steps).input id) output := by
  obtain ⟨visit, hrun, hvalues⟩ := exists_visit_trace hv hc htakes hblock
  rw [hvalues] at hreads ⊢
  have hlt : ∀ n ∈ front, n < (trace graph steps).values.cells.size := by
    intro n hn
    rw [(fits_trace hv steps).size_values]
    exact hv.node_lt id block hblock n (hsplit ▸ List.mem_append_left _ hn)
  obtain ⟨output, hreplays, -⟩ := Visit.replays_of_foldlM (hsplit ▸ hrun)
    (hsplit ▸ honce.nodup hblock) hlt hreads
  exact ⟨output, hreplays⟩

/-- A node comes to rest when the facts at its block and all values have that are
read up to it. -/
theorem steady_of_reads (honce : ListedOnce graph.blocks) {id : BlockId} {block : Block}
    (hblock : graph.blocks[id]? = some block) {front back : List NodeId} {node : NodeId}
    (hsplit : block.nodes = (front ++ [node]) ++ back) {start : Nat}
    (hinput : ∀ steps, start ≤ steps → (trace graph steps).input id = (trace graph start).input id)
    (hreads : ∀ seen n rest, front ++ [node] = seen ++ n :: rest → ∀ m ∈ graph.reads n, m ∉ seen →
      ∀ steps, start ≤ steps →
        (trace graph steps).values.get? m = (trace graph start).values.get? m) :
    Steady graph node := by
  have hlisted : ListedIn graph.blocks id node := ⟨block, hblock, by simp [hsplit]⟩
  have hreplays : ∀ steps, start ≤ steps → Takes graph id steps →
      ∃ output, graph.Replays (trace graph (steps + 1)).values (front ++ [node])
        ((trace graph start).input id) output := by
    intro steps hsteps htakes
    rw [← hinput steps hsteps]
    refine replays_trace_succ hv hc honce hblock hsplit htakes fun seen n rest heq m hm hseen => ?_
    rw [hreads seen n rest heq m hm hseen steps hsteps,
      hreads seen n rest heq m hm hseen (steps + 1) (by omega)]
  refine steady_of_takes hv hc honce hlisted start fun a b ha hb htakesA htakesB => ?_
  obtain ⟨outputA, hreplaysA⟩ := hreplays a ha htakesA
  obtain ⟨outputB, hreplaysB⟩ := hreplays b hb htakesB
  refine (hreplaysA.unique hreplaysB fun seen n rest heq m hm hseen => ?_).2 node (by simp)
  rw [hreads seen n rest heq m hm hseen (a + 1) (by omega),
    hreads seen n rest heq m hm hseen (b + 1) (by omega)]

/-- Where all values have come to rest a run is quiet. -/
theorem exists_quiet_of_steady (honce : ListedOnce graph.blocks)
    (h : ∀ node, Steady graph node) :
    ∃ start, ∀ steps, start ≤ steps → Quiet graph (trace graph steps) := by
  obtain ⟨start, hstart⟩ := Steady.exists_forall fun node
    (_ : node ∈ Finset.range graph.actions.size) => h node
  refine ⟨start, fun steps hsteps id rest block visit hq hblock hreached hrun => ?_⟩
  by_contra hchanged
  rw [Bool.not_eq_false] at hchanged
  have hlt := hv.node_lt id block hblock
  obtain ⟨node, hnode, hne⟩ := Visit.exists_changed_foldlM hrun (honce.nodup hblock)
    (by rw [(fits_trace hv steps).size_values]; exact hlt) rfl hchanged
  have hrest := hstart node (Finset.mem_range.2 (hlt node hnode))
  obtain ⟨visit', hrun', hvalues⟩ := exists_visit_trace hv hc ⟨rest, hq, hreached⟩ hblock
  rw [hrun] at hrun'
  cases hrun'
  rw [← hvalues, hrest (steps + 1) (by omega)] at hne
  exact hne (hrest steps hsteps).symm

end Rest

end Worklist

/-! ## Bodies in order -/

/-- Along the ranks every block is listed upwards, and whatever is read comes
before its reader. -/
structure Graph.Ordered (graph : Graph) (rank : NodeId → Nat) : Prop where
  sorted : ∀ (id : BlockId) (block : Block), graph.blocks[id]? = some block →
    block.nodes.Pairwise fun a b => rank a < rank b
  read_lt : ∀ (id : BlockId) (node : NodeId), ListedIn graph.blocks id node →
    ∀ operand ∈ graph.reads node, Listed graph.blocks operand → rank operand < rank node

/-- What is read at or before a node of a block has a lower rank than the node. -/
theorem Graph.Ordered.read_lt_of_mem {graph : Graph} {rank : NodeId → Nat}
    (h : graph.Ordered rank) {id : BlockId} {block : Block}
    (hblock : graph.blocks[id]? = some block) {front back : List NodeId} {node reader m : NodeId}
    (hsplit : block.nodes = front ++ node :: back) (hreader : reader ∈ front ++ [node])
    (hm : m ∈ graph.reads reader) (hlisted : Listed graph.blocks m) : rank m < rank node := by
  have hsorted := h.sorted id block hblock
  rw [hsplit, List.pairwise_append] at hsorted
  have hle : rank reader ≤ rank node := by
    rcases List.mem_append.1 hreader with hreader | hreader
    · exact (hsorted.2.2 reader hreader node List.mem_cons_self).le
    · rw [List.mem_singleton.1 hreader]
  have hmem : reader ∈ block.nodes := by
    rw [hsplit, List.append_cons]
    exact List.mem_append_left _ hreader
  exact (h.read_lt id reader ⟨block, hblock, hmem⟩ m hm hlisted).trans_le hle

/-- In order of rank, each node comes to rest after those that it depends on. -/
theorem Worklist.steady_of_ordered {graph : Graph} {paths : Finset AccessPath}
    {rank : NodeId → Nat} (hv : graph.Valid) (hc : graph.Complete) (hw : graph.Writes paths)
    (hentry : graph.entry.Within paths) (honce : ListedOnce graph.blocks)
    (hordered : graph.Ordered rank) (node : NodeId) : Steady graph node := by
  induction hrank : rank node using Nat.strong_induction_on generalizing node with
  | _ _ ih =>
    subst hrank
    by_cases hlisted : Listed graph.blocks node
    · obtain ⟨id, block, hblock, hnode⟩ := listed_iff.1 hlisted
      obtain ⟨front, back, hsplit⟩ := List.append_of_mem hnode
      obtain ⟨first, hinputs⟩ := exists_inputs_eq hv hw hentry
      obtain ⟨second, hvalues⟩ := Steady.exists_forall fun m
        (hm : m ∈ (Finset.range graph.actions.size).filter fun m => rank m < rank node) =>
          ih (rank m) (Finset.mem_filter.1 hm).2 m rfl
      have hinput : ∀ steps, max first second ≤ steps →
          (trace graph steps).input id = (trace graph (max first second)).input id := by
        intro steps hsteps
        rw [input, hinputs steps (by omega), ← hinputs (max first second) (by omega)]
        rfl
      refine steady_of_reads hv hc honce hblock (hsplit.trans (List.append_cons _ _ _)) hinput
        fun seen reader rest hseen m hm _ steps hsteps => ?_
      by_cases hmlisted : Listed graph.blocks m
      · have hlt := hordered.read_lt_of_mem hblock hsplit (by simp [hseen]) hm hmlisted
        obtain ⟨other, otherBlock, hother, hmem⟩ := listed_iff.1 hmlisted
        have hlow : m ∈ (Finset.range graph.actions.size).filter fun m => rank m < rank node :=
          Finset.mem_filter.2
            ⟨Finset.mem_range.2 (hv.node_lt other otherBlock hother m hmem), hlt⟩
        rw [hvalues m hlow steps (by omega), hvalues m hlow (max first second) (by omega)]
      · rw [get?_trace_of_not_listed hv hmlisted, get?_trace_of_not_listed hv hmlisted]
    · refine ⟨0, fun steps _ => ?_⟩
      rw [get?_trace_of_not_listed hv hlisted, get?_trace_of_not_listed hv hlisted]

/-- Along the ranks every block is listed upwards, and whatever is read comes
before its reader, unless it is never evaluated. -/
def Body.Ordered (body : Body) (rank : NodeId → Nat) : Prop :=
  ∀ block ∈ body.blocks.toList, block.nodes.Pairwise (fun a b => rank a < rank b) ∧
    ∀ node ∈ block.nodes, ∀ operand ∈ body.reads node,
      Listed body.blocks operand → rank operand < rank node

instance (body : Body) (rank : NodeId → Nat) : Decidable (body.Ordered rank) :=
  inferInstanceAs (Decidable (∀ block ∈ body.blocks.toList,
    block.nodes.Pairwise (fun a b => rank a < rank b) ∧
      ∀ node ∈ block.nodes, ∀ operand ∈ body.reads node,
        Listed body.blocks operand → rank operand < rank node))

section OfBody

variable {policy : Policy} {body : Body}

theorem ordered_ofBody {rank : NodeId → Nat} (h : body.Ordered rank) :
    (Graph.ofBody policy body).Ordered rank where
  sorted _ block hblock :=
    (h block (Array.mem_toList_iff.2 (Array.mem_of_getElem? hblock))).1
  read_lt id node hlisted operand hoperand := by
    obtain ⟨block, hblock, hnode⟩ := hlisted
    exact (h block (Array.mem_toList_iff.2 (Array.mem_of_getElem? hblock))).2 node hnode operand
      (Graph.reads_ofBody node hoperand)

theorem card_places_le_stepLimit (policy : Policy) (body : Body) :
    (Worklist.places body.namedPaths (Graph.ofBody policy body).actions.size
      (Graph.ofBody policy body).blocks.size).card ≤ body.stepLimit := by
  have hblocks : (Graph.ofBody policy body).blocks.size = body.blocks.size := rfl
  rw [Worklist.card_places, Graph.size_actions_ofBody, hblocks]
  have hpaths : 3 * body.namedPaths.card + 1 ≤ 3 * (body.locals.size + body.nodes.size) + 1 := by
    have := body.card_namedPaths_le
    omega
  exact Nat.mul_le_mul_right _ (Nat.mul_le_mul_right _
    (Nat.succ_le_succ (Nat.mul_le_mul_left _ hpaths)))

theorem solve_of_graphError? (hbody : body.graphError? = none) :
    body.solve policy = .ok ((Worklist.run (.ofBody policy body) body.stepLimit
      (.initial (.ofBody policy body))).map fun list => ⟨list.values, list.visits⟩) := by
  simp only [Body.solve, hbody]

/-- The step limit cuts no run short: a body has a solution exactly if its run
ends at all. -/
theorem exists_solution_iff (hbody : body.graphError? = none)
    (hc : (Graph.ofBody policy body).Complete) :
    (∃ solution, body.solve policy = .ok (some solution)) ↔
      ∃ steps, (Worklist.trace (.ofBody policy body) steps).queue = [] := by
  have hv : (Graph.ofBody policy body).Valid := Graph.valid_ofBody hbody
  have hrun := Worklist.run_trace hv hc body.stepLimit 0
  rw [Nat.zero_add] at hrun
  have hsolve : body.solve policy =
      .ok ((if (Worklist.trace (.ofBody policy body) body.stepLimit).queue = [] then
        some (Worklist.trace (.ofBody policy body) body.stepLimit) else none).map
          fun list => ⟨list.values, list.visits⟩) := by
    rw [solve_of_graphError? hbody, ← hrun]
    rfl
  rw [hsolve]
  constructor
  · rintro ⟨solution, h⟩
    refine ⟨body.stepLimit, ?_⟩
    by_contra hne
    rw [if_neg hne] at h
    cases h
  · intro hends
    have hlimit := Worklist.queue_trace_card_places hv Graph.writes_ofBody
      Graph.within_entry_ofBody hends
    have hlast := Worklist.trace_eq_of_queue_eq_nil hlimit (card_places_le_stepLimit policy body)
    rw [if_pos (by rw [hlast]; exact hlimit)]
    exact ⟨_, rfl⟩

/-- **Termination.** Let every node that is listed have an action. Then the run of
a body ends exactly if from some step on no visit changes a recorded value. It
does so whenever every node is listed at most once and the nodes can be ranked so
that each block is listed upwards and whatever is read, if it is listed at all,
comes before its reader. -/
theorem exists_solution_iff_quiet (hbody : body.graphError? = none)
    (hc : (Graph.ofBody policy body).Complete) :
    ((∃ solution, body.solve policy = .ok (some solution)) ↔
      ∃ start, ∀ steps, start ≤ steps →
        Worklist.Quiet (.ofBody policy body) (Worklist.trace (.ofBody policy body) steps)) ∧
    (ListedOnce body.blocks → (∃ rank, body.Ordered rank) →
      ∃ solution, body.solve policy = .ok (some solution)) := by
  have hv : (Graph.ofBody policy body).Valid := Graph.valid_ofBody hbody
  have hiff := (exists_solution_iff hbody hc).trans
    (Worklist.queue_eq_nil_iff_quiet hv hc Graph.writes_ofBody Graph.within_entry_ofBody)
  refine ⟨hiff, fun honce ⟨rank, hrank⟩ => hiff.2 ?_⟩
  exact Worklist.exists_quiet_of_steady hv hc honce fun node =>
    Worklist.steady_of_ordered hv hc Graph.writes_ofBody Graph.within_entry_ofBody honce
      (ordered_ofBody hrank) node

end OfBody

/-- A loop that reads a variable, sets it, and compares it with what was read. -/
def compareLoop : Body :=
  .ofKinds #[⟨"x", .ofClass "java.lang.String", .parameter, none, ["NonNull"]⟩]
    #[.localVariable 0, .nullLiteral, .assignment 0 1, .notEqual 0 1, .conditionalNot,
      .ternary 0 1]
    #[⟨[0], [⟨1, .eachToEach⟩]⟩, ⟨[1, 2], [⟨2, .eachToEach⟩]⟩,
      ⟨[3, 4], [⟨0, .thenToBoth⟩, ⟨3, .elseToBoth⟩]⟩, ⟨[5], []⟩]

theorem exists_solution_compareLoop :
    compareLoop.graphError? = none ∧ ListedOnce compareLoop.blocks ∧ compareLoop.Ordered id ∧
      ∃ solution, compareLoop.solve .trusting = .ok (some solution) :=
  ⟨by decide +kernel, by decide +kernel, by decide +kernel,
    (exists_solution_iff_quiet (by decide +kernel)
      (Graph.complete_ofBody (by decide +kernel) (by decide +kernel))).2 (by decide +kernel)
        ⟨id, by decide +kernel⟩⟩

/-! ## Runs that never end -/

/-- The run of the body does not end, however many steps it is given. -/
def NeverEnds (policy : Policy) (body : Body) : Prop :=
  ∀ steps, Worklist.run (.ofBody policy body) steps (.initial (.ofBody policy body)) = none

theorem neverEnds_of_same {policy : Policy} {body : Body} (hbody : body.graphError? = none)
    (hc : (Graph.ofBody policy body).Complete) {i j : Nat} (hij : i < j)
    (h : (Worklist.trace (.ofBody policy body) i).Same (Worklist.trace (.ofBody policy body) j))
    (hne : (Worklist.trace (.ofBody policy body) i).queue ≠ []) : NeverEnds policy body := by
  intro steps
  have hrun := Worklist.run_trace (Graph.valid_ofBody hbody) hc steps 0
  rw [if_neg (Worklist.queue_ne_nil_of_same hij h hne _)] at hrun
  exact hrun

/-- Three ternaries read each other in a ring; what enters the ring from the cast
on the first visit goes round in it for ever. -/
def ringOfReaders : Body :=
  .ofKinds #[]
    #[.nullLiteral, .typeCast 5 [], .ternary 3 3, .ternary 4 4, .ternary 2 1, .ternary 6 6, .marker]
    #[⟨[0, 1, 2, 3, 4, 5], [⟨0, .eachToEach⟩]⟩]

/-- A read of `x` is listed after each of two assignments, and has a new value
each time. -/
def listedTwice : Body :=
  .ofKinds #[⟨"x", .ofClass "java.lang.String", .localVariable, none, []⟩]
    #[.nullLiteral, .localVariable 0, .assignment 1 0, .valueLiteral, .assignment 1 3]
    #[⟨[0, 2, 1, 3, 4, 1], [⟨0, .eachToEach⟩]⟩]

theorem never_ends :
    (ringOfReaders.graphError? = none ∧ ListedOnce ringOfReaders.blocks ∧
        (Graph.ofBody .codeOnly ringOfReaders).Complete ∧ NeverEnds .codeOnly ringOfReaders ∧
        (Graph.ofBody .trusting ringOfReaders).Complete ∧ NeverEnds .trusting ringOfReaders) ∧
      (listedTwice.graphError? = none ∧
        (∀ node < 5, ∀ operand ∈ listedTwice.reads node, operand < node) ∧
        (Graph.ofBody .codeOnly listedTwice).Complete ∧ NeverEnds .codeOnly listedTwice ∧
        (Graph.ofBody .trusting listedTwice).Complete ∧ NeverEnds .trusting listedTwice) := by
  have hring : ringOfReaders.graphError? = none := by decide +kernel
  have htwice : listedTwice.graphError? = none := by decide +kernel
  have hringComplete : ∀ policy, (Graph.ofBody policy ringOfReaders).Complete := fun _ =>
    Graph.complete_ofBody hring (by decide +kernel)
  have htwiceComplete : ∀ policy, (Graph.ofBody policy listedTwice).Complete := fun _ =>
    Graph.complete_ofBody htwice (by decide +kernel)
  have hringLt : (2 : Nat) < 4 := by decide
  have htwiceLt : (2 : Nat) < 3 := by decide
  refine ⟨⟨hring, by decide +kernel, hringComplete _, ?_, hringComplete _, ?_⟩,
    htwice, by decide +kernel, htwiceComplete _, ?_, htwiceComplete _, ?_⟩
  · exact neverEnds_of_same hring (hringComplete _) hringLt (by decide +kernel)
      (by decide +kernel)
  · exact neverEnds_of_same hring (hringComplete _) hringLt (by decide +kernel)
      (by decide +kernel)
  · exact neverEnds_of_same htwice (htwiceComplete _) htwiceLt (by decide +kernel)
      (by decide +kernel)
  · exact neverEnds_of_same htwice (htwiceComplete _) htwiceLt (by decide +kernel)
      (by decide +kernel)

end JvmLint
