import JvmLint.Proofs.Nullness.Trace
import Mathlib.Data.Finset.Basic

/-!
# The invariant of the worklist

At every moment of a run, whether it will end or not, a block that is reached and
does not wait has been visited, and since its last visit nothing has changed for
it: the facts at the block are still those that the visit started from, and the
facts at its successors contain all that the visit passed on
(`Worklist.current_of_not_mem_queue`).

A worklist looks into its queue to see whether a block waits already. One may as
well keep the set of the blocks that wait beside the queue, as `Marked` does:
it takes the same steps, and the set never differs from the queue
(`Worklist.trace_mark`).

The main result is `loopInvariant_trace`.
-/
namespace JvmLint

/-! ## Queues with a set beside them -/

/-- A worklist, and the set of the blocks that wait. -/
structure Marked where
  list : Worklist
  marks : Finset BlockId

namespace Marked

def initial (graph : Graph) : Marked := ⟨.initial graph, {0}⟩

/-- Marks a block and adds it to the end of the queue, unless it is marked. -/
def enqueue (marked : Marked) (id : BlockId) : Marked :=
  if id ∈ marked.marks then marked
  else ⟨{ marked.list with queue := marked.list.queue ++ [id] }, insert id marked.marks⟩

/-- Carries the outcome of a visit over an edge. -/
def carry (visit : Visit) (marked : Marked) (edge : Edge) : Marked :=
  let contribution := visit.flow.route edge.rule
  if contribution.isReached then
    let old := marked.list.input edge.target
    let new := old.merge contribution
    if new ≠ old then
      { marked with list := marked.list.setInput edge.target new }.enqueue edge.target
    else if visit.changed then marked.enqueue edge.target
    else marked
  else marked

/-- Takes the next block from the queue, unmarks it, and visits it if it is
reached. -/
def step (graph : Graph) (marked : Marked) : Option Marked :=
  match marked.list.queue with
  | [] => some marked
  | id :: rest =>
    let list := { marked.list with queue := rest }
    let marks := marked.marks.erase id
    let input := list.input id
    if input.isReached then do
      let block ← graph.blocks[id]?
      let visit ← Visit.run graph block.nodes input list.values
      let visited := { list with values := visit.values, visits := list.visits + 1 }
      some (block.successors.foldl (carry visit) ⟨visited, marks⟩)
    else some ⟨list, marks⟩

theorem step_cons {graph : Graph} {marked : Marked} {id : BlockId} {rest : List BlockId}
    (h : marked.list.queue = id :: rest) :
    step graph marked =
      if (marked.list.input id).isReached = true then
        graph.blocks[id]?.bind fun block =>
          (Visit.run graph block.nodes (marked.list.input id) marked.list.values).bind fun visit =>
            some (block.successors.foldl (carry visit)
              ⟨marked.list.visited rest visit, marked.marks.erase id⟩)
      else some ⟨{ marked.list with queue := rest }, marked.marks.erase id⟩ := by
  simp only [step, h]
  rfl

/-- The worklist and its set after some steps. -/
def trace (graph : Graph) : Nat → Marked
  | 0 => initial graph
  | steps + 1 => (step graph (trace graph steps)).getD (trace graph steps)

end Marked

namespace Worklist

variable {graph : Graph} {list : Worklist}

/-- The worklist with the set of what its queue holds. -/
def mark (list : Worklist) : Marked := ⟨list, list.queue.toFinset⟩

theorem mem_marks_mark {id : BlockId} : id ∈ list.mark.marks ↔ id ∈ list.queue :=
  List.mem_toFinset

theorem enqueue_mark (list : Worklist) (id : BlockId) :
    list.mark.enqueue id = (list.enqueue id).mark := by
  unfold Marked.enqueue enqueue
  by_cases hid : id ∈ list.queue
  · rw [if_pos (mem_marks_mark.2 hid), if_pos (List.contains_iff_mem.2 hid)]
  · rw [if_neg fun h => hid (mem_marks_mark.1 h), if_neg fun h => hid (List.contains_iff_mem.1 h)]
    have hmarks : insert id list.queue.toFinset = (list.queue ++ [id]).toFinset := by
      ext other
      simp
    simp only [mark, hmarks]

theorem carry_mark (visit : Visit) (list : Worklist) (edge : Edge) :
    Marked.carry visit list.mark edge = (carry visit list edge).mark := by
  have hset : ∀ flow, { list.mark with list := list.setInput edge.target flow } =
      (list.setInput edge.target flow).mark := fun _ => rfl
  have hlist : list.mark.list = list := rfl
  simp only [Marked.carry, carry, hlist, hset, enqueue_mark]
  split
  · split
    · rfl
    · split <;> rfl
  · rfl

theorem foldl_carry_mark (visit : Visit) (edges : List Edge) (list : Worklist) :
    edges.foldl (Marked.carry visit) list.mark = (edges.foldl (carry visit) list).mark := by
  induction edges generalizing list with
  | nil => rfl
  | cons edge edges ih => rw [List.foldl_cons, List.foldl_cons, carry_mark, ih]

/-- With a set beside the queue a worklist takes the same step. -/
theorem step_mark (h : list.queue.Nodup) :
    Marked.step graph list.mark = (step graph list).map mark := by
  cases hq : list.queue with
  | nil =>
    have hstep : Marked.step graph list.mark = some list.mark := by
      simp only [Marked.step, mark, hq]
    rw [hstep, step_of_queue_eq_nil hq, Option.map_some]
  | cons id rest =>
    rw [hq, List.nodup_cons] at h
    -- the block does not wait a second time, so no mark is lost
    have hmarks : list.mark.marks.erase id = rest.toFinset := by
      rw [mark, hq, List.toFinset_cons]
      exact Finset.erase_insert fun hid => h.1 (List.mem_toFinset.1 hid)
    have hlist : list.mark.list = list := rfl
    rw [Marked.step_cons hq, step_cons hq, hmarks, hlist]
    split
    · cases graph.blocks[id]? with
      | none => rfl
      | some block =>
        rw [Option.bind_some, Option.bind_some]
        cases Visit.run graph block.nodes (list.input id) list.values with
        | none => rfl
        | some visit =>
          have hfold := foldl_carry_mark visit block.successors (list.visited rest visit)
          exact congrArg some hfold
    · rfl

theorem trace_mark (hv : graph.Valid) (steps : Nat) :
    Marked.trace graph steps = (trace graph steps).mark := by
  induction steps with
  | zero => rfl
  | succ steps ih =>
    rw [Marked.trace, ih, step_mark (fits_trace hv steps).nodup, trace]
    cases step graph (trace graph steps) <;> rfl

/-! ## The last visit -/

/-- In the first `steps` steps the block was last visited by the one after
`turn`, with the outcome `visit`. -/
structure LastVisit (graph : Graph) (id : BlockId) (steps turn : Nat) (visit : Visit) : Prop where
  lt : turn < steps
  takes : Takes graph id turn
  run : ∃ block, graph.blocks[id]? = some block ∧
    Visit.run graph block.nodes ((trace graph turn).input id) (trace graph turn).values = some visit
  values : (trace graph (turn + 1)).values = visit.values
  last : ∀ later, turn < later → later < steps → ¬ Takes graph id later

theorem LastVisit.run_eq {id : BlockId} {block : Block} {steps turn : Nat} {visit : Visit}
    (h : LastVisit graph id steps turn visit) (hblock : graph.blocks[id]? = some block) :
    Visit.run graph block.nodes ((trace graph turn).input id) (trace graph turn).values =
      some visit := by
  obtain ⟨other, hother, hrun⟩ := h.run
  rw [hblock] at hother
  cases hother
  exact hrun

theorem LastVisit.succ {id : BlockId} {steps turn : Nat} {visit : Visit}
    (h : LastVisit graph id steps turn visit) (hnot : ¬ Takes graph id steps) :
    LastVisit graph id (steps + 1) turn visit where
  lt := Nat.lt_succ_of_lt h.lt
  takes := h.takes
  run := h.run
  values := h.values
  last later hturn hlater := by
    rcases Nat.lt_succ_iff_lt_or_eq.1 hlater with hlt | rfl
    · exact h.last later hturn hlt
    · exact hnot

/-- The last visit of a block started from the facts that are there now, and what
it passed on has arrived at the successors. -/
def Current (graph : Graph) (id : BlockId) (block : Block) (steps : Nat) : Prop :=
  ∃ turn visit, LastVisit graph id steps turn visit ∧
    (trace graph turn).input id = (trace graph steps).input id ∧
      ∀ edge ∈ block.successors,
        visit.flow.route edge.rule ≤ (trace graph steps).input edge.target

section Valid

variable (hv : graph.Valid) {id taken : BlockId} {block : Block} {rest : List BlockId}
  {steps : Nat}
include hv

/-- A step leaves a block current that does not wait and whose facts do not rise. -/
theorem Current.succ (h : Current graph id block steps) (hqueue : id ∉ (trace graph steps).queue)
    (hinput : (trace graph (steps + 1)).input id = (trace graph steps).input id) :
    Current graph id block (steps + 1) := by
  obtain ⟨turn, visit, hlast, hstart, hroutes⟩ := h
  have hnot : ¬ Takes graph id steps := by
    rintro ⟨rest, hq, -⟩
    exact hqueue (by rw [hq]; exact List.mem_cons_self)
  exact ⟨turn, visit, hlast.succ hnot, hstart.trans hinput.symm, fun edge hedge =>
    (hroutes edge hedge).trans (input_trace_le hv (Nat.le_succ steps) edge.target)⟩

omit hv in
/-- A visit makes its block current, unless it raises the facts there itself. -/
theorem current_of_visited {visit : Visit} (hq : (trace graph steps).queue = id :: rest)
    (hreached : ((trace graph steps).input id).isReached = true)
    (hblock : graph.blocks[id]? = some block)
    (hrun : Visit.run graph block.nodes ((trace graph steps).input id) (trace graph steps).values =
      some visit)
    (hcarried : Carried visit block.successors ((trace graph steps).visited rest visit)
      (trace graph (steps + 1)))
    (hinput : (trace graph (steps + 1)).input id = (trace graph steps).input id) :
    Current graph id block (steps + 1) := by
  refine ⟨steps, visit, ?_, hinput.symm, hcarried.route_le⟩
  exact ⟨Nat.lt_succ_self steps, ⟨rest, hq, hreached⟩, ⟨block, hblock, hrun⟩, hcarried.values,
    fun later hturn hlater => absurd hlater (by omega)⟩

/-- A block that is reached and does not wait is current. -/
theorem current_of_not_mem_queue (hblock : graph.blocks[id]? = some block)
    (hreached : ((trace graph steps).input id).isReached = true)
    (hqueue : id ∉ (trace graph steps).queue) : Current graph id block steps := by
  induction steps with
  | zero =>
    have hid : id ≠ 0 := fun h => hqueue (by rw [h]; exact List.mem_singleton_self 0)
    rw [trace, input_initial hv, if_neg hid] at hreached
    cases hreached
  | succ steps ih =>
    rcases trace_succ_cases graph steps with hsame | ⟨taken, rest, hq, hstep⟩
    · have hinput := congrArg (input · id) hsame
      rw [hsame] at hreached hqueue
      exact (ih hreached hqueue).succ hv hqueue hinput
    · have hwaiting : id ∈ (trace graph steps).queue → id = taken ∨ id ∈ rest := fun hmem =>
        List.mem_cons.1 (by rw [← hq]; exact hmem)
      have hstepped := stepped_of_step hv (fits_trace hv steps).size_inputs hstep
      generalize hnext : trace graph (steps + 1) = next at hstepped
      cases hstepped with
      | skip hunreached =>
        have hinput := congrArg (input · id) hnext
        rw [hnext] at hreached hqueue
        have hold : id ∉ (trace graph steps).queue := fun hmem => by
          rcases hwaiting hmem with rfl | hmem
          · exact Bool.false_ne_true (hunreached.symm.trans hreached)
          · exact hqueue hmem
        exact (ih hreached hold).succ hv hold hinput
      | @visit takenBlock visit next htaken htakenBlock hrun hcarried =>
        subst hnext
        have hinput : (trace graph (steps + 1)).input id = (trace graph steps).input id := by
          by_contra hne
          exact hqueue (hcarried.mem_of_raised id hne)
        by_cases hid : id = taken
        · subst hid
          rw [hblock] at htakenBlock
          cases htakenBlock
          exact current_of_visited hq htaken hblock hrun hcarried hinput
        · have hold : id ∉ (trace graph steps).queue := fun hmem =>
            hqueue (hcarried.mem_queue id ((hwaiting hmem).resolve_left hid))
          exact (ih (hinput ▸ hreached) hold).succ hv hold hinput

end Valid

/-! ## The invariant -/

/-- What holds of a run after some steps. -/
structure LoopInvariant (graph : Graph) (steps : Nat) : Prop where
  /-- To keep a set of the waiting blocks beside the queue makes no difference, -/
  list_marked : (Marked.trace graph steps).list = trace graph steps
  /-- and the set has the elements of the queue. -/
  mem_marks : ∀ id, id ∈ (Marked.trace graph steps).marks ↔ id ∈ (trace graph steps).queue
  nodup : (trace graph steps).queue.Nodup
  queue_lt : ∀ id ∈ (trace graph steps).queue, id < graph.blocks.size
  /-- The facts at a block have only risen. -/
  input_le : ∀ earlier ≤ steps, ∀ id,
    (trace graph earlier).input id ≤ (trace graph steps).input id
  current : ∀ (id : BlockId) (block : Block), graph.blocks[id]? = some block →
    ((trace graph steps).input id).isReached = true → id ∉ (trace graph steps).queue →
      Current graph id block steps

end Worklist

/-- **Worklist invariant.** Of a body that passes the checks, under any policy and
after any number of steps of its run, whether that ends or not: the queue holds
blocks of the body, none of them twice, and a set that is kept beside it holds the
same; the facts at every block are at or above what they were at every earlier
step; and a block that is reached and does not wait has been visited, its last
visit started from the facts that are there now, and what it left, carried over
each edge, is at or below the facts at the target. -/
theorem loopInvariant_trace {body : Body} (hbody : body.graphError? = none) (policy : Policy)
    (steps : Nat) : Worklist.LoopInvariant (.ofBody policy body) steps := by
  have hv : (Graph.ofBody policy body).Valid := Graph.valid_ofBody hbody
  have hfits := Worklist.fits_trace hv steps
  have hmarked := Worklist.trace_mark hv steps
  exact
    { list_marked := by rw [hmarked]; rfl
      mem_marks := fun id => by rw [hmarked]; exact Worklist.mem_marks_mark
      nodup := hfits.nodup
      queue_lt := hfits.queue_lt
      input_le := fun earlier hle id => Worklist.input_trace_le hv hle id
      current := fun id block => Worklist.current_of_not_mem_queue hv }

/-- A block goes back to itself, and to the block after it over two edges. -/
def selfLoop : Body :=
  .ofKinds #[⟨"x", .ofClass "java.lang.String", .localVariable, none, []⟩]
    #[.nullLiteral, .localVariable 0, .assignment 1 0, .valueLiteral, .assignment 1 3,
      .localVariable 0]
    #[⟨[0, 2], [⟨1, .eachToEach⟩]⟩,
      ⟨[1, 3, 4], [⟨1, .eachToEach⟩, ⟨2, .thenToBoth⟩, ⟨2, .elseToElse⟩]⟩, ⟨[5], []⟩]

/-- The loop still waits; the block before it, whose outcome was overtaken long
ago, is current all the same. -/
theorem loopInvariant_selfLoop :
    selfLoop.graphError? = none ∧
      (Worklist.trace (.ofBody .codeOnly selfLoop) 4).queue = [1] ∧
      1 ∈ (Marked.trace (.ofBody .codeOnly selfLoop) 4).marks ∧
      Worklist.Current (.ofBody .codeOnly selfLoop) 0 ⟨[0, 2], [⟨1, .eachToEach⟩]⟩ 4 := by
  have hbody : selfLoop.graphError? = none := by decide +kernel
  have hqueue : (Worklist.trace (.ofBody .codeOnly selfLoop) 4).queue = [1] := by decide +kernel
  have hinvariant := loopInvariant_trace hbody .codeOnly 4
  refine ⟨hbody, hqueue, (hinvariant.mem_marks 1).2 ?_, hinvariant.current 0 _ rfl ?_ ?_⟩
  · rw [hqueue]
    exact List.mem_singleton_self 1
  · decide +kernel
  · rw [hqueue]
    decide

end JvmLint
