import JvmLint.Proofs.Nullness.Graph

/-!
# Visits

What running the nodes of a block does to the values: only listed nodes get a
value (`get?_foldlM_of_not_mem`), and the flag of a visit says whether any value
changed (`changed_foldlM`, `exists_changed_foldlM`).

A visit reads values while it records others. `Graph.Replays` is the same run
over fixed values, with the value of each node checked against the one that is
recorded; `replays_of_foldlM` says when a visit leaves values that it replays, and
`Replays.unique` that a replay has only one outcome. For blocks whose nodes read
only what was recorded earlier in the same visit, the outcome is monotone in the
facts that come in (`foldlM_le_foldlM`).
-/
namespace JvmLint

/-- Running the nodes from the facts `input`, with operands read from `values`,
gives each of them the value that is recorded for it, and leaves `output`. -/
inductive Graph.Replays (graph : Graph) (values : NodeValues) :
    List NodeId → (input output : Flow) → Prop
  | nil (flow : Flow) : Replays graph values [] flow flow
  | cons {node : NodeId} {rest : List NodeId} {input output : Flow} {action : Action}
      (haction : graph.action? node = some action)
      (hvalue : values.get? node = some (action.run input values).1)
      (hrest : Replays graph values rest (action.run input values).2 output) :
      Replays graph values (node :: rest) input output

namespace Graph.Replays

variable {graph : Graph} {v w : NodeValues} {nodes : List NodeId} {input output other : Flow}

theorem congr (h : Replays graph v nodes input output)
    (hnodes : ∀ n ∈ nodes, v.get? n = w.get? n)
    (hreads : ∀ n ∈ nodes, ∀ m ∈ graph.reads n, v.get? m = w.get? m) :
    Replays graph w nodes input output := by
  induction h with
  | nil flow => exact .nil flow
  | @cons node rest input output action haction hvalue hrest ih =>
    have hrun : action.run input v = action.run input w := Action.run_congr input fun m hm =>
      hreads node List.mem_cons_self m ((mem_reads haction).2 hm)
    refine .cons haction ?_ ?_
    · rw [← hnodes node List.mem_cons_self, hvalue, hrun]
    · rw [← hrun]
      exact ih (fun n hn => hnodes n (List.mem_cons_of_mem _ hn))
        fun n hn => hreads n (List.mem_cons_of_mem _ hn)

/-- Two replays agree on all that they reproduce, if the values they read agree
wherever a node reads one that is not reproduced before it. -/
theorem unique (hv : Replays graph v nodes input output) (hw : Replays graph w nodes input other)
    (hreads : ∀ seen n rest, nodes = seen ++ n :: rest → ∀ m ∈ graph.reads n, m ∉ seen →
      v.get? m = w.get? m) :
    output = other ∧ ∀ n ∈ nodes, v.get? n = w.get? n := by
  induction hv with
  | nil flow =>
    cases hw
    exact ⟨rfl, fun n hn => by cases hn⟩
  | @cons node rest input output action haction hvalue hrest ih =>
    cases hw with
    | @cons _ _ _ _ action' haction' hvalue' hrest' =>
      rw [haction] at haction'
      cases haction'
      have hrun : action.run input v = action.run input w := Action.run_congr input fun m hm =>
        hreads [] node rest rfl m ((mem_reads haction).2 hm) List.not_mem_nil
      rw [← hrun] at hvalue' hrest'
      have hnode : v.get? node = w.get? node := by rw [hvalue, hvalue']
      obtain ⟨hout, hrestEq⟩ := ih hrest' fun seen n rest heq m hm hseen => by
        by_cases hmn : m = node
        · rw [hmn, hnode]
        · exact hreads (node :: seen) n rest (by rw [heq]; rfl) m hm (by simp [hmn, hseen])
      refine ⟨hout, fun n hn => ?_⟩
      rcases List.mem_cons.1 hn with rfl | hn
      · exact hnode
      · exact hrestEq n hn

end Graph.Replays

namespace Visit

variable {graph : Graph} {nodes : List NodeId} {visit visit' : Visit}

/-! ## One node, and a run of nodes -/

theorem step_eq_some {node : NodeId} : step graph visit node = some visit' ↔
    ∃ action, graph.action? node = some action ∧
      visit' =
        { flow := (action.run visit.flow visit.values).2
          values := visit.values.record node (action.run visit.flow visit.values).1
          changed := visit.changed ||
            visit.values.get? node != some (action.run visit.flow visit.values).1 } := by
  unfold step
  rw [Option.map_eq_some_iff]
  constructor
  · rintro ⟨action, haction, rfl⟩
    exact ⟨action, haction, rfl⟩
  · rintro ⟨action, haction, rfl⟩
    exact ⟨action, haction, rfl⟩

theorem foldlM_cons_eq_some {node : NodeId} :
    (node :: nodes).foldlM (step graph) visit = some visit' ↔
      ∃ mid, step graph visit node = some mid ∧ nodes.foldlM (step graph) mid = some visit' := by
  rw [List.foldlM_cons, Option.bind_eq_bind, Option.bind_eq_some_iff]

theorem exists_foldlM (h : ∀ n ∈ nodes, ∃ action, graph.action? n = some action)
    (visit : Visit) : ∃ visit', nodes.foldlM (step graph) visit = some visit' := by
  induction nodes generalizing visit with
  | nil => exact ⟨visit, rfl⟩
  | cons node rest ih =>
    obtain ⟨action, haction⟩ := h node List.mem_cons_self
    obtain ⟨visit', hvisit'⟩ := ih (fun n hn => h n (List.mem_cons_of_mem _ hn)) _
    exact ⟨visit', foldlM_cons_eq_some.2 ⟨_, step_eq_some.2 ⟨action, haction, rfl⟩, hvisit'⟩⟩

theorem size_foldlM (h : nodes.foldlM (step graph) visit = some visit') :
    visit'.values.cells.size = visit.values.cells.size := by
  induction nodes generalizing visit with
  | nil => cases h; rfl
  | cons node rest ih =>
    obtain ⟨mid, hmid, hrest⟩ := foldlM_cons_eq_some.1 h
    obtain ⟨action, -, rfl⟩ := step_eq_some.1 hmid
    rw [ih hrest, NodeValues.size_record]

theorem get?_foldlM_of_not_mem (h : nodes.foldlM (step graph) visit = some visit') {n : NodeId}
    (hn : n ∉ nodes) : visit'.values.get? n = visit.values.get? n := by
  induction nodes generalizing visit with
  | nil => cases h; rfl
  | cons node rest ih =>
    obtain ⟨mid, hmid, hrest⟩ := foldlM_cons_eq_some.1 h
    obtain ⟨action, -, rfl⟩ := step_eq_some.1 hmid
    rw [List.mem_cons, not_or] at hn
    rw [ih hrest hn.2, NodeValues.get?_record_ne _ _ hn.1]

theorem isReached_foldlM (h : nodes.foldlM (step graph) visit = some visit')
    (hin : visit.flow.isReached = true) : visit'.flow.isReached = true := by
  induction nodes generalizing visit with
  | nil => cases h; exact hin
  | cons node rest ih =>
    obtain ⟨mid, hmid, hrest⟩ := foldlM_cons_eq_some.1 h
    obtain ⟨action, -, rfl⟩ := step_eq_some.1 hmid
    exact ih hrest (action.isReached_run _ hin)

/-- A node that merges the sides leaves both of them reached. -/
theorem isFull_foldlM (h : nodes.foldlM (step graph) visit = some visit')
    (hfull : visit.flow.isFull = true ∨ ∃ n ∈ nodes, ∀ action, graph.action? n = some action →
      ∃ batch, action.effect = .regular batch) : visit'.flow.isFull = true := by
  induction nodes generalizing visit with
  | nil =>
    cases h
    simpa using hfull
  | cons node rest ih =>
    obtain ⟨mid, hmid, hrest⟩ := foldlM_cons_eq_some.1 h
    obtain ⟨action, haction, rfl⟩ := step_eq_some.1 hmid
    rcases hfull with hfull | ⟨n, hn, hregular⟩
    · exact ih hrest (Or.inl (action.effect.isFull_apply _ _ (Or.inl hfull)))
    · rcases List.mem_cons.1 hn with rfl | hn
      · exact ih hrest (Or.inl (action.effect.isFull_apply _ _ (Or.inr (hregular action haction))))
      · exact ih hrest (Or.inr ⟨n, hn, hregular⟩)

/-! ## The flag of a visit -/

theorem changed_foldlM (h : nodes.foldlM (step graph) visit = some visit')
    (hc : visit'.changed = false) : visit.changed = false ∧ visit'.values = visit.values := by
  induction nodes generalizing visit with
  | nil => cases h; exact ⟨hc, rfl⟩
  | cons node rest ih =>
    obtain ⟨mid, hmid, hrest⟩ := foldlM_cons_eq_some.1 h
    obtain ⟨action, -, rfl⟩ := step_eq_some.1 hmid
    obtain ⟨hflag, hvalues⟩ := ih hrest
    rw [Bool.or_eq_false_iff, bne_eq_false_iff_eq] at hflag
    exact ⟨hflag.1, by rw [hvalues, NodeValues.record_of_get? hflag.2]⟩

theorem exists_changed_foldlM (h : nodes.foldlM (step graph) visit = some visit')
    (hnodup : nodes.Nodup) (hlt : ∀ n ∈ nodes, n < visit.values.cells.size)
    (hold : visit.changed = false) (hnew : visit'.changed = true) :
    ∃ n ∈ nodes, visit'.values.get? n ≠ visit.values.get? n := by
  induction nodes generalizing visit with
  | nil => cases h; rw [hold] at hnew; cases hnew
  | cons node rest ih =>
    obtain ⟨mid, hmid, hrest⟩ := foldlM_cons_eq_some.1 h
    obtain ⟨action, -, rfl⟩ := step_eq_some.1 hmid
    rw [List.nodup_cons] at hnodup
    by_cases heq : visit.values.get? node = some (action.run visit.flow visit.values).1
    · have hsame := NodeValues.record_of_get? heq
      obtain ⟨n, hn, hne⟩ := ih hrest hnodup.2
        (fun m hm => by
          rw [NodeValues.size_record]; exact hlt m (List.mem_cons_of_mem _ hm))
        (by simp [hold, heq])
      rw [hsame] at hne
      exact ⟨n, List.mem_cons_of_mem _ hn, hne⟩
    · refine ⟨node, List.mem_cons_self, ?_⟩
      rw [get?_foldlM_of_not_mem hrest hnodup.1,
        NodeValues.get?_record_self _ _ (hlt node List.mem_cons_self)]
      exact Ne.symm heq

/-! ## Replays -/

/-- A run replays its first nodes over the values that it leaves, if whatever
such a node reads has by then the value that it ends with. -/
theorem replays_of_foldlM {front back : List NodeId}
    (h : (front ++ back).foldlM (step graph) visit = some visit')
    (hnodup : (front ++ back).Nodup) (hlt : ∀ n ∈ front, n < visit.values.cells.size)
    (hreads : ∀ seen n rest, front = seen ++ n :: rest → ∀ m ∈ graph.reads n, m ∉ seen →
      visit.values.get? m = visit'.values.get? m) :
    ∃ output, graph.Replays visit'.values front visit.flow output ∧
      (back = [] → output = visit'.flow) := by
  induction front generalizing visit with
  | nil =>
    refine ⟨visit.flow, .nil _, ?_⟩
    rintro rfl
    cases h
    rfl
  | cons node front ih =>
    obtain ⟨mid, hmid, hrest⟩ := foldlM_cons_eq_some.1 h
    obtain ⟨action, haction, rfl⟩ := step_eq_some.1 hmid
    obtain ⟨hnot, hnodup⟩ := List.nodup_cons.1 hnodup
    have hlast : visit'.values.get? node = some (action.run visit.flow visit.values).1 := by
      rw [get?_foldlM_of_not_mem hrest hnot]
      exact NodeValues.get?_record_self _ _ (hlt node List.mem_cons_self)
    have hrun : action.run visit.flow visit.values = action.run visit.flow visit'.values :=
      Action.run_congr _ fun m hm =>
        hreads [] node front rfl m ((Graph.mem_reads haction).2 hm) List.not_mem_nil
    obtain ⟨output, hreplay, hout⟩ := ih hrest hnodup
      (fun n hn => by rw [NodeValues.size_record]; exact hlt n (List.mem_cons_of_mem _ hn))
      (fun seen n rest heq m hm hseen => by
        by_cases hmn : m = node
        · subst hmn
          exact (get?_foldlM_of_not_mem hrest hnot).symm
        · rw [NodeValues.get?_record_ne _ _ hmn]
          exact hreads (node :: seen) n rest (by rw [heq]; rfl) m hm (by simp [hmn, hseen]))
    refine ⟨output, .cons haction ?_ ?_, hout⟩
    · rw [hlast, hrun]
    · rw [← hrun]
      exact hreplay

/-- A visit of a whole block leaves values that the block replays. -/
theorem replays_of_run (hv : graph.Valid) (honce : ListedOnce graph.blocks) {id : BlockId}
    {block : Block} (hblock : graph.blocks[id]? = some block) {input : Flow} {values : NodeValues}
    (hsize : values.cells.size = graph.actions.size)
    (hrun : run graph block.nodes input values = some visit)
    (hreads : ∀ seen n rest, block.nodes = seen ++ n :: rest → ∀ m ∈ graph.reads n, m ∉ seen →
      values.get? m = visit.values.get? m) :
    graph.Replays visit.values block.nodes input visit.flow := by
  have hsplit : block.nodes = block.nodes ++ [] := (List.append_nil _).symm
  have hlt : ∀ n ∈ block.nodes, n < values.cells.size := by
    rw [hsize]
    exact hv.node_lt id block hblock
  obtain ⟨output, hreplays, hout⟩ := replays_of_foldlM (hsplit ▸ hrun)
    (hsplit ▸ honce.nodup hblock) hlt hreads
  rw [← hout rfl]
  exact hreplays

/-! ## Monotonicity -/

/-- Two runs over the same nodes, by actions of which those of the first are below
those of the second, from ordered facts and from values that are ordered wherever
a node reads one that was not recorded before it, stay ordered. -/
theorem foldlM_le_foldlM {graph' : Graph} {low high low' high' : Visit}
    (hlow : nodes.foldlM (step graph) low = some low')
    (hhigh : nodes.foldlM (step graph') high = some high')
    (hbelow : ∀ n ∈ nodes, ∀ a b, graph.action? n = some a → graph'.action? n = some b →
      a.Below b)
    (hltLow : ∀ n ∈ nodes, n < low.values.cells.size)
    (hltHigh : ∀ n ∈ nodes, n < high.values.cells.size)
    (hflow : low.flow ≤ high.flow) (hreached : low.flow.isReached = true)
    (hreads : ∀ seen n rest, nodes = seen ++ n :: rest → ∀ m ∈ graph.reads n, m ∉ seen →
      Option.Rel (· ≤ ·) (low.values.get? m) (high.values.get? m)) :
    low'.flow ≤ high'.flow ∧
      ∀ n ∈ nodes, Option.Rel (· ≤ ·) (low'.values.get? n) (high'.values.get? n) := by
  induction nodes generalizing low high with
  | nil =>
    cases hlow
    cases hhigh
    exact ⟨hflow, fun n hn => by cases hn⟩
  | cons node rest ih =>
    obtain ⟨midLow, hmidLow, hrestLow⟩ := foldlM_cons_eq_some.1 hlow
    obtain ⟨midHigh, hmidHigh, hrestHigh⟩ := foldlM_cons_eq_some.1 hhigh
    obtain ⟨action, haction, rfl⟩ := step_eq_some.1 hmidLow
    obtain ⟨action', haction', rfl⟩ := step_eq_some.1 hmidHigh
    have hrun := hbelow node List.mem_cons_self action action' haction haction' hflow hreached
      fun m hm => hreads [] node rest rfl m ((Graph.mem_reads haction).2 hm) List.not_mem_nil
    have hnode : Option.Rel (· ≤ ·)
        ((low.values.record node (action.run low.flow low.values).1).get? node)
        ((high.values.record node (action'.run high.flow high.values).1).get? node) := by
      rw [NodeValues.get?_record_self _ _ (hltLow node List.mem_cons_self),
        NodeValues.get?_record_self _ _ (hltHigh node List.mem_cons_self)]
      exact .some hrun.1
    obtain ⟨hout, hvalues⟩ := ih hrestLow hrestHigh
      (fun n hn => hbelow n (List.mem_cons_of_mem _ hn))
      (fun n hn => by rw [NodeValues.size_record]; exact hltLow n (List.mem_cons_of_mem _ hn))
      (fun n hn => by rw [NodeValues.size_record]; exact hltHigh n (List.mem_cons_of_mem _ hn))
      hrun.2 (action.isReached_run _ hreached)
      (fun seen n rest heq m hm hseen => by
        by_cases hmn : m = node
        · subst hmn
          exact hnode
        · rw [NodeValues.get?_record_ne _ _ hmn, NodeValues.get?_record_ne _ _ hmn]
          exact hreads (node :: seen) n rest (by rw [heq]; rfl) m hm (by simp [hmn, hseen]))
    refine ⟨hout, fun n hn => ?_⟩
    by_cases hmem : n ∈ rest
    · exact hvalues n hmem
    · rcases List.mem_cons.1 hn with rfl | hn
      · rw [get?_foldlM_of_not_mem hrestLow hmem, get?_foldlM_of_not_mem hrestHigh hmem]
        exact hnode
      · exact absurd hn hmem

end Visit

end JvmLint
