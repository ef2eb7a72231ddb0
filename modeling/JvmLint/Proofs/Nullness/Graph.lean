import JvmLint.Nullness.Solver
import JvmLint.Proofs.Nullness.Transfer
import Mathlib.Data.List.Nodup

/-!
# Control-flow graphs

What the checks on a body promise of its graph (`Graph.Valid`), where a node is
listed, and what it reads. A body in which every node is listed at most once
(`ListedOnce`) has for each node one block that records its value.
-/
namespace JvmLint

/-! ## Listings -/

/-- Over all blocks, each node is listed at most once. -/
def ListedOnce (blocks : Array Block) : Prop :=
  (blocks.toList.flatMap Block.nodes).Nodup

instance (blocks : Array Block) : Decidable (ListedOnce blocks) :=
  inferInstanceAs (Decidable (blocks.toList.flatMap Block.nodes).Nodup)

/-- The node is listed in some block. -/
def Listed (blocks : Array Block) (node : NodeId) : Prop :=
  node ∈ blocks.toList.flatMap Block.nodes

instance (blocks : Array Block) (node : NodeId) : Decidable (Listed blocks node) :=
  inferInstanceAs (Decidable (node ∈ blocks.toList.flatMap Block.nodes))

/-- The node is listed in the block with an id. -/
def ListedIn (blocks : Array Block) (id : BlockId) (node : NodeId) : Prop :=
  ∃ block, blocks[id]? = some block ∧ node ∈ block.nodes

theorem listed_iff {blocks : Array Block} {node : NodeId} :
    Listed blocks node ↔ ∃ id, ListedIn blocks id node := by
  unfold Listed
  rw [List.mem_flatMap]
  constructor
  · rintro ⟨block, hblock, hnode⟩
    obtain ⟨id, hid⟩ := Array.mem_iff_getElem?.1 (Array.mem_toList_iff.1 hblock)
    exact ⟨id, block, hid, hnode⟩
  · rintro ⟨id, block, hid, hnode⟩
    exact ⟨block, Array.mem_toList_iff.2 (Array.mem_of_getElem? hid), hnode⟩

namespace ListedOnce

variable {blocks : Array Block}

theorem nodup (h : ListedOnce blocks) {id : BlockId} {block : Block}
    (hb : blocks[id]? = some block) : block.nodes.Nodup :=
  (List.nodup_flatMap.1 h).1 block (Array.mem_toList_iff.2 (Array.mem_of_getElem? hb))

theorem eq_of_listedIn (h : ListedOnce blocks) {i j : BlockId} {node : NodeId}
    (hi : ListedIn blocks i node) (hj : ListedIn blocks j node) : i = j := by
  obtain ⟨a, ha, hna⟩ := hi
  obtain ⟨b, hb, hnb⟩ := hj
  obtain ⟨hi, rfl⟩ := Array.getElem?_eq_some_iff.1 ha
  obtain ⟨hj, rfl⟩ := Array.getElem?_eq_some_iff.1 hb
  have hpair := List.pairwise_iff_getElem.1 (List.nodup_flatMap.1 h).2
  rcases Nat.lt_trichotomy i j with hlt | heq | hlt
  · exact absurd hnb (hpair i j (by simpa using hi) (by simpa using hj) hlt (by simpa using hna))
  · exact heq
  · exact absurd hna (hpair j i (by simpa using hj) (by simpa using hi) hlt (by simpa using hnb))

end ListedOnce

/-! ## Validity -/

/-- Every listed node has an action slot and every edge leads to a block. -/
structure Graph.Valid (graph : Graph) : Prop where
  nonempty : 0 < graph.blocks.size
  node_lt : ∀ (id : BlockId) (block : Block), graph.blocks[id]? = some block →
    ∀ node ∈ block.nodes, node < graph.actions.size
  target_lt : ∀ (id : BlockId) (block : Block), graph.blocks[id]? = some block →
    ∀ edge ∈ block.successors, edge.target < graph.blocks.size

namespace Body

theorem blockError?_eq_none {body : Body} {id : BlockId} {block : Block} :
    body.blockError? id block = none ↔
      (∀ node ∈ block.nodes, node < body.nodes.size) ∧
        ∀ edge ∈ block.successors, edge.target < body.blocks.size := by
  unfold blockError?
  cases hfind : block.nodes.find? (body.nodes.size ≤ ·) with
  | some node =>
    have hmem := List.mem_of_find?_eq_some hfind
    have hle := List.find?_some hfind
    simp only [decide_eq_true_eq] at hle
    constructor
    · intro h; cases h
    · intro h; exact absurd (h.1 node hmem) (Nat.not_lt.2 hle)
  | none =>
    have hnodes : ∀ node ∈ block.nodes, node < body.nodes.size := by
      simpa using hfind
    simp only [Option.map_eq_none_iff, List.find?_eq_none, decide_eq_true_eq, Nat.not_le]
    exact ⟨fun h => ⟨hnodes, h⟩, fun h => h.2⟩

/-- The checks pass exactly on a body that has a block and whose blocks refer to
nodes and blocks of the body only. -/
theorem graphError?_eq_none {body : Body} :
    body.graphError? = none ↔ 0 < body.blocks.size ∧
      ∀ (id : BlockId) (block : Block), body.blocks[id]? = some block →
        (∀ node ∈ block.nodes, node < body.nodes.size) ∧
          ∀ edge ∈ block.successors, edge.target < body.blocks.size := by
  unfold graphError?
  by_cases hempty : body.blocks.isEmpty = true
  · have hsize : body.blocks.size = 0 := by simpa using hempty
    rw [if_pos hempty]
    constructor
    · intro h; cases h
    · intro h; omega
  · have hsize : 0 < body.blocks.size := by
      simpa [Array.isEmpty_iff, Array.size_pos_iff] using hempty
    rw [if_neg hempty, List.findSome?_eq_none_iff]
    constructor
    · intro h
      refine ⟨hsize, fun id block hb => ?_⟩
      have hid : id < body.blocks.size := (Array.getElem?_eq_some_iff.1 hb).1
      have := h id (List.mem_range.2 hid)
      rw [hb, Option.bind_some] at this
      exact blockError?_eq_none.1 this
    · rintro ⟨-, h⟩ id hid
      cases hb : body.blocks[id]? with
      | none => rfl
      | some block => exact blockError?_eq_none.2 (h id block hb)

/-! ## Reads -/

/-- The operands whose recorded values the node with an id reads. -/
def reads (body : Body) (id : NodeId) : List NodeId :=
  ((body.kind? id).map NodeKind.reads).getD []

/-- Whenever a listed node reads an operand, `p` holds of the block, of what the
block lists before the node, and of the operand. -/
def EachRead (body : Body)
    (p : BlockId → (before : List NodeId) → (operand : NodeId) → Prop) : Prop :=
  ∀ (id : BlockId) (block : Block), body.blocks[id]? = some block →
    ∀ before node after, block.nodes = before ++ node :: after →
      ∀ operand ∈ body.reads node, p id before operand

instance (body : Body) (p : BlockId → List NodeId → NodeId → Prop)
    [∀ id before operand, Decidable (p id before operand)] : Decidable (body.EachRead p) :=
  decidable_of_iff (∀ entry ∈ body.blocks.toList.zipIdx,
      ∀ place ∈ List.range entry.1.nodes.length, ∀ node ∈ entry.1.nodes[place]?,
        ∀ operand ∈ body.reads node, p entry.2 (entry.1.nodes.take place) operand) <| by
    constructor
    · intro h id block hblock before node after hsplit operand hoperand
      have hentry : (block, id) ∈ body.blocks.toList.zipIdx :=
        List.mk_mem_zipIdx_iff_getElem?.2 (by simpa using hblock)
      have hplace : before.length ∈ List.range block.nodes.length := by
        simp [hsplit]
      have hp := h _ hentry _ hplace node (by simp [hsplit]) operand hoperand
      simpa [hsplit] using hp
    · rintro h ⟨block, id⟩ hentry place - node hnode operand hoperand
      have hblock : body.blocks[id]? = some block := by
        simpa using List.mk_mem_zipIdx_iff_getElem?.1 hentry
      obtain ⟨hlt, rfl⟩ := List.getElem?_eq_some_iff.1 hnode
      refine h id block hblock _ _ (block.nodes.drop (place + 1)) ?_ operand hoperand
      simp

end Body

namespace Graph

/-- The nodes whose recorded values the node with an id reads. -/
def reads (graph : Graph) (node : NodeId) : List NodeId :=
  ((graph.action? node).map Action.reads).getD []

theorem mem_reads {graph : Graph} {node other : NodeId} {action : Action}
    (h : graph.action? node = some action) : other ∈ graph.reads node ↔ other ∈ action.reads := by
  simp [reads, h]

/-- Every node that is listed has an action. -/
def Complete (graph : Graph) : Prop :=
  ∀ id node, ListedIn graph.blocks id node → ∃ action, graph.action? node = some action

section OfBody

variable {policy : Policy} {body : Body}

theorem size_actions_ofBody (policy : Policy) (body : Body) :
    (ofBody policy body).actions.size = body.nodes.size :=
  Array.size_map

theorem valid_ofBody (h : body.graphError? = none) : (ofBody policy body).Valid := by
  obtain ⟨hsize, hblocks⟩ := Body.graphError?_eq_none.1 h
  refine ⟨hsize, fun id block hb node hn => ?_, fun id block hb => (hblocks id block hb).2⟩
  rw [size_actions_ofBody]
  exact (hblocks id block hb).1 node hn

theorem action?_ofBody {id : NodeId} {action : Action} :
    (ofBody policy body).action? id = some action ↔
      ∃ node, body.nodes[id]? = some node ∧ Transfer.action? policy body node = some action := by
  simp only [action?, ofBody, Array.getElem?_map, Option.join_eq_some_iff, Option.map_eq_some_iff]

theorem reads_ofBody (id : NodeId) : (ofBody policy body).reads id ⊆ body.reads id := by
  intro other h
  cases ha : (ofBody policy body).action? id with
  | none => simp [reads, ha] at h
  | some action =>
    rw [mem_reads ha] at h
    obtain ⟨node, hnode, haction⟩ := action?_ofBody.1 ha
    have := Transfer.reads_action? haction h
    simpa [Body.reads, Body.kind?, hnode] using this

/-- Where every search for a path ends, every node that is listed has an action. -/
theorem complete_of_pathsEnd (hbody : body.graphError? = none) (hpaths : body.PathsEnd) :
    (ofBody policy body).Complete := by
  rintro id node ⟨block, hblock, hnode⟩
  have hlt := ((Body.graphError?_eq_none.1 hbody).2 id block hblock).1 node hnode
  have hget : body.nodes[node]? = some body.nodes[node] := Array.getElem?_eq_getElem hlt
  obtain ⟨action, haction⟩ := Transfer.exists_action? policy hpaths body.nodes[node]
  exact ⟨action, action?_ofBody.2 ⟨_, hget, haction⟩⟩

theorem complete_ofBody (hbody : body.graphError? = none)
    (hfields : ∀ node ∈ body.nodes, node.kind.isFieldAccess = false) :
    (ofBody policy body).Complete :=
  complete_of_pathsEnd hbody (Body.pathsEnd_of_no_fields hfields)

theorem ofBody_blocks (policy : Policy) (body : Body) (blocks : Array Block) :
    ofBody policy { body with blocks } = { ofBody policy body with blocks } := by
  have hactions : Transfer.action? policy { body with blocks } = Transfer.action? policy body :=
    funext (Transfer.action?_blocks policy body blocks)
  simp only [ofBody, hactions]
  rfl

end OfBody

end Graph

end JvmLint
