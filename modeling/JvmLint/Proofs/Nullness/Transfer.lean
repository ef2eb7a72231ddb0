import JvmLint.Proofs.Nullness.Action
import JvmLint.Proofs.Nullness.Path

/-!
# What the action of a node names and reads

The entries that a node writes are for paths that the node itself names
(`Body.NamedBy`), and the values it reads are those of its own operands
(`NodeKind.reads`). Both are stated once for every kind of node, in
`sound_of_action?` and `reads_action?`. Only a field access looks up a field cell
(`isPlain_action?`), and only a condition keeps the sides of the facts apart
(`regular_of_action?`, `branch_of_action?`). A node has an action if no search
from what it refers to runs in a circle (`exists_action?_of_referents`).
-/
namespace JvmLint

/-- The operands of a node whose recorded values it reads. -/
def NodeKind.reads : NodeKind → List NodeId
  | .assignment _ expression => [expression]
  | .typeCast operand _ => [operand]
  | .equalTo left right | .notEqual left right => [left, right]
  | .ternary thenOperand elseOperand => [thenOperand, elseOperand]
  | _ => []

/-- The receiver or the array that a node gets at something through. -/
def NodeKind.accessed? : NodeKind → Option NodeId
  | .fieldAccess receiver _ | .methodInvocation receiver _ _ => receiver
  | .arrayAccess array => some array
  | _ => none

/-- Whether a node keeps apart what holds when it is true and when it is false. -/
def NodeKind.isCondition : NodeKind → Bool
  | .instanceOf _ | .equalTo _ _ | .notEqual _ _ | .conditionalAnd | .conditionalOr
  | .conditionalNot => true
  | .methodInvocation _ _ (some method) => Transfer.isCondition method
  | _ => false

/-- Whether a node combines conditions that were evaluated before it. -/
def NodeKind.isConnective : NodeKind → Bool
  | .conditionalAnd | .conditionalOr | .conditionalNot => true
  | _ => false

namespace Body

/-- A body of nodes of which only the kinds are known. -/
def ofKinds (locals : Array Variable) (kinds : Array NodeKind) (blocks : Array Block) : Body where
  name := "body"
  line := none
  locals := locals
  nodes := kinds.map fun kind => ⟨kind, none, none, none⟩
  blocks := blocks

/-- A path that some node of the body names, or that of a declared variable. -/
def Names (body : Body) (path : AccessPath) : Prop :=
  (∃ node, body.path node = some (some path)) ∨
    ∃ id, id < body.locals.size ∧ path = .slot id

/-- The nodes that a node refers to as places: the target of an assignment and what that
is reached through, the receiver or the array of an access, the receiver of a call and the
variables that it passes, and the operands of a type test or a comparison. -/
def referents (body : Body) : NodeKind → List NodeId
  | .assignment target _ => target :: ((body.kind? target).bind NodeKind.accessed?).toList
  | .fieldAccess receiver _ => receiver.toList
  | .arrayAccess array => [array]
  | .methodInvocation receiver arguments _ =>
    receiver.toList ++ arguments.filter fun argument => (body.localRead? argument).isSome
  | .instanceOf operand => [operand]
  | .equalTo left right | .notEqual left right => [left, right]
  | _ => []

/-- The node declares the exception that is caught, and the path is that of its variable. -/
def Catches (body : Body) (kind : NodeKind) (path : AccessPath) : Prop :=
  ∃ id declared, kind = .variableDeclaration id ∧ body.locals[id]? = some declared ∧
    declared.kind = .catchParameter ∧ path = .slot id

/-- The path is one that a node of this kind names. -/
def NamedBy (body : Body) (kind : NodeKind) (path : AccessPath) : Prop :=
  (∃ id ∈ body.referents kind, body.path id = some (some path)) ∨ body.Catches kind path

theorem NamedBy.names {body : Body} {kind : NodeKind} {path : AccessPath}
    (h : body.NamedBy kind path) : body.Names path := by
  rcases h with ⟨id, -, hpath⟩ | ⟨id, declared, -, hdeclared, -, rfl⟩
  · exact Or.inl ⟨id, hpath⟩
  · exact Or.inr ⟨id, (Array.getElem?_eq_some_iff.1 hdeclared).1, rfl⟩

theorem localRead?_eq_some {body : Body} {node : NodeId} {id : VariableId} :
    body.localRead? node = some id ↔ body.kind? node = some (.localVariable id) := by
  unfold localRead?
  split
  · rename_i other h
    rw [h]
    constructor
    · rintro ⟨⟩; rfl
    · rintro ⟨⟩; rfl
  · rename_i h
    constructor
    · rintro ⟨⟩
    · intro hk; exact absurd hk (h id)

theorem mem_localsAt {body : Body} {arguments : List NodeId} {indexes : List Int}
    {id : VariableId} : id ∈ body.localsAt arguments indexes ↔
      ∃ index ∈ indexes, ∃ position, Library.resolveIndex index arguments.length = some position ∧
        ∃ argument, arguments[position]? = some argument ∧ body.localRead? argument = some id := by
  simp only [localsAt, List.mem_filterMap, Option.bind_eq_some_iff]
  constructor
  · rintro ⟨position, ⟨index, hi, hp⟩, argument, ha, hr⟩
    exact ⟨index, hi, position, hp, argument, ha, hr⟩
  · rintro ⟨index, hi, position, hp, argument, ha, hr⟩
    exact ⟨position, ⟨index, hi, hp⟩, argument, ha, hr⟩

end Body

namespace Transfer

variable {policy : Policy} {body : Body} {node : Node} {action : Action}

/-! ## Batches of refinements -/

theorem mem_of_refine {id : NodeId} {source : Source} {batch : List Refinement}
    (h : refine body id source = some batch) {r : Refinement} (hr : r ∈ batch) :
    body.path id = some (some r.1) ∧ r.2 = source := by
  obtain ⟨path, hpath, rfl⟩ := Option.map_eq_some_iff.1 h
  obtain ⟨p, hp, rfl⟩ := List.mem_map.1 hr
  rw [Option.mem_toList] at hp
  cases hp
  exact ⟨hpath, rfl⟩

theorem mem_of_refineReceiver {isStatic : Bool} {receiver : Option NodeId}
    {batch : List Refinement} (h : refineReceiver body isStatic receiver = some batch)
    {r : Refinement} (hr : r ∈ batch) :
    ∃ id, receiver = some id ∧ isStatic = false ∧ body.path id = some (some r.1) ∧
      r.2 = .known .nonNull := by
  cases receiver with
  | none => cases h; cases hr
  | some id =>
    cases isStatic with
    | true => cases h; cases hr
    | false => exact ⟨id, rfl, rfl, mem_of_refine h hr⟩

theorem exists_refine {id : NodeId} (h : ∃ path, body.path id = some path) (source : Source) :
    ∃ batch, refine body id source = some batch := by
  obtain ⟨path, hpath⟩ := h
  exact ⟨_, Option.map_eq_some_iff.2 ⟨path, hpath, rfl⟩⟩

theorem exists_refineReceiver {receiver : Option NodeId}
    (h : ∀ id ∈ receiver, ∃ path, body.path id = some path) (isStatic : Bool) :
    ∃ batch, refineReceiver body isStatic receiver = some batch := by
  cases receiver with
  | none => exact ⟨_, rfl⟩
  | some id =>
    cases isStatic with
    | true => exact ⟨_, rfl⟩
    | false => exact exists_refine (h id rfl) _

/-! ## Calls -/

theorem mem_of_marks {arguments : List NodeId} {method : Method}
    {table : List Library.ArgumentFact} {value : Nullness} {r : Refinement}
    (h : r ∈ marks body arguments method table value) :
    ∃ argument id, body.localRead? argument = some id ∧ r = (.slot id, .known value) ∧
      ∃ index ∈ Library.indexes table method.owner method.name, ∃ position,
        Library.resolveIndex index arguments.length = some position ∧
          arguments[position]? = some argument := by
  obtain ⟨id, hid, rfl⟩ := List.mem_map.1 h
  obtain ⟨index, hi, position, hp, argument, ha, hr⟩ := Body.mem_localsAt.1 hid
  exact ⟨argument, id, hr, rfl, index, hi, position, hp, ha⟩

theorem mem_of_compared {arguments : List NodeId} {method : Method} {id : VariableId}
    (h : id ∈ compared body arguments method) :
    method.name = "equals" ∧ ∃ argument, arguments = [argument] ∧
      body.localRead? argument = some id := by
  unfold compared at h
  split at h
  · rename_i argument hname
    exact ⟨hname, argument, rfl, by simpa using h⟩
  · cases h

/-- Every entry that a call writes is for its receiver or for a variable that it
passes, and has a fixed value. -/
theorem mem_of_callEffect {arguments : List NodeId} {method : Method}
    {dereferenced : List Refinement} {r : Refinement}
    (h : r ∈ (callEffect body arguments method dereferenced).refinements) :
    r ∈ dereferenced ∨ ∃ argument ∈ arguments, ∃ id value,
      body.localRead? argument = some id ∧ r = (.slot id, .known value) := by
  have hmarks : ∀ table value, r ∈ marks body arguments method table value →
      ∃ argument ∈ arguments, ∃ id value,
        body.localRead? argument = some id ∧ r = (.slot id, .known value) := by
    intro table value hr
    obtain ⟨argument, id, hid, heq, -, -, position, -, hargument⟩ := mem_of_marks hr
    exact ⟨argument, List.mem_of_getElem? hargument, id, value, hid, heq⟩
  have halways : r ∈ dereferenced ++ marks body arguments method Library.requiredNonNull .nonNull →
      r ∈ dereferenced ∨ ∃ argument ∈ arguments, ∃ id value,
        body.localRead? argument = some id ∧ r = (.slot id, .known value) := by
    intro hr
    exact (List.mem_append.1 hr).imp_right (hmarks _ _)
  unfold callEffect at h
  split at h
  · simp only [Effect.refinements, callThen, callElse, List.mem_append] at h halways
    rcases h with (((h | h) | h) | h) | ((h | h) | h) | h
    · exact Or.inr (hmarks _ _ h)
    · exact Or.inr (hmarks _ _ h)
    · obtain ⟨id, hid, rfl⟩ := List.mem_map.1 h
      obtain ⟨-, argument, rfl, hread⟩ := mem_of_compared hid
      exact Or.inr ⟨argument, List.mem_singleton_self argument, id, .nonNull, hread, rfl⟩
    · exact halways h
    · exact Or.inr (hmarks _ _ h)
    · exact Or.inr (hmarks _ _ h)
    · exact Or.inr (hmarks _ _ h)
    · exact halways h
  · exact halways h

/-! ## Every kind of node -/

/-- What holds of every entry that the action of a node writes: the node names
its path, and its value comes from the node's own operands. -/
def Sound (body : Body) (kind : NodeKind) (r : Refinement) : Prop :=
  body.NamedBy kind r.1 ∧ r.2.reads ⊆ kind.reads ∧ r.2.isPlain = true

theorem sound_of_refine {id : NodeId} {source : Source} {batch : List Refinement}
    (h : refine body id source = some batch) {kind : NodeKind} (hid : id ∈ body.referents kind)
    (hreads : source.reads ⊆ kind.reads) (hplain : source.isPlain = true) :
    ∀ r ∈ batch, Sound body kind r := by
  intro r hr
  obtain ⟨hpath, hsource⟩ := mem_of_refine h hr
  rw [Sound, hsource]
  exact ⟨Or.inl ⟨id, hid, hpath⟩, hreads, hplain⟩

theorem sound_of_refineReceiver {isStatic : Bool} {receiver : Option NodeId}
    {batch : List Refinement} (h : refineReceiver body isStatic receiver = some batch)
    {kind : NodeKind} (hreceiver : ∀ id ∈ receiver, id ∈ body.referents kind) :
    ∀ r ∈ batch, Sound body kind r := by
  intro r hr
  obtain ⟨id, hid, -, hpath, hsource⟩ := mem_of_refineReceiver h hr
  rw [Sound, hsource]
  exact ⟨Or.inl ⟨id, hreceiver id hid, hpath⟩, List.nil_subset _, rfl⟩

theorem sound_of_localRead {receiver : Option NodeId} {arguments : List NodeId}
    {method : Option Method} {argument : NodeId} (hargument : argument ∈ arguments)
    {id : VariableId} (h : body.localRead? argument = some id) (value : Nullness) :
    Sound body (.methodInvocation receiver arguments method) (.slot id, .known value) := by
  have hreferent : argument ∈ body.referents (.methodInvocation receiver arguments method) :=
    List.mem_append_right _ (List.mem_filter.2 ⟨hargument, by rw [h]; rfl⟩)
  have hpath := Body.path_of_localVariable (Body.localRead?_eq_some.1 h)
  exact ⟨Or.inl ⟨argument, hreferent, hpath⟩, List.nil_subset _, rfl⟩

theorem sound_of_assignment {target expression : NodeId} {batch : List Refinement}
    (h : assignmentRefinements body target expression = some batch) :
    ∀ r ∈ batch, Sound body (.assignment target expression) r := by
  have hread : (Source.operand expression).reads ⊆ (NodeKind.assignment target expression).reads :=
    List.Subset.refl _
  have htarget : target ∈ body.referents (.assignment target expression) := List.mem_cons_self
  have haccessed : ∀ kind id, body.kind? target = some kind → kind.accessed? = some id →
      id ∈ body.referents (.assignment target expression) := by
    intro kind id hk hid
    exact List.mem_cons_of_mem _ (Option.mem_toList.2 (Option.bind_eq_some_iff.2 ⟨kind, hk, hid⟩))
  unfold assignmentRefinements at h
  split at h
  · rename_i id hk
    cases h
    intro r hr
    rw [List.mem_singleton] at hr
    subst hr
    exact ⟨Or.inl ⟨target, htarget, Body.path_of_localVariable hk⟩, hread, rfl⟩
  · rename_i id hk
    cases h
    intro r hr
    rw [List.mem_singleton] at hr
    subst hr
    exact ⟨Or.inl ⟨target, htarget, Body.path_of_variableDeclaration hk⟩, hread, rfl⟩
  · rename_i array hk
    exact sound_of_refine h (haccessed _ array hk rfl) (List.nil_subset _) rfl
  · rename_i receiver field hk
    obtain ⟨dereferenced, hd, h⟩ := Option.bind_eq_some_iff.1 h
    obtain ⟨assigned, ha, h⟩ := Option.bind_eq_some_iff.1 h
    cases h
    intro r hr
    rcases List.mem_append.1 hr with hr | hr
    · exact sound_of_refineReceiver hd (fun id hid => haccessed _ id hk hid) r hr
    · exact sound_of_refine ha htarget hread rfl r hr
  · cases h
    intro r hr
    cases hr

theorem sound_of_equality {left right : NodeId} {whenEqual whenUnequal : List Refinement}
    (h : equalityRefinements body left right = some (whenEqual, whenUnequal)) {kind : NodeKind}
    (hreferents : body.referents kind = [left, right]) (hreads : kind.reads = [left, right]) :
    ∀ r ∈ whenEqual ++ whenUnequal, Sound body kind r := by
  obtain ⟨equalLeft, h1, h⟩ := Option.bind_eq_some_iff.1 h
  obtain ⟨equalRight, h2, h⟩ := Option.bind_eq_some_iff.1 h
  obtain ⟨unequalLeft, h3, h⟩ := Option.bind_eq_some_iff.1 h
  obtain ⟨unequalRight, h4, h⟩ := Option.bind_eq_some_iff.1 h
  cases h
  have hleft : left ∈ body.referents kind := by rw [hreferents]; exact List.mem_cons_self
  have hright : right ∈ body.referents kind := by
    rw [hreferents]
    exact List.mem_cons_of_mem _ List.mem_cons_self
  have hboth : [left, right] ⊆ kind.reads := by rw [hreads]; exact List.Subset.refl _
  have hflip : [right, left] ⊆ kind.reads := by rw [hreads]; simp
  intro r hr
  simp only [List.mem_append] at hr
  rcases hr with (hr | hr) | hr | hr
  · exact sound_of_refine h1 hleft hboth rfl r hr
  · exact sound_of_refine h2 hright hboth rfl r hr
  · exact sound_of_refine h3 hleft hboth rfl r hr
  · exact sound_of_refine h4 hright hflip rfl r hr

theorem exists_equalityRefinements {left right : NodeId}
    (h : ∀ id ∈ [left, right], ∃ path, body.path id = some path) :
    ∃ batches, equalityRefinements body left right = some batches := by
  have hleft := h left List.mem_cons_self
  have hright := h right (List.mem_cons_of_mem _ List.mem_cons_self)
  obtain ⟨equalLeft, h1⟩ := exists_refine hleft (.both (.operand left) (.operand right))
  obtain ⟨equalRight, h2⟩ := exists_refine hright (.both (.operand left) (.operand right))
  obtain ⟨unequalLeft, h3⟩ := exists_refine hleft (.unequal (.operand left) (.operand right))
  obtain ⟨unequalRight, h4⟩ := exists_refine hright (.unequal (.operand right) (.operand left))
  refine ⟨(equalLeft ++ equalRight, unequalLeft ++ unequalRight), ?_⟩
  simp [equalityRefinements, h1, h2, h3, h4]

/-- **Entries of an action.** Whatever its kind, a node writes only entries for
paths that it names, with values that come from its own operands. -/
theorem sound_of_action? (h : action? policy body node = some action) :
    ∀ r ∈ action.effect.refinements, Sound body node.kind r := by
  obtain ⟨kind, type, tree, line⟩ := node
  cases kind with
  | variableDeclaration id =>
    cases h
    intro r hr
    simp only [Effect.refinements] at hr
    split at hr
    · rename_i hcaught
      rw [List.mem_singleton] at hr
      subst hr
      obtain ⟨declared, hdeclared, hkind⟩ := (Option.any_eq_true _ _).1 hcaught
      exact ⟨Or.inr ⟨id, declared, rfl, hdeclared, of_decide_eq_true hkind, rfl⟩,
        List.nil_subset _, rfl⟩
    · cases hr
  | assignment target expression =>
    obtain ⟨batch, hb, h⟩ := Option.bind_eq_some_iff.1 h
    cases h
    exact sound_of_assignment hb
  | fieldAccess receiver field =>
    obtain ⟨dereferenced, hd, h⟩ := Option.bind_eq_some_iff.1 h
    obtain ⟨path, -, h⟩ := Option.bind_eq_some_iff.1 h
    cases h
    exact sound_of_refineReceiver hd fun id hid => Option.mem_toList.2 hid
  | arrayAccess array =>
    obtain ⟨dereferenced, hd, h⟩ := Option.bind_eq_some_iff.1 h
    cases h
    exact sound_of_refine hd List.mem_cons_self (List.nil_subset _) rfl
  | methodInvocation receiver arguments method =>
    cases method with
    | none => cases h; intro r hr; cases hr
    | some method =>
      obtain ⟨dereferenced, hd, rfl⟩ := Option.map_eq_some_iff.1 h
      intro r hr
      rcases mem_of_callEffect hr with hr | ⟨argument, hargument, id, value, hread, rfl⟩
      · refine sound_of_refineReceiver hd (fun id hid => ?_) r hr
        exact List.mem_append_left _ (Option.mem_toList.2 hid)
      · exact sound_of_localRead hargument hread value
  | instanceOf operand =>
    obtain ⟨batch, hb, h⟩ := Option.bind_eq_some_iff.1 h
    cases h
    intro r hr
    simp only [Effect.refinements, List.append_nil] at hr
    exact sound_of_refine hb List.mem_cons_self (List.nil_subset _) rfl r hr
  | equalTo left right =>
    obtain ⟨⟨whenEqual, whenUnequal⟩, hb, h⟩ := Option.bind_eq_some_iff.1 h
    cases h
    exact sound_of_equality hb rfl rfl
  | notEqual left right =>
    obtain ⟨⟨whenEqual, whenUnequal⟩, hb, h⟩ := Option.bind_eq_some_iff.1 h
    cases h
    intro r hr
    exact sound_of_equality hb rfl rfl r (List.mem_append.2 (List.mem_append.1 hr).symm)
  | _ => cases h; intro r hr; cases hr

/-- Apart from a field access the value of a node comes from its operands. -/
theorem value_of_action? (h : action? policy body node = some action) :
    action.value.reads ⊆ node.kind.reads ∧
      (node.kind.isFieldAccess = false → action.value.isPlain = true) := by
  obtain ⟨kind, type, tree, line⟩ := node
  cases kind with
  | localVariable id =>
    cases h
    simp only [Action.ofValue, variableValue]
    split
    · exact ⟨List.nil_subset _, fun _ => rfl⟩
    · split <;> exact ⟨List.nil_subset _, fun _ => rfl⟩
  | assignment target expression =>
    obtain ⟨batch, -, h⟩ := Option.bind_eq_some_iff.1 h
    cases h
    exact ⟨List.Subset.refl _, fun _ => rfl⟩
  | fieldAccess receiver field =>
    obtain ⟨dereferenced, -, h⟩ := Option.bind_eq_some_iff.1 h
    obtain ⟨path, -, h⟩ := Option.bind_eq_some_iff.1 h
    cases h
    refine ⟨?_, fun hf => by cases hf⟩
    cases field with
    | none => exact List.nil_subset _
    | some field =>
      simp only [fieldValue]
      split
      · exact List.nil_subset _
      · cases path <;> exact List.nil_subset _
  | arrayAccess array =>
    obtain ⟨dereferenced, -, h⟩ := Option.bind_eq_some_iff.1 h
    cases h
    exact ⟨List.nil_subset _, fun _ => rfl⟩
  | methodInvocation receiver arguments method =>
    cases method with
    | none => cases h; exact ⟨List.nil_subset _, fun _ => rfl⟩
    | some method =>
      obtain ⟨dereferenced, -, rfl⟩ := Option.map_eq_some_iff.1 h
      exact ⟨List.nil_subset _, fun _ => rfl⟩
  | typeCast operand annotations =>
    cases h
    simp only [Action.ofValue]
    split
    · exact ⟨List.nil_subset _, fun _ => rfl⟩
    · split
      · exact ⟨List.nil_subset _, fun _ => rfl⟩
      · exact ⟨List.Subset.refl _, fun _ => rfl⟩
  | instanceOf operand =>
    obtain ⟨batch, -, h⟩ := Option.bind_eq_some_iff.1 h
    cases h
    exact ⟨List.nil_subset _, fun _ => rfl⟩
  | equalTo left right =>
    obtain ⟨batches, -, h⟩ := Option.bind_eq_some_iff.1 h
    cases h
    exact ⟨List.nil_subset _, fun _ => rfl⟩
  | notEqual left right =>
    obtain ⟨batches, -, h⟩ := Option.bind_eq_some_iff.1 h
    cases h
    exact ⟨List.nil_subset _, fun _ => rfl⟩
  | ternary thenOperand elseOperand =>
    cases h
    exact ⟨List.Subset.refl _, fun _ => rfl⟩
  | _ => cases h; exact ⟨List.nil_subset _, fun _ => rfl⟩

theorem reads_action? (h : action? policy body node = some action) :
    action.reads ⊆ node.kind.reads := by
  intro n hn
  rcases List.mem_append.1 hn with hn | hn
  · exact (value_of_action? h).1 hn
  · obtain ⟨r, hr, hn⟩ := List.mem_flatMap.1 hn
    exact (sound_of_action? h r hr).2.1 hn

theorem isPlain_action? (h : action? policy body node = some action)
    (hf : node.kind.isFieldAccess = false) : action.isPlain = true := by
  rw [Action.isPlain, Bool.and_eq_true, List.all_eq_true]
  exact ⟨(value_of_action? h).2 hf, fun r hr => (sound_of_action? h r hr).2.2⟩

theorem regular_of_action? (h : action? policy body node = some action)
    (hc : node.kind.isCondition = false) : ∃ batch, action.effect = .regular batch := by
  obtain ⟨kind, type, tree, line⟩ := node
  cases kind with
  | instanceOf operand => cases hc
  | equalTo left right => cases hc
  | notEqual left right => cases hc
  | conditionalAnd => cases hc
  | conditionalOr => cases hc
  | conditionalNot => cases hc
  | methodInvocation receiver arguments method =>
    cases method with
    | none => cases h; exact ⟨_, rfl⟩
    | some method =>
      obtain ⟨dereferenced, -, rfl⟩ := Option.map_eq_some_iff.1 h
      have hnot : isCondition method = false := hc
      simp only [callEffect, hnot, Bool.false_eq_true, if_false]
      exact ⟨_, rfl⟩
  | assignment target expression =>
    obtain ⟨batch, -, h⟩ := Option.bind_eq_some_iff.1 h
    cases h
    exact ⟨_, rfl⟩
  | fieldAccess receiver field =>
    obtain ⟨dereferenced, -, h⟩ := Option.bind_eq_some_iff.1 h
    obtain ⟨path, -, h⟩ := Option.bind_eq_some_iff.1 h
    cases h
    exact ⟨_, rfl⟩
  | arrayAccess array =>
    obtain ⟨dereferenced, -, h⟩ := Option.bind_eq_some_iff.1 h
    cases h
    exact ⟨_, rfl⟩
  | _ => cases h; exact ⟨_, rfl⟩

theorem branch_of_action? (h : action? policy body node = some action)
    (hc : node.kind.isCondition = true) (hconnective : node.kind.isConnective = false) :
    ∃ onThen onElse, action.effect = .branch onThen onElse := by
  obtain ⟨kind, type, tree, line⟩ := node
  cases kind with
  | instanceOf operand =>
    obtain ⟨batch, -, h⟩ := Option.bind_eq_some_iff.1 h
    cases h
    exact ⟨_, _, rfl⟩
  | equalTo left right =>
    obtain ⟨batches, -, h⟩ := Option.bind_eq_some_iff.1 h
    cases h
    exact ⟨_, _, rfl⟩
  | notEqual left right =>
    obtain ⟨batches, -, h⟩ := Option.bind_eq_some_iff.1 h
    cases h
    exact ⟨_, _, rfl⟩
  | methodInvocation receiver arguments method =>
    cases method with
    | none => cases hc
    | some method =>
      obtain ⟨dereferenced, -, rfl⟩ := Option.map_eq_some_iff.1 h
      have hcondition : isCondition method = true := hc
      simp only [callEffect, hcondition, if_true]
      exact ⟨_, _, rfl⟩
  | conditionalAnd => cases hconnective
  | conditionalOr => cases hconnective
  | conditionalNot => cases hconnective
  | _ => cases hc

theorem exists_assignmentRefinements {target expression : NodeId}
    (h : ∀ id ∈ body.referents (.assignment target expression), ∃ path, body.path id = some path) :
    ∃ batch, assignmentRefinements body target expression = some batch := by
  have haccessed : ∀ kind id, body.kind? target = some kind → kind.accessed? = some id →
      ∃ path, body.path id = some path := by
    intro kind id hk hid
    exact h id (List.mem_cons_of_mem _ (Option.mem_toList.2
      (Option.bind_eq_some_iff.2 ⟨kind, hk, hid⟩)))
  unfold assignmentRefinements
  split
  · exact ⟨_, rfl⟩
  · exact ⟨_, rfl⟩
  · rename_i array hk
    exact exists_refine (haccessed _ array hk rfl) _
  · rename_i receiver field hk
    have hreceiver : ∀ id ∈ receiver, ∃ path, body.path id = some path := fun id hid =>
      haccessed _ id hk hid
    obtain ⟨dereferenced, hd⟩ := exists_refineReceiver hreceiver (field.any Field.isStatic)
    obtain ⟨assigned, ha⟩ := exists_refine (h target List.mem_cons_self) (.operand expression)
    exact ⟨dereferenced ++ assigned, by simp [hd, ha]⟩
  · exact ⟨_, rfl⟩

/-- A node has an action if the search for a path ends from every node that it refers to. -/
theorem exists_action?_of_referents (policy : Policy)
    (h : ∀ id ∈ body.referents node.kind, ∃ path, body.path id = some path) :
    ∃ action, action? policy body node = some action := by
  obtain ⟨kind, type, tree, line⟩ := node
  cases kind with
  | assignment target expression =>
    obtain ⟨batch, hb⟩ := exists_assignmentRefinements h
    exact ⟨_, Option.bind_eq_some_iff.2 ⟨batch, hb, rfl⟩⟩
  | fieldAccess receiver field =>
    have hreceiver : ∀ id ∈ receiver, ∃ path, body.path id = some path := fun id hid =>
      h id (Option.mem_toList.2 hid)
    obtain ⟨dereferenced, hd⟩ := exists_refineReceiver hreceiver (field.any Field.isStatic)
    obtain ⟨path, hpath⟩ : ∃ path, body.pathOfKind body.path (.fieldAccess receiver field) =
        some path := Body.exists_pathOfKind fun id _ hkind => by cases hkind; exact hreceiver id rfl
    exact ⟨_, Option.bind_eq_some_iff.2
      ⟨dereferenced, hd, Option.bind_eq_some_iff.2 ⟨path, hpath, rfl⟩⟩⟩
  | arrayAccess array =>
    obtain ⟨batch, hb⟩ := exists_refine (h array List.mem_cons_self) (.known .nonNull)
    exact ⟨_, Option.bind_eq_some_iff.2 ⟨batch, hb, rfl⟩⟩
  | methodInvocation receiver arguments method =>
    cases method with
    | none => exact ⟨_, rfl⟩
    | some method =>
      have hreceiver : ∀ id ∈ receiver, ∃ path, body.path id = some path := fun id hid =>
        h id (List.mem_append_left _ (Option.mem_toList.2 hid))
      obtain ⟨batch, hb⟩ := exists_refineReceiver hreceiver method.isStatic
      exact ⟨_, Option.map_eq_some_iff.2 ⟨batch, hb, rfl⟩⟩
  | instanceOf operand =>
    obtain ⟨batch, hb⟩ := exists_refine (h operand List.mem_cons_self) (.known .nonNull)
    exact ⟨_, Option.bind_eq_some_iff.2 ⟨batch, hb, rfl⟩⟩
  | equalTo left right =>
    obtain ⟨batches, hb⟩ := exists_equalityRefinements h
    exact ⟨_, Option.bind_eq_some_iff.2 ⟨batches, hb, rfl⟩⟩
  | notEqual left right =>
    obtain ⟨batches, hb⟩ := exists_equalityRefinements h
    exact ⟨_, Option.bind_eq_some_iff.2 ⟨batches, hb, rfl⟩⟩
  | _ => exact ⟨_, rfl⟩

/-- Where every search for a path ends, every node has an action. -/
theorem exists_action? (policy : Policy) (h : body.PathsEnd) (node : Node) :
    ∃ action, action? policy body node = some action :=
  exists_action?_of_referents policy fun id _ => h id

/-! ## Independence of the blocks -/

theorem refine_blocks (body : Body) (blocks : Array Block) :
    refine { body with blocks } = refine body := by
  funext node source
  simp only [refine, Body.path_blocks]

theorem refineReceiver_blocks (body : Body) (blocks : Array Block) :
    refineReceiver { body with blocks } = refineReceiver body := by
  funext isStatic receiver
  simp only [refineReceiver, refineNonNull, refine_blocks]

/-- What a node does is the same however the nodes are arranged in blocks. -/
theorem action?_blocks (policy : Policy) (body : Body) (blocks : Array Block) (node : Node) :
    action? policy { body with blocks } node = action? policy body node := by
  have hrefine := refine_blocks body blocks
  have hreceiver := refineReceiver_blocks body blocks
  obtain ⟨kind, type, tree, line⟩ := node
  cases kind with
  | assignment target expression =>
    simp only [action?, assignmentRefinements, refineNonNull, hrefine, hreceiver]
    rfl
  | fieldAccess receiver field =>
    simp only [action?, hreceiver, Body.path_blocks]
    rfl
  | arrayAccess array => simp only [action?, refineNonNull, hrefine]
  | methodInvocation receiver arguments method =>
    cases method with
    | none => rfl
    | some method =>
      simp only [action?, callAction, hreceiver]
      rfl
  | instanceOf operand => simp only [action?, refineNonNull, hrefine]
  | equalTo left right => simp only [action?, equalityRefinements, hrefine]
  | notEqual left right => simp only [action?, equalityRefinements, hrefine]
  | _ => rfl

end Transfer

end JvmLint
