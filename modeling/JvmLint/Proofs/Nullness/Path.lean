import JvmLint.Nullness.Transfer

/-!
# Access paths of nodes

The path of a field access goes on from that of its receiver, so a search for it
follows receivers. More steps never change an answer (`Body.pathWithin_mono`),
and a path that a node names is that of a variable, or one more field on a path
that its receiver names (`Body.path_cases`).

A search may run in a circle. `Body.PathsEnd` says that none does; it holds of a
body without field accesses (`Body.pathsEnd_of_no_fields`) and of one in which
every receiver comes before its access (`Body.pathsEnd_of_receiver_lt`).
-/
namespace JvmLint

/-! ## Extensions -/

namespace AccessPath

/-- The path is `base`, or goes on from it by further fields. -/
def Extends (path base : AccessPath) : Prop :=
  path.root = base.root ∧ base.fields <+: path.fields

instance (path base : AccessPath) : Decidable (path.Extends base) :=
  inferInstanceAs (Decidable (_ ∧ _))

theorem Extends.refl (path : AccessPath) : path.Extends path :=
  ⟨rfl, List.prefix_rfl⟩

/-- What a field belongs to does not go on from the field. -/
theorem not_extends_field (path : AccessPath) (name : String) :
    ¬ path.Extends (path.field name) := by
  rintro ⟨-, hprefix⟩
  have hlength := hprefix.length_le
  simp only [field, List.length_append, List.length_singleton] at hlength
  omega

end AccessPath

def NodeKind.isFieldAccess : NodeKind → Bool
  | .fieldAccess _ _ => true
  | _ => false

namespace Body

variable {body : Body}

/-! ## One step of a search -/

theorem exists_pathOfKind {search : NodeId → Option (Option AccessPath)} {kind : NodeKind}
    (h : ∀ receiver field, kind = .fieldAccess (some receiver) field →
      ∃ path, search receiver = some path) : ∃ path, body.pathOfKind search kind = some path := by
  cases kind with
  | localVariable id => exact ⟨_, rfl⟩
  | variableDeclaration id => exact ⟨_, rfl⟩
  | fieldAccess receiver field =>
    cases field with
    | none => exact ⟨_, rfl⟩
    | some field =>
      simp only [pathOfKind]
      split
      · exact ⟨_, rfl⟩
      · cases receiver with
        | none => exact ⟨_, rfl⟩
        | some node =>
          obtain ⟨path, hpath⟩ := h node (some field) rfl
          simp only [hpath]
          split <;> exact ⟨_, rfl⟩
  | _ => exact ⟨_, rfl⟩

theorem pathOfKind_mono {search search' : NodeId → Option (Option AccessPath)}
    (h : ∀ node path, search node = some path → search' node = some path) {kind : NodeKind}
    {path : Option AccessPath} (hpath : body.pathOfKind search kind = some path) :
    body.pathOfKind search' kind = some path := by
  cases kind with
  | fieldAccess receiver field =>
    cases field with
    | none => exact hpath
    | some field =>
      simp only [pathOfKind] at hpath ⊢
      by_cases hstatic : field.isStatic = true
      · rwa [if_pos hstatic] at hpath ⊢
      · rw [if_neg hstatic] at hpath ⊢
        cases receiver with
        | none => exact hpath
        | some node =>
          by_cases hself : body.kind? node = some .self
          · simpa only [if_pos hself] using hpath
          · simp only [if_neg hself] at hpath ⊢
            obtain ⟨base, hbase, rfl⟩ := Option.map_eq_some_iff.1 hpath
            rw [h node base hbase, Option.map_some]
  | _ => exact hpath

/-- More steps do not change an answer. -/
theorem pathWithin_mono {steps steps' : Nat} (hle : steps ≤ steps') {node : NodeId}
    {path : Option AccessPath} (h : body.pathWithin steps node = some path) :
    body.pathWithin steps' node = some path := by
  induction steps generalizing steps' node path with
  | zero => cases h
  | succ steps ih =>
    obtain ⟨more, rfl⟩ : ∃ more, steps' = more + 1 := ⟨steps' - 1, by omega⟩
    simp only [pathWithin] at h ⊢
    cases hk : body.kind? node with
    | none => simpa only [hk] using h
    | some kind =>
      simp only [hk] at h ⊢
      exact pathOfKind_mono (fun _ _ => ih (by omega)) h

/-! ## The path of a node -/

theorem kind?_eq_none {id : NodeId} (h : ¬ id < body.nodes.size) : body.kind? id = none := by
  rw [kind?, Array.getElem?_eq_none (Nat.le_of_not_lt h), Option.map_none]

theorem path_of_localVariable {node : NodeId} {id : VariableId}
    (h : body.kind? node = some (.localVariable id)) : body.path node = some (some (.slot id)) := by
  simp only [path, pathWithin, h, pathOfKind]

theorem path_of_variableDeclaration {node : NodeId} {id : VariableId}
    (h : body.kind? node = some (.variableDeclaration id)) :
    body.path node = some (some (.slot id)) := by
  simp only [path, pathWithin, h, pathOfKind]

theorem path_of_self {node : NodeId} (h : body.kind? node = some .self) :
    body.path node = some none := by
  simp only [path, pathWithin, h, pathOfKind]

/-- The path is that of an instance field, of the running method's receiver or of
what another node names. -/
def FieldPath (body : Body) (receiver : Option NodeId) (field : Field) (path : AccessPath) : Prop :=
  field.isStatic = false ∧
    ((∀ node ∈ receiver, body.kind? node = some .self) ∧ path = AccessPath.self.field field.name ∨
      ∃ node base, receiver = some node ∧ body.path node = some (some base) ∧
        path = base.field field.name)

/-- A node that names a path is a variable or an instance field. -/
theorem path_cases {id : NodeId} {path : AccessPath} (h : body.path id = some (some path)) :
    (∃ slot, (body.kind? id = some (.localVariable slot) ∨
        body.kind? id = some (.variableDeclaration slot)) ∧ path = .slot slot) ∨
      ∃ receiver field, body.kind? id = some (.fieldAccess receiver (some field)) ∧
        body.FieldPath receiver field path := by
  simp only [Body.path, pathWithin] at h
  cases hk : body.kind? id with
  | none => simp only [hk] at h; cases h
  | some kind =>
    simp only [hk] at h
    cases kind with
    | localVariable slot =>
      cases h
      exact Or.inl ⟨slot, Or.inl rfl, rfl⟩
    | variableDeclaration slot =>
      cases h
      exact Or.inl ⟨slot, Or.inr rfl, rfl⟩
    | fieldAccess receiver field =>
      cases field with
      | none => cases h
      | some field =>
        refine Or.inr ⟨receiver, field, rfl, ?_⟩
        simp only [pathOfKind] at h
        split at h
        · cases h
        · rename_i hstatic
          refine ⟨by simpa using hstatic, ?_⟩
          cases receiver with
          | none =>
            cases h
            exact Or.inl ⟨by simp, rfl⟩
          | some node =>
            simp only at h
            split at h
            · rename_i hself
              cases h
              exact Or.inl ⟨by simpa using hself, rfl⟩
            · obtain ⟨base, hbase, hpath⟩ := Option.map_eq_some_iff.1 h
              obtain ⟨base, rfl, rfl⟩ := Option.map_eq_some_iff.1 hpath
              exact Or.inr ⟨node, base, rfl, pathWithin_mono (Nat.le_succ _) hbase, rfl⟩
    | _ => cases h

/-! ## Searches that end -/

/-- From every node the search for a path comes to an end. -/
def PathsEnd (body : Body) : Prop := ∀ id, ∃ path, body.path id = some path

theorem pathsEnd_of_no_fields (h : ∀ node ∈ body.nodes, node.kind.isFieldAccess = false) :
    body.PathsEnd := by
  intro id
  simp only [path, pathWithin]
  cases hk : body.kind? id with
  | none => exact ⟨none, rfl⟩
  | some kind =>
    obtain ⟨node, hnode, rfl⟩ := Option.map_eq_some_iff.1 hk
    refine exists_pathOfKind fun receiver field hkind => ?_
    have hfield := h node (Array.mem_of_getElem? hnode)
    rw [hkind] at hfield
    cases hfield

/-- When receivers come before the accesses, as many steps as there are nodes up
to an access are enough for it. -/
theorem exists_pathWithin
    (h : ∀ id receiver field, body.kind? id = some (.fieldAccess (some receiver) field) →
      receiver < id) {steps : Nat} {id : NodeId} (hid : id < steps) :
    ∃ path, body.pathWithin steps id = some path := by
  induction steps generalizing id with
  | zero => cases hid
  | succ steps ih =>
    simp only [pathWithin]
    cases hk : body.kind? id with
    | none => exact ⟨none, rfl⟩
    | some kind =>
      refine exists_pathOfKind fun receiver field hkind => ih ?_
      have hlt := h id receiver field (hk.trans (congrArg some hkind))
      exact Nat.lt_of_lt_of_le hlt (Nat.le_of_lt_succ hid)

theorem pathsEnd_of_receiver_lt
    (h : ∀ id receiver field, body.kind? id = some (.fieldAccess (some receiver) field) →
      receiver < id) : body.PathsEnd := by
  intro id
  by_cases hid : id < body.nodes.size
  · exact exists_pathWithin h (Nat.lt_succ_of_lt hid)
  · exact ⟨none, by simp only [path, pathWithin, kind?_eq_none hid]⟩

/-! ## Independence of the blocks -/

theorem pathWithin_blocks (body : Body) (blocks : Array Block) (steps : Nat) (node : NodeId) :
    pathWithin { body with blocks } steps node = body.pathWithin steps node := by
  induction steps generalizing node with
  | zero => rfl
  | succ steps ih =>
    have hsearch : pathWithin { body with blocks } steps = body.pathWithin steps := funext ih
    simp only [pathWithin, hsearch]
    rfl

theorem path_blocks (body : Body) (blocks : Array Block) :
    path { body with blocks } = body.path :=
  funext fun node => pathWithin_blocks body blocks _ node

end Body

end JvmLint
