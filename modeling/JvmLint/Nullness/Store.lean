import JvmLint.Nullness.Basic
import JvmLint.Unit.Body
import Std.Data.ExtTreeMap

/-!
# Access paths and stores

An access path names a storage cell of a running body: a variable, or a chain
of instance fields that starts at a variable or at the receiver. A store records
the nullness of some paths; of a path that it does not record it says nothing.

Two stores with the same entries are equal (`Store.ext`).
-/
namespace JvmLint

/-- Where an access path starts. -/
inductive PathRoot where
  /-- The receiver of the running method. -/
  | self
  | slot (id : VariableId)
  deriving DecidableEq, Repr

namespace PathRoot

/-- The receiver first, then the variables in order. -/
def rank : PathRoot → Nat
  | self => 0
  | slot id => id + 1

theorem rank_inj {a b : PathRoot} (h : a.rank = b.rank) : a = b := by
  cases a <;> cases b <;> simp_all [rank]

end PathRoot

/-- A root and the fields that are followed from it. -/
structure AccessPath where
  root : PathRoot
  fields : List String
  deriving DecidableEq, Repr

namespace AccessPath

/-- The path of a variable itself. -/
def slot (id : VariableId) : AccessPath := ⟨.slot id, []⟩

/-- The path of the receiver itself. -/
def self : AccessPath := ⟨.self, []⟩

/-- The path of a field of what the path names. -/
def field (path : AccessPath) (name : String) : AccessPath :=
  { path with fields := path.fields ++ [name] }

instance : Ord AccessPath where
  compare := compareLex (compareOn fun path => path.root.rank) (compareOn AccessPath.fields)

instance : Std.TransOrd AccessPath :=
  inferInstanceAs (Std.TransCmp
    (compareLex (compareOn fun path : AccessPath => path.root.rank) (compareOn AccessPath.fields)))

instance : Std.LawfulEqOrd AccessPath where
  eq_of_compare {a b} h := by
    have h' : (compare a.root.rank b.root.rank).then (compare a.fields b.fields) = .eq := h
    rw [Ordering.then_eq_eq] at h'
    have hr := PathRoot.rank_inj (Std.LawfulEqOrd.eq_of_compare h'.1)
    have hf := Std.LawfulEqOrd.eq_of_compare h'.2
    cases a; cases b; simp_all

end AccessPath

/-- An entry to write into a store. -/
abbrev Update := AccessPath × Nullness

structure Store where
  entries : Std.ExtTreeMap AccessPath Nullness
  deriving DecidableEq

namespace Store

def empty : Store := ⟨∅⟩

/-- What the store says of a path. -/
def get? (store : Store) (path : AccessPath) : Option Nullness :=
  store.entries[path]?

def size (store : Store) : Nat :=
  store.entries.size

def insert (store : Store) (path : AccessPath) (value : Nullness) : Store :=
  ⟨store.entries.insert path value⟩

/-- Writes the entries in order: of two for one path the later one stays. -/
def update (store : Store) (updates : List Update) : Store :=
  updates.foldl (fun s (path, value) => s.insert path value) store

/-- What both stores say: the paths that both record, with joined values. -/
def join (s t : Store) : Store :=
  ⟨s.entries.filterMap fun path value => (t.get? path).map value.join⟩

/-- A smaller store says more: it records every path of the larger one, with a
smaller value. -/
instance : LE Store where
  le s t := ∀ path b, t.get? path = some b → ∃ a, s.get? path = some a ∧ a ≤ b

@[ext]
theorem ext {s t : Store} (h : ∀ path, s.get? path = t.get? path) : s = t := by
  cases s; cases t
  congr 1
  exact Std.ExtTreeMap.ext_getElem? fun {path} => h path

@[simp]
theorem get?_empty (path : AccessPath) : empty.get? path = none :=
  Std.ExtTreeMap.getElem?_empty

theorem get?_insert (s : Store) (path : AccessPath) (value : Nullness) (other : AccessPath) :
    (s.insert path value).get? other = if other = path then some value else s.get? other := by
  simp only [insert, get?, Std.ExtTreeMap.getElem?_insert, Std.LawfulEqOrd.compare_eq_iff_eq,
    eq_comm (a := other)]

theorem get?_join (s t : Store) (path : AccessPath) :
    (s.join t).get? path =
      (s.get? path).bind fun a => (t.get? path).map a.join := by
  simp [join, get?, Std.ExtTreeMap.getElem?_filterMap]

@[simp]
theorem update_nil (s : Store) : s.update [] = s := rfl

theorem update_append (s : Store) (us vs : List Update) :
    s.update (us ++ vs) = (s.update us).update vs := by
  simp [update]

theorem update_cons (s : Store) (u : Update) (us : List Update) :
    s.update (u :: us) = (s.insert u.1 u.2).update us := rfl

theorem get?_update_of_not_mem {updates : List Update} {path : AccessPath}
    (h : path ∉ updates.map Prod.fst) (s : Store) : (s.update updates).get? path = s.get? path := by
  induction updates generalizing s with
  | nil => rfl
  | cons u us ih =>
    rw [List.map_cons, List.mem_cons, not_or] at h
    rw [update_cons, ih h.2, get?_insert, if_neg h.1]

/-- What a batch writes for a path does not depend on the store that it goes to. -/
theorem get?_update_of_mem {updates : List Update} {path : AccessPath}
    (h : path ∈ updates.map Prod.fst) :
    ∃ value, (path, value) ∈ updates ∧ ∀ s : Store, (s.update updates).get? path = some value := by
  induction updates with
  | nil => cases h
  | cons u us ih =>
    by_cases hlater : path ∈ us.map Prod.fst
    · obtain ⟨value, hmem, hget⟩ := ih hlater
      exact ⟨value, List.mem_cons_of_mem u hmem, fun s => hget _⟩
    · have hpath : path = u.1 := by
        rw [List.map_cons, List.mem_cons] at h
        exact h.resolve_right hlater
      refine ⟨u.2, by rw [hpath]; exact List.mem_cons_self, fun s => ?_⟩
      rw [update_cons, get?_update_of_not_mem hlater, get?_insert, if_pos hpath]

end Store

end JvmLint
