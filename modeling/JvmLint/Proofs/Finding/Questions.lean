import JvmLint.Finding.Null
import Mathlib.Data.List.Basic

/-!
# Questions of the null rules

The null rules ask a session about expressions of a body that it has just analyzed.
Such a question has an answer: the body is the one that is searched, its solution is
kept, and the expressions asked about are those of nodes of the body
(`Session.query_of_lookup`, `Body.owns_of_mem_dereferenceReports`). So the rules find
what the solutions say, and fail only where the analysis of a body never ends
(`toOption_runNullDereference`, `toOption_runRedundantCheck`).
-/
namespace JvmLint

/-! ## Expressions of a body -/

/-- Some node of the body belongs to the expression. -/
def Body.Owns (body : Body) (tree : TreeId) : Prop :=
  ∃ node, body.tree? node = some tree

theorem Body.Owns.nodesOfTree_ne_nil {body : Body} {tree : TreeId} (h : body.Owns tree) :
    body.nodesOfTree tree ≠ [] := by
  obtain ⟨node, hnode⟩ := h
  have hlt : node < body.nodes.size := by
    unfold tree? at hnode
    obtain ⟨found, hfound, -⟩ := Option.bind_eq_some_iff.1 hnode
    exact (Array.getElem?_eq_some_iff.1 hfound).1
  apply List.ne_nil_of_mem (a := node)
  simp [nodesOfTree, hlt, hnode]

theorem Dereference.mem_of_mem_firsts {access : Dereference} {accesses : List Dereference}
    (h : access ∈ firsts accesses) : access ∈ accesses := by
  induction accesses with
  | nil => exact h
  | cons first rest ih =>
    simp only [firsts, List.mem_cons, List.mem_filter] at h ⊢
    rcases h with rfl | ⟨hrest, -⟩
    · exact Or.inl rfl
    · exact Or.inr (ih hrest)

theorem Dereference.owns_of_ofNode? {body : Body} {node : Node} {access : Dereference}
    (h : ofNode? body node = some access) : body.Owns access.tree := by
  unfold ofNode? at h
  split at h
  · obtain ⟨tree, htree, rfl⟩ := Option.map_eq_some_iff.1 h
    exact ⟨_, htree⟩
  · obtain ⟨tree, htree, rfl⟩ := Option.map_eq_some_iff.1 h
    exact ⟨_, htree⟩
  · cases h

theorem NullCheck.owns_of_ofNode? {body : Body} {node : Node} {check : NullCheck}
    (h : ofNode? body node = some check) : body.Owns check.tree := by
  unfold ofNode? at h
  split at h
  · obtain ⟨operand, -, h⟩ := Option.bind_eq_some_iff.1 h
    obtain ⟨tree, htree, h⟩ := Option.bind_eq_some_iff.1 h
    cases h
    exact ⟨operand, htree⟩
  · obtain ⟨operand, -, h⟩ := Option.bind_eq_some_iff.1 h
    obtain ⟨tree, htree, h⟩ := Option.bind_eq_some_iff.1 h
    cases h
    exact ⟨operand, htree⟩
  · cases h

namespace Body

variable {unit : SourceUnit} {body : Body} {place : TreeId × Finding}

theorem owns_of_mem_dereferenceReports (h : place ∈ body.dereferenceReports unit) :
    body.Owns place.1 := by
  obtain ⟨access, haccess, rfl⟩ := List.mem_map.1 h
  obtain ⟨node, -, hnode⟩ := List.mem_filterMap.1 (Dereference.mem_of_mem_firsts haccess)
  exact Dereference.owns_of_ofNode? hnode

theorem owns_of_mem_nullCheckReports (h : place ∈ body.nullCheckReports unit) :
    body.Owns place.1 := by
  obtain ⟨check, hcheck, rfl⟩ := List.mem_map.1 h
  obtain ⟨node, -, hnode⟩ := List.mem_filterMap.1 hcheck
  exact NullCheck.owns_of_ofNode? hnode

end Body

/-! ## Answers -/

namespace Session

variable {session next : Session} {body : Body} {solution : Solution}

/-- A session keeps the solution that it answers with. -/
theorem lookup_of_analyze (h : session.analyze body = .ok (solution, next)) :
    next.known.lookup body.name = some solution := by
  unfold analyze at h
  split at h
  · rename_i hknown
    cases h
    exact hknown
  · split at h
    · cases h
    · cases h
    · cases h
      simp

theorem analyze_of_lookup (h : session.known.lookup body.name = some solution) :
    session.analyze body = .ok (solution, session) := by
  simp only [analyze, h]

/-- A question about an analyzed body, and an expression of it, has an answer. -/
theorem query_of_lookup (h : session.known.lookup body.name = some solution) {tree : TreeId}
    (hown : body.Owns tree) :
    session.query [body] body.name tree = .ok (solution.treeNullness body tree, session) := by
  have hfind : [body].find? (·.name == body.name) = some body := by simp
  have hnodes : (body.nodesOfTree tree).isEmpty = false := by
    simpa using hown.nodesOfTree_ne_nil
  simp only [query, hfind, hnodes, analyze_of_lookup h]
  rfl

/-- The findings that go with the expressions which a solution gives a nullness. -/
def solved (body : Body) (nullness : Nullness) (places : List (TreeId × Finding))
    (solution : Solution) : List Finding :=
  (places.filter fun place => solution.treeNullness body place.1 = nullness).map Prod.snd

theorem report_of_lookup (h : session.known.lookup body.name = some solution)
    (nullness : Nullness) {places : List (TreeId × Finding)}
    (hown : ∀ place ∈ places, body.Owns place.1) :
    session.report body nullness places = .ok (solved body nullness places solution, session) := by
  induction places with
  | nil => rfl
  | cons place rest ih =>
    obtain ⟨tree, finding⟩ := place
    rw [List.forall_mem_cons] at hown
    rw [report, query_of_lookup h hown.1]
    simp only [Except.bind, bind, ih hown.2]
    by_cases hanswer : solution.treeNullness body tree = nullness
    · simp [solved, hanswer, pure, Except.pure]
    · simp [solved, hanswer, pure, Except.pure]

end Session

/-! ## Rules -/

namespace SourceUnit

/-- Asking a session comes to looking at its solutions. -/
theorem toOption_askedFindings {nullness : Nullness} {reports : Body → List (TreeId × Finding)}
    (hown : ∀ body, ∀ place ∈ reports body, body.Owns place.1) (session : Session)
    (bodies : List Body) :
    (askedFindings nullness reports session bodies).toOption =
      solvedFindings (fun body => Session.solved body nullness (reports body)) session bodies := by
  induction bodies generalizing session with
  | nil => rfl
  | cons body rest ih =>
    unfold askedFindings solvedFindings
    cases hanalyze : session.analyze body with
    | error error =>
      cases error with
      | endless => rfl
      | graph error => exact ih session
    | ok answer =>
      obtain ⟨solution, next⟩ := answer
      have hreport :=
        Session.report_of_lookup (Session.lookup_of_analyze hanalyze) nullness (hown body)
      simp only [hreport, ← ih next, bind, Except.bind]
      cases askedFindings nullness reports next rest <;> rfl

theorem toOption_runNullDereference (unit : SourceUnit) :
    unit.runNullDereference.toOption = unit.nullDereferenceFindings := by
  unfold runNullDereference nullDereferenceFindings
  rw [toOption_askedFindings fun body place => Body.owns_of_mem_dereferenceReports]
  congr 1
  funext body solution
  simp [Session.solved, Body.dereferenceReports, Body.nullDereferenceFindings, List.filter_map,
    Function.comp_def]

theorem toOption_runRedundantCheck (unit : SourceUnit) :
    unit.runRedundantCheck.toOption = unit.redundantCheckFindings := by
  unfold runRedundantCheck redundantCheckFindings
  rw [toOption_askedFindings fun body place => Body.owns_of_mem_nullCheckReports]
  congr 1
  funext body solution
  simp [Session.solved, Body.nullCheckReports, Body.redundantCheckFindings, List.filter_map,
    Function.comp_def]

end SourceUnit

end JvmLint
