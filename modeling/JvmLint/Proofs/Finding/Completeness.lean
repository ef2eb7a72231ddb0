import JvmLint.Finding.Lint
import JvmLint.Proofs.Finding.Namesakes
import JvmLint.Proofs.Finding.Questions
import JvmLint.Proofs.Outcome

/-!
# A full report

When the runs on all bodies end, no rule fails: a body that is no graph, a call or a
declaration that cannot be checked is passed over, and all that the rules find is in
the report, sorted (`analyzeUnits_full_report`). What is found in the good bodies of a
unit is found whether or not bad ones are among them
(`SourceUnit.exists_sublist_solvedFindings`).

`Rule.found` is what a rule finds in one such unit; a run of the rule, and the report,
are put together from it (`Rule.run_eq_ok`, `analyzeUnits_eq_ok`).
-/
namespace JvmLint

/-! ## Rules that do not fail -/

/-- The runs on all bodies of the unit end, whatever is believed. -/
def SourceUnit.RunsEnd (unit : SourceUnit) : Prop :=
  ∀ body ∈ unit.bodies, body.solve .codeOnly ≠ .ok none ∧ body.solve .trusting ≠ .ok none

namespace SourceUnit

variable {unit : SourceUnit}

theorem RunsEnd.exists_nullDereferenceFindings (h : unit.RunsEnd) :
    ∃ found, unit.nullDereferenceFindings = some found :=
  ⟨_, solvedFindings_of_keeps Session.keeps_start fun body hbody => (h body hbody).1⟩

theorem RunsEnd.exists_redundantCheckFindings (h : unit.RunsEnd) :
    ∃ found, unit.redundantCheckFindings = some found :=
  ⟨_, solvedFindings_of_keeps Session.keeps_start fun body hbody => (h body hbody).2⟩

end SourceUnit

namespace Rule

/-- What a rule finds in a unit, if it does not fail. -/
def found (hierarchy : Hierarchy) (rule : Rule) (unit : SourceUnit) : List Finding :=
  (rule.findings hierarchy unit).toOption.getD []

variable {hierarchy : Hierarchy} {rule : Rule} {units : List SourceUnit}

theorem findings_eq_ok {unit : SourceUnit} (h : unit.RunsEnd) :
    rule.findings hierarchy unit = .ok (rule.found hierarchy unit) := by
  cases rule with
  | formatString => rfl
  | formatMethod => rfl
  | nullDereference =>
    obtain ⟨found, hfound⟩ := h.exists_nullDereferenceFindings
    apply eq_ok_of_toOption
    simp [Rule.found, findings, SourceUnit.toOption_runNullDereference, hfound]
  | redundantNullCheck =>
    obtain ⟨found, hfound⟩ := h.exists_redundantCheckFindings
    apply eq_ok_of_toOption
    simp [Rule.found, findings, SourceUnit.toOption_runRedundantCheck, hfound]

theorem run_eq_ok (h : ∀ unit ∈ units, unit.RunsEnd) :
    rule.run hierarchy units = .ok (units.map (rule.found hierarchy)).flatten := by
  rw [run, mapM_eq_ok fun unit hunit => findings_eq_ok (h unit hunit)]
  rfl

end Rule

theorem analyzeUnits_eq_ok {units : List SourceUnit} (h : ∀ unit ∈ units, unit.RunsEnd) :
    analyzeUnits units = .ok (Finding.sort (Rule.all.flatMap fun rule =>
      (units.map (rule.found (.ofUnits units))).flatten)) := by
  rw [analyzeUnits, mapM_eq_ok fun rule _ => rule.run_eq_ok h]
  rfl

/-! ## Items that are checked one by one -/

/-- What is found in items that are checked one by one: one finding for each item with
a problem, in order, and nothing for those without or which cannot be checked. -/
inductive OnePerProblem {α ε π : Type} (check : α → Except ε (Option π))
    (finding : α → π → Finding) : List α → List Finding → Prop where
  | nil : OnePerProblem check finding [] []
  | problem {item : α} {items : List α} {problem : π} {found : List Finding} :
    check item = .ok (some problem) → OnePerProblem check finding items found →
      OnePerProblem check finding (item :: items) (finding item problem :: found)
  | fine {item : α} {items : List α} {found : List Finding} :
    check item = .ok none → OnePerProblem check finding items found →
      OnePerProblem check finding (item :: items) found
  | error {item : α} {items : List α} {error : ε} {found : List Finding} :
    check item = .error error → OnePerProblem check finding items found →
      OnePerProblem check finding (item :: items) found

section OnePerProblem

variable {α ε π : Type} {check : α → Except ε (Option π)} {finding : α → π → Finding}

theorem onePerProblem_filterMap {find? : α → Option Finding}
    (hproblem : ∀ item problem, check item = .ok (some problem) →
      find? item = some (finding item problem))
    (hfine : ∀ item, check item = .ok none → find? item = none)
    (herror : ∀ item error, check item = .error error → find? item = none) (items : List α) :
    OnePerProblem check finding items (items.filterMap find?) := by
  induction items with
  | nil => exact .nil
  | cons item rest ih =>
    rw [List.filterMap_cons]
    cases hcheck : check item with
    | error error =>
      rw [herror item error hcheck]
      exact .error hcheck ih
    | ok answer =>
      cases answer with
      | none =>
        rw [hfine item hcheck]
        exact .fine hcheck ih
      | some problem =>
        rw [hproblem item problem hcheck]
        exact .problem hcheck ih

theorem OnePerProblem.rule_eq {items : List α} {found : List Finding}
    (h : OnePerProblem check finding items found) {rule : Rule}
    (hrule : ∀ item problem, (finding item problem).rule = rule) :
    ∀ one ∈ found, one.rule = rule := by
  induction h with
  | nil => simp
  | problem _ _ ih => exact List.forall_mem_cons.2 ⟨hrule _ _, ih⟩
  | fine _ _ ih => exact ih
  | error _ _ ih => exact ih

end OnePerProblem

/-! ## Bodies that are no graphs -/

namespace SourceUnit

/-- The unit with those of its bodies that are graphs. -/
def graphs (unit : SourceUnit) : SourceUnit :=
  { unit with bodies := unit.bodies.filter (·.graphError?.isNone) }

/-- A body that is no graph leaves a session as it is. -/
theorem analyze_of_graphError? (session : Session) {body : Body} (h : body.graphError? ≠ none) :
    (∃ error, session.analyze body = .error (.graph error)) ∨
      ∃ solution, session.analyze body = .ok (solution, session) := by
  unfold Session.analyze
  split
  · exact Or.inr ⟨_, rfl⟩
  · obtain ⟨error, herror⟩ := Option.ne_none_iff_exists'.1 h
    exact Or.inl ⟨error, by simp [Body.solve, herror]⟩

/-- Nothing that is found in graphs is lost to bodies that are none. -/
theorem exists_sublist_solvedFindings {check : Body → Solution → List Finding}
    {session : Session} {bodies : List Body} {found : List Finding}
    (h : solvedFindings check session bodies = some found) :
    ∃ kept, solvedFindings check session (bodies.filter (·.graphError?.isNone)) = some kept ∧
      kept.Sublist found := by
  induction bodies generalizing session found with
  | nil => exact ⟨found, h, List.Sublist.refl found⟩
  | cons body rest ih =>
    cases hgraph : body.graphError? with
    | none =>
      rw [List.filter_cons_of_pos (by simp [hgraph])]
      unfold solvedFindings at h ⊢
      cases hanalyze : session.analyze body with
      | error error =>
        rw [hanalyze] at h
        cases error with
        | endless => cases h
        | graph error => exact ih h
      | ok answer =>
        rw [hanalyze] at h
        obtain ⟨others, hothers, rfl⟩ := Option.map_eq_some_iff.1 h
        obtain ⟨kept, hkept, hsub⟩ := ih hothers
        exact ⟨_, by simp only [hkept, Option.map_some], hsub.append_left _⟩
    | some error =>
      rw [List.filter_cons_of_neg (by simp [hgraph])]
      unfold solvedFindings at h
      have hbad : body.graphError? ≠ none := by simp [hgraph]
      rcases analyze_of_graphError? session hbad with ⟨error, hanalyze⟩ | ⟨solution, hanalyze⟩
      · rw [hanalyze] at h
        exact ih h
      · rw [hanalyze] at h
        obtain ⟨others, hothers, rfl⟩ := Option.map_eq_some_iff.1 h
        obtain ⟨kept, hkept, hsub⟩ := ih hothers
        exact ⟨kept, hkept, hsub.trans (List.sublist_append_right _ _)⟩

theorem exists_of_mem_solvedFindings {check : Body → Solution → List Finding} {session : Session}
    {bodies : List Body} {found : List Finding}
    (h : solvedFindings check session bodies = some found) {finding : Finding}
    (hfinding : finding ∈ found) : ∃ body solution, finding ∈ check body solution := by
  induction bodies generalizing session found with
  | nil =>
    cases h
    cases hfinding
  | cons body rest ih =>
    unfold solvedFindings at h
    split at h
    · cases h
    · exact ih h hfinding
    · rename_i solution next _
      obtain ⟨others, hothers, rfl⟩ := Option.map_eq_some_iff.1 h
      rcases List.mem_append.1 hfinding with hhere | hlater
      · exact ⟨body, solution, hhere⟩
      · exact ih hothers hlater

end SourceUnit

/-! ## What the rules yield -/

/-- What the rules are to find in a unit. -/
def Rule.Yields (hierarchy : Hierarchy) (unit : SourceUnit) (found : List Finding) : Rule → Prop
  | formatString =>
    OnePerProblem (fun call => Format.checkCall hierarchy call.method call.arguments)
      (fun call problem => .ofCall .formatString unit call problem.message)
      (unit.formatCalls.filter fun call => !call.strict) found
  | formatMethod =>
    ∃ calls declarations, found = calls ++ declarations ∧
      OnePerProblem
        (fun call => Format.checkStrictCall hierarchy call.method call.arguments call.scope)
        (fun call problem => .ofCall .formatMethod unit call problem.message)
        (unit.formatCalls.filter fun call => call.strict) calls ∧
      OnePerProblem (fun declaration => Format.checkDeclaration declaration.method)
        (fun declaration problem =>
          { rule := .formatMethod
            sourceFile := unit.sourceFile
            enclosing := some declaration.method.qualifiedName
            line := declaration.line
            message := problem.message })
        unit.methods declarations
  | nullDereference =>
    unit.nullDereferenceFindings = some found ∧
      ∃ kept, unit.graphs.nullDereferenceFindings = some kept ∧ kept.Sublist found
  | redundantNullCheck =>
    unit.redundantCheckFindings = some found ∧
      ∃ kept, unit.graphs.redundantCheckFindings = some kept ∧ kept.Sublist found

namespace Rule

variable {hierarchy : Hierarchy} {unit : SourceUnit} {rule : Rule}

theorem yields_formatString :
    formatString.Yields hierarchy unit (unit.formatStringFindings hierarchy) := by
  apply onePerProblem_filterMap
  · intro call problem h
    simp only [Finding.ofPlainCall?, h]
  · intro call h
    simp only [Finding.ofPlainCall?, h]
  · intro call error h
    simp only [Finding.ofPlainCall?, h]

theorem yields_formatMethod :
    formatMethod.Yields hierarchy unit (unit.formatAnnotationFindings hierarchy) := by
  refine ⟨_, _, rfl, onePerProblem_filterMap ?_ ?_ ?_ _, onePerProblem_filterMap ?_ ?_ ?_ _⟩
  · intro call problem h
    simp only [Finding.ofStrictCall?, h]
  · intro call h
    simp only [Finding.ofStrictCall?, h]
  · intro call error h
    simp only [Finding.ofStrictCall?, h]
  · intro declaration problem h
    simp only [Finding.ofDeclaration?, h]
  · intro declaration h
    simp only [Finding.ofDeclaration?, h]
  · intro declaration error h
    simp only [Finding.ofDeclaration?, h]

theorem yields_found (h : unit.RunsEnd) :
    rule.Yields hierarchy unit (rule.found hierarchy unit) := by
  cases rule with
  | formatString => exact yields_formatString
  | formatMethod => exact yields_formatMethod
  | nullDereference =>
    obtain ⟨found, hfound⟩ := h.exists_nullDereferenceFindings
    have heq : nullDereference.found hierarchy unit = found := by
      simp [Rule.found, findings, SourceUnit.toOption_runNullDereference, hfound]
    rw [heq]
    exact ⟨hfound, SourceUnit.exists_sublist_solvedFindings hfound⟩
  | redundantNullCheck =>
    obtain ⟨found, hfound⟩ := h.exists_redundantCheckFindings
    have heq : redundantNullCheck.found hierarchy unit = found := by
      simp [Rule.found, findings, SourceUnit.toOption_runRedundantCheck, hfound]
    rw [heq]
    exact ⟨hfound, SourceUnit.exists_sublist_solvedFindings hfound⟩

/-- What a rule yields carries its id. -/
theorem Yields.rule_eq {found : List Finding} (h : rule.Yields hierarchy unit found) :
    ∀ finding ∈ found, finding.rule = rule := by
  intro finding hfinding
  cases rule with
  | formatString => exact OnePerProblem.rule_eq h (fun _ _ => rfl) finding hfinding
  | formatMethod =>
    obtain ⟨calls, declarations, rfl, hcalls, hdeclarations⟩ := h
    rcases List.mem_append.1 hfinding with hcall | hdeclaration
    · exact hcalls.rule_eq (fun _ _ => rfl) finding hcall
    · exact hdeclarations.rule_eq (fun _ _ => rfl) finding hdeclaration
  | nullDereference =>
    obtain ⟨body, solution, hcheck⟩ := SourceUnit.exists_of_mem_solvedFindings h.1 hfinding
    obtain ⟨access, -, rfl⟩ := List.mem_map.1 hcheck
    rfl
  | redundantNullCheck =>
    obtain ⟨body, solution, hcheck⟩ := SourceUnit.exists_of_mem_solvedFindings h.1 hfinding
    obtain ⟨check, -, rfl⟩ := List.mem_map.1 hcheck
    rfl

theorem id_eq_iff {rule rule' : Rule} : rule.id = rule'.id ↔ rule = rule' := by
  cases rule <;> cases rule' <;> decide

theorem filter_id_eq {found : List Finding} (h : ∀ finding ∈ found, finding.rule = rule)
    (rule' : Rule) :
    found.filter (·.rule.id = rule'.id) = if rule = rule' then found else [] := by
  split
  · rename_i heq
    rw [List.filter_eq_self]
    intro finding hfinding
    simp [h finding hfinding, heq]
  · rename_i hne
    rw [List.filter_eq_nil_iff]
    intro finding hfinding
    simp [h finding hfinding, id_eq_iff, hne]

/-- Among the findings of all rules those with the id of a rule are its own. -/
theorem filter_flatMap_all {findings : Rule → List Finding}
    (h : ∀ rule, ∀ finding ∈ findings rule, finding.rule = rule) (rule : Rule) :
    (all.flatMap findings).filter (·.rule.id = rule.id) = findings rule := by
  simp only [all, List.flatMap_cons, List.flatMap_nil, List.append_nil, List.filter_append,
    filter_id_eq (h _)]
  cases rule <;> simp

end Rule

/-! ## The report -/

namespace Finding

theorem isLE_order_iff {a b : Finding} :
    (order a b).isLE ↔
      a.rule.id < b.rule.id ∨ a.rule.id = b.rule.id ∧ a.message ≤ b.message := by
  have hlt : ∀ s t : String, compare s t = .lt ↔ s < t := fun s t => compareOfLessAndEq_eq_lt
  have hle : ∀ s t : String, (compare s t).isLE ↔ s ≤ t := fun s t =>
    isLE_compareOfLessAndEq String.le_antisymm String.not_le String.le_total
  rw [order, Ordering.isLE_then_iff_or, hlt, hle, Std.compare_eq_iff_eq]

theorem pairwise_sort (findings : List Finding) :
    (sort findings).Pairwise fun a b =>
      a.rule.id < b.rule.id ∨ a.rule.id = b.rule.id ∧ a.message ≤ b.message := by
  have horder : Std.TransCmp order := inferInstanceAs <| Std.TransCmp <|
    compareLex (compareOn fun finding : Finding => finding.rule.id) (compareOn Finding.message)
  have htotal : ∀ a b, ((order a b).isLE || (order b a).isLE) = true := by
    intro a b
    have hswap : order a b = (order b a).swap := Std.OrientedCmp.eq_swap
    rw [hswap]
    cases order b a <;> rfl
  have htrans : ∀ a b c, (order a b).isLE = true → (order b c).isLE = true →
      (order a c).isLE = true := fun _ _ _ => horder.isLE_trans
  have hsorted := List.pairwise_mergeSort htrans htotal findings
  simpa only [sort, isLE_order_iff] using hsorted

end Finding

/-- A full report on units. -/
structure FullReport (units : List SourceUnit) (found : List Finding) : Prop where
  /-- It is sorted by rule id and then by message. -/
  sorted : found.Pairwise fun a b =>
    a.rule.id < b.rule.id ∨ a.rule.id = b.rule.id ∧ a.message ≤ b.message
  /-- What it has under the id of a rule is what a run of the rule yields, unit by unit. -/
  ofRule : ∀ rule : Rule, ∃ yielded : List (List Finding),
    rule.run (.ofUnits units) units = .ok yielded.flatten ∧
      List.Forall₂ (fun unit found => rule.Yields (.ofUnits units) unit found) units yielded ∧
      (found.filter (·.rule.id = rule.id)).Perm yielded.flatten

/-- **Nothing is lost to what cannot be checked.** On units whose runs all end the rules
do not fail, whatever else is wrong with the units, and the report is full. -/
theorem analyzeUnits_full_report (units : List SourceUnit) (h : ∀ unit ∈ units, unit.RunsEnd) :
    ∃ found, analyzeUnits units = .ok found ∧ FullReport units found := by
  have hyields : ∀ rule : Rule,
      List.Forall₂ (fun unit found => rule.Yields (.ofUnits units) unit found) units
        (units.map (rule.found (.ofUnits units))) := by
    intro rule
    rw [List.forall₂_map_right_iff, List.forall₂_same]
    exact fun unit hunit => Rule.yields_found (h unit hunit)
  have hrule : ∀ rule : Rule, ∀ finding ∈ (units.map (rule.found (.ofUnits units))).flatten,
      finding.rule = rule := by
    intro rule finding hfinding
    rw [← List.flatMap_def] at hfinding
    obtain ⟨unit, hunit, hfound⟩ := List.mem_flatMap.1 hfinding
    exact (Rule.yields_found (h unit hunit)).rule_eq finding hfound
  refine ⟨_, analyzeUnits_eq_ok h, Finding.pairwise_sort _, fun rule => ?_⟩
  refine ⟨_, Rule.run_eq_ok h, hyields rule, ?_⟩
  have hperm := (List.mergeSort_perm (Rule.all.flatMap fun rule =>
    (units.map (rule.found (.ofUnits units))).flatten) fun a b => (Finding.order a b).isLE).filter
      fun finding => decide (finding.rule.id = rule.id)
  rwa [Rule.filter_flatMap_all hrule] at hperm

/-- A string literal, as an argument. -/
def stringLiteral (text : String) : Expr :=
  ⟨.literal, some (.ofClass Hierarchy.stringClass), some (.string text), text⟩

/-- A local variable, as an argument. -/
def localArgument (name : String) : Expr :=
  ⟨.reference ⟨0, name, .localVariable, true, false, none, none⟩,
    some (.ofClass Hierarchy.stringClass), none, name⟩

/-- A unit with a body that has no blocks, one that lists a node it does not have, one
that calls a method through such a node, and one of which something is to be reported; a
call without arguments, one whose variable is declared nowhere, and one that passes a
text for a number; and a method with a descriptor that cannot be read. -/
def faultyUnit : SourceUnit where
  sourceFile := "B.java"
  classes := []
  bodies := [⟨"empty", none, #[], #[], #[]⟩, ⟨"unlisted", none, #[], #[], #[⟨[7], []⟩]⟩,
    .straight "dangling" #[] #[.methodInvocation (some 9) [] (some lengthMethod)], literalBody "m"]
  formatCalls := [⟨none, [], false, [], none, none⟩,
    ⟨none, [localArgument "f"], true, [], none, none⟩,
    ⟨none, [stringLiteral "%d", stringLiteral "seven"], false, [], none, none⟩]
  methods := [⟨⟨"a.B", "m", "oops", false, false, ["FormatMethod"], []⟩, none⟩]

theorem analyzeUnits_full_report_faulty :
    (∀ unit ∈ [faultyUnit, twoBodies "m" "n"], unit.RunsEnd) ∧
      ∃ found, analyzeUnits [faultyUnit, twoBodies "m" "n"] = .ok found ∧
        FullReport [faultyUnit, twoBodies "m" "n"] found := by
  have hends : ∀ unit ∈ [faultyUnit, twoBodies "m" "n"], unit.RunsEnd := by
    unfold SourceUnit.RunsEnd
    decide +kernel
  exact ⟨hends, analyzeUnits_full_report _ hends⟩

end JvmLint
