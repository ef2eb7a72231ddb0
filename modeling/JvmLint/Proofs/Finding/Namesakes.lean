import JvmLint.Finding.Null
import Mathlib.Data.List.Basic

/-!
# Bodies of one name

The two null rules go through the bodies of a unit in one session, which keeps
solutions by name. A step of the session asks for the first solution that there is
under the name of the body (`Session.Keeps.analyze_cases`), so a body is judged by a
namesake that comes before it and not by its own solution. Bodies without such a
namesake are judged as if each were alone in its unit
(`SourceUnit.judgedByName_findings`).
-/
namespace JvmLint

/-! ## The solution that a name stands for -/

/-- The solution of a body that is a graph and whose run ends. -/
def Body.solution? (policy : Policy) (body : Body) : Option Solution :=
  match body.solve policy with
  | .ok solution => solution
  | .error _ => none

/-- The solution of the first body of a name that has one. -/
def firstSolution? (policy : Policy) (bodies : List Body) (name : String) : Option Solution :=
  (bodies.filter (·.name = name)).findSome? (Body.solution? policy)

variable {policy : Policy} {body : Body} {seen bodies : List Body} {name : String}

theorem Body.solution?_of_graphError? (h : body.graphError? ≠ none) :
    body.solution? policy = none := by
  unfold solution? solve
  cases herror : body.graphError? with
  | none => exact absurd herror h
  | some error => rfl

theorem firstSolution?_append (more : List Body) :
    firstSolution? policy (bodies ++ more) name =
      (firstSolution? policy bodies name).or (firstSolution? policy more name) := by
  simp only [firstSolution?, List.filter_append, List.findSome?_append]

theorem firstSolution?_singleton :
    firstSolution? policy [body] name =
      if body.name = name then body.solution? policy else none := by
  by_cases hname : body.name = name <;> simp [firstSolution?, hname]

theorem firstSolution?_eq_none
    (h : ∀ body ∈ bodies, body.name = name → body.graphError? ≠ none) :
    firstSolution? policy bodies name = none := by
  rw [firstSolution?, List.findSome?_eq_none_iff]
  intro body hbody
  rw [List.mem_filter, decide_eq_true_iff] at hbody
  exact Body.solution?_of_graphError? (h body hbody.1 hbody.2)

/-! ## Sessions -/

/-- The session has gone through these bodies. -/
structure Session.Keeps (policy : Policy) (seen : List Body) (session : Session) : Prop where
  policy_eq : session.policy = policy
  lookup_eq : ∀ name, session.known.lookup name = firstSolution? policy seen name

namespace Session

variable {session : Session}

theorem keeps_start : (start policy).Keeps policy [] := ⟨rfl, fun _ => rfl⟩

/-- A session that has an answer under the name of a body, or to which the body adds
none, has gone through the body as well. -/
theorem Keeps.snoc (h : session.Keeps policy seen)
    (hold : firstSolution? policy seen body.name ≠ none ∨ body.solution? policy = none) :
    session.Keeps policy (seen ++ [body]) := by
  refine ⟨h.policy_eq, fun name => ?_⟩
  rw [h.lookup_eq, firstSolution?_append, firstSolution?_singleton]
  by_cases hname : body.name = name
  · subst hname
    rw [if_pos rfl]
    rcases hold with hold | hnone
    · obtain ⟨solution, hsome⟩ := Option.ne_none_iff_exists'.1 hold
      rw [hsome, Option.some_or]
    · rw [hnone, Option.or_none]
  · rw [if_neg hname, Option.or_none]

theorem Keeps.insert (h : session.Keeps policy seen)
    (hfresh : firstSolution? policy seen body.name = none) {solution : Solution}
    (hsolution : body.solution? policy = some solution) :
    Keeps policy (seen ++ [body])
      { session with known := (body.name, solution) :: session.known } := by
  refine ⟨h.policy_eq, fun name => ?_⟩
  rw [firstSolution?_append, firstSolution?_singleton, List.lookup_cons, h.lookup_eq]
  by_cases hname : body.name = name
  · subst hname
    rw [if_pos rfl, hfresh, hsolution, beq_self_eq_true, Option.none_or]
  · rw [if_neg hname, beq_false_of_ne (Ne.symm hname), Option.or_none]

/-- What a session does with the next body, whose run does not go on for ever: it
passes over it, or answers with the solution that its name stands for. -/
theorem Keeps.analyze_cases (h : session.Keeps policy seen) (hends : body.solve policy ≠ .ok none) :
    (∃ error, session.analyze body = .error (.graph error) ∧
      firstSolution? policy (seen ++ [body]) body.name = none ∧
      session.Keeps policy (seen ++ [body])) ∨
    ∃ solution next, session.analyze body = .ok (solution, next) ∧
      firstSolution? policy (seen ++ [body]) body.name = some solution ∧
      next.Keeps policy (seen ++ [body]) := by
  have hname : firstSolution? policy (seen ++ [body]) body.name =
      (firstSolution? policy seen body.name).or (body.solution? policy) := by
    rw [firstSolution?_append, firstSolution?_singleton, if_pos rfl]
  cases hfirst : firstSolution? policy seen body.name with
  | some solution =>
    refine Or.inr ⟨solution, session, ?_, ?_, h.snoc (Or.inl (by simp [hfirst]))⟩
    · simp only [analyze, h.lookup_eq, hfirst]
    · rw [hname, hfirst, Option.some_or]
  | none =>
    cases hsolve : body.solve policy with
    | error error =>
      have hnone : body.solution? policy = none := by simp only [Body.solution?, hsolve]
      refine Or.inl ⟨error, ?_, ?_, h.snoc (Or.inr hnone)⟩
      · simp only [analyze, h.lookup_eq, hfirst, h.policy_eq, hsolve]
      · rw [hname, hfirst, hnone, Option.none_or]
    | ok answer =>
      cases answer with
      | none => exact absurd hsolve hends
      | some solution =>
        have hsome : body.solution? policy = some solution := by
          simp only [Body.solution?, hsolve]
        refine Or.inr ⟨solution, _, ?_, ?_, h.insert hfirst hsome⟩
        · simp only [analyze, h.lookup_eq, hfirst, h.policy_eq, hsolve]
        · rw [hname, hfirst, hsome, Option.none_or]

end Session

/-! ## Units -/

/-- What a check finds in a body, going by the solution that its name stands for
among the bodies up to it. -/
def judge (check : Body → Solution → List Finding) (policy : Policy) (upTo : List Body)
    (body : Body) : List Finding :=
  (firstSolution? policy upTo body.name).elim [] (check body)

variable {check : Body → Solution → List Finding}

/-- A body without an earlier namesake is judged by its own solution. -/
theorem judge_take {i : Nat} (hbody : bodies[i]? = some body)
    (hearlier : ∀ earlier ∈ bodies.take i,
      earlier.name = body.name → earlier.graphError? ≠ none) :
    judge check policy (bodies.take (i + 1)) body = judge check policy [body] body := by
  have hfirst : firstSolution? policy (bodies.take (i + 1)) body.name =
      firstSolution? policy [body] body.name := by
    rw [List.take_add_one, hbody, Option.toList_some, firstSolution?_append,
      firstSolution?_eq_none hearlier, Option.none_or]
  rw [judge, judge, hfirst]

namespace SourceUnit

variable {session : Session}

/-- A run of a session through the rest of the bodies. -/
theorem solvedFindings_of_keeps (h : session.Keeps policy seen)
    (hends : ∀ body ∈ bodies, body.solve policy ≠ .ok none) :
    solvedFindings check session bodies =
      some (bodies.mapIdx fun i body =>
        judge check policy (seen ++ bodies.take (i + 1)) body).flatten := by
  induction bodies generalizing seen session with
  | nil => rfl
  | cons body rest ih =>
    rw [List.forall_mem_cons] at hends
    have hstep : ∀ next : Session, next.Keeps policy (seen ++ [body]) →
        solvedFindings check next rest =
          some (rest.mapIdx fun i other =>
            judge check policy (seen ++ (body :: rest).take (i + 1 + 1)) other).flatten := by
      intro next hnext
      simpa only [List.append_assoc, List.singleton_append, List.take_succ_cons] using
        ih hnext hends.2
    rw [List.mapIdx_cons, List.flatten_cons]
    rcases h.analyze_cases hends.1 with ⟨error, herror, hnone, hkeeps⟩ |
      ⟨solution, next, hanalyze, hsome, hkeeps⟩
    · simp only [solvedFindings, herror, hstep session hkeeps, judge, Nat.zero_add,
        List.take_succ_cons, List.take_zero, hnone, Option.elim_none, List.nil_append]
    · simp only [solvedFindings, hanalyze, hstep next hkeeps, judge, Nat.zero_add,
        List.take_succ_cons, List.take_zero, hsome, Option.elim_some, Option.map_some]

theorem solvedFindings_singleton (hends : body.solve policy ≠ .ok none) :
    solvedFindings check (.start policy) [body] = some (judge check policy [body] body) := by
  rw [solvedFindings_of_keeps Session.keeps_start (List.forall_mem_singleton.2 hends),
    List.mapIdx_cons, List.mapIdx_nil, List.flatten_singleton]
  rfl

/-- The unit with one of its bodies only. -/
def only (unit : SourceUnit) (body : Body) : SourceUnit := { unit with bodies := [body] }

/-- How a rule that checks single bodies under a policy judges the bodies of a unit. -/
structure JudgedByName (policy : Policy) (check : SourceUnit → Body → Solution → List Finding)
    (findings : SourceUnit → Option (List Finding)) (unit : SourceUnit) : Prop where
  /-- The findings are those in its bodies in order, each judged by the first
  solution that there is up to it under its name. -/
  flatten_eq : findings unit = some (unit.bodies.mapIdx fun i body =>
    judge (check unit) policy (unit.bodies.take (i + 1)) body).flatten
  /-- That finds what the body alone does if no earlier body of the name is a graph. -/
  only_eq : ∀ i body, unit.bodies[i]? = some body →
    (∀ earlier ∈ unit.bodies.take i, earlier.name = body.name → earlier.graphError? ≠ none) →
      findings (unit.only body) =
        some (judge (check unit) policy (unit.bodies.take (i + 1)) body)
  /-- So bodies of different names are judged independently. -/
  independent : (unit.bodies.map Body.name).Nodup →
    findings unit = (unit.bodies.mapM fun body => findings (unit.only body)).map List.flatten

theorem mapM_eq_some_mapIdx {f : Body → Option (List Finding)} {g : Nat → Body → List Finding}
    (h : ∀ i body, bodies[i]? = some body → f body = some (g i body)) :
    bodies.mapM f = some (bodies.mapIdx g) := by
  induction bodies generalizing g with
  | nil => rfl
  | cons body rest ih =>
    rw [List.mapM_cons, h 0 body rfl, ih fun i other hother => h (i + 1) other hother,
      List.mapIdx_cons]
    rfl

theorem no_namesake_of_nodup (h : (bodies.map Body.name).Nodup) {i : Nat}
    (hbody : bodies[i]? = some body) : ∀ earlier ∈ bodies.take i, earlier.name ≠ body.name := by
  intro earlier hearlier
  obtain ⟨hlt, rfl⟩ := List.getElem?_eq_some_iff.1 hbody
  rw [← List.take_append_drop i bodies, List.drop_eq_getElem_cons hlt, List.map_append,
    List.map_cons, List.nodup_append] at h
  exact h.2.2 _ (List.mem_map_of_mem hearlier) _ List.mem_cons_self

/-- Every rule that goes through the bodies in one session judges them so, as long
as a check depends on no body but its own. -/
theorem judgedByName_of_solvedFindings {check : SourceUnit → Body → Solution → List Finding}
    {findings : SourceUnit → Option (List Finding)}
    (hfindings : ∀ unit, findings unit = solvedFindings (check unit) (.start policy) unit.bodies)
    {unit : SourceUnit} (hcheck : ∀ body, check (unit.only body) = check unit)
    (hends : ∀ body ∈ unit.bodies, body.solve policy ≠ .ok none) :
    unit.JudgedByName policy check findings := by
  have hflatten : findings unit = some (unit.bodies.mapIdx fun i body =>
      judge (check unit) policy (unit.bodies.take (i + 1)) body).flatten := by
    rw [hfindings, solvedFindings_of_keeps Session.keeps_start hends]
    rfl
  have honly : ∀ i body, unit.bodies[i]? = some body →
      (∀ earlier ∈ unit.bodies.take i, earlier.name = body.name → earlier.graphError? ≠ none) →
        findings (unit.only body) =
          some (judge (check unit) policy (unit.bodies.take (i + 1)) body) := by
    intro i body hbody hearlier
    rw [hfindings, hcheck, judge_take hbody hearlier]
    exact solvedFindings_singleton (hends body (List.mem_of_getElem? hbody))
  refine ⟨hflatten, honly, fun hnames => ?_⟩
  have halone : ∀ i body, unit.bodies[i]? = some body → findings (unit.only body) =
      some (judge (check unit) policy (unit.bodies.take (i + 1)) body) := fun i body hbody =>
    honly i body hbody fun earlier hearlier heq =>
      absurd heq (no_namesake_of_nodup hnames hbody earlier hearlier)
  rw [hflatten, mapM_eq_some_mapIdx halone]
  rfl

/-- **Bodies are judged by name.** In a unit whose runs all end, either rule about
null reports what it finds in the bodies in order, each judged by the first solution
of a body of its name up to it. So a body is judged as if it were alone unless an
earlier body of its name is a graph. -/
theorem judgedByName_findings (unit : SourceUnit) :
    ((∀ body ∈ unit.bodies, body.solve .codeOnly ≠ .ok none) →
      unit.JudgedByName .codeOnly Body.nullDereferenceFindings nullDereferenceFindings) ∧
    ((∀ body ∈ unit.bodies, body.solve .trusting ≠ .ok none) →
      unit.JudgedByName .trusting Body.redundantCheckFindings redundantCheckFindings) :=
  ⟨judgedByName_of_solvedFindings (fun _ => rfl) fun _ => rfl,
    judgedByName_of_solvedFindings (fun _ => rfl) fun _ => rfl⟩

end SourceUnit

/-- A body of one block, in which each node is an expression of its own. -/
def Body.straight (name : String) (locals : Array Variable) (kinds : Array NodeKind) : Body where
  name
  line := none
  locals
  nodes := kinds.mapIdx fun id kind => ⟨kind, none, some id, none⟩
  blocks := #[⟨List.range kinds.size, []⟩]

/-- The method `length` of strings. -/
def lengthMethod : Method := ⟨"java.lang.String", "length", "()I", false, false, [], []⟩

/-- `"" != null` and a call through `null`. -/
def literalBody (name : String) : Body :=
  .straight name #[] #[.valueLiteral, .nullLiteral, .notEqual 0 1,
    .methodInvocation (some 1) [] (some lengthMethod)]

/-- `x != null` and a call through `x`, a parameter of which nothing is declared. -/
def parameterBody (name : String) : Body :=
  .straight name #[⟨"x", .ofClass "java.lang.String", .parameter, none, []⟩]
    #[.localVariable 0, .localVariable 0, .nullLiteral, .notEqual 0 2,
      .methodInvocation (some 1) [] (some lengthMethod)]

/-- A unit of these two bodies. -/
def twoBodies (first second : String) : SourceUnit where
  sourceFile := "A.java"
  classes := []
  bodies := [literalBody first, parameterBody second]
  formatCalls := []
  methods := []

theorem judgedByName_findings_twoBodies :
    (∀ body ∈ (twoBodies "m" "n").bodies, body.solve .codeOnly ≠ .ok none) ∧
      (∀ body ∈ (twoBodies "m" "n").bodies, body.solve .trusting ≠ .ok none) ∧
      ((twoBodies "m" "n").bodies.map Body.name).Nodup ∧
      (twoBodies "m" "n").nullDereferenceFindings =
        ((twoBodies "m" "n").bodies.mapM fun body =>
          ((twoBodies "m" "n").only body).nullDereferenceFindings).map List.flatten ∧
      (twoBodies "m" "n").redundantCheckFindings =
        ((twoBodies "m" "n").bodies.mapM fun body =>
          ((twoBodies "m" "n").only body).redundantCheckFindings).map List.flatten := by
  have hcode : ∀ body ∈ (twoBodies "m" "n").bodies, body.solve .codeOnly ≠ .ok none := by
    decide +kernel
  have htrusting : ∀ body ∈ (twoBodies "m" "n").bodies, body.solve .trusting ≠ .ok none := by
    decide +kernel
  have hnames : ((twoBodies "m" "n").bodies.map Body.name).Nodup := by decide
  have h := SourceUnit.judgedByName_findings (twoBodies "m" "n")
  exact ⟨hcode, htrusting, hnames, (h.1 hcode).independent hnames,
    (h.2 htrusting).independent hnames⟩

/-- When both bodies are called `m`, the parameter is reported to be always null and
never null, and neither is reported of the second body alone. -/
theorem judged_by_namesake :
    (∀ body ∈ (twoBodies "m" "m").bodies,
      body.solve .codeOnly ≠ .ok none ∧ body.solve .trusting ≠ .ok none) ∧
    (twoBodies "m" "m").nullDereferenceFindings ≠
      ((twoBodies "m" "m").bodies.mapM fun body =>
        ((twoBodies "m" "m").only body).nullDereferenceFindings).map List.flatten ∧
    (twoBodies "m" "m").redundantCheckFindings ≠
      ((twoBodies "m" "m").bodies.mapM fun body =>
        ((twoBodies "m" "m").only body).redundantCheckFindings).map List.flatten := by
  refine ⟨by decide +kernel, fun h => ?_, fun h => ?_⟩
  · exact absurd (congrArg (Option.map List.length) h) (by decide +kernel)
  · exact absurd (congrArg (Option.map List.length) h) (by decide +kernel)

end JvmLint
