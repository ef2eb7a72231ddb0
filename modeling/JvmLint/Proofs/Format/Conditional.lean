import JvmLint.Proofs.Format.Inlining
import Mathlib.Data.List.Forall2

/-!
# Formats that depend on a condition

A format may be a conditional expression, with conditionals in its arms in turn. Each way
down through the arms leads to a leaf (`LeafAt`), and two ways part at a conditional where
the one that takes the first arm comes first in the source (`Precedes`). The formats of a
call are the texts of all leaves in this order (`candidates_eq_some_iff`), or none at all if a
leaf has no text.

So a call is checked leaf by leaf (`checkCall_leaf_by_leaf`): what is reported is what is
wrong with the first leaf with which something is wrong.
-/
namespace JvmLint.Format

/-! ## Leaves -/

/-- An arm of a conditional. -/
inductive Arm where
  | whenTrue | whenFalse
  deriving DecidableEq

/-- Taking these arms one after the other leads to the leaf, which is no conditional. What
a conditional itself carries does not matter. -/
inductive LeafAt : Expr → List Arm → Expr → Prop where
  | here {expr : Expr} : (∀ a b, expr.kind ≠ .conditional a b) → LeafAt expr [] expr
  | whenTrue {expr a b leaf : Expr} {way : List Arm} :
    expr.kind = .conditional a b → LeafAt a way leaf → LeafAt expr (.whenTrue :: way) leaf
  | whenFalse {expr a b leaf : Expr} {way : List Arm} :
    expr.kind = .conditional a b → LeafAt b way leaf → LeafAt expr (.whenFalse :: way) leaf

/-- Where the ways part, the first one takes the first arm. -/
def Precedes (first second : List Arm) : Prop :=
  ∃ common afterTrue afterFalse, first = common ++ .whenTrue :: afterTrue ∧
    second = common ++ .whenFalse :: afterFalse

/-- The way leads to a leaf that is this text. -/
def TextAt (format : Expr) (way : List Arm) (text : String) : Prop :=
  ∃ leaf, LeafAt format way leaf ∧ leaf.constantText? = some text

/-- All leaves in the order of the source, with the ways to them. -/
def leaves : Expr → List (List Arm × Expr)
  | ⟨.conditional thenExpr elseExpr, _, _, _⟩ =>
    (leaves thenExpr).map (fun (way, leaf) => (.whenTrue :: way, leaf)) ++
      (leaves elseExpr).map (fun (way, leaf) => (.whenFalse :: way, leaf))
  | expr => [([], expr)]

theorem Precedes.cons {first second : List Arm} (h : Precedes first second) (arm : Arm) :
    Precedes (arm :: first) (arm :: second) := by
  obtain ⟨common, afterTrue, afterFalse, rfl, rfl⟩ := h
  exact ⟨arm :: common, afterTrue, afterFalse, rfl, rfl⟩

theorem Precedes.of_cons {first second : List Arm} {arm : Arm}
    (h : Precedes (arm :: first) (arm :: second)) : Precedes first second := by
  obtain ⟨common, afterTrue, afterFalse, hfirst, hsecond⟩ := h
  cases common with
  | nil =>
    cases hfirst
    cases hsecond
  | cons other common =>
    cases hfirst
    exact ⟨common, afterTrue, afterFalse, rfl, (List.cons.inj hsecond).2⟩

/-- Of two ways at most one comes first. -/
theorem Precedes.asymm {first second : List Arm} (h : Precedes first second) :
    ¬ Precedes second first := by
  obtain ⟨common, afterTrue, afterFalse, rfl, rfl⟩ := h
  induction common with
  | nil =>
    rintro ⟨common, _, _, hsecond, hfirst⟩
    cases common with
    | nil => cases hsecond
    | cons arm common =>
      cases hsecond
      cases hfirst
  | cons arm common ih => exact fun h => ih h.of_cons

theorem mem_leaves {format leaf : Expr} {way : List Arm} :
    (way, leaf) ∈ leaves format ↔ LeafAt format way leaf := by
  fun_induction leaves format generalizing way with
  | case1 thenExpr elseExpr type constant source ihThen ihElse =>
    rw [List.mem_append, List.mem_map, List.mem_map]
    constructor
    · rintro (⟨⟨below, leaf⟩, hmem, heq⟩ | ⟨⟨below, leaf⟩, hmem, heq⟩)
      · cases heq
        exact .whenTrue rfl (ihThen.1 hmem)
      · cases heq
        exact .whenFalse rfl (ihElse.1 hmem)
    · intro h
      cases h with
      | here hkind => exact absurd rfl (hkind thenExpr elseExpr)
      | whenTrue hkind hleaf =>
        cases hkind
        exact Or.inl ⟨(_, leaf), ihThen.2 hleaf, rfl⟩
      | whenFalse hkind hleaf =>
        cases hkind
        exact Or.inr ⟨(_, leaf), ihElse.2 hleaf, rfl⟩
  | case2 expr hkind =>
    have hno : ∀ a b, expr.kind ≠ .conditional a b := by
      intro a b heq
      obtain ⟨kind, type, constant, source⟩ := expr
      cases heq
      exact hkind a b type constant source rfl
    rw [List.mem_singleton]
    constructor
    · rintro ⟨⟩
      exact .here hno
    · intro h
      cases h with
      | here _ => rfl
      | whenTrue heq _ => exact absurd heq (hno _ _)
      | whenFalse heq _ => exact absurd heq (hno _ _)

theorem pairwise_leaves (format : Expr) :
    (leaves format).Pairwise fun x y => Precedes x.1 y.1 := by
  fun_induction leaves format with
  | case1 thenExpr elseExpr type constant source ihThen ihElse =>
    rw [List.pairwise_append, List.pairwise_map, List.pairwise_map]
    refine ⟨ihThen.imp fun h => h.cons _, ihElse.imp fun h => h.cons _, ?_⟩
    intro x hx y hy
    obtain ⟨⟨below, leaf⟩, -, rfl⟩ := List.mem_map.1 hx
    obtain ⟨⟨below', leaf'⟩, -, rfl⟩ := List.mem_map.1 hy
    exact ⟨[], below, below', rfl, rfl⟩
  | case2 expr hkind => exact List.pairwise_singleton _ _

/-- The formats of an expression are the texts of its leaves. -/
theorem candidates_eq_some_iff {format : Expr} {texts : List String} :
    candidates format = some texts ↔
      (leaves format).map (fun x => x.2.constantText?) = texts.map some := by
  fun_induction leaves format generalizing texts with
  | case1 thenExpr elseExpr type constant source ihThen ihElse =>
    rw [candidates, List.map_append, List.map_map, List.map_map, List.append_eq_map_iff]
    simp only [Option.bind_eq_bind, Option.bind_eq_some_iff]
    constructor
    · rintro ⟨thenTexts, hthen, elseTexts, helse, heq⟩
      cases heq
      exact ⟨thenTexts, elseTexts, rfl, (ihThen.1 hthen).symm, (ihElse.1 helse).symm⟩
    · rintro ⟨thenTexts, elseTexts, rfl, hthen, helse⟩
      exact ⟨thenTexts, ihThen.2 hthen.symm, elseTexts, ihElse.2 helse.symm, rfl⟩
  | case2 expr hkind =>
    rw [candidates]
    · cases texts with
      | nil => simp
      | cons text texts => cases texts <;> simp
    · exact hkind

theorem candidates_eq_none_iff {format : Expr} :
    candidates format = none ↔ ∃ way leaf, LeafAt format way leaf ∧ leaf.constantText? = none := by
  constructor
  · intro h
    by_contra hall
    have htexts : ∀ x ∈ leaves format,
        x.2.constantText? = some (x.2.constantText?.getD "") := by
      rintro ⟨way, leaf⟩ hmem
      obtain ⟨text, htext⟩ := Option.ne_none_iff_exists'.1 fun hnone =>
        hall ⟨way, leaf, mem_leaves.1 hmem, hnone⟩
      rw [htext, Option.getD_some]
    have hsome : candidates format =
        some ((leaves format).map fun x => x.2.constantText?.getD "") := by
      rw [candidates_eq_some_iff, List.map_map]
      exact List.map_congr_left htexts
    rw [h] at hsome
    cases hsome
  · rintro ⟨way, leaf, hleaf, hnone⟩
    cases hcandidates : candidates format with
    | none => rfl
    | some texts =>
      have hmem : none ∈ (leaves format).map fun x => x.2.constantText? :=
        List.mem_map.2 ⟨(way, leaf), mem_leaves.2 hleaf, hnone⟩
      rw [candidates_eq_some_iff.1 hcandidates] at hmem
      obtain ⟨text, -, heq⟩ := List.mem_map.1 hmem
      cases heq

/-! ## The first leaf with a problem -/

section Problems

variable {format : Expr} {texts : List String} {problem? : String → Option CallProblem}
  {problem : CallProblem}

theorem findSome?_candidates (h : candidates format = some texts) :
    texts.findSome? problem? =
      (leaves format).findSome? fun x => x.2.constantText?.bind problem? := by
  have hwrapped : texts.findSome? problem? = (texts.map some).findSome? (·.bind problem?) := by
    rw [List.findSome?_map]
    rfl
  rw [hwrapped, ← candidates_eq_some_iff.1 h, List.findSome?_map]
  rfl

/-- What is found first, in the order of the source. -/
theorem findSome?_candidates_eq_some_iff (h : candidates format = some texts) :
    texts.findSome? problem? = some problem ↔
      ∃ way text, TextAt format way text ∧ problem? text = some problem ∧
        ∀ way' text', TextAt format way' text' → Precedes way' way → problem? text' = none := by
  have hordered := pairwise_leaves format
  rw [findSome?_candidates h, List.findSome?_eq_some_iff]
  constructor
  · rintro ⟨before, ⟨way, leaf⟩, after, hleaves, hproblem, hbefore⟩
    obtain ⟨text, htext, hproblem⟩ := Option.bind_eq_some_iff.1 hproblem
    refine ⟨way, text, ⟨leaf, mem_leaves.1 (by simp [hleaves]), htext⟩, hproblem, ?_⟩
    rintro way' text' ⟨leaf', hleaf', htext'⟩ hprecedes
    -- a leaf that comes first stands before the one that was found
    have hmem := mem_leaves.2 hleaf'
    rw [hleaves, List.pairwise_append, List.pairwise_cons] at hordered
    rw [hleaves, List.mem_append, List.mem_cons] at hmem
    rcases hmem with hmem | heq | hmem
    · simpa [htext'] using hbefore _ hmem
    · cases heq
      exact absurd hprecedes hprecedes.asymm
    · exact absurd (hordered.2.1.1 _ hmem) hprecedes.asymm
  · rintro ⟨way, text, ⟨leaf, hleaf, htext⟩, hproblem, hfirst⟩
    obtain ⟨before, after, hleaves⟩ := List.append_of_mem (mem_leaves.2 hleaf)
    refine ⟨before, (way, leaf), after, hleaves, by simp [htext, hproblem], ?_⟩
    rintro ⟨way', leaf'⟩ hmem
    have hmem' : (way', leaf') ∈ leaves format := by simp [hleaves, hmem]
    rw [hleaves, List.pairwise_append] at hordered
    have hprecedes : Precedes way' way := hordered.2.2 _ hmem _ List.mem_cons_self
    rw [Option.bind_eq_none_iff]
    exact fun text' htext' => hfirst way' text' ⟨leaf', mem_leaves.1 hmem', htext'⟩ hprecedes

theorem findSome?_candidates_eq_none_iff (h : candidates format = some texts) :
    texts.findSome? problem? = none ↔
      ∀ way text, TextAt format way text → problem? text = none := by
  rw [findSome?_candidates h, List.findSome?_eq_none_iff]
  constructor
  · rintro hnone way text ⟨leaf, hleaf, htext⟩
    simpa [htext] using hnone _ (mem_leaves.2 hleaf)
  · rintro hnone ⟨way, leaf⟩ hmem
    rw [Option.bind_eq_none_iff]
    exact fun text htext => hnone way text ⟨leaf, mem_leaves.1 hmem, htext⟩

end Problems

/-! ## The main result -/

/-- The argument is tried with its sample, or with `null` if it has none. -/
def TriedAs (hierarchy : Hierarchy) (argument : Expr) (sample : Sample) : Prop :=
  Sample.ofExpr hierarchy argument = .ok sample ∨
    (∃ error, Sample.ofExpr hierarchy argument = .error error) ∧ sample = .null

theorem triedAs_ofExprOrNull (hierarchy : Hierarchy) (argument : Expr) :
    TriedAs hierarchy argument (Sample.ofExprOrNull hierarchy argument) := by
  unfold TriedAs Sample.ofExprOrNull
  cases Sample.ofExpr hierarchy argument with
  | ok sample => exact Or.inl rfl
  | error error => exact Or.inr ⟨⟨error, rfl⟩, rfl⟩

/-- **Formats are checked leaf by leaf.** A call that passes a format never fails to be
checked, whatever the types of its arguments. Let the format be no matcher of mocked
calls and the arguments not come in one array, and take a sample of each argument, `null`
where there is none. If every leaf of the format is a text, then a problem is found exactly
if it is that of the first leaf in the source that has one, and none is found exactly if no
leaf has one. If some leaf is no text, none is found. -/
theorem checkCall_leaf_by_leaf (hierarchy : Hierarchy) (method : Option Method) (format : Expr)
    (rest : List Expr) :
    (∃ result, checkCall hierarchy method (format :: rest) = .ok result) ∧
    (isMatcher format = false → passesArray method rest = false →
      ∃ samples, List.Forall₂ (TriedAs hierarchy) rest samples ∧
        ((∀ way leaf, LeafAt format way leaf → ∃ text, leaf.constantText? = some text) →
          (∀ problem, checkCall hierarchy method (format :: rest) = .ok (some problem) ↔
            ∃ way text, TextAt format way text ∧ checkCandidate samples text = some problem ∧
              ∀ way' text', TextAt format way' text' → Precedes way' way →
                checkCandidate samples text' = none) ∧
          (checkCall hierarchy method (format :: rest) = .ok none ↔
            ∀ way text, TextAt format way text → checkCandidate samples text = none)) ∧
        ((∃ way leaf, LeafAt format way leaf ∧ leaf.constantText? = none) →
          checkCall hierarchy method (format :: rest) = .ok none)) := by
  refine ⟨⟨_, checkCall_cons⟩, fun hmatcher harray =>
    ⟨rest.map (Sample.ofExprOrNull hierarchy), ?_, fun htexts => ?_, fun hleaf => ?_⟩⟩
  · rw [List.forall₂_map_right_iff, List.forall₂_same]
    exact fun argument _ => triedAs_ofExprOrNull hierarchy argument
  · have hcandidates : candidates format ≠ none := by
      rw [Ne, candidates_eq_none_iff]
      rintro ⟨way, leaf, hleaf, hnone⟩
      obtain ⟨text, htext⟩ := htexts way leaf hleaf
      rw [hnone] at htext
      cases htext
    obtain ⟨texts, htexts⟩ := Option.ne_none_iff_exists'.1 hcandidates
    simp only [checkCall_cons, harray, listedProblem?, hmatcher, htexts, Option.bind_some,
      Bool.false_eq_true, if_false, Except.ok.injEq]
    exact ⟨fun problem => findSome?_candidates_eq_some_iff htexts,
      findSome?_candidates_eq_none_iff htexts⟩
  · rw [checkCall_cons, harray, listedProblem?, hmatcher, candidates_eq_none_iff.2 hleaf]
    rfl

/-- A string literal. -/
def literal (text : String) : Expr where
  kind := .literal
  type := some (.ofClass Hierarchy.stringClass)
  constant := some (.string text)
  source := text

/-- `a ? (b ? "%s %s" : "%d %s") : "%s"`; that the outer one is a constant does not matter. -/
def nestedFormat : Expr where
  kind := .conditional
    ⟨.conditional (literal "%s %s") (literal "%d %s"), none, none, "b ? \"%s %s\" : \"%d %s\""⟩
    (literal "%s")
  type := none
  constant := some (.string "%f")
  source := "a ? (b ? \"%s %s\" : \"%d %s\") : \"%s\""

/-- A lazy argument of which it is not known what it gives. -/
def rawLazyArgument : Expr where
  kind := .other
  type := some (.ofClass Sample.lazyArgument)
  constant := none
  source := "lazy"

theorem leaves_nestedFormat : leaves nestedFormat =
    [([.whenTrue, .whenTrue], literal "%s %s"), ([.whenTrue, .whenFalse], literal "%d %s"),
      ([.whenFalse], literal "%s")] := by
  simp [nestedFormat, leaves, literal]

/-- The first leaf accepts the arguments; what is wrong with the second is reported, and
the third has one argument too many. -/
theorem checkCall_leaf_by_leaf_nested :
    isMatcher nestedFormat = false ∧
    passesArray none [literal "x", rawLazyArgument] = false ∧
    (∀ way leaf, LeafAt nestedFormat way leaf → ∃ text, leaf.constantText? = some text) ∧
    checkCall .platform none [nestedFormat, literal "x", rawLazyArgument] =
      .ok (some (.format (.illegalConversion 'd' Hierarchy.stringClass))) := by
  have htexts : ∀ way leaf, LeafAt nestedFormat way leaf →
      ∃ text, leaf.constantText? = some text := by
    intro way leaf hleaf
    rw [← mem_leaves, leaves_nestedFormat] at hleaf
    have htext : ∀ x ∈ [([Arm.whenTrue, .whenTrue], literal "%s %s"),
        ([.whenTrue, .whenFalse], literal "%d %s"), ([.whenFalse], literal "%s")],
        ∃ text, x.2.constantText? = some text := by
      simp [literal, Expr.constantText?, Constant.text?]
    exact htext _ hleaf
  refine ⟨rfl, rfl, htexts, ?_⟩
  obtain ⟨samples, hsamples, hchecked, -⟩ := (checkCall_leaf_by_leaf .platform none nestedFormat
    [literal "x", rawLazyArgument]).2 rfl rfl
  have hliteral : Sample.ofExpr .platform (literal "x") = .ok (.string "x") := rfl
  have hlazy : Sample.ofExpr .platform rawLazyArgument = .error .lazyWithoutArgument := by
    simp [Sample.ofExpr, rawLazyArgument, Sample.ofType]
  obtain rfl : samples = [.string "x", .null] := by
    obtain _ | ⟨hfirst, _ | ⟨hsecond, ⟨⟩⟩⟩ := hsamples
    simp only [TriedAs, hliteral, hlazy] at hfirst hsecond
    simp_all
  rw [(hchecked htexts).1]
  refine ⟨[.whenTrue, .whenFalse], "%d %s", ⟨literal "%d %s", ?_, rfl⟩, by decide +kernel, ?_⟩
  · rw [← mem_leaves, leaves_nestedFormat]
    simp
  · rintro way text ⟨leaf, hleaf, htext⟩ hprecedes
    rw [← mem_leaves, leaves_nestedFormat] at hleaf
    simp only [List.mem_cons, Prod.mk.injEq, List.not_mem_nil, or_false] at hleaf
    rcases hleaf with ⟨rfl, rfl⟩ | ⟨rfl, rfl⟩ | ⟨rfl, rfl⟩
    · cases htext
      decide +kernel
    · exact absurd hprecedes hprecedes.asymm
    · exact absurd hprecedes (Precedes.asymm ⟨[], [.whenFalse], [], rfl, rfl⟩)

end JvmLint.Format
