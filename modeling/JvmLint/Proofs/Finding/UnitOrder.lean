import JvmLint.Proofs.Finding.Completeness
import JvmLint.Proofs.Type.Subclass
import Mathlib.Data.List.Perm.Basic

/-!
# The order of units

All units share one class hierarchy, which the checks of formats ask for subtypes only.
Hierarchies that order classes alike make no difference to a check
(`Format.checkStrictCall_congr`, `Rule.findings_congr`), and the order of classes does not
depend on which unit declares a class, when, or how often
(`Hierarchy.sameOrder_ofUnits`).

So the order of the units does not matter, nor does it matter which unit declares a class
(`analyzeUnits_order`).
-/
namespace JvmLint

/-! ## Checks of formats -/

namespace Format

variable {hierarchy hierarchy' : Hierarchy} (h : hierarchy.SameOrder hierarchy')
include h

theorem Sample.ofErasure_congr (type : JavaType) :
    ofErasure hierarchy type = ofErasure hierarchy' type := by
  simp only [ofErasure, h.isSubtype_eq]

theorem Sample.ofType_congr (type : JavaType) :
    ofType hierarchy type = ofType hierarchy' type := by
  fun_induction ofType hierarchy type with
  | case1 => rfl
  | case2 => rfl
  | case3 => rfl
  | case4 argument _ ih => exact ih
  | case5 name arguments hname =>
    unfold ofType
    simp only [if_neg hname, ofErasure_congr h]
  | case6 type hnull hvoid hobject => rw [ofType, ofErasure_congr h] <;> assumption

theorem Sample.ofExprOrNull_congr : ofExprOrNull hierarchy = ofExprOrNull hierarchy' := by
  funext expr
  simp only [ofExprOrNull, ofExpr, ofType_congr h]

theorem checkCall_congr (method : Option Method) (arguments : List Expr) :
    checkCall hierarchy method arguments = checkCall hierarchy' method arguments := by
  simp only [checkCall, Sample.ofExprOrNull_congr h]

theorem checkStrictCall_congr (method : Option Method) (arguments : List Expr)
    (scope : List LocalDeclaration) :
    checkStrictCall hierarchy method arguments scope =
      checkStrictCall hierarchy' method arguments scope := by
  simp only [checkStrictCall, checkKnown, checkLocal, checkCall_congr h]

end Format

/-! ## Hierarchies of units -/

/-- Two lists of units that declare the same classes. -/
def SameClasses (units units' : List SourceUnit) : Prop :=
  ∀ entry, entry ∈ units.flatMap SourceUnit.classes ↔ entry ∈ units'.flatMap SourceUnit.classes

theorem Hierarchy.sameOrder_ofUnits {units units' : List SourceUnit}
    (h : SameClasses units units') : (ofUnits units).SameOrder (ofUnits units') :=
  sameOrder_extend h

theorem Rule.findings_congr {hierarchy hierarchy' : Hierarchy}
    (h : hierarchy.SameOrder hierarchy') (rule : Rule) :
    rule.findings hierarchy = rule.findings hierarchy' := by
  funext unit
  cases rule with
  | formatString =>
    have hcall : Finding.ofPlainCall? hierarchy unit = Finding.ofPlainCall? hierarchy' unit := by
      funext call
      simp only [Finding.ofPlainCall?, Format.checkCall_congr h]
    simp only [findings, SourceUnit.formatStringFindings, hcall]
  | formatMethod =>
    have hcall : Finding.ofStrictCall? hierarchy unit = Finding.ofStrictCall? hierarchy' unit := by
      funext call
      simp only [Finding.ofStrictCall?, Format.checkStrictCall_congr h]
    simp only [findings, SourceUnit.formatAnnotationFindings, hcall]
  | nullDereference => rfl
  | redundantNullCheck => rfl

theorem Rule.found_congr {hierarchy hierarchy' : Hierarchy}
    (h : hierarchy.SameOrder hierarchy') (rule : Rule) :
    rule.found hierarchy = rule.found hierarchy' := by
  funext unit
  simp only [found, findings_congr h]

/-! ## Two runs -/

/-- The unit without its classes. -/
def SourceUnit.withoutClasses (unit : SourceUnit) : SourceUnit := { unit with classes := [] }

theorem Rule.findings_withoutClasses (hierarchy : Hierarchy) (rule : Rule) (unit : SourceUnit) :
    rule.findings hierarchy unit.withoutClasses = rule.findings hierarchy unit := by
  cases rule <;> rfl

theorem Rule.run_withoutClasses (hierarchy : Hierarchy) (rule : Rule) (units : List SourceUnit) :
    rule.run hierarchy (units.map SourceUnit.withoutClasses) = rule.run hierarchy units := by
  have hfindings : rule.findings hierarchy ∘ SourceUnit.withoutClasses = rule.findings hierarchy :=
    funext fun unit => rule.findings_withoutClasses hierarchy unit
  rw [run, run, List.mapM_map, hfindings]

/-- A class may be declared in any unit, and more than once. -/
theorem analyzeUnits_eq_of_sameClasses {units units' : List SourceUnit}
    (hclasses : SameClasses units units')
    (hrest : units.map SourceUnit.withoutClasses = units'.map SourceUnit.withoutClasses) :
    analyzeUnits units = analyzeUnits units' := by
  have hrun : Rule.run (.ofUnits units) units = Rule.run (.ofUnits units') units' := by
    funext rule
    calc rule.run (.ofUnits units) units
      _ = rule.run (.ofUnits units) (units.map SourceUnit.withoutClasses) :=
        (rule.run_withoutClasses _ units).symm
      _ = rule.run (.ofUnits units) units' := by rw [hrest, Rule.run_withoutClasses]
      _ = rule.run (.ofUnits units') units' := by
        simp only [Rule.run, Rule.findings_congr (Hierarchy.sameOrder_ofUnits hclasses)]
  simp only [analyzeUnits, hrun]

/-- The findings of all rules on all units, before they are sorted. -/
theorem perm_flatMap_found {units units' : List SourceUnit} (h : units.Perm units') :
    (Rule.all.flatMap fun rule => (units.map (rule.found (.ofUnits units))).flatten).Perm
      (Rule.all.flatMap fun rule => (units'.map (rule.found (.ofUnits units'))).flatten) := by
  have hclasses : SameClasses units units' := fun entry => (h.flatMap_right _).mem_iff
  have hfound := Rule.found_congr (Hierarchy.sameOrder_ofUnits hclasses)
  apply List.Perm.flatMap_left
  intro rule _
  rw [hfound rule]
  exact (h.map _).flatten

theorem exists_perm_of_perm {units units' : List SourceUnit} (h : units.Perm units')
    (hends : ∀ unit ∈ units, unit.RunsEnd) :
    ∃ found found', analyzeUnits units = .ok found ∧ analyzeUnits units' = .ok found' ∧
      found.Perm found' := by
  have hends' : ∀ unit ∈ units', unit.RunsEnd := fun unit hunit => hends unit (h.mem_iff.2 hunit)
  refine ⟨_, _, analyzeUnits_eq_ok hends, analyzeUnits_eq_ok hends', ?_⟩
  have hsort : ∀ findings, (Finding.sort findings).Perm findings := fun findings =>
    List.mergeSort_perm findings _
  exact (hsort _).trans ((perm_flatMap_found h).trans (hsort _).symm)

/-- **The order of the units does not matter**, nor does the place of a class. On the same
units in another order the same findings are reported, each as often. On units that differ
only in which of them declares a class, or how often, the answer is the same. -/
theorem analyzeUnits_order (units units' : List SourceUnit) :
    (units.Perm units' → (∀ unit ∈ units, unit.RunsEnd) →
      ∃ found found', analyzeUnits units = .ok found ∧ analyzeUnits units' = .ok found' ∧
        found.Perm found') ∧
    (units.map SourceUnit.withoutClasses = units'.map SourceUnit.withoutClasses →
      SameClasses units units' → analyzeUnits units = analyzeUnits units') :=
  ⟨exists_perm_of_perm, fun hrest hclasses => analyzeUnits_eq_of_sameClasses hclasses hrest⟩

/-- A unit that formats an amount with two digits after the point. -/
def priceUnit (classes : List ClassEntry) : SourceUnit where
  sourceFile := "Price.java"
  classes
  bodies := [literalBody "m"]
  formatCalls := [⟨none, [stringLiteral "%.2f",
    ⟨.other, some (.ofClass "shop.Amount"), none, "amount"⟩], false, [], none, none⟩]
  methods := []

/-- The class of amounts, which are decimal numbers. -/
def amountClass : ClassEntry := ⟨"shop.Amount", some "java.math.BigDecimal", []⟩

theorem analyzeUnits_order_amount :
    (∃ found found', analyzeUnits [priceUnit [amountClass], twoBodies "m" "n"] = .ok found ∧
      analyzeUnits [twoBodies "m" "n", priceUnit [amountClass]] = .ok found' ∧
        found.Perm found') ∧
    analyzeUnits [priceUnit [amountClass], twoBodies "m" "n"] =
      analyzeUnits [priceUnit [],
        { twoBodies "m" "n" with classes := [amountClass, amountClass] }] := by
  have hends : ∀ unit ∈ [priceUnit [amountClass], twoBodies "m" "n"], unit.RunsEnd := by
    unfold SourceUnit.RunsEnd
    decide +kernel
  have hclasses : SameClasses [priceUnit [amountClass], twoBodies "m" "n"]
      [priceUnit [], { twoBodies "m" "n" with classes := [amountClass, amountClass] }] := by
    intro entry
    simp [priceUnit, twoBodies]
  exact ⟨(analyzeUnits_order _ _).1 (List.Perm.swap _ _ _) hends,
    (analyzeUnits_order _ _).2 rfl hclasses⟩

end JvmLint
