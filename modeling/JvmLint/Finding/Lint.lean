import JvmLint.Finding.Format
import JvmLint.Finding.Null

/-!
# All rules on all units

Every rule sees every unit. The class hierarchy is that of the platform and of
all units together.
-/
namespace JvmLint

/-- The hierarchy that the classes of all units make up. -/
def Hierarchy.ofUnits (units : List SourceUnit) : Hierarchy :=
  platform.extend (units.flatMap SourceUnit.classes)

/-- The findings of a rule in one unit, or the question that has no answer. -/
def Rule.findings (hierarchy : Hierarchy) (rule : Rule) (unit : SourceUnit) :
    Except QueryError (List Finding) :=
  match rule with
  | formatString => .ok (unit.formatStringFindings hierarchy)
  | formatMethod => .ok (unit.formatAnnotationFindings hierarchy)
  | nullDereference => unit.runNullDereference
  | redundantNullCheck => unit.runRedundantCheck

/-- The findings of a rule in all units, in the order of the units. -/
def Rule.run (hierarchy : Hierarchy) (units : List SourceUnit) (rule : Rule) :
    Except QueryError (List Finding) :=
  (units.mapM (rule.findings hierarchy)).map List.flatten

/-- The findings of all rules, sorted, or a question that has no answer. -/
def analyzeUnits (units : List SourceUnit) : Except QueryError (List Finding) :=
  (Rule.all.mapM (Rule.run (.ofUnits units) units)).map fun findings =>
    Finding.sort findings.flatten

/-- The findings of all rules, sorted, if no question is left without an answer. -/
def lint (units : List SourceUnit) : Option (List Finding) :=
  (analyzeUnits units).toOption

end JvmLint
