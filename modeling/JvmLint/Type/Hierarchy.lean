import Std.Data.TreeMap
import JvmLint.Type.Basic

/-!
# The class hierarchy

A hierarchy holds, for each class it has an entry for, the names of its
declared direct supertypes. It starts from the platform's classes and grows by
declared entries; later entries only add supertypes, so contradictory, repeated
and circular declarations are all accepted.

* `Hierarchy.isSubclass`: the transitive closure of the declared steps, found by
  a search that expands each class at most once.
* `Hierarchy.isSubtype`: subtyping on types; type arguments play no part.
-/
namespace JvmLint

/-- A class with its declared direct supertypes. -/
structure ClassEntry where
  name : String
  superclass : Option String
  interfaces : List String
  deriving DecidableEq, Repr

/-- The declared direct supertypes, the superclass first. -/
def ClassEntry.parents (entry : ClassEntry) : List String :=
  entry.superclass.toList ++ entry.interfaces

/-- The declared direct supertypes of each known class. -/
structure Hierarchy where
  supertypes : Std.TreeMap String (List String)

namespace Hierarchy

def objectClass : String := "java.lang.Object"

def stringClass : String := "java.lang.String"

/-- The platform classes that the checks ask about. -/
def platformClasses : List (String × List String) := [
  ("java.lang.Object", []),
  ("java.lang.CharSequence", []),
  ("java.lang.Comparable", []),
  ("java.lang.Cloneable", []),
  ("java.io.Serializable", []),
  ("java.util.Formattable", []),
  ("java.lang.String",
    ["java.lang.CharSequence", "java.lang.Comparable", "java.io.Serializable"]),
  ("java.lang.Number", ["java.io.Serializable"]),
  ("java.lang.Boolean", ["java.lang.Comparable", "java.io.Serializable"]),
  ("java.lang.Character", ["java.lang.Comparable", "java.io.Serializable"]),
  ("java.lang.Byte", ["java.lang.Number", "java.lang.Comparable"]),
  ("java.lang.Short", ["java.lang.Number", "java.lang.Comparable"]),
  ("java.lang.Integer", ["java.lang.Number", "java.lang.Comparable"]),
  ("java.lang.Long", ["java.lang.Number", "java.lang.Comparable"]),
  ("java.lang.Float", ["java.lang.Number", "java.lang.Comparable"]),
  ("java.lang.Double", ["java.lang.Number", "java.lang.Comparable"]),
  ("java.math.BigDecimal", ["java.lang.Number", "java.lang.Comparable"]),
  ("java.math.BigInteger", ["java.lang.Number", "java.lang.Comparable"]),
  ("java.util.concurrent.atomic.AtomicInteger", ["java.lang.Number"]),
  ("java.util.concurrent.atomic.AtomicLong", ["java.lang.Number"]),
  ("java.lang.Enum", ["java.lang.Comparable", "java.io.Serializable"]),
  ("java.util.Date", ["java.io.Serializable", "java.lang.Cloneable", "java.lang.Comparable"]),
  ("java.sql.Date", ["java.util.Date"]),
  ("java.sql.Time", ["java.util.Date"]),
  ("java.sql.Timestamp", ["java.util.Date"]),
  ("java.util.Calendar",
    ["java.io.Serializable", "java.lang.Cloneable", "java.lang.Comparable"]),
  ("java.util.GregorianCalendar", ["java.util.Calendar"]),
  ("java.time.temporal.TemporalAccessor", []),
  ("java.time.temporal.TemporalAdjuster", []),
  ("java.time.temporal.Temporal", ["java.time.temporal.TemporalAccessor"]),
  ("java.time.chrono.ChronoLocalDateTime",
    ["java.time.temporal.Temporal", "java.time.temporal.TemporalAdjuster"]),
  ("java.time.chrono.ChronoLocalDate",
    ["java.time.temporal.Temporal", "java.time.temporal.TemporalAdjuster"]),
  ("java.time.chrono.ChronoZonedDateTime", ["java.time.temporal.Temporal"]),
  ("java.time.LocalDateTime", ["java.time.chrono.ChronoLocalDateTime"]),
  ("java.time.LocalDate", ["java.time.chrono.ChronoLocalDate"]),
  ("java.time.ZonedDateTime", ["java.time.chrono.ChronoZonedDateTime"]),
  ("java.time.LocalTime",
    ["java.time.temporal.Temporal", "java.time.temporal.TemporalAdjuster"]),
  ("java.time.Instant",
    ["java.time.temporal.Temporal", "java.time.temporal.TemporalAdjuster"]),
  ("java.time.OffsetDateTime",
    ["java.time.temporal.Temporal", "java.time.temporal.TemporalAdjuster"]),
  ("java.time.OffsetTime",
    ["java.time.temporal.Temporal", "java.time.temporal.TemporalAdjuster"]),
  ("java.time.Year",
    ["java.time.temporal.Temporal", "java.time.temporal.TemporalAdjuster"]),
  ("java.time.YearMonth",
    ["java.time.temporal.Temporal", "java.time.temporal.TemporalAdjuster"]),
  ("java.time.MonthDay",
    ["java.time.temporal.TemporalAccessor", "java.time.temporal.TemporalAdjuster"]),
  ("java.time.DayOfWeek", ["java.lang.Enum", "java.time.temporal.TemporalAccessor"]),
  ("java.time.Month", ["java.lang.Enum", "java.time.temporal.TemporalAccessor"])]

/-- The hierarchy of the platform classes. -/
def platform : Hierarchy :=
  ⟨Std.TreeMap.ofList platformClasses compare⟩

/-- Adds the parents that are not there yet, at the end. -/
def addParents (known parents : List String) : List String :=
  parents.foldl (fun known parent => if parent ∈ known then known else known ++ [parent]) known

/-- Declares one more entry. A class gets an entry even if it has no parents. -/
def declare (hierarchy : Hierarchy) (entry : ClassEntry) : Hierarchy :=
  ⟨hierarchy.supertypes.insert entry.name
    (addParents (hierarchy.supertypes.getD entry.name []) entry.parents)⟩

/-- Declares entries one after the other. -/
def extend (hierarchy : Hierarchy) (entries : List ClassEntry) : Hierarchy :=
  entries.foldl declare hierarchy

/-- The number of classes that have an entry. -/
def classCount (hierarchy : Hierarchy) : Nat :=
  hierarchy.supertypes.size

/-- The classes with an entry that the search has not expanded yet. -/
def unexpanded (hierarchy : Hierarchy) (seen : List String) : List String :=
  hierarchy.supertypes.keys.filter (· ∉ seen)

theorem length_unexpanded_lt {hierarchy : Hierarchy} {seen : List String} {name : String}
    (known : name ∈ hierarchy.supertypes) (fresh : name ∉ seen) :
    (hierarchy.unexpanded (name :: seen)).length < (hierarchy.unexpanded seen).length := by
  have sub : hierarchy.unexpanded (name :: seen) =
      (hierarchy.unexpanded seen).filter (· ≠ name) := by
    simp only [unexpanded, List.filter_filter]
    exact List.filter_congr fun other _ => by simp [not_or]
  rw [sub]
  apply List.length_filter_lt_length_iff_exists.mpr
  exact ⟨name, by simp [unexpanded, fresh, known], by simp⟩

/-- Breadth-first search for `target` among the supertypes of the classes in
`pending`; the classes in `seen` are expanded already. -/
def search (hierarchy : Hierarchy) (target : String) (pending seen : List String) : Bool :=
  match pending with
  | [] => false
  | name :: rest =>
    if _fresh : name ∉ seen then
      if _known : name ∈ hierarchy.supertypes then
        let parents := hierarchy.supertypes[name]
        parents.contains target || hierarchy.search target (rest ++ parents) (name :: seen)
      else hierarchy.search target rest seen
    else hierarchy.search target rest seen
termination_by ((hierarchy.unexpanded seen).length, pending.length)
decreasing_by
  · exact Prod.Lex.left _ _ (length_unexpanded_lt _known _fresh)
  · exact Prod.Lex.right _ (Nat.lt_succ_self _)
  · exact Prod.Lex.right _ (Nat.lt_succ_self _)

/-- Whether `sub` is `sup` or has it among its declared supertypes, direct or
not. Every class, known or not, is below `java.lang.Object`. -/
def isSubclass (hierarchy : Hierarchy) (sub sup : String) : Bool :=
  sub == sup || sup == objectClass || hierarchy.search sup [sub] []

/-- The class types that every array type is below. -/
def arraySupertypes : List String :=
  [objectClass, "java.lang.Cloneable", "java.io.Serializable"]

/-- Subtyping. Arrays of primitives are below themselves only, other arrays
follow their elements; `void` is below nothing. -/
def isSubtype (hierarchy : Hierarchy) : JavaType → JavaType → Bool
  | .null, sup => sup.isReference
  | .primitive sub, .primitive sup => sub.widensTo sup
  | .array _, .object name _ => arraySupertypes.contains name
  | .array sub, .array sup =>
    if sub.isPrimitive || sup.isPrimitive then sub == sup else hierarchy.isSubtype sub sup
  | .object sub _, .object sup _ => hierarchy.isSubclass sub sup
  | _, _ => false

end Hierarchy

end JvmLint
