import JvmLint.Nullness.Basic
import JvmLint.Unit.Body

/-!
# Policies

What an analysis believes of declarations that it cannot see into.
-/
namespace JvmLint

namespace Annotations

/-- Simple names of annotations that allow null. -/
def nullableNames : List String :=
  ["Nullable", "NullableDecl", "RecentlyNullable", "CheckForNull", "PolyNull", "MonotonicNonNull"]

/-- Simple names of annotations that exclude null. -/
def nonNullNames : List String :=
  ["NonNull", "NonNullDecl", "Nonnull", "NotNull", "RecentlyNonNull"]

/-- What one annotation declares. -/
def nullness? (written : String) : Option Nullness :=
  if nullableNames.contains (simpleName written) then some .nullable
  else if nonNullNames.contains (simpleName written) then some .nonNull
  else none

/-- What several annotations declare together: all that each of them does. -/
def declaredNullness (annotations : List String) : Option Nullness :=
  match annotations.filterMap nullness? with
  | [] => none
  | value :: rest => some (rest.foldl Nullness.meet value)

end Annotations

inductive Policy where
  /-- Only the code and the facts about well-known members. -/
  | codeOnly
  /-- Annotations of methods, fields and parameters as well. -/
  | trusting
  /-- Only the code, and that the methods of these classes never return null. -/
  | nonNullReturns (owners : List String)
  deriving DecidableEq, Repr

namespace Policy

/-- The declared nullness of what a method returns. -/
def methodReturn : Policy → Method → Option Nullness
  | trusting, method => Annotations.declaredNullness method.annotations
  | _, _ => none

/-- The declared nullness of a field. -/
def field : Policy → Field → Option Nullness
  | trusting, field => Annotations.declaredNullness field.annotations
  | _, _ => none

/-- The nullness that a variable has on entry to the body. -/
def parameter : Policy → Variable → Option Nullness
  | trusting, declared =>
    if declared.kind = .parameter then Annotations.declaredNullness declared.annotations else none
  | _, _ => none

/-- Whether a method is believed never to return null. -/
def returnsNonNull : Policy → Method → Bool
  | nonNullReturns owners, method => owners.contains method.owner
  | _, _ => false

end Policy

end JvmLint
