/-!
# Findings

The rules that units are checked by, and what they report.
-/
namespace JvmLint

/-- The rules, in the order of their ids. -/
inductive Rule where
  | formatString
  | formatMethod
  | nullDereference
  | redundantNullCheck
  deriving DecidableEq, Repr

namespace Rule

def all : List Rule :=
  [formatString, formatMethod, nullDereference, redundantNullCheck]

def id : Rule → String
  | formatString => "FORMAT_STRING"
  | formatMethod => "FORMAT_STRING_ANNOTATION"
  | nullDereference => "NULL_DEREFERENCE"
  | redundantNullCheck => "REDUNDANT_NULL_CHECK"

def title : Rule → String
  | formatString => "Invalid format string"
  | formatMethod => "Invalid @FormatMethod call"
  | nullDereference => "Null dereference"
  | redundantNullCheck => "Redundant null check"

def description : Rule → String
  | formatString => "Format string would throw or ignore arguments when formatted"
  | formatMethod =>
    "Format strings passed to @FormatMethod methods must be provably valid"
  | nullDereference => "Field read or method call on a value that is always null"
  | redundantNullCheck => "Comparison against null of a value that is never null"

end Rule

/-- One report of a rule. -/
structure Finding where
  rule : Rule
  sourceFile : String
  /-- The method or body around the place, if known. -/
  enclosing : Option String
  line : Option Nat
  message : String
  deriving DecidableEq, Repr

namespace Finding

/-- By rule id, then by message. -/
def order (a b : Finding) : Ordering :=
  (compare a.rule.id b.rule.id).then (compare a.message b.message)

/-- Sorts findings; those of one rule and message stay in their order. -/
def sort (findings : List Finding) : List Finding :=
  findings.mergeSort fun a b => (order a b).isLE

end Finding

end JvmLint
