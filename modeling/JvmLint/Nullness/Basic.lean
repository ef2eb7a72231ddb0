/-!
# Nullness

What is known of whether a value is null. The four values form the lattice
`bottom < {null, nonNull} < nullable`: a smaller value says more.
-/
namespace JvmLint

inductive Nullness where
  /-- No value at all: the code is not reached, or always throws. -/
  | bottom
  | null
  | nonNull
  /-- Either, or unknown. -/
  | nullable
  deriving DecidableEq, Repr

namespace Nullness

/-- The least upper bound: what holds of a value that is one or the other. -/
def join : Nullness → Nullness → Nullness
  | bottom, b => b
  | a, bottom => a
  | null, null => null
  | nonNull, nonNull => nonNull
  | _, _ => nullable

/-- The greatest lower bound: what holds of a value that is both. -/
def meet : Nullness → Nullness → Nullness
  | nullable, b => b
  | a, nullable => a
  | null, null => null
  | nonNull, nonNull => nonNull
  | _, _ => bottom

/-- What is known of a value that differs from one of this nullness: only from
a definite null can anything be learned. -/
def whenNotEqual : Nullness → Nullness
  | bottom => bottom
  | null => nonNull
  | nonNull | nullable => nullable

instance : LE Nullness where
  le a b := a.join b = b

instance (a b : Nullness) : Decidable (a ≤ b) :=
  inferInstanceAs (Decidable (a.join b = b))

def text : Nullness → String
  | bottom => "Bottom (always throws)"
  | null => "Null"
  | nonNull => "Non-null"
  | nullable => "Nullable"

end Nullness

end JvmLint
