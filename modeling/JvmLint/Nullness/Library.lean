/-!
# Facts about well-known library members

Members are named by class and method. An argument index may be negative and
then counts from the end of the argument list.
-/
namespace JvmLint.Library

/-- A fact about one argument of a method. -/
structure ArgumentFact where
  owner : String
  name : String
  index : Int
  deriving DecidableEq, Repr

/-- Calls that throw unless the argument is non-null. -/
def requiredNonNull : List ArgumentFact :=
  [⟨"java.util.Objects", "requireNonNull", 0⟩,
   ⟨"com.google.common.base.Preconditions", "checkNotNull", 0⟩,
   ⟨"com.google.common.base.Verify", "verifyNotNull", 0⟩,
   ⟨"junit.framework.Assert", "assertNotNull", -1⟩,
   ⟨"org.junit.Assert", "assertNotNull", -1⟩]

/-- Predicates that are true of every null argument. -/
def nullImpliesTrue : List ArgumentFact :=
  [⟨"com.google.common.base.Strings", "isNullOrEmpty", 0⟩,
   ⟨"android.text.TextUtils", "isEmpty", 0⟩]

/-- Predicates that are true of exactly the non-null arguments. -/
def nonNullIffTrue : List ArgumentFact :=
  [⟨"java.util.Objects", "nonNull", 0⟩]

/-- Predicates that are true of exactly the null arguments. -/
def nullIffTrue : List ArgumentFact :=
  [⟨"java.util.Objects", "isNull", 0⟩]

/-- The arguments of a method that a table names. -/
def indexes (table : List ArgumentFact) (owner name : String) : List Int :=
  (table.filter fun fact => fact.owner == owner && fact.name == name).map ArgumentFact.index

/-- The position that an index stands for among `count` arguments. -/
def resolveIndex (index : Int) (count : Nat) : Option Nat :=
  match index with
  | .ofNat i => if i < count then some i else none
  | .negSucc i => if i < count then some (count - (i + 1)) else none

/-- Classes whose static final fields are all non-null. -/
def nonNullConstantClasses : List String :=
  ["java.math.BigInteger", "java.math.BigDecimal",
   "com.google.common.primitives.UnsignedInteger", "com.google.common.primitives.UnsignedLong",
   "java.nio.charset.StandardCharsets"]

def hasNonNullConstants (owner : String) : Bool :=
  nonNullConstantClasses.contains owner

/-- Classes none of whose methods returns null. -/
def nonNullReturnClasses : List String :=
  ["com.google.common.base.Optional", "com.google.common.base.Preconditions",
   "com.google.common.base.Verify", "java.lang.String", "java.math.BigInteger",
   "java.math.BigDecimal", "com.google.common.primitives.UnsignedInteger",
   "com.google.common.primitives.UnsignedLong", "java.util.Objects"]

/-- Classes whose `valueOf` never returns null. -/
def nonNullValueOfClasses : List String :=
  ["java.lang.Boolean", "java.lang.Byte", "java.lang.Character", "java.lang.Double",
   "java.lang.Enum", "java.lang.Float", "java.lang.Integer", "java.lang.Long",
   "java.lang.Short", "java.lang.String"]

/-- Single methods that never return null. -/
def nonNullReturnMethods : List (String × String) :=
  [("com.google.common.io.Files", "toString"), ("java.lang.Class", "getName"),
   ("java.lang.Class", "getSimpleName"), ("java.lang.Class", "forName"),
   ("java.nio.charset.Charset", "forName")]

/-- Whether a method is known never to return null. -/
def returnsNonNull (owner name : String) : Bool :=
  (name == "valueOf" && nonNullValueOfClasses.contains owner)
    || nonNullReturnClasses.contains owner
    || nonNullReturnMethods.contains (owner, name)

end JvmLint.Library
