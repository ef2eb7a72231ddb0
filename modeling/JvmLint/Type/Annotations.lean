/-!
# Annotations

An annotation is known by its simple name: `@javax.annotation.Nullable`,
`Ljavax/annotation/Nullable;` and `Outer$Nullable` all read as `Nullable`.
-/
namespace JvmLint.Annotations

/-- The characters that end a qualifier. -/
def isSeparator (c : Char) : Bool :=
  c == '.' || c == '$' || c == '/'

/-- The part after the last separator, without leading `@` and trailing `;`. -/
def simpleName (written : String) : String :=
  let name := written.toList.dropWhile (· == '@')
  let lastPart := name.reverse.takeWhile (!isSeparator ·)
  String.ofList (lastPart.dropWhile (· == ';')).reverse

/-- Whether one of the annotations has this simple name. -/
def mem (name : String) (annotations : List String) : Bool :=
  annotations.any (simpleName · == name)

end JvmLint.Annotations
