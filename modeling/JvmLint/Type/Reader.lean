import JvmLint.Type.Descriptor

/-!
# Reading descriptors

The reader that the program runs with. It takes one descriptor from the front of a
text and ignores what follows.

* `Descriptor.reader`: the reader.
* `JavaType.parse`, `MethodType.parse`: the types that a text spells.
-/
namespace JvmLint

/-- Why a text is no descriptor. -/
inductive DescriptorError where
  | endOfInput
  | closingParenthesis
  | arrayOfClosingParenthesis
  | missingSemicolon
  | unknownType
  | tooManyDimensions
  | noParameterList
  | noReturnType
  deriving DecidableEq, Repr

namespace DescriptorError

def message : DescriptorError → String
  | endOfInput => "Unexpected end of input."
  | closingParenthesis => "Invalid descriptor: Invalid descriptor"
  | arrayOfClosingParenthesis => "Invalid descriptor: Invalid descriptor."
  | missingSemicolon => "Invalid descriptor: Missing semicolon in class name descriptor."
  | unknownType => "Invalid descriptor: Unrecognized type descriptor."
  | tooManyDimensions => "Array has too many dimensions."
  | noParameterList => "Invalid descriptor: Method descriptor must start with '('."
  | noReturnType => "Invalid descriptor: Missing return type."

end DescriptorError

namespace Descriptor

/-- Reads a type that is no array; the letter in front decides. -/
def readElement : List Char → Except DescriptorError (TypeDescriptor × List Char)
  | [] => .error .endOfInput
  | c :: rest =>
    if c = ')' then .error .closingParenthesis
    else if c = 'L' then
      match rest.dropWhile (· != ';') with
      | [] => .error .missingSemicolon
      | _ :: rest' => .ok (.object (String.ofList (rest.takeWhile (· != ';'))), rest')
    else
      match letters.find? (·.1 == c) with
      | some (_, type) => .ok (type, rest)
      | none => .error .unknownType

/-- Reads one type from the front of the text. The array levels are counted
before the element is looked at. -/
def read (text : List Char) : Except DescriptorError (TypeDescriptor × List Char) :=
  let dimensions := (text.takeWhile (· == '[')).length
  if maxDimensions < dimensions then .error .tooManyDimensions
  else
    match readElement (text.dropWhile (· == '[')) with
    | .ok (element, rest) =>
      .ok (if dimensions = 0 then element else .array element dimensions, rest)
    | .error .closingParenthesis =>
      .error (if dimensions = 0 then .closingParenthesis else .arrayOfClosingParenthesis)
    | .error e => .error e

theorem readElement_length {text rest : List Char} {type : TypeDescriptor}
    (h : readElement text = .ok (type, rest)) : rest.length < text.length := by
  cases text with
  | nil => cases h
  | cons c cs =>
    simp only [readElement] at h
    have drop_le := (List.dropWhile_sublist (l := cs) (· != ';')).length_le
    simp only [List.length_cons]
    split at h
    · cases h
    · split at h
      · split at h
        · cases h
        · rename_i eq
          cases h
          rw [eq, List.length_cons] at drop_le
          omega
      · split at h <;> cases h
        omega

/-- Reading a type uses up at least one character. -/
theorem read_length {text rest : List Char} {type : TypeDescriptor}
    (h : read text = .ok (type, rest)) : rest.length < text.length := by
  have drop_le := (List.dropWhile_sublist (l := text) (· == '[')).length_le
  simp only [read] at h
  split at h
  · cases h
  · split at h
    · rename_i element rest' eq
      cases h
      exact Nat.lt_of_lt_of_le (readElement_length eq) drop_le
    · cases h
    · cases h

/-- Reads types up to the closing parenthesis, which is consumed too. -/
def readParameters (text : List Char) :
    Except DescriptorError (List TypeDescriptor × List Char) :=
  match text with
  | ')' :: rest => .ok ([], rest)
  | text =>
    match _h : read text with
    | .error e => .error e
    | .ok (type, rest) =>
      match readParameters rest with
      | .error e => .error e
      | .ok (types, rest') => .ok (type :: types, rest')
termination_by text.length
decreasing_by exact read_length _h

/-- Reads a list of parameter types and one return type. -/
def readMethod : List Char → Except DescriptorError MethodDescriptor
  | '(' :: text =>
    match readParameters text with
    | .error e => .error e
    | .ok (_, ')' :: _) => .error .noReturnType
    | .ok (parameterTypes, rest) =>
      match read rest with
      | .error e => .error e
      | .ok (returnType, _) => .ok { parameterTypes, returnType }
  | _ => .error .noParameterList

/-- The reader that the program runs with. -/
def reader : Reader DescriptorError where
  type text := (read text.toList).map Prod.fst
  method text := readMethod text.toList

end Descriptor

namespace JavaType

/-- Reads a type from its descriptor; the word `null` is the null type. -/
def parse (text : String) : Except DescriptorError JavaType :=
  parseWith Descriptor.reader text

/-- What is reported for a text that is no type descriptor. -/
def parseErrorMessage (text : String) (error : DescriptorError) : String :=
  "parse type descriptor " ++ text ++ ": " ++ error.message

end JavaType

namespace MethodType

/-- Reads the types of a method from its descriptor. -/
def parse (text : String) : Except DescriptorError MethodType :=
  parseWith Descriptor.reader text

/-- What is reported for a text that is no method descriptor. -/
def parseErrorMessage (error : DescriptorError) : String :=
  "parse method descriptor: " ++ error.message

end MethodType

end JvmLint
