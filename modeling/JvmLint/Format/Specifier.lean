import JvmLint.Format.Flag

/-!
# Format specifiers

A specifier is `%`, an optional argument index, flags, a width, a precision, the
mark of a date or time conversion, and the conversion:

  `%(digits $)? [-#+ 0,(<]* digits* (. digits)? [tT]? [a-zA-Z%]`

`RawSpecifier.scan` cuts a text into these groups; `Specifier.ofRaw` gives them
their meaning and refuses flags, widths and precisions that do not go with the
conversion; `parse` reads all specifiers of a format.
-/
namespace JvmLint.Format

/-- The groups of a specifier as they are written. -/
structure RawSpecifier where
  index : Option (List Char)
  flags : List Char
  width : Option (List Char)
  precision : Option (List Char)
  dateTime : Option Char
  conversion : Char
  deriving DecidableEq, Repr

namespace RawSpecifier

def isFlagSymbol (c : Char) : Bool :=
  (Flag.ofSymbol? c).isSome

def isConversionSymbol (c : Char) : Bool :=
  c.isAlpha || c == '%'

/-- Digits and a dollar sign. -/
def scanIndex (text : List Char) : Option (List Char) × List Char :=
  match text.takeWhile Char.isDigit, text.dropWhile Char.isDigit with
  | [], _ => (none, text)
  | digits, '$' :: rest => (some digits, rest)
  | _, _ => (none, text)

/-- Digits, if there are any. -/
def scanWidth (text : List Char) : Option (List Char) × List Char :=
  match text.takeWhile Char.isDigit with
  | [] => (none, text)
  | digits => (some digits, text.dropWhile Char.isDigit)

/-- A point and digits. -/
def scanPrecision (text : List Char) : Option (List Char) × List Char :=
  match text with
  | '.' :: rest =>
    match rest.takeWhile Char.isDigit with
    | [] => (none, text)
    | digits => (some digits, rest.dropWhile Char.isDigit)
  | _ => (none, text)

/-- The letter `t` in either case, when a conversion follows it. -/
def scanDateTime (text : List Char) : Option Char × List Char :=
  match text with
  | mark :: conversion :: rest =>
    if (mark = 't' ∨ mark = 'T') ∧ isConversionSymbol conversion then
      (some mark, conversion :: rest)
    else (none, text)
  | _ => (none, text)

/-- Scans a specifier from behind its `%`, and gives the text behind it. -/
def scan (text : List Char) : Option (RawSpecifier × List Char) :=
  let (index, text) := scanIndex text
  let flags := text.takeWhile isFlagSymbol
  let (width, text) := scanWidth (text.dropWhile isFlagSymbol)
  let (precision, text) := scanPrecision text
  let (dateTime, text) := scanDateTime text
  match text with
  | conversion :: rest =>
    if isConversionSymbol conversion then
      some (⟨index, flags, width, precision, dateTime, conversion⟩, rest)
    else none
  | [] => none

theorem length_scanIndex (text : List Char) : (scanIndex text).2.length ≤ text.length := by
  have drop_le := (List.dropWhile_sublist (l := text) Char.isDigit).length_le
  unfold scanIndex
  split <;> simp_all
  omega

theorem length_scanWidth (text : List Char) : (scanWidth text).2.length ≤ text.length := by
  unfold scanWidth
  split
  · exact Nat.le_refl _
  · exact (List.dropWhile_sublist _).length_le

theorem length_scanPrecision (text : List Char) :
    (scanPrecision text).2.length ≤ text.length := by
  unfold scanPrecision
  split
  · split
    · exact Nat.le_refl _
    · exact Nat.le_succ_of_le (List.dropWhile_sublist _).length_le
  · exact Nat.le_refl _

theorem length_scanDateTime (text : List Char) : (scanDateTime text).2.length ≤ text.length := by
  unfold scanDateTime
  split
  · split
    · exact Nat.le_succ _
    · exact Nat.le_refl _
  · exact Nat.le_refl _

/-- A specifier has at least one character behind its `%`. -/
theorem length_scan {text rest : List Char} {raw : RawSpecifier}
    (h : scan text = some (raw, rest)) : rest.length < text.length := by
  simp only [scan] at h
  split at h
  · rename_i conversion rest' eq
    split at h
    · cases h
      have h₁ := length_scanIndex text
      have h₂ := (List.dropWhile_sublist (l := (scanIndex text).2) isFlagSymbol).length_le
      have h₃ := length_scanWidth ((scanIndex text).2.dropWhile isFlagSymbol)
      have h₄ := length_scanPrecision (scanWidth ((scanIndex text).2.dropWhile isFlagSymbol)).2
      have h₅ := length_scanDateTime
        (scanPrecision (scanWidth ((scanIndex text).2.dropWhile isFlagSymbol)).2).2
      rw [eq, List.length_cons] at h₅
      omega
    · cases h
  · cases h

end RawSpecifier

/-- Which argument a specifier formats. -/
inductive ArgumentRef where
  /-- None at all. -/
  | nothing
  /-- The next one in order. -/
  | next
  /-- The one that was formatted last. -/
  | previous
  /-- The one at a position, counted from one. -/
  | explicit (position : Nat)
  deriving DecidableEq, Repr

/-- A specifier with its meaning. The conversion is in lower case, except that
of a date or time. -/
structure Specifier where
  argument : ArgumentRef
  flags : Flags
  width : Option Nat
  precision : Option Nat
  dateTime : Bool
  conversion : Char
  deriving DecidableEq, Repr

/-- The specifier as messages show it. -/
def Specifier.text (specifier : Specifier) : String :=
  String.ofList ('%' :: specifier.flags.symbols Flag.written ++ index ++ width ++ precision ++
    mark ++ [conversion])
where
  digits (n : Nat) : List Char := Nat.toDigits 10 n
  index : List Char :=
    match specifier.argument with
    | .explicit position => digits position ++ ['$']
    | _ => []
  width : List Char := (specifier.width.map digits).getD []
  precision : List Char := (specifier.precision.map fun n => '.' :: digits n).getD []
  mark : List Char :=
    if specifier.dateTime then [if specifier.flags.uppercase then 'T' else 't'] else []
  conversion : Char :=
    if specifier.flags.uppercase then specifier.conversion.toUpper else specifier.conversion

/-- Why a format, or a format with its arguments, is refused. -/
inductive FormatError where
  | duplicateFlag (symbol : Char)
  | flagMismatch (conversion : Char) (flag : Flag)
  | illegalCodePoint (code : Int)
  | illegalConversion (conversion : Char) (argumentClass : String)
  | illegalFlags (flags : Flags)
  /-- Without a number: one that is too large. -/
  | illegalPrecision (precision : Option Nat)
  /-- Without a number: one that is too large. -/
  | illegalWidth (width : Option Nat)
  | missingArgument (specifier : Specifier)
  | missingWidth (specifier : Specifier)
  | unknownConversion (text : List Char)
  | zeroIndex
  | indexTooLarge
  deriving DecidableEq, Repr

namespace FormatError

/-- The number shown for a width or precision that is too large. -/
def tooLargeText : String := "-2147483648"

def numberText : Option Nat → String
  | some n => toString n
  | none => tooLargeText

/-- A code point in hexadecimal; negative ones as 32-bit words. -/
def codePointText (code : Int) : String :=
  String.ofList (Nat.toDigits 16 (code % 0x100000000).toNat)

def message : FormatError → String
  | duplicateFlag symbol => "duplicate format flags: " ++ symbol.toString
  | flagMismatch conversion flag =>
    "format specifier '%" ++ conversion.toString ++
      "' is not compatible with the given flag(s): " ++ flag.symbol.toString
  | illegalCodePoint code => "invalid Unicode code point: " ++ codePointText code
  | illegalConversion conversion argumentClass =>
    "illegal format conversion: '" ++ argumentClass ++ "' cannot be formatted using '%" ++
      conversion.toString ++ "'"
  | illegalFlags flags => "illegal format flags: " ++ flags.text
  | illegalPrecision precision => "illegal format precision: " ++ numberText precision
  | illegalWidth width => "illegal format width: " ++ numberText width
  | missingArgument specifier =>
    "missing argument for format specifier '" ++ specifier.text ++ "'"
  | missingWidth specifier => "missing format width: " ++ specifier.text
  | unknownConversion ['l'] =>
    "%l is not a valid format specifier; use %d for all integral types and %f for all floating point types"
  | unknownConversion text => "unknown format conversion: '" ++ String.ofList text ++ "'"
  | zeroIndex => "Illegal format argument index = 0"
  | indexTooLarge => "Format argument index: (not representable as int)"

end FormatError

/-! ## Conversions -/

/-- The kinds of conversions, dates and times apart. -/
inductive Category where
  | general | character | integral | floating | fixedText
  deriving DecidableEq, Repr

/-- The kind of a conversion in lower case. -/
def Category.of? (conversion : Char) : Option Category :=
  if conversion ∈ ['b', 'h', 's'] then some .general
  else if conversion = 'c' then some .character
  else if conversion ∈ ['d', 'o', 'x'] then some .integral
  else if conversion ∈ ['e', 'f', 'g', 'a'] then some .floating
  else if conversion ∈ ['%', 'n'] then some .fixedText
  else none

/-- The conversions in either case. -/
def validConversions : List Char := "bBhHsScCdoxXeEfgGaA%n".toList

/-- The conversions of dates and times. -/
def dateTimeConversions : List Char := "HIklMSLNpzZsQBbhAaCYyjmdeRTrDFc".toList

namespace Specifier

/-- Refuses the first of the given flags that is set. -/
def refuseFlags (specifier : Specifier) (flags : List Flag) : Except FormatError Unit :=
  match flags.find? specifier.flags.has with
  | some flag => .error (.flagMismatch specifier.conversion flag)
  | none => .ok ()

/-- Refuses a precision. -/
def refusePrecision (specifier : Specifier) : Except FormatError Unit :=
  if specifier.precision.isSome then .error (.illegalPrecision specifier.precision) else .ok ()

/-- Demands a width if one of the given flags is set. -/
def demandWidth (specifier : Specifier) (flags : List Flag) : Except FormatError Unit :=
  if specifier.width.isNone && flags.any specifier.flags.has then
    .error (.missingWidth specifier)
  else .ok ()

def checkDateTime (specifier : Specifier) : Except FormatError Unit := do
  specifier.refusePrecision
  if specifier.conversion ∉ dateTimeConversions then
    .error (.unknownConversion ['t', specifier.conversion])
  specifier.refuseFlags [.alternate, .plus, .leadingSpace, .zeroPad, .group, .parentheses]
  specifier.demandWidth [.leftJustify]

def checkGeneral (specifier : Specifier) : Except FormatError Unit := do
  if specifier.conversion ≠ 's' then specifier.refuseFlags [.alternate]
  specifier.demandWidth [.leftJustify]
  specifier.refuseFlags [.plus, .leadingSpace, .zeroPad, .group, .parentheses]

def checkCharacter (specifier : Specifier) : Except FormatError Unit := do
  specifier.refusePrecision
  specifier.refuseFlags [.alternate, .plus, .leadingSpace, .zeroPad, .group, .parentheses]
  specifier.demandWidth [.leftJustify]

/-- What integral and floating conversions have in common. -/
def checkNumeric (specifier : Specifier) : Except FormatError Unit := do
  specifier.demandWidth [.leftJustify, .zeroPad]
  let flags := specifier.flags
  if (flags.plus && flags.leadingSpace) || (flags.leftJustify && flags.zeroPad) then
    .error (.illegalFlags flags)

def checkIntegral (specifier : Specifier) : Except FormatError Unit := do
  specifier.checkNumeric
  specifier.refusePrecision
  specifier.refuseFlags (if specifier.conversion = 'd' then [.alternate] else [.group])

def checkFloating (specifier : Specifier) : Except FormatError Unit := do
  specifier.checkNumeric
  specifier.refuseFlags
    (if specifier.conversion = 'a' then [.parentheses, .group]
    else if specifier.conversion = 'e' then [.group]
    else if specifier.conversion = 'g' then [.alternate]
    else [])

/-- A percent sign may be justified to the left in a width, a line break may have
nothing. -/
def checkFixedText (specifier : Specifier) : Except FormatError Unit := do
  specifier.refusePrecision
  if specifier.conversion = '%' then
    if specifier.flags ≠ .none ∧ specifier.flags ≠ Flags.none.insert .leftJustify then
      .error (.illegalFlags specifier.flags)
    specifier.demandWidth [.leftJustify]
  else
    if specifier.width.isSome then .error (.illegalWidth specifier.width)
    if specifier.flags ≠ .none then .error (.illegalFlags specifier.flags)

/-- Checks that flags, width and precision go with the conversion. -/
def check (specifier : Specifier) : Except FormatError Unit :=
  if specifier.dateTime then specifier.checkDateTime
  else
    match Category.of? specifier.conversion with
    | some .general => specifier.checkGeneral
    | some .character => specifier.checkCharacter
    | some .integral => specifier.checkIntegral
    | some .floating => specifier.checkFloating
    | some .fixedText => specifier.checkFixedText
    | none => .error (.unknownConversion [specifier.conversion])

/-- The largest number that an index, a width or a precision may be. -/
def maxNumber : Nat := 0x7FFFFFFF

/-- The value of a run of digits, if it is not too large. -/
def number? (digits : List Char) : Option Nat :=
  let value := digits.foldl (fun value c => 10 * value + (c.toNat - '0'.toNat)) 0
  if value ≤ maxNumber then some value else none

def readIndex : Option (List Char) → Except FormatError ArgumentRef
  | none => .ok .next
  | some digits =>
    match number? digits with
    | some 0 => .error .zeroIndex
    | some position => .ok (.explicit position)
    | none => .error .indexTooLarge

/-- Adds flags one by one; none may come twice. -/
def readFlags (flags : Flags) : List Char → Except FormatError Flags
  | [] => .ok flags
  | symbol :: rest =>
    match Flag.ofSymbol? symbol with
    | none => readFlags flags rest
    | some flag =>
      if flags.has flag then .error (.duplicateFlag symbol) else readFlags (flags.insert flag) rest

def readNumber (tooLarge : FormatError) : Option (List Char) → Except FormatError (Option Nat)
  | none => .ok none
  | some digits =>
    match number? digits with
    | some n => .ok (some n)
    | none => .error tooLarge

/-- Gives the groups of a specifier their meaning. The flag for the previous
argument wins over an index, and fixed texts take no argument. -/
def ofRaw (raw : RawSpecifier) : Except FormatError Specifier := do
  let index ← readIndex raw.index
  let flags ← readFlags .none raw.flags
  let argument := if flags.previous then .previous else index
  let width ← readNumber (.illegalWidth none) raw.width
  let precision ← readNumber (.illegalPrecision none) raw.precision
  let specifier : Specifier ←
    match raw.dateTime with
    | some mark =>
      let flags := if mark = 'T' then flags.insert .uppercase else flags
      pure ⟨argument, flags, width, precision, true, raw.conversion⟩
    | none =>
      if raw.conversion ∉ validConversions then
        .error (.unknownConversion [raw.conversion])
      else
        let flags := if raw.conversion.isUpper then flags.insert .uppercase else flags
        let conversion := raw.conversion.toLower
        let argument := if conversion = '%' ∨ conversion = 'n' then .nothing else argument
        pure ⟨argument, flags, width, precision, false, conversion⟩
  specifier.check
  return specifier

end Specifier

/-- Reads the specifiers of a format. All of the format is read before any
argument is looked at. -/
def parse (format : List Char) : Except FormatError (List Specifier) :=
  match format with
  | [] => .ok []
  | c :: rest =>
    if c = '%' then
      match _h : RawSpecifier.scan rest with
      | none => .error (.unknownConversion [rest.head?.getD '%'])
      | some (raw, rest') => do
        let specifier ← Specifier.ofRaw raw
        let specifiers ← parse rest'
        return specifier :: specifiers
    else parse rest
termination_by format.length
decreasing_by
  · exact Nat.lt_succ_of_lt (RawSpecifier.length_scan _h)
  · exact Nat.lt_succ_self _

end JvmLint.Format
