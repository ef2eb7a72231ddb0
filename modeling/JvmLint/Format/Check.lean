import JvmLint.Format.Sample
import JvmLint.Format.Specifier

/-!
# Checking a format against arguments

`check` replays formatting without rendering anything: the specifiers are
taken in order and each is checked against the argument it refers to.
`usedArguments` finds how many of the arguments are needed at all.
-/
namespace JvmLint.Format

namespace Specifier

def refuse (specifier : Specifier) (argument : Sample) : Except FormatError Unit :=
  .error (.illegalConversion specifier.conversion argument.className)

def checkIntegralArgument (specifier : Specifier) (argument : Sample) :
    Except FormatError Unit :=
  match argument with
  | .null | .bigInteger => .ok ()
  | .byte _ | .short _ | .int _ | .long _ =>
    specifier.refuseFlags
      (if specifier.conversion = 'd' then [] else [.parentheses, .leadingSpace, .plus])
  | other => specifier.refuse other

def checkFloatingArgument (specifier : Specifier) (argument : Sample) :
    Except FormatError Unit :=
  match argument with
  | .null | .float | .double => .ok ()
  | .bigDecimal =>
    if specifier.conversion = 'a' then specifier.refuse .bigDecimal else .ok ()
  | other => specifier.refuse other

/-- The largest code point of a character. -/
def maxCodePoint : Int := 0x10FFFF

def checkCodePoint (code : Int) : Except FormatError Unit :=
  if 0 ≤ code ∧ code ≤ maxCodePoint then .ok () else .error (.illegalCodePoint code)

def checkCharacterArgument (specifier : Specifier) (argument : Sample) :
    Except FormatError Unit :=
  match argument with
  | .null | .char _ => .ok ()
  | .byte code | .short code | .int code => checkCodePoint code
  | other => specifier.refuse other

/-- The date and time conversions that need more than a local date and time. -/
def zonedConversions : List Char := ['z', 'Z', 's', 'Q', 'c']

def checkDateTimeArgument (specifier : Specifier) (argument : Sample) :
    Except FormatError Unit :=
  match argument with
  | .null | .long _ | .date | .calendar => .ok ()
  | .localDateTime =>
    if specifier.conversion ∈ zonedConversions then specifier.refuse .localDateTime else .ok ()
  | other => specifier.refuse other

/-- Checks that the specifier can format an argument. -/
def checkArgument (specifier : Specifier) (argument : Sample) : Except FormatError Unit :=
  if specifier.dateTime then specifier.checkDateTimeArgument argument
  else
    match Category.of? specifier.conversion with
    | some .integral => specifier.checkIntegralArgument argument
    | some .floating => specifier.checkFloatingArgument argument
    | some .character => specifier.checkCharacterArgument argument
    | some .general =>
      specifier.refuseFlags (if specifier.conversion = 's' then [.alternate] else [])
    | _ => .ok ()

end Specifier

/-- Where formatting stands: how many ordinary specifiers it has passed, and the
position of the argument that it formatted last. -/
structure Cursor where
  ordinary : Nat
  last : Option Nat
  deriving DecidableEq, Repr

namespace Cursor

def start : Cursor := ⟨0, none⟩

/-- The position of the argument a specifier refers to, if it takes one, and the
cursor behind it. The position itself is missing when there is no previous
argument. -/
def advance (cursor : Cursor) : ArgumentRef → Option (Option Nat × Cursor)
  | .nothing => none
  | .next => some (some cursor.ordinary, ⟨cursor.ordinary + 1, some cursor.ordinary⟩)
  | .previous => some (cursor.last, cursor)
  | .explicit position => some (some (position - 1), { cursor with last := some (position - 1) })

end Cursor

/-- Checks specifiers from a cursor on. -/
def checkSpecifiers (arguments : List Sample) (cursor : Cursor) :
    List Specifier → Except FormatError Unit
  | [] => .ok ()
  | specifier :: rest =>
    match cursor.advance specifier.argument with
    | none => checkSpecifiers arguments cursor rest
    | some (position, cursor) =>
      match position.bind (arguments[·]?) with
      | none => .error (.missingArgument specifier)
      | some argument => do
        specifier.checkArgument argument
        checkSpecifiers arguments cursor rest

/-- Checks a format against arguments. -/
def check (format : String) (arguments : List Sample) : Except FormatError Unit := do
  let specifiers ← parse format.toList
  checkSpecifiers arguments .start specifiers

/-- Halves the interval between `low` and `high` until it holds one number, going
down where `fits` holds and up where it does not. -/
def bisect (fits : Nat → Bool) (low high : Nat) : Nat :=
  if low < high then
    let middle := low + (high - low) / 2
    if fits middle then bisect fits low middle else bisect fits (middle + 1) high
  else low
termination_by high - low

/-- The number of arguments, from the front, that the format needs. -/
def usedArguments (format : String) (arguments : List Sample) : Nat :=
  bisect (fun count => (check format (arguments.take count)).isOk) 0 arguments.length

end JvmLint.Format
