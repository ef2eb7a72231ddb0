/-!
# Flags

The flags of a format specifier. Upper case is a flag too, although no character
in the flag position asks for it: it is set by an upper-case conversion.
-/
namespace JvmLint.Format

inductive Flag where
  | leftJustify | uppercase | alternate | plus | leadingSpace | zeroPad | group | parentheses
  | previous
  deriving DecidableEq, Repr

namespace Flag

def symbol : Flag → Char
  | leftJustify => '-'
  | uppercase => '^'
  | alternate => '#'
  | plus => '+'
  | leadingSpace => ' '
  | zeroPad => '0'
  | group => ','
  | parentheses => '('
  | previous => '<'

/-- The flags that stand in a format string, in the order they are shown in. -/
def written : List Flag :=
  [leftJustify, alternate, plus, leadingSpace, zeroPad, group, parentheses, previous]

/-- All flags in the order they are shown in. -/
def all : List Flag :=
  [leftJustify, uppercase, alternate, plus, leadingSpace, zeroPad, group, parentheses, previous]

/-- The flag that a character asks for. -/
def ofSymbol? (c : Char) : Option Flag :=
  written.find? (·.symbol == c)

end Flag

/-- A set of flags. -/
structure Flags where
  leftJustify : Bool
  uppercase : Bool
  alternate : Bool
  plus : Bool
  leadingSpace : Bool
  zeroPad : Bool
  group : Bool
  parentheses : Bool
  previous : Bool
  deriving DecidableEq, Repr

namespace Flags

def none : Flags := ⟨false, false, false, false, false, false, false, false, false⟩

def has (flags : Flags) : Flag → Bool
  | .leftJustify => flags.leftJustify
  | .uppercase => flags.uppercase
  | .alternate => flags.alternate
  | .plus => flags.plus
  | .leadingSpace => flags.leadingSpace
  | .zeroPad => flags.zeroPad
  | .group => flags.group
  | .parentheses => flags.parentheses
  | .previous => flags.previous

def insert (flags : Flags) : Flag → Flags
  | .leftJustify => { flags with leftJustify := true }
  | .uppercase => { flags with uppercase := true }
  | .alternate => { flags with alternate := true }
  | .plus => { flags with plus := true }
  | .leadingSpace => { flags with leadingSpace := true }
  | .zeroPad => { flags with zeroPad := true }
  | .group => { flags with group := true }
  | .parentheses => { flags with parentheses := true }
  | .previous => { flags with previous := true }

/-- The symbols of those of the given flags that are set. -/
def symbols (flags : Flags) (among : List Flag) : List Char :=
  (among.filter flags.has).map Flag.symbol

/-- The flags as messages show them, upper case included. -/
def text (flags : Flags) : String :=
  String.ofList (flags.symbols Flag.all)

@[simp]
theorem has_none (flag : Flag) : none.has flag = false := by
  cases flag <;> rfl

theorem has_insert (flags : Flags) (flag other : Flag) :
    (flags.insert flag).has other = (decide (other = flag) || flags.has other) := by
  cases flag <;> cases other <;> simp [insert, has]

theorem ext_has {flags flags' : Flags} (h : ∀ flag, flags.has flag = flags'.has flag) :
    flags = flags' := by
  obtain ⟨_, _, _, _, _, _, _, _, _⟩ := flags
  have h₁ := h .leftJustify
  have h₂ := h .uppercase
  have h₃ := h .alternate
  have h₄ := h .plus
  have h₅ := h .leadingSpace
  have h₆ := h .zeroPad
  have h₇ := h .group
  have h₈ := h .parentheses
  have h₉ := h .previous
  simp only [has] at *
  subst h₁ h₂ h₃ h₄ h₅ h₆ h₇ h₈ h₉
  rfl

end Flags

end JvmLint.Format
