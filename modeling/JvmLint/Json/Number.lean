/-!
# Numbers as they are written

A JSON number keeps its digits. It stands for an integer only when it is written
without fraction and exponent, and it is out of range when its nearest double
is infinite.
-/
namespace JvmLint.Json

/-- A written number: sign, digits before the point, digits after it, exponent. -/
structure Number where
  negative : Bool
  whole : List Nat
  fraction : Option (List Nat)
  exponent : Option Int
  deriving DecidableEq, Repr

namespace Number

/-- The value of a run of decimal digits. -/
def ofDigits (digits : List Nat) : Nat :=
  digits.foldl (fun value digit => 10 * value + digit) 0

/-- The integer a number stands for. A number with a fraction or an exponent
is none, and neither is negative zero. -/
def toInt? (n : Number) : Option Int :=
  match n.fraction, n.exponent with
  | none, none =>
    match n.negative, ofDigits n.whole with
    | false, value => some value
    | true, 0 => none
    | true, value => some (-value)
  | _, _ => none

/-- The largest significand that is kept exactly. -/
def maxSignificand : Nat := 0xFFFFFFFFFFFFFFFF

/-- Takes digits before the point while they fit; the second part counts the
digits that did not. -/
def takeWhole (digits : List Nat) : Nat × Nat :=
  digits.foldl
    (fun (significand, dropped) digit =>
      if dropped = 0 ∧ 10 * significand + digit ≤ maxSignificand then
        (10 * significand + digit, 0)
      else (significand, dropped + 1))
    (0, 0)

/-- Takes digits after the point up to the first that does not fit; the second
part counts those taken. -/
def takeFraction (significand : Nat) : List Nat → Nat × Nat
  | [] => (significand, 0)
  | digit :: rest =>
    if 10 * significand + digit ≤ maxSignificand then
      let (value, taken) := takeFraction (10 * significand + digit) rest
      (value, taken + 1)
    else (significand, 0)

/-- The number as a significand times a power of ten, sign aside. -/
def scaled (n : Number) : Nat × Int :=
  let (significand, dropped) := takeWhole n.whole
  let (significand, taken) := takeFraction significand (n.fraction.getD [])
  (significand, (dropped : Int) - (taken : Int) + n.exponent.getD 0)

/-- The nearest natural number with at most 53 significant bits, ties to even. -/
def roundToDouble (value : Nat) : Nat :=
  if value < 0x20000000000000 then value
  else
    let shift := value.log2 - 52
    let quotient := value / Nat.pow 2 shift
    let remainder := value % Nat.pow 2 shift
    let half := Nat.pow 2 (shift - 1)
    let up := half < remainder || (remainder == half && quotient % 2 == 1)
    (if up then quotient + 1 else quotient) * Nat.pow 2 shift

/-- The least value that rounds to infinity. -/
def infinityThreshold : Nat := Nat.pow 2 1024 - Nat.pow 2 970

/-- The largest power of ten below infinity. -/
def maxPower : Int := 308

/-- Whether the number is too large for a double: significand and power of ten
are rounded first, then their product. -/
def isOutOfRange (n : Number) : Bool :=
  let (significand, power) := n.scaled
  significand != 0 &&
    (decide (maxPower < power) ||
      (decide (0 ≤ power) &&
        decide (infinityThreshold ≤
          roundToDouble significand * roundToDouble (Nat.pow 10 power.toNat))))

end Number

end JvmLint.Json
