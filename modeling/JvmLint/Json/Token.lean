import JvmLint.Json.Number

/-!
# Tokens

The bytes of a JSON text cut into tokens. The list ends where the text stops
being JSON or ends.

A string or number can be looked at in two ways: it is *used* when its content
matters and *skipped* when the value that holds it is only passed over. Skipping
is more lenient: it accepts lone surrogates, bytes that are no UTF-8 and numbers
of any size, and it finds a number that breaks off malformed where using it finds
it truncated. `Reading` keeps both answers.
-/
namespace JvmLint.Json

/-- How a text fails to be JSON. -/
inductive Fault where
  /-- Something stands where it must not. -/
  | malformed
  /-- The text ends too early. -/
  | truncated
  deriving DecidableEq, Repr

/-- The content of a string or number, or the fault met when it is used, and the
fault met when it is skipped. -/
structure Reading (α : Type) where
  used : Except Fault α
  skipped : Option Fault

namespace Reading

variable {α : Type}

/-- A sound reading. -/
def ok (content : α) : Reading α := ⟨.ok content, none⟩

/-- A reading that breaks the text off, however it is looked at. -/
def broken (fault : Fault) : Reading α := ⟨.error fault, some fault⟩

end Reading

inductive Token where
  | leftBracket | rightBracket | leftBrace | rightBrace | comma | colon
  | null
  | bool (value : Bool)
  | number (reading : Reading Number)
  | string (reading : Reading String)
  /-- The letter that `null` starts with, and a fault in the rest of the word. -/
  | brokenNull (fault : Fault)
  /-- No token starts here. -/
  | bad (fault : Fault)

namespace Lexer

def isBlank (b : UInt8) : Bool :=
  b == 0x20 || b == 0x0a || b == 0x0d || b == 0x09

def isDigit (b : UInt8) : Bool :=
  0x30 ≤ b && b ≤ 0x39

def digitValue (b : UInt8) : Nat :=
  b.toNat - 0x30

def hexValue? (b : UInt8) : Option Nat :=
  if isDigit b then some (b.toNat - 0x30)
  else if 0x61 ≤ b && b ≤ 0x66 then some (b.toNat - 0x61 + 10)
  else if 0x41 ≤ b && b ≤ 0x46 then some (b.toNat - 0x41 + 10)
  else none

/-- The code unit that four hexadecimal digits spell. -/
def codeUnit? (a b c d : UInt8) : Option Nat := do
  return ((← hexValue? a) * 16 + (← hexValue? b)) * 256 + (← hexValue? c) * 16 + (← hexValue? d)

/-- The byte that a one-letter escape stands for. -/
def escaped? (b : UInt8) : Option UInt8 :=
  if b == '"'.toUInt8 || b == '\\'.toUInt8 || b == '/'.toUInt8 then some b
  else if b == 'b'.toUInt8 then some 0x08
  else if b == 'f'.toUInt8 then some 0x0c
  else if b == 'n'.toUInt8 then some 0x0a
  else if b == 'r'.toUInt8 then some 0x0d
  else if b == 't'.toUInt8 then some 0x09
  else none

/-- The content of a string read so far, last byte first. -/
inductive Content where
  | bytes (reversed : List UInt8)
  /-- A leading surrogate waits for its other half. -/
  | half (reversed : List UInt8) (surrogate : Nat)
  /-- A surrogate stands alone. -/
  | spoiled

namespace Content

def push (b : UInt8) : Content → Content
  | bytes reversed => bytes (b :: reversed)
  | half .. | spoiled => spoiled

def isLeading (unit : Nat) : Bool := 0xD800 ≤ unit && unit ≤ 0xDBFF

def isTrailing (unit : Nat) : Bool := 0xDC00 ≤ unit && unit ≤ 0xDFFF

def pushChar (code : Nat) (reversed : List UInt8) : Content :=
  bytes ((String.utf8EncodeChar (Char.ofNat code)).reverse ++ reversed)

/-- Adds a code unit given by its number. Surrogates must come in pairs. -/
def pushUnit (unit : Nat) : Content → Content
  | bytes reversed =>
    if isTrailing unit then spoiled
    else if isLeading unit then half reversed unit
    else pushChar unit reversed
  | half reversed surrogate =>
    if isTrailing unit then
      pushChar ((surrogate - 0xD800) * 0x400 + (unit - 0xDC00) + 0x10000) reversed
    else spoiled
  | spoiled => spoiled

/-- The content of a closed string; its bytes must be UTF-8. -/
def close : Content → Except Fault String
  | bytes reversed =>
    match String.fromUTF8? (ByteArray.mk reversed.reverse.toArray) with
    | some text => .ok text
    | none => .error .malformed
  | half .. | spoiled => .error .malformed

/-- The reading of a string whose text ends before its closing quote. -/
def cutOff : Content → Reading String
  | spoiled => ⟨.error .malformed, some .truncated⟩
  | bytes _ | half .. => .broken .truncated

end Content

/-- Reads a string from behind its opening quote. -/
def readString (content : Content) : List UInt8 → Reading String × List UInt8
  | [] => (content.cutOff, [])
  | b :: rest =>
    if b == '"'.toUInt8 then (⟨content.close, none⟩, rest)
    else if b == '\\'.toUInt8 then
      match rest with
      | [] => (content.cutOff, [])
      | escape :: rest =>
        if escape == 'u'.toUInt8 then
          match rest with
          | a :: b :: c :: d :: rest =>
            match codeUnit? a b c d with
            | some unit => readString (content.pushUnit unit) rest
            | none => (.broken .malformed, [])
          | _ => (content.cutOff, [])
        else
          match escaped? escape with
          | some byte => readString (content.push byte) rest
          | none => (.broken .malformed, [])
    else if b < 0x20 then (.broken .malformed, [])
    else readString (content.push b) rest

/-- A number that lacks a digit: where the text ends, using it finds it
truncated and skipping it finds it malformed. -/
def digitMissing (rest : List UInt8) : Reading Number :=
  if rest.isEmpty then ⟨.error .truncated, some .malformed⟩ else .broken .malformed

/-- Reads an exponent, the letter included, and completes the number. -/
def readExponent (number : Number) (bytes : List UInt8) : Reading Number × List UInt8 :=
  match bytes with
  | e :: rest =>
    if e == 'e'.toUInt8 || e == 'E'.toUInt8 then
      let (negative, rest) :=
        match rest with
        | sign :: rest' =>
          if sign == '-'.toUInt8 then (true, rest')
          else if sign == '+'.toUInt8 then (false, rest')
          else (false, rest)
        | [] => (false, [])
      let digits := rest.takeWhile isDigit
      let rest := rest.dropWhile isDigit
      if digits.isEmpty then (digitMissing rest, [])
      else
        let size : Int := Number.ofDigits (digits.map digitValue)
        finish { number with exponent := some (if negative then -size else size) } rest
    else finish number bytes
  | [] => finish number bytes
where
  finish (number : Number) (rest : List UInt8) : Reading Number × List UInt8 :=
    (if number.isOutOfRange then ⟨.error .malformed, none⟩ else .ok number, rest)

/-- Reads a fraction, the point included, and what follows it. -/
def readFraction (number : Number) (bytes : List UInt8) : Reading Number × List UInt8 :=
  match bytes with
  | point :: rest =>
    if point == '.'.toUInt8 then
      let digits := rest.takeWhile isDigit
      let rest := rest.dropWhile isDigit
      if digits.isEmpty then (digitMissing rest, [])
      else readExponent { number with fraction := some (digits.map digitValue) } rest
    else readExponent number bytes
  | [] => readExponent number bytes

/-- Reads a number from behind its sign. Zero has no digit after it. -/
def readNumber (negative : Bool) (bytes : List UInt8) : Reading Number × List UInt8 :=
  let digits := bytes.takeWhile isDigit
  let rest := bytes.dropWhile isDigit
  match digits with
  | [] => (digitMissing rest, [])
  | first :: more =>
    if first == '0'.toUInt8 && !more.isEmpty then (.broken .malformed, [])
    else readFraction ⟨negative, digits.map digitValue, none, none⟩ rest

/-- Reads the rest of a word, which must be as expected; `broken` is the token
for one that is not. -/
def readWord (token : Token) (broken : Fault → Token) :
    List UInt8 → List UInt8 → Token × List UInt8
  | [], bytes => (token, bytes)
  | _ :: _, [] => (broken .truncated, [])
  | expected :: more, b :: rest =>
    if b == expected then readWord token broken more rest else (broken .malformed, [])

def bytesOf (word : String) : List UInt8 :=
  word.toUTF8.toList

/-- Reads the token that starts with byte `b`. -/
def readToken (b : UInt8) (rest : List UInt8) : Token × List UInt8 :=
  if b == '['.toUInt8 then (.leftBracket, rest)
  else if b == ']'.toUInt8 then (.rightBracket, rest)
  else if b == '\x7b'.toUInt8 then (.leftBrace, rest)
  else if b == '\x7d'.toUInt8 then (.rightBrace, rest)
  else if b == ','.toUInt8 then (.comma, rest)
  else if b == ':'.toUInt8 then (.colon, rest)
  else if b == 'n'.toUInt8 then readWord .null .brokenNull (bytesOf "ull") rest
  else if b == 't'.toUInt8 then readWord (.bool true) .bad (bytesOf "rue") rest
  else if b == 'f'.toUInt8 then readWord (.bool false) .bad (bytesOf "alse") rest
  else if b == '"'.toUInt8 then
    let (reading, rest) := readString (.bytes []) rest
    (.string reading, rest)
  else if b == '-'.toUInt8 then
    let (reading, rest) := readNumber true rest
    (.number reading, rest)
  else if isDigit b then
    let (reading, rest) := readNumber false (b :: rest)
    (.number reading, rest)
  else (.bad .malformed, [])

theorem length_readString (content : Content) (bytes : List UInt8) :
    (readString content bytes).2.length ≤ bytes.length := by
  fun_induction readString content bytes <;> simp_all <;> omega

theorem length_readWord (token : Token) (broken : Fault → Token) (word bytes : List UInt8) :
    (readWord token broken word bytes).2.length ≤ bytes.length := by
  fun_induction readWord token broken word bytes with
  | case1 bytes => exact Nat.le_refl _
  | case2 => exact Nat.zero_le _
  | case3 expected more b rest hexpected ih => exact Nat.le_succ_of_le ih
  | case4 => exact Nat.zero_le _

theorem length_dropWhile_le (p : UInt8 → Bool) (bytes : List UInt8) :
    (bytes.dropWhile p).length ≤ bytes.length :=
  (List.dropWhile_sublist p).length_le

theorem length_readExponent (number : Number) (bytes : List UInt8) :
    (readExponent number bytes).2.length ≤ bytes.length := by
  unfold readExponent
  split
  · rename_i e rest
    split
    · have drop_le := length_dropWhile_le isDigit rest
      split
      rename_i eq
      simp only
      split
      · simp
      · simp only [readExponent.finish, List.length_cons]
        have := length_dropWhile_le isDigit
        grind
    · simp [readExponent.finish]
  · simp [readExponent.finish]

theorem length_readFraction (number : Number) (bytes : List UInt8) :
    (readFraction number bytes).2.length ≤ bytes.length := by
  unfold readFraction
  split
  · rename_i point rest
    split
    · simp only
      split
      · simp
      · have := length_readExponent
          { number with fraction := some ((rest.takeWhile isDigit).map digitValue) }
          (rest.dropWhile isDigit)
        have := length_dropWhile_le isDigit rest
        simp only [List.length_cons]
        omega
    · exact length_readExponent number _
  · exact length_readExponent number _

theorem length_readNumber (negative : Bool) (bytes : List UInt8) :
    (readNumber negative bytes).2.length ≤ bytes.length := by
  unfold readNumber
  simp only
  split
  · simp
  · split
    · simp
    · exact Nat.le_trans (length_readFraction _ _) (length_dropWhile_le isDigit bytes)

/-- A number that starts with a digit uses that digit up. -/
theorem length_readNumber_cons (negative : Bool) {b : UInt8} (digit : isDigit b = true)
    (rest : List UInt8) : (readNumber negative (b :: rest)).2.length ≤ rest.length := by
  unfold readNumber
  simp only [List.takeWhile_cons, List.dropWhile_cons, digit, if_true]
  split
  · simp
  · exact Nat.le_trans (length_readFraction _ _) (length_dropWhile_le isDigit rest)

theorem dite_length_le {c : Prop} [Decidable c] {x y : Token × List UInt8} {n : Nat}
    (whenTrue : c → x.2.length ≤ n) (whenFalse : ¬c → y.2.length ≤ n) :
    (if c then x else y).2.length ≤ n := by
  split
  · exact whenTrue ‹c›
  · exact whenFalse ‹¬c›

/-- A token uses its first byte up. -/
theorem length_readToken (b : UInt8) (rest : List UInt8) :
    (readToken b rest).2.length ≤ rest.length := by
  unfold readToken
  iterate 6
    refine dite_length_le (fun _ => Nat.le_refl _) fun _ => ?_
  iterate 3
    refine dite_length_le (fun _ => length_readWord _ _ _ _) fun _ => ?_
  refine dite_length_le (fun _ => length_readString _ _) fun _ => ?_
  refine dite_length_le (fun _ => length_readNumber _ _) fun _ => ?_
  exact dite_length_le (fun digit => length_readNumber_cons _ digit _) fun _ => Nat.zero_le _

/-- Whether the text cannot go on behind a token. -/
def endsText : Token → Bool
  | .brokenNull _ | .bad _ => true
  | .number reading => reading.skipped.isSome
  | .string reading => reading.skipped.isSome
  | _ => false

end Lexer

/-- The tokens of a text, up to its end or its first fault. -/
def tokens (text : List UInt8) : List Token :=
  match _h : text.dropWhile Lexer.isBlank with
  | [] => []
  | b :: rest =>
    let next := Lexer.readToken b rest
    next.1 :: if Lexer.endsText next.1 then [] else tokens next.2
termination_by text.length
decreasing_by
  have drop_le := Lexer.length_dropWhile_le Lexer.isBlank text
  have token_le := Lexer.length_readToken b rest
  rw [_h, List.length_cons] at drop_le
  omega

end JvmLint.Json
