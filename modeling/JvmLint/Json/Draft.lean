import JvmLint.Json.Token

/-!
# Drafts

What a text says in JSON, up to where it stops being JSON. Reading never fails:
a text that breaks off gives a draft whose unfinished arrays and objects record
the fault that cut them. A reader of the draft that goes through it in text order
then meets the first problem of the text, be it one of form or one of meaning.

Objects keep their members in text order, repeated ones too.
-/
namespace JvmLint.Json

inductive Draft where
  | null
  | bool (value : Bool)
  | number (reading : Reading Number)
  | string (reading : Reading String)
  /-- The items, and the fault that cut the array. An item follows every comma,
  if only one that is missing. -/
  | array (items : List Draft) (cut : Option Fault)
  /-- The members, and the fault that cut the object. A member follows every
  comma, if only one whose key cannot be read. -/
  | object (members : List (Reading String × Draft)) (cut : Option Fault)
  /-- No value starts here. -/
  | missing (fault : Fault)
  /-- A `null` starts here and breaks off. -/
  | brokenNull (fault : Fault)
  /-- Something starts here that is no value. -/
  | broken (fault : Fault)

namespace Draft

/-- The fault met when the value is only passed over. -/
def skipFault : Draft → Option Fault
  | null | bool _ => none
  | number reading => reading.skipped
  | string reading => reading.skipped
  | array _ cut => cut
  | object _ cut => cut
  | missing fault => some fault
  | brokenNull fault => some fault
  | broken fault => some fault

/-- The fault met first when all of the value is used and `room` more levels of
arrays and objects may be entered. -/
def useFault (room : Nat) : Draft → Option Fault
  | null | bool _ => none
  | number reading => faultOf reading.used
  | string reading => faultOf reading.used
  | missing fault => some fault
  | brokenNull fault => some fault
  | broken fault => some fault
  | array items cut =>
    match room with
    | 0 => some .malformed
    | room + 1 => (items.findSome? (useFault room)).or cut
  | object members cut =>
    match room with
    | 0 => some .malformed
    | room + 1 =>
      (members.findSome? fun (key, value) => (faultOf key.used).or (value.useFault room)).or cut
where
  faultOf {α : Type} : Except Fault α → Option Fault
    | .ok _ => none
    | .error fault => some fault

end Draft

namespace Reader

/-- An array or object that waits for the value being read: what it holds so
far, last first. -/
inductive Frame where
  | array (items : List Draft)
  | object (members : List (Reading String × Draft)) (key : Reading String)

/-- What may come next. -/
inductive Expecting where
  | value
  /-- Behind an opening bracket. -/
  | firstItem
  /-- Behind an opening brace. -/
  | firstKey
  /-- Behind a comma in an object with these members, last first. -/
  | key (members : List (Reading String × Draft))
  | colon (members : List (Reading String × Draft)) (key : Reading String)
  /-- Behind a complete value. -/
  | next (value : Draft)

/-- Closes every waiting frame around a value in or behind which `fault` stands. -/
def abandon (fault : Fault) (value : Draft) : List Frame → Draft
  | [] => value
  | .array items :: stack => abandon fault (.array (value :: items).reverse (some fault)) stack
  | .object members key :: stack =>
    abandon fault (.object ((key, value) :: members).reverse (some fault)) stack

/-- Breaks off where a value is missing. -/
def noValue (fault : Fault) (stack : List Frame) : Draft :=
  abandon fault (.missing fault) stack

/-- Breaks off where a key is missing behind a comma. -/
def noKey (fault : Fault) (members : List (Reading String × Draft)) (stack : List Frame) : Draft :=
  abandon fault
    (.object ((Reading.broken fault, .missing fault) :: members).reverse (some fault)) stack

/-- Breaks off at the end of the text. -/
def endOfText (stack : List Frame) : Expecting → Draft
  | .value => noValue .truncated stack
  | .firstItem => abandon .truncated (.array [] (some .truncated)) stack
  | .firstKey => abandon .truncated (.object [] (some .truncated)) stack
  | .key members => noKey .truncated members stack
  | .colon members key => noValue .truncated (.object members key :: stack)
  | .next value => abandon .truncated value stack

/-- Reading goes on with these frames, or it is over. -/
inductive Progress where
  | more (stack : List Frame) (expecting : Expecting)
  | over (draft : Draft)

/-- Goes on behind a value unless the text breaks off in it. -/
def afterValue (stack : List Frame) (draft : Draft) : Progress :=
  match draft.skipFault with
  | some fault => .over (abandon fault draft stack)
  | none => .more stack (.next draft)

/-- Goes on behind a key unless the text breaks off in it. -/
def afterKey (stack : List Frame) (members : List (Reading String × Draft))
    (key : Reading String) : Progress :=
  match key.skipped with
  | some fault => .over (noValue fault (.object members key :: stack))
  | none => .more stack (.colon members key)

/-- A token where a value must start. -/
def startValue (stack : List Frame) : Token → Progress
  | .null => .more stack (.next .null)
  | .bool value => .more stack (.next (.bool value))
  | .number reading => afterValue stack (.number reading)
  | .string reading => afterValue stack (.string reading)
  | .leftBracket => .more stack .firstItem
  | .leftBrace => .more stack .firstKey
  | .brokenNull fault => .over (abandon fault (.brokenNull fault) stack)
  | .bad fault => .over (abandon fault (.broken fault) stack)
  | .rightBracket | .rightBrace | .comma | .colon => .over (noValue .malformed stack)

/-- A token behind a complete value. What follows the outermost value does not
matter. -/
def continueAfter (value : Draft) : List Frame → Token → Progress
  | [], _ => .over value
  | .array items :: stack, .comma => .more (.array (value :: items) :: stack) .value
  | .array items :: stack, .rightBracket =>
    .more stack (.next (.array (value :: items).reverse none))
  | .object members key :: stack, .comma => .more stack (.key ((key, value) :: members))
  | .object members key :: stack, .rightBrace =>
    .more stack (.next (.object ((key, value) :: members).reverse none))
  | stack, _ => .over (abandon .malformed value stack)

/-- Takes one token. -/
def step (stack : List Frame) : Expecting → Token → Progress
  | .value, token => startValue stack token
  | .firstItem, .rightBracket => .more stack (.next (.array [] none))
  | .firstItem, token => startValue (.array [] :: stack) token
  | .firstKey, .rightBrace => .more stack (.next (.object [] none))
  | .firstKey, .string key => afterKey stack [] key
  | .firstKey, _ => .over (abandon .malformed (.object [] (some .malformed)) stack)
  | .key members, .string key => afterKey stack members key
  | .key members, _ => .over (noKey .malformed members stack)
  | .colon members key, .colon => .more (.object members key :: stack) .value
  | .colon members key, _ => .over (noValue .malformed (.object members key :: stack))
  | .next value, token => continueAfter value stack token

/-- Reads tokens, `stack` being the arrays and objects still open. -/
def read (stack : List Frame) (expecting : Expecting) : List Token → Draft
  | [] => endOfText stack expecting
  | token :: rest =>
    match step stack expecting token with
    | .more stack expecting => read stack expecting rest
    | .over draft => draft

end Reader

/-- Reads the value that a text starts with; what follows it is ignored. -/
def Draft.ofBytes (text : List UInt8) : Draft :=
  Reader.read [] .value (tokens text)

end JvmLint.Json
