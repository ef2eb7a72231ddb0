import JvmLint.Json.Draft

/-!
# Decoders

A decoder turns a draft into a value of a data type, or says where and why that
failed. Of several problems the first in text order is reported; a field that is
missing is noticed at the end of its record.

* `Decoder.list`, `Decoder.nullable`: lists, and values that may be `null`.
* `Decoder.record`: records, written as objects or as lists of their fields.
* `Decoder.choice`: tagged alternatives.
-/
namespace JvmLint.Json

/-- One step from a value to a part of it. -/
inductive Segment where
  | field (name : String)
  | variant (name : String)
  | index (position : Nat)
  deriving DecidableEq, Repr

/-- A path from the outermost value inwards, last step first. -/
abbrev Path := List Segment

namespace Path

/-- The path as text: names are joined by dots, positions stand in brackets. -/
def text (path : Path) : String :=
  match path.reverse with
  | [] => "."
  | first :: rest =>
    rest.foldl (fun text segment => text ++ joint segment ++ name segment) (name first)
where
  name : Segment → String
    | .field name => name
    | .variant name => name
    | .index position => "[" ++ toString position ++ "]"
  joint : Segment → String
    | .index _ => ""
    | _ => "."

end Path

/-- Why decoding failed. -/
inductive DecodeCause where
  /-- The value does not fit the data type. -/
  | misfit
  /-- The text stops being JSON. -/
  | fault (fault : Fault)
  deriving DecidableEq, Repr

/-- Why and where decoding failed. -/
structure DecodeError where
  path : Path
  cause : DecodeCause
  deriving DecidableEq, Repr

/-- Where a decoder stands. -/
structure Place where
  path : Path
  /-- How many more levels of arrays and objects may be entered. -/
  room : Nat
  /-- Whether the text is decoded while it is read, and not a value that was read
  whole before. -/
  streaming : Bool

namespace Place

/-- The depth to which arrays and objects may be nested. -/
def maxDepth : Nat := 127

/-- The start of a text. -/
def ofText : Place := ⟨[], maxDepth, true⟩

/-- The start of a value that was read as part of another text. -/
def ofValue : Place := ⟨[], maxDepth, false⟩

def descend (place : Place) (segment : Segment) : Place :=
  { place with path := segment :: place.path }

def misfit (place : Place) : DecodeError := ⟨place.path, .misfit⟩

def fault (place : Place) (fault : Fault) : DecodeError := ⟨place.path, .fault fault⟩

/-- The error for a value of another shape than expected. A string or number is
read before it is refused. -/
def refuse (place : Place) : Draft → DecodeError
  | .number ⟨.error fault, _⟩ => place.fault fault
  | .string ⟨.error fault, _⟩ => place.fault fault
  | .missing fault => place.fault fault
  | .brokenNull fault => place.fault fault
  | .broken fault => place.fault fault
  | _ => place.misfit

end Place

/-- Reads a value of type `α` from a draft. -/
abbrev Decoder (α : Type) := Place → Draft → Except DecodeError α

namespace Decoder

variable {α β : Type}

def string : Decoder String
  | _, .string ⟨.ok text, _⟩ => .ok text
  | place, draft => .error (place.refuse draft)

def bool : Decoder Bool
  | _, .bool value => .ok value
  | place, draft => .error (place.refuse draft)

/-- A string of exactly one character. -/
def char : Decoder Char := fun place draft => do
  match (← string place draft).toList with
  | [c] => .ok c
  | _ => .error place.misfit

def number : Decoder Number
  | _, .number ⟨.ok number, _⟩ => .ok number
  | place, draft => .error (place.refuse draft)

/-- An integer within bounds. -/
def integer (least greatest : Int) : Decoder Int := fun place draft => do
  match (← number place draft).toInt? with
  | some value => if least ≤ value ∧ value ≤ greatest then .ok value else .error place.misfit
  | none => .error place.misfit

/-- A signed integer of `bits` bits. -/
def signed (bits : Nat) : Decoder Int :=
  integer (-(Nat.pow 2 (bits - 1) : Nat)) ((Nat.pow 2 (bits - 1) : Nat) - 1)

/-- A natural number of `bits` bits. -/
def natural (bits : Nat) : Decoder Nat := fun place draft =>
  (integer 0 ((Nat.pow 2 bits : Nat) - 1) place draft).map Int.toNat

/-- A value or `null`. What starts like `null` must be it. -/
def nullable (decoder : Decoder α) : Decoder (Option α)
  | _, .null => .ok none
  | place, .brokenNull fault => .error (place.fault fault)
  | place, draft => (decoder place draft).map some

/-- Goes one level down, if there is room. -/
def enter (place : Place) (inside : Place → Except DecodeError α) : Except DecodeError α :=
  match place.room with
  | 0 => .error (place.fault .malformed)
  | room + 1 => inside { place with room }

/-- Fails if a fault cut the value. -/
def checkEnd (place : Place) (cut : Option Fault) (value : α) : Except DecodeError α :=
  match cut with
  | some fault => .error (place.fault fault)
  | none => .ok value

/-- Decodes the items of a list from position `position` on. -/
def items (decoder : Decoder α) (place : Place) (position : Nat) :
    List Draft → Except DecodeError (List α)
  | [] => .ok []
  | item :: rest => do
    let value ← decoder (place.descend (.index position)) item
    let values ← items decoder place (position + 1) rest
    return value :: values

def list (decoder : Decoder α) : Decoder (List α)
  | place, .array drafts cut =>
    enter place fun inner => do
      checkEnd place cut (← items decoder inner 0 drafts)
  | place, draft => .error (place.refuse draft)

end Decoder

/-! ## Records -/

/-- A problem in a record, with its position in text order. -/
structure Problem where
  position : Nat
  error : DecodeError

namespace Problem

/-- The earlier of two problems. -/
def earlier (p q : Problem) : Problem :=
  if q.position < p.position then q else p

end Problem

/-- Where the fields of a record are found: for a name, the position in text
order, the place and the draft. -/
structure FieldSource where
  find? : String → Option (Nat × Place × Draft)
  /-- The problem of a required field that is not found. -/
  absent : Problem

/-- Reads some fields of a record and builds an `α` of them. All of them are
read, so that the first problem in text order can be told. -/
def Fields (α : Type) := FieldSource → Except Problem α

namespace Fields

variable {α β : Type}

instance : Applicative Fields where
  pure value := fun _ => .ok value
  seq f x := fun source =>
    match f source, x () source with
    | .ok f, .ok value => .ok (f value)
    | .ok _, .error q => .error q
    | .error p, .ok _ => .error p
    | .error p, .error q => .error (p.earlier q)

/-- Decodes a field that was found. -/
def decodeAt (decoder : Decoder α) : Nat × Place × Draft → Except Problem α
  | (position, place, draft) =>
    match decoder place draft with
    | .ok value => .ok value
    | .error error => .error ⟨position, error⟩

/-- A field that must be there. -/
def required (name : String) (decoder : Decoder α) : Fields α := fun source =>
  match source.find? name with
  | some found => decodeAt decoder found
  | none => .error source.absent

/-- A field that has a value when it is not there. -/
def withDefault (name : String) (decoder : Decoder α) (value : α) : Fields α := fun source =>
  match source.find? name with
  | some found => decodeAt decoder found
  | none => .ok value

/-- A field that may be absent or `null`. -/
def optional (name : String) (decoder : Decoder α) : Fields (Option α) :=
  withDefault name (Decoder.nullable decoder) none

/-- A flag, false when it is not there. -/
def flag (name : String) : Fields Bool :=
  withDefault name Decoder.bool false

/-- A list, empty when it is not there. -/
def listOf (name : String) (decoder : Decoder α) : Fields (List α) :=
  withDefault name (Decoder.list decoder) []

end Fields

namespace Record

variable {α : Type}

/-- The first member with a name, with its position. -/
def findMember? (name : String) (members : List (Reading String × Draft)) (position : Nat) :
    Option (Nat × Draft) :=
  match members with
  | [] => none
  | (⟨.ok key, _⟩, draft) :: rest =>
    if key = name then some (position, draft) else findMember? name rest (position + 1)
  | _ :: rest => findMember? name rest (position + 1)

/-- The first member that is no field in its own right: its key cannot be read,
it repeats a field, or its name is unknown and its value breaks off. -/
def memberProblem? (place : Place) (names seen : List String) (position : Nat) :
    List (Reading String × Draft) → Option Problem
  | [] => none
  | (⟨.error fault, _⟩, _) :: _ => some ⟨position, place.fault fault⟩
  | (⟨.ok key, _⟩, draft) :: rest =>
    if key ∈ names then
      if key ∈ seen then some ⟨position, place.misfit⟩
      else memberProblem? place names (key :: seen) (position + 1) rest
    else
      match draft.skipFault with
      | some fault => some ⟨position, (place.descend (.field key)).fault fault⟩
      | none => memberProblem? place names seen (position + 1) rest

/-- Joins what the fields gave with a problem of the record itself. -/
def conclude (result : Except Problem α) (other : Option Problem) : Except DecodeError α :=
  match result, other with
  | .ok value, none => .ok value
  | .ok _, some p => .error p.error
  | .error p, none => .error p.error
  | .error p, some q => .error (p.earlier q).error

/-- A record written as an object. -/
def ofObject (names : List String) (fields : Fields α) (place inner : Place)
    (members : List (Reading String × Draft)) (cut : Option Fault) : Except DecodeError α :=
  let source : FieldSource := {
    find? := fun name =>
      (findMember? name members 0).map fun (position, draft) =>
        (position, inner.descend (.field name), draft)
    absent := ⟨members.length + 1, place.misfit⟩ }
  let ending := cut.map fun fault => ⟨members.length, place.fault fault⟩
  conclude (fields source) ((memberProblem? inner names [] 0 members).or ending)

/-- A record written as the list of its fields in order. Fields at the end may
be left out if they have a default; there may be no more items than fields. -/
def ofArray (names : List String) (fields : Fields α) (place inner : Place)
    (items : List Draft) (cut : Option Fault) : Except DecodeError α :=
  let source : FieldSource := {
    find? := fun name => do
      let position ← names.idxOf? name
      let draft ← items[position]?
      return (position, inner.descend (.index position), draft)
    absent := ⟨items.length + 1, place.misfit⟩ }
  let ending :=
    if names.length < items.length then some ⟨names.length, place.fault .malformed⟩
    else cut.map fun fault => ⟨items.length, place.fault fault⟩
  conclude (fields source) ending

end Record

/-! ## Tagged alternatives -/

/-- What an alternative carries. -/
inductive Variant (α : Type) where
  /-- Nothing: it is written as its name, or as an object with its name and
  `null`. -/
  | plain (value : α)
  /-- A payload: it is written as an object with its name and the payload. -/
  | carrying (decoder : Decoder α)

namespace Decoder

variable {α : Type}

/-- A record with these fields, named in order. Members with other names are
passed over. -/
def record (names : List String) (fields : Fields α) : Decoder α
  | place, .object members cut =>
    enter place fun inner => Record.ofObject names fields place inner members cut
  | place, .array items cut =>
    enter place fun inner => Record.ofArray names fields place inner items cut
  | place, draft => .error (place.refuse draft)

/-- The fields of an alternative. Unlike those of a record they may be written as
a list only where the text is decoded while it is read. -/
def payload (names : List String) (fields : Fields α) : Decoder α
  | place, .array items cut =>
    if place.streaming then record names fields place (.array items cut)
    else .error place.misfit
  | place, draft => record names fields place draft

/-- The payload of an alternative that carries none. -/
def nothing (value : α) : Decoder α
  | _, .null => .ok value
  | place, draft => .error (place.refuse draft)

/-- Finds an alternative by name. -/
def variant (variants : List (String × Variant α)) (place : Place) (name : String) :
    Except DecodeError (Variant α) :=
  match variants.lookup name with
  | some variant => .ok variant
  | none => .error place.misfit

/-- One of several tagged alternatives. A value that is neither a string nor an
object with one member is refused as malformed. Where the text is decoded while
it is read, the payload comes before a second member; otherwise the members are
counted first. -/
def choice (variants : List (String × Variant α)) : Decoder α
  | place, .string ⟨.ok name, _⟩ => do
    match ← variant variants place name with
    | .plain value => .ok value
    | .carrying _ => .error (place.descend (.variant name)).misfit
  | place, .string ⟨.error fault, _⟩ => .error (place.fault fault)
  | place, .missing fault => .error (place.fault fault)
  | place, .object members cut =>
    enter place fun inner =>
      match members with
      | [] => .error (place.fault (cut.getD .malformed))
      | (⟨.error fault, _⟩, _) :: _ => .error (place.fault fault)
      | (⟨.ok name, _⟩, draft) :: rest => do
        let single := if rest.isEmpty then .ok () else .error (place.fault .malformed)
        if !place.streaming then single
        let inside := inner.descend (.variant name)
        let value ←
          match ← variant variants place name with
          | .plain value => nothing value inside draft
          | .carrying decoder => decoder inside draft
        single
        checkEnd place cut value
  | place, _ => .error (place.fault .malformed)

end Decoder

end JvmLint.Json
