import Uniprocessor.Json.Value

/-!
# Records in JSON text

A record has named fields. It is written as an object, whose members may come in any order, or as a
list of its fields in their own order. As an object it must have no field twice, no field of another
name, and every field that has no default. As a list it may end early where all further fields may
be left out.

Whether a key is one of the record's is decided when the key has been read, before the colon and the
value. A field that is missing is noticed when the record closes.
-/

namespace Uniprocessor.Json

/-- A field of a record in the making, of type `β`. -/
structure Field (β : Type) where
  /-- its key -/
  name : String
  /-- reads its value into the record -/
  read : β → Reader β
  /-- whether a list may end before it -/
  omissible : Bool

/-- How records of type `α` are read, by way of records in the making, of type `β`. -/
structure Shape (β α : Type) where
  /-- what such a record is called in complaints -/
  title : String
  /-- its fields, in their own order -/
  fields : List (Field β)
  /-- the record in the making that has no field yet -/
  blank : β
  /-- the finished record, or the first field that is missing -/
  finish : β → Except String α

namespace Shape

variable {β α : Type}

/-- The keys of a record. -/
def keys (S : Shape β α) : List String := S.fields.map Field.name

/-- The field with a key. -/
def field? (S : Shape β α) (key : String) : Option (Field β) :=
  S.fields.find? fun f => f.name = key

/-- Finishes a record. -/
def close (S : Shape β α) (b : β) : Except Complaint α :=
  match S.finish b with
  | .ok a => .ok a
  | .error name => .error (.misshapen (.missingField name))

/-- Reads the members of an object and its closing brace, given the keys that it already has. No key
comes twice, so one step more than the record has fields is enough. -/
def readMembers (S : Shape β α) : Nat → List String → β → Reader β
  | 0, _, _, _ => .error .malformed
  | steps + 1, seen, b, cs => do
    match ← nextMember seen.isEmpty cs with
    | (false, rest) => return (b, rest)
    | (true, rest) =>
      let (key, rest) ← readQuoted rest
      match S.field? key with
      | none => throw (.misshapen (.unknownField key S.keys))
      | some f =>
        if key ∈ seen then throw (.misshapen (.duplicateField key))
        let rest ← readColon rest
        let (b, rest) ← f.read b rest
        S.readMembers steps (key :: seen) b rest

/-- What is expected where a list is too short. -/
def fullTitle (S : Shape β α) : String := S.title ++ s!" with {S.fields.length} elements"

/-- Reads fields in their own order from the elements of a list. The first of these fields is at
`position` among all; `first` says whether no element has been read. The closing bracket is left in
place. -/
def readFields (S : Shape β α) : Nat → Bool → List (Field β) → β → Reader β
  | _, _, [], b, cs => .ok (b, cs)
  | position, first, f :: rest, b, cs => do
    match ← nextElement first cs with
    | some cs =>
      let (b, cs) ← f.read b cs
      S.readFields (position + 1) false rest b cs
    | none =>
      if f.omissible then S.readFields (position + 1) first rest b cs
      else throw (.misshapen (.tooShort position S.fullTitle))

/-- Reads a record in either form. -/
def read (S : Shape β α) : Reader α := fun cs =>
  match skipSpace cs with
  | [] => .error .ended
  | '[' :: rest => do
    let (b, rest) ← S.readFields 0 true S.fields S.blank rest
    let a ← S.close b
    let rest ← closeList rest
    return (a, rest)
  | '\x7b' :: rest => do
    let (b, rest) ← S.readMembers (S.fields.length + 1) [] S.blank rest
    let a ← S.close b
    return (a, rest)
  | c :: rest => refuse S.title (c :: rest)

end Shape

/-- Reads a text that is one value, with nothing but blanks around it. -/
def readText {α : Type} (read : Reader α) (text : String) : Except Complaint α := do
  let (a, rest) ← read text.toList
  match skipSpace rest with
  | [] => return a
  | _ :: _ => throw .malformed

end Uniprocessor.Json
