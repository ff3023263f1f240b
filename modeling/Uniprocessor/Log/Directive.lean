import Uniprocessor.Log.Level
import Uniprocessor.Log.Pattern
import Uniprocessor.Text.Slice

/-!
# Directives

A directive says how far the log goes for some of its records. Those it is about may be limited to
a source, by the front part of its name, to a field that a record must have, and to a span of work
that a record must belong to. The text of a directive is a threshold, or a scope that may have a
threshold behind an equals sign:

    debug
    engine
    engine=debug
    engine[span]=debug
    engine[{field}]=debug
    engine[{field=pattern}]=debug

A scope without a threshold asks for everything. No record belongs to a span, or is known by the
value of a field, so a directive that asks for one of these is about no record.

A directive is read without the blanks around it, which decides where its parts begin and end. But
each part is what the text *with* the blanks has between these positions, and the threshold goes on
to the end of that text. So a directive behind blanks means something else than it seems to, and has
no meaning at all if a position is inside of a character.
-/

namespace Uniprocessor

/-- The records that a directive is about. -/
structure Scope where
  /-- what the name of their source begins with -/
  source : Option String := none
  /-- a field that they have -/
  field : Option String := none
  /-- whether they have what no record has, a span to belong to or the value of a field -/
  vacuous : Bool := false
  deriving DecidableEq, Repr

/-- How far the log goes for some of its records. -/
structure Directive where
  /-- the records -/
  scope : Scope
  /-- how far the log goes for them -/
  threshold : Threshold
  deriving DecidableEq, Repr

/-- What is wrong with a directive. -/
inductive Misdirection where
  /-- it is no directive -/
  | malformed
  /-- one of its parts would begin or end inside of a character -/
  | torn
  deriving DecidableEq, Repr

/-- Whether a scope has records of a source. -/
def Scope.concernsSource (s : Scope) (source : String) : Bool :=
  !s.vacuous && s.source.all fun front => front.toList.isPrefixOf source.toList

/-- Whether a scope has a record of a source with these fields. The message counts as one. -/
def Scope.concerns (s : Scope) (source : String) (fields : List String) : Bool :=
  s.concernsSource source && s.field.all fun field => ("message" :: fields).contains field

namespace Directive

/-- The part of a text from one position to another. -/
def part (text : List Char) (start stop : Nat) : Except Misdirection (List Char) :=
  match Text.slice? start stop text with
  | some cs => .ok cs
  | none => .error .torn

/-- Limits a scope to a field that is described by its name, and possibly a value behind an equals
sign. What is behind a second equals sign does not count. -/
def limitToField (s : Scope) (description : List Char) : Except Misdirection Scope :=
  let field := some (String.ofList (description.takeWhile (· ≠ '=')))
  match description.dropWhile (· ≠ '=') with
  | [] => if description.isEmpty then .error .malformed else .ok { s with field := field }
  | _ :: rest =>
    if Pattern.isFieldValue (rest.takeWhile (· ≠ '=')) then
      .ok { s with field := field, vacuous := true }
    else .error .malformed

/-- Completes a directive with what is behind its scope, from a position on: nothing, or an equals
sign and a threshold, which may be left out. -/
def close (text : List Char) (s : Scope) (start : Nat) : List Char → Except Misdirection Directive
  | [] => .ok ⟨s, some .trace⟩
  | '=' :: _ => do
    let level ← part text (start + 1) (Text.byteLength text)
    if level.isEmpty then return ⟨s, some .trace⟩
    else
      match Threshold.read? (String.ofList level) with
      | some threshold => return ⟨s, threshold⟩
      | none => throw .malformed
  | _ => .error .malformed

/-- Reads what limits a scope to a field, behind an opening brace, and completes the directive. -/
def readField (text : List Char) (s : Scope) (start : Nat) (body : List Char) :
    Except Misdirection Directive :=
  let isInside := (· ≠ '\x7d')
  let stop := start + Text.byteLength (body.takeWhile isInside)
  match body.dropWhile isInside with
  | [] => .error .malformed
  | _ :: behind => do
    let s ← limitToField s (← part text start stop)
    match behind with
    | ']' :: rest => close text s (stop + 2) rest
    | _ => throw .malformed

/-- Reads what limits a scope to a span or a field, behind an opening bracket, and completes the
directive. -/
def readLimit (text : List Char) (s : Scope) (start : Nat) (body : List Char) :
    Except Misdirection Directive :=
  let isInside := fun c => c ≠ ']' && c ≠ '\x7b'
  let stop := start + Text.byteLength (body.takeWhile isInside)
  match body.dropWhile isInside with
  | [] => .error .malformed
  | ']' :: rest => do
    let _ ← part text start stop
    close text { s with vacuous := true } (stop + 1) rest
  | _ :: rest => do
    let span ← part text start stop
    readField text { s with vacuous := !span.isEmpty } (stop + 1) rest

/-- Whether a directive may begin with a character, if not with a bracket. -/
def isInitial (c : Char) : Bool :=
  c = '-' || c = ':' || c = '_' || Text.isAlphanumeric c

/-- Reads a directive. A text without a scope that is no threshold is the name of a source. -/
def read (text : String) : Except Misdirection Directive :=
  let chars := text.toList
  let body := (Text.trimmed text).toList
  let isName := fun c => c ≠ '=' && c ≠ '['
  let stop := Text.byteLength (body.takeWhile isName)
  match body with
  | [] => .error .malformed
  | '[' :: rest => readLimit chars {} 1 rest
  | c :: _ =>
    if !isInitial c then .error .malformed
    else
      match body.dropWhile isName with
      | [] =>
        match Threshold.read? text with
        | some threshold => .ok ⟨{}, threshold⟩
        | none => .ok ⟨{ source := some text }, some .trace⟩
      | delimiter :: rest => do
        let s := { source := some (String.ofList (← part chars 0 stop)) }
        if delimiter = '[' then readLimit chars s (stop + 1) rest
        else close chars s stop (delimiter :: rest)

end Directive

end Uniprocessor
