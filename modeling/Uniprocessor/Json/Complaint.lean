import Uniprocessor.Text.Quoted

/-!
# Complaints about JSON text

Reading a text as a value of a known shape stops at the first character that does not fit. There are
three ways not to fit: the text ends too early, the text is not JSON, or it is JSON so far and has
the wrong shape. Only a wrong shape says more.
-/

namespace Uniprocessor.Json

/-- A value that was found where another was expected. -/
inductive Found where
  /-- the word for no value -/
  | null
  /-- one of the two words for truth values -/
  | boolean (value : Bool)
  /-- an integer -/
  | integer (value : Int)
  /-- a number that is not an integer in range; its digits are not kept -/
  | fractional
  /-- a string -/
  | text (value : String)
  /-- the opening bracket of a list -/
  | array
  /-- the opening brace of a record -/
  | object
  deriving DecidableEq, Repr

/-- A found value, as a complaint shows it. -/
def Found.label : Found → String
  | .null => "null"
  | .boolean value => "boolean \x60" ++ (if value then "true" else "false") ++ "\x60"
  | .integer value => "integer \x60" ++ toString value ++ "\x60"
  | .fractional => "floating point"
  | .text value => "string " ++ Text.quoted value
  | .array => "sequence"
  | .object => "map"

/-- How a value has the wrong shape. -/
inductive Misshape where
  /-- a record without a field that it must have -/
  | missingField (name : String)
  /-- a record with a field twice -/
  | duplicateField (name : String)
  /-- a record with a field that no such record has -/
  | unknownField (name : String) (known : List String)
  /-- a value of another kind -/
  | wrongKind (found : Found) (expected : String)
  /-- an integer that is too large or too small -/
  | outOfRange (found : Found) (expected : String)
  /-- a record written as a list that ends before the field at this position -/
  | tooShort (position : Nat) (expected : String)
  deriving DecidableEq, Repr

/-- A name between grave accents. -/
private def ticked (name : String) : String := "\x60" ++ name ++ "\x60"

/-- The text that reports a wrong shape. -/
def Misshape.message : Misshape → String
  | .missingField name => "missing field " ++ ticked name
  | .duplicateField name => "duplicate field " ++ ticked name
  | .unknownField name known =>
    "unknown field " ++ ticked name ++ ", expected one of " ++
      ", ".intercalate (known.map ticked)
  | .wrongKind found expected => "invalid type: " ++ found.label ++ ", expected " ++ expected
  | .outOfRange found expected => "invalid value: " ++ found.label ++ ", expected " ++ expected
  | .tooShort position expected => s!"invalid length {position}, expected " ++ expected

/-- Why reading stopped. -/
inductive Complaint where
  /-- the text ends within the value -/
  | ended
  /-- the text is not JSON here -/
  | malformed
  /-- the value has the wrong shape -/
  | misshapen (how : Misshape)
  deriving DecidableEq, Repr

/-- Reads a value off the front of a text, and leaves the rest. -/
abbrev Reader (α : Type) := List Char → Except Complaint (α × List Char)

end Uniprocessor.Json
