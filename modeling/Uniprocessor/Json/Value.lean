import Uniprocessor.Json.Number
import Uniprocessor.Json.Punctuation
import Uniprocessor.Json.Quotation

/-!
# Integers, options and lists in JSON text

A value of the wrong kind is refused as soon as its first token has been read: a list or a record at
its opening bracket, anything else when it has been read to its end, so that what is not JSON there
is refused as such.
-/

namespace Uniprocessor.Json

/-- The complaint about a number where something else was expected. -/
def Number.found : Number → Found
  | .integer value => .integer value
  | .fractional => .fractional

/-- What stands at the front of a text, which is not what was expected. -/
def readFound : List Char → Except Complaint Found
  | [] => .error .malformed
  | '[' :: _ => .ok .array
  | '\x7b' :: _ => .ok .object
  | '"' :: rest => do
    let (s, _) ← readQuoted rest
    return .text s
  | 'n' :: rest => do
    let _ ← readWord ['u', 'l', 'l'] rest
    return .null
  | 't' :: rest => do
    let _ ← readWord ['r', 'u', 'e'] rest
    return .boolean true
  | 'f' :: rest => do
    let _ ← readWord ['a', 'l', 's', 'e'] rest
    return .boolean false
  | c :: rest =>
    if c = '-' ∨ isDigit c then do
      let (n, _) ← readNumber (c :: rest)
      return n.found
    else throw .malformed

/-- Refuses what stands at the front of a text. -/
def refuse {α : Type} (expected : String) (cs : List Char) : Except Complaint α := do
  let found ← readFound cs
  throw (.misshapen (.wrongKind found expected))

/-- A kind of unsigned integers. -/
structure IntegerKind where
  /-- its name in complaints -/
  name : String
  /-- its largest value -/
  largest : Nat
  deriving DecidableEq, Repr

/-- Unsigned integers of 32 bits. -/
def narrow : IntegerKind := ⟨"u32", 0xffffffff⟩

/-- Unsigned integers of 64 bits. -/
def wide : IntegerKind := ⟨"u64", 0xffffffffffffffff⟩

/-- Unsigned integers of 64 bits that count or number things in memory. -/
def index : IntegerKind := ⟨"usize", 0xffffffffffffffff⟩

/-- The value of a number as an unsigned integer of a kind. -/
def Number.toNat (kind : IntegerKind) : Number → Except Misshape Nat
  | .fractional => .error (.wrongKind .fractional kind.name)
  | .integer value =>
    if 0 ≤ value ∧ value ≤ kind.largest then .ok value.toNat
    else .error (.outOfRange (.integer value) kind.name)

/-- Reads an unsigned integer of a kind. -/
def readNat (kind : IntegerKind) : Reader Nat := fun cs =>
  match skipSpace cs with
  | [] => .error .ended
  | c :: rest =>
    if c = '-' ∨ isDigit c then do
      let (n, rest) ← readNumber (c :: rest)
      match n.toNat kind with
      | .ok value => return (value, rest)
      | .error how => throw (.misshapen how)
    else refuse kind.name (c :: rest)

/-- Reads a value that may also be null. -/
def readOption {α : Type} (read : Reader α) : Reader (Option α) := fun cs =>
  match skipSpace cs with
  | 'n' :: rest => do
    let (_, rest) ← readWord ['u', 'l', 'l'] rest
    return (none, rest)
  | cs => do
    let (a, rest) ← read cs
    return (some a, rest)

/-- Reads the elements of a list and its closing bracket. Every element takes at least one
character, so as many steps as the text has characters are enough. -/
def readElementsWithin {α : Type} (read : Reader α) : Nat → Bool → Reader (List α)
  | 0, _, _ => .error .ended
  | steps + 1, first, cs => do
    match ← nextElement first cs with
    | none => return ([], ← closeList cs)
    | some cs =>
      let (a, cs) ← read cs
      let (as, cs) ← readElementsWithin read steps false cs
      return (a :: as, cs)

/-- Reads a list. -/
def readList {α : Type} (read : Reader α) : Reader (List α) := fun cs =>
  match skipSpace cs with
  | [] => .error .ended
  | '[' :: rest => readElementsWithin read (rest.length + 1) true rest
  | c :: rest => refuse "a sequence" (c :: rest)

end Uniprocessor.Json
