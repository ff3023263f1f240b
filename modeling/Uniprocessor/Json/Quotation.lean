import Uniprocessor.Json.Complaint
import Uniprocessor.Text.Natural
import Uniprocessor.Text.Slice

/-!
# Strings in JSON text

A string goes up to the next double quote. Control characters must not stand in it as they are; a
backslash begins an escape. An escape by code has four hexadecimal digits, and a character beyond
the sixteen-bit codes is written as two such escapes, the halves of a surrogate pair, of which
neither may stand alone.
-/

namespace Uniprocessor.Json

/-- The character of a short escape. -/
def shortEscape? (c : Char) : Option Char :=
  match c with
  | '"' => some '"'
  | '\\' => some '\\'
  | '/' => some '/'
  | 'b' => some '\x08'
  | 'f' => some '\x0c'
  | 'n' => some '\n'
  | 'r' => some '\r'
  | 't' => some '\t'
  | _ => none

/-- Whether a text has at least four bytes. -/
def hasFourBytes (cs : List Char) : Bool := 4 ≤ Text.byteLength (cs.take 4)

/-- Reads the four digits of an escape by code. A text of fewer than four bytes ended too early. -/
def readCode : Reader Nat
  | a :: b :: c :: d :: rest =>
    match Text.hexValue? a, Text.hexValue? b, Text.hexValue? c, Text.hexValue? d with
    | some a, some b, some c, some d => .ok (((a * 16 + b) * 16 + c) * 16 + d, rest)
    | _, _, _, _ => .error .malformed
  | cs => if hasFourBytes cs then .error .malformed else .error .ended

/-- Whether a code is the first half of a surrogate pair. -/
def isHighSurrogate (n : Nat) : Bool := 0xd800 ≤ n && n ≤ 0xdbff

/-- Whether a code is the second half of a surrogate pair. -/
def isLowSurrogate (n : Nat) : Bool := 0xdc00 ≤ n && n ≤ 0xdfff

/-- Reads the second half of a surrogate pair, with the escape that begins it. -/
def readLowSurrogate (high : Nat) : Reader Char
  | [] => .error .ended
  | '\\' :: [] => .error .ended
  | '\\' :: 'u' :: rest => do
    let (low, rest) ← readCode rest
    if isLowSurrogate low then
      return (Char.ofNat (0x10000 + (high - 0xd800) * 0x400 + (low - 0xdc00)), rest)
    else throw .malformed
  | _ => .error .malformed

/-- Reads a character escaped by its code, behind the letter that begins the escape. -/
def readCoded : Reader Char := fun cs => do
  let (n, rest) ← readCode cs
  if isLowSurrogate n then throw .malformed
  else if isHighSurrogate n then readLowSurrogate n rest
  else return (Char.ofNat n, rest)

/-- Reads an escaped character behind the backslash. -/
def readEscaped : Reader Char
  | [] => .error .ended
  | 'u' :: rest => readCoded rest
  | c :: rest =>
    match shortEscape? c with
    | some d => .ok (d, rest)
    | none => .error .malformed

/-- Reads the characters of a string up to its closing quote. Every character takes at least one of
the text, so as many steps as the text has characters are enough. -/
def readCharsWithin : Nat → Reader (List Char)
  | 0, _ => .error .ended
  | _ + 1, [] => .error .ended
  | steps + 1, c :: rest =>
    if c = '"' then .ok ([], rest)
    else if c = '\\' then do
      let (d, rest) ← readEscaped rest
      let (ds, rest) ← readCharsWithin steps rest
      return (d :: ds, rest)
    else if c.toNat < 0x20 then .error .malformed
    else do
      let (ds, rest) ← readCharsWithin steps rest
      return (c :: ds, rest)

/-- Reads a string behind its opening quote. -/
def readQuoted : Reader String := fun cs => do
  let (ds, rest) ← readCharsWithin cs.length cs
  return (String.ofList ds, rest)

end Uniprocessor.Json
