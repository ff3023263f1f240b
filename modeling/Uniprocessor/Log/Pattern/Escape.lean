import Uniprocessor.Text.Blank
import Uniprocessor.Text.Natural

/-!
# Modes and escapes of patterns

A mode decides how a pattern is read. It may allow blanks and comments between the parts of the
pattern, it may let the case of letters not matter, and it may make the pattern one about bytes.

Nothing is known here about characters that would need a table of them. So classes such as that of
all digits, and the edges of words, exist among bytes only, and case can be ignored only there. On
the other hand, a pattern about bytes must not match a part of a character.
-/

namespace Uniprocessor.Pattern

/-- How a pattern is read. -/
structure Mode where
  /-- whether there may be blanks and comments between its parts -/
  isSpaced : Bool := false
  /-- whether the case of letters does not matter -/
  ignoresCase : Bool := false
  /-- whether it is about bytes -/
  isBytewise : Bool := false
  deriving DecidableEq, Repr

/-- Passes over blanks and comments, which go from a number sign to the end of its line. -/
def skipSpace (inComment : Bool) : List Char → List Char
  | [] => []
  | c :: rest =>
    if inComment then skipSpace (c ≠ '\n') rest
    else if Text.isBlank c then skipSpace false rest
    else if c = '#' then skipSpace true rest
    else c :: rest

/-- The first character that is neither blank nor the number sign of the first comment. -/
def firstVisible? (inComment : Bool) : List Char → Option Char
  | [] => none
  | c :: rest =>
    if Text.isBlank c then firstVisible? inComment rest
    else if c = '#' && !inComment then firstVisible? true rest
    else some c

namespace Mode

/-- Passes over what may stand between two parts. -/
def skip (m : Mode) (cs : List Char) : List Char := if m.isSpaced then skipSpace false cs else cs

/-- The character to look at behind a minus sign in a class. -/
def peek? (m : Mode) (cs : List Char) : Option Char :=
  if m.isSpaced then firstVisible? false cs else cs.head?

/-- Whether a character may stand for itself outside of classes. Among bytes, one that is written by
two hexadecimal digits has to be a whole character. -/
def admits (m : Mode) (c : Char) (isByte : Bool) : Bool :=
  if m.isBytewise then !isByte || c.toNat ≤ 0x7f else !m.ignoresCase

/-- Whether a character may be in a class. -/
def admitsInClass (m : Mode) (c : Char) : Bool :=
  if m.isBytewise then c.toNat ≤ 0x7f else !m.ignoresCase

/-- Whether there are the classes that have letters as their names. Their complements have parts of
characters in them. -/
def hasLetterClass (m : Mode) (isNegated : Bool) : Bool := m.isBytewise && !isNegated

/-- Whether a class in brackets may be negated. -/
def admitsNegation (m : Mode) : Bool := !m.isBytewise

/-- Whether there are the classes that have words as their names. -/
def hasWordClass (m : Mode) (isNegated : Bool) : Bool :=
  if m.isBytewise then !isNegated else !m.ignoresCase

end Mode

/-- What is behind a backslash. -/
inductive Escape where
  /-- a character, or the byte of two hexadecimal digits -/
  | char (c : Char) (isByte : Bool)
  /-- a place between characters, possibly the edge of a word -/
  | place (isWordEdge : Bool)
  /-- a class of characters, or all but these -/
  | letterClass (isNegated : Bool)
  deriving DecidableEq, Repr

/-- Reads hexadecimal digits behind the number that earlier ones write. -/
def readHex? (m : Mode) : Nat → Nat → List Char → Option (Nat × List Char)
  | 0, n, cs => some (n, cs)
  | count + 1, n, cs =>
    match m.skip cs with
    | [] => none
    | c :: rest => (Text.hexValue? c).bind fun digit => readHex? m count (16 * n + digit) rest

/-- Reads the character that hexadecimal digits are the code point of. -/
def readCodePoint? (m : Mode) (digits : Nat) (isByte : Bool) (cs : List Char) :
    Option (Escape × List Char) := do
  let (n, rest) ← readHex? m digits 0 cs
  if n.isValidChar then some (.char (Char.ofNat n) isByte, rest) else none

/-- The control characters that have a letter of their own. -/
def controls : List (Char × Char) :=
  [('a', '\x07'), ('f', '\x0c'), ('t', '\t'), ('n', '\n'), ('r', '\r'), ('v', '\x0b')]

/-- Reads an escape, behind its backslash. -/
def readEscape? (m : Mode) : List Char → Option (Escape × List Char)
  | [] => none
  | 'x' :: rest => readCodePoint? m 2 true rest
  | 'u' :: rest => readCodePoint? m 4 false rest
  | 'U' :: rest => readCodePoint? m 8 false rest
  | c :: rest =>
    if ['d', 's', 'w'].contains c then some (.letterClass false, rest)
    else if ['D', 'S', 'W'].contains c then some (.letterClass true, rest)
    else if ['A', 'z'].contains c then some (.place false, rest)
    else if ['b', 'B', '<', '>'].contains c then some (.place true, rest)
    else
      match controls.lookup c with
      | some control => some (.char control false, rest)
      | none => if c.toNat ≤ 0x7f && !c.isAlphanum then some (.char c false, rest) else none

end Uniprocessor.Pattern
