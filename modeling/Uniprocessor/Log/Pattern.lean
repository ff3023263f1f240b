import Uniprocessor.Log.Pattern.Class
import Uniprocessor.Text.Alphanumeric

/-!
# Patterns

The value of a field may be compared with a pattern, a regular expression. No record is known by the
value of a field, so all that matters is whether a text is a pattern: nothing is ever matched.

A pattern has alternatives with bars between them, and these have parts: characters, escapes,
classes, places such as the beginning of a line, and groups in parentheses. A part may be repeated.
A group, or what is behind one that has nothing but flags, may be read in another mode. Parts may be
nested to some depth only.

A count of repetitions would stand between braces, but a directive ends the pattern before the
closing one. So an opening brace that does not stand for itself is always wrong.
-/

namespace Uniprocessor.Pattern

/-- How deep parts may be nested. -/
def deepestNesting : Nat := 250

/-- What has been read of a group, or of the whole pattern. -/
structure GroupSoFar where
  /-- how what follows is read -/
  mode : Mode := {}
  /-- the alternatives before the last bar -/
  alternatives : Nesting := {}
  /-- the parts behind it -/
  parts : Nesting := {}
  /-- the depth of the last of them, if it may be repeated -/
  last : Option Nat := none
  deriving DecidableEq, Repr

namespace GroupSoFar

/-- One more part. -/
def add (g : GroupSoFar) (depth : Nat) : GroupSoFar :=
  { g with parts := g.parts.add depth, last := some depth }

/-- Flags for what follows. They are a part that cannot be repeated. -/
def switch (g : GroupSoFar) (mode : Mode) : GroupSoFar :=
  { g with mode := mode, parts := g.parts.add 0, last := none }

/-- The last part is repeated. -/
def repeat? (g : GroupSoFar) : Option GroupSoFar :=
  g.last.map fun depth =>
    { g with
      parts := { g.parts with deepest := max g.parts.deepest (depth + 1) }
      last := some (depth + 1) }

/-- The parts that have been read are an alternative. -/
def endAlternative (g : GroupSoFar) : GroupSoFar :=
  { mode := g.mode, alternatives := g.alternatives.add g.parts.depth }

/-- The depth of all that has been read. -/
def depth (g : GroupSoFar) : Nat := g.endAlternative.alternatives.depth

end GroupSoFar

/-- The mode behind some flags, of which those behind a minus sign are turned off. -/
def Mode.flagged (m : Mode) (flags : List Char) : Mode :=
  let isOn := (flags.takeWhile (· ≠ '-')).contains
  let isOff := (flags.dropWhile (· ≠ '-')).contains
  { isSpaced := (m.isSpaced || isOn 'x') && !isOff 'x'
    ignoresCase := (m.ignoresCase || isOn 'i') && !isOff 'i'
    isBytewise := (m.isBytewise || isOff 'u') && !isOn 'u' }

/-- Whether these are flags: each of them at most once, and one behind the minus sign. -/
def areFlags (flags : List Char) : Bool :=
  flags.all ['i', 'm', 's', 'U', 'u', 'R', 'x', '-'].contains && flags.Nodup &&
    flags.getLast? ≠ some '-'

/-- Whether a character may be in the name of a group. -/
def isNameChar (c : Char) : Bool :=
  Text.isAlphanumeric c || ['_', '.', '[', ']'].contains c

/-- Whether this is the name of a group. -/
def isGroupName : List Char → Bool
  | [] => false
  | c :: rest => (c = '_' || Text.isAlphabetic c) && rest.all isNameChar

/-- What an opening parenthesis begins. -/
inductive Opening where
  /-- a group, which may have a name -/
  | group (mode : Mode) (name : Option (List Char))
  /-- nothing but flags -/
  | flags (mode : Mode)
  deriving DecidableEq, Repr

/-- Reads the name of a group and the closing angle bracket. -/
def readGroupName? (m : Mode) (cs : List Char) : Option (Opening × List Char) :=
  let name := cs.takeWhile (· ≠ '>')
  match cs.dropWhile (· ≠ '>') with
  | _ :: rest => if isGroupName name then some (.group m (some name), rest) else none
  | [] => none

/-- Reads flags and the colon or the closing parenthesis behind them. -/
def readFlags? (m : Mode) (cs : List Char) : Option (Opening × List Char) :=
  let isFlag := fun c => c ≠ ':' && c ≠ ')'
  let flags := cs.takeWhile isFlag
  if !areFlags flags then none
  else
    match cs.dropWhile isFlag with
    | ':' :: rest => some (.group (m.flagged flags) none, rest)
    | _ :: rest => if flags.isEmpty then none else some (.flags (m.flagged flags), rest)
    | [] => none

/-- Reads what is between an opening parenthesis and the parts of its group. -/
def readOpening? (m : Mode) (cs : List Char) : Option (Opening × List Char) :=
  match m.skip cs with
  | '?' :: 'P' :: '<' :: rest => readGroupName? m rest
  | '?' :: '<' :: rest => readGroupName? m rest
  | '?' :: rest => readFlags? m rest
  | rest => some (.group m none, rest)

/-- Reads a part that is neither a group nor a repetition, from its first character on, and gives
back how deep it is nested. -/
def readPart? (m : Mode) : Char → List Char → Option (Nat × List Char)
  | '[', rest => readClass? m rest
  | '\x7b', _ => none
  | '.', rest => if m.isBytewise then none else some (0, rest)
  | '^', rest => some (0, rest)
  | '$', rest => some (0, rest)
  | '\\', rest =>
    match readEscape? m rest with
    | some (.char c isByte, rest) => if m.admits c isByte then some (0, rest) else none
    | some (.place isWordEdge, rest) => if isWordEdge && !m.isBytewise then none else some (0, rest)
    | some (.letterClass isNegated, rest) =>
      if m.hasLetterClass isNegated then some (0, rest) else none
    | none => none
  | c, rest => if m.admits c false then some (0, rest) else none

/-- Passes over the question mark that makes a repetition prefer fewer rounds. -/
def skipPreference : List Char → List Char
  | '?' :: rest => rest
  | rest => rest

/-- Reads the parts of a pattern to its end, within the open groups and behind the names of earlier
ones, and gives back how deep it is nested. Every step takes at least one character, so as many
steps as the text has characters are enough. -/
def readWithin :
    Nat → List GroupSoFar → GroupSoFar → List (List Char) → List Char → Option Nat
  | 0, _, _, _, _ => none
  | steps + 1, outer, g, names, cs =>
    match g.mode.skip cs, outer with
    | [], [] => some g.depth
    | [], _ => none
    | '(' :: rest, outer =>
      match readOpening? g.mode rest with
      | some (.flags mode, rest) => readWithin steps outer (g.switch mode) names rest
      | some (.group mode none, rest) => readWithin steps (g :: outer) { mode := mode } names rest
      | some (.group mode (some name), rest) =>
        if names.contains name then none
        else readWithin steps (g :: outer) { mode := mode } (name :: names) rest
      | none => none
    | ')' :: _, [] => none
    | ')' :: rest, around :: outer =>
      readWithin steps outer (around.add (g.depth + 1)) names rest
    | '|' :: rest, outer => readWithin steps outer g.endAlternative names rest
    | c :: rest, outer =>
      if ['?', '*', '+'].contains c then do
        readWithin steps outer (← g.repeat?) names (skipPreference rest)
      else do
        let (depth, rest) ← readPart? g.mode c rest
        readWithin steps outer (g.add depth) names rest

/-- Whether a text is a pattern. -/
def isPattern (text : List Char) : Bool :=
  (readWithin (text.length + 1) [] {} [] text).any (· ≤ deepestNesting)

/-- Whether an exponent is complete, or there is none. -/
def isExponent : List Char → Bool
  | [] => true
  | c :: rest =>
    let digits := match rest with
      | '+' :: digits => digits
      | '-' :: digits => digits
      | digits => digits
    (c = 'e' || c = 'E') && !digits.isEmpty && digits.all Char.isDigit

/-- Whether a text without a sign is a number in decimal digits, or one of the words for what is no
such number. -/
def isUnsignedNumber (text : List Char) : Bool :=
  let fraction := text.dropWhile Char.isDigit
  let hasDigits := !(text.takeWhile Char.isDigit).isEmpty
  ["inf", "infinity", "nan"].contains (String.ofList (text.map Char.toLower)) ||
    match fraction with
    | '.' :: rest =>
      (hasDigits || !(rest.takeWhile Char.isDigit).isEmpty) &&
        isExponent (rest.dropWhile Char.isDigit)
    | rest => hasDigits && isExponent rest

/-- Whether a field may have this value: a pattern, or a number behind a plus sign, which is none.
Without that sign numbers are patterns. -/
def isFieldValue : List Char → Bool
  | '+' :: rest => isUnsignedNumber rest
  | text => isPattern text

end Uniprocessor.Pattern
