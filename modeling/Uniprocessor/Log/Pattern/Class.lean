import Uniprocessor.Log.Pattern.Escape

/-!
# Classes of patterns

A class in brackets has characters, ranges of characters, classes that have a name, and further
classes in brackets. Operators between two lists of these make one class of two: what is in both, in
the first only, or in one of them only. An empty list is a class as well.

Only whether a text is a class matters, so reading one keeps nothing but how deep it is nested.
-/

namespace Uniprocessor.Pattern

/-- How deep some parts are nested that stand side by side. -/
structure Nesting where
  /-- how many they are -/
  count : Nat := 0
  /-- the depth of the deepest -/
  deepest : Nat := 0
  deriving DecidableEq, Repr

namespace Nesting

/-- One more part. -/
def add (n : Nesting) (depth : Nat) : Nesting := ⟨n.count + 1, max n.deepest depth⟩

/-- The depth of the parts together. More than one of them are a level of their own. -/
def depth (n : Nesting) : Nat := if n.count ≤ 1 then n.deepest else n.deepest + 1

end Nesting

/-- What has been read of a class in brackets. -/
structure ClassSoFar where
  /-- the depth of what is before the last operator, if there is one -/
  left : Option Nat := none
  /-- what is behind it -/
  members : Nesting := {}
  /-- whether there is nothing yet but minus signs -/
  isFresh : Bool := true
  deriving DecidableEq, Repr

namespace ClassSoFar

/-- One more member. -/
def add (s : ClassSoFar) (depth : Nat) : ClassSoFar :=
  { s with members := s.members.add depth, isFresh := false }

/-- The depth of all that has been read. -/
def depth (s : ClassSoFar) : Nat :=
  match s.left with
  | none => s.members.depth
  | some left => max left s.members.depth + 1

/-- What has been read is what is before an operator. -/
def operate (s : ClassSoFar) : ClassSoFar := { left := some s.depth, isFresh := false }

end ClassSoFar

/-- The names of classes. -/
def classNames : List String :=
  ["alnum", "alpha", "ascii", "blank", "cntrl", "digit", "graph", "lower", "print", "punct",
   "space", "upper", "word", "xdigit"]

/-- Reads a class by its name, behind the opening bracket, and whether it is negated. -/
def readNamed? : List Char → Option (Bool × List Char)
  | ':' :: rest =>
    let (isNegated, rest) := match rest with
      | '^' :: rest => (true, rest)
      | rest => (false, rest)
    match rest.dropWhile (· ≠ ':') with
    | ':' :: ']' :: behind =>
      if classNames.contains (String.ofList (rest.takeWhile (· ≠ ':'))) then
        some (isNegated, behind)
      else none
    | _ => none
  | _ => none

/-- Reads an end of a range: a character, or a class that has no place there. -/
def readEnd? (m : Mode) : List Char → Option (Option Char × List Char)
  | [] => none
  | '\\' :: rest =>
    match readEscape? m rest with
    | some (.char c _, rest) => if m.admitsInClass c then some (some c, rest) else none
    | some (.letterClass isNegated, rest) =>
      if m.hasLetterClass isNegated then some (none, rest) else none
    | _ => none
  | c :: rest => if m.admitsInClass c then some (some c, rest) else none

/-- Reads a character, a range or a class with a letter as its name. A minus sign before a closing
bracket or another minus sign makes no range. -/
def readMember? (m : Mode) (cs : List Char) : Option (List Char) := do
  let (first, rest) ← readEnd? m cs
  match m.skip rest with
  | [] => none
  | '-' :: behind =>
    if [some ']', some '-'].contains (m.peek? behind) then some ('-' :: behind)
    else
      let (last, rest) ← readEnd? m (m.skip behind)
      match first, last with
      | some first, some last => if first ≤ last then some rest else none
      | _, _ => none
  | rest => some rest

/-- Reads the sign of negation behind an opening bracket, if it is there and may be. -/
def readNegation? (m : Mode) (cs : List Char) : Option (List Char) :=
  match m.skip cs with
  | '^' :: rest => if m.admitsNegation then some rest else none
  | rest => some rest

/-- Reads the members of a class and its closing bracket, and gives back how deep they are nested.
Every member takes at least one character, so as many steps as the text has characters are
enough. -/
def readMembersWithin (m : Mode) : Nat → ClassSoFar → List Char → Option (Nat × List Char)
  | 0, _, _ => none
  | steps + 1, s, cs =>
    match m.skip cs with
    | [] => none
    | ']' :: rest =>
      if s.isFresh && s.members.count = 0 then
        if m.admitsInClass ']' then readMembersWithin m steps (s.add 0) rest else none
      else some (s.depth, rest)
    | '[' :: rest =>
      match readNamed? rest with
      | some (isNegated, rest) =>
        if m.hasWordClass isNegated then readMembersWithin m steps (s.add 0) rest else none
      | none => do
        let rest ← readNegation? m rest
        let (depth, rest) ← readMembersWithin m steps {} rest
        readMembersWithin m steps (s.add (depth + 1)) rest
    | c :: rest =>
      if c = '-' && s.isFresh then
        if m.admitsInClass c then
          readMembersWithin m steps { s with members := s.members.add 0 } rest
        else none
      else if ['&', '-', '~'].contains c && rest.head? = some c then
        readMembersWithin m steps s.operate (rest.drop 1)
      else do
        let rest ← readMember? m (c :: rest)
        readMembersWithin m steps (s.add 0) rest

/-- Reads a class behind its opening bracket, and gives back how deep it is nested. -/
def readClass? (m : Mode) (cs : List Char) : Option (Nat × List Char) := do
  let rest ← readNegation? m cs
  let (depth, rest) ← readMembersWithin m (rest.length + 1) {} rest
  return (depth + 1, rest)

end Uniprocessor.Pattern
