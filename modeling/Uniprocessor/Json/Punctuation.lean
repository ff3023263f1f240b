import Uniprocessor.Json.Complaint

/-!
# Blanks, words and separators

Between the tokens of a JSON text there may be spaces, tabs, line ends and carriage returns, and no
other blanks. Elements of lists and members of records are separated by commas, with none behind
the last.
-/

namespace Uniprocessor.Json

/-- Whether a character may stand between tokens. -/
def isSpace (c : Char) : Bool := c = ' ' || c = '\t' || c = '\n' || c = '\r'

/-- The text from the next token on. -/
def skipSpace (cs : List Char) : List Char := cs.dropWhile isSpace

/-- Reads exactly these characters. -/
def readWord : List Char → Reader Unit
  | [], cs => .ok ((), cs)
  | _ :: _, [] => .error .ended
  | w :: word, c :: cs => if c = w then readWord word cs else .error .malformed

/-- Goes to the next element of a list, of which `first` says whether it is the first. There is none
if the list closes here; the closing bracket is left in place. -/
def nextElement (first : Bool) (cs : List Char) : Except Complaint (Option (List Char)) :=
  match skipSpace cs with
  | [] => .error .ended
  | ']' :: _ => .ok none
  | c :: rest =>
    if first then .ok (some (c :: rest))
    else if c = ',' then
      match skipSpace rest with
      | [] => .error .ended
      | ']' :: _ => .error .malformed
      | d :: rest => .ok (some (d :: rest))
    else .error .malformed

/-- Closes a list behind its last element. -/
def closeList (cs : List Char) : Except Complaint (List Char) :=
  match skipSpace cs with
  | [] => .error .ended
  | ']' :: rest => .ok rest
  | _ :: _ => .error .malformed

/-- Goes to the key of the next member of a record, past its opening quote. There is none if the
record closes here; the rest is then what follows the closing brace. -/
def nextMember (first : Bool) (cs : List Char) : Except Complaint (Bool × List Char) :=
  match skipSpace cs with
  | [] => .error .ended
  | '\x7d' :: rest => .ok (false, rest)
  | c :: rest =>
    if first then if c = '"' then .ok (true, rest) else .error .malformed
    else if c = ',' then
      match skipSpace rest with
      | [] => .error .ended
      | '"' :: rest => .ok (true, rest)
      | _ :: _ => .error .malformed
    else .error .malformed

/-- Reads the colon between a key and its value. -/
def readColon (cs : List Char) : Except Complaint (List Char) :=
  match skipSpace cs with
  | [] => .error .ended
  | ':' :: rest => .ok rest
  | _ :: _ => .error .malformed

end Uniprocessor.Json
