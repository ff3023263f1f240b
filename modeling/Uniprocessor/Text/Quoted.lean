import Uniprocessor.Text.Printable

/-!
# Quoted text

Messages quote text that came from outside. Between double quotes, a double quote and a backslash
have a backslash before them, the line end, the carriage return, the tab and the null character are
written by their short escapes, every other character that cannot be printed as it is by its code
point in hexadecimal digits, and all else stands for itself.
-/

namespace Uniprocessor.Text

/-- The hexadecimal digits of a number, in lower case. -/
def hexDigits (n : Nat) : List Char := Nat.toDigits 16 n

/-- How a character is written between quotes. -/
def quotedChar (c : Char) : List Char :=
  if c = '"' then ['\\', '"']
  else if c = '\\' then ['\\', '\\']
  else if c = '\n' then ['\\', 'n']
  else if c = '\r' then ['\\', 'r']
  else if c = '\t' then ['\\', 't']
  else if c = '\x00' then ['\\', '0']
  else if isPrintable c then [c]
  else ['\\', 'u', '\x7b'] ++ hexDigits c.toNat ++ ['\x7d']

/-- A text in quotes. -/
def quoted (s : String) : String :=
  String.ofList ('"' :: s.toList.flatMap quotedChar ++ ['"'])

end Uniprocessor.Text
