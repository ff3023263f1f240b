/-!
# Columns and groups of digits

A column has a width: a shorter text is filled up with spaces, a longer one is not cut. Large
numbers are easier to read with an underscore between groups of three digits, counted from the
right.
-/

namespace Uniprocessor.Text

/-- Fills up with spaces on the left to at least `width` characters. -/
def alignRight (width : Nat) (s : String) : String :=
  String.ofList (List.replicate (width - s.length) ' ') ++ s

/-- Fills up with spaces on the right to at least `width` characters. -/
def alignLeft (width : Nat) (s : String) : String :=
  s ++ String.ofList (List.replicate (width - s.length) ' ')

/-- Puts an underscore behind every character that has a positive multiple of three characters
after it. -/
def groupByThree : List Char → List Char
  | [] => []
  | [c] => [c]
  | c :: d :: rest =>
    if (d :: rest).length % 3 = 0 then c :: '_' :: groupByThree (d :: rest)
    else c :: groupByThree (d :: rest)

/-- A number in decimal digits, in groups of three. -/
def grouped (n : Nat) : String := String.ofList (groupByThree (Nat.toDigits 10 n))

end Uniprocessor.Text
