/-!
# Ranges of code points

Properties of characters are tables of ranges of code points, in increasing order and apart from
each other.
-/

namespace Uniprocessor.Text

/-- Whether one of the ranges has `n`; both ends of a range belong to it. The ranges must be in
increasing order: the search stops at the first that begins behind `n`. -/
def inRanges : List (Nat × Nat) → Nat → Bool
  | [], _ => false
  | (first, last) :: rest, n =>
    if n < first then false else if n ≤ last then true else inRanges rest n

end Uniprocessor.Text
