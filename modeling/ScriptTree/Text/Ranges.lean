/-!
Sets of code points, written as ascending lists of ranges.
-/

namespace ScriptTree

namespace Text

/-- Whether `n` lies in one of the ranges, each given by its first and last member. The ranges are
in ascending order, so the search ends at the first range above `n`. -/
def inRanges : List (Nat × Nat) → Nat → Bool
  | [], _ => false
  | (first, last) :: rest, n => if n < first then false else n ≤ last || inRanges rest n

end Text

end ScriptTree
