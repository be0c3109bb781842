/-!
# Character classes given by ranges of code points
-/

namespace Reckon

namespace Text

/-- The code point lies in one of the ranges, whose ends are included. The ranges are in ascending
order, so the search stops at the first one that begins past the code point. -/
def inRanges (code : Nat) : List (Nat × Nat) → Bool
  | [] => false
  | (first, last) :: rest => first ≤ code && (code ≤ last || inRanges code rest)

end Text

end Reckon
