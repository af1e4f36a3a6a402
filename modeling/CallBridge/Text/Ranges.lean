/-!
# Sets of characters given by ranges

A character property of the Unicode standard is a list of inclusive ranges of code points.
-/

namespace CallBridge.Text

/-- Whether `n` lies in one of the ranges, which are in ascending order. -/
def inRanges (n : Nat) : List (Nat × Nat) → Bool
  | [] => false
  | (low, high) :: rest => if n < low then false else n ≤ high || inRanges n rest

end CallBridge.Text
